import WzxServer.Events

/-!
# What a request depends on

`co_work` casts the buffer to the structure of a request and compares no size, so a handler
reads on behind a frame that is too short : what an earlier request left in `msgBuffer`, or
the next one. `Isolated` says that a frame is handled the same, operation by operation and
whatever is answered, in every buffer that has its bytes. `isolated_iff_contained` says which
frames are : those whose texts end inside of them, and that have all else which the handler
of their kind reads (`Request.RestWithin`).

Enough is shown by reading each field inside the frame (`isolated_of_contained`). For the
converse a byte behind the frame is changed that some operation shows : a text that goes on
gets another end, a time another value, an image another size or other pixels.

A text that does not fit into `strSql` ends a handler here. The real one writes past the end
of the array and goes on; nothing is said of what it does then.
-/

namespace WzxServer

open Prog Proc

attribute [local irreducible] toInt

/-- The buffers agree on the first `n` bytes. -/
def Agree (n : ℕ) (b b' : ℕ → UInt8) : Prop :=
  ∀ i < n, b' i = b i

/-- What `co_work` does with a frame depends on the bytes of the frame only : it asks for the
same operations on the same answers. -/
def Isolated (v : Vision) (b : ℕ → UInt8) : Prop :=
  ∀ b', Agree (headerOf b).dataLength.toNat b b' → coWork v ⟨b'⟩ = coWork v ⟨b⟩

/-- `imwrite` and `imread` look at the geometry of an image and at its pixels. -/
def Vision.Local (v : Vision) : Prop :=
  ∀ m m' : Mat, m'.rows = m.rows → m'.cols = m.cols → m'.type = m.type →
    m'.data.take (v.matSize m) = m.data.take (v.matSize m) → v.reread m' = v.reread m

/-- The offsets of the texts that are read for a request. -/
def textOffs : Cmd → List ℕ
  | .addFace => [8, 28, 48, 68 + faceSize + 12]
  | .getUser | .delGroup => [8]
  | .delUser | .detect | .messagrRecentSession | .online | .offline | .loginTouXiang
  | .getTouXiang => [8, 28]
  | .login | .changeTouXiang => [8, 28, 48]
  | .messageCreate => [8, 28, 48, 68, 88]
  | .messageSend => [8, 28, 48, 68, 92]
  | .messageHistory => [8, 28, 48, 68]
  | _ => []

/-- The text at `off` ends within the first `n` bytes. -/
def Terminated (b : ℕ → UInt8) (n off : ℕ) : Prop :=
  ∃ i, off ≤ i ∧ i < n ∧ b i = 0

/-- Besides its texts, what the handler of a request reads lies in the first `n` bytes. Nothing
else is read after a statement that does not fit into its array. -/
def Request.RestWithin (v : Vision) (n : ℕ) : Request → Prop
  | .addFace d =>
    (Stmt.userExist d.m_classnum d.m_account d.m_password).text.length < 256 →
      (Stmt.addUserInfo d.m_classnum d.m_account d.m_password d.m_touxiang).text.length < 200 →
        ∀ length, CDetectModel.imageLength v d.image = some length →
          toSize (length + 1) ≤ d.image.data.length → 68 + toSize (length + 1) ≤ n
  | .detect d =>
    (Stmt.detectOneFace d.m_classnum d.m_account).text.length < 256 →
      48 + faceSize + 10 ≤ n ∧ 48 + v.matSize d.image ≤ n
  | .messageHistory d =>
    (Stmt.getUserId d.fromClassNum d.fromAccount).text.length < 100 →
      (Stmt.getUserId d.toClassNum d.toAccount).text.length < 100 → 92 ≤ n
  | .recentSession classNum account _ =>
    (Stmt.getUserId classNum account).text.length < 100 → 1128 ≤ n
  | _ => True

/-- What is read for the request at the front of the buffer lies in its frame. -/
def Contained (v : Vision) (b : ℕ → UInt8) : Prop :=
  (headerOf b).dataLength.toNat = msgBufferSize ∨
    ∀ c, coWorkCase (headerOf b).cmd = some c →
      (∀ off ∈ textOffs c, Terminated b (headerOf b).dataLength.toNat off) ∧
        ∀ request, decode b c = some request →
          request.RestWithin v (headerOf b).dataLength.toNat

/-! ## Reading a buffer -/

section Reading

variable {b b' : ℕ → UInt8} {n off : ℕ}

theorem msgBufferSize_eq : msgBufferSize = 8388608 :=
  rfl

theorem faceSize_eq : faceSize = 1048576 :=
  rfl

/-- Bytes before `n` are the same. -/
theorem slice_congr {m : ℕ} (h : Agree n b b') (hm : off + m ≤ n) :
    slice b' off m = slice b off m := by
  unfold slice
  refine List.map_congr_left fun i hi => ?_
  rw [List.mem_range] at hi
  exact h _ (by omega)

/-- So is a number before `n`. -/
theorem intAt_congr (h : Agree n b b') (hoff : off + 4 ≤ n) : intAt b' off = intAt b off := by
  rw [intAt, intAt, h _ (by omega), h _ (by omega), h _ (by omega), h _ (by omega)]

theorem isInt_intAt (b : ℕ → UInt8) (off : ℕ) : IsInt (intAt b off) := by
  rw [intAt, int32]
  exact ⟨neg_le_toInt _, toInt_le_intMax _⟩

/-- The low bits of an `int` are in its first bytes. -/
theorem int32_emod (x y z w : UInt8) :
    int32 x y z w % 4096 = (x.toNat + 256 * y.toNat : ℤ) % 4096 := by
  rw [int32, toInt, Int.bmod_def]
  split_ifs <;> omega

/-- The type of an image has its depth and channels in two bytes. -/
theorem intAt_emod_congr (h : Agree n b b') (hoff : off + 2 ≤ n) :
    intAt b' off % 4096 = intAt b off % 4096 := by
  rw [intAt, intAt, int32_emod, int32_emod, h _ (by omega), h _ (by omega)]

/-- So are the first bytes of a field. -/
theorem take_slice_congr {m k : ℕ} (h : Agree n b b') (hm : off + m ≤ n) :
    (slice b' off k).take m = (slice b off k).take m := by
  rcases le_total m k with hle | hle
  · rw [take_slice hle, take_slice hle, slice_congr h hm]
  · rw [List.take_of_length_le (by rwa [length_slice]),
      List.take_of_length_le (by rwa [length_slice]), slice_congr h (by omega)]

/-- A text that ends within the frame is the same. -/
theorem cString_congr (h : Agree n b b') (hn : n ≤ msgBufferSize) (ht : Terminated b n off) :
    cString b' off = cString b off := by
  obtain ⟨i, hoff, hi, hzero⟩ := ht
  have hmem : (0 : UInt8) ∈ slice b off (n - off) := by
    rw [slice, List.mem_map]
    refine ⟨i - off, List.mem_range.mpr (by omega), ?_⟩
    rw [show off + (i - off) = i by omega, hzero]
  have hsplit : ∀ c : ℕ → UInt8, slice c off (msgBufferSize - off) =
      slice c off (n - off) ++ slice c (off + (n - off)) (msgBufferSize - n) := by
    intro c
    rw [slice_append]
    congr 1
    omega
  have htake : ∀ s t : Bytes, (0 : UInt8) ∈ s →
      (s ++ t).takeWhile (· ≠ 0) = s.takeWhile (· ≠ 0) := by
    intro s t hs
    rw [List.takeWhile_append, if_neg]
    intro hlen
    have heq := (List.takeWhile_sublist (p := (· ≠ 0)) (l := s)).eq_of_length hlen
    have hall := List.takeWhile_eq_self_iff.mp heq 0 hs
    simp at hall
  have hread : ∀ c : ℕ → UInt8, (0 : UInt8) ∈ slice c off (n - off) →
      cString c off = some ((slice c off (n - off)).takeWhile (· ≠ 0)) := by
    intro c hc
    rw [cString, hsplit, if_pos (List.mem_append_left _ hc), htake _ _ hc]
  have hslice : slice b' off (n - off) = slice b off (n - off) := slice_congr h (by omega)
  rw [hread b hmem, hread b' (hslice ▸ hmem), hslice]

/-- Without a NUL up to the end of the buffer there is no text. -/
theorem cString_eq_none (h : ∀ i, off ≤ i → b i ≠ 0) : cString b off = none := by
  rw [cString, if_neg]
  rw [slice, List.mem_map]
  rintro ⟨i, -, hi⟩
  exact h _ (Nat.le_add_right _ _) hi

theorem cString_isSome {i : ℕ} (hoff : off ≤ i) (hi : i < msgBufferSize) (h : b i = 0) :
    (cString b off).isSome = true := by
  rw [cString, if_pos]
  · rfl
  · rw [slice, List.mem_map]
    refine ⟨i - off, List.mem_range.mpr (by omega), ?_⟩
    rw [show off + (i - off) = i by omega, h]

end Reading

/-! ## Reading a request -/

section Decoding

variable {b b' : ℕ → UInt8} {n : ℕ} {c : Cmd}

/-- Buffers that agree everywhere hold the same requests. -/
theorem decode_congr_all (h : Agree msgBufferSize b b') : decode b' c = decode b c := by
  have hslice : ∀ off, slice b' off (msgBufferSize - off) = slice b off (msgBufferSize - off) := by
    intro off
    rcases le_total off msgBufferSize with hle | hle
    · exact slice_congr h (by omega)
    · rw [Nat.sub_eq_zero_of_le hle, slice, slice, List.range_zero, List.map_nil, List.map_nil]
  have htext : ∀ off, cString b' off = cString b off := fun off => by
    rw [cString, cString, hslice]
  have hint : ∀ off, off ≤ 68 + faceSize + 8 → intAt b' off = intAt b off := fun off hoff =>
    intAt_congr h (by rw [faceSize_eq] at hoff; rw [msgBufferSize_eq]; omega)
  have hface : ∀ off, off ≤ 68 → faceAt b' off = faceAt b off := fun off hoff => by
    rw [faceAt, faceAt, hint _ (by omega), hint _ (by omega), hint _ (by omega), hslice]
  cases c <;> simp only [decode, htext]
  · rw [hface 68 (by omega)]
  · rw [hface 48 (by omega)]
  · rw [hint 88 (by rw [faceSize_eq]; omega)]
  · rw [hint 88 (by rw [faceSize_eq]; omega)]
  · rw [hint 1124 (by rw [faceSize_eq]; omega)]

/-- The two buffers hold the same texts of a request. -/
def SameTexts (c : Cmd) (b b' : ℕ → UInt8) : Prop :=
  ∀ off ∈ textOffs c, ∃ s, cString b off = some s ∧ cString b' off = some s

/-- ADDFACE is decoded to the same texts, with an image each. -/
theorem SameTexts.addFace (h : SameTexts .addFace b b') : ∃ s1 s2 s3 s4,
    decode b .addFace = some (.addFace ⟨s1, s2, s3, s4, faceAt b 68⟩) ∧
      decode b' .addFace = some (.addFace ⟨s1, s2, s3, s4, faceAt b' 68⟩) := by
  simp only [SameTexts, textOffs, List.forall_mem_cons] at h
  obtain ⟨⟨s1, h1, h1'⟩, ⟨s2, h2, h2'⟩, ⟨s3, h3, h3'⟩, ⟨s4, h4, h4'⟩, -⟩ := h
  refine ⟨s1, s2, s3, s4, ?_, ?_⟩
  · rw [decode, h1, h2, h3, h4]
    rfl
  · rw [decode, h1', h2', h3', h4']
    rfl

/-- DETECT likewise. -/
theorem SameTexts.detect (h : SameTexts .detect b b') : ∃ s1 s2,
    decode b .detect = some (.detect ⟨s1, s2, faceAt b 48⟩) ∧
      decode b' .detect = some (.detect ⟨s1, s2, faceAt b' 48⟩) := by
  simp only [SameTexts, textOffs, List.forall_mem_cons] at h
  obtain ⟨⟨s1, h1, h1'⟩, ⟨s2, h2, h2'⟩, -⟩ := h
  refine ⟨s1, s2, ?_, ?_⟩
  · rw [decode, h1, h2]
    rfl
  · rw [decode, h1', h2']
    rfl

/-- MESSAGE_HISTORY likewise, with a time each. -/
theorem SameTexts.messageHistory (h : SameTexts .messageHistory b b') : ∃ s1 s2 s3 s4,
    decode b .messageHistory = some (.messageHistory ⟨s1, s2, s3, s4, intAt b 88⟩) ∧
      decode b' .messageHistory = some (.messageHistory ⟨s1, s2, s3, s4, intAt b' 88⟩) := by
  simp only [SameTexts, textOffs, List.forall_mem_cons] at h
  obtain ⟨⟨s1, h1, h1'⟩, ⟨s2, h2, h2'⟩, ⟨s3, h3, h3'⟩, ⟨s4, h4, h4'⟩, -⟩ := h
  refine ⟨s1, s2, s3, s4, ?_, ?_⟩
  · rw [decode, h1, h2, h3, h4]
    rfl
  · rw [decode, h1', h2', h3', h4']
    rfl

/-- MESSAGR_RECENT_SESSION likewise. -/
theorem SameTexts.recentSession (h : SameTexts .messagrRecentSession b b') : ∃ s1 s2,
    decode b .messagrRecentSession = some (.recentSession s1 s2 (intAt b 1124)) ∧
      decode b' .messagrRecentSession = some (.recentSession s1 s2 (intAt b' 1124)) := by
  simp only [SameTexts, textOffs, List.forall_mem_cons] at h
  obtain ⟨⟨s1, h1, h1'⟩, ⟨s2, h2, h2'⟩, -⟩ := h
  refine ⟨s1, s2, ?_, ?_⟩
  · rw [decode, h1, h2]
    rfl
  · rw [decode, h1', h2']
    rfl

/-- A buffer whose texts end is decoded. -/
theorem exists_decode {off : ℕ} (hoff : off ∈ textOffs c)
    (h : ∀ off ∈ textOffs c, (cString b off).isSome = true) :
    ∃ request, decode b c = some request := by
  simp only [Option.isSome_iff_exists] at h
  cases c <;> simp only [textOffs, List.not_mem_nil, List.forall_mem_cons] at hoff h
  all_goals
    simp [decode, Option.bind_eq_some_iff, h]

/-- One text that goes on to the end of the buffer is enough for it not to be. -/
theorem decode_eq_none {off : ℕ} (hoff : off ∈ textOffs c) (h : cString b off = none) :
    decode b c = none := by
  cases c <;> simp only [textOffs, List.mem_cons, List.not_mem_nil, or_false] at hoff
  all_goals
    rcases hoff with rfl | rfl | rfl | rfl | rfl <;>
      simp only [decode, h, Option.bind_eq_bind, Option.bind_none, Option.bind_fun_none]

end Decoding

/-! ## What a handler does with the rest of a request -/

attribute [local irreducible] faceSize msgBufferSize slice intAt

/-- A lookup that does not fit sends nothing. -/
theorem getUserId_unfit {classnum account : Bytes}
    (h : ¬(Stmt.getUserId classnum account).text.length < 100) :
    CUserModel.getUserId classnum account = ask (.getDBConn 0) >>= fun _ => fault .overrun := by
  rw [CUserModel.getUserId, openQuery, sprintf, if_neg h]
  rfl

/-- The time does not matter where a lookup does not fit. -/
theorem messageHistory_congr {d : MessageHistoryData} {t : ℤ}
    (h : (Stmt.getUserId d.fromClassNum d.fromAccount).text.length < 100 →
      (Stmt.getUserId d.toClassNum d.toAccount).text.length < 100 → t = d.lastupdatetime) :
    MessageHistoryEvent { d with lastupdatetime := t } = MessageHistoryEvent d := by
  by_cases hfrom : (Stmt.getUserId d.fromClassNum d.fromAccount).text.length < 100
  · by_cases hto : (Stmt.getUserId d.toClassNum d.toAccount).text.length < 100
    · rw [h hfrom hto]
    · unfold MessageHistoryEvent
      simp only [getUserId_unfit hto, bind_assoc, fault_bind]
  · unfold MessageHistoryEvent
    simp only [getUserId_unfit hfrom, bind_assoc, fault_bind]

/-- Nor here. -/
theorem recentSession_congr {classNum account : Bytes} {t t' : ℤ}
    (h : (Stmt.getUserId classNum account).text.length < 100 → t' = t) :
    RescentSessionEvent classNum account t' = RescentSessionEvent classNum account t := by
  by_cases hfit : (Stmt.getUserId classNum account).text.length < 100
  · rw [h hfit]
  · unfold RescentSessionEvent
    simp only [getUserId_unfit hfit, bind_assoc, fault_bind]

section Images

variable {v : Vision} {rows cols type : ℤ} {s s' : Bytes}

/-- Of an image its geometry matters and what is sent of it. -/
theorem storeImage_congr {newConnect : Conn} {stmt : ImageParams → Stmt}
    (hsent : ∀ length, CDetectModel.imageLength v ⟨rows, cols, type, s⟩ = some length →
      CDetectModel.sentBytes ⟨rows, cols, type, s'⟩ length =
        CDetectModel.sentBytes ⟨rows, cols, type, s⟩ length) :
    CDetectModel.storeImage v newConnect ⟨rows, cols, type, s'⟩ stmt =
      CDetectModel.storeImage v newConnect ⟨rows, cols, type, s⟩ stmt := by
  have hlength : CDetectModel.imageLength v ⟨rows, cols, type, s'⟩ =
      CDetectModel.imageLength v ⟨rows, cols, type, s⟩ := rfl
  unfold CDetectModel.storeImage
  rw [hlength]
  rcases h : CDetectModel.imageLength v ⟨rows, cols, type, s⟩ with _ | length
  · rfl
  · simp only [defined, ret_bind, hsent length h]

/-- What is registered with a face are the bytes that are sent. -/
theorem addFace_congr {classnum account password touxiang : Bytes}
    (h : (Stmt.userExist classnum account password).text.length < 256 →
      (Stmt.addUserInfo classnum account password touxiang).text.length < 200 →
        ∀ length, CDetectModel.imageLength v ⟨rows, cols, type, s⟩ = some length →
          CDetectModel.sentBytes ⟨rows, cols, type, s'⟩ length =
            CDetectModel.sentBytes ⟨rows, cols, type, s⟩ length) :
    LoginAddFaceEvent v ⟨classnum, account, password, touxiang, ⟨rows, cols, type, s'⟩⟩ =
      LoginAddFaceEvent v ⟨classnum, account, password, touxiang, ⟨rows, cols, type, s⟩⟩ := by
  by_cases hexist : (Stmt.userExist classnum account password).text.length < 256
  · by_cases hinfo : (Stmt.addUserInfo classnum account password touxiang).text.length < 200
    · unfold LoginAddFaceEvent CDetectModel.add
      simp only [storeImage_congr (h hexist hinfo)]
    · unfold LoginAddFaceEvent CUserModel.addUserInfo openQuery sprintf
      simp only [if_neg hinfo, bind_assoc, fault_bind]
  · unfold LoginAddFaceEvent CUserModel.userExist openQuery sprintf
    simp only [if_neg hexist, bind_assoc, fault_bind]

/-- What is sent of an image lies before `n`. -/
theorem sentBytes_congr {b b' : ℕ → UInt8} {n m : ℕ} {length : ℤ} (h : Agree n b b')
    (hn : toSize (length + 1) ≤ m → 68 + toSize (length + 1) ≤ n) :
    CDetectModel.sentBytes ⟨rows, cols, type, slice b' 68 m⟩ length =
      CDetectModel.sentBytes ⟨rows, cols, type, slice b 68 m⟩ length := by
  unfold CDetectModel.sentBytes
  simp only [length_slice]
  split_ifs with hle
  · rw [take_slice hle, take_slice hle, slice_congr h (hn hle)]
  · rfl

/-- Of the image of DETECT matters what the file gives back. -/
theorem detectFace_congr {classnum account : Bytes} {image image' : Mat}
    (h : (Stmt.detectOneFace classnum account).text.length < 256 →
      v.reread image' = v.reread image) :
    detectFaceEvent v ⟨classnum, account, image'⟩ =
      detectFaceEvent v ⟨classnum, account, image⟩ := by
  unfold detectFaceEvent CDetectModel.detectOneFace openQuery sprintf
  by_cases hfit : (Stmt.detectOneFace classnum account).text.length < 256
  · simp only [h hfit]
  · simp only [if_neg hfit, bind_assoc, fault_bind]

end Images

section Contained

variable {v : Vision} {b b' : ℕ → UInt8} {n : ℕ} {c : Cmd}

/-- The last text is the avatar of ADDFACE. -/
theorem textOffs_le {off : ℕ} (hoff : off ∈ textOffs c) : off ≤ 68 + faceSize + 12 := by
  rw [faceSize_eq]
  cases c <;> simp only [textOffs, faceSize_eq, List.mem_cons, List.not_mem_nil, or_false] at hoff
  all_goals omega

theorem coWorkSwitch_of_decode {request : Request} (h : decode b c = some request) :
    coWorkSwitch v b (some c) = doEvent v request := by
  rw [coWorkSwitch, h]
  rfl

/-- Texts that end before `n` are the same. -/
theorem sameTexts_of_terminated (hn : n ≤ msgBufferSize) (h : Agree n b b')
    (hterm : ∀ off ∈ textOffs c, Terminated b n off) : SameTexts c b b' := by
  intro off hoff
  obtain ⟨i, hi, hlt, hzero⟩ := hterm off hoff
  obtain ⟨s, hs⟩ := Option.isSome_iff_exists.mp (cString_isSome hi (hlt.trans_le hn) hzero)
  exact ⟨s, hs, (cString_congr h hn (hterm off hoff)).trans hs⟩

variable (hn : n ≤ msgBufferSize) (h : Agree n b b')

include hn h

/-- An ADDFACE frame that has all it needs is handled the same. -/
theorem coWorkSwitch_addFace_congr (hterm : ∀ off ∈ textOffs .addFace, Terminated b n off)
    (hrest : ∀ request, decode b .addFace = some request → request.RestWithin v n) :
    coWorkSwitch v b' (some .addFace) = coWorkSwitch v b (some .addFace) := by
  obtain ⟨s1, s2, s3, s4, hdecode, hdecode'⟩ := (sameTexts_of_terminated hn h hterm).addFace
  obtain ⟨i, hi, hlt, -⟩ := hterm (68 + faceSize + 12) (by simp [textOffs])
  have hface : faceAt b' 68 = ⟨(faceAt b 68).rows, (faceAt b 68).cols, (faceAt b 68).type,
      slice b' 68 (msgBufferSize - 68)⟩ := by
    rw [faceAt, faceAt, intAt_congr h (by omega), intAt_congr h (by omega),
      intAt_congr h (by omega)]
    rfl
  rw [coWorkSwitch_of_decode hdecode, coWorkSwitch_of_decode hdecode', hface]
  refine addFace_congr fun hexist hinfo length hlength => ?_
  refine sentBytes_congr h fun hle => ?_
  refine hrest _ hdecode hexist hinfo length hlength ?_
  rw [faceAt, Mat.make, length_slice]
  exact hle

/-- A DETECT frame likewise. -/
theorem coWorkSwitch_detect_congr (hv : v.Local)
    (hterm : ∀ off ∈ textOffs .detect, Terminated b n off)
    (hrest : ∀ request, decode b .detect = some request → request.RestWithin v n) :
    coWorkSwitch v b' (some .detect) = coWorkSwitch v b (some .detect) := by
  obtain ⟨s1, s2, hdecode, hdecode'⟩ := (sameTexts_of_terminated hn h hterm).detect
  rw [coWorkSwitch_of_decode hdecode, coWorkSwitch_of_decode hdecode']
  refine detectFace_congr fun hfit => ?_
  obtain ⟨hgeometry, hpixels⟩ := hrest _ hdecode hfit
  refine hv _ _ ?_ ?_ ?_ ?_
  · exact intAt_congr h (by omega)
  · exact intAt_congr h (by omega)
  · exact intAt_emod_congr h (by omega)
  · exact take_slice_congr h hpixels

/-- A MESSAGE_HISTORY frame likewise. -/
theorem coWorkSwitch_messageHistory_congr
    (hterm : ∀ off ∈ textOffs .messageHistory, Terminated b n off)
    (hrest : ∀ request, decode b .messageHistory = some request → request.RestWithin v n) :
    coWorkSwitch v b' (some .messageHistory) = coWorkSwitch v b (some .messageHistory) := by
  obtain ⟨s1, s2, s3, s4, hdecode, hdecode'⟩ :=
    (sameTexts_of_terminated hn h hterm).messageHistory
  rw [coWorkSwitch_of_decode hdecode, coWorkSwitch_of_decode hdecode']
  refine messageHistory_congr (d := ⟨s1, s2, s3, s4, intAt b 88⟩) fun hfrom hto => ?_
  exact intAt_congr h (hrest _ hdecode hfrom hto)

/-- A MESSAGR_RECENT_SESSION frame likewise. -/
theorem coWorkSwitch_recentSession_congr
    (hterm : ∀ off ∈ textOffs .messagrRecentSession, Terminated b n off)
    (hrest : ∀ request, decode b .messagrRecentSession = some request →
      request.RestWithin v n) :
    coWorkSwitch v b' (some .messagrRecentSession) =
      coWorkSwitch v b (some .messagrRecentSession) := by
  obtain ⟨s1, s2, hdecode, hdecode'⟩ := (sameTexts_of_terminated hn h hterm).recentSession
  rw [coWorkSwitch_of_decode hdecode, coWorkSwitch_of_decode hdecode']
  exact recentSession_congr fun hfit => intAt_congr h (hrest _ hdecode hfit)

/-- What a handler does is the same on buffers that agree on the first `n` bytes, when what
it reads lies in these. -/
theorem coWorkSwitch_congr (hv : v.Local)
    (hterm : ∀ off ∈ textOffs c, Terminated b n off)
    (hrest : ∀ request, decode b c = some request → request.RestWithin v n) :
    coWorkSwitch v b' (some c) = coWorkSwitch v b (some c) := by
  have hcongr : ∀ off ∈ textOffs c, cString b' off = cString b off := fun off hoff =>
    cString_congr h hn (hterm off hoff)
  cases c
  case addFace => exact coWorkSwitch_addFace_congr hn h hterm hrest
  case detect => exact coWorkSwitch_detect_congr hn h hv hterm hrest
  case messageHistory => exact coWorkSwitch_messageHistory_congr hn h hterm hrest
  case messagrRecentSession => exact coWorkSwitch_recentSession_congr hn h hterm hrest
  case messageSend =>
    obtain ⟨i, hi, hlt, -⟩ := hterm 92 (by simp [textOffs])
    simp only [textOffs, List.forall_mem_cons, List.not_mem_nil, false_implies, implies_true,
      and_true] at hcongr
    simp only [coWorkSwitch, decode, hcongr, intAt_congr h (show 88 + 4 ≤ n by omega)]
  all_goals
    simp only [textOffs, List.forall_mem_cons, List.not_mem_nil, false_implies, implies_true,
      and_true] at hcongr
    simp only [coWorkSwitch, decode, hcongr]

end Contained

/-- The header is in the frame. -/
theorem headerOf_congr {b b' : ℕ → UInt8} {n : ℕ} (h : Agree n b b') (h8 : 8 ≤ n) :
    headerOf b' = headerOf b := by
  unfold headerOf
  rw [h _ (by omega), h _ (by omega), h _ (by omega), h _ (by omega), h _ (by omega),
    h _ (by omega), h _ (by omega), h _ (by omega)]

/-- A frame that has all it needs is isolated. -/
theorem isolated_of_contained {v : Vision} {b : ℕ → UInt8} (hv : v.Local)
    (h8 : 8 ≤ (headerOf b).dataLength) (hsize : (headerOf b).dataLength ≤ msgBufferSize)
    (h : Contained v b) : Isolated v b := by
  intro b' hagree
  have hheader := headerOf_congr hagree (by omega)
  rw [coWork, coWork]
  simp only [Handed.header, hheader]
  rcases hcase : coWorkCase (headerOf b).cmd with _ | c
  · rfl
  · rcases h with hall | h
    · rw [hall] at hagree
      rw [coWorkSwitch, coWorkSwitch, decode_congr_all hagree]
    · obtain ⟨htexts, hrest⟩ := h c hcase
      exact coWorkSwitch_congr (by omega) hagree hv htexts hrest

/-! ## Frames that are not isolated -/

/-- Surroundings where all calls succeed and all queries find `rows`. -/
def answerWith (rows : List Row) : (o : Op) → o.Ans
  | .getDBConn _ => some 0
  | .executeQuery _ _ => some rows
  | .executeUpdate _ _ | .startTransaction _ | .commit _ | .rollback _ | .init _ _
  | .execute _ _ => true
  | .getInsertId _ | .time | .indeterminate => (0 : ℤ)
  | .userMapFind _ => none
  | .userMapAll => []
  | .peerIp => []
  | .relDBConn _ | .userMapSet _ _ | .memcpy _ _ | .write _ | .read => ()

/-- What `p` asks for when all queries find `rows`. -/
def asked (rows : List Row) (p : Proc Unit) : List Op :=
  (run (fun o log => (answerWith rows o, log ++ [o])) p []).2

/-- Handlers that ask the same were asked from the same time. -/
theorem lastupdatetime_of_messageHistory {d : MessageHistoryData} {t : ℤ} (ht : IsInt t)
    (hd : IsInt d.lastupdatetime)
    (hfrom : (Stmt.getUserId d.fromClassNum d.fromAccount).text.length < 100)
    (hto : (Stmt.getUserId d.toClassNum d.toAccount).text.length < 100)
    (h : MessageHistoryEvent { d with lastupdatetime := t } = MessageHistoryEvent d) :
    t = d.lastupdatetime := by
  have hfit : ∀ n, IsInt n → (Stmt.getMessage 0 1 0 n).text.length < 200 := fun n hn =>
    length_getMessage_lt (by decide) (by decide) hn
  have hasked := congrArg (asked []) h
  simp [asked, MessageHistoryEvent, CUserModel.getUserId, openQuery, sprintf, hfrom, hto, answerWith,
    perform, CRelationModel.getRelationId, lastId, CRelationModel.addRelation, insertPrepared,
    forEach, CMessageModel.getMessage, hfit t ht, hfit _ hd, deref] at hasked
  exact hasked

/-- Likewise for the sessions. -/
theorem lastupdatetime_of_recentSession {classNum account : Bytes} {t t' : ℤ}
    (hfit : (Stmt.getUserId classNum account).text.length < 100)
    (h : RescentSessionEvent classNum account t' = RescentSessionEvent classNum account t) :
    t' = t := by
  have hasked := congrArg (asked []) h
  simp [asked, RescentSessionEvent, CUserModel.getUserId, openQuery, sprintf, hfit, answerWith,
    perform, forEach, CSessionModel.getRecentSession, deref] at hasked
  exact hasked

section Images

variable {v : Vision}

/-- Registrations that ask the same send the same bytes. -/
theorem sentBytes_of_addFace {classnum account password touxiang : Bytes}
    {rows cols type length : ℤ} {s s' : Bytes}
    (hexist : (Stmt.userExist classnum account password).text.length < 256)
    (hinfo : (Stmt.addUserInfo classnum account password touxiang).text.length < 200)
    (hlength : CDetectModel.imageLength v ⟨rows, cols, type, s⟩ = some length)
    (hs : toSize (length + 1) ≤ s.length) (hs' : toSize (length + 1) ≤ s'.length)
    (h : LoginAddFaceEvent v ⟨classnum, account, password, touxiang, ⟨rows, cols, type, s'⟩⟩ =
      LoginAddFaceEvent v ⟨classnum, account, password, touxiang, ⟨rows, cols, type, s⟩⟩) :
    s'.take (toSize (length + 1)) = s.take (toSize (length + 1)) := by
  have hlength' : CDetectModel.imageLength v ⟨rows, cols, type, s'⟩ = some length := hlength
  have hasked := congrArg (asked []) h
  simp [asked, LoginAddFaceEvent, CUserModel.userExist, CUserModel.addUserInfo, openQuery, sprintf,
    hexist, hinfo, answerWith, perform, CDetectModel.add, CDetectModel.storeImage, hlength, hlength',
    CDetectModel.sentBytes, hs, hs', deref, defined] at hasked
  exact hasked

/-- The image with its pixels only. -/
def cut (elemSize : ℤ → ℤ) (m : Mat) : Mat :=
  { m with data := m.data.take (m.rows * m.cols * elemSize m.type).toNat }

/-- A vision that knows one image. -/
def knows (elemSize : ℤ → ℤ) (image : Mat) (other : ℚ) : Vision :=
  ⟨elemSize, cut elemSize, fun m _ => if m = image then 1 else other⟩

/-- A vision that knows one image looks at the pixels only. -/
theorem local_knows (elemSize : ℤ → ℤ) (image : Mat) (other : ℚ) :
    (knows elemSize image other).Local := by
  intro m m' hrows hcols htype hdata
  simp only [knows, Vision.matSize, cut] at hdata ⊢
  rw [hrows, hcols, htype, hdata]

/-- A row of an image without pixels. -/
def blankRow : Row :=
  [(.image, .text [])]

theorem compareRows_blankRow (m : Mat) (classnum account : Bytes) :
    CDetectModel.compareRows v m classnum account [blankRow] =
      if 8 / 10 < v.compareImage m (Mat.make 0 0 0 []) then ret (classnum, account)
      else if v.compareImage m (Mat.make 0 0 0 []) = 0 then
        ret (ascii "noFace", ascii "noFace")
      else ret ([], []) :=
  rfl

/-- What DETECT answers, where the database has the row. -/
theorem asked_detectFace {classnum account : Bytes} {image : Mat} {res : Bytes × Bytes}
    (hfit : (Stmt.detectOneFace classnum account).text.length < 256)
    (hres : CDetectModel.compareRows v (v.reread image) classnum account [blankRow] = ret res) :
    asked [blankRow] (detectFaceEvent v ⟨classnum, account, image⟩) =
      [.getDBConn 0, .executeQuery 0 (.detectOneFace classnum account), .relDBConn 0,
        .write (.detect (if res.2 ≠ account ∨ res.1 ≠ classnum then .detectNoUser
          else .detectSuccess))] := by
  simp only [asked, detectFaceEvent, CDetectModel.detectOneFace, openQuery, sprintf, hfit,
    perform, deref, answerWith, pure_eq_ret, ret_bind, call_bind, run_call, if_true, hres]
  split_ifs <;> rfl

/-- A detection depends on the image that is read back. -/
theorem cut_of_detectFace {elemSize : ℤ → ℤ} {classnum account : Bytes} {image image' : Mat}
    (hfit : (Stmt.detectOneFace classnum account).text.length < 256)
    (h : ∀ other, detectFaceEvent (knows elemSize (cut elemSize image) other)
        ⟨classnum, account, image'⟩ =
      detectFaceEvent (knows elemSize (cut elemSize image) other) ⟨classnum, account, image⟩) :
    cut elemSize image' = cut elemSize image := by
  by_contra hne
  -- The image of the frame is recognised, and the other one is not.
  obtain ⟨other, res, hres, hno⟩ : ∃ (other : ℚ) (res : Bytes × Bytes),
      CDetectModel.compareRows (knows elemSize (cut elemSize image) other)
        (cut elemSize image') classnum account [blankRow] = ret res ∧
      (res.2 ≠ account ∨ res.1 ≠ classnum) := by
    have hother : ∀ other, (knows elemSize (cut elemSize image) other).compareImage
        (cut elemSize image') (Mat.make 0 0 0 []) = other := fun other => if_neg hne
    by_cases hclass : classnum = []
    · refine ⟨0, (ascii "noFace", ascii "noFace"), ?_, Or.inr ?_⟩
      · rw [compareRows_blankRow, hother, if_neg (by norm_num), if_pos rfl]
      · rw [hclass]
        decide
    · refine ⟨1 / 2, ([], []), ?_, Or.inr (Ne.symm hclass)⟩
      rw [compareRows_blankRow, hother, if_neg (by norm_num), if_neg (by norm_num)]
  have hyes : CDetectModel.compareRows (knows elemSize (cut elemSize image) other)
      (cut elemSize image) classnum account [blankRow] = ret (classnum, account) := by
    have hself : (knows elemSize (cut elemSize image) other).compareImage (cut elemSize image)
        (Mat.make 0 0 0 []) = 1 := if_pos rfl
    rw [compareRows_blankRow, hself, if_pos (by norm_num)]
  have hasked := congrArg (asked [blankRow]) (h other)
  rw [asked_detectFace hfit hres, asked_detectFace hfit hyes, if_pos hno] at hasked
  simp at hasked

end Images

/-- Every handler asks for something first. -/
theorem doEvent_ne_fault (v : Vision) (request : Request) (e : Fault) :
    doEvent v request ≠ fault e := by
  cases request <;> nofun

section Changes

variable {b : ℕ → UInt8} {n : ℕ}

/-- The first `n` bytes, with another byte after them. -/
def followed (b : ℕ → UInt8) (n : ℕ) (t : UInt8) : ℕ → UInt8 :=
  fun i => if i < n then b i else t

/-- Another byte at `p`. -/
def bump (b : ℕ → UInt8) (p : ℕ) : ℕ → UInt8 :=
  fun i => if i = p then b i + 1 else b i

theorem agree_followed (t : UInt8) : Agree n b (followed b n t) :=
  fun _ hi => if_pos hi

theorem agree_bump {p : ℕ} (h : n ≤ p) : Agree n b (bump b p) :=
  fun _ hi => if_neg (hi.trans_le h).ne

/-- The bumped byte is another. -/
theorem toNat_bump (p : ℕ) : (bump b p p).toNat = ((b p).toNat + 1) % 256 := by
  rw [bump, if_pos rfl, UInt8.toNat_add]
  rfl

theorem bump_of_ne {p i : ℕ} (h : i ≠ p) : bump b p i = b i :=
  if_neg h

/-- The high byte of an `int` shows. -/
theorem intAt_bump_ne (off : ℕ) : intAt (bump b (off + 3)) off ≠ intAt b off := by
  intro h
  have hmod := congrArg (· % (2 ^ 32 : ℤ)) h
  simp only [intAt, int32, toInt] at hmod
  rw [bump_of_ne (by omega), bump_of_ne (by omega), bump_of_ne (by omega)] at hmod
  have hbump := toNat_bump (b := b) (off + 3)
  have h0 := (b off).toNat_lt
  have h1 := (b (off + 1)).toNat_lt
  have h2 := (b (off + 2)).toNat_lt
  have h3 := (b (off + 3)).toNat_lt
  have h3' := (bump b (off + 3) (off + 3)).toNat_lt
  have hbmod : ∀ n : ℤ, Int.bmod n (2 ^ 32) % (2 ^ 32 : ℤ) = n % 2 ^ 32 := fun n =>
    Int.bmod_emod
  rw [hbmod, hbmod] at hmod
  omega

/-- The low bits of the second byte of a type show. -/
theorem intAt_bump_emod_ne (off : ℕ) :
    intAt (bump b (off + 1)) off % 4096 ≠ intAt b off % 4096 := by
  rw [intAt, intAt, int32_emod, int32_emod, bump_of_ne (by omega)]
  have hbump := toNat_bump (b := b) (off + 1)
  omega

/-- A field that reaches behind `n` shows the bumped byte. -/
theorem take_slice_bump_ne {off m k : ℕ} (hoff : off ≤ n) (hm : n < off + m)
    (hk : n < off + k) : (slice (bump b n) off k).take m ≠ (slice b off k).take m := by
  intro h
  have hget := congrArg (·[n - off]?) h
  rw [List.getElem?_take_of_lt (by omega), List.getElem?_take_of_lt (by omega),
    List.getElem?_eq_getElem (by rw [length_slice]; omega),
    List.getElem?_eq_getElem (by rw [length_slice]; omega), getElem_slice, getElem_slice,
    show off + (n - off) = n by omega] at hget
  have hbump := toNat_bump (b := b) n
  rw [Option.some.inj hget] at hbump
  have hlt := (b n).toNat_lt
  omega

end Changes

section Necessity

variable {v : Vision} {b : ℕ → UInt8} {n : ℕ} {c : Cmd}

/-- A text that goes on behind the frame is undefined without a NUL there, and read with one. -/
theorem terminated_of_congr (hn : n < msgBufferSize)
    (h : ∀ b', Agree n b b' → coWorkSwitch v b' (some c) = coWorkSwitch v b (some c)) {off : ℕ}
    (hoff : off ∈ textOffs c) : Terminated b n off := by
  by_contra hterm
  have hnonzero : ∀ i, off ≤ i → followed b n 1 i ≠ 0 := by
    intro i hi
    unfold followed
    split_ifs with hlt
    · exact fun hzero => hterm ⟨i, hi, hlt, hzero⟩
    · decide
  have hfault : coWorkSwitch v (followed b n 1) (some c) = fault Fault.overread := by
    rw [coWorkSwitch, decode_eq_none hoff (cString_eq_none hnonzero)]
    rfl
  obtain ⟨request, hrequest⟩ : ∃ request, decode (followed b n 0) c = some request := by
    refine exists_decode hoff fun off' hoff' => ?_
    have hle := textOffs_le hoff'
    rw [faceSize_eq] at hle
    refine cString_isSome (le_max_left off' n) (max_lt (by rw [msgBufferSize_eq]; omega) hn) ?_
    exact if_neg (by omega)
  refine doEvent_ne_fault v request .overread ?_
  rw [← coWorkSwitch_of_decode hrequest, h _ (agree_followed 0), ← h _ (agree_followed 1), hfault]

/-- Where the frame settles what a handler does, the texts are the same behind it. -/
theorem sameTexts_of_congr (hn : n < msgBufferSize)
    (h : ∀ b', Agree n b b' → coWorkSwitch v b' (some c) = coWorkSwitch v b (some c))
    {b' : ℕ → UInt8} (hagree : Agree n b b') : SameTexts c b b' :=
  sameTexts_of_terminated hn.le hagree fun _ => terminated_of_congr hn h

/-- An ADDFACE frame that is isolated has the bytes that are sent. -/
theorem restWithin_addFace (hn : n < msgBufferSize) {request : Request}
    (h : ∀ b', Agree n b b' →
      coWorkSwitch v b' (some .addFace) = coWorkSwitch v b (some .addFace))
    (hrequest : decode b .addFace = some request) : request.RestWithin v n := by
  have hagree : Agree n b (bump b n) := agree_bump le_rfl
  obtain ⟨i, hi, hlt, -⟩ := terminated_of_congr hn h
    (show 68 + faceSize + 12 ∈ textOffs .addFace by simp [textOffs])
  obtain ⟨s1, s2, s3, s4, hdecode, hdecode'⟩ := (sameTexts_of_congr hn h hagree).addFace
  obtain rfl := Option.some.inj (hdecode.symm.trans hrequest)
  intro hexist hinfo length hlength hle
  by_contra hgt
  have heq := h _ hagree
  rw [coWorkSwitch_of_decode hdecode, coWorkSwitch_of_decode hdecode'] at heq
  have hface : faceAt (bump b n) 68 = ⟨(faceAt b 68).rows, (faceAt b 68).cols,
      (faceAt b 68).type, slice (bump b n) 68 (msgBufferSize - 68)⟩ := by
    rw [faceAt, faceAt, intAt_congr hagree (by omega), intAt_congr hagree (by omega),
      intAt_congr hagree (by omega)]
    rfl
  rw [hface] at heq
  have hlen : (faceAt b 68).data.length = msgBufferSize - 68 := length_slice _ _ _
  have htake := sentBytes_of_addFace hexist hinfo hlength hle (by rwa [length_slice, ← hlen]) heq
  exact take_slice_bump_ne (by omega) (by omega) (by omega) htake

/-- A MESSAGE_HISTORY frame that is isolated has its time. -/
theorem restWithin_messageHistory (hn : n < msgBufferSize) {request : Request}
    (h : ∀ b', Agree n b b' →
      coWorkSwitch v b' (some .messageHistory) = coWorkSwitch v b (some .messageHistory))
    (hrequest : decode b .messageHistory = some request) : request.RestWithin v n := by
  have hagree : Agree n b (bump b (max n (88 + 3))) := agree_bump (le_max_left _ _)
  obtain ⟨s1, s2, s3, s4, hdecode, hdecode'⟩ := (sameTexts_of_congr hn h hagree).messageHistory
  obtain rfl := Option.some.inj (hdecode.symm.trans hrequest)
  intro hfrom hto
  by_contra hlt
  have heq := h _ hagree
  rw [coWorkSwitch_of_decode hdecode, coWorkSwitch_of_decode hdecode'] at heq
  have htime := lastupdatetime_of_messageHistory (d := ⟨s1, s2, s3, s4, intAt b 88⟩)
    (isInt_intAt _ _) (isInt_intAt _ _) hfrom hto heq
  rw [max_eq_right (by omega)] at htime
  exact intAt_bump_ne 88 htime

/-- So has a MESSAGR_RECENT_SESSION frame. -/
theorem restWithin_recentSession (hn : n < msgBufferSize) {request : Request}
    (h : ∀ b', Agree n b b' →
      coWorkSwitch v b' (some .messagrRecentSession) =
        coWorkSwitch v b (some .messagrRecentSession))
    (hrequest : decode b .messagrRecentSession = some request) : request.RestWithin v n := by
  have hagree : Agree n b (bump b (max n (1124 + 3))) := agree_bump (le_max_left _ _)
  obtain ⟨s1, s2, hdecode, hdecode'⟩ := (sameTexts_of_congr hn h hagree).recentSession
  obtain rfl := Option.some.inj (hdecode.symm.trans hrequest)
  intro hfit
  by_contra hlt
  have heq := h _ hagree
  rw [coWorkSwitch_of_decode hdecode, coWorkSwitch_of_decode hdecode'] at heq
  have htime := lastupdatetime_of_recentSession hfit heq
  rw [max_eq_right (by omega)] at htime
  exact intAt_bump_ne 1124 htime

/-- The image of a detection is told from any other by some vision. -/
theorem restWithin_detect (hn : n < msgBufferSize) {request : Request}
    (h : ∀ v' : Vision, v'.elemSize = v.elemSize → v'.Local → ∀ b', Agree n b b' →
      coWorkSwitch v' b' (some .detect) = coWorkSwitch v' b (some .detect))
    (hrequest : decode b .detect = some request) : request.RestWithin v n := by
  have hterm := h (knows v.elemSize (faceAt b 48) 0) rfl (local_knows _ _ _)
  have hagree : Agree n b (bump b (max n (48 + faceSize + 8 + 1))) := agree_bump (le_max_left _ _)
  obtain ⟨s1, s2, hdecode, hdecode'⟩ := (sameTexts_of_congr hn hterm hagree).detect
  obtain rfl := Option.some.inj (hdecode.symm.trans hrequest)
  intro hfit
  have hevent : ∀ other, detectFaceEvent (knows v.elemSize (cut v.elemSize (faceAt b 48)) other)
      ⟨s1, s2, faceAt (bump b (max n (48 + faceSize + 8 + 1))) 48⟩ =
      detectFaceEvent (knows v.elemSize (cut v.elemSize (faceAt b 48)) other)
        ⟨s1, s2, faceAt b 48⟩ := by
    intro other
    have heq := h (knows v.elemSize (cut v.elemSize (faceAt b 48)) other) rfl
      (local_knows _ _ _) _ hagree
    rw [coWorkSwitch_of_decode hdecode, coWorkSwitch_of_decode hdecode'] at heq
    exact heq
  have hcut := cut_of_detectFace hfit hevent
  simp only [cut, Mat.mk.injEq] at hcut
  obtain ⟨hrows, hcols, htype, hdata⟩ := hcut
  have hgeometry : 48 + faceSize + 10 ≤ n := by
    by_contra hlt
    rw [max_eq_right (by omega)] at htype
    exact intAt_bump_emod_ne (48 + faceSize + 8) htype
  refine ⟨hgeometry, ?_⟩
  change 48 + v.matSize (faceAt b 48) ≤ n
  unfold Vision.matSize
  by_contra hlt
  rw [hrows, hcols, htype, max_eq_left (by omega)] at hdata
  have hoff : 48 ≤ n := by omega
  exact take_slice_bump_ne hoff (not_le.mp hlt) (by omega) hdata

end Necessity

/-- Of OpenCV only the sizes of pixels matter. -/
theorem restWithin_congr {v v' : Vision} {n : ℕ} {request : Request}
    (h : v'.elemSize = v.elemSize) : request.RestWithin v' n ↔ request.RestWithin v n := by
  cases request <;>
    simp only [Request.RestWithin, CDetectModel.imageLength, Vision.matSize, h]

/-- A request is handled by the bytes of its frame only, whatever the face SDK makes of an
image, if and only if what is read for it lies in its frame. -/
theorem isolated_iff_contained (v : Vision) {b : ℕ → UInt8} (h8 : 8 ≤ (headerOf b).dataLength)
    (hsize : (headerOf b).dataLength ≤ msgBufferSize) :
    (∀ v' : Vision, v'.elemSize = v.elemSize → v'.Local → Isolated v' b) ↔ Contained v b := by
  refine ⟨fun h => ?_, fun h v' helem hv' => ?_⟩
  · rcases hsize.eq_or_lt with heq | hlt
    · exact Or.inl (by omega)
    have hn : (headerOf b).dataLength.toNat < msgBufferSize := by omega
    refine Or.inr fun c hcase => ?_
    have hcongr : ∀ v' : Vision, v'.elemSize = v.elemSize → v'.Local →
        ∀ b', Agree (headerOf b).dataLength.toNat b b' →
          coWorkSwitch v' b' (some c) = coWorkSwitch v' b (some c) := by
      intro v' helem hv' b' hagree
      have heq := h v' helem hv' b' hagree
      rw [coWork, coWork] at heq
      simp only [Handed.header, headerOf_congr hagree (by omega), hcase] at heq
      exact heq
    have helem : (knows v.elemSize (faceAt b 48) 0).elemSize = v.elemSize := rfl
    have hknows := hcongr _ helem (local_knows _ _ _)
    refine ⟨fun off hoff => terminated_of_congr hn hknows hoff, fun request hrequest => ?_⟩
    cases c
    case addFace =>
      exact (restWithin_congr helem).mp (restWithin_addFace hn hknows hrequest)
    case detect => exact restWithin_detect hn hcongr hrequest
    case messageHistory =>
      exact (restWithin_congr helem).mp (restWithin_messageHistory hn hknows hrequest)
    case messagrRecentSession =>
      exact (restWithin_congr helem).mp (restWithin_recentSession hn hknows hrequest)
    all_goals
      have hkind := kind_decode hrequest
      cases request <;> trivial
  · refine isolated_of_contained hv' h8 hsize (h.imp_right fun h c hcase => ?_)
    obtain ⟨hterm, hrest⟩ := h c hcase
    exact ⟨hterm, fun request hrequest => (restWithin_congr helem).mpr (hrest request hrequest)⟩

/-- A `LOGIN` of `n` bytes, with zeros behind the header. -/
def loginFrame (n : UInt8) : ℕ → UInt8 :=
  fun i => if i = 0 then 6 else if i = 4 then n else 0

/-- A vision that knows the image without pixels. -/
def knowsBlank : Vision :=
  knows (fun _ => 1) (Mat.make 0 0 0 []) 0

/-- A login with three empty texts. -/
theorem isolated_iff_contained_login :
    ((∀ v' : Vision, v'.elemSize = knowsBlank.elemSize → v'.Local →
        Isolated v' (loginFrame 68)) ↔
      Contained knowsBlank (loginFrame 68)) ∧
    Contained knowsBlank (loginFrame 68) := by
  have hlen : (headerOf (loginFrame 68)).dataLength = 68 := by decide +kernel
  have hcase : coWorkCase (headerOf (loginFrame 68)).cmd = some .login := by decide +kernel
  refine ⟨isolated_iff_contained knowsBlank ?_ ?_, Or.inr fun c hc => ?_⟩
  · rw [hlen]
    decide
  · rw [hlen, msgBufferSize_eq]
    decide
  · obtain rfl := Option.some.inj (hcase.symm.trans hc)
    rw [hlen]
    refine ⟨fun off hoff => ⟨off, le_rfl, ?_, ?_⟩, fun request hrequest => ?_⟩
    · simp only [textOffs, List.mem_cons, List.not_mem_nil, or_false] at hoff
      omega
    · simp only [textOffs, List.mem_cons, List.not_mem_nil, or_false] at hoff
      rcases hoff with rfl | rfl | rfl <;> rfl
    · have hkind := kind_decode hrequest
      cases request <;> trivial

/-- A login with nothing behind its header takes the names and the password of what was in the
buffer before. -/
theorem not_isolated_login :
    (headerOf (loginFrame 8)).dataLength = 8 ∧ knowsBlank.Local ∧
      ¬Isolated knowsBlank (loginFrame 8) := by
  have hlen : (headerOf (loginFrame 8)).dataLength = 8 := by decide +kernel
  have hcase : coWorkCase (headerOf (loginFrame 8)).cmd = some .login := by decide +kernel
  refine ⟨hlen, local_knows _ _ _, fun h => ?_⟩
  rw [Isolated, hlen] at h
  have hcongr : ∀ b', Agree 8 (loginFrame 8) b' → coWorkSwitch knowsBlank b' (some .login) =
      coWorkSwitch knowsBlank (loginFrame 8) (some .login) := by
    intro b' hagree
    have heq := h b' hagree
    rw [coWork, coWork] at heq
    simp only [Handed.header, headerOf_congr hagree (by omega), hcase] at heq
    exact heq
  obtain ⟨i, hi, hlt, -⟩ := terminated_of_congr (by rw [msgBufferSize_eq]; decide) hcongr
    (show 8 ∈ textOffs .login by decide)
  omega

end WzxServer
