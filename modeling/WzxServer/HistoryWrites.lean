import WzxServer.CoWrite
import WzxServer.World

/-!
# The answer to a `MESSAGE_HISTORY` on its way to the socket

`MessageHistoryEvent` sends the number of messages with `co_write`, and each message with one
`write` whose result it does not look at. The socket does not block, so a `write` may accept
a part of its frame, or nothing. `historySent_iff` says for which results the client gets whole
frames. Every `write` of a message has to accept all it is given. The count comes out when it
is taken in two pieces at most (`bringsOut_two`); a third piece is taken from the wrong place,
and is right only if the bytes there are the same.

The condition is on the results of the writes and on the bytes of the frames that are due, not on
what `co_write` makes of them. `Takes` goes through the results one by one with what is still due,
as the loop does, and `takes_iff` shows that the loop sends exactly what this asks for. That a
torn count cannot be made good by the messages behind it needs that the beginning of a message
does not come again a few bytes later (`frame_ne_shift`).
-/

namespace WzxServer

open Prog Proc

attribute [local irreducible] toInt intMax

/-! ## Frames -/

/-- The four bytes of an `int`, low byte first. -/
def word (n : ℤ) : Bytes :=
  (List.range 4).map fun i => UInt8.ofNat (n / 256 ^ i % 256).toNat

/-- A text in an array of `size` bytes that was zero before. -/
def textField (size : ℕ) (text : Bytes) : Bytes :=
  text ++ List.replicate (size - text.length) 0

/-- `sizeof(messageSendData)`. -/
def messageSize : ℕ :=
  4188

/-- The bytes of a `messageSendData`. -/
def MessageSendData.frame (m : MessageSendData) : Bytes :=
  word Cmd.messageSend.code ++ word messageSize ++ textField 20 m.fromClassNum ++
    textField 20 m.toClassNum ++ textField 20 m.fromAccount ++ textField 20 m.toAccount ++
    word m.updatetime ++ textField 4096 m.messageContent

/-- The bytes of a `messageHistoryCountResData`. -/
def historyCountFrame (m_count : ℕ) (res : Cmd) : Bytes :=
  word Cmd.messageHistoryCountRes.code ++ word 16 ++ word m_count ++ word res.code

/-- What the client should get. -/
def wholeHistory (messageList : List MessageSendData) : Bytes :=
  historyCountFrame messageList.length .messageHistorySuccess ++
    (messageList.map MessageSendData.frame).flatten

/-! ## Writes -/

/-- One `write` of each frame, where `write` answers with `rs`. -/
def writeEach : List Bytes → List (Option ℕ) → Bytes
  | [], _ => []
  | f :: fs, rs => f.take (acceptedOf f.length (rs.headD none)) ++ writeEach fs rs.tail

/-- The calls of `co_write` for the count. -/
def countCalls (messageList : List MessageSendData) (rs : List (Option ℕ)) : List WriteCall :=
  (coWrite (historyCountFrame messageList.length .messageHistorySuccess).length rs).1

/-- The bytes of the count that are accepted. -/
def countSent (messageList : List MessageSendData) (rs : List (Option ℕ)) : Bytes :=
  acceptedBytes
    (fun i => (historyCountFrame messageList.length .messageHistorySuccess).getD i 0)
    (countCalls messageList rs)

/-- The bytes that `MessageHistoryEvent` delivers for a list that is not empty, where `write`
answers with `rs`. -/
def historySent (messageList : List MessageSendData) (rs : List (Option ℕ)) : Bytes :=
  countSent messageList rs ++ writeEach (messageList.map MessageSendData.frame)
    (rs.drop (countCalls messageList rs).length)

/-- A socket that answers with `rs` takes the bytes `due` of a frame `f`. Each write is offered
what stands in the frame behind as many bytes as the write before accepted, which were `last`,
and the piece that it accepts has to be what is due. `rest` are the results that are left. -/
def Takes (f : Bytes) : ℕ → Bytes → List (Option ℕ) → List (Option ℕ) → Prop
  | _, [], rs, rest => rest = rs
  | _, _ :: _, [], _ => False
  | last, b :: due, r :: rs, rest =>
    let piece := (f.drop last).take (r.getD 0)
    piece ≠ [] ∧ piece <+: b :: due ∧
      Takes f piece.length ((b :: due).drop piece.length) rs rest

/-- The socket takes a frame that `co_write` sends. The first write may accept nothing, but it
does not fail. -/
def BringsOut (f : Bytes) : List (Option ℕ) → List (Option ℕ) → Prop
  | some n :: rs, rest => Takes f (f.take n).length (f.drop n) rs rest
  | _, _ => False

/-- The socket takes the count, and then each `write` of a message accepts the whole frame. -/
def WritesWhole (messageList : List MessageSendData) (rs : List (Option ℕ)) : Prop :=
  ∃ rest, BringsOut (historyCountFrame messageList.length .messageHistorySuccess) rs rest ∧
    ∀ i < messageList.length, messageSize ≤ (rest.getD i none).getD 0

/-! ## What `getMessage` returns -/

/-- The texts fit their fields, and the first name is a C string. -/
structure MessageSendData.Copied (m : MessageSendData) : Prop where
  fromClassNum : m.fromClassNum.length ≤ 20
  toClassNum : m.toClassNum.length ≤ 20
  fromAccount : m.fromAccount.length ≤ 20
  toAccount : m.toAccount.length ≤ 20
  messageContent : m.messageContent.length ≤ 4096
  zero : (0 : UInt8) ∉ m.fromClassNum

theorem zero_notMem_takeWhile (s : Bytes) : (0 : UInt8) ∉ s.takeWhile (· ≠ 0) := by
  intro h
  simpa using List.mem_takeWhile_imp h

/-- A copy that returns has the text, and room for it. -/
theorem returns_memcpyField {size : ℕ} {text s : Bytes} {t : List (Exchange Db)}
    (h : Returns (memcpyField size text) t s) : s = text ∧ text.length ≤ size := by
  obtain ⟨_, _, _, -, hcopy, -⟩ := h.bind_inv
  split_ifs at hcopy with hle
  · cases hcopy
    exact ⟨rfl, hle⟩
  · cases hcopy

/-- A text that is read has no NUL. -/
theorem returns_getText {row : Row} {key : Col} {s : Bytes} {t : List (Exchange Db)}
    (h : Returns (getText row key) t s) : (0 : UInt8) ∉ s := by
  obtain ⟨_, _, _, -, hret, -⟩ := h.bind_inv
  cases hret
  exact zero_notMem_takeWhile _

theorem returns_getUserFromId {userId : ℤ} {user : UserName} {t : List (Exchange Db)}
    (h : Returns (CUserModel.getUserFromId userId) t user) : (0 : UInt8) ∉ user.classnum := by
  obtain ⟨⟨c, res⟩, _, _, -, h, -⟩ := h.bind_inv
  have hend : ∀ {u : UserName} {t' : List (Exchange Db)},
      Returns (ask (.relDBConn c) >>= fun _ => ret u) t' user → u = user := by
    intro u t' h
    obtain ⟨_, _, _, -, hret, -⟩ := h.bind_inv
    cases hret
    rfl
  rcases res with _ | _ | ⟨row, rows⟩
  · exact hend h ▸ List.not_mem_nil
  · exact hend h ▸ List.not_mem_nil
  · obtain ⟨classNum, _, _, hclass, h, -⟩ := h.bind_inv
    obtain ⟨account, _, _, -, h, -⟩ := h.bind_inv
    exact hend (u := ⟨classNum, account⟩) h ▸ returns_getText hclass

/-- A message of a reply was copied into its fields. -/
theorem copied_of_messageOf {res : Row} {m : MessageSendData} {t : List (Exchange Db)}
    (h : Returns (CMessageModel.messageOf res) t m) : m.Copied := by
  obtain ⟨content, _, _, -, h, -⟩ := h.bind_inv
  obtain ⟨fromId, _, _, -, h, -⟩ := h.bind_inv
  obtain ⟨sender, _, _, hsender, h, -⟩ := h.bind_inv
  obtain ⟨toId, _, _, -, h, -⟩ := h.bind_inv
  obtain ⟨receiver, _, _, -, h, -⟩ := h.bind_inv
  obtain ⟨fromClassNum, _, _, h₁, h, -⟩ := h.bind_inv
  obtain ⟨fromAccount, _, _, h₂, h, -⟩ := h.bind_inv
  obtain ⟨toClassNum, _, _, h₃, h, -⟩ := h.bind_inv
  obtain ⟨toAccount, _, _, h₄, h, -⟩ := h.bind_inv
  obtain ⟨messageContent, _, _, h₅, h, -⟩ := h.bind_inv
  obtain ⟨updatetime, _, _, -, h, -⟩ := h.bind_inv
  cases h
  obtain ⟨rfl, hle₁⟩ := returns_memcpyField h₁
  obtain ⟨rfl, hle₂⟩ := returns_memcpyField h₂
  obtain ⟨rfl, hle₃⟩ := returns_memcpyField h₃
  obtain ⟨rfl, hle₄⟩ := returns_memcpyField h₄
  obtain ⟨rfl, hle₅⟩ := returns_memcpyField h₅
  exact ⟨hle₁, hle₃, hle₂, hle₄, hle₅, returns_getUserFromId hsender⟩

/-- So were all of them. -/
theorem copied_of_getMessage {relateId lastTime nowTime : ℤ} {messageList : List MessageSendData}
    {t : List (Exchange Db)}
    (h : Returns (CMessageModel.getMessage relateId lastTime nowTime) t messageList) :
    ∀ m ∈ messageList, m.Copied := by
  obtain ⟨r, _, _, -, h, -⟩ := h.bind_inv
  rcases r with _ | c
  · cases h
    exact fun m hm => absurd hm List.not_mem_nil
  · obtain ⟨_, _, _, -, h, -⟩ := h.bind_inv
    obtain ⟨res, _, _, -, h, -⟩ := h.bind_inv
    obtain ⟨ms, _, _, hms, h, -⟩ := h.bind_inv
    obtain ⟨_, _, _, -, h, -⟩ := h.bind_inv
    cases h
    intro m hm
    obtain ⟨row, -, _, hrow⟩ := hms.forEach_inv m hm
    exact copied_of_messageOf hrow

/-! ## Lengths -/

@[simp] theorem length_word (n : ℤ) : (word n).length = 4 := by
  simp [word]

/-- A field keeps its size. -/
theorem length_textField {size : ℕ} {text : Bytes} (h : text.length ≤ size) :
    (textField size text).length = size := by
  rw [textField, List.length_append, List.length_replicate]
  omega

/-- All message frames are of one size. -/
theorem length_frame {m : MessageSendData} (h : m.Copied) : m.frame.length = messageSize := by
  simp only [MessageSendData.frame, List.length_append, length_word, length_textField h.fromClassNum,
    length_textField h.toClassNum, length_textField h.fromAccount, length_textField h.toAccount,
    length_textField h.messageContent]
  rfl

/-- The count frame has 16 bytes. -/
theorem length_historyCountFrame (n : ℕ) (res : Cmd) : (historyCountFrame n res).length = 16 := by
  simp [historyCountFrame]

theorem length_writeEach_le : ∀ (fs : List Bytes) (rs : List (Option ℕ)),
    (writeEach fs rs).length ≤ fs.flatten.length
  | [], _ => le_refl _
  | f :: fs, rs => by
    have htake := List.length_take_le' (acceptedOf f.length (rs.headD none)) f
    have hrest := length_writeEach_le fs rs.tail
    rw [writeEach, List.flatten_cons, List.length_append, List.length_append]
    omega

/-- The loop of `co_write` stops when it has counted enough, with the last call at most
`nbyte` more. -/
theorem accepted_coWriteLoop_le {nbyte : ℕ} (hfit : (2 * nbyte : ℤ) ≤ intMax) :
    ∀ (rs : List (Option ℕ)) (off : ℕ) {total : ℕ}, total ≤ 2 * nbyte →
      total + accepted (coWriteLoop nbyte rs total off).1 ≤ 2 * nbyte
  | rs, off, total, htotal => by
    by_cases hlt : (total : ℤ) < toInt nbyte
    swap
    · rw [coWriteLoop_stop hlt]
      simpa [accepted] using htotal
    rcases rs with _ | ⟨r, rs⟩
    · rw [coWriteLoop, if_pos hlt]
      simpa [accepted] using htotal
    have hle := acceptedOf_le (nbyte - off) r
    have hnbyte := toInt_le (Int.natCast_nonneg nbyte)
    rcases Nat.eq_zero_or_pos (acceptedOf (nbyte - off) r) with hr | hr
    · rw [coWriteLoop_zero hlt hr]
      simpa [accepted] using htotal
    · rw [coWriteLoop_pos hlt hr (by omega), accepted_cons]
      have hrest := accepted_coWriteLoop_le hfit rs (acceptedOf (nbyte - off) r)
        (show total + acceptedOf (nbyte - off) r ≤ 2 * nbyte by omega)
      dsimp only
      omega

/-- `co_write` never sends twice as many bytes as it should. -/
theorem accepted_coWrite_le {nbyte : ℕ} (hfit : (2 * nbyte : ℤ) ≤ intMax)
    (rs : List (Option ℕ)) : accepted (coWrite nbyte rs).1 ≤ 2 * nbyte := by
  have hle := acceptedOf_le nbyte (rs.headD none)
  rcases lt_or_ge (writeLenOf nbyte (rs.headD none)) 0 with hneg | hpos
  · rw [coWrite_neg hneg]
    simp only [accepted, List.map_cons, List.map_nil, List.sum_cons, List.sum_nil]
    omega
  · have hcount : writeLenOf nbyte (rs.headD none) = acceptedOf nbyte (rs.headD none) := by
      rcases writeLenOf_of_le nbyte (rs.headD none) (by omega) with h | h
      · exact h
      · omega
    rw [coWrite_nonneg hpos, hcount, accepted_cons]
    exact accepted_coWriteLoop_le hfit _ _ (by dsimp only; omega)

/-- `co_write` sends at most twice what it was given. -/
theorem length_countSent_le (messageList : List MessageSendData) (rs : List (Option ℕ)) :
    (countSent messageList rs).length ≤ 32 := by
  rw [countSent, length_acceptedBytes, countCalls, length_historyCountFrame]
  exact accepted_coWrite_le (by decide +kernel) rs

/-! ## The count -/

section Count

variable {f : Bytes}

/-- What a write of a frame accepts. -/
theorem slice_frame (f : Bytes) (off : ℕ) (r : Option ℕ) :
    slice (fun i => f.getD i 0) off (acceptedOf (f.length - off) r) =
      (f.drop off).take (r.getD 0) := by
  refine List.ext_getElem ?_ fun i hi hi' => ?_
  · rw [length_slice, List.length_take, List.length_drop, acceptedOf]
  · rw [List.length_take, List.length_drop] at hi'
    rw [getElem_slice, List.getElem_take, List.getElem_drop,
      List.getD_eq_getElem _ _ (by omega)]

/-- A text is made of a prefix and the rest. -/
theorem append_eq_iff {s t u : Bytes} : s ++ t = u ↔ s <+: u ∧ t = u.drop s.length := by
  constructor
  · rintro rfl
    exact ⟨List.prefix_append s t, by rw [List.drop_left]⟩
  · rintro ⟨⟨v, rfl⟩, rfl⟩
    rw [List.drop_left]

/-- What the loop sends is what is due, for the results that say so. -/
theorem takes_iff (hfit : (2 * f.length : ℤ) ≤ intMax) :
    ∀ (rs rest : List (Option ℕ)) {total off : ℕ}, total ≤ f.length →
      (Takes f off (f.drop total) rs rest ↔
        acceptedBytes (fun i => f.getD i 0) (coWriteLoop f.length rs total off).1 = f.drop total ∧
          rest = rs.drop (coWriteLoop f.length rs total off).1.length) := by
  have hlength : toInt f.length = f.length := toInt_of_le (Int.natCast_nonneg _) (by omega)
  intro rs
  induction rs with
  | nil =>
    intro rest total off htotal
    rcases hdue : f.drop total with _ | ⟨b, due⟩
    · rw [List.drop_eq_nil_iff] at hdue
      rw [coWriteLoop_stop (by omega)]
      simp [Takes, acceptedBytes]
    · have hlt : total < f.length := List.length_lt_of_drop_ne_nil (by simp [hdue])
      rw [coWriteLoop, if_pos (by omega)]
      simp [Takes, acceptedBytes, slice]
  | cons r rs ih =>
    intro rest total off htotal
    rcases hdue : f.drop total with _ | ⟨b, due⟩
    · rw [List.drop_eq_nil_iff] at hdue
      rw [coWriteLoop_stop (by omega)]
      simp [Takes, acceptedBytes]
    · have hlt : total < f.length := List.length_lt_of_drop_ne_nil (by simp [hdue])
      have hpiece := slice_frame f off r
      have hsize : ((f.drop off).take (r.getD 0)).length = acceptedOf (f.length - off) r := by
        rw [← hpiece, length_slice]
      rw [Takes]
      generalize (f.drop off).take (r.getD 0) = piece at hpiece hsize ⊢
      rcases Nat.eq_zero_or_pos (acceptedOf (f.length - off) r) with hzero | hpos
      · -- the loop stops
        rw [coWriteLoop_zero (by omega) hzero]
        have hnil : piece = [] := List.eq_nil_of_length_eq_zero (hsize.trans hzero)
        simp [hnil, acceptedBytes, slice]
      · have hle := acceptedOf_le (f.length - off) r
        rw [coWriteLoop_pos (by omega) hpos (by omega), acceptedBytes_cons, append_eq_iff, hpiece]
        have hne : piece ≠ [] := List.ne_nil_of_length_pos (hsize ▸ hpos)
        rw [← hdue, List.drop_drop, List.length_cons, List.drop_succ_cons, ← hsize]
        constructor
        · rintro ⟨-, hpre, htakes⟩
          have hlen := hpre.length_le
          rw [List.length_drop] at hlen
          obtain ⟨hsent, hrest⟩ := (ih rest (by omega)).mp htakes
          exact ⟨⟨hpre, hsent⟩, hrest⟩
        · rintro ⟨⟨hpre, hsent⟩, hrest⟩
          have hlen := hpre.length_le
          rw [List.length_drop] at hlen
          exact ⟨hne, hpre, (ih rest (by omega)).mpr ⟨hsent, hrest⟩⟩

/-- What `co_write` sends is the frame, for the results that say so. -/
theorem bringsOut_iff (hne : f ≠ []) (hfit : (2 * f.length : ℤ) ≤ intMax)
    (rs rest : List (Option ℕ)) :
    BringsOut f rs rest ↔
      acceptedBytes (fun i => f.getD i 0) (coWrite f.length rs).1 = f ∧
        rest = rs.drop (coWrite f.length rs).1.length := by
  have hfails : ∀ {rs : List (Option ℕ)}, rs.headD none = none →
      acceptedBytes (fun i => f.getD i 0) (coWrite f.length rs).1 ≠ f := by
    intro rs hhead
    rw [coWrite_neg (by rw [hhead]; exact neg_one_lt_zero), hhead]
    simpa [acceptedBytes, acceptedOf, slice] using hne.symm
  rcases rs with _ | ⟨_ | n, rs⟩
  · exact iff_of_false id fun h => hfails rfl h.1
  · exact iff_of_false id fun h => hfails rfl h.1
  · have hcount : writeLenOf f.length (some n) = acceptedOf f.length (some n) := by
      rcases writeLenOf_of_le f.length (some n) (by
        have := acceptedOf_le f.length (some n)
        omega) with h | h
      · exact h
      · exact absurd h.1 (by
          have := toInt_of_le (n := (min n f.length : ℕ)) (Int.natCast_nonneg _) (by omega)
          rw [writeLenOf, this]
          omega)
    have hpiece := slice_frame f 0 (some n)
    rw [Nat.sub_zero, List.drop_zero, Option.getD_some] at hpiece
    have hsize : acceptedOf f.length (some n) = (f.take n).length := by
      rw [← hpiece, length_slice]
    have hdrop : f.drop n = f.drop (f.take n).length := by
      rw [List.length_take, ← List.drop_eq_drop_min]
    have hle : (f.take n).length ≤ f.length := List.length_take_le' n f
    rw [BringsOut, hdrop, takes_iff hfit rs rest hle, coWrite_nonneg (by
      rw [List.headD_cons, hcount]
      exact Int.natCast_nonneg _), List.headD_cons, hcount, acceptedBytes_cons, hpiece, hsize,
      append_eq_iff, List.length_cons, List.drop_succ_cons, List.tail_cons]
    have hpre : f.take n <+: f := List.take_prefix n f
    tauto

/-- In two pieces everything comes out. -/
theorem bringsOut_two {a b : ℕ} (ha : a < f.length) (hb : f.length ≤ a + b)
    (rest : List (Option ℕ)) : BringsOut f (some a :: some b :: rest) rest := by
  have htake : (f.drop a).take b = f.drop a := by
    rw [List.take_of_length_le]
    rw [List.length_drop]
    omega
  rw [BringsOut, List.length_take, min_eq_left ha.le]
  rcases hdue : f.drop a with _ | ⟨c, due⟩
  · rw [List.drop_eq_nil_iff] at hdue
    omega
  · rw [Takes, Option.getD_some, htake, hdue]
    refine ⟨List.cons_ne_nil c due, List.prefix_refl _, ?_⟩
    rw [List.drop_length, Takes]

end Count

/-! ## Whole frames -/

/-- Frames of one length go out whole exactly when each `write` accepts that many bytes. -/
theorem writeEach_eq_flatten_iff {n : ℕ} : ∀ {fs : List Bytes} (rs : List (Option ℕ)),
    (∀ f ∈ fs, f.length = n) →
      (writeEach fs rs = fs.flatten ↔ ∀ i < fs.length, n ≤ (rs.getD i none).getD 0)
  | [], rs, _ => by simp [writeEach]
  | f :: fs, rs, hfs => by
    have hf := hfs f List.mem_cons_self
    have hle := length_writeEach_le fs rs.tail
    have hhead : rs.headD none = rs.getD 0 none := by cases rs <;> rfl
    have htail : ∀ i, rs.tail.getD i none = rs.getD (i + 1) none := fun i => by cases rs <;> rfl
    have hrest := writeEach_eq_flatten_iff rs.tail fun g hg =>
      hfs g (List.mem_cons_of_mem _ hg)
    rw [writeEach, List.flatten_cons, hhead, acceptedOf, hf]
    constructor
    · intro heq
      have hlen := congrArg List.length heq
      simp only [List.length_append, List.length_take, hf] at hlen
      have hn : n ≤ (rs.getD 0 none).getD 0 := by omega
      rw [Nat.min_eq_right hn, ← hf, List.take_length, List.append_cancel_left_eq] at heq
      rintro (_ | i) hi
      · exact hn
      · rw [← htail]
        exact hrest.1 heq i (by simpa using hi)
    · intro h
      have hn := h 0 (Nat.succ_pos _)
      rw [Nat.min_eq_right hn, ← hf, List.take_length, List.append_cancel_left_eq]
      refine hrest.2 fun i hi => ?_
      rw [htail]
      exact h (i + 1) (Nat.succ_lt_succ hi)

/-- Behind its text a field is zero. -/
theorem getD_textField {size : ℕ} {text : Bytes} {j : ℕ} (h : text.length ≤ j) :
    (textField size text).getD j 0 = 0 := by
  rw [textField, List.getD_append_right _ _ _ _ h]
  simp [List.getD_eq_getElem?_getD, List.getElem?_replicate]
  split_ifs <;> rfl

/-- A message starts with its header and the first name. -/
theorem frame_eq (m : MessageSendData) : ∃ rest : Bytes,
    m.frame = [34, 0, 0, 0, 92, 16, 0, 0] ++ (textField 20 m.fromClassNum ++ rest) := by
  have hheader : word Cmd.messageSend.code ++ word messageSize = [34, 0, 0, 0, 92, 16, 0, 0] := by
    decide +kernel
  refine ⟨textField 20 m.toClassNum ++ (textField 20 m.fromAccount ++ (textField 20 m.toAccount ++
    (word m.updatetime ++ textField 4096 m.messageContent))), ?_⟩
  rw [MessageSendData.frame, hheader]
  simp only [List.append_assoc]

/-- The beginning of a message does not come again a few bytes later. -/
theorem frame_ne_shift {m : MessageSendData} (h : m.Copied) {e : ℕ} (he : 0 < e) (he' : e ≤ 16) :
    ∃ i ≤ 4, m.frame.getD i 0 ≠ m.frame.getD (e + i) 0 := by
  by_contra hall
  push Not at hall
  obtain ⟨rest, hframe⟩ := frame_eq m
  have hname := length_textField h.fromClassNum
  have hheader : ∀ j < 8, m.frame.getD j 0 = [34, 0, 0, 0, 92, 16, 0, 0].getD j 0 := by
    intro j hj
    rw [hframe, List.getD_append _ _ _ _ (by simpa using hj)]
  have hfield : ∀ j < 20, m.frame.getD (8 + j) 0 = (textField 20 m.fromClassNum).getD j 0 := by
    intro j hj
    rw [hframe, List.getD_append_right _ _ _ _ (by simp), List.getD_append _ _ _ _ (by simp; omega)]
    simp
  have h0 := (hheader 0 (by decide)).symm.trans (hall 0 (by decide))
  have h1 := (hheader 1 (by decide)).symm.trans (hall 1 (by decide))
  have h4 := (hheader 4 (by decide)).symm.trans (hall 4 (by decide))
  rcases lt_or_ge e 8 with hlt | hge
  · rw [Nat.add_zero, hheader e hlt] at h0
    interval_cases e <;> simp at h0
  · obtain ⟨j, rfl⟩ := Nat.exists_eq_add_of_le hge
    rw [Nat.add_assoc, hfield _ (by omega)] at h1 h4
    -- the name ends at the NUL, so there is no `92` behind it
    have hshort : m.fromClassNum.length ≤ j + 1 := by
      by_contra hlong
      refine h.zero ?_
      have hj : j + 1 < m.fromClassNum.length := by omega
      rw [textField, List.getD_append _ _ _ _ hj, List.getD_eq_getElem _ _ hj] at h1
      have hzero : (0 : UInt8) = m.fromClassNum[j + 1] := h1
      rw [hzero]
      exact List.getElem_mem hj
    rw [getD_textField (by omega)] at h4
    simp at h4

/-- When what is delivered is the whole history, its beginning is what `co_write` sent : with
more bytes in front the first message would be shifted. -/
theorem length_countSent_of_eq {messageList : List MessageSendData} {rs : List (Option ℕ)}
    (hcopied : ∀ m ∈ messageList, m.Copied) (hne : messageList ≠ [])
    (h : historySent messageList rs = wholeHistory messageList) :
    (countSent messageList rs).length = 16 := by
  have hcount := length_historyCountFrame messageList.length .messageHistorySuccess
  have hle := length_countSent_le messageList rs
  rw [historySent, wholeHistory] at h
  generalize countSent messageList rs = sent at h hle ⊢
  generalize rs.drop _ = rs' at h
  generalize historyCountFrame messageList.length .messageHistorySuccess = count at h hcount
  rcases messageList with _ | ⟨m, ms⟩
  · exact absurd rfl hne
  have hm := hcopied m List.mem_cons_self
  have hframe : m.frame.length = 4188 := length_frame hm
  have hrest := length_writeEach_le (ms.map MessageSendData.frame) rs'.tail
  rw [List.map_cons, writeEach, List.flatten_cons, hframe] at h
  have hlen := congrArg List.length h
  simp only [List.length_append, List.length_take, hframe, hcount] at hlen
  by_contra hcontra
  obtain ⟨e, he⟩ : ∃ e, sent.length = 16 + e := Nat.exists_eq_add_of_le (by omega)
  obtain ⟨i, hi, hshift⟩ := frame_ne_shift hm (e := e) (by omega) (by omega)
  refine hshift ?_
  generalize acceptedOf 4188 (rs'.headD none) = k at h hlen
  have hk : i < k := by omega
  have hget := congrArg (fun s : Bytes => s.getD (16 + e + i) 0) h
  rw [List.getD_append_right _ _ _ _ (by omega), List.getD_append _ _ _ _ (by simp; omega),
    List.getD_append_right count _ _ _ (by omega), List.getD_append _ _ _ _ (by omega),
    show 16 + e + i - sent.length = i by omega,
    show 16 + e + i - count.length = e + i by omega] at hget
  rw [← hget, List.getD_eq_getElem?_getD, List.getD_eq_getElem?_getD, List.getElem?_take_of_lt hk]

/-- What is delivered is the whole history exactly when all of its writes are whole. -/
theorem historySent_iff {relateId lastTime nowTime : ℤ} {messageList : List MessageSendData}
    {t : List (Exchange Db)}
    (h : Returns (CMessageModel.getMessage relateId lastTime nowTime) t messageList)
    (hne : messageList ≠ []) (rs : List (Option ℕ)) :
    historySent messageList rs = wholeHistory messageList ↔ WritesWhole messageList rs := by
  have hcopied := copied_of_getMessage h
  have hframes : ∀ f ∈ messageList.map MessageSendData.frame, f.length = messageSize := by
    rw [List.forall_mem_map]
    exact fun m hm => length_frame (hcopied m hm)
  have hwhole := writeEach_eq_flatten_iff (rs.drop (countCalls messageList rs).length) hframes
  rw [List.length_map] at hwhole
  have hcount := length_historyCountFrame messageList.length .messageHistorySuccess
  have hbrings := bringsOut_iff (f := historyCountFrame messageList.length .messageHistorySuccess)
    (List.ne_nil_of_length_pos (by omega)) (by rw [hcount]; decide +kernel) rs
  simp only [WritesWhole, hbrings]
  constructor
  · intro heq
    have hlen := length_countSent_of_eq hcopied hne heq
    obtain ⟨hsent, hmessages⟩ := List.append_inj heq (by rw [hlen, hcount])
    exact ⟨_, ⟨hsent, rfl⟩, hwhole.mp hmessages⟩
  · rintro ⟨_, ⟨hsent, rfl⟩, hmessages⟩
    have hcountSent : countSent messageList rs =
        historyCountFrame messageList.length .messageHistorySuccess := hsent
    rw [historySent, wholeHistory, hcountSent, hwhole.mpr hmessages]

/-- A user who wrote `hi` to himself. -/
def noteTables : Tables :=
  { Tables.empty with
    users := [.new (ascii "1") (ascii "ann") [] [] 1]
    messages := [⟨1, 1, 1, 1, 0, ascii "hi", 1, 1, 5, 5⟩] }

/-- The message as `getMessage` gives it. -/
def note5 : MessageSendData :=
  ⟨ascii "1", ascii "1", ascii "ann", ascii "ann", 5, ascii "hi"⟩

/-- The history of that user. -/
theorem returns_note5 : ∃ t, Returns (CMessageModel.getMessage 1 0 5) t [note5] := by
  have hvalue : (Prog.run (World.serve (Server.rejecting .binary) World.allOk)
      (CMessageModel.getMessage 1 0 5) (World.start noteTables)).1 = some [note5] := by
    decide +kernel
  rcases hrun : Prog.run (World.serve (Server.rejecting .binary) World.allOk)
    (CMessageModel.getMessage 1 0 5) (World.start noteTables) with ⟨_, w⟩
  rw [hrun] at hvalue
  obtain rfl := hvalue
  exact exists_returns hrun

/-- The count is taken in two pieces, and the message whole. -/
theorem historySent_iff_note5 : ∃ t, Returns (CMessageModel.getMessage 1 0 5) t [note5] ∧
    historySent [note5] [some 10, some 6, some 4188] = wholeHistory [note5] := by
  obtain ⟨t, ht⟩ := returns_note5
  have hlength := length_historyCountFrame [note5].length .messageHistorySuccess
  refine ⟨t, ht, (historySent_iff ht (by simp) _).2 ⟨[some 4188], ?_, by decide⟩⟩
  exact bringsOut_two (by omega) (by omega) _

/-- A socket with room for a thousand bytes of the message gets a torn frame. -/
theorem not_historySent_thousand : ∃ t, Returns (CMessageModel.getMessage 1 0 5) t [note5] ∧
    historySent [note5] [some 16, some 1000] ≠ wholeHistory [note5] := by
  obtain ⟨t, ht⟩ := returns_note5
  exact ⟨t, ht, fun h => absurd (congrArg List.length h) (by decide +kernel)⟩

end WzxServer
