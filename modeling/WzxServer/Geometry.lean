import WzxServer.Isolation

/-!
# The geometry of an image

ADDFACE and DETECT come with the number of rows and columns and the type of their image, and
nobody compares them with the 1024 * 1024 bytes of `m_facedata`. DETECT writes the image to a
file, which reads all its pixels. ADDFACE sends one byte more than the pixels to MySQL, and
computes their number as an `int`. `readsFace_iff_fitsFace` says which geometries stay inside
the field. A text that does not fit into `strSql` is written past its end, and then nothing is
said of the image.

The rows, the columns and the type are any three `int`s, so their product may be negative, and it
may come out small after an overflow. What is asked for is that the bytes which are sent are in
the field and that their number is the exact one (`sent_of_fitsFace`, `fitsFace_of_sent`). The
handlers are then followed to the one operation that sends an image.
-/

namespace WzxServer

open Prog Proc

attribute [local irreducible] toInt faceSize msgBufferSize slice intAt

/-- The image that an operation sends. -/
def Op.image? : Op → Option ImageParams
  | .execute _ (.addUpdate _ _ p) | .execute _ (.addInsert _ _ p) => some p
  | _ => none

/-- The images that are sent lie in `m_facedata` and come with their exact length, no length
overflows, nothing is read past the memory of the image, and no array is overrun before. -/
def withinFace (v : Vision) : Monitor Db where
  State := Unit
  allowed _ o := ∀ p ∈ o.image?,
    p.image.length ≤ faceSize ∧ p.length = p.cols * p.rows * v.elemSize p.type
  admits _ _ _ := True
  next _ _ _ := ()
  excuses _ e := e ≠ .overread ∧ e ≠ .overflow ∧ e ≠ .overrun

/-- Whatever the database answers, `p` reads of its image only what lies in `m_facedata`. -/
def StaysInFace (v : Vision) {α : Type} (p : Proc α) : Prop :=
  Obeys (withinFace v) p () fun _ _ => True

/-- What the handler of an image reads of it lies in `m_facedata` : the pixels that DETECT
writes to a file, and the bytes that ADDFACE sends. -/
def Request.ReadsFace (v : Vision) : Request → Prop
  | .addFace d => StaysInFace v (LoginAddFaceEvent v d)
  | .detect d => (∀ i < v.matSize d.image, i < faceSize) ∧ StaysInFace v (detectFaceEvent v d)
  | _ => True

/-- An image that can be sent with one byte more. -/
def Mat.FitsFace (v : Vision) (image : Mat) : Prop :=
  IsInt (image.cols * image.rows) ∧ -1 ≤ image.cols * image.rows * v.elemSize image.type ∧
    image.cols * image.rows * v.elemSize image.type < faceSize

/-- The geometries that stay inside the field, in requests whose texts fit. -/
def Request.FitsFace (v : Vision) : Request → Prop
  | .addFace d => (Stmt.userExist d.m_classnum d.m_account d.m_password).text.length < 256 ∧
    (Stmt.addUserInfo d.m_classnum d.m_account d.m_password d.m_touxiang).text.length < 200 ∧
      d.image.FitsFace v
  | .detect d => (Stmt.detectOneFace d.m_classnum d.m_account).text.length < 256 ∧
    d.image.rows * d.image.cols * v.elemSize d.image.type ≤ faceSize
  | _ => True

/-! ## The bytes that are sent -/

variable {v : Vision} {image : Mat}

theorem toSize_of_nonneg {n : ℤ} (h : 0 ≤ n) (hn : n < 2 ^ 64) : toSize n = n.toNat := by
  rw [toSize, Int.emod_eq_of_lt h hn]

/-- The length of an image that fits is exact, and so many bytes are sent and one more. -/
theorem sent_of_fitsFace (hdata : faceSize ≤ image.data.length) (h : image.FitsFace v) :
    CDetectModel.imageLength v image =
        some (image.cols * image.rows * v.elemSize image.type) ∧
      ∃ sent, CDetectModel.sentBytes image (image.cols * image.rows * v.elemSize image.type) =
        some sent ∧ sent.length ≤ faceSize := by
  obtain ⟨hint, hlow, hhigh⟩ := h
  have hface := faceSize_eq
  have hlength : CDetectModel.imageLength v image =
      some (image.cols * image.rows * v.elemSize image.type) := by
    unfold IsInt at hint
    rw [CDetectModel.imageLength, if_pos hint]
    generalize image.cols * image.rows * v.elemSize image.type = n at hlow hhigh
    unfold toInt
    rw [Int.bmod_eq_of_le (by omega) (by omega)]
  generalize image.cols * image.rows * v.elemSize image.type = n at hlow hhigh hlength ⊢
  have hsize : toSize (n + 1) = (n + 1).toNat := toSize_of_nonneg (by omega) (by omega)
  refine ⟨hlength, image.data.take (toSize (n + 1)), ?_, ?_⟩
  · rw [CDetectModel.sentBytes, if_pos (by omega)]
  · rw [List.length_take]
    omega

/-- Bytes that are sent within the field, with the exact length, are of an image that fits. -/
theorem fitsFace_of_sent {length : ℤ} {sent : Bytes}
    (hlength : CDetectModel.imageLength v image = some length)
    (hsent : CDetectModel.sentBytes image length = some sent) (hface : sent.length ≤ faceSize)
    (hexact : length = image.cols * image.rows * v.elemSize image.type) : image.FitsFace v := by
  have hlow := neg_le_toInt (image.cols * image.rows * v.elemSize image.type)
  have hhigh := toInt_le_intMax (image.cols * image.rows * v.elemSize image.type)
  have hsize := faceSize_eq
  unfold CDetectModel.imageLength at hlength
  split_ifs at hlength with hint
  obtain rfl := Option.some.inj hlength
  unfold CDetectModel.sentBytes at hsent
  split_ifs at hsent with hle
  obtain rfl := Option.some.inj hsent
  rw [List.length_take, min_eq_left hle] at hface
  refine ⟨hint, ?_, ?_⟩
  all_goals
    rw [← hexact]
    generalize toInt (image.cols * image.rows * v.elemSize image.type) = n at hlow hhigh hface
    unfold intMax at hlow hhigh
    unfold toSize at hface
    omega

/-! ## The handlers -/

section Stays

variable {α β : Type}

theorem stays_ret (a : α) : StaysInFace v (ret a) :=
  trivial

theorem stays_ask {o : Op} (h : o.image? = none) : StaysInFace v (ask o) :=
  ⟨fun p hp => by simp [h] at hp, fun _ _ => trivial⟩

theorem StaysInFace.bind {p : Proc α} {f : α → Proc β} (hp : StaysInFace v p)
    (hf : ∀ a, StaysInFace v (f a)) : StaysInFace v (p >>= f) :=
  Obeys.bind hp fun a _ _ => hf a

theorem stays_deref (a : Option α) : StaysInFace v (deref a) := by
  cases a
  · exact ⟨by decide, by decide, by decide⟩
  · exact trivial

theorem stays_openQuery {size : ℕ} {s : Stmt} (h : s.text.length < size) :
    StaysInFace v (openQuery size s) := by
  simp only [openQuery, sprintf, if_pos h, ret_bind]
  exact (stays_ask rfl).bind fun _ => (stays_deref _).bind fun _ => (stays_ask rfl).bind fun _ =>
    stays_ret _

/-- There is no going on from a statement that does not fit. -/
theorem not_stays_openQuery {size : ℕ} {s : Stmt} (h : ¬s.text.length < size)
    (f : Conn × Option (List Row) → Proc α) : ¬StaysInFace v (openQuery size s >>= f) := by
  simp only [openQuery, sprintf, if_neg h, bind_assoc, fault_bind]
  exact fun hstays => (hstays.2 none trivial).2.2 rfl

theorem stays_getInt (row : Row) (key : Col) : StaysInFace v (getInt row key) := by
  rw [getInt]
  rcases row.get key with _ | (_ | n | s)
  · exact trivial
  · exact ⟨by decide, by decide, by decide⟩
  · exact trivial
  · exact trivial

/-- The comparison sends nothing. -/
theorem stays_compareRows (m : Mat) (classnum account : Bytes) : ∀ rows : List Row,
    StaysInFace v (CDetectModel.compareRows v m classnum account rows)
  | [] => stays_ret _
  | row :: rows => by
    rw [CDetectModel.compareRows]
    refine (stays_getInt _ _).bind fun _ => (stays_getInt _ _).bind fun _ =>
      (stays_getInt _ _).bind fun _ => (stays_getInt _ _).bind fun _ =>
      (stays_deref _).bind fun _ => ?_
    dsimp only
    split_ifs
    · exact stays_ret _
    · exact stays_ret _
    · exact stays_compareRows m classnum account rows

/-- DETECT sends no image, and stays inside the field where its text fits. -/
theorem stays_detect_iff (d : DetectFaceData) : StaysInFace v (detectFaceEvent v d) ↔
    (Stmt.detectOneFace d.m_classnum d.m_account).text.length < 256 := by
  by_cases hfit : (Stmt.detectOneFace d.m_classnum d.m_account).text.length < 256
  · refine iff_of_true (StaysInFace.bind ?_ fun res => ?_) hfit
    · exact (stays_openQuery hfit).bind fun _ => (stays_deref _).bind fun _ =>
        (stays_compareRows _ _ _ _).bind fun _ => (stays_ask rfl).bind fun _ => stays_ret _
    · split_ifs
      · exact stays_ask rfl
      · exact stays_ask rfl
  · refine iff_of_false ?_ hfit
    rw [detectFaceEvent, CDetectModel.detectOneFace, bind_assoc]
    exact not_stays_openQuery hfit _

end Stays

/-- An image is stored within its field exactly when it fits : there are answers that lead
up to the bytes that are sent. -/
theorem stays_storeImage_iff {c : Conn} {stmt : ImageParams → Stmt}
    (hstmt : ∀ p, (Op.execute c (stmt p)).image? = some p) (hdata : faceSize ≤ image.data.length) :
    StaysInFace v (CDetectModel.storeImage v c image stmt) ↔ image.FitsFace v := by
  refine ⟨fun h => ?_, fun h => ?_⟩
  · have hstart := h.2 true trivial
    rcases hlength : CDetectModel.imageLength v image with _ | length
    · rw [hlength] at hstart
      exact absurd rfl hstart.2.1
    · rw [hlength] at hstart
      have hinit := hstart.2 true trivial
      rcases hsent : CDetectModel.sentBytes image length with _ | sent
      · rw [hsent] at hinit
        exact absurd rfl hinit.1
      · rw [hsent] at hinit
        obtain ⟨hface, hexact⟩ := hinit.1 _ (hstmt _)
        exact fitsFace_of_sent hlength hsent hface hexact
  · obtain ⟨hlength, sent, hsent, hface⟩ := sent_of_fitsFace hdata h
    refine (stays_ask rfl).bind fun started => ?_
    cases started
    · exact stays_ret _
    · simp only [if_true, hlength, defined, ret_bind]
      refine (stays_ask rfl).bind fun prepared => ?_
      cases prepared
      · exact stays_ret _
      · simp only [if_true, hsent, ret_bind]
        refine ⟨fun p hp => ?_, fun executed _ => ?_⟩
        · rw [hstmt] at hp
          obtain rfl := Option.some.inj hp
          exact ⟨hface, rfl⟩
        · cases executed
          · exact (stays_ask rfl).bind fun _ => (stays_ask rfl).bind fun _ => stays_ret _
          · exact (stays_ask rfl).bind fun _ => (stays_ask rfl).bind fun _ => stays_ret _

/-- So does `add`, exactly when the image fits. -/
theorem stays_add_iff {classnum account : Bytes} (hdata : faceSize ≤ image.data.length) :
    StaysInFace v (CDetectModel.add v image classnum account) ↔ image.FitsFace v := by
  refine ⟨fun h => ?_, fun h => ?_⟩
  · exact (stays_storeImage_iff (fun _ => rfl) hdata).1 ((h.2 (some 0) trivial).2 (some []) trivial)
  · refine (stays_ask rfl).bind fun _ => (stays_deref _).bind fun _ => (stays_ask rfl).bind fun _ =>
      (stays_deref _).bind fun rows => ?_
    split_ifs
    · exact (stays_storeImage_iff (fun _ => rfl) hdata).2 h
    · exact (stays_storeImage_iff (fun _ => rfl) hdata).2 h

/-- The check sends no image. -/
theorem stays_userExist {classnum account password : Bytes}
    (h : (Stmt.userExist classnum account password).text.length < 256) :
    StaysInFace v (CUserModel.userExist classnum account password) :=
  (stays_openQuery h).bind fun _ => (stays_deref _).bind fun _ => (stays_ask rfl).bind fun _ =>
    stays_ret _

/-- Nor does the insertion of the user. -/
theorem stays_addUserInfo {classnum account password touxiang : Bytes}
    (h : (Stmt.addUserInfo classnum account password touxiang).text.length < 200) :
    StaysInFace v (CUserModel.addUserInfo classnum account password touxiang) :=
  (stays_openQuery h).bind fun _ => (stays_ask rfl).bind fun _ => stays_ret _

/-- ADDFACE stays inside the field exactly when its texts and its image fit. -/
theorem stays_addFace_iff {d : AddFaceData} (hdata : faceSize ≤ d.image.data.length) :
    StaysInFace v (LoginAddFaceEvent v d) ↔ (Request.addFace d).FitsFace v := by
  by_cases hexist : (Stmt.userExist d.m_classnum d.m_account d.m_password).text.length < 256
  · by_cases hinfo : (Stmt.addUserInfo d.m_classnum d.m_account d.m_password
        d.m_touxiang).text.length < 200
    · refine ⟨fun h => ⟨hexist, hinfo, ?_⟩, fun h => ?_⟩
      · simp only [LoginAddFaceEvent, CUserModel.userExist, CUserModel.addUserInfo, openQuery,
          sprintf, if_pos hexist, if_pos hinfo, bind_assoc] at h
        have hadd : StaysInFace v (CDetectModel.add v d.image d.m_classnum d.m_account >>= fun r =>
            if r.2.getD 0 ≠ 0 then ret () else ask (.write (.register .registerSuccess))) :=
          (((((h.2 (some 0) trivial).2 (some []) trivial).2 () trivial).2 (some 0) trivial).2 none
            trivial).2 () trivial
        exact (stays_add_iff hdata).1 ((obeys_bind.1 hadd).mono fun _ _ _ => trivial)
      · refine (stays_userExist hexist).bind fun isExist => ?_
        cases isExist
        · refine (stays_addUserInfo hinfo).bind fun _ =>
            ((stays_add_iff hdata).2 h.2.2).bind fun r => ?_
          obtain ⟨_, error_code⟩ := r
          dsimp only
          split_ifs
          · exact stays_ret _
          · exact stays_ask rfl
        · exact stays_ask rfl
    · -- nobody is found under the names, and the text of the insertion does not fit
      refine iff_of_false (fun h => ?_) fun h => hinfo h.2.1
      simp only [LoginAddFaceEvent, CUserModel.userExist, CUserModel.addUserInfo, openQuery,
        sprintf, if_pos hexist, if_neg hinfo, bind_assoc, fault_bind] at h
      have hover : StaysInFace v (fault .overrun : Proc Unit) :=
        (((h.2 (some 0) trivial).2 (some []) trivial).2 () trivial).2 none trivial
      exact hover.2.2 rfl
  · refine iff_of_false ?_ fun h => hexist h.1
    rw [LoginAddFaceEvent, CUserModel.userExist, bind_assoc]
    exact not_stays_openQuery hexist _

/-! ## Frames -/

/-- The image of a frame has its memory up to the end of `msgBuffer`. -/
theorem image_of_decode {b : ℕ → UInt8} {d : AddFaceData}
    (h : decode b .addFace = some (.addFace d)) : d.image = faceAt b 68 := by
  simp only [decode, Option.bind_eq_bind, Option.pure_def, Option.bind_eq_some_iff,
    Option.some.injEq, Request.addFace.injEq] at h
  obtain ⟨_, -, _, -, _, -, _, -, rfl⟩ := h
  rfl

/-- The images of a frame are read inside of `m_facedata` if and only if they fit. -/
theorem readsFace_iff_fitsFace (v : Vision) (b : ℕ → UInt8) (c : Cmd) :
    (∀ request, decode b c = some request → request.ReadsFace v) ↔
      ∀ request, decode b c = some request → request.FitsFace v := by
  refine forall₂_congr fun request h => ?_
  have hkind := kind_decode h
  cases request with
  | addFace d =>
    obtain rfl := hkind
    refine stays_addFace_iff ?_
    have hface := faceSize_eq
    have hbuffer := msgBufferSize_eq
    rw [image_of_decode h]
    simp only [faceAt, Mat.make, length_slice]
    omega
  | detect d =>
    refine (and_congr_right fun _ => stays_detect_iff d).trans (and_comm.trans ?_)
    refine and_congr_right fun _ => ?_
    simp only [Vision.matSize]
    generalize d.image.rows * d.image.cols * v.elemSize d.image.type = n
    refine ⟨fun hlt => ?_, fun hle i hi => ?_⟩
    · by_contra hgt
      exact absurd (hlt faceSize (by omega)) (lt_irrefl _)
    · omega
  | _ => exact iff_of_true trivial trivial

/-- A frame whose image has 1024 rows of 1024 columns. -/
def mebibyte : ℕ → UInt8 := fun i =>
  if i = 68 + faceSize + 1 ∨ i = 68 + faceSize + 5 then 4 else 0

/-- Of an image of one byte a pixel that fills the field, one byte too many is sent. -/
theorem not_readsFace_mebibyte : ¬∀ request, decode mebibyte .addFace = some request →
    request.ReadsFace ⟨fun _ => 1, id, fun _ _ => 0⟩ := by
  intro h
  have hface := faceSize_eq
  have hbuffer := msgBufferSize_eq
  have htext : ∀ off, off < 68 ∨ off = 68 + faceSize + 12 → cString mebibyte off = some [] := by
    intro off hoff
    refine cString_of_zero (by omega) (if_neg ?_)
    omega
  have hdecode : decode mebibyte .addFace =
      some (.addFace ⟨[], [], [], [], faceAt mebibyte 68⟩) := by
    simp [decode, htext]
  have hfits := (stays_addFace_iff (by simp [faceAt, Mat.make]; omega)).1 (h _ hdecode)
  have hword : ∀ off, off = 68 + faceSize ∨ off = 68 + faceSize + 4 →
      intAt mebibyte off = 1024 := by
    intro off hoff
    have hbytes : mebibyte off = 0 ∧ mebibyte (off + 1) = 4 ∧ mebibyte (off + 2) = 0 ∧
        mebibyte (off + 3) = 0 :=
      ⟨if_neg (by omega), if_pos (by omega), if_neg (by omega), if_neg (by omega)⟩
    rw [intAt, hbytes.1, hbytes.2.1, hbytes.2.2.1, hbytes.2.2.2]
    decide +kernel
  obtain ⟨-, -, -, -, hsize⟩ := hfits
  simp only [faceAt, Mat.make, hword _ (Or.inl rfl), hword _ (Or.inr rfl)] at hsize
  omega

end WzxServer
