import WzxServer.Specs
import Mathlib.Tactic.NormNum

/-!
# Face login

`detectOneFace` answers with two names : those of the request when a stored image is
similar enough, `noFace` twice when a comparison finds no face, and two empty strings when
no row decides. The handler compares them with the names of the request, so a client that
is called `noFace`, or has no name, is let in by the wrong answer. And the loop stops at
the first score of 0, also when a later image would be similar enough.
`detectsRight_iff` says when none of this happens.

The scores of the images are a list, one for each row with the names of the request, in the order
of the table. `verdict` is what the loop ends with and depends on the list only, so what is left
is to compare the verdict with what the scores say about a login that is right. How similar two
images are is a parameter.
-/

namespace WzxServer

open Prog Proc World

/-! ## The scores -/

/-- The image a row stores. -/
def UserRow.stored (r : UserRow) : Mat :=
  Mat.make (r.height.getD 0) (r.width.getD 0) (r.image_type.getD 0) (r.image.getD [])

/-- None of the image columns is NULL. -/
def UserRow.HasImage (r : UserRow) : Prop :=
  r.image.isSome ∧ r.width.isSome ∧ r.height.isSome ∧ r.image_type.isSome ∧
    r.image_length.isSome

instance (r : UserRow) : Decidable r.HasImage :=
  inferInstanceAs (Decidable (_ ∧ _))

/-- The statement of a `DETECT` request. -/
def DetectFaceData.stmt (d : DetectFaceData) : Stmt :=
  .detectOneFace d.m_classnum d.m_account

/-- How similar the image of the request is to the one of a row. -/
def DetectFaceData.score (v : Vision) (d : DetectFaceData) (r : UserRow) : ℚ :=
  v.compareImage (v.reread d.image) r.stored

/-- A score that lets in. -/
def Similar (s : ℚ) : Prop :=
  8 / 10 < s

instance (s : ℚ) : Decidable (Similar s) :=
  inferInstanceAs (Decidable (_ < _))

/-- The scores that the loop sees. -/
def DetectFaceData.scores (e : Collation) (v : Vision) (d : DetectFaceData)
    (users : List UserRow) : List ℚ :=
  (users.filter (·.named e d.m_classnum d.m_account)).map (d.score v)

/-- Whatever MySQL does with texts that are not read as they were meant, `DETECT_SUCCESS`
is answered when the user has a similar image, and `DETECT_NOUSER` otherwise. -/
def DetectsRight (e : Collation) (v : Vision) (d : DetectFaceData) (users : List UserRow) : Prop :=
  ∀ (S : Server) (w : World), S.mysql.toCollation = e → w.tables.users = users →
    ∃ w', Prog.run (serve S allOk) (detectFaceEvent v d) w = (some (), w') ∧
      w'.sent = w.sent ++
        [.detect (if ∃ s ∈ d.scores e v users, Similar s then .detectSuccess
          else .detectNoUser)]

/-- The names mean what they say : the first score that stops the loop is a similar one,
or it is 0, and then a similar one is behind it exactly for the names `noFace`; when no
score stops the loop, the names are not both empty. -/
def Unmistaken (classnum account : Bytes) (scores : List ℚ) : Prop :=
  match scores.find? fun s => Similar s ∨ s = 0 with
  | none => ¬(classnum = [] ∧ account = [])
  | some s => Similar s ∨
      ((∃ s ∈ scores, Similar s) ↔ classnum = ascii "noFace" ∧ account = ascii "noFace")

/-! ## The loop -/

/-- What the loop ends with. -/
def verdict (classnum account : Bytes) (scores : List ℚ) : Bytes × Bytes :=
  match scores.find? fun s => Similar s ∨ s = 0 with
  | none => ([], [])
  | some s => if Similar s then (classnum, account) else (ascii "noFace", ascii "noFace")

variable {S : Server} {v : Vision} {w : World}

/-- A row with an image is compared. -/
theorem compareRows_face {src : Mat} {classnum account : Bytes} {r : UserRow} (hr : r.HasImage)
    (rows : List Row) :
    CDetectModel.compareRows v src classnum account (r.face :: rows) =
      if Similar (v.compareImage src r.stored) then ret (classnum, account)
      else if v.compareImage src r.stored = 0 then ret (ascii "noFace", ascii "noFace")
      else CDetectModel.compareRows v src classnum account rows := by
  obtain ⟨himage, hwidth, hheight, htype, hlength⟩ := hr
  obtain ⟨image, himage⟩ := Option.isSome_iff_exists.mp himage
  obtain ⟨width, hwidth⟩ := Option.isSome_iff_exists.mp hwidth
  obtain ⟨height, hheight⟩ := Option.isSome_iff_exists.mp hheight
  obtain ⟨image_type, htype⟩ := Option.isSome_iff_exists.mp htype
  obtain ⟨image_length, hlength⟩ := Option.isSome_iff_exists.mp hlength
  simp [CDetectModel.compareRows, UserRow.face, UserRow.stored, getInt, Row.get, Row.getString,
    Cell.ofInt?, Cell.ofText?, deref, Similar, himage, hwidth, hheight, htype, hlength]

/-- The loop stops at the first row that decides. -/
theorem compareRows_eq {src : Mat} {classnum account : Bytes} :
    ∀ {rs : List UserRow}, (∀ r ∈ rs, r.HasImage) →
      CDetectModel.compareRows v src classnum account (rs.map UserRow.face) =
        ret (verdict classnum account (rs.map fun r => v.compareImage src r.stored))
  | [], _ => rfl
  | r :: rs, hrs => by
    have ih : CDetectModel.compareRows v src classnum account (rs.map UserRow.face) = _ :=
      compareRows_eq fun q hq => hrs q (List.mem_cons_of_mem r hq)
    rw [List.map_cons, compareRows_face (hrs r (by simp)), ih, List.map_cons, verdict, verdict]
    split_ifs with hs h0
    · simp [hs]
    · rw [h0] at hs ⊢
      simp [hs]
    · simp [hs, h0]

/-! ## The answer -/

/-- The handler compares the names it gets with those of the request. -/
def answer (classnum account : Bytes) (t : Bytes × Bytes) : Cmd :=
  if t = (classnum, account) then .detectSuccess else .detectNoUser

/-- With a text that fits and is inert, the handler answers by the verdict on the scores. -/
theorem ends_detectFaceEvent {d : DetectFaceData} (hfit : d.stmt.text.length < 256)
    (hinert : d.stmt.Inert) (himg : ∀ r ∈ w.tables.users, r.HasImage) :
    Ends (serve S allOk) (detectFaceEvent v d) w fun _ w' =>
      w'.sent = w.sent ++ [.detect (answer d.m_classnum d.m_account
        (verdict d.m_classnum d.m_account (d.scores S.mysql.toCollation v w.tables.users)))] := by
  have hexec := MySQL.exec_of_inert (M := S.mysql) hinert w.tables
  have hscan : CDetectModel.compareRows v (v.reread d.image) d.m_classnum d.m_account _ =
      ret (verdict d.m_classnum d.m_account (d.scores S.mysql.toCollation v w.tables.users)) :=
    compareRows_eq fun r hr => himg r (List.mem_filter.mp hr).1
  rw [detectFaceEvent, CDetectModel.detectOneFace, bind_assoc]
  refine (ends_openQuery hfit hexec (rfl : allOk _ = true) fun _ => rfl).bind ?_
  rintro ⟨c, _⟩ w₁ ⟨rfl, hsame⟩
  simp only [bind_assoc, deref, ret_bind, hscan, ends_ask_bind, serve, pure_eq_ret]
  generalize verdict d.m_classnum d.m_account _ = t
  obtain ⟨group_id, user_id⟩ := t
  simp only [answer, Prod.mk.injEq, ← hsame.sent]
  by_cases h : group_id = d.m_classnum ∧ user_id = d.m_account
  · rw [if_pos h, if_neg (by tauto)]
    exact ends_ask.2 rfl
  · rw [if_neg h, if_pos (by tauto)]
    exact ends_ask.2 rfl

/-- The verdict is right exactly when the names do not get in its way. -/
theorem answer_verdict_iff {classnum account : Bytes} {scores : List ℚ} :
    answer classnum account (verdict classnum account scores) =
        (if ∃ s ∈ scores, Similar s then .detectSuccess else .detectNoUser) ↔
      Unmistaken classnum account scores := by
  rw [answer, verdict, Unmistaken]
  cases hfind : scores.find? fun s => Similar s ∨ s = 0 with
  | none =>
    have hno : ¬∃ s ∈ scores, Similar s := by
      rintro ⟨s, hs, hsim⟩
      simpa [hsim] using List.find?_eq_none.mp hfind s hs
    simp [hno, eq_comm]
  | some s =>
    by_cases hsim : Similar s
    · have hyes : ∃ s ∈ scores, Similar s := ⟨s, List.mem_of_find?_eq_some hfind, hsim⟩
      simp [hsim, hyes]
    · by_cases hyes : ∃ s ∈ scores, Similar s
      · simp [hsim, hyes, eq_comm]
      · simp [hsim, hyes, eq_comm]

/-- A handler that returned had a text that fits, and rows to look at. -/
theorem detectFaceEvent_inv {ok : Op → Bool} {d : DetectFaceData} {w' : World}
    (hrun : Prog.run (serve S ok) (detectFaceEvent v d) w = (some (), w')) :
    d.stmt.text.length < 256 ∧ (S.mysql.exec d.stmt w.tables).rows ≠ none := by
  rw [detectFaceEvent, CDetectModel.detectOneFace, bind_assoc] at hrun
  obtain ⟨⟨c, res⟩, w₁, hquery, hrest⟩ := run_bind_inv _ hrun
  obtain ⟨hfit, hres, -⟩ := openQuery_inv hquery
  refine ⟨hfit, fun hnone => ?_⟩
  obtain rfl : res = none := hres.elim id fun h => h.trans hnone
  simp [deref] at hrest

/-- Face login is right, for a user table without NULL images, exactly for names that fit,
are inert and are not mistaken for the answer of the loop. -/
theorem detectsRight_iff {e : Collation} {v : Vision} {d : DetectFaceData}
    {users : List UserRow} (himg : ∀ r ∈ users, r.HasImage) :
    DetectsRight e v d users ↔
      d.stmt.text.length < 256 ∧ d.stmt.Inert ∧
        Unmistaken d.m_classnum d.m_account (d.scores e v users) := by
  constructor
  · intro hright
    obtain ⟨w', hrun, hsent⟩ :=
      hright (.rejecting e) (.start { Tables.empty with users := users }) rfl rfl
    obtain ⟨hfit, hrows⟩ := detectFaceEvent_inv hrun
    have hinert : d.stmt.Inert := by
      by_contra h
      exact hrows (congrArg Effect.rows (MySQL.exec_of_not_inert h _))
    have hanswer := (ends_detectFaceEvent hfit hinert himg).of_run hrun
    rw [hsent, List.append_cancel_left_eq, List.cons.injEq, Reply.detect.injEq] at hanswer
    exact ⟨hfit, hinert, answer_verdict_iff.1 hanswer.1.symm⟩
  · rintro ⟨hfit, hinert, hun⟩ S w rfl rfl
    obtain ⟨_, w', hrun, hsent⟩ := ends_detectFaceEvent (S := S) (v := v) hfit hinert himg
    exact ⟨w', hrun, by rw [hsent, answer_verdict_iff.2 hun]⟩

/-- A vision that finds every two images the same, but for the size of the stored one. -/
def sameFace : Vision :=
  ⟨fun _ => 1, id, fun _ dst => if dst.rows = 0 then 0 else 1⟩

/-- The user `root` of class `1`, with an image of one pixel. -/
def rootRow : UserRow :=
  ⟨1, ascii "1", ascii "root", ascii "pw", 0, [], [], some [7], some 1, some 1, some 0, some 1⟩

/-- A request by `root`. -/
def detectRoot : DetectFaceData :=
  ⟨ascii "1", ascii "root", Mat.make 1 1 0 [7]⟩

/-- A user with a stored image is recognised by it. -/
theorem detectsRight_iff_root :
    DetectsRight .binary sameFace detectRoot [rootRow] ↔
      detectRoot.stmt.text.length < 256 ∧ detectRoot.stmt.Inert ∧
        Unmistaken detectRoot.m_classnum detectRoot.m_account
          (detectRoot.scores .binary sameFace [rootRow]) :=
  detectsRight_iff (by decide)

/-- Without users, a client without a name is let in. -/
theorem not_detectsRight_noName :
    ¬∀ (e : Collation) (v : Vision) (d : DetectFaceData) (users : List UserRow),
      (∀ r ∈ users, r.HasImage) → DetectsRight e v d users := by
  intro hall
  have hright := hall .binary sameFace ⟨[], [], Mat.make 1 1 0 [7]⟩ [] (by simp)
  obtain ⟨w', hrun, hsent⟩ := hright (.rejecting .binary) (.start .empty) rfl rfl
  have hanswer := (ends_detectFaceEvent (by decide +kernel) (by decide +kernel)
    (by simp [World.start, Tables.empty])).of_run hrun
  rw [hsent] at hanswer
  revert hanswer
  decide

end WzxServer
