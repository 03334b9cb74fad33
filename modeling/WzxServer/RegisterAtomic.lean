import WzxServer.AddFace

/-!
# Registration, all or nothing

A registration is meant to end with a new row and `REGISTER_SUCCESS`, or with neither. The
row and its image are two transactions, `add` forgets to report that it could not start
one, and a result without an error code counts as success, so most failures break this.
The number of bytes of an image is computed in an `int`, so a large image is cut.
`registersAtomically_iff` lists the requests and the outcomes that go well.

The row that is left is computed first, for each outcome of the calls (`lastRow`), and then held
against what was submitted (`UserRow.Holds`) : the names, the password, the avatar and the
image, which is `rows * cols * elemSize` bytes from the client's own numbers. Where this number
fits an `int` the image is in the blob (`prefix_sent`), and where it does not the row cannot hold
the image.

A text that is not inert is left to MySQL. `Server.doubling` is one that adds the row twice for
it, which shows that the condition has to ask for inert texts.
-/

namespace WzxServer

open Prog Proc World

/-- The row has the names, the password, the avatar and the image that were submitted : the
geometry, the number of its bytes, and all of them at the front of the blob. -/
structure UserRow.Holds (v : Vision) (d : AddFaceData) (r : UserRow) : Prop where
  classnum : r.classnum = d.m_classnum
  account : r.account = d.m_account
  password : r.password = d.m_password
  touxiang : r.touxiang = d.m_touxiang
  geometry : r.width = some d.image.cols ∧ r.height = some d.image.rows ∧
    r.image_type = some d.image.type
  /-- The number of bytes is that of the image, which the code computes in an `int`. -/
  image_length : r.image_length =
    some (d.image.rows * d.image.cols * v.elemSize d.image.type)
  /-- All of them are in the blob, whatever is behind them. -/
  image : ∃ blob, r.image = some blob ∧ v.matSize d.image ≤ blob.length ∧
    d.image.data.take (v.matSize d.image) <+: blob

/-- One row more that holds what was submitted, and `REGISTER_SUCCESS`, or neither. -/
def Atomic (v : Vision) (d : AddFaceData) (w w' : World) : Prop :=
  (∃ r : UserRow, w'.tables.users = w.tables.users ++ [r] ∧ r.Holds v d ∧
      Reply.register .registerSuccess ∈ newly w w') ∨
    w'.tables.users = w.tables.users ∧ Reply.register .registerSuccess ∉ newly w w'

/-- Whatever MySQL does with texts that are not read as they were meant, a registration
comes to its end, without undefined behaviour, and is all or nothing. -/
def RegistersAtomically (e : Collation) (v : Vision) (d : AddFaceData) (o : Outcomes)
    (users : List UserRow) : Prop :=
  ∀ (S : Server) (w : World), S.mysql.toCollation = e → w.tables.users = users →
    Ends (serve S o.ok) (LoginAddFaceEvent v d) w fun _ w' => Atomic v d w w'

/-- The number of the bytes of an image fits an `int`. -/
def Measured (v : Vision) (image : Mat) : Prop :=
  IsInt (image.rows * image.cols * v.elemSize image.type)

instance (v : Vision) (image : Mat) : Decidable (Measured v image) :=
  inferInstanceAs (Decidable (IsInt _))

/-- The outcomes that leave all or nothing : the row is inserted and the image stored in
it; or nothing is inserted and the image is refused, or stored in a row of its own, whose
password and avatar are empty. An image that is stored is stored whole. -/
def Outcomes.Clean (o : Outcomes) (v : Vision) (d : AddFaceData) : Prop :=
  if o.insert then o.stored = true ∧ Measured v d.image
  else o.stored = true ∧ Measured v d.image ∧ d.m_password = [] ∧ d.m_touxiang = [] ∨
    o.start = true ∧ o.prepare = true ∧ o.execute = false

/-- The texts fit their buffers and are inert, the image can be read, and the outcome is
clean. -/
structure CleanEnd (v : Vision) (d : AddFaceData) (o : Outcomes) : Prop where
  /-- `userExist` has 256 bytes for its text. -/
  exist_fits : d.existStmt.text.length < 256
  exist_inert : d.existStmt.Inert
  /-- `addUserInfo` has 200. -/
  info_fits : d.infoStmt.text.length < 200
  /-- Where the insertion fails, its text is not read. -/
  info_inert : o.insert = true → d.infoStmt.Inert
  /-- What is sent of the image is in the memory behind it. -/
  readable : Readable o v d.image
  /-- The calls leave all or nothing. -/
  clean : o.Clean v d

variable {S : Server} {v : Vision} {d : AddFaceData} {o : Outcomes} {w w' : World}

/-! ## The user table at the end -/

/-- An insertion that is read as it was meant adds one row. -/
theorem infoTables_of_inert (hinert : o.insert = true → d.infoStmt.Inert) (t : Tables) :
    (infoTables S o d t).users = if o.insert then
        t.users ++ [UserRow.new d.m_classnum d.m_account d.m_password d.m_touxiang t.nextUser]
      else t.users := by
  rw [infoTables]
  split_ifs with h
  · rw [MySQL.exec_of_inert (hinert h)]
    rfl
  · rfl

/-- The new row has the names. -/
theorem named_new (e : Collation) (c a p t : Bytes) (id : ℤ) :
    (UserRow.new c a p t id).named e c a = true := by
  simp [UserRow.named, UserRow.new, e.eq_refl]

/-- Where nobody else has the names, an image goes to the one row that was just inserted,
or to a row of its own. -/
theorem addUsers_of_absent {e : Collation} {c a : Bytes} {q : ImageParams} {t : Tables}
    {us : List UserRow} (habsent : ∀ r ∈ us, r.named e c a = false) :
    (∀ r : UserRow, r.named e c a = true → t.users = us ++ [r] →
      addUsers e c a q t = us ++ [r.setImage q]) ∧
    (t.users = us → addUsers e c a q t = us ++ [(UserRow.new c a [] [] t.nextUser).setImage q]) := by
  have hmap : us.map (fun r => if r.named e c a then r.setImage q else r) = us := by
    refine (List.map_congr_left fun r hr => ?_).trans (List.map_id us)
    rw [habsent r hr]
    rfl
  constructor
  · intro r hr ht
    have hany : t.users.any (·.named e c a) = true := by
      rw [ht]
      simp [hr]
    rw [addUsers, if_pos hany, ht, List.map_append, hmap]
    simp [hr]
  · intro ht
    have hany : ¬t.users.any (·.named e c a) = true := by
      rw [ht]
      simpa using habsent
    rw [addUsers, if_neg hany, ht]

/-- The row that the handler leaves behind, if any. -/
def lastRow (v : Vision) (d : AddFaceData) (o : Outcomes) (id : ℤ) : Option UserRow :=
  let q := (imageParams v d.image).getD default
  let row := UserRow.new d.m_classnum d.m_account d.m_password d.m_touxiang id
  if o.insert then some (if o.stored then row.setImage q else row)
  else if o.stored then some ((UserRow.new d.m_classnum d.m_account [] [] id).setImage q)
  else none

/-- What a registration does to the users, where nobody has the names. -/
theorem addFaceUsers_of_absent {t : Tables}
    (habsent : ∀ r ∈ t.users, r.named S.mysql.toCollation d.m_classnum d.m_account = false)
    (hinert : o.insert = true → d.infoStmt.Inert) :
    ∃ id, addFaceUsers S o v d t = t.users ++ (lastRow v d o id).toList := by
  have hinfo := infoTables_of_inert (S := S) hinert t
  obtain ⟨hnamed, hnone⟩ := addUsers_of_absent (q := (imageParams v d.image).getD default)
    (t := infoTables S o d t) habsent
  rw [addFaceUsers]
  by_cases hinsert : o.insert = true
  · rw [if_pos hinsert] at hinfo
    refine ⟨t.nextUser, ?_⟩
    rw [hnamed _ (named_new ..) hinfo, hinfo]
    by_cases hstored : o.stored = true
    · simp [lastRow, hinsert, hstored]
    · simp [lastRow, hinsert, hstored]
  · rw [if_neg hinsert] at hinfo
    refine ⟨(infoTables S o d t).nextUser, ?_⟩
    rw [hnone hinfo, hinfo]
    by_cases hstored : o.stored = true
    · simp [lastRow, hinsert, hstored]
    · simp [lastRow, hinsert, hstored]

/-! ## What the row holds -/

/-- The bytes that are sent start with the image, when their number is right. -/
theorem prefix_sent {image : Mat} {n : ℤ} {sent : Bytes} (hint : IsInt n)
    (hsent : CDetectModel.sentBytes image n = some sent) :
    n.toNat ≤ sent.length ∧ image.data.take n.toNat <+: sent := by
  have hle : n.toNat ≤ toSize (n + 1) := by
    obtain ⟨-, hhigh⟩ := hint
    unfold intMax at hhigh
    rcases lt_or_ge n 0 with hneg | hpos
    · omega
    · rw [toSize, Int.emod_eq_of_lt (by omega) (by omega)]
      omega
  unfold CDetectModel.sentBytes at hsent
  split_ifs at hsent with hread
  obtain rfl := Option.some.inj hsent
  rw [List.length_take, min_eq_left hread]
  exact ⟨hle, List.take_prefix_take_left hle⟩

/-- A row into which an image was stored holds what was submitted exactly when the number of
bytes was right, and the texts are. -/
theorem holds_setImage {r : UserRow} {q : ImageParams} (hq : imageParams v d.image = some q) :
    (r.setImage q).Holds v d ↔ Measured v d.image ∧ r.classnum = d.m_classnum ∧
      r.account = d.m_account ∧ r.password = d.m_password ∧ r.touxiang = d.m_touxiang := by
  obtain ⟨length, hlength, hq⟩ := Option.bind_eq_some_iff.mp hq
  obtain ⟨sent, hsent, rfl⟩ := Option.map_eq_some_iff.mp hq
  have hcomm : d.image.cols * d.image.rows = d.image.rows * d.image.cols := mul_comm ..
  have hnumber : length = toInt (d.image.rows * d.image.cols * v.elemSize d.image.type) := by
    unfold CDetectModel.imageLength at hlength
    split_ifs at hlength
    rw [← hcomm]
    exact (Option.some.inj hlength).symm
  constructor
  · intro h
    have hright := Option.some.inj h.image_length
    rw [hnumber] at hright
    exact ⟨toInt_eq_iff.mp hright, h.classnum, h.account, h.password, h.touxiang⟩
  · rintro ⟨hint, hc, ha, hp, ht⟩
    rw [toInt_eq_iff.mpr hint] at hnumber
    subst hnumber
    exact ⟨hc, ha, hp, ht, ⟨rfl, rfl, rfl⟩, rfl, sent, rfl, prefix_sent hint hsent⟩

/-- A new row has no image. -/
theorem not_holds_new (c a p t : Bytes) (id : ℤ) : ¬(UserRow.new c a p t id).Holds v d := by
  intro h
  obtain ⟨_, himage, _⟩ := h.image
  simp [UserRow.new] at himage

/-! ## All or nothing -/

/-- Success is reported unless the execution fails, even when nothing was executed. -/
theorem success_mem_replies :
    Reply.register .registerSuccess ∈ o.replies ↔
      ¬(o.start = true ∧ o.prepare = true ∧ o.execute = false) := by
  rw [Outcomes.replies, Outcomes.errorCode]
  cases o.start <;> cases o.prepare <;> cases o.execute <;> simp

/-- Storing the image is answered as a success. -/
theorem success_of_stored (h : o.stored = true) :
    Reply.register .registerSuccess ∈ o.replies := by
  rw [success_mem_replies]
  simp only [Outcomes.stored, Bool.and_eq_true] at h
  simp [h]

/-- With one row more, it has to hold the request. -/
theorem atomic_some {r : UserRow} (husers : w'.tables.users = w.tables.users ++ [r]) :
    Atomic v d w w' ↔ r.Holds v d ∧ Reply.register .registerSuccess ∈ newly w w' := by
  rw [Atomic, husers]
  constructor
  · rintro (⟨r', he, h⟩ | ⟨he, -⟩)
    · rw [List.append_cancel_left_eq] at he
      obtain rfl := List.singleton_injective he
      exact h
    · simp at he
  · intro h
    exact Or.inl ⟨r, rfl, h⟩

/-- With no row more, there must be no success. -/
theorem atomic_none (husers : w'.tables.users = w.tables.users) :
    Atomic v d w w' ↔ Reply.register .registerSuccess ∉ newly w w' := by
  simp [Atomic, husers]

/-- At its end a registration is all or nothing exactly for clean outcomes. -/
theorem atomic_iff_clean {id : ℤ} (hread : Readable o v d.image)
    (husers : w'.tables.users = w.tables.users ++ (lastRow v d o id).toList)
    (hsent : w'.sent = w.sent ++ o.replies) : Atomic v d w w' ↔ o.Clean v d := by
  have hnew : newly w w' = o.replies := by
    rw [newly, hsent, List.drop_left]
  rw [Outcomes.Clean]
  by_cases hs : o.stored = true
  · have hsuccess := success_of_stored hs
    simp only [Outcomes.stored, Bool.and_eq_true] at hs
    obtain ⟨q, hq⟩ := Option.ne_none_iff_exists'.mp ((hread hs.1.1.1).2 hs.1.1.2)
    by_cases hi : o.insert = true
    · have hrow : lastRow v d o id = some ((UserRow.new d.m_classnum d.m_account d.m_password
          d.m_touxiang id).setImage q) := by
        simp [lastRow, hi, hs, hq, Outcomes.stored]
      rw [hrow] at husers
      rw [atomic_some husers, hnew, holds_setImage hq]
      simp [hi, hs, hsuccess, UserRow.new, Outcomes.stored]
    · have hrow : lastRow v d o id = some ((UserRow.new d.m_classnum d.m_account [] []
          id).setImage q) := by
        simp [lastRow, hi, hs, hq, Outcomes.stored]
      rw [hrow] at husers
      rw [atomic_some husers, hnew, holds_setImage hq]
      simp [hi, hs, hsuccess, UserRow.new, Outcomes.stored, eq_comm]
  · by_cases hi : o.insert = true
    · have hrow : lastRow v d o id = some (UserRow.new d.m_classnum d.m_account d.m_password
          d.m_touxiang id) := by
        simp [lastRow, hi, hs]
      rw [hrow] at husers
      rw [atomic_some husers]
      simp [hi, hs, not_holds_new]
    · have hrow : lastRow v d o id = none := by
        simp [lastRow, hi, hs]
      rw [hrow, Option.toList_none, List.append_nil] at husers
      rw [atomic_none husers, hnew, success_mem_replies]
      simp [hi, hs]

/-- A registration adds at most one row. -/
theorem length_le_of_atomic (h : Atomic v d w w') :
    w'.tables.users.length ≤ w.tables.users.length + 1 := by
  rcases h with ⟨r, husers, -⟩ | ⟨husers, -⟩
  · simp [husers]
  · simp [husers]

/-! ## Texts that are not inert -/

/-- A server where every text that is not read as it was meant adds a row twice, and
returns one. -/
def Server.doubling (e : Collation) : Server :=
  ⟨⟨e, fun _ t => ⟨some [[]], 0, 0,
    { t with users := t.users ++ [UserRow.new [] [] [] [] 0, UserRow.new [] [] [] [] 0] }⟩⟩,
    fun _ => 0, [], 0⟩

/-- A statement that is not inert doubles the user there. -/
theorem exec_doubling {e : Collation} {s : Stmt} (h : ¬s.Inert) (t : Tables) :
    (Server.doubling e).mysql.exec s t = ⟨some [[]], 0, 0,
      { t with users := t.users ++ [UserRow.new [] [] [] [] 0, UserRow.new [] [] [] [] 0] }⟩ :=
  MySQL.exec_of_not_inert h t

theorem length_le_addUsers (e : Collation) (c a : Bytes) (q : ImageParams) (t : Tables) :
    t.users.length ≤ (addUsers e c a q t).length := by
  rw [addUsers]
  split_ifs
  · rw [List.length_map]
  · rw [List.length_append]
    exact Nat.le_add_right _ _

theorem length_infoTables_le (t : Tables) :
    (infoTables S o d t).users.length ≤ (addFaceUsers S o v d t).length := by
  rw [addFaceUsers]
  split_ifs
  · exact length_le_addUsers ..
  · exact le_rfl

/-- A query that is not inert can add rows and find the user. -/
theorem ends_addFace_doubling {e : Collation} (hfit : d.existStmt.text.length < 256)
    (h : ¬d.existStmt.Inert) :
    Ends (serve (.doubling e) o.ok) (LoginAddFaceEvent v d) w fun _ w' =>
      w'.tables.users.length = w.tables.users.length + 2 := by
  have hexec := exec_doubling (e := e) h w.tables
  rw [LoginAddFaceEvent, CUserModel.userExist, bind_assoc]
  refine (ends_openQuery_exec hfit rfl (b := true) fun _ => rfl).bind ?_
  rintro ⟨conn, _⟩ w₁ ⟨-, rfl, htables⟩
  have hrows : ((Server.doubling e).mysql.exec d.existStmt w.tables).rows = some [[]] :=
    congrArg Effect.rows hexec
  have hlength : w₁.tables.users.length = w.tables.users.length + 2 := by
    rw [htables, if_pos rfl, hexec]
    exact List.length_append
  simp only [if_true, hrows, deref, bind_assoc, ret_bind, ends_ask_bind, serve, pure_eq_ret]
  rw [if_pos (by rfl), ends_ask]
  exact hlength

/-- A registration, for names that are not taken, comes to an end and is all or nothing exactly
when its texts fit and are inert, its image can be read, and the outcome is clean. -/
theorem registersAtomically_iff {e : Collation} {users : List UserRow}
    (habsent : ∀ r ∈ users, r.named e d.m_classnum d.m_account = false) :
    RegistersAtomically e v d o users ↔ CleanEnd v d o := by
  have hnew : ¬users.any (·.matches e d.m_classnum d.m_account d.m_password) = true := by
    simp only [List.any_eq_true, UserRow.matches, Bool.and_eq_true, not_exists, not_and]
    intro r hr hnamed
    simp [habsent r hr] at hnamed
  let w : World := .start { Tables.empty with users := users }
  constructor
  · intro hatomic
    have hfit : d.existStmt.text.length < 256 := by
      by_contra h
      obtain ⟨w', hrun, -⟩ := addFace_unfit_exist (S := .rejecting e) (o := o) (v := v) (w := w) h
      exact (hatomic _ w rfl rfl).not_none hrun
    have hinert : d.existStmt.Inert := by
      by_contra h
      obtain ⟨_, w', hrun, hlength⟩ := ends_addFace_doubling (e := e) (o := o) (v := v) (w := w)
        hfit h
      have := length_le_of_atomic ((hatomic _ w rfl rfl).of_run hrun)
      omega
    have hfit' : d.infoStmt.text.length < 200 := by
      by_contra h
      obtain ⟨w', hrun, -⟩ := addFace_unfit_info (S := .rejecting e) (o := o) (v := v) (w := w)
        hfit hinert hnew h
      exact (hatomic _ w rfl rfl).not_none hrun
    have hread : Readable o v d.image := by
      by_contra h
      obtain ⟨w', hrun, -⟩ := addFace_unreadable (S := .rejecting e) (w := w) hfit hinert hnew
        hfit' h
      exact (hatomic _ w rfl rfl).not_none hrun
    have hinfo : o.insert = true → d.infoStmt.Inert := by
      intro hinsert
      by_contra h
      obtain ⟨_, w', hrun, husers, -⟩ := ends_addFace_new (S := .doubling e) (o := o) (v := v)
        (w := w) hfit hinert hnew hfit' hread
      have hle := length_le_of_atomic ((hatomic _ w rfl rfl).of_run hrun)
      have hge := length_infoTables_le (S := .doubling e) (o := o) (v := v) (d := d) w.tables
      rw [infoTables, if_pos hinsert, exec_doubling h] at hge
      simp only [List.length_append, List.length_cons, List.length_nil] at hge
      rw [husers] at hle
      omega
    obtain ⟨_, w', hrun, husers, hsent⟩ := ends_addFace_new (S := .rejecting e) (o := o)
      (v := v) (w := w) hfit hinert hnew hfit' hread
    obtain ⟨id, hid⟩ := addFaceUsers_of_absent (S := .rejecting e) (v := v) (t := w.tables)
      habsent hinfo
    have hclean := (atomic_iff_clean hread (husers.trans hid) hsent).1
      ((hatomic _ w rfl rfl).of_run hrun)
    exact ⟨hfit, hinert, hfit', hinfo, hread, hclean⟩
  · intro hclean S w he husers
    subst he
    have hnew' : ¬w.tables.users.any
        (·.matches S.mysql.toCollation d.m_classnum d.m_account d.m_password) = true := by
      rwa [husers]
    obtain ⟨id, hid⟩ := addFaceUsers_of_absent (S := S) (v := v) (t := w.tables)
      (husers ▸ habsent) hclean.info_inert
    refine (ends_addFace_new hclean.exist_fits hclean.exist_inert hnew' hclean.info_fits
      hclean.readable).mono ?_
    rintro _ w' ⟨husers', hsent⟩
    exact (atomic_iff_clean hclean.readable (husers'.trans hid) hsent).2 hclean.clean

/-- A registration of `root` in class `1`, with an image of one pixel. -/
def addRoot : AddFaceData :=
  ⟨ascii "1", ascii "root", ascii "pw", [], Mat.make 1 1 0 [7, 0]⟩

/-- A vision where a pixel is a byte. -/
def grayVision : Vision :=
  ⟨fun _ => 1, id, fun _ _ => 0⟩

/-- `ann` of the same class is there before. All calls succeed, and `root` is registered. -/
theorem registersAtomically_iff_root :
    RegistersAtomically .binary grayVision addRoot ⟨true, true, true, true, true, true⟩
      [.new (ascii "1") (ascii "ann") (ascii "pw") [] 1] :=
  (registersAtomically_iff (by decide +kernel)).mpr
    ⟨by decide +kernel, by decide +kernel, by decide +kernel, fun _ => by decide +kernel,
      by decide, by decide, by decide⟩

/-- When the transaction cannot be started, the row stays without an image and success is
reported. -/
theorem not_registersAtomically_noStart :
    ¬∀ (e : Collation) (v : Vision) (d : AddFaceData) (o : Outcomes) (users : List UserRow),
      (∀ r ∈ users, r.named e d.m_classnum d.m_account = false) →
        RegistersAtomically e v d o users := by
  intro hall
  let o : Outcomes := ⟨true, false, true, true, true, true⟩
  let w : World := .start .empty
  have hinfo : addRoot.infoStmt.Inert := by decide +kernel
  have hread : Readable o grayVision addRoot.image := by decide
  obtain ⟨_, w', hrun, husers, hsent⟩ := ends_addFace_new (S := .rejecting .binary) (o := o)
    (v := grayVision) (w := w) (d := addRoot) (by decide +kernel) (by decide +kernel)
    (by simp [w, World.start, Tables.empty]) (by decide +kernel) hread
  obtain ⟨id, hid⟩ := addFaceUsers_of_absent (S := .rejecting .binary) (o := o)
    (v := grayVision) (t := w.tables) (d := addRoot) (by simp [w, World.start, Tables.empty])
    fun _ => hinfo
  have hatomic := (hall .binary grayVision addRoot o [] (by simp) _ w rfl rfl).of_run hrun
  have hclean := (atomic_iff_clean hread (husers.trans hid) hsent).1 hatomic
  simp [Outcomes.Clean, Outcomes.stored, o] at hclean

end WzxServer
