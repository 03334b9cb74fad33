import WzxServer.Specs

/-!
# Registering a user

`LoginAddFaceEvent` looks for the user with the password (`userExist`), inserts a row
(`addUserInfo`), and stores the image in a transaction of its own (`CDetectModel::add`).
Each of the calls may fail (`Outcomes`). This module says what every part of it does to
the user table, for every combination of outcomes, and `ends_addFace` what the handler
does. The parts are keyed differently : `userExist` asks for classnum, account and
password, `add` for classnum and account only.

`add` in turn either inserts a row or changes those that are there, by whether it finds any, and
so it stores the image in every row of the names. Nothing is looked at between the parts, so the
tables that one leaves are those that the next begins with. At the end of the module is what
becomes of requests that stop on the way : too long names, a too long avatar, and an image that
cannot be read.
-/

namespace WzxServer

open Prog Proc World

/-- Which of the writing calls of a registration succeed. -/
structure Outcomes where
  insert : Bool
  start : Bool
  prepare : Bool
  execute : Bool
  commit : Bool
  rollback : Bool
  deriving DecidableEq

/-- The calls that succeed; connections are there, and queries are answered. -/
def Outcomes.ok (o : Outcomes) : Op → Bool
  | .executeQuery _ (.addUserInfo _ _ _ _) => o.insert
  | .startTransaction _ => o.start
  | .init _ _ => o.prepare
  | .execute _ _ => o.execute
  | .commit _ => o.commit
  | .rollback _ => o.rollback
  | _ => true

/-- The query of `userExist`. -/
def AddFaceData.existStmt (d : AddFaceData) : Stmt :=
  .userExist d.m_classnum d.m_account d.m_password

/-- The insertion of `addUserInfo`. -/
def AddFaceData.infoStmt (d : AddFaceData) : Stmt :=
  .addUserInfo d.m_classnum d.m_account d.m_password d.m_touxiang

/-- The parameters that `add` stores, if it can read them. -/
def imageParams (v : Vision) (image : Mat) : Option ImageParams :=
  (CDetectModel.imageLength v image).bind fun length =>
    (CDetectModel.sentBytes image length).map fun sent =>
      ⟨sent, image.cols, image.rows, image.type, length⟩

/-- What `add` comes to read of the image can be read. -/
def Readable (o : Outcomes) (v : Vision) (image : Mat) : Prop :=
  o.start = true →
    CDetectModel.imageLength v image ≠ none ∧ (o.prepare = true → imageParams v image ≠ none)

instance (o : Outcomes) (v : Vision) (image : Mat) : Decidable (Readable o v image) :=
  inferInstanceAs (Decidable (_ → _))

/-- The `error_code` of `add`. -/
def Outcomes.errorCode (o : Outcomes) : Option ℤ :=
  if o.start ∧ o.prepare then some (if o.execute then 0 else 1) else none

/-- The transaction of `add` takes effect. -/
def Outcomes.stored (o : Outcomes) : Bool :=
  o.start && o.prepare && o.execute && o.commit

variable {S : Server} {o : Outcomes} {v : Vision} {w : World} {image : Mat}

/-! ## The inertness of the parts -/

/-- Names that are inert in one statement are so in the others, which put them between the same
quotes. -/
theorem inert_addSelect {c a p : Bytes} (h : (Stmt.userExist c a p).Inert) :
    (Stmt.addSelect c a).Inert := by
  simp only [Stmt.Inert, Stmt.fields, Stmt.template, whereUser, List.map_cons, List.map_nil,
    List.forall_mem_cons] at h ⊢
  exact ⟨h.1, h.2.1, by simp⟩

theorem inert_addUpdate {c a p : Bytes} (h : (Stmt.userExist c a p).Inert) (q : ImageParams) :
    (Stmt.addUpdate c a q).Inert := by
  simp only [Stmt.Inert, Stmt.fields, Stmt.template, whereUser, List.map_cons, List.map_nil,
    List.forall_mem_cons] at h ⊢
  exact ⟨h.1, h.2.1, by simp⟩

theorem inert_addInsert {c a p : Bytes} (h : (Stmt.userExist c a p).Inert) (q : ImageParams) :
    (Stmt.addInsert c a q).Inert := by
  simp only [Stmt.Inert, Stmt.fields, Stmt.template, List.map_cons, List.map_nil,
    List.forall_mem_cons] at h ⊢
  exact ⟨h.1, h.2.1, by simp⟩

/-! ## The parts -/

/-- The check finds a user exactly when a row has the names and the password. -/
theorem ends_userExist {c a p : Bytes} (hfit : (Stmt.userExist c a p).text.length < 256)
    (hinert : (Stmt.userExist c a p).Inert) :
    Ends (serve S o.ok) (CUserModel.userExist c a p) w fun b w' => w.Same w' ∧
      b = w.tables.users.any (·.matches S.mysql.toCollation c a p) := by
  have hexec := MySQL.exec_of_inert (M := S.mysql) hinert w.tables
  rw [CUserModel.userExist]
  refine (ends_openQuery hfit hexec rfl fun _ => rfl).bind ?_
  rintro ⟨conn, _⟩ w₁ ⟨rfl, hsame⟩
  simp only [deref, ret_bind, ends_ask_bind, serve, pure_eq_ret, ends_ret]
  refine ⟨hsame, ?_⟩
  rw [List.isEmpty_map, Bool.eq_iff_iff]
  simp [List.filter_eq_nil_iff]

/-- The insertion is done or not, and nobody asks. -/
theorem ends_addUserInfo {c a p t : Bytes} (hfit : (Stmt.addUserInfo c a p t).text.length < 200) :
    Ends (serve S o.ok) (CUserModel.addUserInfo c a p t) w fun _ w' => w.Frame w' ∧
      w'.tables = if o.insert then (S.mysql.exec (.addUserInfo c a p t) w.tables).tables
        else w.tables := by
  rw [CUserModel.addUserInfo]
  refine (ends_openQuery_exec hfit rfl (b := o.insert) fun _ => rfl).bind ?_
  rintro ⟨conn, res⟩ w₁ ⟨hframe, -, htables⟩
  exact ⟨_, _, rfl, hframe, htables⟩

/-- Storing an image changes the tables by its statement when all of it succeeds, and else
leaves the rows alone. -/
theorem ends_storeImage {c : Conn} (hc : w.txn c = none) {stmt : ImageParams → Stmt}
    (hread : Readable o v image) :
    Ends (serve S o.ok) (CDetectModel.storeImage v c image stmt) w fun r w' => w.Frame w' ∧
      r.2 = o.errorCode ∧
      w'.tables.users = if o.stored then
          (S.mysql.exec (stmt ((imageParams v image).getD default)) w.tables).tables.users
        else w.tables.users := by
  rw [CDetectModel.storeImage, Outcomes.errorCode, Outcomes.stored]
  rcases Bool.eq_false_or_eq_true o.start with hstart | hstart
  · obtain ⟨hlength, hread⟩ := hread hstart
    obtain ⟨length, hlength⟩ := Option.ne_none_iff_exists'.mp hlength
    simp only [ends_ask_bind, serve, Outcomes.ok, hstart, if_true, hlength, defined, ret_bind]
    rcases Bool.eq_false_or_eq_true o.prepare with hprepare | hprepare
    · obtain ⟨p, hp⟩ := Option.ne_none_iff_exists'.mp (hread hprepare)
      have hsent := hp
      simp only [imageParams, hlength, Option.bind_some, Option.map_eq_some_iff] at hsent
      obtain ⟨sent, hsent, hp'⟩ := hsent
      simp only [hprepare, if_true, hsent, ret_bind, ends_ask_bind, serve, Outcomes.ok, hp']
      rcases Bool.eq_false_or_eq_true o.execute with hexecute | hexecute
      · simp only [hexecute, if_true, ends_ask_bind, serve, Outcomes.ok, pure_eq_ret, ends_ret]
        rcases Bool.eq_false_or_eq_true o.commit with hcommit | hcommit
        · obtain ⟨hframe, htables⟩ := commit_exec (M := S.mysql) hc (stmt p)
          simpa [hcommit, htables, hp] using hframe
        · obtain ⟨hframe, husers⟩ := rollback_exec (M := S.mysql) hc (stmt p)
          simpa [hcommit, husers] using hframe
      · obtain ⟨hframe, husers⟩ := rollback_start_transaction hc
        simp only [hexecute, Bool.false_eq_true, if_false, ends_ask_bind, serve, pure_eq_ret,
          ends_ret]
        simpa [hstart, hprepare, husers] using hframe
    · obtain ⟨hframe, htables⟩ := frame_start_transaction hc
      simp only [hprepare]
      exact ends_ret.2 ⟨hframe, by simp, by simp [htables]⟩
  · simp only [ends_ask_bind, serve, Outcomes.ok, hstart]
    exact ends_ret.2 ⟨⟨rfl, rfl, rfl⟩, by simp, by simp⟩

/-- What it cannot read stops it inside the transaction. -/
theorem storeImage_unreadable {c : Conn} (hc : w.txn c = none) {stmt : ImageParams → Stmt}
    (hread : ¬Readable o v image) :
    ∃ w', Prog.run (serve S o.ok) (CDetectModel.storeImage v c image stmt) w = (none, w') ∧
      w.Frame w' ∧ w'.tables = w.tables := by
  simp only [Readable, Classical.not_imp, not_and, ne_eq, not_not] at hread
  obtain ⟨hstart, hread⟩ := hread
  refine ⟨w.start_transaction c, ?_, frame_start_transaction hc⟩
  rw [CDetectModel.storeImage]
  simp only [run_ask_bind, serve, Outcomes.ok, hstart, if_true]
  rcases hlength : CDetectModel.imageLength v image with _ | length
  · simp [defined]
  · obtain ⟨hprepare, hp⟩ := hread (by simp [hlength])
    have hsent : CDetectModel.sentBytes image length = none := by
      simpa [imageParams, hlength] using hp
    simp [defined, run_ask_bind, serve, Outcomes.ok, hprepare, hsent]

/-- The user table once `add` has stored an image. -/
def addUsers (e : Collation) (classnum account : Bytes) (p : ImageParams) (t : Tables) :
    List UserRow :=
  if t.users.any (·.named e classnum account) then
    t.users.map fun r => if r.named e classnum account then r.setImage p else r
  else
    t.users ++ [(UserRow.new classnum account [] [] t.nextUser).setImage p]

/-- What `add` does up to the transaction : its statement depends on the rows it finds. -/
theorem run_add_rows (image : Mat) {c a : Bytes} {rows : List Row}
    (hrows : (S.mysql.exec (.addSelect c a) w.tables).rows = some rows) :
    ∃ w', w.Frame w' ∧ w'.tables = (S.mysql.exec (.addSelect c a) w.tables).tables ∧
      w'.txn w.conns = none ∧
      Prog.run (serve S o.ok) (CDetectModel.add v image c a) w =
        Prog.run (serve S o.ok) (CDetectModel.storeImage v w.conns image
          (if rows.isEmpty then .addInsert c a else .addUpdate c a)) w' := by
  have hexec := exec_of_none (M := S.mysql) w.txn_acquire (.addSelect c a)
  refine ⟨(w.acquire.exec S.mysql w.conns (.addSelect c a)).2, ?_, ?_, ?_, ?_⟩
  · rw [hexec]
    exact ⟨rfl, rfl, rfl⟩
  · rw [hexec, acquire_tables]
  · rw [hexec]
    exact w.txn_acquire
  · have hfound : (w.acquire.exec S.mysql w.conns (.addSelect c a)).1.rows = some rows := by
      rw [hexec, acquire_tables, hrows]
    rw [CDetectModel.add]
    simp only [run_ask_bind, serve, Outcomes.ok, if_true, deref, ret_bind, hfound]
    cases rows <;> rfl

/-- It finds the rows of the user. -/
theorem run_add (image : Mat) {c a : Bytes} (hinert : (Stmt.addSelect c a).Inert) :
    ∃ w', w.Same w' ∧ w'.txn w.conns = none ∧
      Prog.run (serve S o.ok) (CDetectModel.add v image c a) w =
        Prog.run (serve S o.ok) (CDetectModel.storeImage v w.conns image
          (if w.tables.users.any (·.named S.mysql.toCollation c a) then .addUpdate c a
            else .addInsert c a)) w' := by
  have hexec := MySQL.exec_of_inert (M := S.mysql) hinert w.tables
  obtain ⟨w', hframe, htables, htxn, hrun⟩ := run_add_rows (S := S) (o := o) (v := v) (w := w)
    image (congrArg Effect.rows hexec)
  rw [hexec] at htables
  refine ⟨w', ⟨htables, hframe.reads, hframe.userMap, hframe.sent⟩, htxn, hrun.trans ?_⟩
  rw [List.isEmpty_map]
  by_cases hany : w.tables.users.any (·.named S.mysql.toCollation c a) = true
  · rw [if_pos hany, if_neg]
    simpa [List.filter_eq_nil_iff] using hany
  · rw [if_neg hany, if_pos]
    simpa [List.filter_eq_nil_iff] using hany

/-- `add` ends with what was stored, where the image can be read. -/
theorem ends_add {c a p : Bytes} (hinert : (Stmt.userExist c a p).Inert)
    (hread : Readable o v image) :
    Ends (serve S o.ok) (CDetectModel.add v image c a) w fun r w' => w.Frame w' ∧
      r.2 = o.errorCode ∧
      w'.tables.users = if o.stored then
          addUsers S.mysql.toCollation c a ((imageParams v image).getD default) w.tables
        else w.tables.users := by
  obtain ⟨w₁, hsame, htxn, hrun⟩ := run_add (S := S) (o := o) (v := v) (w := w) image
    (inert_addSelect hinert)
  rw [Ends, hrun, addUsers, ← hsame.tables]
  by_cases hany : w₁.tables.users.any (·.named S.mysql.toCollation c a) = true
  · simp only [hany, if_true]
    refine (ends_storeImage htxn hread).mono ?_
    rintro r w₂ ⟨hframe, hcode, husers⟩
    rw [MySQL.exec_of_inert (inert_addUpdate hinert _)] at husers
    exact ⟨hsame.frame.trans hframe, hcode, husers⟩
  · simp only [if_neg hany]
    refine (ends_storeImage htxn hread).mono ?_
    rintro r w₂ ⟨hframe, hcode, husers⟩
    rw [MySQL.exec_of_inert (inert_addInsert hinert _)] at husers
    exact ⟨hsame.frame.trans hframe, hcode, husers⟩

/-- Where it cannot, `add` stops inside of its transaction. -/
theorem add_unreadable {c a : Bytes} (hinert : (Stmt.addSelect c a).Inert)
    (hread : ¬Readable o v image) :
    ∃ w', Prog.run (serve S o.ok) (CDetectModel.add v image c a) w = (none, w') ∧
      w.Frame w' ∧ w'.tables = w.tables := by
  obtain ⟨w₁, hsame, htxn, hrun⟩ := run_add (S := S) (o := o) (v := v) (w := w) image
    hinert
  obtain ⟨w₂, hrun', hframe, htables⟩ := storeImage_unreadable (S := S) htxn hread
  exact ⟨w₂, hrun.trans hrun', hsame.frame.trans hframe, htables.trans hsame.tables⟩

/-! ## The handler -/

/-- The tables once `addUserInfo` has run. -/
def infoTables (S : Server) (o : Outcomes) (d : AddFaceData) (t : Tables) : Tables :=
  if o.insert then (S.mysql.exec d.infoStmt t).tables else t

/-- The user table once the handler has run through to its end. -/
def addFaceUsers (S : Server) (o : Outcomes) (v : Vision) (d : AddFaceData) (t : Tables) :
    List UserRow :=
  if o.stored then
    addUsers S.mysql.toCollation d.m_classnum d.m_account ((imageParams v d.image).getD default)
      (infoTables S o d t)
  else (infoTables S o d t).users

/-- The answer at its end. -/
def Outcomes.replies (o : Outcomes) : List Reply :=
  if o.errorCode.getD 0 ≠ 0 then [] else [.register .registerSuccess]

variable {d : AddFaceData}

/-- A user who comes with the password of a row is told so. -/
theorem ends_addFace_exist (hfit : d.existStmt.text.length < 256) (hinert : d.existStmt.Inert)
    (hexist : w.tables.users.any
      (·.matches S.mysql.toCollation d.m_classnum d.m_account d.m_password) = true) :
    Ends (serve S o.ok) (LoginAddFaceEvent v d) w fun _ w' => w'.tables = w.tables ∧
      w'.sent = w.sent ++ [.register .registerUserAlreadyExist] := by
  rw [LoginAddFaceEvent]
  refine (ends_userExist hfit hinert).bind ?_
  rintro _ w₁ ⟨hsame, rfl⟩
  rw [if_pos hexist, ends_ask]
  exact ⟨hsame.tables, congrArg (· ++ _) hsame.sent⟩

/-- Anybody else is inserted, and the image stored. -/
theorem ends_addFace_new (hfit : d.existStmt.text.length < 256) (hinert : d.existStmt.Inert)
    (hnew : ¬w.tables.users.any
      (·.matches S.mysql.toCollation d.m_classnum d.m_account d.m_password) = true)
    (hinfo : d.infoStmt.text.length < 200) (hread : Readable o v d.image) :
    Ends (serve S o.ok) (LoginAddFaceEvent v d) w fun _ w' =>
      w'.tables.users = addFaceUsers S o v d w.tables ∧ w'.sent = w.sent ++ o.replies := by
  rw [LoginAddFaceEvent]
  refine (ends_userExist hfit hinert).bind ?_
  rintro _ w₁ ⟨hsame, rfl⟩
  rw [if_neg hnew]
  refine (ends_addUserInfo hinfo).bind ?_
  rintro _ w₂ ⟨hframe₂, htables₂⟩
  refine (ends_add hinert hread).bind ?_
  rintro ⟨r, error_code⟩ w₃ ⟨hframe₃, rfl, husers₃⟩
  have hsent : w₃.sent = w.sent := hframe₃.sent.trans (hframe₂.sent.trans hsame.sent)
  have htables : w₂.tables = infoTables S o d w.tables := by
    rw [htables₂, hsame.tables, infoTables]
    rfl
  rw [htables] at husers₃
  dsimp only
  rw [Outcomes.replies]
  split_ifs with hcode
  · rw [ends_ret]
    exact ⟨husers₃, by rw [hsent, List.append_nil]⟩
  · rw [ends_ask]
    exact ⟨husers₃, congrArg (· ++ _) hsent⟩

/-! ## Where it stops -/

/-- Too long names stop the request before it did anything. -/
theorem addFace_unfit_exist (hfit : ¬d.existStmt.text.length < 256) :
    ∃ w', Prog.run (serve S o.ok) (LoginAddFaceEvent v d) w = (none, w') ∧
      w'.tables = w.tables := by
  refine ⟨w.acquire, ?_, rfl⟩
  have hfit' : ¬(Stmt.userExist d.m_classnum d.m_account d.m_password).text.length < 256 := hfit
  simp [LoginAddFaceEvent, CUserModel.userExist, openQuery, run_ask_bind, serve, Outcomes.ok,
    sprintf, hfit']

/-- A too long avatar stops it once nobody was found. -/
theorem addFace_unfit_info (hfit : d.existStmt.text.length < 256) (hinert : d.existStmt.Inert)
    (hnew : ¬w.tables.users.any
      (·.matches S.mysql.toCollation d.m_classnum d.m_account d.m_password) = true)
    (hinfo : ¬d.infoStmt.text.length < 200) :
    ∃ w', Prog.run (serve S o.ok) (LoginAddFaceEvent v d) w = (none, w') ∧
      w'.tables = w.tables := by
  obtain ⟨_, w₁, hrun, hsame, rfl⟩ := ends_userExist (S := S) (o := o) (w := w) hfit hinert
  refine ⟨w₁.acquire, ?_, hsame.tables⟩
  have hinfo' : ¬(Stmt.addUserInfo d.m_classnum d.m_account d.m_password
    d.m_touxiang).text.length < 200 := hinfo
  rw [LoginAddFaceEvent, run_bind_of_some _ hrun, if_neg hnew]
  simp [CUserModel.addUserInfo, openQuery, run_ask_bind, serve, Outcomes.ok, sprintf, hinfo']

/-- An image that cannot be read stops it after the row was inserted. -/
theorem addFace_unreadable (hfit : d.existStmt.text.length < 256) (hinert : d.existStmt.Inert)
    (hnew : ¬w.tables.users.any
      (·.matches S.mysql.toCollation d.m_classnum d.m_account d.m_password) = true)
    (hinfo : d.infoStmt.text.length < 200) (hread : ¬Readable o v d.image) :
    ∃ w', Prog.run (serve S o.ok) (LoginAddFaceEvent v d) w = (none, w') ∧
      w'.tables = infoTables S o d w.tables := by
  obtain ⟨_, w₁, hrun, hsame, rfl⟩ := ends_userExist (S := S) (o := o) (w := w) hfit hinert
  obtain ⟨_, w₂, hrun₂, hframe₂, htables₂⟩ :=
    ends_addUserInfo (S := S) (o := o) (w := w₁) (c := d.m_classnum) (a := d.m_account)
      (p := d.m_password) (t := d.m_touxiang) hinfo
  obtain ⟨w₃, hrun₃, -, htables₃⟩ := add_unreadable (S := S) (o := o) (v := v) (w := w₂)
    (inert_addSelect hinert) hread
  refine ⟨w₃, ?_, ?_⟩
  · rw [LoginAddFaceEvent, run_bind_of_some _ hrun, if_neg hnew, run_bind_of_some _ hrun₂,
      run_bind_of_none _ hrun₃]
  · rw [htables₃, htables₂, hsame.tables, infoTables]
    rfl

end WzxServer
