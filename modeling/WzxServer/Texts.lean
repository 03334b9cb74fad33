import WzxServer.Fields
import WzxServer.Sessions
import WzxServer.Lib.Mirror

/-!
# The texts in statements

Every text that a handler puts between quotes is one of its request, the address of the peer, a
number, or an account that `GETUSER` read before, and the rows that a login selects are only
looked at for there being any. `discreet_doEvent` says so for the handlers of all requests.

Two facts are carried through a handler at once, since one needs the other. A statement is
`Fair` when its texts are legible and the password that it compares has a property `P`. A
program is `Discreet` when it sends only fair statements and goes on in one way with answers
that look alike (`Like`), so that what it sends later does not depend on a password either.

The proof follows the programs : a rule for each operation, for the loops and for the branches,
then one lemma for each model and each handler.
-/

namespace WzxServer

open Prog Proc

/-- A C string that is read between quotes as it stands. -/
structure Legible (s : Bytes) : Prop where
  noNul : (0 : UInt8) ∉ s
  inert : mysql.inert s = true

/-- The passwords that a statement compares with those of rows. -/
def Stmt.tries : Stmt → List Bytes
  | .loginUser _ _ p | .userExist _ _ p => [p]
  | _ => []

/-- The statement selects passwords. -/
def Stmt.selectsPassword : Stmt → Bool
  | .loginUser _ _ _ => true
  | _ => false

/-- The password that the handler of a request tries. -/
def Request.tries : Request → List Bytes
  | .login d => [d.m_password]
  | .addFace d => [d.m_password]
  | _ => []

/-- The texts of a request that its handler puts into statements. The content of a message is a
parameter. -/
def Request.quoted : Request → List Bytes
  | .messageSend d => [d.fromClassNum, d.toClassNum, d.fromAccount, d.toAccount]
  | .delUser _ | .delGroup _ => []
  | q => q.texts

/-- The texts of a statement are legible, and the passwords that it tries have `P`. -/
structure Stmt.Fair (P : Bytes → Prop) (s : Stmt) : Prop where
  legible : ∀ f ∈ s.fields, Legible f
  tries : ∀ p ∈ s.tries, P p

/-- The same of the statement that is sent. -/
def Op.Fair (P : Bytes → Prop) : Op → Prop
  | .executeQuery _ s | .executeUpdate _ s | .execute _ s => s.Fair P
  | _ => True

/-- The same of a request. -/
structure Request.Fair (P : Bytes → Prop) (q : Request) : Prop where
  legible : ∀ f ∈ q.quoted, Legible f
  tries : ∀ p ∈ q.tries, P p

/-- Answers that look alike : those of a login are both empty or both not, and all others are the
same. The accounts of `GETUSER` and the address of the peer are legible. -/
def Like : (o : Op) → o.Ans → o.Ans → Prop
  | .executeQuery _ (.loginUser _ _ _), r, r' => r.map List.isEmpty = r'.map List.isEmpty
  | .executeQuery _ (.groupGetusers _), r, r' =>
    r = r' ∧ ∀ rows, r = some rows → ∀ row ∈ rows, ∀ s, row.getString .account = some s → Legible s
  | .peerIp, r, r' => r = r' ∧ Legible r
  | _, r, r' => r = r'

theorem like_executeQuery {c : Conn} {s : Stmt} (hs : s.selectsPassword = false)
    {r r' : Option (List Row)} (h : Like (.executeQuery c s) r r') : r = r' := by
  cases s <;> first | exact h | exact h.1 | exact Bool.noConfusion hs

variable {α β : Type} {P : Bytes → Prop}

/-- `p` sends fair statements, and goes on in one way with answers that look alike. -/
abbrev Discreet (P : Bytes → Prop) (p : Proc α) : Prop :=
  Deaf (E := Db) (Op.Fair P) Like p fun _ => True

/-! ## Statements -/

theorem Stmt.fair_plain {s : Stmt} (h : s.fields = []) (htries : s.tries = []) : s.Fair P := by
  refine ⟨fun f hf => ?_, fun p hp => ?_⟩
  · exact absurd (h ▸ hf) List.not_mem_nil
  · exact absurd (htries ▸ hp) List.not_mem_nil

theorem legible_decimal (n : ℤ) : Legible (decimal n) := by
  refine ⟨fun h => ?_, inert_decimal n⟩
  rcases mem_decimal h with h | h <;> revert h <;> decide

/-- The texts of a statement about one user. -/
theorem fair_pair {s : Stmt} {c a : Bytes} (h : s.fields = [c, a]) (htries : s.tries = [])
    (hc : Legible c) (ha : Legible a) : s.Fair P := by
  refine ⟨?_, fun p hp => absurd (htries ▸ hp) List.not_mem_nil⟩
  rw [h]
  exact List.forall_mem_cons.mpr ⟨hc, List.forall_mem_singleton.mpr ha⟩

/-! ## Parts of programs -/

theorem discreet_ret (a : α) : Discreet P (ret a) :=
  trivial

theorem discreet_ask {o : Op} (h : o.Fair P) (hA : ∀ r r', Like o r r' → r = r') :
    Discreet P (ask o) :=
  deaf_perform h fun r r' hr => ⟨hA r r' hr, trivial⟩

theorem discreet_getDBConn (n : ℕ) : Discreet P (ask (.getDBConn n)) :=
  discreet_ask trivial fun _ _ h => h

theorem discreet_relDBConn (k : Conn) : Discreet P (ask (.relDBConn k)) :=
  discreet_ask trivial fun _ _ h => h

theorem discreet_time : Discreet P (ask .time) :=
  discreet_ask trivial fun _ _ h => h

theorem discreet_init (k : Conn) (text : Bytes) : Discreet P (ask (.init k text)) :=
  discreet_ask trivial fun _ _ h => h

theorem discreet_getInsertId (k : Conn) : Discreet P (ask (.getInsertId k)) :=
  discreet_ask trivial fun _ _ h => h

theorem discreet_userMapSet (key : Bytes × Bytes) (n : ℤ) : Discreet P (ask (.userMapSet key n)) :=
  discreet_ask trivial fun _ _ h => h

theorem discreet_executeUpdate {k : Conn} {s : Stmt} (hs : s.Fair P) :
    Discreet P (ask (.executeUpdate k s)) :=
  discreet_ask hs fun _ _ h => h

theorem discreet_execute {k : Conn} {s : Stmt} (hs : s.Fair P) :
    Discreet P (ask (.execute k s)) :=
  discreet_ask hs fun _ _ h => h

/-- The connection goes back. -/
theorem discreet_release (k : Conn) (a : α) : Discreet P (ask (.relDBConn k) >>= fun _ => ret a) :=
  (discreet_relDBConn k).bind fun _ _ => discreet_ret a

theorem discreet_deref (a : Option α) : Discreet P (deref a) := by
  cases a
  · exact deaf_fault
  · exact discreet_ret _

theorem deaf_sprintf_bind {size : ℕ} {s : Stmt} {f : Stmt → Proc α} {Q : α → Prop}
    (h : Deaf (E := Db) (Op.Fair P) Like (f s) Q) :
    Deaf (E := Db) (Op.Fair P) Like (sprintf size s >>= f) Q := by
  rw [sprintf]
  split_ifs
  · exact h
  · exact deaf_fault

theorem discreet_memcpyField (size : ℕ) (text : Bytes) : Discreet P (memcpyField size text) := by
  refine Deaf.bind (discreet_ask (o := .memcpy size text) trivial fun _ _ h => h) fun _ _ => ?_
  split_ifs
  · exact discreet_ret _
  · exact deaf_fault

theorem discreet_getInt (row : Row) (key : Col) : Discreet P (getInt row key) := by
  rw [getInt]
  rcases row.get key with _ | (_ | n | s)
  · exact discreet_ret _
  · exact deaf_fault
  · exact discreet_ret _
  · exact discreet_ret _

theorem discreet_getText (row : Row) (key : Col) : Discreet P (getText row key) :=
  (discreet_deref _).bind fun _ _ => trivial

theorem discreet_defined (e : Fault) (a : Option α) : Discreet P (defined e a) := by
  cases a
  · exact deaf_fault
  · exact discreet_ret _

/-- What follows a query has to look at the rows only in a way that cannot tell them apart. -/
theorem deaf_openQuery_bind {size : ℕ} {s : Stmt} (hs : s.Fair P)
    {f : Conn × Option (List Row) → Proc α}
    (hf : ∀ c r r', Like (.executeQuery c s) r r' → f (c, r) = f (c, r') ∧ Discreet P (f (c, r))) :
    Discreet P (openQuery size s >>= f) := by
  refine ⟨trivial, fun c c' hc => ⟨by rw [show c = c' from hc], ?_⟩⟩
  change Discreet P ((sprintf size s >>= _) >>= f)
  rw [Prog.bind_assoc]
  refine deaf_sprintf_bind ?_
  rcases c with _ | c
  · exact deaf_fault
  · exact ⟨hs, hf c⟩

theorem discreet_openQuery {size : ℕ} {s : Stmt} (hs : s.Fair P)
    (hpassword : s.selectsPassword = false) : Discreet P (openQuery size s) := by
  have h : Discreet P (openQuery size s >>= ret) := deaf_openQuery_bind hs fun c r r' hr =>
    ⟨by rw [like_executeQuery hpassword hr], discreet_ret _⟩
  rwa [Prog.bind_ret] at h

theorem discreet_executeQuery {c : Conn} {s : Stmt} (hs : s.Fair P)
    (hpassword : s.selectsPassword = false) : Discreet P (ask (.executeQuery c s)) :=
  discreet_ask hs fun _ _ h => like_executeQuery hpassword h

/-! ## The models -/

section Models

variable {c a p : Bytes}

theorem discreet_getUserId (hc : Legible c) (ha : Legible a) :
    Discreet P (CUserModel.getUserId c a) := by
  refine Deaf.bind (discreet_openQuery (fair_pair rfl rfl hc ha) rfl) fun r _ => ?_
  rcases r with ⟨_, _ | (_ | ⟨row, _⟩)⟩
  · exact discreet_release _ _
  · exact discreet_release _ _
  · exact Deaf.bind (discreet_getInt row .id) fun _ _ => discreet_release _ _

theorem discreet_getUserFromId (userId : ℤ) : Discreet P (CUserModel.getUserFromId userId) := by
  refine Deaf.bind (discreet_openQuery (Stmt.fair_plain rfl rfl) rfl) fun r _ => ?_
  rcases r with ⟨_, _ | (_ | ⟨row, _⟩)⟩
  · exact discreet_release _ _
  · exact discreet_release _ _
  · exact Deaf.bind (discreet_getText row _) fun _ _ =>
      Deaf.bind (discreet_getText row _) fun _ _ => discreet_release _ _

theorem discreet_getTouXiang (hc : Legible c) (ha : Legible a) :
    Discreet P (CUserModel.getTouXiang c a) := by
  refine Deaf.bind (discreet_openQuery (fair_pair rfl rfl hc ha) rfl) fun r _ => ?_
  rcases r with ⟨_, _ | (_ | ⟨row, _⟩)⟩
  · exact discreet_release _ _
  · exact discreet_release _ _
  · exact Deaf.bind (discreet_getText row _) fun _ _ => discreet_release _ _

theorem fair_userExist (hc : Legible c) (ha : Legible a) (hp : Legible p) (htry : P p) :
    (Stmt.userExist c a p).Fair P := by
  refine ⟨?_, List.forall_mem_singleton.mpr htry⟩
  exact List.forall_mem_cons.mpr
    ⟨hc, List.forall_mem_cons.mpr ⟨ha, List.forall_mem_singleton.mpr hp⟩⟩

theorem discreet_userExist (hc : Legible c) (ha : Legible a) (hp : Legible p) (htry : P p) :
    Discreet P (CUserModel.userExist c a p) :=
  Deaf.bind (discreet_openQuery (fair_userExist hc ha hp htry) rfl) fun _ _ =>
    Deaf.bind (discreet_deref _) fun _ _ => discreet_release _ _

/-- A statement whose result is dropped. -/
theorem discreet_openQuery_drop {size : ℕ} {s : Stmt} (hs : s.Fair P)
    (hpassword : s.selectsPassword = false) :
    Discreet P (openQuery size s >>= fun r => ask (.relDBConn r.1)) :=
  Deaf.bind (discreet_openQuery hs hpassword) fun r _ =>
    discreet_relDBConn r.1

theorem discreet_insertPrepared {k : Conn} {s : Stmt} (hs : s.Fair P) :
    Discreet P (insertPrepared k s) := by
  refine Deaf.bind (discreet_init k s.text) fun b _ => ?_
  cases b
  · exact discreet_ret _
  · refine Deaf.bind (discreet_execute hs) fun b _ => ?_
    cases b
    · exact discreet_ret _
    · exact discreet_getInsertId k

theorem discreet_updateOnce {s : Stmt} (hs : s.Fair P) : Discreet P (updateOnce s) := by
  refine Deaf.bind (discreet_getDBConn 0) fun k _ => ?_
  rcases k with _ | k
  · exact discreet_ret _
  · exact Deaf.bind (discreet_executeUpdate hs) fun _ _ => discreet_release _ _

theorem discreet_lastId (res : Option (List Row)) : Discreet P (lastId res) := by
  rcases res with _ | rows
  · exact discreet_ret _
  · exact Deaf.bind (Deaf.forEach fun row _ => discreet_getInt row .id) fun _ _ => discreet_ret _

theorem discreet_addRelation (i j : ℤ) : Discreet P (CRelationModel.addRelation i j) := by
  refine Deaf.bind (discreet_getDBConn 0) fun k _ => ?_
  rcases k with _ | k
  · exact discreet_ret _
  refine Deaf.bind discreet_time fun now _ => ?_
  refine Deaf.bind (discreet_executeQuery (Stmt.fair_plain rfl rfl) rfl) fun res _ => ?_
  have hinsert : Discreet P (insertPrepared k (.addRelationInsert i j 0 now) >>= fun n =>
      ask (.relDBConn k) >>= fun _ => ret n) :=
    Deaf.bind (discreet_insertPrepared (Stmt.fair_plain rfl rfl)) fun _ _ => discreet_release _ _
  rcases res with _ | (_ | ⟨row, rows⟩)
  · exact hinsert
  · exact hinsert
  · exact Deaf.bind (discreet_getInt row .id) fun _ _ =>
      Deaf.bind (discreet_executeUpdate (Stmt.fair_plain rfl rfl)) fun _ _ =>
        Deaf.bind (discreet_ret _) fun _ _ => discreet_release _ _

theorem discreet_getRelationId (i j : ℤ) (bAdd : Bool) :
    Discreet P (CRelationModel.getRelationId i j bAdd) := by
  rw [CRelationModel.getRelationId]
  by_cases h0 : i = 0 ∨ j = 0
  · rw [if_pos h0]
    exact discreet_ret _
  · rw [if_neg h0]
    generalize (if i > j then i else j) = big
    generalize (if i > j then j else i) = small
    refine Deaf.bind (discreet_getDBConn 0) fun k _ => ?_
    rcases k with _ | k
    · exact discreet_ret _
    refine Deaf.bind (discreet_executeQuery (Stmt.fair_plain rfl rfl) rfl) fun res _ => ?_
    refine Deaf.bind (discreet_lastId res) fun n _ => ?_
    refine Deaf.bind (discreet_relDBConn k) fun _ _ => ?_
    split_ifs
    · exact discreet_addRelation _ _
    · exact discreet_ret _

theorem discreet_getSessionId (i j nType : ℤ) (isAll : Bool) :
    Discreet P (CSessionModel.getSessionId i j nType isAll) := by
  refine Deaf.bind (discreet_getDBConn 0) fun k _ => ?_
  rcases k with _ | k
  · exact discreet_ret _
  exact Deaf.bind (discreet_executeQuery (Stmt.fair_plain rfl rfl) rfl) fun res _ =>
    Deaf.bind (discreet_lastId res) fun _ _ => discreet_release _ _

theorem fair_addSessionUpdate {touxiang : Bytes} (h : Legible touxiang) (now id : ℤ) :
    (Stmt.addSessionUpdate touxiang now id).Fair P :=
  fair_pair rfl rfl h (legible_decimal now)

theorem discreet_addSession (i j nType : ℤ) {touxiang : Bytes} (h : Legible touxiang) :
    Discreet P (CSessionModel.addSession i j nType touxiang) := by
  refine Deaf.bind (discreet_getSessionId i j nType true) fun n _ => ?_
  refine Deaf.bind discreet_time fun now _ => ?_
  refine Deaf.bind (discreet_getDBConn 0) fun k _ => ?_
  rcases k with _ | k
  · exact discreet_ret _
  dsimp only
  by_cases hn : n ≠ -1
  · rw [if_pos hn]
    refine deaf_sprintf_bind ?_
    exact Deaf.bind (discreet_executeUpdate (fair_addSessionUpdate h now n)) fun _ _ =>
      Deaf.bind (discreet_ret _) fun _ _ => discreet_release _ _
  · rw [if_neg hn]
    exact Deaf.bind (discreet_insertPrepared (Stmt.fair_plain rfl rfl)) fun _ _ =>
      discreet_release _ _

theorem discreet_inserMessage (relateId fromId toId : ℤ) (content : Bytes) (type status : ℤ) :
    Discreet P (CMessageModel.inserMessage relateId fromId toId content type status) := by
  refine Deaf.bind (discreet_getDBConn 0) fun k _ => ?_
  rcases k with _ | k
  · exact discreet_ret _
  refine Deaf.bind (discreet_init k _) fun prepared _ => ?_
  cases prepared
  · exact discreet_release _ _
  refine Deaf.bind discreet_time fun now _ => ?_
  refine Deaf.bind (discreet_execute (Stmt.fair_plain rfl rfl))
    fun executed _ => ?_
  cases executed
  · exact discreet_release _ _
  · exact Deaf.bind (discreet_getInsertId k) fun _ _ =>
      discreet_release _ _

theorem discreet_getLastMsg (i j : ℤ) : Discreet P (CMessageModel.getLastMsg i j) := by
  refine Deaf.bind (discreet_getRelationId i j false) fun n _ => ?_
  split_ifs
  · exact discreet_ret _
  refine Deaf.bind (discreet_getDBConn 0) fun k _ => ?_
  rcases k with _ | k
  · exact discreet_ret _
  refine Deaf.bind (discreet_executeQuery (Stmt.fair_plain rfl rfl) rfl) fun res _ => ?_
  refine Deaf.bind (Deaf.forEach (Q := fun _ => True) fun row _ => ?_) fun _ _ =>
    discreet_release _ _
  exact Deaf.bind (discreet_getInt row _) fun _ _ =>
    Deaf.bind (discreet_getText row _) fun _ _ => discreet_ret _

theorem discreet_messageOf (res : Row) : Discreet P (CMessageModel.messageOf res) :=
  Deaf.bind (discreet_getText _ _) fun _ _ => Deaf.bind (discreet_getInt _ _) fun _ _ =>
    Deaf.bind (discreet_getUserFromId _) fun _ _ => Deaf.bind (discreet_getInt _ _) fun _ _ =>
    Deaf.bind (discreet_getUserFromId _) fun _ _ =>
    Deaf.bind (discreet_memcpyField _ _) fun _ _ => Deaf.bind (discreet_memcpyField _ _) fun _ _ =>
    Deaf.bind (discreet_memcpyField _ _) fun _ _ => Deaf.bind (discreet_memcpyField _ _) fun _ _ =>
    Deaf.bind (discreet_memcpyField _ _) fun _ _ => Deaf.bind (discreet_getInt _ _) fun _ _ =>
    discreet_ret _

theorem discreet_getMessage (relateId lastTime nowTime : ℤ) :
    Discreet P (CMessageModel.getMessage relateId lastTime nowTime) := by
  have hs : (Stmt.getMessage relateId 1 nowTime lastTime).Fair P := Stmt.fair_plain rfl rfl
  have hpassword : (Stmt.getMessage relateId 1 nowTime lastTime).selectsPassword = false := rfl
  rw [CMessageModel.getMessage]
  -- Whether the text fits does not matter, and is not to be computed.
  generalize Stmt.getMessage relateId 1 nowTime lastTime = s at hs hpassword ⊢
  refine Deaf.bind (discreet_getDBConn 0) fun k _ => ?_
  rcases k with _ | k
  · exact discreet_ret _
  refine deaf_sprintf_bind ?_
  refine Deaf.bind (discreet_executeQuery hs hpassword) fun res _ => ?_
  exact Deaf.bind (Deaf.forEach fun row _ => discreet_messageOf row) fun _ _ =>
    discreet_release _ _

theorem discreet_sessionOf (nUserId : ℤ) (row : Row) :
    Discreet P (CSessionModel.sessionOf nUserId row) :=
  Deaf.bind (discreet_getInt _ _) fun _ _ => Deaf.bind (discreet_memcpyField _ _) fun _ _ =>
    Deaf.bind (discreet_getInt _ _) fun _ _ => Deaf.bind (discreet_getUserFromId _) fun _ _ =>
    Deaf.bind (discreet_getLastMsg _ _) fun _ _ => Deaf.bind (discreet_memcpyField _ _) fun _ _ =>
    Deaf.bind (discreet_memcpyField _ _) fun _ _ => Deaf.bind (discreet_memcpyField _ _) fun _ _ =>
    discreet_ret _

theorem discreet_getRecentSession (nUserId lastTime : ℤ) :
    Discreet P (CSessionModel.getRecentSession nUserId lastTime) := by
  refine Deaf.bind (discreet_getDBConn 0) fun k _ => ?_
  rcases k with _ | k
  · exact discreet_ret _
  refine Deaf.bind (discreet_executeQuery (Stmt.fair_plain rfl rfl) rfl) fun res _ => ?_
  exact Deaf.bind (Deaf.forEach fun row _ => discreet_sessionOf nUserId row) fun _ _ =>
    discreet_release _ _

theorem discreet_groupGetlist : Discreet P CDetectModel.groupGetlist := by
  refine Deaf.bind (discreet_getDBConn 0) fun k _ => ?_
  refine Deaf.bind (discreet_deref k) fun k _ => ?_
  refine Deaf.bind (discreet_executeQuery (Stmt.fair_plain rfl rfl) rfl) fun res _ => ?_
  refine Deaf.bind (discreet_deref res) fun rows _ => ?_
  exact Deaf.bind (Deaf.forEach fun row _ => discreet_getText row _) fun _ _ =>
    discreet_release _ _

/-- The accounts that `GETUSER` goes on with are legible. -/
theorem deaf_groupGetusers (hc : Legible c) :
    Deaf (E := Db) (Op.Fair P) Like (CDetectModel.groupGetusers c) fun users =>
      ∀ user ∈ users, Legible user.1 := by
  have hs : (Stmt.groupGetusers c).Fair P :=
    ⟨List.forall_mem_singleton.mpr hc, fun p hp => absurd hp List.not_mem_nil⟩
  refine Deaf.bind (discreet_getDBConn 0) fun k _ => ?_
  refine Deaf.bind (discreet_deref k) fun k _ => ?_
  refine ⟨hs, fun r r' hr => ⟨by rw [hr.1], ?_⟩⟩
  refine Deaf.bind (Q := fun rows => r = some rows) ?_ fun rows hrows => ?_
  · rcases r with _ | rows
    · exact deaf_fault
    · exact rfl
  refine Deaf.bind (Deaf.forEach (Q := fun user : Bytes × Bytes => Legible user.1)
    fun row hrow => ?_) fun users husers =>
      Deaf.bind (discreet_relDBConn k) fun _ _ => husers
  have haccount : Deaf (E := Db) (Op.Fair P) Like (getText row .account) Legible := by
    rw [getText]
    rcases hs : row.getString .account with _ | s
    · exact deaf_fault
    · have hs' := hr.2 rows hrows row hrow s hs
      change Legible (s.takeWhile (· ≠ 0))
      rw [takeWhile_of_notMem hs'.noNul]
      exact hs'
  exact Deaf.bind haccount fun account h =>
    Deaf.bind (discreet_getText row .touxiang) fun _ _ => h

variable (v : Vision)

theorem discreet_compareRows (m : Mat) :
    ∀ rows : List Row, Discreet P (CDetectModel.compareRows v m c a rows)
  | [] => discreet_ret _
  | row :: rows => by
    rw [CDetectModel.compareRows]
    refine Deaf.bind (discreet_getInt row _) fun width _ => ?_
    refine Deaf.bind (discreet_getInt row _) fun height _ => ?_
    refine Deaf.bind (discreet_getInt row _) fun image_type _ => ?_
    refine Deaf.bind (discreet_getInt row _) fun _ _ => ?_
    refine Deaf.bind (discreet_deref _) fun image _ => ?_
    dsimp only
    split_ifs
    · exact discreet_ret _
    · exact discreet_ret _
    · exact discreet_compareRows m rows

theorem discreet_detectOneFace (m : Mat) (hc : Legible c) (ha : Legible a) :
    Discreet P (CDetectModel.detectOneFace v m c a) := by
  refine Deaf.bind (discreet_openQuery (fair_pair rfl rfl hc ha) rfl) fun r _ => ?_
  refine Deaf.bind (discreet_deref r.2) fun rows _ => ?_
  exact Deaf.bind (discreet_compareRows v m rows) fun _ _ => discreet_release _ _

theorem discreet_storeImage (k : Conn) (image : Mat) {s : ImageParams → Stmt}
    (hs : ∀ q, (s q).Fair P) : Discreet P (CDetectModel.storeImage v k image s) := by
  refine Deaf.bind (discreet_ask (o := .startTransaction k) trivial fun _ _ h => h)
    fun started _ => ?_
  cases started
  · exact discreet_ret _
  refine Deaf.bind (discreet_defined _ _) fun length _ => ?_
  refine Deaf.bind (discreet_init k _) fun prepared _ => ?_
  cases prepared
  · exact discreet_ret _
  refine Deaf.bind (discreet_defined _ _) fun sent _ => ?_
  refine Deaf.bind (discreet_execute (hs _)) fun executed _ => ?_
  have hrelease := discreet_relDBConn (P := P) k
  cases executed
  · exact Deaf.bind hrelease fun _ _ =>
      Deaf.bind (discreet_ask (o := .rollback k) trivial fun _ _ h => h) fun _ _ => discreet_ret _
  · exact Deaf.bind hrelease fun _ _ =>
      Deaf.bind (discreet_ask (o := .commit k) trivial fun _ _ h => h) fun _ _ => discreet_ret _

theorem discreet_add (image : Mat) (hc : Legible c) (ha : Legible a) :
    Discreet P (CDetectModel.add v image c a) := by
  refine Deaf.bind (discreet_getDBConn 10) fun k _ => ?_
  refine Deaf.bind (discreet_deref k) fun k _ => ?_
  refine Deaf.bind (discreet_executeQuery (fair_pair rfl rfl hc ha) rfl) fun res _ => ?_
  refine Deaf.bind (discreet_deref res) fun rows _ => ?_
  split_ifs
  · exact discreet_storeImage v k image fun _ => fair_pair rfl rfl hc ha
  · exact discreet_storeImage v k image fun _ => fair_pair rfl rfl hc ha

end Models

/-! ## The handlers -/

section Handlers

variable {c a : Bytes} (v : Vision)

theorem discreet_write (r : Reply) : Discreet P (ask (.write r)) :=
  discreet_ask trivial fun _ _ h => h

theorem discreet_refreshFrom (k : Conn) (rows : List Row) :
    Discreet P (refreshFrom c a k rows) := by
  have hrelease := discreet_relDBConn (P := P) k
  rcases rows with _ | ⟨row, rows⟩
  · exact hrelease
  · exact Deaf.bind (discreet_getInt row _) fun _ _ =>
      Deaf.bind (discreet_userMapSet _ _) fun _ _ => hrelease

theorem discreet_refreshUser (hc : Legible c) (ha : Legible a) :
    Discreet P (refreshUser c a) := by
  rw [refreshUser_eq]
  refine Deaf.bind (discreet_ask (o := .userMapFind (c, a)) trivial fun _ _ h => h)
    fun known _ => ?_
  refine Deaf.bind (Q := fun _ => True) ?_ fun _ _ => ?_
  · split_ifs
    · exact discreet_userMapSet _ _
    · exact discreet_ret _
  · exact Deaf.bind (discreet_openQuery (fair_pair rfl rfl hc ha) rfl) fun r _ =>
      Deaf.bind (discreet_deref r.2) fun rows _ => discreet_refreshFrom r.1 rows

theorem discreet_getuserListEvent (hc : Legible c) : Discreet P (getuserListEvent c) := by
  refine Deaf.bind (deaf_groupGetusers hc) fun users husers => ?_
  exact Deaf.bind (Deaf.forEach fun user huser => discreet_refreshUser hc (husers user huser))
    fun _ _ => discreet_write _

/-- Whatever `groupDelete` and `userDelete` return. -/
theorem discreet_indeterminate_write (r : Reply) :
    Discreet P (ask .indeterminate >>= fun n => if n = 0 then ret () else ask (.write r)) := by
  refine Deaf.bind (discreet_ask (o := .indeterminate) trivial fun _ _ h => h) fun n _ => ?_
  split_ifs
  · exact discreet_ret _
  · exact discreet_write r

theorem discreet_detectFaceEvent {d : DetectFaceData} (hc : Legible d.m_classnum)
    (ha : Legible d.m_account) : Discreet P (detectFaceEvent v d) := by
  refine Deaf.bind (discreet_detectOneFace v _ hc ha) fun res _ => ?_
  split_ifs
  · exact discreet_write _
  · exact discreet_write _

/-- A login looks only at whether there is a row. -/
theorem discreet_LoginUserEvent {d : LoginData} (hc : Legible d.m_classnum)
    (ha : Legible d.m_username) (hp : Legible d.m_password) (htry : P d.m_password) :
    Discreet P (LoginUserEvent d) := by
  have hs : (Stmt.loginUser d.m_classnum d.m_username d.m_password).Fair P := by
    refine ⟨?_, List.forall_mem_singleton.mpr htry⟩
    exact List.forall_mem_cons.mpr
      ⟨hc, List.forall_mem_cons.mpr ⟨ha, List.forall_mem_singleton.mpr hp⟩⟩
  have hback : ∀ (k : Conn) (r : Reply), Discreet P (ask (.write r) >>= fun _ =>
      ask (.relDBConn k)) := fun k r => Deaf.bind (discreet_write r) fun _ _ =>
    discreet_relDBConn k
  refine deaf_openQuery_bind hs fun k r r' hr => ?_
  rcases r with _ | rows
  · rcases r' with _ | rows'
    · exact ⟨rfl, deaf_fault⟩
    · exact absurd hr (by simp [Like])
  rcases r' with _ | rows'
  · exact absurd hr (by simp [Like])
  have hempty : rows.isEmpty = rows'.isEmpty := Option.some.inj hr
  rcases rows with _ | ⟨row, rows⟩
  · rcases rows' with _ | ⟨row', rows'⟩
    · exact ⟨rfl, hback k _⟩
    · exact absurd hempty (by simp)
  · rcases rows' with _ | ⟨row', rows'⟩
    · exact absurd hempty (by simp)
    · exact ⟨rfl, hback k _⟩

theorem discreet_LoginAddFaceEvent {d : AddFaceData} (hc : Legible d.m_classnum)
    (ha : Legible d.m_account) (hp : Legible d.m_password) (ht : Legible d.m_touxiang)
    (htry : P d.m_password) : Discreet P (LoginAddFaceEvent v d) := by
  have hs : (Stmt.addUserInfo d.m_classnum d.m_account d.m_password d.m_touxiang).Fair P := by
    refine ⟨?_, fun p hp => absurd hp List.not_mem_nil⟩
    exact List.forall_mem_cons.mpr ⟨hc, List.forall_mem_cons.mpr
      ⟨ha, List.forall_mem_cons.mpr ⟨hp, List.forall_mem_singleton.mpr ht⟩⟩⟩
  refine Deaf.bind (discreet_userExist hc ha hp htry) fun isExist _ => ?_
  split_ifs
  · exact discreet_write _
  · refine Deaf.bind (discreet_openQuery_drop hs rfl) fun _ _ => ?_
    refine Deaf.bind (discreet_add v d.image hc ha) fun res _ => ?_
    rcases res with ⟨_, error_code⟩
    dsimp only
    split_ifs
    · exact discreet_ret _
    · exact discreet_write _

/-- The end of ONLINE and of OFFLINE. -/
theorem discreet_shown {n : ℤ} {d : UserName} {s : Stmt} (r : Reply) (k : Option Conn)
    (hs : s.Fair P) (hpassword : s.selectsPassword = false) :
    Discreet P (do
      ask (.userMapSet (d.classnum, d.account) n)
      let newConnect ← deref k
      let _ ← ask (.executeQuery newConnect s)
      ask (.write r)
      ask (.relDBConn newConnect)) := by
  refine Deaf.bind (discreet_userMapSet _ _) fun _ _ => ?_
  refine Deaf.bind (discreet_deref k) fun k _ => ?_
  refine Deaf.bind (discreet_executeQuery hs hpassword) fun _ _ => ?_
  exact Deaf.bind (discreet_write r) fun _ _ =>
    discreet_relDBConn k

theorem deaf_peerIp : Deaf (E := Db) (Op.Fair P) Like (ask .peerIp) Legible :=
  deaf_perform trivial fun _ _ h => h

theorem discreet_LoginOnlineEvent {d : UserName} (hc : Legible d.classnum)
    (ha : Legible d.account) : Discreet P (LoginOnlineEvent d) := by
  refine Deaf.bind (discreet_getDBConn 0) fun k _ => ?_
  refine Deaf.bind deaf_peerIp fun ip hip => ?_
  have hs : (Stmt.loginOnline ip d.classnum d.account).Fair P := by
    refine ⟨?_, fun p hp => absurd hp List.not_mem_nil⟩
    exact List.forall_mem_cons.mpr
      ⟨hip, List.forall_mem_cons.mpr ⟨hc, List.forall_mem_singleton.mpr ha⟩⟩
  exact deaf_sprintf_bind (discreet_shown _ k hs rfl)

theorem discreet_LoginOfflineEvent {d : UserName} (hc : Legible d.classnum)
    (ha : Legible d.account) : Discreet P (LoginOfflineEvent d) :=
  Deaf.bind (discreet_getDBConn 0) fun k _ =>
    deaf_sprintf_bind (discreet_shown _ k (fair_pair rfl rfl hc ha) rfl)

theorem discreet_MessageCreateEvent {d : MessageCreateData} (hfc : Legible d.m_fromclassnum)
    (hfa : Legible d.m_fromaccount) (htc : Legible d.m_toclassnum) (hta : Legible d.m_toaccount)
    (ht : Legible d.m_peertouxiang) : Discreet P (MessageCreateEvent d) := by
  refine Deaf.bind (discreet_getUserId hfc hfa) fun fromId _ => ?_
  refine Deaf.bind (discreet_getUserId htc hta) fun toId _ => ?_
  refine Deaf.bind (discreet_addSession fromId toId 0 ht) fun sessionId _ => ?_
  split_ifs
  · exact discreet_write _
  · exact discreet_write _

theorem discreet_MessageSendEvent {d : MessageSendData} (hfc : Legible d.fromClassNum)
    (hfa : Legible d.fromAccount) (htc : Legible d.toClassNum) (hta : Legible d.toAccount) :
    Discreet P (MessageSendEvent d) := by
  refine Deaf.bind (discreet_getUserId hfc hfa) fun fromId _ => ?_
  refine Deaf.bind (discreet_getUserId htc hta) fun toId _ => ?_
  refine Deaf.bind (discreet_getRelationId fromId toId true) fun relationId _ => ?_
  refine Deaf.bind (discreet_getSessionId fromId toId 0 false) fun sessionId _ => ?_
  refine Deaf.bind (discreet_updateOnce (Stmt.fair_plain rfl rfl)) fun _ _ => ?_
  exact Deaf.bind (discreet_inserMessage relationId fromId toId _ 1 1) fun _ _ => discreet_ret _

theorem discreet_MessageHistoryEvent {d : MessageHistoryData} (hfc : Legible d.fromClassNum)
    (hfa : Legible d.fromAccount) (htc : Legible d.toClassNum) (hta : Legible d.toAccount) :
    Discreet P (MessageHistoryEvent d) := by
  refine Deaf.bind (discreet_getUserId hfc hfa) fun fromId _ => ?_
  refine Deaf.bind (discreet_getUserId htc hta) fun toId _ => ?_
  refine Deaf.bind (discreet_getRelationId fromId toId true) fun relationId _ => ?_
  refine Deaf.bind discreet_time fun nowTime _ => ?_
  refine Deaf.bind (discreet_getMessage relationId _ nowTime) fun messageList _ => ?_
  split_ifs
  · exact discreet_write _
  · exact Deaf.bind (discreet_write _) fun _ _ =>
      Deaf.bind (Deaf.forEach (Q := fun _ => True) fun m _ => discreet_write (.message m))
        fun _ _ => discreet_ret _

theorem discreet_RescentSessionEvent (hc : Legible c) (ha : Legible a) (lastTime : ℤ) :
    Discreet P (RescentSessionEvent c a lastTime) := by
  refine Deaf.bind (discreet_getUserId hc ha) fun fromId _ => ?_
  refine Deaf.bind (discreet_getRecentSession fromId lastTime) fun recentList _ => ?_
  split_ifs
  · exact discreet_write _
  · refine Deaf.bind (discreet_write _) fun _ _ => ?_
    refine Deaf.bind (Deaf.forEach (Q := fun _ => True) fun s _ => ?_) fun _ _ => discreet_ret _
    exact Deaf.bind (discreet_write _) fun _ _ =>
      discreet_ask (o := .read) trivial fun _ _ h => h

theorem discreet_LoginTouXiang {d : UserName} (hc : Legible d.classnum) (ha : Legible d.account) :
    Discreet P (LoginTouXiang d) := by
  refine Deaf.bind (discreet_getTouXiang hc ha) fun pic _ => ?_
  split_ifs
  · exact Deaf.bind (discreet_memcpyField _ _) fun _ _ => discreet_write _
  · exact discreet_write _

theorem discreet_GetTouXiang {d : UserName} (hc : Legible d.classnum) (ha : Legible d.account) :
    Discreet P (GetTouXiang d) := by
  refine Deaf.bind (discreet_getTouXiang hc ha) fun touXiangPath _ => ?_
  refine Deaf.bind (discreet_memcpyField _ _) fun _ _ => ?_
  split_ifs
  · exact discreet_write _
  · exact discreet_write _

theorem discreet_ChangeTouXiang {d : ChangeTouXiangData} (hc : Legible d.m_classNum)
    (ha : Legible d.m_account) (ht : Legible d.m_touxiang) : Discreet P (ChangeTouXiang d) := by
  have hs : (Stmt.changeTouXiang d.m_touxiang d.m_classNum d.m_account).Fair P := by
    refine ⟨?_, fun p hp => absurd hp List.not_mem_nil⟩
    exact List.forall_mem_cons.mpr
      ⟨ht, List.forall_mem_cons.mpr ⟨hc, List.forall_mem_singleton.mpr ha⟩⟩
  exact Deaf.bind (discreet_openQuery_drop hs rfl) fun _ _ => discreet_write _

/-- Every handler of a fair request sends fair statements. -/
theorem discreet_doEvent {q : Request} (h : q.Fair P) : Discreet P (doEvent v q) := by
  have htexts := h.legible
  have htries := h.tries
  cases q <;> simp only [Request.quoted, Request.texts, Request.tries, List.forall_mem_cons,
    List.not_mem_nil, false_implies, implies_true, and_true] at htexts htries
  case noOperation => exact discreet_ret _
  case addFace d =>
    exact discreet_LoginAddFaceEvent v htexts.1 htexts.2.1 htexts.2.2.1 htexts.2.2.2 htries
  case getGroup => exact Deaf.bind discreet_groupGetlist fun _ _ => discreet_write _
  case getUser g => exact discreet_getuserListEvent htexts
  case delUser d => exact discreet_indeterminate_write .null
  case delGroup g => exact discreet_indeterminate_write .null
  case login d => exact discreet_LoginUserEvent htexts.1 htexts.2.1 htexts.2.2 htries
  case detect d => exact discreet_detectFaceEvent v htexts.1 htexts.2
  case messageCreate d =>
    exact discreet_MessageCreateEvent htexts.1 htexts.2.2.1 htexts.2.1 htexts.2.2.2.1
      htexts.2.2.2.2
  case messageSend d =>
    exact discreet_MessageSendEvent htexts.1 htexts.2.2.1 htexts.2.1 htexts.2.2.2
  case messageHistory d =>
    exact discreet_MessageHistoryEvent htexts.1 htexts.2.2.1 htexts.2.1 htexts.2.2.2
  case recentSession c a t => exact discreet_RescentSessionEvent htexts.1 htexts.2 t
  case online d => exact discreet_LoginOnlineEvent htexts.1 htexts.2
  case offline d => exact discreet_LoginOfflineEvent htexts.1 htexts.2
  case checkIsOnline =>
    exact Deaf.bind (discreet_ask (o := .userMapAll) trivial fun _ _ h => h) fun _ _ =>
      discreet_write _
  case loginTouXiang d => exact discreet_LoginTouXiang htexts.1 htexts.2
  case changeTouXiang d => exact discreet_ChangeTouXiang htexts.1 htexts.2.1 htexts.2.2
  case getTouXiang d => exact discreet_GetTouXiang htexts.1 htexts.2

end Handlers

end WzxServer
