import WzxServer.Events

/-!
# Connections that are held

Every function that takes a connection from the pool is to give it back exactly once, and to
use it only in between. A `Discipline` says what a caller may do with the connections it holds,
and `Brackets` is the rule for programs : which connections are held before and after, and how
many at once. By `brackets_doEvent` all handlers keep every discipline, except that `add` gives
its connection back too early or not at all. So an operation is `Bracketed` exactly when it does
not store an image (`bracketed_iff`).

`Brackets` is proved of any discipline at once, since the handlers are gone through only once
here and used twice : for the exclusivity of connections in `Coroutines`, and for the number of
them in `Deadlocks`. For the converse a run of `add` is followed to its end by a ledger, with
which answer its connection is lost and with which it is given back before the commit.
-/

namespace WzxServer

open Prog Proc

/-- The connection that an operation needs to be held. -/
def Op.uses : Op → Option Conn
  | .relDBConn c => some c
  | o => o.conn?

/-- The connections that are held after an exchange. -/
def hold (s : List Conn) : Exchange Db → List Conn
  | ⟨.getDBConn _, some c⟩ => c :: s
  | ⟨.relDBConn c, _⟩ => s.erase c
  | _ => s

/-- From the connections `s` on, only connections that are held are used and released, and none
is held at the end. -/
def Bracketed : List Conn → List (Exchange Db) → Prop
  | s, [] => s = []
  | s, e :: t => (∀ c ∈ e.1.uses, c ∈ s) ∧ Bracketed (hold s e) t

/-- The operations that any holder may ask for. -/
def Op.plain : Op → Bool
  | .getDBConn _ | .startTransaction _ | .commit _ | .rollback _ => false
  | _ => true

/-- What the holder of connections may ask for, and which answers can come. It may take a
connection while it holds less than `bound`, use what it holds, and give back nothing else. -/
structure Discipline where
  bound : ℕ
  allows : List Conn → Op → Prop
  admits : (o : Op) → o.Ans → Prop
  getDBConn : ∀ s n, allows s (.getDBConn n) ↔ s.length < bound
  relDBConn : ∀ s c, allows s (.relDBConn c) → c ∈ s
  plain : ∀ s o, o.plain = true → (∀ c ∈ o.uses, c ∈ s) → allows s o

/-- The monitor of a discipline keeps the connections that are held. -/
def Discipline.watch (D : Discipline) : Monitor Db where
  State := List Conn
  allowed := D.allows
  admits _ := D.admits
  next s o r := hold s ⟨o, r⟩

/-! ## Rules -/

section Rules

variable {D : Discipline} {d : ℕ} {l l' l'' : List Conn} {α β : Type}

/-- `p` goes from the connections `l` to `l'`, with at most `d` at once, whatever else is
held. -/
structure Brackets (D : Discipline) (d : ℕ) (l : List Conn) (p : Proc α) (l' : List Conn) :
    Prop where
  obeys : ∀ s, s.length + d ≤ D.bound → Obeys D.watch p (l ++ s) fun _ s' => s' = l' ++ s

theorem brackets_ret (a : α) : Brackets D d l (ret a) l :=
  ⟨fun _ _ => rfl⟩

theorem brackets_fault (e : Fault) : Brackets D d l (fault e : Proc α) l' :=
  ⟨fun _ _ => trivial⟩

theorem Brackets.bind {p : Proc α} {f : α → Proc β} (hp : Brackets D d l p l')
    (hf : ∀ a, Brackets D d l' (f a) l'') : Brackets D d l (p >>= f) l'' := by
  refine ⟨fun s hs => (hp.obeys s hs).bind ?_⟩
  rintro a _ rfl
  exact (hf a).obeys s hs

theorem Brackets.mono {p : Proc α} (hp : Brackets D d l p l') {d' : ℕ} (h : d ≤ d') :
    Brackets D d' l p l' :=
  ⟨fun s hs => hp.obeys s (by omega)⟩

/-- What is balanced is so while other connections are held. -/
theorem Brackets.frame {p : Proc α} (hp : Brackets D d [] p []) {d' : ℕ}
    (h : l.length + d ≤ d') : Brackets D d' l p l :=
  ⟨fun s hs => hp.obeys (l ++ s) (by rw [List.length_append]; omega)⟩

/-- An operation that changes nothing. -/
theorem brackets_ask_bind {o : Op} {f : o.Ans → Proc β} (hplain : o.plain = true)
    (hhold : ∀ s r, hold s ⟨o, r⟩ = s) (huses : ∀ c ∈ o.uses, c ∈ l)
    (hf : ∀ r, D.admits o r → Brackets D d l (f r) l') : Brackets D d l (ask o >>= f) l' := by
  refine ⟨fun s hs => ⟨D.plain _ _ hplain fun c hc => List.mem_append_left s (huses c hc), ?_⟩⟩
  intro r hr
  change Obeys D.watch (f r) (hold (l ++ s) ⟨o, r⟩) _
  rw [hhold]
  exact (hf r hr).obeys s hs

theorem brackets_ask {o : Op} (hplain : o.plain = true) (hhold : ∀ s r, hold s ⟨o, r⟩ = s)
    (huses : ∀ c ∈ o.uses, c ∈ l) : Brackets D d l (ask o) l :=
  brackets_ask_bind hplain hhold huses fun r _ => brackets_ret r

/-- An operation that needs no connection. -/
theorem brackets_free {o : Op} (hplain : o.plain = true) (hhold : ∀ s r, hold s ⟨o, r⟩ = s)
    (huses : o.uses = none) : Brackets D d l (ask o) l :=
  brackets_ask hplain hhold fun k hk => absurd (huses ▸ hk) (Option.not_mem_none k)

/-- A connection is taken. -/
theorem brackets_getDBConn_bind {n : ℕ} {f : Option Conn → Proc β} (hd : l.length < d)
    (hnone : Brackets D d l (f none) l') (hconn : ∀ c, Brackets D d (c :: l) (f (some c)) l') :
    Brackets D d l (ask (.getDBConn n) >>= f) l' := by
  refine ⟨fun s hs => ?_⟩
  have hlength : (l ++ s).length = l.length + s.length := List.length_append
  refine ⟨(D.getDBConn (l ++ s) n).mpr (by omega), fun r _ => ?_⟩
  cases r with
  | none => exact hnone.obeys s hs
  | some c => exact (hconn c).obeys s hs

/-- A connection is given back. -/
theorem brackets_relDBConn (c : Conn) : Brackets D d (c :: l) (ask (.relDBConn c)) l := by
  refine ⟨fun s _ => ⟨D.plain _ _ rfl ?_, fun r _ => ?_⟩⟩
  · rintro c' ⟨⟩
    exact List.mem_cons_self
  · exact List.erase_cons_head c (l ++ s)

theorem brackets_release (c : Conn) (a : α) :
    Brackets D d (c :: l) (ask (.relDBConn c) >>= fun _ => ret a) l :=
  (brackets_relDBConn c).bind fun _ => brackets_ret a

theorem Brackets.forEach {f : α → Proc β} (hf : ∀ a, Brackets D d l (f a) l) :
    ∀ as : List α, Brackets D d l (forEach f as) l
  | [] => brackets_ret []
  | a :: as => (hf a).bind fun _ => (Brackets.forEach hf as).bind fun _ => brackets_ret _

theorem brackets_deref (a : Option α) : Brackets D d l (deref a) l := by
  rcases a with _ | a
  · exact brackets_fault _
  · exact brackets_ret a

theorem brackets_defined (e : Fault) (a : Option α) : Brackets D d l (defined e a) l := by
  rcases a with _ | a
  · exact brackets_fault _
  · exact brackets_ret a

theorem brackets_sprintf (size : ℕ) (s : Stmt) : Brackets D d l (sprintf size s) l := by
  rw [sprintf]
  split_ifs
  · exact brackets_ret s
  · exact brackets_fault _

theorem brackets_memcpyField (size : ℕ) (text : Bytes) :
    Brackets D d l (memcpyField size text) l := by
  refine (brackets_free (o := .memcpy size text) rfl (fun _ _ => rfl) rfl).bind fun _ => ?_
  split_ifs
  · exact brackets_ret text
  · exact brackets_fault _

theorem brackets_getInt (row : Row) (key : Col) : Brackets D d l (getInt row key) l := by
  rw [getInt_eq]
  exact brackets_defined _ _

theorem brackets_getText (row : Row) (key : Col) : Brackets D d l (getText row key) l :=
  (brackets_deref _).bind fun _ => brackets_ret _

theorem brackets_write (r : Reply) : Brackets D d l (ask (.write r)) l :=
  brackets_free rfl (fun _ _ => rfl) rfl

theorem brackets_time : Brackets D d l (ask .time) l :=
  brackets_free rfl (fun _ _ => rfl) rfl

/-- An operation on a connection that is held. -/
theorem brackets_use {o : Op} {c : Conn} (hplain : o.plain = true)
    (hhold : ∀ s r, hold s ⟨o, r⟩ = s) (huses : o.uses = some c) (hc : c ∈ l) :
    Brackets D d l (ask o) l := by
  refine brackets_ask hplain hhold fun k hk => ?_
  rw [huses, Option.mem_some_iff] at hk
  exact hk ▸ hc

theorem brackets_executeQuery {c : Conn} (s : Stmt) (hc : c ∈ l) :
    Brackets D d l (ask (.executeQuery c s)) l :=
  brackets_use rfl (fun _ _ => rfl) rfl hc

theorem brackets_executeUpdate {c : Conn} (s : Stmt) (hc : c ∈ l) :
    Brackets D d l (ask (.executeUpdate c s)) l :=
  brackets_use rfl (fun _ _ => rfl) rfl hc

/-- A connection that is not looked at, for one query. -/
theorem brackets_openQuery_bind {size : ℕ} {s : Stmt} {f : Conn × Option (List Row) → Proc β}
    (hd : l.length < d)
    (hf : ∀ c res, D.admits (.executeQuery c s) res → Brackets D d (c :: l) (f (c, res)) l') :
    Brackets D d l (openQuery size s >>= f) l' := by
  rw [openQuery, bind_assoc]
  refine brackets_getDBConn_bind hd ?_ fun c => ?_
  · rw [bind_assoc]
    refine (brackets_sprintf size s).bind fun strSql => ?_
    exact brackets_fault _
  · rw [bind_assoc, sprintf]
    split_ifs
    · exact brackets_ask_bind rfl (fun _ _ => rfl)
        (fun _ h => Option.mem_some_iff.mp h ▸ List.mem_cons_self) fun res hres => hf c res hres
    · exact brackets_fault _

/-- A query of which only the connection is used afterwards. -/
theorem brackets_openQuery_drop {size : ℕ} {s : Stmt} :
    Brackets D 1 [] (openQuery size s >>= fun r => ask (.relDBConn r.1)) [] :=
  brackets_openQuery_bind (Nat.zero_lt_one) fun c _ _ => brackets_relDBConn c

end Rules

/-! ## The models -/

section Models

variable {D : Discipline} {d : ℕ} {l : List Conn}

theorem brackets_getUserId (classnum account : Bytes) :
    Brackets D 1 [] (CUserModel.getUserId classnum account) [] := by
  refine brackets_openQuery_bind Nat.zero_lt_one fun c res _ => ?_
  rcases res with _ | (_ | ⟨row, rows⟩)
  · exact brackets_release c _
  · exact brackets_release c _
  · exact (brackets_getInt row .id).bind fun _ => brackets_release c _

theorem brackets_getUserFromId (userId : ℤ) :
    Brackets D 1 [] (CUserModel.getUserFromId userId) [] := by
  refine brackets_openQuery_bind Nat.zero_lt_one fun c res _ => ?_
  rcases res with _ | (_ | ⟨row, rows⟩)
  · exact brackets_release c _
  · exact brackets_release c _
  · refine (brackets_getText row .classnum).bind fun _ => ?_
    exact (brackets_getText row .account).bind fun _ => brackets_release c _

theorem brackets_getTouXiang (classnum account : Bytes) :
    Brackets D 1 [] (CUserModel.getTouXiang classnum account) [] := by
  refine brackets_openQuery_bind Nat.zero_lt_one fun c res _ => ?_
  rcases res with _ | (_ | ⟨row, rows⟩)
  · exact brackets_release c _
  · exact brackets_release c _
  · exact (brackets_getText row .touxiang).bind fun _ => brackets_release c _

theorem brackets_GetTouXiang (classNum account : Bytes) :
    Brackets D 1 [] (CUserModel.GetTouXiang classNum account) [] :=
  brackets_openQuery_bind Nat.zero_lt_one fun c _ _ => brackets_release c _

/-- A user that exists has rows. -/
theorem brackets_userExist_bind {classnum account password : Bytes} {β : Type} {f : Bool → Proc β}
    (htrue : Brackets D 1 [] (f true) [])
    (hfalse : (∃ c, D.admits (.executeQuery c (.userExist classnum account password)) (some [])) →
      Brackets D 1 [] (f false) []) :
    Brackets D 1 [] (CUserModel.userExist classnum account password >>= f) [] := by
  rw [CUserModel.userExist, bind_assoc]
  refine brackets_openQuery_bind Nat.zero_lt_one fun c res hres => ?_
  rcases res with _ | (_ | ⟨row, rows⟩)
  · exact brackets_fault _
  · exact (brackets_relDBConn c).bind fun _ => hfalse ⟨c, hres⟩
  · exact (brackets_relDBConn c).bind fun _ => htrue

theorem brackets_userExist (classnum account password : Bytes) :
    Brackets D 1 [] (CUserModel.userExist classnum account password) [] :=
  brackets_openQuery_bind Nat.zero_lt_one fun c _ _ =>
    (brackets_deref _).bind fun _ => brackets_release c _

theorem brackets_insertPrepared {c : Conn} (s : Stmt) (hc : c ∈ l) :
    Brackets D d l (insertPrepared c s) l := by
  refine (brackets_use rfl (fun _ _ => rfl) rfl hc).bind fun prepared => ?_
  cases prepared
  · exact brackets_ret _
  · refine (brackets_use rfl (fun _ _ => rfl) rfl hc).bind fun executed => ?_
    cases executed
    · exact brackets_ret _
    · exact brackets_use rfl (fun _ _ => rfl) rfl hc

theorem brackets_updateOnce (s : Stmt) : Brackets D 1 [] (updateOnce s) [] := by
  refine brackets_getDBConn_bind Nat.zero_lt_one (brackets_ret _) fun c => ?_
  exact (brackets_executeUpdate s List.mem_cons_self).bind fun _ => brackets_release c _

theorem brackets_updateNow (s : ℤ → Stmt) : Brackets D 1 [] (updateNow s) [] := by
  refine brackets_getDBConn_bind Nat.zero_lt_one (brackets_ret _) fun c => ?_
  refine brackets_time.bind fun now => ?_
  exact (brackets_executeUpdate _ List.mem_cons_self).bind fun _ => brackets_release c _

theorem brackets_lastId (res : Option (List Row)) : Brackets D d l (lastId res) l := by
  rcases res with _ | rows
  · exact brackets_ret _
  · exact (Brackets.forEach (fun row => brackets_getInt row .id) rows).bind fun _ =>
      brackets_ret _

theorem brackets_addRelation (i j : ℤ) : Brackets D 1 [] (CRelationModel.addRelation i j) [] := by
  refine brackets_getDBConn_bind Nat.zero_lt_one (brackets_ret _) fun c => ?_
  refine brackets_time.bind fun now => ?_
  refine (brackets_executeQuery _ List.mem_cons_self).bind fun res => ?_
  have hinsert : Brackets D 1 [c] (insertPrepared c (.addRelationInsert i j 0 now) >>= fun n =>
      ask (.relDBConn c) >>= fun _ => ret n) [] :=
    (brackets_insertPrepared _ List.mem_cons_self).bind fun n => brackets_release c n
  rcases res with _ | (_ | ⟨row, rows⟩)
  · exact hinsert
  · exact hinsert
  · refine (brackets_getInt row .id).bind fun n => ?_
    exact (brackets_executeUpdate _ List.mem_cons_self).bind fun _ => brackets_release c _

theorem brackets_getRelationId (i j : ℤ) (bAdd : Bool) :
    Brackets D 1 [] (CRelationModel.getRelationId i j bAdd) [] := by
  rw [CRelationModel.getRelationId]
  by_cases h0 : i = 0 ∨ j = 0
  · rw [if_pos h0]
    exact brackets_ret _
  · rw [if_neg h0]
    generalize (if i > j then i else j) = big
    generalize (if i > j then j else i) = small
    refine brackets_getDBConn_bind Nat.zero_lt_one (brackets_ret _) fun c => ?_
    refine (brackets_executeQuery _ List.mem_cons_self).bind fun res => ?_
    refine (brackets_lastId res).bind fun n => (brackets_relDBConn c).bind fun _ => ?_
    split_ifs
    · exact brackets_addRelation _ _
    · exact brackets_ret n

theorem brackets_inserMessage (relateId fromId toId : ℤ) (content : Bytes) (type status : ℤ) :
    Brackets D 1 [] (CMessageModel.inserMessage relateId fromId toId content type status) [] := by
  refine brackets_getDBConn_bind Nat.zero_lt_one (brackets_ret _) fun c => ?_
  have hmem : c ∈ [c] := List.mem_cons_self
  refine (brackets_use rfl (fun _ _ => rfl) rfl hmem).bind fun prepared => ?_
  cases prepared
  · exact brackets_release c _
  · refine brackets_time.bind fun now => ?_
    refine (brackets_use rfl (fun _ _ => rfl) rfl hmem).bind fun executed => ?_
    cases executed
    · exact brackets_release c _
    · exact (brackets_use rfl (fun _ _ => rfl) rfl hmem).bind fun n => brackets_release c n

theorem brackets_messageOf (row : Row) : Brackets D 1 [] (CMessageModel.messageOf row) [] := by
  refine (brackets_getText row .content).bind fun _ => ?_
  refine (brackets_getInt row .fromId).bind fun i => ?_
  refine (brackets_getUserFromId i).bind fun _ => (brackets_getInt row .toId).bind fun j => ?_
  refine (brackets_getUserFromId j).bind fun _ => (brackets_memcpyField _ _).bind fun _ => ?_
  refine (brackets_memcpyField _ _).bind fun _ => (brackets_memcpyField _ _).bind fun _ => ?_
  refine (brackets_memcpyField _ _).bind fun _ => (brackets_memcpyField _ _).bind fun _ => ?_
  exact (brackets_getInt row .created).bind fun _ => brackets_ret _

theorem brackets_getMessage (relateId lastTime nowTime : ℤ) :
    Brackets D 2 [] (CMessageModel.getMessage relateId lastTime nowTime) [] := by
  refine brackets_getDBConn_bind Nat.zero_lt_two (brackets_ret _) fun c => ?_
  refine (brackets_sprintf _ _).bind fun strSql => ?_
  refine (brackets_executeQuery strSql List.mem_cons_self).bind fun res => ?_
  refine (Brackets.forEach (fun row => ?_) (res.getD [])).bind fun _ => brackets_release c _
  exact (brackets_messageOf row).frame (le_refl 2)

theorem brackets_getLastMsg (i j : ℤ) : Brackets D 1 [] (CMessageModel.getLastMsg i j) [] := by
  refine (brackets_getRelationId i j false).bind fun n => ?_
  split_ifs
  · exact brackets_ret _
  · refine brackets_getDBConn_bind Nat.zero_lt_one (brackets_ret _) fun c => ?_
    refine (brackets_executeQuery _ List.mem_cons_self).bind fun res => ?_
    refine (Brackets.forEach (fun row => ?_) (res.getD [])).bind fun _ => brackets_release c _
    refine (brackets_getInt row .type).bind fun _ => ?_
    exact (brackets_getText row .content).bind fun _ => brackets_ret _

theorem brackets_sessionOf (nUserId : ℤ) (row : Row) :
    Brackets D 1 [] (CSessionModel.sessionOf nUserId row) [] := by
  refine (brackets_getInt row .updated).bind fun _ => (brackets_memcpyField _ _).bind fun _ => ?_
  refine (brackets_getInt row .peerId).bind fun i => (brackets_getUserFromId i).bind fun _ => ?_
  refine (brackets_getLastMsg nUserId i).bind fun _ => (brackets_memcpyField _ _).bind fun _ => ?_
  refine (brackets_memcpyField _ _).bind fun _ => (brackets_memcpyField _ _).bind fun _ => ?_
  exact brackets_ret _

theorem brackets_getRecentSession (nUserId lastTime : ℤ) :
    Brackets D 2 [] (CSessionModel.getRecentSession nUserId lastTime) [] := by
  refine brackets_getDBConn_bind Nat.zero_lt_two (brackets_ret _) fun c => ?_
  refine (brackets_executeQuery _ List.mem_cons_self).bind fun res => ?_
  refine (Brackets.forEach (fun row => ?_) (res.getD [])).bind fun _ => brackets_release c _
  exact (brackets_sessionOf nUserId row).frame (le_refl 2)

theorem brackets_getSessionId (i j nType : ℤ) (isAll : Bool) :
    Brackets D 1 [] (CSessionModel.getSessionId i j nType isAll) [] := by
  refine brackets_getDBConn_bind Nat.zero_lt_one (brackets_ret _) fun c => ?_
  refine (brackets_executeQuery _ List.mem_cons_self).bind fun res => ?_
  exact (brackets_lastId res).bind fun n => brackets_release c n

theorem brackets_addSession (i j nType : ℤ) (touxiang : Bytes) :
    Brackets D 1 [] (CSessionModel.addSession i j nType touxiang) [] := by
  refine (brackets_getSessionId i j nType true).bind fun n => brackets_time.bind fun now => ?_
  refine brackets_getDBConn_bind Nat.zero_lt_one (brackets_ret _) fun c => ?_
  dsimp only
  split_ifs
  · refine (brackets_sprintf _ _).bind fun strSql => ?_
    exact (brackets_executeUpdate strSql List.mem_cons_self).bind fun _ => brackets_release c _
  · exact (brackets_insertPrepared _ List.mem_cons_self).bind fun n => brackets_release c n

theorem brackets_compareRows (v : Vision) (m : Mat) (classnum account : Bytes) :
    ∀ rows : List Row, Brackets D d l (CDetectModel.compareRows v m classnum account rows) l
  | [] => brackets_ret _
  | row :: rows => by
    unfold CDetectModel.compareRows
    refine (brackets_getInt _ _).bind fun _ => (brackets_getInt _ _).bind fun _ => ?_
    refine (brackets_getInt _ _).bind fun _ => (brackets_getInt _ _).bind fun _ => ?_
    refine (brackets_deref _).bind fun _ => ?_
    dsimp only
    split_ifs
    · exact brackets_ret _
    · exact brackets_ret _
    · exact brackets_compareRows v m classnum account rows

theorem brackets_detectOneFace (v : Vision) (m : Mat) (classnum account : Bytes) :
    Brackets D 1 [] (CDetectModel.detectOneFace v m classnum account) [] :=
  brackets_openQuery_bind Nat.zero_lt_one fun c _ _ => (brackets_deref _).bind fun rows =>
    (brackets_compareRows v m classnum account rows).bind fun t => brackets_release c t

/-- A connection that is not looked at. -/
theorem brackets_connect_bind {n : ℕ} {β : Type} {f : Conn → Proc β}
    (h : ∀ c, Brackets D 1 [c] (f c) []) :
    Brackets D 1 [] (ask (.getDBConn n) >>= fun conn => deref conn >>= f) [] :=
  brackets_getDBConn_bind Nat.zero_lt_one (brackets_fault _) h

theorem brackets_groupGetlist : Brackets D 1 [] CDetectModel.groupGetlist [] := by
  refine brackets_connect_bind fun c => ?_
  refine (brackets_executeQuery _ List.mem_cons_self).bind fun res => ?_
  refine (brackets_deref _).bind fun rows => ?_
  refine (Brackets.forEach (fun row => ?_) rows).bind fun _ => brackets_release c _
  exact brackets_getText row .classnum

theorem brackets_groupGetusers (classnum : Bytes) :
    Brackets D 1 [] (CDetectModel.groupGetusers classnum) [] := by
  refine brackets_connect_bind fun c => ?_
  refine (brackets_executeQuery _ List.mem_cons_self).bind fun res => ?_
  refine (brackets_deref _).bind fun rows => ?_
  refine (Brackets.forEach (fun row => ?_) rows).bind fun _ => brackets_release c _
  refine (brackets_getText row .account).bind fun _ => ?_
  exact (brackets_getText row .touxiang).bind fun _ => brackets_ret _

theorem brackets_indeterminate : Brackets D d l (ask .indeterminate) l :=
  brackets_free rfl (fun _ _ => rfl) rfl

end Models

/-! ## The handlers -/

section Handlers

variable {D : Discipline}

theorem brackets_refreshUser (g account : Bytes) :
    Brackets D 1 [] (refreshUser g account) [] := by
  have hset : ∀ l n, Brackets D 1 l (ask (.userMapSet (g, account) n)) l := fun _ _ =>
    brackets_free rfl (fun _ _ => rfl) rfl
  have hrest : Brackets D 1 [] (openQuery 200 (.isLogin g account) >>= fun r =>
      deref r.2 >>= refreshFrom g account r.1) [] := by
    refine brackets_openQuery_bind Nat.zero_lt_one fun c res _ => ?_
    refine (brackets_deref _).bind fun rows => ?_
    rcases rows with _ | ⟨row, rows⟩
    · exact brackets_relDBConn c
    · refine (brackets_getInt row .islogin).bind fun n => ?_
      exact (hset [c] n).bind fun _ => brackets_relDBConn c
  rw [refreshUser_eq]
  refine (brackets_free rfl (fun _ _ => rfl) rfl).bind fun known => ?_
  rcases known with _ | islogin
  · exact (hset [] 0).bind fun _ => hrest
  · exact hrest

theorem brackets_getuserListEvent (g : Bytes) : Brackets D 1 [] (getuserListEvent g) [] := by
  refine (brackets_groupGetusers g).bind fun users => ?_
  refine (Brackets.forEach (fun user : Bytes × Bytes => ?_) users).bind fun _ => brackets_write _
  exact brackets_refreshUser g user.1

theorem brackets_indeterminate_write (r : Reply) :
    Brackets D 0 [] (ask .indeterminate >>= fun n => if n = 0 then ret () else ask (.write r))
      [] := by
  refine brackets_indeterminate.bind fun n => ?_
  split_ifs
  · exact brackets_ret _
  · exact brackets_write r

theorem brackets_detectFaceEvent (v : Vision) (d : DetectFaceData) :
    Brackets D 1 [] (detectFaceEvent v d) [] := by
  refine (brackets_detectOneFace v _ _ _).bind fun res => ?_
  split_ifs
  · exact brackets_write _
  · exact brackets_write _

theorem brackets_LoginUserEvent (d : LoginData) : Brackets D 1 [] (LoginUserEvent d) [] := by
  refine brackets_openQuery_bind Nat.zero_lt_one fun c res _ => ?_
  refine (brackets_deref _).bind fun rows => ?_
  rcases rows with _ | ⟨row, rows⟩
  · exact (brackets_write _).bind fun _ => brackets_relDBConn c
  · exact (brackets_write _).bind fun _ => brackets_relDBConn c

/-- The look-up of the user of an `ADDFACE` can find nobody. -/
def FindsNobody (D : Discipline) (d : AddFaceData) : Prop :=
  ∃ c, D.admits (.executeQuery c (.userExist d.m_classnum d.m_account d.m_password)) (some [])

theorem brackets_LoginAddFaceEvent {v : Vision} {d : AddFaceData}
    (hadd : FindsNobody D d →
      Brackets D 1 [] (CDetectModel.add v d.image d.m_classnum d.m_account) []) :
    Brackets D 1 [] (LoginAddFaceEvent v d) [] := by
  refine brackets_userExist_bind (brackets_write _) fun hnobody => ?_
  refine brackets_openQuery_drop.bind fun _ => (hadd hnobody).bind ?_
  rintro ⟨_, error_code⟩
  dsimp only
  split_ifs
  · exact brackets_ret _
  · exact brackets_write _

/-- The end of `ONLINE` and `OFFLINE`. -/
theorem brackets_shown {k : Bytes × Bytes} {n : ℤ} {stmt : Stmt} {r : Reply} (c : Conn) :
    Brackets D 1 [c] (do
      ask (.userMapSet k n)
      let newConnect ← deref (some c)
      let _ ← ask (.executeQuery newConnect stmt)
      ask (.write r)
      ask (.relDBConn newConnect)) [] := by
  refine (brackets_free rfl (fun _ _ => rfl) rfl).bind fun _ => ?_
  change Brackets D 1 [c] (ask (.executeQuery c stmt) >>= _) _
  refine (brackets_executeQuery stmt List.mem_cons_self).bind fun _ => ?_
  exact (brackets_write r).bind fun _ => brackets_relDBConn c

theorem brackets_LoginOnlineEvent (d : UserName) : Brackets D 1 [] (LoginOnlineEvent d) [] := by
  refine brackets_getDBConn_bind Nat.zero_lt_one ?_ fun c => ?_
  · refine (brackets_free rfl (fun _ _ => rfl) rfl).bind fun ip => ?_
    refine (brackets_sprintf _ _).bind fun _ => ?_
    exact (brackets_free rfl (fun _ _ => rfl) rfl).bind fun _ => brackets_fault _
  · refine (brackets_free rfl (fun _ _ => rfl) rfl).bind fun ip => ?_
    exact (brackets_sprintf _ _).bind fun strSql => brackets_shown c

theorem brackets_LoginOfflineEvent (d : UserName) : Brackets D 1 [] (LoginOfflineEvent d) [] := by
  refine brackets_getDBConn_bind Nat.zero_lt_one ?_ fun c => ?_
  · refine (brackets_sprintf _ _).bind fun _ => ?_
    exact (brackets_free rfl (fun _ _ => rfl) rfl).bind fun _ => brackets_fault _
  · exact (brackets_sprintf _ _).bind fun strSql => brackets_shown c

theorem brackets_MessageCreateEvent (d : MessageCreateData) :
    Brackets D 1 [] (MessageCreateEvent d) [] := by
  refine (brackets_getUserId _ _).bind fun i => (brackets_getUserId _ _).bind fun j => ?_
  refine (brackets_addSession i j 0 _).bind fun n => ?_
  split_ifs
  · exact brackets_write _
  · exact brackets_write _

theorem brackets_MessageSendEvent (d : MessageSendData) :
    Brackets D 1 [] (MessageSendEvent d) [] := by
  refine (brackets_getUserId _ _).bind fun i => (brackets_getUserId _ _).bind fun j => ?_
  refine (brackets_getRelationId i j true).bind fun r => ?_
  refine (brackets_getSessionId i j 0 false).bind fun n => (brackets_updateOnce _).bind fun _ => ?_
  exact (brackets_inserMessage r i j _ 1 1).bind fun _ => brackets_ret _

theorem brackets_MessageHistoryEvent (d : MessageHistoryData) :
    Brackets D 2 [] (MessageHistoryEvent d) [] := by
  have hone : (1 : ℕ) ≤ 2 := one_le_two
  refine ((brackets_getUserId _ _).mono hone).bind fun i => ?_
  refine ((brackets_getUserId _ _).mono hone).bind fun j => ?_
  refine ((brackets_getRelationId i j true).mono hone).bind fun r => ?_
  refine brackets_time.bind fun now => ?_
  refine (brackets_getMessage r _ now).bind fun messageList => ?_
  split_ifs
  · exact brackets_write _
  · refine (brackets_write _).bind fun _ => ?_
    exact (Brackets.forEach (fun m => brackets_write (.message m)) messageList).bind fun _ =>
      brackets_ret _

theorem brackets_RescentSessionEvent (classNum account : Bytes) (lastupdatetime : ℤ) :
    Brackets D 2 [] (RescentSessionEvent classNum account lastupdatetime) [] := by
  refine ((brackets_getUserId _ _).mono one_le_two).bind fun i => ?_
  refine (brackets_getRecentSession i lastupdatetime).bind fun recentList => ?_
  split_ifs
  · exact brackets_write _
  · refine (brackets_write _).bind fun _ => ?_
    refine (Brackets.forEach (fun s => ?_) recentList).bind fun _ => brackets_ret _
    exact (brackets_write _).bind fun _ => brackets_free rfl (fun _ _ => rfl) rfl

theorem brackets_LoginTouXiang (d : UserName) : Brackets D 1 [] (LoginTouXiang d) [] := by
  refine (brackets_getTouXiang _ _).bind fun pic => ?_
  split_ifs
  · exact (brackets_memcpyField _ _).bind fun _ => brackets_write _
  · exact brackets_write _

theorem brackets_event_GetTouXiang (d : UserName) : Brackets D 1 [] (GetTouXiang d) [] := by
  refine (brackets_getTouXiang _ _).bind fun pic => (brackets_memcpyField _ _).bind fun _ => ?_
  split_ifs
  · exact brackets_write _
  · exact brackets_write _

/-- How many connections the handler of a request holds at once. -/
def Request.demand : Request → ℕ
  | .noOperation | .delUser _ | .delGroup _ | .checkIsOnline => 0
  | .messageHistory _ | .recentSession _ _ _ => 2
  | _ => 1

/-- The handlers keep every discipline, as long as no image is to be stored, or `add` does. -/
theorem brackets_doEvent {v : Vision} {request : Request}
    (hadd : ∀ d, request = .addFace d → FindsNobody D d →
      Brackets D 1 [] (CDetectModel.add v d.image d.m_classnum d.m_account) []) :
    Brackets D request.demand [] (doEvent v request) [] := by
  cases request with
  | noOperation => exact brackets_ret _
  | addFace d => exact brackets_LoginAddFaceEvent (hadd d rfl)
  | getGroup => exact brackets_groupGetlist.bind fun _ => brackets_write _
  | getUser g => exact brackets_getuserListEvent g
  | delUser d | delGroup g => exact brackets_indeterminate_write .null
  | login d => exact brackets_LoginUserEvent d
  | detect d => exact brackets_detectFaceEvent v d
  | messageCreate d => exact brackets_MessageCreateEvent d
  | messageSend d => exact brackets_MessageSendEvent d
  | messageHistory d => exact brackets_MessageHistoryEvent d
  | recentSession c a last => exact brackets_RescentSessionEvent c a last
  | online d => exact brackets_LoginOnlineEvent d
  | offline d => exact brackets_LoginOfflineEvent d
  | checkIsOnline => exact (brackets_free rfl (fun _ _ => rfl) rfl).bind fun _ => brackets_write _
  | loginTouXiang d => exact brackets_LoginTouXiang d
  | changeTouXiang d => exact brackets_openQuery_drop.bind fun _ => brackets_write _
  | getTouXiang d => exact brackets_event_GetTouXiang d

end Handlers

/-! ## Operations -/

/-- The look-up of a user found nobody. -/
def foundNobody : Exchange Db → Bool
  | ⟨.executeQuery _ (.userExist _ _ _), some []⟩ => true
  | _ => false

/-- In the handling of the request, an `ADDFACE` did not find nobody. -/
def Request.KeepsUsers (request : Request) (t : List (Exchange Db)) : Prop :=
  ∀ d, request = .addFace d → ∀ e ∈ t, foundNobody e = false

/-- The event handlers and the operations of the models, each with a condition on its
exchanges. -/
inductive Operation (v : Vision) : {α : Type} → Proc α → (List (Exchange Db) → Prop) → Prop
  | event (request : Request) : Operation v (doEvent v request) request.KeepsUsers
  | getUserId (c a : Bytes) : Operation v (CUserModel.getUserId c a) fun _ => True
  | getUserFromId (i : ℤ) : Operation v (CUserModel.getUserFromId i) fun _ => True
  | getTouXiang (c a : Bytes) : Operation v (CUserModel.getTouXiang c a) fun _ => True
  | userExist (c a p : Bytes) : Operation v (CUserModel.userExist c a p) fun _ => True
  | addUserInfo (c a p t : Bytes) : Operation v (CUserModel.addUserInfo c a p t) fun _ => True
  | changeTouXiang (c a t : Bytes) : Operation v (CUserModel.changeTouXiang c a t) fun _ => True
  | GetTouXiang (c a : Bytes) : Operation v (CUserModel.GetTouXiang c a) fun _ => True
  | addRelation (i j : ℤ) : Operation v (CRelationModel.addRelation i j) fun _ => True
  | getRelationId (i j : ℤ) (bAdd : Bool) :
    Operation v (CRelationModel.getRelationId i j bAdd) fun _ => True
  | updateRelation (i n : ℤ) : Operation v (CRelationModel.updateRelation i n) fun _ => True
  | removeRelation (i : ℤ) : Operation v (CRelationModel.removeRelation i) fun _ => True
  | inserMessage (r i j : ℤ) (content : Bytes) (type status : ℤ) :
    Operation v (CMessageModel.inserMessage r i j content type status) fun _ => True
  | getMessage (r last now : ℤ) : Operation v (CMessageModel.getMessage r last now) fun _ => True
  | getLastMsg (i j : ℤ) : Operation v (CMessageModel.getLastMsg i j) fun _ => True
  | getRecentSession (i last : ℤ) :
    Operation v (CSessionModel.getRecentSession i last) fun _ => True
  | getSessionId (i j type : ℤ) (isAll : Bool) :
    Operation v (CSessionModel.getSessionId i j type isAll) fun _ => True
  | updateSession (i n : ℤ) : Operation v (CSessionModel.updateSession i n) fun _ => True
  | removeSession (i : ℤ) : Operation v (CSessionModel.removeSession i) fun _ => True
  | addSession (i j type : ℤ) (touxiang : Bytes) :
    Operation v (CSessionModel.addSession i j type touxiang) fun _ => True
  | detectOneFace (m : Mat) (c a : Bytes) :
    Operation v (CDetectModel.detectOneFace v m c a) fun _ => True
  | add (image : Mat) (c a : Bytes) : Operation v (CDetectModel.add v image c a) fun _ => False
  | groupGetlist : Operation v CDetectModel.groupGetlist fun _ => True
  | groupGetusers (c : Bytes) : Operation v (CDetectModel.groupGetusers c) fun _ => True
  | groupDelete (g : Bytes) : Operation v (CDetectModel.groupDelete g) fun _ => True
  | userDelete (g u : Bytes) : Operation v (CDetectModel.userDelete g u) fun _ => True

section Operations

variable {α : Type}

/-- Only connections that are held are used, no transaction is started, and at most two
connections are held. -/
structure Tidy (s : List Conn) (o : Op) : Prop where
  /-- An operation on a connection needs it to be held. -/
  uses : ∀ c ∈ o.uses, c ∈ s
  starts : ∀ c, o ≠ .startTransaction c
  /-- A handler that holds two takes no third one. -/
  bound : ∀ n, o = .getDBConn n → s.length < 2

/-- The discipline of those that bracket what they do with a connection. -/
def tidy (A : (o : Op) → o.Ans → Prop) : Discipline where
  bound := 2
  allows := Tidy
  admits := A
  getDBConn _ n := ⟨fun h => h.bound n rfl, fun h => ⟨nofun, nofun, fun _ _ => h⟩⟩
  relDBConn _ c h := h.uses c rfl
  plain s o hplain huses := by
    refine ⟨huses, ?_, ?_⟩
    · rintro c rfl
      cases hplain
    · rintro n rfl
      cases hplain

/-- What keeps the discipline and returns is bracketed. -/
theorem bracketed_of_obeys {A : (o : Op) → o.Ans → Prop} {p : Proc α} {s : List Conn}
    (h : Obeys (tidy A).watch p s fun _ s' => s' = []) {t : List (Exchange Db)} {a : α}
    (ht : Returns p t a) (hadm : ∀ e ∈ t, A e.1 e.2) : Bracketed s t := by
  induction ht generalizing s with
  | ret a => exact h
  | @call o k r t a _ ih =>
    refine ⟨h.1.uses, ih (h.2 r (hadm _ List.mem_cons_self)) fun e he => ?_⟩
    exact hadm e (List.mem_cons_of_mem _ he)

end Operations

/-! ## Operations that store an image -/

/-- What is known of a run so far : the connections that are held, whether only held ones were
used, and whether a look-up of a user found nobody. -/
structure Ledger where
  held : List Conn
  kept : Prop
  nobody : Prop

/-- The monitor that keeps the ledger. -/
def ledger : Monitor Db where
  State := Ledger
  allowed _ _ := True
  admits _ _ _ := True
  next s o r := ⟨hold s.held ⟨o, r⟩, s.kept ∧ ∀ c ∈ o.uses, c ∈ s.held,
    s.nobody ∨ foundNobody ⟨o, r⟩ = true⟩

/-- The ledger is balanced. -/
def Ledger.Balanced (s : Ledger) : Prop :=
  s.kept ∧ s.held = []

theorem balanced_after (t : List (Exchange Db)) (s : Ledger) :
    (ledger.after s t).Balanced ↔ s.kept ∧ Bracketed s.held t := by
  induction t generalizing s with
  | nil => exact Iff.rfl
  | cons e t ih => exact (ih _).trans and_assoc

theorem nobody_after (t : List (Exchange Db)) (s : Ledger) :
    (ledger.after s t).nobody ↔ s.nobody ∨ ∃ e ∈ t, foundNobody e = true := by
  induction t generalizing s with
  | nil => simp [Monitor.after]
  | cons e t ih =>
    refine (ih _).trans ?_
    change (s.nobody ∨ foundNobody e = true) ∨ _ ↔ _
    rw [List.exists_mem_cons_iff, or_assoc]

theorem ledger_admits (t : List (Exchange Db)) (s : Ledger) : ledger.Admits s t := by
  induction t generalizing s with
  | nil => trivial
  | cons e t ih => exact ⟨trivial, ih _⟩

section Spoiled

variable {v : Vision} {image : Mat}

theorem ledger_ask_bind {o : Op} {β : Type} {f : o.Ans → Proc β} {s : Ledger}
    {Q : β → Ledger → Prop}
    (hf : ∀ r, Obeys ledger (f r) ⟨hold s.held ⟨o, r⟩, s.kept ∧ ∀ c ∈ o.uses, c ∈ s.held,
      s.nobody ∨ foundNobody ⟨o, r⟩ = true⟩ Q) : Obeys ledger (ask o >>= f) s Q :=
  ⟨trivial, fun r _ => hf r⟩

theorem ledger_defined_bind {α β : Type} {e : Fault} {a : Option α} {f : α → Proc β}
    {s : Ledger} {Q : β → Ledger → Prop} (hf : ∀ a, Obeys ledger (f a) s Q) :
    Obeys ledger (defined e a >>= f) s Q := by
  rcases a with _ | a
  · trivial
  · exact hf a

/-- The connection goes back before the transaction ends, or not at all. -/
theorem spoiled_storeImage {c : Conn} {stmt : ImageParams → Stmt} (k n : Prop) :
    Obeys ledger (CDetectModel.storeImage v c image stmt) ⟨[c], k, n⟩
      fun _ s' => ¬s'.Balanced := by
  have hleak : ∀ k n : Prop, ¬(Ledger.mk [c] k n).Balanced := fun _ _ h =>
    List.cons_ne_nil c [] h.2
  have hlate : ∀ k n n' : Prop, ¬(Ledger.mk ([c].erase c) (k ∧ ∀ c' ∈ some c, c' ∈ [c].erase c)
      n').Balanced := by
    rintro k n n' ⟨⟨-, huse⟩, -⟩
    have hmem := huse c rfl
    rw [List.erase_cons_head] at hmem
    exact List.not_mem_nil hmem
  refine ⟨trivial, fun started _ => ?_⟩
  cases started
  · exact hleak _ _
  refine ledger_defined_bind fun length => ⟨trivial, fun prepared _ => ?_⟩
  cases prepared
  · exact hleak _ _
  refine ledger_defined_bind fun sent => ⟨trivial, fun executed _ => ?_⟩
  cases executed
  · exact ⟨trivial, fun _ _ => ⟨trivial, fun _ _ => hlate _ n _⟩⟩
  · exact ⟨trivial, fun _ _ => ⟨trivial, fun _ _ => hlate _ n _⟩⟩

theorem spoiled_add {classnum account : Bytes} (k n : Prop) :
    Obeys ledger (CDetectModel.add v image classnum account) ⟨[], k, n⟩
      fun _ s' => ¬s'.Balanced := by
  refine ⟨trivial, fun conn _ => ?_⟩
  rcases conn with _ | c
  · trivial
  refine ⟨trivial, fun res _ => ?_⟩
  rcases res with _ | (_ | ⟨row, rows⟩)
  · trivial
  · exact spoiled_storeImage _ _
  · exact spoiled_storeImage _ _

theorem ledger_sprintf_bind {size : ℕ} {stmt : Stmt} {β : Type} {f : Stmt → Proc β} {s : Ledger}
    {Q : β → Ledger → Prop} (hf : Obeys ledger (f stmt) s Q) :
    Obeys ledger (sprintf size stmt >>= f) s Q := by
  rw [sprintf]
  split_ifs
  · exact hf
  · trivial

/-- A query on a connection of its own, for one that holds nothing. -/
theorem ledger_openQuery_bind {size : ℕ} {stmt : Stmt} {β : Type}
    {f : Conn × Option (List Row) → Proc β} {k n : Prop} {Q : β → Ledger → Prop}
    (hf : ∀ (c : Conn) (res : Option (List Row)) (k' : Prop), Obeys ledger (f (c, res))
      ⟨[c], k', n ∨ foundNobody ⟨.executeQuery c stmt, res⟩ = true⟩ Q) :
    Obeys ledger (openQuery size stmt >>= f) ⟨[], k, n⟩ Q := by
  rw [openQuery, bind_assoc]
  refine ledger_ask_bind fun conn => ?_
  rw [bind_assoc]
  refine ledger_sprintf_bind ?_
  rcases conn with _ | c
  · trivial
  · have hnobody : (n ∨ foundNobody ⟨.getDBConn 0, some c⟩ = true) = n := by
      simp [foundNobody]
    refine ledger_ask_bind fun res => ?_
    rw [hnobody]
    exact hf c res _

theorem ledger_release_bind {c : Conn} {β : Type} {f : Unit → Proc β} {k n : Prop}
    {Q : β → Ledger → Prop} (hf : ∀ k' : Prop, Obeys ledger (f ()) ⟨[], k', n⟩ Q) :
    Obeys ledger (ask (.relDBConn c) >>= f) ⟨[c], k, n⟩ Q := by
  refine ledger_ask_bind fun r => ?_
  have hheld : hold [c] ⟨.relDBConn c, r⟩ = [] := List.erase_cons_head c []
  have hnobody : (n ∨ foundNobody ⟨.relDBConn c, r⟩ = true) = n := by
    simp [foundNobody]
  rw [hheld, hnobody]
  exact hf _

/-- An `ADDFACE` that finds nobody stores an image. -/
theorem spoiled_LoginAddFaceEvent {d : AddFaceData} (k : Prop) :
    Obeys ledger (LoginAddFaceEvent v d) ⟨[], k, False⟩
      fun _ s' => s'.nobody → ¬s'.Balanced := by
  rw [LoginAddFaceEvent, CUserModel.userExist, bind_assoc]
  refine ledger_openQuery_bind fun c res k₁ => ?_
  rcases res with _ | (_ | ⟨row, rows⟩)
  · trivial
  · refine ledger_release_bind fun k₂ => ?_
    change Obeys ledger (CUserModel.addUserInfo _ _ _ _ >>= _) _ _
    rw [CUserModel.addUserInfo, bind_assoc]
    refine ledger_openQuery_bind fun c' _ k₃ => ledger_release_bind fun k₄ => ?_
    refine (spoiled_add k₄ _).bind ?_
    rintro ⟨_, error_code⟩ s hs
    dsimp only
    split_ifs
    · exact fun _ => hs
    · refine ⟨trivial, fun _ _ _ hbalanced => hs ?_⟩
      exact ⟨hbalanced.1.1, hbalanced.2⟩
  · refine ledger_release_bind fun k₂ => ⟨trivial, fun _ _ hnobody => ?_⟩
    exact absurd hnobody (by simp [ledger, foundNobody])

end Spoiled

/-! ## Which operations are bracketed -/

section Iff

variable {v : Vision} {α : Type} {p : Proc α} {t : List (Exchange Db)} {a : α}

/-- Whatever the answers are. -/
theorem Brackets.bracketed {d : ℕ} (h : Brackets (tidy fun _ _ => True) d [] p [])
    (hd : d ≤ 2) (ht : Returns p t a) : Bracketed [] t ↔ True :=
  iff_true_intro (bracketed_of_obeys (h.obeys [] (by simpa [tidy] using hd)) ht fun _ _ => trivial)

/-- A run that leaves an unbalanced ledger is not bracketed. -/
theorem not_bracketed_of_ledger {Q : α → Ledger → Prop}
    (h : Obeys ledger p ⟨[], True, False⟩ Q) (ht : Returns p t a)
    (hQ : ∀ s' : Ledger, ((∃ e ∈ t, foundNobody e = true) → s'.nobody) → Q a s' → ¬s'.Balanced) :
    ¬Bracketed [] t := by
  intro hbracketed
  have hend := h.after ht (ledger_admits t _)
  refine hQ _ (fun he => (nobody_after t _).mpr (Or.inr he)) hend ?_
  exact (balanced_after t _).mpr ⟨trivial, hbracketed⟩

theorem demand_le (request : Request) : request.demand ≤ 2 := by
  cases request <;> simp [Request.demand]

/-- The handler of a request. -/
theorem bracketed_doEvent {request : Request} {t : List (Exchange Db)} {a : Unit}
    (ht : Returns (doEvent v request) t a) : Bracketed [] t ↔ request.KeepsUsers t := by
  constructor
  · rintro hbracketed d rfl e he
    by_contra hfound
    refine not_bracketed_of_ledger (spoiled_LoginAddFaceEvent True) ht ?_ hbracketed
    exact fun s' hnobody hs' => hs' (hnobody ⟨e, he, Bool.not_eq_false _ ▸ hfound⟩)
  · intro hkeeps
    by_cases hadd : ∃ d, request = .addFace d
    · have hbrackets : Brackets (tidy fun o r => foundNobody ⟨o, r⟩ = false) _ []
          (doEvent v request) [] := brackets_doEvent fun d _ hfinds => by
        obtain ⟨c, hc⟩ := hfinds
        cases hc
      obtain ⟨d, hd⟩ := hadd
      have hbound : ([] : List Conn).length + request.demand ≤ 2 := by
        simpa using demand_le request
      exact bracketed_of_obeys (hbrackets.obeys [] hbound) ht (hkeeps d hd)
    · refine ((brackets_doEvent fun d hd => ?_).bracketed (demand_le request) ht).mpr trivial
      exact absurd ⟨d, hd⟩ hadd

/-- An operation is bracketed exactly when its condition holds. -/
theorem Operation.bracketed_iff {cond : List (Exchange Db) → Prop} (h : Operation v p cond)
    (ht : Returns p t a) : Bracketed [] t ↔ cond t := by
  cases h with
  | event request => exact bracketed_doEvent ht
  | add image classnum account =>
    refine iff_of_false (not_bracketed_of_ledger (spoiled_add True False) ht ?_) id
    exact fun s' _ hs' => hs'
  | getUserId c i => exact (brackets_getUserId c i).bracketed one_le_two ht
  | getUserFromId i => exact (brackets_getUserFromId i).bracketed one_le_two ht
  | getTouXiang c i => exact (brackets_getTouXiang c i).bracketed one_le_two ht
  | userExist c i p => exact (brackets_userExist c i p).bracketed one_le_two ht
  | addUserInfo | changeTouXiang => exact brackets_openQuery_drop.bracketed one_le_two ht
  | GetTouXiang c i => exact (brackets_GetTouXiang c i).bracketed one_le_two ht
  | addRelation i j => exact (brackets_addRelation i j).bracketed one_le_two ht
  | getRelationId i j bAdd => exact (brackets_getRelationId i j bAdd).bracketed one_le_two ht
  | updateRelation | updateSession => exact (brackets_updateOnce _).bracketed one_le_two ht
  | removeRelation | removeSession => exact (brackets_updateNow _).bracketed one_le_two ht
  | inserMessage r i j s m n => exact (brackets_inserMessage r i j s m n).bracketed one_le_two ht
  | getMessage r m n => exact (brackets_getMessage r m n).bracketed le_rfl ht
  | getLastMsg i j => exact (brackets_getLastMsg i j).bracketed one_le_two ht
  | getRecentSession i n => exact (brackets_getRecentSession i n).bracketed le_rfl ht
  | getSessionId i j m isAll => exact (brackets_getSessionId i j m isAll).bracketed one_le_two ht
  | addSession i j m s => exact (brackets_addSession i j m s).bracketed one_le_two ht
  | detectOneFace m c i => exact (brackets_detectOneFace v m c i).bracketed one_le_two ht
  | groupGetlist => exact brackets_groupGetlist.bracketed one_le_two ht
  | groupGetusers c => exact (brackets_groupGetusers c).bracketed one_le_two ht
  | groupDelete | userDelete => exact brackets_indeterminate.bracketed (Nat.zero_le 2) ht

end Iff

end WzxServer
