import WzxServer.Chat
import WzxServer.RecentSessions
import WzxServer.Strangers

/-!
# Texts of the database in the fields of responses

The columns of the tables are wider than the fields of the responses that their texts are copied
into : a name may have 40 bytes and its field has 20, a message 4096 bytes and the field of the
last message of a session has 1024. Nobody compares a length before a copy. `copiesFit_of_run` says
that every copy leaves room for the NUL in every run that stores only texts which are `Short`
for their field, under any interleaving of the handlers.

The invariant of a run is `World.Short` : the tables, and the copies that open transactions work
on, hold only short texts. A step keeps it when its statement stores nothing longer (`Modest`).
It is not enough by itself, since between the query and the copy a handler holds
rows that the tables may have lost. So a watch goes along with each handler (`copyWatch`), which
knows that the rows it was given were short; `obeys_copyWatch` goes through the four handlers
that copy, and `noCopy_doEvent` says that the others do not.

The runs at the end show a short message being copied, and a long one that is not.
-/

namespace WzxServer

open Prog Proc World

/-! ## The property -/

/-- The operation that a program asks for next. -/
def nextOp : Proc Unit → Option Op
  | .call o _ => some o
  | _ => none

/-- Every copy that is about to be made leaves room for a NUL. -/
def CopiesFit {T : Type} (c : Threads.Config Db World T) : Prop :=
  ∀ t size text, nextOp (c.prog t) = some (.memcpy size text) → text.length < size

/-- Handlers of requests. -/
def Handles (v : Vision) (p : Proc Unit) : Prop :=
  ∃ request, p = doEvent v request

/-! ## Short texts -/

/-- The columns whose texts are copied, and the lengths of the fields they are copied to. -/
def copied : List (Col × ℕ) :=
  [(.classnum, 20), (.account, 20), (.touxiang, 50), (.peerTouXiang, 50), (.content, 1024)]

/-- The texts that the statement stores in these columns. -/
def Stmt.stores : Stmt → List (Bytes × ℕ)
  | .addUserInfo c a _ touxiang => [(c, 20), (a, 20), (touxiang, 50)]
  | .addInsert c a _ => [(c, 20), (a, 20)]
  | .changeTouXiang touxiang _ _ => [(touxiang, 50)]
  | .inserMessage _ _ _ content _ _ _ => [(content, 1024)]
  | .addSessionUpdate touxiang _ _ | .addSessionInsert _ _ _ _ _ touxiang => [(touxiang, 50)]
  | _ => []

/-- They are shorter than their fields. -/
def Stmt.Short (s : Stmt) : Prop :=
  ∀ p ∈ s.stores, p.1.length < p.2

instance (s : Stmt) : Decidable s.Short :=
  inferInstanceAs (Decidable (∀ p ∈ _, _))

/-- The texts of the row, as they are copied into replies. -/
def UserRow.Short (r : UserRow) : Prop :=
  r.classnum.length < 20 ∧ r.account.length < 20 ∧ r.touxiang.length < 50

instance (r : UserRow) : Decidable r.Short :=
  inferInstanceAs (Decidable (_ ∧ _))

/-- So are the texts in the tables. -/
def Tables.Short (t : Tables) : Prop :=
  (∀ r ∈ t.users, r.Short) ∧ (∀ r ∈ t.messages, r.content.length < 1024) ∧
    ∀ r ∈ t.sessions, r.peerTouXiang.length < 50

instance (t : Tables) : Decidable t.Short :=
  inferInstanceAs (Decidable (_ ∧ _))

/-- So are the texts in a row of a result. -/
def Row.Short (row : Row) : Prop :=
  ∀ p ∈ copied, ∀ text ∈ row.getString p.1, text.length < p.2

instance (row : Row) : Decidable row.Short :=
  inferInstanceAs (Decidable (∀ p ∈ _, _))

/-- What a statement leaves and gives is short. -/
def Effect.Short (e : Effect) : Prop :=
  e.tables.Short ∧ ∀ rows ∈ e.rows, ∀ row ∈ rows, row.Short

instance (e : Effect) : Decidable e.Short :=
  inferInstanceAs (Decidable (_ ∧ _))

/-- The connection and the statement of an operation. -/
def Op.statement? : Op → Option (Conn × Stmt)
  | .executeQuery c s | .executeUpdate c s | .execute c s => some (c, s)
  | _ => none

/-- A statement that is executed stores only short texts, and what MySQL makes of one that is not
read as it was meant is short. -/
def Modest (S : Server) {T : Type} (c : Threads.Config Db World T) (_t : T) (o : Op) (ok : Bool) :
    Prop :=
  ok = true → ∀ p ∈ o.statement?, p.2.Short ∧
    (p.2.Inert ∨ (S.mysql.foreign p.2.text (c.shared.view p.1)).Short)

instance (S : Server) {T : Type} (c : Threads.Config Db World T) (t : T) (o : Op) (ok : Bool) :
    Decidable (Modest S c t o ok) :=
  inferInstanceAs (Decidable (_ → _))

/-! ## The tables -/

section Effects

variable {t : Tables} {e : Collation}

/-- A row whose copied columns are short texts. -/
theorem Row.short_of_forall {row : Row} (h : ∀ q ∈ row, ∀ p ∈ copied, p.1 = q.1 →
    ∃ text, q.2 = .text text ∧ text.length < p.2) : row.Short := by
  intro p hp text htext
  rw [Row.getString, Row.get] at htext
  rcases hfind : row.find? fun q => q.1 = p.1 with _ | q
  · simp [hfind] at htext
  · have hkey : q.1 = p.1 := by simpa using List.find?_some hfind
    obtain ⟨text', hq, hlt⟩ := h q (List.mem_of_find?_eq_some hfind) p hp hkey.symm
    simp only [hfind, Option.map_some, hq, Option.mem_some_iff] at htext
    exact htext ▸ hlt

theorem UserRow.Short.names {r : UserRow} (h : r.Short) : r.names.Short := by
  obtain ⟨hc, ha, -⟩ := h
  refine Row.short_of_forall ?_
  simp [UserRow.names, copied, hc, ha]

theorem SessionRow.short_cells {r : SessionRow} (h : r.peerTouXiang.length < 50) :
    r.cells.Short := by
  refine Row.short_of_forall ?_
  simp [SessionRow.cells, copied, h]

theorem MessageRow.short_cells {r : MessageRow} (h : r.content.length < 1024) :
    r.cells.Short := by
  refine Row.short_of_forall ?_
  simp [MessageRow.cells, copied, h]

theorem Effect.short_select (ht : t.Short) {rows : List Row} (h : ∀ row ∈ rows, row.Short) :
    (Effect.select t rows).Short :=
  ⟨ht, fun _ hrows => Option.mem_some_iff.1 hrows ▸ h⟩

theorem Tables.Short.updateUsers (ht : t.Short) {f : UserRow → UserRow}
    (hf : ∀ r, r.Short → (f r).Short) : (Effect.updateUsers t f).Short := by
  refine ⟨⟨fun r hr => ?_, ht.2.1, ht.2.2⟩, nofun⟩
  obtain ⟨r', hr', rfl⟩ := List.mem_map.mp hr
  exact hf r' (ht.1 r' hr')

theorem Tables.Short.updateSessions (ht : t.Short) {f : SessionRow → SessionRow}
    (hf : ∀ r, r.peerTouXiang.length < 50 → (f r).peerTouXiang.length < 50) :
    (Effect.updateSessions t f).Short := by
  refine ⟨⟨ht.1, ht.2.1, fun r hr => ?_⟩, nofun⟩
  obtain ⟨r', hr', rfl⟩ := List.mem_map.mp hr
  exact hf r' (ht.2.2 r' hr')

theorem Tables.Short.insertUser (ht : t.Short) {row : ℤ → UserRow} (h : ∀ id, (row id).Short) :
    (Effect.insertUser t row).Short := by
  refine ⟨⟨fun r hr => ?_, ht.2.1, ht.2.2⟩, nofun⟩
  rcases List.mem_append.mp hr with hr | hr
  · exact ht.1 r hr
  · exact List.mem_singleton.mp hr ▸ h _

theorem mem_of_mem_distinct {eq : Bytes → Bytes → Bool} {c : Bytes} :
    ∀ {l : List Bytes}, c ∈ distinct eq l → c ∈ l
  | s :: l, h => by
    rcases List.mem_cons.mp h with rfl | h
    · exact List.mem_cons_self
    · exact List.mem_cons_of_mem _ (mem_of_mem_distinct (List.mem_filter.mp h).1)

theorem Effect.short_select_map {α : Type} (ht : t.Short) {f : α → Row} {l : List α}
    (h : ∀ a ∈ l, (f a).Short) : (Effect.select t (l.map f)).Short := by
  refine Effect.short_select ht fun row hrow => ?_
  obtain ⟨a, ha, rfl⟩ := List.mem_map.mp hrow
  exact h a ha

/-- A row without copied columns. -/
theorem Row.short_of_disjoint {row : Row} (h : ∀ q ∈ row, q.1 ∉ copied.map Prod.fst) :
    row.Short :=
  Row.short_of_forall fun q hq p hp hkey => absurd (List.mem_map.2 ⟨p, hp, hkey⟩) (h q hq)

/-- A statement that stores only short texts keeps the tables short. -/
theorem Stmt.short_effect {s : Stmt} (ht : t.Short) (hs : s.Short) : (s.effect e t).Short := by
  obtain ⟨husers, hmessages, hsessions⟩ := id ht
  have hid : ∀ id, (idRow id).Short := fun id => Row.short_of_disjoint (by simp [idRow, copied])
  cases s with
  | loginUser c a p =>
    refine Effect.short_select_map ht fun r hr => Row.short_of_forall ?_
    have hshort := husers r (List.mem_filter.mp hr).1
    simp [UserRow.names, copied, hshort.1, hshort.2.1]
  | isLogin c a =>
    exact Effect.short_select_map ht fun r _ => Row.short_of_disjoint (by simp [copied])
  | loginOnline ip c a =>
    refine ht.updateUsers fun r hr => ?_
    split_ifs <;> exact hr
  | loginOffline c a =>
    refine ht.updateUsers fun r hr => ?_
    split_ifs <;> exact hr
  | getUserId c a => exact Effect.short_select_map ht fun r _ => hid r.id
  | getUserFromId id | userExist c a p | addSelect c a =>
    exact Effect.short_select_map ht fun r hr => (husers r (List.mem_filter.mp hr).1).names
  | getTouXiang c a | GetTouXiang c a =>
    refine Effect.short_select_map ht fun r hr => Row.short_of_forall ?_
    simp [copied, (husers r (List.mem_filter.mp hr).1).2.2]
  | addUserInfo c a p touxiang =>
    refine ht.insertUser fun id => ⟨?_, ?_, ?_⟩
    · exact hs (c, 20) (by simp [Stmt.stores])
    · exact hs (a, 20) (by simp [Stmt.stores])
    · exact hs (touxiang, 50) (by simp [Stmt.stores])
  | changeTouXiang touxiang c a =>
    have hshort : touxiang.length < 50 := hs (touxiang, 50) (by simp [Stmt.stores])
    refine ht.updateUsers fun r hr => ?_
    split_ifs
    · exact ⟨hr.1, hr.2.1, hshort⟩
    · exact hr
  | getRelationId small big | addRelationSelect small big =>
    exact Effect.short_select_map ht fun r _ => hid r.id
  | addRelationUpdate | addRelationInsert | updateRelation | removeRelation =>
    exact ⟨ht, nofun⟩
  | inserMessage relateId fromId toId content type status now =>
    refine ⟨⟨husers, fun r hr => ?_, hsessions⟩, nofun⟩
    rcases List.mem_append.mp hr with hr | hr
    · exact hmessages r hr
    · rw [List.mem_singleton.mp hr]
      exact hs (content, 1024) (by simp [Stmt.stores])
  | getMessage relateId type now last =>
    exact Effect.short_select_map ht fun r hr =>
      MessageRow.short_cells (hmessages r (List.mem_filter.mp hr).1)
  | getLastMsg relateId =>
    refine Effect.short_select_map ht fun r hr => Row.short_of_forall ?_
    have hmem := (List.mem_filter.mp (List.mem_mergeSort.1 (List.mem_of_mem_take hr))).1
    simp [copied, hmessages r hmem]
  | getRecentSession userId last =>
    refine Effect.short_select_map ht fun r hr => SessionRow.short_cells (hsessions r ?_)
    exact (List.mem_filter.mp (List.mem_mergeSort.1 (List.mem_of_mem_take hr))).1
  | getSessionId => exact Effect.short_select_map ht fun r _ => hid r.id
  | updateSession time id =>
    refine ht.updateSessions fun r hr => ?_
    split_ifs <;> exact hr
  | removeSession now id =>
    refine ht.updateSessions fun r hr => ?_
    split_ifs <;> exact hr
  | addSessionUpdate touxiang now id =>
    refine ht.updateSessions fun r hr => ?_
    split_ifs
    · exact hs (touxiang, 50) (by simp [Stmt.stores])
    · exact hr
  | addSessionInsert userId peerId type status now touxiang =>
    refine ⟨⟨husers, hmessages, fun r hr => ?_⟩, nofun⟩
    rcases List.mem_append.mp hr with hr | hr
    · exact hsessions r hr
    · rw [List.mem_singleton.mp hr]
      exact hs (touxiang, 50) (by simp [Stmt.stores])
  | detectOneFace c a =>
    exact Effect.short_select_map ht fun r _ =>
      Row.short_of_disjoint (by simp [UserRow.face, copied])
  | addUpdate c a p =>
    refine ht.updateUsers fun r hr => ?_
    split_ifs <;> exact hr
  | addInsert c a p =>
    refine ht.insertUser fun id => ⟨?_, ?_, by simp [UserRow.setImage, UserRow.new]⟩
    · exact hs (c, 20) (by simp [Stmt.stores])
    · exact hs (a, 20) (by simp [Stmt.stores])
  | groupGetlist =>
    refine Effect.short_select_map ht fun c hc => Row.short_of_forall ?_
    obtain ⟨r, hr, rfl⟩ := List.mem_map.mp (mem_of_mem_distinct hc)
    simp [copied, (husers r hr).1]
  | groupGetusers c =>
    refine Effect.short_select_map ht fun r hr => Row.short_of_forall ?_
    have hshort := husers r (List.mem_filter.mp hr).1
    simp [copied, hshort.2.1, hshort.2.2]

theorem MySQL.short_exec {M : MySQL} {s : Stmt} (ht : t.Short) (hs : s.Short)
    (hforeign : s.Inert ∨ (M.foreign s.text t).Short) : (M.exec s t).Short := by
  by_cases hinert : s.Inert
  · rw [MySQL.exec_of_inert hinert]
    exact Stmt.short_effect ht hs
  · rw [MySQL.exec_of_not_inert hinert]
    exact hforeign.resolve_left hinert

end Effects

/-! ## The world -/

/-- The tables, and the copies that open transactions work on, are short. -/
structure World.Short (w : World) : Prop where
  tables : w.tables.Short
  txn : ∀ k, ∀ t ∈ w.txn k, t.Short

namespace World.Short

variable {w : World} {S : Server}

theorem view (h : w.Short) (k : Conn) : (w.view k).Short := by
  rw [World.view]
  rcases ht : w.txn k with _ | t
  · exact h.tables
  · exact h.txn k t ht

/-- A copy of a connection is replaced. -/
theorem update (h : w.Short) (k : Conn) {o : Option Tables} (ho : ∀ t ∈ o, t.Short) :
    ∀ k', ∀ t ∈ Function.update w.txn k o k', t.Short := by
  intro k'
  rcases eq_or_ne k' k with rfl | hne
  · rwa [Function.update_self]
  · rw [Function.update_of_ne hne]
    exact h.txn k'

theorem exec (h : w.Short) {k : Conn} {s : Stmt} (hs : s.Short)
    (hforeign : s.Inert ∨ (S.mysql.foreign s.text (w.view k)).Short) :
    (w.exec S.mysql k s).1.Short ∧ (w.exec S.mysql k s).2.Short := by
  have heffect := MySQL.short_exec (h.view k) hs hforeign
  refine ⟨heffect, ?_⟩
  rw [World.exec, put]
  rcases w.txn k with _ | t
  · exact ⟨heffect.1, h.txn⟩
  · exact ⟨h.tables, h.update k (by simpa using heffect.1)⟩

theorem commit (h : w.Short) (k : Conn) : (w.commit k).Short := by
  rw [World.commit]
  rcases ht : w.txn k with _ | t
  · exact h
  · exact ⟨h.txn k t ht, h.update k (by simp)⟩

theorem rollback (h : w.Short) (k : Conn) : (w.rollback k).Short := by
  rw [World.rollback]
  rcases w.txn k with _ | t
  · exact h
  · exact ⟨h.tables, h.update k (by simp)⟩

theorem start_transaction (h : w.Short) (k : Conn) : (w.start_transaction k).Short :=
  ⟨(h.commit k).tables, (h.commit k).update k (by simpa using (h.commit k).tables)⟩

end World.Short

/-! ## A watch over the copies -/

/-- Copies leave room for the NUL, and the rows that queries give are short. -/
def copyWatch : Monitor Db where
  State := Unit
  allowed _
    | .memcpy size text => text.length < size
    | _ => True
  admits _
    | .executeQuery _ _, r => ∀ rows ∈ r, ∀ row ∈ rows, row.Short
    | _, _ => True
  next _ _ _ := ()

/-- A modest step keeps the world short, and gives short rows. -/
theorem World.Short.serve {w : World} {S : Server} (h : w.Short) {o : Op} {ok : Bool}
    (hmodest : ok = true → ∀ p ∈ o.statement?, p.2.Short ∧
      (p.2.Inert ∨ (S.mysql.foreign p.2.text (w.view p.1)).Short)) :
    copyWatch.admits () o (World.serve S (fun _ => ok) o w).1 ∧
      (World.serve S (fun _ => ok) o w).2.Short := by
  cases o with
  | getDBConn n =>
    cases ok
    · exact ⟨trivial, h⟩
    · exact ⟨trivial, h.tables, h.update w.conns (by simp)⟩
  | executeQuery k s =>
    cases ok
    · exact ⟨nofun, h⟩
    · obtain ⟨hs, hforeign⟩ := hmodest rfl (k, s) rfl
      obtain ⟨heffect, hworld⟩ := h.exec hs hforeign
      exact ⟨heffect.2, hworld⟩
  | executeUpdate k s | execute k s =>
    cases ok
    · exact ⟨trivial, h⟩
    · obtain ⟨hs, hforeign⟩ := hmodest rfl (k, s) rfl
      exact ⟨trivial, (h.exec hs hforeign).2⟩
  | startTransaction k =>
    cases ok
    · exact ⟨trivial, h⟩
    · exact ⟨trivial, h.start_transaction k⟩
  | commit k =>
    cases ok
    · exact ⟨trivial, h.rollback k⟩
    · exact ⟨trivial, h.commit k⟩
  | rollback k => exact ⟨trivial, h.rollback k⟩
  | _ => exact ⟨trivial, h.tables, h.txn⟩

/-! ## Handlers that copy nothing -/

/-- The operation is a copy. -/
def Op.copies : Op → Bool
  | .memcpy .. => true
  | _ => false

/-- `p` copies nothing. -/
abbrev NoCopy {α : Type} (p : Proc α) : Prop :=
  Only (E := Db) (fun o => o.copies = false) p

section NoCopy

variable {α : Type}

theorem noCopy_ask {o : Op} (h : o.copies = false) : NoCopy (ask o) :=
  only_perform h

theorem noCopy_release (c : Conn) (a : α) : NoCopy (ask (.relDBConn c) >>= fun _ => ret a) :=
  (noCopy_ask rfl).bind fun _ => only_ret

theorem noCopy_deref (a : Option α) : NoCopy (deref a) := by
  rcases a with _ | a
  · exact only_fault
  · exact only_ret

theorem noCopy_defined {e : Fault} (a : Option α) : NoCopy (defined e a) := by
  rcases a with _ | a
  · exact only_fault
  · exact only_ret

theorem noCopy_sprintf (size : ℕ) (s : Stmt) : NoCopy (sprintf size s) := by
  rw [sprintf]
  split_ifs
  · exact only_ret
  · exact only_fault

theorem noCopy_getInt (row : Row) (key : Col) : NoCopy (getInt row key) := by
  rw [getInt_eq]
  exact noCopy_defined _

theorem noCopy_getText (row : Row) (key : Col) : NoCopy (getText row key) :=
  (noCopy_deref _).bind fun _ => only_ret

theorem noCopy_openQuery (size : ℕ) (s : Stmt) : NoCopy (openQuery size s) := by
  refine (noCopy_ask rfl).bind fun _ => (noCopy_sprintf size s).bind fun _ => ?_
  exact (noCopy_deref _).bind fun _ => (noCopy_ask rfl).bind fun _ => only_ret

/-- A query of which only the connection is used afterwards. -/
theorem noCopy_openQuery_drop (size : ℕ) (s : Stmt) :
    NoCopy (openQuery size s >>= fun r => ask (.relDBConn r.1)) :=
  (noCopy_openQuery size s).bind fun _ => noCopy_ask rfl

theorem noCopy_getUserId (classnum account : Bytes) :
    NoCopy (CUserModel.getUserId classnum account) := by
  refine (noCopy_openQuery _ _).bind fun r => ?_
  rcases r with ⟨c, _ | (_ | ⟨row, rows⟩)⟩
  · exact noCopy_release c _
  · exact noCopy_release c _
  · exact (noCopy_getInt row .id).bind fun _ => noCopy_release c _

theorem noCopy_userExist (classnum account password : Bytes) :
    NoCopy (CUserModel.userExist classnum account password) :=
  (noCopy_openQuery _ _).bind fun r => (noCopy_deref _).bind fun _ => noCopy_release r.1 _

theorem noCopy_lastId (rows : Option (List Row)) : NoCopy (lastId rows) := by
  rcases rows with _ | rows
  · exact only_ret
  · exact (Only.forEach (fun row => noCopy_getInt row .id) rows).bind fun _ => only_ret

theorem noCopy_insertPrepared (c : Conn) (s : Stmt) : NoCopy (insertPrepared c s) := by
  refine (noCopy_ask rfl).bind fun prepared => ?_
  cases prepared
  · exact only_ret
  · refine (noCopy_ask rfl).bind fun executed => ?_
    cases executed
    · exact only_ret
    · exact noCopy_ask rfl

theorem noCopy_updateOnce (s : Stmt) : NoCopy (updateOnce s) := by
  refine (noCopy_ask rfl).bind fun conn => ?_
  rcases conn with _ | c
  · exact only_ret
  · exact (noCopy_ask rfl).bind fun _ => noCopy_release c _

theorem noCopy_addRelation (i j : ℤ) : NoCopy (CRelationModel.addRelation i j) := by
  refine (noCopy_ask rfl).bind fun conn => ?_
  rcases conn with _ | c
  · exact only_ret
  · refine (noCopy_ask rfl).bind fun now => (noCopy_ask rfl).bind fun res => ?_
    have hinsert : NoCopy (insertPrepared c (.addRelationInsert i j 0 now) >>= fun n =>
        ask (.relDBConn c) >>= fun _ => ret n) :=
      (noCopy_insertPrepared c _).bind fun n => noCopy_release c n
    rcases res with _ | (_ | ⟨row, rows⟩)
    · exact hinsert
    · exact hinsert
    · refine (noCopy_getInt row .id).bind fun n => ?_
      exact (noCopy_ask rfl).bind fun _ => noCopy_release c _

theorem noCopy_getRelationId (i j : ℤ) (bAdd : Bool) :
    NoCopy (CRelationModel.getRelationId i j bAdd) := by
  rw [CRelationModel.getRelationId]
  by_cases h0 : i = 0 ∨ j = 0
  · rw [if_pos h0]
    exact only_ret
  · rw [if_neg h0]
    generalize (if i > j then i else j) = big
    generalize (if i > j then j else i) = small
    refine (noCopy_ask rfl).bind fun conn => ?_
    rcases conn with _ | c
    · exact only_ret
    · refine (noCopy_ask rfl).bind fun res => (noCopy_lastId res).bind fun n => ?_
      refine (noCopy_ask rfl).bind fun _ => ?_
      split_ifs
      · exact noCopy_addRelation _ _
      · exact only_ret

theorem noCopy_getSessionId (i j nType : ℤ) (isAll : Bool) :
    NoCopy (CSessionModel.getSessionId i j nType isAll) := by
  refine (noCopy_ask rfl).bind fun conn => ?_
  rcases conn with _ | c
  · exact only_ret
  · refine (noCopy_ask rfl).bind fun res => (noCopy_lastId res).bind fun n => ?_
    exact noCopy_release c n

theorem noCopy_addSession (i j nType : ℤ) (peerTouXiang : Bytes) :
    NoCopy (CSessionModel.addSession i j nType peerTouXiang) := by
  refine (noCopy_getSessionId i j nType true).bind fun n => (noCopy_ask rfl).bind fun now => ?_
  refine (noCopy_ask rfl).bind fun conn => ?_
  rcases conn with _ | c
  · exact only_ret
  · dsimp only
    split_ifs
    · refine (noCopy_sprintf _ _).bind fun _ => (noCopy_ask rfl).bind fun _ => ?_
      exact noCopy_release c _
    · exact (noCopy_insertPrepared c _).bind fun n => noCopy_release c n

theorem noCopy_inserMessage (relateId fromId toId : ℤ) (content : Bytes) (type status : ℤ) :
    NoCopy (CMessageModel.inserMessage relateId fromId toId content type status) := by
  refine (noCopy_ask rfl).bind fun conn => ?_
  rcases conn with _ | c
  · exact only_ret
  · refine (noCopy_ask rfl).bind fun prepared => ?_
    cases prepared
    · exact noCopy_release c _
    · refine (noCopy_ask rfl).bind fun now => (noCopy_ask rfl).bind fun executed => ?_
      cases executed
      · exact noCopy_release c _
      · exact (noCopy_ask rfl).bind fun n => noCopy_release c n

theorem noCopy_compareRows (v : Vision) (m : Mat) (classnum account : Bytes) :
    ∀ rows : List Row, NoCopy (CDetectModel.compareRows v m classnum account rows)
  | [] => only_ret
  | row :: rows => by
    unfold CDetectModel.compareRows
    refine (noCopy_getInt _ _).bind fun _ => (noCopy_getInt _ _).bind fun _ => ?_
    refine (noCopy_getInt _ _).bind fun _ => (noCopy_getInt _ _).bind fun _ => ?_
    refine (noCopy_deref _).bind fun _ => ?_
    dsimp only
    split_ifs
    · exact only_ret
    · exact only_ret
    · exact noCopy_compareRows v m classnum account rows

theorem noCopy_storeImage (v : Vision) (c : Conn) (image : Mat) (stmt : ImageParams → Stmt) :
    NoCopy (CDetectModel.storeImage v c image stmt) := by
  refine (noCopy_ask rfl).bind fun started => ?_
  cases started
  · exact only_ret
  · refine (noCopy_defined _).bind fun length => (noCopy_ask rfl).bind fun prepared => ?_
    cases prepared
    · exact only_ret
    · refine (noCopy_defined _).bind fun sent => (noCopy_ask rfl).bind fun executed => ?_
      cases executed
      · exact (noCopy_ask rfl).bind fun _ => (noCopy_ask rfl).bind fun _ => only_ret
      · exact (noCopy_ask rfl).bind fun _ => (noCopy_ask rfl).bind fun _ => only_ret

theorem noCopy_add (v : Vision) (image : Mat) (classnum account : Bytes) :
    NoCopy (CDetectModel.add v image classnum account) := by
  refine (noCopy_ask rfl).bind fun _ => (noCopy_deref _).bind fun _ => (noCopy_ask rfl).bind
    fun _ => (noCopy_deref _).bind fun rows => ?_
  split_ifs
  · exact noCopy_storeImage v _ _ _
  · exact noCopy_storeImage v _ _ _

theorem noCopy_groupGetlist : NoCopy CDetectModel.groupGetlist := by
  refine (noCopy_ask rfl).bind fun _ => ?_
  refine (noCopy_deref _).bind fun c => ?_
  refine (noCopy_ask rfl).bind fun _ => ?_
  refine (noCopy_deref _).bind fun rows => ?_
  exact (Only.forEach (fun row => noCopy_getText row .classnum) rows).bind fun _ =>
    noCopy_release c _

theorem noCopy_groupGetusers (classnum : Bytes) :
    NoCopy (CDetectModel.groupGetusers classnum) := by
  refine (noCopy_ask rfl).bind fun _ => ?_
  refine (noCopy_deref _).bind fun c => ?_
  refine (noCopy_ask rfl).bind fun _ => ?_
  refine (noCopy_deref _).bind fun rows => ?_
  refine (Only.forEach (fun row => ?_) rows).bind fun _ => noCopy_release c _
  exact (noCopy_getText row .account).bind fun _ => (noCopy_getText row .touxiang).bind
    fun _ => only_ret

theorem noCopy_indeterminate_write (r : Reply) :
    NoCopy (ask .indeterminate >>= fun n => if n = 0 then ret () else ask (.write r)) := by
  refine (noCopy_ask rfl).bind fun n => ?_
  split_ifs
  · exact only_ret
  · exact noCopy_ask rfl

/-- The requests whose handlers copy. -/
def Request.copies : Request → Bool
  | .messageHistory _ | .recentSession _ _ _ | .loginTouXiang _ | .getTouXiang _ => true
  | _ => false

theorem noCopy_refreshUser (m_group_id account : Bytes) :
    NoCopy (refreshUser m_group_id account) := by
  have hset : ∀ (c : Conn) (rows : List Row),
      NoCopy (refreshFrom m_group_id account c rows) := by
    intro c rows
    rcases rows with _ | ⟨row, rows⟩
    · exact noCopy_ask rfl
    · exact (noCopy_getInt _ _).bind fun _ => (noCopy_ask rfl).bind fun _ => noCopy_ask rfl
  have hrest : NoCopy (openQuery 200 (.isLogin m_group_id account) >>= fun r =>
      deref r.2 >>= refreshFrom m_group_id account r.1) :=
    (noCopy_openQuery _ _).bind fun r => (noCopy_deref _).bind fun rows => hset r.1 rows
  rw [refreshUser_eq]
  refine (noCopy_ask rfl).bind fun known => ?_
  rcases known with _ | islogin
  · exact (noCopy_ask rfl).bind fun _ => hrest
  · exact hrest

theorem noCopy_getuserListEvent (m_group_id : Bytes) :
    NoCopy (getuserListEvent m_group_id) := by
  refine (noCopy_groupGetusers m_group_id).bind fun users => ?_
  have hloop : NoCopy (forEach (fun user : Bytes × Bytes => refreshUser m_group_id user.1) users) := by
    refine Only.forEach (fun user => ?_) users
    exact noCopy_refreshUser m_group_id user.1
  refine hloop.bind fun _ => ?_
  exact noCopy_ask rfl

theorem noCopy_LoginAddFaceEvent (v : Vision) (d : AddFaceData) :
    NoCopy (LoginAddFaceEvent v d) := by
  refine (noCopy_userExist _ _ _).bind fun isExist => ?_
  cases isExist
  · refine (noCopy_openQuery_drop _ _).bind fun _ => (noCopy_add v _ _ _).bind ?_
    rintro ⟨_, error_code⟩
    dsimp only
    split_ifs
    · exact only_ret
    · exact noCopy_ask rfl
  · exact noCopy_ask rfl

theorem noCopy_LoginUserEvent (d : LoginData) : NoCopy (LoginUserEvent d) := by
  refine (noCopy_openQuery _ _).bind fun r => (noCopy_deref _).bind fun rows => ?_
  rcases rows with _ | ⟨row, rows⟩
  · exact (noCopy_ask rfl).bind fun _ => noCopy_ask rfl
  · exact (noCopy_ask rfl).bind fun _ => noCopy_ask rfl

theorem noCopy_detectFaceEvent (v : Vision) (d : DetectFaceData) :
    NoCopy (detectFaceEvent v d) := by
  have hdetect : NoCopy (CDetectModel.detectOneFace v (v.reread d.image) d.m_classnum
      d.m_account) :=
    (noCopy_openQuery _ _).bind fun r => (noCopy_deref _).bind fun rows =>
      (noCopy_compareRows v _ _ _ rows).bind fun t => noCopy_release r.1 t
  refine hdetect.bind fun res => ?_
  split_ifs
  · exact noCopy_ask rfl
  · exact noCopy_ask rfl

theorem noCopy_LoginOnlineEvent (d : UserName) : NoCopy (LoginOnlineEvent d) := by
  refine (noCopy_ask rfl).bind fun _ => (noCopy_ask rfl).bind fun _ => ?_
  refine (noCopy_sprintf _ _).bind fun _ => (noCopy_ask rfl).bind fun _ => ?_
  refine (noCopy_deref _).bind fun _ => (noCopy_ask rfl).bind fun _ => ?_
  exact (noCopy_ask rfl).bind fun _ => noCopy_ask rfl

theorem noCopy_LoginOfflineEvent (d : UserName) : NoCopy (LoginOfflineEvent d) := by
  refine (noCopy_ask rfl).bind fun _ => (noCopy_sprintf _ _).bind fun _ => ?_
  refine (noCopy_ask rfl).bind fun _ => (noCopy_deref _).bind fun _ => ?_
  exact (noCopy_ask rfl).bind fun _ => (noCopy_ask rfl).bind fun _ => noCopy_ask rfl

theorem noCopy_MessageCreateEvent (d : MessageCreateData) : NoCopy (MessageCreateEvent d) := by
  refine (noCopy_getUserId _ _).bind fun _ => (noCopy_getUserId _ _).bind fun _ => ?_
  refine (noCopy_addSession _ _ _ _).bind fun n => ?_
  split_ifs
  · exact noCopy_ask rfl
  · exact noCopy_ask rfl

theorem noCopy_MessageSendEvent (d : MessageSendData) : NoCopy (MessageSendEvent d) := by
  refine (noCopy_getUserId _ _).bind fun _ => (noCopy_getUserId _ _).bind fun _ => ?_
  refine (noCopy_getRelationId _ _ _).bind fun _ => (noCopy_getSessionId _ _ _ _).bind fun _ => ?_
  refine (noCopy_updateOnce _).bind fun _ => (noCopy_inserMessage _ _ _ _ _ _).bind fun _ => ?_
  exact only_ret

/-- Only four handlers copy. -/
theorem noCopy_doEvent (v : Vision) {request : Request} (h : request.copies = false) :
    NoCopy (doEvent v request) := by
  cases request with
  | noOperation => exact only_ret
  | addFace d => exact noCopy_LoginAddFaceEvent v d
  | getGroup => exact noCopy_groupGetlist.bind fun _ => noCopy_ask rfl
  | getUser g => exact noCopy_getuserListEvent g
  | delUser d | delGroup g => exact noCopy_indeterminate_write .null
  | login d => exact noCopy_LoginUserEvent d
  | detect d => exact noCopy_detectFaceEvent v d
  | messageCreate d => exact noCopy_MessageCreateEvent d
  | messageSend d => exact noCopy_MessageSendEvent d
  | online d => exact noCopy_LoginOnlineEvent d
  | offline d => exact noCopy_LoginOfflineEvent d
  | checkIsOnline => exact (noCopy_ask rfl).bind fun _ => noCopy_ask rfl
  | changeTouXiang d => exact (noCopy_openQuery_drop _ _).bind fun _ => noCopy_ask rfl
  | messageHistory | recentSession | loginTouXiang | getTouXiang =>
    exact absurd h (Bool.noConfusion)

end NoCopy

/-! ## Handlers that copy -/

section Copying

variable {α β : Type}

theorem NoCopy.obeys {p : Proc α} (h : NoCopy p) :
    Obeys copyWatch p () fun _ _ => True := by
  refine Only.obeys (M := copyWatch) h (fun _ o ho => ?_) (fun _ _ => trivial) ()
  cases o <;> trivial

theorem obeys_copy_ask_bind {o : Op} {f : o.Ans → Proc β} {R : β → Unit → Prop}
    (ho : o.copies = false) (h : ∀ r, copyWatch.admits () o r → Obeys copyWatch (f r) () R) :
    Obeys copyWatch (ask o >>= f) () R := by
  refine ⟨?_, h⟩
  cases o <;> trivial

theorem obeys_copy_sprintf_bind {size : ℕ} {s : Stmt} {f : Stmt → Proc β} {R : β → Unit → Prop}
    (h : ∀ s, Obeys copyWatch (f s) () R) : Obeys copyWatch (sprintf size s >>= f) () R :=
  (noCopy_sprintf size s).obeys.bind fun s _ _ => h s

theorem obeys_copy {size : ℕ} {text : Bytes} (h : text.length < size) :
    Obeys copyWatch (memcpyField size text) () fun _ _ => True := by
  refine ⟨h, fun _ _ => ?_⟩
  split_ifs
  · trivial
  · trivial

/-- The rows of a query are short. -/
theorem obeys_openQuery_short {size : ℕ} {s : Stmt} :
    Obeys copyWatch (openQuery size s) () fun r _ => ∀ rows ∈ r.2, ∀ row ∈ rows, row.Short := by
  refine obeys_copy_ask_bind rfl fun conn _ => ?_
  refine (noCopy_sprintf size s).obeys.bind fun s' _ _ => ?_
  refine (noCopy_deref conn).obeys.bind fun c _ _ => ?_
  exact obeys_copy_ask_bind (o := .executeQuery c s') rfl fun res hres => hres

/-- A C string is no longer than the text it is read from. -/
theorem obeys_getText_short {row : Row} (h : row.Short) (key : Col) {size : ℕ}
    (hkey : (key, size) ∈ copied) :
    Obeys copyWatch (getText row key) () fun text _ => text.length < size := by
  rw [getText]
  rcases htext : row.getString key with _ | text
  · exact trivial
  · exact (List.takeWhile_sublist _).length_le.trans_lt (h _ hkey text htext)

theorem obeys_getUserFromId_short (userId : ℤ) :
    Obeys copyWatch (CUserModel.getUserFromId userId) () fun u _ =>
      u.classnum.length < 20 ∧ u.account.length < 20 := by
  refine obeys_openQuery_short.bind fun r _ hrows => ?_
  rcases r with ⟨c, _ | (_ | ⟨row, rows⟩)⟩
  · exact obeys_copy_ask_bind rfl fun _ _ => ⟨by decide, by decide⟩
  · exact obeys_copy_ask_bind rfl fun _ _ => ⟨by decide, by decide⟩
  · have hrow : row.Short := hrows _ rfl row List.mem_cons_self
    have hclassnum : (Col.classnum, 20) ∈ copied := by decide
    have haccount : (Col.account, 20) ∈ copied := by decide
    refine (obeys_getText_short hrow .classnum hclassnum).bind fun c _ hc => ?_
    refine (obeys_getText_short hrow .account haccount).bind fun a _ ha => ?_
    exact obeys_copy_ask_bind rfl fun _ _ => ⟨hc, ha⟩

theorem obeys_getTouXiang_short (classnum account : Bytes) :
    Obeys copyWatch (CUserModel.getTouXiang classnum account) () fun text _ =>
      text.length < 50 := by
  refine obeys_openQuery_short.bind fun r _ hrows => ?_
  rcases r with ⟨c, _ | (_ | ⟨row, rows⟩)⟩
  · exact obeys_copy_ask_bind rfl fun _ _ => (by decide : 0 < 50)
  · exact obeys_copy_ask_bind rfl fun _ _ => (by decide : 0 < 50)
  · have htouxiang : (Col.touxiang, 50) ∈ copied := by decide
    have hrow : row.Short := hrows _ rfl row List.mem_cons_self
    refine (obeys_getText_short hrow .touxiang htouxiang).bind fun text _ ht => ?_
    exact obeys_copy_ask_bind rfl fun _ _ => ht

theorem obeys_messageOf_short {row : Row} (h : row.Short) :
    Obeys copyWatch (CMessageModel.messageOf row) () fun _ _ => True := by
  have hkey : (Col.content, 1024) ∈ copied := by decide
  refine (obeys_getText_short h .content hkey).bind fun content _ hcontent => ?_
  refine (noCopy_getInt row .fromId).obeys.bind fun fromId _ _ => ?_
  refine (obeys_getUserFromId_short fromId).bind fun sender _ hsender => ?_
  refine (noCopy_getInt row .toId).obeys.bind fun toId _ _ => ?_
  refine (obeys_getUserFromId_short toId).bind fun receiver _ hreceiver => ?_
  refine (obeys_copy hsender.1).bind fun _ _ _ => ?_
  refine (obeys_copy hsender.2).bind fun _ _ _ => ?_
  refine (obeys_copy hreceiver.1).bind fun _ _ _ => ?_
  refine (obeys_copy hreceiver.2).bind fun _ _ _ => ?_
  refine (obeys_copy (hcontent.trans (by decide))).bind fun _ _ _ => ?_
  exact (noCopy_getInt row .created).obeys.bind fun _ _ _ => trivial

/-- A loop over short rows. -/
theorem obeys_forEach_short {f : Row → Proc α} {Q : α → Prop}
    (hf : ∀ row, row.Short → Obeys copyWatch (f row) () fun a _ => Q a) :
    ∀ {rows : List Row}, (∀ row ∈ rows, row.Short) →
      Obeys copyWatch (forEach f rows) () fun as _ => ∀ a ∈ as, Q a
  | [], _ => fun _ ha => absurd ha List.not_mem_nil
  | row :: rows, h => by
    refine (hf row (h row List.mem_cons_self)).bind fun a _ ha => ?_
    refine (obeys_forEach_short hf fun r hr => h r (List.mem_cons_of_mem _ hr)).bind
      fun as _ has => ?_
    exact List.forall_mem_cons.2 ⟨ha, has⟩

theorem mem_getD_short {res : Option (List Row)} (h : ∀ rows ∈ res, ∀ row ∈ rows, row.Short) :
    ∀ row ∈ res.getD [], row.Short := by
  rcases res with _ | rows
  · exact nofun
  · exact h rows rfl

theorem obeys_getMessage_short (relateId lastTime nowTime : ℤ) :
    Obeys copyWatch (CMessageModel.getMessage relateId lastTime nowTime) () fun _ _ => True := by
  refine obeys_copy_ask_bind rfl fun conn _ => ?_
  rcases conn with _ | c
  · trivial
  · refine obeys_copy_sprintf_bind ?_
    intro s
    refine obeys_copy_ask_bind rfl fun res hres => ?_
    refine (obeys_forEach_short (Q := fun _ => True) (fun row hrow => obeys_messageOf_short hrow)
      (mem_getD_short hres)).bind fun _ _ _ => ?_
    exact obeys_copy_ask_bind rfl fun _ _ => trivial

theorem obeys_getLastMsg_short (i j : ℤ) :
    Obeys copyWatch (CMessageModel.getLastMsg i j) () fun r _ => r.1.length < 1024 := by
  refine (noCopy_getRelationId i j false).obeys.bind fun n _ _ => ?_
  split_ifs
  · exact (by decide : 0 < 1024)
  · refine obeys_copy_ask_bind rfl fun conn _ => ?_
    rcases conn with _ | c
    · exact (by decide : 0 < 1024)
    · refine obeys_copy_ask_bind rfl fun res hres => ?_
      refine (obeys_forEach_short (Q := fun m : Bytes × Option ℤ => m.1.length < 1024)
        (fun row hrow => ?_) (mem_getD_short hres)).bind fun msgs _ hmsgs => ?_
      · have hkey : (Col.content, 1024) ∈ copied := by decide
        refine (noCopy_getInt row .type).obeys.bind fun _ _ _ => ?_
        exact (obeys_getText_short hrow .content hkey).bind fun _ _ htext => htext
      · refine obeys_copy_ask_bind rfl fun _ _ => ?_
        rcases hlast : msgs.getLast? with _ | m
        · exact (by decide : 0 < 1024)
        · exact hmsgs m (List.mem_of_getLast? hlast)

theorem obeys_sessionOf_short {row : Row} (h : row.Short) (nUserId : ℤ) :
    Obeys copyWatch (CSessionModel.sessionOf nUserId row) () fun _ _ => True := by
  have htouxiang : (((row.getString .peerTouXiang).getD []).takeWhile (· ≠ 0)).length < 50 := by
    have hkey : (Col.peerTouXiang, 50) ∈ copied := by decide
    refine (List.takeWhile_sublist _).length_le.trans_lt ?_
    rcases htext : row.getString .peerTouXiang with _ | text
    · exact (by decide : 0 < 50)
    · exact h _ hkey text htext
  refine (noCopy_getInt row .updated).obeys.bind fun _ _ _ => ?_
  refine (obeys_copy htouxiang).bind fun _ _ _ => ?_
  refine (noCopy_getInt row .peerId).obeys.bind fun peerId _ _ => ?_
  refine (obeys_getUserFromId_short peerId).bind fun peer _ hpeer => ?_
  refine (obeys_getLastMsg_short nUserId peerId).bind fun last _ hlast => ?_
  refine (obeys_copy hlast).bind fun _ _ _ => ?_
  refine (obeys_copy hpeer.1).bind fun _ _ _ => ?_
  exact (obeys_copy hpeer.2).bind fun _ _ _ => trivial

theorem obeys_getRecentSession_short (nUserId lastTime : ℤ) :
    Obeys copyWatch (CSessionModel.getRecentSession nUserId lastTime) () fun _ _ => True := by
  refine obeys_copy_ask_bind rfl fun conn _ => ?_
  rcases conn with _ | c
  · trivial
  · refine obeys_copy_ask_bind rfl fun res hres => ?_
    refine (obeys_forEach_short (Q := fun _ => True)
      (fun row hrow => obeys_sessionOf_short hrow nUserId) (mem_getD_short hres)).bind
        fun _ _ _ => ?_
    exact obeys_copy_ask_bind rfl fun _ _ => trivial

/-- Every handler leaves room for the NUL, on short rows. -/
theorem obeys_copyWatch (v : Vision) (request : Request) :
    Obeys copyWatch (doEvent v request) () fun _ _ => True := by
  by_cases hcopies : request.copies = false
  · exact (noCopy_doEvent v hcopies).obeys
  · cases request with
    | messageHistory d =>
      refine (noCopy_getUserId _ _).obeys.bind fun _ _ _ => ?_
      refine (noCopy_getUserId _ _).obeys.bind fun _ _ _ => ?_
      refine (noCopy_getRelationId _ _ _).obeys.bind fun n _ _ => ?_
      refine obeys_copy_ask_bind rfl fun now _ => ?_
      refine (obeys_getMessage_short n d.lastupdatetime now).bind fun ms _ _ => ?_
      refine NoCopy.obeys ?_
      split_ifs
      · exact noCopy_ask rfl
      · refine (noCopy_ask rfl).bind fun _ => ?_
        have hloop : NoCopy (forEach (fun m => ask (.write (.message m))) ms) :=
          Only.forEach (fun m => noCopy_ask (o := .write (.message m)) rfl) ms
        exact hloop.bind fun _ => only_ret
    | recentSession classNum account lastupdatetime =>
      refine (noCopy_getUserId _ _).obeys.bind fun n _ _ => ?_
      refine (obeys_getRecentSession_short n lastupdatetime).bind fun ds _ _ => ?_
      refine NoCopy.obeys ?_
      split_ifs
      · exact noCopy_ask rfl
      · refine (noCopy_ask rfl).bind fun _ => ?_
        have hloop : NoCopy (forEach (fun d => do
            ask (.write (.recentSession d))
            ask .read) ds) :=
          Only.forEach (fun d => (noCopy_ask rfl).bind fun _ => noCopy_ask rfl) ds
        exact hloop.bind fun _ => only_ret
    | loginTouXiang d =>
      refine (obeys_getTouXiang_short _ _).bind fun pic _ hpic => ?_
      split_ifs
      · exact (obeys_copy hpic).bind fun _ _ _ => (noCopy_ask rfl).obeys
      · exact (noCopy_ask rfl).obeys
    | getTouXiang d =>
      refine (obeys_getTouXiang_short _ _).bind fun path _ hpath => ?_
      refine (obeys_copy hpath).bind fun _ _ _ => NoCopy.obeys ?_
      split_ifs
      · exact noCopy_ask rfl
      · exact noCopy_ask rfl
    | _ => exact absurd rfl hcopies

end Copying

/-! ## Whole runs -/

/-- In every run of handlers from short tables, under any interleaving, every copy leaves room
for the NUL, as long as every step is modest. -/
theorem copiesFit_of_run {S : Server} {v : Vision} {T : Type} [DecidableEq T] {t₀ : Tables}
    (ht₀ : t₀.Short) {c : Threads.Config Db World T}
    (h : Threads.Run (S.threads (Handles v)) (Modest S) (World.start t₀) c) : CopiesFit c := by
  have hinv := h.inv (M := copyWatch) (m := ()) (I := fun w _ => w.Short) (Q := fun _ => True)
    ?_ ⟨ht₀, by simp [World.start]⟩ trivial (fun _ _ _ hw => hw)
    fun c t o ok hw _ hmodest => hw.serve hmodest
  · intro t size text hnext
    have hobeys := hinv.2 t
    rcases hprog : c.prog t with _ | ⟨o, k⟩ | _
    · simp [hprog, nextOp] at hnext
    · obtain rfl : o = .memcpy size text := by simpa [hprog, nextOp] using hnext
      rw [hprog] at hobeys
      exact hobeys.1
    · simp [hprog, nextOp] at hnext
  · rintro _ ⟨request, rfl⟩
    exact obeys_copyWatch v request

/-! ## Two messages -/

/-- A vision that nothing here uses. -/
def noVision : Vision :=
  ⟨fun _ => 1, id, fun _ _ => 0⟩

/-- One client starts a request and takes `n` steps. -/
def asking (request : Request) (n : ℕ) : List (Threads.Move Db Unit Bool) :=
  .launch () (doEvent noVision request) :: List.replicate n (.step () true)

theorem handles_asking {request : Request} {n : ℕ} {t : Unit} {p : Proc Unit}
    (h : Threads.Move.launch t p ∈ asking request n) : Handles noVision p := by
  simp only [asking, List.mem_cons, List.mem_replicate, reduceCtorEq, and_false, or_false,
    Threads.Move.launch.injEq] at h
  exact ⟨request, h.2⟩

/-- `ann` writes `content` to `ben`. -/
def annWrites (content : Bytes) : Request :=
  .messageSend (sendRequest (pupil "ann") (pupil "ben") content 5)

/-- A message is sent and shown in a history, up to the copy of its text. -/
def shownHistory : Threads.Config Db World Unit :=
  Threads.play (S := (Server.stopped .binary 5).threads (Handles noVision))
    (Modest (.stopped .binary 5)) (asking (annWrites (ascii "hi")) 28 ++
      asking (.messageHistory (historyRequest (pupil "ann") (pupil "ben") 0)) 22)
    (.start (World.quiet "ann" "ben"))

/-- A short message is copied with room for the NUL. -/
theorem copiesFit_of_run_shownHistory :
    nextOp (shownHistory.prog ()) = some (.memcpy 4096 (ascii "hi")) ∧ CopiesFit shownHistory := by
  refine ⟨by decide +kernel, copiesFit_of_run (S := .stopped .binary 5) (v := noVision)
    (by decide +kernel) (Threads.Run.start.play fun t p h => ?_)⟩
  exact (List.mem_append.mp h).elim handles_asking handles_asking

section Long

variable {S : Server} {w : World} {i : ℤ}

/-- A session with a peer shows the last message. -/
theorem exists_copy_sessionOf {s : SessionRow}
    (htouxiang : (s.peerTouXiang.takeWhile (· ≠ 0)).length ≤ 50)
    (hquery : (Stmt.getUserFromId s.peerId).text.length < 200) :
    ∃ e ∈ trace (serve S allOk) (CSessionModel.sessionOf i s.cells) w,
      e.1 = .memcpy 1024 (lastText w.tables i s.peerId) := by
  change ∃ e ∈ trace _ (memcpyField 50 (s.peerTouXiang.takeWhile (· ≠ 0)) >>= _) w, _
  rw [memcpyField_of_le htouxiang, bind_assoc, trace_ask_bind]
  simp only [List.mem_cons, exists_eq_or_imp]
  refine Or.inr ((ends_getUserFromId_namesOf hquery).exists_trace ?_)
  rintro _ w₁ ⟨rfl, hsame⟩
  refine (ends_getLastMsg_lastText (i := i) (j := s.peerId)).exists_trace ?_
  rintro ⟨_, _⟩ w₂ ⟨rfl, -⟩
  have htables : w₁.tables = w.tables := hsame.tables
  rw [htables]
  exact ⟨_, List.mem_cons_self, rfl⟩

/-- A request for recent sessions copies the last message of the first session. -/
theorem exists_copy_RescentSessionEvent {u : UserName} {lastTime : ℤ} {s : SessionRow}
    {rest : List SessionRow} (hfit : (Stmt.getUserId u.classnum u.account).text.length < 100)
    (hinert : (Stmt.getUserId u.classnum u.account).Inert)
    (hi : i = idOf S.mysql.toCollation w.tables.users u)
    (hpage : page w.tables i lastTime = s :: rest)
    (htouxiang : (s.peerTouXiang.takeWhile (· ≠ 0)).length ≤ 50)
    (hquery : (Stmt.getUserFromId s.peerId).text.length < 200) :
    ∃ e ∈ trace (serve S allOk) (RescentSessionEvent u.classnum u.account lastTime) w,
      e.1 = .memcpy 1024 (lastText w.tables i s.peerId) := by
  subst hi
  refine (ends_getUserId_idOf hfit hinert).exists_trace ?_
  rintro _ w₁ ⟨rfl, hsame⟩
  have htables : w₁.tables = w.tables := hsame.tables
  have hexec := exec_getRecentSession S.mysql w₁.acquire.tables
    (idOf S.mysql.toCollation w.tables.users u) lastTime
  rw [trace_bind]
  simp only [List.mem_append, or_and_right, exists_or]
  left
  rw [CSessionModel.getRecentSession, trace_ask_bind]
  simp only [List.mem_cons, exists_eq_or_imp]
  right
  change ∃ e ∈ trace (serve S allOk) (ask (.executeQuery w₁.conns _) >>= _) w₁.acquire, _
  refine (ends_executeQuery w₁.txn_acquire hexec).exists_trace ?_
  rintro _ w₂ ⟨rfl, hsame₂, -⟩
  have htables₂ : w₂.tables = w.tables := hsame₂.tables.trans htables
  rw [acquire_tables, htables, hpage, Option.getD_some, List.map_cons, forEach, bind_assoc,
    trace_bind]
  simp only [List.mem_append, or_and_right, exists_or]
  left
  rw [← htables₂]
  exact exists_copy_sessionOf htouxiang hquery

/-- Where the last message of the first session fills its field, a request for recent sessions
copies it with no room for the NUL. -/
theorem exists_not_copiesFit {v : Vision} {T : Type} [DecidableEq T] {w₀ : World}
    {c : Threads.Config Db World T} {t : T}
    (h : Threads.Run (S.threads (Handles v)) (fun _ _ _ _ => True) w₀ c)
    (hidle : c.prog t = .ret ()) {u : UserName} {lastTime : ℤ} {s : SessionRow}
    {rest : List SessionRow} (hfit : (Stmt.getUserId u.classnum u.account).text.length < 100)
    (hinert : (Stmt.getUserId u.classnum u.account).Inert)
    (hi : i = idOf S.mysql.toCollation c.shared.tables.users u)
    (hpage : page c.shared.tables i lastTime = s :: rest)
    (htouxiang : (s.peerTouXiang.takeWhile (· ≠ 0)).length ≤ 50)
    (hquery : (Stmt.getUserFromId s.peerId).text.length < 200)
    (hlong : 1024 ≤ (lastText c.shared.tables i s.peerId).length) :
    ∃ c' : Threads.Config Db World T,
      Threads.Run (S.threads (Handles v)) (fun _ _ _ _ => True) w₀ c' ∧ ¬CopiesFit c' := by
  obtain ⟨⟨_, r⟩, he, rfl⟩ :=
    exists_copy_RescentSessionEvent hfit hinert hi hpage htouxiang hquery
  have hlaunch := h.launch hidle
    (⟨.recentSession u.classnum u.account lastTime, rfl⟩ : Handles v _)
  obtain ⟨c', k, hc', hcall⟩ := hlaunch.exists_of_mem_trace true (fun _ _ => trivial)
    (Function.update_self ..) he
  refine ⟨c', hc', fun hcopies => ?_⟩
  have hlt := hcopies t 1024 _ (by rw [hcall, nextOp])
  omega

end Long

/-- As many bytes as the field of a last message has. -/
def longText : Bytes :=
  List.replicate 1024 97

/-- `ann` opens a session with `ben` and writes a long message. -/
def longSent : Threads.Config Db World Unit :=
  Threads.play (S := (Server.stopped .binary 5).threads (Handles noVision)) (fun _ _ _ _ => True)
    (asking (.messageCreate ⟨ascii "1", ascii "1", ascii "ann", ascii "ben", ascii "a"⟩) 20 ++
      asking (annWrites longText) 28)
    (.start (World.quiet "ann" "ben"))

theorem tables_longSent : longSent.shared.tables =
    { Tables.empty with
      users := pupils "ann" "ben"
      relations := [⟨1, 1, 2, 0, 5, 5⟩], nextRelation := 2
      messages := [⟨1, 1, 1, 2, 0, longText, 1, 1, 5, 5⟩], nextMessage := 2
      sessions := [⟨1, 1, 2, 0, 0, 5, 5, ascii "a"⟩], nextSession := 2 } := by
  decide +kernel

/-- The program has returned. -/
def returned : Proc Unit → Bool
  | .ret _ => true
  | _ => false

theorem eq_ret_of_returned : ∀ {p : Proc Unit}, returned p = true → p = .ret ()
  | .ret (), _ => rfl

/-- The last message of `ann` fills its field, with no room for the NUL. -/
theorem not_copiesFit_longText :
    ∃ c : Threads.Config Db World Unit,
      Threads.Run ((Server.stopped .binary 5).threads (Handles noVision)) (fun _ _ _ _ => True)
        (World.quiet "ann" "ben") c ∧ ¬CopiesFit c := by
  have hrun : Threads.Run ((Server.stopped .binary 5).threads (Handles noVision))
      (fun _ _ _ _ => True) (World.quiet "ann" "ben") longSent :=
    Threads.Run.start.play fun t p h =>
      (List.mem_append.mp h).elim handles_asking handles_asking
  have hidle := eq_ret_of_returned (by decide +kernel : returned (longSent.prog ()) = true)
  have hi : 1 = idOf Collation.binary longSent.shared.tables.users (pupil "ann") := by
    rw [tables_longSent]
    decide +kernel
  have hpage : page longSent.shared.tables 1 6 = [⟨1, 1, 2, 0, 0, 5, 5, ascii "a"⟩] := by
    rw [tables_longSent]
    simp [page]
  have hlong : 1024 ≤ (lastText longSent.shared.tables 1 2).length := by
    have htext : (longText.takeWhile (· ≠ 0)).length = 1024 := by decide +kernel
    rw [tables_longSent]
    simpa [lastText, relationOf, lastMessages] using htext.ge
  exact exists_not_copiesFit hrun hidle (by decide +kernel) (by decide +kernel) hi hpage
    (by decide +kernel) (by decide +kernel) hlong

end WzxServer
