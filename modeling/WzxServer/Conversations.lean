import WzxServer.Chat
import Mathlib.Data.Fintype.Defs

/-!
# One conversation for each pair, under any interleaving

`getRelationId` looks a pair up and, when it finds nothing, lets `addRelation` look again and
insert. Between this second look and the insertion an other handler may do the same, and a
failed look counts as an empty one.

`searchMonitor` notes how far a handler is. By `oneConversation_of_run` each pair of users has
one row, which all its messages carry, in every run in which no two handlers are between
look and insertion for one pair, no look fails that would find a row, and a message is stored
only when its row was found or made.

The invariant ties the tables and what the handlers know (`Conversing`) : the tables are `Settled`,
a row that a handler knows is there, and a pair for which a handler is about to insert has no
row. A step of a thread changes its own knowledge and maybe a table, so what it has to show is
small (`Conversing.Moves`). There is one lemma for looks, one for insertions and one for messages;
all other operations are covered by two more, since they do not touch these tables.

That the handlers keep to the monitor is a fact about their programs and is proved before, without
any table.
-/

namespace WzxServer

open Prog Proc World

/-- A `select` changes no table, whatever is put between its quotes. -/
def Server.ReadsOnly (S : Server) : Prop :=
  ∀ classnum account t, (S.mysql.exec (.getUserId classnum account) t).tables = t

/-! ## The property -/

/-- A request for the relation of `i` and `j` gives `id` and changes nothing. -/
def Leads (S : Server) (w : World) (i j id : ℤ) : Prop :=
  ∀ bAdd, Ends (serve S allOk) (CRelationModel.getRelationId i j bAdd) w fun n w' =>
    n = id ∧ w'.tables = w.tables

/-- Each unordered pair has at most one row, and every message carries what requests for its
pair give, from either side. -/
structure OneConversation (S : Server) (w : World) : Prop where
  /-- No pair has two rows, in either order. -/
  pairs : (w.tables.relations.map fun r => pairOf r.smallId r.bigId).Nodup
  /-- Whoever of the two asks, is given the relation that the message carries. -/
  leads : ∀ m ∈ w.tables.messages,
    Leads S w m.fromId m.toId m.relateId ∧ Leads S w m.toId m.fromId m.relateId

/-! ## What a handler has done -/

/-- How far a handler is with a pair : the connections it was given, the rows it knows, the
pair for which it looked and has not inserted yet, the row it inserted last on a connection,
and whether it has found or made its row. -/
structure Search where
  owned : List Conn
  known : List (ℤ × ℤ × ℤ)
  between : Option (ℤ × ℤ)
  made : Option (Conn × ℤ × ℤ)
  found : Bool

namespace Search

/-- Before the first operation. -/
def start : Search :=
  ⟨[], [], none, none, false⟩

/-- The rows of a pair that a query has given. -/
def learn (n : Search) (small big : ℤ) (rows : List Row) : Search :=
  { n with
    known := rows.filterMap (fun row => match row.get .id with
      | some (.int id) => some (id, small, big)
      | _ => none) ++ n.known
    made := none }

/-- The exchange that follows. -/
def next (n : Search) : (o : Op) → o.Ans → Search
  | .getDBConn _, some c => { n with owned := c :: n.owned }
  | .executeQuery _ (.getRelationId small big), r =>
    { n.learn small big (r.getD []) with found := n.found || !(r.getD []).isEmpty }
  | .executeQuery _ (.addRelationSelect small big), r =>
    { n.learn small big (r.getD []) with
      between := if (r.getD []).isEmpty then some (small, big) else none }
  | .executeQuery _ _, _ => { n with made := none }
  | .executeUpdate _ (.addRelationUpdate _ _), r => { n with made := none, found := n.found || r }
  | .executeUpdate _ _, _ => { n with made := none }
  | .init _ _, false => { n with between := none }
  | .execute c (.addRelationInsert small big _ _), r =>
    { n with
      between := none
      made := if r then some (c, small, big) else none
      found := n.found || r }
  | .execute _ _, _ => { n with made := none }
  | .getInsertId _, id =>
    match n.made with
    | some (_, p) => { n with known := (id, p) :: n.known }
    | none => n
  | _, _ => n

end Search

/-- The queries of handlers of messages. -/
def Stmt.Reads : Stmt → Prop
  | .getUserId _ _ | .getUserFromId _ | .getRelationId _ _ | .addRelationSelect _ _
  | .getSessionId _ _ _ _ | .getMessage _ _ _ _ => True
  | _ => False

/-- A message of `i` and `j` may carry `id`. -/
structure Carries (n : Search) (i j id : ℤ) : Prop where
  /-- The id 0 has no relations. -/
  nobody : i = 0 ∨ j = 0 → id = -1
  /-- Else the id is that of a row which the handler knows, if it found one. -/
  known : i ≠ 0 → j ≠ 0 → n.found = true → (id, pairOf i j) ∈ n.known

/-- What a handler may ask for. -/
def Search.Allowed (n : Search) : Op → Prop
  | .executeQuery c (.addRelationSelect small big) => c ∈ n.owned ∧ small ≤ big
  | .executeQuery c s => c ∈ n.owned ∧ s.Reads
  | .executeUpdate c (.addRelationUpdate _ _) | .executeUpdate c (.updateSession _ _) =>
    c ∈ n.owned
  | .init c _ => c ∈ n.owned
  | .execute c (.addRelationInsert small big status _) =>
    c ∈ n.owned ∧ n.between = some (small, big) ∧ small ≤ big ∧ status = 0
  | .execute c (.inserMessage relateId fromId toId _ _ _ _) =>
    c ∈ n.owned ∧ Carries n fromId toId relateId
  | .getInsertId c => ∀ c' p, n.made = some (c', p) → c' = c
  | .executeUpdate _ _ | .execute _ _ | .startTransaction _ | .commit _ | .rollback _ => False
  | _ => True

/-- The rows of a relation have ids. -/
def Search.Admits : (o : Op) → o.Ans → Prop
  | .executeQuery _ (.getRelationId _ _), r | .executeQuery _ (.addRelationSelect _ _), r =>
    ∃ ids : List ℤ, r.getD [] = ids.map idRow ∧ ∀ id ∈ ids, id ≠ -1
  | _, _ => True

/-- The handlers of messages, as far as they work on relations. -/
def searchMonitor : Monitor Db where
  State := Search
  allowed := Search.Allowed
  admits _ := Search.Admits
  next := Search.next

/-! ## The condition -/

/-- The handlers of `MESSAGE_SEND` and `MESSAGE_HISTORY`. -/
def TalksTo (p : Proc Unit) : Prop :=
  (∃ d, p = MessageSendEvent d) ∨ ∃ d, p = MessageHistoryEvent d

variable {T : Type}

/-- What each thread has done. -/
abbrev searches (c : Threads.Config Db World T) (t : T) : Search :=
  c.notes searchMonitor .start t

/-- The pair for which `addRelation` looks. -/
def Op.looksFor : Op → Option (ℤ × ℤ)
  | .executeQuery _ (.addRelationSelect small big) => some (small, big)
  | _ => none

/-- The users whose message is stored. -/
def Op.storesFor : Op → Option (ℤ × ℤ)
  | .execute _ (.inserMessage _ fromId toId _ _ _ _) => some (fromId, toId)
  | _ => none

/-- The condition on a step. A look for a row of a pair does not fail when there is one, and
when there is none no other handler is between its look and its insertion for this pair. A
message is stored when its users are unknown, or its row was found or made. -/
def Prudent (c : Threads.Config Db World T) (t : T) (o : Op) (ok : Bool) : Prop :=
  (∀ p ∈ o.looksFor, if p ∈ c.shared.tables.relations.map RelationRow.pair then ok = true
    else ∀ t' ≠ t, (searches c t').between ≠ some p) ∧
  ∀ p ∈ o.storesFor, ok = true → p.1 = 0 ∨ p.2 = 0 ∨ (searches c t).found = true

instance [DecidableEq T] [Fintype T] (c : Threads.Config Db World T) (t : T) (o : Op) (ok : Bool) :
    Decidable (Prudent c t o ok) :=
  inferInstanceAs (Decidable (_ ∧ _))

/-! ## The programs -/

/-- The two states of a search differ in connections only. -/
structure Search.Quietly (n n' : Search) : Prop where
  owned : n.owned ⊆ n'.owned
  known : n'.known = n.known
  between : n'.between = n.between
  found : n'.found = n.found

namespace Search.Quietly

variable {n n' n'' : Search}

theorem refl (n : Search) : n.Quietly n :=
  ⟨fun _ h => h, rfl, rfl, rfl⟩

theorem trans (h : n.Quietly n') (h' : n'.Quietly n'') : n.Quietly n'' :=
  ⟨fun _ hc => h'.owned (h.owned hc), h'.known.trans h.known, h'.between.trans h.between,
    h'.found.trans h.found⟩

theorem carries (h : n.Quietly n') {i j id : ℤ} (hn : Carries n i j id) : Carries n' i j id :=
  ⟨hn.nobody, fun hi hj hfound => h.known ▸ hn.known hi hj (h.found ▸ hfound)⟩

end Search.Quietly

/-- A program that works on the connections `cs` and on new ones, and not on relations. -/
def Quiet {α : Type} (cs : List Conn) (p : Proc α) : Prop :=
  ∀ n : Search, cs ⊆ n.owned → Obeys searchMonitor p n fun _ n' => n.Quietly n'

section Quiet

variable {α β : Type} {cs : List Conn} {c : Conn}

theorem quiet_ret (a : α) : Quiet cs (ret a) :=
  fun n _ => .refl n

theorem quiet_fault {e : Fault} : Quiet cs (fault e : Proc α) :=
  fun _ _ => trivial

theorem Quiet.bind {p : Proc α} {f : α → Proc β} (hp : Quiet cs p) (hf : ∀ a, Quiet cs (f a)) :
    Quiet cs (p >>= f) := by
  intro n hn
  refine (hp n hn).bind fun a n' h => ?_
  exact (hf a n' fun c hc => h.owned (hn hc)).mono fun _ _ h' => h.trans h'

theorem Quiet.forEach {f : α → Proc β} (hf : ∀ a, Quiet cs (f a)) :
    ∀ l : List α, Quiet cs (forEach f l)
  | [] => quiet_ret []
  | a :: l => (hf a).bind fun _ => (Quiet.forEach hf l).bind fun _ => quiet_ret _

/-- An operation that needs no connection of the program. -/
theorem quiet_ask {o : Op} (hallowed : ∀ n : Search, cs ⊆ n.owned → n.Allowed o)
    (hnext : ∀ (n : Search) r, n.Quietly (n.next o r)) : Quiet cs (ask o) :=
  fun n hn => ⟨hallowed n hn, fun r _ => hnext n r⟩

theorem quiet_getDBConn {timeout_ms : ℕ} {f : Option Conn → Proc α} (hnone : Quiet cs (f none))
    (hsome : ∀ c, Quiet (c :: cs) (f (some c))) : Quiet cs (ask (.getDBConn timeout_ms) >>= f) := by
  intro n hn
  refine ⟨trivial, fun r _ => ?_⟩
  rcases r with _ | c
  · exact hnone n hn
  · refine (hsome c _ fun c' hc' => ?_).mono fun _ n' h => ⟨?_, h.known, h.between, h.found⟩
    · rcases List.mem_cons.mp hc' with rfl | hc'
      · exact List.mem_cons_self
      · exact List.mem_cons_of_mem _ (hn hc')
    · exact fun c' hc' => h.owned (List.mem_cons_of_mem _ hc')

theorem quiet_relDBConn : Quiet cs (ask (.relDBConn c)) :=
  quiet_ask (fun _ _ => trivial) fun n _ => .refl n

theorem quiet_time : Quiet cs (ask .time) :=
  quiet_ask (fun _ _ => trivial) fun n _ => .refl n

theorem quiet_write (r : Reply) : Quiet cs (ask (.write r)) :=
  quiet_ask (fun _ _ => trivial) fun n _ => .refl n

/-- The queries that have nothing to do with relations. -/
def Stmt.ReadsOther : Stmt → Prop
  | .getUserId _ _ | .getUserFromId _ | .getSessionId _ _ _ _ | .getMessage _ _ _ _ => True
  | _ => False

theorem quiet_executeQuery {s : Stmt} (hs : s.ReadsOther) (hc : c ∈ cs) :
    Quiet cs (ask (.executeQuery c s)) := by
  refine quiet_ask (fun n hn => ?_) fun n r => ?_
  · cases s <;> first | exact ⟨hn hc, trivial⟩ | cases hs
  · cases s <;> first | exact ⟨fun _ h => h, rfl, rfl, rfl⟩ | cases hs

theorem quiet_updateSession {time id : ℤ} (hc : c ∈ cs) :
    Quiet cs (ask (.executeUpdate c (.updateSession time id))) :=
  quiet_ask (fun _ hn => hn hc) fun _ _ => ⟨fun _ h => h, rfl, rfl, rfl⟩

theorem quiet_sprintf {size : ℕ} {s : Stmt} : Quiet cs (sprintf size s) := by
  rw [sprintf]
  split_ifs
  · exact quiet_ret s
  · exact quiet_fault

theorem quiet_deref (a : Option α) : Quiet cs (deref a) := by
  cases a
  · exact quiet_fault
  · exact quiet_ret _

theorem quiet_getInt (row : Row) (key : Col) : Quiet cs (getInt row key) := by
  unfold getInt
  split
  · exact quiet_ret _
  · exact quiet_fault
  · exact quiet_ret _
  · exact quiet_ret _

theorem quiet_getText (row : Row) (key : Col) : Quiet cs (getText row key) :=
  (quiet_deref _).bind fun _ => quiet_ret _

theorem quiet_memcpyField (size : ℕ) (text : Bytes) : Quiet cs (memcpyField size text) := by
  have hcopy : Quiet cs (ask (.memcpy size text)) :=
    quiet_ask (fun _ _ => trivial) fun n _ => .refl n
  refine hcopy.bind fun _ => ?_
  split_ifs
  · exact quiet_ret _
  · exact quiet_fault

theorem quiet_openQuery {size : ℕ} {s : Stmt} (hs : s.ReadsOther) : Quiet cs (openQuery size s) := by
  unfold openQuery
  refine quiet_getDBConn ?_ fun c => ?_
  · exact quiet_sprintf.bind fun _ => quiet_fault
  · unfold sprintf
    split_ifs
    · exact (quiet_executeQuery hs List.mem_cons_self).bind fun _ => quiet_ret _
    · exact quiet_fault

theorem quiet_getUserId (classnum account : Bytes) :
    Quiet cs (CUserModel.getUserId classnum account) := by
  unfold CUserModel.getUserId
  refine (quiet_openQuery (s := .getUserId classnum account) trivial).bind fun ⟨c, res⟩ => ?_
  have hend : ∀ id : ℤ, Quiet cs (ask (.relDBConn c) >>= fun _ => ret id) := fun id =>
    quiet_relDBConn.bind fun _ => quiet_ret id
  rcases res with _ | _ | ⟨row, rows⟩
  · exact hend _
  · exact hend _
  · exact (quiet_getInt row .id).bind hend

theorem quiet_getUserFromId (userId : ℤ) : Quiet cs (CUserModel.getUserFromId userId) := by
  unfold CUserModel.getUserFromId
  refine (quiet_openQuery (s := .getUserFromId userId) trivial).bind fun ⟨c, res⟩ => ?_
  have hend : ∀ user : UserName, Quiet cs (ask (.relDBConn c) >>= fun _ => ret user) :=
    fun user => quiet_relDBConn.bind fun _ => quiet_ret user
  rcases res with _ | _ | ⟨row, rows⟩
  · exact hend _
  · exact hend _
  · exact (quiet_getText row .classnum).bind fun _ =>
      (quiet_getText row .account).bind fun _ => hend _

theorem quiet_lastId (res : Option (List Row)) : Quiet cs (lastId res) := by
  cases res
  · exact quiet_ret _
  · exact (Quiet.forEach (fun row => quiet_getInt row .id) _).bind fun _ => quiet_ret _

theorem quiet_getSessionId (nUserId nPeerId nType : ℤ) (isAll : Bool) :
    Quiet cs (CSessionModel.getSessionId nUserId nPeerId nType isAll) := by
  unfold CSessionModel.getSessionId
  refine quiet_getDBConn (quiet_ret _) fun c => ?_
  refine (quiet_executeQuery (s := .getSessionId nUserId nPeerId nType isAll) trivial
    List.mem_cons_self).bind fun res => ?_
  exact (quiet_lastId res).bind fun _ => quiet_relDBConn.bind fun _ => quiet_ret _

theorem quiet_updateSessionOnce (nSessionId nUpdateTime : ℤ) :
    Quiet cs (CSessionModel.updateSession nSessionId nUpdateTime) := by
  unfold CSessionModel.updateSession updateOnce
  refine quiet_getDBConn (quiet_ret _) fun c => ?_
  exact (quiet_updateSession List.mem_cons_self).bind fun _ =>
    quiet_relDBConn.bind fun _ => quiet_ret _

theorem quiet_messageOf (res : Row) : Quiet cs (CMessageModel.messageOf res) := by
  unfold CMessageModel.messageOf
  refine (quiet_getText res .content).bind fun content => ?_
  refine (quiet_getInt res .fromId).bind fun fromId => ?_
  refine (quiet_getUserFromId fromId).bind fun sender => ?_
  refine (quiet_getInt res .toId).bind fun toId => ?_
  refine (quiet_getUserFromId toId).bind fun receiver => ?_
  refine (quiet_memcpyField 20 _).bind fun _ => (quiet_memcpyField 20 _).bind fun _ => ?_
  refine (quiet_memcpyField 20 _).bind fun _ => (quiet_memcpyField 20 _).bind fun _ => ?_
  exact (quiet_memcpyField 4096 content).bind fun _ =>
    (quiet_getInt res .created).bind fun _ => quiet_ret _

theorem quiet_getMessage (relateId lastTime nowTime : ℤ) :
    Quiet cs (CMessageModel.getMessage relateId lastTime nowTime) := by
  unfold CMessageModel.getMessage
  refine quiet_getDBConn (quiet_ret _) fun c => ?_
  unfold sprintf
  split_ifs
  · refine (quiet_executeQuery (s := .getMessage relateId 1 nowTime lastTime) trivial
      List.mem_cons_self).bind fun res => ?_
    exact (Quiet.forEach quiet_messageOf _).bind fun _ => quiet_relDBConn.bind fun _ => quiet_ret _
  · exact quiet_fault

end Quiet

/-- Where a handler may insert the row of a pair, it comes to know it or has not made it. -/
theorem obeys_insertRelation {n : Search} {c : Conn} {small big now : ℤ} (hc : c ∈ n.owned)
    (hbetween : n.between = some (small, big)) (hle : small ≤ big) (hfound : n.found = false) :
    Obeys searchMonitor (insertPrepared c (.addRelationInsert small big 0 now)) n fun id n' =>
      n'.between = none ∧ (n'.found = true → (id, small, big) ∈ n'.known) := by
  refine ⟨hc, fun r _ => ?_⟩
  rcases r with _ | _
  · exact ⟨rfl, fun h => absurd (hfound.symm.trans h) Bool.false_ne_true⟩
  · refine ⟨⟨hc, hbetween, hle, rfl⟩, fun r _ => ?_⟩
    rcases r with _ | _
    · refine ⟨rfl, fun h => ?_⟩
      change (n.found || false) = true at h
      simp [hfound] at h
    · refine ⟨fun c' p hmade => ?_, fun id _ => ⟨rfl, fun _ => List.mem_cons_self⟩⟩
      obtain ⟨rfl, -⟩ := Prod.mk.inj (Option.some.inj hmade)
      rfl

theorem obeys_addRelation {n : Search} {small big : ℤ} (hbetween : n.between = none)
    (hfound : n.found = false) (hle : small ≤ big) :
    Obeys searchMonitor (CRelationModel.addRelation small big) n fun id n' =>
      n'.between = none ∧ (n'.found = true → (id, small, big) ∈ n'.known) := by
  unfold CRelationModel.addRelation
  refine ⟨trivial, fun r _ => ?_⟩
  rcases r with _ | c
  · exact ⟨hbetween, fun h => absurd (hfound.symm.trans h) Bool.false_ne_true⟩
  refine ⟨trivial, fun now _ => ⟨⟨List.mem_cons_self, hle⟩, fun r hr => ?_⟩⟩
  obtain ⟨ids, hrows, -⟩ := hr
  have hinsert : ∀ n' : Search, c ∈ n'.owned → n'.between = some (small, big) →
      n'.found = false → Obeys searchMonitor (do
        let nRelationId ← insertPrepared c (.addRelationInsert small big 0 now)
        ask (.relDBConn c)
        return nRelationId) n' fun id n' =>
          n'.between = none ∧ (n'.found = true → (id, small, big) ∈ n'.known) :=
    fun n' hc hb hf => (obeys_insertRelation hc hb hle hf).bind fun id n'' h =>
      ⟨trivial, fun _ _ => h⟩
  rcases r with _ | _ | ⟨row, rows⟩
  · exact hinsert _ List.mem_cons_self rfl hfound
  · exact hinsert _ List.mem_cons_self rfl hfound
  · rcases ids with _ | ⟨id, ids⟩
    · simp at hrows
    obtain ⟨rfl, -⟩ := List.cons.inj hrows
    simp only [ret_bind]
    refine ⟨List.mem_cons_self, fun r _ => ?_⟩
    rcases r with _ | _
    · refine ⟨trivial, fun _ _ => ⟨rfl, fun h => ?_⟩⟩
      change (n.found || false) = true at h
      simp [hfound] at h
    · exact ⟨trivial, fun _ _ => ⟨rfl, fun _ => List.mem_cons_self⟩⟩

theorem mem_known_learn {n : Search} {small big id : ℤ} {ids : List ℤ} (h : id ∈ ids) :
    (id, small, big) ∈ (n.learn small big (ids.map idRow)).known := by
  refine List.mem_append_left _ (List.mem_filterMap.mpr ⟨idRow id, List.mem_map_of_mem h, ?_⟩)
  rfl

/-- What is done with the rows of a pair. -/
def useRows (i j : ℤ) (bAdd : Bool) (c : Conn) (res : Option (List Row)) : Proc ℤ := do
  let nRelationId ← lastId res
  ask (.relDBConn c)
  if nRelationId = -1 ∧ bAdd = true then CRelationModel.addRelation (min i j) (max i j)
  else ret nRelationId

theorem getRelationId_of_ne {i j : ℤ} (h : ¬(i = 0 ∨ j = 0)) (bAdd : Bool) :
    CRelationModel.getRelationId i j bAdd = ask (.getDBConn 0) >>= fun r => match r with
      | none => ret (-1)
      | some c => ask (.executeQuery c (.getRelationId (min i j) (max i j))) >>= useRows i j bAdd c := by
  rw [CRelationModel.getRelationId, if_neg h]
  dsimp only
  generalize hsmall : (if i > j then j else i) = small
  generalize hbig : (if i > j then i else j) = big
  obtain rfl : small = min i j := by
    rw [← hsmall]
    split_ifs <;> omega
  obtain rfl : big = max i j := by
    rw [← hbig]
    split_ifs <;> omega
  rfl

theorem useRows_nil (i j : ℤ) (c : Conn) {res : Option (List Row)} (h : res.getD [] = []) :
    useRows i j true c res =
      ask (.relDBConn c) >>= fun _ => CRelationModel.addRelation (min i j) (max i j) := by
  rcases res with _ | rows
  · rfl
  · obtain rfl : rows = [] := h
    rfl

/-- The last row counts. -/
theorem useRows_ids {i j : ℤ} {bAdd : Bool} {c : Conn} {ids : List ℤ} (hne : ids ≠ [])
    (hids : ∀ id ∈ ids, id ≠ -1) : useRows i j bAdd c (some (ids.map idRow)) =
      ask (.relDBConn c) >>= fun _ => ret (ids.getLast hne) := by
  have hlast := lastId_idRows (fun id : ℤ => id) ids
  rw [List.map_id', List.getLast?_eq_getLast_of_ne_nil hne, Option.getD_some] at hlast
  have hid : ¬(ids.getLast hne = -1 ∧ bAdd = true) := fun h =>
    hids _ (List.getLast_mem hne) h.1
  unfold useRows
  rw [hlast]
  simp only [ret_bind, if_neg hid]

/-- The relation of two users, for a handler that has not looked for it yet. -/
theorem obeys_getRelationId {n : Search} (hbetween : n.between = none) (hfound : n.found = false)
    (i j : ℤ) : Obeys searchMonitor (CRelationModel.getRelationId i j true) n fun id n' =>
      n'.between = none ∧ Carries n' i j id := by
  by_cases hzero : i = 0 ∨ j = 0
  · rw [CRelationModel.getRelationId, if_pos hzero]
    exact ⟨hbetween, fun _ => rfl, fun hi hj => absurd hzero (not_or.mpr ⟨hi, hj⟩)⟩
  have hnobody : ∀ id : ℤ, i = 0 ∨ j = 0 → id = -1 := fun id h => absurd h hzero
  rw [getRelationId_of_ne hzero]
  refine ⟨trivial, fun r _ => ?_⟩
  rcases r with _ | c
  · exact ⟨hbetween, hnobody _, fun _ _ h => absurd (hfound.symm.trans h) Bool.false_ne_true⟩
  refine ⟨⟨List.mem_cons_self, trivial⟩, fun r hr => ?_⟩
  obtain ⟨ids, hrows, hids⟩ := hr
  have hadd : ∀ m : Search, m.between = none → m.found = false → Obeys searchMonitor
      (CRelationModel.addRelation (min i j) (max i j)) m fun id m' =>
        m'.between = none ∧ Carries m' i j id := fun m hb hf =>
    (obeys_addRelation hb hf min_le_max).mono fun id m' h => ⟨h.1, hnobody _, fun _ _ => h.2⟩
  by_cases hne : ids = []
  · subst hne
    change Obeys searchMonitor (useRows i j true c r) _ _
    rw [useRows_nil i j c hrows]
    refine ⟨trivial, fun _ _ => hadd _ hbetween ?_⟩
    change (n.found || !(r.getD []).isEmpty) = false
    rw [hfound, hrows]
    rfl
  · obtain ⟨rows, rfl⟩ : ∃ rows, r = some rows := by
      rcases r with _ | rows
      · exact absurd (List.map_eq_nil_iff.mp hrows.symm) hne
      · exact ⟨rows, rfl⟩
    obtain rfl : rows = ids.map idRow := hrows
    change Obeys searchMonitor (useRows i j true c _) _ _
    rw [useRows_ids hne hids]
    refine ⟨trivial, fun _ _ => ⟨hbetween, hnobody _, fun _ _ _ => ?_⟩⟩
    exact mem_known_learn (List.getLast_mem hne)

/-! ## The handlers -/

theorem obeys_inserMessage {n : Search} {relateId fromId toId : ℤ} (content : Bytes)
    (type status : ℤ) (h : Carries n fromId toId relateId) :
    Obeys searchMonitor (CMessageModel.inserMessage relateId fromId toId content type status) n
      fun _ _ => True := by
  unfold CMessageModel.inserMessage
  refine ⟨trivial, fun r _ => ?_⟩
  rcases r with _ | c
  · trivial
  refine ⟨List.mem_cons_self, fun r _ => ?_⟩
  rcases r with _ | _
  · exact ⟨trivial, fun _ _ => trivial⟩
  refine ⟨trivial, fun now _ => ⟨⟨List.mem_cons_self, h.nobody, h.known⟩, fun r _ => ?_⟩⟩
  rcases r with _ | _
  · exact ⟨trivial, fun _ _ => trivial⟩
  · exact ⟨nofun, fun _ _ => ⟨trivial, fun _ _ => trivial⟩⟩

theorem obeys_talksTo {p : Proc Unit} (h : TalksTo p) :
    Obeys searchMonitor p Search.start fun _ _ => True := by
  rcases h with ⟨d, rfl⟩ | ⟨d, rfl⟩
  · unfold MessageSendEvent
    refine (quiet_getUserId d.fromClassNum d.fromAccount _ (List.nil_subset _)).bind
      fun fromId n₁ h₁ => ?_
    refine (quiet_getUserId d.toClassNum d.toAccount _ (List.nil_subset _)).bind
      fun toId n₂ h₂ => ?_
    have hstart := h₁.trans h₂
    refine (obeys_getRelationId hstart.between hstart.found fromId toId).bind
      fun relationId n₃ h₃ => ?_
    refine (quiet_getSessionId fromId toId 0 false _ (List.nil_subset _)).bind
      fun sessionId n₄ h₄ => ?_
    refine (quiet_updateSessionOnce sessionId d.updatetime _ (List.nil_subset _)).bind
      fun _ n₅ h₅ => ?_
    refine (obeys_inserMessage d.messageContent 1 1 ?_).bind fun _ _ _ => trivial
    exact h₅.carries (h₄.carries h₃.2)
  · unfold MessageHistoryEvent
    refine (quiet_getUserId d.fromClassNum d.fromAccount _ (List.nil_subset _)).bind
      fun fromId n₁ h₁ => ?_
    refine (quiet_getUserId d.toClassNum d.toAccount _ (List.nil_subset _)).bind
      fun toId n₂ h₂ => ?_
    have hstart := h₁.trans h₂
    refine (obeys_getRelationId hstart.between hstart.found fromId toId).bind
      fun relationId n₃ h₃ => ?_
    refine (quiet_time _ (List.nil_subset _)).bind fun nowTime n₄ h₄ => ?_
    refine (quiet_getMessage relationId d.lastupdatetime nowTime _ (List.nil_subset _)).bind
      fun messageList n₅ h₅ => ?_
    have hanswer : Quiet [] (if messageList.length = 0 then
        ask (.write (.historyCount 0 .messageHistoryFailed))
      else do
        ask (.write (.historyCount messageList.length .messageHistorySuccess))
        let _ ← forEach (fun m => ask (.write (.message m))) messageList) := by
      split_ifs
      · exact quiet_write _
      · exact (quiet_write _).bind fun _ =>
          (Quiet.forEach (fun m => quiet_write (.message m)) messageList).bind fun _ => quiet_ret _
    exact (hanswer n₅ (List.nil_subset _)).mono fun _ _ _ => trivial

/-! ## The invariant -/

/-- The table has the row of an id and a pair. -/
def HasRow (t : Tables) (x : ℤ × ℤ × ℤ) : Prop :=
  ∃ r ∈ t.relations, r.id = x.1 ∧ r.pair = x.2

/-- Each pair has at most one row, with its smaller id first, and every message of users that
are known carries it. -/
structure Settled (t : Tables) : Prop where
  relations : Relations t
  /-- A row is under its smaller id, which is where requests look. -/
  ordered : ∀ r ∈ t.relations, r.smallId ≤ r.bigId
  /-- Messages of nobody carry -1. -/
  nobody : ∀ m ∈ t.messages, m.fromId = 0 ∨ m.toId = 0 → m.relateId = -1
  /-- Other messages carry the id of the row of their pair. -/
  carried : ∀ m ∈ t.messages, m.fromId ≠ 0 → m.toId ≠ 0 →
    HasRow t (m.relateId, pairOf m.fromId m.toId)

/-- What ties the tables and the handlers. -/
structure Conversing (w : World) (n : T → Search) : Prop where
  /-- These handlers have no transactions. -/
  txn : ∀ c, w.txn c = none
  settled : Settled w.tables
  /-- The connections were given out before. -/
  owned_lt : ∀ t, ∀ c ∈ (n t).owned, c < w.conns
  /-- No connection is with two threads. -/
  apart : ∀ t t' c, c ∈ (n t).owned → c ∈ (n t').owned → t = t'
  /-- What a handler knows of rows is still true. -/
  known : ∀ t, ∀ x ∈ (n t).known, HasRow w.tables x
  /-- The last insertion on a connection is the row that its handler made. -/
  made : ∀ t c p, (n t).made = some (c, p) →
    c ∈ (n t).owned ∧ HasRow w.tables (w.lastInsert c, p)
  /-- Where a handler is about to insert, there is no row. -/
  between : ∀ t p, (n t).between = some p → p ∉ w.tables.relations.map RelationRow.pair
  /-- And no other is about to. -/
  alone : ∀ t t' p, (n t).between = some p → (n t').between = some p → t = t'

/-- What a step of the thread `t` must show, which leaves it in the search `x`. -/
structure Conversing.Moves (w : World) (n : T → Search) (t : T) (w' : World) (x : Search) :
    Prop where
  txn : ∀ c, w'.txn c = none
  settled : Settled w'.tables
  rows : ∀ y, HasRow w.tables y → HasRow w'.tables y
  conns : w.conns ≤ w'.conns
  owned : ∀ c ∈ x.owned, c ∈ (n t).owned ∨ w.conns ≤ c ∧ c < w'.conns
  known : ∀ y ∈ x.known, HasRow w'.tables y
  made : ∀ c p, x.made = some (c, p) → c ∈ x.owned ∧ HasRow w'.tables (w'.lastInsert c, p)
  between : ∀ p, x.between = some p → p ∉ w'.tables.relations.map RelationRow.pair ∧
    ∀ t' ≠ t, (n t').between ≠ some p
  others : ∀ t' ≠ t, ∀ p, (n t').between = some p →
    p ∉ w'.tables.relations.map RelationRow.pair
  lastInsert : ∀ t' ≠ t, ∀ c ∈ (n t').owned, w'.lastInsert c = w.lastInsert c

theorem Conversing.update [DecidableEq T] {w w' : World} {n : T → Search} {t : T} {x : Search}
    (h : Conversing w n) (hx : Conversing.Moves w n t w' x) :
    Conversing w' (Function.update n t x) := by
  have hself : Function.update n t x t = x := Function.update_self ..
  have hother : ∀ t' ≠ t, Function.update n t x t' = n t' := fun t' hne =>
    Function.update_of_ne hne ..
  have hsplit : ∀ {P : T → Search → Prop}, P t x → (∀ t' ≠ t, P t' (n t')) →
      ∀ t', P t' (Function.update n t x t') := by
    intro P hP hrest t'
    rcases eq_or_ne t' t with rfl | hne
    · rwa [hself]
    · rw [hother t' hne]
      exact hrest t' hne
  -- A connection of `x` that an other thread has would be new and old at once.
  have hforeign : ∀ t' ≠ t, ∀ c ∈ (n t').owned, c ∉ x.owned := by
    intro t' hne c hc hx'
    rcases hx.owned c hx' with hown | ⟨hge, -⟩
    · exact hne (h.apart t' t c hc hown)
    · exact absurd (h.owned_lt t' c hc) (not_lt.mpr hge)
  refine ⟨hx.txn, hx.settled, ?_, ?_, ?_, ?_, ?_, ?_⟩
  · refine hsplit (P := fun _ y => ∀ c ∈ y.owned, c < w'.conns) (fun c hc => ?_)
      fun t' _ c hc => (h.owned_lt t' c hc).trans_le hx.conns
    rcases hx.owned c hc with hown | ⟨-, hlt⟩
    · exact (h.owned_lt t c hown).trans_le hx.conns
    · exact hlt
  · intro t₁ t₂ c h₁ h₂
    rcases eq_or_ne t₁ t with e₁ | hne₁ <;> rcases eq_or_ne t₂ t with e₂ | hne₂
    · rw [e₁, e₂]
    · rw [e₁, hself] at h₁
      rw [hother t₂ hne₂] at h₂
      exact absurd h₁ (hforeign t₂ hne₂ c h₂)
    · rw [e₂, hself] at h₂
      rw [hother t₁ hne₁] at h₁
      exact absurd h₂ (hforeign t₁ hne₁ c h₁)
    · rw [hother t₁ hne₁] at h₁
      rw [hother t₂ hne₂] at h₂
      exact h.apart t₁ t₂ c h₁ h₂
  · exact hsplit (P := fun _ y => ∀ z ∈ y.known, HasRow w'.tables z) hx.known
      fun t' _ z hz => hx.rows z (h.known t' z hz)
  · refine hsplit (P := fun _ y => ∀ c p, y.made = some (c, p) →
      c ∈ y.owned ∧ HasRow w'.tables (w'.lastInsert c, p)) hx.made fun t' hne c p hmade => ?_
    obtain ⟨hc, hrow⟩ := h.made t' c p hmade
    rw [hx.lastInsert t' hne c hc]
    exact ⟨hc, hx.rows _ hrow⟩
  · exact hsplit (P := fun _ y => ∀ p, y.between = some p →
      p ∉ w'.tables.relations.map RelationRow.pair) (fun p hp => (hx.between p hp).1) hx.others
  · intro t₁ t₂ p h₁ h₂
    rcases eq_or_ne t₁ t with e₁ | hne₁ <;> rcases eq_or_ne t₂ t with e₂ | hne₂
    · rw [e₁, e₂]
    · rw [e₁, hself] at h₁
      rw [hother t₂ hne₂] at h₂
      exact absurd h₂ ((hx.between p h₁).2 t₂ hne₂)
    · rw [e₂, hself] at h₂
      rw [hother t₁ hne₁] at h₁
      exact absurd h₁ ((hx.between p h₂).2 t₁ hne₁)
    · rw [hother t₁ hne₁] at h₁
      rw [hother t₂ hne₂] at h₂
      exact h.alone t₁ t₂ p h₁ h₂

/-! ## One step -/

section Step

variable {S : Server} {w w' : World} {n : T → Search} {t : T} {x : Search}

theorem HasRow.congr {t t' : Tables} (h : t'.relations = t.relations) {y : ℤ × ℤ × ℤ} :
    HasRow t' y ↔ HasRow t y := by
  rw [HasRow, HasRow, h]

theorem Settled.congr {t t' : Tables} (h : Settled t) (hrelations : t'.relations = t.relations)
    (hnext : t'.nextRelation = t.nextRelation) (hmessages : t'.messages = t.messages) :
    Settled t' := by
  obtain ⟨⟨hstatus, hids, hpairs, hpos, hlt⟩, hordered, hnobody, hcarried⟩ := h
  refine ⟨⟨?_, ?_, ?_, ?_, ?_⟩, ?_, ?_, ?_⟩
  · rwa [hrelations]
  · rwa [hrelations]
  · rwa [hrelations]
  · rwa [hnext]
  · rwa [hrelations, hnext]
  · rwa [hrelations]
  · rwa [hmessages]
  · rw [hmessages]
    exact fun m hm hfrom hto => (HasRow.congr hrelations).mpr (hcarried m hm hfrom hto)

/-- A step that leaves the relations and the messages as they are. -/
theorem Conversing.moves_of_same (h : Conversing w n)
    (hrelations : w'.tables.relations = w.tables.relations)
    (hnext : w'.tables.nextRelation = w.tables.nextRelation)
    (hmessages : w'.tables.messages = w.tables.messages) (htxn : ∀ c, w'.txn c = none)
    (hconns : w.conns ≤ w'.conns)
    (hlast : ∀ c, c ∉ (n t).owned → w'.lastInsert c = w.lastInsert c)
    (howned : ∀ c ∈ x.owned, c ∈ (n t).owned ∨ w.conns ≤ c ∧ c < w'.conns)
    (hknown : ∀ y ∈ x.known, y ∈ (n t).known ∨ HasRow w.tables y)
    (hmade : x.made = none ∨ x.made = (n t).made ∧ (n t).owned ⊆ x.owned ∧
      w'.lastInsert = w.lastInsert)
    (hbetween : ∀ p, x.between = some p → (n t).between = some p ∨
      p ∉ w.tables.relations.map RelationRow.pair ∧ ∀ t' ≠ t, (n t').between ≠ some p) :
    Conversing.Moves w n t w' x := by
  have hrow : ∀ y, HasRow w'.tables y ↔ HasRow w.tables y := fun y => HasRow.congr hrelations
  refine ⟨htxn, h.settled.congr hrelations hnext hmessages, fun y => (hrow y).mpr, hconns, howned,
    fun y hy => ?_, fun c p hp => ?_, fun p hp => ?_, fun t' _ p hp => ?_,
    fun t' hne c hc => ?_⟩
  · rw [hrow]
    exact (hknown y hy).elim (h.known t y) id
  · rcases hmade with hnone | ⟨hsame, hsub, hlast'⟩
    · rw [hnone] at hp
      cases hp
    · obtain ⟨hc, hr⟩ := h.made t c p (hsame ▸ hp)
      rw [hrow, hlast']
      exact ⟨hsub hc, hr⟩
  · rw [hrelations]
    rcases hbetween p hp with hold | hnew
    · exact ⟨h.between t p hold, fun t' hne hp' => hne (h.alone t' t p hp' hold)⟩
    · exact hnew
  · rw [hrelations]
    exact h.between t' p hp
  · exact hlast c fun hc' => hne (h.apart t' t c hc hc')

/-- A step that is not about tables at all. -/
theorem Conversing.moves_of_tables (h : Conversing w n) (htables : w'.tables = w.tables)
    (htxn : w'.txn = w.txn) (hconns : w'.conns = w.conns) (hlast : w'.lastInsert = w.lastInsert) :
    Conversing.Moves w n t w' (n t) := by
  refine h.moves_of_same (by rw [htables]) (by rw [htables]) (by rw [htables]) ?_ hconns.ge
    (fun _ _ => by rw [hlast]) (fun _ hc => Or.inl hc) (fun _ hy => Or.inl hy)
    (Or.inr ⟨rfl, fun _ hc => hc, hlast⟩) fun _ hp => Or.inl hp
  rw [htxn]
  exact h.txn

theorem Conversing.moves_acquire (h : Conversing w n) : Conversing.Moves w n t w.acquire
    { n t with owned := w.conns :: (n t).owned } := by
  refine h.moves_of_same rfl rfl rfl (fun c => ?_) (Nat.le_succ _) (fun _ _ => rfl)
    (fun c hc => ?_) (fun _ hy => Or.inl hy)
    (Or.inr ⟨rfl, fun _ hc => List.mem_cons_of_mem _ hc, rfl⟩) fun _ hp => Or.inl hp
  · change Function.update w.txn w.conns none c = none
    rw [Function.update_apply]
    split_ifs
    · rfl
    · exact h.txn c
  · rcases List.mem_cons.mp hc with rfl | hc
    · exact Or.inr ⟨le_rfl, Nat.lt_succ_self _⟩
    · exact Or.inl hc

/-- A query on a connection of the thread. -/
theorem Conversing.moves_select (h : Conversing w n) {c : Conn} (hc : c ∈ (n t).owned) {s : Stmt}
    (hs : (S.mysql.exec s w.tables).tables = w.tables) (hmade : x.made = none)
    (howned : x.owned = (n t).owned)
    (hknown : ∀ y ∈ x.known, y ∈ (n t).known ∨ HasRow w.tables y)
    (hbetween : ∀ p, x.between = some p → (n t).between = some p ∨
      p ∉ w.tables.relations.map RelationRow.pair ∧ ∀ t' ≠ t, (n t').between ≠ some p)
    (ok : Bool) : Conversing.Moves w n t (serve S (fun _ => ok) (.executeQuery c s) w).2 x := by
  have hexec := exec_of_none (M := S.mysql) (h.txn c) s
  have hother : ∀ c', c' ∉ (n t).owned →
      (serve S (fun _ => ok) (.executeQuery c s) w).2.lastInsert c' = w.lastInsert c' := by
    intro c' hc'
    cases ok
    · rfl
    · simp only [serve, if_true, hexec]
      exact Function.update_of_ne (by rintro rfl; exact hc' hc) ..
  have htables : (serve S (fun _ => ok) (.executeQuery c s) w).2.tables = w.tables := by
    cases ok
    · rfl
    · simp only [serve, if_true, hexec, hs]
  have htxn : (serve S (fun _ => ok) (.executeQuery c s) w).2.txn = w.txn ∧
      (serve S (fun _ => ok) (.executeQuery c s) w).2.conns = w.conns := by
    cases ok
    · exact ⟨rfl, rfl⟩
    · simp only [serve, if_true, hexec, and_self]
  refine h.moves_of_same (by rw [htables]) (by rw [htables]) (by rw [htables])
    (by rw [htxn.1]; exact h.txn) htxn.2.ge hother (fun c' hc' => Or.inl (howned ▸ hc'))
    hknown (Or.inl hmade) hbetween

theorem ids_rows (rs : List RelationRow) :
    (rs.map fun r => idRow r.id) = (rs.map RelationRow.id).map idRow := by
  rw [List.map_map]
  rfl

/-- What a look for the rows of a pair gives. -/
theorem Settled.exec_look {t : Tables} (h : Settled t) (small big : ℤ) {s : Stmt}
    (hs : s = .getRelationId small big ∨ s = .addRelationSelect small big) :
    ∃ ids : List ℤ, S.mysql.exec s t = .select t (ids.map idRow) ∧
      (∀ id ∈ ids, id ≠ -1 ∧ HasRow t (id, small, big)) ∧
      (ids = [] → (small, big) ∉ t.relations.map RelationRow.pair) := by
  have hexec : S.mysql.exec s t = .select t
      (((t.relations.filter fun r => r.pair = (small, big)).map RelationRow.id).map idRow) := by
    rw [← ids_rows]
    rcases hs with rfl | rfl
    · rw [MySQL.exec_of_plain rfl]
      refine congrArg (fun rs : List RelationRow =>
        Effect.select t (rs.map fun r => idRow r.id)) ?_
      refine List.filter_congr fun r hr => ?_
      simp [h.relations.status r hr, RelationRow.pair]
    · rw [MySQL.exec_of_plain rfl]
      refine congrArg (fun rs : List RelationRow =>
        Effect.select t (rs.map fun r => idRow r.id)) ?_
      refine List.filter_congr fun r _ => ?_
      simp [RelationRow.pair]
  refine ⟨_, hexec, fun id hid => ?_, fun hnil hmem => ?_⟩
  · obtain ⟨r, hr, rfl⟩ := List.mem_map.mp hid
    rw [List.mem_filter, decide_eq_true_iff] at hr
    have hpos := (h.relations.id_lt r hr.1).1
    exact ⟨by omega, r, hr.1, rfl, hr.2⟩
  · obtain ⟨r, hr, hpair⟩ := List.mem_map.mp hmem
    rw [List.map_eq_nil_iff, List.filter_eq_nil_iff] at hnil
    exact hnil r hr (decide_eq_true hpair)

/-- The rows that a look teaches are there. -/
theorem mem_known_learn_inv {m : Search} {small big : ℤ} {ids : List ℤ} {y : ℤ × ℤ × ℤ}
    (h : y ∈ (m.learn small big (ids.map idRow)).known) :
    y ∈ m.known ∨ ∃ id ∈ ids, y = (id, small, big) := by
  rcases List.mem_append.mp h with h | h
  · obtain ⟨row, hrow, hy⟩ := List.mem_filterMap.mp h
    obtain ⟨id, hid, rfl⟩ := List.mem_map.mp hrow
    exact Or.inr ⟨id, hid, (Option.some.inj hy).symm⟩
  · exact Or.inl h

/-- A statement that changes the tables to `tables`, on a connection of the thread. -/
theorem Conversing.moves_of_settled (h : Conversing w n) {c : Conn} (hc : c ∈ (n t).owned)
    {tables : Tables} {id : ℤ} (hsettled : Settled tables)
    (hrows : ∀ y, HasRow w.tables y → HasRow tables y) (howned : x.owned = (n t).owned)
    (hknown : ∀ y ∈ x.known, y ∈ (n t).known)
    (hmade : ∀ c' p, x.made = some (c', p) → c' = c ∧ HasRow tables (id, p))
    (hbetween : ∀ p, x.between = some p → (n t).between = some p)
    (hpairs : ∀ t', (t' = t → x.between = (n t).between) → ∀ p, (n t').between = some p →
      p ∉ tables.relations.map RelationRow.pair) :
    Conversing.Moves w n t
      { w with tables := tables, lastInsert := Function.update w.lastInsert c id } x := by
  refine ⟨h.txn, hsettled, hrows, le_rfl, fun c' hc' => Or.inl (howned ▸ hc'),
    fun y hy => hrows y (h.known t y (hknown y hy)), fun c' p hp => ?_, fun p hp => ⟨?_, ?_⟩,
    fun t' hne p hp => ?_, fun t' hne c' hc' => ?_⟩
  · obtain ⟨rfl, hrow⟩ := hmade c' p hp
    refine ⟨howned ▸ hc, ?_⟩
    change HasRow tables (Function.update w.lastInsert c' id c', p)
    rwa [Function.update_self]
  · exact hpairs t (fun _ => hp.trans (hbetween p hp).symm) p (hbetween p hp)
  · exact fun t' hne hp' => hne (h.alone t' t p hp' (hbetween p hp))
  · exact hpairs t' (fun heq => absurd heq hne) p hp
  · refine Function.update_of_ne ?_ ..
    rintro rfl
    exact hne (h.apart t' t c' hc' hc)

/-- An update that keeps ids, pairs and statuses keeps everything. -/
theorem HasRow.map {tables : Tables} {f : RelationRow → RelationRow}
    (hid : ∀ r, (f r).id = r.id) (hpair : ∀ r, (f r).pair = r.pair) {y : ℤ × ℤ × ℤ}
    (h : HasRow tables y) : HasRow { tables with relations := tables.relations.map f } y := by
  obtain ⟨r, hr, hy⟩ := h
  exact ⟨f r, List.mem_map_of_mem hr, by rwa [hid, hpair]⟩

theorem map_pair {f : RelationRow → RelationRow} (hpair : ∀ r, (f r).pair = r.pair)
    (rs : List RelationRow) : (rs.map f).map RelationRow.pair = rs.map RelationRow.pair := by
  rw [List.map_map]
  exact List.map_congr_left fun r _ => hpair r

theorem Settled.map {tables : Tables} (h : Settled tables) {f : RelationRow → RelationRow}
    (hid : ∀ r, (f r).id = r.id) (hpair : ∀ r, (f r).pair = r.pair)
    (hstatus : ∀ r, r.status = 0 → (f r).status = 0) :
    Settled { tables with relations := tables.relations.map f } := by
  obtain ⟨⟨hst, hids, hpairs, hpos, hlt⟩, hordered, hnobody, hcarried⟩ := h
  refine ⟨⟨?_, ?_, ?_, hpos, ?_⟩, ?_, hnobody, fun m hm hfrom hto =>
    HasRow.map hid hpair (hcarried m hm hfrom hto)⟩
  · exact List.forall_mem_map.mpr fun r hr => hstatus r (hst r hr)
  · have hids' : (tables.relations.map f).map RelationRow.id =
        tables.relations.map RelationRow.id := by
      rw [List.map_map]
      exact List.map_congr_left fun r _ => hid r
    exact hids' ▸ hids
  · exact map_pair hpair tables.relations ▸ hpairs
  · refine List.forall_mem_map.mpr fun r hr => ?_
    rw [hid]
    exact hlt r hr
  · refine List.forall_mem_map.mpr fun r hr => ?_
    obtain ⟨hsmall, hbig⟩ := Prod.mk.inj (hpair r)
    rw [hsmall, hbig]
    exact hordered r hr

/-- A new row for a pair that has none. -/
theorem Settled.insert {tables : Tables} (h : Settled tables) {small big now : ℤ}
    (hle : small ≤ big) (hnew : (small, big) ∉ tables.relations.map RelationRow.pair) :
    Settled { tables with
      relations := tables.relations ++ [⟨tables.nextRelation, small, big, 0, now, now⟩]
      nextRelation := tables.nextRelation + 1 } := by
  have hpair : pairOf small big = (small, big) := by
    rw [pairOf, min_eq_left hle, max_eq_right hle]
  have hrelate : tables.relate small big now = { tables with
      relations := tables.relations ++ [⟨tables.nextRelation, small, big, 0, now, now⟩]
      nextRelation := tables.nextRelation + 1 } := by
    rw [Tables.relate, if_neg (by rwa [hpair]), newRelation, min_eq_left hle, max_eq_right hle]
  refine ⟨hrelate ▸ h.relations.relate small big now, fun r hr => ?_, h.nobody,
    fun m hm hfrom hto => ?_⟩
  · rcases List.mem_append.mp hr with hr | hr
    · exact h.ordered r hr
    · obtain rfl := List.mem_singleton.mp hr
      exact hle
  · obtain ⟨r, hr, hy⟩ := h.carried m hm hfrom hto
    exact ⟨r, List.mem_append_left _ hr, hy⟩

/-- A new message that carries its row. -/
theorem Settled.say {tables : Tables} (h : Settled tables) {m : MessageRow} {next : ℤ}
    (hnobody : m.fromId = 0 ∨ m.toId = 0 → m.relateId = -1)
    (hrow : m.fromId ≠ 0 → m.toId ≠ 0 → HasRow tables (m.relateId, pairOf m.fromId m.toId)) :
    Settled { tables with messages := tables.messages ++ [m], nextMessage := next } := by
  refine ⟨⟨h.relations.status, h.relations.ids, h.relations.pairs, h.relations.next_pos,
    h.relations.id_lt⟩, h.ordered, fun m' hm' => ?_, fun m' hm' => ?_⟩
  · rcases List.mem_append.mp hm' with hm' | hm'
    · exact h.nobody m' hm'
    · obtain rfl := List.mem_singleton.mp hm'
      exact hnobody
  · rcases List.mem_append.mp hm' with hm' | hm'
    · exact h.carried m' hm'
    · obtain rfl := List.mem_singleton.mp hm'
      exact hrow

/-- What one step must show : the answer is admitted, and the thread may go on. -/
def Steps (S : Server) (w : World) (n : T → Search) (t : T) (o : Op) (ok : Bool) : Prop :=
  Search.Admits o (serve S (fun _ => ok) o w).1 ∧
    Conversing.Moves w n t (serve S (fun _ => ok) o w).2
      ((n t).next o (serve S (fun _ => ok) o w).1)

variable (h : Conversing w n)

include h

theorem Conversing.steps_getDBConn (timeout_ms : ℕ) (ok : Bool) :
    Steps S w n t (.getDBConn timeout_ms) ok := by
  cases ok
  · exact ⟨trivial, h.moves_of_tables rfl rfl rfl rfl⟩
  · exact ⟨trivial, h.moves_acquire⟩

theorem Conversing.steps_readsOther (hreads : S.ReadsOnly) {c : Conn} (hc : c ∈ (n t).owned)
    {s : Stmt} (hs : s.ReadsOther) (ok : Bool) : Steps S w n t (.executeQuery c s) ok := by
  have hselect : (S.mysql.exec s w.tables).tables = w.tables := by
    cases s with
    | getUserId classnum account => exact hreads classnum account w.tables
    | getUserFromId userId => rw [MySQL.exec_of_plain rfl]; rfl
    | getSessionId userId peerId type isAll => rw [MySQL.exec_of_plain rfl]; rfl
    | getMessage relateId type nowTime lastTime => rw [MySQL.exec_of_plain rfl]; rfl
    | _ => exact absurd hs id
  have hadmits : ∀ r, Search.Admits (.executeQuery c s) r := by
    cases s <;> first | exact fun _ => trivial | exact absurd hs id
  have hnext : ∀ r, (n t).next (.executeQuery c s) r = { n t with made := none } := by
    cases s <;> first | exact fun _ => rfl | exact absurd hs id
  refine ⟨hadmits _, ?_⟩
  rw [hnext]
  exact h.moves_select (x := { n t with made := none }) hc hselect rfl rfl
    (fun _ hy => Or.inl hy) (fun _ hp => Or.inl hp) ok

theorem Conversing.serve_look {c : Conn} {s : Stmt} {ids : List ℤ}
    (hexec : S.mysql.exec s w.tables = .select w.tables (ids.map idRow)) :
    (serve S (fun _ => true) (.executeQuery c s) w).1 = some (ids.map idRow) := by
  simp only [serve, if_true, exec_of_none (h.txn c), hexec]
  rfl

theorem Conversing.steps_getRelationId {c : Conn} (hc : c ∈ (n t).owned) (small big : ℤ)
    (ok : Bool) : Steps S w n t (.executeQuery c (.getRelationId small big)) ok := by
  obtain ⟨ids, hexec, hids, -⟩ := h.settled.exec_look (S := S) small big
    (Or.inl rfl)
  have htables := congrArg Effect.tables hexec
  cases ok
  · refine ⟨⟨[], rfl, by simp⟩, ?_⟩
    exact h.moves_select (x := (n t).next (.executeQuery c (.getRelationId small big)) none)
      hc htables rfl rfl (fun y hy => Or.inl hy) (fun _ hp => Or.inl hp) false
  · have hrows := h.serve_look (c := c) hexec
    refine ⟨⟨ids, by rw [hrows]; rfl, fun id hid => (hids id hid).1⟩, ?_⟩
    rw [hrows]
    refine h.moves_select
      (x := (n t).next (.executeQuery c (.getRelationId small big)) (some (ids.map idRow)))
      hc htables rfl rfl (fun y hy => ?_) (fun _ hp => Or.inl hp) true
    rcases mem_known_learn_inv hy with hy | ⟨id, hid, rfl⟩
    · exact Or.inl hy
    · exact Or.inr (hids id hid).2

/-- A look of `addRelation` that gives nothing finds that there is nothing, and no other handler
is where this one is then. -/
theorem Conversing.steps_addRelationSelect {c : Conn} (hc : c ∈ (n t).owned) {small big : ℤ}
    {ok : Bool} (hcond : if (small, big) ∈ w.tables.relations.map RelationRow.pair then ok = true
      else ∀ t' ≠ t, (n t').between ≠ some (small, big)) :
    Steps S w n t (.executeQuery c (.addRelationSelect small big)) ok := by
  obtain ⟨ids, hexec, hids, hnil⟩ := h.settled.exec_look (S := S) small big
    (Or.inr rfl)
  have htables := congrArg Effect.tables hexec
  have hapart : ∀ p, some (small, big) = some p →
      (small, big) ∉ w.tables.relations.map RelationRow.pair →
        p ∉ w.tables.relations.map RelationRow.pair ∧ ∀ t' ≠ t, (n t').between ≠ some p := by
    intro p hp hmem
    obtain rfl := Option.some.inj hp
    rw [if_neg hmem] at hcond
    exact ⟨hmem, hcond⟩
  cases ok
  · refine ⟨⟨[], rfl, by simp⟩, ?_⟩
    refine h.moves_select (x := (n t).next (.executeQuery c (.addRelationSelect small big)) none)
      hc htables rfl rfl (fun y hy => Or.inl hy) (fun p hp => Or.inr (hapart p hp fun hmem => ?_))
      false
    rw [if_pos hmem] at hcond
    exact Bool.false_ne_true hcond
  · have hrows := h.serve_look (c := c) hexec
    refine ⟨⟨ids, by rw [hrows]; rfl, fun id hid => (hids id hid).1⟩, ?_⟩
    rw [hrows]
    refine h.moves_select
      (x := (n t).next (.executeQuery c (.addRelationSelect small big)) (some (ids.map idRow)))
      hc htables rfl rfl (fun y hy => ?_) (fun p hp => ?_) true
    · rcases mem_known_learn_inv hy with hy | ⟨id, hid, rfl⟩
      · exact Or.inl hy
      · exact Or.inr (hids id hid).2
    · rcases ids with _ | ⟨id, ids⟩
      · exact Or.inr (hapart p hp (hnil rfl))
      · cases hp

theorem Conversing.steps_executeUpdate {c : Conn} {s : Stmt}
    (hallowed : (n t).Allowed (.executeUpdate c s)) (ok : Bool) :
    Steps S w n t (.executeUpdate c s) ok := by
  cases s with
  | addRelationUpdate now id =>
    cases ok
    · refine ⟨trivial, h.moves_of_same rfl rfl rfl h.txn le_rfl (fun _ _ => rfl)
        (fun _ hc => Or.inl hc) (fun _ hy => Or.inl hy) (Or.inl rfl) fun _ hp => Or.inl hp⟩
    · have hexec := exec_of_none (M := S.mysql) (h.txn c) (.addRelationUpdate now id)
      rw [MySQL.exec_of_plain rfl] at hexec
      refine ⟨trivial, ?_⟩
      simp only [serve, if_true, hexec]
      have hid : ∀ r : RelationRow,
          (if r.id = id then { r with status := 0, updated := now } else r).id = r.id := by
        intro r
        split_ifs <;> rfl
      have hpair : ∀ r : RelationRow,
          (if r.id = id then { r with status := 0, updated := now } else r).pair = r.pair := by
        intro r
        split_ifs <;> rfl
      refine h.moves_of_settled hallowed (h.settled.map hid hpair fun r hr => ?_)
        (fun y hy => HasRow.map hid hpair hy) rfl (fun _ hy => hy) (fun _ _ hp => by cases hp)
        (fun _ hp => hp) fun t' _ p hp => ?_
      · split_ifs
        · rfl
        · exact hr
      · exact map_pair hpair w.tables.relations ▸ h.between t' p hp
  | updateSession time id =>
    cases ok
    · exact ⟨trivial, h.moves_of_same rfl rfl rfl h.txn le_rfl (fun _ _ => rfl)
        (fun _ hc => Or.inl hc) (fun _ hy => Or.inl hy) (Or.inl rfl) fun _ hp => Or.inl hp⟩
    · have hexec := exec_of_none (M := S.mysql) (h.txn c) (.updateSession time id)
      rw [MySQL.exec_of_plain rfl] at hexec
      refine ⟨trivial, ?_⟩
      simp only [serve, if_true, hexec]
      exact h.moves_of_settled hallowed (h.settled.congr rfl rfl rfl) (fun _ hy => hy) rfl
        (fun _ hy => hy) (fun _ _ hp => by cases hp) (fun _ hp => hp)
        fun t' _ p hp => h.between t' p hp
  | _ => exact absurd hallowed id

theorem Conversing.steps_execute {c : Conn} {s : Stmt}
    (hallowed : (n t).Allowed (.execute c s)) {ok : Bool}
    (hcond : ∀ relateId fromId toId content type status now,
      s = .inserMessage relateId fromId toId content type status now →
        ok = true → fromId = 0 ∨ toId = 0 ∨ (n t).found = true) :
    Steps S w n t (.execute c s) ok := by
  cases s with
  | addRelationInsert small big status now =>
    obtain ⟨hc, hbetween, hle, rfl⟩ := hallowed
    have hnew := h.between t _ hbetween
    cases ok
    · exact ⟨trivial, h.moves_of_same rfl rfl rfl h.txn le_rfl (fun _ _ => rfl)
        (fun _ hc => Or.inl hc) (fun _ hy => Or.inl hy) (Or.inl rfl) fun _ hp => by cases hp⟩
    · have hexec := exec_of_none (M := S.mysql) (h.txn c) (.addRelationInsert small big 0 now)
      rw [MySQL.exec_of_plain rfl] at hexec
      refine ⟨trivial, ?_⟩
      simp only [serve, if_true, hexec]
      refine h.moves_of_settled hc (h.settled.insert hle hnew) (fun y hy => ?_) rfl
        (fun _ hy => hy) (fun c' p hp => ?_) (fun _ hp => by cases hp)
        fun t' ht' p hp => ?_
      · obtain ⟨r, hr, hy⟩ := hy
        exact ⟨r, List.mem_append_left _ hr, hy⟩
      · obtain ⟨rfl, rfl⟩ := Prod.mk.inj (Option.some.inj hp)
        exact ⟨rfl, _, List.mem_append_right _ (List.mem_singleton_self _), rfl, rfl⟩
      · change p ∉ (w.tables.relations ++
          ([⟨w.tables.nextRelation, small, big, 0, now, now⟩] : List RelationRow)).map
            RelationRow.pair
        rw [List.map_append, List.mem_append, not_or]
        refine ⟨h.between t' p hp, fun hmem => ?_⟩
        obtain rfl : p = (small, big) := List.mem_singleton.mp hmem
        have heq := h.alone t' t _ hp hbetween
        cases (ht' heq).trans hbetween
  | inserMessage relateId fromId toId content type status now =>
    obtain ⟨hc, hcarries⟩ := hallowed
    cases ok
    · exact ⟨trivial, h.moves_of_same rfl rfl rfl h.txn le_rfl (fun _ _ => rfl)
        (fun _ hc => Or.inl hc) (fun _ hy => Or.inl hy) (Or.inl rfl) fun _ hp => Or.inl hp⟩
    · have hexec := exec_of_none (M := S.mysql) (h.txn c)
        (.inserMessage relateId fromId toId content type status now)
      rw [MySQL.exec_of_plain rfl] at hexec
      refine ⟨trivial, ?_⟩
      simp only [serve, if_true, hexec]
      refine h.moves_of_settled hc (h.settled.say hcarries.nobody fun hfrom hto => ?_)
        (fun _ hy => hy) rfl (fun _ hy => hy) (fun _ _ hp => by cases hp) (fun _ hp => hp)
        fun t' _ p hp => h.between t' p hp
      have hfound := hcond _ _ _ _ _ _ _ rfl rfl
      exact h.known t _ (hcarries.known hfrom hto ((hfound.resolve_left hfrom).resolve_left hto))
  | _ => exact absurd hallowed id

theorem Conversing.steps_getInsertId {c : Conn} (hallowed : (n t).Allowed (.getInsertId c))
    (ok : Bool) : Steps S w n t (.getInsertId c) ok := by
  refine ⟨trivial, ?_⟩
  change Conversing.Moves w n t w ((n t).next (.getInsertId c) (w.lastInsert c))
  rcases hmade : (n t).made with _ | ⟨c', p⟩
  · have hnext : (n t).next (.getInsertId c) (w.lastInsert c) = n t := by
      simp only [Search.next, hmade]
    rw [hnext]
    exact h.moves_of_tables rfl rfl rfl rfl
  · obtain rfl := hallowed c' p hmade
    have hnext : (n t).next (.getInsertId c') (w.lastInsert c') =
        { n t with known := (w.lastInsert c', p) :: (n t).known } := by
      simp only [Search.next, hmade]
    rw [hnext]
    refine h.moves_of_same rfl rfl rfl h.txn le_rfl (fun _ _ => rfl) (fun _ hc => Or.inl hc)
      (fun y hy => ?_) (Or.inr ⟨rfl, fun _ hc => hc, rfl⟩) fun _ hp => Or.inl hp
    rcases List.mem_cons.mp hy with rfl | hy
    · exact Or.inr (h.made t c' p hmade).2
    · exact Or.inl hy

/-- A step that is allowed and meets the condition. -/
theorem Conversing.steps (hreads : S.ReadsOnly) {o : Op} (hallowed : (n t).Allowed o) {ok : Bool}
    (hlook : ∀ c small big, o = .executeQuery c (.addRelationSelect small big) →
      if (small, big) ∈ w.tables.relations.map RelationRow.pair then ok = true
      else ∀ t' ≠ t, (n t').between ≠ some (small, big))
    (hstore : ∀ c relateId fromId toId content type status now,
      o = .execute c (.inserMessage relateId fromId toId content type status now) →
        ok = true → fromId = 0 ∨ toId = 0 ∨ (n t).found = true) :
    Steps S w n t o ok := by
  cases o with
  | getDBConn timeout_ms => exact h.steps_getDBConn timeout_ms ok
  | executeQuery c s =>
    by_cases hs : s.ReadsOther
    · have hc : c ∈ (n t).owned := by
        cases s <;> exact hallowed.1
      exact h.steps_readsOther hreads hc hs ok
    · cases s with
      | getRelationId small big => exact h.steps_getRelationId hallowed.1 small big ok
      | addRelationSelect small big =>
        exact h.steps_addRelationSelect hallowed.1 (hlook c small big rfl)
      | getUserId | getUserFromId | getSessionId | getMessage => exact absurd trivial hs
      | _ => exact absurd hallowed.2 id
  | executeUpdate c s => exact h.steps_executeUpdate hallowed ok
  | execute c s =>
    exact h.steps_execute hallowed fun relateId fromId toId content type status now hs =>
      hstore c relateId fromId toId content type status now (hs ▸ rfl)
  | init c strSql =>
    cases ok
    · exact ⟨trivial, h.moves_of_same (x := { n t with between := none }) rfl rfl rfl h.txn le_rfl
        (fun _ _ => rfl) (fun _ hc => Or.inl hc) (fun _ hy => Or.inl hy)
        (Or.inr ⟨rfl, fun _ hc => hc, rfl⟩) nofun⟩
    · exact ⟨trivial, h.moves_of_tables rfl rfl rfl rfl⟩
  | getInsertId c => exact h.steps_getInsertId hallowed ok
  | startTransaction | commit | rollback => exact absurd hallowed id
  | _ => exact ⟨trivial, h.moves_of_tables rfl rfl rfl rfl⟩

end Step

/-! ## Whole runs -/

section Runs

variable {S : Server} {w : World}

theorem HasRow.unique {t : Tables} (h : Relations t) {id id' : ℤ} {p : ℤ × ℤ}
    (hid : HasRow t (id, p)) (hid' : HasRow t (id', p)) : id = id' := by
  obtain ⟨r, hr, rfl, hp⟩ := hid
  obtain ⟨r', hr', rfl, hp'⟩ := hid'
  rw [List.inj_on_of_nodup_map h.pairs hr hr' (hp.trans hp'.symm)]

/-- A request for a pair that has a row gives its id. -/
theorem Settled.leads (h : Settled w.tables) {i j id : ℤ} (hi : i ≠ 0) (hj : j ≠ 0)
    (hrow : HasRow w.tables (id, pairOf i j)) : Leads S w i j id := by
  intro bAdd
  obtain ⟨ids, hexec, hids, hnil⟩ := h.exec_look (S := S) (min i j) (max i j)
    (Or.inl rfl)
  have hne : ids ≠ [] := by
    intro heq
    obtain ⟨r, hr, -, hp⟩ := hrow
    exact hnil heq (List.mem_map.mpr ⟨r, hr, hp⟩)
  have hlast : ids.getLast hne = id :=
    HasRow.unique h.relations (hids _ (List.getLast_mem hne)).2 hrow
  rw [getRelationId_of_ne (not_or.mpr ⟨hi, hj⟩), ends_getDBConn_bind rfl]
  refine ends_executeQuery_bind w.txn_acquire hexec rfl fun w' hsame _ => ?_
  rw [useRows_ids hne fun id hid => (hids id hid).1, ends_ask_bind, ends_ret]
  exact ⟨hlast, hsame.tables⟩

theorem Settled.oneConversation (h : Settled w.tables) : OneConversation S w := by
  refine ⟨?_, fun m hm => ?_⟩
  · have hpairs : (w.tables.relations.map fun r => pairOf r.smallId r.bigId) =
        w.tables.relations.map RelationRow.pair := by
      refine List.map_congr_left fun r hr => ?_
      rw [pairOf, min_eq_left (h.ordered r hr), max_eq_right (h.ordered r hr), RelationRow.pair]
    rw [hpairs]
    exact h.relations.pairs
  · by_cases hzero : m.fromId = 0 ∨ m.toId = 0
    · have hid := h.nobody m hm hzero
      have hleads : ∀ i j, i = 0 ∨ j = 0 → Leads S w i j m.relateId := by
        intro i j hij bAdd
        rw [CRelationModel.getRelationId, if_pos hij, ends_ret]
        exact ⟨hid.symm, rfl⟩
      exact ⟨hleads _ _ hzero, hleads _ _ hzero.symm⟩
    · obtain ⟨hfrom, hto⟩ := not_or.mp hzero
      have hrow := h.carried m hm hfrom hto
      exact ⟨h.leads hfrom hto hrow, h.leads hto hfrom (pairOf_comm m.toId m.fromId ▸ hrow)⟩

end Runs

/-! ## Two first messages -/

theorem readsOnly_stopped (e : Collation) (time : ℤ) : (Server.stopped e time).ReadsOnly := by
  intro classnum account t
  rw [MySQL.exec]
  split_ifs <;> rfl

theorem settled_quiet (name name' : String) : Settled (World.quiet name name').tables :=
  ⟨⟨nofun, List.nodup_nil, List.nodup_nil, (by decide : (0 : ℤ) < 1), nofun⟩, nofun, nofun, nofun⟩

/-- `ann` writes to `ben`. -/
def annToBen : Proc Unit :=
  MessageSendEvent (sendRequest (pupil "ann") (pupil "ben") (ascii "hi") 0)

/-- `ben` writes to `ann`. -/
def benToAnn : Proc Unit :=
  MessageSendEvent (sendRequest (pupil "ben") (pupil "ann") (ascii "ho") 0)

/-- Each writes to the other, and the second handler runs when the first has looked twice. -/
def crossing : List (Threads.Move Db Bool Bool) :=
  [.launch false annToBen, .launch true benToAnn] ++ List.replicate 12 (.step false true) ++
    List.replicate 12 (.step true true) ++ List.replicate 16 (.step false true) ++
    List.replicate 16 (.step true true)

theorem talksTo_crossing (t : Bool) (p : Proc Unit) (h : Threads.Move.launch t p ∈ crossing) :
    TalksTo p := by
  simp only [crossing, List.mem_append, List.mem_cons, List.mem_replicate, List.not_mem_nil,
    or_false, reduceCtorEq, and_false, Threads.Move.launch.injEq] at h
  obtain ⟨-, rfl⟩ | ⟨-, rfl⟩ := h <;> exact Or.inl ⟨_, rfl⟩

/-- The state after the two messages. -/
def crossed (C : Threads.Config Db World Bool → Bool → Op → Bool → Prop)
    [∀ c t o ok, Decidable (C c t o ok)] : Threads.Config Db World Bool :=
  Threads.play (S := (Server.stopped .binary 5).threads TalksTo) C crossing
    (.start (World.quiet "ann" "ben"))

end WzxServer
