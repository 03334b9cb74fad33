import WzxServer.Directory

/-!
# What a request for recent sessions sends

`sessionOf` shows a row of `recentSession_table` with the names of the peer and the last
message. `shown` is what it shows, where everything fits its field (`Showable`), and
`page` are the rows that a request for the sessions before `lastTime` shows.

For each row the handler looks up the names of the peer, the relation of the two users and its last
message. Nothing is written on the way, so all of them are answered from the tables as they are,
and a page can be computed from the tables alone. A name or a message that does not fit its field
stops the handler, and with it the whole page (`run_RescentSessionEvent_of_not`).
-/

namespace WzxServer

open Prog Proc World

/-! ## What is shown -/

/-- The names that an id leads to, as C strings. -/
def namesOf (t : Tables) (userId : ℤ) : UserName :=
  match t.users.filter (·.id = userId) with
  | r :: _ => ⟨r.classnum.takeWhile (· ≠ 0), r.account.takeWhile (· ≠ 0)⟩
  | [] => ⟨[], []⟩

/-- The relation of two ids, or -1. -/
def relationOf (t : Tables) (i j : ℤ) : ℤ :=
  if i = 0 ∨ j = 0 then -1
  else ((t.relations.filter fun r => r.smallId = min i j ∧ r.bigId = max i j ∧ r.status = 0).map
    RelationRow.id).getLast?.getD (-1)

/-- The messages of a relation, the last one first. -/
def lastMessages (t : Tables) (relateId : ℤ) : List MessageRow :=
  (t.messages.filter fun r => r.relateId = relateId ∧ r.status = 1).mergeSort fun r s =>
    s.created < r.created ∨ s.created = r.created ∧ s.id ≤ r.id

/-- The text of the last message of two ids, as a C string. -/
def lastText (t : Tables) (i j : ℤ) : Bytes :=
  if relationOf t i j = -1 then []
  else ((lastMessages t (relationOf t i j)).head?.map fun m => m.content.takeWhile (· ≠ 0)).getD []

/-- A session of the user `i` as it is shown. -/
def shown (t : Tables) (i : ℤ) (s : SessionRow) : RecentSessionData :=
  ⟨(namesOf t s.peerId).classnum, (namesOf t s.peerId).account, lastText t i s.peerId,
    s.peerTouXiang.takeWhile (· ≠ 0), s.updated⟩

/-- Everything that is shown fits its field. -/
structure Showable (t : Tables) (i : ℤ) (s : SessionRow) : Prop where
  touxiang : (shown t i s).touxiang.length ≤ 50
  /-- The lookup of the names has 200 bytes for its text. -/
  query : (Stmt.getUserFromId s.peerId).text.length < 200
  lastMessage : (shown t i s).lastMessage.length ≤ 1024
  classNum : (shown t i s).classNum.length ≤ 20
  account : (shown t i s).account.length ≤ 20

/-- The sessions of a user that are not removed. -/
def sessionsOf (t : Tables) (i : ℤ) : List SessionRow :=
  t.sessions.filter fun r => r.userId = i ∧ r.status = 0

/-- The rows of one request. -/
def page (t : Tables) (i lastTime : ℤ) : List SessionRow :=
  ((t.sessions.filter fun r => r.userId = i ∧ r.status = 0 ∧ r.updated < lastTime).mergeSort
    fun r s => s.updated ≤ r.updated).take 100

variable {S : Server} {w : World} {i j : ℤ}

/-! ## The models -/

theorem ends_getUserFromId_namesOf {userId : ℤ}
    (hfit : (Stmt.getUserFromId userId).text.length < 200) :
    Ends (serve S allOk) (CUserModel.getUserFromId userId) w fun n w' =>
      n = namesOf w.tables userId ∧ w.Same w' := by
  have hexec := MySQL.exec_of_plain (M := S.mysql) (s := .getUserFromId userId) rfl w.tables
  rw [CUserModel.getUserFromId]
  refine (ends_openQuery hfit hexec rfl fun _ => rfl).bind ?_
  rintro ⟨conn, _⟩ w₁ ⟨rfl, hsame⟩
  rw [namesOf]
  generalize w.tables.users.filter (·.id = userId) = rows
  rcases rows with _ | ⟨r, rows⟩
  · exact ⟨_, _, rfl, rfl, hsame⟩
  · exact ⟨_, _, rfl, rfl, hsame⟩

/-- Looking for a relation adds none. -/
theorem ends_getRelationId_relationOf :
    Ends (serve S allOk) (CRelationModel.getRelationId i j false) w fun n w' =>
      n = relationOf w.tables i j ∧ w.Same w' := by
  have hselect := MySQL.exec_of_plain (M := S.mysql)
    (s := .getRelationId (min i j) (max i j)) rfl w.tables
  have hmin : (if i > j then j else i) = min i j := by
    split_ifs <;> omega
  have hmax : (if i > j then i else j) = max i j := by
    split_ifs <;> omega
  rw [CRelationModel.getRelationId, relationOf]
  by_cases h0 : i = 0 ∨ j = 0
  · rw [if_pos h0, if_pos h0, ends_ret]
    exact ⟨rfl, .rfl⟩
  · rw [if_neg h0, if_neg h0, ends_getDBConn_bind rfl]
    dsimp only
    rw [hmin, hmax]
    refine ends_executeQuery_bind w.txn_acquire hselect rfl ?_
    intro w₁ hsame htxn
    rw [lastId_idRows, ret_bind, ends_ask_bind, if_neg (by simp), ends_ret]
    exact ⟨rfl, w.same_acquire.trans hsame⟩

theorem ends_getLastMsg_lastText :
    Ends (serve S allOk) (CMessageModel.getLastMsg i j) w fun r w' =>
      r.1 = lastText w.tables i j ∧ w.Same w' := by
  rw [CMessageModel.getLastMsg]
  refine ends_getRelationId_relationOf.bind ?_
  rintro _ w₁ ⟨rfl, hsame⟩
  rw [lastText]
  by_cases hnone : relationOf w.tables i j = -1
  · rw [if_pos hnone, if_pos hnone, ends_ret]
    exact ⟨rfl, hsame⟩
  · rw [if_neg hnone, if_neg hnone, ends_getDBConn_bind rfl]
    have hselect := MySQL.exec_of_plain (M := S.mysql)
      (s := .getLastMsg (relationOf w.tables i j)) rfl w₁.tables
    refine ends_executeQuery_bind w₁.txn_acquire hselect rfl ?_
    intro w₂ hsame₂ htxn
    have htables : w₁.tables = w.tables := hsame.tables
    rw [htables]
    change Ends _ (forEach _ ((((lastMessages w.tables (relationOf w.tables i j))).take 1).map _) >>=
      _) w₂ _
    rcases lastMessages w.tables (relationOf w.tables i j) with _ | ⟨m, ms⟩
    · exact ⟨_, _, rfl, rfl, hsame.trans (w₁.same_acquire.trans hsame₂)⟩
    · exact ⟨_, _, rfl, rfl, hsame.trans (w₁.same_acquire.trans hsame₂)⟩

/-- A text that does not fit stops the handler. -/
theorem run_memcpyField_bind_of_lt {α : Type} {size : ℕ} {text : Bytes} (f : Bytes → Proc α)
    (h : size < text.length) :
    Prog.run (serve S allOk) (memcpyField size text >>= f) w = (none, w) := by
  rw [memcpyField, bind_assoc, run_ask_bind, if_neg (by omega)]
  rfl

/-- A row is shown if everything fits. -/
theorem ends_sessionOf {s : SessionRow} (h : Showable w.tables i s) :
    Ends (serve S allOk) (CSessionModel.sessionOf i s.cells) w fun d w' =>
      d = shown w.tables i s ∧ w.Same w' := by
  change Ends _ (memcpyField 50 (shown w.tables i s).touxiang >>= _) w _
  rw [ends_memcpyField_bind h.touxiang]
  refine (ends_getUserFromId_namesOf h.query).bind ?_
  rintro _ w₁ ⟨rfl, hsame⟩
  refine (ends_getLastMsg_lastText (i := i) (j := s.peerId)).bind ?_
  rintro ⟨_, _⟩ w₂ ⟨rfl, hsame₂⟩
  have htables : w₁.tables = w.tables := hsame.tables
  rw [htables]
  refine (ends_memcpyField_bind h.lastMessage).2 ?_
  refine (ends_memcpyField_bind h.classNum).2 ?_
  refine (ends_memcpyField_bind h.account).2 ?_
  rw [pure_eq_ret, ends_ret]
  exact ⟨rfl, hsame.trans hsame₂⟩

/-- Otherwise the handler stops. -/
theorem run_sessionOf_of_not {s : SessionRow} (h : ¬Showable w.tables i s) :
    ∃ w', Prog.run (serve S allOk) (CSessionModel.sessionOf i s.cells) w = (none, w') := by
  change ∃ w', Prog.run _ (memcpyField 50 (s.peerTouXiang.takeWhile (· ≠ 0)) >>= _) w = _
  rcases lt_or_ge 50 (s.peerTouXiang.takeWhile (· ≠ 0)).length with htouxiang | htouxiang
  · exact ⟨_, run_memcpyField_bind_of_lt _ htouxiang⟩
  rw [memcpyField_of_le htouxiang]
  change ∃ w', Prog.run _ (CUserModel.getUserFromId s.peerId >>= _) w = _
  by_cases hquery : (Stmt.getUserFromId s.peerId).text.length < 200
  swap
  · refine ⟨w.acquire, run_bind_of_none _ ?_ _⟩
    simp only [CUserModel.getUserFromId, openQuery, sprintf, if_neg hquery, bind_assoc,
      run_ask_bind, serve, allOk_eq, if_true, fault_bind, run_fault]
  obtain ⟨_, w₁, hrun₁, rfl, hsame₁⟩ := ends_getUserFromId_namesOf (S := S) (w := w) hquery
  obtain ⟨⟨_, type⟩, w₂, hrun₂, rfl, -⟩ := ends_getLastMsg_lastText (S := S) (w := w₁) (i := i)
    (j := s.peerId)
  have htables : w₁.tables = w.tables := hsame₁.tables
  rw [run_bind_of_some _ hrun₁, run_bind_of_some _ hrun₂, htables]
  dsimp only
  rcases lt_or_ge 1024 (lastText w.tables i s.peerId).length with hlast | hlast
  · exact ⟨_, run_memcpyField_bind_of_lt _ hlast⟩
  rw [memcpyField_of_le hlast, bind_assoc, run_ask_bind, ret_bind]
  rcases lt_or_ge 20 (namesOf w.tables s.peerId).classnum.length with hclass | hclass
  · exact ⟨_, run_memcpyField_bind_of_lt _ hclass⟩
  rw [memcpyField_of_le hclass, bind_assoc, run_ask_bind, ret_bind]
  rcases lt_or_ge 20 (namesOf w.tables s.peerId).account.length with haccount | haccount
  · exact ⟨_, run_memcpyField_bind_of_lt _ haccount⟩
  exact absurd ⟨htouxiang, hquery, hlast, hclass, haccount⟩ h

/-- The rows of the query. -/
theorem exec_getRecentSession (M : MySQL) (t : Tables) (i lastTime : ℤ) :
    M.exec (.getRecentSession i lastTime) t =
      .select t ((page t i lastTime).map SessionRow.cells) :=
  MySQL.exec_of_plain rfl t

theorem ends_getRecentSession {lastTime : ℤ}
    (h : ∀ s ∈ page w.tables i lastTime, Showable w.tables i s) :
    Ends (serve S allOk) (CSessionModel.getRecentSession i lastTime) w fun ds w' =>
      ds = (page w.tables i lastTime).map (shown w.tables i) ∧ w.Same w' := by
  rw [CSessionModel.getRecentSession, ends_getDBConn_bind rfl]
  refine ends_executeQuery_bind w.txn_acquire (exec_getRecentSession S.mysql w.tables i lastTime)
    rfl ?_
  intro w₁ hsame htxn
  have hsame₁ : w.Same w₁ := w.same_acquire.trans hsame
  have hloop : Ends (serve S allOk) (forEach (CSessionModel.sessionOf i)
      ((page w.tables i lastTime).map SessionRow.cells)) w₁ fun ds w' =>
        ds = (page w.tables i lastTime).map (shown w.tables i) ∧ w.Same w' := by
    refine Ends.forEach (R := fun row d => ∃ s, row = s.cells ∧ Showable w.tables i s ∧
      d = shown w.tables i s) ?_ ?_ hsame₁
    · rintro _ _ ⟨s, rfl, hs, rfl⟩ w₂ hsame₂
      have htables : w₂.tables = w.tables := hsame₂.tables
      refine (ends_sessionOf (htables ▸ hs)).mono ?_
      rintro _ w₃ ⟨rfl, hsame₃⟩
      exact ⟨by rw [htables], hsame₂.trans hsame₃⟩
    · rw [List.forall₂_map_left_iff, List.forall₂_map_right_iff, List.forall₂_same]
      exact fun s hs => ⟨s, rfl, h s hs, rfl⟩
  refine hloop.bind ?_
  rintro _ w₂ ⟨rfl, hsame₂⟩
  rw [ends_ask_bind, pure_eq_ret, ends_ret]
  exact ⟨rfl, hsame₂⟩

theorem run_getRecentSession_of_not {lastTime : ℤ}
    (h : ¬∀ s ∈ page w.tables i lastTime, Showable w.tables i s) :
    ∃ w', Prog.run (serve S allOk) (CSessionModel.getRecentSession i lastTime) w =
      (none, w') := by
  have hexec := exec_of_none (M := S.mysql) w.txn_acquire (.getRecentSession i lastTime)
  rw [acquire_tables, exec_getRecentSession] at hexec
  simp only [CSessionModel.getRecentSession, run_ask_bind, serve, allOk_eq, if_true, hexec,
    Effect.select, Option.getD_some]
  obtain ⟨s, hs, hbad⟩ : ∃ s ∈ page w.tables i lastTime, ¬Showable w.tables i s := by
    simpa using h
  have hstops : ∀ w₁ : World, w₁.tables = w.tables → ∃ w', Prog.run (serve S allOk)
      (forEach (CSessionModel.sessionOf i) ((page w.tables i lastTime).map SessionRow.cells)) w₁ =
        (none, w') := by
    intro w₁ htables
    refine exists_run_forEach_none (I := fun w' => w'.tables = w.tables) ?_ htables
      ⟨s.cells, List.mem_map_of_mem hs, fun w' h' => run_sessionOf_of_not (h'.symm ▸ hbad)⟩
    intro _ hrow w' h'
    obtain ⟨r, -, rfl⟩ := List.mem_map.mp hrow
    by_cases hr : Showable w'.tables i r
    · exact Or.inl ((ends_sessionOf hr).mono fun _ _ hsame => hsame.2.tables.trans h')
    · exact Or.inr (run_sessionOf_of_not hr)
  let w₁ : World := (w.acquire.exec S.mysql w.conns (.getRecentSession i lastTime)).2
  obtain ⟨w', hrun⟩ := hstops w₁ (by simp only [w₁, hexec, Effect.select])
  refine ⟨w', ?_⟩
  simp only [w₁, hexec, Effect.select] at hrun
  exact run_bind_of_none _ hrun _

/-! ## The request -/

/-- The answer that shows `ds`. -/
def sessionReplies (ds : List RecentSessionData) : List Reply :=
  if ds.length = 0 then [.recentSessionRes .messagrRecentSessionFailed 0]
  else .recentSessionRes .messagrRecentSessionSuccess ds.length :: ds.map .recentSession

/-- The sessions in an answer. -/
def sessionsIn (rs : List Reply) : List RecentSessionData :=
  rs.filterMap fun
    | .recentSession s => some s
    | _ => none

theorem sessionsIn_sessionReplies (ds : List RecentSessionData) :
    sessionsIn (sessionReplies ds) = ds := by
  rw [sessionReplies]
  split_ifs with h
  · rw [List.eq_nil_of_length_eq_zero h]
    rfl
  · simp only [sessionsIn, List.filterMap_cons, List.filterMap_map]
    exact List.filterMap_some

/-- Every session is followed by an acknowledgement. -/
theorem ends_forEach_recentSession : ∀ {ds : List RecentSessionData} {w : World},
    Ends (serve S allOk) (forEach (fun d => do
      ask (.write (.recentSession d))
      ask .read) ds) w fun _ w' => w' = { w with sent := w.sent ++ ds.map .recentSession }
  | [], w => by
    rw [forEach, ends_ret, List.map_nil, List.append_nil]
  | d :: ds, w => by
    rw [forEach, bind_assoc, ends_ask_bind, ends_ask_bind]
    refine ends_forEach_recentSession.bind ?_
    rintro _ _ rfl
    rw [pure_eq_ret, ends_ret]
    simp [serve, write]

variable {u : UserName} {lastTime : ℤ}

/-- A request shows a page. -/
theorem ends_RescentSessionEvent
    (hfit : (Stmt.getUserId u.classnum u.account).text.length < 100)
    (hinert : (Stmt.getUserId u.classnum u.account).Inert)
    (hi : i = idOf S.mysql.toCollation w.tables.users u)
    (h : ∀ s ∈ page w.tables i lastTime, Showable w.tables i s) :
    Ends (serve S allOk) (RescentSessionEvent u.classnum u.account lastTime) w fun _ w' =>
      w'.tables = w.tables ∧ w'.sent = w.sent ++
        sessionReplies ((page w.tables i lastTime).map (shown w.tables i)) := by
  refine (ends_getUserId_idOf hfit hinert).bind ?_
  rintro _ w₁ ⟨rfl, hsame⟩
  subst hi
  have htables : w₁.tables = w.tables := hsame.tables
  refine (ends_getRecentSession (htables ▸ h)).bind ?_
  rintro _ w₂ ⟨rfl, hsame₂⟩
  have hsame : w.Same w₂ := hsame.trans hsame₂
  rw [htables, sessionReplies]
  split_ifs with hnil
  · rw [ends_ask]
    exact ⟨hsame.tables, congrArg (· ++ _) hsame.sent⟩
  · rw [ends_ask_bind]
    refine ends_forEach_recentSession.bind ?_
    rintro _ _ rfl
    rw [pure_eq_ret, ends_ret]
    refine ⟨hsame.tables, ?_⟩
    change (w₂.sent ++ [_]) ++ _ = _
    rw [hsame.sent, List.append_assoc]
    rfl

/-- A request for a page that does not fit is not answered. -/
theorem run_RescentSessionEvent_of_not
    (hfit : (Stmt.getUserId u.classnum u.account).text.length < 100)
    (hinert : (Stmt.getUserId u.classnum u.account).Inert)
    (hi : i = idOf S.mysql.toCollation w.tables.users u)
    (h : ¬∀ s ∈ page w.tables i lastTime, Showable w.tables i s) :
    ∃ w', Prog.run (serve S allOk) (RescentSessionEvent u.classnum u.account lastTime) w =
      (none, w') := by
  obtain ⟨_, w₁, hrun, rfl, hsame⟩ := ends_getUserId_idOf (S := S) (w := w) hfit hinert
  subst hi
  have htables : w₁.tables = w.tables := hsame.tables
  obtain ⟨w', hrun'⟩ := run_getRecentSession_of_not (S := S) (htables.symm ▸ h)
  rw [htables] at hrun'
  refine ⟨w', ?_⟩
  rw [RescentSessionEvent, run_bind_of_some _ hrun, run_bind_of_none _ hrun']

end WzxServer
