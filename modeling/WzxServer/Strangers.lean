import WzxServer.Sessions

/-!
# Requests about users without a row

`getUserId` answers -1 for names that have no row, and `getRelationId` refuses the id 0. So
-1 goes on as the id of a user, and MESSAGE_SEND, MESSAGE_HISTORY and MESSAGE_CREATE write
rows for it. `refuses_iff_harmless` says which of these requests write nothing.

The three handlers begin alike : they look two users up and go on with their ids
(`doEvent_eq`). What they do next is theirs, so the proof is in two halves. `both_stops` and
`both_goes` say what the lookups come to, and `abstains_messageSend_iff`,
`abstains_messageHistory_iff` and `not_abstains_messageCreate` what is sent with the ids.

A statement counts as written when it is sent, whatever MySQL makes of it. Where a lookup does
not fit into its array nothing is said : such a request neither abstains nor is harmless.
-/

namespace WzxServer

open Prog Proc World

/-- The statement inserts into `relationShip_table`, `message_table` or
`recentSession_table`, or updates it. -/
def Stmt.writes : Stmt → Bool
  | .addRelationUpdate .. | .addRelationInsert .. | .updateRelation .. | .removeRelation ..
  | .inserMessage .. | .updateSession .. | .removeSession .. | .addSessionUpdate ..
  | .addSessionInsert .. => true
  | _ => false

/-- The operation sends such a statement. -/
def Op.writes : Op → Bool
  | .executeQuery _ s | .executeUpdate _ s | .execute _ s => s.writes
  | _ => false

/-- A request that names two users. -/
inductive PairRequest where
  | messageCreate (d : MessageCreateData)
  | messageSend (d : MessageSendData)
  | messageHistory (d : MessageHistoryData)

namespace PairRequest

/-- Its handler. -/
def doEvent : PairRequest → Proc Unit
  | messageCreate d => MessageCreateEvent d
  | messageSend d => MessageSendEvent d
  | messageHistory d => MessageHistoryEvent d

/-- The user who asks. -/
def sender : PairRequest → UserName
  | messageCreate d => ⟨d.m_fromclassnum, d.m_fromaccount⟩
  | messageSend d => ⟨d.fromClassNum, d.fromAccount⟩
  | messageHistory d => ⟨d.fromClassNum, d.fromAccount⟩

/-- The user who is asked about. -/
def peer : PairRequest → UserName
  | messageCreate d => ⟨d.m_toclassnum, d.m_toaccount⟩
  | messageSend d => ⟨d.toClassNum, d.toAccount⟩
  | messageHistory d => ⟨d.toClassNum, d.toAccount⟩

end PairRequest

/-- No row has the names of `u`. -/
def UserName.Unknown (u : UserName) (e : Collation) (t : Tables) : Prop :=
  ∀ r ∈ t.users, r.named e u.classnum u.account = false

instance (u : UserName) (e : Collation) (t : Tables) : Decidable (u.Unknown e t) :=
  inferInstanceAs (Decidable (∀ r ∈ _, _))

variable (S : Server)

/-- Look two users up, and go on with their ids. -/
def both {α : Type} (u v : UserName) (g : ℤ → ℤ → Proc α) : Proc α := do
  let i ← CUserModel.getUserId u.classnum u.account
  let j ← CUserModel.getUserId v.classnum v.account
  g i j

/-- The request looks its users up without overrunning `strSql`, sends no statement that
writes, and the creation of a session is answered as failed. -/
def PairRequest.Abstains (q : PairRequest) (w : World) : Prop :=
  Prog.faultOf (serve S allOk) (both q.sender q.peer fun _ _ => ret ()) w ≠ some .overrun ∧
  (∀ e ∈ Prog.trace (serve S allOk) q.doEvent w, e.1.writes = false) ∧
    match q with
    | .messageCreate _ => newly w (Prog.run (serve S allOk) q.doEvent w).2 =
        [.messageCreate .messageCreateFailed]
    | _ => True

/-- A request about an unknown user abstains from writing. -/
def PairRequest.Refuses (q : PairRequest) (w : World) : Prop :=
  q.sender.Unknown S.mysql.toCollation w.tables ∨ q.peer.Unknown S.mysql.toCollation w.tables →
    q.Abstains S w

/-! ## Looking up -/

/-- The id that the lookup of names ends with, and the tables after it. It ends with none
where its text does not fit, or the id it finds is null. -/
def lookup (M : MySQL) (u : UserName) (t : Tables) : Option (ℤ × Tables) :=
  let s := Stmt.getUserId u.classnum u.account
  if s.text.length < 100 then
    (match (M.exec s t).rows with
      | some (row :: _) => row.int? .id
      | _ => some (-1)).map fun n => (n, (M.exec s t).tables)
  else none

/-- The ids of two users. -/
def lookups (M : MySQL) (u v : UserName) (t : Tables) : Option (ℤ × ℤ × Tables) := do
  let (i, t) ← lookup M u t
  let (j, t) ← lookup M v t
  return (i, j, t)

/-- The two ids have a relation. -/
def Related (t : Tables) (i j : ℤ) : Prop :=
  ((t.relations.filter fun r => r.smallId = min i j ∧ r.bigId = max i j ∧ r.status = 0).map
    RelationRow.id).getLast?.getD (-1) ≠ -1

/-- The lookups that are come to fit into their arrays. -/
def LookupsFit (M : MySQL) (u v : UserName) (t : Tables) : Prop :=
  (Stmt.getUserId u.classnum u.account).text.length < 100 ∧
    (lookup M u t ≠ none → (Stmt.getUserId v.classnum v.account).text.length < 100)

/-- A request that writes nothing : its lookups fit, and it stops at one of them, whose id is
null, or it is for the history of ids that have a relation, or of which one is 0. -/
def PairRequest.Harmless (M : MySQL) (q : PairRequest) (t : Tables) : Prop :=
  LookupsFit M q.sender q.peer t ∧
    match q, lookups M q.sender q.peer t with
    | .messageCreate _, _ => False
    | .messageSend _, ids => ids = none
    | .messageHistory _, none => True
    | .messageHistory _, some (i, j, t) => i = 0 ∨ j = 0 ∨ Related t i j

variable {S} {w : World} {u v : UserName}

/-- A lookup that stops sends no answer. -/
theorem run_getUserId_of_none (h : lookup S.mysql u w.tables = none) :
    ∃ w', Prog.run (serve S allOk) (CUserModel.getUserId u.classnum u.account) w = (none, w') ∧
      w'.sent = w.sent := by
  have hexec := exec_of_none (M := S.mysql) w.txn_acquire (.getUserId u.classnum u.account)
  rw [lookup] at h
  by_cases hfit : (Stmt.getUserId u.classnum u.account).text.length < 100
  · simp only [hfit, if_true, Option.map_eq_none_iff] at h
    simp only [CUserModel.getUserId, openQuery, sprintf, if_pos hfit, deref, bind_assoc,
      run_ask_bind, serve, allOk_eq, if_true, ret_bind, pure_eq_ret, hexec, acquire_tables]
    generalize (S.mysql.exec (.getUserId u.classnum u.account) w.tables).rows = res at h ⊢
    rcases res with _ | (_ | ⟨row, rows⟩) <;> simp only [reduceCtorEq] at h
    simp only [getInt_eq, h, defined, fault_bind, run_fault]
    exact ⟨_, rfl, rfl⟩
  · simp only [CUserModel.getUserId, openQuery, sprintf, if_neg hfit, bind_assoc, run_ask_bind,
      serve, allOk_eq, if_true, fault_bind, run_fault]
    exact ⟨_, rfl, rfl⟩

/-- A lookup that returns gives the id. -/
theorem ends_getUserId_lookup {i : ℤ} {t : Tables} (h : lookup S.mysql u w.tables = some (i, t)) :
    Ends (serve S allOk) (CUserModel.getUserId u.classnum u.account) w fun n w' =>
      n = i ∧ w'.tables = t ∧ w'.sent = w.sent := by
  have hexec := exec_of_none (M := S.mysql) w.txn_acquire (.getUserId u.classnum u.account)
  rw [lookup] at h
  by_cases hfit : (Stmt.getUserId u.classnum u.account).text.length < 100
  · simp only [hfit, if_true, Option.map_eq_some_iff, Prod.mk.injEq] at h
    obtain ⟨_, hid, rfl, rfl⟩ := h
    simp only [CUserModel.getUserId, openQuery, sprintf, if_pos hfit, deref, bind_assoc,
      ends_ask_bind, serve, allOk_eq, if_true, ret_bind, pure_eq_ret, hexec, acquire_tables]
    generalize (S.mysql.exec (.getUserId u.classnum u.account) w.tables).rows = res at hid ⊢
    rcases res with _ | (_ | ⟨row, rows⟩) <;> simp only [Option.some.injEq] at hid
    · exact ⟨_, _, rfl, hid, rfl, rfl⟩
    · exact ⟨_, _, rfl, hid, rfl, rfl⟩
    · simp only [getInt_eq, hid, defined, ret_bind]
      exact ⟨_, _, rfl, rfl, rfl, rfl⟩
  · simp [hfit] at h

/-! ## What only reads -/

/-- `p` sends nothing that writes. -/
abbrev ReadsOnly {α : Type} (p : Proc α) : Prop :=
  Only (E := Db) (fun o => o.writes = false) p

section ReadsOnly

variable {α : Type}

theorem readsOnly_ask {o : Op} (h : o.writes = false) : ReadsOnly (ask o) :=
  only_perform h

/-- The connection goes back. -/
theorem readsOnly_release (c : Conn) (a : α) :
    ReadsOnly (ask (.relDBConn c) >>= fun _ => ret a) :=
  (readsOnly_ask rfl).bind fun _ => only_ret

theorem readsOnly_deref (a : Option α) : ReadsOnly (deref a) := by
  cases a
  · exact only_fault
  · exact only_ret

theorem readsOnly_sprintf_bind {size : ℕ} {s : Stmt} {f : Stmt → Proc α} (h : ReadsOnly (f s)) :
    ReadsOnly (sprintf size s >>= f) := by
  rw [sprintf]
  split_ifs
  · exact h
  · exact only_fault

theorem readsOnly_memcpyField (size : ℕ) (text : Bytes) : ReadsOnly (memcpyField size text) := by
  refine (readsOnly_ask rfl).bind fun _ => ?_
  split_ifs
  · exact only_ret
  · exact only_fault

theorem readsOnly_getInt (row : Row) (key : Col) : ReadsOnly (getInt row key) := by
  rw [getInt]
  rcases row.get key with _ | (_ | n | s)
  · exact only_ret
  · exact only_fault
  · exact only_ret
  · exact only_ret

theorem readsOnly_getText (row : Row) (key : Col) : ReadsOnly (getText row key) :=
  (readsOnly_deref _).bind fun _ => only_ret

theorem readsOnly_openQuery {size : ℕ} {s : Stmt} (h : s.writes = false) :
    ReadsOnly (openQuery size s) :=
  (readsOnly_ask rfl).bind fun _ => readsOnly_sprintf_bind <| (readsOnly_deref _).bind fun _ =>
    (readsOnly_ask (o := .executeQuery _ s) h).bind fun _ => only_ret

theorem readsOnly_getUserId (classnum account : Bytes) :
    ReadsOnly (CUserModel.getUserId classnum account) := by
  refine (readsOnly_openQuery rfl).bind fun r => ?_
  rcases r with ⟨_, _ | (_ | ⟨row, _⟩)⟩
  · exact readsOnly_release _ _
  · exact readsOnly_release _ _
  · exact (readsOnly_getInt row .id).bind fun _ => readsOnly_release _ _

theorem readsOnly_getUserFromId (userId : ℤ) : ReadsOnly (CUserModel.getUserFromId userId) := by
  refine (readsOnly_openQuery rfl).bind fun r => ?_
  rcases r with ⟨_, _ | (_ | ⟨row, _⟩)⟩
  · exact readsOnly_release _ _
  · exact readsOnly_release _ _
  · exact (readsOnly_getText row _).bind fun _ => (readsOnly_getText row _).bind fun _ =>
      readsOnly_release _ _

theorem readsOnly_messageOf (res : Row) : ReadsOnly (CMessageModel.messageOf res) :=
  (readsOnly_getText _ _).bind fun _ => (readsOnly_getInt _ _).bind fun _ =>
    (readsOnly_getUserFromId _).bind fun _ => (readsOnly_getInt _ _).bind fun _ =>
    (readsOnly_getUserFromId _).bind fun _ => (readsOnly_memcpyField _ _).bind fun _ =>
    (readsOnly_memcpyField _ _).bind fun _ => (readsOnly_memcpyField _ _).bind fun _ =>
    (readsOnly_memcpyField _ _).bind fun _ => (readsOnly_memcpyField _ _).bind fun _ =>
    (readsOnly_getInt _ _).bind fun _ => only_ret

theorem readsOnly_getMessage (relateId lastTime nowTime : ℤ) :
    ReadsOnly (CMessageModel.getMessage relateId lastTime nowTime) := by
  refine (readsOnly_ask rfl).bind fun conn => ?_
  rcases conn with _ | pDBConn
  · exact only_ret
  · refine readsOnly_sprintf_bind ?_
    refine (readsOnly_ask rfl).bind fun _ => ?_
    exact (Only.forEach readsOnly_messageOf _).bind fun _ => readsOnly_release _ _

/-- What the history does once it has the relation. -/
theorem readsOnly_history (d : MessageHistoryData) (relationId : ℤ) : ReadsOnly (do
    let nowTime ← ask .time
    let messageList ← CMessageModel.getMessage relationId d.lastupdatetime nowTime
    if messageList.length = 0 then
      ask (.write (.historyCount 0 .messageHistoryFailed))
    else
      ask (.write (.historyCount messageList.length .messageHistorySuccess))
      let _ ← forEach (fun m => ask (.write (.message m))) messageList : Proc Unit) := by
  refine (readsOnly_ask rfl).bind fun _ => (readsOnly_getMessage _ _ _).bind fun _ => ?_
  split_ifs
  · exact readsOnly_ask rfl
  · exact (readsOnly_ask rfl).bind fun _ =>
      (Only.forEach (fun m => readsOnly_ask (o := .write (.message m)) rfl) _).bind fun _ =>
        only_ret

end ReadsOnly

/-! ## What writes -/

section Sends

variable {α : Type} {i j : ℤ}

theorem trace_ask_bind {ok : Op → Bool} {o : Op} {f : o.Ans → Proc α} :
    Prog.trace (serve S ok) (@bind Proc _ (no_index o.Ans) α (Proc.ask o) f) w =
      ⟨o, (serve S ok o w).1⟩ ::
        Prog.trace (serve S ok) (f (serve S ok o w).1) (serve S ok o w).2 :=
  rfl

variable (S) in
/-- `p` sends something that writes. -/
def Sends (p : Proc α) (w : World) : Prop :=
  ∃ e ∈ Prog.trace (serve S allOk) p w, e.1.writes = true

theorem sends_ask_bind {o : Op} {f : o.Ans → Proc α} (h : o.writes = true) :
    Sends S (ask o >>= f) w :=
  ⟨_, List.mem_cons_self, h⟩

theorem Sends.ask_bind {o : Op} {f : o.Ans → Proc α}
    (h : Sends S (f (serve S allOk o w).1) (serve S allOk o w).2) : Sends S (ask o >>= f) w := by
  obtain ⟨e, he, hw⟩ := h
  exact ⟨e, List.mem_cons_of_mem _ he, hw⟩

theorem Sends.bind {β : Type} {p : Proc β} {f : β → Proc α} (h : Sends S p w) :
    Sends S (p >>= f) w := by
  obtain ⟨e, he, hw⟩ := h
  rw [Sends, trace_bind]
  exact ⟨e, List.mem_append_left _ he, hw⟩

/-- What is sent after a part that returns. -/
theorem sends_of_ends {β : Type} {p : Proc β} {f : β → Proc α} {Q : β → World → Prop}
    (hp : Ends (serve S allOk) p w Q) (hf : ∀ a w', Q a w' → Sends S (f a) w') :
    Sends S (p >>= f) w :=
  hp.exists_trace hf

theorem ends_executeQuery {c : Conn} {s : Stmt} {rows : List Row} (hc : w.txn c = none)
    (hs : S.mysql.exec s w.tables = .select w.tables rows) :
    Ends (serve S allOk) (ask (.executeQuery c s)) w fun r w' =>
      r = some rows ∧ w.Same w' ∧ w'.txn = w.txn := by
  have hbind := ends_executeQuery_bind (S := S) (f := ret)
    (Q := fun r w' => r = some rows ∧ w.Same w' ∧ w'.txn = w.txn) hc hs
    (allOk_eq _) fun w' hsame htxn => ends_ret.2 ⟨rfl, hsame, htxn⟩
  rwa [Prog.bind_ret] at hbind

/-- An insertion that is prepared is sent. -/
theorem sends_insertPrepared {c : Conn} {s : Stmt} (h : s.writes = true) :
    Sends S (insertPrepared c s) w :=
  Sends.ask_bind (sends_ask_bind (o := .execute c s) h)

/-- An added relation is written. -/
theorem sends_addRelation : Sends S (CRelationModel.addRelation i j) w := by
  have hselect := MySQL.exec_of_plain (M := S.mysql) (s := .addRelationSelect i j) rfl w.tables
  refine Sends.ask_bind (Sends.ask_bind (sends_of_ends (ends_executeQuery ?_ hselect) ?_))
  · exact w.txn_acquire
  · rintro _ w' ⟨rfl, -, -⟩
    generalize w.tables.relations.filter _ = rows
    rcases rows with _ | ⟨r, l⟩
    · exact (sends_insertPrepared (s := .addRelationInsert i j 0 (S.clock w.reads)) rfl).bind
    · exact sends_ask_bind (o := .executeUpdate w.conns (.addRelationUpdate (S.clock w.reads) r.id))
        rfl

variable (S w) in
/-- What the lookup of a relation comes to, for ids other than 0 : what it sends by itself
does not write, and the relation is added if it is not there. -/
theorem getRelationId_spec (h0 : ¬(i = 0 ∨ j = 0)) : ∃ n t w',
    (n ≠ -1 ↔ Related w.tables i j) ∧ (∀ e ∈ t, e.1.writes = false) ∧
      Prog.run (serve S allOk) (CRelationModel.getRelationId i j true) w =
        Prog.run (serve S allOk)
          (if n = -1 then CRelationModel.addRelation (min i j) (max i j) else ret n) w' ∧
      Prog.trace (serve S allOk) (CRelationModel.getRelationId i j true) w =
        t ++ Prog.trace (serve S allOk)
          (if n = -1 then CRelationModel.addRelation (min i j) (max i j) else ret n) w' := by
  have hmin : (if i > j then j else i) = min i j := by
    split_ifs <;> omega
  have hmax : (if i > j then i else j) = max i j := by
    split_ifs <;> omega
  have hselect := MySQL.exec_of_plain (M := S.mysql)
    (s := .getRelationId (min i j) (max i j)) rfl w.tables
  obtain ⟨_, w', hrun, rfl, -, -⟩ := ends_executeQuery (S := S) w.txn_acquire hselect
  rw [run_ask, Prod.mk.injEq, Option.some.injEq] at hrun
  refine ⟨_, [⟨.getDBConn 0, some w.conns⟩, ⟨.executeQuery w.conns (.getRelationId (min i j)
    (max i j)), (serve S allOk (.executeQuery w.conns (.getRelationId (min i j) (max i j)))
    w.acquire).1⟩, ⟨.relDBConn w.conns, ()⟩], w', Iff.rfl, ?_, ?_, ?_⟩
  · simp [Op.writes, Stmt.writes]
  · rw [CRelationModel.getRelationId, if_neg h0, run_ask_bind]
    change Prog.run _ (ask _ >>= _) w.acquire = _
    rw [run_ask_bind, hmin, hmax, hrun.1, hrun.2, lastId_idRows, ret_bind, run_ask_bind]
    simp only [and_true]
    rfl
  · rw [CRelationModel.getRelationId, if_neg h0, trace_ask_bind]
    change _ :: Prog.trace _ (ask _ >>= _) w.acquire = _
    rw [trace_ask_bind, hmin, hmax, hrun.1, hrun.2, lastId_idRows, ret_bind, trace_ask_bind]
    simp only [and_true]
    rfl

/-- A relation that is there is only read. -/
theorem abstains_getRelationId (h : i = 0 ∨ j = 0 ∨ Related w.tables i j) :
    ∀ e ∈ Prog.trace (serve S allOk) (CRelationModel.getRelationId i j true) w,
      e.1.writes = false := by
  by_cases h0 : i = 0 ∨ j = 0
  · rw [CRelationModel.getRelationId, if_pos h0]
    exact fun e he => absurd he List.not_mem_nil
  · obtain ⟨n, t, w', hn, ht, -, htrace⟩ := getRelationId_spec S w h0
    have hrelated : Related w.tables i j := by
      tauto
    rw [htrace, if_neg (hn.2 hrelated), trace_ret, List.append_nil]
    exact ht

/-- One that is not is added. -/
theorem sends_getRelationId (h0 : ¬(i = 0 ∨ j = 0)) (h : ¬Related w.tables i j) :
    Sends S (CRelationModel.getRelationId i j true) w := by
  obtain ⟨n, t, w', hn, -, -, htrace⟩ := getRelationId_spec S w h0
  obtain ⟨e, he, hw⟩ := sends_addRelation (S := S) (w := w') (i := min i j) (j := max i j)
  rw [Sends, htrace, if_pos (not_not.1 (mt hn.1 h))]
  exact ⟨e, List.mem_append_right _ he, hw⟩

theorem ends_addRelation_any :
    Ends (serve S allOk) (CRelationModel.addRelation i j) w fun _ _ => True := by
  have hselect := MySQL.exec_of_plain (M := S.mysql) (s := .addRelationSelect i j) rfl w.tables
  rw [CRelationModel.addRelation, ends_ask_bind]
  change Ends _ (ask .time >>= _) w.acquire _
  rw [ends_time_bind]
  have hquery := ends_executeQuery (S := S) (c := w.conns)
    (w := { w.acquire with reads := w.acquire.reads + 1 }) w.txn_acquire hselect
  refine hquery.bind ?_
  rintro _ w' ⟨rfl, -, -⟩
  generalize List.filter _ w.tables.relations = rows
  rcases rows with _ | ⟨r, l⟩
  · exact ⟨_, _, rfl, trivial⟩
  · exact ⟨_, _, rfl, trivial⟩

theorem ends_getRelationId_any :
    Ends (serve S allOk) (CRelationModel.getRelationId i j true) w fun _ _ => True := by
  by_cases h0 : i = 0 ∨ j = 0
  · rw [CRelationModel.getRelationId, if_pos h0, ends_ret]
    trivial
  · obtain ⟨n, -, w', -, -, hrun, -⟩ := getRelationId_spec S w h0
    rw [Ends, hrun]
    split_ifs
    · exact ends_addRelation_any
    · exact ⟨_, _, rfl, trivial⟩

theorem ends_getSessionId_any (nType : ℤ) :
    Ends (serve S allOk) (CSessionModel.getSessionId i j nType false) w fun _ _ => True := by
  have hselect := MySQL.exec_of_plain (M := S.mysql) (s := .getSessionId i j nType false) rfl
    w.tables
  rw [CSessionModel.getSessionId, ends_getDBConn_bind rfl]
  refine ends_executeQuery_bind w.txn_acquire hselect rfl ?_
  intro w₁ _ _
  rw [lastId_idRows]
  exact ⟨_, _, rfl, trivial⟩

/-- The creation of a session sends the row, or stops where the new avatar does not fit. -/
theorem addSession_sends (i j k : ℤ) (touxiang : Bytes) :
    Sends S (CSessionModel.addSession i j k touxiang) w ∨
      ∃ w', Prog.run (serve S allOk) (CSessionModel.addSession i j k touxiang) w = (none, w') ∧
        w'.sent = w.sent := by
  obtain ⟨n, w₁, hrun, -, hsame⟩ := ends_getSessionId_all (S := S) (w := w) (i := i) (j := j)
    (k := k)
  have hfirst : Ends (serve S allOk) (CSessionModel.getSessionId i j k true) w fun a w' =>
      a = n ∧ w' = w₁ := ⟨n, w₁, hrun, rfl, rfl⟩
  by_cases hn : n = -1
  · refine Or.inl (sends_of_ends hfirst ?_)
    rintro n w₁ ⟨rfl, rfl⟩
    refine Sends.ask_bind (Sends.ask_bind ?_)
    change Sends S (if n ≠ -1 then _ else _) _
    rw [if_neg (not_not.2 hn)]
    exact (sends_insertPrepared rfl).bind
  · by_cases hfit : (Stmt.addSessionUpdate touxiang (S.clock w₁.reads) n).text.length < 200
    · refine Or.inl (sends_of_ends hfirst ?_)
      rintro n w₁ ⟨rfl, rfl⟩
      refine Sends.ask_bind (Sends.ask_bind ?_)
      change Sends S (if n ≠ -1 then sprintf 200 (.addSessionUpdate touxiang (S.clock w₁.reads) n)
        >>= _ else _) _
      rw [if_pos hn, sprintf, if_pos hfit, ret_bind]
      exact sends_ask_bind rfl
    · refine Or.inr ⟨World.acquire { w₁ with reads := w₁.reads + 1 }, ?_, hsame.sent⟩
      rw [CSessionModel.addSession, run_bind_of_some _ hrun, run_ask_bind]
      change Prog.run _ (ask (.getDBConn 0) >>= _) { w₁ with reads := w₁.reads + 1 } = _
      rw [run_ask_bind]
      change Prog.run _ (if n ≠ -1 then sprintf 200 (.addSessionUpdate touxiang
        (S.clock w₁.reads) n) >>= _ else _) _ = _
      rw [if_pos hn, sprintf, if_neg hfit]
      rfl

/-- The time of a session is written. -/
theorem sends_updateSession (nSessionId nUpdateTime : ℤ) :
    Sends S (CSessionModel.updateSession nSessionId nUpdateTime) w :=
  Sends.ask_bind (sends_ask_bind (o := .executeUpdate _ _) rfl)

end Sends

/-! ## The three handlers -/

section Both

variable {α : Type}

variable (u v) {g : ℤ → ℤ → Proc α}

theorem abstains_getUserId :
    ∀ e ∈ Prog.trace (serve S allOk) (CUserModel.getUserId u.classnum u.account) w,
      e.1.writes = false :=
  fun _ he => (readsOnly_getUserId _ _).of_mem_trace he

/-- A lookup that stops the handler leaves nothing behind. -/
theorem both_stops (h : lookups S.mysql u v w.tables = none) :
    (∃ w', Prog.run (serve S allOk) (both u v g) w = (none, w') ∧ w'.sent = w.sent) ∧
      ∀ e ∈ Prog.trace (serve S allOk) (both u v g) w, e.1.writes = false := by
  rcases hu : lookup S.mysql u w.tables with _ | ⟨i, t⟩
  · obtain ⟨w₁, hrun, hsent⟩ := run_getUserId_of_none hu
    rw [both, run_bind_of_none _ hrun, trace_bind_of_none _ hrun]
    exact ⟨⟨w₁, rfl, hsent⟩, abstains_getUserId u⟩
  · obtain ⟨_, w₁, hrun, rfl, rfl, hsent⟩ := ends_getUserId_lookup hu
    rcases hv : lookup S.mysql v w₁.tables with _ | ⟨j, t⟩
    · obtain ⟨w₂, hrun', hsent'⟩ := run_getUserId_of_none hv
      rw [both, run_bind_of_some _ hrun, trace_bind_of_some _ hrun, run_bind_of_none _ hrun',
        trace_bind_of_none _ hrun', List.forall_mem_append]
      exact ⟨⟨w₂, rfl, hsent'.trans hsent⟩, abstains_getUserId u, abstains_getUserId v⟩
    · simp [lookups, hu, hv] at h

/-- Lookups that return write nothing. -/
theorem both_goes {i j : ℤ} {t : Tables} (h : lookups S.mysql u v w.tables = some (i, j, t)) :
    ∃ w' l, w'.tables = t ∧ w'.sent = w.sent ∧ (∀ e ∈ l, e.1.writes = false) ∧
      Prog.run (serve S allOk) (both u v g) w = Prog.run (serve S allOk) (g i j) w' ∧
      Prog.trace (serve S allOk) (both u v g) w =
        l ++ Prog.trace (serve S allOk) (g i j) w' := by
  rcases hu : lookup S.mysql u w.tables with _ | ⟨i', t'⟩
  · simp [lookups, hu] at h
  · obtain ⟨_, w₁, hrun, rfl, rfl, hsent⟩ := ends_getUserId_lookup hu
    rcases hv : lookup S.mysql v w₁.tables with _ | ⟨j', t'⟩
    · simp [lookups, hu, hv] at h
    · simp only [lookups, hu, hv, Option.bind_eq_bind, Option.bind_some, Option.pure_def,
        Option.some.injEq, Prod.mk.injEq] at h
      obtain ⟨rfl, rfl, rfl⟩ := h
      obtain ⟨_, w₂, hrun', rfl, rfl, hsent'⟩ := ends_getUserId_lookup hv
      refine ⟨w₂, Prog.trace (serve S allOk) (CUserModel.getUserId u.classnum u.account) w ++
        Prog.trace (serve S allOk) (CUserModel.getUserId v.classnum v.account) w₁, rfl,
        hsent'.trans hsent, ?_, ?_, ?_⟩
      · exact List.forall_mem_append.2 ⟨abstains_getUserId u, abstains_getUserId v⟩
      · rw [both, run_bind_of_some _ hrun, run_bind_of_some _ hrun']
      · rw [both, trace_bind_of_some _ hrun, trace_bind_of_some _ hrun', List.append_assoc]

end Both

/-- A lookup whose text fits overruns nothing. -/
theorem spares_getUserId {classnum account : Bytes}
    (h : (Stmt.getUserId classnum account).text.length < 100) :
    Spares (CUserModel.getUserId classnum account) := by
  refine (spares_openQuery h).bind fun r => ?_
  rcases r with ⟨_, _ | (_ | ⟨row, _⟩)⟩
  · exact (spares_ask _).bind fun _ => spares_ret _
  · exact (spares_ask _).bind fun _ => spares_ret _
  · exact (spares_getInt row .id).bind fun _ => (spares_ask _).bind fun _ => spares_ret _

/-- The lookups overrun an array exactly where one that is come to does not fit. -/
theorem faultOf_both_iff :
    Prog.faultOf (serve S allOk) (both u v fun _ _ => ret ()) w ≠ some .overrun ↔
      LookupsFit S.mysql u v w.tables := by
  by_cases hu : (Stmt.getUserId u.classnum u.account).text.length < 100
  · rcases hlookup : lookup S.mysql u w.tables with _ | ⟨i, t⟩
    · obtain ⟨w', hrun, -⟩ := run_getUserId_of_none hlookup
      refine iff_of_true ?_ ⟨hu, fun h => absurd hlookup h⟩
      rw [both, faultOf_bind_of_none _ hrun]
      exact (spares_getUserId hu).faultOf
    · obtain ⟨_, w', hrun, rfl, -, -⟩ := ends_getUserId_lookup hlookup
      have hne : lookup S.mysql u w.tables ≠ none := by simp [hlookup]
      rw [both, faultOf_bind_of_some _ hrun, LookupsFit]
      simp only [hu, hne, not_false_eq_true, ne_eq, true_and, forall_const]
      by_cases hv : (Stmt.getUserId v.classnum v.account).text.length < 100
      · exact iff_of_true ((spares_getUserId hv).bind fun _ => spares_ret _).faultOf hv
      · refine iff_of_false (fun h => h ?_) hv
        rw [CUserModel.getUserId, bind_assoc]
        exact faultOf_openQuery hv _
  · refine iff_of_false (fun h => h ?_) fun h => hu h.1
    rw [both, CUserModel.getUserId, bind_assoc]
    exact faultOf_openQuery hu _

/-- Who sends a write does not abstain. -/
theorem Sends.not_abstains {α : Type} {p : Proc α} (h : Sends S p w) :
    ¬∀ e ∈ Prog.trace (serve S allOk) p w, e.1.writes = false := by
  obtain ⟨e, he, hw⟩ := h
  intro habs
  rw [habs e he] at hw
  exact Bool.false_ne_true hw

namespace PairRequest

/-- What the handler does with the ids of the two users. -/
def rest : PairRequest → ℤ → ℤ → Proc Unit
  | messageCreate d, fromId, toId => do
    let sessionId ← CSessionModel.addSession fromId toId 0 d.m_peertouxiang
    if sessionId = -1 then
      ask (.write (.messageCreate .messageCreateFailed))
    else
      ask (.write (.messageCreate .messageCreateSuccess))
  | messageSend d, fromId, toId => do
    let relationId ← CRelationModel.getRelationId fromId toId true
    let sessionId ← CSessionModel.getSessionId fromId toId 0 false
    let _ ← CSessionModel.updateSession sessionId d.updatetime
    let _ ← CMessageModel.inserMessage relationId fromId toId d.messageContent 1 1
  | messageHistory d, fromId, toId => do
    let relationId ← CRelationModel.getRelationId fromId toId true
    let nowTime ← ask .time
    let messageList ← CMessageModel.getMessage relationId d.lastupdatetime nowTime
    if messageList.length = 0 then
      ask (.write (.historyCount 0 .messageHistoryFailed))
    else
      ask (.write (.historyCount messageList.length .messageHistorySuccess))
      let _ ← forEach (fun m => ask (.write (.message m))) messageList

/-- All three look their users up first. -/
theorem doEvent_eq (q : PairRequest) : q.doEvent = both q.sender q.peer q.rest := by
  cases q <;> rfl

/-- A creation writes, or gives no answer. -/
theorem not_abstains_messageCreate (d : MessageCreateData) : ¬(messageCreate d).Abstains S w := by
  rintro ⟨-, habs, hfailed⟩
  rw [doEvent_eq] at habs hfailed
  have hnone : ∀ w', Prog.run (serve S allOk) (both (messageCreate d).sender
      (messageCreate d).peer (messageCreate d).rest) w = (none, w') → w'.sent = w.sent → False := by
    intro w' hrun hsent
    simp only [hrun, newly, hsent, List.drop_length] at hfailed
    exact List.cons_ne_nil _ _ hfailed.symm
  rcases h : lookups S.mysql (messageCreate d).sender (messageCreate d).peer w.tables with
    _ | ⟨i, j, t⟩
  · obtain ⟨⟨w', hrun, hsent⟩, -⟩ := both_stops _ _ h
    exact hnone w' hrun hsent
  · obtain ⟨w₁, l, -, hsent₁, -, hrun₁, htrace⟩ := both_goes _ _ h
    rcases addSession_sends i j 0 d.m_peertouxiang with hsends | ⟨w₂, hrun₂, hsent₂⟩
    · rw [htrace, List.forall_mem_append] at habs
      exact hsends.bind.not_abstains habs.2
    · refine hnone w₂ ?_ (hsent₂.trans hsent₁)
      rw [hrun₁, rest, run_bind_of_none _ hrun₂]

/-- A message only writes nothing where a lookup stops it. -/
theorem abstains_messageSend_iff (d : MessageSendData) : (messageSend d).Abstains S w ↔
    LookupsFit S.mysql (messageSend d).sender (messageSend d).peer w.tables ∧
      lookups S.mysql (messageSend d).sender (messageSend d).peer w.tables = none := by
  change _ ∧ (∀ e ∈ _, _) ∧ True ↔ _
  rw [faultOf_both_iff]
  refine and_congr_right fun _ => ?_
  rw [doEvent_eq]
  rcases h : lookups S.mysql (messageSend d).sender (messageSend d).peer w.tables with
    _ | ⟨i, j, t⟩
  · exact ⟨fun _ => rfl, fun _ => ⟨(both_stops _ _ h).2, trivial⟩⟩
  · refine ⟨fun habs => absurd habs.1 ?_, fun hnone => by simp at hnone⟩
    obtain ⟨w₁, l, -, -, -, -, htrace⟩ := both_goes (g := (messageSend d).rest) _ _ h
    have hsends : Sends S ((messageSend d).rest i j) w₁ :=
      sends_of_ends ends_getRelationId_any fun _ _ _ =>
        sends_of_ends (ends_getSessionId_any 0) fun _ _ _ => (sends_updateSession _ _).bind
    rw [htrace, List.forall_mem_append]
    exact fun habs => hsends.not_abstains habs.2

/-- A history only writes when it adds a relation. -/
theorem abstains_messageHistory_iff (d : MessageHistoryData) : (messageHistory d).Abstains S w ↔
    LookupsFit S.mysql (messageHistory d).sender (messageHistory d).peer w.tables ∧
      ∀ i j t, lookups S.mysql (messageHistory d).sender (messageHistory d).peer w.tables =
        some (i, j, t) → i = 0 ∨ j = 0 ∨ Related t i j := by
  change _ ∧ (∀ e ∈ _, _) ∧ True ↔ _
  rw [faultOf_both_iff]
  refine and_congr_right fun _ => ?_
  rw [doEvent_eq]
  rcases h : lookups S.mysql (messageHistory d).sender (messageHistory d).peer w.tables with
    _ | ⟨i, j, t⟩
  · refine ⟨fun _ _ _ _ hnone => by simp at hnone, fun _ => ⟨(both_stops _ _ h).2, trivial⟩⟩
  · obtain ⟨w₁, l, rfl, -, hl, -, htrace⟩ := both_goes (g := (messageHistory d).rest) _ _ h
    rw [htrace, List.forall_mem_append]
    refine ⟨fun habs => ?_, fun hrelated => ⟨⟨hl, ?_⟩, trivial⟩⟩
    · rintro _ _ _ ⟨⟩
      by_contra hnot
      have hsends : Sends S ((messageHistory d).rest i j) w₁ :=
        (sends_getRelationId (by tauto) (by tauto)).bind
      exact hsends.not_abstains habs.1.2
    · have habs := abstains_getRelationId (S := S) (hrelated i j _ rfl)
      intro e he
      rw [rest, trace_bind, List.mem_append] at he
      rcases he with he | he
      · exact habs e he
      · generalize Prog.run (serve S allOk) (CRelationModel.getRelationId i j true) w₁ = r at he
        rcases r with ⟨_ | n, w₂⟩
        · exact absurd he List.not_mem_nil
        · exact (readsOnly_history d n).of_mem_trace he

end PairRequest

/-- A request about an unknown user is refused exactly where it does no harm. -/
theorem refuses_iff_harmless (S : Server) (q : PairRequest) (w : World) :
    q.Refuses S w ↔
      (q.sender.Unknown S.mysql.toCollation w.tables ∨
        q.peer.Unknown S.mysql.toCollation w.tables → q.Harmless S.mysql w.tables) := by
  refine imp_congr_right fun _ => ?_
  cases q with
  | messageCreate d =>
    exact iff_of_false (PairRequest.not_abstains_messageCreate d) fun h => h.2
  | messageSend d =>
    rw [PairRequest.abstains_messageSend_iff, PairRequest.Harmless]
  | messageHistory d =>
    rw [PairRequest.abstains_messageHistory_iff]
    rcases h : lookups S.mysql _ _ w.tables with _ | ⟨i, j, t⟩
    · simp [PairRequest.Harmless, h]
    · simp [PairRequest.Harmless, h]

/-- A session with a user that nobody registered is made, and answered as made. -/
theorem not_refuses_zoe : ¬PairRequest.Refuses (Server.rejecting .binary)
    (.messageCreate ⟨ascii "1", ascii "1", ascii "ann", ascii "zoe", ascii "a"⟩) twoUsers := by
  intro h
  obtain ⟨-, -, hfailed⟩ := h (by decide +kernel)
  revert hfailed
  decide +kernel

end WzxServer
