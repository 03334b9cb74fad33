import WzxServer.Directory

/-!
# Creating a session

`addSession` looks for the row of a user and a peer, removed or not. It inserts one, or
renews the one that is there, and takes an update that changes nothing for an error. So it
gives the same id again and again as long as each renewal changes its row
(`idempotent_of_renews`), and fails where a request comes in the same second with the same
avatar as the last.

The invariant of a run is `Slot` : the pair has the session `id`, or has none and will be given
this id by `AUTO_INCREMENT`. A request fills the slot or renews what is in it, and a removal
only marks the row. Other pairs do not come into these runs.
-/

namespace WzxServer

open Prog Proc World

/-! ## The model -/

/-- The rows of a user and a peer. -/
def Tables.sessionsOf (t : Tables) (userId peerId type : ℤ) : List SessionRow :=
  t.sessions.filter fun r => r.userId = userId ∧ r.peerId = peerId ∧ r.type = type

/-- The ids of sessions are given by `AUTO_INCREMENT`. -/
structure SessionKeys (t : Tables) : Prop where
  pos : ∀ r ∈ t.sessions, 0 < r.id
  next_pos : 0 < t.nextSession

/-- A row that is renewed. -/
def SessionRow.renew (peerTouXiang : Bytes) (now : ℤ) (r : SessionRow) : SessionRow :=
  { r with status := 0, peerTouXiang := peerTouXiang, updated := now }

/-- A row that is removed. -/
def SessionRow.remove (now : ℤ) (r : SessionRow) : SessionRow :=
  { r with status := 1, updated := now }

/-- The tables with `f` done to the session `id`. -/
def Tables.updateSession (t : Tables) (id : ℤ) (f : SessionRow → SessionRow) : Tables :=
  { t with sessions := t.sessions.map fun r => if r.id = id then f r else r }

/-- The tables with a new session. -/
def Tables.addSession (t : Tables) (userId peerId type now : ℤ) (peerTouXiang : Bytes) : Tables :=
  { t with
    sessions := t.sessions ++ [⟨t.nextSession, userId, peerId, type, 0, now, now, peerTouXiang⟩]
    nextSession := t.nextSession + 1 }

variable {S : Server} {w : World} {i j k : ℤ} {touxiang : Bytes}

theorem inert_decimal (n : ℤ) : mysql.inert (decimal n) = true :=
  Quoting.inert_of_plain fun c hc => by
    refine not_or.2 ?_
    rcases mem_decimal hc with rfl | hdigit
    · decide
    · refine ⟨?_, ?_⟩ <;> rintro rfl <;> revert hdigit <;> decide

/-- The last session of the two, whatever its status. -/
theorem ends_getSessionId_all :
    Ends (serve S allOk) (CSessionModel.getSessionId i j k true) w fun n w' =>
      n = ((w.tables.sessionsOf i j k).map SessionRow.id).getLast?.getD (-1) ∧ w.Same w' := by
  have hselect : S.mysql.exec (.getSessionId i j k true) w.tables =
      .select w.tables ((w.tables.sessionsOf i j k).map fun r => idRow r.id) := by
    rw [MySQL.exec_of_plain rfl, Stmt.effect]
    simp [Tables.sessionsOf]
  rw [CSessionModel.getSessionId, ends_getDBConn_bind rfl]
  dsimp only
  refine ends_executeQuery_bind w.txn_acquire hselect rfl ?_
  intro w₁ hsame htxn
  rw [lastId_idRows, ret_bind, ends_ask_bind]
  simp only [serve, pure_eq_ret, ends_ret]
  exact ⟨trivial, w.same_acquire.trans hsame⟩

/-- A session that is missing is inserted. -/
theorem ends_addSession_insert (h : w.tables.sessionsOf i j k = []) :
    Ends (serve S allOk) (CSessionModel.addSession i j k touxiang) w fun n w' =>
      n = w.tables.nextSession ∧
        w'.tables = w.tables.addSession i j k (S.clock w.reads) touxiang ∧
        w'.reads = w.reads + 1 ∧ w'.sent = w.sent := by
  have hinsert := MySQL.exec_of_plain (M := S.mysql)
    (s := .addSessionInsert i j k 0 (S.clock w.reads) touxiang) rfl w.tables
  rw [CSessionModel.addSession]
  refine ends_getSessionId_all.bind ?_
  rintro _ w₁ ⟨rfl, hsame⟩
  rw [h, ends_time_bind, ends_getDBConn_bind rfl, hsame.reads]
  refine (ends_insertPrepared (txn_acquire _) rfl rfl).bind ?_
  rintro _ w₂ ⟨hframe, rfl, htables⟩
  rw [acquire_tables, hsame.tables, hinsert] at htables ⊢
  rw [ends_ask_bind, pure_eq_ret, ends_ret]
  exact ⟨rfl, htables, hframe.reads, hframe.sent.trans hsame.sent⟩

/-- A session that is there is renewed. -/
theorem ends_addSession_update {r : SessionRow} (h : w.tables.sessionsOf i j k = [r])
    (hid : r.id ≠ -1)
    (hfits : (Stmt.addSessionUpdate touxiang (S.clock w.reads) r.id).text.length < 200)
    (hinert : mysql.inert touxiang = true) (hnew : r.renew touxiang (S.clock w.reads) ≠ r) :
    Ends (serve S allOk) (CSessionModel.addSession i j k touxiang) w fun n w' =>
      n = r.id ∧ w'.tables = w.tables.updateSession r.id (·.renew touxiang (S.clock w.reads)) ∧
        w'.reads = w.reads + 1 ∧ w'.sent = w.sent := by
  have hupdate := MySQL.exec_of_inert (M := S.mysql)
    (s := .addSessionUpdate touxiang (S.clock w.reads) r.id)
    (by simp [Stmt.Inert, Stmt.fields, Stmt.template, hinert, inert_decimal]) w.tables
  have hmem : r ∈ w.tables.sessions :=
    (List.mem_filter.mp (h ▸ List.mem_singleton_self r : r ∈ w.tables.sessionsOf i j k)).1
  have haffected : 0 < ((Stmt.addSessionUpdate touxiang (S.clock w.reads) r.id).effect
      S.mysql.toCollation w.tables).affected := by
    refine List.countP_pos_iff.2 ⟨r, hmem, decide_eq_true ?_⟩
    dsimp only
    rwa [if_pos rfl]
  rw [CSessionModel.addSession]
  refine ends_getSessionId_all.bind ?_
  rintro _ w₁ ⟨rfl, hsame⟩
  rw [h, ends_time_bind, ends_getDBConn_bind rfl, hsame.reads]
  simp only [List.map_cons, List.map_nil, List.getLast?_singleton, Option.getD_some, ne_eq, hid,
    not_false_eq_true, if_true, sprintf, hfits, ret_bind]
  refine (ends_executeUpdate (txn_acquire _) rfl).bind ?_
  rintro _ w₂ ⟨hframe, rfl, htables⟩
  rw [acquire_tables, hsame.tables, hupdate] at htables ⊢
  rw [decide_eq_true haffected, if_pos rfl, ends_ask_bind, pure_eq_ret, ends_ret]
  exact ⟨rfl, htables, hframe.reads, hframe.sent.trans hsame.sent⟩

/-- A removal marks the session. -/
theorem ends_removeSession (nSessionId : ℤ) :
    Ends (serve S allOk) (CSessionModel.removeSession nSessionId) w fun _ w' =>
      w'.tables = w.tables.updateSession nSessionId (·.remove (S.clock w.reads)) ∧
        w'.sent = w.sent := by
  have hremove := MySQL.exec_of_plain (M := S.mysql)
    (s := .removeSession (S.clock w.reads) nSessionId) rfl w.tables
  rw [CSessionModel.removeSession, updateNow, ends_getDBConn_bind rfl]
  dsimp only
  rw [ends_time_bind]
  have hconn : ({ w.acquire with reads := w.acquire.reads + 1 } : World).txn w.conns = none :=
    w.txn_acquire
  refine (ends_executeUpdate hconn rfl).bind ?_
  rintro _ w₁ ⟨hframe, -, htables⟩
  rw [acquire_reads, acquire_tables, hremove] at htables
  rw [ends_ask_bind, pure_eq_ret, ends_ret]
  exact ⟨htables, hframe.sent⟩

/-! ## One slot for each pair -/

section Slot

variable {t : Tables} {id : ℤ}

/-- An update keeps who the sessions are of. -/
theorem sessionsOf_updateSession (t : Tables) (id i j k : ℤ) {f : SessionRow → SessionRow}
    (hf : ∀ r, (f r).userId = r.userId ∧ (f r).peerId = r.peerId ∧ (f r).type = r.type) :
    (t.updateSession id f).sessionsOf i j k =
      (t.sessionsOf i j k).map fun r => if r.id = id then f r else r := by
  rw [Tables.sessionsOf, Tables.updateSession, List.filter_map]
  refine congrArg (List.map _) (List.filter_congr fun r _ => ?_)
  simp only [Function.comp_apply]
  split_ifs
  · rw [(hf r).1, (hf r).2.1, (hf r).2.2]
  · rfl

/-- A new session is the last. -/
theorem sessionsOf_addSession (t : Tables) (i j k now : ℤ) (touxiang : Bytes) :
    (t.addSession i j k now touxiang).sessionsOf i j k =
    t.sessionsOf i j k ++ [⟨t.nextSession, i, j, k, 0, now, now, touxiang⟩] := by
  simp [Tables.sessionsOf, Tables.addSession]

/-- Updates keep the ids. -/
theorem SessionKeys.updateSession (h : SessionKeys t) {f : SessionRow → SessionRow}
    (hf : ∀ r, (f r).id = r.id) : SessionKeys (t.updateSession id f) := by
  refine ⟨?_, h.next_pos⟩
  rw [Tables.updateSession, List.forall_mem_map]
  intro r hr
  split_ifs
  · rw [hf]
    exact h.pos r hr
  · exact h.pos r hr

/-- A new session has a new id. -/
theorem SessionKeys.addSession (h : SessionKeys t) (now : ℤ) :
    SessionKeys (t.addSession i j k now touxiang) := by
  refine ⟨fun r hr => ?_, ?_⟩
  · rcases List.mem_append.mp hr with hr | hr
    · exact h.pos r hr
    · obtain rfl := List.mem_singleton.mp hr
      exact h.next_pos
  · have := h.next_pos
    simp only [Tables.addSession]
    omega

/-- The pair has the session `id`, or will get it. -/
def Slot (t : Tables) (i j id : ℤ) : Prop :=
  t.sessionsOf i j 0 = [] ∧ t.nextSession = id ∨ ∃ r, t.sessionsOf i j 0 = [r] ∧ r.id = id

/-- A removed session keeps its slot. -/
theorem Slot.remove (h : Slot t i j id) (nSessionId now : ℤ) :
    Slot (t.updateSession nSessionId (·.remove now)) i j id := by
  have hrows := sessionsOf_updateSession t nSessionId i j 0 (f := (·.remove now)) fun _ =>
    ⟨rfl, rfl, rfl⟩
  rcases h with ⟨h, hnext⟩ | ⟨r, h, hid⟩
  · exact Or.inl ⟨by rw [hrows, h, List.map_nil], hnext⟩
  · refine Or.inr ⟨_, by rw [hrows, h, List.map_singleton], ?_⟩
    split_ifs <;> exact hid

end Slot

/-- What a renewal needs : its text is read as it is and fits, and it changes the row. -/
def Renews (touxiang : Bytes) (now : ℤ) (r : SessionRow) : Prop :=
  (Stmt.addSessionUpdate touxiang now r.id).text.length < 200 ∧ mysql.inert touxiang = true ∧
    r.renew touxiang now ≠ r

instance (touxiang : Bytes) (now : ℤ) (r : SessionRow) : Decidable (Renews touxiang now r) :=
  inferInstanceAs (Decidable (_ ∧ _ ∧ _))

/-- A session is created, or renewed, as the one of its slot. -/
theorem ends_addSession {id : ℤ} (hkeys : SessionKeys w.tables) (hslot : Slot w.tables i j id)
    (h : ∀ r ∈ w.tables.sessionsOf i j 0, Renews touxiang (S.clock w.reads) r) :
    Ends (serve S allOk) (CSessionModel.addSession i j 0 touxiang) w fun n w' => n = id ∧
      (∃ r, w'.tables.sessionsOf i j 0 = [r] ∧ r.id = id ∧ r.status = 0) ∧
        SessionKeys w'.tables ∧ w'.tables.users = w.tables.users ∧ w'.sent = w.sent := by
  rcases hslot with ⟨hrows, rfl⟩ | ⟨r, hrows, rfl⟩
  · refine (ends_addSession_insert hrows).mono ?_
    rintro _ w' ⟨rfl, htables, -, hsent⟩
    have hrows' := sessionsOf_addSession w.tables i j 0 (S.clock w.reads) touxiang
    rw [hrows, List.nil_append] at hrows'
    rw [htables]
    exact ⟨rfl, ⟨_, hrows', rfl, rfl⟩, hkeys.addSession _, rfl, hsent⟩
  · obtain ⟨hfits, hinert, hnew⟩ := h r (hrows ▸ List.mem_singleton_self r)
    have hmem : r ∈ w.tables.sessions :=
      (List.mem_filter.mp (hrows ▸ List.mem_singleton_self r : r ∈ w.tables.sessionsOf i j 0)).1
    have hpos := hkeys.pos r hmem
    refine (ends_addSession_update hrows (by omega) hfits hinert hnew).mono ?_
    rintro _ w' ⟨rfl, htables, -, hsent⟩
    have hrows' := sessionsOf_updateSession w.tables r.id i j 0
      (f := (·.renew touxiang (S.clock w.reads))) fun _ => ⟨rfl, rfl, rfl⟩
    rw [hrows, List.map_singleton, if_pos rfl] at hrows'
    rw [htables]
    exact ⟨rfl, ⟨_, hrows', rfl, rfl⟩, hkeys.updateSession fun _ => rfl, rfl, hsent⟩

/-! ## Runs -/

/-- What happens to the session of two users : one of them asks for it, with an avatar, or it
is removed. -/
inductive SessionEvent where
  /-- A request for the session, with an avatar. -/
  | create (m_peertouxiang : Bytes)
  /-- The session is marked as removed. -/
  | remove (nSessionId : ℤ)

/-- The text that looks for the user is read as it is, and fits. -/
def UserName.Sought (u : UserName) : Prop :=
  (Stmt.getUserId u.classnum u.account).text.length < 100 ∧
    (Stmt.getUserId u.classnum u.account).Inert

instance (u : UserName) : Decidable u.Sought :=
  inferInstanceAs (Decidable (_ ∧ _))

namespace SessionEvent

variable (S : Server) (u v : UserName)

/-- The handler of a creation, and the model behind a removal. -/
def prog : SessionEvent → Proc Unit
  | create m_peertouxiang =>
    MessageCreateEvent ⟨u.classnum, v.classnum, u.account, v.account, m_peertouxiang⟩
  | remove nSessionId => do
    let _ ← CSessionModel.removeSession nSessionId
    return ()

/-- The world after an event, with no error of the database. -/
def next (e : SessionEvent) (w : World) : World :=
  (Prog.run (serve S allOk) (e.prog u v) w).2

/-- The request is answered as it should be, by the one session `id` of the pair. -/
def Answered (id : ℤ) (w : World) : SessionEvent → Prop
  | create m_peertouxiang =>
    let i := idOf S.mysql.toCollation w.tables.users u
    let j := idOf S.mysql.toCollation w.tables.users v
    let w' := (create m_peertouxiang).next S u v w
    (Prog.run (serve S allOk) (CSessionModel.addSession i j 0 m_peertouxiang) w).1 = some id ∧
      newly w w' = [.messageCreate .messageCreateSuccess] ∧
      ∃ r, w'.tables.sessionsOf i j 0 = [r] ∧ r.id = id ∧ r.status = 0
  | remove _ => True

/-- Where the session is there, the request renews it. -/
def Fresh (w : World) : SessionEvent → Prop
  | create m_peertouxiang =>
    ∀ r ∈ w.tables.sessionsOf (idOf S.mysql.toCollation w.tables.users u)
      (idOf S.mysql.toCollation w.tables.users v) 0, Renews m_peertouxiang (S.clock w.reads) r
  | remove _ => True

instance (w : World) : (e : SessionEvent) → Decidable (e.Fresh S u v w)
  | create _ => inferInstanceAs (Decidable (∀ r ∈ _, Renews _ _ r))
  | remove _ => inferInstanceAs (Decidable True)

end SessionEvent

/-- All requests of a run get the session `id`. -/
def Idempotent (S : Server) (u v : UserName) (id : ℤ) : List SessionEvent → World → Prop
  | [], _ => True
  | e :: es, w => e.Answered S u v id w ∧ Idempotent S u v id es (e.next S u v w)

/-- All requests of a run renew the session if it is there. -/
def AllFresh (S : Server) (u v : UserName) : List SessionEvent → World → Prop
  | [], _ => True
  | e :: es, w => e.Fresh S u v w ∧ AllFresh S u v es (e.next S u v w)

instance decidableAllFresh (S : Server) (u v : UserName) :
    (es : List SessionEvent) → (w : World) → Decidable (AllFresh S u v es w)
  | [], _ => inferInstanceAs (Decidable True)
  | e :: es, w =>
    have := decidableAllFresh S u v es (e.next S u v w)
    inferInstanceAs (Decidable (_ ∧ _))

/-- A creation gives the slot its avatar, or makes it. -/
theorem ends_messageCreate {u v : UserName} {id : ℤ} (hu : u.Sought) (hv : v.Sought)
    (hkeys : SessionKeys w.tables)
    (hslot : Slot w.tables (idOf S.mysql.toCollation w.tables.users u)
      (idOf S.mysql.toCollation w.tables.users v) id)
    (h : (SessionEvent.create touxiang).Fresh S u v w) :
    Ends (serve S allOk) ((SessionEvent.create touxiang).prog u v) w fun _ w' =>
      (∃ r, w'.tables.sessionsOf (idOf S.mysql.toCollation w.tables.users u)
          (idOf S.mysql.toCollation w.tables.users v) 0 = [r] ∧ r.id = id ∧ r.status = 0) ∧
        SessionKeys w'.tables ∧ w'.tables.users = w.tables.users ∧
        w'.sent = w.sent ++ [.messageCreate .messageCreateSuccess] := by
  rw [SessionEvent.prog, MessageCreateEvent]
  refine (ends_getUserId_idOf hu.1 hu.2).bind ?_
  rintro _ w₁ ⟨rfl, h₁⟩
  refine (ends_getUserId_idOf (w := w₁) hv.1 hv.2).bind ?_
  rintro _ w₂ ⟨rfl, h₂⟩
  have hsame := h₁.trans h₂
  rw [h₁.tables]
  rw [← hsame.tables] at hkeys hslot ⊢
  rw [SessionEvent.Fresh, ← hsame.tables, ← hsame.reads] at h
  refine (ends_addSession hkeys hslot h).bind ?_
  rintro n w₃ ⟨rfl, hrow, hkeys', husers, hsent⟩
  have hpos : 0 < n := by
    obtain ⟨r, hrows, rfl, -⟩ := hrow
    exact hkeys'.pos r (List.mem_filter.mp (hrows ▸ List.mem_singleton_self r)).1
  rw [if_neg (by omega), ends_ask]
  exact ⟨hrow, hkeys', husers, congrArg (· ++ [Reply.messageCreate .messageCreateSuccess])
    (hsent.trans hsame.sent)⟩

/-- One event keeps the slot of the pair. -/
theorem slot_next {u v : UserName} {id : ℤ} (hu : u.Sought) (hv : v.Sought)
    (hkeys : SessionKeys w.tables)
    (hslot : Slot w.tables (idOf S.mysql.toCollation w.tables.users u)
      (idOf S.mysql.toCollation w.tables.users v) id)
    {e : SessionEvent} (h : e.Fresh S u v w) :
    e.Answered S u v id w ∧ SessionKeys (e.next S u v w).tables ∧
      Slot (e.next S u v w).tables
        (idOf S.mysql.toCollation (e.next S u v w).tables.users u)
        (idOf S.mysql.toCollation (e.next S u v w).tables.users v) id := by
  cases e with
  | create touxiang =>
    obtain ⟨_, w', hrun, hrow, hkeys', husers, hsent⟩ := ends_messageCreate hu hv hkeys hslot h
    obtain ⟨n, w'', hrun', rfl, -⟩ := ends_addSession hkeys hslot h
    have hnext : (SessionEvent.create touxiang).next S u v w = w' := congrArg Prod.snd hrun
    rw [SessionEvent.Answered, hnext, husers]
    refine ⟨⟨congrArg Prod.fst hrun', ?_, hrow⟩, hkeys', ?_⟩
    · rw [newly, hsent, List.drop_left]
    · obtain ⟨r, hrows, hid, -⟩ := hrow
      exact Or.inr ⟨r, hrows, hid⟩
  | remove nSessionId =>
    obtain ⟨_, w', hrun, htables, -⟩ := ends_removeSession (S := S) (w := w) nSessionId
    have hnext : (SessionEvent.remove nSessionId).next S u v w = w' := by
      rw [SessionEvent.next, SessionEvent.prog, run_bind_of_some _ hrun]
      rfl
    rw [hnext, htables]
    exact ⟨trivial, hkeys.updateSession fun _ => rfl, hslot.remove _ _⟩

/-- As long as every request for a session that is there renews it, all requests get the one
session of the pair. -/
theorem idempotent_of_renews {u v : UserName} (hu : u.Sought) (hv : v.Sought)
    (hkeys : SessionKeys w.tables) {es : List SessionEvent}
    (hone : (w.tables.sessionsOf (idOf S.mysql.toCollation w.tables.users u)
      (idOf S.mysql.toCollation w.tables.users v) 0).length ≤ 1)
    (hfresh : AllFresh S u v es w) : ∃ id, Idempotent S u v id es w := by
  have hrun : ∀ {id : ℤ} {es : List SessionEvent} {w : World}, SessionKeys w.tables →
      Slot w.tables (idOf S.mysql.toCollation w.tables.users u)
        (idOf S.mysql.toCollation w.tables.users v) id →
      AllFresh S u v es w → Idempotent S u v id es w := by
    intro id es
    induction es with
    | nil => exact fun _ _ _ => trivial
    | cons e es ih =>
      rintro w hkeys hslot ⟨hfresh, hrest⟩
      obtain ⟨hans, hkeys', hslot'⟩ := slot_next hu hv hkeys hslot hfresh
      exact ⟨hans, ih hkeys' hslot' hrest⟩
  rcases hrows : w.tables.sessionsOf (idOf S.mysql.toCollation w.tables.users u)
    (idOf S.mysql.toCollation w.tables.users v) 0 with _ | ⟨r, _ | ⟨r', rows⟩⟩
  · exact ⟨_, hrun hkeys (Or.inl ⟨hrows, rfl⟩) hfresh⟩
  · exact ⟨_, hrun hkeys (Or.inr ⟨r, hrows, rfl⟩) hfresh⟩
  · rw [hrows] at hone
    simp at hone

/-- Two users who have no session. -/
def twoUsers : World :=
  World.start { Tables.empty with
    users := [.new (ascii "1") (ascii "ann") [] [] 1, .new (ascii "1") (ascii "ben") [] [] 2] }

/-- In one second, with another avatar or after it was removed, the session is renewed. -/
theorem idempotent_of_renews_twoUsers :
    ∃ id, Idempotent (Server.rejecting .binary) ⟨ascii "1", ascii "ann"⟩ ⟨ascii "1", ascii "ben"⟩ id
      [.create (ascii "a"), .create (ascii "b"), .remove 1, .create (ascii "b")] twoUsers :=
  idempotent_of_renews (by decide +kernel) (by decide +kernel) ⟨by simp [twoUsers, World.start,
    Tables.empty], by decide⟩ (by decide +kernel) (by decide +kernel)

/-- The second of two requests that come in one second with one avatar fails. -/
theorem not_idempotent_again :
    ¬∃ id, Idempotent (Server.rejecting .binary) ⟨ascii "1", ascii "ann"⟩ ⟨ascii "1", ascii "ben"⟩ id
      [.create (ascii "a"), .create (ascii "a")] twoUsers := by
  rintro ⟨id, -, ⟨-, hanswer, -⟩, -⟩
  revert hanswer
  decide +kernel

end WzxServer
