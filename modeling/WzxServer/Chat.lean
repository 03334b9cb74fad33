import WzxServer.Relations
import Mathlib.Data.Set.Defs

/-!
# Conversations

`Entry` is a message as its sender meant it, and a `ChatRun` is a run of requests that send
messages and ask for histories, with the list of the messages sent. `Chat` is what every
request keeps : `message_table` holds the list, entry by entry, each under the relation of
its two users. Hence a history collects the messages of its two users in its window and
nothing else (`ends_history`).

The reply to a history has 20 bytes for each name. A name that is longer can be registered
and can send, and overruns the reply.

A request goes through three tables : the users, where a name leads to an id and back
(`Directory`), the relations, where the pair of ids has one row (`Relations`), and the messages.
`Keeps` ties a row of the last to the entry that it keeps, through the other two, and stays true
when relations are added. The first half of both kinds of requests is the same, and is gone
through once (`ends_located_bind`).
-/

namespace WzxServer

open Prog Proc World

/-- A message with the second in which it was stored. -/
structure Entry where
  sender : UserName
  receiver : UserName
  content : Bytes
  created : ℤ
  deriving DecidableEq

/-- From one of the two to the other. -/
def Entry.Between (a b : UserName) (m : Entry) : Prop :=
  m.sender = a ∧ m.receiver = b ∨ m.sender = b ∧ m.receiver = a

instance (a b : UserName) (m : Entry) : Decidable (m.Between a b) :=
  inferInstanceAs (Decidable (_ ∨ _))

/-- The form in which a message goes back to a client. -/
def Entry.reply (m : Entry) : MessageSendData :=
  ⟨m.sender.classnum, m.receiver.classnum, m.sender.account, m.receiver.account, m.created,
    m.content⟩

/-- The request to send `content` from `a` to `b`. -/
def sendRequest (a b : UserName) (content : Bytes) (updatetime : ℤ) : MessageSendData :=
  ⟨a.classnum, b.classnum, a.account, b.account, updatetime, content⟩

/-- The request of `a` for the messages exchanged with `b` since `lastupdatetime`. -/
def historyRequest (a b : UserName) (lastupdatetime : ℤ) : MessageHistoryData :=
  ⟨a.classnum, b.classnum, a.account, b.account, lastupdatetime⟩

/-- The answer to a history. -/
def historyReplies (ms : List MessageSendData) : List Reply :=
  if ms.length = 0 then [.historyCount 0 .messageHistoryFailed]
  else .historyCount ms.length .messageHistorySuccess :: ms.map .message

/-- A C string of at most 4095 bytes. -/
def IsContent (content : Bytes) : Prop :=
  0 ∉ content ∧ content.length ≤ 4095

instance (content : Bytes) : Decidable (IsContent content) :=
  inferInstanceAs (Decidable (_ ∧ _))

/-- The names fit into the fields of the reply. -/
def Carried (u : UserName) : Prop :=
  u.classnum.length ≤ 20 ∧ u.account.length ≤ 20

instance (u : UserName) : Decidable (Carried u) :=
  inferInstanceAs (Decidable (_ ∧ _))

/-- The world once a request is handled. -/
def World.handled (S : Server) (w : World) (p : Proc Unit) : World :=
  (Prog.run (serve S allOk) p w).2

/-- The last reading of the clock. -/
def World.lastTime (S : Server) (w : World) : ℤ :=
  S.clock (w.reads - 1)

/-- The messages that the users of `Us` have sent since there were none, and the world
after a run of such requests and of requests for histories. The last reading of the clock
by a request is the time of its message. A request comes while there is an id left for a
relation : without one the insertion fails. -/
inductive ChatRun (S : Server) (us : List UserRow) (Us : Set UserName) : List Entry → World → Prop
  /-- Nothing was sent, and nobody is related. -/
  | start {w : World} (husers : w.tables.users = us) (hmessages : w.tables.messages = [])
      (hrelations : w.tables.relations = []) (hnext : 0 < w.tables.nextRelation) :
      ChatRun S us Us [] w
  /-- A message, with the last reading of the clock as its time. -/
  | send {log : List Entry} {w : World} (h : ChatRun S us Us log w)
      (hids : IsInt w.tables.nextRelation) {a b : UserName} (ha : a ∈ Us) (hb : b ∈ Us)
      {content : Bytes} (hcontent : IsContent content) (updatetime : ℤ) :
      ChatRun S us Us
        (log ++ [⟨a, b, content,
          (w.handled S (MessageSendEvent (sendRequest a b content updatetime))).lastTime S⟩])
        (w.handled S (MessageSendEvent (sendRequest a b content updatetime)))
  /-- A history, which sends nothing. -/
  | history {log : List Entry} {w : World} (h : ChatRun S us Us log w)
      (hids : IsInt w.tables.nextRelation) {a b : UserName} (ha : a ∈ Us) (hb : b ∈ Us)
      {lastupdatetime : ℤ} (htime : IsInt lastupdatetime) :
      ChatRun S us Us log
        (w.handled S (MessageHistoryEvent (historyRequest a b lastupdatetime)))

/-! ## The tables -/

/-- A row of `message_table` that keeps the message `m` between users of `Us`. -/
structure Keeps (e : Collation) (Us : Set UserName) (t : Tables) (row : MessageRow)
    (m : Entry) : Prop where
  sender_mem : m.sender ∈ Us
  receiver_mem : m.receiver ∈ Us
  isContent : IsContent m.content
  /-- The row of the pair is in the table of relations. -/
  relation : ∃ r ∈ t.relations, r.id = row.relateId ∧
    r.pair = pairOf (idOf e t.users m.sender) (idOf e t.users m.receiver)
  /-- The ids are those that the directory gives to the names. -/
  fromId : row.fromId = idOf e t.users m.sender
  toId : row.toId = idOf e t.users m.receiver
  content : row.content = m.content
  /-- The type of every message that a client sends. -/
  type : row.type = 1
  /-- Both times are the second in which it was stored. -/
  updated : row.updated = m.created
  created : row.created = m.created

/-- The tables hold the messages of `log`, in order. -/
structure Chat (e : Collation) (Us : Set UserName) (log : List Entry) (t : Tables) : Prop where
  /-- There is one row for each pair. -/
  relations : Relations t
  /-- The rows are the entries, in order. -/
  messages : List.Forall₂ (Keeps e Us t) t.messages log

variable {e : Collation} {Us : Set UserName} {log : List Entry} {t : Tables}

/-- A row is kept by all tables with the same users and the relations there were. -/
theorem Keeps.of_tables {t' : Tables} {row : MessageRow} {m : Entry} (h : Keeps e Us t row m)
    (husers : t'.users = t.users) (hrelations : ∀ r ∈ t.relations, r ∈ t'.relations) :
    Keeps e Us t' row m := by
  obtain ⟨hsender, hreceiver, hisContent, ⟨r, hr, hid, hpair⟩, hfrom, hto, hcontent⟩ := h
  exact ⟨hsender, hreceiver, hisContent, ⟨r, hrelations r hr, hid, by rwa [husers]⟩,
    by rwa [husers], by rwa [husers], hcontent, by assumption, by assumption, by assumption⟩

/-- A relation more changes nothing. -/
theorem Chat.relate (h : Chat e Us log t) (i j now : ℤ) : Chat e Us log (t.relate i j now) := by
  refine ⟨h.relations.relate i j now, ?_⟩
  rw [messages_relate]
  exact h.messages.imp fun _ _ hkeeps =>
    hkeeps.of_tables (users_relate t i j now) fun _ hr => mem_relate hr i j now

/-- The sessions do not matter to the conversation. -/
theorem Chat.sessions (h : Chat e Us log t) (rows : List SessionRow) :
    Chat e Us log { t with sessions := rows } := by
  obtain ⟨⟨hstatus, hids, hpairs, hnext, hlt⟩, hmessages⟩ := h
  exact ⟨⟨hstatus, hids, hpairs, hnext, hlt⟩,
    hmessages.imp fun _ _ hkeeps => hkeeps.of_tables rfl fun _ hr => hr⟩

/-- A message more is one row more. -/
theorem Chat.message (h : Chat e Us log t) {row : MessageRow} {m : Entry}
    (hkeeps : Keeps e Us t row m) (next : ℤ) :
    Chat e Us (log ++ [m])
      { t with messages := t.messages ++ [row], nextMessage := next } := by
  obtain ⟨⟨hstatus, hids, hpairs, hnext, hlt⟩, hmessages⟩ := h
  refine ⟨⟨hstatus, hids, hpairs, hnext, hlt⟩, List.rel_append ?_ (.cons ?_ .nil)⟩
  · exact hmessages.imp fun _ _ hkeeps => hkeeps.of_tables rfl fun _ hr => hr
  · exact hkeeps.of_tables rfl fun _ hr => hr

/-- The messages under a relation are those between its two users. -/
theorem Keeps.relateId_iff (hdir : Directory t.users) (hmember : ∀ u ∈ Us, Member e t.users u)
    (h : Relations t) {row : MessageRow} {m : Entry} (hkeeps : Keeps e Us t row m)
    {a b : UserName} (ha : a ∈ Us) (hb : b ∈ Us) {r : RelationRow} (hr : r ∈ t.relations)
    (hpair : r.pair = pairOf (idOf e t.users a) (idOf e t.users b)) :
    row.relateId = r.id ↔ m.Between a b := by
  obtain ⟨s, hs, hid, hspair⟩ := hkeeps.relation
  have hids : idOf e t.users m.sender = idOf e t.users a ∧
        idOf e t.users m.receiver = idOf e t.users b ∨
      idOf e t.users m.sender = idOf e t.users b ∧
        idOf e t.users m.receiver = idOf e t.users a ↔ m.Between a b := by
    have hinj : ∀ u ∈ Us, ∀ v ∈ Us, idOf e t.users u = idOf e t.users v ↔ u = v :=
      fun u hu v hv => ⟨idOf_injective hdir (hmember u hu) (hmember v hv), congrArg _⟩
    rw [hinj _ hkeeps.sender_mem a ha, hinj _ hkeeps.receiver_mem b hb,
      hinj _ hkeeps.sender_mem b hb, hinj _ hkeeps.receiver_mem a ha]
    rfl
  rw [← hids, ← pairOf_eq_iff, ← hspair, ← hpair, ← hid]
  constructor
  · intro hrs
    rw [List.inj_on_of_nodup_map h.ids hs hr hrs]
  · intro hrs
    rw [List.inj_on_of_nodup_map h.pairs hs hr hrs]

/-- The rows of a window of a relation keep the messages of its two users in the window. -/
theorem Chat.filter (hdir : Directory t.users) (hmember : ∀ u ∈ Us, Member e t.users u)
    (h : Chat e Us log t) {a b : UserName} (ha : a ∈ Us) (hb : b ∈ Us) {r : RelationRow}
    (hr : r ∈ t.relations) (hpair : r.pair = pairOf (idOf e t.users a) (idOf e t.users b))
    (now last : ℤ) :
    List.Forall₂ (Keeps e Us t)
      (t.messages.filter fun row =>
        row.relateId = r.id ∧ row.type = 1 ∧ row.updated ≤ now ∧ last < row.updated)
      (log.filter fun m => m.Between a b ∧ last < m.created ∧ m.created ≤ now) := by
  refine List.rel_filter ?_ h.messages
  intro row m hkeeps
  have hbetween := hkeeps.relateId_iff hdir hmember h.relations ha hb hr hpair
  simp only [decide_eq_true_eq, hbetween, hkeeps.type, hkeeps.updated, true_and]
  exact and_congr_right fun _ => and_comm

/-! ## The models -/

variable {S : Server} {w : World}

/-- The session of two users is looked up, and its time set. -/
theorem ends_getSessionId (i j type : ℤ) (isAll : Bool) :
    Ends (serve S allOk) (CSessionModel.getSessionId i j type isAll) w fun _ w' =>
      w.Same w' := by
  have hselect := MySQL.exec_of_plain (M := S.mysql) (s := .getSessionId i j type isAll) rfl
    w.tables
  rw [CSessionModel.getSessionId, ends_getDBConn_bind rfl]
  refine ends_executeQuery_bind w.txn_acquire hselect rfl ?_
  intro w₁ hsame htxn
  rw [lastId_idRows, ret_bind, ends_ask_bind, pure_eq_ret, ends_ret]
  exact w.same_acquire.trans hsame

/-- An update of a session changes sessions only. -/
theorem ends_updateSession (id time : ℤ) :
    Ends (serve S allOk) (CSessionModel.updateSession id time) w fun _ w' =>
      w.Frame w' ∧ ∃ rows, w'.tables = { w.tables with sessions := rows } := by
  have hupdate := MySQL.exec_of_plain (M := S.mysql) (s := .updateSession time id) rfl w.tables
  have hexec := exec_of_none (M := S.mysql) w.txn_acquire (.updateSession time id)
  rw [acquire_tables, hupdate] at hexec
  rw [CSessionModel.updateSession, updateOnce, ends_getDBConn_bind rfl]
  simp only [ends_ask_bind, serve, allOk_eq, if_true, pure_eq_ret, ends_ret, hexec]
  exact ⟨⟨rfl, rfl, rfl⟩, _, rfl⟩

/-- A message is inserted with the time it is. -/
theorem ends_inserMessage (relateId fromId toId : ℤ) (content : Bytes) (type status : ℤ) :
    Ends (serve S allOk) (CMessageModel.inserMessage relateId fromId toId content type status) w
      fun _ w' => w'.sent = w.sent ∧ w'.reads = w.reads + 1 ∧
        w'.tables = { w.tables with
          messages := w.tables.messages ++ [⟨w.tables.nextMessage, relateId, fromId, toId, 0,
            content, type, status, S.clock w.reads, S.clock w.reads⟩]
          nextMessage := w.tables.nextMessage + 1 } := by
  have hinsert := MySQL.exec_of_plain (M := S.mysql)
    (s := .inserMessage relateId fromId toId content type status (S.clock w.reads)) rfl w.tables
  have hexec := exec_of_none (M := S.mysql) (w := { w.acquire with reads := w.reads + 1 })
    w.txn_acquire (.inserMessage relateId fromId toId content type status (S.clock w.reads))
  rw [acquire_tables, hinsert] at hexec
  rw [CMessageModel.inserMessage, ends_getDBConn_bind rfl]
  simp only [ends_ask_bind, serve, allOk_eq, if_true, ret_bind, pure_eq_ret, ends_ret,
    acquire_reads, hexec]
  exact ⟨rfl, trivial, rfl⟩

/-! ## The requests -/

/-- Where a request stands once it knows the relation `r` of its two users. -/
structure Located (e : Collation) (Us : Set UserName) (log : List Entry) (a b : UserName)
    (w : World) (r : RelationRow) (w' : World) : Prop where
  /-- The messages are as they were. -/
  chat : Chat e Us log w'.tables
  users : w'.tables.users = w.tables.users
  /-- The pair has the row `r` by now. -/
  mem : r ∈ w'.tables.relations
  pair : r.pair = pairOf (idOf e w.tables.users a) (idOf e w.tables.users b)
  /-- At most one relation was added. -/
  next_le : w'.tables.nextRelation ≤ w.tables.nextRelation + 1
  /-- The clock may have been read. -/
  reads : w.reads ≤ w'.reads
  sent : w'.sent = w.sent

/-- The part that both requests start with. -/
theorem ends_located_bind (hdir : Directory w.tables.users)
    (hmember : ∀ u ∈ Us, Member S.mysql.toCollation w.tables.users u)
    (h : Chat S.mysql.toCollation Us log w.tables) {a b : UserName} (ha : a ∈ Us) (hb : b ∈ Us)
    {f : ℤ → ℤ → ℤ → Proc Unit} {Q : Unit → World → Prop}
    (hf : ∀ r w', Located S.mysql.toCollation Us log a b w r w' →
      Ends (serve S allOk) (f (idOf S.mysql.toCollation w.tables.users a)
        (idOf S.mysql.toCollation w.tables.users b) r.id) w' Q) :
    Ends (serve S allOk) (do
      let fromId ← CUserModel.getUserId a.classnum a.account
      let toId ← CUserModel.getUserId b.classnum b.account
      let relationId ← CRelationModel.getRelationId fromId toId true
      f fromId toId relationId) w Q := by
  refine (ends_getUserId (hmember a ha)).bind ?_
  rintro _ w₁ ⟨rfl, h₁⟩
  have hmember₁ : Member S.mysql.toCollation w₁.tables.users b := by
    rw [h₁.tables]
    exact hmember b hb
  refine (ends_getUserId hmember₁).bind ?_
  rintro _ w₂ ⟨rfl, h₂⟩
  have hsame := h₁.trans h₂
  rw [h₁.tables]
  have hrelations : Relations w₂.tables := hsame.tables ▸ h.relations
  refine (ends_getRelationId hrelations ((hmember a ha).idOf_pos hdir)
    ((hmember b hb).idOf_pos hdir)).bind ?_
  rintro _ w₃ ⟨⟨now, htables⟩, ⟨r, hr, rfl, hpair⟩, hreads, hsent⟩
  rw [hsame.tables] at htables
  refine hf r w₃ ⟨?_, ?_, hr, hpair, ?_, ?_, ?_⟩
  · rw [htables]
    exact h.relate _ _ _
  · rw [htables, users_relate]
  · rw [htables]
    exact nextRelation_relate_le _ _ _ _
  · rwa [hsame.reads] at hreads
  · rw [hsent, hsame.sent]

/-- A message that is sent is kept, with the last reading of the clock. -/
theorem ends_send (hdir : Directory w.tables.users)
    (hmember : ∀ u ∈ Us, Member S.mysql.toCollation w.tables.users u)
    (h : Chat S.mysql.toCollation Us log w.tables) {a b : UserName} (ha : a ∈ Us) (hb : b ∈ Us)
    {content : Bytes} (hcontent : IsContent content) (updatetime : ℤ) :
    Ends (serve S allOk) (MessageSendEvent (sendRequest a b content updatetime)) w fun _ w' =>
      Chat S.mysql.toCollation Us (log ++ [⟨a, b, content, w'.lastTime S⟩]) w'.tables ∧
        w'.tables.users = w.tables.users ∧ w.reads < w'.reads ∧ w'.sent = w.sent := by
  rw [MessageSendEvent]
  refine ends_located_bind hdir hmember h ha hb ?_
  intro r w₁ h₁
  refine (ends_getSessionId _ _ _ _).bind ?_
  rintro sessionId w₂ h₂
  refine (ends_updateSession _ _).bind ?_
  rintro _ w₃ ⟨h₃, rows, htables₃⟩
  refine (ends_inserMessage _ _ _ _ _ _).bind ?_
  rintro _ w₄ ⟨hsent, hreads, htables⟩
  rw [pure_eq_ret, ends_ret]
  have hreads₃ : w₃.reads = w₁.reads := h₃.reads.trans h₂.reads
  have hlast : w₄.lastTime S = S.clock w₃.reads := by
    rw [lastTime, hreads, Nat.add_sub_cancel]
  rw [h₂.tables] at htables₃
  have hchat : Chat S.mysql.toCollation Us log w₃.tables := by
    rw [htables₃]
    exact h₁.chat.sessions rows
  have husers : w₃.tables.users = w.tables.users := by
    rw [htables₃, ← h₁.users]
  refine ⟨?_, ?_, ?_, ?_⟩
  · rw [htables]
    refine hchat.message ⟨ha, hb, hcontent, ⟨r, ?_, rfl, ?_⟩, ?_, ?_, rfl, rfl, hlast.symm,
      hlast.symm⟩ _
    · rw [htables₃]
      exact h₁.mem
    · rw [husers]
      exact h₁.pair
    · rw [husers]
    · rw [husers]
  · rw [htables, ← husers]
  · have := h₁.reads
    omega
  · rw [hsent, h₃.sent, h₂.sent, h₁.sent]

/-- A row goes back as the message it keeps. -/
theorem ends_messageOf (hdir : Directory w.tables.users)
    (hmember : ∀ u ∈ Us, Member S.mysql.toCollation w.tables.users u)
    (hcarried : ∀ u ∈ Us, Carried u) {row : MessageRow} {m : Entry}
    (hkeeps : Keeps S.mysql.toCollation Us w.tables row m) :
    Ends (serve S allOk) (CMessageModel.messageOf row.cells) w fun d w' =>
      d = m.reply ∧ w.Same w' := by
  obtain ⟨hzero, hlength⟩ := hkeeps.isContent
  have hcontent : getText row.cells .content = ret m.content := by
    have htake : row.content.takeWhile (· ≠ 0) = m.content := by
      rw [hkeeps.content, List.takeWhile_eq_self_iff]
      exact fun c hc => decide_eq_true fun hc0 => hzero (hc0 ▸ hc)
    exact congrArg ret htake
  have hfrom : getInt row.cells .fromId = ret (idOf S.mysql.toCollation w.tables.users m.sender) :=
    congrArg ret hkeeps.fromId
  have hto : getInt row.cells .toId = ret (idOf S.mysql.toCollation w.tables.users m.receiver) :=
    congrArg ret hkeeps.toId
  have hcreated : getInt row.cells .created = ret m.created :=
    congrArg ret hkeeps.created
  obtain ⟨hsender, hsender'⟩ := hcarried m.sender hkeeps.sender_mem
  obtain ⟨hreceiver, hreceiver'⟩ := hcarried m.receiver hkeeps.receiver_mem
  rw [CMessageModel.messageOf, hcontent, hfrom, hto, hcreated]
  simp only [ret_bind]
  refine (ends_getUserFromId hdir (hmember _ hkeeps.sender_mem)).bind ?_
  rintro _ w₁ ⟨rfl, h₁⟩
  rw [← h₁.tables] at hdir hmember ⊢
  refine (ends_getUserFromId hdir (hmember _ hkeeps.receiver_mem)).bind ?_
  rintro _ w₂ ⟨rfl, h₂⟩
  rw [ends_memcpyField_bind hsender, ends_memcpyField_bind hsender',
    ends_memcpyField_bind hreceiver, ends_memcpyField_bind hreceiver',
    ends_memcpyField_bind (hlength.trans (by decide))]
  exact ends_ret.2 ⟨rfl, h₁.trans h₂⟩

/-- The rows of a window go back as the messages they keep. -/
theorem ends_getMessage (hdir : Directory w.tables.users)
    (hmember : ∀ u ∈ Us, Member S.mysql.toCollation w.tables.users u)
    (hcarried : ∀ u ∈ Us, Carried u) (h : Chat S.mysql.toCollation Us log w.tables)
    {a b : UserName} (ha : a ∈ Us) (hb : b ∈ Us) {r : RelationRow} (hr : r ∈ w.tables.relations)
    (hpair : r.pair = pairOf (idOf S.mysql.toCollation w.tables.users a)
      (idOf S.mysql.toCollation w.tables.users b))
    {now last : ℤ} (hrelate : IsInt r.id) (hnow : IsInt now) (hlast : IsInt last) :
    Ends (serve S allOk) (CMessageModel.getMessage r.id last now) w fun ms w' =>
      ms = (log.filter fun m => m.Between a b ∧ last < m.created ∧ m.created ≤ now).map
        Entry.reply ∧ w.Same w' := by
  have hselect := MySQL.exec_of_plain (M := S.mysql) (s := .getMessage r.id 1 now last) rfl
    w.tables
  rw [CMessageModel.getMessage, ends_getDBConn_bind rfl]
  dsimp only
  rw [sprintf, if_pos (length_getMessage_lt hrelate hnow hlast), ret_bind]
  refine ends_executeQuery_bind w.txn_acquire hselect rfl ?_
  intro w₁ hsame htxn
  have h₁ : w.Same w₁ := w.same_acquire.trans hsame
  have hrows := h.filter hdir hmember ha hb hr hpair now last
  have hloop : Ends (serve S allOk) (forEach CMessageModel.messageOf
      ((w.tables.messages.filter fun row => row.relateId = r.id ∧ row.type = 1 ∧
        row.updated ≤ now ∧ last < row.updated).map MessageRow.cells)) w₁ fun ms w' =>
      ms = (log.filter fun m => m.Between a b ∧ last < m.created ∧ m.created ≤ now).map
        Entry.reply ∧ w.Same w' := by
    refine Ends.forEach (R := fun row d => ∃ r m, row = MessageRow.cells r ∧ d = Entry.reply m ∧
      Keeps S.mysql.toCollation Us w.tables r m) ?_ ?_ h₁
    · rintro _ _ ⟨row, m, rfl, rfl, hkeeps⟩ w₂ h₂
      rw [← h₂.tables] at hdir hmember hkeeps
      refine (ends_messageOf hdir hmember hcarried hkeeps).mono ?_
      rintro d w₃ ⟨rfl, h₃⟩
      exact ⟨rfl, h₂.trans h₃⟩
    · rw [List.forall₂_map_left_iff, List.forall₂_map_right_iff]
      exact hrows.imp fun row m hkeeps => ⟨row, m, rfl, rfl, hkeeps⟩
  refine hloop.bind ?_
  rintro ms w₂ ⟨rfl, h₂⟩
  rw [ends_ask_bind, pure_eq_ret, ends_ret]
  exact ⟨rfl, h₂⟩

/-- The end of a history writes its answer. -/
theorem ends_historyReplies (ms : List MessageSendData) :
    Ends (serve S allOk) (if ms.length = 0 then
        ask (.write (.historyCount 0 .messageHistoryFailed))
      else do
        ask (.write (.historyCount ms.length .messageHistorySuccess))
        let _ ← forEach (fun m => ask (.write (.message m))) ms) w fun _ w' =>
      w' = { w with sent := w.sent ++ historyReplies ms } := by
  rw [historyReplies]
  split_ifs with hlength
  · exact ends_ask.2 rfl
  · rw [ends_ask_bind]
    refine (ends_forEach_write (f := Reply.message)).bind ?_
    rintro _ _ rfl
    rw [pure_eq_ret, ends_ret]
    simp [serve, write]

/-- A history changes nothing but the relations, and collects the messages between its two
users in its window, which ends at the last reading of the clock. -/
theorem ends_history (hclock : ∀ n, IsInt (S.clock n)) (hdir : Directory w.tables.users)
    (hmember : ∀ u ∈ Us, Member S.mysql.toCollation w.tables.users u)
    (hcarried : ∀ u ∈ Us, Carried u) (h : Chat S.mysql.toCollation Us log w.tables)
    (hids : IsInt w.tables.nextRelation)
    {a b : UserName} (ha : a ∈ Us) (hb : b ∈ Us) {last : ℤ} (hlast : IsInt last) :
    Ends (serve S allOk) (MessageHistoryEvent (historyRequest a b last)) w fun _ w' =>
      Chat S.mysql.toCollation Us log w'.tables ∧ w'.tables.users = w.tables.users ∧
        w.reads < w'.reads ∧ w'.sent = w.sent ++ historyReplies ((log.filter fun m =>
          m.Between a b ∧ last < m.created ∧ m.created ≤ w'.lastTime S).map Entry.reply) := by
  rw [MessageHistoryEvent]
  refine ends_located_bind hdir hmember h ha hb ?_
  intro r w₁ h₁
  have hrelate : IsInt r.id := by
    obtain ⟨hpos, hlt⟩ := h₁.chat.relations.id_lt r h₁.mem
    have hnext := h₁.next_le
    have hmax := hids.2
    norm_num [IsInt, intMax] at hmax ⊢
    omega
  have hmember₁ : ∀ u ∈ Us, Member S.mysql.toCollation w₁.tables.users u := by
    rwa [h₁.users]
  rw [ends_ask_bind]
  refine (ends_getMessage (w := { w₁ with reads := w₁.reads + 1 }) (h₁.users ▸ hdir) hmember₁
    hcarried h₁.chat ha hb h₁.mem (h₁.users ▸ h₁.pair) hrelate (hclock w₁.reads) hlast).bind ?_
  rintro ms w₂ ⟨rfl, h₂⟩
  have hreads : w₂.reads = w₁.reads + 1 := h₂.reads
  have htables : w₂.tables = w₁.tables := h₂.tables
  have hsent : w₂.sent = w.sent := h₂.sent.trans h₁.sent
  have htime : S.clock w₁.reads = w₂.lastTime S := by
    rw [lastTime, hreads, Nat.add_sub_cancel]
  refine (ends_historyReplies _).mono ?_
  rintro _ _ rfl
  refine ⟨?_, ?_, ?_, ?_⟩
  · change Chat _ _ _ w₂.tables
    rw [htables]
    exact h₁.chat
  · change w₂.tables.users = w.tables.users
    rw [htables, h₁.users]
  · change w.reads < w₂.reads
    have := h₁.reads
    omega
  · change w₂.sent ++ _ = _
    rw [hsent, htime]
    rfl

/-! ## A run of requests -/

variable {us : List UserRow}

/-- Every request keeps the messages sent so far, each with a reading of the clock. -/
theorem chat_of_run (hclock : ∀ n, IsInt (S.clock n)) (hdir : Directory us)
    (hmember : ∀ u ∈ Us, Member S.mysql.toCollation us u) (hcarried : ∀ u ∈ Us, Carried u)
    (h : ChatRun S us Us log w) :
    w.tables.users = us ∧ Chat S.mysql.toCollation Us log w.tables ∧
      ∀ m ∈ log, ∃ n < w.reads, m.created = S.clock n := by
  induction h with
  | @start w husers hmessages hrelations hnext =>
    refine ⟨husers, ⟨⟨?_, ?_, ?_, hnext, ?_⟩, ?_⟩, by simp⟩
    · simp [hrelations]
    · simp [hrelations]
    · simp [hrelations]
    · simp [hrelations]
    · rw [hmessages]
      exact .nil
  | @send log w h hids a b ha hb content hcontent updatetime ih =>
    obtain ⟨husers, hchat, hcreated⟩ := ih
    subst husers
    obtain ⟨_, w', hrun, hchat', husers', hreads, -⟩ :=
      ends_send hdir hmember hchat ha hb hcontent updatetime
    rw [handled, hrun]
    refine ⟨husers', hchat', fun m hm => ?_⟩
    rcases List.mem_append.mp hm with hm | hm
    · obtain ⟨n, hn, hm⟩ := hcreated m hm
      exact ⟨n, hn.trans hreads, hm⟩
    · obtain rfl := List.mem_singleton.mp hm
      exact ⟨w'.reads - 1, Nat.sub_lt (Nat.zero_lt_of_lt hreads) Nat.one_pos, rfl⟩
  | @history log w h hids a b ha hb last hlast ih =>
    obtain ⟨husers, hchat, hcreated⟩ := ih
    subst husers
    obtain ⟨_, w', hrun, hchat', husers', hreads, -⟩ :=
      ends_history hclock hdir hmember hcarried hchat hids ha hb hlast
    rw [handled, hrun]
    refine ⟨husers', hchat', fun m hm => ?_⟩
    obtain ⟨n, hn, hm⟩ := hcreated m hm
    exact ⟨n, hn.trans hreads, hm⟩

/-- A server whose clock shows `time`. -/
def Server.stopped (e : Collation) (time : ℤ) : Server :=
  { Server.rejecting e with clock := fun _ => time }

/-- The user `name` of class `1`. -/
def pupil (name : String) : UserName :=
  ⟨ascii "1", ascii name⟩

/-- The row of a pupil. -/
def pupilRow (name : String) (id : ℤ) : UserRow :=
  .new (ascii "1") (ascii name) [] [] id

/-- `user_table` with two pupils. -/
def pupils (name name' : String) : List UserRow :=
  [pupilRow name 1, pupilRow name' 2]

/-- Nothing was sent between two pupils. -/
def World.quiet (name name' : String) : World :=
  .start { Tables.empty with users := pupils name name' }

/-- One message is sent from the first pupil to the second. -/
def World.afterOne (name name' : String) (updatetime : ℤ) : World :=
  (World.quiet name name').handled (.stopped .binary 5)
    (MessageSendEvent (sendRequest (pupil name) (pupil name') (ascii "hi") updatetime))

/-- The pupils are members, where their names are. -/
theorem member_pupils {name name' : String}
    (h : ∀ n ∈ [name, name'], PlainName (ascii n) ∧
      (Stmt.getUserId (ascii "1") (ascii n)).text.length < 100)
    (hne : ascii name ≠ ascii name') :
    ∀ u ∈ ({pupil name, pupil name'} : Set UserName),
      Member .binary (pupils name name') u := by
  have hne' : ascii name' ≠ ascii name := hne.symm
  have hclass : PlainName (ascii "1") := by
    decide +kernel
  rintro u (rfl | rfl)
  · refine ⟨⟨pupilRow name 1, ?_, rfl, rfl⟩, hclass, (h name (by simp)).1,
      (h name (by simp)).2⟩
    simp [pupils, pupilRow, pupil, UserRow.new, UserRow.named, Collation.binary, hne']
  · refine ⟨⟨pupilRow name' 2, ?_, rfl, rfl⟩, hclass, (h name' (by simp)).1,
      (h name' (by simp)).2⟩
    simp [pupils, pupilRow, pupil, UserRow.new, UserRow.named, Collation.binary, hne]

/-- The two pupils are a directory. -/
theorem directory_pupils (name name' : String) : Directory (pupils name name') :=
  ⟨(by decide : [(1 : ℤ), 2].Nodup), by simp [pupils, pupilRow, UserRow.new],
    by simp [pupils, pupilRow, UserRow.new, IsInt, intMax]⟩

/-- A run of one message. -/
theorem chatRun_afterOne (name name' : String) (updatetime : ℤ) :
    ChatRun (.stopped .binary 5) (pupils name name') {pupil name, pupil name'}
      [⟨pupil name, pupil name', ascii "hi", 5⟩] (.afterOne name name' updatetime) :=
  .send (.start (w := .quiet name name') rfl rfl rfl (by decide : (0 : ℤ) < 1))
    (by decide : IsInt 1) (Or.inl rfl) (Or.inr rfl) (by decide +kernel)
    updatetime

end WzxServer
