import WzxServer.Events

/-!
# One reply for each request

What a handler writes is read off its record : `note` keeps the replies, and whether a
statement that stores an image failed. The models are silent, and a handler of the kinds
that have a response code says one thing (`records_doEvent`). By `answered_iff` this is the
response to the request, apart from `OFFLINE` and from an image that is not stored.

The record does not depend on what the database answers, so no server is fixed here : a handler
is a program, and every way of answering its operations gives one of its traces. `Says` is said
of all of them, and goes through a program step by step like a Hoare triple, with the notes so
far in the place of a state. For a sequence of requests the notes of its handlers are put
together (`said_eq_iff`), and `notes_iff` takes them back to what is written on the connection.
-/

namespace WzxServer

open Prog Proc

/-- The `m_cmd` of a reply that is a structure. -/
def Reply.m_cmd : Reply → Option Cmd
  | .login _ => some .loginRes
  | .register _ => some .registerRes
  | .detect _ => some .detectRes
  | .messageCreate _ => some .messageCreateRes
  | .online _ => some .onlineRes
  | .historyCount _ _ => some .messageHistoryCountRes
  | .message _ => some .messageSend
  | .recentSessionRes _ _ => some .messagrRecentSessionRes
  | .recentSession _ => some .messagrRecentSession
  | .loginTouXiang _ _ => some .loginTouXiangRes
  | .changeTouXiang _ => some .changeTouXiangRes
  | .getTouXiang _ _ => some .getTouXiangRes
  | .groupList _ | .userList _ | .onlineList _ | .null => none

/-- The response code of a kind of request. -/
def Cmd.res : Cmd → Option Cmd
  | .login => some .loginRes
  | .addFace => some .registerRes
  | .detect => some .detectRes
  | .messageCreate => some .messageCreateRes
  | .online => some .onlineRes
  | .offline => some .offlineRes
  | .loginTouXiang => some .loginTouXiangRes
  | .changeTouXiang => some .changeTouXiangRes
  | .getTouXiang => some .getTouXiangRes
  | _ => none

/-- What is recorded of a run : the replies, and that an image was not stored. -/
inductive Note where
  /-- A reply, with its `m_cmd`. -/
  | reply (m_cmd : Option Cmd)
  /-- A statement that stores an image failed. -/
  | notStored
  deriving DecidableEq

/-- The statement stores an image. -/
def Stmt.storesImage : Stmt → Bool
  | .addUpdate _ _ _ | .addInsert _ _ _ => true
  | _ => false

/-- What is recorded of an exchange. -/
def note : Exchange Db → List Note
  | ⟨.write r, _⟩ => [.reply r.m_cmd]
  | ⟨.execute _ s, false⟩ => if s.storesImage then [.notStored] else []
  | _ => []

/-! ## The models say nothing -/

/-- Neither a reply nor the storing of an image. -/
def Op.quiet : Op → Bool
  | .write _ => false
  | .execute _ s => !s.storesImage
  | _ => true

theorem silent_ask {o : Op} (h : o.quiet = true) : Silent note (ask o) := by
  refine records_perform fun r => ?_
  cases o with
  | write r => exact absurd h (by simp [Op.quiet])
  | execute c s =>
    have hs : s.storesImage = false := by simpa [Op.quiet] using h
    rcases r with _ | _
    · simp [note, hs]
    · rfl
  | _ => rfl

theorem silent_ask_bind {α : Type} {o : Op} {g : o.Ans → Proc α} {Q : α → List Note → Prop}
    (h : o.quiet = true) (hg : ∀ r, Records note (g r) Q) : Records note (ask o >>= g) Q :=
  (silent_ask h).bind hg

theorem silent_ret {α : Type} (a : α) : Silent note (ret a : Proc α) :=
  records_ret rfl

theorem silent_deref {α : Type} : ∀ p : Option α, Silent note (deref p)
  | none => records_fault
  | some a => silent_ret a

theorem silent_defined {α : Type} {e : Fault} : ∀ p : Option α, Silent note (defined e p)
  | none => records_fault
  | some a => silent_ret a

theorem silent_sprintf (size : ℕ) (s : Stmt) : Silent note (sprintf size s) := by
  unfold sprintf
  split_ifs
  · exact silent_ret s
  · exact records_fault

theorem silent_memcpyField (size : ℕ) (text : Bytes) : Silent note (memcpyField size text) := by
  refine silent_ask_bind rfl fun _ => ?_
  split_ifs
  · exact silent_ret text
  · exact records_fault

theorem silent_getInt (row : Row) (key : Col) : Silent note (getInt row key) := by
  unfold getInt
  split
  · exact silent_ret _
  · exact records_fault
  · exact silent_ret _
  · exact silent_ret _

theorem silent_getText (row : Row) (key : Col) : Silent note (getText row key) :=
  (silent_deref _).bind fun _ => silent_ret _

theorem silent_openQuery (size : ℕ) (s : Stmt) : Silent note (openQuery size s) := by
  unfold openQuery
  refine silent_ask_bind rfl fun _ => (silent_sprintf size s).bind fun _ => ?_
  exact (silent_deref _).bind fun _ => silent_ask_bind rfl fun _ => silent_ret _

theorem silent_getUserId (classnum account : Bytes) :
    Silent note (CUserModel.getUserId classnum account) := by
  refine (silent_openQuery _ _).bind fun r => ?_
  obtain ⟨newConnect, _ | _ | ⟨row, rows⟩⟩ := r
  · exact (silent_ret _).bind fun _ => silent_ask_bind rfl fun _ => silent_ret _
  · exact (silent_ret _).bind fun _ => silent_ask_bind rfl fun _ => silent_ret _
  · exact (silent_getInt _ _).bind fun _ => silent_ask_bind rfl fun _ => silent_ret _

theorem silent_getTouXiang (classnum account : Bytes) :
    Silent note (CUserModel.getTouXiang classnum account) := by
  refine (silent_openQuery _ _).bind fun r => ?_
  obtain ⟨newConnect, _ | _ | ⟨row, rows⟩⟩ := r
  · exact (silent_ret _).bind fun _ => silent_ask_bind rfl fun _ => silent_ret _
  · exact (silent_ret _).bind fun _ => silent_ask_bind rfl fun _ => silent_ret _
  · exact (silent_getText _ _).bind fun _ => silent_ask_bind rfl fun _ => silent_ret _

theorem silent_userExist (classnum account password : Bytes) :
    Silent note (CUserModel.userExist classnum account password) :=
  (silent_openQuery _ _).bind fun _ => (silent_deref _).bind fun _ =>
    silent_ask_bind rfl fun _ => silent_ret _

theorem silent_addUserInfo (classnum account password touxiang : Bytes) :
    Silent note (CUserModel.addUserInfo classnum account password touxiang) :=
  (silent_openQuery _ _).bind fun _ => silent_ask rfl

theorem silent_changeTouXiang (classNum account touxiangPath : Bytes) :
    Silent note (CUserModel.changeTouXiang classNum account touxiangPath) :=
  (silent_openQuery _ _).bind fun _ => silent_ask rfl

theorem silent_insertPrepared {pDBConn : Conn} {s : Stmt} (h : s.storesImage = false) :
    Silent note (insertPrepared pDBConn s) := by
  unfold insertPrepared
  refine silent_ask_bind rfl fun r => ?_
  split_ifs
  · refine silent_ask_bind (by simp [Op.quiet, h]) fun r => ?_
    split_ifs
    · exact silent_ask rfl
    · exact silent_ret _
  · exact silent_ret _

theorem silent_lastId : ∀ pResultSet : Option (List Row), Silent note (lastId pResultSet)
  | none => silent_ret _
  | some rows => (Silent.forEach (fun row => silent_getInt row .id) rows).bind fun _ => silent_ret _

theorem silent_getSessionId (nUserId nPeerId nType : ℤ) (isAll : Bool) :
    Silent note (CSessionModel.getSessionId nUserId nPeerId nType isAll) := by
  unfold CSessionModel.getSessionId
  refine silent_ask_bind rfl fun r => ?_
  rcases r with _ | pDBConn
  · exact silent_ret _
  · refine silent_ask_bind rfl fun _ => (silent_lastId _).bind fun _ => ?_
    exact silent_ask_bind rfl fun _ => silent_ret _

theorem silent_addSession (nUserId nPeerId nType : ℤ) (peerTouXiang : Bytes) :
    Silent note (CSessionModel.addSession nUserId nPeerId nType peerTouXiang) := by
  unfold CSessionModel.addSession
  refine (silent_getSessionId _ _ _ _).bind fun _ => silent_ask_bind rfl fun _ => ?_
  refine silent_ask_bind rfl fun r => ?_
  rcases r with _ | pDBConn
  · exact silent_ret _
  · dsimp only
    split_ifs
    · refine (silent_sprintf _ _).bind fun _ => silent_ask_bind rfl fun _ => ?_
      exact (silent_ret _).bind fun _ => silent_ask_bind rfl fun _ => silent_ret _
    · exact (silent_insertPrepared rfl).bind fun _ => silent_ask_bind rfl fun _ => silent_ret _

theorem silent_compareRows (v : Vision) (detectSrc : Mat) (classnum account : Bytes) :
    ∀ rows : List Row,
      Silent note (CDetectModel.compareRows v detectSrc classnum account rows)
  | [] => silent_ret _
  | row :: rows => by
    unfold CDetectModel.compareRows
    refine (silent_getInt _ _).bind fun _ => (silent_getInt _ _).bind fun _ => ?_
    refine (silent_getInt _ _).bind fun _ => (silent_getInt _ _).bind fun _ => ?_
    refine (silent_deref _).bind fun _ => ?_
    simp only
    split_ifs
    · exact silent_ret _
    · exact silent_ret _
    · exact silent_compareRows v detectSrc classnum account rows

theorem silent_detectOneFace (v : Vision) (detectSrc : Mat) (classnum account : Bytes) :
    Silent note (CDetectModel.detectOneFace v detectSrc classnum account) :=
  (silent_openQuery _ _).bind fun _ => (silent_deref _).bind fun _ =>
    (silent_compareRows _ _ _ _ _).bind fun _ => silent_ask_bind rfl fun _ => silent_ret _

/-! ## The handlers -/

/-- The program writes one reply with this command. -/
def Says {α : Type} (p : Proc α) (m_cmd : Cmd) : Prop :=
  Records note p fun _ l => l = [.reply (some m_cmd)]

theorem says_write {r : Reply} {m_cmd : Cmd} (h : r.m_cmd = some m_cmd) :
    Says (ask (.write r)) m_cmd :=
  records_perform fun _ => congrArg (fun c => [Note.reply c]) h

/-- After the reply nothing is said. -/
theorem Says.bind {α β : Type} {p : Proc α} {g : α → Proc β} {m_cmd : Cmd} (hp : Says p m_cmd)
    (hg : ∀ a, Silent note (g a)) : Says (p >>= g) m_cmd := by
  refine Records.bind hp ?_
  rintro a _ rfl
  refine (hg a).mono ?_
  rintro b _ rfl
  rfl

theorem says_loginUserEvent (d : LoginData) : Says (LoginUserEvent d) .loginRes := by
  unfold LoginUserEvent
  refine (silent_openQuery _ _).bind fun r => (silent_deref _).bind fun rows => ?_
  rcases rows with _ | ⟨row, rows⟩
  · exact (says_write rfl).bind fun _ => silent_ask rfl
  · exact (says_write rfl).bind fun _ => silent_ask rfl

theorem says_detectFaceEvent (v : Vision) (d : DetectFaceData) :
    Says (detectFaceEvent v d) .detectRes := by
  refine (silent_detectOneFace _ _ _ _).bind fun res => ?_
  split_ifs
  · exact says_write rfl
  · exact says_write rfl

theorem says_loginOnlineEvent (d : UserName) : Says (LoginOnlineEvent d) .onlineRes := by
  unfold LoginOnlineEvent
  refine silent_ask_bind rfl fun newConnect => silent_ask_bind rfl fun ip => ?_
  refine (silent_sprintf _ _).bind fun strSql => silent_ask_bind rfl fun _ => ?_
  refine (silent_deref _).bind fun newConnect => silent_ask_bind rfl fun _ => ?_
  exact (says_write rfl).bind fun _ => silent_ask rfl

/-- The reply to `OFFLINE` is that to `ONLINE`. -/
theorem says_loginOfflineEvent (d : UserName) : Says (LoginOfflineEvent d) .onlineRes := by
  unfold LoginOfflineEvent
  refine silent_ask_bind rfl fun newConnect => (silent_sprintf _ _).bind fun strSql => ?_
  refine silent_ask_bind rfl fun _ => (silent_deref _).bind fun newConnect => ?_
  refine silent_ask_bind rfl fun _ => ?_
  exact (says_write rfl).bind fun _ => silent_ask rfl

theorem says_messageCreateEvent (d : MessageCreateData) :
    Says (MessageCreateEvent d) .messageCreateRes := by
  refine (silent_getUserId _ _).bind fun fromId => (silent_getUserId _ _).bind fun toId => ?_
  refine (silent_addSession _ _ _ _).bind fun sessionId => ?_
  split_ifs
  · exact says_write rfl
  · exact says_write rfl

theorem says_loginTouXiang (d : UserName) : Says (LoginTouXiang d) .loginTouXiangRes := by
  refine (silent_getTouXiang _ _).bind fun pic => ?_
  split_ifs
  · exact (silent_memcpyField _ _).bind fun _ => says_write rfl
  · exact says_write rfl

theorem says_changeTouXiang (d : ChangeTouXiangData) :
    Says (ChangeTouXiang d) .changeTouXiangRes :=
  (silent_changeTouXiang _ _ _).bind fun _ => says_write rfl

theorem says_getTouXiang (d : UserName) : Says (GetTouXiang d) .getTouXiangRes := by
  refine (silent_getTouXiang _ _).bind fun touXiangPath => ?_
  refine (silent_memcpyField _ _).bind fun m_touxiang => ?_
  split_ifs
  · exact says_write rfl
  · exact says_write rfl

/-! ## Adding a face -/

/-- The image is stored, and `error_code` is 0 or not set, or this is noted. -/
def Stores (p : Proc (ℤ × Option ℤ)) : Prop :=
  Records note p fun r l => (r.2.getD 0 = 0 ∧ l = []) ∨ (r.2.getD 0 ≠ 0 ∧ l = [.notStored])

theorem stores_storeImage (v : Vision) (newConnect : Conn) (image : Mat)
    {stmt : ImageParams → Stmt} (hstmt : ∀ p, (stmt p).storesImage = true) :
    Stores (CDetectModel.storeImage v newConnect image stmt) := by
  unfold CDetectModel.storeImage
  refine silent_ask_bind rfl fun started => ?_
  split_ifs
  · refine (silent_defined _).bind fun length => silent_ask_bind rfl fun prepared => ?_
    split_ifs
    · refine (silent_defined _).bind fun sent => ?_
      refine Records.bind (P := fun r l => l = if r = true then [] else [.notStored])
        (records_perform fun r => ?_) ?_
      · rcases r with _ | _ <;> simp [note, hstmt]
      · rintro (_ | _) l rfl
        · refine silent_ask_bind rfl fun _ => silent_ask_bind rfl fun _ => ?_
          exact records_ret (Or.inr ⟨by decide, rfl⟩)
        · refine silent_ask_bind rfl fun _ => silent_ask_bind rfl fun _ => ?_
          exact records_ret (Or.inl ⟨rfl, rfl⟩)
    · exact records_ret (Or.inl ⟨rfl, rfl⟩)
  · exact records_ret (Or.inl ⟨rfl, rfl⟩)

theorem stores_add (v : Vision) (image : Mat) (classnum account : Bytes) :
    Stores (CDetectModel.add v image classnum account) := by
  unfold CDetectModel.add
  refine silent_ask_bind rfl fun newConnect => (silent_deref _).bind fun newConnect => ?_
  refine silent_ask_bind rfl fun res => (silent_deref _).bind fun rows => ?_
  split_ifs
  · exact stores_storeImage v _ _ fun _ => rfl
  · exact stores_storeImage v _ _ fun _ => rfl

/-- There is a reply to `ADDFACE` unless the image was not stored. -/
theorem records_loginAddFaceEvent (v : Vision) (d : AddFaceData) :
    Records note (LoginAddFaceEvent v d) fun _ l =>
      l = [.reply (some .registerRes)] ∨ l = [.notStored] := by
  unfold LoginAddFaceEvent
  refine (silent_userExist _ _ _).bind fun isExist => ?_
  split_ifs
  · exact (says_write rfl).mono fun _ _ h => Or.inl h
  · refine (silent_addUserInfo _ _ _ _).bind fun _ => ?_
    refine Records.bind (stores_add _ _ _ _) ?_
    rintro ⟨_, error_code⟩ l (⟨hcode, rfl⟩ | ⟨hcode, rfl⟩)
    · simp only [hcode, ne_eq, not_true_eq_false, if_false]
      exact (says_write rfl).mono fun _ _ h => Or.inl h
    · simp only [hcode, ne_eq, not_false_eq_true, if_true]
      exact records_ret (Or.inr rfl)

/-! ## Sequences of requests -/

/-- What is said to a request of kind `c`. -/
def Reaction (c : Cmd) (l : List Note) : Prop :=
  l = [.reply (if c = .offline then some .onlineRes else c.res)] ∨ c = .addFace ∧ l = [.notStored]

theorem Says.reaction {p : Proc Unit} {c res : Cmd} (h : Says p res)
    (hres : (if c = .offline then some .onlineRes else c.res) = some res) :
    Records note p fun _ l => Reaction c l :=
  h.mono fun _ l hl => Or.inl (by rw [hl, hres])

theorem records_doEvent (v : Vision) {request : Request} (h : request.kind.res.isSome = true) :
    Records note (doEvent v request) fun _ l => Reaction request.kind l := by
  cases request with
  | addFace d =>
    refine (records_loginAddFaceEvent v d).mono fun _ l hl => ?_
    exact hl.imp id fun hl => ⟨rfl, hl⟩
  | login d => exact (says_loginUserEvent d).reaction rfl
  | detect d => exact (says_detectFaceEvent v d).reaction rfl
  | messageCreate d => exact (says_messageCreateEvent d).reaction rfl
  | online d => exact (says_loginOnlineEvent d).reaction rfl
  | offline d => exact (says_loginOfflineEvent d).reaction rfl
  | loginTouXiang d => exact (says_loginTouXiang d).reaction rfl
  | changeTouXiang d => exact (says_changeTouXiang d).reaction rfl
  | getTouXiang d => exact (says_getTouXiang d).reaction rfl
  | _ => exact absurd h Bool.false_ne_true

/-- The frame goes to a handler of kind `c`, which has a response code. -/
def Handed.Asks (h : Handed) (c : Cmd) : Prop :=
  coWorkCase h.header.cmd = some c ∧ c.res.isSome = true

theorem records_coWork (v : Vision) {h : Handed} {c : Cmd} (hc : h.Asks c) :
    Records note (coWork v h) fun _ l => Reaction c l := by
  rw [coWork_of_case v hc.1]
  rcases hdecode : decode h.msgBuffer c with _ | request
  · exact records_fault
  · obtain rfl := kind_decode hdecode
    rw [defined, ret_bind]
    exact records_doEvent v hc.2

-- the header of a frame that is not known is no number to compute with
attribute [local irreducible] coWork Handed.Asks

/-- The handlers of the frames one after another. -/
def coWorkAll (v : Vision) (hs : List Handed) : Proc (List Unit) :=
  forEach (coWork v) hs

theorem records_coWorkAll (v : Vision) {hs : List Handed} {cs : List Cmd}
    (h : List.Forall₂ Handed.Asks hs cs) :
    Records note (coWorkAll v hs) fun _ l =>
      ∃ ls, List.Forall₂ Reaction cs ls ∧ l = ls.flatten := by
  unfold coWorkAll
  induction h with
  | nil => exact records_ret ⟨[], .nil, rfl⟩
  | @cons h c hs cs hc _ ih =>
    refine Records.bind (records_coWork v hc) fun _ l hl => ?_
    refine Records.bind ih ?_
    rintro _ _ ⟨ls, hls, rfl⟩
    exact records_ret ⟨l :: ls, .cons hl hls, by simp⟩

/-- The replies among the notes. -/
def Note.said : Note → Option (Option Cmd)
  | .reply m_cmd => some m_cmd
  | .notStored => none

/-- There are not more replies than requests, and they are the responses to the requests if
and only if `OFFLINE` is not among these and all images are stored. -/
theorem said_eq_iff : ∀ {cs : List Cmd} {ls : List (List Note)}, List.Forall₂ Reaction cs ls →
    (ls.flatten.filterMap Note.said).length ≤ cs.length ∧
      (ls.flatten.filterMap Note.said = cs.map Cmd.res ↔
        (∀ c ∈ cs, c ≠ .offline) ∧ Note.notStored ∉ ls.flatten)
  | [], [], _ => ⟨Nat.zero_le _, by simp⟩
  | c :: cs, l :: ls, .cons hl hls => by
    obtain ⟨hlen, hiff⟩ := said_eq_iff hls
    rcases hl with rfl | ⟨rfl, rfl⟩
    · have hsaid : ∀ r, (([Note.reply r] :: ls).flatten.filterMap Note.said) =
          r :: ls.flatten.filterMap Note.said := fun _ => rfl
      rw [hsaid]
      refine ⟨Nat.succ_le_succ hlen, ?_⟩
      rw [List.map_cons, List.cons.injEq, hiff, List.forall_mem_cons, List.flatten_cons,
        List.mem_append]
      by_cases hoff : c = .offline
      · simp [hoff, Cmd.res]
      · simp [hoff]
    · have hsaid : (([Note.notStored] :: ls).flatten.filterMap Note.said) =
          ls.flatten.filterMap Note.said := rfl
      rw [hsaid]
      refine ⟨Nat.le_succ_of_le hlen, iff_of_false (fun heq => ?_) (fun h => h.2 (by simp))⟩
      have hlen' := congrArg List.length heq
      rw [List.length_map, List.length_cons] at hlen'
      omega

/-- The `m_cmd` of the reply that is written in an exchange. -/
def written : Exchange Db → Option (Option Cmd)
  | ⟨.write r, _⟩ => some r.m_cmd
  | _ => none

/-- The `m_cmd` of the replies that are written in a run, in order. -/
def writes (t : List (Exchange Db)) : List (Option Cmd) :=
  t.filterMap written

/-- A statement that stores an image fails. -/
def StoreFails (e : Exchange Db) : Prop :=
  ∃ c s, s.storesImage = true ∧ e = ⟨.execute c s, false⟩

theorem note_cases (e : Exchange Db) :
    (∃ r, written e = some r ∧ note e = [.reply r] ∧ ¬StoreFails e) ∨
      (written e = none ∧ note e = [.notStored] ∧ StoreFails e) ∨
      (written e = none ∧ note e = [] ∧ ¬StoreFails e) := by
  obtain ⟨o, r⟩ := e
  cases o with
  | write r =>
    refine Or.inl ⟨_, rfl, rfl, ?_⟩
    rintro ⟨c, s, -, ⟨⟩⟩
  | execute c s =>
    rcases r with _ | _
    · by_cases hs : s.storesImage = true
      · exact Or.inr (Or.inl ⟨rfl, if_pos hs, c, s, hs, rfl⟩)
      · refine Or.inr (Or.inr ⟨rfl, if_neg hs, ?_⟩)
        rintro ⟨_, _, hs', ⟨⟩⟩
        exact hs hs'
    · refine Or.inr (Or.inr ⟨rfl, rfl, ?_⟩)
      rintro ⟨_, _, -, ⟨⟩⟩
  | _ =>
    refine Or.inr (Or.inr ⟨rfl, rfl, ?_⟩)
    rintro ⟨_, _, -, ⟨⟩⟩

/-- The notes of a run tell what is written, and whether an image was not stored. -/
theorem notes_iff : ∀ t : List (Exchange Db),
    (t.flatMap note).filterMap Note.said = writes t ∧
      (Note.notStored ∈ t.flatMap note ↔ ∃ e ∈ t, StoreFails e)
  | [] => ⟨rfl, by simp⟩
  | e :: t => by
    obtain ⟨hsaid, hstored⟩ := notes_iff t
    rw [List.flatMap_cons, List.filterMap_append, hsaid, List.mem_append, hstored, writes, writes,
      List.filterMap_cons]
    rcases note_cases e with ⟨r, hw, hn, hf⟩ | ⟨hw, hn, hf⟩ | ⟨hw, hn, hf⟩
    · simp [hw, hn, hf, Note.said]
    · simp [hw, hn, hf, Note.said]
    · simp [hw, hn, hf]

/-- The replies to the requests are their responses, one each and in order, if and only if
`OFFLINE` is not among the requests and no statement that stores an image fails. -/
theorem answered_iff (v : Vision) {hs : List Handed} {cs : List Cmd} {t : List (Exchange Db)}
    {us : List Unit} (hasks : List.Forall₂ Handed.Asks hs cs)
    (ht : Returns (coWorkAll v hs) t us) :
    writes t = cs.map Cmd.res ↔ (∀ c ∈ cs, c ≠ .offline) ∧ ∀ e ∈ t, ¬StoreFails e := by
  obtain ⟨ls, hls, hnotes⟩ := (records_coWorkAll v hasks).of_returns ht
  have hiff := (said_eq_iff hls).2
  rw [← hnotes, (notes_iff t).1, (notes_iff t).2] at hiff
  rw [hiff]
  simp only [not_exists, not_and]

/-! ## Some frames -/

/-- A frame of kind `c` with empty texts. -/
def emptyFrame (c : Cmd) : Handed :=
  ⟨fun i => if i = 0 then UInt8.ofNat c.code.toNat else 0⟩

theorem cString_emptyFrame {c : Cmd} {off : ℕ} (h0 : off ≠ 0) (hoff : off < msgBufferSize) :
    cString (emptyFrame c).msgBuffer off = some [] :=
  cString_of_zero hoff (if_neg h0)

/-- A frame of kind `c` whose texts are one letter each. -/
def letterFrame (c : Cmd) : Handed :=
  ⟨fun i => if i = 0 then UInt8.ofNat c.code.toNat
    else if i = 8 ∨ i = 28 ∨ i = 48 then 97 else 0⟩

theorem cString_letterFrame {c : Cmd} {off : ℕ} (hoff : off = 8 ∨ off = 28 ∨ off = 48) :
    cString (letterFrame c).msgBuffer off = some [97] := by
  have hbuffer : 49 < msgBufferSize := by decide
  have h0 : off ≠ 0 := by omega
  have hnext : ¬(off + 1 = 8 ∨ off + 1 = 28 ∨ off + 1 = 48) := by omega
  have hletter : (letterFrame c).msgBuffer off = 97 := (if_neg h0).trans (if_pos hoff)
  have hend : (letterFrame c).msgBuffer (off + 1) = 0 := by
    change (if off + 1 = 0 then UInt8.ofNat c.code.toNat else
      if off + 1 = 8 ∨ off + 1 = 28 ∨ off + 1 = 48 then (97 : UInt8) else 0) = 0
    rw [if_neg (Nat.succ_ne_zero off), if_neg hnext]
  rw [cString_of_ne_zero (by omega) (by rw [hletter]; decide), cString_of_zero (by omega) hend,
    hletter]
  rfl

/-- A vision that sees nothing. -/
def blindVision : Vision :=
  ⟨fun _ => 1, id, fun _ _ => 0⟩

/-- Surroundings where all connections are there, and no row is found or changed. -/
def noRows (o : Op) (_ : Unit) : o.Ans × Unit :=
  match o with
  | .getDBConn _ => (some 0, ())
  | .executeQuery _ _ => (some [], ())
  | .executeUpdate _ _ => (false, ())
  | .startTransaction _ | .commit _ | .rollback _ | .init _ _ | .execute _ _ => (true, ())
  | .getInsertId _ | .time | .indeterminate => (0, ())
  | .userMapFind _ => (none, ())
  | .userMapAll => ([], ())
  | .peerIp => ([], ())
  | .relDBConn _ | .userMapSet _ _ | .memcpy _ _ | .write _ | .read => ((), ())

/-- No statement that stores an image fails there. -/
theorem not_storeFails_noRows {α : Type} {p : Proc α} {e : Exchange Db}
    (he : e ∈ Prog.trace noRows p ()) : ¬StoreFails e := by
  rintro ⟨c, s, -, rfl⟩
  obtain ⟨_, hans⟩ := answer_of_mem_trace (E := Db) noRows he
  exact Bool.false_ne_true hans

theorem run_coWork {h : Handed} {c : Cmd} {request : Request} (hasks : h.Asks c)
    (hdecode : decode h.msgBuffer c = some request)
    (hrun : Prog.run noRows (doEvent blindVision request) () = (some (), ())) :
    Prog.run noRows (coWork blindVision h) () = (some (), ()) := by
  rw [Handed.Asks] at hasks
  rw [coWork_of_case _ hasks.1, hdecode]
  exact hrun

/-- Frames whose handlers return are all handled. -/
theorem run_coWorkAll : ∀ {hs : List Handed},
    (∀ h ∈ hs, Prog.run noRows (coWork blindVision h) () = (some (), ())) →
      ∃ us, Prog.run noRows (coWorkAll blindVision hs) () = (some us, ())
  | [], _ => ⟨[], rfl⟩
  | h :: hs, hall => by
    obtain ⟨us, hus⟩ := run_coWorkAll fun h' hh => hall h' (List.mem_cons_of_mem h hh)
    refine ⟨() :: us, ?_⟩
    rw [coWorkAll] at hus
    rw [coWorkAll, forEach, run_bind_of_some _ (hall h List.mem_cons_self),
      run_bind_of_some _ hus]
    rfl

theorem asks_emptyFrame_offline : (emptyFrame .offline).Asks .offline := by
  rw [Handed.Asks]
  decide

theorem run_offline : Prog.run noRows (coWork blindVision (emptyFrame .offline)) () =
    (some (), ()) := by
  have hdecode : decode (emptyFrame .offline).msgBuffer .offline = some (.offline ⟨[], []⟩) := by
    rw [decode, cString_emptyFrame (by decide) (by decide),
      cString_emptyFrame (by decide) (by decide)]
    rfl
  have hfit : (Stmt.loginOffline [] []).text.length < 200 := by decide +kernel
  refine run_coWork asks_emptyFrame_offline hdecode ?_
  simp [doEvent, LoginOfflineEvent, sprintf, hfit, deref, perform, noRows]

theorem asks_letterFrame {c : Cmd} (h : c ∈ [Cmd.login, .online, .changeTouXiang]) :
    (letterFrame c).Asks c := by
  rw [Handed.Asks]
  revert c
  decide

theorem run_login : Prog.run noRows (coWork blindVision (letterFrame .login)) () =
    (some (), ()) := by
  have hdecode : decode (letterFrame .login).msgBuffer .login =
      some (.login ⟨[97], [97], [97]⟩) := by
    rw [decode, cString_letterFrame (by decide), cString_letterFrame (by decide),
      cString_letterFrame (by decide)]
    rfl
  have hfit : (Stmt.loginUser [97] [97] [97]).text.length < 256 := by decide +kernel
  refine run_coWork (asks_letterFrame (by decide)) hdecode ?_
  simp [doEvent, LoginUserEvent, openQuery, sprintf, hfit, deref, perform, noRows]

theorem run_online : Prog.run noRows (coWork blindVision (letterFrame .online)) () =
    (some (), ()) := by
  have hdecode : decode (letterFrame .online).msgBuffer .online =
      some (.online ⟨[97], [97]⟩) := by
    rw [decode, cString_letterFrame (by decide), cString_letterFrame (by decide)]
    rfl
  have hfit : (Stmt.loginOnline [] [97] [97]).text.length < 200 := by decide +kernel
  refine run_coWork (asks_letterFrame (by decide)) hdecode ?_
  simp [doEvent, LoginOnlineEvent, sprintf, hfit, deref, perform, noRows]

theorem run_changeTouXiang :
    Prog.run noRows (coWork blindVision (letterFrame .changeTouXiang)) () = (some (), ()) := by
  have hdecode : decode (letterFrame .changeTouXiang).msgBuffer .changeTouXiang =
      some (.changeTouXiang ⟨[97], [97], [97]⟩) := by
    rw [decode, cString_letterFrame (by decide), cString_letterFrame (by decide),
      cString_letterFrame (by decide)]
    rfl
  have hfit : (Stmt.changeTouXiang [97] [97] [97]).text.length < 200 := by decide +kernel
  refine run_coWork (asks_letterFrame (by decide)) hdecode ?_
  simp [doEvent, ChangeTouXiang, CUserModel.changeTouXiang, openQuery, sprintf, hfit, deref,
    perform, noRows]

/-- A login that finds nobody, an ONLINE and a new avatar are answered in their order. -/
theorem answered_letters : ∃ t us,
    Returns (coWorkAll blindVision
      [letterFrame .login, letterFrame .online, letterFrame .changeTouXiang]) t us ∧
      writes t = [Cmd.login, .online, .changeTouXiang].map Cmd.res := by
  have hruns : ∀ h ∈ [letterFrame .login, letterFrame .online, letterFrame .changeTouXiang],
      Prog.run noRows (coWork blindVision h) () = (some (), ()) := by
    simp only [List.forall_mem_cons, List.not_mem_nil, false_imp_iff, implies_true, and_true]
    exact ⟨run_login, run_online, run_changeTouXiang⟩
  obtain ⟨us, hrun⟩ := run_coWorkAll hruns
  have hasks : List.Forall₂ Handed.Asks
      [letterFrame .login, letterFrame .online, letterFrame .changeTouXiang]
      [Cmd.login, .online, .changeTouXiang] :=
    .cons (asks_letterFrame (by decide)) (.cons (asks_letterFrame (by decide))
      (.cons (asks_letterFrame (by decide)) .nil))
  refine ⟨_, us, returns_trace (E := Db) noRows hrun, ?_⟩
  refine (answered_iff blindVision hasks (returns_trace (E := Db) noRows hrun)).mpr ⟨by decide, ?_⟩
  exact fun e he => not_storeFails_noRows he

/-- `OFFLINE` is answered with the response to `ONLINE`. -/
theorem not_answered_offline :
    ∃ t us, Returns (coWorkAll blindVision [emptyFrame .offline]) t us ∧
      writes t ≠ [Cmd.offline].map Cmd.res := by
  obtain ⟨us, hrun⟩ := run_coWorkAll fun h hh => List.mem_singleton.mp hh ▸ run_offline
  have ht := returns_trace (E := Db) noRows hrun
  refine ⟨_, us, ht, fun h => ?_⟩
  obtain ⟨ls, hls, hnotes⟩ :=
    (records_coWorkAll blindVision (.cons asks_emptyFrame_offline .nil)).of_returns ht
  rw [← (notes_iff _).1, hnotes] at h
  exact ((said_eq_iff hls).2.mp h).1 .offline List.mem_cons_self rfl

end WzxServer
