import WzxServer.Models

/-!
# The event handlers

One `doEvent` for each kind of request, under the name of its class, and `coWork` that
takes a frame to its handler. Values that a handler only prints are left out.

The handlers are written in the order of their steps, also where that matters for what goes
wrong : which connection is taken before which other, what is written into the map before the
update is sent, and which copy is made before the length of its text is looked at. A pointer
that the source uses without a check is read with `deref`, so that a null stops the handler
where the source would crash.
-/

namespace WzxServer

open Prog Proc

variable (v : Vision)

/-- GET_GROUP : the classes as JSON. -/
def getGroupListEvent : Proc Unit := do
  let group_id_list ← CDetectModel.groupGetlist
  ask (.write (.groupList group_id_list))

/-- One turn of the loop of `getuserListEvent`. -/
def refreshUser (m_group_id account : Bytes) : Proc Unit := do
  let known ← ask (.userMapFind (m_group_id, account))
  if known.isNone then ask (.userMapSet (m_group_id, account) 0) else ret ()
  let (newConnect, res) ← openQuery 200 (.isLogin m_group_id account)
  match ← deref res with
  | [] => ret ()
  | row :: _ => do
    let islogin ← getInt row .islogin
    ask (.userMapSet (m_group_id, account) islogin)
  ask (.relDBConn newConnect)

/-- The end of a turn, on the rows that it found. -/
def refreshFrom (m_group_id account : Bytes) (newConnect : Conn) : List Row → Proc Unit
  | [] => ask (.relDBConn newConnect)
  | row :: _ => do
    let islogin ← getInt row .islogin
    ask (.userMapSet (m_group_id, account) islogin)
    ask (.relDBConn newConnect)

theorem refreshUser_eq (m_group_id account : Bytes) : refreshUser m_group_id account =
    ask (.userMapFind (m_group_id, account)) >>= fun known =>
      (if known.isNone then ask (.userMapSet (m_group_id, account) 0) else ret ()) >>= fun _ =>
        openQuery 200 (.isLogin m_group_id account) >>= fun r =>
          deref r.2 >>= refreshFrom m_group_id account r.1 := by
  unfold refreshUser
  congr 1
  funext known
  rcases known with _ | n
  · refine congrArg (call _) (funext fun _ => ?_)
    refine congrArg (Prog.bind _) (funext fun r => congrArg (Prog.bind _) (funext fun rows => ?_))
    rcases rows with _ | ⟨row, rows⟩ <;> rfl
  · refine congrArg (Prog.bind _) (funext fun r => congrArg (Prog.bind _) (funext fun rows => ?_))
    rcases rows with _ | ⟨row, rows⟩ <;> rfl

/-- GET_USER : the users of a class, entered into the map on the way. -/
def getuserListEvent (m_group_id : Bytes) : Proc Unit := do
  let user_id_list ← CDetectModel.groupGetusers m_group_id
  let _ ← forEach (fun user => refreshUser m_group_id user.1) user_id_list
  ask (.write (.userList user_id_list))

/-- DEL_GROUP. An answer is only written for a result other than 0. -/
def delGroupEvent (m_group_id : Bytes) : Proc Unit := do
  let r ← CDetectModel.groupDelete m_group_id
  if r = 0 then ret () else ask (.write .null)

/-- DEL_USER, likewise. -/
def delUserEvent (d : DelUserData) : Proc Unit := do
  let r ← CDetectModel.userDelete d.m_group_id d.m_user_id
  if r = 0 then ret () else ask (.write .null)

/-- DETECT : the image goes through a file and is compared with the stored one. -/
def detectFaceEvent (d : DetectFaceData) : Proc Unit := do
  let res ← CDetectModel.detectOneFace v (v.reread d.image) d.m_classnum d.m_account
  if res.2 ≠ d.m_account ∨ res.1 ≠ d.m_classnum then
    ask (.write (.detect .detectNoUser))
  else
    ask (.write (.detect .detectSuccess))

/-- CHECK_ONLINE : the map as JSON. -/
def checkOnlineEvent : Proc Unit := do
  let users ← ask .userMapAll
  ask (.write (.onlineList users))

/-- LOGIN. The connection is only given back after the answer. -/
def LoginUserEvent (d : LoginData) : Proc Unit := do
  let (newConnect, res) ← openQuery 256 (.loginUser d.m_classnum d.m_username d.m_password)
  match ← deref res with
  | _ :: _ => ask (.write (.login .loginSuccess))
  | [] => ask (.write (.login .loginNoUser))
  ask (.relDBConn newConnect)

/-- A JSON result without an `error_code` reads as 0. -/
def LoginAddFaceEvent (d : AddFaceData) : Proc Unit := do
  let isExist ← CUserModel.userExist d.m_classnum d.m_account d.m_password
  if isExist then
    ask (.write (.register .registerUserAlreadyExist))
  else
    CUserModel.addUserInfo d.m_classnum d.m_account d.m_password d.m_touxiang
    let (_, error_code) ← CDetectModel.add v d.image d.m_classnum d.m_account
    if error_code.getD 0 ≠ 0 then
      ret ()
    else
      ask (.write (.register .registerSuccess))

/-- ONLINE. The map is written before the update is sent, and the result is not looked at. -/
def LoginOnlineEvent (d : UserName) : Proc Unit := do
  let newConnect ← ask (.getDBConn 0)
  let ip ← ask .peerIp
  let strSql ← sprintf 200 (.loginOnline ip d.classnum d.account)
  ask (.userMapSet (d.classnum, d.account) 1)
  let newConnect ← deref newConnect
  let _ ← ask (.executeQuery newConnect strSql)
  ask (.write (.online .onlineSuccess))
  ask (.relDBConn newConnect)

/-- The answer is an `onlineResData`. -/
def LoginOfflineEvent (d : UserName) : Proc Unit := do
  let newConnect ← ask (.getDBConn 0)
  let strSql ← sprintf 200 (.loginOffline d.classnum d.account)
  ask (.userMapSet (d.classnum, d.account) 0)
  let newConnect ← deref newConnect
  let _ ← ask (.executeQuery newConnect strSql)
  ask (.write (.online .offlineSuccess))
  ask (.relDBConn newConnect)

/-- MESSAGE_CREATE. An id of -1 is taken like any other. -/
def MessageCreateEvent (d : MessageCreateData) : Proc Unit := do
  let fromId ← CUserModel.getUserId d.m_fromclassnum d.m_fromaccount
  let toId ← CUserModel.getUserId d.m_toclassnum d.m_toaccount
  let sessionId ← CSessionModel.addSession fromId toId 0 d.m_peertouxiang
  if sessionId = -1 then
    ask (.write (.messageCreate .messageCreateFailed))
  else
    ask (.write (.messageCreate .messageCreateSuccess))

/-- There is no answer to a message. -/
def MessageSendEvent (d : MessageSendData) : Proc Unit := do
  let fromId ← CUserModel.getUserId d.fromClassNum d.fromAccount
  let toId ← CUserModel.getUserId d.toClassNum d.toAccount
  let relationId ← CRelationModel.getRelationId fromId toId true
  let sessionId ← CSessionModel.getSessionId fromId toId 0 false
  let _ ← CSessionModel.updateSession sessionId d.updatetime
  let _ ← CMessageModel.inserMessage relationId fromId toId d.messageContent 1 1

/-- MESSAGE_HISTORY : the number of messages, then each of them. -/
def MessageHistoryEvent (d : MessageHistoryData) : Proc Unit := do
  let fromId ← CUserModel.getUserId d.fromClassNum d.fromAccount
  let toId ← CUserModel.getUserId d.toClassNum d.toAccount
  let relationId ← CRelationModel.getRelationId fromId toId true
  let nowTime ← ask .time
  let messageList ← CMessageModel.getMessage relationId d.lastupdatetime nowTime
  if messageList.length = 0 then
    ask (.write (.historyCount 0 .messageHistoryFailed))
  else
    ask (.write (.historyCount messageList.length .messageHistorySuccess))
    let _ ← forEach (fun m => ask (.write (.message m))) messageList

/-- After each session an acknowledgement is read, and only looked at to print. -/
def RescentSessionEvent (classNum account : Bytes) (lastupdatetime : ℤ) : Proc Unit := do
  let fromId ← CUserModel.getUserId classNum account
  let recentList ← CSessionModel.getRecentSession fromId lastupdatetime
  if recentList.length = 0 then
    ask (.write (.recentSessionRes .messagrRecentSessionFailed 0))
  else
    ask (.write (.recentSessionRes .messagrRecentSessionSuccess recentList.length))
    let _ ← forEach (fun s => do
      ask (.write (.recentSession s))
      ask .read) recentList

/-- LOGIN_TOUXIANG : the avatar for the login window. -/
def LoginTouXiang (d : UserName) : Proc Unit := do
  let pic ← CUserModel.getTouXiang d.classnum d.account
  if pic.length ≠ 0 then
    let m_touxiang ← memcpyField 50 pic
    ask (.write (.loginTouXiang m_touxiang .loginTouXiangSuccess))
  else
    ask (.write (.loginTouXiang [] .loginTouXiangFailed))

/-- CHANGE_TOUXIANG. There is no failure. -/
def ChangeTouXiang (d : ChangeTouXiangData) : Proc Unit := do
  CUserModel.changeTouXiang d.m_classNum d.m_account d.m_touxiang
  ask (.write (.changeTouXiang .changeTouXiangSuccess))

/-- GET_TOUXIANG. The path is copied before its length is looked at. -/
def GetTouXiang (d : UserName) : Proc Unit := do
  let touXiangPath ← CUserModel.getTouXiang d.classnum d.account
  let m_touxiang ← memcpyField 50 touXiangPath
  if touXiangPath.length ≠ 0 then
    ask (.write (.getTouXiang m_touxiang .getTouXiangSuccess))
  else
    ask (.write (.getTouXiang m_touxiang .getTouXiangFailed))

/-- The handler of a request. -/
def doEvent : Request → Proc Unit
  | .noOperation => ret ()
  | .addFace d => LoginAddFaceEvent v d
  | .getGroup => getGroupListEvent
  | .getUser m_group_id => getuserListEvent m_group_id
  | .delUser d => delUserEvent d
  | .delGroup m_group_id => delGroupEvent m_group_id
  | .login d => LoginUserEvent d
  | .detect d => detectFaceEvent v d
  | .messageCreate d => MessageCreateEvent d
  | .messageSend d => MessageSendEvent d
  | .messageHistory d => MessageHistoryEvent d
  | .recentSession classNum account lastupdatetime =>
    RescentSessionEvent classNum account lastupdatetime
  | .online d => LoginOnlineEvent d
  | .offline d => LoginOfflineEvent d
  | .checkIsOnline => checkOnlineEvent
  | .loginTouXiang d => LoginTouXiang d
  | .changeTouXiang d => ChangeTouXiang d
  | .getTouXiang d => GetTouXiang d

/-- The `switch` of `co_work` : nothing for a command without a label. -/
def coWorkSwitch (msgBuffer : ℕ → UInt8) : Option Cmd → Proc Unit
  | none => ret ()
  | some c => do
    let request ← defined .overread (decode msgBuffer c)
    doEvent v request

/-- `co_work` -/
def coWork (h : Handed) : Proc Unit :=
  coWorkSwitch v h.msgBuffer (coWorkCase h.header.cmd)

theorem coWork_of_case {h : Handed} {c : Cmd} (hc : coWorkCase h.header.cmd = some c) :
    coWork v h = defined .overread (decode h.msgBuffer c) >>= doEvent v := by
  rw [coWork, hc]
  rfl

end WzxServer
