import WzxServer.Db
import Mathlib.Data.Rat.Defs

/-!
# The models

The functions between the handlers and MySQL, one namespace for each class. Each takes a
connection from the pool for itself and gives it back, also when it is called while its
caller holds one. Only the relation, message and session models look whether they got a
connection.

OpenCV and the face SDK are not part of the repository. `Vision` is what is used of them.

The order of the operations is that of the source, also where it looks odd : the relation model
reads the clock after it took its connection, `inserMessage` after the statement was prepared,
and `add` gives its connection back before the transaction ends. A function whose body returns
nothing has any value (`groupDelete`, `userDelete`).
-/

namespace WzxServer

open Prog Proc

/-- What the server uses of OpenCV and of the face SDK : the bytes of a pixel of a type,
an image after `imwrite` and `imread`, and `_CompareImage`. -/
structure Vision where
  elemSize : ℤ → ℤ
  reread : Mat → Mat
  compareImage : Mat → Mat → ℚ

/-- The bytes of the pixels of an image. -/
def Vision.matSize (v : Vision) (image : Mat) : ℕ :=
  (image.rows * image.cols * v.elemSize image.type).toNat

/-- Take a connection, format a statement into `char[size]` and query with it, on a
connection that is not looked at. -/
def openQuery (size : ℕ) (s : Stmt) : Proc (Conn × Option (List Row)) := do
  let newConnect ← ask (.getDBConn 0)
  let strSql ← sprintf size s
  let newConnect ← deref newConnect
  let res ← ask (.executeQuery newConnect strSql)
  return (newConnect, res)

/-! ## CUserModel -/

namespace CUserModel

/-- The id of the first row with the names, or -1. -/
def getUserId (classnum account : Bytes) : Proc ℤ := do
  let (newConnect, res) ← openQuery 100 (.getUserId classnum account)
  let idRes ← match res with
    | some (row :: _) => getInt row .id
    | _ => ret (-1)
  ask (.relDBConn newConnect)
  return idRes

/-- The names are left empty when the user is not found. -/
def getUserFromId (userId : ℤ) : Proc UserName := do
  let (newConnect, res) ← openQuery 200 (.getUserFromId userId)
  let user ← match res with
    | some (row :: _) => do
      let classNum ← getText row .classnum
      let account ← getText row .account
      ret ⟨classNum, account⟩
    | _ => ret ⟨[], []⟩
  ask (.relDBConn newConnect)
  return user

/-- The avatar of the first row with the names, empty without one. -/
def getTouXiang (classnum account : Bytes) : Proc Bytes := do
  let (newConnect, res) ← openQuery 200 (.getTouXiang classnum account)
  let touxiang ← match res with
    | some (row :: _) => getText row .touxiang
    | _ => ret []
  ask (.relDBConn newConnect)
  return touxiang

/-- A row has the names and the password. -/
def userExist (classnum account password : Bytes) : Proc Bool := do
  let (newConnect, res) ← openQuery 256 (.userExist classnum account password)
  let rows ← deref res
  ask (.relDBConn newConnect)
  return !rows.isEmpty

/-- Insert a row without an image. What comes of it is not looked at. -/
def addUserInfo (classnum account password touxiang : Bytes) : Proc Unit := do
  let (newConnect, _) ← openQuery 200 (.addUserInfo classnum account password touxiang)
  ask (.relDBConn newConnect)

/-- Set the avatar. What comes of it is not looked at. -/
def changeTouXiang (classNum account touxiangPath : Bytes) : Proc Unit := do
  let (newConnect, _) ← openQuery 200 (.changeTouXiang touxiangPath classNum account)
  ask (.relDBConn newConnect)

/-- Like `getTouXiang`, from the first row that the query gives. -/
def GetTouXiang (classNum account : Bytes) : Proc Bytes := do
  let (newConnect, res) ← openQuery 200 (.GetTouXiang classNum account)
  let touxiangPath := match res with
    | some (row :: _) => ((row.getString .touxiang).getD []).takeWhile (· ≠ 0)
    | _ => []
  ask (.relDBConn newConnect)
  return touxiangPath

end CUserModel

/-- Prepare and execute an insertion : the id of the new row, or -1. -/
def insertPrepared (pDBConn : Conn) (s : Stmt) : Proc ℤ := do
  if ← ask (.init pDBConn s.text) then
    if ← ask (.execute pDBConn s) then
      ask (.getInsertId pDBConn)
    else
      return -1
  else
    return -1

/-- Execute an update on a connection of its own. -/
def updateOnce (s : Stmt) : Proc Bool := do
  match ← ask (.getDBConn 0) with
  | none => return false
  | some pDBConn =>
    let bRet ← ask (.executeUpdate pDBConn s)
    ask (.relDBConn pDBConn)
    return bRet

/-- Execute an update with the time it is, which is read once there is a connection. -/
def updateNow (s : ℤ → Stmt) : Proc Bool := do
  match ← ask (.getDBConn 0) with
  | none => return false
  | some pDBConn =>
    let nNow ← ask .time
    let bRet ← ask (.executeUpdate pDBConn (s nNow))
    ask (.relDBConn pDBConn)
    return bRet

/-- The `id` of the last row of a result, or -1. -/
def lastId (pResultSet : Option (List Row)) : Proc ℤ :=
  match pResultSet with
  | none => ret (-1)
  | some rows => do
    let ids ← forEach (fun row => getInt row .id) rows
    return ids.getLast?.getD (-1)

/-! ## CRelationModel -/

namespace CRelationModel

/-- Revive the row of a pair, whatever its status, or insert one. There is no transaction around
the two statements. -/
def addRelation (nSmallId nBigId : ℤ) : Proc ℤ := do
  match ← ask (.getDBConn 0) with
  | none => return -1
  | some pDBConn =>
    let nTimeNow ← ask .time
    let pResultSet ← ask (.executeQuery pDBConn (.addRelationSelect nSmallId nBigId))
    let nRelationId ← match pResultSet with
      | some (row :: _) => do
        let nRelationId ← getInt row .id
        let bRet ← ask (.executeUpdate pDBConn (.addRelationUpdate nTimeNow nRelationId))
        ret (if bRet then nRelationId else -1)
      | _ => insertPrepared pDBConn (.addRelationInsert nSmallId nBigId 0 nTimeNow)
    ask (.relDBConn pDBConn)
    return nRelationId

/-- The id of a pair in either order, which is added on demand. The id 0 is refused, -1 is not. -/
def getRelationId (nUserAId nUserBId : ℤ) (bAdd : Bool) : Proc ℤ :=
  if nUserAId = 0 ∨ nUserBId = 0 then ret (-1)
  else do
    match ← ask (.getDBConn 0) with
    | none => return -1
    | some pDBConn =>
      let nBigId := if nUserAId > nUserBId then nUserAId else nUserBId
      let nSmallId := if nUserAId > nUserBId then nUserBId else nUserAId
      let pResultSet ← ask (.executeQuery pDBConn (.getRelationId nSmallId nBigId))
      let nRelationId ← lastId pResultSet
      ask (.relDBConn pDBConn)
      if nRelationId = -1 ∧ bAdd then addRelation nSmallId nBigId else ret nRelationId

/-- Set the time of a relation. -/
def updateRelation (nRelationId nUpdateTime : ℤ) : Proc Bool :=
  updateOnce (.updateRelation nUpdateTime nRelationId)

/-- Mark a relation as removed. -/
def removeRelation (nRelationId : ℤ) : Proc Bool :=
  updateNow fun nNow => .removeRelation nNow nRelationId

end CRelationModel

/-! ## CMessageModel -/

namespace CMessageModel

/-- Insert a message, whose time is read after the statement was prepared. -/
def inserMessage (relateId fromId toId : ℤ) (content : Bytes) (type status : ℤ) : Proc ℤ := do
  match ← ask (.getDBConn 0) with
  | none => return -1
  | some pDBConn =>
    let strSql := (Stmt.inserMessage relateId fromId toId content type status 0).text
    let nMsgId ← if ← ask (.init pDBConn strSql) then do
        let nTimeNow ← ask .time
        let stmt := Stmt.inserMessage relateId fromId toId content type status nTimeNow
        if ← ask (.execute pDBConn stmt) then
          ask (.getInsertId pDBConn)
        else
          ret (-1)
      else
        ret (-1)
    ask (.relDBConn pDBConn)
    return nMsgId

/-- One turn of the loop of `getMessage`, on a connection that is held. -/
def messageOf (res : Row) : Proc MessageSendData := do
  let content ← getText res .content
  let fromId ← getInt res .fromId
  let sender ← CUserModel.getUserFromId fromId
  let toId ← getInt res .toId
  let receiver ← CUserModel.getUserFromId toId
  let fromClassNum ← memcpyField 20 sender.classnum
  let fromAccount ← memcpyField 20 sender.account
  let toClassNum ← memcpyField 20 receiver.classnum
  let toAccount ← memcpyField 20 receiver.account
  let messageContent ← memcpyField 4096 content
  let updatetime ← getInt res .created
  return ⟨fromClassNum, toClassNum, fromAccount, toAccount, updatetime, messageContent⟩

/-- The messages of a relation after `lastTime` and up to `nowTime`. -/
def getMessage (relateId lastTime nowTime : ℤ) : Proc (List MessageSendData) := do
  match ← ask (.getDBConn 0) with
  | none => return []
  | some pDBConn =>
    let strSql ← sprintf 200 (.getMessage relateId 1 nowTime lastTime)
    let res ← ask (.executeQuery pDBConn strSql)
    let messageList ← forEach messageOf (res.getD [])
    ask (.relDBConn pDBConn)
    return messageList

/-- The text of the last message and its type; the type is not set without one. -/
def getLastMsg (nFromId nToId : ℤ) : Proc (Bytes × Option ℤ) := do
  let nRelateId ← CRelationModel.getRelationId nFromId nToId false
  if nRelateId = -1 then ret ([], none)
  else
    match ← ask (.getDBConn 0) with
    | none => ret ([], none)
    | some pDBConn =>
      let pResultSet ← ask (.executeQuery pDBConn (.getLastMsg nRelateId))
      let msgs ← forEach (fun row => do
        let nMsgType ← getInt row .type
        let strMsgData ← getText row .content
        ret (strMsgData, some nMsgType)) (pResultSet.getD [])
      ask (.relDBConn pDBConn)
      ret (msgs.getLast?.getD ([], none))

end CMessageModel

/-! ## CSessionModel -/

namespace CSessionModel

/-- One turn of the loop of `getRecentSession`, on a connection that is held. -/
def sessionOf (nUserId : ℤ) (row : Row) : Proc RecentSessionData := do
  let lastupdatetime ← getInt row .updated
  let peerTouXiang := ((row.getString .peerTouXiang).getD []).takeWhile (· ≠ 0)
  let touxiang ← memcpyField 50 peerTouXiang
  let peerId ← getInt row .peerId
  let peer ← CUserModel.getUserFromId peerId
  let (lastMsg, _) ← CMessageModel.getLastMsg nUserId peerId
  let lastMessage ← memcpyField 1024 lastMsg
  let classNum ← memcpyField 20 peer.classnum
  let account ← memcpyField 20 peer.account
  return ⟨classNum, account, lastMessage, touxiang, lastupdatetime⟩

/-- The latest 100 sessions of a user before `lastTime`. -/
def getRecentSession (nUserId lastTime : ℤ) : Proc (List RecentSessionData) := do
  match ← ask (.getDBConn 0) with
  | none => return []
  | some pDBConn =>
    let pResultSet ← ask (.executeQuery pDBConn (.getRecentSession nUserId lastTime))
    let lsContact ← forEach (sessionOf nUserId) (pResultSet.getD [])
    ask (.relDBConn pDBConn)
    return lsContact

/-- The id of the session of two users, or -1; with `isAll` whatever its status. -/
def getSessionId (nUserId nPeerId nType : ℤ) (isAll : Bool) : Proc ℤ := do
  match ← ask (.getDBConn 0) with
  | none => return -1
  | some pDBConn =>
    let pResultSet ← ask (.executeQuery pDBConn (.getSessionId nUserId nPeerId nType isAll))
    let nSessionId ← lastId pResultSet
    ask (.relDBConn pDBConn)
    return nSessionId

/-- Set the time of a session. -/
def updateSession (nSessionId nUpdateTime : ℤ) : Proc Bool :=
  updateOnce (.updateSession nUpdateTime nSessionId)

/-- Mark a session as removed. -/
def removeSession (nSessionId : ℤ) : Proc Bool :=
  updateNow fun nNow => .removeSession nNow nSessionId

/-- Revive the session of two users with a new avatar, or insert one. Without a connection the
id that was found is returned. -/
def addSession (nUserId nPeerId nType : ℤ) (peerTouXiang : Bytes) : Proc ℤ := do
  let nSessionId ← getSessionId nUserId nPeerId nType true
  let nTimeNow ← ask .time
  match ← ask (.getDBConn 0) with
  | none => return nSessionId
  | some pDBConn =>
    let nSessionId ← if nSessionId ≠ -1 then do
        let strSql ← sprintf 200 (.addSessionUpdate peerTouXiang nTimeNow nSessionId)
        let bRet ← ask (.executeUpdate pDBConn strSql)
        ret (if bRet then nSessionId else -1)
      else
        insertPrepared pDBConn (.addSessionInsert nUserId nPeerId nType 0 nTimeNow peerTouXiang)
    ask (.relDBConn pDBConn)
    return nSessionId

end CSessionModel

/-! ## CDetectModel -/

namespace CDetectModel

variable (v : Vision)

/-- `cols * rows * elemSize()` as an `int`; the product of two `int`s may overflow. -/
def imageLength (image : Mat) : Option ℤ :=
  if -intMax - 1 ≤ image.cols * image.rows ∧ image.cols * image.rows ≤ intMax then
    some (toInt (image.cols * image.rows * v.elemSize image.type))
  else none

/-- The `length + 1` bytes at the data pointer that are sent. -/
def sentBytes (image : Mat) (length : ℤ) : Option Bytes :=
  if toSize (length + 1) ≤ image.data.length then some (image.data.take (toSize (length + 1)))
  else none

/-- The loop of `detectOneFace` : the names, or `noFace` twice, or two empty strings. -/
def compareRows (detectSrc : Mat) (classnum account : Bytes) : List Row → Proc (Bytes × Bytes)
  | [] => ret ([], [])
  | row :: rows => do
    let width ← getInt row .width
    let height ← getInt row .height
    let image_type ← getInt row .image_type
    let _image_length ← getInt row .image_length
    let image ← deref (row.getString .image)
    let res := v.compareImage detectSrc (Mat.make height width image_type image)
    if 8 / 10 < res then
      ret (classnum, account)
    else if res = 0 then
      ret (ascii "noFace", ascii "noFace")
    else
      compareRows detectSrc classnum account rows

/-- Compare with the images of the user. -/
def detectOneFace (detectSrc : Mat) (classnum account : Bytes) : Proc (Bytes × Bytes) := do
  let (newConnect, res) ← openQuery 256 (.detectOneFace classnum account)
  let rows ← deref res
  let t ← compareRows v detectSrc classnum account rows
  ask (.relDBConn newConnect)
  return t

/-- What `add` does once it knows the statement that stores the image : the result, and
`error_code` where it is set. The connection goes back to the pool before the transaction
is ended, and not at all when none was started or nothing was prepared. -/
def storeImage (newConnect : Conn) (image : Mat) (stmt : ImageParams → Stmt) :
    Proc (ℤ × Option ℤ) := do
  if ← ask (.startTransaction newConnect) then
    let length ← defined .overflow (imageLength v image)
    if ← ask (.init newConnect (stmt default).text) then
      let sent ← defined .overread (sentBytes image length)
      if ← ask (.execute newConnect (stmt ⟨sent, image.cols, image.rows, image.type, length⟩)) then
        ask (.relDBConn newConnect)
        let _ ← ask (.commit newConnect)
        return (0, some 0)
      else
        ask (.relDBConn newConnect)
        let _ ← ask (.rollback newConnect)
        return (-1, some 1)
    else
      return (0, none)
  else
    return (0, none)

/-- Store the image with the row of the user, or with a row of its own. -/
def add (image : Mat) (classnum account : Bytes) : Proc (ℤ × Option ℤ) := do
  let newConnect ← ask (.getDBConn 10)
  let newConnect ← deref newConnect
  let res ← ask (.executeQuery newConnect (.addSelect classnum account))
  let rows ← deref res
  if rows.isEmpty then
    storeImage v newConnect image (.addInsert classnum account)
  else
    storeImage v newConnect image (.addUpdate classnum account)

/-- The classes. -/
def groupGetlist : Proc (List Bytes) := do
  let newConnect ← ask (.getDBConn 0)
  let newConnect ← deref newConnect
  let res ← ask (.executeQuery newConnect .groupGetlist)
  let rows ← deref res
  let group_id_list ← forEach (fun row => getText row .classnum) rows
  ask (.relDBConn newConnect)
  return group_id_list

/-- The names and avatars of the users of a class. -/
def groupGetusers (classnum : Bytes) : Proc (List (Bytes × Bytes)) := do
  let newConnect ← ask (.getDBConn 0)
  let newConnect ← deref newConnect
  let res ← ask (.executeQuery newConnect (.groupGetusers classnum))
  let rows ← deref res
  let user_id_list ← forEach (fun row => do
    let account ← getText row .account
    let touxiang ← getText row .touxiang
    ret (account, touxiang)) rows
  ask (.relDBConn newConnect)
  return user_id_list

/-- The body is empty : whatever is returned is not a value. -/
def groupDelete (_group_id : Bytes) : Proc ℤ :=
  ask .indeterminate

/-- The body is empty here too. -/
def userDelete (_group_id _user_id : Bytes) : Proc ℤ :=
  ask .indeterminate

end CDetectModel

end WzxServer
