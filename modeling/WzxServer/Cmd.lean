import WzxServer.Bytes

/-!
# Commands

The one enumeration of the protocol : request kinds, response kinds and result codes
share it, and a frame carries the constructor's position as `m_cmd`. `coWorkCase` is the
`switch` of `co_work` : the request kinds it has a label for. It ignores every other
value, also those of responses and results.
-/

namespace WzxServer

/-- The enumeration of `co_env.h`, in its order. -/
inductive Cmd where
  -- face
  | noOperation | addFace | getGroup | getUser | delUser | delGroup
  -- login
  | login | loginRes | loginSuccess | loginNoUser | loginErrPassword
  -- register
  | registerRes | registerSuccess | registerUserAlreadyExist
  -- detect
  | detect | detectRes | detectSuccess | detectNoUser
  | messageCreate | messageCreateRes | messageCreateSuccess | messageCreateFailed
  | online | onlineRes | onlineSuccess | onlineFailed
  | offline | offlineRes | offlineSuccess | offlibeFailed
  | checkIsOnline | checkIsOnlineRes | checkIsOnlineSuccess | checkIsOnlineFailed
  | messageSend | messageSendRes | messageSendSuccess | messageSendFailed
  | messageHistory | messageHistoryRes | messageHistoryCountRes | messageHistorySuccess
  | messageHistoryFailed
  | messagrRecentSession | messagrRecentSessionRes | messagrRecentSessionSuccess
  | messagrRecentSessionFailed
  | loginTouXiang | loginTouXiangRes | loginTouXiangSuccess | loginTouXiangFailed
  | changeTouXiang | changeTouXiangRes | changeTouXiangSuccess | changeTouXiangFailed
  | getTouXiang | getTouXiangRes | getTouXiangSuccess | getTouXiangFailed
  deriving DecidableEq

/-- The value of an enumerator. -/
def Cmd.code (c : Cmd) : ℤ :=
  c.ctorIdx

/-- The labels of the `switch` in `co_work`. -/
def Cmd.cases : List Cmd :=
  [.noOperation, .addFace, .getGroup, .getUser, .delUser, .delGroup, .login, .detect,
    .messageCreate, .messageSend, .messageHistory, .messagrRecentSession, .online, .offline,
    .checkIsOnline, .loginTouXiang, .changeTouXiang, .getTouXiang]

/-- The label `co_work` takes for `m_cmd`; `none` falls through the `switch`. -/
def coWorkCase (m_cmd : ℤ) : Option Cmd :=
  Cmd.cases.find? fun c => c.code = m_cmd

example : Cmd.getTouXiangFailed.code = 58 ∧ coWorkCase 7 = none := by decide

end WzxServer
