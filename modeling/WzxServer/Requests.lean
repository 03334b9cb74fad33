import WzxServer.RecvData

/-!
# Requests

A handler casts the front of `msgBuffer` to the structure of its request and reads the
texts as C strings : from the field's offset up to the first NUL, which may lie behind the
field. A string without a NUL in the buffer is undefined behaviour, here `none`. The
structures keep the fields that the handlers read, with the texts as they are read.

`decode` is one `match` on the label that `co_work` chose. Its offsets are those of the
structures in the header files : the header takes 8 bytes, names and accounts 20 each, and an
`int` starts at a multiple of 4.
-/

namespace WzxServer

/-- The bytes from offset `off` up to the first NUL of the buffer. -/
def cString (b : ℕ → UInt8) (off : ℕ) : Option Bytes :=
  let s := slice b off (msgBufferSize - off)
  if (0 : UInt8) ∈ s then some (s.takeWhile (· ≠ 0)) else none

/-- The rest of the buffer starts with the byte at the offset. -/
theorem slice_rest (b : ℕ → UInt8) {off : ℕ} (hoff : off < msgBufferSize) :
    slice b off (msgBufferSize - off) =
      b off :: slice b (off + 1) (msgBufferSize - (off + 1)) := by
  rw [show msgBufferSize - off = 1 + (msgBufferSize - (off + 1)) by omega, ← slice_append]
  rfl

/-- A text that starts with a NUL is empty. -/
theorem cString_of_zero {b : ℕ → UInt8} {off : ℕ} (hoff : off < msgBufferSize)
    (h : b off = 0) : cString b off = some [] := by
  rw [cString]
  simp only [slice_rest b hoff, h]
  simp

/-- A byte that is no NUL is the first of its text. -/
theorem cString_of_ne_zero {b : ℕ → UInt8} {off : ℕ} (hoff : off < msgBufferSize)
    (h : b off ≠ 0) : cString b off = (cString b (off + 1)).map (b off :: ·) := by
  rw [cString, cString]
  simp only [slice_rest b hoff, List.mem_cons, h.symm, false_or]
  split_ifs
  · simp [h]
  · rfl

/-- The `int` at offset `off`. -/
def intAt (b : ℕ → UInt8) (off : ℕ) : ℤ :=
  int32 (b off) (b (off + 1)) (b (off + 2)) (b (off + 3))

/-- A `Mat` over memory : its geometry, `type()`, and the bytes from its data pointer to
the end of what the pointer points into. -/
structure Mat where
  rows : ℤ
  cols : ℤ
  type : ℤ
  data : Bytes
  deriving DecidableEq

/-- `Mat(rows, cols, type, data)`; a `Mat` keeps the low bits of the type. -/
def Mat.make (rows cols type : ℤ) (data : Bytes) : Mat :=
  ⟨rows, cols, type % 4096, data⟩

/-- A class number and an account. -/
structure UserName where
  classnum : Bytes
  account : Bytes
  deriving DecidableEq

/-- `addFaceData`, with the `Mat` over `m_facedata`. -/
structure AddFaceData where
  m_classnum : Bytes
  m_account : Bytes
  m_password : Bytes
  m_touxiang : Bytes
  image : Mat

/-- `loginData`. -/
structure LoginData where
  m_classnum : Bytes
  m_username : Bytes
  m_password : Bytes

/-- `delUserData`. -/
structure DelUserData where
  m_group_id : Bytes
  m_user_id : Bytes

/-- `detectFaceData`, with the `Mat` over `m_facedata`. -/
structure DetectFaceData where
  m_classnum : Bytes
  m_account : Bytes
  image : Mat

/-- `messageCreateData`. -/
structure MessageCreateData where
  m_fromclassnum : Bytes
  m_toclassnum : Bytes
  m_fromaccount : Bytes
  m_toaccount : Bytes
  m_peertouxiang : Bytes

/-- `messageSendData`, a request and the form of a message in a history. -/
structure MessageSendData where
  fromClassNum : Bytes
  toClassNum : Bytes
  fromAccount : Bytes
  toAccount : Bytes
  updatetime : ℤ
  messageContent : Bytes
  deriving DecidableEq

/-- `messageHistoryData`. -/
structure MessageHistoryData where
  fromClassNum : Bytes
  toClassNum : Bytes
  fromAccount : Bytes
  toAccount : Bytes
  lastupdatetime : ℤ

/-- `messageRecentSessionData`, a request and the form of a session in the answer. -/
structure RecentSessionData where
  classNum : Bytes
  account : Bytes
  lastMessage : Bytes
  touxiang : Bytes
  lastupdatetime : ℤ
  deriving DecidableEq

/-- `changeTouXiangData`. -/
structure ChangeTouXiangData where
  m_classNum : Bytes
  m_account : Bytes
  m_touxiang : Bytes

/-- A request, by the label of `co_work` it goes to. -/
inductive Request where
  | noOperation
  | addFace (d : AddFaceData)
  | getGroup
  | getUser (m_group_id : Bytes)
  | delUser (d : DelUserData)
  | delGroup (m_group_id : Bytes)
  | login (d : LoginData)
  | detect (d : DetectFaceData)
  | messageCreate (d : MessageCreateData)
  | messageSend (d : MessageSendData)
  | messageHistory (d : MessageHistoryData)
  | recentSession (classNum account : Bytes) (lastupdatetime : ℤ)
  | online (d : UserName)
  | offline (d : UserName)
  | checkIsOnline
  | loginTouXiang (d : UserName)
  | changeTouXiang (d : ChangeTouXiangData)
  | getTouXiang (d : UserName)

/-- `sizeof(m_facedata)`. -/
def faceSize : ℕ :=
  1024 * 1024

/-- The image that starts at `off`, with its geometry in the words behind `m_facedata`. -/
def faceAt (b : ℕ → UInt8) (off : ℕ) : Mat :=
  Mat.make (intAt b (off + faceSize + 4)) (intAt b (off + faceSize)) (intAt b (off + faceSize + 8))
    (slice b off (msgBufferSize - off))

/-- The request that a handler reads behind the header, `none` when it reads past the
buffer. -/
def decode (b : ℕ → UInt8) : Cmd → Option Request
  | .noOperation => some .noOperation
  | .addFace => do
    return .addFace ⟨← cString b 8, ← cString b 28, ← cString b 48,
      ← cString b (68 + faceSize + 12), faceAt b 68⟩
  | .getGroup => some .getGroup
  | .getUser => do return .getUser (← cString b 8)
  | .delUser => do return .delUser ⟨← cString b 8, ← cString b 28⟩
  | .delGroup => do return .delGroup (← cString b 8)
  | .login => do return .login ⟨← cString b 8, ← cString b 28, ← cString b 48⟩
  | .detect => do return .detect ⟨← cString b 8, ← cString b 28, faceAt b 48⟩
  | .messageCreate => do
    return .messageCreate ⟨← cString b 8, ← cString b 28, ← cString b 48, ← cString b 68,
      ← cString b 88⟩
  | .messageSend => do
    return .messageSend ⟨← cString b 8, ← cString b 28, ← cString b 48, ← cString b 68,
      intAt b 88, ← cString b 92⟩
  | .messageHistory => do
    return .messageHistory ⟨← cString b 8, ← cString b 28, ← cString b 48, ← cString b 68,
      intAt b 88⟩
  | .messagrRecentSession => do
    return .recentSession (← cString b 8) (← cString b 28) (intAt b 1124)
  | .online => do return .online ⟨← cString b 8, ← cString b 28⟩
  | .offline => do return .offline ⟨← cString b 8, ← cString b 28⟩
  | .checkIsOnline => some .checkIsOnline
  | .loginTouXiang => do return .loginTouXiang ⟨← cString b 8, ← cString b 28⟩
  | .changeTouXiang => do
    return .changeTouXiang ⟨← cString b 8, ← cString b 28, ← cString b 48⟩
  | .getTouXiang => do return .getTouXiang ⟨← cString b 8, ← cString b 28⟩
  | _ => none

/-- The label that a request goes to. -/
def Request.kind : Request → Cmd
  | .noOperation => .noOperation
  | .addFace _ => .addFace
  | .getGroup => .getGroup
  | .getUser _ => .getUser
  | .delUser _ => .delUser
  | .delGroup _ => .delGroup
  | .login _ => .login
  | .detect _ => .detect
  | .messageCreate _ => .messageCreate
  | .messageSend _ => .messageSend
  | .messageHistory _ => .messageHistory
  | .recentSession _ _ _ => .messagrRecentSession
  | .online _ => .online
  | .offline _ => .offline
  | .checkIsOnline => .checkIsOnline
  | .loginTouXiang _ => .loginTouXiang
  | .changeTouXiang _ => .changeTouXiang
  | .getTouXiang _ => .getTouXiang

/-- A request is of the kind it was decoded for. -/
theorem kind_decode {b : ℕ → UInt8} {c : Cmd} {request : Request}
    (h : decode b c = some request) : request.kind = c := by
  cases c <;> simp only [decode, Option.bind_eq_bind, Option.pure_def, Option.bind_eq_some_iff,
    Option.some.injEq, reduceCtorEq] at h
  all_goals
    first
    | exact h ▸ rfl
    | (obtain ⟨_, _, h⟩ := h; exact h ▸ rfl)
    | (obtain ⟨_, _, _, _, h⟩ := h; exact h ▸ rfl)
    | (obtain ⟨_, _, _, _, _, _, h⟩ := h; exact h ▸ rfl)
    | (obtain ⟨_, _, _, _, _, _, _, _, h⟩ := h; exact h ▸ rfl)
    | (obtain ⟨_, _, _, _, _, _, _, _, _, _, h⟩ := h; exact h ▸ rfl)

end WzxServer
