import WzxServer.Cmd
import WzxServer.Lib.Stream

/-!
# The receive buffer of a connection

`co_recvData` appends what `read` returned to `msgBuffer` and hands every complete frame
at its front to `co_work`, shifting the rest down after each. The buffer has 8 MiB, and
nothing in the source checks an offset : a copy that leaves the buffer, and a signed
overflow, are undefined behaviour, here `none`. The shift moves the bytes like `memmove`.

`unpackTurn` is one turn of the unpacking loop. `unpack` takes turns until the loop ends,
with a bound on their number, since a frame of length zero is handed out for ever.
`Reach` is the connection turn by turn, without a bound.
-/

namespace WzxServer

/-- `BUFFER_LENGTH`, the most one `read` returns. -/
def bufferLength : ℕ :=
  1024 * 1024

/-- The size of `msgBuffer`. -/
def msgBufferSize : ℕ :=
  8 * bufferLength

/-- The part of `stEnv_t` that `co_recvData` works on. -/
structure StEnv where
  msgBuffer : ℕ → UInt8
  msgLength : ℤ

/-- `stEnv_t::stEnv_t`. -/
def StEnv.init : StEnv :=
  ⟨fun _ => 0, 0⟩

/-- `dataHeader`. -/
structure DataHeader where
  cmd : ℤ
  dataLength : ℤ
  deriving DecidableEq

/-- The header a `dataHeader *` to the front of the buffer reads. -/
def headerOf (b : ℕ → UInt8) : DataHeader :=
  ⟨int32 (b 0) (b 1) (b 2) (b 3), int32 (b 4) (b 5) (b 6) (b 7)⟩

/-- `sizeof(dataHeader)`. -/
def headerSize : ℕ :=
  8

/-- An `int` compared with a `size_t`. -/
def toSize (n : ℤ) : ℕ :=
  (n % 2 ^ 64).toNat

/-- The bytes at offsets `off`, ..., `off + n - 1` lie in `msgBuffer`. -/
def InBuffer (off n : ℤ) : Prop :=
  0 ≤ off ∧ 0 ≤ n ∧ off + n ≤ msgBufferSize

instance (off n : ℤ) : Decidable (InBuffer off n) :=
  inferInstanceAs (Decidable (_ ∧ _ ∧ _))

namespace StEnv

/-- The bytes received and not yet handed out. -/
def pending (env : StEnv) : Bytes :=
  slice env.msgBuffer 0 env.msgLength.toNat

/-- Copy the `recv` bytes of `rbuffer` to the end of `msgBuffer`. -/
def append (env : StEnv) (recv : Bytes) : Option StEnv :=
  if InBuffer env.msgLength recv.length then
    some {
      msgBuffer := fun i =>
        if env.msgLength ≤ i ∧ i < env.msgLength + recv.length then
          recv.getD (i - env.msgLength.toNat) 0
        else env.msgBuffer i
      msgLength := env.msgLength + recv.length }
  else none

/-- Move the `size` bytes at `off` to the front of `msgBuffer`. -/
def shift (env : StEnv) (off size : ℤ) : Option StEnv :=
  if InBuffer off size then
    some {
      msgBuffer := fun i => if i < size then env.msgBuffer (off.toNat + i) else env.msgBuffer i
      msgLength := size }
  else none

end StEnv

/-- What `co_work` is called with : the buffer, with a header at its front. -/
structure Handed where
  msgBuffer : ℕ → UInt8

/-- The header `co_work` is called with. -/
def Handed.header (h : Handed) : DataHeader :=
  headerOf h.msgBuffer

/-- The bytes of the frame that starts at the header. -/
def Handed.frame (h : Handed) : Bytes :=
  slice h.msgBuffer 0 h.header.dataLength.toNat

/-- One turn of the unpacking loop : the loop ends, or `co_work` is called and the rest is
shifted, or the length overflows before the call. -/
inductive Turn where
  /-- The loop ends. -/
  | leave
  /-- A frame is handed out, and the rest is shifted. -/
  | handle (h : Handed) (next : Option StEnv)
  /-- The length overflows before that. -/
  | overflow

/-- The `while` test and body of `co_recvData`. -/
def unpackTurn (env : StEnv) : Turn :=
  if toSize env.msgLength < headerSize then .leave
  else
    let header := headerOf env.msgBuffer
    if env.msgLength < header.dataLength then .leave
    else
      let size := env.msgLength - header.dataLength
      if intMax < size then .overflow
      else .handle ⟨env.msgBuffer⟩ (env.shift header.dataLength size)

/-- The unpacking loop, at most `fuel` turns : what was handed out, and the buffer left. -/
def unpack : ℕ → StEnv → Option (List Handed × StEnv)
  | 0, _ => none
  | fuel + 1, env =>
    match unpackTurn env with
    | .leave => some ([], env)
    | .handle h next =>
      next.bind fun env' => (unpack fuel env').map fun r => (h :: r.1, r.2)
    | .overflow => none

/-- `co_recvData` when `read` returns the bytes `recv`, none at a closed connection : the
result, what was handed to `co_work`, and the buffer left. -/
def coRecvData (fuel : ℕ) (env : StEnv) (recv : Bytes) : Option (ℤ × List Handed × StEnv) :=
  if recv.length = 0 then some (-1, [], env)
  else (env.append recv).bind fun env' => (unpack fuel env').map fun r => (0, r)

/-- The calls of `co_recvData` that `run` makes for the results `recvs` of `read`. -/
def recvAll (fuel : ℕ) : StEnv → List Bytes → Option (List Handed × StEnv)
  | env, [] => some ([], env)
  | env, recv :: recvs =>
    (coRecvData fuel env recv).bind fun r =>
      if r.1 = -1 then some r.2
      else (recvAll fuel r.2.2 recvs).map fun q => (r.2.1 ++ q.1, q.2)

/-- What one `read` can return on an open connection. -/
def ReadOk (recv : Bytes) : Prop :=
  1 ≤ recv.length ∧ recv.length ≤ bufferLength

instance (recv : Bytes) : Decidable (ReadOk recv) :=
  inferInstanceAs (Decidable (_ ∧ _))

/-- The states a connection reaches at the `while` test after reading `cs`; `none` after
undefined behaviour. -/
inductive Reach : List Bytes → Option StEnv → Prop
  | init : Reach [] (some .init)
  /-- The loop has ended, and a chunk is read. -/
  | recv {cs : List Bytes} {env : StEnv} (h : Reach cs (some env))
      (hturn : unpackTurn env = .leave) {c : Bytes} (hc : ReadOk c) :
      Reach (cs ++ [c]) (env.append c)
  /-- A turn hands a frame out. -/
  | handle {cs : List Bytes} {env : StEnv} (h : Reach cs (some env)) {out : Handed}
      {next : Option StEnv} (hturn : unpackTurn env = .handle out next) : Reach cs next
  /-- A turn overflows. -/
  | overflow {cs : List Bytes} {env : StEnv} (h : Reach cs (some env))
      (hturn : unpackTurn env = .overflow) : Reach cs none

/-! ## The frames of the protocol -/

/-- The length in the header of a byte string. -/
def lengthOf (s : Bytes) : ℤ :=
  int32 (s.getD 4 0) (s.getD 5 0) (s.getD 6 0) (s.getD 7 0)

/-- Frames are length-prefixed, with the length in the second word. -/
def framing : Framing UInt8 where
  header := headerSize
  len := lengthOf
  len_append s t h := by
    have h8 : 8 ≤ s.length := h
    simp only [lengthOf, List.getD_eq_getElem?_getD, List.getElem?_append]
    rw [if_pos (by omega), if_pos (by omega), if_pos (by omega), if_pos (by omega)]

theorem len_framing (s : Bytes) : framing.len s = lengthOf s := by
  simp only [framing]

/-- When the loop finds a frame. -/
theorem complete_iff {s : Bytes} :
    framing.Complete s ↔ headerSize ≤ s.length ∧ lengthOf s ≤ s.length := by
  simp only [Framing.Complete, framing]

/-! ## The buffer and the bytes it holds -/

namespace StEnv

variable {env env' : StEnv}

/-- The buffer holds no more than it has room for. -/
def InRange (env : StEnv) : Prop :=
  0 ≤ env.msgLength ∧ env.msgLength ≤ msgBufferSize

/-- An empty buffer is in range. -/
theorem inRange_init : StEnv.init.InRange := by
  simp [InRange, init]

/-- The bytes that are held back. -/
theorem length_pending (h : env.InRange) : (env.pending.length : ℤ) = env.msgLength := by
  have := h.1
  simp only [pending, length_slice]
  omega

/-- Appending succeeds exactly when the bytes fit. -/
theorem append_eq_some_iff (h : env.InRange) (recv : Bytes) :
    (∃ env', env.append recv = some env') ↔ env.pending.length + recv.length ≤ msgBufferSize := by
  have hlen := length_pending h
  have := h.1
  unfold append
  split_ifs with hin
  · simp only [Option.some.injEq, exists_eq', true_iff]
    have := hin.2.2
    omega
  · simp only [exists_false, false_iff]
    intro hle
    exact hin ⟨h.1, by omega, by omega⟩

/-- A chunk that fits leaves the buffer in range. -/
theorem inRange_append {recv : Bytes} (happ : env.append recv = some env') : env'.InRange := by
  unfold append at happ
  split_ifs at happ with hin
  obtain rfl := Option.some.inj happ
  obtain ⟨h1, h2, h3⟩ := hin
  exact ⟨by simp only; omega, by simp only; omega⟩

/-- It goes behind what is held back. -/
theorem pending_append {recv : Bytes} (h : env.InRange) (happ : env.append recv = some env') :
    env'.pending = env.pending ++ recv := by
  unfold append at happ
  split_ifs at happ with hin
  obtain rfl := Option.some.inj happ
  have h0 := h.1
  refine List.ext_getElem (by simp [pending]; omega) fun i hi hi' => ?_
  simp only [pending, length_slice] at hi
  simp only [pending, getElem_slice, Nat.zero_add]
  rcases Nat.lt_or_ge i env.msgLength.toNat with hlt | hge
  · rw [if_neg (by omega), List.getElem_append_left (by simpa using hlt), getElem_slice,
      Nat.zero_add]
  · have hr : i - env.msgLength.toNat < recv.length := by omega
    rw [if_pos (by omega), List.getElem_append_right (by simpa using hge),
      List.getD_eq_getElem _ _ hr]
    simp

/-- A shift inside the buffer keeps the `size` bytes at `off`. -/
theorem exists_shift {off size : ℤ} (hin : InBuffer off size) :
    ∃ env', env.shift off size = some env' ∧ env'.msgLength = size ∧
      env'.pending = slice env.msgBuffer off.toNat size.toNat := by
  refine ⟨_, if_pos hin, rfl, List.ext_getElem (by simp [pending]) fun i hi _ => ?_⟩
  have hlt : (i : ℤ) < size := by
    simp only [pending, length_slice] at hi
    omega
  simp only [pending, getElem_slice, Nat.zero_add, if_pos hlt]

end StEnv

end WzxServer
