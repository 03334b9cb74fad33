import WzxServer.Frames
import WzxServer.Lib.Moves

/-!
# Acknowledgements and the request stream

Two readers take bytes off one socket : `co_recvData`, which keeps what it cannot use yet in
`msgBuffer`, and `RescentSessionEvent`, which reads up to 16 bytes for each session that it
sends, and looks at neither what they are nor how many.

A `Link` is a connection with what is on its way to it. `streams_of_meets` : as long as each of
these reads fails or takes one whole acknowledgement, with no beginning of a frame in
`msgBuffer`, the bytes that are left are whole frames, and the requests are handed to `co_work`
each once and in order.

The invariant is `Flows` : what is in the buffer and what is on the way are together the frames
that were sent and not handed over yet. The client may send at any time and `co_recvData` may read
any number of bytes, so the only step that can break it is the read of an acknowledgement, and
the condition (`Acked`) is about this step alone. A client that waits for its sessions before it
acknowledges them is safe; one that sends its next request meanwhile is not.
-/

namespace WzxServer

open Framing

/-- `sizeof(messageRecentSessionResData)`. -/
def ackSize : ℕ :=
  16

/-- A well-formed frame that is no acknowledgement. -/
def IsRequest (f : Bytes) : Prop :=
  WellFormedFrame f ∧ cmdOf f ≠ Cmd.messagrRecentSessionRes.code

/-- A `MESSAGR_RECENT_SESSION_RES` frame. -/
def IsAck (f : Bytes) : Prop :=
  WellFormedFrame f ∧ f.length = ackSize ∧ cmdOf f = Cmd.messagrRecentSessionRes.code

instance : DecidablePred IsRequest :=
  fun _ => inferInstanceAs (Decidable (_ ∧ _))

instance : DecidablePred IsAck :=
  fun _ => inferInstanceAs (Decidable (_ ∧ _))

/-- The requests among the frames. -/
def requestsOf (fs : List Bytes) : List Bytes :=
  fs.filter IsRequest

/-- Where the coroutine of a connection is : in the loop of `co_recvData`, or in the handler with
`n` sessions to send, or before a read for the last session sent and with `n` to send. -/
inductive Reader where
  /-- In the loop of `co_recvData`. -/
  | loop
  /-- In `RescentSessionEvent`, with `n` sessions to send. -/
  | rows (n : ℕ)
  /-- Before the read for the session that was sent last. -/
  | ack (n : ℕ)

/-- A connection : the buffer, none after undefined behaviour, the bytes sent and not read yet,
the frames sent, what was handed to `co_work`, and how many sessions and acknowledgements were
sent. -/
structure Link where
  env : Option StEnv
  wire : Bytes
  sent : List Bytes
  handed : List Handed
  rows : ℕ
  acks : ℕ
  reader : Reader

/-- A new connection. -/
def Link.start : Link :=
  ⟨some .init, [], [], [], 0, 0, .loop⟩

/-- What may happen : the client sends a request or an acknowledgement, `co_recvData` reads `k`
bytes, the unpacking loop takes a turn, a handler with sessions to send having `n` of them, a
session is sent, and `k` bytes are read for an acknowledgement, none when the read fails. -/
inductive LinkMove where
  /-- The client sends a request. -/
  | send (f : Bytes)
  /-- The client acknowledges a session. -/
  | sendAck (a : Bytes)
  /-- `co_recvData` reads `k` bytes. -/
  | recv (k : ℕ)
  /-- A turn of the unpacking loop, after which a handler has `n` sessions to send. -/
  | turn (n : ℕ)
  /-- The handler sends a session. -/
  | row
  /-- The handler reads `k` bytes, none when the read fails. -/
  | readAck (k : ℕ)

namespace Link

/-- `co_recvData` reads `k` bytes and appends them. -/
def recv (s : Link) (k : ℕ) (env : StEnv) : Turn → Option Link
  | .leave =>
    if ReadOk (s.wire.take k) then
      some { s with env := env.append (s.wire.take k), wire := s.wire.drop k }
    else none
  | _ => none

/-- A turn of the unpacking loop. The handler of the frame does not touch the buffer. -/
def turn (s : Link) (n : ℕ) : Turn → Option Link
  | .leave => none
  | .handle h next =>
    some { s with
      env := next, handed := s.handed ++ [h]
      reader := if coWorkCase h.header.cmd = some .messagrRecentSession then .rows n else .loop }
  | .overflow => some { s with env := none }

/-- `co_write` of the next session, or the end of the handler. -/
def row (s : Link) : Reader → Option Link
  | .rows (n + 1) => some { s with rows := s.rows + 1, reader := .ack n }
  | .rows 0 => some { s with reader := .loop }
  | _ => none

/-- `co_read` of `sessionRes`. -/
def readAck (s : Link) (k : ℕ) : Reader → Option Link
  | .ack n => if k ≤ ackSize then some { s with wire := s.wire.drop k, reader := .rows n } else none
  | _ => none

/-- The loop, when it runs. -/
def looping (s : Link) : Option StEnv :=
  match s.reader with
  | .loop => s.env
  | _ => none

/-- The state after a move, none where it cannot be made. -/
def next (s : Link) : LinkMove → Option Link
  | .send f =>
    if IsRequest f then some { s with wire := s.wire ++ f, sent := s.sent ++ [f] } else none
  | .sendAck a =>
    if IsAck a ∧ s.acks < s.rows then
      some { s with wire := s.wire ++ a, sent := s.sent ++ [a], acks := s.acks + 1 }
    else none
  | .recv k => s.looping.bind fun env => s.recv k env (unpackTurn env)
  | .turn n => s.looping.bind fun env => s.turn n (unpackTurn env)
  | .row => s.row s.reader
  | .readAck k => s.readAck k s.reader

/-- What is left of the frames sent, in `msgBuffer` and on the way, is whole frames, and each
request sent is among those handed to `co_work` or among those, in order. -/
def Streams (s : Link) : Prop :=
  ∃ env rest, s.env = some env ∧ (∀ f ∈ rest, WellFormedFrame f) ∧
    env.pending ++ s.wire = rest.flatten ∧
    requestsOf s.sent = requestsOf (s.handed.map Handed.frame) ++ requestsOf rest

/-- The condition on a step : a read for an acknowledgement fails or takes one, and `msgBuffer`
holds no beginning of a frame then. -/
def Acked (s : Link) : LinkMove → Prop
  | .readAck k => k = 0 ∨ k = ackSize ∧ IsAck (s.wire.take k) ∧
      ∀ env ∈ s.env, ∃ gs : List Bytes, (∀ g ∈ gs, WellFormedFrame g) ∧
        env.pending = gs.flatten
  | _ => True

/-! ## One step -/

/-- The same, with the buffer in its bounds. -/
structure Flows (s : Link) (env : StEnv) (rest : List Bytes) : Prop where
  /-- Nothing undefined has happened. -/
  held : s.env = some env
  /-- The bytes held are inside of `msgBuffer`. -/
  inRange : env.InRange
  /-- What is left of the frames that were sent. -/
  frames : ∀ f ∈ rest, WellFormedFrame f
  /-- They are in the buffer and on the way. -/
  bytes : env.pending ++ s.wire = rest.flatten
  /-- A request that was sent was handed over or is left. -/
  requests : requestsOf s.sent = requestsOf (s.handed.map Handed.frame) ++ requestsOf rest

variable {s s' : Link} {env : StEnv} {rest : List Bytes}

/-- A link whose frames flow hands out the requests that were sent, as far as they were read. -/
theorem Flows.streams (h : s.Flows env rest) : s.Streams :=
  ⟨env, rest, h.held, h.frames, h.bytes, h.requests⟩

/-- The requests of a stream are those of its parts. -/
theorem requestsOf_append (fs gs : List Bytes) :
    requestsOf (fs ++ gs) = requestsOf fs ++ requestsOf gs :=
  List.filter_append ..

/-- An acknowledgement is no request. -/
theorem requestsOf_ack {a : Bytes} (ha : IsAck a) : requestsOf [a] = [] := by
  simp [requestsOf, IsRequest, ha.2.2]

/-- The client sends a frame. -/
theorem Flows.send (h : s.Flows env rest) {f : Bytes} (hf : WellFormedFrame f)
    (henv : s'.env = s.env) (hwire : s'.wire = s.wire ++ f) (hsent : s'.sent = s.sent ++ [f])
    (hhanded : s'.handed = s.handed) : s'.Flows env (rest ++ [f]) := by
  refine ⟨henv.trans h.held, h.inRange, ?_, ?_, ?_⟩
  · intro g hg
    rcases List.mem_append.mp hg with hg | hg
    · exact h.frames g hg
    · exact List.mem_singleton.mp hg ▸ hf
  · rw [hwire, ← List.append_assoc, h.bytes, List.flatten_append, List.flatten_singleton]
  · rw [hsent, hhanded, requestsOf_append, requestsOf_append, h.requests, List.append_assoc]

/-- `co_recvData` takes bytes over. -/
theorem Flows.recv (h : s.Flows env rest) (hleave : ¬framing.Complete env.pending) {k : ℕ}
    (hk : ReadOk (s.wire.take k)) :
    ∃ env', Flows { s with env := env.append (s.wire.take k), wire := s.wire.drop k } env'
      rest := by
  have hfit : env.pending.length + (s.wire.take k).length ≤ msgBufferSize := by
    have hread := hk.2
    have hmax : maxFrame + bufferLength = msgBufferSize := by decide
    rcases eq_nil_or_length_lt (fun f hf => (h.frames f hf).1) h.bytes hleave with hnil | hlt
    · rw [hnil, List.length_nil]
      omega
    · obtain ⟨f, hf, hlt⟩ := hlt
      have := (h.frames f hf).2
      omega
  obtain ⟨env', happ⟩ := (StEnv.append_eq_some_iff h.inRange _).mpr hfit
  refine ⟨env', happ, StEnv.inRange_append happ, h.frames, ?_, h.requests⟩
  rw [StEnv.pending_append h.inRange happ, List.append_assoc, List.take_append_drop]
  exact h.bytes

/-- A turn of the loop hands the next frame over. -/
theorem Flows.turn (h : s.Flows env rest) (hc : framing.Complete env.pending) (reader : Reader) :
    ∃ env' rest', unpackTurn env = .handle ⟨env.msgBuffer⟩ (some env') ∧
      Flows { s with env := some env', handed := s.handed ++ [⟨env.msgBuffer⟩], reader := reader }
        env' rest' := by
  have hframes := h.frames
  have hbytes := h.bytes
  have hrequests := h.requests
  rcases rest with _ | ⟨f, rest⟩
  · have h8 := hc.1
    rw [(List.append_eq_nil_iff.mp hbytes).1] at h8
    exact absurd h8 (by decide)
  · have hf := (hframes f List.mem_cons_self).1
    obtain ⟨r, hr, hrest⟩ := exists_append_of_complete hf
      (by rw [← List.flatten_cons, ← hbytes]; exact List.prefix_append _ _) hc
    have hlen : lengthOf env.pending = f.length := by
      rw [hr, ← len_framing, framing.len_append _ _ hf.1, hf.2]
    obtain ⟨env', hturn, h', hpend⟩ := turn_of_complete h.inRange hc (by omega)
    refine ⟨env', rest, hturn, rfl, h', fun g hg => hframes g (List.mem_cons_of_mem f hg), ?_, ?_⟩
    · rw [List.flatten_cons, hr, List.append_assoc] at hbytes
      rw [hpend, hrest]
      exact List.append_cancel_left hbytes
    · have hfront : Handed.frame ⟨env.msgBuffer⟩ = f := by
        rw [frame_handed hc, hr, hf.front_append]
      have hcons : requestsOf (f :: rest) = requestsOf [f] ++ requestsOf rest :=
        requestsOf_append [f] rest
      rw [hrequests, hcons, List.map_append, requestsOf_append, List.append_assoc, List.map_cons,
        List.map_nil, hfront]

/-- An acknowledgement is taken from between two frames. -/
theorem Flows.readAck (h : s.Flows env rest) {gs : List Bytes}
    (hgs : ∀ g ∈ gs, WellFormedFrame g) (hpend : env.pending = gs.flatten) {k : ℕ}
    (hack : IsAck (s.wire.take k)) (reader : Reader) :
    ∃ rest', Flows { s with wire := s.wire.drop k, reader := reader } env rest' := by
  have hsplit : (gs ++ [s.wire.take k]).flatten ++ s.wire.drop k = rest.flatten := by
    rw [List.flatten_append, List.flatten_singleton, List.append_assoc, List.take_append_drop,
      ← hpend, h.bytes]
  have hall : ∀ g ∈ gs ++ [s.wire.take k], framing.IsFrame g := by
    intro g hg
    rcases List.mem_append.mp hg with hg | hg
    · exact (hgs g hg).1
    · exact List.mem_singleton.mp hg ▸ hack.1.1
  obtain ⟨rest', rfl, hdrop⟩ := exists_of_flatten_append (by decide) hall
    (fun f hf => (h.frames f hf).1) hsplit
  refine ⟨gs ++ rest', h.held, h.inRange, ?_, ?_, ?_⟩
  · intro f hf
    rcases List.mem_append.mp hf with hf | hf
    · exact hgs f hf
    · exact h.frames f (List.mem_append_right _ hf)
  · rw [List.flatten_append, hpend, hdrop]
  · have hrequests := h.requests
    rw [requestsOf_append, requestsOf_append, requestsOf_ack hack, List.append_nil] at hrequests
    rw [requestsOf_append]
    exact hrequests

/-- A loop that runs has a buffer. -/
theorem looping_eq_some (h : s.looping = some env) : s.env = some env := by
  unfold looping at h
  split at h
  · exact h
  · exact absurd h.symm (Option.some_ne_none env)

/-- A step that meets the condition. -/
theorem Flows.next (h : s.Flows env rest) {e : LinkMove} (hC : s.Acked e)
    (hnext : s.next e = some s') : ∃ env' rest', s'.Flows env' rest' := by
  cases e with
  | send f =>
    rw [Link.next] at hnext
    split_ifs at hnext with hf
    obtain rfl := Option.some.inj hnext
    exact ⟨_, _, h.send hf.1 rfl rfl rfl rfl⟩
  | sendAck a =>
    rw [Link.next] at hnext
    split_ifs at hnext with ha
    obtain rfl := Option.some.inj hnext
    exact ⟨_, _, h.send ha.1.1 rfl rfl rfl rfl⟩
  | recv k =>
    obtain ⟨env₁, hloop, hrecv⟩ := Option.bind_eq_some_iff.mp hnext
    obtain rfl := Option.some.inj ((looping_eq_some hloop).symm.trans h.held)
    by_cases hc : framing.Complete env₁.pending
    · obtain ⟨env', rest', hturn, -⟩ := h.turn hc s.reader
      rw [hturn] at hrecv
      exact absurd hrecv.symm (Option.some_ne_none s')
    · rw [turn_of_not_complete h.inRange hc, Link.recv] at hrecv
      split_ifs at hrecv with hk
      obtain rfl := Option.some.inj hrecv
      obtain ⟨env', h'⟩ := h.recv hc hk
      exact ⟨env', rest, h'⟩
  | turn n =>
    obtain ⟨env₁, hloop, hturn⟩ := Option.bind_eq_some_iff.mp hnext
    obtain rfl := Option.some.inj ((looping_eq_some hloop).symm.trans h.held)
    by_cases hc : framing.Complete env₁.pending
    · obtain ⟨env', rest', heq, h'⟩ := h.turn hc
        (if coWorkCase (Handed.header ⟨env₁.msgBuffer⟩).cmd = some .messagrRecentSession then
          .rows n else .loop)
      rw [heq] at hturn
      obtain rfl := Option.some.inj hturn
      exact ⟨env', rest', h'⟩
    · rw [turn_of_not_complete h.inRange hc] at hturn
      exact absurd hturn.symm (Option.some_ne_none s')
  | row =>
    refine ⟨env, rest, ?_⟩
    change s.row s.reader = some s' at hnext
    unfold Link.row at hnext
    split at hnext
    · obtain rfl := Option.some.inj hnext
      exact ⟨h.held, h.inRange, h.frames, h.bytes, h.requests⟩
    · obtain rfl := Option.some.inj hnext
      exact ⟨h.held, h.inRange, h.frames, h.bytes, h.requests⟩
    · exact absurd hnext.symm (Option.some_ne_none s')
  | readAck k =>
    change s.readAck k s.reader = some s' at hnext
    unfold Link.readAck at hnext
    split at hnext
    · split_ifs at hnext
      obtain rfl := Option.some.inj hnext
      rcases hC with rfl | ⟨-, hack, hwhole⟩
      · exact ⟨env, rest, h.held, h.inRange, h.frames, h.bytes, h.requests⟩
      · obtain ⟨gs, hgs, hpend⟩ := hwhole env h.held
        obtain ⟨rest', h'⟩ := h.readAck hgs hpend hack _
        exact ⟨env, rest', h'⟩
    · exact absurd hnext.symm (Option.some_ne_none s')

/-! ## Whole runs -/

/-- Before the first move everything flows. -/
theorem flows_start : Link.start.Flows .init [] :=
  ⟨rfl, StEnv.inRange_init, nofun, rfl, rfl⟩

/-- In every run in which each read for an acknowledgement fails or takes one, with no beginning
of a frame in `msgBuffer`, both readers together keep to the frames. -/
theorem streams_of_meets {es : List LinkMove} (h : Moves.Meets Link.next Acked Link.start es) :
    Moves.Throughout Link.next Streams Link.start es := by
  have hflows := Moves.throughout_of_meets (I := fun s => ∃ env rest, s.Flows env rest)
    (fun s e s' hI hC hnext => by
      obtain ⟨env, rest, hI⟩ := hI
      exact hI.next hC hnext) ⟨_, _, flows_start⟩ h
  refine hflows.mono fun s hs => ?_
  obtain ⟨env, rest, hs⟩ := hs
  exact hs.streams

/-- When nothing is left, every request was handed over. -/
theorem Streams.requests_eq (h : s.Streams) (henv : ∀ env ∈ s.env, env.pending = [])
    (hwire : s.wire = []) : requestsOf s.sent = requestsOf (s.handed.map Handed.frame) := by
  obtain ⟨env, rest, hsome, hrest, hbytes, hrequests⟩ := h
  rw [henv env hsome, hwire, List.nil_append] at hbytes
  have hnil : rest = [] := by
    rcases rest with _ | ⟨f, rest⟩
    · rfl
    · have hlen := (hrest f List.mem_cons_self).1.1
      rw [List.flatten_cons] at hbytes
      rw [(List.append_eq_nil_iff.mp hbytes.symm).1] at hlen
      exact absurd hlen (by decide)
  subst hnil
  rw [hrequests]
  exact List.append_nil _

/-! ## Requests behind one that sends sessions -/

/-- A frame of `n` bytes with nothing behind its header. -/
def frameOf (c : Cmd) (n : ℕ) : Bytes :=
  [UInt8.ofNat c.ctorIdx, 0, 0, 0, UInt8.ofNat n, UInt8.ofNat (n / 256), 0, 0] ++
    List.replicate (n - 8) 0

/-- The client asks for its sessions, and a session is sent. -/
def asking : List LinkMove :=
  [.send (frameOf .messagrRecentSession 1128), .recv 1128, .turn 1, .row]

/-- The client acknowledges the session. -/
def acknowledging : List LinkMove :=
  asking ++ [.sendAck (frameOf .messagrRecentSessionRes 16)]

/-- The client sends two more requests before it sees the session. -/
def pipelining : List LinkMove :=
  asking ++ [.send (frameOf .checkIsOnline 8), .send (frameOf .checkIsOnline 8), .readAck 16, .row]

/-- Only the read of an acknowledgement can go wrong. -/
theorem acked_of_ne {e : LinkMove} (he : ∀ k, e ≠ .readAck k) (s : Link) : s.Acked e := by
  cases e with
  | readAck k => exact absurd rfl (he k)
  | _ => trivial

/-- The acknowledgement is read when it is there. -/
theorem streams_of_meets_acknowledging :
    Moves.Throughout Link.next Streams Link.start (acknowledging ++ [.readAck 16, .row]) := by
  refine streams_of_meets (Moves.Meets.append (Moves.Meets.of_forall fun s e he => ?_) ?_)
  · refine acked_of_ne (fun k => ?_) s
    rintro rfl
    simp [acknowledging, asking] at he
  · intro s hs
    have hready : ((Moves.run Link.next Link.start acknowledging).all fun s =>
        decide (IsAck (s.wire.take 16)) && s.env.all fun env => env.msgLength = 0) = true := by
      decide +kernel
    rw [hs, Option.all_some, Bool.and_eq_true, decide_eq_true_iff] at hready
    refine ⟨Or.inr ⟨rfl, hready.1, fun env henv => ⟨[], nofun, ?_⟩⟩, fun _ _ => ⟨trivial, ?_⟩⟩
    · have hzero := hready.2
      rw [henv, Option.all_some, decide_eq_true_iff] at hzero
      rw [StEnv.pending, hzero]
      rfl
    · exact fun _ _ => trivial

/-- The read takes the two requests for the acknowledgement, and they are lost. -/
theorem not_streams_pipelining :
    ¬Moves.Throughout Link.next Streams Link.start pipelining := by
  intro h
  have hlost : ((Moves.run Link.next Link.start pipelining).any fun s =>
      s.wire = [] && s.handed.length = 1 && (requestsOf s.sent).length = 3 &&
        s.env.all fun env => env.msgLength = 0) = true := by
    decide +kernel
  rcases hs : Moves.run Link.next Link.start pipelining with _ | s
  · rw [hs] at hlost
    exact absurd hlost Bool.false_ne_true
  · rw [hs, Option.any_some] at hlost
    simp only [Bool.and_eq_true, decide_eq_true_iff] at hlost
    obtain ⟨⟨⟨hwire, hhanded⟩, hsent⟩, hzero⟩ := hlost
    have heq := (h.of_run hs).requests_eq (fun env henv => ?_) hwire
    · have hle := List.length_filter_le (fun f => decide (IsRequest f)) (s.handed.map Handed.frame)
      rw [List.length_map] at hle
      have hlen := congrArg List.length heq
      rw [hsent] at hlen
      rw [requestsOf] at hlen
      omega
    · rw [henv, Option.all_some, decide_eq_true_iff] at hzero
      rw [StEnv.pending, hzero]
      rfl

end Link

end WzxServer
