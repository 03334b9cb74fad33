import WzxServer.Unpack

/-!
# When the receive loop ends

A turn of the unpacking loop that hands out a frame moves the rest of the buffer down by
the length in its header. With a length of 0 it moves nothing, and the loop hands out the
same header for ever; with a negative one it leaves the buffer. `progresses_iff` says that
the loop ends, and takes bytes off in every turn, exactly when all the headers it meets
announce a positive length.

A header is met at a frame boundary of the bytes that were held at the start, so the condition
can be read off these bytes without running the loop (`Positive`). The two directions are an
induction on the turns, with the bytes that are still held as what decreases.
-/

namespace WzxServer

open Framing

/-- The states at the `while` test, from `env` on. -/
inductive Turns (env : StEnv) : StEnv → Prop
  | start : Turns env env
  | turn {env₁ env₂ : StEnv} (h : Turns env env₁) {out : Handed}
      (hturn : unpackTurn env₁ = .handle out (some env₂)) : Turns env env₂

/-- The loop ends, and each turn that does not leave it makes the bytes held fewer. -/
structure Progresses (env : StEnv) : Prop where
  /-- A turn that hands out a frame takes bytes off. -/
  consumes : ∀ env₁, Turns env env₁ → unpackTurn env₁ ≠ .leave →
    ∃ out env₂, unpackTurn env₁ = .handle out (some env₂) ∧ env₂.msgLength < env₁.msgLength
  /-- The loop comes to its end. -/
  ends : ∃ fuel r, unpack fuel env = some r

/-- No complete header at a frame boundary announces a length of 0 or less. -/
def Positive (s : Bytes) : Prop :=
  ∀ p, framing.Boundary s p → framing.Complete p → 0 < lengthOf p

variable {env : StEnv}

/-! ## The bytes held at each turn -/

/-- A turn on a positive length cuts the first frame off. -/
theorem turn_of_positive (h : env.InRange) (hc : framing.Complete env.pending)
    (hpos : 0 < lengthOf env.pending) :
    ∃ env', unpackTurn env = .handle ⟨env.msgBuffer⟩ (some env') ∧ env'.InRange ∧
      env'.pending = framing.rest env.pending ∧ env'.pending.length < env.pending.length ∧
      env'.msgLength < env.msgLength := by
  obtain ⟨env', hturn, h', hrest⟩ := turn_of_complete h hc hpos.le
  have hlen := StEnv.length_pending h
  have hlen' := StEnv.length_pending h'
  have hle := (complete_iff.1 hc).2
  have hdrop := length_rest (F := framing) env.pending
  rw [← hrest, len_framing] at hdrop
  exact ⟨env', hturn, h', hrest, by omega, by omega⟩

theorem Positive.rest {s : Bytes} (h : Positive s) (hc : framing.Complete s) :
    Positive (framing.rest s) :=
  fun p hp => h p (hp.of_rest hc)

/-- The loop stays in its buffer, at the frame boundaries of the bytes it started with. -/
theorem boundary_of_turns (h : env.InRange) (hpos : Positive env.pending) {env₁ : StEnv}
    (hturns : Turns env env₁) : env₁.InRange ∧ framing.Boundary env.pending env₁.pending := by
  induction hturns with
  | start => exact ⟨h, .start⟩
  | @turn env₁ env₂ _ out hturn ih =>
    obtain ⟨h₁, hbound⟩ := ih
    have hc : framing.Complete env₁.pending := by
      by_contra hc
      rw [turn_of_not_complete h₁ hc] at hturn
      exact Turn.noConfusion hturn
    obtain ⟨env', hturn', h', hrest, -⟩ := turn_of_positive h₁ hc (hpos _ hbound hc)
    rw [hturn', Turn.handle.injEq] at hturn
    obtain rfl := Option.some.inj hturn.2
    exact ⟨h', hrest ▸ hbound.cut hc⟩

/-- With positive lengths there are at most as many turns as bytes. -/
theorem ends_of_positive : ∀ {n : ℕ} {env : StEnv}, env.InRange → env.pending.length < n →
    Positive env.pending → ∃ r, unpack n env = some r
  | 0, _, _, hn, _ => absurd hn (Nat.not_lt_zero _)
  | n + 1, env, h, hn, hpos => by
    by_cases hc : framing.Complete env.pending
    · obtain ⟨env', hturn, h', hrest, hlt, -⟩ := turn_of_positive h hc (hpos _ .start hc)
      obtain ⟨r, hr⟩ := ends_of_positive (n := n) h' (by omega) (hrest ▸ hpos.rest hc)
      exact ⟨(⟨env.msgBuffer⟩ :: r.1, r.2), by simp [unpack, hturn, hr]⟩
    · exact ⟨([], env), by rw [unpack, turn_of_not_complete h hc]⟩

/-- Only a positive length takes bytes off. -/
theorem pos_of_consumes (h : env.InRange) (hc : framing.Complete env.pending) {out : Handed}
    {env' : StEnv} (hturn : unpackTurn env = .handle out (some env'))
    (hlt : env'.msgLength < env.msgLength) : 0 < lengthOf env.pending := by
  rcases lt_trichotomy (lengthOf env.pending) 0 with hneg | hzero | hpos
  · rcases turn_of_neg h hc hneg with hturn' | ⟨out', hturn'⟩
    · simp [hturn'] at hturn
    · simp [hturn'] at hturn
  · obtain ⟨env'', hturn'', h'', hrest⟩ := turn_of_complete h hc hzero.ge
    rw [hturn'', Turn.handle.injEq] at hturn
    obtain rfl := Option.some.inj hturn.2
    have hlen := StEnv.length_pending h
    have hlen'' := StEnv.length_pending h''
    have hdrop := length_rest (F := framing) env.pending
    rw [← hrest, len_framing, hzero] at hdrop
    simp only [Int.toNat_zero] at hdrop
    omega
  · exact hpos

theorem turn_ne_leave (h : env.InRange) (hc : framing.Complete env.pending) :
    unpackTurn env ≠ .leave := by
  rw [turn_eq h hc]
  split_ifs <;> exact Turn.noConfusion

/-- A loop that takes bytes off in every turn comes to every frame boundary. -/
theorem turns_of_boundary (h : env.InRange) (hprog : Progresses env) {p : Bytes}
    (hp : framing.Boundary env.pending p) :
    ∃ env₁, Turns env env₁ ∧ env₁.InRange ∧ env₁.pending = p := by
  induction hp with
  | start => exact ⟨env, .start, h, rfl⟩
  | @cut p _ hc ih =>
    obtain ⟨env₁, hturns, h₁, rfl⟩ := ih
    obtain ⟨out, env₂, hturn, hlt⟩ := hprog.consumes env₁ hturns (turn_ne_leave h₁ hc)
    obtain ⟨env', hturn', h', hrest, -⟩ :=
      turn_of_positive h₁ hc (pos_of_consumes h₁ hc hturn hlt)
    exact ⟨env', hturns.turn hturn', h', hrest⟩

/-- The loop ends, with bytes taken off in every turn, exactly when the headers it meets
announce positive lengths. -/
theorem progresses_iff (h : env.InRange) : Progresses env ↔ Positive env.pending := by
  constructor
  · intro hprog p hp hc
    obtain ⟨env₁, hturns, h₁, rfl⟩ := turns_of_boundary h hprog hp
    obtain ⟨out, env₂, hturn, hlt⟩ := hprog.consumes env₁ hturns (turn_ne_leave h₁ hc)
    exact pos_of_consumes h₁ hc hturn hlt
  · intro hpos
    refine ⟨fun env₁ hturns hturn => ?_, _, ends_of_positive h (Nat.lt_succ_self _) hpos⟩
    obtain ⟨h₁, hbound⟩ := boundary_of_turns h hpos hturns
    have hc : framing.Complete env₁.pending := by
      by_contra hc
      exact hturn (turn_of_not_complete h₁ hc)
    obtain ⟨env', hturn', -, -, -, hlt⟩ := turn_of_positive h₁ hc (hpos _ hbound hc)
    exact ⟨_, env', hturn', hlt⟩

/-- A connection that was sent 8 zero bytes : a header that announces a length of 0. -/
def StEnv.zeroes : StEnv :=
  ⟨fun _ => 0, 8⟩

theorem inRange_zeroes : StEnv.zeroes.InRange :=
  ⟨by decide, by decide⟩

theorem progresses_iff_zeroes : Progresses .zeroes ↔ Positive StEnv.zeroes.pending :=
  progresses_iff inRange_zeroes

/-- The empty frame is handed out, and the buffer is as before. -/
theorem turn_zeroes : unpackTurn .zeroes = .handle ⟨fun _ => 0⟩ (some .zeroes) := by
  have hc : framing.Complete StEnv.zeroes.pending := by
    decide
  have hlen : lengthOf StEnv.zeroes.pending = 0 := by
    decide
  have hin : InBuffer 0 8 := by
    decide
  rw [turn_eq inRange_zeroes hc, hlen, if_neg (by decide)]
  simp only [StEnv.zeroes, sub_zero, StEnv.shift, if_pos hin, ite_self]

/-- The loop hands out the empty frame for ever. -/
theorem unpack_zeroes : ∀ fuel, unpack fuel .zeroes = none
  | 0 => rfl
  | fuel + 1 => by
    rw [unpack, turn_zeroes]
    simp only [Option.bind_some, unpack_zeroes fuel, Option.map_none]

theorem not_progresses_zeroes : ¬∀ env : StEnv, env.InRange → Progresses env := by
  intro hall
  obtain ⟨fuel, r, hends⟩ := (hall .zeroes inRange_zeroes).ends
  simp [unpack_zeroes] at hends

end WzxServer
