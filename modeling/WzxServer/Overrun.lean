import WzxServer.Unpack

/-!
# When the receive buffer is left

Nothing bounds the length a header announces. A negative one makes the shift read in front
of `msgBuffer`, and a frame longer than `msgBuffer` makes a later `read` be appended behind
it. `safe_iff_fits` says that these are the only ways out : the connection stays in its
buffer exactly when the reader of the framing, on the same chunks, never meets a negative
length and never holds more than the buffer has room for.

The connection follows that reader step by step (`held_of_reach`, `reach_of_held`).

The reader of the framing has no buffer at all, so the condition does not depend on the code : it
is about the bytes and how they were cut. A length of zero keeps the loop going for ever without
leaving the buffer, which is the business of `Progress`.
-/

namespace WzxServer

open Framing

/-- Every state the connection reaches while it reads `cs` is in range, and no copy up to
there left the buffer or overflowed. -/
def Safe (cs : List Bytes) : Prop :=
  ∀ pre, pre <+: cs → ∀ st, Reach pre st → ∃ env, st = some env ∧ env.InRange

/-- No complete header announces a negative length, and what is held back for the next
`read` leaves room for it. -/
def Fits (cs : List Bytes) : Prop :=
  ∀ pre, pre <+: cs → ∀ p, framing.Held pre p →
    (framing.Complete p → 0 ≤ lengthOf p) ∧ p.length ≤ msgBufferSize

/-- A part of a safe stream is safe. -/
theorem Safe.mono {cs pre : List Bytes} (h : Safe cs) (hpre : pre <+: cs) : Safe pre :=
  fun _ hp => h _ (hp.trans hpre)

/-- A part of a stream that fits does. -/
theorem Fits.mono {cs pre : List Bytes} (h : Fits cs) (hpre : pre <+: cs) : Fits pre :=
  fun _ hp => h _ (hp.trans hpre)

/-! ## Turns of a connection in range -/

variable {env : StEnv}

/-- The loop ends at a frame that is not all there. -/
theorem not_complete_of_leave (h : env.InRange) (hturn : unpackTurn env = .leave) :
    ¬framing.Complete env.pending := by
  intro hc
  rw [turn_eq h hc] at hturn
  split_ifs at hturn

/-- It only goes on with one that is. -/
theorem complete_of_turn (h : env.InRange) (hturn : unpackTurn env ≠ .leave) :
    framing.Complete env.pending := by
  by_contra hc
  exact hturn (turn_of_not_complete h hc)

/-! ## The connection follows the reader -/

/-- The connection holds what the reader holds. -/
theorem held_of_reach {cs : List Bytes} {st : Option StEnv} (hreach : Reach cs st)
    (hfits : Fits cs) : ∃ env, st = some env ∧ env.InRange ∧ framing.Held cs env.pending := by
  induction hreach with
  | init => exact ⟨_, rfl, StEnv.inRange_init, .start⟩
  | @recv cs env _ hturn c _ ih =>
    obtain ⟨_, ⟨⟩, h, hheld⟩ := ih (hfits.mono (List.prefix_append _ _))
    have hread := hheld.read (not_complete_of_leave h hturn) c
    have hroom := (hfits _ (List.prefix_refl _) _ hread).2
    rw [List.length_append] at hroom
    obtain ⟨env', happ⟩ := (StEnv.append_eq_some_iff h c).2 hroom
    refine ⟨env', happ, StEnv.inRange_append happ, ?_⟩
    rwa [StEnv.pending_append h happ]
  | @handle cs env _ out next hturn ih =>
    obtain ⟨_, ⟨⟩, h, hheld⟩ := ih hfits
    have hc := complete_of_turn h (by simp [hturn])
    have h0 := (hfits _ (List.prefix_refl _) _ hheld).1 hc
    obtain ⟨env', hturn', h', hrest⟩ := turn_of_complete h hc h0
    rw [hturn', Turn.handle.injEq] at hturn
    exact ⟨env', hturn.2.symm, h', hrest ▸ hheld.cut hc⟩
  | @overflow cs env _ hturn ih =>
    obtain ⟨_, ⟨⟩, h, hheld⟩ := ih hfits
    have hc := complete_of_turn h (by simp [hturn])
    have h0 := (hfits _ (List.prefix_refl _) _ hheld).1 hc
    obtain ⟨env', hturn', -⟩ := turn_of_complete h hc h0
    simp [hturn'] at hturn

/-- A complete header with a negative length takes the connection out of its buffer. -/
theorem nonneg_of_safe {cs : List Bytes} (hsafe : Safe cs) (hreach : Reach cs (some env))
    (h : env.InRange) (hc : framing.Complete env.pending) : 0 ≤ lengthOf env.pending := by
  by_contra hneg
  have hout : Reach cs none := by
    rcases turn_of_neg h hc (by omega) with hturn | ⟨out, hturn⟩
    · exact hreach.overflow hturn
    · exact hreach.handle hturn
  obtain ⟨env', he, -⟩ := hsafe _ (List.prefix_refl _) _ hout
  simp at he

/-- What the reader holds, the connection does. -/
theorem reach_of_held {cs : List Bytes} {p : Bytes} (hheld : framing.Held cs p)
    (hcs : ∀ c ∈ cs, ReadOk c) (hsafe : Safe cs) :
    ∃ env, Reach cs (some env) ∧ env.InRange ∧ env.pending = p := by
  induction hheld with
  | start => exact ⟨_, .init, StEnv.inRange_init, rfl⟩
  | @read cs p _ hp c ih =>
    obtain ⟨env, hreach, h, rfl⟩ := ih (fun d hd => hcs d (by simp [hd]))
      (hsafe.mono (List.prefix_append _ _))
    have hread := hreach.recv (turn_of_not_complete h hp) (hcs c (by simp))
    obtain ⟨env', happ, h'⟩ := hsafe _ (List.prefix_refl _) _ hread
    exact ⟨env', happ ▸ hread, h', StEnv.pending_append h happ⟩
  | @cut cs p _ hc ih =>
    obtain ⟨env, hreach, h, rfl⟩ := ih hcs hsafe
    obtain ⟨env', hturn, h', hrest⟩ :=
      turn_of_complete h hc (nonneg_of_safe hsafe hreach h hc)
    exact ⟨env', hreach.handle hturn, h', hrest⟩

/-- The connection stays inside its buffer, with no overflow, exactly when the stream
fits. -/
theorem safe_iff_fits {cs : List Bytes} (hcs : ∀ c ∈ cs, ReadOk c) : Safe cs ↔ Fits cs := by
  constructor
  · intro hsafe pre hpre p hheld
    obtain ⟨env, hreach, h, rfl⟩ := reach_of_held hheld
      (fun c hc => hcs c (hpre.subset hc)) (hsafe.mono hpre)
    refine ⟨nonneg_of_safe (hsafe.mono hpre) hreach h, ?_⟩
    have hlen := StEnv.length_pending h
    have hle := h.2
    omega
  · intro hfits pre hpre st hreach
    obtain ⟨env, he, h, -⟩ := held_of_reach hreach (hfits.mono hpre)
    exact ⟨env, he, h⟩

/-- A header that announces a length of -1. -/
def minusOne : Bytes :=
  [0, 0, 0, 0, 255, 255, 255, 255]

/-- A frame of length -1 : neither safe nor fitting. -/
theorem safe_iff_fits_minusOne : Safe [minusOne] ↔ Fits [minusOne] :=
  safe_iff_fits (by decide)

/-- The reader holds the eight bytes. -/
theorem held_minusOne : framing.Held [minusOne] minusOne :=
  Held.start.read (fun hc => absurd hc.1 (by decide)) minusOne

/-- Eight bytes take the connection out of its buffer. -/
theorem not_safe_minusOne : ¬∀ cs, (∀ c ∈ cs, ReadOk c) → Safe cs := by
  intro hall
  have hcs : ∀ c ∈ [minusOne], ReadOk c := by decide
  have hsafe := hall _ hcs
  obtain ⟨env, hreach, h, hpend⟩ := reach_of_held held_minusOne hcs hsafe
  have h0 := nonneg_of_safe hsafe hreach h (by rw [hpend]; decide)
  rw [hpend] at h0
  exact absurd h0 (by decide)

end WzxServer
