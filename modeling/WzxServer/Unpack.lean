import WzxServer.RecvData

/-!
# What the receive loop hands out

The bytes a connection holds, `StEnv.pending`, are cut by the unpacking loop the way the
framing cuts a list : a turn leaves exactly when no frame is complete
(`turn_of_not_complete`), and otherwise hands out the first frame and leaves the rest
(`turn_of_complete`). Only a negative length goes wrong (`turn_of_neg`). So one call of
`co_recvData` hands out what `Framing.Peels` cuts off the old bytes and the new ones
(`unpack_of_peels`), and successive calls hand out what is cut off the whole stream,
however it was chunked (`recvAll_of_peels`).

The handler that runs in between reads `msgBuffer` and does not write it, so the loop can be
looked at without the handlers. The offsets of the source are `int`s and their sums may overflow;
in a buffer of 8 MiB the sums that come up fit, as long as the lengths are those of frames.
-/

namespace WzxServer

open Framing

variable {env : StEnv}

/-! ## One turn -/

theorem headerOf_dataLength (h8 : headerSize ≤ env.pending.length) :
    (headerOf env.msgBuffer).dataLength = lengthOf env.pending := by
  have h8' : 8 ≤ env.msgLength.toNat := by simpa [StEnv.pending, headerSize] using h8
  simp only [headerOf, lengthOf, StEnv.pending]
  rw [getD_slice (by omega), getD_slice (by omega), getD_slice (by omega), getD_slice (by omega)]

theorem toSize_msgLength (h : env.InRange) : (toSize env.msgLength : ℤ) = env.msgLength := by
  obtain ⟨h0, h1⟩ := h
  have : (msgBufferSize : ℤ) < 2 ^ 64 := by decide
  rw [toSize, Int.emod_eq_of_lt h0 (by omega), Int.toNat_of_nonneg h0]

theorem turn_of_not_complete (h : env.InRange) (hc : ¬framing.Complete env.pending) :
    unpackTurn env = .leave := by
  have hlen := StEnv.length_pending h
  have hsize := toSize_msgLength h
  unfold unpackTurn
  rcases Nat.lt_or_ge (toSize env.msgLength) headerSize with hlt | hge
  · rw [if_pos hlt]
  · have h8 : headerSize ≤ env.pending.length := by omega
    have hlt : env.msgLength < (headerOf env.msgBuffer).dataLength := by
      rw [headerOf_dataLength h8]
      by_contra hle
      exact hc (complete_iff.2 ⟨h8, by omega⟩)
    rw [if_neg (by omega)]
    simp only [if_pos hlt]

/-- What a shift keeps is what is dropped in front of. -/
theorem drop_pending (env : StEnv) (n : ℤ) (h0 : 0 ≤ n) :
    env.pending.drop n.toNat = slice env.msgBuffer n.toNat (env.msgLength - n).toNat := by
  have hlen : (env.msgLength - n).toNat = env.msgLength.toNat - n.toNat := by omega
  rw [StEnv.pending, drop_slice, Nat.zero_add, hlen]

/-- With a complete frame the loop goes on, unless the length it is left with overflows. -/
theorem turn_eq (h : env.InRange) (hc : framing.Complete env.pending) :
    unpackTurn env =
      if intMax < env.msgLength - lengthOf env.pending then .overflow
      else .handle ⟨env.msgBuffer⟩
        (env.shift (lengthOf env.pending) (env.msgLength - lengthOf env.pending)) := by
  have hlen := StEnv.length_pending h
  have hsize := toSize_msgLength h
  obtain ⟨h8, hle⟩ := complete_iff.1 hc
  unfold unpackTurn
  simp only [headerOf_dataLength h8]
  rw [if_neg (by omega), if_neg (by omega)]

theorem turn_of_complete (h : env.InRange) (hc : framing.Complete env.pending)
    (h0 : 0 ≤ lengthOf env.pending) :
    ∃ env', unpackTurn env = .handle ⟨env.msgBuffer⟩ (some env') ∧
      env'.InRange ∧ env'.pending = framing.rest env.pending := by
  have hlen := StEnv.length_pending h
  have hle := (complete_iff.1 hc).2
  have hmax : (msgBufferSize : ℤ) ≤ intMax := by decide
  have hin : InBuffer (lengthOf env.pending) (env.msgLength - lengthOf env.pending) :=
    ⟨h0, by omega, by have := h.2; omega⟩
  obtain ⟨env', hshift, hlen', hpend⟩ := StEnv.exists_shift hin
  rw [turn_eq h hc, if_neg (by have := h.2; omega), hshift]
  refine ⟨env', rfl, ⟨by omega, by have := h.2; omega⟩, ?_⟩
  rw [hpend, Framing.rest, len_framing]
  exact (drop_pending env (lengthOf env.pending) h0).symm

/-- A negative length makes the copy start before the buffer. -/
theorem turn_of_neg (h : env.InRange) (hc : framing.Complete env.pending)
    (hneg : lengthOf env.pending < 0) :
    unpackTurn env = .overflow ∨ ∃ out, unpackTurn env = .handle out none := by
  rw [turn_eq h hc]
  split_ifs
  · exact Or.inl rfl
  · rw [StEnv.shift, if_neg fun hin => absurd hin.1 (by omega)]
    exact Or.inr ⟨_, rfl⟩

/-- The frame handed out is the first one held. -/
theorem frame_handed (hc : framing.Complete env.pending) :
    Handed.frame ⟨env.msgBuffer⟩ = framing.front env.pending := by
  have hle := (complete_iff.1 hc).2
  rw [Handed.frame, Handed.header, headerOf_dataLength hc.1, Framing.front, len_framing]
  generalize lengthOf env.pending = n at hle
  rw [StEnv.pending, take_slice (by simpa [StEnv.pending] using hle)]

/-! ## One call -/

/-- Enough turns hand out the frames that are cut off the bytes held, and keep the rest. -/
theorem unpack_of_peels {s p : Bytes} {fs : List Bytes} (hp : framing.Peels s fs p) :
    ∀ {env : StEnv} {fuel : ℕ}, env.InRange → env.pending = s → (∀ f ∈ fs, framing.IsFrame f) →
      fs.length < fuel →
      ∃ hs env', unpack fuel env = some (hs, env') ∧ hs.map Handed.frame = fs ∧
        env'.InRange ∧ env'.pending = p := by
  induction hp with
  | wait hw =>
    rintro env (_ | fuel) h rfl - hfuel
    · simp at hfuel
    · refine ⟨[], env, ?_, rfl, h, rfl⟩
      rw [unpack, turn_of_not_complete h hw]
  | @cut s r fs hc _ ih =>
    rintro env (_ | fuel) h rfl hfs hfuel
    · simp at hfuel
    · have hlen := len_eq_of_isFrame_front (hfs _ (List.mem_cons_self ..))
      obtain ⟨env', hturn, h', hrest⟩ := turn_of_complete h hc
        (by rw [← len_framing]; omega)
      obtain ⟨hs, env'', hun, hmap, h'', hpend⟩ := ih h' hrest
        (fun f hf => hfs f (List.mem_cons_of_mem _ hf)) (by simpa using hfuel)
      refine ⟨⟨env.msgBuffer⟩ :: hs, env'', ?_, ?_, h'', hpend⟩
      · simp only [unpack, hturn, Option.bind_some, hun, Option.map_some]
      · rw [List.map_cons, hmap, frame_handed hc]

/-! ## All calls -/

/-- The longest frame of the protocol that leaves room for one more `read`. -/
def maxFrame : ℕ :=
  7 * bufferLength

/-- A byte block with its own length in its header, of a size the buffer is made for. -/
def WellFormedFrame (f : Bytes) : Prop :=
  framing.IsFrame f ∧ f.length ≤ maxFrame

instance (f : Bytes) : Decidable (WellFormedFrame f) :=
  inferInstanceAs (Decidable ((_ ∧ _) ∧ _))

theorem one_le_length_of_wellFormed {f : Bytes} (h : WellFormedFrame f) : 1 ≤ f.length :=
  le_trans (show 1 ≤ headerSize by decide) h.1.1

/-- Cutting off as many well-formed frames as the bytes hold takes few turns. -/
theorem length_le_of_peels {s p : Bytes} {fs : List Bytes} (hp : framing.Peels s fs p)
    (hfs : ∀ f ∈ fs, WellFormedFrame f) : fs.length ≤ s.length := by
  rw [← flatten_append_of_peels hp, List.length_append, List.length_flatten]
  have hsum := List.length_le_sum_of_one_le (fs.map List.length) fun n hn => by
    obtain ⟨f, hf, rfl⟩ := List.mem_map.mp hn
    exact one_le_length_of_wellFormed (hfs f hf)
  rw [List.length_map] at hsum
  omega

/-- The calls for the chunks `cs` hand out what is cut off the bytes held followed by all
the chunks, and keep what is left. -/
theorem recvAll_of_peels {fuel : ℕ} (hfuel : msgBufferSize < fuel) :
    ∀ {cs : List Bytes} {env : StEnv} {hs : List Bytes} {q : Bytes}, (∀ c ∈ cs, ReadOk c) →
      env.InRange → ¬framing.Complete env.pending →
      framing.Peels (env.pending ++ cs.flatten) hs q → (∀ f ∈ hs, WellFormedFrame f) →
      q.length < maxFrame →
      ∃ out env', recvAll fuel env cs = some (out, env') ∧ out.map Handed.frame = hs ∧
        env'.InRange ∧ env'.pending = q
  | [], env, hs, q, _, h, hw, hp, _, _ => by
    rw [List.flatten_nil, List.append_nil] at hp
    cases hp with
    | wait _ => exact ⟨[], env, rfl, rfl, h, rfl⟩
    | cut hc _ => exact (hw hc).elim
  | c :: cs, env, hs, q, hcs, h, hw, hp, hfr, hq => by
    obtain ⟨hc1, hcB⟩ := hcs c (by simp)
    -- The bytes held are the beginning of one frame, so the chunk fits behind them.
    have hheld : env.pending.length < maxFrame :=
      length_lt_of_peels hw hp (fun f hf => ⟨(hfr f hf).1, (hfr f hf).2⟩) hq
    have hfit : env.pending.length + c.length ≤ msgBufferSize := by
      unfold maxFrame at hheld
      unfold msgBufferSize
      omega
    obtain ⟨env₁, happ⟩ := (StEnv.append_eq_some_iff h c).2 hfit
    have h₁ := StEnv.inRange_append happ
    have hpend₁ := StEnv.pending_append h happ
    rw [List.flatten_cons, ← List.append_assoc] at hp
    obtain ⟨fs, p, gs, hfs, hgs, rfl⟩ := peels_append_inv hp
    have hfs' : ∀ f ∈ fs, WellFormedFrame f := fun f hf => hfr f (by simp [hf])
    have hcount : fs.length < fuel := by
      have := length_le_of_peels hfs hfs'
      rw [List.length_append] at this
      omega
    obtain ⟨out, env₂, hun, hout, h₂, hpend₂⟩ :=
      unpack_of_peels hfs h₁ hpend₁ (fun f hf => (hfs' f hf).1) hcount
    rw [← hpend₂] at hgs
    obtain ⟨out', env₃, hrec, hout', h₃, hpend₃⟩ := recvAll_of_peels hfuel
      (fun d hd => hcs d (by simp [hd])) h₂ (hpend₂ ▸ not_complete_of_peels hfs) hgs
      (fun f hf => hfr f (by simp [hf])) hq
    refine ⟨out ++ out', env₃, ?_, by rw [List.map_append, hout, hout'], h₃, hpend₃⟩
    have hcall : coRecvData fuel env c = some (0, out, env₂) := by
      rw [coRecvData, if_neg (by omega), happ, Option.bind_some, hun]
      rfl
    rw [recvAll, hcall, Option.bind_some, if_neg (by simp), hrec]
    rfl

end WzxServer
