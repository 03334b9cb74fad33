import WzxServer.Frames
import WzxServer.Overrun

/-!
# The ranges of the shift

After a frame, `co_recvData` moves what is buffered behind it to the front with `memcpy`,
which is undefined when the two ranges overlap. They do as soon as more is buffered behind
the frame than the frame is long (`overlap_iff`). By `apart_iff_spaced` a connection is spared
that on a stream of frames exactly when the stream is spaced : when the last byte of a frame
was read, at most as many bytes were read behind it.

`RecvData` lets the shift move its bytes like `memmove`, so the other modules are about a build
where `memcpy` does so too. A client that waits for each answer before it sends the next request
is spaced, and one that sends three requests at once need not be.
-/

namespace WzxServer

open Framing

/-- The ranges of `memcpy(msgBuffer, msgBuffer + off, size)` have an offset in common. -/
def Overlap (off size : ℤ) : Prop :=
  ∃ i, (off ≤ i ∧ i < off + size) ∧ 0 ≤ i ∧ i < size

theorem overlap_iff {off size : ℤ} (hoff : 0 ≤ off) : Overlap off size ↔ off < size := by
  constructor
  · rintro ⟨i, ⟨hle, -⟩, -, hlt⟩
    exact lt_of_le_of_lt hle hlt
  · intro hlt
    exact ⟨off, ⟨le_refl off, by omega⟩, hoff, hlt⟩

/-- In every turn that handles a frame, up to every read of `cs`, the shift copies between
ranges that are apart. -/
def ShiftsApart (cs : List Bytes) : Prop :=
  ∀ pre, pre <+: cs → ∀ env out next, Reach pre (some env) → unpackTurn env = .handle out next →
    ¬Overlap out.header.dataLength (env.msgLength - out.header.dataLength)

/-- When the chunk with the last byte of a frame was read, no more is read behind the frame
than the frame is long. -/
def Spaced (fs cs : List Bytes) : Prop :=
  ∀ done f todo pre c post, fs = done ++ f :: todo → cs = pre ++ c :: post →
    pre.flatten.length < (done ++ [f]).flatten.length →
    (done ++ [f]).flatten.length ≤ (pre ++ [c]).flatten.length →
    (pre ++ [c]).flatten.length ≤ (done ++ [f]).flatten.length + f.length

section Stream

variable {fs cs : List Bytes} {tail : Bytes}

/-- A stream of frames fits the buffer, however it is cut. -/
theorem fits_of_frames (hfs : ∀ f ∈ fs, WellFormedFrame f) (hc : ¬framing.Complete tail)
    (htail : tail.length < maxFrame) (hcs : ∀ c ∈ cs, ReadOk c)
    (hstream : cs.flatten = fs.flatten ++ tail) : Fits cs := by
  intro pre hpre p hheld
  have hframes : ∀ f ∈ fs, framing.IsFrame f := fun f hf => (hfs f hf).1
  obtain ⟨done, todo, hat⟩ := at_of_held hframes hc hstream hheld hpre
  constructor
  · intro hcomplete
    obtain ⟨f, todo', rfl, hp, -⟩ := hat.cut hframes hc hstream hpre hcomplete
    have hf := hframes f (by simp [hat.frames])
    have hlen := framing.len_append f (framing.rest p) hf.1
    rw [← hp, hf.2, len_framing] at hlen
    omega
  · have hroom : msgBufferSize = maxFrame + bufferLength := rfl
    rcases todo with _ | ⟨f, todo'⟩
    · have hle := (hat.prefix_todo hstream hpre).length_le
      rw [List.flatten_nil, List.nil_append] at hle
      omega
    · rcases List.eq_nil_or_concat pre with rfl | ⟨pre', c, rfl⟩
      · have hbytes := congrArg List.length hat.bytes
        rw [List.length_append, List.flatten_nil, List.length_nil] at hbytes
        omega
      · rw [List.concat_eq_append] at hat hpre
        have hlast := hat.last pre' c f todo' rfl rfl
        have hbytes := congrArg List.length hat.bytes
        simp only [List.flatten_append, List.flatten_singleton, List.length_append] at hbytes
        have hf := (hfs f (by simp [hat.frames])).2
        have hread := (hcs c (hpre.subset (by simp))).2
        omega

/-- The ranges of a turn, in terms of the bytes held. -/
theorem overlap_turn {env : StEnv} (h : env.InRange) (hc : framing.Complete env.pending)
    (h0 : 0 ≤ lengthOf env.pending) :
    Overlap (headerOf env.msgBuffer).dataLength
        (env.msgLength - (headerOf env.msgBuffer).dataLength) ↔
      2 * lengthOf env.pending < env.pending.length := by
  have hlen := StEnv.length_pending h
  rw [headerOf_dataLength hc.1, overlap_iff h0]
  omega

variable (hfs : ∀ f ∈ fs, WellFormedFrame f) (htail : Unfinished tail)
  (hcs : ∀ c ∈ cs, ReadOk c) (hstream : cs.flatten = fs.flatten ++ tail)

include hfs htail hcs hstream

theorem safe_of_frames : Safe cs :=
  (safe_iff_fits hcs).mpr (fits_of_frames hfs (not_complete_of_unfinished htail)
    (length_lt_of_unfinished htail) hcs hstream)

theorem apart_of_spaced (hspaced : Spaced fs cs) : ShiftsApart cs := by
  intro pre hpre env out next hreach hturn
  have hframes : ∀ f ∈ fs, framing.IsFrame f := fun f hf => (hfs f hf).1
  have htail' := not_complete_of_unfinished htail
  have hfits : Fits cs := (safe_iff_fits hcs).mp (safe_of_frames hfs htail hcs hstream)
  obtain ⟨env', ⟨⟩, h, hheld⟩ := held_of_reach hreach (hfits.mono hpre)
  have hc := complete_of_turn h (by simp [hturn])
  have h0 := (hfits pre hpre _ hheld).1 hc
  obtain ⟨env', hturn', -⟩ := turn_of_complete h hc h0
  rw [hturn', Turn.handle.injEq] at hturn
  obtain ⟨rfl, -⟩ := hturn
  change ¬Overlap (headerOf env.msgBuffer).dataLength
    (env.msgLength - (headerOf env.msgBuffer).dataLength)
  rw [overlap_turn h hc h0]
  obtain ⟨done, todo, hat⟩ := at_of_held hframes htail' hstream hheld hpre
  obtain ⟨f, todo', rfl, hp, -⟩ := hat.cut hframes htail' hstream hpre hc
  have hf := hframes f (by simp [hat.frames])
  have hlen : lengthOf env.pending = f.length := by
    rw [← len_framing, hp, framing.len_append f _ hf.1, hf.2]
  rcases List.eq_nil_or_concat pre with rfl | ⟨pre', c, rfl⟩
  · have hbytes := congrArg List.length hat.bytes
    rw [List.length_append, List.flatten_nil, List.length_nil] at hbytes
    omega
  · rw [List.concat_eq_append] at hat hpre
    obtain ⟨post, hpost⟩ := hpre
    rw [List.append_assoc] at hpost
    have hlast := hat.last pre' c f todo' rfl rfl
    have hbytes := congrArg List.length hat.bytes
    have hpend := congrArg List.length hp
    have hbehind := hspaced done f todo' pre' c post hat.frames hpost.symm
    simp only [List.flatten_append, List.flatten_singleton, List.length_append] at *
    omega

theorem spaced_of_apart (hapart : ShiftsApart cs) : Spaced fs cs := by
  intro done f todo pre c post hsplit hchunks hbefore hafter
  have hframes : ∀ f ∈ fs, framing.IsFrame f := fun f hf => (hfs f hf).1
  obtain ⟨r, hheld, hlength⟩ := held_frame hframes (not_complete_of_unfinished htail) hstream
    hsplit hchunks hbefore hafter
  have hpre : pre ++ [c] <+: cs := ⟨post, by rw [hchunks, List.append_assoc]; rfl⟩
  have hsafe := (safe_of_frames hfs htail hcs hstream).mono hpre
  obtain ⟨env, hreach, h, hpend⟩ :=
    reach_of_held hheld (fun c hc => hcs c (hpre.subset hc)) hsafe
  have hf := hframes f (by simp [hsplit])
  have hc : framing.Complete env.pending := by
    rw [hpend]
    exact hf.complete.append r
  have hlen : lengthOf env.pending = f.length := by
    rw [← len_framing, hpend, framing.len_append f r hf.1, hf.2]
  have h0 : 0 ≤ lengthOf env.pending := by omega
  obtain ⟨env', hturn, -⟩ := turn_of_complete h hc h0
  have hnot := hapart _ hpre env _ _ hreach hturn
  change ¬Overlap (headerOf env.msgBuffer).dataLength
    (env.msgLength - (headerOf env.msgBuffer).dataLength) at hnot
  rw [overlap_turn h hc h0, hpend, List.length_append] at hnot
  rw [hpend] at hlen
  omega

/-- For every stream of well-formed frames and every way of cutting it, the shifts copy
between ranges that are apart exactly when the stream is spaced. -/
theorem apart_iff_spaced : ShiftsApart cs ↔ Spaced fs cs :=
  ⟨spaced_of_apart hfs htail hcs hstream, apart_of_spaced hfs htail hcs hstream⟩

end Stream

/-- A frame that is a bare header. -/
def bareFrame : Bytes :=
  [2, 0, 0, 0, 8, 0, 0, 0]

/-- Two frames that arrive at once are spaced : 8 bytes are behind the first. -/
theorem spaced_two : Spaced [bareFrame, bareFrame] [bareFrame ++ bareFrame] := by
  intro done f todo pre c post hsplit hchunks _ _
  have hf : f = bareFrame := by
    have hmem : f ∈ [bareFrame, bareFrame] := by
      rw [hsplit]
      simp
    simpa using hmem
  rcases pre with _ | ⟨d, pre⟩
  · obtain ⟨rfl, -⟩ := List.cons_eq_cons.mp hchunks
    simp only [hf, List.nil_append, List.flatten_singleton, List.flatten_append, List.length_append]
    omega
  · simp at hchunks

/-- The shift moves the second of two frames down by 8, to where the first was. -/
theorem shiftsApart_two : ShiftsApart [bareFrame ++ bareFrame] :=
  (apart_iff_spaced (by decide) (Or.inl rfl : Unfinished []) (by decide) rfl).mpr spaced_two

/-- Three frames that arrive at once : 16 bytes are moved down by 8. -/
theorem not_apart_pipelined :
    ¬∀ (fs : List Bytes) (tail : Bytes) (cs : List Bytes), (∀ f ∈ fs, WellFormedFrame f) →
      Unfinished tail → (∀ c ∈ cs, ReadOk c) → cs.flatten = fs.flatten ++ tail →
      ShiftsApart cs := by
  intro hall
  have hfs : ∀ f ∈ [bareFrame, bareFrame, bareFrame], WellFormedFrame f := by decide
  have hcs : ∀ c ∈ [bareFrame ++ bareFrame ++ bareFrame], ReadOk c := by decide
  have hapart := hall _ [] _ hfs (Or.inl rfl) hcs rfl
  have hspaced := spaced_of_apart hfs (Or.inl rfl) hcs rfl hapart [] bareFrame
    [bareFrame, bareFrame] [] (bareFrame ++ bareFrame ++ bareFrame) [] rfl rfl
  exact absurd (hspaced (by decide) (by decide)) (by decide)

end WzxServer
