import WzxServer.Unpack

/-!
# Frames arrive whole, however they were cut

A client sends frames back to back. TCP hands them over in chunks that have nothing to do
with the frames, and `co_recvData` puts them together again. `recvAll_frames` says that it
does : the frames come out once each and in order, and the buffer keeps exactly the
unfinished frame. `served` is what the `switch` of `co_work` makes of them.

The proof does not look at the chunks. What is kept and what arrives are one string of bytes,
and what is handed over depends on that string alone, so it is enough that the string is cut
into its frames (`Lib.Stream`). The header of a frame goes through the buffer with the frame, so
the handler is the one that the client meant (`served_of_frame`).
-/

namespace WzxServer

open Framing

/-- The command in the header of a byte string. -/
def cmdOf (s : Bytes) : ℤ :=
  int32 (s.getD 0 0) (s.getD 1 0) (s.getD 2 0) (s.getD 3 0)

/-- The handler a frame goes to, with the frame; `none` for an unknown command. -/
def served (f : Bytes) : Option (Cmd × Bytes) :=
  (coWorkCase (cmdOf f)).map fun c => (c, f)

/-- What `co_work` does with what it is handed. -/
def Handed.served (h : Handed) : Option (Cmd × Bytes) :=
  (coWorkCase h.header.cmd).map fun c => (c, h.frame)

/-- Nothing, or a well-formed frame without its last bytes. -/
def Unfinished (tail : Bytes) : Prop :=
  tail = [] ∨ ∃ q, q ≠ [] ∧ WellFormedFrame (tail ++ q)

/-- An unfinished frame is not taken for one. -/
theorem not_complete_of_unfinished {tail : Bytes} (h : Unfinished tail) :
    ¬framing.Complete tail := by
  rcases h with rfl | ⟨q, hq, hf⟩
  · intro hc
    exact absurd hc.1 (by decide)
  · exact not_complete_of_prefix hf.1 hq

/-- It is shorter than the longest frame. -/
theorem length_lt_of_unfinished {tail : Bytes} (h : Unfinished tail) :
    tail.length < maxFrame := by
  rcases h with rfl | ⟨q, hq, hf⟩
  · decide
  · have hlen := hf.2
    have hpos := List.length_pos_iff.mpr hq
    rw [List.length_append] at hlen
    omega

/-- The kind that `co_work` sees is that of the frame. -/
theorem cmd_of_frame {h : Handed} (hf : WellFormedFrame h.frame) :
    h.header.cmd = cmdOf h.frame := by
  have h8 : 8 ≤ h.header.dataLength.toNat := by
    have := hf.1.1
    rwa [Handed.frame, length_slice] at this
  rw [cmdOf, Handed.frame, getD_slice (by omega), getD_slice (by omega), getD_slice (by omega),
    getD_slice (by omega)]
  simp only [Handed.header, headerOf, Nat.zero_add]

/-- So is the length. -/
theorem dataLength_of_frame {h : Handed} (hf : WellFormedFrame h.frame) :
    h.header.dataLength = h.frame.length := by
  have h8 : headerSize ≤ h.header.dataLength.toNat := by
    have := hf.1.1
    rwa [Handed.frame, length_slice] at this
  have : 8 ≤ h.header.dataLength.toNat := h8
  rw [Handed.frame, length_slice]
  omega

/-- The handler a frame goes to does not depend on how it arrived. -/
theorem served_of_frame {h : Handed} (hf : WellFormedFrame h.frame) :
    h.served = WzxServer.served h.frame := by
  rw [Handed.served, WzxServer.served, cmd_of_frame hf]

/-- What is served is what has a handler. -/
theorem filterMap_served {out : List Handed} {fs : List Bytes} (hout : out.map Handed.frame = fs)
    (hfs : ∀ f ∈ fs, WellFormedFrame f) : out.filterMap Handed.served = fs.filterMap served := by
  subst hout
  rw [List.filterMap_map]
  refine List.filterMap_congr fun h hh => ?_
  rw [Function.comp_apply, served_of_frame (hfs _ (List.mem_map_of_mem hh))]

/-- For well-formed frames, an unfinished one behind them, and every way of cutting their
bytes into chunks, the calls of `co_recvData` hand out the frames, each once and in order,
and keep the unfinished one. Each is handed out with its own header and its own bytes, and
what `co_work` serves of them are the frames with a known command. -/
theorem recvAll_frames {fs : List Bytes} {tail : Bytes} {cs : List Bytes} {fuel : ℕ}
    (hfs : ∀ f ∈ fs, WellFormedFrame f) (htail : Unfinished tail) (hcs : ∀ c ∈ cs, ReadOk c)
    (hstream : cs.flatten = fs.flatten ++ tail) (hfuel : msgBufferSize < fuel) :
    ∃ out env, recvAll fuel .init cs = some (out, env) ∧ out.map Handed.frame = fs ∧
      (∀ h ∈ out, h.header = ⟨cmdOf h.frame, h.frame.length⟩) ∧
      out.filterMap Handed.served = fs.filterMap served ∧
      env.msgLength = tail.length ∧ env.pending = tail := by
  have hpeels := peels_flatten (not_complete_of_unfinished htail) fun f hf => (hfs f hf).1
  rw [← hstream] at hpeels
  obtain ⟨out, env, hrec, hout, henv, hpend⟩ := recvAll_of_peels hfuel hcs StEnv.inRange_init
    (fun hc => absurd hc.1 (by decide)) hpeels hfs (length_lt_of_unfinished htail)
  refine ⟨out, env, hrec, hout, ?_, filterMap_served hout hfs, ?_, hpend⟩
  · intro h hh
    have hf : WellFormedFrame h.frame := hfs _ (hout ▸ List.mem_map_of_mem hh)
    rw [← cmd_of_frame hf, ← dataLength_of_frame hf]
  · rw [← StEnv.length_pending henv, hpend]

/-- A `GETGROUP` frame in three chunks, the last with the beginning of another frame. -/
theorem recvAll_frames_getGroup :
    ∃ out env, recvAll (msgBufferSize + 1) .init [[2, 0], [0, 0, 8], [0, 0, 0, 2, 0, 0]] =
        some (out, env) ∧
      out.map Handed.frame = [[2, 0, 0, 0, 8, 0, 0, 0]] ∧
      (∀ h ∈ out, h.header = ⟨cmdOf h.frame, h.frame.length⟩) ∧
      out.filterMap Handed.served = [[2, 0, 0, 0, 8, 0, 0, 0]].filterMap served ∧
      env.msgLength = ([2, 0, 0] : Bytes).length ∧ env.pending = [2, 0, 0] :=
  recvAll_frames (by decide) (Or.inr ⟨[0, 8, 0, 0, 0], by decide, by decide⟩) (by decide)
    (by decide) (Nat.lt_succ_self _)

end WzxServer
