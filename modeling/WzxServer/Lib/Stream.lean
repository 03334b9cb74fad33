import Mathlib.Tactic.Common
import Mathlib.Data.Int.Order.Basic
import Mathlib.Data.List.Induction

/-!
# Length-prefixed frames in a stream

A frame starts with a header, and the header tells the length of the whole frame
(`Framing`). A reader holds the symbols it has received and not yet consumed. While its
first frame is complete it cuts it off (`Peels`); when no frame is complete it waits for
the next chunk.

Cutting does not depend on how the stream arrives. What is cut off a beginning of the
stream, followed by what is cut off the rest of it and the new symbols, is what is cut
off the whole (`peels_append`), and every cutting of the whole splits this way
(`peels_append_inv`). Nothing is assumed of the lengths : a length of zero or less
cuts nothing off for ever, so such a stream has no `Peels`.

`Held` is the same reader step by step, with the chunks it has read. It also covers
streams that are cut for ever, and is what a bounded buffer is compared with.
-/

/-- A header size, and the length of the frame that a header announces. -/
structure Framing (α : Type) where
  header : ℕ
  len : List α → ℤ
  len_append : ∀ s t : List α, header ≤ s.length → len (s ++ t) = len s

namespace Framing

variable {α : Type} (F : Framing α)

/-- The first frame of `s` is all there. -/
def Complete (s : List α) : Prop :=
  F.header ≤ s.length ∧ F.len s ≤ s.length

instance (s : List α) : Decidable (F.Complete s) :=
  inferInstanceAs (Decidable (_ ∧ _))

/-- The first frame of `s`. -/
def front (s : List α) : List α :=
  s.take (F.len s).toNat

/-- What follows the first frame of `s`. -/
def rest (s : List α) : List α :=
  s.drop (F.len s).toNat

/-- `f` is one frame, of the length its header announces. -/
def IsFrame (f : List α) : Prop :=
  F.header ≤ f.length ∧ F.len f = f.length

/-- Cutting complete frames off `s` gives the frames `fs` and leaves `r`. -/
inductive Peels : List α → List (List α) → List α → Prop
  /-- No frame is complete. -/
  | wait {s : List α} (h : ¬F.Complete s) : Peels s [] s
  /-- The first frame is cut off. -/
  | cut {s r : List α} {fs : List (List α)} (h : F.Complete s) (hr : Peels (F.rest s) fs r) :
      Peels s (F.front s :: fs) r

/-- `p` is left of `s` after cutting frames off. -/
inductive Boundary (s : List α) : List α → Prop
  | start : Boundary s s
  | cut {p : List α} (h : Boundary s p) (hp : F.Complete p) : Boundary s (F.rest p)

variable {F}

/-! ## More symbols behind a complete frame -/

theorem Complete.append {s : List α} (h : F.Complete s) (t : List α) : F.Complete (s ++ t) := by
  have hlen := F.len_append s t h.1
  refine ⟨?_, ?_⟩
  · simp only [List.length_append]
    exact Nat.le_trans h.1 (Nat.le_add_right _ _)
  · have := h.2
    simp only [hlen, List.length_append]
    omega

theorem toNat_len_le {s : List α} (h : F.Complete s) : (F.len s).toNat ≤ s.length := by
  have := h.2
  omega

theorem front_append {s : List α} (h : F.Complete s) (t : List α) :
    F.front (s ++ t) = F.front s := by
  rw [front, F.len_append s t h.1, List.take_append_of_le_length (toNat_len_le h), front]

theorem rest_append {s : List α} (h : F.Complete s) (t : List α) :
    F.rest (s ++ t) = F.rest s ++ t := by
  rw [rest, F.len_append s t h.1, List.drop_append_of_le_length (toNat_len_le h), rest]

theorem length_rest (s : List α) : (F.rest s).length = s.length - (F.len s).toNat :=
  List.length_drop

theorem front_append_rest (s : List α) : F.front s ++ F.rest s = s :=
  List.take_append_drop _ s

/-- The boundaries behind the first frame. -/
theorem Boundary.of_rest {s p : List α} (hs : F.Complete s) (h : F.Boundary (F.rest s) p) :
    F.Boundary s p := by
  induction h with
  | start => exact Boundary.start.cut hs
  | cut _ hp ih => exact ih.cut hp

/-! ## Frames -/

theorem IsFrame.complete {f : List α} (h : F.IsFrame f) : F.Complete f :=
  ⟨h.1, le_of_eq h.2⟩

theorem IsFrame.front_append {f : List α} (h : F.IsFrame f) (t : List α) :
    F.front (f ++ t) = f := by
  rw [Framing.front_append h.complete, front, h.2]
  simp

theorem IsFrame.rest_append {f : List α} (h : F.IsFrame f) (t : List α) :
    F.rest (f ++ t) = t := by
  rw [Framing.rest_append h.complete, rest, h.2]
  simp

/-- A proper prefix of a frame is not complete. -/
theorem not_complete_of_prefix {p q : List α} (h : F.IsFrame (p ++ q)) (hq : q ≠ []) :
    ¬F.Complete p := by
  rintro ⟨hh, hlen⟩
  have := F.len_append p q hh
  have := h.2
  have := List.length_pos_iff.mpr hq
  simp only [List.length_append] at *
  omega

/-- Frames followed by an unfinished one are cut off in order, and it is left. -/
theorem peels_flatten {tail : List α} (ht : ¬F.Complete tail) :
    ∀ {fs : List (List α)}, (∀ f ∈ fs, F.IsFrame f) → F.Peels (fs.flatten ++ tail) fs tail
  | [], _ => .wait ht
  | f :: fs, h => by
    have hf := h f (by simp)
    have ih := peels_flatten ht fun g hg => h g (List.mem_cons_of_mem f hg)
    have hcut := Peels.cut (s := f ++ (fs.flatten ++ tail)) (hf.complete.append _)
      (by rwa [hf.rest_append])
    rwa [hf.front_append, ← List.append_assoc] at hcut

/-- A stream of frames that begins with the frames `gs` goes on with frames. -/
theorem exists_of_flatten_append (hF : 0 < F.header) {t : List α} :
    ∀ {gs fs : List (List α)}, (∀ g ∈ gs, F.IsFrame g) → (∀ f ∈ fs, F.IsFrame f) →
      gs.flatten ++ t = fs.flatten → ∃ fs', fs = gs ++ fs' ∧ t = fs'.flatten
  | [], fs, _, _, h => ⟨fs, rfl, h⟩
  | g :: gs, [], hgs, _, h => by
    have hlen := (hgs g List.mem_cons_self).1
    have hg : g = [] := by
      simp only [List.flatten_cons, List.flatten_nil, List.append_eq_nil_iff] at h
      exact h.1.1
    rw [hg, List.length_nil] at hlen
    omega
  | g :: gs, f :: fs, hgs, hfs, h => by
    have hg := hgs g List.mem_cons_self
    have hf := hfs f List.mem_cons_self
    rw [List.flatten_cons, List.flatten_cons, List.append_assoc] at h
    have hfront := congrArg F.front h
    rw [hg.front_append, hf.front_append] at hfront
    subst hfront
    obtain ⟨fs', rfl, ht⟩ := exists_of_flatten_append hF
      (fun g' hg' => hgs g' (List.mem_cons_of_mem _ hg'))
      (fun f' hf' => hfs f' (List.mem_cons_of_mem _ hf')) (List.append_cancel_left h)
    exact ⟨fs', rfl, ht⟩

/-- What is held of a stream of frames and waits is shorter than one of them, or empty. -/
theorem eq_nil_or_length_lt {p t : List α} {fs : List (List α)} (hfs : ∀ f ∈ fs, F.IsFrame f)
    (h : p ++ t = fs.flatten) (hp : ¬F.Complete p) : p = [] ∨ ∃ f ∈ fs, p.length < f.length := by
  rcases fs with _ | ⟨f, fs⟩
  · exact Or.inl (List.append_eq_nil_iff.mp h).1
  · refine Or.inr ⟨f, List.mem_cons_self, ?_⟩
    by_contra hge
    have hf := hfs f List.mem_cons_self
    rw [List.flatten_cons] at h
    obtain ⟨r, rfl⟩ := List.prefix_of_prefix_length_le (List.prefix_append f _)
      (h ▸ List.prefix_append p t) (Nat.le_of_not_lt hge)
    exact hp (hf.complete.append r)

/-! ## Chunks -/

/-- Cut a beginning of the stream, then what it left with the next symbols. -/
theorem peels_append {s c p q : List α} {fs gs : List (List α)} (h : F.Peels s fs p)
    (hc : F.Peels (p ++ c) gs q) : F.Peels (s ++ c) (fs ++ gs) q := by
  induction h with
  | wait _ => exact hc
  | cut hs _ ih =>
    have hcut := Peels.cut (hs.append c) (by rw [rest_append hs]; exact ih hc)
    rwa [front_append hs] at hcut

/-- Every cutting of a stream cuts its beginning first. -/
theorem peels_append_inv {s c q : List α} {hs : List (List α)} (h : F.Peels (s ++ c) hs q) :
    ∃ fs p gs, F.Peels s fs p ∧ F.Peels (p ++ c) gs q ∧ hs = fs ++ gs := by
  generalize hx : s ++ c = x at h
  induction h generalizing s with
  | wait hw =>
    subst hx
    exact ⟨[], s, [], .wait fun hs => hw (hs.append c), .wait hw, rfl⟩
  | @cut x r fs hcut hr ih =>
    subst hx
    by_cases hs : F.Complete s
    · obtain ⟨fs', p, gs, hp, hq, rfl⟩ := ih (s := F.rest s) (rest_append hs c).symm
      exact ⟨F.front s :: fs', p, gs, .cut hs hp, hq, by rw [front_append hs]; rfl⟩
    · exact ⟨[], s, _, .wait hs, .cut hcut hr, rfl⟩

/-- Cutting loses nothing. -/
theorem flatten_append_of_peels {s r : List α} {fs : List (List α)} (h : F.Peels s fs r) :
    fs.flatten ++ r = s := by
  induction h with
  | wait _ => rfl
  | cut _ _ ih => rw [List.flatten_cons, List.append_assoc, ih, front_append_rest]

/-- A complete frame that announces its own length is no shorter than its header says. -/
theorem len_eq_of_isFrame_front {s : List α} (h : F.IsFrame (F.front s)) :
    F.len s = (F.front s).length := by
  conv_lhs => rw [← front_append_rest (F := F) s]
  rw [F.len_append _ _ h.1, h.2]

theorem not_complete_of_peels {s r : List α} {fs : List (List α)} (h : F.Peels s fs r) :
    ¬F.Complete r := by
  induction h with
  | wait h => exact h
  | cut _ _ ih => exact ih

/-- What waits for more symbols is shorter than the frame it is the beginning of. -/
theorem length_lt_of_peels {p c q : List α} {hs : List (List α)} {M : ℕ} (hp : ¬F.Complete p)
    (h : F.Peels (p ++ c) hs q) (hM : ∀ f ∈ hs, F.IsFrame f ∧ f.length ≤ M) (hq : q.length < M) :
    p.length < M := by
  cases h with
  | wait _ =>
    simp only [List.length_append] at hq
    omega
  | cut hc _ =>
    obtain ⟨hf, hle⟩ := hM _ (List.mem_cons_self ..)
    have hlen : (F.front (p ++ c)).length = (F.len (p ++ c)).toNat := by
      rw [front, List.length_take, Nat.min_eq_left (toNat_len_le hc)]
    have hfr := hf.1
    rcases Nat.lt_or_ge p.length F.header with hlt | hge
    · omega
    · have := F.len_append p c hge
      have : ¬F.len p ≤ p.length := fun hle => hp ⟨hge, hle⟩
      omega

/-! ## The reader step by step -/

variable (F) in
/-- After reading the chunks `cs` the reader holds `p` : it reads when no frame is
complete, and cuts when one is. -/
inductive Held : List (List α) → List α → Prop
  | start : Held [] []
  | read {cs : List (List α)} {p : List α} (h : Held cs p) (hp : ¬F.Complete p) (c : List α) :
      Held (cs ++ [c]) (p ++ c)
  | cut {cs : List (List α)} {p : List α} (h : Held cs p) (hp : F.Complete p) :
      Held cs (F.rest p)

/-! ## Where the reader is in its stream -/

/-- A complete beginning of a stream contains its first frame. -/
theorem exists_append_of_complete {f p t : List α} (hf : F.IsFrame f) (hp : p <+: f ++ t)
    (hc : F.Complete p) : ∃ r, p = f ++ r ∧ F.rest p = r := by
  rcases Nat.lt_or_ge p.length f.length with hlt | hge
  · obtain ⟨q, rfl⟩ := List.prefix_of_prefix_length_le hp (List.prefix_append f t)
      (Nat.le_of_lt hlt)
    refine absurd hc ?_
    refine not_complete_of_prefix hf ?_
    rintro rfl
    simp at hlt
  · obtain ⟨r, rfl⟩ := List.prefix_of_prefix_length_le (List.prefix_append f t) hp hge
    exact ⟨r, rfl, hf.rest_append r⟩

/-- What is held after the chunks `pre` of the stream of `fs` and `tail` : the frames `done`
are cut off, and the first frame of `todo` was not complete before the last chunk. -/
structure At (fs pre : List (List α)) (p : List α) (done todo : List (List α)) : Prop where
  frames : fs = done ++ todo
  /-- What was read is the frames that are cut off and what is held. -/
  bytes : pre.flatten = done.flatten ++ p
  /-- The next frame was not all there before the last chunk. -/
  last : ∀ cs c f todo', pre = cs ++ [c] → todo = f :: todo' →
    cs.flatten.length < done.flatten.length + f.length

section Position

variable {fs cs : List (List α)} {tail : List α} (hfs : ∀ f ∈ fs, F.IsFrame f)
  (htail : ¬F.Complete tail) (hstream : cs.flatten = fs.flatten ++ tail)

include hstream in
theorem At.prefix_todo {pre done todo : List (List α)} {p : List α} (h : At fs pre p done todo)
    (hpre : pre <+: cs) : p <+: todo.flatten ++ tail := by
  obtain ⟨post, rfl⟩ := hpre
  rw [List.flatten_append, h.bytes, h.frames, List.flatten_append, List.append_assoc,
    List.append_assoc] at hstream
  exact ⟨post.flatten, List.append_cancel_left hstream⟩

include hfs hstream in
theorem At.read {pre done todo : List (List α)} {p : List α} (h : At fs pre p done todo)
    (hpre : pre <+: cs) (hp : ¬F.Complete p) (c : List α) :
    At fs (pre ++ [c]) (p ++ c) done todo := by
  refine ⟨h.frames, ?_, ?_⟩
  · rw [List.flatten_append, h.bytes, List.flatten_singleton, List.append_assoc]
  · rintro cs' c' f todo' heq rfl
    obtain ⟨rfl, -⟩ := List.append_inj' heq rfl
    rw [h.bytes, List.length_append]
    by_contra hge
    have hlong : f.length ≤ p.length := by omega
    have hwhole := h.prefix_todo hstream hpre
    rw [List.flatten_cons, List.append_assoc] at hwhole
    obtain ⟨r, rfl⟩ := List.prefix_of_prefix_length_le (List.prefix_append f _) hwhole hlong
    have hf : F.IsFrame f := hfs f (by simp [h.frames])
    exact hp (hf.complete.append r)

include hfs htail hstream in
/-- When a complete frame is held, it is the next one, and is cut off. -/
theorem At.cut {pre done todo : List (List α)} {p : List α} (h : At fs pre p done todo)
    (hpre : pre <+: cs) (hp : F.Complete p) :
    ∃ f todo', todo = f :: todo' ∧ p = f ++ F.rest p ∧
      At fs pre (F.rest p) (done ++ [f]) todo' := by
  have hwhole := h.prefix_todo hstream hpre
  rcases todo with _ | ⟨f, todo'⟩
  · obtain ⟨q, hq⟩ := hwhole
    rw [List.flatten_nil, List.nil_append] at hq
    exact absurd (hq ▸ hp.append q) htail
  · have hf : F.IsFrame f := hfs f (by simp [h.frames])
    rw [List.flatten_cons, List.append_assoc] at hwhole
    obtain ⟨r, hr, hrest⟩ := exists_append_of_complete hf hwhole hp
    refine ⟨f, todo', rfl, by rw [hrest, ← hr], ?_, ?_, ?_⟩
    · rw [h.frames, List.append_assoc, List.singleton_append]
    · rw [h.bytes, hr, hf.rest_append]
      simp
    · rintro cs' c f' todo'' rfl -
      have hlast := h.last cs' c f todo' rfl rfl
      simp only [List.flatten_append, List.flatten_singleton, List.length_append]
      omega

include hfs htail hstream in
theorem at_of_held {pre : List (List α)} {p : List α} (h : F.Held pre p) (hpre : pre <+: cs) :
    ∃ done todo, At fs pre p done todo := by
  induction h with
  | start => exact ⟨[], fs, rfl, rfl, by simp⟩
  | read _ hp c ih =>
    have hpre' := (List.prefix_append _ _).trans hpre
    obtain ⟨done, todo, hat⟩ := ih hpre'
    exact ⟨done, todo, hat.read hfs hstream hpre' hp c⟩
  | cut _ hp ih =>
    obtain ⟨done, todo, hat⟩ := ih hpre
    obtain ⟨f, todo', -, -, hat'⟩ := hat.cut hfs htail hstream hpre hp
    exact ⟨done ++ [f], todo', hat'⟩

/-- Frames in front of what is held are cut off. -/
theorem Held.cut_frames {pre : List (List α)} {r : List α} :
    ∀ {gs : List (List α)}, (∀ g ∈ gs, F.IsFrame g) → F.Held pre (gs.flatten ++ r) →
      F.Held pre r
  | [], _, h => h
  | g :: gs, hgs, h => by
    have hg := hgs g List.mem_cons_self
    rw [List.flatten_cons, List.append_assoc] at h
    have hcut := h.cut (hg.complete.append _)
    rw [hg.rest_append] at hcut
    exact hcut.cut_frames fun g' hg' => hgs g' (List.mem_cons_of_mem g hg')

include hfs htail hstream in
/-- The reader waits for each chunk. -/
theorem exists_held {pre : List (List α)} (hpre : pre <+: cs) :
    ∃ p, F.Held pre p ∧ ¬F.Complete p := by
  induction pre using List.reverseRecOn with
  | nil =>
    refine ⟨[], .start, fun hc => htail ?_⟩
    exact hc.append tail
  | append_singleton pre c ih =>
    have hpre' := (List.prefix_append pre [c]).trans hpre
    obtain ⟨p, hheld, hp⟩ := ih hpre'
    suffices hcuts : ∀ {n : ℕ} {todo done : List (List α)} {q : List α}, todo.length = n →
        F.Held (pre ++ [c]) q → At fs (pre ++ [c]) q done todo →
        ∃ q, F.Held (pre ++ [c]) q ∧ ¬F.Complete q by
      obtain ⟨done, todo, hat⟩ := at_of_held hfs htail hstream hheld hpre'
      exact hcuts rfl (hheld.read hp c) (hat.read hfs hstream hpre' hp c)
    -- by induction on how many frames are left to cut off
    intro n
    induction n with
    | zero =>
      intro todo done q hn hq hat
      refine ⟨q, hq, fun hc => ?_⟩
      obtain ⟨f, todo', htodo, -⟩ := hat.cut hfs htail hstream hpre hc
      rw [htodo] at hn
      simp at hn
    | succ n ih =>
      intro todo done q hn hq hat
      by_cases hc : F.Complete q
      · obtain ⟨f, todo', htodo, -, hat'⟩ := hat.cut hfs htail hstream hpre hc
        rw [htodo, List.length_cons] at hn
        exact ih (by omega) (hq.cut hc) hat'
      · exact ⟨q, hq, hc⟩

include hfs htail hstream in
/-- When the chunk with the last symbol of a frame was read, the frame comes to the front. -/
theorem held_frame {done todo pre post : List (List α)} {f c : List α}
    (hsplit : fs = done ++ f :: todo) (hchunks : cs = pre ++ c :: post)
    (hbefore : pre.flatten.length < (done ++ [f]).flatten.length)
    (hafter : (done ++ [f]).flatten.length ≤ (pre ++ [c]).flatten.length) :
    ∃ r, F.Held (pre ++ [c]) (f ++ r) ∧
      (done ++ [f]).flatten.length + r.length = (pre ++ [c]).flatten.length := by
  have hpre : pre <+: cs := ⟨c :: post, hchunks.symm⟩
  have hpre' : pre ++ [c] <+: cs := ⟨post, by rw [hchunks, List.append_assoc]; rfl⟩
  obtain ⟨p, hheld, hp⟩ := exists_held hfs htail hstream hpre
  obtain ⟨done', todo', hat⟩ := at_of_held hfs htail hstream hheld hpre
  have hread := hat.read hfs hstream hpre hp c
  -- what was cut off before is in front of the frame
  obtain ⟨gs, rfl⟩ : done' <+: done := by
    have h1 : done' <+: fs := ⟨todo', hat.frames.symm⟩
    have h2 : done <+: fs := ⟨f :: todo, hsplit.symm⟩
    have h3 : done ++ [f] <+: fs := ⟨todo, by rw [hsplit, List.append_assoc]; rfl⟩
    rcases Nat.lt_or_ge done.length done'.length with hlt | hge
    · obtain ⟨q, rfl⟩ := List.prefix_of_prefix_length_le h3 h1 (by
        rwa [List.length_append])
      have hbytes := congrArg List.length hat.bytes
      simp only [List.flatten_append, List.length_append] at hbytes hbefore
      omega
    · exact List.prefix_of_prefix_length_le h1 h2 hge
  have htodo : todo' = gs ++ f :: todo := by
    have heq := hat.frames.symm.trans hsplit
    rw [List.append_assoc] at heq
    exact List.append_cancel_left heq
  have hwhole := hread.prefix_todo hstream hpre'
  have hfront : gs.flatten ++ f <+: todo'.flatten ++ tail :=
    ⟨todo.flatten ++ tail, by rw [htodo]; simp⟩
  have hbytes := congrArg List.length hread.bytes
  simp only [List.flatten_append, List.flatten_singleton, List.length_append] at hbytes hafter
  obtain ⟨r, hr⟩ := List.prefix_of_prefix_length_le hfront hwhole (by
    rw [List.length_append, List.length_append]
    omega)
  have hcut := hheld.read hp c
  rw [← hr, List.append_assoc] at hcut
  refine ⟨r, hcut.cut_frames fun g hg => hfs g (by simp [hsplit, hg]), ?_⟩
  have hlength := congrArg List.length hr
  simp only [List.flatten_append, List.flatten_singleton, List.length_append] at hlength ⊢
  omega

end Position

end Framing
