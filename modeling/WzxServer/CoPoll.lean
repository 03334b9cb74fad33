import Mathlib.Data.Int.Basic
import Mathlib.Data.List.Basic
import Mathlib.Data.List.Induction
import Mathlib.Data.List.Nodup
import Mathlib.Data.List.Forall2
import Mathlib.Logic.Function.Basic

/-!
# The hooked poll

`poll` of `co_hook_sys_call.cpp` merges the entries of its array that have one file, since
`epoll` takes a file only once, and gives the events that came back to all of them. By
`poll_answers` `co_poll_inner` always gets every file once, with all events that are asked of it,
and every entry gets of the answer what it asked for.

There are two loops. `PollMerge.Of` is what the first has made of the entries so far, and each
turn keeps it (`Of.add`) : an entry with a new file is put at the end and gets an index, and the
events of the others are added to those at the index of their file. The second loop reads the
answers by the same indices (`PollMerge.Of.spread`). `co_poll_inner` is a parameter, which may
answer whatever it likes but leaves the files of the entries.
-/

namespace WzxServer

open Function

/-- `struct pollfd`. -/
structure Pollfd where
  fd : ℤ
  events : BitVec 16
  revents : BitVec 16
  deriving DecidableEq

/-- `fds_merge`, up to `nfds_merge`, and the map from files to its indices. -/
structure PollMerge where
  fds_merge : List Pollfd
  m : ℤ → Option ℕ

namespace PollMerge

/-- Before the first loop. -/
def empty : PollMerge :=
  ⟨[], fun _ => none⟩

/-- One turn of the first loop. -/
def add (s : PollMerge) (f : Pollfd) : PollMerge :=
  match s.m f.fd with
  | none => ⟨s.fds_merge ++ [f], update s.m f.fd (some s.fds_merge.length)⟩
  | some j => { s with
      fds_merge := s.fds_merge.modify j fun g => { g with events := g.events ||| f.events } }

/-- One turn of the second loop, where `co_poll_inner` has left `merged`. -/
def spread (s : PollMerge) (merged : List Pollfd) (f : Pollfd) : Pollfd :=
  match (s.m f.fd).bind fun j => merged[j]? with
  | none => f
  | some g => { f with revents := g.revents &&& f.events }

end PollMerge

/-- `poll` with a timeout other than 0, where `inner` is `co_poll_inner`, with what it returns and
how it leaves its array. -/
def poll (inner : List Pollfd → ℤ × List Pollfd) (fds : List Pollfd) : ℤ × List Pollfd :=
  let s := if 1 < fds.length then fds.foldl PollMerge.add .empty else .empty
  if s.fds_merge.length = fds.length ∨ fds.length = 1 then inner fds
  else
    let r := inner s.fds_merge
    if 0 < r.1 then (r.1, fds.map (s.spread r.2)) else (r.1, fds)

/-- All events that are asked of a file. -/
def wanted (fds : List Pollfd) (fd : ℤ) : BitVec 16 :=
  (fds.filter fun f => f.fd = fd).foldl (fun e f => e ||| f.events) 0

/-- Each file of `fds` is asked for once, and for all of its events. -/
structure AsksOnce (fds asked : List Pollfd) : Prop where
  /-- `epoll` takes a file once. -/
  once : (asked.map Pollfd.fd).Nodup
  /-- No file is left out. -/
  files : ∀ fd, fd ∈ asked.map Pollfd.fd ↔ fd ∈ fds.map Pollfd.fd
  /-- All that is asked of a file is asked at once. -/
  events : ∀ g ∈ asked, g.events = wanted fds g.fd

/-! ## Events -/

section Wanted

variable {fds : List Pollfd} {f : Pollfd} {fd : ℤ}

/-- The events that are wanted of a file, with one more entry. -/
theorem wanted_concat (fds : List Pollfd) (f : Pollfd) (fd : ℤ) : wanted (fds ++ [f]) fd =
    if f.fd = fd then wanted fds fd ||| f.events else wanted fds fd := by
  rw [wanted, List.filter_append, List.foldl_append, wanted]
  split_ifs with h
  · simp [h]
  · simp [h]

/-- Nothing is wanted of a file that is not there. -/
theorem wanted_of_notMem (h : fd ∉ fds.map Pollfd.fd) : wanted fds fd = 0 := by
  have hnil : (fds.filter fun f => f.fd = fd) = [] := by
    refine List.filter_eq_nil_iff.mpr fun f hf heq => h ?_
    exact List.mem_map.mpr ⟨f, hf, of_decide_eq_true heq⟩
  rw [wanted, hnil]
  rfl

end Wanted

/-! ## Merging -/

/-- What the first loop has made of `fds`. -/
structure PollMerge.Of (fds : List Pollfd) (s : PollMerge) : Prop where
  /-- The map leads to the entry of a file. -/
  index : ∀ fd j, s.m fd = some j ↔ (s.fds_merge.map Pollfd.fd)[j]? = some fd
  /-- The files are those of the entries so far. -/
  files : ∀ fd, fd ∈ s.fds_merge.map Pollfd.fd ↔ fd ∈ fds.map Pollfd.fd
  /-- An entry asks for all that was asked of its file. -/
  events : ∀ g ∈ s.fds_merge, g.events = wanted fds g.fd
  /-- Merging makes the array no longer. -/
  length_le : s.fds_merge.length ≤ fds.length
  /-- When nothing was merged, the array is as it was. -/
  eq_of_length : s.fds_merge.length = fds.length → s.fds_merge = fds

namespace PollMerge

variable {fds : List Pollfd} {s : PollMerge} {f : Pollfd}

/-- Nothing was merged yet. -/
theorem of_empty : Of [] empty := by
  refine ⟨fun fd j => ?_, fun fd => Iff.rfl, fun g hg => ?_, Nat.le_refl 0, fun _ => rfl⟩
  · simp [empty]
  · exact absurd hg List.not_mem_nil

/-- A file without an index was not merged. -/
theorem Of.notMem (h : s.Of fds) {fd : ℤ} (hnone : s.m fd = none) : fd ∉ fds.map Pollfd.fd := by
  rw [← h.files]
  intro hmem
  obtain ⟨j, hj⟩ := List.mem_iff_getElem?.mp hmem
  rw [(h.index fd j).mpr hj] at hnone
  exact Option.some_ne_none j hnone

/-- A map from files to their indices, when a file that is new is put at the end. -/
theorem index_concat {l : List ℤ} {m : ℤ → Option ℕ} {x : ℤ}
    (h : ∀ fd j, m fd = some j ↔ l[j]? = some fd) (hnone : m x = none) (fd : ℤ) (j : ℕ) :
    update m x (some l.length) fd = some j ↔ (l ++ [x])[j]? = some fd := by
  rw [List.getElem?_append]
  rcases eq_or_ne fd x with rfl | hne
  · rw [update_self, Option.some.injEq]
    split_ifs with hj
    · refine iff_of_false (by omega) fun hmem => ?_
      rw [(h fd j).mpr hmem] at hnone
      exact Option.some_ne_none j hnone
    · rw [List.getElem?_singleton]
      split_ifs with hzero
      · exact iff_of_true (by omega) rfl
      · exact iff_of_false (by omega) not_false
  · rw [update_of_ne hne, h]
    split_ifs with hj
    · rfl
    · rw [List.getElem?_eq_none (by omega)]
      refine iff_of_false (Option.some_ne_none fd).symm fun hmem => ?_
      rw [List.getElem?_singleton] at hmem
      split_ifs at hmem
      exact hne (Option.some.inj hmem).symm

/-- A file that is new gets an entry of its own. -/
theorem Of.add_none (h : s.Of fds) (hnone : s.m f.fd = none) : (s.add f).Of (fds ++ [f]) := by
  have hnew := h.notMem hnone
  have hadd : s.add f =
      ⟨s.fds_merge ++ [f], update s.m f.fd (some s.fds_merge.length)⟩ := by
    rw [add, hnone]
  rw [hadd]
  refine ⟨fun fd j => ?_, fun fd => ?_, fun g hg => ?_, ?_, fun hlen => ?_⟩
  · have hindex := index_concat h.index hnone fd j
    rw [List.length_map] at hindex
    rw [hindex, List.map_append, List.map_singleton]
  · simp only [List.map_append, List.mem_append, h.files]
  · dsimp only at hg
    rw [wanted_concat]
    rcases List.mem_append.mp hg with hg | hg
    · have hne : f.fd ≠ g.fd := by
        intro heq
        exact hnew (heq ▸ (h.files g.fd).mp (List.mem_map_of_mem hg))
      rw [if_neg hne]
      exact h.events g hg
    · obtain rfl := List.mem_singleton.mp hg
      rw [if_pos rfl, wanted_of_notMem hnew]
      simp
  · simpa using h.length_le
  · simp only [List.length_append, List.length_singleton, Nat.add_right_cancel_iff] at hlen
    rw [h.eq_of_length hlen]

/-- The events of a file that has an entry are added to it. -/
theorem Of.add_some (h : s.Of fds) {j : ℕ} (hj : s.m f.fd = some j) :
    (s.add f).Of (fds ++ [f]) := by
  have hadd : s.add f = { s with
      fds_merge := s.fds_merge.modify j fun g => { g with events := g.events ||| f.events } } := by
    rw [add, hj]
  have hat := (h.index f.fd j).mp hj
  have hfd : (s.fds_merge.modify j fun g => { g with events := g.events ||| f.events }).map
      Pollfd.fd = s.fds_merge.map Pollfd.fd := by
    refine List.ext_getElem? fun i => ?_
    rw [List.getElem?_map, List.getElem?_map, List.getElem?_modify]
    rcases s.fds_merge[i]? with _ | g
    · rfl
    · by_cases hij : j = i
      · simp [hij]
      · simp [hij]
  have hin : f.fd ∈ fds.map Pollfd.fd := (h.files f.fd).mp (List.mem_of_getElem? hat)
  rw [hadd]
  refine ⟨fun fd i => ?_, fun fd => ?_, fun g hg => ?_, ?_, fun hlen => ?_⟩
  · rw [hfd]
    exact h.index fd i
  · rw [hfd, h.files, List.map_append, List.mem_append, List.map_singleton, List.mem_singleton]
    refine ⟨Or.inl, fun hmem => hmem.elim id fun heq => ?_⟩
    exact heq ▸ hin
  · obtain ⟨i, hi⟩ := List.mem_iff_getElem?.mp hg
    rw [List.getElem?_modify] at hi
    obtain ⟨g', hg', rfl⟩ := Option.map_eq_some_iff.mp hi
    have hevents := h.events g' (List.mem_of_getElem? hg')
    rw [wanted_concat]
    by_cases hij : j = i
    · subst hij
      have heq : f.fd = g'.fd := by
        rw [List.getElem?_map, hg', Option.map_some, Option.some.injEq] at hat
        exact hat.symm
      simp [heq, hevents]
    · have hne : f.fd ≠ g'.fd := by
        intro heq
        refine hij ?_
        have hi' : s.m f.fd = some i := by
          rw [heq, h.index, List.getElem?_map, hg']
          rfl
        exact Option.some.inj (hj.symm.trans hi')
      simp [hij, hne, hevents]
  · simpa using Nat.le_succ_of_le h.length_le
  · have hle := h.length_le
    simp only [List.length_modify, List.length_append, List.length_singleton] at hlen
    omega

/-- A turn of the first loop merges its entry. -/
theorem Of.add (h : s.Of fds) (f : Pollfd) : (s.add f).Of (fds ++ [f]) := by
  rcases hm : s.m f.fd with _ | j
  · exact h.add_none hm
  · exact h.add_some hm

/-- The first loop merges all entries. -/
theorem of_foldl (fds : List Pollfd) : (fds.foldl PollMerge.add empty).Of fds := by
  induction fds using List.reverseRecOn with
  | nil => exact of_empty
  | append_singleton fds f ih =>
    rw [List.foldl_append]
    exact ih.add f

/-- What was merged asks for each file once, for all that is wanted of it. -/
theorem Of.asksOnce (h : s.Of fds) : AsksOnce fds s.fds_merge := by
  refine ⟨List.nodup_iff_getElem?_ne_getElem?.mpr fun i j hij hj heq => ?_, h.files, h.events⟩
  have hfd := List.getElem?_eq_getElem hj
  have hi := (h.index _ i).mpr (heq.trans hfd)
  have hj' := (h.index _ j).mpr hfd
  rw [hi] at hj'
  exact absurd (Option.some.inj hj') (Nat.ne_of_lt hij)

end PollMerge

/-! ## The call -/

section Poll

variable {fds : List Pollfd} {inner : List Pollfd → ℤ × List Pollfd}

/-- A single entry needs no merging. -/
theorem asksOnce_of_length {fds : List Pollfd} (h : fds.length ≤ 1) : AsksOnce fds fds := by
  rcases fds with _ | ⟨f, _ | ⟨g, fds⟩⟩
  · exact ⟨List.nodup_nil, fun _ => Iff.rfl, fun g hg => absurd hg List.not_mem_nil⟩
  · refine ⟨List.nodup_singleton _, fun _ => Iff.rfl, fun g hg => ?_⟩
    obtain rfl := List.mem_singleton.mp hg
    simp [wanted]
  · simp at h

/-- The answer for a file is the one at its index. -/
theorem PollMerge.Of.spread {s : PollMerge} (h : s.Of fds) {merged : List Pollfd}
    (hmerged : merged.map Pollfd.fd = s.fds_merge.map Pollfd.fd) {f : Pollfd} (hf : f ∈ fds) :
    ∃ g ∈ merged, g.fd = f.fd ∧ s.spread merged f = { f with revents := g.revents &&& f.events } := by
  have hmem := (h.files f.fd).mpr (List.mem_map_of_mem hf)
  obtain ⟨j, hj⟩ := List.mem_iff_getElem?.mp hmem
  have hm := (h.index f.fd j).mpr hj
  rw [← hmerged, List.getElem?_map] at hj
  obtain ⟨g, hg, hfd⟩ := Option.map_eq_some_iff.mp hj
  refine ⟨g, List.mem_of_getElem? hg, hfd, ?_⟩
  rw [PollMerge.spread, hm, Option.bind_some, hg]

/-- An entry `f` of the array is left as `f'`, where `co_poll_inner` has left `merged`: it has, of
the events that it asked for, those that came for its file. -/
def Answered (merged : List Pollfd) (f f' : Pollfd) : Prop :=
  f'.fd = f.fd ∧ ∃ g ∈ merged, g.fd = f.fd ∧ f'.revents &&& f.events = g.revents &&& f.events

/-- Entries that keep their files are answered one by one. -/
theorem answered_of_map {merged : List Pollfd} : ∀ {l l' : List Pollfd},
    l'.map Pollfd.fd = l.map Pollfd.fd → (∀ g ∈ l', g ∈ merged) →
      List.Forall₂ (Answered merged) l l'
  | [], [], _, _ => .nil
  | [], _ :: _, h, _ => absurd h (by simp)
  | _ :: _, [], h, _ => absurd h (by simp)
  | f :: l, g :: l', h, hmem => by
    rw [List.map_cons, List.map_cons, List.cons.injEq] at h
    refine .cons ⟨h.1, g, hmem g List.mem_cons_self, h.1, rfl⟩ ?_
    exact answered_of_map h.2 fun g' hg' => hmem g' (List.mem_cons_of_mem g hg')

/-- Whatever is polled, `co_poll_inner` gets every file once, with all of its events, and where it
returns something, every entry is answered. Of `co_poll_inner` this needs only that it does not
write to `fd`. -/
theorem poll_answers (hinner : ∀ l, (inner l).2.map Pollfd.fd = l.map Pollfd.fd)
    (fds : List Pollfd) :
    ∃ asked, AsksOnce fds asked ∧ (poll inner fds).1 = (inner asked).1 ∧
      (0 < (inner asked).1 → List.Forall₂ (Answered (inner asked).2) fds (poll inner fds).2) := by
  have hdirect : AsksOnce fds fds → poll inner fds = inner fds →
      ∃ asked, AsksOnce fds asked ∧ (poll inner fds).1 = (inner asked).1 ∧
        (0 < (inner asked).1 →
          List.Forall₂ (Answered (inner asked).2) fds (poll inner fds).2) := by
    intro honce heq
    rw [heq]
    exact ⟨fds, honce, rfl, fun _ => answered_of_map (hinner fds) fun _ hg => hg⟩
  by_cases hmany : 1 < fds.length
  · have hof := PollMerge.of_foldl fds
    set s := fds.foldl PollMerge.add .empty with hs
    have hpoll : poll inner fds =
        if s.fds_merge.length = fds.length ∨ fds.length = 1 then inner fds
        else if 0 < (inner s.fds_merge).1 then
          ((inner s.fds_merge).1, fds.map (s.spread (inner s.fds_merge).2))
        else ((inner s.fds_merge).1, fds) := by
      rw [poll, if_pos hmany]
    by_cases hsame : s.fds_merge.length = fds.length
    · refine hdirect ?_ (hpoll.trans (if_pos (Or.inl hsame)))
      have honce := hof.asksOnce
      rwa [hof.eq_of_length hsame] at honce
    · rw [if_neg (by omega)] at hpoll
      rw [hpoll]
      refine ⟨s.fds_merge, hof.asksOnce, ?_, fun hpos => ?_⟩
      · split_ifs <;> rfl
      · rw [if_pos hpos, List.forall₂_map_right_iff, List.forall₂_same]
        intro f hf
        obtain ⟨g, hg, hfd, hspread⟩ := hof.spread (hinner _) hf
        rw [hspread]
        exact ⟨rfl, g, hg, hfd, by simp [BitVec.and_assoc]⟩
  · refine hdirect (asksOnce_of_length (Nat.not_lt.mp hmany)) ?_
    rw [poll, if_neg hmany]
    refine if_pos ?_
    rcases hlen : fds.length with _ | n
    · exact Or.inl rfl
    · exact Or.inr (by omega)

end Poll

/-- Two of three entries are for the file 4, on which there is something to read (1) and room to
write (4). -/
def twice : List Pollfd :=
  [⟨4, 1, 0⟩, ⟨5, 1, 0⟩, ⟨4, 4, 0⟩]

/-- All that is asked for comes on the file 4, and nothing on any other. -/
def ready (fds : List Pollfd) : ℤ × List Pollfd :=
  (fds.countP fun f => f.fd = 4,
    fds.map fun f => { f with revents := if f.fd = 4 then f.events else 0 })

/-- Each of the two gets its own event. -/
theorem poll_answers_twice : poll ready twice = (1, [⟨4, 1, 1⟩, ⟨5, 1, 0⟩, ⟨4, 4, 4⟩]) ∧
    ∃ asked, AsksOnce twice asked ∧ (poll ready twice).1 = (ready asked).1 ∧
      (0 < (ready asked).1 →
        List.Forall₂ (Answered (ready asked).2) twice (poll ready twice).2) := by
  refine ⟨by decide +kernel, poll_answers (fun l => ?_) twice⟩
  rw [ready, List.map_map]
  rfl

end WzxServer
