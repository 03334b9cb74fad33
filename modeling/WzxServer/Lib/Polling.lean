import Mathlib.Order.MinMax
import Mathlib.Data.List.Basic
import Mathlib.Tactic.Common

/-!
# Polling a log by time

A log grows at its end, and the times of its entries do not go back. A reader polls it with
a cursor : a poll takes the entries that are newer than the cursor and not newer than now,
and the cursor is the largest time taken so far. Times are coarse, so entries can share one.

What is lost is lost to the cursor : an entry appended behind a poll, with the time of an
entry which that poll has seen, is not newer than the cursor any more. An entry is `Timely`
when this is not so, and by `Run.once_iff` the timely entries are those taken exactly once.
-/

namespace Polling

variable {τ : Type} [LinearOrder τ]

/-- A poll at `now` with the cursor `last`, of a log of `stop` entries. -/
structure Poll (τ : Type) where
  last : τ
  now : τ
  stop : ℕ
  deriving DecidableEq

namespace Poll

/-- The times that a poll takes. -/
def taken (times : List τ) (p : Poll τ) : List τ :=
  (times.take p.stop).filter fun t => p.last < t ∧ t ≤ p.now

/-- The poll takes the entry at position `i`. -/
def takes (times : List τ) (p : Poll τ) (i : ℕ) : Bool :=
  i < p.stop && times[i]?.any fun t => p.last < t ∧ t ≤ p.now

end Poll

/-- The largest of `init` and the times taken so far. -/
def cursor (init : τ) (times : List τ) (polls : List (Poll τ)) : τ :=
  (polls.flatMap (Poll.taken times)).foldl max init

/-- Newer than `init`, and than all that a poll saw before the entry was appended. -/
def Timely (init : τ) (times : List τ) (polls : List (Poll τ)) (i : ℕ) : Prop :=
  ∃ t, times[i]? = some t ∧ init < t ∧
    ∀ p ∈ polls, p.stop ≤ i → ∀ j < p.stop, ∀ s, times[j]? = some s → s < t

/-- The logs, the polls and the clocks that can be. -/
inductive Run (init : τ) : List τ → List (Poll τ) → τ → Prop
  /-- Before the first poll. -/
  | start {times : List τ} {now : τ} (h : ∀ t ∈ times, t ≤ now) : Run init times [] now
  /-- An entry is stored, with the time that it is. -/
  | append {times : List τ} {polls : List (Poll τ)} {now t now' : τ}
      (h : Run init times polls now) (ht : now ≤ t) (hnow : t ≤ now') :
      Run init (times ++ [t]) polls now'
  /-- A poll of what is there. -/
  | poll {times : List τ} {polls : List (Poll τ)} {now t now' : τ}
      (h : Run init times polls now) (ht : now ≤ t) (hnow : t ≤ now') :
      Run init times (polls ++ [⟨cursor init times polls, t, times.length⟩]) now'

/-! ## The largest of a list -/

theorem le_foldl_max : ∀ (l : List τ) (a : τ), a ≤ l.foldl max a
  | [], a => le_refl a
  | b :: l, a => (le_max_left a b).trans (le_foldl_max l (max a b))

theorem le_foldl_max_of_mem : ∀ {l : List τ} {b : τ}, b ∈ l → ∀ a, b ≤ l.foldl max a
  | c :: l, b, hb, a => by
    rcases List.mem_cons.mp hb with rfl | hb
    · exact (le_max_right a b).trans (le_foldl_max l (max a b))
    · exact le_foldl_max_of_mem hb (max a c)

theorem foldl_max_mem : ∀ (l : List τ) (a : τ), l.foldl max a = a ∨ l.foldl max a ∈ l
  | [], _ => Or.inl rfl
  | b :: l, a => by
    rcases foldl_max_mem l (max a b) with h | h
    · rcases max_choice a b with hab | hab
      · exact Or.inl (h.trans hab)
      · exact Or.inr (List.mem_cons.2 (Or.inl (h.trans hab)))
    · exact Or.inr (List.mem_cons_of_mem b h)

/-! ## The invariant -/

/-- A poll has seen the position `i`. -/
def Seen (polls : List (Poll τ)) (i : ℕ) : Prop :=
  ∃ p ∈ polls, i < p.stop

/-- What a run keeps. The cursor bounds the times that were seen and is one of them, so an
entry that was not seen is newer than the cursor exactly when it is timely. -/
structure Inv (init : τ) (times : List τ) (polls : List (Poll τ)) (now : τ) : Prop where
  /-- Nothing was stored after now. -/
  times_le : ∀ t ∈ times, t ≤ now
  now_le : ∀ p ∈ polls, p.now ≤ now
  /-- A poll saw a beginning of the log. -/
  stop_le : ∀ p ∈ polls, p.stop ≤ times.length
  /-- What was stored after a poll has no earlier time. -/
  fresh : ∀ p ∈ polls, ∀ i t, p.stop ≤ i → times[i]? = some t → p.now ≤ t
  /-- The cursor bounds what was seen. -/
  seen_le : ∀ i t, Seen polls i → times[i]? = some t → t ≤ cursor init times polls
  /-- And is one of the times that were, or where it started. -/
  attained : cursor init times polls = init ∨
    ∃ i, Seen polls i ∧ times[i]? = some (cursor init times polls)
  /-- What was not seen was not taken. -/
  unseen : ∀ i, ¬Seen polls i → polls.countP (·.takes times i) = 0
  /-- What was seen was taken once, or never will be. -/
  seen : ∀ i, Seen polls i →
    polls.countP (·.takes times i) = 1 ∧ Timely init times polls i ∨
      polls.countP (·.takes times i) = 0 ∧ ¬Timely init times polls i

variable {init now t now' : τ} {times : List τ} {polls : List (Poll τ)}

/-- The cursor does not fall. -/
theorem init_le_cursor : init ≤ cursor init times polls :=
  le_foldl_max _ _

/-- An entry that no poll has seen is timely when it is newer than the cursor. -/
theorem Inv.timely_iff (h : Inv init times polls now) {i : ℕ} (hi : ¬Seen polls i) {s : τ}
    (hs : times[i]? = some s) : Timely init times polls i ↔ cursor init times polls < s := by
  constructor
  · rintro ⟨s', hs', hinit, hnewer⟩
    obtain rfl : s' = s := Option.some.inj (hs'.symm.trans hs)
    rcases h.attained with hcursor | ⟨j, ⟨p, hp, hj⟩, hcursor⟩
    · rwa [hcursor]
    · exact hnewer p hp (not_lt.mp fun hlt => hi ⟨p, hp, hlt⟩) j hj _ hcursor
  · intro hlt
    exact ⟨s, hs, init_le_cursor.trans_lt hlt,
      fun p hp _ j hj s' hs' => (h.seen_le j s' ⟨p, hp, hj⟩ hs').trans_lt hlt⟩

/-! ## Appending -/

/-- A poll that is over takes nothing of what is appended. -/
theorem takes_append {p : Poll τ} (hp : p.stop ≤ times.length) (i : ℕ) :
    p.takes (times ++ [t]) i = p.takes times i := by
  unfold Poll.takes
  by_cases hi : i < p.stop
  · rw [List.getElem?_append_left (hi.trans_le hp)]
  · simp [hi]

/-- A new item does not move the cursor. -/
theorem cursor_append (h : ∀ p ∈ polls, p.stop ≤ times.length) :
    cursor init (times ++ [t]) polls = cursor init times polls := by
  unfold cursor
  have htaken : ∀ p ∈ polls, Poll.taken (times ++ [t]) p = Poll.taken times p := by
    intro p hp
    rw [Poll.taken, Poll.taken, List.take_append_of_le_length (h p hp)]
  rw [List.flatMap_congr htaken]

/-- Nor does it change who was timely. -/
theorem timely_append (h : ∀ p ∈ polls, p.stop ≤ times.length) {i : ℕ} (hi : i < times.length) :
    Timely init (times ++ [t]) polls i ↔ Timely init times polls i := by
  unfold Timely
  rw [List.getElem?_append_left hi]
  refine exists_congr fun s => and_congr_right fun _ => and_congr_right fun _ =>
    forall₂_congr fun p hp => forall_congr' fun _ => forall₂_congr fun j hj => ?_
  rw [List.getElem?_append_left (hj.trans_le (h p hp))]

/-- An item is stored. -/
theorem Inv.append (h : Inv init times polls now) (ht : now ≤ t) (hnow : t ≤ now') :
    Inv init (times ++ [t]) polls now' := by
  have hlt : ∀ {i}, Seen polls i → i < times.length :=
    fun ⟨p, hp, hi⟩ => hi.trans_le (h.stop_le p hp)
  have hcount : ∀ i, polls.countP (·.takes (times ++ [t]) i) = polls.countP (·.takes times i) :=
    fun i => List.countP_congr fun p hp => by rw [takes_append (h.stop_le p hp)]
  refine ⟨?_, ?_, ?_, ?_, ?_, ?_, ?_, ?_⟩
  · intro s hs
    rcases List.mem_append.mp hs with hs | hs
    · exact ((h.times_le s hs).trans ht).trans hnow
    · exact (List.mem_singleton.mp hs).trans_le hnow
  · exact fun p hp => ((h.now_le p hp).trans ht).trans hnow
  · intro p hp
    rw [List.length_append]
    exact (h.stop_le p hp).trans (Nat.le_add_right _ _)
  · intro p hp i s hi hs
    rcases Nat.lt_or_ge i times.length with hlt | hge
    · rw [List.getElem?_append_left hlt] at hs
      exact h.fresh p hp i s hi hs
    · rw [List.getElem?_append_right hge, List.getElem?_singleton] at hs
      split_ifs at hs
      obtain rfl := Option.some.inj hs
      exact (h.now_le p hp).trans ht
  · intro i s hi hs
    rw [List.getElem?_append_left (hlt hi)] at hs
    rw [cursor_append h.stop_le]
    exact h.seen_le i s hi hs
  · rw [cursor_append h.stop_le]
    refine h.attained.imp id ?_
    rintro ⟨i, hi, hs⟩
    exact ⟨i, hi, by rwa [List.getElem?_append_left (hlt hi)]⟩
  · intro i hi
    rw [hcount, h.unseen i hi]
  · intro i hi
    rw [hcount, timely_append h.stop_le (hlt hi)]
    exact h.seen i hi

/-! ## Polling -/

/-- A poll moves the cursor to the latest it took. -/
theorem cursor_poll (p : Poll τ) :
    cursor init times (polls ++ [p]) = (p.taken times).foldl max (cursor init times polls) := by
  unfold cursor
  rw [List.flatMap_append, List.foldl_append, List.flatMap_singleton]

/-- It does not move it back. -/
theorem cursor_le_poll (p : Poll τ) :
    cursor init times polls ≤ cursor init times (polls ++ [p]) := by
  rw [cursor_poll]
  exact le_foldl_max _ _

/-- How often an item was taken, with one poll more. -/
theorem countP_poll (p : Poll τ) (i : ℕ) : (polls ++ [p]).countP (·.takes times i) =
    polls.countP (·.takes times i) + if p.takes times i then 1 else 0 := by
  rw [List.countP_append, List.countP_singleton]

/-- A poll of the whole log changes nothing for the entries it finds there. -/
theorem timely_poll {p : Poll τ} (hp : p.stop = times.length) {i : ℕ} (hi : i < times.length) :
    Timely init times (polls ++ [p]) i ↔ Timely init times polls i := by
  unfold Timely
  refine exists_congr fun s => and_congr_right fun _ => and_congr_right fun _ => ?_
  rw [List.forall_mem_append, List.forall_mem_singleton]
  exact and_iff_left fun hle => absurd hle (by omega)

/-- A poll is made. -/
theorem Inv.poll (h : Inv init times polls now) (ht : now ≤ t) (hnow : t ≤ now') :
    Inv init times (polls ++ [⟨cursor init times polls, t, times.length⟩]) now' := by
  set p : Poll τ := ⟨cursor init times polls, t, times.length⟩ with hpdef
  have hseen : ∀ i, Seen (polls ++ [p]) i ↔ i < times.length := by
    intro i
    constructor
    · rintro ⟨q, hq, hi⟩
      rcases List.mem_append.mp hq with hq | hq
      · exact hi.trans_le (h.stop_le q hq)
      · obtain rfl := List.mem_singleton.mp hq
        exact hi
    · exact fun hi => ⟨p, by simp, hi⟩
  have htakes : ∀ {i s}, times[i]? = some s →
      (p.takes times i = true ↔ cursor init times polls < s) := by
    intro i s hs
    have hlt : i < times.length := (List.getElem?_eq_some_iff.mp hs).1
    have hle : s ≤ t := (h.times_le s (List.mem_of_getElem? hs)).trans ht
    rw [Poll.takes, hs, hpdef]
    simp [hlt, hle]
  have htaken : ∀ s, s ∈ times → cursor init times polls < s → s ∈ p.taken times := by
    intro s hs hlt
    rw [Poll.taken, hpdef, List.take_length, List.mem_filter]
    exact ⟨hs, by simpa [hlt] using (h.times_le s hs).trans ht⟩
  refine ⟨?_, ?_, ?_, ?_, ?_, ?_, ?_, ?_⟩
  · exact fun s hs => ((h.times_le s hs).trans ht).trans hnow
  · intro q hq
    rcases List.mem_append.mp hq with hq | hq
    · exact ((h.now_le q hq).trans ht).trans hnow
    · obtain rfl := List.mem_singleton.mp hq
      exact hnow
  · intro q hq
    rcases List.mem_append.mp hq with hq | hq
    · exact h.stop_le q hq
    · obtain rfl := List.mem_singleton.mp hq
      exact le_refl _
  · intro q hq i s hi hs
    rcases List.mem_append.mp hq with hq | hq
    · exact h.fresh q hq i s hi hs
    · obtain rfl := List.mem_singleton.mp hq
      have hlt : i < times.length := (List.getElem?_eq_some_iff.mp hs).1
      exact absurd hi (not_le.mpr hlt)
  · intro i s _ hs
    rcases le_or_gt s (cursor init times polls) with hle | hlt
    · exact hle.trans (cursor_le_poll p)
    · rw [cursor_poll]
      exact le_foldl_max_of_mem (htaken s (List.mem_of_getElem? hs) hlt) _
  · rw [cursor_poll]
    rcases foldl_max_mem (p.taken times) (cursor init times polls) with heq | hmem
    · rw [heq]
      refine h.attained.imp id ?_
      rintro ⟨i, ⟨q, hq, hi⟩, hs⟩
      exact ⟨i, ⟨q, List.mem_append_left _ hq, hi⟩, hs⟩
    · have hmem' := List.mem_of_mem_take (List.mem_filter.mp hmem).1
      obtain ⟨i, hi, hs⟩ := List.getElem_of_mem hmem'
      exact Or.inr ⟨i, (hseen i).2 hi, by rw [List.getElem?_eq_getElem hi, hs]⟩
  · intro i hi
    have hge : ¬i < times.length := fun hlt => hi ((hseen i).2 hlt)
    have hold : ¬Seen polls i := fun ⟨q, hq, hlt⟩ => hge (hlt.trans_le (h.stop_le q hq))
    have hnone : p.takes times i = false := by
      simp [Poll.takes, hpdef, hge]
    rw [countP_poll, h.unseen i hold, hnone]
    rfl
  · intro i hi
    have hlt := (hseen i).1 hi
    have hs := List.getElem?_eq_getElem hlt
    rw [countP_poll, timely_poll rfl hlt]
    by_cases hold : Seen polls i
    · have hnone : ¬p.takes times i = true := by
        rw [htakes hs]
        exact not_lt.mpr (h.seen_le i _ hold hs)
      rw [if_neg hnone, Nat.add_zero]
      exact h.seen i hold
    · rw [h.unseen i hold, Nat.zero_add, h.timely_iff hold hs]
      split_ifs with htake
      · exact Or.inl ⟨rfl, (htakes hs).1 htake⟩
      · exact Or.inr ⟨rfl, fun hlt => htake ((htakes hs).2 hlt)⟩

/-! ## Runs -/

/-- The invariant holds in every run. -/
theorem Run.inv (h : Run init times polls now) : Inv init times polls now := by
  induction h with
  | start h =>
    refine ⟨h, by simp, by simp, by simp, ?_, Or.inl rfl, by simp, ?_⟩
    · rintro i t ⟨p, hp, -⟩
      simp at hp
    · rintro i ⟨p, hp, -⟩
      simp at hp
  | append _ ht hnow ih => exact ih.append ht hnow
  | poll _ ht hnow ih => exact ih.poll ht hnow

/-- An entry older than some poll was taken exactly once if it is timely, and else never. -/
theorem Run.once_iff (h : Run init times polls now) {i : ℕ} {s : τ} (hs : times[i]? = some s)
    (hpolled : ∃ p ∈ polls, s < p.now) :
    polls.countP (·.takes times i) = 1 ↔ Timely init times polls i := by
  obtain ⟨p, hp, hlt⟩ := hpolled
  have hseen : Seen polls i := by
    refine ⟨p, hp, not_le.mp fun hle => ?_⟩
    exact absurd hlt (not_lt.mpr (h.inv.fresh p hp i s hle hs))
  rcases h.inv.seen i hseen with ⟨hcount, htimely⟩ | ⟨hcount, htimely⟩
  · exact iff_of_true hcount htimely
  · refine iff_of_false ?_ htimely
    rw [hcount]
    exact Nat.zero_ne_one

end Polling
