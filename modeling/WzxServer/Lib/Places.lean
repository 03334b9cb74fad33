import Mathlib.Data.List.Nodup
import Mathlib.Logic.Function.Basic
import Mathlib.Tactic.Common

/-!
# Things that are in one place at a time

Lists, one for each of the places where things can be. They are `Apart` when nothing is in
two places, or twice in one. Things that come from nowhere and things that leave keep it,
and so does a move, which is both.

An update of one place is the only step (`Apart.update`) : what comes to a place has to be away,
or there before.
-/

namespace Places

variable {ι α : Type}

/-- Nothing is in two places, or twice in one. -/
structure Apart (f : ι → List α) : Prop where
  nodup : ∀ p, (f p).Nodup
  disjoint : ∀ p q, p ≠ q → (f p).Disjoint (f q)

/-- `x` is in no place. -/
def Away (f : ι → List α) (x : α) : Prop :=
  ∀ p, x ∉ f p

variable {f : ι → List α} {p q : ι} {x : α}

/-- An element is at one place. -/
theorem Apart.eq_of_mem (h : Apart f) (hp : x ∈ f p) (hq : x ∈ f q) : p = q := by
  by_contra hne
  exact h.disjoint p q hne hp hq

/-- Empty places are apart. -/
theorem apart_nil : Apart fun _ : ι => ([] : List α) :=
  ⟨fun _ => List.nodup_nil, fun _ _ _ => List.disjoint_nil_left _⟩

variable [DecidableEq ι]

/-- A place may change to any list of things that were there or were away. -/
theorem Apart.update (h : Apart f) {l : List α} (hl : l.Nodup)
    (hsub : ∀ y ∈ l, y ∈ f p ∨ Away f y) : Apart (Function.update f p l) := by
  have hother : ∀ q, q ≠ p → l.Disjoint (f q) := by
    intro q hq y hy hyq
    rcases hsub y hy with hyp | hyp
    · exact hq (h.eq_of_mem hyq hyp)
    · exact hyp q hyq
  constructor
  · intro q
    rcases eq_or_ne q p with rfl | hq
    · rwa [Function.update_self]
    · rw [Function.update_of_ne hq]
      exact h.nodup q
  · intro q q' hne
    rcases eq_or_ne q p with rfl | hq
    · rw [Function.update_self, Function.update_of_ne (Ne.symm hne)]
      exact hother q' (Ne.symm hne)
    · rw [Function.update_of_ne hq]
      rcases eq_or_ne q' p with rfl | hq'
      · rw [Function.update_self]
        exact fun y hy hyl => hother q hq hyl hy
      · rw [Function.update_of_ne hq']
        exact h.disjoint q q' hne

/-- Something that is away comes to the end of a place. -/
theorem Apart.push (h : Apart f) (hx : Away f x) (p : ι) :
    Apart (Function.update f p (f p ++ [x])) := by
  refine h.update ?_ ?_
  · rw [List.nodup_append]
    refine ⟨h.nodup p, List.nodup_singleton x, ?_⟩
    rintro y hy z hz rfl
    exact hx p (List.mem_singleton.mp hz ▸ hy)
  · intro y hy
    rcases List.mem_append.mp hy with hy | hy
    · exact Or.inl hy
    · exact Or.inr (List.mem_singleton.mp hy ▸ hx)

/-- The first of a place leaves, and is away. -/
theorem Apart.pop (h : Apart f) {rest : List α} (hp : f p = x :: rest) :
    Apart (Function.update f p rest) ∧ Away (Function.update f p rest) x := by
  have hnodup := List.nodup_cons.mp (hp ▸ h.nodup p)
  refine ⟨h.update hnodup.2 fun y hy => Or.inl (hp ▸ List.mem_cons_of_mem x hy), fun q hq => ?_⟩
  rcases eq_or_ne q p with rfl | hne
  · rw [Function.update_self] at hq
    exact hnodup.1 hq
  · rw [Function.update_of_ne hne] at hq
    exact hne (h.eq_of_mem hq (hp ▸ List.mem_cons_self))

/-- What is away stays away from others. -/
theorem Away.push (hx : Away f x) {y : α} (hne : x ≠ y) (p : ι) :
    Away (Function.update f p (f p ++ [y])) x := by
  intro q hq
  rcases eq_or_ne q p with rfl | hqp
  · rw [Function.update_self, List.mem_append, List.mem_singleton] at hq
    exact hq.elim (hx q) hne
  · rw [Function.update_of_ne hqp] at hq
    exact hx q hq

end Places
