import Mathlib.Data.List.Basic

/-!
# Deadlines

What waits for a deadline, in the order in which it began to wait. `Deadlines.expired` is what a
reading of the clock ends, the earliest deadline first and in the order of arrival where deadlines
are the same.

A calendar has a day for each deadline and goes through the days in order. By `days_eq_expired`
it ends the same waits in the same order, when all deadlines are on its days.

Both lists are in order of the deadlines and agree on each single one, and there is only one such
list (`eq_of_pairwise`).
-/

namespace Deadlines

variable {α : Type}

/-- The deadlines in order. -/
def before (p p' : α × ℕ) : Bool :=
  p.2 ≤ p'.2

/-- What is over at `now`. -/
def expired (now : ℕ) (l : List (α × ℕ)) : List (α × ℕ) :=
  (l.filter fun p => p.2 ≤ now).mergeSort before

/-- The days from `a` on, one after the other. -/
def days (a k : ℕ) (l : List (α × ℕ)) : List (α × ℕ) :=
  (List.range k).flatMap fun d => l.filter fun p => p.2 = a + d

theorem before_trans (p p' p'' : α × ℕ) (h : before p p') (h' : before p' p'') :
    before p p'' := by
  simp only [before, decide_eq_true_eq] at *
  omega

theorem before_total (p p' : α × ℕ) : (before p p' || before p' p) = true := by
  simp only [before, Bool.or_eq_true, decide_eq_true_eq]
  omega

/-- Two lists in order of the deadlines that agree on each deadline are the same. -/
theorem eq_of_pairwise : ∀ {l l' : List (α × ℕ)}, l.Pairwise (fun p p' => before p p') →
    l'.Pairwise (fun p p' => before p p') →
      (∀ v, (l.filter fun p => p.2 = v) = l'.filter fun p => p.2 = v) → l = l'
  | [], l', _, _, h => by
    rcases l' with _ | ⟨p, l'⟩
    · rfl
    · have hp := h p.2
      simp at hp
  | p :: l, [], _, _, h => by
    have hp := h p.2
    simp at hp
  | p :: l, p' :: l', hl, hl', h => by
    rw [List.pairwise_cons] at hl hl'
    have hmem : p ∈ (p' :: l').filter fun r => r.2 = p.2 := by
      rw [← h p.2]
      simp
    have hmem' : p' ∈ (p :: l).filter fun r => r.2 = p'.2 := by
      rw [h p'.2]
      simp
    have hle : p'.2 ≤ p.2 := by
      rcases List.mem_cons.mp (List.mem_filter.mp hmem).1 with rfl | hin
      · exact Nat.le_refl _
      · simpa [before] using hl'.1 p hin
    have hle' : p.2 ≤ p'.2 := by
      rcases List.mem_cons.mp (List.mem_filter.mp hmem').1 with rfl | hin
      · exact Nat.le_refl _
      · simpa [before] using hl.1 p' hin
    have hsame : p.2 = p'.2 := by omega
    have hhead := h p.2
    rw [List.filter_cons_of_pos (by simp), List.filter_cons_of_pos (by simp [hsame])] at hhead
    obtain ⟨rfl, -⟩ := List.cons_eq_cons.mp hhead
    rw [eq_of_pairwise hl.2 hl'.2 fun v => ?_]
    have hv := h v
    rw [List.filter_cons, List.filter_cons] at hv
    split_ifs at hv
    · exact (List.cons_eq_cons.mp hv).2
    · exact hv

/-- Sorting keeps the order of arrival. -/
theorem filter_mergeSort (l : List (α × ℕ)) (v : ℕ) :
    ((l.mergeSort before).filter fun p => p.2 = v) = l.filter fun p => p.2 = v := by
  have hpair : (l.filter fun p => p.2 = v).Pairwise fun p p' => before p p' := by
    refine List.pairwise_of_forall_mem_list fun p hp p' hp' => ?_
    have h := (List.mem_filter.mp hp).2
    have h' := (List.mem_filter.mp hp').2
    simp only [decide_eq_true_eq] at h h'
    simp only [before, decide_eq_true_eq]
    omega
  have hsub := List.sublist_mergeSort before_trans before_total hpair List.filter_sublist
  have hsub' := hsub.filter fun p => decide (p.2 = v)
  rw [List.filter_filter] at hsub'
  simp only [Bool.and_self] at hsub'
  refine (hsub'.eq_of_length ?_).symm
  exact ((List.mergeSort_perm l before).filter _).length_eq.symm

/-- What is due on `k` days from `a` on. -/
theorem mem_days {a k : ℕ} {l : List (α × ℕ)} {p : α × ℕ} :
    p ∈ days a k l ↔ p ∈ l ∧ a ≤ p.2 ∧ p.2 < a + k := by
  simp only [days, List.mem_flatMap, List.mem_range, List.mem_filter, decide_eq_true_eq]
  constructor
  · rintro ⟨d, hd, hp, hv⟩
    exact ⟨hp, by omega, by omega⟩
  · rintro ⟨hp, hle, hlt⟩
    exact ⟨p.2 - a, by omega, hp, by omega⟩

/-- What is due on one of them, in the order of the list. -/
theorem filter_days (a k v : ℕ) (l : List (α × ℕ)) :
    ((days a k l).filter fun p => p.2 = v) =
      if a ≤ v ∧ v < a + k then l.filter fun p => p.2 = v else [] := by
  induction k with
  | zero =>
    rw [if_neg (by omega)]
    rfl
  | succ k ih =>
    rw [days, List.range_succ, List.flatMap_append, List.filter_append, ← days, ih,
      List.flatMap_singleton, List.filter_filter]
    rcases Nat.lt_trichotomy v (a + k) with hlt | rfl | hgt
    · have hnil : (l.filter fun p => decide (p.2 = v) && decide (p.2 = a + k)) = [] := by
        rw [List.filter_eq_nil_iff]
        intro p _
        simp only [Bool.and_eq_true, decide_eq_true_eq]
        omega
      rw [hnil, List.append_nil]
      by_cases hle : a ≤ v
      · rw [if_pos ⟨hle, hlt⟩, if_pos ⟨hle, by omega⟩]
      · rw [if_neg (fun h => hle h.1), if_neg fun h => hle h.1]
    · rw [if_neg (by omega), if_pos (by omega), List.nil_append]
      simp only [Bool.and_self]
    · have hnil : (l.filter fun p => decide (p.2 = v) && decide (p.2 = a + k)) = [] := by
        rw [List.filter_eq_nil_iff]
        intro p _
        simp only [Bool.and_eq_true, decide_eq_true_eq]
        omega
      rw [hnil, if_neg (by omega), if_neg (by omega)]
      rfl

/-- They are in the order of their days. -/
theorem pairwise_days (a k : ℕ) (l : List (α × ℕ)) :
    (days a k l).Pairwise fun p p' => before p p' := by
  rw [days, List.pairwise_flatMap]
  refine ⟨fun d _ => ?_, ?_⟩
  · refine List.pairwise_of_forall_mem_list fun p hp p' hp' => ?_
    have h := (List.mem_filter.mp hp).2
    have h' := (List.mem_filter.mp hp').2
    simp only [decide_eq_true_eq] at h h'
    simp only [before, decide_eq_true_eq]
    omega
  · refine List.pairwise_lt_range.imp fun {d d'} hlt p hp p' hp' => ?_
    have h := (List.mem_filter.mp hp).2
    have h' := (List.mem_filter.mp hp').2
    simp only [decide_eq_true_eq] at h h'
    simp only [before, decide_eq_true_eq]
    omega

/-- The days up to `now` are what is over at `now`. -/
theorem days_eq_expired {a k now : ℕ} {l : List (α × ℕ)}
    (hl : ∀ p ∈ l, a ≤ p.2 ∧ (p.2 < a + k ↔ p.2 ≤ now)) : days a k l = expired now l := by
  refine eq_of_pairwise (pairwise_days a k l)
    (List.pairwise_mergeSort before_trans before_total _) fun v => ?_
  rw [filter_days, expired, filter_mergeSort, List.filter_filter]
  split_ifs with hv
  · refine List.filter_congr fun p hp => ?_
    have := hl p hp
    rcases eq_or_ne p.2 v with rfl | hne
    · simp [this.2.mp hv.2]
    · simp [hne]
  · rw [eq_comm, List.filter_eq_nil_iff]
    intro p hp
    have := hl p hp
    simp only [Bool.and_eq_true, decide_eq_true_eq]
    omega

/-- What is over. -/
theorem mem_expired {now : ℕ} {l : List (α × ℕ)} {p : α × ℕ} :
    p ∈ expired now l ↔ p ∈ l ∧ p.2 ≤ now := by
  rw [expired, List.mem_mergeSort, List.mem_filter, decide_eq_true_iff]

end Deadlines
