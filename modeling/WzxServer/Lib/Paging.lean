import Mathlib.Data.List.Perm.Subperm
import Mathlib.Order.Lattice
import Mathlib.Tactic.Common

/-!
# Paging with a strict cursor

A client asks for the `n` items with the greatest keys below a cursor, moves the cursor to the
smallest key it was given, and asks again, until a page is empty. Among equal keys any order
will do.

No item is given twice (`Paging.subperm`). Items are left out where a page ends between equal
keys, and there only : `Paging.perm_iff` says that all items are given exactly if no key lies
across a multiple of `n`, in the order of the keys.

The induction is on the pages, with what is below the cursor as the rest. A page that ends between
equal keys loses the others of them for good (`Turn.straddles`), and one that does not leaves the
same question for the rest (`Turn.straddles_iff`).
-/

variable {α K : Type} [LinearOrder K] (key : α → K) (n : ℕ) (l : List α)

namespace Paging

/-- The items with a key below `x`. -/
def lower (x : K) : List α :=
  l.filter fun a => key a < x

/-- `p` has the first items below `x`, all of them or `n`. -/
def IsPage (x : K) (p : List α) : Prop :=
  ∃ r, (p ++ r).Perm (lower key l x) ∧ (∀ a ∈ p, ∀ b ∈ r, key b ≤ key a) ∧ p.length ≤ n ∧
    (r ≠ [] → p.length = n)

/-- The smallest key on a page. -/
def cursor (x : K) : List α → K
  | [] => x
  | a :: p => min (key a) (cursor x p)

/-- The client is given `q`, page by page, when it starts with the cursor `x`. -/
inductive Given (page : K → List α) : K → List α → Prop
  /-- An empty page ends it. -/
  | last {x : K} (h : page x = []) : Given page x []
  /-- A page, and what comes from the smallest key on it. -/
  | next {x : K} {q : List α} (h : page x ≠ []) (hq : Given page (cursor key x (page x)) q) :
      Given page x (page x ++ q)

/-- Of the items below `x`, those with the key `y` come on both sides of a multiple of `n`. -/
def Straddles (x y : K) : Prop :=
  ∃ k, (lower key l x).countP (fun a => y < key a) < n * k ∧
    n * k < (lower key l x).countP fun a => y ≤ key a

variable {key n l} {x y : K} {p q : List α}

/-- What is below a key. -/
theorem mem_lower {a : α} : a ∈ lower key l x ↔ a ∈ l ∧ key a < x := by
  simp [lower]

/-- The cursor never rises. -/
theorem cursor_le_self : ∀ {p : List α}, cursor key x p ≤ x
  | [] => le_rfl
  | _ :: _ => (min_le_right _ _).trans cursor_le_self

/-- It is at most every key of the page. -/
theorem cursor_le {a : α} : ∀ {p : List α}, a ∈ p → cursor key x p ≤ key a
  | b :: p, h => by
    rcases List.mem_cons.mp h with rfl | h
    · exact min_le_left _ _
    · exact (min_le_right _ _).trans (cursor_le h)

theorem cursor_map {β : Type} (f : β → α) : ∀ {p : List β},
    cursor key x (p.map f) = cursor (key ∘ f) x p
  | [] => rfl
  | b :: _ => congrArg (min (key (f b))) (cursor_map f)

/-- Below a bound of all keys are all items. -/
theorem lower_of_forall (h : ∀ a ∈ l, key a < x) : lower key l x = l :=
  List.filter_eq_self.2 fun a ha => decide_eq_true (h a ha)

/-- The cursor moves to a key that was given. -/
theorem exists_cursor : ∀ {p : List α}, p ≠ [] → (∀ a ∈ p, key a < x) →
    ∃ a ∈ p, key a = cursor key x p
  | [a], _, hlt => ⟨a, by simp, (min_eq_left (hlt a (by simp)).le).symm⟩
  | a :: b :: p, _, hlt => by
    obtain ⟨c, hc, hkey⟩ := exists_cursor (List.cons_ne_nil b p)
      fun c hc => hlt c (List.mem_cons_of_mem _ hc)
    rcases le_total (key a) (cursor key x (b :: p)) with hle | hle
    · exact ⟨a, by simp, (min_eq_left hle).symm⟩
    · exact ⟨c, List.mem_cons_of_mem _ hc, hkey.trans (min_eq_right hle).symm⟩

/-- The first `n` of all items below `x`, in order. -/
theorem isPage_take {s : List α} (hs : s.Perm (lower key l x))
    (hsorted : s.Pairwise fun a b => key b ≤ key a) : IsPage key n l x (s.take n) := by
  refine ⟨s.drop n, by rwa [List.take_append_drop], fun a ha b hb => ?_, s.length_take_le n,
    fun hrest => ?_⟩
  · rw [← List.take_append_drop n s, List.pairwise_append] at hsorted
    exact hsorted.2.2 a ha b hb
  · rw [List.length_take, min_eq_left]
    by_contra hlt
    exact hrest (List.drop_eq_nil_of_le (by omega))

/-! ## One page -/

/-- After a page, the items with its smallest key that are not on it are left out. -/
structure Turn (key : α → K) (n : ℕ) (l : List α) (x : K) (p left : List α) : Prop where
  /-- What was below the cursor is on the page, left out, or below the new cursor. -/
  perm : (p ++ (left ++ lower key l (cursor key x p))).Perm (lower key l x)
  /-- Only items with the smallest key of the page are left out. -/
  key_left : ∀ a ∈ left, key a = cursor key x p
  length_le : p.length ≤ n
  /-- A page that is not full is the last. -/
  full : left ++ lower key l (cursor key x p) ≠ [] → p.length = n

/-- A page that is not empty is a turn. -/
theorem IsPage.exists_turn (h : IsPage key n l x p) (hp : p ≠ []) :
    ∃ left, Turn key n l x p left := by
  obtain ⟨r, hperm, hle, hlength, hfull⟩ := h
  have hlt : ∀ a ∈ p, key a < x := fun a ha =>
    (mem_lower.1 (hperm.mem_iff.1 (List.mem_append_left _ ha))).2
  obtain ⟨c, hc, hkey⟩ := exists_cursor hp hlt
  have hlower : (r.filter fun a => key a < cursor key x p).Perm
      (lower key l (cursor key x p)) := by
    have hfilter := hperm.filter fun a => key a < cursor key x p
    have hnone : p.filter (fun a => key a < cursor key x p) = [] := by
      simpa using fun a ha => cursor_le ha
    rw [List.filter_append, hnone, List.nil_append, lower, List.filter_filter] at hfilter
    refine hfilter.trans (List.Perm.of_eq (List.filter_congr fun a _ => ?_))
    have hlt' : key a < cursor key x p → key a < x := fun ha => ha.trans_le cursor_le_self
    simpa using hlt'
  have hsplit : ((r.filter fun a => key a = cursor key x p) ++
      r.filter fun a => key a < cursor key x p).Perm r := by
    have hne : r.filter (fun a => key a < cursor key x p) =
        r.filter fun a => !decide (key a = cursor key x p) := by
      refine List.filter_congr fun a ha => ?_
      have hle' : key a ≤ cursor key x p := hkey ▸ hle c hc a ha
      rw [← decide_not, decide_eq_decide]
      exact hle'.lt_iff_ne
    rw [hne]
    exact List.filter_append_perm _ r
  have hrest : ((r.filter fun a => key a = cursor key x p) ++
      lower key l (cursor key x p)).Perm r :=
    ((List.Perm.refl _).append hlower.symm).trans hsplit
  refine ⟨_, (hrest.append_left p).trans hperm, by simp, hlength, fun hne => hfull ?_⟩
  rintro rfl
  exact hne hrest.eq_nil

/-- What is below the new cursor, is less. -/
theorem Turn.length_lt {left : List α} (h : Turn key n l x p left) (hp : p ≠ []) :
    (lower key l (cursor key x p)).length < (lower key l x).length := by
  have hlength := h.perm.length_eq
  have hpos := List.length_pos_of_ne_nil hp
  simp only [List.length_append] at hlength
  omega

/-! ## What lies across a page -/

/-- Nothing lies across the end of the last page. -/
theorem not_straddles_of_length_le (h : (lower key l x).length ≤ n) :
    ¬Straddles key n l x y := by
  rintro ⟨k, hlow, hhigh⟩
  have hle := List.countP_le_length (p := fun a => decide (y ≤ key a)) (l := lower key l x)
  have hk : k < 1 := by
    by_contra hk
    have := Nat.mul_le_mul_left n (not_lt.mp hk)
    omega
  obtain rfl : k = 0 := by omega
  simp at hlow

/-- Where a page leaves nothing out, what lies across a later page lies below the cursor. -/
theorem Turn.straddles_iff (h : Turn key n l x p []) :
    Straddles key n l x y ↔ Straddles key n l (cursor key x p) y := by
  have hperm : (p ++ lower key l (cursor key x p)).Perm (lower key l x) := h.perm
  have hcount : ∀ f : α → Bool, (lower key l x).countP f =
      p.countP f + (lower key l (cursor key x p)).countP f := fun f => by
    rw [← hperm.countP_eq, List.countP_append]
  rcases lt_or_ge y (cursor key x p) with hy | hy
  · have hlow : p.countP (fun a => decide (y < key a)) = p.length := by
      rw [List.countP_eq_length]
      exact fun a ha => decide_eq_true (hy.trans_le (cursor_le ha))
    have hhigh : p.countP (fun a => decide (y ≤ key a)) = p.length := by
      rw [List.countP_eq_length]
      exact fun a ha => decide_eq_true (hy.le.trans (cursor_le ha))
    by_cases hnil : lower key l (cursor key x p) = []
    · refine iff_of_false (not_straddles_of_length_le ?_) (not_straddles_of_length_le ?_)
      · rw [← hperm.length_eq, hnil, List.append_nil]
        exact h.length_le
      · simp [hnil]
    · have hfull := h.full hnil
      simp only [Straddles, hcount, hlow, hhigh, hfull]
      constructor
      · rintro ⟨_ | k, hk, hk'⟩
        · simp at hk
        · rw [Nat.mul_succ] at hk hk'
          exact ⟨k, by omega, by omega⟩
      · rintro ⟨k, hk, hk'⟩
        refine ⟨k + 1, ?_, ?_⟩ <;> rw [Nat.mul_succ] <;> omega
  · have hnone : (lower key l (cursor key x p)).countP (fun a => decide (y ≤ key a)) = 0 := by
      rw [List.countP_eq_zero]
      exact fun a ha => by simpa using (mem_lower.1 ha).2.trans_le hy
    refine iff_of_false ?_ ?_
    · rintro ⟨k, hlow, hhigh⟩
      rw [hcount, hnone] at hhigh
      have hle := List.countP_le_length (p := fun a => decide (y ≤ key a)) (l := p)
      have hlen := h.length_le
      have hk : k < 1 := by
        by_contra hk
        have := Nat.mul_le_mul_left n (not_lt.mp hk)
        omega
      obtain rfl : k = 0 := by omega
      simp at hlow
    · rintro ⟨k, -, hhigh⟩
      omega

/-- Where a page leaves something out, its smallest key lies across the end of the page. -/
theorem Turn.straddles {left : List α} (h : Turn key n l x p left) (hp : p ≠ [])
    (hleft : left ≠ []) : Straddles key n l x (cursor key x p) := by
  have hlt : ∀ a ∈ p, key a < x := fun a ha =>
    (mem_lower.1 (h.perm.mem_iff.1 (List.mem_append_left _ ha))).2
  obtain ⟨c, hc, hkey⟩ := exists_cursor hp hlt
  have hfull : p.length = n := h.full (by simp [hleft])
  have hlow : p.countP (fun a => decide (cursor key x p < key a)) < n := by
    rw [← hfull]
    refine lt_of_le_of_ne List.countP_le_length fun heq => ?_
    rw [List.countP_eq_length] at heq
    exact (of_decide_eq_true (heq c hc)).ne hkey.symm
  have hhigh : p.countP (fun a => decide (cursor key x p ≤ key a)) = n := by
    rw [← hfull, List.countP_eq_length]
    exact fun a ha => decide_eq_true (cursor_le ha)
  have hrest : ∀ a ∈ left ++ lower key l (cursor key x p), key a ≤ cursor key x p := by
    intro a ha
    rcases List.mem_append.mp ha with ha | ha
    · exact (h.key_left a ha).le
    · exact (mem_lower.1 ha).2.le
  have hlow' : (left ++ lower key l (cursor key x p)).countP
      (fun a => decide (cursor key x p < key a)) = 0 := by
    rw [List.countP_eq_zero]
    exact fun a ha => by simpa using hrest a ha
  have hhigh' : 0 < left.countP fun a => decide (cursor key x p ≤ key a) := by
    rw [List.countP_pos_iff]
    obtain ⟨a, ha⟩ := List.exists_mem_of_ne_nil _ hleft
    exact ⟨a, ha, decide_eq_true (h.key_left a ha).ge⟩
  refine ⟨1, ?_, ?_⟩
  · rw [← h.perm.countP_eq, List.countP_append, hlow']
    omega
  · rw [← h.perm.countP_eq, List.countP_append, List.countP_append]
    omega

/-! ## All pages -/

variable {page : K → List α}

/-- An empty page says that nothing is left. -/
theorem IsPage.lower_eq_nil (h : IsPage key n l x []) (hn : 0 < n) : lower key l x = [] := by
  obtain ⟨r, hperm, -, -, hfull⟩ := h
  obtain rfl : r = [] := by
    by_contra hr
    exact hn.ne (hfull hr)
  exact hperm.nil_eq.symm

/-- No item is given more often than it is there. -/
theorem Given.subperm (hpage : ∀ x, IsPage key n l x (page x)) (h : Given key page x q) :
    q.Subperm (lower key l x) := by
  induction h with
  | last _ => exact List.nil_subperm
  | next hp _ ih =>
    obtain ⟨left, hturn⟩ := (hpage _).exists_turn hp
    refine List.Subperm.trans ?_ hturn.perm.subperm
    exact (List.subperm_append_left _).2 (ih.trans (List.sublist_append_right _ _).subperm)

/-- All items are given exactly if no key lies across a multiple of the size of a page. -/
theorem Given.perm_iff (hn : 0 < n) (hpage : ∀ x, IsPage key n l x (page x))
    (h : Given key page x q) : q.Perm (lower key l x) ↔ ∀ y, ¬Straddles key n l x y := by
  induction h with
  | @last x h =>
    have hnil := (h ▸ hpage x).lower_eq_nil hn
    exact iff_of_true (by rw [hnil]) fun y => not_straddles_of_length_le (by simp [hnil])
  | @next x q hp hq ih =>
    obtain ⟨left, hturn⟩ := (hpage x).exists_turn hp
    rcases eq_or_ne left [] with rfl | hleft
    · have hperm : (page x ++ lower key l (cursor key x (page x))).Perm (lower key l x) :=
        hturn.perm
      rw [← hperm.congr_right, List.perm_append_left_iff, ih]
      exact forall_congr' fun y => not_congr hturn.straddles_iff.symm
    · refine iff_of_false (fun hperm => ?_) fun hnot => hnot _ (hturn.straddles hp hleft)
      have hlength := hperm.length_eq.trans hturn.perm.length_eq.symm
      have hle := (hq.subperm hpage).length_le
      have hpos := List.length_pos_of_ne_nil hleft
      simp only [List.length_append] at hlength
      omega

/-- The client comes to an empty page. -/
theorem exists_given (hpage : ∀ x, IsPage key n l x (page x)) (x : K) :
    ∃ q, Given key page x q := by
  induction hk : (lower key l x).length using Nat.strong_induction_on generalizing x with
  | _ k ih =>
    by_cases hp : page x = []
    · exact ⟨[], .last hp⟩
    · obtain ⟨left, hturn⟩ := (hpage x).exists_turn hp
      obtain ⟨q, hq⟩ := ih _ (hk ▸ hturn.length_lt hp) _ rfl
      exact ⟨_, .next hp hq⟩

end Paging
