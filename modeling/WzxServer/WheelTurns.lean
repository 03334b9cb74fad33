import WzxServer.TimeWheel
import WzxServer.Lib.Turns
import Mathlib.Data.Nat.ModEq

/-!
# Where the time wheel keeps its nodes

The clock of the wheel is `now`, the number of ticks so far, and `m_time` is `now` modulo
`2 ^ 32`. `add_node` puts what is due at `d` into a list (`linkListOf_placed`). When the clock
moves on, `timer_shift` moves the list of which `moved` is true, if there is one
(`timerShift_spec`). Most lists are moved in time (`Waits`), but the first lists of the lower
levels are never moved (`Stuck`).

The source finds the list by shifting `m_time` and masking it, level by level; `AtLevel` is what
its variables are at each test of that loop. Outside of this module only `Waits` and `Stuck` are
used : what waits comes down by a level or becomes near when its list is moved
(`Waits.of_moved`), and what is not moved can wait for another tick (`Waits.succ`).
-/

namespace WzxServer

/-! ## 32-bit numbers -/

theorem toNat_and_255 (x : UInt32) : (x &&& 255).toNat = x.toNat % 256 := by
  rw [UInt32.toNat_and]
  exact Nat.and_two_pow_sub_one_eq_mod x.toNat 8

theorem toNat_and_63 (x : UInt32) : (x &&& 63).toNat = x.toNat % 64 := by
  rw [UInt32.toNat_and]
  exact Nat.and_two_pow_sub_one_eq_mod x.toNat 6

theorem toNat_succ {x : UInt32} {n : ℕ} (h : x.toNat = n % 2 ^ 32) :
    (x + 1).toNat = (n + 1) % 2 ^ 32 := by
  have hone : (1 : UInt32).toNat = 1 := rfl
  rw [UInt32.toNat_add, h, hone]
  omega

/-- A delay that is positive as an `int`. -/
theorem toNat_toUInt32 {x : Int32} (h : 0 < x) :
    x.toUInt32.toNat = x.toInt.toNat ∧ 0 < x.toInt.toNat ∧ x.toInt.toNat < 2 ^ 31 := by
  rw [Int32.lt_iff_toInt_lt] at h
  have hpos : 0 < x.toInt := by simpa using h
  have hcond := BitVec.toInt_eq_toNat_cond x.toBitVec
  have hlt : x.toBitVec.toNat < 2 ^ 32 := x.toBitVec.isLt
  have hint : x.toBitVec.toInt = x.toInt := rfl
  have hnat : x.toUInt32.toNat = x.toBitVec.toNat := rfl
  rw [hint] at hcond
  split at hcond <;> omega

/-! ## Levels -/

namespace TimeWheel

/-- How long the clock stays at a list of a level. -/
def span (level : ℕ) : ℕ :=
  2 ^ (8 + 6 * level)

theorem span_pos (k : ℕ) : 0 < span k :=
  Nat.two_pow_pos _

theorem span_succ (k : ℕ) : span (k + 1) = 64 * span k := by
  rw [span, span, Nat.mul_succ, ← Nat.add_assoc, Nat.pow_add, Nat.mul_comm]

theorem span_dvd {j k : ℕ} (h : j ≤ k) : span j ∣ span k :=
  pow_dvd_pow 2 (by omega)

theorem turn_dvd {j k : ℕ} (h : j < k) : 64 * span j ∣ span k := by
  rw [← span_succ]
  exact span_dvd h

theorem turn_dvd_clock {k : ℕ} (h : k < 4) : 64 * span k ∣ 2 ^ 32 := by
  rw [← span_succ]
  exact pow_dvd_pow 2 (by omega)

/-- Where `add_node` puts what is due at `d`, with `now` the number of ticks so far. -/
def Placed (now d : ℕ) : LinkList → Prop
  | .near i => i = d % 256 ∧ now ≤ d ∧ d < now + 256
  | .t k i => k < 4 ∧ i = d / span k % 64 ∧ now + span k ≤ d ∧ d < now + 64 * span k

theorem placed_t {k i now d : ℕ} {s time : UInt32} (hk : k < 4) (hs : s.toNat = 8 + 6 * k)
    (ht : time.toNat = d % 2 ^ 32) (hi : ((time >>> s) &&& 63).toNat = i)
    (hlow : now + span k ≤ d) (hhigh : d < now + 64 * span k) : Placed now d (.t k i) := by
  refine ⟨hk, ?_, hlow, hhigh⟩
  have hshift : s.toNat % 32 = 8 + 6 * k := by omega
  rw [← hi, toNat_and_63, UInt32.toNat_shiftRight, hshift, Nat.shiftRight_eq_div_pow, ht]
  exact Turns.place_mod (turn_dvd_clock hk)

theorem linkListOf_placed {time current : UInt32} {now d : ℕ} (ht : time.toNat = d % 2 ^ 32)
    (hc : current.toNat = now % 2 ^ 32) (hle : now ≤ d) (hlt : d < now + 2 ^ 32) :
    Placed now d (linkListOf time current) := by
  have hmsec : (time - current).toNat = d - now := by
    rw [UInt32.toNat_sub]
    omega
  have hless : ∀ m : UInt32, time - current < m ↔ d - now < m.toNat := by
    intro m
    rw [UInt32.lt_iff_toNat_lt, hmsec]
  have h8 : (256 : UInt32).toNat = span 0 := rfl
  have h14 : ((1 : UInt32) <<< 14).toNat = span 1 := rfl
  have h20 : ((1 : UInt32) <<< 20).toNat = span 2 := rfl
  have h26 : ((1 : UInt32) <<< 26).toNat = span 3 := rfl
  have h1 : span 1 = 64 * span 0 := span_succ 0
  have h2 : span 2 = 64 * span 1 := span_succ 1
  have h3 : span 3 = 64 * span 2 := span_succ 2
  have h4 : 64 * span 3 = 2 ^ 32 := rfl
  rw [linkListOf]
  simp only [hless, h8, h14, h20, h26]
  split_ifs
  · have hnear : span 0 = 256 := rfl
    refine ⟨?_, hle, by omega⟩
    rw [toNat_and_255, ht]
    omega
  · exact placed_t (by omega) rfl ht rfl (by omega) (by omega)
  · exact placed_t (by omega) rfl ht rfl (by omega) (by omega)
  · exact placed_t (by omega) rfl ht rfl (by omega) (by omega)
  · exact placed_t (by omega) rfl ht rfl (by omega) (by omega)

/-! ## The list that is moved -/

/-- The list that `timer_shift` moves when the clock comes to `now`. -/
def moved (now : ℕ) : LinkList → Prop
  | .near _ => False
  | .t k i => k < 4 ∧ span k ∣ now ∧ i = now / span k % 64 ∧ (i ≠ 0 ∨ k = 3)

/-- At most one list is moved. -/
theorem moved_unique {now : ℕ} : ∀ {l l' : LinkList}, moved now l → moved now l' → l = l'
  | .t k i, .t k' i', ⟨hk, hdvd, hi, h0⟩, ⟨hk', hdvd', hi', h0'⟩ => by
    have hlow : ∀ {a b : ℕ}, a < b → span b ∣ now → now / span a % 64 = 0 := by
      intro a b hab hb
      obtain ⟨q, rfl⟩ := (turn_dvd hab).trans hb
      rw [Nat.mul_comm 64, Nat.mul_assoc, Nat.mul_div_cancel_left _ (span_pos a)]
      exact Nat.mul_mod_right 64 q
    rcases Nat.lt_trichotomy k k' with h | rfl | h
    · exact absurd (hi.trans (hlow h hdvd')) (h0.resolve_right (by omega))
    · rw [hi, hi']
    · exact absurd (hi'.trans (hlow h hdvd)) (h0'.resolve_right (by omega))

/-- What `timer_shift` does after the clock came to `now` : it moves the list, if there is one. -/
def Shifts (now : ℕ) (w : TimeWheel) (res : Option TimeWheel) : Prop :=
  (∃ k i, moved now (.t k i) ∧ res = w.moveList k i) ∨ (∀ l, ¬moved now l) ∧ res = some w

theorem span_succ_dvd {k now : ℕ} (hdvd : span k ∣ now) (hplace : now / span k % 64 = 0) :
    span (k + 1) ∣ now := by
  obtain ⟨q, rfl⟩ := hdvd
  rw [Nat.mul_div_cancel_left q (span_pos k)] at hplace
  rw [span_succ, Nat.mul_comm 64]
  exact Nat.mul_dvd_mul_left _ (Nat.dvd_of_mod_eq_zero hplace)

theorem and_mask {ct mask : UInt32} {now k : ℕ} (hk : k < 4) (hct : ct.toNat = now % 2 ^ 32)
    (hmask : mask.toNat = span k) : ct &&& (mask - 1) = 0 ↔ span k ∣ now := by
  have hpos := span_pos k
  have hpred : (mask - 1).toNat = span k - 1 := by
    have hone : (1 : UInt32).toNat = 1 := rfl
    have hlt := mask.toNat_lt
    rw [UInt32.toNat_sub, hmask, hone]
    omega
  have hand : (ct &&& (mask - 1)).toNat = now % span k := by
    rw [UInt32.toNat_and, hpred, hct, span, Nat.and_two_pow_sub_one_eq_mod]
    exact Nat.mod_mod_of_dvd _ (pow_dvd_pow 2 (by omega))
  rw [← UInt32.toNat_inj, hand, Nat.dvd_iff_mod_eq_zero]
  rfl

/-- The variables of the loop of `timer_shift` at its test in turn `i`. -/
structure AtLevel (now : ℕ) (ct mask time : UInt32) (i : ℕ) : Prop where
  level : i < 4
  /-- `mask` is the stay of the clock at a list of level `i`. -/
  mask : mask.toNat = span i
  /-- `time` counts these stays. -/
  time : time.toNat = ct.toNat / span i
  /-- The clock is at the first lists of the levels below. -/
  zero : ∀ j < i, now / span j % 64 = 0

theorem atLevel_zero {now : ℕ} {ct : UInt32} : AtLevel now ct 256 (ct >>> 8) 0 := by
  refine ⟨by omega, rfl, ?_, fun j hj => absurd hj (Nat.not_lt_zero j)⟩
  rw [UInt32.toNat_shiftRight, Nat.shiftRight_eq_div_pow]
  rfl

section Levels

variable {now i : ℕ} {ct mask time : UInt32} (hct : ct.toNat = now % 2 ^ 32)

include hct

theorem AtLevel.place (h : AtLevel now ct mask time i) :
    (time &&& 63).toNat = now / span i % 64 := by
  rw [toNat_and_63, h.time, hct]
  exact Turns.place_mod (turn_dvd_clock h.level)

/-- Another turn : there is one, as `ct` is not zero. -/
theorem AtLevel.next (hne : ct ≠ 0) (h : AtLevel now ct mask time i)
    (hmask : ct &&& (mask - 1) = 0) (hidx : (time &&& 63).toNat = 0) :
    AtLevel now ct (mask <<< 6) (time >>> 6) (i + 1) := by
  have hdvd : span i ∣ now := (and_mask h.level hct h.mask).mp hmask
  have hplace : now / span i % 64 = 0 := (h.place hct).symm.trans hidx
  have hlevel := h.level
  have hi3 : i < 3 := by
    by_contra h3
    obtain rfl : i = 3 := by omega
    refine hne (UInt32.toNat_inj.mp (hct.trans ?_))
    exact Nat.mod_eq_zero_of_dvd (span_succ_dvd hdvd hplace)
  refine ⟨by omega, ?_, ?_, ?_⟩
  · have hlt : 64 * span i < 2 ^ 32 := by
      rw [← span_succ]
      exact Nat.pow_lt_pow_right (by omega) (by omega)
    rw [UInt32.toNat_shiftLeft, h.mask, span_succ, Nat.shiftLeft_eq]
    change span i * 2 ^ 6 % 2 ^ 32 = 64 * span i
    omega
  · rw [UInt32.toNat_shiftRight, h.time, Nat.shiftRight_eq_div_pow, Nat.div_div_eq_div_mul,
      span_succ, Nat.mul_comm 64]
    rfl
  · intro j hj
    rcases Nat.lt_succ_iff_lt_or_eq.mp hj with hj | rfl
    · exact h.zero j hj
    · exact hplace

/-- The list that is found. -/
theorem AtLevel.moved (h : AtLevel now ct mask time i) (hmask : ct &&& (mask - 1) = 0)
    (hidx : (time &&& 63).toNat ≠ 0) : moved now (.t i (time &&& 63).toNat) :=
  ⟨h.level, (and_mask h.level hct h.mask).mp hmask, h.place hct, Or.inl hidx⟩

/-- The clock is within a stay, and no list is found. -/
theorem AtLevel.not_moved (h : AtLevel now ct mask time i) (hmask : ct &&& (mask - 1) ≠ 0) :
    ∀ l, ¬WzxServer.TimeWheel.moved now l := by
  rintro (_ | ⟨k, j⟩) ⟨hk, hkdvd, hj, h0⟩
  rcases Nat.lt_or_ge k i with hlt | hge
  · have hlevel := h.level
    exact absurd (hj.trans (h.zero k hlt)) (h0.resolve_right (by omega))
  · exact hmask ((and_mask h.level hct h.mask).mpr ((span_dvd hge).trans hkdvd))

theorem shiftLoop_spec (hne : ct ≠ 0) (w : TimeWheel) : ∀ {fuel i : ℕ} {mask time : UInt32},
    fuel + i = 4 → AtLevel now ct mask time i → Shifts now w (w.shiftLoop ct fuel mask time i)
  | 0, i, _, _, hi, h => by
    have hlevel := h.level
    omega
  | fuel + 1, i, mask, time, hi, h => by
    rw [shiftLoop]
    by_cases hmask : ct &&& (mask - 1) = 0
    · rw [if_pos hmask]
      by_cases hidx : (time &&& 63).toNat = 0
      · simp only [hidx, ne_eq, not_true_eq_false, if_false]
        exact shiftLoop_spec hne w (by omega) (h.next hct hne hmask hidx)
      · simp only [ne_eq, hidx, not_false_eq_true, if_true]
        exact Or.inl ⟨i, _, h.moved hct hmask hidx, rfl⟩
    · rw [if_neg hmask]
      exact Or.inr ⟨h.not_moved hct hmask, rfl⟩

end Levels

theorem timerShift_spec {w : TimeWheel} {now : ℕ} (hw : w.time.toNat = now % 2 ^ 32) :
    Shifts (now + 1) { w with time := w.time + 1 } w.timerShift := by
  have hct : (w.time + 1).toNat = (now + 1) % 2 ^ 32 := toNat_succ hw
  rw [timerShift]
  split_ifs with h0
  · have hdvd : 2 ^ 32 ∣ now + 1 := by
      rw [h0] at hct
      exact Nat.dvd_of_mod_eq_zero hct.symm
    have hspan : span 3 ∣ 2 ^ 32 := (Nat.dvd_mul_left _ _).trans (turn_dvd_clock (by omega))
    refine Or.inl ⟨3, 0, ⟨by omega, hspan.trans hdvd, ?_, Or.inr rfl⟩, rfl⟩
    obtain ⟨q, hq⟩ := hdvd
    rw [hq, show 2 ^ 32 * q = span 3 * (64 * q) by rw [← Nat.mul_assoc]; rfl,
      Nat.mul_div_cancel_left _ (span_pos 3), Nat.mul_mod_right]
  · exact shiftLoop_spec hct h0 _ rfl atLevel_zero

/-! ## What is in its place -/

/-- A list that `timer_shift` never moves. -/
def Stuck : LinkList → Prop
  | .near _ => False
  | .t k i => k < 3 ∧ i = 0

/-- What is due at `d` is in a list that the clock will come to in time. -/
def Waits (now d : ℕ) : LinkList → Prop
  | .near i => i = d % 256 ∧ now ≤ d ∧ d < now + 256
  | .t k i => k < 4 ∧ i = d / span k % 64 ∧ (i ≠ 0 ∨ k = 3) ∧ now < d / span k * span k ∧
      d < now + 64 * span k

variable {now d : ℕ} {l l' : LinkList}

theorem Waits.le : ∀ {l : LinkList}, Waits now d l → now ≤ d
  | .near _, h => h.2.1
  | .t k _, h => (h.2.2.2.1.trans_le (Nat.div_mul_le_self d (span k))).le

theorem Waits.lt_clock : ∀ {l : LinkList}, Waits now d l → d < now + 2 ^ 32
  | .near _, h => h.2.2.trans (by omega)
  | .t k _, h => by
    have hdvd := Nat.le_of_dvd (Nat.two_pow_pos 32) (turn_dvd_clock h.1)
    have hlt := h.2.2.2.2
    omega

/-- Outside of the list at the clock, nothing is due now. -/
theorem Waits.lt : ∀ {l : LinkList}, Waits now d l → l ≠ .near (now % 256) → now < d
  | .near i, ⟨hi, hle, _⟩, hl => by
    refine lt_of_le_of_ne hle ?_
    rintro rfl
    exact hl (congrArg LinkList.near hi)
  | .t k _, h, _ => h.2.2.2.1.trans_le (Nat.div_mul_le_self d (span k))

/-- All that is in the list at the clock is due now. -/
theorem Waits.eq_now (h : Waits now d (.near (now % 256))) : d = now := by
  obtain ⟨hi, hle, hlt⟩ := h
  omega

theorem Placed.waits_or_stuck : ∀ {l : LinkList}, Placed now d l → Waits now d l ∨ Stuck l
  | .near _, h => Or.inl h
  | .t k i, ⟨hk, hi, hlow, hhigh⟩ => by
    by_cases h : i ≠ 0 ∨ k = 3
    · exact Or.inl ⟨hk, hi, h, Turns.lt_start (span_pos k) hlow, hhigh⟩
    · exact Or.inr ⟨by omega, by omega⟩

theorem Stuck.not_moved : ∀ {l : LinkList}, Stuck l → ¬moved now l
  | .t _ _, ⟨hk, hi⟩, ⟨_, _, _, h⟩ => by omega

theorem not_stuck_near {i : ℕ} : ¬Stuck (.near i) :=
  id

theorem Placed.unique : ∀ {l l' : LinkList}, Placed now d l → Placed now d l' → l = l'
  | .near i, .near i', h, h' => by rw [h.1, h'.1]
  | .near i, .t k i', h, h' => by
    have h0 : span 0 = 256 := rfl
    have hle := Nat.le_of_dvd (span_pos k) (span_dvd (Nat.zero_le k))
    have h1 := h.2.2
    have h2 := h'.2.2.1
    omega
  | .t k i, .near i', h, h' => by
    have h0 : span 0 = 256 := rfl
    have hle := Nat.le_of_dvd (span_pos k) (span_dvd (Nat.zero_le k))
    have h1 := h'.2.2
    have h2 := h.2.2.1
    omega
  | .t k i, .t k' i', ⟨_, hi, hlow, hhigh⟩, ⟨_, hi', hlow', hhigh'⟩ => by
    rcases Nat.lt_trichotomy k k' with h | rfl | h
    · have hle := Nat.le_of_dvd (span_pos k') (turn_dvd h)
      omega
    · rw [hi, hi']
    · have hle := Nat.le_of_dvd (span_pos k) (turn_dvd h)
      omega

/-- A timer that is set at `now` comes to the first list of one of the lower levels. -/
def Late (now delay : ℕ) : Prop :=
  ∃ k < 3, span k ≤ delay ∧ delay < 64 * span k ∧ (now + delay) / span k % 64 = 0

theorem Placed.stuck_iff {delay : ℕ} {l : LinkList} (h : Placed now (now + delay) l) :
    Stuck l ↔ Late now delay := by
  constructor
  · intro hstuck
    rcases l with i | ⟨k, i⟩
    · exact absurd hstuck id
    · obtain ⟨-, hi, hlow, hhigh⟩ := h
      exact ⟨k, hstuck.1, by omega, by omega, hi.symm.trans hstuck.2⟩
  · rintro ⟨k, hk, hlow, hhigh, hi⟩
    have hplaced : Placed now (now + delay) (.t k 0) :=
      ⟨by omega, hi.symm, by omega, by omega⟩
    rw [h.unique hplaced]
    exact ⟨hk, rfl⟩

/-- Lists that are not moved are in time for another tick. -/
theorem Waits.succ : ∀ {l : LinkList}, Waits now d l → now < d → ¬moved (now + 1) l →
    Waits (now + 1) d l
  | .near _, ⟨hi, _, hlt⟩, hd, _ => ⟨hi, hd, by omega⟩
  | .t k i, ⟨hk, hi, h0, hstart, hlt⟩, _, hmoved => by
    refine ⟨hk, hi, h0, lt_of_le_of_ne hstart ?_, by omega⟩
    intro heq
    refine hmoved ⟨hk, heq ▸ Nat.dvd_mul_left _ _, ?_, h0⟩
    rw [heq, Nat.mul_div_cancel _ (span_pos k)]
    exact hi

/-- A near list, or one of a lower level. -/
def Below (k : ℕ) : LinkList → Prop
  | .near _ => True
  | .t k' _ => k' < k

theorem Below.ne {k i : ℕ} : ∀ {l : LinkList}, Below k l → l ≠ .t k i
  | .near _, _, heq => LinkList.noConfusion heq
  | .t k' _, hlt, heq => by
    injection heq with hk
    exact absurd hk (Nat.ne_of_lt hlt)

/-- What is moved comes to a lower level. -/
theorem Waits.below_of_moved {k i : ℕ} (h : Waits now d (.t k i))
    (hmoved : moved (now + 1) (.t k i)) :
    ∀ {l' : LinkList}, Placed (now + 1) d l' → Below k l'
  | .near _, _ => trivial
  | .t k' j, ⟨_, _, hlow, _⟩ => by
    obtain ⟨-, hi, -, hstart, hlt⟩ := h
    obtain ⟨-, hdvd, hi', -⟩ := hmoved
    have heq : now + 1 = d / span k * span k :=
      Turns.eq_start_of_place (span_pos k) hdvd (hi'.symm.trans hi) hstart (by omega)
    have hd := Nat.div_add_mod' d (span k)
    have hmod := Nat.mod_lt d (span_pos k)
    change k' < k
    by_contra hge
    have hle := Nat.le_of_dvd (span_pos k') (span_dvd (not_lt.mp hge))
    omega

/-- What is moved comes to an other list, and not to one that is never moved. -/
theorem Waits.of_moved : ∀ {l : LinkList}, Waits now d l → moved (now + 1) l →
    Placed (now + 1) d l' → Waits (now + 1) d l' ∧ l' ≠ l
  | .t k i, h, hmoved, hplaced => by
    have hbelow := h.below_of_moved hmoved hplaced
    refine ⟨?_, hbelow.ne⟩
    rcases l' with j | ⟨k', j⟩
    · exact hplaced
    · obtain ⟨hk', hj, hlow, hhigh⟩ := hplaced
      have hturn : 64 * span k' ∣ now + 1 := (turn_dvd hbelow).trans hmoved.2.1
      have hj0 := Turns.place_ne_zero (span_pos k') hturn hlow hhigh
      exact ⟨hk', hj, Or.inl (hj ▸ hj0), Turns.lt_start (span_pos k') hlow, hhigh⟩

end TimeWheel

end WzxServer
