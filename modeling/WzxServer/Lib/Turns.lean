import Mathlib.Tactic.Ring
import Mathlib.Tactic.Common

/-!
# The turns of a timing wheel

A wheel of `r` places, where the clock stays `b` ticks at each. What is due at time `d` is
put into place `d / b % r`, and must be taken from it when the clock comes to the beginning
of that stay, at time `d / b * b`. The clock passes the place once in `r * b` ticks, so this
works for what is due less than a turn ahead.

A level of a hierarchical wheel is one of these, with the `b` of a level the length of a whole
turn of the level below it.
-/

namespace Turns

variable {b r now d : ℕ}

/-- The place of `d` is reached for the first time when its stay begins. -/
theorem eq_start_of_place (hb : 0 < b) (hdvd : b ∣ now) (hplace : now / b % r = d / b % r)
    (hle : now ≤ d / b * b) (hturn : d < now + r * b) : now = d / b * b := by
  obtain ⟨q, rfl⟩ := hdvd
  rw [Nat.mul_div_cancel_left q hb] at hplace
  have hqd : q ≤ d / b := by
    rw [Nat.mul_comm b q] at hle
    exact Nat.le_of_mul_le_mul_right hle hb
  have hdq : d / b < q + r := by
    rw [Nat.div_lt_iff_lt_mul hb, Nat.add_mul, Nat.mul_comm q b]
    exact hturn
  have hmod : d / b - q < r := by omega
  have hzero : (d / b - q) % r = 0 := by
    exact Nat.sub_mod_eq_zero_of_mod_eq hplace.symm
  rw [Nat.mod_eq_of_lt hmod] at hzero
  rw [Nat.mul_comm b q, show d / b = q by omega]

/-- A clock that is kept modulo whole turns tells the place. -/
theorem place_mod {c : ℕ} (h : r * b ∣ c) : d % c / b % r = d / b % r := by
  rw [← Nat.mod_mul_right_div_self, ← Nat.mod_mul_right_div_self d, Nat.mul_comm b r,
    Nat.mod_mod_of_dvd d h]

/-- The stay begins after now, for what is due a stay or more ahead. -/
theorem lt_start (hb : 0 < b) (h : now + b ≤ d) : now < d / b * b := by
  have := Nat.div_add_mod' d b
  have := Nat.mod_lt d hb
  omega

/-- At the beginning of a turn, what is due a stay or more ahead in this turn is not in the
first place. -/
theorem place_ne_zero (hb : 0 < b) (hdvd : r * b ∣ now) (hle : now + b ≤ d)
    (hturn : d < now + r * b) : d / b % r ≠ 0 := by
  obtain ⟨q, rfl⟩ := hdvd
  obtain ⟨e, rfl⟩ := Nat.exists_eq_add_of_le (Nat.le_of_add_right_le hle)
  have hdiv : (r * b * q + e) / b = r * q + e / b := by
    rw [show r * b * q = b * (r * q) by ring, Nat.mul_add_div hb]
  have he : 1 ≤ e / b := (Nat.one_le_div_iff hb).mpr (by omega)
  have her : e / b < r := Nat.div_lt_of_lt_mul (by rw [Nat.mul_comm]; omega)
  rw [hdiv, Nat.mul_add_mod, Nat.mod_eq_of_lt her]
  omega

end Turns
