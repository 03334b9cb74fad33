import Mathlib.Data.List.GetD
import Mathlib.Data.Nat.Digits.Defs
import Mathlib.Data.Nat.Digits.Lemmas

/-!
# Bytes, C strings and C integers

The server works on raw bytes : request structures are cast over them, names are C
strings, and SQL text is formatted from both. An `int` is an integer here, and `int32`
reads one from its four bytes, little-endian and in two's complement. `decimal` is what
`%d` and `to_string` print.

Where the source computes with an `int`, what fits is told apart from what does not : `toInt` is
the conversion that keeps the low 32 bits, and by `toInt_eq_iff` it changes nothing exactly for
the numbers with `IsInt`.
-/

namespace WzxServer

/-- A string of bytes. -/
abbrev Bytes := List UInt8

/-- The bytes of a string literal. -/
def ascii (s : String) : Bytes :=
  s.toList.map fun c => UInt8.ofNat c.toNat

/-- The value of a 32-bit `int` with the low bits of `n`. -/
def toInt (n : ℤ) : ℤ :=
  Int.bmod n (2 ^ 32)

/-- The largest `int`. -/
def intMax : ℤ :=
  2 ^ 31 - 1

/-- `n` is the value of an `int`. -/
def IsInt (n : ℤ) : Prop :=
  -intMax - 1 ≤ n ∧ n ≤ intMax

instance (n : ℤ) : Decidable (IsInt n) :=
  inferInstanceAs (Decidable (_ ∧ _))

/-- The `int` with the bytes `a`, `b`, `c`, `d`, low byte first. -/
def int32 (a b c d : UInt8) : ℤ :=
  toInt (a.toNat + 256 * b.toNat + 256 ^ 2 * c.toNat + 256 ^ 3 * d.toNat)

/-- The bytes at offsets `off`, ..., `off + n - 1`. -/
def slice (b : ℕ → UInt8) (off n : ℕ) : Bytes :=
  (List.range n).map fun i => b (off + i)

@[simp] theorem length_slice (b : ℕ → UInt8) (off n : ℕ) : (slice b off n).length = n := by
  simp [slice]

theorem getElem_slice {b : ℕ → UInt8} {off n i : ℕ} (h : i < (slice b off n).length) :
    (slice b off n)[i] = b (off + i) := by
  simp [slice]

theorem getD_slice {b : ℕ → UInt8} {off n i : ℕ} (h : i < n) (d : UInt8) :
    (slice b off n).getD i d = b (off + i) := by
  rw [List.getD_eq_getElem _ _ (by simpa using h), getElem_slice]

/-- The first bytes of a slice. -/
theorem take_slice {b : ℕ → UInt8} {off n m : ℕ} (h : m ≤ n) :
    (slice b off n).take m = slice b off m := by
  refine List.ext_getElem (by simp [h]) fun i hi hi' => ?_
  rw [List.getElem_take, getElem_slice, getElem_slice]

/-- What is behind them. -/
theorem drop_slice (b : ℕ → UInt8) (off n m : ℕ) :
    (slice b off n).drop m = slice b (off + m) (n - m) := by
  refine List.ext_getElem (by simp) fun i hi hi' => ?_
  rw [List.getElem_drop, getElem_slice, getElem_slice, Nat.add_assoc]

/-- Slices that meet. -/
theorem slice_append (b : ℕ → UInt8) (off n m : ℕ) :
    slice b off n ++ slice b (off + n) m = slice b off (n + m) := by
  rw [slice, slice, slice, List.range_add, List.map_append, List.map_map]
  simp [Function.comp_def, Nat.add_assoc]

/-- A value of an `int` is kept. -/
theorem toInt_of_le {n : ℤ} (h0 : 0 ≤ n) (h : n ≤ intMax) : toInt n = n := by
  unfold intMax at h
  rw [toInt, Int.bmod_eq_of_le (by omega) (by omega)]

/-- The low bits of a number that is not negative are at most the number. -/
theorem toInt_le {n : ℤ} (h0 : 0 ≤ n) : toInt n ≤ n := by
  have hmod : n % (2 ^ 32 : ℕ) ≤ n := by
    have hdiv := Int.mul_ediv_add_emod n (2 ^ 32 : ℕ)
    have hpos : 0 ≤ ((2 ^ 32 : ℕ) : ℤ) * (n / (2 ^ 32 : ℕ)) :=
      Int.mul_nonneg (by decide) (Int.ediv_nonneg h0 (by decide))
    omega
  rw [toInt, Int.bmod_def]
  split_ifs <;> omega

/-- No value is above the largest `int`. -/
theorem toInt_le_intMax (n : ℤ) : toInt n ≤ intMax := by
  have hlt := Int.bmod_lt (x := n) (m := 2 ^ 32) (by decide)
  unfold toInt intMax
  omega

/-- No value is below the smallest. -/
theorem neg_le_toInt (n : ℤ) : -intMax - 1 ≤ toInt n := by
  have hle := Int.le_bmod (x := n) (m := 2 ^ 32) (by decide)
  unfold toInt intMax
  omega

/-- An `int` keeps exactly the numbers that it has room for. -/
theorem toInt_eq_iff {n : ℤ} : toInt n = n ↔ IsInt n := by
  constructor
  · intro h
    rw [← h]
    exact ⟨neg_le_toInt n, toInt_le_intMax n⟩
  · rintro ⟨hlow, hhigh⟩
    unfold intMax at hlow hhigh
    rw [toInt, Int.bmod_eq_of_le (by omega) (by omega)]

/-! ## Decimal numbers -/

/-- The decimal digits of `n`, high digit first. -/
def digits (n : ℕ) : Bytes :=
  if n = 0 then [48] else (Nat.digits 10 n).reverse.map fun d => UInt8.ofNat (48 + d)

/-- What `%d` prints. -/
def decimal (n : ℤ) : Bytes :=
  if n < 0 then 45 :: digits n.natAbs else digits n.natAbs

/-- A number has a digit. -/
theorem digits_ne_nil (n : ℕ) : digits n ≠ [] := by
  unfold digits
  split_ifs with h
  · simp
  · simpa [Nat.digits_eq_nil_iff_eq_zero] using h

/-- A printed digit is between `'0'` and `'9'`. -/
theorem mem_digits {n : ℕ} {c : UInt8} (h : c ∈ digits n) : 48 ≤ c.toNat ∧ c.toNat ≤ 57 := by
  unfold digits at h
  split_ifs at h with h0
  · obtain rfl : c = 48 := by simpa using h
    decide
  · obtain ⟨d, hd, rfl⟩ := List.mem_map.mp h
    have hlt : d < 10 := Nat.digits_lt_base (by omega) (List.mem_reverse.mp hd)
    have : (UInt8.ofNat (48 + d)).toNat = 48 + d := by
      rw [UInt8.toNat_ofNat']
      omega
    omega

/-- A printed number is made of digits and a minus sign. -/
theorem mem_decimal {n : ℤ} {c : UInt8} (h : c ∈ decimal n) :
    c = 45 ∨ 48 ≤ c.toNat ∧ c.toNat ≤ 57 := by
  unfold decimal at h
  split_ifs at h
  · rcases List.mem_cons.mp h with h | h
    · exact Or.inl h
    · exact Or.inr (mem_digits h)
  · exact Or.inr (mem_digits h)

theorem decimal_ne_nil (n : ℤ) : decimal n ≠ [] := by
  unfold decimal
  split_ifs
  · simp
  · exact digits_ne_nil _

/-- A number below a power of ten has no more digits than the power. -/
theorem length_digits_le {n k : ℕ} (hn : n < 10 ^ k) (hk : 0 < k) : (digits n).length ≤ k := by
  unfold digits
  split_ifs
  · exact hk
  · rw [List.length_map, List.length_reverse, Nat.digits_length_le_iff (by decide)]
    exact hn

/-- An `int` is printed in at most eleven bytes. -/
theorem length_decimal_le {n : ℤ} (h : IsInt n) : (decimal n).length ≤ 11 := by
  obtain ⟨hlow, hhigh⟩ := h
  have hdigits : (digits n.natAbs).length ≤ 10 := by
    refine length_digits_le ?_ (by decide)
    norm_num [intMax] at hlow hhigh ⊢
    omega
  unfold decimal
  split_ifs
  · exact Nat.succ_le_succ hdigits
  · exact hdigits.trans (by decide)

example : decimal (-305) = ascii "-305" := by decide

end WzxServer
