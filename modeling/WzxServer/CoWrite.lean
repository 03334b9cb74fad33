import WzxServer.Bytes
import Mathlib.Algebra.BigOperators.Group.List.Basic

/-!
# Writing to a socket

`SockUtil::co_write` calls `write` until all bytes are accepted, but it goes on from the
number of bytes that the last call accepted, not from all that were accepted so far. This
makes no difference for the first two calls that accept bytes. The third sends bytes again
that were sent before, and `coWriteExact_iff` says that nothing else goes wrong, as long as
the numbers of bytes fit an `int`.

What `write` answers is a list of results, as the kernel may give them : it takes fewer bytes
than it is offered, or none, or fails. `AtMostTwice` is a condition on these results alone, and
the number of calls that accept bytes (`acceptors`) is what connects it to the loop : one lemma
says that exactness is a matter of this number (`exact_iff_acceptors`), and one when it is at most
two (`acceptors_le_one_iff`).
-/

namespace WzxServer

attribute [local irreducible] toInt intMax

/-- One call of `write` : the offset in the buffer and the number of bytes it was offered,
and how many it accepted. A call that fails accepts none. -/
structure WriteCall where
  off : ℕ
  len : ℕ
  accepted : ℕ
  deriving DecidableEq

/-- How many of `len` bytes a `write` accepts that would take `r`, or fails. -/
def acceptedOf (len : ℕ) (r : Option ℕ) : ℕ :=
  min (r.getD 0) len

/-- What `write` returns, in an `int`. -/
def writeLenOf (len : ℕ) : Option ℕ → ℤ
  | none => -1
  | some n => toInt (min n len : ℕ)

/-- The loop of `co_write` : its calls, and the value of `totalLen` behind it, which is
undefined after an overflow. Calls behind the end of the list fail. -/
def coWriteLoop (nbyte : ℕ) : List (Option ℕ) → ℤ → ℤ → List WriteCall × Option ℤ
  | rs, totalLen, writeLen =>
    if totalLen < toInt nbyte then
      let off := writeLen.toNat
      let len := nbyte - off
      match rs with
      | [] => ([⟨off, len, 0⟩], some totalLen)
      | r :: rs =>
        let call : WriteCall := ⟨off, len, acceptedOf len r⟩
        let writeLen := writeLenOf len r
        if writeLen ≤ 0 then ([call], some totalLen)
        else if intMax < totalLen + writeLen then ([call], none)
        else
          let (calls, res) := coWriteLoop nbyte rs (totalLen + writeLen) writeLen
          (call :: calls, res)
    else ([], some totalLen)

/-- `SockUtil::co_write` of `nbyte` bytes, where `write` answers with `rs`. -/
def coWrite (nbyte : ℕ) (rs : List (Option ℕ)) : List WriteCall × Option ℤ :=
  let r := rs.headD none
  let call : WriteCall := ⟨0, nbyte, acceptedOf nbyte r⟩
  let writeLen := writeLenOf nbyte r
  if writeLen < 0 then ([call], some writeLen)
  else
    let (calls, res) := coWriteLoop nbyte rs.tail writeLen writeLen
    (call :: calls, res)

/-- The bytes that the calls accepted. -/
def acceptedBytes (buf : ℕ → UInt8) (calls : List WriteCall) : Bytes :=
  calls.flatMap fun c => slice buf c.off c.accepted

/-- What `co_write` is for : no byte outside `buf[0..nbyte)` is offered, `totalLen` is not
undefined, is at most `nbyte`, and when it is not negative the bytes accepted are the first
`totalLen` bytes of the buffer. -/
def CoWriteExact (nbyte : ℕ) (rs : List (Option ℕ)) : Prop :=
  (∀ c ∈ (coWrite nbyte rs).1, c.off + c.len ≤ nbyte) ∧
    ∃ totalLen : ℤ, (coWrite nbyte rs).2 = some totalLen ∧ totalLen ≤ nbyte ∧
      ∀ buf : ℕ → UInt8, 0 ≤ totalLen →
        acceptedBytes buf (coWrite nbyte rs).1 = slice buf 0 totalLen.toNat

/-- The buffer is sent by the first two results, or the second or third accepts nothing,
and the numbers of bytes fit an `int`. -/
def Twice (nbyte : ℕ) (rs : List (Option ℕ)) : Prop :=
  let a := acceptedOf nbyte (rs.headD none)
  let b := acceptedOf (nbyte - a) (rs.tail.headD none)
  (a : ℤ) ≤ intMax ∧
    (toInt nbyte ≤ a ∨ b = 0 ∨
      (a + b : ℤ) ≤ intMax ∧
        (toInt nbyte ≤ a + b ∨ acceptedOf (nbyte - b) (rs.tail.tail.headD none) = 0))

/-- The socket accepts bytes at most twice. It may answer that it accepts none before that,
but only once; and nothing goes wrong when the first call fails, or accepts so many bytes
that their number is negative in an `int`. -/
def AtMostTwice (nbyte : ℕ) (rs : List (Option ℕ)) : Prop :=
  writeLenOf nbyte (rs.headD none) < 0 ∨
    if acceptedOf nbyte (rs.headD none) = 0 then
      toInt nbyte ≤ 0 ∨ acceptedOf nbyte (rs.tail.headD none) = 0 ∨ Twice nbyte rs.tail
    else Twice nbyte rs

/-! ## One call -/

/-- No more is accepted than is offered. -/
theorem acceptedOf_le (len : ℕ) (r : Option ℕ) : acceptedOf len r ≤ len :=
  min_le_right _ _

/-- What `write` returns is at most what it accepted. -/
theorem writeLenOf_le (len : ℕ) (r : Option ℕ) : writeLenOf len r ≤ acceptedOf len r := by
  cases r with
  | none => simp [writeLenOf, acceptedOf]
  | some n =>
    rw [writeLenOf, acceptedOf, Option.getD_some]
    exact toInt_le (Int.natCast_nonneg _)

theorem writeLenOf_le_intMax (len : ℕ) (r : Option ℕ) : writeLenOf len r ≤ intMax := by
  cases r with
  | none =>
    rw [writeLenOf]
    unfold intMax
    omega
  | some n =>
    rw [writeLenOf]
    exact toInt_le_intMax _

/-- Counts that fit an `int` are returned, and a failure counts as nothing. -/
theorem writeLenOf_of_le (len : ℕ) (r : Option ℕ) (h : (acceptedOf len r : ℤ) ≤ intMax) :
    writeLenOf len r = acceptedOf len r ∨ writeLenOf len r = -1 ∧ acceptedOf len r = 0 := by
  cases r with
  | none => exact Or.inr ⟨rfl, Nat.zero_min _⟩
  | some n =>
    rw [acceptedOf, Option.getD_some] at h ⊢
    rw [writeLenOf]
    exact Or.inl (toInt_of_le (Int.natCast_nonneg _) h)

/-! ## The loop -/

/-- How many calls may still accept bytes, when `total` bytes were accepted and the next
call is offered the bytes from `off` on. -/
def callsLeft (off total : ℕ) : ℕ :=
  if off = total then if total = 0 then 2 else 1 else 0

/-- The bytes that went out are as many as were accepted. -/
theorem length_acceptedBytes (buf : ℕ → UInt8) (calls : List WriteCall) :
    (acceptedBytes buf calls).length = (calls.map WriteCall.accepted).sum := by
  simp [acceptedBytes, List.length_flatMap]

/-- The loop never offers what is behind the buffer. -/
theorem coWriteLoop_offers {nbyte : ℕ} : ∀ {rs : List (Option ℕ)} {totalLen writeLen : ℤ},
    writeLen ≤ nbyte → ∀ c ∈ (coWriteLoop nbyte rs totalLen writeLen).1, c.off + c.len ≤ nbyte
  | [], totalLen, writeLen, hw, c, hc => by
    rw [coWriteLoop] at hc
    split_ifs at hc
    · obtain rfl := List.mem_singleton.mp hc
      simp only
      omega
    · exact absurd hc List.not_mem_nil
  | r :: rs, totalLen, writeLen, hw, c, hc => by
    have hnext : writeLenOf (nbyte - writeLen.toNat) r ≤ nbyte := by
      have h1 := writeLenOf_le (nbyte - writeLen.toNat) r
      have h2 := acceptedOf_le (nbyte - writeLen.toNat) r
      omega
    rw [coWriteLoop] at hc
    simp only at hc
    split_ifs at hc
    · obtain rfl := List.mem_singleton.mp hc
      simp only
      omega
    · obtain rfl := List.mem_singleton.mp hc
      simp only
      omega
    · rcases List.mem_cons.mp hc with rfl | hc
      · simp only
        omega
      · exact coWriteLoop_offers hnext c hc
    · exact absurd hc List.not_mem_nil

/-- `totalLen` never leaves the `int`s, and never goes down. -/
theorem coWriteLoop_total {nbyte : ℕ} : ∀ {rs : List (Option ℕ)} {totalLen writeLen v : ℤ},
    totalLen ≤ intMax → (coWriteLoop nbyte rs totalLen writeLen).2 = some v →
      totalLen ≤ v ∧ v ≤ intMax
  | [], totalLen, writeLen, v, hT, hv => by
    rw [coWriteLoop] at hv
    split_ifs at hv <;> obtain rfl := Option.some.inj hv <;> exact ⟨le_refl _, hT⟩
  | r :: rs, totalLen, writeLen, v, hT, hv => by
    rw [coWriteLoop] at hv
    simp only at hv
    split_ifs at hv with hlt hstop hover
    · obtain rfl := Option.some.inj hv
      exact ⟨le_refl _, hT⟩
    · obtain ⟨hle, hmax⟩ := coWriteLoop_total (by omega) hv
      exact ⟨by omega, hmax⟩
    · obtain rfl := Option.some.inj hv
      exact ⟨le_refl _, hT⟩

/-! ## Turns of the loop -/

section Turns

variable {nbyte : ℕ} {r : Option ℕ} {rs : List (Option ℕ)} {total off : ℕ}

/-- The loop ends once all seems written. -/
theorem coWriteLoop_stop (h : ¬(total : ℤ) < toInt nbyte) :
    coWriteLoop nbyte rs total off = ([], some (total : ℤ)) := by
  cases rs <;> rw [coWriteLoop, if_neg h]

/-- A turn starts with its call. -/
theorem coWriteLoop_head (r : Option ℕ) (rs : List (Option ℕ)) (off : ℕ)
    (h : (total : ℤ) < toInt nbyte) : ∃ calls, (coWriteLoop nbyte (r :: rs) total off).1 =
      ⟨off, nbyte - off, acceptedOf (nbyte - off) r⟩ :: calls := by
  rw [coWriteLoop, if_pos h]
  simp only [Int.toNat_natCast]
  split_ifs <;> exact ⟨_, rfl⟩

/-- A call that accepts nothing ends the loop. -/
theorem coWriteLoop_zero (h : (total : ℤ) < toInt nbyte) (hr : acceptedOf (nbyte - off) r = 0) :
    coWriteLoop nbyte (r :: rs) total off = ([⟨off, nbyte - off, 0⟩], some (total : ℤ)) := by
  have hle := writeLenOf_le (nbyte - off) r
  rw [coWriteLoop, if_pos h]
  simp only [Int.toNat_natCast]
  rw [if_pos (by omega), hr]

/-- After a call that accepts bytes the loop goes on. -/
theorem coWriteLoop_pos (h : (total : ℤ) < toInt nbyte) (hr : 0 < acceptedOf (nbyte - off) r)
    (hfit : (total + acceptedOf (nbyte - off) r : ℤ) ≤ intMax) :
    coWriteLoop nbyte (r :: rs) total off =
      (⟨off, nbyte - off, acceptedOf (nbyte - off) r⟩ ::
          (coWriteLoop nbyte rs (total + acceptedOf (nbyte - off) r : ℕ)
            (acceptedOf (nbyte - off) r : ℕ)).1,
        (coWriteLoop nbyte rs (total + acceptedOf (nbyte - off) r : ℕ)
          (acceptedOf (nbyte - off) r : ℕ)).2) := by
  have hlen : writeLenOf (nbyte - off) r = acceptedOf (nbyte - off) r := by
    rcases writeLenOf_of_le (nbyte - off) r (by omega) with hlen | hlen
    · exact hlen
    · omega
  rw [coWriteLoop, if_pos h]
  simp only [Int.toNat_natCast, hlen]
  rw [if_neg (by omega), if_neg (by omega), Nat.cast_add]

end Turns

/-- The number of bytes that calls accepted. -/
def accepted (calls : List WriteCall) : ℕ :=
  (calls.map WriteCall.accepted).sum

/-- How many of the calls accepted bytes. -/
def acceptors (calls : List WriteCall) : ℕ :=
  (calls.map WriteCall.accepted).countP (0 < ·)

@[simp] theorem accepted_cons {c : WriteCall} {calls : List WriteCall} :
    accepted (c :: calls) = c.accepted + accepted calls := by
  simp [accepted]

/-- A call that accepted something counts. -/
theorem acceptors_cons_pos {off len c : ℕ} {calls : List WriteCall} (hc : 0 < c) :
    acceptors (⟨off, len, c⟩ :: calls) = acceptors calls + 1 := by
  simp [acceptors, hc]

/-- One that accepted nothing does not. -/
theorem acceptors_cons_zero (off len : ℕ) (calls : List WriteCall) :
    acceptors (⟨off, len, 0⟩ :: calls) = acceptors calls := by
  simp [acceptors]

/-- What the first call took goes out first. -/
theorem acceptedBytes_cons {buf : ℕ → UInt8} {c : WriteCall} {calls : List WriteCall} :
    acceptedBytes buf (c :: calls) = slice buf c.off c.accepted ++ acceptedBytes buf calls := by
  simp [acceptedBytes]

/-- A call at the right place that accepts bytes uses one of the calls left. -/
theorem callsLeft_succ {total c k : ℕ} (hc : 0 < c) :
    k + 1 ≤ callsLeft total total ↔ k ≤ callsLeft c (total + c) := by
  rw [callsLeft, callsLeft]
  split_ifs <;> omega

/-- Bytes of a wrong place show in some buffer. -/
theorem exists_slice_ne {off total n : ℕ} (hne : off ≠ total) (hn : 0 < n)
    (rest : (ℕ → UInt8) → Bytes) (m : ℕ) :
    ∃ buf : ℕ → UInt8, slice buf off n ++ rest buf ≠ slice buf total (n + m) := by
  obtain ⟨k, rfl⟩ := Nat.exists_eq_add_of_lt hn
  refine ⟨fun i => if i = total then 1 else 0, fun heq => ?_⟩
  have hhead := congrArg List.head? heq
  rw [show 0 + k + 1 + m = k + m + 1 by omega, Nat.zero_add] at hhead
  simp [slice, List.range_succ_eq_map, hne] at hhead

/-- While the numbers fit an `int`, the loop counts right, and it sends the right bytes if
no more calls accept bytes than are left. -/
theorem coWriteLoop_spec (nbyte : ℕ) : ∀ (rs : List (Option ℕ)) {total off : ℕ},
    off ≤ total →
      (total + accepted (coWriteLoop nbyte rs total off).1 : ℤ) ≤ intMax →
      (coWriteLoop nbyte rs total off).2 =
          some (total + accepted (coWriteLoop nbyte rs total off).1 : ℤ) ∧
        ((∀ buf, acceptedBytes buf (coWriteLoop nbyte rs total off).1 =
            slice buf total (accepted (coWriteLoop nbyte rs total off).1)) ↔
          acceptors (coWriteLoop nbyte rs total off).1 ≤ callsLeft off total) ∧
        (acceptors (coWriteLoop nbyte rs total off).1 ≤ callsLeft off total → total ≤ nbyte →
          total + accepted (coWriteLoop nbyte rs total off).1 ≤ nbyte)
  | rs, total, off, hoff, hfit => by
    by_cases hlt : (total : ℤ) < toInt nbyte
    swap
    · rw [coWriteLoop_stop hlt]
      simp [accepted, acceptors, acceptedBytes, slice]
    rcases rs with _ | ⟨r, rs⟩
    · rw [coWriteLoop, if_pos hlt]
      simp [accepted, acceptors, acceptedBytes, slice]
    rcases Nat.eq_zero_or_pos (acceptedOf (nbyte - off) r) with hr | hr
    · rw [coWriteLoop_zero hlt hr]
      simp [accepted, acceptors, acceptedBytes, slice]
    have hcall : (total + acceptedOf (nbyte - off) r : ℤ) ≤ intMax := by
      obtain ⟨calls, hhead⟩ := coWriteLoop_head r rs off hlt
      rw [hhead, accepted_cons] at hfit
      push_cast at hfit
      omega
    have hle := acceptedOf_le (nbyte - off) r
    rw [coWriteLoop_pos hlt hr hcall] at hfit ⊢
    generalize acceptedOf (nbyte - off) r = c at hr hle hfit ⊢
    obtain ⟨hres, hbytes, hnbyte⟩ := coWriteLoop_spec nbyte rs (Nat.le_add_left c total)
      (by rw [accepted_cons] at hfit; push_cast at hfit ⊢; omega)
    generalize coWriteLoop nbyte rs (total + c : ℕ) (c : ℕ) = rest at hres hbytes hnbyte hfit ⊢
    obtain ⟨calls, res⟩ := rest
    simp only at hres hbytes hnbyte ⊢
    rw [accepted_cons, acceptors_cons_pos hr]
    refine ⟨by rw [hres]; push_cast; rw [add_assoc], ?_, ?_⟩
    · by_cases heq : off = total
      · subst heq
        rw [callsLeft_succ hr, ← hbytes]
        simp only [acceptedBytes_cons, ← slice_append, List.append_cancel_left_eq]
      · obtain ⟨buf, hbuf⟩ := exists_slice_ne heq hr (acceptedBytes · calls) (accepted calls)
        rw [callsLeft, if_neg heq]
        simp only [acceptedBytes_cons]
        exact iff_of_false (fun hall => hbuf (hall buf)) (by omega)
    · intro hleft htotal
      by_cases heq : off = total
      · subst heq
        have hle := hnbyte ((callsLeft_succ hr).mp hleft) (by omega)
        dsimp only
        omega
      · rw [callsLeft, if_neg heq] at hleft
        omega

/-- The loop makes at most `k + 1` more calls that accept bytes, and counts them in an
`int`, if the next call ends it, or the calls after the next are `k` at most. -/
theorem acceptors_le_iff (k nbyte off : ℕ) (rs : List (Option ℕ)) {total : ℕ}
    (htotal : (total : ℤ) ≤ intMax) :
    (acceptors (coWriteLoop nbyte rs total off).1 ≤ k ∧
        (total + accepted (coWriteLoop nbyte rs total off).1 : ℤ) ≤ intMax) ↔
      (toInt nbyte ≤ total ∨ acceptedOf (nbyte - off) (rs.headD none) = 0 ∨
        (0 < k ∧ (total + acceptedOf (nbyte - off) (rs.headD none) : ℤ) ≤ intMax ∧
          let c := acceptedOf (nbyte - off) (rs.headD none)
          acceptors (coWriteLoop nbyte rs.tail (total + c : ℕ) (c : ℕ)).1 ≤ k - 1 ∧
            ((total + c : ℕ) + accepted (coWriteLoop nbyte rs.tail (total + c : ℕ) (c : ℕ)).1 : ℤ) ≤
              intMax)) := by
  by_cases hlt : (total : ℤ) < toInt nbyte
  swap
  · rw [coWriteLoop_stop hlt]
    exact iff_of_true ⟨Nat.zero_le _, by simpa [accepted] using htotal⟩ (Or.inl (not_lt.mp hlt))
  rw [or_iff_right (not_le.mpr hlt)]
  rcases rs with _ | ⟨r, rs⟩
  · rw [coWriteLoop, if_pos hlt]
    exact iff_of_true (by simpa [accepted, acceptors] using htotal) (Or.inl (Nat.zero_min _))
  rw [List.headD_cons, List.tail_cons]
  rcases Nat.eq_zero_or_pos (acceptedOf (nbyte - off) r) with hr | hr
  · rw [coWriteLoop_zero hlt hr]
    exact iff_of_true (by simpa [accepted, acceptors] using htotal) (Or.inl hr)
  rw [or_iff_right (by omega)]
  by_cases hcall : (total + acceptedOf (nbyte - off) r : ℤ) ≤ intMax
  swap
  · obtain ⟨calls, hhead⟩ := coWriteLoop_head r rs off hlt
    rw [hhead, accepted_cons]
    push_cast
    exact iff_of_false (by omega) (by omega)
  rw [coWriteLoop_pos hlt hr hcall, accepted_cons, acceptors_cons_pos hr]
  dsimp only
  push_cast
  omega

/-! ## What `co_write` sends -/

section Sends

variable {nbyte : ℕ} {rs : List (Option ℕ)}

/-- A first write that fails is the only one. -/
theorem coWrite_neg (h : writeLenOf nbyte (rs.headD none) < 0) :
    coWrite nbyte rs =
      ([⟨0, nbyte, acceptedOf nbyte (rs.headD none)⟩],
        some (writeLenOf nbyte (rs.headD none))) := by
  rw [coWrite]
  simp only [if_pos h]

/-- A first write that does not fail leads into the loop. -/
theorem coWrite_nonneg (h : 0 ≤ writeLenOf nbyte (rs.headD none)) :
    coWrite nbyte rs =
      (⟨0, nbyte, acceptedOf nbyte (rs.headD none)⟩ ::
          (coWriteLoop nbyte rs.tail (writeLenOf nbyte (rs.headD none))
            (writeLenOf nbyte (rs.headD none))).1,
        (coWriteLoop nbyte rs.tail (writeLenOf nbyte (rs.headD none))
          (writeLenOf nbyte (rs.headD none))).2) := by
  rw [coWrite]
  simp only [if_neg (not_lt.mpr h)]

/-- No byte behind the end of the buffer is offered. -/
theorem coWrite_offers : ∀ c ∈ (coWrite nbyte rs).1, c.off + c.len ≤ nbyte := by
  intro c hc
  have h1 := writeLenOf_le nbyte (rs.headD none)
  have h2 := acceptedOf_le nbyte (rs.headD none)
  rcases lt_or_ge (writeLenOf nbyte (rs.headD none)) 0 with hneg | hpos
  · rw [coWrite_neg hneg] at hc
    obtain rfl := List.mem_singleton.mp hc
    simp
  · rw [coWrite_nonneg hpos] at hc
    rcases List.mem_cons.mp hc with rfl | hc
    · simp
    · exact coWriteLoop_offers (by omega) c hc

/-- An exact result counts the accepted bytes, so their number fits an `int`. -/
theorem accepted_le_of_exact (hpos : 0 ≤ writeLenOf nbyte (rs.headD none))
    (h : CoWriteExact nbyte rs) : (accepted (coWrite nbyte rs).1 : ℤ) ≤ intMax := by
  obtain ⟨-, total, hres, -, hbytes⟩ := h
  have htotal : writeLenOf nbyte (rs.headD none) ≤ total ∧ total ≤ intMax := by
    rw [coWrite_nonneg hpos] at hres
    exact coWriteLoop_total (writeLenOf_le_intMax _ _) hres
  have hlen := congrArg List.length (hbytes (fun _ => 0) (by omega))
  rw [length_acceptedBytes, length_slice] at hlen
  rw [accepted, hlen]
  omega

/-- While the numbers fit an `int`, exactness is a matter of how many calls accept bytes. -/
theorem exact_iff_of_accepted_le (hpos : 0 ≤ writeLenOf nbyte (rs.headD none))
    (hfit : (accepted (coWrite nbyte rs).1 : ℤ) ≤ intMax) :
    CoWriteExact nbyte rs ↔ acceptors (coWrite nbyte rs).1 ≤ 2 := by
  rw [CoWriteExact, and_iff_right coWrite_offers]
  have hc := acceptedOf_le nbyte (rs.headD none)
  have hcount : writeLenOf nbyte (rs.headD none) = acceptedOf nbyte (rs.headD none) := by
    rw [coWrite_nonneg hpos, accepted_cons] at hfit
    push_cast at hfit
    rcases writeLenOf_of_le nbyte (rs.headD none) (by omega) with h | h
    · exact h
    · omega
  rw [coWrite_nonneg hpos, hcount] at hfit ⊢
  generalize acceptedOf nbyte (rs.headD none) = c at hc hfit ⊢
  rw [accepted_cons] at hfit
  obtain ⟨hres, hbytes, hnbyte⟩ := coWriteLoop_spec nbyte rs.tail (le_refl c)
    (by push_cast at hfit; exact hfit)
  generalize coWriteLoop nbyte rs.tail c c = rest at hres hbytes hnbyte ⊢
  obtain ⟨calls, res⟩ := rest
  simp only at hres hbytes hnbyte ⊢
  have hleft : acceptors (⟨0, nbyte, c⟩ :: calls) ≤ 2 ↔ acceptors calls ≤ callsLeft c c := by
    rcases Nat.eq_zero_or_pos c with rfl | hc
    · simp [acceptors, callsLeft]
    · rw [acceptors_cons_pos hc, callsLeft, if_pos rfl, if_neg (by omega)]
      omega
  have hall : (∀ buf, acceptedBytes buf (⟨0, nbyte, c⟩ :: calls) =
      slice buf 0 (c + accepted calls)) ↔ acceptors calls ≤ callsLeft c c := by
    rw [← hbytes]
    refine forall_congr' fun buf => ?_
    rw [acceptedBytes_cons, ← slice_append, Nat.zero_add, List.append_cancel_left_eq]
  rw [hleft, ← hall]
  subst hres
  constructor
  · rintro ⟨total, htotal, hle, hsent⟩ buf
    obtain rfl := Option.some.inj htotal
    exact hsent buf (by omega)
  · intro hsent
    exact ⟨_, rfl, by exact_mod_cast hnbyte (hall.mp hsent) hc, fun buf _ => hsent buf⟩

end Sends

/-- Three turns, from the first call that accepts bytes on. -/
theorem acceptors_le_one_iff {nbyte a : ℕ} {rs : List (Option ℕ)}
    (ha : acceptedOf nbyte (rs.headD none) = a) (hfit : (a : ℤ) ≤ intMax) :
    (acceptors (coWriteLoop nbyte rs.tail a a).1 ≤ 1 ∧
        (a + accepted (coWriteLoop nbyte rs.tail a a).1 : ℤ) ≤ intMax) ↔ Twice nbyte rs := by
  subst ha
  rw [acceptors_le_iff 1 _ _ _ hfit, Twice]
  dsimp only
  rw [and_iff_right hfit]
  refine or_congr_right (or_congr_right ?_)
  rw [and_iff_right one_pos]
  refine and_congr_right fun hsum => ?_
  rw [acceptors_le_iff 0 _ _ _ (by push_cast; exact hsum)]
  push_cast
  simp

/-- Exactness is a matter of how many calls accept bytes, and how many in all. -/
theorem exact_iff_acceptors {nbyte : ℕ} {rs : List (Option ℕ)}
    (hpos : 0 ≤ writeLenOf nbyte (rs.headD none)) :
    CoWriteExact nbyte rs ↔
      acceptors (coWrite nbyte rs).1 ≤ 2 ∧ (accepted (coWrite nbyte rs).1 : ℤ) ≤ intMax := by
  constructor
  · intro h
    have hfit := accepted_le_of_exact hpos h
    exact ⟨(exact_iff_of_accepted_le hpos hfit).mp h, hfit⟩
  · rintro ⟨htwice, hfit⟩
    exact (exact_iff_of_accepted_le hpos hfit).mpr htwice

/-- `co_write` sends the buffer as it should, whatever the socket does, if and only if the
socket accepts bytes at most twice. -/
theorem coWriteExact_iff (nbyte : ℕ) (rs : List (Option ℕ)) :
    CoWriteExact nbyte rs ↔ AtMostTwice nbyte rs := by
  rw [AtMostTwice]
  rcases lt_or_ge (writeLenOf nbyte (rs.headD none)) 0 with hneg | hpos
  · refine iff_of_true ⟨coWrite_offers, _, congrArg Prod.snd (coWrite_neg hneg), ?_, ?_⟩
      (Or.inl hneg)
    · omega
    · exact fun buf h0 => absurd h0 (by omega)
  rw [or_iff_right (by omega), exact_iff_acceptors hpos, coWrite_nonneg hpos, accepted_cons]
  have hw := writeLenOf_le nbyte (rs.headD none)
  by_cases hfit : (acceptedOf nbyte (rs.headD none) : ℤ) ≤ intMax
  swap
  · rw [if_neg (by unfold intMax at hfit; omega), Twice]
    push_cast
    exact iff_of_false (by omega) (fun h => hfit h.1)
  obtain ⟨a, ha⟩ : ∃ a, acceptedOf nbyte (rs.headD none) = a := ⟨_, rfl⟩
  have hcount : writeLenOf nbyte (rs.headD none) = a := by
    rcases writeLenOf_of_le _ _ hfit with h | h
    · rw [h, ha]
    · omega
  rw [hcount, ha]
  rw [ha] at hfit
  rcases Nat.eq_zero_or_pos a with rfl | hpos'
  · -- the first call accepts none, and the loop starts over
    obtain ⟨b, hb⟩ : ∃ b, acceptedOf nbyte (rs.tail.headD none) = b := ⟨_, rfl⟩
    have hzero := acceptors_cons_zero 0 nbyte (coWriteLoop nbyte rs.tail (0 : ℕ) (0 : ℕ)).1
    have hloop := acceptors_le_iff 2 nbyte 0 rs.tail hfit
    simp only [Nat.cast_zero, zero_add, Nat.sub_zero, hb] at hzero hloop
    rw [if_pos rfl, hb]
    simp only [Nat.cast_zero, zero_add, hzero, hloop, two_pos, true_and]
    refine or_congr_right (or_congr_right ⟨?_, fun h => ?_⟩)
    · rintro ⟨hfit', hrest⟩
      exact (acceptors_le_one_iff hb hfit').mp hrest
    · have hfit' : (b : ℤ) ≤ intMax := hb ▸ h.1
      exact ⟨hfit', (acceptors_le_one_iff hb hfit').mpr h⟩
  · rw [if_neg (by omega), ← acceptors_le_one_iff ha hfit, acceptors_cons_pos hpos']
    push_cast
    omega

/-- A socket that accepts one byte at a time gets the second byte in the place of the third. -/
theorem not_coWriteExact_ones :
    ¬CoWriteExact 4 [some 1, some 1, some 1, some 1] := by
  rw [CoWriteExact]
  rintro ⟨-, total, hres, -, hbytes⟩
  have hcalls : (coWrite 4 [some 1, some 1, some 1, some 1]).1 =
      [⟨0, 4, 1⟩, ⟨1, 3, 1⟩, ⟨1, 3, 1⟩, ⟨1, 3, 1⟩] := by decide +kernel
  have htotal : (coWrite 4 [some 1, some 1, some 1, some 1]).2 = some 4 := by decide +kernel
  obtain rfl : 4 = total := Option.some.inj (htotal.symm.trans hres)
  have h := hbytes (fun i => UInt8.ofNat i) (by decide)
  rw [hcalls] at h
  exact absurd h (by decide)

end WzxServer
