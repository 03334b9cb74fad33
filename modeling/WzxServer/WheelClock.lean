import WzxServer.Timers
import WzxServer.WheelHistory

/-!
# The wheel and the clock

`expire_timer` reads the clock and calls `timer_update` once for each unit that went by since
the last reading. It keeps the difference in an `int`, so a gap of `2 ^ 31` or more is cut, and
may even be negative, while the reading is remembered as if the wheel had caught up. With
smaller gaps the wheel keeps up (`keepsUp`), and how often the clock was read makes no
difference at all (`expireAll_eq`).

That the frequency makes no difference is meant for what later calls fire, so two wheels are
compared after they forgot their records (`forget`) : one that was driven by all of the
readings, and one by the last of them. `InOrder` is what ticks keep, and with it a tick has no
way to fail.
-/

namespace WzxServer

/-- A `timeWheel` with its `m_current_point`. -/
structure ClockedWheel where
  wheel : TimeWheel
  currentPoint : UInt64

/-- What is done with a wheel that follows the clock, with what `gettime` answers. -/
inductive ClockOp where
  /-- A call of `add_timer`. -/
  | addTimer (c : TimerCall)
  /-- A call of `expire_timer` that reads `cp`. -/
  | expireTimer (cp : UInt64)

namespace ClockedWheel

open TimeWheel

variable (calls : ℕ → List TimerCall)

/-- The constructor, when `gettime` answers `t`. -/
def init (t : UInt64) : ClockedWheel :=
  ⟨.init, t⟩

/-- `expire_timer`, when `gettime` answers `cp`. Its loop does nothing if `diff` is negative. -/
def expireTimer (s : ClockedWheel) (cp : UInt64) : Option ClockedWheel :=
  if cp ≠ s.currentPoint then
    let diff : Int32 := (cp - s.currentPoint).toUInt32.toInt32
    (s.wheel.run calls (List.replicate diff.toInt.toNat .timerUpdate)).map fun w => ⟨w, cp⟩
  else some s

/-- One call, where `gettime` answers as it says. -/
def step (s : ClockedWheel) : ClockOp → Option ClockedWheel
  | .addTimer c => (s.wheel.addTimer calls c).map fun w => ⟨w, s.currentPoint⟩
  | .expireTimer cp => s.expireTimer calls cp

/-- A run of calls. -/
def run (s : ClockedWheel) (ops : List ClockOp) : Option ClockedWheel :=
  ops.foldlM (step calls) s

/-- Calls of `expire_timer` with the readings `cps`, and nothing in between. -/
def expireAll (s : ClockedWheel) (cps : List UInt64) : Option ClockedWheel :=
  cps.foldlM (expireTimer calls) s

end ClockedWheel

/-! ## Readings -/

/-- The readings of the clock. -/
def readings (ops : List ClockOp) : List UInt64 :=
  ops.filterMap fun op => match op with
    | .addTimer _ => none
    | .expireTimer cp => some cp

/-- After the reading `p`, the readings `cps` do not go back. -/
def Nondecreasing : UInt64 → List UInt64 → Prop
  | _, [] => True
  | p, cp :: cps => p.toNat ≤ cp.toNat ∧ Nondecreasing cp cps

/-- No gap between two readings is `2 ^ 31` or more. -/
def Frequent : UInt64 → List UInt64 → Prop
  | _, [] => True
  | p, cp :: cps => cp.toNat - p.toNat < 2 ^ 31 ∧ Frequent cp cps

/-- The latest reading. -/
def latest (p : UInt64) (cps : List UInt64) : UInt64 :=
  cps.getLastD p

theorem latest_cons (p cp : UInt64) (cps : List UInt64) :
    latest p (cp :: cps) = latest cp cps := by
  rw [latest, List.getLastD_cons, latest]

theorem Nondecreasing.le_latest : ∀ {p : UInt64} {cps : List UInt64}, Nondecreasing p cps →
    p.toNat ≤ (latest p cps).toNat
  | _, [], _ => le_refl _
  | p, cp :: cps, ⟨hle, h⟩ => by
    rw [latest_cons]
    exact hle.trans h.le_latest

/-- The `int` of `expire_timer`, for a small gap. -/
theorem toNat_diff {p cp : UInt64} (hle : p.toNat ≤ cp.toNat) (hgap : cp.toNat - p.toNat < 2 ^ 31) :
    (cp - p).toUInt32.toInt32.toInt.toNat = cp.toNat - p.toNat := by
  have hsub : (cp - p).toNat = cp.toNat - p.toNat := UInt64.toNat_sub_of_le _ _ hle
  have hnat : (cp - p).toUInt32.toBitVec.toNat = cp.toNat - p.toNat := by
    change (cp - p).toUInt32.toNat = _
    rw [UInt64.toNat_toUInt32, hsub]
    omega
  have hcond := BitVec.toInt_eq_toNat_cond (cp - p).toUInt32.toBitVec
  have hint : (cp - p).toUInt32.toInt32.toInt = (cp - p).toUInt32.toBitVec.toInt := rfl
  rw [hnat] at hcond
  rw [hint, hcond]
  split <;> omega

namespace ClockedWheel

open TimeWheel

/-! ## How often the clock is read -/

section Batches

variable {calls : ℕ → List TimerCall} {s : ClockedWheel}

/-- Ticks. -/
def updates (n : ℕ) : List TimerOp :=
  List.replicate n .timerUpdate

theorem expireTimer_eq {cp : UInt64} (hle : s.currentPoint.toNat ≤ cp.toNat)
    (hgap : cp.toNat - s.currentPoint.toNat < 2 ^ 31) :
    s.expireTimer calls cp = (s.wheel.run calls
      (updates (cp.toNat - s.currentPoint.toNat))).map fun w => ⟨w, cp⟩ := by
  obtain ⟨w, p⟩ := s
  rw [expireTimer]
  split_ifs with hne
  · simp only [toNat_diff hle hgap]
    rfl
  · obtain rfl : cp = p := not_not.mp hne
    rw [Nat.sub_self]
    rfl

theorem run_updates_add (w : TimeWheel) (m n : ℕ) : w.run calls (updates (m + n)) =
    (w.run calls (updates m)).bind fun w' => w'.run calls (updates n) := by
  rw [updates, List.replicate_add, TimeWheel.run, List.foldlM_append]
  rfl

/-- Any number of calls does as many ticks as the clock has gone on. -/
theorem expireAll_eq : ∀ {cps : List UInt64} {s : ClockedWheel},
    Nondecreasing s.currentPoint cps → Frequent s.currentPoint cps →
    s.expireAll calls cps = (s.wheel.run calls
      (updates ((latest s.currentPoint cps).toNat - s.currentPoint.toNat))).map fun w =>
        ⟨w, latest s.currentPoint cps⟩
  | [], s, _, _ => by
    rw [show latest s.currentPoint [] = s.currentPoint from rfl, Nat.sub_self]
    rfl
  | cp :: cps, s, ⟨hle, hmono⟩, ⟨hgap, hfreq⟩ => by
    have hlatest := hmono.le_latest
    rw [latest_cons, expireAll, List.foldlM_cons, expireTimer_eq hle hgap]
    have hsplit : (latest cp cps).toNat - s.currentPoint.toNat =
        (cp.toNat - s.currentPoint.toNat) + ((latest cp cps).toNat - cp.toNat) := by omega
    rw [hsplit, run_updates_add, Option.map_bind]
    change (Option.map _ _).bind _ = _
    rw [Option.bind_map]
    refine Option.bind_congr fun w _ => ?_
    exact expireAll_eq (s := ⟨w, cp⟩) hmono hfreq

end Batches

/-! ## The wheel keeps up -/

section KeepsUp

/-- A wheel without its records. -/
def forget (w : TimeWheel) : TimeWheel :=
  { w with taken := [], called := [] }

/-- The wheel is in order, whatever was called. -/
def InOrder (now : ℕ) (w : TimeWheel) : Prop :=
  Ready now (forget w)

/-- Callbacks that do not use the wheel. -/
def unused : ℕ → List TimerCall :=
  fun _ => []

variable {now : ℕ} {w : TimeWheel}

theorem Ready.inOrder (h : Ready now w) : InOrder now w := by
  have hids : (forget w).ids = Function.update w.ids none [] := by
    ext1 p
    rcases p with _ | l
    · rw [Function.update_self]
      rfl
    · rw [Function.update_of_ne (by simp)]
      rfl
  refine ⟨⟨h.1.clock, h.1.kept, ?_, ?_, fun e he => absurd he List.not_mem_nil, rfl⟩, h.2⟩
  · rw [hids]
    exact h.1.apart.update List.nodup_nil fun i hi => absurd hi List.not_mem_nil
  · intro p i hi
    rcases p with _ | l
    · exact absurd hi List.not_mem_nil
    · exact h.1.below (some l) i hi

/-- A wheel is what it is without its records, with them before. -/
theorem before_forget (w : TimeWheel) :
    (History.mk 0 w.taken w.called).before (forget w) = w := by
  have hnode : (History.mk 0 w.taken w.called).node = id := by
    ext1 n
    simp [History.node]
  simp [History.before, hnode, forget]

theorem forget_before (taken : List (TimeNode × UInt32)) (called : List TimeNode)
    (v : TimeWheel) : forget ((History.mk 0 taken called).before v) = forget v := by
  have hnode : (History.mk 0 taken called).node = id := by
    ext1 n
    simp [History.node]
  simp [History.before, hnode, forget]

/-- Ticks, and timers with a positive delay, keep the wheel in order. -/
theorem InOrder.run (h : InOrder now w) {ops : List TimerOp} (hops : TimeWheel.Positive ops) :
    ∃ w', w.run unused ops = some w' ∧ InOrder (now + ticks ops) w' := by
  have hcalls : ∀ k, ∀ c ∈ unused k, 0 < c.time := fun _ _ hc => absurd hc List.not_mem_nil
  obtain ⟨v, hv, hruns⟩ := run_spec hcalls hops h
  refine ⟨(History.mk 0 w.taken w.called).before v, ?_, ?_⟩
  · conv_lhs => rw [← before_forget w]
    rw [run_before, show (History.mk 0 w.taken w.called).later unused = unused from rfl, hv]
    rfl
  · rw [InOrder, forget_before]
    exact Ready.inOrder hruns.ready

theorem InOrder.addTimer (h : InOrder now w) (c : TimerCall) :
    ∃ w', w.addTimer unused c = some w' ∧ InOrder now w' := by
  by_cases hpos : 0 < c.time
  · have hops : TimeWheel.Positive [.addTimer c] := by
      intro c' hc'
      rw [List.mem_singleton, TimerOp.addTimer.injEq] at hc'
      exact hc' ▸ hpos
    obtain ⟨w', hw', horder⟩ := h.run hops
    refine ⟨w', ?_, horder⟩
    simpa [TimeWheel.run, TimeWheel.step] using hw'
  · have hlock : w.lock = false := h.2
    refine ⟨{ w with
      allocated := w.allocated + 1
      lock := false
      called := w.called ++ [w.timerNode c] }, ?_, ?_⟩
    · rw [TimeWheel.addTimer]
      simp [spinlockLock, hlock, Int32.not_lt.mp hpos, unused, spinlockUnlock]
    · exact ⟨⟨h.1.clock, h.1.kept, h.1.apart,
        fun p i hi => (h.1.below p i hi).trans (Nat.lt_succ_self _), h.1.punctual, rfl⟩, rfl⟩

theorem ticks_updates (n : ℕ) : ticks (updates n) = n := by
  induction n with
  | zero => rfl
  | succ n ih =>
    rw [updates, List.replicate_succ, ticks]
    exact congrArg (· + 1) ih

theorem positive_updates (n : ℕ) : TimeWheel.Positive (updates n) :=
  fun _ hc => absurd (List.eq_of_mem_replicate hc) TimerOp.noConfusion

/-- The wheel is where the clock was when it was read last. -/
def UpToDate (t : UInt64) (s : ClockedWheel) : Prop :=
  t.toNat ≤ s.currentPoint.toNat ∧ InOrder (s.currentPoint.toNat - t.toNat) s.wheel

variable {t : UInt64} {s : ClockedWheel}

theorem UpToDate.expireAll (h : UpToDate t s) {cps : List UInt64}
    (hmono : Nondecreasing s.currentPoint cps) (hfreq : Frequent s.currentPoint cps) :
    ∃ s', s.expireAll unused cps = some s' ∧ UpToDate t s' ∧
      s'.currentPoint = latest s.currentPoint cps := by
  have hlatest := hmono.le_latest
  have hstart := h.1
  obtain ⟨w, hw, horder⟩ := h.2.run
    (positive_updates ((latest s.currentPoint cps).toNat - s.currentPoint.toNat))
  rw [expireAll_eq hmono hfreq, hw]
  refine ⟨_, rfl, ⟨hstart.trans hlatest, ?_⟩, rfl⟩
  rw [ticks_updates] at horder
  have hadd : s.currentPoint.toNat - t.toNat +
      ((latest s.currentPoint cps).toNat - s.currentPoint.toNat) =
      (latest s.currentPoint cps).toNat - t.toNat := by omega
  rwa [hadd] at horder

theorem UpToDate.run : ∀ (ops : List ClockOp) {s : ClockedWheel}, UpToDate t s →
    Nondecreasing s.currentPoint (readings ops) → Frequent s.currentPoint (readings ops) →
    ∃ s', s.run unused ops = some s' ∧ UpToDate t s' ∧
      s'.currentPoint = latest s.currentPoint (readings ops)
  | [], s, h, _, _ => ⟨s, rfl, h, rfl⟩
  | .addTimer c :: ops, s, h, hmono, hfreq => by
    obtain ⟨w, hw, horder⟩ := h.2.addTimer c
    have hnext : UpToDate t ⟨w, s.currentPoint⟩ := ⟨h.1, horder⟩
    obtain ⟨s', hs', hup, hpoint⟩ := UpToDate.run ops hnext hmono hfreq
    refine ⟨s', ?_, hup, hpoint⟩
    rw [ClockedWheel.run, List.foldlM_cons, step, hw]
    exact hs'
  | .expireTimer cp :: ops, s, h, hmono, hfreq => by
    have hmono1 : Nondecreasing s.currentPoint [cp] := ⟨hmono.1, trivial⟩
    have hfreq1 : Frequent s.currentPoint [cp] := ⟨hfreq.1, trivial⟩
    obtain ⟨s1, hs1, hup, hpoint⟩ := h.expireAll hmono1 hfreq1
    have hcp : s1.currentPoint = cp := hpoint
    obtain ⟨s', hs', hup', hpoint'⟩ := UpToDate.run ops hup
      (by rw [hcp]; exact hmono.2) (by rw [hcp]; exact hfreq.2)
    refine ⟨s', ?_, hup', ?_⟩
    · have hone : s.expireTimer unused cp = some s1 := by
        simpa [ClockedWheel.expireAll] using hs1
      rw [ClockedWheel.run, List.foldlM_cons, step, hone]
      exact hs'
    · rw [hpoint', hcp]
      exact (latest_cons _ _ _).symm

/-- `m_time` tells the time since the construction, and what later calls of `expire_timer`
fire depends only on the latest of their readings. -/
structure KeepsUp (t : UInt64) (s : ClockedWheel) : Prop where
  /-- The clock of the wheel is where the clock was. -/
  time : s.wheel.time.toNat = (s.currentPoint.toNat - t.toNat) % 2 ^ 32
  /-- Readings in between make no difference. -/
  batches : ∀ cps cps', Nondecreasing s.currentPoint cps → Frequent s.currentPoint cps →
    Nondecreasing s.currentPoint cps' → Frequent s.currentPoint cps' →
    latest s.currentPoint cps = latest s.currentPoint cps' →
    ∃ s', s.expireAll unused cps = some s' ∧ s.expireAll unused cps' = some s'

theorem UpToDate.steady (h : UpToDate t s) : KeepsUp t s := by
  refine ⟨h.2.1.clock, fun cps cps' hmono hfreq hmono' hfreq' hlatest => ?_⟩
  obtain ⟨s', hs', -⟩ := h.expireAll hmono hfreq
  refine ⟨s', hs', ?_⟩
  rw [← hs', expireAll_eq hmono hfreq, expireAll_eq hmono' hfreq', hlatest]

theorem upToDate_init (t : UInt64) : UpToDate t (init t) := by
  refine ⟨le_refl _, ?_⟩
  rw [show (init t).currentPoint.toNat - t.toNat = 0 from Nat.sub_self _]
  exact Ready.inOrder ready_init

/-- As long as the clock is read often enough, the wheel keeps up with it. -/
theorem keepsUp {ops : List ClockOp} (hmono : Nondecreasing t (readings ops))
    (hfreq : Frequent t (readings ops)) :
    ∃ s, (init t).run unused ops = some s ∧ s.currentPoint = latest t (readings ops) ∧
      KeepsUp t s := by
  obtain ⟨s, hs, hup, hpoint⟩ := UpToDate.run ops (upToDate_init t) hmono hfreq
  exact ⟨s, hs, hpoint, hup.steady⟩

/-- A timer, and readings 10 and 40 units after the construction. -/
theorem keepsUp_40 :
    ∃ s, (init 7).run unused
        [.addTimer ⟨20, 0, 0, zeroNode⟩, .expireTimer 17, .expireTimer 47] = some s ∧
      s.currentPoint = latest 7 [17, 47] ∧ KeepsUp 7 s := by
  have hmono : Nondecreasing 7 [17, 47] := ⟨by decide, by decide, trivial⟩
  have hfreq : Frequent 7 [17, 47] := ⟨by decide, by decide, trivial⟩
  have hops : readings [.addTimer ⟨20, 0, 0, zeroNode⟩, .expireTimer 17, .expireTimer 47] =
    [17, 47] := rfl
  rw [← hops] at hmono hfreq
  exact keepsUp hmono hfreq

/-- After `2 ^ 31` units the clock of the wheel has not moved. -/
theorem not_keepsUp_gap :
    ¬∀ (t : UInt64) (ops : List ClockOp), Nondecreasing t (readings ops) →
      ∃ s, (init t).run unused ops = some s ∧ s.currentPoint = latest t (readings ops) ∧
        KeepsUp t s := by
  intro hall
  obtain ⟨s, hs, -, hkeeps⟩ := hall 0 [.expireTimer 2147483648] ⟨by decide, trivial⟩
  have hgap : ((2147483648 : UInt64) - 0).toUInt32.toInt32.toInt.toNat = 0 := by decide
  have hrun : (init 0).run unused [.expireTimer 2147483648] =
      some ⟨TimeWheel.init, 2147483648⟩ := by
    rw [ClockedWheel.run, List.foldlM_cons, step, expireTimer, if_pos (by decide)]
    simp only [init, hgap]
    rfl
  obtain rfl := Option.some.inj (hrun.symm.trans hs)
  exact absurd hkeeps.time (by decide)

end KeepsUp

end ClockedWheel

end WzxServer
