import WzxServer.Timers

/-!
# `timer_update` ends

Three loops could go on for ever : the one of `timer_shift` over the levels, the one of
`move_list` over a list of a level, whose nodes are put into lists again, and the one of
`dispatch_list` over a near list, whose callbacks add timers. `timerUpdate_ends` says why they
do not, in every state of a wheel with positive delays : there are four levels, a node that is
moved comes to a lower level or to the near lists, and no timer is due at once.

Each reason is stated for the turns of its loop, as what gets smaller from one turn to the next
(`Ends`). `ShiftTurns` and the `Turns` of `Lib.Drain` are the states that the loops come
through, so that nothing is said of a bound on their number beforehand.
-/

namespace WzxServer

namespace TimeWheel

/-- The variables `mask`, `time` and `i` at the test of the loop of `timer_shift`. -/
inductive ShiftTurns (ct : UInt32) : UInt32 → UInt32 → ℕ → Prop
  | start : ShiftTurns ct 256 (ct >>> 8) 0
  | turn {mask time : UInt32} {i : ℕ} (h : ShiftTurns ct mask time i)
      (hmask : ct &&& (mask - 1) = 0) (hidx : (time &&& 63).toNat = 0) :
      ShiftTurns ct (mask <<< 6) (time >>> 6) (i + 1)

/-- The list that `timer_shift` calls `move_list` with. -/
inductive ShiftMoves (ct : UInt32) : ℕ → ℕ → Prop
  /-- The clock has wrapped around. -/
  | wrap (hct : ct = 0) : ShiftMoves ct 3 0
  /-- The first level that is not at its first list. -/
  | level (hct : ct ≠ 0) {mask time : UInt32} {i : ℕ} (h : ShiftTurns ct mask time i)
      (hmask : ct &&& (mask - 1) = 0) (hidx : (time &&& 63).toNat ≠ 0) :
      ShiftMoves ct i (time &&& 63).toNat

/-- While the wheel drains the list at its clock, callbacks put nothing into it. -/
def DrainsOnce (calls : ℕ → List TimerCall) (w : TimeWheel) : Prop :=
  let l := LinkList.near (w.time &&& 255).toNat
  ∀ v v' n rest, Drain.Turns (queue l) (dispatchNode calls) (spinlockUnlock w) v →
    v.head l = n :: rest → dispatchNode calls n (v.setHead l rest) = some v' → v'.head l = rest

/-- `move_list` puts every node it pops into a near list or one of a lower level. -/
def MovesDown (w : TimeWheel) (level idx : ℕ) : Prop :=
  ∀ v n rest, Drain.Turns (queue (.t level idx)) (fun n w => some (w.addNode n)) w v →
    v.head (.t level idx) = n :: rest → Below level (linkListOf n.expire v.time)

/-- `timer_update` returns, and the loops it comes through get shorter in every turn. -/
structure Ends (calls : ℕ → List TimerCall) (w : TimeWheel) : Prop where
  /-- No loop goes on for ever, and the lock is free when it is waited for. -/
  returns : ∃ w', w.timerUpdate calls = some w'
  /-- `timer_shift` comes through four levels at most. -/
  levels : ∀ ct : UInt32, ct ≠ 0 → ∀ mask time i, ShiftTurns ct mask time i → i ≤ 3
  /-- The first `timer_execute` finds its list as long as it was. -/
  drains : ∀ w1, spinlockLock w = some w1 → DrainsOnce calls w1
  /-- `move_list` puts nothing back into the list that it empties. -/
  moves : ∀ w1 w2, spinlockLock w = some w1 → w1.timerExecute calls = some w2 →
    ∀ level idx, ShiftMoves (w2.time + 1) level idx →
      MovesDown { w2 with time := w2.time + 1 } level idx
  /-- The second `timer_execute` finds its list as long as it was, too. -/
  drainsAgain : ∀ w1 w2 w3, spinlockLock w = some w1 → w1.timerExecute calls = some w2 →
    w2.timerShift = some w3 → DrainsOnce calls w3

/-! ## The levels -/

theorem ShiftTurns.atLevel {now : ℕ} {ct mask time : UInt32} {i : ℕ}
    (hct : ct.toNat = now % 2 ^ 32) (hne : ct ≠ 0) (h : ShiftTurns ct mask time i) :
    AtLevel now ct mask time i := by
  induction h with
  | start => exact atLevel_zero
  | turn _ hmask hidx ih => exact ih.next hct hne hmask hidx

theorem ShiftTurns.level_le {ct mask time : UInt32} {i : ℕ} (hne : ct ≠ 0)
    (h : ShiftTurns ct mask time i) : i ≤ 3 := by
  have hct : ct.toNat = ct.toNat % 2 ^ 32 := (Nat.mod_eq_of_lt ct.toNat_lt).symm
  exact Nat.le_of_lt_succ (h.atLevel hct hne).level

theorem moved_of_shiftMoves {now level idx : ℕ} {ct : UInt32} (hct : ct.toNat = now % 2 ^ 32)
    (h : ShiftMoves ct level idx) : moved now (.t level idx) := by
  cases h with
  | wrap hzero =>
    have hdvd : 64 * span 3 ∣ now := by
      rw [hzero] at hct
      exact Nat.dvd_of_mod_eq_zero hct.symm
    obtain ⟨q, rfl⟩ := hdvd
    refine ⟨by omega, ⟨64 * q, by rw [Nat.mul_comm 64, Nat.mul_assoc]⟩, ?_, Or.inr rfl⟩
    rw [Nat.mul_comm 64, Nat.mul_assoc, Nat.mul_div_cancel_left _ (span_pos 3),
      Nat.mul_mod_right]
  | level hne hturns hmask hidx => exact (hturns.atLevel hct hne).moved hct hmask hidx

/-- What `timer_shift` does with the list, or without one. -/
theorem timerShift_moves (w : TimeWheel) :
    (∃ level idx, ShiftMoves (w.time + 1) level idx ∧
      w.timerShift = { w with time := w.time + 1 }.moveList level idx) ∨
    w.timerShift = some { w with time := w.time + 1 } := by
  have hloop : ∀ {fuel i : ℕ} {mask time : UInt32} (hne : w.time + 1 ≠ 0), fuel + i = 4 →
      ShiftTurns (w.time + 1) mask time i →
      (∃ level idx, ShiftMoves (w.time + 1) level idx ∧
        shiftLoop { w with time := w.time + 1 } (w.time + 1) fuel mask time i =
          { w with time := w.time + 1 }.moveList level idx) ∨
      shiftLoop { w with time := w.time + 1 } (w.time + 1) fuel mask time i =
        some { w with time := w.time + 1 } := by
    intro fuel
    induction fuel with
    | zero =>
      intro i mask time hne hi hturns
      have hle := hturns.level_le hne
      omega
    | succ fuel ih =>
      intro i mask time hne hi hturns
      rw [shiftLoop]
      by_cases hmask : (w.time + 1) &&& (mask - 1) = 0
      · rw [if_pos hmask]
        by_cases hidx : (time &&& 63).toNat = 0
        · simp only [hidx, ne_eq, not_true_eq_false, if_false]
          exact ih hne (by omega) (hturns.turn hmask hidx)
        · simp only [ne_eq, hidx, not_false_eq_true, if_true]
          exact Or.inl ⟨i, _, .level hne hturns hmask hidx, rfl⟩
      · rw [if_neg hmask]
        exact Or.inr rfl
  rw [timerShift]
  by_cases hzero : w.time + 1 = 0
  · simp only [hzero, if_true]
    exact Or.inl ⟨3, 0, .wrap rfl, rfl⟩
  · simp only [hzero, if_false]
    exact hloop hzero rfl .start

/-! ## The lists -/

section Lists

variable {now : ℕ} {w : TimeWheel} {calls : ℕ → List TimerCall}

theorem drainsOnce_of_good (hcalls : ∀ k, ∀ c ∈ calls k, 0 < c.time)
    (h : Good (fun l d => Waits now d l) now w) : DrainsOnce calls w := by
  have hidx : (w.time &&& 255).toNat = now % 256 := by
    rw [toNat_and_255, h.clock]
    omega
  unfold DrainsOnce
  rw [hidx]
  -- the lock is free, and the wheel stays good
  let I : TimeWheel → Prop := fun v => Good (fun l d => Waits now d l) now v ∧ v.lock = false
  have hturn : ∀ v v' n rest, I v → v.head (.near (now % 256)) = n :: rest →
      dispatchNode calls n (v.setHead (.near (now % 256)) rest) = some v' →
      I v' ∧ v'.head (.near (now % 256)) = rest := by
    rintro v v' n rest ⟨hgood, hlock⟩ hhead hv'
    obtain ⟨v'', hv'', hgood', hdisp, hhead', -⟩ :=
      dispatchNode_spec hcalls hgood hlock hhead
    obtain rfl := Option.some.inj (hv'.symm.trans hv'')
    exact ⟨⟨hgood', hdisp.lock.trans hlock⟩, hhead'⟩
  intro l v v' n rest hturns hhead hv'
  have hI : I v := by
    refine Drain.turns_rule ?_ ⟨h.setLock false, rfl⟩ hturns
    exact fun u u' m rest' hu hget hbody => (hturn u u' m rest' hu hget hbody).1
  exact (hturn v v' n rest hI hhead hv').2

theorem movesDown_of_good {level idx : ℕ} (hmoved : moved (now + 1) (.t level idx))
    (h : Good (PlaceMoving now) (now + 1) w) : MovesDown w level idx := by
  intro v n rest hturns hhead
  have hgood : Good (PlaceMoving now) (now + 1) v := by
    refine Drain.turns_rule ?_ h hturns
    intro u u' m rest' hu hget hbody
    obtain rfl := Option.some.inj hbody
    exact (moveTurn_spec hmoved hu hget).2.1
  exact (moveTurn_spec hmoved hgood hhead).1

theorem Ready.ends (hcalls : ∀ k, ∀ c ∈ calls k, 0 < c.time) (h : Ready now w) :
    Ends calls w := by
  have hlocked := h.1.setLock true
  have hlock : spinlockLock w = some { w with lock := true } := by
    rw [spinlockLock, h.2]
    rfl
  have hidle : timerExecute calls { w with lock := true } = some { w with lock := true } := by
    have hidx : (w.time &&& 255).toNat = now % 256 := by
      rw [toNat_and_255, h.1.clock]
      omega
    rw [timerExecute]
    simp only [hidx, h.head_eq_nil, List.isEmpty_nil, if_true]
  refine ⟨?_, fun ct hne mask time i hturns => hturns.level_le hne, ?_, ?_, ?_⟩
  · obtain ⟨w', hw', -⟩ := timerUpdate_spec hcalls h
    exact ⟨w', hw'⟩
  · intro w1 hw1
    obtain rfl := Option.some.inj (hlock.symm.trans hw1)
    exact drainsOnce_of_good hcalls (hlocked.mono rfl h.1.clock fun _ _ _ _ hp => hp.1)
  · intro w1 w2 hw1 hw2 level idx hmoves
    obtain rfl := Option.some.inj (hlock.symm.trans hw1)
    obtain rfl := Option.some.inj (hidle.symm.trans hw2)
    have hclock : (w.time + 1).toNat = (now + 1) % 2 ^ 32 := toNat_succ h.1.clock
    exact movesDown_of_good (moved_of_shiftMoves hclock hmoves) hlocked.tick
  · intro w1 w2 w3 hw1 hw2 hw3
    obtain rfl := Option.some.inj (hlock.symm.trans hw1)
    obtain rfl := Option.some.inj (hidle.symm.trans hw2)
    obtain ⟨w', hw', hgood, -⟩ := timerShift_good hlocked
    obtain rfl := Option.some.inj (hw3.symm.trans hw')
    exact drainsOnce_of_good hcalls hgood

/-- In every state of a wheel with positive delays, `timer_update` ends. -/
theorem timerUpdate_ends (hcalls : ∀ k, ∀ c ∈ calls k, 0 < c.time) {ops : List TimerOp}
    (hops : Positive ops) : ∃ w, init.run calls ops = some w ∧ Ends calls w := by
  obtain ⟨w, hw, hruns⟩ := run_spec hcalls hops ready_init
  exact ⟨w, hw, hruns.ready.ends hcalls⟩

end Lists

/-- A callback that sets its timer again. -/
theorem timerUpdate_ends_again :
    ∃ w, init.run (fun _ => [⟨2, 0, 0, zeroNode⟩])
        [.addTimer ⟨1, 0, 0, zeroNode⟩, .timerUpdate] = some w ∧
      Ends (fun _ => [⟨2, 0, 0, zeroNode⟩]) w := by
  refine timerUpdate_ends (fun k c hc => ?_) fun c hc => ?_
  · rw [List.mem_singleton.mp hc]
    decide
  · simp only [List.mem_cons, TimerOp.addTimer.injEq, reduceCtorEq, List.not_mem_nil,
      or_false] at hc
    rw [hc]
    decide

end TimeWheel

end WzxServer
