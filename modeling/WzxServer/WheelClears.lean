import WzxServer.WheelEnds
import WzxServer.WheelHistory

/-!
# What `clear_timer` leaves

`clear_timer` clears all lists of the four levels, but only the first of the near lists. By
`clears_iff` the wheel is as good as new after it if and only if the other near lists were
empty : then all that is left of the wheel is its clock and its history, and it does what a
new wheel does (`run_before`). What is in an other near list is dispatched when the clock
comes to it (`exists_run_taken`).

For the first half the wheel after `clear_timer` is a new one with the same clock and records
(`clearTimer_eq`), in which no list has a node. For the second a run has to be found : ticks
without anything else bring the clock to the list within a turn of the near lists, and the levels
stay empty on the way (`run_idle`).
-/

namespace WzxServer

/-- What is done with a wheel between its ticks. -/
inductive WheelOp where
  /-- A tick, or a timer. -/
  | op (o : TimerOp)
  /-- A timer with the other overload. -/
  | addTimerPrepare (c : TimerCall)
  /-- A timer is cancelled. -/
  | delTimer (id : ℕ)
  /-- The wheel is cleared. -/
  | clearTimer

namespace TimeWheel

/-- One call. -/
def perform (calls : ℕ → List TimerCall) (w : TimeWheel) : WheelOp → Option TimeWheel
  | .op o => w.step calls o
  | .addTimerPrepare c => w.addTimerPrepare c
  | .delTimer id => some (w.delTimer id)
  | .clearTimer => some w.clearTimer

/-- The states of a wheel between the operations, whatever callbacks do. -/
inductive Reached : TimeWheel → Prop
  | init : Reached init
  | perform {w w' : TimeWheel} (h : Reached w) {calls : ℕ → List TimerCall} {o : WheelOp}
      (hw : w.perform calls o = some w') : Reached w'

/-- A new wheel whose clock shows `time`. -/
def fresh (time : UInt32) : TimeWheel :=
  { init with time := time }

/-- After `clear_timer`, nothing that was in the wheel is dispatched, and the wheel does what
a new one does. -/
structure Clears (w : TimeWheel) : Prop where
  /-- No node that was in a list is dispatched after it. -/
  never : ∀ calls ops w', w.clearTimer.run calls ops = some w' →
    ∀ e ∈ w'.taken.drop w.taken.length, ∀ l, ∀ n ∈ w.head l, e.1.id ≠ n.id
  /-- Whatever is done next, a new wheel with the same clock does the same. -/
  asNew : ∀ calls ops, w.clearTimer.run calls ops =
    ((fresh w.time).run (w.history.later calls) ops).map w.history.before

/-! ## The lists are those of the arrays -/

/-- `&m_near[idx]` or `&m_t[level][idx]` with indices in range. -/
def InArrays : LinkList → Prop
  | .near idx => idx < 256
  | .t level idx => level < 4 ∧ idx < 64

/-- The nodes are in lists of the wheel, and were allocated before. -/
def Sane (w : TimeWheel) : Prop :=
  ∀ l, ∀ n ∈ w.head l, InArrays l ∧ n.id < w.allocated

section Sane

variable {w w' : TimeWheel} {calls : ℕ → List TimerCall}

theorem inArrays_linkListOf (time current : UInt32) : InArrays (linkListOf time current) := by
  have h63 : ∀ x : UInt32, (x &&& 63).toNat < 64 := by
    intro x
    rw [toNat_and_63]
    omega
  have h255 : (time &&& 255).toNat < 256 := by
    rw [toNat_and_255]
    omega
  unfold linkListOf
  simp only
  split_ifs
  · exact h255
  · exact ⟨by omega, h63 _⟩
  · exact ⟨by omega, h63 _⟩
  · exact ⟨by omega, h63 _⟩
  · exact ⟨by omega, h63 _⟩

theorem Sane.setHead (h : Sane w) {l : LinkList} {nodes : List TimeNode}
    (hsub : ∀ n ∈ nodes, n ∈ w.head l) : Sane (w.setHead l nodes) := by
  intro l' n hn
  rcases eq_or_ne l' l with rfl | hne
  · rw [head_setHead_self] at hn
    exact h _ n (hsub n hn)
  · rw [head_setHead_of_ne _ _ hne] at hn
    exact h l' n hn

theorem Sane.addNode (h : Sane w) {n : TimeNode} (hn : n.id < w.allocated) :
    Sane (w.addNode n) := by
  intro l m hm
  rcases eq_or_ne l (linkListOf n.expire w.time) with rfl | hne
  · refine ⟨inArrays_linkListOf _ _, ?_⟩
    rcases List.mem_append.mp (head_link_self w _ n ▸ hm) with hm | hm
    · exact (h _ m hm).2
    · exact List.mem_singleton.mp hm ▸ hn
  · exact h l m (head_link_of_ne w n hne ▸ hm)

theorem Sane.allocate (h : Sane w) (b : Bool) :
    Sane { w with allocated := w.allocated + 1, lock := b } :=
  fun l n hn => ⟨(h l n hn).1, (h l n hn).2.trans (Nat.lt_succ_self _)⟩

theorem spinlockLock_eq_some (hw : spinlockLock w = some w') :
    w.lock = false ∧ w' = { w with lock := true } := by
  unfold spinlockLock at hw
  split_ifs at hw with hlock
  exact ⟨Bool.not_eq_true _ ▸ hlock, (Option.some.inj hw).symm⟩

theorem sane_addTimer {c : TimerCall} (h : Sane w) (hw : w.addTimer calls c = some w') :
    Sane w' := by
  unfold addTimer at hw
  obtain ⟨w1, hw1, hw⟩ := Option.bind_eq_some_iff.mp hw
  obtain ⟨-, rfl⟩ := spinlockLock_eq_some hw1
  split_ifs at hw
  · obtain rfl := Option.some.inj hw
    exact h.allocate false
  · obtain rfl := Option.some.inj hw
    exact (h.allocate true).addNode (Nat.lt_succ_self _)

theorem sane_addTimers : ∀ {cs : List TimerCall} {w : TimeWheel}, Sane w →
    cs.foldlM (addTimer calls) w = some w' → Sane w'
  | [], _, h, hw => Option.some.inj hw ▸ h
  | c :: cs, w, h, hw => by
    rw [List.foldlM_cons] at hw
    obtain ⟨w1, hw1, hw⟩ := Option.bind_eq_some_iff.mp hw
    exact sane_addTimers (sane_addTimer h hw1) hw

theorem sane_dispatchNode {n : TimeNode} (h : Sane w) (hw : dispatchNode calls n w = some w') :
    Sane w' := by
  unfold dispatchNode at hw
  simp only at hw
  split_ifs at hw
  · have hcalled : Sane { w with
        taken := w.taken ++ [(n, w.time)]
        called := w.called ++ [n] } := h
    exact sane_addTimers hcalled hw
  · obtain rfl := Option.some.inj hw
    exact h

theorem sane_timerExecute (h : Sane w) (hw : timerExecute calls w = some w') : Sane w' := by
  unfold timerExecute at hw
  simp only at hw
  split_ifs at hw
  · exact Option.some.inj hw ▸ h
  · obtain ⟨w1, hw1, hw⟩ := Option.bind_eq_some_iff.mp hw
    obtain ⟨-, rfl⟩ := spinlockLock_eq_some hw
    have hfree : Sane (spinlockUnlock w) := h
    have hdispatched : Sane w1 := by
      refine Drain.turns_rule ?_ hfree (Drain.turns_of_drain hw1).1
      intro v v' n rest hv hget hbody
      refine sane_dispatchNode (hv.setHead fun m hm => ?_) hbody
      exact (show v.head _ = n :: rest from hget) ▸ List.mem_cons_of_mem n hm
    exact hdispatched

theorem sane_moveList {level idx : ℕ} (h : Sane w) (hw : w.moveList level idx = some w') :
    Sane w' := by
  refine Drain.turns_rule ?_ h (Drain.turns_of_drain hw).1
  intro v v' n rest hv hget hbody
  have hhead : v.head (.t level idx) = n :: rest := hget
  obtain rfl := Option.some.inj hbody
  refine (hv.setHead fun m hm => hhead ▸ List.mem_cons_of_mem n hm).addNode ?_
  exact (hv _ n (hhead ▸ List.mem_cons_self)).2

theorem sane_timerShift (h : Sane w) (hw : w.timerShift = some w') : Sane w' := by
  have htick : Sane { w with time := w.time + 1 } := h
  rcases timerShift_moves w with ⟨level, idx, -, hmoves⟩ | hstays
  · exact sane_moveList htick (hmoves ▸ hw)
  · exact Option.some.inj (hstays.symm.trans hw) ▸ htick

/-- Between the operations the lock is free, and the nodes are in lists of the wheel. -/
theorem Reached.sane (h : Reached w) : w.lock = false ∧ Sane w := by
  induction h with
  | init => exact ⟨rfl, fun l n hn => absurd hn List.not_mem_nil⟩
  | @perform w w' _ calls o hw ih =>
    obtain ⟨hlock, hsane⟩ := ih
    cases o with
    | op o =>
      cases o with
      | timerUpdate =>
        obtain ⟨w1, hw1, hrest⟩ := Option.bind_eq_some_iff.mp hw
        obtain ⟨w2, hw2, hrest⟩ := Option.bind_eq_some_iff.mp hrest
        obtain ⟨w3, hw3, hrest⟩ := Option.bind_eq_some_iff.mp hrest
        obtain ⟨w4, hw4, hlast⟩ := Option.bind_eq_some_iff.mp hrest
        obtain ⟨-, rfl⟩ := spinlockLock_eq_some hw1
        obtain rfl := Option.some.inj hlast
        have hlocked : Sane { w with lock := true } := hsane
        have hdone : Sane w4 :=
          sane_timerExecute (sane_timerShift (sane_timerExecute hlocked hw2) hw3) hw4
        exact ⟨rfl, hdone⟩
      | addTimer c =>
        refine ⟨?_, sane_addTimer hsane hw⟩
        obtain ⟨w1, -, hlast⟩ := Option.bind_eq_some_iff.mp hw
        split_ifs at hlast <;> exact Option.some.inj hlast ▸ rfl
    | addTimerPrepare c =>
      obtain ⟨w1, hw1, hlast⟩ := Option.bind_eq_some_iff.mp hw
      obtain ⟨-, rfl⟩ := spinlockLock_eq_some hw1
      obtain rfl := Option.some.inj hlast
      exact ⟨rfl, (hsane.allocate true).addNode (Nat.lt_succ_self _)⟩
    | delTimer id =>
      obtain rfl := Option.some.inj hw
      refine ⟨hlock, fun l n hn => ?_⟩
      obtain ⟨m, hm, rfl⟩ := List.mem_map.mp hn
      have hm' := hsane l m hm
      split_ifs <;> exact hm'
    | clearTimer =>
      obtain rfl := Option.some.inj hw
      refine ⟨hlock, ?_⟩
      rintro (idx | ⟨level, idx⟩) n hn
      · simp only [clearTimer] at hn
        split_ifs at hn
        · exact absurd hn List.not_mem_nil
        · exact hsane _ n hn
      · simp only [clearTimer] at hn
        split_ifs at hn
        · exact absurd hn List.not_mem_nil
        · exact hsane _ n hn

end Sane

/-! ## What is left -/

section Clears

variable {w : TimeWheel}

theorem head_clearTimer_t (hsane : Sane w) (level idx : ℕ) :
    w.clearTimer.head (.t level idx) = [] := by
  simp only [clearTimer]
  split_ifs with hin
  · rfl
  · refine List.eq_nil_iff_forall_not_mem.mpr fun n hn => hin ?_
    exact (hsane _ n hn).1

/-- The near lists but the first were empty. -/
def OnlyFirst (w : TimeWheel) : Prop :=
  ∀ idx, idx ≠ 0 → w.head (.near idx) = []

/-- A wheel of which all lists were cleared is a new one, but for its clock and history. -/
theorem clearTimer_eq (hlock : w.lock = false) (hsane : Sane w) (hfirst : OnlyFirst w) :
    w.clearTimer = w.history.before (fresh w.time) := by
  have hhead : w.clearTimer.head = (w.history.before (fresh w.time)).head := by
    ext1 l
    rw [head_before]
    rcases l with idx | ⟨level, idx⟩
    · by_cases hidx : idx = 0
      · exact if_pos hidx
      · exact (if_neg hidx).trans (hfirst idx hidx)
    · exact head_clearTimer_t hsane level idx
  have htaken : w.taken = w.taken ++ [] := (List.append_nil _).symm
  have hcalled : w.called = w.called ++ [] := (List.append_nil _).symm
  rw [TimeWheel.mk.injEq]
  exact ⟨hhead, rfl, hlock, rfl, htaken, hcalled⟩

theorem clears_of_onlyFirst (hlock : w.lock = false) (hsane : Sane w) (hfirst : OnlyFirst w) :
    Clears w := by
  have hrun : ∀ calls ops, w.clearTimer.run calls ops =
      ((fresh w.time).run (w.history.later calls) ops).map w.history.before := by
    intro calls ops
    rw [clearTimer_eq hlock hsane hfirst, run_before]
  refine ⟨fun calls ops w' hw' e he l n hn heq => ?_, hrun⟩
  obtain ⟨v, -, rfl⟩ := Option.map_eq_some_iff.mp ((hrun calls ops).symm.trans hw')
  have hnew : (w.history.before v).taken.drop w.taken.length =
      v.taken.map fun e => (w.history.node e.1, e.2) := by
    simp [History.before, history]
  rw [hnew] at he
  obtain ⟨e', -, rfl⟩ := List.mem_map.mp he
  have hid : w.allocated + e'.1.id = n.id := heq
  have hbelow := (hsane l n hn).2
  omega

/-! ## What is still dispatched -/

/-- A callback that does nothing. -/
def idle : ℕ → List TimerCall :=
  fun _ => []

/-- `w'` is `w` after nodes left the near lists and were taken out. -/
structure Loses (w w' : TimeWheel) : Prop where
  /-- Nothing comes into the levels. -/
  levels : ∀ level idx, w.head (.t level idx) = [] → w'.head (.t level idx) = []
  taken : w.taken <+: w'.taken
  /-- A node that is not in its list any more was taken out. -/
  kept : ∀ l, ∀ n ∈ w.head l, n ∈ w'.head l ∨ n ∈ (w'.taken.drop w.taken.length).map Prod.fst

theorem Loses.refl (w : TimeWheel) : Loses w w :=
  ⟨fun _ _ hnil => hnil, List.prefix_refl _, fun _ _ hn => Or.inl hn⟩

theorem Loses.trans {w1 w2 : TimeWheel} (h : Loses w w1) (h' : Loses w1 w2) : Loses w w2 := by
  refine ⟨fun level idx hnil => h'.levels _ _ (h.levels _ _ hnil), h.taken.trans h'.taken, ?_⟩
  obtain ⟨new, hnew⟩ := h.taken
  obtain ⟨new', hnew'⟩ := h'.taken
  have hdrop1 : w1.taken.drop w.taken.length = new := by rw [← hnew, List.drop_left]
  have hdrop2 : w2.taken.drop w1.taken.length = new' := by rw [← hnew', List.drop_left]
  have hdrop : w2.taken.drop w.taken.length = new ++ new' := by
    rw [← hnew', ← hnew, List.append_assoc, List.drop_left]
  intro l n hn
  rw [hdrop, List.map_append, List.mem_append]
  rcases h.kept l n hn with hn | hn
  · rcases h'.kept l n hn with hn | hn
    · exact Or.inl hn
    · exact Or.inr (Or.inr (hdrop2 ▸ hn))
  · exact Or.inr (Or.inl (hdrop1 ▸ hn))

theorem dispatchNode_idle (n : TimeNode) (w : TimeWheel) :
    dispatchNode idle n w = some (w.takeOut n) := by
  rw [dispatchNode_eq]
  simp [idle]

theorem dispatchList_idle (w : TimeWheel) (idx : ℕ) :
    ∃ w', dispatchList idle w (.near idx) = some w' ∧ Loses w w' ∧ w'.time = w.time ∧
      w'.lock = w.lock ∧ w'.head (.near idx) = [] := by
  let I : List TimeNode → TimeWheel → Prop := fun rest v =>
    v.head (.near idx) = rest ∧ v.time = w.time ∧ v.lock = w.lock ∧
      (∀ l ≠ .near idx, v.head l = w.head l) ∧
      ∃ done, w.head (.near idx) = done ++ rest ∧
        v.taken = w.taken ++ done.map fun n => (n, w.time)
  have hturn : ∀ n rest v, I (n :: rest) v →
      ∃ v', dispatchNode idle n ((queue (.near idx)).set v rest) = some v' ∧ I rest v' := by
    rintro n rest v ⟨-, htime, hlock, hother, done, hdone, htaken⟩
    refine ⟨_, dispatchNode_idle n _, head_setHead_self _ _ _, htime, hlock, ?_, done ++ [n],
      ?_, ?_⟩
    · intro l hl
      exact (head_setHead_of_ne _ _ hl).trans (hother l hl)
    · rw [hdone, List.append_assoc, List.singleton_append]
    · change v.taken ++ [(n, v.time)] = _
      rw [htaken, htime, List.map_append, List.append_assoc]
      rfl
  obtain ⟨w', hw', hhead, htime, hlock, hother, done, hdone, htaken⟩ := Drain.drain_rule
    (queue (.near idx)) (dispatchNode idle) I (fun _ _ hI => hI.1) hturn
    ⟨rfl, rfl, rfl, fun _ _ => rfl, [], rfl, by simp⟩ (le_refl _)
  refine ⟨w', hw', ⟨?_, htaken ▸ List.prefix_append _ _, ?_⟩, htime, hlock, hhead⟩
  · intro level j hnil
    rw [hother _ LinkList.noConfusion, hnil]
  · intro l n hn
    rcases eq_or_ne l (.near idx) with rfl | hne
    · rw [hdone, List.append_nil] at hn
      refine Or.inr ?_
      rw [htaken, List.drop_left]
      simpa using hn
    · exact Or.inl ((hother l hne).symm ▸ hn)

theorem timerExecute_idle (hlock : w.lock = true) :
    ∃ w', timerExecute idle w = some w' ∧ Loses w w' ∧ w'.time = w.time ∧ w'.lock = true ∧
      w'.head (.near (w.time &&& 255).toNat) = [] := by
  unfold timerExecute
  simp only
  split_ifs with hnil
  · exact ⟨w, rfl, Loses.refl w, rfl, hlock, List.isEmpty_iff.mp hnil⟩
  · obtain ⟨w', hw', hloses, htime, hfree, hhead⟩ :=
      dispatchList_idle (spinlockUnlock w) (w.time &&& 255).toNat
    have hfree' : w'.lock = false := hfree
    refine ⟨{ w' with lock := true }, ?_, ⟨hloses.levels, hloses.taken, hloses.kept⟩, htime, rfl,
      hhead⟩
    rw [hw']
    simp [spinlockLock, hfree']

theorem timerShift_nil (hlevels : ∀ level idx, w.head (.t level idx) = []) :
    w.timerShift = some { w with time := w.time + 1 } := by
  rcases timerShift_moves w with ⟨level, idx, -, hmoves⟩ | hstays
  · rw [hmoves, moveList]
    exact Drain.drain_nil (hlevels level idx)
  · exact hstays

/-- A tick of a wheel with nothing in its levels. -/
theorem timerUpdate_idle (hlock : w.lock = false)
    (hlevels : ∀ level idx, w.head (.t level idx) = []) :
    ∃ w', timerUpdate idle w = some w' ∧ Loses w w' ∧ w'.time = w.time + 1 ∧ w'.lock = false ∧
      w'.head (.near (w'.time &&& 255).toNat) = [] := by
  have hw0 : spinlockLock w = some { w with lock := true } := by
    rw [spinlockLock, hlock]
    rfl
  obtain ⟨w1, hw1, hloses1, htime1, hlock1, -⟩ :=
    timerExecute_idle (w := { w with lock := true }) rfl
  have hlevels1 := fun level idx => hloses1.levels level idx (hlevels level idx)
  obtain ⟨w2, hw2, hloses2, htime2, -, hhead⟩ :=
    timerExecute_idle (w := { w1 with time := w1.time + 1 }) hlock1
  have hloses : Loses w w2 := by
    have hfirst : Loses w { w1 with time := w1.time + 1 } :=
      ⟨hloses1.levels, hloses1.taken, hloses1.kept⟩
    exact hfirst.trans hloses2
  refine ⟨spinlockUnlock w2, ?_, ⟨hloses.levels, hloses.taken, hloses.kept⟩, ?_, rfl, ?_⟩
  · rw [timerUpdate]
    simp only [hw0, Option.bind_eq_bind, Option.bind_some, hw1, timerShift_nil hlevels1, hw2]
  · exact htime2.trans (congrArg (· + 1) htime1)
  · change w2.head (.near (w2.time &&& 255).toNat) = []
    rwa [htime2]

/-- Ticks of a wheel with nothing in its levels. -/
theorem run_idle : ∀ (k : ℕ) {w : TimeWheel} {now : ℕ}, w.lock = false →
    (∀ level idx, w.head (.t level idx) = []) → w.time.toNat = now % 2 ^ 32 →
    ∃ w', w.run idle (List.replicate k .timerUpdate) = some w' ∧ Loses w w' ∧
      w'.time.toNat = (now + k) % 2 ^ 32 ∧
      (k ≠ 0 → w'.head (.near ((now + k) % 256)) = [])
  | 0, w, now, _, _, htime => ⟨w, rfl, Loses.refl w, htime, fun h => absurd rfl h⟩
  | k + 1, w, now, hlock, hlevels, htime => by
    obtain ⟨w1, hw1, hloses1, htime1, hlock1, hhead1⟩ := timerUpdate_idle hlock hlevels
    have hlevels1 := fun level idx => hloses1.levels level idx (hlevels level idx)
    have hnow : w1.time.toNat = (now + 1) % 2 ^ 32 := by
      rw [htime1]
      exact toNat_succ htime
    obtain ⟨w2, hw2, hloses2, htime2, hhead2⟩ := run_idle k hlock1 hlevels1 hnow
    have hadd : now + 1 + k = now + (k + 1) := by omega
    rw [hadd] at htime2 hhead2
    refine ⟨w2, ?_, hloses1.trans hloses2, htime2, fun _ => ?_⟩
    · rw [List.replicate_succ, run, List.foldlM_cons]
      change (timerUpdate idle w).bind _ = _
      rw [hw1]
      exact hw2
    · rcases Nat.eq_zero_or_pos k with rfl | hk
      · have hidx : (w1.time &&& 255).toNat = (now + 1) % 256 := by
          rw [toNat_and_255, hnow]
          omega
        obtain rfl := Option.some.inj hw2
        exact hidx ▸ hhead1
      · exact hhead2 (Nat.ne_of_gt hk)

/-- What is in an other near list than the first is dispatched after `clear_timer`. -/
theorem exists_run_taken (hlock : w.lock = false) (hsane : Sane w) {idx : ℕ} (hidx : idx ≠ 0)
    {n : TimeNode} (hn : n ∈ w.head (.near idx)) :
    ∃ ops w', w.clearTimer.run idle ops = some w' ∧
      n ∈ (w'.taken.drop w.taken.length).map Prod.fst := by
  have hrange : idx < 256 := (hsane _ n hn).1
  have htime : w.clearTimer.time.toNat = w.time.toNat % 2 ^ 32 :=
    (Nat.mod_eq_of_lt w.time.toNat_lt).symm
  obtain ⟨w', hw', hloses, -, hhead⟩ := run_idle (idx + 256 - w.time.toNat % 256)
    (w := w.clearTimer) hlock (fun level j => head_clearTimer_t hsane level j) htime
  refine ⟨_, w', hw', ?_⟩
  have hclock : (w.time.toNat + (idx + 256 - w.time.toNat % 256)) % 256 = idx := by omega
  have hempty : w'.head (.near idx) = [] := by
    have hnil := hhead (by omega)
    rwa [hclock] at hnil
  have hstill : n ∈ w.clearTimer.head (.near idx) := by
    simp only [clearTimer]
    rwa [if_neg hidx]
  refine (hloses.kept _ n hstill).resolve_left fun hmem => ?_
  rw [hempty] at hmem
  exact absurd hmem List.not_mem_nil

theorem onlyFirst_of_never (hlock : w.lock = false) (hsane : Sane w)
    (h : ∀ calls ops w', w.clearTimer.run calls ops = some w' →
      ∀ e ∈ w'.taken.drop w.taken.length, ∀ l, ∀ n ∈ w.head l, e.1.id ≠ n.id) :
    OnlyFirst w := by
  intro idx hidx
  refine List.eq_nil_iff_forall_not_mem.mpr fun n hn => ?_
  obtain ⟨ops, w', hw', htaken⟩ := exists_run_taken hlock hsane hidx hn
  obtain ⟨e, he, rfl⟩ := List.mem_map.mp htaken
  exact h idle ops w' hw' e he _ e.1 hn rfl

/-- In every state of the wheel, `clear_timer` clears it if and only if nothing was in the near
lists but in the first. -/
theorem clears_iff (h : Reached w) : Clears w ↔ OnlyFirst w := by
  obtain ⟨hlock, hsane⟩ := h.sane
  exact ⟨fun hclears => onlyFirst_of_never hlock hsane hclears.never,
    clears_of_onlyFirst hlock hsane⟩

/-- The wheel after a timer of `time` ticks is set. -/
theorem reached_addTimer (c : TimerCall) (hpos : 0 < c.time) :
    ∃ w, init.addTimer idle c = some w ∧ Reached w ∧
      init.timerNode c ∈ w.head (linkListOf c.time.toUInt32 0) := by
  obtain ⟨w, hw, -, -, hn⟩ : ∃ w, init.addTimer idle c = some w ∧ Ready 0 w ∧ Adds 0 init w ∧
      init.timerNode c ∈ w.head (linkListOf (init.timerNode c).expire init.time) :=
    addTimer_ready ready_init hpos
  refine ⟨w, hw, Reached.init.perform (o := .op (.addTimer c)) hw, ?_⟩
  have hexpire : (init.timerNode c).expire = c.time.toUInt32 := UInt32.add_zero _
  rwa [hexpire] at hn

/-- A timer of 300 ticks. -/
theorem clears_iff_300 :
    ∃ w, init.addTimer idle ⟨300, 0, 0, zeroNode⟩ = some w ∧ (Clears w ↔ OnlyFirst w) := by
  obtain ⟨w, hw, hreached, -⟩ := reached_addTimer ⟨300, 0, 0, zeroNode⟩ (by decide)
  exact ⟨w, hw, clears_iff hreached⟩

/-- A timer of 5 ticks is in the fifth near list, and `clear_timer` leaves it there. -/
theorem not_clears_five : ¬∀ w, Reached w → Clears w := by
  intro hall
  obtain ⟨w, -, hreached, hn⟩ := reached_addTimer ⟨5, 0, 0, zeroNode⟩ (by decide)
  obtain ⟨hlock, hsane⟩ := hreached.sane
  have hfirst := onlyFirst_of_never hlock hsane (hall w hreached).never
  have hlist : linkListOf (5 : Int32).toUInt32 0 = .near 5 := by decide
  rw [hlist, hfirst 5 (by decide)] at hn
  exact absurd hn List.not_mem_nil

end Clears

end TimeWheel

end WzxServer
