import WzxServer.WheelTurns

/-!
# What the time wheel dispatches

`Good` is the invariant of the wheel, `Ready` its form between the operations. An operation
keeps it (`addTimer_ready`, `timerUpdate_spec`), and so does a run (`run_spec`), whatever
timers the callbacks add, as long as delays are positive.

So a node is taken out when it is due, and once (`run_punctual`). That it is taken out at all
depends on the list that it was put into : `dispatchedBy_iff`.

`Good` has a parameter, what may be in which list. Between the operations this is `Waits` or
`Stuck` of `WheelTurns`; while the lists are moved, and while the callbacks of a tick run, it is a
little more, and the functions in between are proved with the parameter that fits them. That no
node is in two lists or lost on the way is the same all along (`Lib.Places`).

A timer that comes to the first list of one of the lower levels stays there, since `timer_shift`
never moves this list. Which timers do depends on the clock and the delay only (`Late`).
-/

namespace WzxServer

namespace TimeWheel

open Places

/-- The allocations that are in a list, or were taken out. -/
def ids (w : TimeWheel) : Option LinkList → List ℕ
  | some l => (w.head l).map TimeNode.id
  | none => w.taken.map fun e => e.1.id

/-- The invariant of the wheel, with `Place l d` for what may be in list `l`. -/
structure Good (Place : LinkList → ℕ → Prop) (now : ℕ) (w : TimeWheel) : Prop where
  /-- `m_time` is the number of ticks, modulo `2 ^ 32`. -/
  clock : w.time.toNat = now % 2 ^ 32
  /-- A node is due when it says, in a list that is right for that, or in one that is never
  moved. -/
  kept : ∀ l, ∀ n ∈ w.head l, Stuck l ∨ ∃ d, n.expire.toNat = d % 2 ^ 32 ∧ Place l d
  /-- No allocation is in two lists, or in a list and taken out. -/
  apart : Apart w.ids
  /-- New allocations are new. -/
  below : ∀ p, ∀ i ∈ w.ids p, i < w.allocated
  /-- What was taken out was taken at its time. -/
  punctual : ∀ e ∈ w.taken, e.1.expire = e.2
  /-- Of what was taken out, all was called that was not cancelled. -/
  called : w.called = (w.taken.map Prod.fst).filter fun n => n.cancel = false

/-! ## Nodes that come and go -/

section Nodes

variable {Place : LinkList → ℕ → Prop} {now : ℕ} {w : TimeWheel} {n : TimeNode} {l : LinkList}

theorem ids_setHead (nodes : List TimeNode) : (w.setHead l nodes).ids =
    Function.update w.ids (some l) (nodes.map TimeNode.id) := by
  ext1 p
  rcases eq_or_ne p (some l) with rfl | hne
  · rw [Function.update_self]
    simp [ids]
  · rw [Function.update_of_ne hne]
    rcases p with _ | l'
    · rfl
    · have hl : l' ≠ l := fun h => hne (congrArg some h)
      simp [ids, head_setHead_of_ne _ _ hl]

/-- A node that is away may come to a list. -/
theorem Good.link (h : Good Place now w) (haway : Away w.ids n.id) (hid : n.id < w.allocated)
    (hn : Stuck l ∨ ∃ d, n.expire.toNat = d % 2 ^ 32 ∧ Place l d) :
    Good Place now (w.link l n) := by
  have hids : (w.link l n).ids =
      Function.update w.ids (some l) (w.ids (some l) ++ [n.id]) := by
    rw [TimeWheel.link, ids_setHead]
    simp [ids]
  refine ⟨h.clock, ?_, hids ▸ h.apart.push haway _, ?_, h.punctual, h.called⟩
  · intro l' m hm
    rcases eq_or_ne l' l with rfl | hne
    · rw [head_link_self] at hm
      rcases List.mem_append.mp hm with hm | hm
      · exact h.kept _ m hm
      · exact List.mem_singleton.mp hm ▸ hn
    · rw [head_link_of_ne _ _ hne] at hm
      exact h.kept _ m hm
  · intro p i hi
    rw [hids] at hi
    rcases eq_or_ne p (some l) with rfl | hne
    · rw [Function.update_self] at hi
      rcases List.mem_append.mp hi with hi | hi
      · exact h.below _ i hi
      · exact List.mem_singleton.mp hi ▸ hid
    · rw [Function.update_of_ne hne] at hi
      exact h.below _ i hi

/-- The first node of a list may leave it. -/
theorem Good.pop (h : Good Place now w) {rest : List TimeNode} (hl : w.head l = n :: rest) :
    Good Place now (w.setHead l rest) ∧ Away (w.setHead l rest).ids n.id ∧
      n.id < w.allocated := by
  have hids := ids_setHead (w := w) (l := l) rest
  have hfirst : w.ids (some l) = n.id :: rest.map TimeNode.id := by simp [ids, hl]
  have hpop := h.apart.pop hfirst
  rw [← hids] at hpop
  refine ⟨⟨h.clock, ?_, hpop.1, ?_, h.punctual, h.called⟩, hpop.2, ?_⟩
  · intro l' m hm
    rcases eq_or_ne l' l with rfl | hne
    · rw [head_setHead_self] at hm
      exact h.kept _ m (hl ▸ List.mem_cons_of_mem _ hm)
    · rw [head_setHead_of_ne _ _ hne] at hm
      exact h.kept _ m hm
  · intro p i hi
    rw [hids] at hi
    rcases eq_or_ne p (some l) with rfl | hne
    · rw [Function.update_self] at hi
      refine h.below (some l) i ?_
      simp only [ids, hl, List.map_cons]
      exact List.mem_cons_of_mem _ hi
    · rw [Function.update_of_ne hne] at hi
      exact h.below _ i hi
  · exact h.below (some l) n.id (by simp [ids, hl])

/-- The wheel after a node was taken out at its time, and called. -/
def takeOut (w : TimeWheel) (n : TimeNode) : TimeWheel :=
  { w with
    taken := w.taken ++ [(n, w.time)]
    called := w.called ++ if n.cancel = false then [n] else [] }

theorem Good.takeOut (h : Good Place now w) (haway : Away w.ids n.id) (hid : n.id < w.allocated)
    (htime : n.expire = w.time) : Good Place now (w.takeOut n) := by
  have hids : (w.takeOut n).ids = Function.update w.ids none (w.ids none ++ [n.id]) := by
    ext1 p
    rcases p with _ | l'
    · rw [Function.update_self]
      simp [ids, TimeWheel.takeOut]
    · rw [Function.update_of_ne (by simp)]
      rfl
  refine ⟨h.clock, h.kept, hids ▸ h.apart.push haway _, ?_, ?_, ?_⟩
  · intro p i hi
    rw [hids] at hi
    rcases eq_or_ne p none with rfl | hne
    · rw [Function.update_self] at hi
      rcases List.mem_append.mp hi with hi | hi
      · exact h.below _ i hi
      · exact List.mem_singleton.mp hi ▸ hid
    · rw [Function.update_of_ne hne] at hi
      exact h.below _ i hi
  · intro e he
    rcases List.mem_append.mp he with he | he
    · exact h.punctual e he
    · rw [List.mem_singleton.mp he]
      exact htime
  · rw [TimeWheel.takeOut]
    simp only [List.map_append, List.filter_append, ← h.called]
    rcases Bool.eq_false_or_eq_true n.cancel with hc | hc <;> simp [hc]

end Nodes

theorem Good.setLock {Place : LinkList → ℕ → Prop} {now : ℕ} {w : TimeWheel}
    (h : Good Place now w) (b : Bool) : Good Place now { w with lock := b } :=
  ⟨h.clock, h.kept, h.apart, h.below, h.punctual, h.called⟩

/-! ## Timers are added -/

/-- `w'` is `w` with timers added, none of them due now. -/
structure Adds (now : ℕ) (w w' : TimeWheel) : Prop where
  time : w'.time = w.time
  lock : w'.lock = w.lock
  taken : w'.taken = w.taken
  called : w'.called = w.called
  /-- No node is lost. -/
  grows : ∀ l, ∀ n ∈ w.head l, n ∈ w'.head l
  /-- The list that is being dispatched stays as it is. -/
  due : w'.head (.near (now % 256)) = w.head (.near (now % 256))

theorem Adds.refl (now : ℕ) (w : TimeWheel) : Adds now w w :=
  ⟨rfl, rfl, rfl, rfl, fun _ _ h => h, rfl⟩

theorem Adds.trans {now : ℕ} {w w' w'' : TimeWheel} (h : Adds now w w') (h' : Adds now w' w'') :
    Adds now w w'' :=
  ⟨h'.time.trans h.time, h'.lock.trans h.lock, h'.taken.trans h.taken, h'.called.trans h.called,
    fun l n hn => h'.grows l n (h.grows l n hn), h'.due.trans h.due⟩

section Adding

variable {Place : LinkList → ℕ → Prop} {now : ℕ} {w : TimeWheel} {c : TimerCall}

/-- How many ticks a timer is to wait. -/
def delay (c : TimerCall) : ℕ :=
  c.time.toInt.toNat

/-- Where the node of a new timer is put. -/
theorem timerNode_placed (h : w.time.toNat = now % 2 ^ 32) (hpos : 0 < c.time) :
    (w.timerNode c).expire.toNat = (now + delay c) % 2 ^ 32 ∧
      Placed now (now + delay c) (linkListOf (w.timerNode c).expire w.time) := by
  obtain ⟨hnat, hd0, hd31⟩ := toNat_toUInt32 hpos
  have hexpire : (w.timerNode c).expire.toNat = (now + delay c) % 2 ^ 32 := by
    rw [timerNode, UInt32.toNat_add, hnat, h, delay]
    omega
  exact ⟨hexpire, linkListOf_placed hexpire h (by omega) (by rw [delay]; omega)⟩

theorem Away.of_below (h : Good Place now w) : Away w.ids w.allocated :=
  fun p hp => lt_irrefl _ (h.below p _ hp)

theorem addTimer_spec (calls : ℕ → List TimerCall) (h : Good Place now w)
    (hlock : w.lock = false) (hpos : 0 < c.time)
    (hplace : ∀ l d, now < d → Waits now d l → Place l d) :
    ∃ w', w.addTimer calls c = some w' ∧ Good Place now w' ∧ Adds now w w' ∧
      w'.allocated = w.allocated + 1 ∧
      w.timerNode c ∈ w'.head (linkListOf (w.timerNode c).expire w.time) := by
  obtain ⟨hexpire, hplaced⟩ := timerNode_placed h.clock hpos
  obtain ⟨-, hd0, -⟩ := toNat_toUInt32 hpos
  have hlater : now < now + delay c := by
    rw [delay]
    omega
  have hw : w.addTimer calls c = some (spinlockUnlock
      ({ w with allocated := w.allocated + 1, lock := true }.addNode (w.timerNode c))) := by
    rw [addTimer]
    simp only [spinlockLock, hlock, Bool.false_eq_true, if_false, Option.bind_eq_bind,
      Option.bind_some]
    rw [if_neg (Int32.not_le.mpr hpos)]
  have hgood : Good Place now { w with allocated := w.allocated + 1, lock := true } :=
    ⟨h.clock, h.kept, h.apart, fun p i hi => (h.below p i hi).trans (Nat.lt_succ_self _),
      h.punctual, h.called⟩
  have hlink := hgood.link (n := w.timerNode c) (l := linkListOf (w.timerNode c).expire w.time)
    (Away.of_below h) (Nat.lt_succ_self _) ?_
  · refine ⟨_, hw, ⟨hlink.clock, hlink.kept, hlink.apart, hlink.below, hlink.punctual,
      hlink.called⟩, ⟨rfl, hlock.symm, rfl, rfl, fun l n hn => mem_head_link hn, ?_⟩, rfl, ?_⟩
    · refine head_link_of_ne _ _ ?_
      intro heq
      rw [← show _ = linkListOf (w.timerNode c).expire w.time from heq] at hplaced
      have hnear : Waits now (now + delay c) (.near (now % 256)) := hplaced
      exact hlater.ne' hnear.eq_now
    · exact mem_head_link_self { w with allocated := w.allocated + 1, lock := true } _ _
  · rcases hplaced.waits_or_stuck with hwaits | hstuck
    · exact Or.inr ⟨_, hexpire, hplace _ _ hlater hwaits⟩
    · exact Or.inl hstuck

/-- The calls that a callback makes. -/
theorem addTimers_spec (calls : ℕ → List TimerCall)
    (hplace : ∀ l d, now < d → Waits now d l → Place l d) :
    ∀ (cs : List TimerCall) {w : TimeWheel}, (∀ c ∈ cs, 0 < c.time) → Good Place now w →
      w.lock = false →
      ∃ w', cs.foldlM (addTimer calls) w = some w' ∧ Good Place now w' ∧ Adds now w w'
  | [], w, _, h, _ => ⟨w, rfl, h, Adds.refl now w⟩
  | c :: cs, w, hpos, h, hlock => by
    obtain ⟨w1, hw1, hgood1, hadds1, -⟩ :=
      addTimer_spec calls h hlock (hpos c List.mem_cons_self) hplace
    obtain ⟨w2, hw2, hgood2, hadds2⟩ := addTimers_spec calls hplace cs
      (fun c hc => hpos c (List.mem_cons_of_mem _ hc)) hgood1 (hadds1.lock.trans hlock)
    refine ⟨w2, ?_, hgood2, hadds1.trans hadds2⟩
    rw [List.foldlM_cons, hw1]
    exact hw2

end Adding

/-! ## The clock moves on -/

section Ticks

variable {now : ℕ} {w : TimeWheel}

/-- What may be in a list while the list that is moved is not yet empty. -/
def PlaceMoving (now : ℕ) (l : LinkList) (d : ℕ) : Prop :=
  (moved (now + 1) l ∧ Waits now d l ∧ now < d) ∨ (¬moved (now + 1) l ∧ Waits (now + 1) d l)

theorem Good.mono {Place Place' : LinkList → ℕ → Prop} {now' : ℕ} {w' : TimeWheel}
    (h : Good Place now w) (hw : w' = { w with time := w'.time, lock := w'.lock })
    (hclock : w'.time.toNat = now' % 2 ^ 32)
    (himp : ∀ l d, ∀ n ∈ w.head l, Place l d → Place' l d) : Good Place' now' w' := by
  have hids : w'.ids = w.ids := by rw [hw]; rfl
  have hhead : w'.head = w.head := by rw [hw]
  have htaken : w'.taken = w.taken := by rw [hw]
  have hcalled : w'.called = w.called := by rw [hw]
  have hall : w'.allocated = w.allocated := by rw [hw]
  refine ⟨hclock, ?_, hids ▸ h.apart, ?_, ?_, ?_⟩
  · intro l n hn
    rw [hhead] at hn
    rcases h.kept l n hn with hstuck | ⟨d, hd, hplace⟩
    · exact Or.inl hstuck
    · exact Or.inr ⟨d, hd, himp l d n hn hplace⟩
  · rw [hids, hall]
    exact h.below
  · rw [htaken]
    exact h.punctual
  · rw [hcalled, htaken]
    exact h.called

/-- `w'` is `w` with nodes moved from list to list. -/
structure Moves (w w' : TimeWheel) : Prop where
  time : w'.time = w.time
  lock : w'.lock = w.lock
  taken : w'.taken = w.taken
  called : w'.called = w.called
  allocated : w'.allocated = w.allocated

/-- A node of list `l` comes to an other list, which the clock will come to in time. -/
def Comes (now : ℕ) (l : LinkList) (n : TimeNode) (w' : TimeWheel) : Prop :=
  ∀ d, n.expire.toNat = d % 2 ^ 32 → Waits now d l → now < d →
    ∃ l' ≠ l, n ∈ w'.head l' ∧ Waits (now + 1) d l'

/-- One turn of `move_list` : the node goes to a lower level, and the rest is left alone. -/
theorem moveTurn_spec {k i : ℕ} (hmoved : moved (now + 1) (.t k i)) {n : TimeNode}
    {rest : List TimeNode} (h : Good (PlaceMoving now) (now + 1) w)
    (hhead : w.head (.t k i) = n :: rest) :
    Below k (linkListOf n.expire w.time) ∧
      Good (PlaceMoving now) (now + 1) ((w.setHead (.t k i) rest).addNode n) ∧
      ((w.setHead (.t k i) rest).addNode n).head (.t k i) = rest ∧
      ∀ d, n.expire.toNat = d % 2 ^ 32 → Waits now d (.t k i) → now < d →
        Waits (now + 1) d (linkListOf n.expire w.time) := by
  obtain ⟨hpop, haway, hid⟩ := h.pop hhead
  have hplaced : ∀ d, n.expire.toNat = d % 2 ^ 32 → Waits now d (.t k i) → now < d →
      Placed (now + 1) d (linkListOf n.expire w.time) := by
    intro d hd hwaits hlt
    have hlt32 := hwaits.lt_clock
    exact linkListOf_placed hd h.clock hlt (by omega)
  obtain ⟨d, hd, hwaits, hlt⟩ : ∃ d, n.expire.toNat = d % 2 ^ 32 ∧
      Waits now d (.t k i) ∧ now < d := by
    rcases h.kept _ n (hhead ▸ List.mem_cons_self) with hstuck | ⟨d, hd, hplace | hplace⟩
    · exact absurd hmoved hstuck.not_moved
    · exact ⟨d, hd, hplace.2⟩
    · exact absurd hmoved hplace.1
  have hbelow := hwaits.below_of_moved hmoved (hplaced d hd hwaits hlt)
  have hwaits' := (hwaits.of_moved hmoved (hplaced d hd hwaits hlt)).1
  have hnot : ¬moved (now + 1) (linkListOf n.expire w.time) :=
    fun hm => hbelow.ne (moved_unique hm hmoved)
  refine ⟨hbelow, hpop.link haway hid (Or.inr ⟨d, hd, Or.inr ⟨hnot, hwaits'⟩⟩), ?_, ?_⟩
  · exact (head_link_of_ne _ _ hbelow.ne.symm).trans (head_setHead_self _ _ _)
  · intro d' hd' hw' hlt'
    exact (hw'.of_moved hmoved (hplaced d' hd' hw' hlt')).1

theorem moveList_spec {k i : ℕ} (hmoved : moved (now + 1) (.t k i))
    (h : Good (PlaceMoving now) (now + 1) w) :
    ∃ w', w.moveList k i = some w' ∧ Good (fun l d => Waits (now + 1) d l) (now + 1) w' ∧
      Moves w w' ∧ (∀ l ≠ .t k i, ∀ n ∈ w.head l, n ∈ w'.head l) ∧
      ∀ n ∈ w.head (.t k i), Comes now (.t k i) n w' := by
  let I : List TimeNode → TimeWheel → Prop := fun rest v =>
    v.head (.t k i) = rest ∧ Good (PlaceMoving now) (now + 1) v ∧ Moves w v ∧
      (∀ l ≠ .t k i, ∀ n ∈ w.head l, n ∈ v.head l) ∧
      ∀ n ∈ w.head (.t k i), n ∈ rest ∨ Comes now (.t k i) n v
  have hstart : I (w.head (.t k i)) w :=
    ⟨rfl, h, ⟨rfl, rfl, rfl, rfl, rfl⟩, fun _ _ _ hn => hn, fun _ hn => Or.inl hn⟩
  have hturn : ∀ n rest v, I (n :: rest) v →
      ∃ v', some (((queue (.t k i)).set v rest).addNode n) = some v' ∧ I rest v' := by
    rintro n rest v ⟨hhead, hgood, hmoves, hrest, hcomes⟩
    obtain ⟨hbelow, hgood', hhead', hplaced⟩ := moveTurn_spec hmoved hgood hhead
    refine ⟨_, rfl, hhead', hgood',
      ⟨hmoves.time, hmoves.lock, hmoves.taken, hmoves.called, hmoves.allocated⟩, ?_, ?_⟩
    · intro l hl m hm
      refine mem_head_link ?_
      change m ∈ (v.setHead _ _).head l
      rw [head_setHead_of_ne _ _ hl]
      exact hrest l hl m hm
    · intro m hm
      rcases hcomes m hm with hm | hm
      · rcases List.mem_cons.mp hm with rfl | hm
        · exact Or.inr fun d' hd' hw' hlt' =>
            ⟨_, hbelow.ne, mem_head_link_self _ _ _, hplaced d' hd' hw' hlt'⟩
        · exact Or.inl hm
      · refine Or.inr fun d' hd' hw' hlt' => ?_
        obtain ⟨l', hl', hml', hwl'⟩ := hm d' hd' hw' hlt'
        refine ⟨l', hl', mem_head_link ?_, hwl'⟩
        change m ∈ (v.setHead _ _).head l'
        rwa [head_setHead_of_ne _ _ hl']
  obtain ⟨w', hw', hhead, hgood, hmoves, hrest, hcomes⟩ := Drain.drain_rule
    (queue (.t k i)) (fun n w => some (w.addNode n)) I (fun _ _ hI => hI.1) hturn hstart (le_refl _)
  refine ⟨w', hw', ?_, hmoves, hrest, fun n hn => (hcomes n hn).resolve_left List.not_mem_nil⟩
  refine hgood.mono rfl hgood.clock ?_
  rintro l d n hn (⟨hl, -⟩ | ⟨-, hl⟩)
  · rw [moved_unique hl hmoved, hhead] at hn
    exact absurd hn List.not_mem_nil
  · exact hl

/-- The node waits in a list, for its time `d`. -/
def Stands (now d : ℕ) (w : TimeWheel) (n : TimeNode) : Prop :=
  n.expire.toNat = d % 2 ^ 32 ∧ ∃ l, n ∈ w.head l ∧ Waits now d l

/-- The node is in a list that is never moved. -/
def Lies (w : TimeWheel) (n : TimeNode) : Prop :=
  ∃ l, n ∈ w.head l ∧ Stuck l

/-- The invariant between the operations. -/
def Ready (now : ℕ) (w : TimeWheel) : Prop :=
  Good (fun l d => Waits now d l ∧ now < d) now w ∧ w.lock = false

/-- The clock ticks, and the nodes are still where they were. -/
theorem Good.tick (h : Good (fun l d => Waits now d l ∧ now < d) now w) :
    Good (PlaceMoving now) (now + 1) { w with time := w.time + 1 } := by
  refine h.mono rfl (toNat_succ h.clock) fun l d n _ hplace => ?_
  by_cases hl : moved (now + 1) l
  · exact Or.inl ⟨hl, hplace.1, hplace.2⟩
  · exact Or.inr ⟨hl, hplace.1.succ hplace.2 hl⟩

theorem timerShift_good (h : Good (fun l d => Waits now d l ∧ now < d) now w) :
    ∃ w', w.timerShift = some w' ∧ Good (fun l d => Waits (now + 1) d l) (now + 1) w' ∧
      Moves { w with time := w.time + 1 } w' ∧
      (∀ n, Lies w n → Lies w' n) ∧
      ∀ n d, Stands now d w n → now < d → Stands (now + 1) d w' n := by
  rcases timerShift_spec h.clock with ⟨k, i, hmoved, hw'⟩ | ⟨hnone, hw'⟩
  · obtain ⟨w', hres, hgood, hmoves, hrest, hcomes⟩ := moveList_spec hmoved h.tick
    refine ⟨w', hw'.trans hres, hgood, hmoves, ?_, ?_⟩
    · rintro n ⟨l, hn, hl⟩
      exact ⟨l, hrest l (fun heq => hl.not_moved (heq ▸ hmoved)) n hn, hl⟩
    · rintro n d ⟨hd, l, hn, hl⟩ hlt
      refine ⟨hd, ?_⟩
      rcases eq_or_ne l (.t k i) with rfl | hne
      · obtain ⟨l', -, hn', hl'⟩ := hcomes n hn d hd hl hlt
        exact ⟨l', hn', hl'⟩
      · exact ⟨l, hrest l hne n hn, hl.succ hlt fun hm => hne (moved_unique hm hmoved)⟩
  · refine ⟨_, hw', ?_, ⟨rfl, rfl, rfl, rfl, rfl⟩, fun n hn => hn, ?_⟩
    · exact h.mono rfl (toNat_succ h.clock) fun l d n _ hplace =>
        hplace.1.succ hplace.2 (hnone l)
    · rintro n d ⟨hd, l, hn, hl⟩ hlt
      exact ⟨hd, l, hn, hl.succ hlt (hnone l)⟩

end Ticks

/-! ## Callbacks -/

section Dispatching

variable {now : ℕ} {w : TimeWheel} {calls : ℕ → List TimerCall}

/-- `w'` is `w` after nodes were taken out and called. -/
structure Dispatches (now : ℕ) (w w' : TimeWheel) : Prop where
  time : w'.time = w.time
  lock : w'.lock = w.lock
  taken : ∀ e ∈ w.taken, e ∈ w'.taken
  /-- Only the list at the clock gets shorter. -/
  grows : ∀ l ≠ .near (now % 256), ∀ n ∈ w.head l, n ∈ w'.head l

theorem dispatchNode_eq (n : TimeNode) (w : TimeWheel) : dispatchNode calls n w =
    (if n.cancel = false then calls w.called.length else []).foldlM (addTimer calls)
      (w.takeOut n) := by
  rw [dispatchNode, takeOut]
  split_ifs with hc
  · rfl
  · simp only [List.append_nil]
    rfl

theorem Dispatches.refl (now : ℕ) (w : TimeWheel) : Dispatches now w w :=
  ⟨rfl, rfl, fun _ he => he, fun _ _ _ hn => hn⟩

/-- One turn of `dispatch_list`. -/
theorem dispatchNode_spec (hcalls : ∀ k, ∀ c ∈ calls k, 0 < c.time) {n : TimeNode}
    {rest : List TimeNode} (h : Good (fun l d => Waits now d l) now w) (hlock : w.lock = false)
    (hl : w.head (.near (now % 256)) = n :: rest) :
    ∃ w', dispatchNode calls n (w.setHead (.near (now % 256)) rest) = some w' ∧
      Good (fun l d => Waits now d l) now w' ∧ Dispatches now w w' ∧
      w'.head (.near (now % 256)) = rest ∧ (n, w.time) ∈ w'.taken := by
  obtain ⟨hpop, haway, hid⟩ := h.pop hl
  have hexpire : n.expire = w.time := by
    rcases h.kept _ n (hl ▸ List.mem_cons_self) with hstuck | ⟨d, hd, hwaits⟩
    · exact absurd hstuck not_stuck_near
    · rw [hwaits.eq_now, ← h.clock] at hd
      exact UInt32.toNat_inj.mp hd
  have htake := hpop.takeOut haway hid hexpire
  have hpos : ∀ c ∈ if n.cancel = false then calls w.called.length else [], 0 < c.time := by
    intro c hc
    split_ifs at hc
    · exact hcalls _ c hc
    · exact absurd hc List.not_mem_nil
  obtain ⟨w', hw', hgood, hadds⟩ :=
    addTimers_spec calls (fun _ _ _ hwaits => hwaits) _ hpos htake hlock
  have htaken : w'.taken = w.taken ++ [(n, w.time)] := hadds.taken
  refine ⟨w', (dispatchNode_eq n _).trans hw', hgood, ⟨hadds.time, hadds.lock, ?_, ?_⟩, ?_, ?_⟩
  · intro e he
    rw [htaken]
    exact List.mem_append_left _ he
  · intro l hne m hm
    refine hadds.grows l m ?_
    change m ∈ (w.setHead _ rest).head l
    rwa [head_setHead_of_ne _ _ hne]
  · exact hadds.due.trans (head_setHead_self _ _ _)
  · rw [htaken]
    exact List.mem_append_right _ List.mem_cons_self

theorem Dispatches.trans {w' w'' : TimeWheel} (h : Dispatches now w w')
    (h' : Dispatches now w' w'') : Dispatches now w w'' :=
  ⟨h'.time.trans h.time, h'.lock.trans h.lock, fun e he => h'.taken e (h.taken e he),
    fun l hl n hn => h'.grows l hl n (h.grows l hl n hn)⟩

theorem dispatchList_spec (hcalls : ∀ k, ∀ c ∈ calls k, 0 < c.time)
    (h : Good (fun l d => Waits now d l) now w) (hlock : w.lock = false) :
    ∃ w', dispatchList calls w (.near (now % 256)) = some w' ∧
      Good (fun l d => Waits now d l) now w' ∧ Dispatches now w w' ∧
      w'.head (.near (now % 256)) = [] ∧
      ∀ n ∈ w.head (.near (now % 256)), (n, w.time) ∈ w'.taken := by
  let I : List TimeNode → TimeWheel → Prop := fun rest v =>
    v.head (.near (now % 256)) = rest ∧ Good (fun l d => Waits now d l) now v ∧
      Dispatches now w v ∧ ∀ n ∈ w.head (.near (now % 256)), n ∈ rest ∨ (n, w.time) ∈ v.taken
  have hturn : ∀ n rest v, I (n :: rest) v →
      ∃ v', dispatchNode calls n ((queue (.near (now % 256))).set v rest) = some v' ∧
        I rest v' := by
    rintro n rest v ⟨hhead, hgood, hdisp, htaken⟩
    obtain ⟨v', hv', hgood', hdisp', hhead', hn'⟩ :=
      dispatchNode_spec hcalls hgood (hdisp.lock.trans hlock) hhead
    refine ⟨v', hv', hhead', hgood', hdisp.trans hdisp', fun m hm => ?_⟩
    rcases htaken m hm with hm | hm
    · rcases List.mem_cons.mp hm with rfl | hm
      · exact Or.inr (hdisp.time ▸ hn')
      · exact Or.inl hm
    · exact Or.inr (hdisp'.taken _ hm)
  have hstart : I (w.head (.near (now % 256))) w :=
    ⟨rfl, h, Dispatches.refl now w, fun _ hn => Or.inl hn⟩
  obtain ⟨w', hw', hhead, hgood, hdisp, htaken⟩ := Drain.drain_rule
    (queue (.near (now % 256))) (dispatchNode calls) I (fun _ _ hI => hI.1) hturn hstart
    (le_refl _)
  exact ⟨w', hw', hgood, hdisp, hhead, fun n hn => (htaken n hn).resolve_left List.not_mem_nil⟩

theorem timerExecute_spec (hcalls : ∀ k, ∀ c ∈ calls k, 0 < c.time)
    (h : Good (fun l d => Waits now d l) now w) (hlock : w.lock = true) :
    ∃ w', timerExecute calls w = some w' ∧
      Good (fun l d => Waits now d l) now w' ∧ Dispatches now w w' ∧
      w'.head (.near (now % 256)) = [] ∧
      ∀ n ∈ w.head (.near (now % 256)), (n, w.time) ∈ w'.taken := by
  have hidx : (w.time &&& 255).toNat = now % 256 := by
    rw [toNat_and_255, h.clock]
    omega
  rw [timerExecute, hidx]
  rcases hl : w.head (.near (now % 256)) with _ | ⟨n, rest⟩
  · exact ⟨w, rfl, h, Dispatches.refl now w, hl, fun _ hn => absurd hn List.not_mem_nil⟩
  · obtain ⟨w', hw', hgood, hdisp, hhead, htaken⟩ :=
      dispatchList_spec hcalls (h.setLock false) rfl
    refine ⟨{ w' with lock := true }, ?_, hgood.setLock true,
      ⟨hdisp.time, hlock.symm, hdisp.taken, hdisp.grows⟩, hhead, fun m hm => ?_⟩
    · rw [spinlockUnlock, hw']
      simp [spinlockLock, hdisp.lock]
    · exact htaken m (hl ▸ hm)

end Dispatching

/-! ## Operations -/

section Operations

variable {now : ℕ} {w : TimeWheel} {calls : ℕ → List TimerCall}

/-- Between the operations nothing is due. -/
theorem Ready.head_eq_nil (h : Ready now w) : w.head (.near (now % 256)) = [] := by
  refine List.eq_nil_iff_forall_not_mem.mpr fun n hn => ?_
  rcases h.1.kept _ n hn with hstuck | ⟨d, -, hwaits, hlt⟩
  · exact not_stuck_near hstuck
  · exact hlt.ne' hwaits.eq_now

theorem timerUpdate_spec (hcalls : ∀ k, ∀ c ∈ calls k, 0 < c.time) (h : Ready now w) :
    ∃ w', w.timerUpdate calls = some w' ∧ Ready (now + 1) w' ∧
      (∀ e ∈ w.taken, e ∈ w'.taken) ∧ (∀ n, Lies w n → Lies w' n) ∧
      ∀ n d, Stands now d w n → now < d →
        (d = now + 1 ∧ (n, w'.time) ∈ w'.taken) ∨ (now + 1 < d ∧ Stands (now + 1) d w' n) := by
  have hlocked := h.1.setLock true
  have hidle : timerExecute calls { w with lock := true } = some { w with lock := true } := by
    have hidx : (w.time &&& 255).toNat = now % 256 := by
      rw [toNat_and_255, h.1.clock]
      omega
    rw [timerExecute]
    simp only [hidx, h.head_eq_nil, List.isEmpty_nil, if_true]
  obtain ⟨w1, hw1, hgood1, hmoves, hlies, hstands⟩ := timerShift_good hlocked
  obtain ⟨w2, hw2, hgood2, hdisp, hempty, htaken⟩ := timerExecute_spec hcalls hgood1 hmoves.lock
  have hlt : ∀ l d, ∀ n ∈ w2.head l, Waits (now + 1) d l → Waits (now + 1) d l ∧ now + 1 < d := by
    intro l d n hn hwaits
    refine ⟨hwaits, hwaits.lt ?_⟩
    rintro rfl
    rw [hempty] at hn
    exact List.not_mem_nil hn
  refine ⟨spinlockUnlock w2, ?_, ⟨hgood2.mono rfl hgood2.clock hlt, rfl⟩, ?_, ?_, ?_⟩
  · rw [timerUpdate]
    simp [spinlockLock, h.2, hidle, hw1, hw2]
  · exact fun e he => hdisp.taken e (hmoves.taken ▸ he)
  · intro n hn
    obtain ⟨l, hl, hstuck⟩ := hlies n hn
    exact ⟨l, hdisp.grows l (fun heq => not_stuck_near (heq ▸ hstuck)) n hl, hstuck⟩
  · intro n d hn hd
    obtain ⟨hexpire, l, hl, hwaits⟩ := hstands n d hn hd
    rcases eq_or_ne l (.near ((now + 1) % 256)) with rfl | hne
    · exact Or.inl ⟨hwaits.eq_now, hdisp.time ▸ htaken n hl⟩
    · exact Or.inr ⟨hwaits.lt hne, hexpire, l, hdisp.grows l hne n hl, hwaits⟩

theorem ready_init : Ready 0 init := by
  refine ⟨⟨rfl, ?_, ?_, ?_, ?_, rfl⟩, rfl⟩
  · exact fun l n hn => absurd hn List.not_mem_nil
  · have hids : init.ids = fun _ => [] := by
      ext1 p
      rcases p with _ | l <;> rfl
    rw [hids]
    exact apart_nil
  · rintro (_ | l) i hi <;> exact absurd hi List.not_mem_nil
  · exact fun e he => absurd he List.not_mem_nil

theorem addTimer_ready {c : TimerCall} (h : Ready now w) (hpos : 0 < c.time) :
    ∃ w', w.addTimer calls c = some w' ∧ Ready now w' ∧ Adds now w w' ∧
      w.timerNode c ∈ w'.head (linkListOf (w.timerNode c).expire w.time) := by
  obtain ⟨w', hw', hgood, hadds, -, hn⟩ :=
    addTimer_spec calls h.1 h.2 hpos fun _ _ hlt hwaits => ⟨hwaits, hlt⟩
  exact ⟨w', hw', ⟨hgood, hadds.lock.trans h.2⟩, hadds, hn⟩

end Operations

/-! ## Runs -/

section Runs

variable {now : ℕ} {w : TimeWheel} {calls : ℕ → List TimerCall}

/-- How often `timer_update` is called. -/
def ticks : List TimerOp → ℕ
  | [] => 0
  | .timerUpdate :: ops => ticks ops + 1
  | .addTimer _ :: ops => ticks ops

/-- All delays are positive. -/
def Positive (ops : List TimerOp) : Prop :=
  ∀ c, TimerOp.addTimer c ∈ ops → 0 < c.time

theorem Positive.tail {op : TimerOp} {ops : List TimerOp} (h : Positive (op :: ops)) :
    Positive ops :=
  fun c hc => h c (List.mem_cons_of_mem _ hc)

/-- What a run keeps : what was taken out, the nodes in lists that are never moved, and that
the other nodes wait until they are due. -/
structure Runs (now stop : ℕ) (w w' : TimeWheel) : Prop where
  ready : Ready stop w'
  /-- What was taken out stays on record. -/
  taken : ∀ e ∈ w.taken, e ∈ w'.taken
  /-- What is in a list that is never moved stays there. -/
  lies : ∀ n, Lies w n → Lies w' n
  /-- The others are taken out when their time has come, and wait before. -/
  stands : ∀ n d, Stands now d w n → now < d →
    (d ≤ stop ∧ n ∈ w'.taken.map Prod.fst) ∨ (stop < d ∧ Stands stop d w' n)

theorem run_spec (hcalls : ∀ k, ∀ c ∈ calls k, 0 < c.time) :
    ∀ {ops : List TimerOp} {now : ℕ} {w : TimeWheel}, Positive ops → Ready now w →
      ∃ w', w.run calls ops = some w' ∧ Runs now (now + ticks ops) w w'
  | [], now, w, _, h =>
    ⟨w, rfl, h, fun _ he => he, fun _ hn => hn, fun _ _ hn hlt => Or.inr ⟨hlt, hn⟩⟩
  | .timerUpdate :: ops, now, w, hpos, h => by
    obtain ⟨w1, hw1, hready, htaken, hlies, hstands⟩ := timerUpdate_spec hcalls h
    obtain ⟨w2, hw2, hruns⟩ := run_spec hcalls hpos.tail hready
    rw [Nat.add_right_comm] at hruns
    refine ⟨w2, ?_, hruns.ready, fun e he => hruns.taken e (htaken e he),
      fun n hn => hruns.lies n (hlies n hn), fun n d hn hlt => ?_⟩
    · rw [run, List.foldlM_cons, step, hw1]
      exact hw2
    · rcases hstands n d hn hlt with ⟨rfl, hn'⟩ | ⟨hlt', hn'⟩
      · exact Or.inl ⟨by rw [ticks]; omega, List.mem_map.mpr ⟨_, hruns.taken _ hn', rfl⟩⟩
      · exact hruns.stands n d hn' hlt'
  | .addTimer c :: ops, now, w, hpos, h => by
    obtain ⟨w1, hw1, hready, hadds, -⟩ := addTimer_ready h (hpos c List.mem_cons_self)
    obtain ⟨w2, hw2, hruns⟩ := run_spec hcalls hpos.tail hready
    refine ⟨w2, ?_, hruns.ready, fun e he => hruns.taken e (hadds.taken ▸ he), ?_, ?_⟩
    · rw [run, List.foldlM_cons, step, hw1]
      exact hw2
    · rintro n ⟨l, hl, hstuck⟩
      exact hruns.lies n ⟨l, hadds.grows l n hl, hstuck⟩
    · rintro n d ⟨hexpire, l, hl, hwaits⟩ hlt
      exact hruns.stands n d ⟨hexpire, l, hadds.grows l n hl, hwaits⟩ hlt

/-- Whatever is taken out is due at that very tick, and nothing is in two lists, or taken out
twice, or taken out and in a list. -/
theorem run_punctual (hcalls : ∀ k, ∀ c ∈ calls k, 0 < c.time) {ops : List TimerOp}
    (hops : Positive ops) :
    ∃ w, init.run calls ops = some w ∧ (∀ e ∈ w.taken, e.1.expire = e.2) ∧ Apart w.ids := by
  obtain ⟨w, hw, hruns⟩ := run_spec hcalls hops ready_init
  exact ⟨w, hw, hruns.ready.1.punctual, hruns.ready.1.apart⟩

/-- What `malloc` returns, all zeros. -/
def zeroNode : TimeNode :=
  ⟨0, 0, 0, 0, false, 0⟩

/-- A callback that sets a timer. -/
theorem run_punctual_again :
    ∃ w, init.run (fun k => if k = 0 then [⟨2, 0, 0, zeroNode⟩] else [])
        [.addTimer ⟨1, 0, 0, zeroNode⟩, .timerUpdate, .timerUpdate, .timerUpdate] = some w ∧
      (∀ e ∈ w.taken, e.1.expire = e.2) ∧ Apart w.ids := by
  refine run_punctual (fun k c hc => ?_) fun c hc => ?_
  · split_ifs at hc
    · rw [List.mem_singleton.mp hc]
      decide
    · exact absurd hc List.not_mem_nil
  · simp only [List.mem_cons, TimerOp.addTimer.injEq, reduceCtorEq, List.not_mem_nil,
      or_false] at hc
    rw [hc]
    decide

/-- The timer of `c`, set after `before`, is dispatched in the course of `after`. -/
def DispatchedBy (calls : ℕ → List TimerCall) (before : List TimerOp) (c : TimerCall)
    (after : List TimerOp) : Prop :=
  ∃ w w', init.run calls before = some w ∧ w.run calls (.addTimer c :: after) = some w' ∧
    w.timerNode c ∈ w'.called

/-- The wheel before a timer is set, right after and in the end. The timer is either waiting or
where nothing is moved. -/
theorem run_addTimer (hcalls : ∀ k, ∀ c ∈ calls k, 0 < c.time) {before after : List TimerOp}
    {c : TimerCall} (hbefore : Positive before) (hc : 0 < c.time) (hafter : Positive after) :
    ∃ w w1 w', init.run calls before = some w ∧
      w.run calls (.addTimer c :: after) = some w' ∧
      Runs (ticks before) (ticks before + ticks after) w1 w' ∧
      (Late (ticks before) (delay c) → Lies w1 (w.timerNode c)) ∧
      (¬Late (ticks before) (delay c) →
        Stands (ticks before) (ticks before + delay c) w1 (w.timerNode c)) := by
  obtain ⟨w, hw, hruns⟩ := run_spec hcalls hbefore ready_init
  rw [Nat.zero_add] at hruns
  obtain ⟨w1, hw1, hready1, -, hn⟩ := addTimer_ready hruns.ready hc
  obtain ⟨w', hw', hruns'⟩ := run_spec hcalls hafter hready1
  obtain ⟨hexpire, hplaced⟩ := timerNode_placed hruns.ready.1.clock hc
  refine ⟨w, w1, w', hw, ?_, hruns', fun hlate => ?_, fun hlate => ?_⟩
  · rw [run, List.foldlM_cons, step, hw1]
    exact hw'
  · exact ⟨_, hn, hplaced.stuck_iff.mpr hlate⟩
  · have hwaits := hplaced.waits_or_stuck.resolve_right (mt hplaced.stuck_iff.mp hlate)
    exact ⟨hexpire, _, hn, hwaits⟩

/-- A node that is in a list was not called. -/
theorem Good.not_called {Place : LinkList → ℕ → Prop} {n : TimeNode} {l : LinkList}
    (h : Good Place now w) (hn : n ∈ w.head l) : n ∉ w.called := by
  intro hcalled
  rw [h.called] at hcalled
  obtain ⟨e, he, rfl⟩ := List.mem_map.mp (List.mem_of_mem_filter hcalled)
  have hin : e.1.id ∈ w.ids (some l) := List.mem_map.mpr ⟨_, hn, rfl⟩
  have hout : e.1.id ∈ w.ids none := List.mem_map.mpr ⟨e, he, rfl⟩
  exact absurd (h.apart.eq_of_mem hin hout) (by simp)

/-- A timer that comes to the first list of a lower level is not dispatched, ever. -/
theorem not_dispatchedBy_of_late (hcalls : ∀ k, ∀ c ∈ calls k, 0 < c.time)
    {before after : List TimerOp} {c : TimerCall} (hbefore : Positive before) (hc : 0 < c.time)
    (hafter : Positive after) (hlate : Late (ticks before) (delay c)) :
    ¬DispatchedBy calls before c after := by
  obtain ⟨w, w1, w', hw, hw', hruns, hlies, -⟩ := run_addTimer hcalls hbefore hc hafter
  rintro ⟨v, v', hv, hv', hcalled⟩
  obtain rfl := Option.some.inj (hw.symm.trans hv)
  obtain rfl := Option.some.inj (hw'.symm.trans hv')
  obtain ⟨l, hl, -⟩ := hruns.lies _ (hlies hlate)
  exact hruns.ready.1.not_called hl hcalled

/-- The other timers are dispatched in time. -/
theorem dispatchedBy_of_not_late (hcalls : ∀ k, ∀ c ∈ calls k, 0 < c.time)
    {before after : List TimerOp} {c : TimerCall} (hbefore : Positive before) (hc : 0 < c.time)
    (hafter : Positive after) (hcancel : c.mem.cancel = false)
    (hticks : delay c ≤ ticks after) (hlate : ¬Late (ticks before) (delay c)) :
    DispatchedBy calls before c after := by
  obtain ⟨w, w1, w', hw, hw', hruns, -, hstands⟩ := run_addTimer hcalls hbefore hc hafter
  obtain ⟨-, hd0, -⟩ := toNat_toUInt32 hc
  refine ⟨w, w', hw, hw', ?_⟩
  have hd : ticks before < ticks before + delay c := by
    rw [delay]
    omega
  rcases hruns.stands _ _ (hstands hlate) hd with ⟨-, htaken⟩ | ⟨hlt, -⟩
  · rw [hruns.ready.1.called]
    exact List.mem_filter.mpr ⟨htaken, by simp [timerNode, hcancel]⟩
  · omega

/-- In every run, a timer is dispatched by the end of its last tick if and only if it does not
come to the first list of a lower level. -/
theorem dispatchedBy_iff (hcalls : ∀ k, ∀ c ∈ calls k, 0 < c.time) {before after : List TimerOp}
    {c : TimerCall} (hbefore : Positive before) (hc : 0 < c.time) (hafter : Positive after)
    (hcancel : c.mem.cancel = false) (hticks : delay c ≤ ticks after) :
    DispatchedBy calls before c after ↔ ¬Late (ticks before) (delay c) :=
  ⟨fun h hlate => not_dispatchedBy_of_late hcalls hbefore hc hafter hlate h,
    dispatchedBy_of_not_late hcalls hbefore hc hafter hcancel hticks⟩

end Runs

/-- A timer of three ticks. -/
theorem dispatchedBy_iff_three :
    DispatchedBy (fun _ => []) [.timerUpdate] ⟨3, 0, 0, zeroNode⟩
        (List.replicate 3 .timerUpdate) ↔ ¬Late 1 3 :=
  dispatchedBy_iff (fun _ _ h => absurd h List.not_mem_nil)
    (fun c h => absurd (List.mem_singleton.mp h) TimerOp.noConfusion) (by decide)
    (fun c h => absurd (List.eq_of_mem_replicate h) TimerOp.noConfusion) rfl (by decide)

/-- After one tick, a timer of 16383 ticks is lost. -/
theorem not_dispatchedBy_16383 :
    ¬DispatchedBy (fun _ => []) [.timerUpdate] ⟨16383, 0, 0, zeroNode⟩
      (List.replicate 16383 .timerUpdate) := by
  refine not_dispatchedBy_of_late (fun _ _ h => absurd h List.not_mem_nil)
    (fun c h => absurd (List.mem_singleton.mp h) TimerOp.noConfusion) (by decide)
    (fun c h => absurd (List.eq_of_mem_replicate h) TimerOp.noConfusion) ?_
  exact ⟨0, by decide⟩

end TimeWheel

end WzxServer
