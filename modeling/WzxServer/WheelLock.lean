import WzxServer.WheelSteps

/-!
# The spin lock of the wheel

`timer_execute` releases the lock around the callbacks, but `add_timer` calls the callback of a
timer that is due at once while it has the lock. By `disciplined_iff` a thread takes the lock
only when it is free, and releases it only when it has it, exactly as long as no callback that
was called from `add_timer` calls `add_timer` : the next step of that call would be to wait for
a lock that its own thread holds.

The functions are cut into steps here, at each place where the lock changes hands and at each
callback, and the thread has a stack of the calls that it is in, as deep as callbacks call. What
the lock is can be read off the stack (`Shape`) : the frame that is on top tells whether the
thread has it, and the frames below were left without it. `Shaped` is kept by every step of a
quiet run.
-/

namespace WzxServer

namespace WheelThread

open TimeWheel

/-- The lock is taken only when it is free, and released only by the thread that has it. -/
def Disciplined (m : WheelThread) : Prop :=
  (m.Locking → m.wheel.lock = false) ∧ (m.Unlocking → m.wheel.lock = true)

/-- A callback that was called from `add_timer` does not call `add_timer`. -/
def Quiet (m : WheelThread) (mv : Move) : Prop :=
  ∀ o c rest, mv = .addTimer o c → m.stack ≠ .callback :: .leave :: rest

/-! ## What the stack says about the lock -/

/-- Who calls `add_timer` with the lock free : the program, or a callback of `dispatch_list`. -/
inductive Base : List Frame → Prop
  | program : Base []
  | callback (again : Bool) (idx : ℕ) : Base [.callback, .dispatch again idx]

/-- The stacks of a quiet run, and whether the thread has the lock. -/
inductive Shape : List Frame → Bool → Prop
  /-- The program or a callback runs. -/
  | client {s : List Frame} (h : Base s) : Shape s false
  /-- `add_timer` was called. -/
  | enter {s : List Frame} (h : Base s) (o : Overload) (c : TimerCall) :
      Shape (.enter o c :: s) false
  /-- It has the lock. -/
  | place {s : List Frame} (h : Base s) (o : Overload) (c : TimerCall) :
      Shape (.place o c :: s) true
  /-- The lock is about to be released. -/
  | leave {s : List Frame} (h : Base s) : Shape (.leave :: s) true
  /-- The callback of a timer that is due at once runs, with the lock taken. -/
  | immediate {s : List Frame} (h : Base s) : Shape (.callback :: .leave :: s) true
  | update : Shape [.update] false
  | execute (again : Bool) (idx : ℕ) : Shape [.execute again idx] true
  | dispatch (again : Bool) (idx : ℕ) : Shape [.dispatch again idx] false
  | relock (again : Bool) (idx : ℕ) : Shape [.relock again idx] false
  | shift : Shape [.shift] true

/-- The invariant. -/
def Shaped (m : WheelThread) : Prop :=
  Shape m.stack m.wheel.lock

variable {m m' : WheelThread}

theorem Shaped.disciplined (h : Shaped m) : Disciplined m := by
  obtain ⟨w, stack, made, deleted⟩ := m
  unfold Shaped at h
  simp only at h
  generalize hlock : w.lock = b at h
  cases h with
  | client h => cases h <;> exact ⟨False.elim, False.elim⟩
  | enter => exact ⟨fun _ => hlock, False.elim⟩
  | place => exact ⟨False.elim, False.elim⟩
  | leave => exact ⟨False.elim, fun _ => hlock⟩
  | immediate => exact ⟨False.elim, False.elim⟩
  | update => exact ⟨fun _ => hlock, False.elim⟩
  | execute => exact ⟨False.elim, fun _ => hlock⟩
  | dispatch => exact ⟨False.elim, False.elim⟩
  | relock => exact ⟨fun _ => hlock, False.elim⟩
  | shift => exact ⟨False.elim, False.elim⟩

/-- A call of `add_timer` is made with the lock free, unless it is made by a callback that was
called from `add_timer`. -/
theorem Shaped.base_of_client (h : Shaped m) (hclient : AtClient m.stack) :
    (Base m.stack ∧ m.wheel.lock = false) ∨
      ∃ rest, m.stack = .callback :: .leave :: rest ∧ Base rest ∧ m.wheel.lock = true := by
  obtain ⟨w, stack, made, deleted⟩ := m
  unfold Shaped at h
  simp only at h hclient ⊢
  generalize hlock : w.lock = b at h
  cases h with
  | client h => exact Or.inl ⟨h, rfl⟩
  | immediate h => exact Or.inr ⟨_, rfl, h, rfl⟩
  | _ => exact absurd hclient id

/-- `timer_shift` leaves the lock alone. -/
theorem lock_timerShift {w w' : TimeWheel} (hw : w.timerShift = some w') : w'.lock = w.lock := by
  rcases timerShift_moves w with ⟨level, idx, -, hmoves⟩ | hstays
  · have hlist := hmoves.symm.trans hw
    refine Drain.turns_rule (I := fun v => v.lock = w.lock) (fun v v' n rest hv _ hbody => ?_)
      rfl (Drain.turns_of_drain hlist).1
    obtain rfl := Option.some.inj hbody
    exact hv
  · rw [← Option.some.inj (hstays.symm.trans hw)]

/-! ## Every step keeps it -/

theorem Shaped.go (h : Shaped m) (hm : m.go = some m') : Shaped m' := by
  obtain ⟨w, stack, made, deleted⟩ := m
  unfold Shaped at h
  simp only at h
  generalize hlock : w.lock = b at h
  cases h with
  | client h => cases h <;> cases hm
  | @enter s h o c =>
    obtain ⟨w1, hw1, rfl⟩ := Option.map_eq_some_iff.mp hm
    obtain ⟨-, rfl⟩ := spinlockLock_eq_some hw1
    exact .place h o c
  | @place s h o c =>
    obtain rfl := Option.some.inj hm
    unfold Shaped placeNode
    simp only
    split_ifs
    · rw [hlock]
      exact .immediate h
    · change Shape _ w.lock
      rw [hlock]
      exact .leave h
  | leave h =>
    obtain rfl := Option.some.inj hm
    exact .client h
  | immediate => cases hm
  | update =>
    obtain ⟨w1, hw1, rfl⟩ := Option.map_eq_some_iff.mp hm
    obtain ⟨-, rfl⟩ := spinlockLock_eq_some hw1
    exact .execute false _
  | execute again idx =>
    rw [WheelThread.go] at hm
    simp only at hm
    split_ifs at hm
    · obtain rfl := Option.some.inj hm
      unfold Shaped
      simp only
      rw [hlock]
      exact .leave .program
    · obtain rfl := Option.some.inj hm
      unfold Shaped
      simp only
      rw [hlock]
      exact .shift
    · obtain rfl := Option.some.inj hm
      exact .dispatch again idx
  | dispatch again idx =>
    obtain rfl := Option.some.inj hm
    rcases hhead : w.head (.near idx) with _ | ⟨n, ns⟩
    · rw [dispatchOne_nil hhead]
      unfold Shaped
      simp only
      rw [hlock]
      exact .relock again idx
    · by_cases hcancel : n.cancel = false
      · rw [dispatchOne_call hhead hcancel]
        change Shape _ w.lock
        rw [hlock]
        exact .client (.callback again idx)
      · rw [dispatchOne_cancelled hhead hcancel]
        change Shape _ w.lock
        rw [hlock]
        exact .dispatch again idx
  | relock again idx =>
    obtain ⟨w1, hw1, rfl⟩ := Option.map_eq_some_iff.mp hm
    obtain ⟨-, rfl⟩ := spinlockLock_eq_some hw1
    exact .execute again idx
  | shift =>
    obtain ⟨w1, hw1, rfl⟩ := Option.map_eq_some_iff.mp hm
    unfold Shaped
    simp only
    rw [lock_timerShift hw1, hlock]
    exact .execute true _

theorem Shaped.next (h : Shaped m) {mv : Move} (hquiet : Quiet m mv)
    (hm : m.next mv = some m') : Shaped m' := by
  cases mv with
  | addTimer o c =>
    rw [WheelThread.next] at hm
    split_ifs at hm with hclient
    obtain rfl := Option.some.inj hm
    rcases h.base_of_client hclient with ⟨hbase, hlock⟩ | ⟨rest, hstack, -⟩
    · unfold Shaped
      simp only
      rw [hlock]
      exact .enter hbase o c
    · exact absurd hstack (hquiet o c rest rfl)
  | delTimer id =>
    rw [WheelThread.next] at hm
    split_ifs at hm
    obtain rfl := Option.some.inj hm
    exact h
  | timerUpdate =>
    obtain ⟨w, _ | ⟨f, rest⟩, made, deleted⟩ := m
    · obtain rfl := Option.some.inj hm
      rcases h.base_of_client trivial with ⟨-, hlock⟩ | ⟨rest, hstack, -⟩
      · unfold Shaped
        simp only at hlock ⊢
        rw [hlock]
        exact .update
      · cases hstack
    · cases hm
  | back =>
    obtain ⟨w, stack, made, deleted⟩ := m
    rcases stack with _ | ⟨f, rest⟩
    · cases hm
    · cases f with
      | callback =>
        obtain rfl := Option.some.inj hm
        rcases h.base_of_client trivial with ⟨hbase, hlock⟩ | ⟨rest', hstack, hbase, hlock⟩
        · cases hbase with
          | callback again idx =>
            unfold Shaped
            simp only at hlock ⊢
            rw [hlock]
            exact .dispatch again idx
        · obtain ⟨-, rfl⟩ := List.cons.inj hstack
          unfold Shaped
          simp only at hlock ⊢
          rw [hlock]
          exact .leave hbase
      | _ => cases hm
  | go => exact h.go hm

/-! ## Runs -/

theorem shaped_init : Shaped init :=
  .client .program

theorem throughout_of_quiet {ms : List Move} (h : Moves.Meets next Quiet init ms) :
    Moves.Throughout next Disciplined init ms := by
  have hshaped := Moves.throughout_of_meets
    (fun _ _ _ hs hquiet hm => Shaped.next hs hquiet hm) shaped_init h
  exact hshaped.mono fun _ hs => hs.disciplined

/-- A call of `add_timer` from a callback that was called from `add_timer` waits for its own
lock. -/
theorem quiet_of_disciplined (h : Shaped m) {mv : Move}
    (hnext : ∀ m', m.next mv = some m' → Disciplined m') : Quiet m mv := by
  rintro o c rest rfl hstack
  have hclient : AtClient m.stack := by
    rw [hstack]
    trivial
  have hdisc := hnext _ (if_pos hclient)
  rcases h.base_of_client hclient with ⟨hbase, -⟩ | ⟨rest', -, -, hlock⟩
  · rw [hstack] at hbase
    cases hbase
  · have hfree : m.wheel.lock = false := hdisc.1 trivial
    rw [hlock] at hfree
    cases hfree

theorem quiet_of_throughout : ∀ {ms : List Move} {m : WheelThread}, Shaped m →
    Moves.Throughout next Disciplined m ms → Moves.Meets next Quiet m ms
  | [], _, _, _ => trivial
  | _ :: _, _, h, hrun => by
    have hquiet := quiet_of_disciplined h fun m' hm' => (hrun.2 m' hm').start
    exact ⟨hquiet, fun m' hm' => quiet_of_throughout (h.next hquiet hm') (hrun.2 m' hm')⟩

/-- In every run the lock is used as it should be if and only if no callback that was called
from `add_timer` calls `add_timer`. -/
theorem disciplined_iff (ms : List Move) :
    Moves.Throughout next Disciplined init ms ↔ Moves.Meets next Quiet init ms :=
  ⟨quiet_of_throughout shaped_init, throughout_of_quiet⟩

/-- A timer without delay, whose callback sets a timer. -/
theorem not_disciplined_nested : ¬∀ ms, Moves.Throughout next Disciplined init ms := by
  intro hall
  have hrun := hall [.addTimer .process ⟨0, 0, 0, zeroNode⟩, .go, .go,
    .addTimer .process ⟨1, 0, 0, zeroNode⟩]
  have hquiet := quiet_of_throughout shaped_init hrun
  exact ((hquiet.2 _ rfl).2 _ rfl |>.2 _ rfl).1 _ _ [] rfl rfl

end WheelThread

end WzxServer
