import WzxServer.Lib.Moves
import WzxServer.WheelClears

/-!
# The time wheel step by step

A thread that uses the wheel, with the functions of the wheel that it is in. Its program and
its callbacks are free to call `add_timer` and `del_timer`, and to return, at any time; the
functions of the wheel go on one action at a time, up to the next access to the spin lock.
A thread that waits for the lock it holds does not go on.

What the functions of the wheel do as a whole is a run of this machine (`runs_of_step`).

`TimeWheel` has the same functions as wholes, with callbacks that are given beforehand as the calls
they make. That is enough for what the wheel dispatches and when, but not for the lock, which is
held while some callbacks run and not while others do. So here a callback is a frame on the stack
of the thread, which may itself call functions of the wheel, to any depth.
-/

namespace WzxServer

/-- The overloads of `add_timer`. -/
inductive Overload where
  /-- With an `OnProcessPfn_t`. -/
  | process
  /-- With an `OnPreparePfn_t`. -/
  | prepare
  deriving DecidableEq

/-- Where a function is. -/
inductive Frame where
  /-- `add_timer`, before it takes the lock. -/
  | enter (o : Overload) (c : TimerCall)
  /-- `add_timer`, with the lock. -/
  | place (o : Overload) (c : TimerCall)
  /-- The end of `add_timer` or `timer_update`, before the lock is released. -/
  | leave
  /-- In a callback. -/
  | callback
  /-- `timer_update`, before it takes the lock. -/
  | update
  /-- At the loop of the first or second `timer_execute`. -/
  | execute (again : Bool) (idx : ℕ)
  /-- At the loop of `dispatch_list`. -/
  | dispatch (again : Bool) (idx : ℕ)
  /-- In `timer_execute`, before it takes the lock again. -/
  | relock (again : Bool) (idx : ℕ)
  /-- Before `timer_shift`. -/
  | shift

/-- The thread. The calls of `add_timer` are recorded, in the order of the allocations, and so
are the nodes that `del_timer` was called on. -/
structure WheelThread where
  wheel : TimeWheel
  stack : List Frame
  made : List (Overload × TimerCall)
  deleted : List ℕ

/-- What the thread does next : its program or a callback calls a function or returns, or a
function of the wheel goes on. -/
inductive Move where
  /-- A call of `add_timer`. -/
  | addTimer (o : Overload) (c : TimerCall)
  /-- A call of `del_timer`. -/
  | delTimer (id : ℕ)
  /-- A call of `timer_update`. -/
  | timerUpdate
  /-- A callback returns. -/
  | back
  /-- The function of the wheel goes on. -/
  | go

namespace WheelThread

open TimeWheel

/-- Nothing runs, and no node was made. -/
def init : WheelThread :=
  ⟨.init, [], [], []⟩

/-- The program or a callback runs. -/
def AtClient : List Frame → Prop
  | [] => True
  | .callback :: _ => True
  | _ => False

instance : (stack : List Frame) → Decidable (AtClient stack)
  | [] => inferInstanceAs (Decidable True)
  | .callback :: _ => inferInstanceAs (Decidable True)
  | .enter _ _ :: _ => inferInstanceAs (Decidable False)
  | .place _ _ :: _ => inferInstanceAs (Decidable False)
  | .leave :: _ => inferInstanceAs (Decidable False)
  | .update :: _ => inferInstanceAs (Decidable False)
  | .execute _ _ :: _ => inferInstanceAs (Decidable False)
  | .dispatch _ _ :: _ => inferInstanceAs (Decidable False)
  | .relock _ _ :: _ => inferInstanceAs (Decidable False)
  | .shift :: _ => inferInstanceAs (Decidable False)

/-- The near list at the clock. -/
def nearIdx (w : TimeWheel) : ℕ :=
  (w.time &&& 255).toNat

/-- The node of a call of `add_timer`. -/
def nodeOf (w : TimeWheel) : Overload → TimerCall → TimeNode
  | .process, c => w.timerNode c
  | .prepare, c => w.prepareNode c

/-- `add_timer` with the lock taken. -/
def placeNode (m : WheelThread) (o : Overload) (c : TimerCall) (rest : List Frame) :
    WheelThread :=
  let node := nodeOf m.wheel o c
  let w := { m.wheel with allocated := m.wheel.allocated + 1 }
  if o = .process ∧ c.time ≤ 0 then
    { m with
      wheel := { w with called := w.called ++ [node] }
      stack := .callback :: .leave :: rest
      made := m.made ++ [(o, c)] }
  else { m with wheel := w.addNode node, stack := .leave :: rest, made := m.made ++ [(o, c)] }

/-- One turn of `dispatch_list`, or its end. -/
def dispatchOne (m : WheelThread) (again : Bool) (idx : ℕ) (rest : List Frame) : WheelThread :=
  match m.wheel.head (.near idx) with
  | [] => { m with stack := .relock again idx :: rest }
  | n :: ns =>
    let w := m.wheel.setHead (.near idx) ns
    let w := { w with taken := w.taken ++ [(n, w.time)] }
    if n.cancel = false then
      { m with
        wheel := { w with called := w.called ++ [n] }
        stack := .callback :: .dispatch again idx :: rest }
    else { m with wheel := w }

/-- The function of the wheel that the thread is in goes on. -/
def go (m : WheelThread) : Option WheelThread :=
  match m.stack with
  | .enter o c :: rest =>
    (spinlockLock m.wheel).map fun w => { m with wheel := w, stack := .place o c :: rest }
  | .place o c :: rest => some (m.placeNode o c rest)
  | .leave :: rest => some { m with wheel := spinlockUnlock m.wheel, stack := rest }
  | .update :: rest =>
    (spinlockLock m.wheel).map fun w =>
      { m with wheel := w, stack := .execute false (nearIdx w) :: rest }
  | .execute again idx :: rest =>
    if (m.wheel.head (.near idx)).isEmpty then
      some { m with stack := (if again then .leave else .shift) :: rest }
    else
      some { m with wheel := spinlockUnlock m.wheel, stack := .dispatch again idx :: rest }
  | .dispatch again idx :: rest => some (m.dispatchOne again idx rest)
  | .relock again idx :: rest =>
    (spinlockLock m.wheel).map fun w =>
      { m with wheel := w, stack := .execute again idx :: rest }
  | .shift :: rest =>
    m.wheel.timerShift.map fun w =>
      { m with wheel := w, stack := .execute true (nearIdx w) :: rest }
  | _ => none

/-- The state after a move, none where it cannot be made. -/
def next (m : WheelThread) : Move → Option WheelThread
  | .addTimer o c =>
    if AtClient m.stack then some { m with stack := .enter o c :: m.stack } else none
  | .delTimer id =>
    if AtClient m.stack then
      some { m with wheel := m.wheel.delTimer id, deleted := id :: m.deleted }
    else none
  | .timerUpdate =>
    match m.stack with
    | [] => some { m with stack := [.update] }
    | _ => none
  | .back =>
    match m.stack with
    | .callback :: rest => some { m with stack := rest }
    | _ => none
  | .go => m.go

section Equations

variable {m : WheelThread} {again : Bool} {idx : ℕ} {rest : List Frame}

theorem dispatchOne_nil (hhead : m.wheel.head (.near idx) = []) :
    m.dispatchOne again idx rest = { m with stack := .relock again idx :: rest } := by
  rw [dispatchOne, hhead]

theorem dispatchOne_call {n : TimeNode} {ns : List TimeNode}
    (hhead : m.wheel.head (.near idx) = n :: ns) (hcancel : n.cancel = false) :
    m.dispatchOne again idx rest =
      { m with
        wheel := { m.wheel.setHead (.near idx) ns with
          taken := m.wheel.taken ++ [(n, m.wheel.time)]
          called := m.wheel.called ++ [n] }
        stack := .callback :: .dispatch again idx :: rest } := by
  rw [dispatchOne, hhead]
  exact if_pos hcancel

theorem dispatchOne_cancelled {n : TimeNode} {ns : List TimeNode}
    (hhead : m.wheel.head (.near idx) = n :: ns) (hcancel : n.cancel ≠ false) :
    m.dispatchOne again idx rest =
      { m with
        wheel := { m.wheel.setHead (.near idx) ns with
          taken := m.wheel.taken ++ [(n, m.wheel.time)] } } := by
  rw [dispatchOne, hhead]
  exact if_neg hcancel

end Equations

/-- The next action takes the lock. -/
def Locking (m : WheelThread) : Prop :=
  match m.stack with
  | .enter _ _ :: _ => True
  | .update :: _ => True
  | .relock _ _ :: _ => True
  | _ => False

/-- The next action releases the lock. -/
def Unlocking (m : WheelThread) : Prop :=
  match m.stack with
  | .leave :: _ => True
  | .execute _ idx :: _ => (m.wheel.head (.near idx)).isEmpty = false
  | _ => False

/-! ## The functions of the wheel as runs -/

/-- Some moves lead from one state to the other. -/
def Leads (m m' : WheelThread) : Prop :=
  ∃ ms, Moves.run next m ms = some m'

theorem Leads.refl (m : WheelThread) : Leads m m :=
  ⟨[], rfl⟩

theorem Leads.trans {m m' m'' : WheelThread} (h : Leads m m') (h' : Leads m' m'') :
    Leads m m'' := by
  obtain ⟨ms, hms⟩ := h
  obtain ⟨ms', hms'⟩ := h'
  exact ⟨ms ++ ms', by rw [Moves.run_append, hms, Option.bind_some, hms']⟩

theorem Leads.of_next {m m' : WheelThread} (mv : Move) (h : m.next mv = some m') :
    Leads m m' :=
  ⟨[mv], Moves.run_cons_eq_some.mpr ⟨m', h, rfl⟩⟩

/-- From any caller, the wheel `w` becomes `w'`. -/
def Calls (w w' : TimeWheel) : Prop :=
  ∀ stack made deleted, AtClient stack →
    ∃ made', Leads ⟨w, stack, made, deleted⟩ ⟨w', stack, made', deleted⟩

theorem Calls.trans {w w' w'' : TimeWheel} (h : Calls w w') (h' : Calls w' w'') :
    Calls w w'' := by
  intro stack made deleted hclient
  obtain ⟨made', hleads⟩ := h stack made deleted hclient
  obtain ⟨made'', hleads'⟩ := h' stack made' deleted hclient
  exact ⟨made'', hleads.trans hleads'⟩

section Runs

variable {w w' : TimeWheel} {calls : ℕ → List TimerCall}

theorem calls_addTimer {c : TimerCall} (hw : w.addTimer calls c = some w') : Calls w w' := by
  intro stack made deleted hclient
  obtain ⟨w1, hw1, hrest⟩ := Option.bind_eq_some_iff.mp hw
  obtain ⟨hlock, rfl⟩ := spinlockLock_eq_some hw1
  have hlock' : w.lock = false := hlock
  have henter : Leads ⟨w, stack, made, deleted⟩
      ⟨w, .enter .process c :: stack, made, deleted⟩ :=
    .of_next (.addTimer .process c) (if_pos hclient)
  have hplace : Leads ⟨w, .enter .process c :: stack, made, deleted⟩
      ⟨{ w with lock := true }, .place .process c :: stack, made, deleted⟩ := by
    refine .of_next .go ?_
    simp [next, go, spinlockLock, hlock']
  refine ⟨made ++ [(.process, c)], henter.trans (hplace.trans ?_)⟩
  split_ifs at hrest with htime hquiet
  · obtain rfl := Option.some.inj hrest
    have hcall := Leads.of_next (m := ⟨{ w with lock := true }, .place .process c :: stack, made,
      deleted⟩) .go rfl
    rw [placeNode, if_pos ⟨rfl, htime⟩] at hcall
    exact hcall.trans ((Leads.of_next .back rfl).trans (Leads.of_next .go rfl))
  · obtain rfl := Option.some.inj hrest
    have hadd := Leads.of_next (m := ⟨{ w with lock := true }, .place .process c :: stack, made,
      deleted⟩) .go rfl
    rw [placeNode, if_neg fun h => htime h.2] at hadd
    exact hadd.trans (Leads.of_next .go rfl)

theorem calls_addTimers : ∀ {cs : List TimerCall} {w : TimeWheel},
    cs.foldlM (addTimer calls) w = some w' → Calls w w'
  | [], w, hw => by
    obtain rfl := Option.some.inj hw
    exact fun stack made deleted _ => ⟨made, Leads.refl _⟩
  | c :: cs, w, hw => by
    rw [List.foldlM_cons] at hw
    obtain ⟨w1, hw1, hrest⟩ := Option.bind_eq_some_iff.mp hw
    exact (calls_addTimer hw1).trans (calls_addTimers hrest)

/-- A function of the wheel, called by the program, takes the wheel from `w` to `w'`. -/
def Within (f f' : Frame) (w w' : TimeWheel) : Prop :=
  ∀ made deleted, ∃ made', Leads ⟨w, [f], made, deleted⟩ ⟨w', [f'], made', deleted⟩

theorem Within.trans {f f' f'' : Frame} {w w' w'' : TimeWheel} (h : Within f f' w w')
    (h' : Within f' f'' w' w'') : Within f f'' w w'' := by
  intro made deleted
  obtain ⟨made', hleads⟩ := h made deleted
  obtain ⟨made'', hleads'⟩ := h' made' deleted
  exact ⟨made'', hleads.trans hleads'⟩

theorem within_dispatchNode {again : Bool} {idx : ℕ} {n : TimeNode} {ns : List TimeNode}
    (hhead : w.head (.near idx) = n :: ns)
    (hw : dispatchNode calls n (w.setHead (.near idx) ns) = some w') :
    Within (.dispatch again idx) (.dispatch again idx) w w' := by
  intro made deleted
  have hturn := Leads.of_next (m := ⟨w, [.dispatch again idx], made, deleted⟩) .go rfl
  by_cases hcancel : n.cancel = false
  · rw [dispatchOne_call hhead hcancel] at hturn
    have hprocess := (if_pos hcancel).symm.trans hw
    obtain ⟨made', hleads⟩ :=
      calls_addTimers hprocess [.callback, .dispatch again idx] made deleted trivial
    exact ⟨made', hturn.trans (hleads.trans (Leads.of_next .back rfl))⟩
  · rw [dispatchOne_cancelled hhead hcancel] at hturn
    have hskip := (if_neg hcancel).symm.trans hw
    obtain rfl := Option.some.inj hskip
    exact ⟨made, hturn⟩

theorem within_dispatchList {again : Bool} {idx : ℕ}
    (hw : dispatchList calls w (.near idx) = some w') :
    Within (.dispatch again idx) (.relock again idx) w w' := by
  obtain ⟨hturns, hnil⟩ := Drain.turns_of_drain hw
  have hloop : Within (.dispatch again idx) (.dispatch again idx) w w' := by
    refine Drain.turns_rule (fun v v' n ns hv hget hbody => hv.trans ?_)
      (fun made deleted => ⟨made, Leads.refl _⟩) hturns
    exact within_dispatchNode hget hbody
  refine hloop.trans fun made deleted => ⟨made, ?_⟩
  have hend := Leads.of_next (m := ⟨w', [.dispatch again idx], made, deleted⟩) .go rfl
  have hnil' : w'.head (.near idx) = [] := hnil
  rw [dispatchOne_nil hnil'] at hend
  exact hend

theorem within_timerExecute {again : Bool} (hw : timerExecute calls w = some w') :
    Within (.execute again (nearIdx w)) (if again then .leave else .shift) w w' := by
  have hend : ∀ v : TimeWheel, (v.head (.near (nearIdx w))).isEmpty →
      Within (.execute again (nearIdx w)) (if again then .leave else .shift) v v :=
    fun v hv made deleted => ⟨made, .of_next .go (if_pos hv)⟩
  rw [timerExecute] at hw
  split_ifs at hw with hnil
  · obtain rfl := Option.some.inj hw
    exact hend w hnil
  · obtain ⟨w1, hw1, hlock⟩ := Option.bind_eq_some_iff.mp hw
    have hempty : (w'.head (.near (nearIdx w))).isEmpty := by
      obtain ⟨-, rfl⟩ := spinlockLock_eq_some hlock
      exact List.isEmpty_iff.mpr (Drain.turns_of_drain hw1).2
    have hfree : Within (.execute again (nearIdx w)) (.dispatch again (nearIdx w)) w
        (spinlockUnlock w) := fun made deleted => ⟨made, .of_next .go (if_neg hnil)⟩
    have hrelock : Within (.relock again (nearIdx w)) (.execute again (nearIdx w)) w1 w' := by
      refine fun made deleted => ⟨made, .of_next .go ?_⟩
      simp [next, go, hlock]
    exact hfree.trans ((within_dispatchList hw1).trans (hrelock.trans (hend w' hempty)))

/-- What an operation of the wheel does as a whole, it does step by step. -/
theorem runs_of_step {o : TimerOp} (hw : w.step calls o = some w')
    (made : List (Overload × TimerCall)) (deleted : List ℕ) :
    ∃ made', Leads ⟨w, [], made, deleted⟩ ⟨w', [], made', deleted⟩ := by
  cases o with
  | addTimer c => exact calls_addTimer hw [] made deleted trivial
  | timerUpdate =>
    obtain ⟨w1, hw1, hrest⟩ := Option.bind_eq_some_iff.mp hw
    obtain ⟨w2, hw2, hrest⟩ := Option.bind_eq_some_iff.mp hrest
    obtain ⟨w3, hw3, hrest⟩ := Option.bind_eq_some_iff.mp hrest
    obtain ⟨w4, hw4, hlast⟩ := Option.bind_eq_some_iff.mp hrest
    obtain rfl := Option.some.inj hlast
    have hlock : Within .update (.execute false (nearIdx w1)) w w1 := by
      refine fun made deleted => ⟨made, .of_next .go ?_⟩
      simp [next, go, hw1]
    have hshift : Within .shift (.execute true (nearIdx w3)) w2 w3 := by
      refine fun made deleted => ⟨made, .of_next .go ?_⟩
      simp [next, go, hw3]
    have hfirst : Within (.execute false (nearIdx w1)) .shift w1 w2 := within_timerExecute hw2
    have hsecond : Within (.execute true (nearIdx w3)) .leave w3 w4 := within_timerExecute hw4
    have hinside := hlock.trans (hfirst.trans (hshift.trans hsecond))
    obtain ⟨made', hleads⟩ := hinside made deleted
    have hcall : Leads ⟨w, [], made, deleted⟩ ⟨w, [.update], made, deleted⟩ :=
      .of_next .timerUpdate rfl
    exact ⟨made', hcall.trans (hleads.trans (.of_next .go rfl))⟩

end Runs

end WheelThread

end WzxServer
