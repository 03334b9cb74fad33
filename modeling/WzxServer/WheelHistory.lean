import WzxServer.TimeWheel

/-!
# What the wheel does not look at

The numbers of the allocations, what was taken out and what was called are records : nothing
that the wheel does depends on them, except that callbacks are counted. So a wheel with more
history does the same as one with less (`run_before`), and adds it to its own.

With it a wheel in the middle of a run can be compared with one that is as full but begins
there. `WheelClears` uses it to say what `clear` leaves behind : a wheel that was cleared goes
on like a new one exactly where the two agree on all that is not a record.

The proof goes through the functions of the wheel one by one. `Recasts` is what they share : a
function that changes every node in the same way, and leaves the order of the lists alone.
-/

namespace WzxServer

namespace TimeWheel

/-- What was recorded up to some time. -/
structure History where
  allocated : ℕ
  taken : List (TimeNode × UInt32)
  called : List TimeNode

/-- The records of a wheel. -/
def history (w : TimeWheel) : History :=
  ⟨w.allocated, w.taken, w.called⟩

namespace History

/-- A node, when its wheel has this history before. -/
def node (h : History) (n : TimeNode) : TimeNode :=
  { n with id := h.allocated + n.id }

/-- The wheel `v` with the history `h` before its own. -/
def before (h : History) (v : TimeWheel) : TimeWheel where
  head := fun l => (v.head l).map h.node
  time := v.time
  lock := v.lock
  allocated := h.allocated + v.allocated
  taken := h.taken ++ v.taken.map fun e => (h.node e.1, e.2)
  called := h.called ++ v.called.map h.node

/-- The callbacks after those that were called before. -/
def later (h : History) (calls : ℕ → List TimerCall) (k : ℕ) : List TimerCall :=
  calls (h.called.length + k)

end History

open History

variable {h : History} {v : TimeWheel}

/-! ## The parts of the wheel -/

/-- `φ` changes every node by `f`, which leaves its time alone, and maybe the records. -/
structure Recasts (φ : TimeWheel → TimeWheel) (f : TimeNode → TimeNode) : Prop where
  expire : ∀ n, (f n).expire = n.expire
  head : ∀ w l, (φ w).head l = (w.head l).map f
  time : ∀ w, (φ w).time = w.time
  setHead : ∀ w l nodes, (φ w).setHead l (nodes.map f) = φ (w.setHead l nodes)
  tick : ∀ w t, { φ w with time := t } = φ { w with time := t }

section Recasts

variable {φ : TimeWheel → TimeWheel} {f : TimeNode → TimeNode} (hφ : Recasts φ f)

include hφ

theorem Recasts.addNode (w : TimeWheel) (n : TimeNode) :
    (φ w).addNode (f n) = φ (w.addNode n) := by
  have hlist : linkListOf (f n).expire (φ w).time = linkListOf n.expire w.time := by
    rw [hφ.expire, hφ.time]
  rw [TimeWheel.addNode, hlist, link, hφ.head, ← List.map_singleton, ← List.map_append,
    hφ.setHead]
  rfl

theorem Recasts.moveList (w : TimeWheel) (level idx : ℕ) :
    (φ w).moveList level idx = (w.moveList level idx).map φ := by
  unfold TimeWheel.moveList
  rw [hφ.head, List.length_map]
  refine Drain.drain_map (fun v => hφ.head v _) (fun v l => hφ.setHead v _ l) (fun n v => ?_) _ _
  rw [hφ.addNode]
  rfl

theorem Recasts.shiftLoop (w : TimeWheel) (ct : UInt32) :
    ∀ (fuel : ℕ) (mask time : UInt32) (i : ℕ),
      (φ w).shiftLoop ct fuel mask time i = (w.shiftLoop ct fuel mask time i).map φ
  | 0, _, _, _ => rfl
  | fuel + 1, mask, time, i => by
    simp only [TimeWheel.shiftLoop]
    split_ifs
    · exact hφ.moveList w _ _
    · exact Recasts.shiftLoop w ct fuel _ _ _
    · rfl

theorem Recasts.timerShift (w : TimeWheel) : (φ w).timerShift = w.timerShift.map φ := by
  have htick := hφ.tick w (w.time + 1)
  have hl : (φ w).timerShift =
      if w.time + 1 = 0 then { φ w with time := w.time + 1 }.moveList 3 0
      else { φ w with time := w.time + 1 }.shiftLoop (w.time + 1) 4 256 ((w.time + 1) >>> 8) 0 := by
    rw [TimeWheel.timerShift, hφ.time]
  rw [hl, htick, TimeWheel.timerShift]
  by_cases hzero : w.time + 1 = 0
  · simp only [hzero, if_true]
    exact hφ.moveList _ _ _
  · simp only [hzero, if_false]
    exact hφ.shiftLoop _ _ _ _ _ _

end Recasts

theorem recasts_before (h : History) : Recasts h.before h.node := by
  refine ⟨fun _ => rfl, fun _ _ => rfl, fun _ => rfl, fun w l nodes => ?_, fun _ _ => rfl⟩
  have hhead : ((h.before w).setHead l (nodes.map h.node)).head =
      (h.before (w.setHead l nodes)).head := by
    ext1 l'
    change _ = ((w.setHead l nodes).head l').map h.node
    rcases eq_or_ne l' l with rfl | hne
    · rw [head_setHead_self, head_setHead_self]
    · rw [head_setHead_of_ne _ _ hne, head_setHead_of_ne _ _ hne]
      rfl
  rw [TimeWheel.mk.injEq]
  exact ⟨hhead, rfl, rfl, rfl, rfl, rfl⟩

theorem head_before (h : History) (v : TimeWheel) (l : LinkList) :
    (h.before v).head l = (v.head l).map h.node :=
  rfl

theorem spinlockLock_before : spinlockLock (h.before v) = (spinlockLock v).map h.before := by
  unfold spinlockLock
  change (if v.lock then _ else _) = _
  split_ifs <;> rfl

/-! ## Callbacks and operations -/

variable {calls : ℕ → List TimerCall}

theorem length_called_before :
    (h.before v).called.length = h.called.length + v.called.length := by
  simp [History.before]

theorem addTimer_before (c : TimerCall) :
    (h.before v).addTimer calls c = (v.addTimer (h.later calls) c).map h.before := by
  unfold addTimer
  have hcalls : calls (h.before v).called.length = h.later calls v.called.length := by
    rw [length_called_before]
    rfl
  have hnode : (h.before v).timerNode c = h.node (v.timerNode c) := rfl
  have hmade : { h.before v with allocated := (h.before v).allocated + 1 } =
      h.before { v with allocated := v.allocated + 1 } := rfl
  rw [hnode, hmade, spinlockLock_before]
  simp only [Option.bind_eq_bind, Option.map_bind, Option.bind_map]
  refine Option.bind_congr fun w hw => ?_
  have hcalled : w.called = v.called := by
    unfold spinlockLock at hw
    split_ifs at hw
    rw [← Option.some.inj hw]
  have hcalls' : calls (h.before w).called.length = h.later calls w.called.length := by
    rw [length_called_before]
    rfl
  simp only [Function.comp_apply, hcalls']
  split_ifs
  · simp [spinlockUnlock, History.before, List.append_assoc]
  · rfl
  · rw [(recasts_before h).addNode]
    rfl

theorem addTimers_before : ∀ (cs : List TimerCall) (v : TimeWheel),
    cs.foldlM (addTimer calls) (h.before v) =
      (cs.foldlM (addTimer (h.later calls)) v).map h.before
  | [], _ => rfl
  | c :: cs, v => by
    rw [List.foldlM_cons, List.foldlM_cons, addTimer_before]
    simp only [Option.bind_eq_bind, Option.map_bind, Option.bind_map]
    exact Option.bind_congr fun w _ => addTimers_before cs w

theorem dispatchNode_before (n : TimeNode) (v : TimeWheel) :
    dispatchNode calls (h.node n) (h.before v) =
      (dispatchNode (h.later calls) n v).map h.before := by
  have htake : { h.before v with
      taken := (h.before v).taken ++ [(h.node n, (h.before v).time)] } =
      h.before { v with taken := v.taken ++ [(n, v.time)] } := by
    simp [History.before, List.append_assoc]
  unfold dispatchNode
  simp only [htake]
  change (if n.cancel = false then _ else _) = _
  split_ifs
  · unfold process
    rw [length_called_before]
    have hcall : ∀ u : TimeWheel, { h.before u with called := (h.before u).called ++ [h.node n] } =
        h.before { u with called := u.called ++ [n] } := by
      intro u
      simp [History.before, List.append_assoc]
    rw [hcall]
    exact addTimers_before _ _
  · rfl

theorem dispatchList_before (l : LinkList) (v : TimeWheel) :
    dispatchList calls (h.before v) l = (dispatchList (h.later calls) v l).map h.before := by
  unfold dispatchList
  rw [head_before, List.length_map]
  exact Drain.drain_map (fun _ => rfl) (fun w nodes => (recasts_before h).setHead w l nodes)
    dispatchNode_before _ _

theorem timerExecute_before (v : TimeWheel) :
    timerExecute calls (h.before v) = (timerExecute (h.later calls) v).map h.before := by
  have hempty : ((h.before v).head (.near (v.time &&& 255).toNat)).isEmpty =
      (v.head (.near (v.time &&& 255).toNat)).isEmpty := by
    rw [head_before, List.isEmpty_map]
  by_cases hnil : (v.head (.near (v.time &&& 255).toNat)).isEmpty
  · have hl : timerExecute calls (h.before v) = some (h.before v) := if_pos (hempty.trans hnil)
    have hr : timerExecute (h.later calls) v = some v := if_pos hnil
    rw [hl, hr, Option.map_some]
  · have hl : timerExecute calls (h.before v) =
        (dispatchList calls (h.before (spinlockUnlock v)) _).bind spinlockLock :=
      if_neg (hempty ▸ hnil)
    have hr : timerExecute (h.later calls) v =
        (dispatchList (h.later calls) (spinlockUnlock v) _).bind spinlockLock := if_neg hnil
    rw [hl, hr, dispatchList_before, Option.map_bind, Option.bind_map]
    exact Option.bind_congr fun w _ => spinlockLock_before

theorem timerUpdate_before (v : TimeWheel) :
    timerUpdate calls (h.before v) = (timerUpdate (h.later calls) v).map h.before := by
  unfold timerUpdate
  rw [spinlockLock_before]
  rcases v.spinlockLock with _ | w1
  · rfl
  · simp only [Option.map_some, Option.bind_eq_bind, Option.bind_some, timerExecute_before]
    rcases timerExecute (h.later calls) w1 with _ | w2
    · rfl
    · simp only [Option.map_some, Option.bind_some, (recasts_before h).timerShift]
      rcases w2.timerShift with _ | w3
      · rfl
      · simp only [Option.map_some, Option.bind_some, timerExecute_before]
        rcases timerExecute (h.later calls) w3 with _ | w4
        · rfl
        · rfl

/-- A wheel with a history before its own does the same. -/
theorem run_before : ∀ (ops : List TimerOp) (v : TimeWheel),
    (h.before v).run calls ops = (v.run (h.later calls) ops).map h.before
  | [], _ => rfl
  | op :: ops, v => by
    have hstep : step calls (h.before v) op = (step (h.later calls) v op).map h.before := by
      cases op with
      | timerUpdate => exact timerUpdate_before v
      | addTimer c => exact addTimer_before c
    rw [run, List.foldlM_cons, hstep, run, List.foldlM_cons]
    simp only [Option.bind_eq_bind, Option.map_bind, Option.bind_map]
    exact Option.bind_congr fun w _ => run_before ops w

end TimeWheel

end WzxServer
