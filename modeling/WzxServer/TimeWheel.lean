import WzxServer.Lib.Drain
import WzxServer.Lib.Places
import Mathlib.Data.List.Basic

/-!
# The time wheel

`timeWheel` of `timewheel.cpp` : 256 near lists, and four levels of 64 lists each. Functions
that may wait for the spin lock for ever, or loop for ever, answer `none` then.

A callback is known by what it does to the wheel, the timers it adds. `calls k` are the calls
of `add_timer` that the `k`-th callback makes, so that callbacks may do anything. A node
carries the number of its allocation, and the wheel records what is taken out and called.

`m_time` and the expiry of a node are 32-bit numbers and wrap around; the records are not part of
the source and are never read (`WheelHistory`). A list is a chain of nodes from its head on, and
`link` puts a node behind the last.
-/

namespace WzxServer

/-- `timeNode` : pointers are numbers, and `id` tells the allocations apart. -/
structure TimeNode where
  id : ℕ
  expire : UInt32
  pfnPrepare : ℕ
  pfnProcess : ℕ
  cancel : Bool
  pArg : ℕ
  deriving DecidableEq

/-- `&m_near[idx]` or `&m_t[level][idx]`. -/
inductive LinkList where
  | near (idx : ℕ)
  | t (level idx : ℕ)
  deriving DecidableEq

/-- The wheel, with what an observer keeps of it in the last three fields. -/
structure TimeWheel where
  head : LinkList → List TimeNode
  time : UInt32
  lock : Bool
  /-- How many nodes were allocated. -/
  allocated : ℕ
  /-- What `dispatch_list` took out, and `m_time` then. -/
  taken : List (TimeNode × UInt32)
  /-- The nodes that callbacks were called with. -/
  called : List TimeNode

/-- The arguments of `add_timer`, and the node as `malloc` returns it. -/
structure TimerCall where
  time : Int32
  func : ℕ
  args : ℕ
  mem : TimeNode

namespace TimeWheel

/-- The constructor of `timeWheel`. -/
def init : TimeWheel :=
  ⟨fun _ => [], 0, false, 0, [], []⟩

/-- Put a chain at `l`. -/
def setHead (w : TimeWheel) (l : LinkList) (nodes : List TimeNode) : TimeWheel :=
  { w with head := Function.update w.head l nodes }

@[simp] theorem head_setHead_self (w : TimeWheel) (l : LinkList) (nodes : List TimeNode) :
    (w.setHead l nodes).head l = nodes :=
  Function.update_self _ _ _

theorem head_setHead_of_ne {l l' : LinkList} (w : TimeWheel) (nodes : List TimeNode)
    (h : l' ≠ l) : (w.setHead l nodes).head l' = w.head l' :=
  Function.update_of_ne h _ _

/-- `link` -/
def link (w : TimeWheel) (l : LinkList) (n : TimeNode) : TimeWheel :=
  w.setHead l (w.head l ++ [n])

@[simp] theorem head_link_self (w : TimeWheel) (l : LinkList) (n : TimeNode) :
    (w.link l n).head l = w.head l ++ [n] :=
  head_setHead_self _ _ _

theorem head_link_of_ne {l l' : LinkList} (w : TimeWheel) (n : TimeNode) (h : l' ≠ l) :
    (w.link l n).head l' = w.head l' :=
  head_setHead_of_ne _ _ h

theorem mem_head_link_self (w : TimeWheel) (l : LinkList) (n : TimeNode) :
    n ∈ (w.link l n).head l := by
  rw [head_link_self]
  exact List.mem_append_right _ List.mem_cons_self

theorem mem_head_link {l l' : LinkList} {w : TimeWheel} {n m : TimeNode} (h : m ∈ w.head l') :
    m ∈ (w.link l n).head l' := by
  rcases eq_or_ne l' l with rfl | hne
  · rw [head_link_self]
    exact List.mem_append_left _ h
  · rwa [head_link_of_ne _ _ hne]

/-- The queue at `l` in the wheel. -/
def queue (l : LinkList) : Drain.Queue TimeWheel TimeNode :=
  ⟨fun w => w.head l, fun w nodes => w.setHead l nodes⟩

/-- `SPINLOCK_LOCK`. With one thread nobody would let go of a lock that is held. -/
def spinlockLock (w : TimeWheel) : Option TimeWheel :=
  if w.lock then none else some { w with lock := true }

/-- `SPINLOCK_UNLOCK` -/
def spinlockUnlock (w : TimeWheel) : TimeWheel :=
  { w with lock := false }

/-- The list that `add_node` puts a node into. -/
def linkListOf (time current : UInt32) : LinkList :=
  let msec := time - current
  if msec < 256 then .near (time &&& 255).toNat
  else if msec < (1 : UInt32) <<< 14 then .t 0 ((time >>> 8) &&& 63).toNat
  else if msec < (1 : UInt32) <<< 20 then .t 1 ((time >>> 14) &&& 63).toNat
  else if msec < (1 : UInt32) <<< 26 then .t 2 ((time >>> 20) &&& 63).toNat
  else .t 3 ((time >>> 26) &&& 63).toNat

/-- `add_node` -/
def addNode (w : TimeWheel) (n : TimeNode) : TimeWheel :=
  w.link (linkListOf n.expire w.time) n

/-- `move_list` -/
def moveList (w : TimeWheel) (level idx : ℕ) : Option TimeWheel :=
  Drain.drain (queue (.t level idx)) (fun n w => some (w.addNode n))
    (w.head (.t level idx)).length w

/-- The loop of `timer_shift`. The shift of `mask` overflows in the fourth turn, so there is
no fifth. -/
def shiftLoop (w : TimeWheel) (ct : UInt32) : ℕ → UInt32 → UInt32 → ℕ → Option TimeWheel
  | 0, _, _, _ => none
  | fuel + 1, mask, time, i =>
    if ct &&& (mask - 1) = 0 then
      let idx := (time &&& 63).toNat
      if idx ≠ 0 then w.moveList i idx
      else w.shiftLoop ct fuel (mask <<< 6) (time >>> 6) (i + 1)
    else some w

/-- `timer_shift` -/
def timerShift (w : TimeWheel) : Option TimeWheel :=
  let ct := w.time + 1
  let w := { w with time := ct }
  if ct = 0 then w.moveList 3 0
  else w.shiftLoop ct 4 256 (ct >>> 8) 0

/-- The node that `add_timer` makes of what `malloc` returned. -/
def timerNode (w : TimeWheel) (c : TimerCall) : TimeNode :=
  { c.mem with
    id := w.allocated
    expire := c.time.toUInt32 + w.time
    pfnProcess := c.func
    pArg := c.args }

/-- The node that `add_timer` makes when it is given an `OnPreparePfn_t`. -/
def prepareNode (w : TimeWheel) (c : TimerCall) : TimeNode :=
  { c.mem with
    id := w.allocated
    expire := c.time.toUInt32 + w.time
    pfnPrepare := c.func
    pArg := c.args }

/-- `add_timer` with an `OnPreparePfn_t`. -/
def addTimerPrepare (w : TimeWheel) (c : TimerCall) : Option TimeWheel := do
  let node := w.prepareNode c
  let w ← spinlockLock { w with allocated := w.allocated + 1 }
  some (spinlockUnlock (w.addNode node))

/-- `del_timer`, with the node of allocation `id`. -/
def delTimer (w : TimeWheel) (id : ℕ) : TimeWheel :=
  { w with
    head := fun l => (w.head l).map fun n => if n.id = id then { n with cancel := true } else n }

/-- `clear_timer`. Its first loop clears `m_near->head`, which is `m_near[0].head`, each time. -/
def clearTimer (w : TimeWheel) : TimeWheel :=
  { w with
    head := fun l => match l with
      | .near idx => if idx = 0 then [] else w.head (.near idx)
      | .t level idx => if level < 4 ∧ idx < 64 then [] else w.head (.t level idx) }

variable (calls : ℕ → List TimerCall)

/-- `add_timer` with an `OnProcessPfn_t`. A callback that is called from here finds the lock
taken, so it returns only if it adds no timer. -/
def addTimer (w : TimeWheel) (c : TimerCall) : Option TimeWheel := do
  let node := w.timerNode c
  let w ← spinlockLock { w with allocated := w.allocated + 1 }
  if c.time ≤ 0 then
    if (calls w.called.length).isEmpty then
      some (spinlockUnlock { w with called := w.called ++ [node] })
    else none
  else some (spinlockUnlock (w.addNode node))

/-- The call `temp->pfnProcess(temp)`, from where the lock is free. -/
def process (w : TimeWheel) (n : TimeNode) : Option TimeWheel :=
  (calls w.called.length).foldlM (addTimer calls) { w with called := w.called ++ [n] }

/-- One turn of `dispatch_list`, with the node that was taken out. -/
def dispatchNode (n : TimeNode) (w : TimeWheel) : Option TimeWheel :=
  let w := { w with taken := w.taken ++ [(n, w.time)] }
  if n.cancel = false then w.process calls n else some w

/-- `dispatch_list` -/
def dispatchList (w : TimeWheel) (l : LinkList) : Option TimeWheel :=
  Drain.drain (queue l) (dispatchNode calls) (w.head l).length w

/-- `timer_execute`. Its loop ends after one turn, as `dispatch_list` leaves the list empty. -/
def timerExecute (w : TimeWheel) : Option TimeWheel :=
  let l := LinkList.near (w.time &&& 255).toNat
  if (w.head l).isEmpty then some w
  else do
    let w ← dispatchList calls (spinlockUnlock w) l
    spinlockLock w

/-- `timer_update` -/
def timerUpdate (w : TimeWheel) : Option TimeWheel := do
  let w ← spinlockLock w
  let w ← w.timerExecute calls
  let w ← w.timerShift
  let w ← w.timerExecute calls
  some (spinlockUnlock w)

end TimeWheel

/-- What is done with the wheel. -/
inductive TimerOp where
  /-- A tick. -/
  | timerUpdate
  /-- A call of `add_timer`. -/
  | addTimer (c : TimerCall)

namespace TimeWheel

variable (calls : ℕ → List TimerCall)

/-- One call. -/
def step (w : TimeWheel) : TimerOp → Option TimeWheel
  | .timerUpdate => w.timerUpdate calls
  | .addTimer c => w.addTimer calls c

/-- A run of the wheel. -/
def run (w : TimeWheel) (ops : List TimerOp) : Option TimeWheel :=
  ops.foldlM (step calls) w

end TimeWheel

end WzxServer
