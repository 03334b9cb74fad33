import WzxServer.WheelSteps

/-!
# What the memory of a node decides

`add_timer` does not set `m_cancel`, and of the two callbacks of a node each overload sets one.
`dispatch_list` reads `m_cancel` and calls `pfnProcess` in any case. So whether and how a node
is called may depend on what `malloc` returned for it. By `fires_iff` a node is called through
the function it was registered with exactly if `del_timer` was not called on it, as long as
every node that is taken out is `Clean`; and then two runs that differ in the contents of the
memory make the same calls.

The two halves have proofs of different kinds. For the first an invariant says what a node tells
of the call that made it (`Kept`), so that at the dispatch its `m_cancel` and its function can be
compared with the call. For the second two runs go in step : the wheels are alike but for what
the memory decides (`WheelsAlike`), and a clean step keeps them alike, since whether it calls does
not depend on the memory then.
-/

namespace WzxServer

/-- The call, with memory of zeros. -/
def TimerCall.blank (c : TimerCall) : TimerCall :=
  { c with mem := TimeWheel.zeroNode }

/-- The move, with memory of zeros. -/
def Move.blank : Move → Move
  | .addTimer o c => .addTimer o c.blank
  | mv => mv

/-- The frame, with memory of zeros. -/
def Frame.blank : Frame → Frame
  | .enter o c => .enter o c.blank
  | .place o c => .place o c.blank
  | f => f

namespace WheelThread

open TimeWheel

/-- `del_timer` is called on nodes that were not dispatched. -/
def Waiting (m : WheelThread) (mv : Move) : Prop :=
  ∀ id, mv = .delTimer id → ∃ l, ∃ n ∈ m.wheel.head l, n.id = id

/-- The node that `dispatch_list` takes out next. -/
def Taking (m : WheelThread) (mv : Move) (n : TimeNode) : Prop :=
  mv = .go ∧ ∃ again idx rest ns, m.stack = .dispatch again idx :: rest ∧
    m.wheel.head (.near idx) = n :: ns

/-- The node was cancelled, or registered with an `OnProcessPfn_t` in memory in which
`m_cancel` was `false`. -/
def CleanNode (m : WheelThread) (n : TimeNode) : Prop :=
  n.id ∈ m.deleted ∨ ∃ c, m.made[n.id]? = some (.process, c) ∧ c.mem.cancel = false

/-- A node that a move takes out is one whose `m_cancel` can be trusted. -/
def Clean (m : WheelThread) (mv : Move) : Prop :=
  ∀ n, Taking m mv n → CleanNode m n

instance (m : WheelThread) (n : TimeNode) : Decidable (CleanNode m n) :=
  have : Decidable (∃ c, m.made[n.id]? = some (.process, c) ∧ c.mem.cancel = false) :=
    match h : m.made[n.id]? with
    | some (.process, c) => decidable_of_iff (c.mem.cancel = false) (by simp)
    | some (.prepare, c) => .isFalse (by simp)
    | none => .isFalse (by simp)
  inferInstanceAs (Decidable (_ ∨ _))

/-- The node that `dispatch_list` takes out next, if any. -/
def taking? (m : WheelThread) : Move → Option TimeNode
  | .go =>
    match m.stack with
    | .dispatch _ idx :: _ => (m.wheel.head (.near idx)).head?
    | _ => none
  | _ => none

theorem taking_iff {m : WheelThread} {mv : Move} {n : TimeNode} :
    Taking m mv n ↔ m.taking? mv = some n := by
  constructor
  · rintro ⟨rfl, again, idx, rest, ns, hstack, hhead⟩
    rw [taking?, hstack]
    exact congrArg List.head? hhead
  · intro h
    cases mv with
    | go =>
      rw [taking?] at h
      rcases hstack : m.stack with _ | ⟨f, rest⟩
      · rw [hstack] at h
        cases h
      · rw [hstack] at h
        cases f with
        | dispatch again idx =>
          obtain ⟨ns, hhead⟩ := List.head?_eq_some_iff.mp h
          exact ⟨rfl, again, idx, rest, ns, hstack, hhead⟩
        | _ => cases h
    | _ => cases h

instance (m : WheelThread) (mv : Move) : Decidable (Clean m mv) :=
  decidable_of_iff (∀ n ∈ m.taking? mv, CleanNode m n)
    (forall_congr' fun _ => by rw [taking_iff, Option.mem_def])

/-- In this step, a callback is called with the node, through the function that the node was
registered with. -/
def Fires (m : WheelThread) (mv : Move) (n : TimeNode) : Prop :=
  ∃ m' c n', m.next mv = some m' ∧ m.made[n.id]? = some (.process, c) ∧
    m'.wheel.called = m.wheel.called ++ [n'] ∧ n'.id = n.id ∧ n'.pfnProcess = c.func

/-- A node that is taken out is called exactly if `del_timer` was not called on it. -/
def FiresRightly (m : WheelThread) (mv : Move) : Prop :=
  ∀ n, Taking m mv n → (Fires m mv n ↔ n.id ∉ m.deleted)

/-- What is called : the node and the function, and the argument. -/
def callsOf (m : WheelThread) : List (ℕ × ℕ × ℕ) :=
  m.wheel.called.map fun n => (n.id, n.pfnProcess, n.pArg)

/-! ## What a node tells of its registration -/

/-- A node of the wheel is as `add_timer` and `del_timer` left it. -/
def MadeNode (m : WheelThread) (n : TimeNode) : Prop :=
  ∃ o c, m.made[n.id]? = some (o, c) ∧ (o = .process → n.pfnProcess = c.func) ∧
    n.cancel = (decide (n.id ∈ m.deleted) || c.mem.cancel)

/-- The invariant. -/
structure Kept (m : WheelThread) : Prop where
  /-- The calls are recorded in the order of the allocations. -/
  allocated : m.made.length = m.wheel.allocated
  /-- A node tells of the call that made it. -/
  nodes : ∀ l, ∀ n ∈ m.wheel.head l, MadeNode m n
  /-- `del_timer` is called on nodes that were made. -/
  deleted : ∀ id ∈ m.deleted, id < m.made.length

section Kept

variable {m m' : WheelThread} {n : TimeNode}

theorem MadeNode.lt (h : MadeNode m n) : n.id < m.made.length := by
  obtain ⟨o, c, hmade, -⟩ := h
  exact (List.getElem?_eq_some_iff.mp hmade).1

/-- A wheel with the same nodes, or fewer. -/
theorem Kept.subset (h : Kept m) {w : TimeWheel} {stack : List Frame}
    (hall : w.allocated = m.wheel.allocated)
    (hsub : ∀ l, ∀ n ∈ w.head l, ∃ l', n ∈ m.wheel.head l') :
    Kept { m with wheel := w, stack := stack } := by
  refine ⟨h.allocated.trans hall.symm, fun l n hn => ?_, h.deleted⟩
  obtain ⟨l', hn'⟩ := hsub l n hn
  exact h.nodes l' n hn'

theorem subset_timerShift {w w' : TimeWheel} (hw : w.timerShift = some w') :
    w'.allocated = w.allocated ∧ ∀ l, ∀ n ∈ w'.head l, ∃ l', n ∈ w.head l' := by
  rcases timerShift_moves w with ⟨level, idx, -, hmoves⟩ | hstays
  · have hlist := hmoves.symm.trans hw
    refine Drain.turns_rule (I := fun v => v.allocated = w.allocated ∧
      ∀ l, ∀ n ∈ v.head l, ∃ l', n ∈ w.head l') ?_ ⟨rfl, fun l n hn => ⟨l, hn⟩⟩
      (Drain.turns_of_drain hlist).1
    rintro v v' n rest ⟨hall, hsub⟩ hget hbody
    obtain rfl := Option.some.inj hbody
    have hhead : v.head (.t level idx) = n :: rest := hget
    refine ⟨hall, fun l k hk => ?_⟩
    have hpop : ∀ l, ∀ k ∈ (v.setHead (.t level idx) rest).head l, ∃ l', k ∈ w.head l' := by
      intro l k hk
      rcases eq_or_ne l (.t level idx) with rfl | hne
      · rw [head_setHead_self] at hk
        exact hsub _ k (hhead ▸ List.mem_cons_of_mem n hk)
      · rw [head_setHead_of_ne _ _ hne] at hk
        exact hsub l k hk
    rcases eq_or_ne l (linkListOf n.expire v.time) with rfl | hne
    · have hk' := head_link_self (v.setHead (.t level idx) rest) (linkListOf n.expire v.time) n ▸ hk
      rcases List.mem_append.mp hk' with hk' | hk'
      · exact hpop _ k hk'
      · rw [List.mem_singleton.mp hk']
        exact hsub _ n (hhead ▸ List.mem_cons_self)
    · exact hpop l k (head_link_of_ne _ n hne ▸ hk)
  · obtain rfl := Option.some.inj (hstays.symm.trans hw)
    exact ⟨rfl, fun l n hn => ⟨l, hn⟩⟩

/-- More calls do not change what is known of the nodes before. -/
theorem MadeNode.more (h : MadeNode m n) (e : Overload × TimerCall) {w : TimeWheel}
    {stack : List Frame} : MadeNode ⟨w, stack, m.made ++ [e], m.deleted⟩ n := by
  have hlt := h.lt
  obtain ⟨o, c, hmade, hrest⟩ := h
  refine ⟨o, c, ?_, hrest⟩
  change (m.made ++ [e])[n.id]? = _
  rw [List.getElem?_append_left hlt, hmade]

/-- The node of the newest call. -/
theorem Kept.madeNode_nodeOf (h : Kept m) (o : Overload) (c : TimerCall) {w : TimeWheel}
    {stack : List Frame} :
    MadeNode ⟨w, stack, m.made ++ [(o, c)], m.deleted⟩ (nodeOf m.wheel o c) := by
  have hid : (nodeOf m.wheel o c).id = m.made.length := by
    rw [h.allocated]
    cases o <;> rfl
  have hnew : m.made.length ∉ m.deleted := fun hmem => lt_irrefl _ (h.deleted _ hmem)
  refine ⟨o, c, ?_, ?_, ?_⟩
  · change (m.made ++ [(o, c)])[(nodeOf m.wheel o c).id]? = _
    rw [hid, List.getElem?_append_right (le_refl _), Nat.sub_self]
    rfl
  · rintro rfl
    rfl
  · change _ = (decide ((nodeOf m.wheel o c).id ∈ m.deleted) || _)
    rw [hid, decide_eq_false hnew, Bool.false_or]
    cases o <;> rfl

theorem Kept.placeNode (h : Kept m) (o : Overload) (c : TimerCall) (rest : List Frame) :
    Kept (m.placeNode o c rest) := by
  have hlength : ∀ e, (m.made ++ [e]).length = m.wheel.allocated + 1 := by
    intro e
    rw [List.length_append, h.allocated]
    rfl
  have hdeleted : ∀ e, ∀ id ∈ m.deleted, id < (m.made ++ [e]).length := by
    intro e id hid
    rw [List.length_append]
    exact (h.deleted id hid).trans (Nat.lt_succ_self _)
  unfold WheelThread.placeNode
  simp only
  split_ifs
  · exact ⟨hlength _, fun l n hn => (h.nodes l n hn).more _, hdeleted _⟩
  · refine ⟨hlength _, fun l n hn => ?_, hdeleted _⟩
    rcases eq_or_ne l (linkListOf (nodeOf m.wheel o c).expire m.wheel.time) with rfl | hne
    · have hn' := head_link_self { m.wheel with allocated := m.wheel.allocated + 1 } _
        (nodeOf m.wheel o c) ▸ hn
      rcases List.mem_append.mp hn' with hn' | hn'
      · exact (h.nodes _ n hn').more _
      · rw [List.mem_singleton.mp hn']
        exact h.madeNode_nodeOf o c
    · exact (h.nodes l n (head_link_of_ne _ _ hne ▸ hn)).more _

theorem Kept.delTimer (h : Kept m) {id : ℕ} (hid : ∃ l, ∃ n ∈ m.wheel.head l, n.id = id) :
    Kept { m with wheel := m.wheel.delTimer id, deleted := id :: m.deleted } := by
  refine ⟨h.allocated, ?_, ?_⟩
  · intro l n hn
    obtain ⟨k, hk, rfl⟩ := List.mem_map.mp hn
    obtain ⟨o, c, hmade, hfunc, hcancel⟩ := h.nodes l k hk
    by_cases heq : k.id = id
    · rw [if_pos heq]
      refine ⟨o, c, hmade, hfunc, ?_⟩
      simp [heq]
    · rw [if_neg heq]
      refine ⟨o, c, hmade, hfunc, ?_⟩
      rw [hcancel]
      simp [heq]
  · intro id' hid'
    rcases List.mem_cons.mp hid' with rfl | hid'
    · obtain ⟨l, n, hn, rfl⟩ := hid
      exact (h.nodes l n hn).lt
    · exact h.deleted id' hid'

theorem Kept.dispatchOne (h : Kept m) (again : Bool) (idx : ℕ) (rest : List Frame) :
    Kept (m.dispatchOne again idx rest) := by
  rcases hhead : m.wheel.head (.near idx) with _ | ⟨n, ns⟩
  · rw [dispatchOne_nil hhead]
    exact h.subset rfl fun l k hk => ⟨l, hk⟩
  · have hsub : ∀ l, ∀ k ∈ (m.wheel.setHead (.near idx) ns).head l,
        ∃ l', k ∈ m.wheel.head l' := by
      intro l k hk
      rcases eq_or_ne l (.near idx) with rfl | hne
      · rw [head_setHead_self] at hk
        exact ⟨_, hhead ▸ List.mem_cons_of_mem n hk⟩
      · rw [head_setHead_of_ne _ _ hne] at hk
        exact ⟨l, hk⟩
    by_cases hcancel : n.cancel = false
    · rw [dispatchOne_call hhead hcancel]
      exact h.subset rfl hsub
    · rw [dispatchOne_cancelled hhead hcancel]
      exact h.subset rfl hsub

theorem Kept.go (h : Kept m) (hm : m.go = some m') : Kept m' := by
  have hsame : ∀ {w1 : TimeWheel} {stack : List Frame}, spinlockLock m.wheel = some w1 →
      Kept { m with wheel := w1, stack := stack } := by
    intro w1 stack hw1
    obtain ⟨-, rfl⟩ := spinlockLock_eq_some hw1
    exact h.subset rfl fun l n hn => ⟨l, hn⟩
  unfold WheelThread.go at hm
  split at hm
  · obtain ⟨w1, hw1, rfl⟩ := Option.map_eq_some_iff.mp hm
    exact hsame hw1
  · obtain rfl := Option.some.inj hm
    exact h.placeNode _ _ _
  · obtain rfl := Option.some.inj hm
    exact h.subset rfl fun l n hn => ⟨l, hn⟩
  · obtain ⟨w1, hw1, rfl⟩ := Option.map_eq_some_iff.mp hm
    exact hsame hw1
  · split_ifs at hm
    all_goals
      obtain rfl := Option.some.inj hm
      exact h.subset rfl fun l n hn => ⟨l, hn⟩
  · obtain rfl := Option.some.inj hm
    exact h.dispatchOne _ _ _
  · obtain ⟨w1, hw1, rfl⟩ := Option.map_eq_some_iff.mp hm
    exact hsame hw1
  · obtain ⟨w1, hw1, rfl⟩ := Option.map_eq_some_iff.mp hm
    obtain ⟨hall, hsub⟩ := subset_timerShift hw1
    exact h.subset hall hsub
  · cases hm

theorem Kept.next (h : Kept m) {mv : Move} (hwaiting : Waiting m mv)
    (hm : m.next mv = some m') : Kept m' := by
  cases mv with
  | addTimer o c =>
    rw [WheelThread.next] at hm
    split_ifs at hm
    obtain rfl := Option.some.inj hm
    exact h.subset rfl fun l n hn => ⟨l, hn⟩
  | delTimer id =>
    rw [WheelThread.next] at hm
    split_ifs at hm
    obtain rfl := Option.some.inj hm
    exact h.delTimer (hwaiting id rfl)
  | timerUpdate =>
    rw [WheelThread.next] at hm
    split at hm
    · obtain rfl := Option.some.inj hm
      exact h.subset rfl fun l n hn => ⟨l, hn⟩
    · cases hm
  | back =>
    rw [WheelThread.next] at hm
    split at hm
    · obtain rfl := Option.some.inj hm
      exact h.subset rfl fun l n hn => ⟨l, hn⟩
    · cases hm
  | go => exact h.go hm

/-! ## One step -/

/-- When a node is taken out, it is called exactly if `m_cancel` is not set. -/
theorem called_of_taking {mv : Move} (htaking : Taking m mv n) :
    ∃ m', m.next mv = some m' ∧
      m'.wheel.called = m.wheel.called ++ if n.cancel = false then [n] else [] := by
  obtain ⟨rfl, again, idx, rest, ns, hstack, hhead⟩ := htaking
  have hgo : m.next .go = some (m.dispatchOne again idx rest) := by
    change m.go = _
    rw [WheelThread.go, hstack]
  refine ⟨_, hgo, ?_⟩
  by_cases hcancel : n.cancel = false
  · rw [dispatchOne_call hhead hcancel, if_pos hcancel]
  · rw [dispatchOne_cancelled hhead hcancel, if_neg hcancel, List.append_nil]
    rfl

theorem fires_iff_of_taking {mv : Move} (h : Kept m) (htaking : Taking m mv n) :
    Fires m mv n ↔ n.cancel = false ∧ ∃ c, m.made[n.id]? = some (.process, c) := by
  obtain ⟨m', hm', hcalled⟩ := called_of_taking htaking
  constructor
  · rintro ⟨m'', c, n', hm'', hmade, hcalled', -⟩
    obtain rfl := Option.some.inj (hm'.symm.trans hm'')
    refine ⟨?_, c, hmade⟩
    by_contra hcancel
    rw [if_neg hcancel] at hcalled
    have hnil := List.append_cancel_left (hcalled.symm.trans hcalled')
    cases hnil
  · rintro ⟨hcancel, c, hmade⟩
    rw [if_pos hcancel] at hcalled
    refine ⟨m', c, n, hm', hmade, hcalled, rfl, ?_⟩
    obtain ⟨-, again, idx, rest, ns, -, hhead⟩ := htaking
    obtain ⟨o, c', hmade', hfunc, -⟩ := h.nodes _ n (hhead ▸ List.mem_cons_self)
    obtain ⟨rfl, rfl⟩ := Prod.mk.inj (Option.some.inj (hmade.symm.trans hmade'))
    exact hfunc rfl

/-- A node that is taken out is called rightly exactly if it is clean. -/
theorem firesRightly_iff (h : Kept m) (mv : Move) : FiresRightly m mv ↔ Clean m mv := by
  refine forall_congr' fun n => forall_congr' fun htaking => ?_
  rw [fires_iff_of_taking h htaking]
  obtain ⟨-, again, idx, rest, ns, -, hhead⟩ := htaking
  obtain ⟨o, c, hmade, -, hcancel⟩ := h.nodes _ n (hhead ▸ List.mem_cons_self)
  rw [CleanNode, hcancel]
  by_cases hdel : n.id ∈ m.deleted
  · simp [hdel]
  · cases o <;> simp [hdel, hmade]

end Kept

/-! ## Two contents of the memory -/

/-- The node without what the memory decides. -/
def eraseNode (n : TimeNode) : TimeNode :=
  { n with pfnPrepare := 0, pfnProcess := 0, cancel := false }

/-- The node as its callback is called with it. -/
def calledNode (n : TimeNode) : TimeNode :=
  { n with pfnPrepare := 0, cancel := false }

/-- The wheel without what the memory decides. -/
def eraseWheel (w : TimeWheel) : TimeWheel where
  head := fun l => (w.head l).map eraseNode
  time := w.time
  lock := w.lock
  allocated := w.allocated
  taken := []
  called := w.called.map calledNode

theorem recasts_eraseWheel : Recasts eraseWheel eraseNode := by
  refine ⟨fun _ => rfl, fun _ _ => rfl, fun _ => rfl, fun w l nodes => ?_, fun _ _ => rfl⟩
  have hhead : ((eraseWheel w).setHead l (nodes.map eraseNode)).head =
      (eraseWheel (w.setHead l nodes)).head := by
    ext1 l'
    change _ = ((w.setHead l nodes).head l').map eraseNode
    rcases eq_or_ne l' l with rfl | hne
    · rw [head_setHead_self, head_setHead_self]
    · rw [head_setHead_of_ne _ _ hne, head_setHead_of_ne _ _ hne]
      rfl
  rw [TimeWheel.mk.injEq]
  exact ⟨hhead, rfl, rfl, rfl, rfl, rfl⟩

/-- Two wheels that differ only in what the memory decides. -/
def WheelsAlike (w w' : TimeWheel) : Prop :=
  eraseWheel w = eraseWheel w'

section WheelsAlike

variable {w w' w1 : TimeWheel} (h : WheelsAlike w w')

include h

theorem WheelsAlike.head (l : LinkList) :
    (w.head l).map eraseNode = (w'.head l).map eraseNode :=
  congrFun (congrArg TimeWheel.head h) l

theorem WheelsAlike.lock : w.lock = w'.lock :=
  congrArg (fun w => w.lock) h

theorem WheelsAlike.time : w.time = w'.time :=
  congrArg (fun w => w.time) h

theorem WheelsAlike.allocated : w.allocated = w'.allocated :=
  congrArg (fun w => w.allocated) h

theorem WheelsAlike.called : w.called.map calledNode = w'.called.map calledNode :=
  congrArg (fun w => w.called) h

theorem WheelsAlike.withLock (b : Bool) :
    WheelsAlike { w with lock := b } { w' with lock := b } := by
  change { eraseWheel w with lock := b } = { eraseWheel w' with lock := b }
  rw [show eraseWheel w = eraseWheel w' from h]

theorem WheelsAlike.spinlockLock (hw : TimeWheel.spinlockLock w = some w1) :
    ∃ w1', TimeWheel.spinlockLock w' = some w1' ∧ WheelsAlike w1 w1' := by
  obtain ⟨hlock, rfl⟩ := spinlockLock_eq_some hw
  refine ⟨{ w' with lock := true }, ?_, h.withLock true⟩
  unfold TimeWheel.spinlockLock
  rw [← h.lock, hlock]
  rfl

theorem WheelsAlike.timerShift (hw : w.timerShift = some w1) :
    ∃ w1', w'.timerShift = some w1' ∧ WheelsAlike w1 w1' := by
  have hsame : w.timerShift.map eraseWheel = w'.timerShift.map eraseWheel := by
    rw [← recasts_eraseWheel.timerShift, ← recasts_eraseWheel.timerShift,
      show eraseWheel w = eraseWheel w' from h]
  rw [hw, Option.map_some] at hsame
  obtain ⟨w1', hw1', heq⟩ := Option.map_eq_some_iff.mp hsame.symm
  exact ⟨w1', hw1', heq.symm⟩

theorem WheelsAlike.nearIdx : WheelThread.nearIdx w = WheelThread.nearIdx w' := by
  rw [WheelThread.nearIdx, h.time]
  rfl

/-- Alike nodes are taken from alike lists. -/
theorem WheelsAlike.cons {l : LinkList} {n : TimeNode} {ns : List TimeNode}
    (hhead : w.head l = n :: ns) :
    ∃ n' ns', w'.head l = n' :: ns' ∧ eraseNode n = eraseNode n' ∧
      ns.map eraseNode = ns'.map eraseNode := by
  have hmap := h.head l
  rw [hhead, List.map_cons] at hmap
  obtain ⟨n', ns', hcons, hn, hns⟩ := List.map_eq_cons_iff.mp hmap.symm
  exact ⟨n', ns', hcons, hn.symm, hns.symm⟩

theorem WheelsAlike.setHead {l : LinkList} {ns ns' : List TimeNode}
    (hns : ns.map eraseNode = ns'.map eraseNode) :
    WheelsAlike (w.setHead l ns) (w'.setHead l ns') := by
  have hsame : (eraseWheel w).setHead l (ns.map eraseNode) =
      (eraseWheel w').setHead l (ns'.map eraseNode) := by
    rw [hns, show eraseWheel w = eraseWheel w' from h]
  rwa [recasts_eraseWheel.setHead, recasts_eraseWheel.setHead] at hsame

theorem WheelsAlike.addNode {n n' : TimeNode} (hn : eraseNode n = eraseNode n') :
    WheelsAlike (w.addNode n) (w'.addNode n') := by
  have hsame : (eraseWheel w).addNode (eraseNode n) = (eraseWheel w').addNode (eraseNode n') := by
    rw [hn, show eraseWheel w = eraseWheel w' from h]
  rwa [recasts_eraseWheel.addNode, recasts_eraseWheel.addNode] at hsame

/-- The records may change, alike. -/
theorem WheelsAlike.record {allocated allocated' : ℕ} {taken taken' : List (TimeNode × UInt32)}
    {called called' : List TimeNode} (hall : allocated = allocated')
    (hcalled : called.map calledNode = called'.map calledNode) :
    WheelsAlike { w with allocated := allocated, taken := taken, called := called }
      { w' with allocated := allocated', taken := taken', called := called' } := by
  change { eraseWheel w with allocated := allocated, called := called.map calledNode } =
    { eraseWheel w' with allocated := allocated', called := called'.map calledNode }
  rw [hall, hcalled, show eraseWheel w = eraseWheel w' from h]

theorem WheelsAlike.delTimer (id : ℕ) : WheelsAlike (w.delTimer id) (w'.delTimer id) := by
  have hnode : ∀ n : TimeNode, eraseNode (if n.id = id then { n with cancel := true } else n) =
      eraseNode n := by
    intro n
    split_ifs <;> rfl
  have hwheel : ∀ v : TimeWheel, eraseWheel (v.delTimer id) = eraseWheel v := by
    intro v
    rw [TimeWheel.mk.injEq]
    refine ⟨?_, rfl, rfl, rfl, rfl, rfl⟩
    ext1 l
    change ((v.head l).map _).map eraseNode = (v.head l).map eraseNode
    rw [List.map_map]
    exact List.map_congr_left fun n _ => hnode n
  exact (hwheel w).trans ((show eraseWheel w = eraseWheel w' from h).trans (hwheel w').symm)

/-- Alike calls make alike nodes. -/
theorem WheelsAlike.nodeOf {c c' : TimerCall} (hc : c.blank = c'.blank) (o : Overload) :
    eraseNode (WheelThread.nodeOf w o c) = eraseNode (WheelThread.nodeOf w' o c') ∧
      (o = .process →
        calledNode (WheelThread.nodeOf w o c) = calledNode (WheelThread.nodeOf w' o c')) := by
  obtain ⟨htime, hfunc, hargs, -⟩ := TimerCall.mk.inj hc
  have hexpire : c.time.toUInt32 + w.time = c'.time.toUInt32 + w'.time := by
    rw [htime, h.time]
  constructor
  · cases o <;> (
      rw [TimeNode.mk.injEq]
      exact ⟨h.allocated, hexpire, rfl, rfl, rfl, hargs⟩)
  · rintro rfl
    rw [TimeNode.mk.injEq]
    exact ⟨h.allocated, hexpire, rfl, hfunc, rfl, hargs⟩

end WheelsAlike

/-- Two states that differ only in what the memory decides. -/
structure Alike (m m' : WheelThread) : Prop where
  wheel : WheelsAlike m.wheel m'.wheel
  stack : m.stack.map Frame.blank = m'.stack.map Frame.blank
  made : m.made.map (fun e => (e.1, e.2.blank)) = m'.made.map fun e => (e.1, e.2.blank)
  deleted : m.deleted = m'.deleted

section Alike

variable {m m' m1 : WheelThread}

theorem Alike.cons (h : Alike m m') {f : Frame} {rest : List Frame} (hstack : m.stack = f :: rest) :
    ∃ f' rest', m'.stack = f' :: rest' ∧ f.blank = f'.blank ∧
      rest.map Frame.blank = rest'.map Frame.blank := by
  have hmap := h.stack
  rw [hstack, List.map_cons] at hmap
  obtain ⟨f', rest', hcons, hf, hrest⟩ := List.map_eq_cons_iff.mp hmap.symm
  exact ⟨f', rest', hcons, hf.symm, hrest.symm⟩

theorem Alike.atClient (h : Alike m m') (hclient : AtClient m.stack) : AtClient m'.stack := by
  rcases hstack : m.stack with _ | ⟨f, rest⟩
  · have hnil := h.stack
    rw [hstack, List.map_nil] at hnil
    rw [List.map_eq_nil_iff.mp hnil.symm]
    trivial
  · rw [hstack] at hclient
    obtain ⟨f', rest', hstack', hf, -⟩ := h.cons hstack
    rw [hstack']
    cases f with
    | callback => cases f' <;> trivial
    | _ => exact absurd hclient id

/-- The same calls were recorded. -/
theorem Alike.made_of (h : Alike m m') {i : ℕ} {o : Overload} {c : TimerCall}
    (hmade : m.made[i]? = some (o, c)) :
    ∃ c', m'.made[i]? = some (o, c') ∧ c.blank = c'.blank := by
  have hmap := congrArg (fun l => l[i]?) h.made
  simp only [List.getElem?_map, hmade, Option.map_some] at hmap
  obtain ⟨⟨o', c'⟩, hmade', heq⟩ := Option.map_eq_some_iff.mp hmap.symm
  obtain ⟨rfl, hc⟩ := Prod.mk.inj heq
  exact ⟨c', hmade', hc.symm⟩

theorem Alike.placeNode (h : Alike m m') {c c' : TimerCall} (hc : c.blank = c'.blank)
    (o : Overload) {rest rest' : List Frame}
    (hrest : rest.map Frame.blank = rest'.map Frame.blank) :
    Alike (m.placeNode o c rest) (m'.placeNode o c' rest') := by
  have htime : c.time = c'.time := congrArg (fun c => c.time) hc
  have hmade : (m.made ++ [(o, c)]).map (fun e => (e.1, e.2.blank)) =
      (m'.made ++ [(o, c')]).map fun e => (e.1, e.2.blank) := by
    rw [List.map_append, List.map_append, h.made, List.map_singleton, List.map_singleton, hc]
  obtain ⟨hnode, hcalled⟩ := h.wheel.nodeOf hc o
  have hall : m.wheel.allocated + 1 = m'.wheel.allocated + 1 := by rw [h.wheel.allocated]
  unfold WheelThread.placeNode
  simp only [← htime]
  split_ifs with hnow
  · refine ⟨h.wheel.record hall ?_, ?_, hmade, h.deleted⟩
    · rw [List.map_append, List.map_append, h.wheel.called, List.map_singleton,
        List.map_singleton, hcalled hnow.1]
    · simp only [List.map_cons, hrest, Frame.blank]
  · refine ⟨?_, ?_, hmade, h.deleted⟩
    · exact WheelsAlike.addNode (h.wheel.record hall h.wheel.called) hnode
    · simp only [List.map_cons, hrest, Frame.blank]

/-- Whether a clean node is called does not depend on the memory. -/
theorem Alike.dispatchOne (h : Alike m m') (hkept : Kept m) (hkept' : Kept m') {again : Bool}
    {idx : ℕ} {rest rest' : List Frame} (hstack : m.stack = .dispatch again idx :: rest)
    (hstack' : m'.stack = .dispatch again idx :: rest')
    (hrest : rest.map Frame.blank = rest'.map Frame.blank) (hclean : Clean m .go)
    (hclean' : Clean m' .go) :
    Alike (m.dispatchOne again idx rest) (m'.dispatchOne again idx rest') := by
  rcases hhead : m.wheel.head (.near idx) with _ | ⟨n, ns⟩
  · have hnil := h.wheel.head (.near idx)
    rw [hhead, List.map_nil] at hnil
    rw [dispatchOne_nil hhead, dispatchOne_nil (List.map_eq_nil_iff.mp hnil.symm)]
    refine ⟨h.wheel, ?_, h.made, h.deleted⟩
    simp only [List.map_cons, hrest]
  · obtain ⟨n', ns', hhead', hn, hns⟩ := h.wheel.cons hhead
    have hid : n.id = n'.id := (TimeNode.mk.inj hn).1
    obtain ⟨o, c, hmade, hfunc, hcancel⟩ := hkept.nodes _ n (hhead ▸ List.mem_cons_self)
    obtain ⟨o', c', hmade', hfunc', hcancel'⟩ := hkept'.nodes _ n' (hhead' ▸ List.mem_cons_self)
    have hcl := hclean n ⟨rfl, again, idx, rest, ns, hstack, hhead⟩
    have hcl' := hclean' n' ⟨rfl, again, idx, rest', ns', hstack', hhead'⟩
    obtain ⟨c'', hmade'', hc⟩ := h.made_of hmade
    rw [hid, hmade'] at hmade''
    obtain ⟨rfl, rfl⟩ := Prod.mk.inj (Option.some.inj hmade'')
    have hset : WheelsAlike (m.wheel.setHead (.near idx) ns) (m'.wheel.setHead (.near idx) ns') :=
      h.wheel.setHead hns
    by_cases hdel : n.id ∈ m.deleted
    · -- it was cancelled in both
      have hdel' : n'.id ∈ m'.deleted := by rwa [← hid, ← h.deleted]
      have hskip : n.cancel ≠ false := by simp [hcancel, hdel]
      have hskip' : n'.cancel ≠ false := by simp [hcancel', hdel']
      rw [dispatchOne_cancelled hhead hskip, dispatchOne_cancelled hhead' hskip']
      exact ⟨hset.record h.wheel.allocated h.wheel.called, h.stack, h.made, h.deleted⟩
    · -- it was not, and both memories are clean
      have hdel' : n'.id ∉ m'.deleted := by rwa [← hid, ← h.deleted]
      obtain ⟨d, hd, hmem⟩ := hcl.resolve_left hdel
      obtain ⟨d', hd', hmem'⟩ := hcl'.resolve_left hdel'
      obtain ⟨rfl, rfl⟩ := Prod.mk.inj (Option.some.inj (hmade.symm.trans hd))
      obtain ⟨-, rfl⟩ := Prod.mk.inj (Option.some.inj (hmade'.symm.trans hd'))
      have hcall : n.cancel = false := by simp [hcancel, hdel, hmem]
      have hcall' : n'.cancel = false := by simp [hcancel', hdel', hmem']
      have hsame : calledNode n = calledNode n' := by
        obtain ⟨-, hexpire, -, -, -, hargs⟩ := TimeNode.mk.inj hn
        have hprocess : n.pfnProcess = n'.pfnProcess := by
          rw [hfunc rfl, hfunc' rfl]
          exact congrArg (fun c => c.func) hc
        rw [TimeNode.mk.injEq]
        exact ⟨hid, hexpire, rfl, hprocess, rfl, hargs⟩
      rw [dispatchOne_call hhead hcall, dispatchOne_call hhead' hcall']
      refine ⟨hset.record h.wheel.allocated ?_, ?_, h.made, h.deleted⟩
      · rw [List.map_append, List.map_append, h.wheel.called, List.map_singleton,
          List.map_singleton, hsame]
      · simp only [List.map_cons, hrest]

/-- Both take the lock, or neither. -/
theorem Alike.lock (h : Alike m m') {stack stack' : TimeWheel → List Frame}
    (hstacks : ∀ w w', WheelsAlike w w' →
      (stack w).map Frame.blank = (stack' w').map Frame.blank)
    (hm : ((spinlockLock m.wheel).map fun w => { m with wheel := w, stack := stack w }) =
      some m1) :
    ∃ m1', ((spinlockLock m'.wheel).map fun w => { m' with wheel := w, stack := stack' w }) =
      some m1' ∧ Alike m1 m1' := by
  obtain ⟨w1, hw1, rfl⟩ := Option.map_eq_some_iff.mp hm
  obtain ⟨w1', hw1', halike⟩ := h.wheel.spinlockLock hw1
  refine ⟨{ m' with wheel := w1', stack := stack' w1' }, ?_, halike, hstacks _ _ halike, h.made,
    h.deleted⟩
  rw [hw1', Option.map_some]

theorem Alike.go (h : Alike m m') (hkept : Kept m) (hkept' : Kept m') (hclean : Clean m .go)
    (hclean' : Clean m' .go) (hm : m.go = some m1) : ∃ m1', m'.go = some m1' ∧ Alike m1 m1' := by
  rcases hstack : m.stack with _ | ⟨f, rest⟩
  · rw [WheelThread.go, hstack] at hm
    cases hm
  obtain ⟨f', rest', hstack', hf, hrest⟩ := h.cons hstack
  rw [WheelThread.go, hstack] at hm
  rw [WheelThread.go, hstack']
  cases f with
  | enter o c =>
    cases f' with
    | enter o' c' =>
      obtain ⟨rfl, hc⟩ := Frame.enter.inj hf
      refine h.lock (fun _ _ _ => ?_) hm
      simp only [List.map_cons, Frame.blank, hc, hrest]
    | _ => cases hf
  | place o c =>
    cases f' with
    | place o' c' =>
      obtain ⟨rfl, hc⟩ := Frame.place.inj hf
      obtain rfl := Option.some.inj hm
      exact ⟨_, rfl, h.placeNode hc o hrest⟩
    | _ => cases hf
  | leave =>
    cases f' with
    | leave =>
      obtain rfl := Option.some.inj hm
      exact ⟨_, rfl, h.wheel.withLock false, hrest, h.made, h.deleted⟩
    | _ => cases hf
  | callback => cases hm
  | update =>
    cases f' with
    | update =>
      refine h.lock (fun _ _ halike => ?_) hm
      simp only [List.map_cons, Frame.blank, halike.nearIdx, hrest]
    | _ => cases hf
  | execute again idx =>
    cases f' with
    | execute again' idx' =>
      obtain ⟨rfl, rfl⟩ := Frame.execute.inj hf
      have hempty : (m.wheel.head (.near idx)).isEmpty = (m'.wheel.head (.near idx)).isEmpty := by
        rw [← List.isEmpty_map, h.wheel.head, List.isEmpty_map]
      by_cases hnil : (m.wheel.head (.near idx)).isEmpty
      · obtain rfl := Option.some.inj ((if_pos hnil).symm.trans hm)
        refine ⟨_, if_pos (hempty.symm.trans hnil), h.wheel, ?_, h.made, h.deleted⟩
        simp only [List.map_cons, hrest]
      · obtain rfl := Option.some.inj ((if_neg hnil).symm.trans hm)
        refine ⟨_, if_neg (hempty ▸ hnil), h.wheel.withLock false, ?_, h.made, h.deleted⟩
        simp only [List.map_cons, hrest]
    | _ => cases hf
  | dispatch again idx =>
    cases f' with
    | dispatch again' idx' =>
      obtain ⟨rfl, rfl⟩ := Frame.dispatch.inj hf
      obtain rfl := Option.some.inj hm
      exact ⟨_, rfl, h.dispatchOne hkept hkept' hstack hstack' hrest hclean hclean'⟩
    | _ => cases hf
  | relock again idx =>
    cases f' with
    | relock again' idx' =>
      obtain ⟨rfl, rfl⟩ := Frame.relock.inj hf
      refine h.lock (fun _ _ _ => ?_) hm
      simp only [List.map_cons, hrest]
    | _ => cases hf
  | shift =>
    cases f' with
    | shift =>
      obtain ⟨w1, hw1, rfl⟩ := Option.map_eq_some_iff.mp hm
      obtain ⟨w1', hw1', halike⟩ := h.wheel.timerShift hw1
      refine ⟨{ m' with wheel := w1', stack := .execute true (nearIdx w1') :: rest' }, ?_, halike,
        ?_, h.made, h.deleted⟩
      · simp only [hw1', Option.map_some]
      · simp only [List.map_cons, halike.nearIdx, hrest]
    | _ => cases hf

theorem Alike.next (h : Alike m m') (hkept : Kept m) (hkept' : Kept m') {mv mv' : Move}
    (hmv : mv.blank = mv'.blank) (hclean : Clean m mv) (hclean' : Clean m' mv')
    (hm : m.next mv = some m1) : ∃ m1', m'.next mv' = some m1' ∧ Alike m1 m1' := by
  cases mv with
  | addTimer o c =>
    cases mv' with
    | addTimer o' c' =>
      obtain ⟨rfl, hc⟩ := Move.addTimer.inj hmv
      rw [WheelThread.next] at hm
      split_ifs at hm with hclient
      obtain rfl := Option.some.inj hm
      refine ⟨_, if_pos (h.atClient hclient), h.wheel, ?_, h.made, h.deleted⟩
      simp only [List.map_cons, Frame.blank, hc, h.stack]
    | _ => cases hmv
  | delTimer id =>
    cases mv' with
    | delTimer id' =>
      obtain rfl := Move.delTimer.inj hmv
      rw [WheelThread.next] at hm
      split_ifs at hm with hclient
      obtain rfl := Option.some.inj hm
      exact ⟨_, if_pos (h.atClient hclient), h.wheel.delTimer id, h.stack, h.made,
        congrArg (id :: ·) h.deleted⟩
    | _ => cases hmv
  | timerUpdate =>
    cases mv' with
    | timerUpdate =>
      rcases hstack : m.stack with _ | ⟨f, rest⟩
      · have hnil := h.stack
        rw [hstack, List.map_nil] at hnil
        rw [WheelThread.next, hstack] at hm
        obtain rfl := Option.some.inj hm
        refine ⟨{ m' with stack := [.update] }, ?_, h.wheel, rfl, h.made, h.deleted⟩
        rw [WheelThread.next, List.map_eq_nil_iff.mp hnil.symm]
      · rw [WheelThread.next, hstack] at hm
        cases hm
    | _ => cases hmv
  | back =>
    cases mv' with
    | back =>
      rcases hstack : m.stack with _ | ⟨f, rest⟩
      · rw [WheelThread.next, hstack] at hm
        cases hm
      · obtain ⟨f', rest', hstack', hf, hrest⟩ := h.cons hstack
        rw [WheelThread.next, hstack] at hm
        cases f with
        | callback =>
          cases f' with
          | callback =>
            obtain rfl := Option.some.inj hm
            refine ⟨{ m' with stack := rest' }, ?_, h.wheel, hrest, h.made, h.deleted⟩
            rw [WheelThread.next, hstack']
          | _ => cases hf
        | _ => cases hm
    | _ => cases hmv
  | go =>
    cases mv' with
    | go => exact h.go hkept hkept' hclean hclean' hm
    | _ => cases hmv

/-- The same nodes wait in both. -/
theorem Alike.waiting (h : Alike m m') {mv mv' : Move} (hmv : mv.blank = mv'.blank)
    (hwaiting : Waiting m mv) : Waiting m' mv' := by
  rintro id rfl
  have hdel : mv = .delTimer id := by
    cases mv <;> first | exact hmv | cases hmv
  obtain ⟨l, n, hn, rfl⟩ := hwaiting id hdel
  have hmem : eraseNode n ∈ (m'.wheel.head l).map eraseNode :=
    h.wheel.head l ▸ List.mem_map_of_mem hn
  obtain ⟨n', hn', heq⟩ := List.mem_map.mp hmem
  exact ⟨l, n', hn', (TimeNode.mk.inj heq).1⟩

theorem Alike.callsOf (h : Alike m m') : callsOf m = callsOf m' := by
  have hcalls : ∀ w : TimeWheel, (w.called.map fun n => (n.id, n.pfnProcess, n.pArg)) =
      (w.called.map calledNode).map fun n => (n.id, n.pfnProcess, n.pArg) := by
    intro w
    rw [List.map_map]
    rfl
  rw [WheelThread.callsOf, WheelThread.callsOf, hcalls, hcalls, h.wheel.called]

end Alike

/-! ## Runs -/

theorem kept_init : Kept init :=
  ⟨rfl, fun _ _ hn => absurd hn List.not_mem_nil, fun _ hid => absurd hid List.not_mem_nil⟩

theorem Alike.symm {m m' : WheelThread} (h : Alike m m') : Alike m' m :=
  ⟨Eq.symm h.wheel, h.stack.symm, h.made.symm, h.deleted.symm⟩

theorem meets_firesRightly_iff : ∀ {ms : List Move} {m : WheelThread}, Kept m →
    Moves.Meets next Waiting m ms →
    (Moves.Meets next FiresRightly m ms ↔ Moves.Meets next Clean m ms)
  | [], _, _, _ => Iff.rfl
  | mv :: _, m, h, hwaiting => by
    refine and_congr (firesRightly_iff h mv) (forall_congr' fun m' => forall_congr' fun hm' => ?_)
    exact meets_firesRightly_iff (h.next hwaiting.1 hm') (hwaiting.2 m' hm')

/-- A clean run with other contents of the memory goes the same way. -/
theorem run_alike {ms ms' : List Move} (hblank : ms.map Move.blank = ms'.map Move.blank)
    (hwaiting : Moves.Meets next Waiting init ms) (hwaiting' : Moves.Meets next Waiting init ms')
    (hclean : Moves.Meets next Clean init ms) (hclean' : Moves.Meets next Clean init ms')
    {m : WheelThread} (hrun : Moves.run next init ms = some m) :
    ∃ m', Moves.run next init ms' = some m' ∧ Alike m m' := by
  have hmoves : List.Forall₂ (fun mv mv' : Move => mv.blank = mv'.blank) ms ms' := by
    rw [← List.forall₂_eq_eq_eq, List.forall₂_map_left_iff, List.forall₂_map_right_iff] at hblank
    exact hblank
  have hstep : ∀ s t mv mv' s', (Alike s t ∧ Kept s ∧ Kept t) → mv.blank = mv'.blank →
      (Waiting s mv ∧ Clean s mv) → (Waiting t mv' ∧ Clean t mv') → s.next mv = some s' →
      ∃ t', t.next mv' = some t' ∧ Alike s' t' ∧ Kept s' ∧ Kept t' := by
    rintro s t mv mv' s' ⟨halike, hs, ht⟩ hmv ⟨hw, hc⟩ ⟨hw', hc'⟩ hs'
    obtain ⟨t', ht', halike'⟩ := halike.next hs ht hmv hc hc' hs'
    exact ⟨t', ht', halike', hs.next hw hs', ht.next hw' ht'⟩
  obtain ⟨m', hm', halike, -⟩ := Moves.run_related hstep
    ⟨⟨rfl, rfl, rfl, rfl⟩, kept_init, kept_init⟩ hmoves (hwaiting.and hclean)
    (hwaiting'.and hclean') hrun
  exact ⟨m', hm', halike⟩

/-- Clean runs make the same calls. -/
theorem calls_eq {ms ms' : List Move} (hblank : ms.map Move.blank = ms'.map Move.blank)
    (hwaiting : Moves.Meets next Waiting init ms) (hwaiting' : Moves.Meets next Waiting init ms')
    (hclean : Moves.Meets next Clean init ms) (hclean' : Moves.Meets next Clean init ms') :
    (Moves.run next init ms').map callsOf = (Moves.run next init ms).map callsOf := by
  rcases hrun : Moves.run next init ms with _ | m
  · rcases hrun' : Moves.run next init ms' with _ | m'
    · rfl
    · obtain ⟨m, hm, -⟩ := run_alike hblank.symm hwaiting' hwaiting hclean' hclean hrun'
      rw [hrun] at hm
      cases hm
  · obtain ⟨m', hm', halike⟩ := run_alike hblank hwaiting hwaiting' hclean hclean' hrun
    rw [hm', Option.map_some, Option.map_some, halike.callsOf]

/-- For two runs that differ in what `malloc` returned, the nodes are called as they were
registered, and the same calls are made, if and only if the nodes that are taken out are
clean. -/
theorem fires_iff {ms ms' : List Move} (hblank : ms.map Move.blank = ms'.map Move.blank)
    (hwaiting : Moves.Meets next Waiting init ms)
    (hwaiting' : Moves.Meets next Waiting init ms') :
    (Moves.Meets next FiresRightly init ms ∧ Moves.Meets next FiresRightly init ms' ∧
      (Moves.run next init ms').map callsOf = (Moves.run next init ms).map callsOf) ↔
    (Moves.Meets next Clean init ms ∧ Moves.Meets next Clean init ms') := by
  rw [meets_firesRightly_iff kept_init hwaiting, meets_firesRightly_iff kept_init hwaiting']
  constructor
  · rintro ⟨hclean, hclean', -⟩
    exact ⟨hclean, hclean'⟩
  · rintro ⟨hclean, hclean'⟩
    exact ⟨hclean, hclean', calls_eq hblank hwaiting hwaiting' hclean hclean'⟩

/-- Two timers are set. -/
def setting (b : Bool) (p : ℕ) : List Move :=
  [.addTimer .process ⟨1, 7, 5, { zeroNode with pfnPrepare := p }⟩, .go, .go, .go,
    .addTimer .process ⟨1, 8, 6, { zeroNode with cancel := b }⟩, .go, .go, .go]

/-- The second is deleted, and then the clock comes to both. -/
def deleting (b : Bool) (p : ℕ) : List Move :=
  setting b p ++ .delTimer 1 :: [.timerUpdate, .go, .go, .go, .go, .go, .back, .go, .go, .go, .go,
    .go]

theorem waiting_deleting {b : Bool} {p : ℕ}
    (h : ∀ m ∈ Moves.run next init (setting b p), ∃ n ∈ m.wheel.head (.near 1), n.id = 1) :
    Moves.Meets next Waiting init (deleting b p) := by
  refine Moves.Meets.append (Moves.Meets.of_forall fun m mv hmv => ?_) fun m hm => ?_
  · rintro id rfl
    simp [setting] at hmv
  refine ⟨fun id hid => ?_, fun _ _ => Moves.Meets.of_forall fun m mv hmv => ?_⟩
  · obtain rfl := Move.delTimer.inj hid
    exact ⟨.near 1, h m hm⟩
  · rintro id rfl
    simp at hmv

/-- In both memories the first timer is called, through its function, and the second is not. -/
theorem fires_iff_deleted :
    (Moves.Meets next FiresRightly init (deleting false 0) ∧
      Moves.Meets next FiresRightly init (deleting true 9) ∧
      (Moves.run next init (deleting true 9)).map callsOf =
        (Moves.run next init (deleting false 0)).map callsOf) ∧
    (Moves.run next init (deleting false 0)).map callsOf = some [(0, 7, 5)] := by
  have hblank : (deleting false 0).map Move.blank = (deleting true 9).map Move.blank := rfl
  refine ⟨?_, by decide +kernel⟩
  have hwaiting := waiting_deleting (b := false) (p := 0) (by decide +kernel)
  have hwaiting' := waiting_deleting (b := true) (p := 9) (by decide +kernel)
  exact (fires_iff hblank hwaiting hwaiting').mpr ⟨by decide +kernel, by decide +kernel⟩

/-- A timer that nobody deleted, in memory in which `m_cancel` is set. -/
theorem not_fires_dirty :
    ¬∀ ms ms' : List Move, ms.map Move.blank = ms'.map Move.blank →
      Moves.Meets next Waiting init ms → Moves.Meets next Waiting init ms' →
      Moves.Meets next FiresRightly init ms ∧ Moves.Meets next FiresRightly init ms' ∧
        (Moves.run next init ms').map callsOf = (Moves.run next init ms).map callsOf := by
  intro hall
  let ms := [Move.addTimer .process ⟨1, 7, 0, { zeroNode with cancel := true }⟩, .go, .go, .go,
    .timerUpdate, .go, .go, .go, .go, .go]
  have hwaiting : Moves.Meets next Waiting init ms :=
    Moves.Meets.of_forall fun m mv hmv => by
      rintro id rfl
      simp [ms] at hmv
  have hclean := (meets_firesRightly_iff kept_init hwaiting).mp (hall ms ms rfl hwaiting hwaiting).1
  have hlocked := (((hclean.2 _ rfl).2 _ rfl).2 _ rfl).2 _ rfl
  have hend := ((((hlocked.2 _ rfl).2 _ rfl).2 _ rfl).2 _ rfl).2 _ rfl
  rcases hend.1 _ ⟨rfl, true, 1, [], [], rfl, rfl⟩ with hmem | ⟨c, hmade, hmem⟩
  · exact absurd hmem List.not_mem_nil
  · obtain rfl := (Prod.mk.inj (Option.some.inj hmade)).2
    cases hmem

end WheelThread

end WzxServer
