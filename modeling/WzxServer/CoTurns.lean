import WzxServer.CoTimeout

/-!
# A turn of the event loop

`co_eventloop` goes through turns : it clears `pstTimeoutList`, makes the items active whose
events came, takes the items whose time is over, marks them and makes them active too, and then
takes one active item after the other. An item that was taken before its time, since it waits
longer than the wheel, goes back into the wheel.

Over the pointers of `CoLinks` stands the agenda of `CoTimeout`, three lists of items with their
times. `Keeps.takeTimeouts` says that the take, the walk over the list and the join come to one
step of the agenda, `Agenda.turn`, and `Keeps.pop` that a turn of the inner loop is
`Agenda.pop`. Later modules speak of the agenda only.
-/

namespace WzxServer

open Function (update)

variable {N : Type} [DecidableEq N]

/-- `memset( timeout,0,sizeof(stTimeoutItemLink_t) )`. -/
def clearTimeoutList (ep : CoEpoll N) : CoEpoll N :=
  { ep with links := { ep.links with
      head := update ep.links.head .pstTimeoutList none
      tail := update ep.links.tail .pstTimeoutList none } }

/-- An item is taken from its list and becomes active. -/
def activate (ap : N) (ep : CoEpoll N) : Option (CoEpoll N) :=
  (RemoveFromLink ap ep.links).map fun links =>
    { ep with links := AddTail .pstActiveList ap links }

/-- The loop that sets `bTimeout`. -/
def raiseTimeouts : ℕ → Option N → CoEpoll N → Option (CoEpoll N)
  | _, none, ep => some ep
  | 0, some _, _ => none
  | fuel + 1, some lp, ep =>
    raiseTimeouts fuel (ep.links.next lp) { ep with bTimeout := update ep.bTimeout lp true }

/-- From `TakeAllTimeout` on, to where the active items are taken. -/
def takeTimeouts (fuel now : ℕ) (ep : CoEpoll N) : Option (CoEpoll N) :=
  (TakeAllTimeout fuel now .pstTimeoutList ep).bind fun ep =>
    (raiseTimeouts fuel (ep.links.head .pstTimeoutList) ep).bind fun ep =>
      (Join fuel .pstActiveList .pstTimeoutList ep.links).map fun links => { ep with links }

/-- The first active item is taken. It goes back into the wheel if it was taken before its time,
and if `AddTimeout` succeeds. -/
def popActive (now : ℕ) (lp : N) (ep : CoEpoll N) : Bool × CoEpoll N :=
  let ep := { ep with links := PopHead .pstActiveList ep.links }
  if ep.bTimeout lp ∧ now < ep.ullExpireTime lp then
    let (ret, ep) := AddTimeout lp now ep
    if ret = 0 then (false, { ep with bTimeout := update ep.bTimeout lp false }) else (true, ep)
  else (true, ep)

/-! ## The agenda of a turn -/

namespace Agenda

def activate (a : Agenda N) (n : N) : Agenda N :=
  { a.remove n with active := (a.remove n).active ++ [n] }

/-- What was taken becomes active, behind what is. -/
def turn (a : Agenda N) (now : ℕ) : Agenda N :=
  { a.take now with active := a.active ++ (a.take now).timeout, timeout := [] }

/-- The first active item is done. -/
def pop (a : Agenda N) : Agenda N :=
  { a with active := a.active.tail }

variable {a : Agenda N} {n m : N} {now : ℕ}

/-- The items after an event. -/
theorem items_activate (hnodup : a.items.Nodup) :
    (a.activate n).items = a.items.erase n ++ [n] := by
  rw [← CoEpoll.items_remove hnodup]
  simp only [Agenda.items, Agenda.activate, List.append_assoc]

theorem mem_items_activate (hnodup : a.items.Nodup) :
    m ∈ (a.activate n).items ↔ m = n ∨ m ∈ a.items := by
  rw [items_activate hnodup, List.mem_append, List.mem_singleton, hnodup.mem_erase_iff]
  by_cases hm : m = n
  · simp [hm]
  · simp [hm]

theorem mem_active_activate (hnodup : a.items.Nodup) :
    m ∈ (a.activate n).active ↔ m = n ∨ m ∈ a.active := by
  have hactive : a.active.Nodup := hnodup.of_append_right
  rw [Agenda.activate, List.mem_append, List.mem_singleton]
  show m ∈ a.active.erase n ∨ m = n ↔ _
  rw [hactive.mem_erase_iff]
  by_cases hm : m = n
  · simp [hm]
  · simp [hm]

omit [DecidableEq N] in
/-- A turn loses no item. -/
theorem items_turn : (a.turn now).items.Perm a.items := by
  refine List.Perm.trans ?_ (CoEpoll.items_take a now)
  rw [Agenda.items, Agenda.items, Agenda.turn]
  simp only [List.append_nil, List.append_assoc]
  refine List.Perm.append_left _ ?_
  have hactive : (a.take now).active = a.active := by
    rw [Agenda.take]
    split_ifs <;> rfl
  rw [hactive]
  exact List.perm_append_comm

end Agenda

namespace CoEpoll

variable {ep : CoEpoll N} {a : Agenda N} {idx : ℕ} {n : N} {now : ℕ}

omit [DecidableEq N] in
/-- A list that is empty may be cleared. -/
theorem Keeps.clearTimeoutList (hk : ep.Keeps a idx) (ha : a.timeout = []) :
    clearTimeoutList ep = ep := by
  have hhead := hk.holds.head .pstTimeoutList
  have htail := hk.holds.tail .pstTimeoutList
  simp only [Agenda.queues, ha, List.head?_nil, List.getLast?_nil] at hhead htail
  rw [WzxServer.clearTimeoutList, Function.update_eq_self_iff.mpr hhead.symm,
    Function.update_eq_self_iff.mpr htail.symm]

/-- An event takes an item to the end of the active ones. -/
theorem queues_activate {size : ℕ} :
    (a.activate n).queues size idx = update ((a.remove n).queues size idx) .pstActiveList
      ((a.remove n).queues size idx .pstActiveList ++ [n]) := by
  ext1 l
  cases l <;> rfl

/-- The removal and the addition of an event are one on the agenda. -/
theorem Keeps.activate (hk : ep.Keeps a idx) (n : N) :
    ∃ links, WzxServer.activate n ep = some { ep with links } ∧
      ({ ep with links } : CoEpoll N).Keeps (a.activate n) idx := by
  obtain ⟨links, hrun, hk'⟩ := hk.removeFromLink n
  have hout : n ∉ (a.remove n).items := by
    rw [items_remove hk.nodup]
    exact hk.nodup.not_mem_erase
  refine ⟨AddTail .pstActiveList n links, by rw [WzxServer.activate, hrun]; rfl, ?_, hk.start,
    hk.llStartIdx, hk.bound, hk.positive, hk.bounded, hk.size, hk'.within, ?_⟩
  · rw [queues_activate]
    exact holds_addTail hk'.holds (hk'.owner.mpr hout)
  · rw [Agenda.items_activate hk.nodup, ← items_remove hk.nodup]
    exact List.Nodup.append hk'.nodup (List.nodup_singleton n)
      (List.disjoint_singleton.mpr hout)

/-- The walk over the timeouts marks each of them. -/
theorem raiseTimeouts_spec : ∀ (q : List N) (ep : CoEpoll N) (fuel : ℕ),
    (∀ pre m rest, q = pre ++ m :: rest → ep.links.next m = rest.head?) → q.length ≤ fuel →
      raiseTimeouts fuel q.head? ep =
        some { ep with bTimeout := fun m => if m ∈ q then true else ep.bTimeout m }
  | [], ep, fuel, _, _ => by
    have hsame : (fun m => if m ∈ ([] : List N) then true else ep.bTimeout m) = ep.bTimeout := by
      ext1 m
      rw [if_neg List.not_mem_nil]
    rw [hsame]
    cases fuel <;> rfl
  | n :: q, ep, fuel, hnext, hfuel => by
    obtain ⟨fuel, rfl⟩ : ∃ k, fuel = k + 1 := ⟨fuel - 1, by simp at hfuel; omega⟩
    have hrest := raiseTimeouts_spec q { ep with bTimeout := update ep.bTimeout n true } fuel
      (fun pre m rest hsplit => hnext (n :: pre) m rest (by rw [hsplit]; rfl))
      (by simpa using hfuel)
    rw [List.head?_cons, raiseTimeouts, hnext [] n q rfl, hrest]
    have hboth : (fun m => if m ∈ q then true else update ep.bTimeout n true m) =
        fun m => if m ∈ n :: q then true else ep.bTimeout m := by
      ext1 m
      simp only [Function.update_apply, List.mem_cons]
      split_ifs <;> tauto
    rw [hboth]

omit [DecidableEq N] in
/-- The timeouts of a turn go behind the active items. -/
theorem queues_turn {size : ℕ} :
    (a.turn now).queues size idx = update (update ((a.take now).queues size idx) .pstActiveList
      ((a.take now).queues size idx .pstActiveList ++
        (a.take now).queues size idx .pstTimeoutList)) .pstTimeoutList [] := by
  have hactive : (a.take now).active = a.active := by
    rw [Agenda.take]
    split_ifs <;> rfl
  ext1 l
  cases l with
  | pItems i => rfl
  | pstTimeoutList => rfl
  | pstActiveList =>
    rw [Function.update_of_ne ItemLink.noConfusion, Function.update_self]
    simp only [Agenda.queues, Agenda.turn, hactive]

/-- The take, the walk and the join of a turn are one on the agenda. -/
theorem Keeps.takeTimeouts (hk : ep.Keeps a idx) (hnow : now < 2 ^ 63)
    (hgap : now + 1 < a.start + 2 ^ 31) {fuel : ℕ} (hfuel : a.items.length ≤ fuel) :
    ∃ links ullStart llStartIdx idx',
      WzxServer.takeTimeouts fuel now ep = some { ep with
        links, ullStart, llStartIdx
        bTimeout := fun m => if m ∈ (a.take now).timeout then true else ep.bTimeout m } ∧
      ({ ep with
        links, ullStart, llStartIdx
        bTimeout := fun m => if m ∈ (a.take now).timeout then true else ep.bTimeout m } :
          CoEpoll N).Keeps (a.turn now) idx' := by
  have hlength := (items_take a now).length_eq
  simp only [Agenda.items, List.length_append, List.length_map] at hlength hfuel
  have hpending : a.pending.length ≤ fuel := by omega
  have htimeout : (a.take now).timeout.length ≤ fuel := by omega
  obtain ⟨links, ullStart, llStartIdx, idx', htake, hk'⟩ := hk.takeAllTimeout hnow hgap hpending
  have hraise := raiseTimeouts_spec (a.take now).timeout { ep with links, ullStart, llStartIdx }
    fuel (fun pre m rest hsplit => (hk'.holds.near .pstTimeoutList pre m rest hsplit).2) htimeout
  have hne : ItemLink.pstActiveList ≠ .pstTimeoutList := ItemLink.noConfusion
  obtain ⟨links', hjoin, hq⟩ := holds_join hk'.holds hne htimeout
  have hhead : links.head .pstTimeoutList = (a.take now).timeout.head? :=
    hk'.holds.head .pstTimeoutList
  refine ⟨links', ullStart, llStartIdx, idx', ?_, ?_⟩
  · rw [WzxServer.takeTimeouts, htake]
    simp only [Option.bind_some, hhead, hraise, hjoin, Option.map_some]
  · refine ⟨?_, hk'.start, hk'.llStartIdx, hk'.bound, hk'.positive, hk'.bounded, hk.size,
      hk'.within, Agenda.items_turn.nodup_iff.mpr hk.nodup⟩
    rw [queues_turn]
    exact hq

/-- The first active item is popped. -/
theorem Keeps.pop (hk : ep.Keeps a idx) {rest : List N} (ha : a.active = n :: rest) :
    ({ ep with links := PopHead .pstActiveList ep.links } : CoEpoll N).Keeps a.pop idx ∧
      n ∉ a.pop.items := by
  have hnodup := hk.nodup
  have hpop : a.pop.items = a.pending.map Prod.fst ++ a.timeout ++ rest := by
    rw [Agenda.items, Agenda.pop, ha, List.tail_cons]
  rw [Agenda.items, ha, List.nodup_middle, List.nodup_cons] at hnodup
  refine ⟨⟨?_, hk.start, hk.llStartIdx, hk.bound, hk.positive, hk.bounded, hk.size, hk.within,
    ?_⟩, ?_⟩
  · have hqueues : a.pop.queues ep.iItemSize idx =
        update (a.queues ep.iItemSize idx) .pstActiveList rest := by
      ext1 l
      cases l with
      | pItems i => rfl
      | pstTimeoutList => rfl
      | pstActiveList =>
        rw [Function.update_self]
        simp only [Agenda.queues, Agenda.pop, ha, List.tail_cons]
    show Links.Holds _ (a.pop.queues ep.iItemSize idx)
    rw [hqueues]
    exact holds_popHead hk.holds ha
  · rw [hpop]
    exact hnodup.2
  · rw [hpop]
    exact hnodup.1

/-- An item that was taken before its time goes back into the wheel. -/
theorem Keeps.popActive_early (hk : ep.Keeps a idx) {rest : List N} (ha : a.active = n :: rest)
    (hle : a.start ≤ now) (hlate : ep.bTimeout n = true) (hearly : now < ep.ullExpireTime n) :
    ∃ links, popActive now n ep =
        (false, { ep with links, bTimeout := update ep.bTimeout n false }) ∧
      ({ ep with links, bTimeout := update ep.bTimeout n false } : CoEpoll N).Keeps
        (a.pop.add ep.iItemSize n (ep.ullExpireTime n)) idx := by
  obtain ⟨hk', hout⟩ := hk.pop ha
  have hadd := hk'.addTimeout hout hle hearly.le
  have heq := hk'.addTimeout_eq hle hearly.le
  rw [heq] at hadd
  refine ⟨_, ?_, keeps_congr hadd ep.ullExpireTime (update ep.bTimeout n false)⟩
  simp only [popActive, hlate, hearly, and_self, if_true, heq]

/-- The others are processed. -/
theorem popActive_due (h : ¬(ep.bTimeout n = true ∧ now < ep.ullExpireTime n)) :
    popActive now n ep = (true, { ep with links := PopHead .pstActiveList ep.links }) := by
  simp only [popActive, if_neg h]

end CoEpoll

end WzxServer
