import WzxServer.CoLinks
import WzxServer.Lib.Deadlines
import Mathlib.Data.Int.ModEq

/-!
# The time-outs of the coroutine library

`stTimeout_t` is a wheel of `iItemSize` lists, one for each millisecond from `ullStart` on. An
item is put into the list of its time, or into the last one when its time is too far away, and
`TakeAllTimeout` empties the lists up to the present.

An `Agenda` is what the wheel is for : the items that wait, with their times, in the order in
which they came. `run_agenda` : with a clock that does not stand still for 24 days, the wheel
takes what is over on the agenda, the earliest first, and in the order of arrival what is due in
the same millisecond.

The bounds are those of the machine's numbers. The number of lists to empty is an `int`, so a
reading that is `2 ^ 31` ms ahead of `ullStart` makes it negative, and `llStartIdx` with it : the
next take would read in front of the array. With readings that keep to the bounds (`Timely`) the
walk over the lists is the agenda's own order, millisecond by millisecond (`takeSlots_spec`), and
within a list the order is that of arrival, since `AddTimeout` adds at the end.
-/

namespace WzxServer

open Function (update)

variable {N : Type} [DecidableEq N]

/-- The lists of the items : those of the wheel, `pstTimeoutList` and `pstActiveList`. -/
inductive ItemLink
  | pItems (idx : ℕ)
  | pstTimeoutList
  | pstActiveList
  deriving DecidableEq

/-- `stCoEpoll_t`, its `stTimeout_t`, and the items. -/
structure CoEpoll (N : Type) where
  links : Links N ItemLink
  iItemSize : ℕ
  ullStart : ℕ
  llStartIdx : ℤ
  ullExpireTime : N → ℕ
  bTimeout : N → Bool

/-- `AllocEpoll`, with `AllocTimeout( iSize )` at `now`. -/
def AllocTimeout (iSize now : ℕ) : CoEpoll N :=
  ⟨Links.empty, iSize, now, 0, fun _ => 0, fun _ => false⟩

/-- `if( apTimeout->ullStart == 0 )`, where `AddTimeout` and `TakeAllTimeout` begin. -/
def CoEpoll.startAt (ep : CoEpoll N) (allNow : ℕ) : CoEpoll N :=
  if ep.ullStart = 0 then { ep with ullStart := allNow, llStartIdx := 0 } else ep

/-- The sum of a `long long` and an `unsigned long long` is unsigned. -/
def AddTimeout (apItem : N) (allNow : ℕ) (ep : CoEpoll N) : ℕ × CoEpoll N :=
  let ep := ep.startAt allNow
  if allNow < ep.ullStart then (390, ep)
  else if ep.ullExpireTime apItem < allNow then (397, ep)
  else
    let diff := ep.ullExpireTime apItem - ep.ullStart
    let diff := if diff ≥ ep.iItemSize then ep.iItemSize - 1 else diff
    let idx := ((ep.llStartIdx + diff) % 2 ^ 64).toNat % ep.iItemSize
    (0, { ep with links := AddTail (.pItems idx) apItem ep.links })

/-- The loop of `TakeAllTimeout`. A negative index is outside of the array. -/
def takeSlots (fuel size : ℕ) (llStartIdx : ℤ) (apResult : ItemLink) (cnt : ℕ)
    (h : Links N ItemLink) : Option (Links N ItemLink) :=
  (List.range cnt).foldlM (fun h (i : ℕ) =>
    let idx := (llStartIdx + i).tmod size
    if idx < 0 then none else Join fuel apResult (.pItems idx.toNat) h) h

/-- `cnt` is an `int`, and `llStartIdx` must not overflow. -/
def TakeAllTimeout (fuel allNow : ℕ) (apResult : ItemLink) (ep : CoEpoll N) :
    Option (CoEpoll N) :=
  let ep := ep.startAt allNow
  if allNow < ep.ullStart then some ep
  else
    let cnt := Int.bmod (allNow - ep.ullStart + 1) (2 ^ 32)
    let cnt := if cnt > ep.iItemSize then (ep.iItemSize : ℤ) else cnt
    if cnt < 0 then some ep
    else if 2 ^ 63 ≤ ep.llStartIdx + (cnt - 1) then none
    else
      (takeSlots fuel ep.iItemSize ep.llStartIdx apResult cnt.toNat ep.links).map fun links =>
        { ep with links, ullStart := allNow, llStartIdx := ep.llStartIdx + (cnt - 1) }

/-! ## What the wheel is for -/

/-- The items that wait, with the times at which they are taken, the items that were taken, the
items that are active, and the time up to which items were taken. -/
structure Agenda (N : Type) where
  pending : List (N × ℕ)
  timeout : List N
  active : List N
  start : ℕ

namespace Agenda

/-- No item, and the wheel taken up to `now`. -/
def empty (N : Type) (now : ℕ) : Agenda N :=
  ⟨[], [], [], now⟩

/-- The items that are in a list. -/
def items (a : Agenda N) : List N :=
  a.pending.map Prod.fst ++ a.timeout ++ a.active

/-- An item waits until `expire`, but not longer than the wheel. -/
def add (size : ℕ) (a : Agenda N) (n : N) (expire : ℕ) : Agenda N :=
  { a with pending := a.pending ++ [(n, min expire (a.start + size - 1))] }

/-- `RemoveFromLink`, whatever list the item is in. -/
def remove (a : Agenda N) (n : N) : Agenda N :=
  { a with
    pending := a.pending.filter fun p => p.1 ≠ n
    timeout := a.timeout.erase n
    active := a.active.erase n }

/-- The lists of the first `k` milliseconds are taken. -/
def sweep (k : ℕ) (a : Agenda N) : Agenda N :=
  { a with
    pending := a.pending.filter fun p => a.start + k ≤ p.2
    timeout := a.timeout ++ (Deadlines.days a.start k a.pending).map Prod.fst }

/-- What is over is taken. -/
def take (a : Agenda N) (now : ℕ) : Agenda N :=
  if now < a.start then a
  else { a with
    pending := a.pending.filter fun p => now < p.2
    timeout := a.timeout ++ (Deadlines.expired now a.pending).map Prod.fst
    start := now }

/-- The lists of the wheel, when the list of `start` is the one at `idx`. -/
def queues (size idx : ℕ) (a : Agenda N) : ItemLink → List N
  | .pItems i =>
    (a.pending.filter fun p => (idx + (p.2 - a.start)) % size = i).map Prod.fst
  | .pstTimeoutList => a.timeout
  | .pstActiveList => a.active

/-- The times are those of the wheel. -/
def Within (size : ℕ) (a : Agenda N) : Prop :=
  ∀ p ∈ a.pending, a.start ≤ p.2 ∧ p.2 < a.start + size

end Agenda

/-- The pointers of the wheel hold the agenda. -/
structure CoEpoll.Keeps (ep : CoEpoll N) (a : Agenda N) (idx : ℕ) : Prop where
  /-- The lists are those of the agenda, from `llStartIdx` on. -/
  holds : ep.links.Holds (a.queues ep.iItemSize idx)
  /-- The wheel was taken up to the same time. -/
  start : ep.ullStart = a.start
  llStartIdx : ep.llStartIdx = idx
  /-- `llStartIdx` grew with `ullStart`, from 0 on. -/
  bound : idx ≤ a.start
  positive : 0 < a.start
  /-- No sum of a time overflows. -/
  bounded : a.start < 2 ^ 63
  size : 1 < ep.iItemSize ∧ ep.iItemSize < 2 ^ 31
  /-- What pends is due within a turn of the wheel. -/
  within : a.Within ep.iItemSize
  /-- An item is in one list, and once. -/
  nodup : a.items.Nodup

namespace CoEpoll

variable {ep : CoEpoll N} {a : Agenda N} {idx : ℕ} {n : N} {now : ℕ}

omit [DecidableEq N] in
/-- A new wheel is an empty agenda. -/
theorem keeps_allocTimeout {size : ℕ} (hsize : 1 < size ∧ size < 2 ^ 31) (hpos : 0 < now)
    (hlt : now < 2 ^ 63) : (AllocTimeout size now : CoEpoll N).Keeps (Agenda.empty N now) 0 := by
  refine ⟨?_, rfl, rfl, Nat.zero_le _, hpos, hlt, hsize, fun p hp => by simp [Agenda.empty] at hp,
    by simp [Agenda.items, Agenda.empty]⟩
  have hnil : (Agenda.empty N now).queues size 0 = fun _ => [] := by
    ext1 l
    cases l <;> rfl
  show Links.Holds Links.empty _
  rw [AllocTimeout, hnil]
  exact Links.holds_empty

omit [DecidableEq N] in
/-- The wheel has a start already. -/
theorem Keeps.startAt (hk : ep.Keeps a idx) (now : ℕ) : ep.startAt now = ep := by
  have := hk.positive
  rw [← hk.start] at this
  rw [CoEpoll.startAt, if_neg (by omega)]

omit [DecidableEq N] in
/-- An item is in a list of the wheel if it is on the agenda. -/
theorem mem_queues {size : ℕ} : (∃ l, n ∈ a.queues size idx l) ↔ n ∈ a.items := by
  simp only [Agenda.items, List.mem_append, List.mem_map]
  constructor
  · rintro ⟨l, hl⟩
    cases l with
    | pItems i =>
      obtain ⟨p, hp, rfl⟩ := List.mem_map.mp hl
      exact Or.inl (Or.inl ⟨p, List.mem_of_mem_filter hp, rfl⟩)
    | pstTimeoutList => exact Or.inl (Or.inr hl)
    | pstActiveList => exact Or.inr hl
  · rintro ((⟨p, hp, rfl⟩ | hl) | hl)
    · exact ⟨.pItems _, List.mem_map.mpr ⟨p, List.mem_filter.mpr ⟨hp, decide_eq_true rfl⟩, rfl⟩⟩
    · exact ⟨.pstTimeoutList, hl⟩
    · exact ⟨.pstActiveList, hl⟩

omit [DecidableEq N] in
/-- An item is in no list of pointers exactly when it is not on the agenda. -/
theorem Keeps.owner (hk : ep.Keeps a idx) : ep.links.owner n = none ↔ n ∉ a.items := by
  rw [LinkOp.owner_eq_none_iff hk.holds, mem_queues]

omit [DecidableEq N] in
/-- What an item carries is no part of the agenda. -/
theorem keeps_congr (hk : ep.Keeps a idx) (f : N → ℕ) (g : N → Bool) :
    ({ ep with ullExpireTime := f, bTimeout := g } : CoEpoll N).Keeps a idx :=
  ⟨hk.holds, hk.start, hk.llStartIdx, hk.bound, hk.positive, hk.bounded, hk.size, hk.within,
    hk.nodup⟩

/-! ## Putting an item into the wheel -/

/-- A reading before the start is refused. -/
theorem Keeps.addTimeout_of_lt (hk : ep.Keeps a idx) (h : now < a.start) :
    AddTimeout n now ep = (390, ep) := by
  simp only [AddTimeout, hk.startAt, hk.start, if_pos h]

/-- So is a time that is over. -/
theorem Keeps.addTimeout_of_expire_lt (hk : ep.Keeps a idx) (h : a.start ≤ now)
    (h' : ep.ullExpireTime n < now) : AddTimeout n now ep = (397, ep) := by
  simp only [AddTimeout, hk.startAt, hk.start, if_neg (Nat.not_lt.mpr h), if_pos h']

/-- The list that an item is put into. -/
theorem Keeps.addTimeout_eq (hk : ep.Keeps a idx) (h : a.start ≤ now)
    (h' : now ≤ ep.ullExpireTime n) :
    AddTimeout n now ep = (0, { ep with
      links := AddTail (.pItems ((idx + (min (ep.ullExpireTime n) (a.start + ep.iItemSize - 1) -
        a.start)) % ep.iItemSize)) n ep.links }) := by
  have hsize := hk.size
  have hbound := hk.bound
  have hstart := hk.bounded
  have hdiff : (if ep.ullExpireTime n - a.start ≥ ep.iItemSize then ep.iItemSize - 1
      else ep.ullExpireTime n - a.start) =
        min (ep.ullExpireTime n) (a.start + ep.iItemSize - 1) - a.start := by
    split_ifs <;> omega
  simp only [AddTimeout, hk.startAt, hk.start, hk.llStartIdx, if_neg (Nat.not_lt.mpr h),
    if_neg (Nat.not_lt.mpr h'), hdiff]
  have hlt : idx + (min (ep.ullExpireTime n) (a.start + ep.iItemSize - 1) - a.start) < 2 ^ 64 := by
    omega
  have hidx : (((idx : ℤ) +
      ((min (ep.ullExpireTime n) (a.start + ep.iItemSize - 1) - a.start : ℕ) : ℤ)) % 2 ^ 64).toNat =
        idx + (min (ep.ullExpireTime n) (a.start + ep.iItemSize - 1) - a.start) := by
    omega
  rw [hidx]

omit [DecidableEq N] in
/-- An addition goes to the end of one slot. -/
theorem queues_add {size expire : ℕ} : (a.add size n expire).queues size idx =
    update (a.queues size idx) (.pItems ((idx + (min expire (a.start + size - 1) - a.start)) % size))
      (a.queues size idx (.pItems ((idx + (min expire (a.start + size - 1) - a.start)) % size)) ++
        [n]) := by
  ext1 l
  cases l with
  | pItems i =>
    simp only [Agenda.queues, Agenda.add, List.filter_append, List.map_append]
    by_cases hi : (idx + (min expire (a.start + size - 1) - a.start)) % size = i
    · rw [hi, Function.update_self, List.filter_cons_of_pos (by simp [hi])]
      rfl
    · rw [Function.update_of_ne fun heq => hi (ItemLink.pItems.inj heq).symm,
        List.filter_cons_of_neg (by simp [hi]), List.filter_nil, List.map_nil, List.append_nil]
      rfl
  | pstTimeoutList | pstActiveList => rfl

/-- `AddTimeout` adds to the agenda. -/
theorem Keeps.addTimeout (hk : ep.Keeps a idx) (hn : n ∉ a.items) (h : a.start ≤ now)
    (h' : now ≤ ep.ullExpireTime n) :
    (AddTimeout n now ep).2.Keeps (a.add ep.iItemSize n (ep.ullExpireTime n)) idx := by
  rw [hk.addTimeout_eq h h']
  refine ⟨?_, hk.start, hk.llStartIdx, hk.bound, hk.positive, hk.bounded, hk.size,
    fun p hp => ?_, ?_⟩
  · show Links.Holds _ (Agenda.queues ep.iItemSize idx _)
    rw [queues_add]
    exact holds_addTail hk.holds (hk.owner.mpr hn)
  · rcases List.mem_append.mp hp with hp | hp
    · exact hk.within p hp
    · obtain rfl := List.mem_singleton.mp hp
      have hsize := hk.size
      show a.start ≤ _ ∧ _ < a.start + ep.iItemSize
      simp only []
      omega
  · have hperm : (a.add ep.iItemSize n (ep.ullExpireTime n)).items.Perm (n :: a.items) := by
      simp only [Agenda.items, Agenda.add, List.map_append, List.map_cons, List.map_nil,
        List.append_assoc]
      exact List.perm_middle
    exact hperm.nodup_iff.mpr (List.nodup_cons.mpr ⟨hn, hk.nodup⟩)

/-! ## Taking an item out -/

/-- A removal takes the item from the list it is in. -/
theorem queues_remove {size : ℕ} (hnodup : a.items.Nodup) :
    (a.remove n).queues size idx = fun l => (a.queues size idx l).erase n := by
  ext1 l
  cases l with
  | pItems i =>
    have hsub : ((a.pending.filter fun p => (idx + (p.2 - a.start)) % size = i).map
        Prod.fst).Nodup := by
      refine (List.Sublist.map Prod.fst List.filter_sublist).nodup ?_
      rw [Agenda.items, List.append_assoc] at hnodup
      exact hnodup.of_append_left
    simp only [Agenda.queues]
    rw [hsub.erase_eq_filter, List.filter_map, Agenda.remove]
    simp only [List.filter_filter]
    congr 1
    refine List.filter_congr fun p _ => ?_
    rw [Bool.and_comm]
    simp only [Function.comp_apply, ne_eq, decide_not, bne, beq_eq_decide]
  | pstTimeoutList | pstActiveList => rfl

/-- The items after a removal. -/
theorem items_remove (hnodup : a.items.Nodup) : (a.remove n).items = a.items.erase n := by
  have hpending : (a.pending.filter fun p => !decide (p.1 = n)).map Prod.fst =
      (a.pending.map Prod.fst).filter fun m => !decide (m = n) := by
    rw [List.filter_map]
    rfl
  have hn := hnodup
  simp only [Agenda.items] at hn
  rw [List.nodup_append, List.nodup_append] at hn
  rw [hnodup.erase_eq_filter]
  simp only [Agenda.items, Agenda.remove, List.filter_append, hn.1.2.1.erase_eq_filter,
    hn.2.1.erase_eq_filter, bne, beq_eq_decide, ne_eq, decide_not, hpending]

/-- `RemoveFromLink` removes from the agenda. -/
theorem Keeps.removeFromLink (hk : ep.Keeps a idx) (n : N) :
    ∃ links, RemoveFromLink n ep.links = some links ∧
      ({ ep with links } : CoEpoll N).Keeps (a.remove n) idx := by
  obtain ⟨links, hrun, hq⟩ := LinkOp.holds_removed hk.holds n
  refine ⟨links, hrun, ?_, hk.start, hk.llStartIdx, hk.bound, hk.positive, hk.bounded, hk.size,
    fun p hp => hk.within p (List.mem_of_mem_filter hp), ?_⟩
  · show links.Holds ((a.remove n).queues ep.iItemSize idx)
    rw [queues_remove hk.nodup]
    exact hq
  · rw [items_remove hk.nodup]
    exact hk.nodup.erase n

/-! ## Taking what is over -/

/-- The lists of the wheel belong to different milliseconds. -/
theorem slot_eq_iff {size start d k : ℕ} (hd : start ≤ d ∧ d < start + size) (hk : k < size) :
    (idx + (d - start)) % size = (idx + k) % size ↔ d = start + k := by
  constructor
  · intro heq
    have hmod : d - start ≡ k [MOD size] := Nat.ModEq.add_left_cancel' idx heq
    have heq' := hmod
    rw [Nat.ModEq, Nat.mod_eq_of_lt (by omega), Nat.mod_eq_of_lt hk] at heq'
    omega
  · rintro rfl
    rw [Nat.add_sub_cancel_left]

omit [DecidableEq N] in
/-- A slot after some milliseconds were taken. -/
theorem queues_sweep {size k i : ℕ} : (a.sweep k).queues size idx (.pItems i) =
    (a.pending.filter fun p =>
      a.start + k ≤ p.2 ∧ (idx + (p.2 - a.start)) % size = i).map Prod.fst := by
  show ((a.pending.filter fun p => a.start + k ≤ p.2).filter fun p =>
    (idx + (p.2 - a.start)) % size = i).map Prod.fst = _
  rw [List.filter_filter]
  congr 1
  refine List.filter_congr fun p _ => ?_
  rw [Bool.decide_and, Bool.and_comm]

omit [DecidableEq N] in
/-- The list of the next millisecond. -/
theorem slot_sweep {size k : ℕ} (hw : a.Within size) (hk : k < size) :
    (a.sweep k).queues size idx (.pItems ((idx + k) % size)) =
      (a.pending.filter fun p => p.2 = a.start + k).map Prod.fst := by
  rw [queues_sweep]
  congr 1
  refine List.filter_congr fun p hp => ?_
  rw [decide_eq_decide, slot_eq_iff (hw p hp) hk]
  omega

omit [DecidableEq N] in
/-- One millisecond more empties one slot into the timeouts. -/
theorem queues_sweep_succ {size k : ℕ} (hw : a.Within size) (hk : k < size) :
    (a.sweep (k + 1)).queues size idx =
      update (update ((a.sweep k).queues size idx) .pstTimeoutList
        ((a.sweep k).queues size idx .pstTimeoutList ++
          (a.sweep k).queues size idx (.pItems ((idx + k) % size))))
        (.pItems ((idx + k) % size)) [] := by
  ext1 l
  cases l with
  | pItems i =>
    rw [queues_sweep]
    by_cases hi : i = (idx + k) % size
    · rw [hi, Function.update_self, List.map_eq_nil_iff, List.filter_eq_nil_iff]
      intro p hp
      rw [decide_eq_true_iff, slot_eq_iff (hw p hp) hk]
      omega
    · rw [Function.update_of_ne fun heq => hi (ItemLink.pItems.inj heq),
        Function.update_of_ne ItemLink.noConfusion, queues_sweep]
      congr 1
      refine List.filter_congr fun p hp => ?_
      rw [decide_eq_decide]
      refine and_congr_left fun hslot => ?_
      have hne : p.2 ≠ a.start + k := fun heq =>
        hi (hslot.symm.trans ((slot_eq_iff (hw p hp) hk).mpr heq))
      omega
  | pstTimeoutList =>
    rw [Function.update_of_ne ItemLink.noConfusion, Function.update_self, slot_sweep hw hk]
    simp only [Agenda.queues, Agenda.sweep, Deadlines.days, List.range_succ,
      List.flatMap_append, List.flatMap_singleton, List.map_append, List.append_assoc]
  | pstActiveList => rfl

/-- The walk over the slots takes the agenda millisecond by millisecond. -/
theorem takeSlots_spec {h : Links N ItemLink} {size fuel : ℕ} (hq : h.Holds (a.queues size idx))
    (hw : a.Within size) (hfuel : a.pending.length ≤ fuel) :
    ∀ k, k ≤ size → ∃ h', takeSlots fuel size idx .pstTimeoutList k h = some h' ∧
      h'.Holds ((a.sweep k).queues size idx) := by
  intro k
  induction k with
  | zero =>
    intro _
    refine ⟨h, rfl, ?_⟩
    have hsame : (a.sweep 0).queues size idx = a.queues size idx := by
      ext1 l
      cases l with
      | pItems i =>
        have hall : (a.pending.filter fun p => a.start + 0 ≤ p.2) = a.pending := by
          rw [List.filter_eq_self]
          intro p hp
          exact decide_eq_true (hw p hp).1
        simp only [Agenda.queues, Agenda.sweep, hall]
      | pstTimeoutList => exact List.append_nil _
      | pstActiveList => rfl
    rw [hsame]
    exact hq
  | succ k ih =>
    intro hk
    obtain ⟨h1, hrun, hq1⟩ := ih (Nat.le_of_succ_le hk)
    have hslot : ((a.sweep k).queues size idx (.pItems ((idx + k) % size))).length ≤ fuel := by
      rw [slot_sweep hw hk, List.length_map]
      exact (List.length_filter_le _ _).trans hfuel
    have hne : ItemLink.pstTimeoutList ≠ .pItems ((idx + k) % size) := ItemLink.noConfusion
    obtain ⟨h2, hjoin, hq2⟩ := holds_join hq1 hne hslot
    refine ⟨h2, ?_, ?_⟩
    · rw [takeSlots, List.range_succ, List.foldlM_append]
      have hidx : ((idx : ℤ) + (k : ℤ)).tmod size = ((idx + k) % size : ℕ) := by
        rw [← Int.natCast_add]
        exact (Int.ofNat_tmod _ _).symm
      rw [takeSlots] at hrun
      rw [hrun]
      simp only [Option.bind_eq_bind, Option.bind_some, List.foldlM_cons, List.foldlM_nil, hidx]
      rw [if_neg (by omega), Int.toNat_natCast, hjoin]
      rfl
    · rw [queues_sweep_succ hw hk]
      exact hq2

omit [DecidableEq N] in
/-- `sweep` takes what is over, when it comes to the present or to the end of the wheel. -/
theorem queues_take {size k : ℕ} (hw : a.Within size) (hle : a.start ≤ now)
    (hk : k = min (now - a.start + 1) size) :
    (a.sweep k).queues size idx = (a.take now).queues size (idx + (k - 1)) := by
  have htake : a.take now = { a with
      pending := a.pending.filter fun p => now < p.2
      timeout := a.timeout ++ (Deadlines.expired now a.pending).map Prod.fst
      start := now } := by rw [Agenda.take, if_neg (Nat.not_lt.mpr hle)]
  rw [htake]
  ext1 l
  cases l with
  | pItems i =>
    rw [queues_sweep]
    show _ = ((a.pending.filter fun p => now < p.2).filter fun p =>
      (idx + (k - 1) + (p.2 - now)) % size = i).map Prod.fst
    rw [List.filter_filter]
    congr 1
    refine List.filter_congr fun p hp => ?_
    have hday := hw p hp
    rw [← Bool.decide_and, decide_eq_decide, and_comm]
    by_cases hlate : now < p.2
    · have hsum : idx + (k - 1) + (p.2 - now) = idx + (p.2 - a.start) := by omega
      rw [hsum]
      refine and_congr_right fun _ => ?_
      omega
    · have hout : ¬a.start + k ≤ p.2 := by omega
      exact ⟨fun h => absurd h.2 hout, fun h => absurd h.2 hlate⟩
  | pstTimeoutList =>
    simp only [Agenda.queues, Agenda.sweep]
    rw [Deadlines.days_eq_expired fun p hp => ?_]
    have hday := hw p hp
    refine ⟨hday.1, ?_⟩
    omega
  | pstActiveList => rfl

omit [DecidableEq N] in
/-- A take loses no item. -/
theorem items_take (a : Agenda N) (now : ℕ) : (a.take now).items.Perm a.items := by
  rw [Agenda.take]
  split_ifs with hlt
  · rfl
  have hexpired := (List.mergeSort_perm (a.pending.filter fun p => p.2 ≤ now) Deadlines.before)
  have hsplit := List.filter_append_perm (fun p : N × ℕ => now < p.2) a.pending
  have hneg : (a.pending.filter fun p => !decide (now < p.2)) =
      a.pending.filter fun p => p.2 ≤ now := by
    refine List.filter_congr fun p _ => ?_
    rw [← decide_not, decide_eq_decide, Nat.not_lt]
  rw [hneg] at hsplit
  simp only [Agenda.items]
  refine List.Perm.append_right a.active ?_
  rw [← List.append_assoc]
  refine (List.Perm.append_right _ List.perm_append_comm).trans ?_
  rw [List.append_assoc, ← List.map_append]
  refine List.perm_append_comm.trans (List.Perm.append_right _ (List.Perm.map _ ?_))
  exact (List.Perm.append_left _ hexpired).trans hsplit

/-- `TakeAllTimeout` takes what is over on the agenda. The bound on the reading keeps its index
from being negative. -/
theorem Keeps.takeAllTimeout (hk : ep.Keeps a idx) (hnow : now < 2 ^ 63)
    (hgap : now + 1 < a.start + 2 ^ 31) {fuel : ℕ} (hfuel : a.pending.length ≤ fuel) :
    ∃ links ullStart llStartIdx idx',
      TakeAllTimeout fuel now .pstTimeoutList ep =
        some { ep with links, ullStart, llStartIdx } ∧
      ({ ep with links, ullStart, llStartIdx } : CoEpoll N).Keeps (a.take now) idx' := by
  by_cases hlt : now < a.start
  · refine ⟨ep.links, ep.ullStart, ep.llStartIdx, idx, ?_, ?_⟩
    · rw [← hk.start] at hlt
      simp only [TakeAllTimeout, hk.startAt, if_pos hlt]
    · rw [Agenda.take, if_pos hlt]
      exact hk
  · have hle : a.start ≤ now := Nat.not_lt.mp hlt
    have hsize := hk.size
    have hbound := hk.bound
    obtain ⟨k, hcnt⟩ : ∃ k, k = min (now - a.start + 1) ep.iItemSize := ⟨_, rfl⟩
    obtain ⟨links, hrun, hq⟩ := takeSlots_spec hk.holds hk.within hfuel k (by omega)
    have hbmod : Int.bmod ((now : ℤ) - a.start + 1) (2 ^ 32) = (now : ℤ) - a.start + 1 := by
      rw [Int.bmod_eq_emod_of_lt (by omega)]
      omega
    have hclamp : (if (now : ℤ) - a.start + 1 > ep.iItemSize then (ep.iItemSize : ℤ)
        else (now : ℤ) - a.start + 1) = k := by
      split_ifs <;> omega
    refine ⟨links, now, idx + ((k : ℤ) - 1), idx + (k - 1), ?_, ?_, ?_, ?_, ?_, ?_, ?_, hk.size,
      ?_, ?_⟩
    · simp only [TakeAllTimeout, hk.startAt, hk.start, hk.llStartIdx, if_neg hlt, hbmod, hclamp]
      rw [if_neg (by omega), if_neg (by omega), Int.toNat_natCast, hrun]
      rfl
    · rw [queues_take hk.within hle hcnt] at hq
      exact hq
    · rw [Agenda.take, if_neg hlt]
    · show (idx : ℤ) + ((k : ℤ) - 1) = ((idx + (k - 1) : ℕ) : ℤ)
      omega
    · rw [Agenda.take, if_neg hlt]
      show idx + (k - 1) ≤ now
      omega
    · have hpos := hk.positive
      rw [Agenda.take, if_neg hlt]
      show 0 < now
      omega
    · rw [Agenda.take, if_neg hlt]
      exact hnow
    · rw [Agenda.take, if_neg hlt]
      intro p hp
      obtain ⟨hp, hlate⟩ := List.mem_filter.mp hp
      have hday := hk.within p hp
      have hlate := of_decide_eq_true hlate
      show now ≤ p.2 ∧ p.2 < now + ep.iItemSize
      omega
    · exact (items_take a now).nodup_iff.mpr hk.nodup

end CoEpoll

/-! ## Whole runs -/

/-- What is done with the wheel. An item that is put into it is new memory, or in no list. -/
inductive TimeoutOp (N : Type)
  /-- `apItem` waits until `ullExpireTime`. -/
  | addTimeout (apItem : N) (ullExpireTime allNow : ℕ)
  /-- `ap` waits no longer. -/
  | removeFromLink (ap : N)
  /-- What is over at `allNow` is taken. -/
  | takeAllTimeout (allNow : ℕ)

namespace TimeoutOp

/-- The wheel, and what the calls of `AddTimeout` returned. -/
def run (fuel : ℕ) : CoEpoll N × List ℕ → TimeoutOp N → Option (CoEpoll N × List ℕ)
  | (ep, rets), addTimeout n ullExpireTime allNow =>
    let ep := { ep with ullExpireTime := update ep.ullExpireTime n ullExpireTime }
    some ((AddTimeout n allNow ep).2, rets ++ [(AddTimeout n allNow ep).1])
  | (ep, rets), removeFromLink n =>
    (RemoveFromLink n ep.links).map fun links => ({ ep with links }, rets)
  | (ep, rets), takeAllTimeout allNow =>
    (TakeAllTimeout fuel allNow .pstTimeoutList ep).map fun ep => (ep, rets)

/-- What is meant. -/
def meant (size : ℕ) : Agenda N × List ℕ → TimeoutOp N → Agenda N × List ℕ
  | (a, rets), addTimeout n ullExpireTime allNow =>
    if allNow < a.start then (a, rets ++ [390])
    else if ullExpireTime < allNow then (a, rets ++ [397])
    else (a.add size n ullExpireTime, rets ++ [0])
  | (a, rets), removeFromLink n => (a.remove n, rets)
  | (a, rets), takeAllTimeout allNow => (a.take allNow, rets)

/-- An item that is added is in no list, and what is taken is taken less than `2 ^ 31 - 1` ms
after the time up to which the wheel was taken before : the slots are counted in an `int`. -/
def Timely (s : Agenda N × List ℕ) : TimeoutOp N → Prop
  | addTimeout n _ _ => n ∉ s.1.items
  | removeFromLink _ => True
  | takeAllTimeout allNow => allNow < 2 ^ 63 ∧ allNow + 1 < s.1.start + 2 ^ 31

/-- The wheel keeps the agenda, and the calls returned the same. -/
def Refines (size : ℕ) (s : CoEpoll N × List ℕ) (s' : Agenda N × List ℕ) : Prop :=
  s.1.iItemSize = size ∧ s.2 = s'.2 ∧ ∃ idx, s.1.Keeps s'.1 idx

variable {size fuel : ℕ} {op : TimeoutOp N}

/-- One operation. -/
theorem refines_run {ep : CoEpoll N} {a : Agenda N} {rets : List ℕ} {idx : ℕ}
    (hk : ep.Keeps a idx) (hop : Timely (a, rets) op) (hfuel : a.pending.length ≤ fuel) :
    ∃ s, run fuel (ep, rets) op = some s ∧
      Refines ep.iItemSize s (meant ep.iItemSize (a, rets) op) := by
  cases op with
  | addTimeout n expire now =>
    have hk' := CoEpoll.keeps_congr hk (update ep.ullExpireTime n expire) ep.bTimeout
    refine ⟨_, rfl, ?_⟩
    by_cases hlt : now < a.start
    · rw [hk'.addTimeout_of_lt hlt, meant, if_pos hlt]
      exact ⟨rfl, rfl, idx, hk'⟩
    · have hexpire : update ep.ullExpireTime n expire n = expire := Function.update_self ..
      by_cases hpast : expire < now
      · rw [hk'.addTimeout_of_expire_lt (Nat.not_lt.mp hlt) (by simpa only [hexpire] using hpast),
          meant, if_neg hlt, if_pos hpast]
        exact ⟨rfl, rfl, idx, hk'⟩
      · have hle : now ≤ update ep.ullExpireTime n expire n := by
          rw [hexpire]
          exact Nat.not_lt.mp hpast
        have hadd := hk'.addTimeout hop (Nat.not_lt.mp hlt) hle
        simp only [hexpire] at hadd
        rw [meant, if_neg hlt, if_neg hpast]
        refine ⟨?_, ?_, idx, hadd⟩
        · rw [hk'.addTimeout_eq (Nat.not_lt.mp hlt) hle]
        · rw [hk'.addTimeout_eq (Nat.not_lt.mp hlt) hle]
  | removeFromLink n =>
    obtain ⟨links, hrun, hk'⟩ := hk.removeFromLink n
    refine ⟨({ ep with links }, rets), ?_, rfl, rfl, idx, hk'⟩
    rw [run, hrun]
    rfl
  | takeAllTimeout now =>
    obtain ⟨links, ullStart, llStartIdx, idx', hrun, hk'⟩ := hk.takeAllTimeout hop.1 hop.2 hfuel
    refine ⟨({ ep with links, ullStart, llStartIdx }, rets), ?_, rfl, rfl, idx', hk'⟩
    rw [run, hrun]
    rfl

/-- An operation makes at most one item pend. -/
theorem length_pending_meant (s' : Agenda N × List ℕ) :
    (meant size s' op).1.pending.length ≤ s'.1.pending.length + 1 := by
  cases op with
  | addTimeout n expire now =>
    rw [meant]
    split_ifs
    · exact Nat.le_succ _
    · exact Nat.le_succ _
    · exact (List.length_append ..).le
  | removeFromLink n => exact (List.length_filter_le _ _).trans (Nat.le_succ _)
  | takeAllTimeout now =>
    rw [meant]
    simp only [Agenda.take]
    split_ifs
    · exact Nat.le_succ _
    · exact (List.length_filter_le _ _).trans (Nat.le_succ _)

/-- A run of the wheel is one of the agenda. -/
theorem refines_foldl {ops : List (TimeoutOp N)} {s : CoEpoll N × List ℕ} {s' : Agenda N × List ℕ}
    (hs : Refines size s s')
    (hops : Moves.Meets (fun s op => some (meant size s op)) Timely s' ops)
    (hfuel : s'.1.pending.length + ops.length ≤ fuel) :
    ∃ s1, Moves.run (run fuel) s ops = some s1 ∧ Refines size s1 (ops.foldl (meant size) s') := by
  induction ops generalizing s s' with
  | nil => exact ⟨s, rfl, hs⟩
  | cons op ops ih =>
    obtain ⟨ep, rets⟩ := s
    obtain ⟨a, rets'⟩ := s'
    obtain ⟨hsize, hrets, idx, hk⟩ := hs
    obtain rfl : rets = rets' := hrets
    obtain rfl : ep.iItemSize = size := hsize
    have hfuel' : a.pending.length + (ops.length + 1) ≤ fuel := hfuel
    have hpending : a.pending.length ≤ fuel := by omega
    obtain ⟨s1, hrun, hs1⟩ := refines_run hk hops.1 hpending
    have hlength : (meant ep.iItemSize (a, rets) op).1.pending.length ≤ a.pending.length + 1 :=
      length_pending_meant (a, rets)
    have hrest : (meant ep.iItemSize (a, rets) op).1.pending.length + ops.length ≤ fuel := by omega
    obtain ⟨s2, hrun', hs2⟩ := ih hs1 (hops.2 _ rfl) hrest
    exact ⟨s2, Moves.run_cons_eq_some.mpr ⟨s1, hrun, hrun'⟩, hs2⟩

/-- Whatever is done with the wheel, it keeps the agenda : `TakeAllTimeout` takes what is over, in
order, `AddTimeout` returns what is meant, no index is negative and no walk is endless. -/
theorem run_agenda {ops : List (TimeoutOp N)} {now : ℕ} (hsize : 1 < size ∧ size < 2 ^ 31)
    (hpos : 0 < now) (hlt : now < 2 ^ 63) (hfuel : ops.length ≤ fuel)
    (hops : Moves.Meets (fun s op => some (meant size s op)) Timely (Agenda.empty N now, []) ops) :
    ∃ s, Moves.run (run fuel) (AllocTimeout size now, []) ops = some s ∧
      Refines size s (ops.foldl (meant size) (Agenda.empty N now, [])) :=
  refines_foldl ⟨rfl, rfl, 0, CoEpoll.keeps_allocTimeout hsize hpos hlt⟩ hops
    (by simpa [Agenda.empty] using hfuel)

/-- Two items, the second of which is over first, and one that waits longer than the wheel. -/
def waits : List (TimeoutOp ℕ) :=
  [.addTimeout 1 12 10, .addTimeout 2 11 10, .addTimeout 3 100 10, .takeAllTimeout 12]

/-- The second item is taken first. -/
theorem run_agenda_waits : ∃ s : CoEpoll ℕ × List ℕ,
    Moves.run (run 4) (AllocTimeout 4 10, []) waits = some s ∧
      s.1.links.head .pstTimeoutList = some 2 ∧
        Refines 4 s (waits.foldl (meant 4) (Agenda.empty ℕ 10, [])) := by
  have hops : Moves.Meets (fun s op => some (meant 4 s op)) Timely (Agenda.empty ℕ 10, [])
      waits := by
    refine ⟨by simp [Timely, Agenda.empty, Agenda.items], fun s hs => ?_⟩
    obtain rfl := Option.some.inj hs
    refine ⟨by simp [Timely, meant, Agenda.empty, Agenda.items, Agenda.add], fun s hs => ?_⟩
    obtain rfl := Option.some.inj hs
    refine ⟨by simp [Timely, meant, Agenda.empty, Agenda.items, Agenda.add], fun s hs => ?_⟩
    obtain rfl := Option.some.inj hs
    refine ⟨by simp [Timely, meant, Agenda.empty, Agenda.add], fun s hs => trivial⟩
  obtain ⟨s, hrun, hs⟩ := run_agenda (by omega) (by omega) (by omega) (Nat.le_refl 4) hops
  have hhead : (Moves.run (run 4) (AllocTimeout 4 10, []) waits).map
      (fun s => s.1.links.head .pstTimeoutList) = some (some 2) := by
    decide +kernel
  rw [hrun] at hhead
  exact ⟨s, hrun, Option.some.inj hhead, hs⟩

end TimeoutOp

end WzxServer
