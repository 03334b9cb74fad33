import WzxServer.Lib.Chains
import WzxServer.Lib.Moves
import Mathlib.Data.List.Induction
import Mathlib.Data.List.Perm.Subperm

/-!
# The lists of the coroutine library

`AddTail`, `PopHead`, `Join` and `RemoveFromLink` work on the pointers in the nodes. Time-outs,
active items and the coroutines that wait for a condition are all kept in such lists. A null
pointer that is used and an assertion that fails are undefined behaviour, here `none`, and so is
a walk along a list of more than `fuel` nodes.

`run_links` : whatever is done with the lists from the start on, their pointers hold the lists
that are meant.

There is one lemma for each function, which says what it does to the lists that the pointers hold
(`Links.Holds`, of `Lib.Chains`). The functions look at the pointers of a node to find out
whether it is in a list, so each has two cases : a node that is in a list is not added
(`addTail_of_owner`), and one that is in none is not removed (`removeFromLink_of_owner`).
`Join` walks along the list that it takes over, and needs as much fuel as the list has nodes.
-/

namespace WzxServer

open Function (update)

variable {N L : Type} [DecidableEq N] [DecidableEq L]

/-- `if( p ) p->field = v`. -/
def writeAt (f : N → Option N) (p v : Option N) : N → Option N :=
  match p with
  | some n => update f n v
  | none => f

@[simp] theorem writeAt_apply (f : N → Option N) (p v : Option N) (m : N) :
    writeAt f p v m = if some m = p then v else f m := by
  rcases p with _ | n
  · rfl
  · simp only [writeAt, Function.update_apply, Option.some.injEq]

/-- An item that is in a list already is left where it is. -/
def AddTail (apLink : L) (ap : N) (h : Links N L) : Links N L :=
  if (h.owner ap).isSome then h
  else
    match h.tail apLink with
    | some t => { h with
        next := update (update h.next t (some ap)) ap none
        prev := update h.prev ap (some t)
        tail := update h.tail apLink (some ap)
        owner := update h.owner ap (some apLink) }
    | none => { h with
        head := update h.head apLink (some ap)
        tail := update h.tail apLink (some ap)
        next := update h.next ap none
        prev := update h.prev ap none
        owner := update h.owner ap (some apLink) }

/-- The head leaves its list and points nowhere. An empty list stays empty. -/
def PopHead (apLink : L) (h : Links N L) : Links N L :=
  match h.head apLink with
  | none => h
  | some lp =>
    let head := if h.head apLink = h.tail apLink then none else h.next lp
    { h with
      head := update h.head apLink head
      tail := if h.head apLink = h.tail apLink then update h.tail apLink none else h.tail
      prev := writeAt (update h.prev lp none) head none
      next := update h.next lp none
      owner := update h.owner lp none }

/-- The loop of `Join` : every node from `lp` on belongs to `apLink`. -/
def relink (apLink : L) : ℕ → Option N → Links N L → Option (Links N L)
  | _, none, h => some h
  | 0, some _, _ => none
  | fuel + 1, some lp, h =>
    relink apLink fuel (h.next lp) { h with owner := update h.owner lp (some apLink) }

/-- The items of `apOther` go behind those of `apLink`, each told its new list on a walk along
`pNext`. A chain without an end has no such walk. -/
def Join (fuel : ℕ) (apLink apOther : L) (h : Links N L) : Option (Links N L) :=
  match h.head apOther with
  | none => some h
  | some lp =>
    (relink apLink fuel (some lp) h).map fun h =>
      let h := match h.tail apLink with
        | some t => { h with
            next := update h.next t (some lp)
            prev := update h.prev lp (some t)
            tail := update h.tail apLink (h.tail apOther) }
        | none => { h with
            head := update h.head apLink (h.head apOther)
            tail := update h.tail apLink (h.tail apOther) }
      { h with head := update h.head apOther none, tail := update h.tail apOther none }

/-- The pointers to `ap` from the front. -/
def RemoveFromLink.front (lst : L) (ap : N) (h : Links N L) : Links N L :=
  if h.head lst = some ap then
    { h with head := update h.head lst (h.next ap), prev := writeAt h.prev (h.next ap) none }
  else { h with next := writeAt h.next (h.prev ap) (h.next ap) }

/-- The pointers to `ap` from behind. -/
def RemoveFromLink.back (lst : L) (ap : N) (h : Links N L) : Option (Links N L) :=
  if h.tail lst = some ap then
    some { h with tail := update h.tail lst (h.prev ap), next := writeAt h.next (h.prev ap) none }
  else (h.next ap).map fun n => { h with prev := update h.prev n (h.prev ap) }

/-- An item in no list is left alone. The assertion fails where its list has no head or no tail,
and an item with nothing behind it that is not the tail is a null pointer. -/
def RemoveFromLink (ap : N) (h : Links N L) : Option (Links N L) :=
  match h.owner ap with
  | none => some h
  | some lst =>
    if (h.head lst).isSome ∧ (h.tail lst).isSome then
      (RemoveFromLink.back lst ap (RemoveFromLink.front lst ap h)).map fun h =>
        { h with
          prev := update h.prev ap none
          next := update h.next ap none
          owner := update h.owner ap none }
    else none

/-! ## What they do to the lists -/

variable {h : Links N L} {q : L → List N} {l l' : L} {n : N}

/-- An item of a list is not added. -/
theorem addTail_of_owner (hn : h.owner n ≠ none) : AddTail l n h = h := by
  rw [AddTail, if_pos (Option.isSome_iff_ne_none.mpr hn)]

/-- `AddTail` appends to its list and leaves the others. -/
theorem holds_addTail (hq : h.Holds q) (hn : h.owner n = none) :
    (AddTail l n h).Holds (update q l (q l ++ [n])) := by
  have hnone : ¬(h.owner n).isSome = true := by simp [hn]
  have htail := hq.tail l
  have hhead := hq.head l
  rw [AddTail, if_neg hnone]
  rcases hlast : h.tail l with _ | t
  · have hnil : q l = [] := by
      rw [← List.getLast?_eq_none_iff, ← htail, hlast]
    refine hq.concat hn (fun l' => ?_) (fun l' => ?_) (fun m hm => ?_) ?_ (fun m hm => ?_) ?_
      (fun m hm _ => ?_) (fun m hm => ?_) ?_
    · simp [Function.update_apply, hnil]
    · simp [Function.update_apply]
    · simp [Function.update_of_ne hm]
    · simp
    · simp [Function.update_of_ne hm]
    · simp [hnil]
    · simp [Function.update_of_ne hm]
    · simp [hnil] at hm
    · simp
  · have ht : (q l).getLast? = some t := by rw [← htail, hlast]
    have htn : t ≠ n := by
      rintro rfl
      exact hq.notMem_of_owner hn l (List.mem_of_getLast? ht)
    refine hq.concat hn (fun l' => ?_) (fun l' => ?_) (fun m hm => ?_) ?_ (fun m hm => ?_) ?_
      (fun m hm hmt => ?_) (fun m hm => ?_) ?_
    · rcases eq_or_ne l' l with rfl | hl
      · rw [if_pos rfl, hhead]
        rcases hql : q l' with _ | ⟨a, rest⟩
        · rw [hql] at ht
          exact absurd ht.symm (Option.some_ne_none t)
        · rfl
      · rw [if_neg hl]
    · simp [Function.update_apply]
    · simp [Function.update_of_ne hm]
    · simp
    · simp [Function.update_of_ne hm]
    · simp [ht]
    · have hmt' : m ≠ t := by
        rintro rfl
        exact hmt ht.symm
      simp [Function.update_of_ne hm, Function.update_of_ne hmt']
    · obtain rfl : m = t := Option.some.inj (hm.trans ht)
      simp [Function.update_of_ne htn]
    · simp

/-- There is nothing to pop from an empty list. -/
theorem popHead_of_nil (hq : h.Holds q) (hl : q l = []) : PopHead l h = h := by
  have hhead := hq.head l
  rw [hl] at hhead
  rw [PopHead, hhead]
  rfl

/-- `PopHead` takes the first item. -/
theorem holds_popHead (hq : h.Holds q) {rest : List N} (hl : q l = n :: rest) :
    (PopHead l h).Holds (update q l rest) := by
  have hhead : h.head l = some n := by rw [hq.head, hl]; rfl
  have htail : h.tail l = (n :: rest).getLast? := by rw [hq.tail, hl]
  have hnext : h.next n = rest.head? := (hq.near l [] n rest hl).2
  have hnodup := hq.nodup l
  rw [hl, List.nodup_cons] at hnodup
  have hlast : (h.head l = h.tail l) ↔ rest = [] := by
    rw [hhead, htail]
    rcases rest with _ | ⟨m, rest⟩
    · simp
    · rw [List.getLast?_cons_cons]
      refine ⟨fun heq => absurd (List.mem_of_getLast? heq.symm) hnodup.1, fun heq => ?_⟩
      exact absurd heq (List.cons_ne_nil m rest)
  have hnew : (if h.head l = h.tail l then none else h.next n) = rest.head? := by
    split_ifs with heq
    · rw [hlast.mp heq]
      rfl
    · exact hnext
  have hpop : PopHead l h = { h with
      head := update h.head l rest.head?
      tail := if h.head l = h.tail l then update h.tail l none else h.tail
      prev := writeAt (update h.prev n none) rest.head? none
      next := update h.next n none
      owner := update h.owner n none } := by
    rw [PopHead, hhead]
    simp only [← hhead, hnew]
  rw [hpop]
  refine hq.cut (show q l = [] ++ n :: rest from hl) (fun l' => ?_) (fun l' => ?_) (fun m hm => ?_) ?_
    (fun m hm hm' => ?_) (fun m hm => ?_) (fun m hm _ => ?_) fun m hm => ?_
  · simp [Function.update_apply]
  · rcases eq_or_ne l' l with rfl | hne
    · rw [if_pos rfl]
      split_ifs with heq
      · simp [hlast.mp heq]
      · rcases rest with _ | ⟨m, rest⟩
        · exact absurd (hlast.mpr rfl) heq
        · exact htail
    · rw [if_neg hne]
      split_ifs
      · simp [Function.update_of_ne hne]
      · rfl
  · simp [Function.update_of_ne hm]
  · simp
  · simp [hm', Function.update_of_ne hm]
  · simp [hm]
  · simp [Function.update_of_ne hm]
  · exact absurd hm (Option.some_ne_none m)

/-- An item of no list is not removed. -/
theorem removeFromLink_of_owner (hn : h.owner n = none) : RemoveFromLink n h = some h := by
  rw [RemoveFromLink, hn]

/-- `h'` has the pointers of `h` with a node between `pre` and `post` passed over. -/
structure Passes (h h' : Links N L) (l : L) (pre post : List N) : Prop where
  /-- The list has a new head when the node was the first. -/
  head : ∀ l', h'.head l' = if l' = l then (pre ++ post).head? else h.head l'
  /-- And a new tail when it was the last. -/
  tail : ∀ l', h'.tail l' = if l' = l then (pre ++ post).getLast? else h.tail l'
  /-- The node still points to its list. -/
  owner : h'.owner = h.owner
  /-- The next node has a new neighbour in front of it. -/
  prev : ∀ m, h'.prev m = if some m = post.head? then pre.getLast? else h.prev m
  /-- The one before it has a new neighbour behind it. -/
  next : ∀ m, h'.next m = if some m = pre.getLast? then post.head? else h.next m

/-- The node itself forgets its list. -/
theorem Passes.holds {h' : Links N L} {pre post : List N} (hq : h.Holds q)
    (hl : q l = pre ++ n :: post) (hpass : Passes h h' l pre post) :
    Links.Holds { h' with
      prev := update h'.prev n none
      next := update h'.next n none
      owner := update h'.owner n none } (update q l (pre ++ post)) := by
  have hnodup := hq.nodup l
  rw [hl, List.nodup_middle, List.nodup_cons, List.mem_append, not_or] at hnodup
  obtain ⟨⟨hpre, hpost⟩, -⟩ := hnodup
  refine hq.cut hl hpass.head hpass.tail (fun m hm => ?_) ?_ (fun m hm hm' => ?_)
    (fun m hm => ?_) (fun m hm hm' => ?_) fun m hm => ?_
  · simp only [Function.update_of_ne hm, hpass.owner]
  · simp only [Function.update_self]
  · simp only [Function.update_of_ne hm, hpass.prev, if_neg hm']
  · have hmn : m ≠ n := fun heq => hpost (heq ▸ List.mem_of_head? hm.symm)
    simp only [Function.update_of_ne hmn, hpass.prev, if_pos hm]
  · simp only [Function.update_of_ne hm, hpass.next, if_neg hm']
  · have hmn : m ≠ n := fun heq => hpre (heq ▸ List.mem_of_getLast? hm.symm)
    simp only [Function.update_of_ne hmn, hpass.next, if_pos hm]

/-- In front of the node, the next one gets a new neighbour only when it becomes the head. -/
theorem front_spec (hq : h.Holds q) {pre post : List N} (hl : q l = pre ++ n :: post) :
    (∀ l', (RemoveFromLink.front l n h).head l' =
        if l' = l then (pre ++ post).head? else h.head l') ∧
      (RemoveFromLink.front l n h).tail = h.tail ∧
      (RemoveFromLink.front l n h).owner = h.owner ∧
      (∀ m, some m ≠ post.head? → (RemoveFromLink.front l n h).prev m = h.prev m) ∧
      ∀ m, (RemoveFromLink.front l n h).next m =
        if some m = pre.getLast? then post.head? else h.next m := by
  obtain ⟨hprev, hnext⟩ := hq.near l pre n post hl
  have hhead := hq.head l
  have hnodup := hq.nodup l
  rw [hl] at hhead hnodup
  rw [RemoveFromLink.front]
  rcases pre with _ | ⟨a, pre⟩
  · rw [List.nil_append, List.head?_cons] at hhead
    rw [if_pos hhead]
    refine ⟨fun l' => ?_, rfl, rfl, fun m hm => ?_, fun m => ?_⟩
    · simp [Function.update_apply, hnext]
    · simp [hnext, hm]
    · simp
  · rw [List.cons_append, List.head?_cons] at hhead
    rw [List.cons_append, List.nodup_cons, List.mem_append, not_or, List.mem_cons, not_or]
      at hnodup
    have hne : h.head l ≠ some n := by
      rw [hhead]
      exact fun heq => hnodup.1.2.1 (Option.some.inj heq)
    rw [if_neg hne]
    refine ⟨fun l' => ?_, rfl, rfl, fun m _ => rfl, fun m => ?_⟩
    · split_ifs with hll
      · rw [hll, hhead]
        rfl
      · rfl
    · simp [hnext, hprev]

/-- Both halves of the removal are done, and lead past the item. -/
theorem passes_back (hq : h.Holds q) {pre post : List N} (hl : q l = pre ++ n :: post) :
    ∃ h', RemoveFromLink.back l n (RemoveFromLink.front l n h) = some h' ∧
      Passes h h' l pre post := by
  obtain ⟨hprev, hnext⟩ := hq.near l pre n post hl
  obtain ⟨fhead, ftail, fowner, fprev, fnext⟩ := front_spec hq hl
  have htail := hq.tail l
  have hnodup := hq.nodup l
  rw [hl, List.nodup_middle, List.nodup_cons, List.mem_append, not_or] at hnodup
  obtain ⟨⟨hpre, hpost⟩, -⟩ := hnodup
  have hpre' : some n ≠ pre.getLast? := fun heq => hpre (List.mem_of_getLast? heq.symm)
  have hpost' : some n ≠ post.head? := fun heq => hpost (List.mem_of_head? heq.symm)
  have hprev' := (fprev n hpost').trans hprev
  have hnext' : (RemoveFromLink.front l n h).next n = post.head? := by
    rw [fnext, if_neg hpre', hnext]
  rcases post with _ | ⟨b, post⟩
  · rw [hl, List.getLast?_concat] at htail
    rw [RemoveFromLink.back, ftail, if_pos htail]
    refine ⟨_, rfl, fhead, fun l' => ?_, fowner, fun m => ?_, fun m => ?_⟩
    · simp [Function.update_apply, hprev']
    · simp only [List.head?_nil]
      exact fprev m (Option.some_ne_none m)
    · simp only [writeAt_apply, hprev', fnext]
      split_ifs <;> rfl
  · have hend : pre ++ n :: b :: post = (pre ++ [n]) ++ b :: post := by
      rw [List.append_assoc, List.singleton_append]
    rw [hl, hend, List.getLast?_append_of_ne_nil _ (List.cons_ne_nil b post)] at htail
    have hne : h.tail l ≠ some n := by
      rw [htail]
      exact fun heq => hpost (List.mem_of_getLast? heq)
    rw [RemoveFromLink.back, ftail, if_neg hne, hnext']
    refine ⟨_, rfl, fhead, fun l' => ?_, fowner, fun m => ?_, fnext⟩
    · split_ifs with hll
      · rw [hll, List.getLast?_append_of_ne_nil _ (List.cons_ne_nil b post)]
        exact htail
      · rfl
    · simp only [Function.update_apply, hprev', List.head?_cons, Option.some.injEq]
      split_ifs with hm
      · rfl
      · exact fprev m fun heq => hm (Option.some.inj heq)

/-- `RemoveFromLink` takes the item out of its list, and no assertion fails. -/
theorem holds_removeFromLink (hq : h.Holds q) (hn : n ∈ q l) :
    ∃ h', RemoveFromLink n h = some h' ∧ h'.Holds (update q l ((q l).erase n)) := by
  obtain ⟨pre, post, hl⟩ := List.append_of_mem hn
  obtain ⟨h', hback, hpass⟩ := passes_back hq hl
  have hnodup := hq.nodup l
  rw [hl, List.nodup_middle, List.nodup_cons, List.mem_append, not_or] at hnodup
  have herase : (q l).erase n = pre ++ post := by
    rw [hl, List.erase_append_right _ hnodup.1.1, List.erase_cons_head]
  have hends : (h.head l).isSome = true ∧ (h.tail l).isSome = true := by
    rw [hq.head, hq.tail, hl]
    simp
  refine ⟨_, ?_, herase ▸ hpass.holds hq hl⟩
  rw [RemoveFromLink, (hq.owner n l).mpr hn]
  simp only [if_pos hends, hback, Option.map_some]

omit [DecidableEq L] in
/-- The loop of `Join` comes to every node of the list. -/
theorem relink_spec : ∀ {p : List N} {h : Links N L} {f : ℕ},
    (∀ pre m rest, p = pre ++ m :: rest → h.next m = rest.head?) → p.length ≤ f →
      ∃ h', relink l f p.head? h = some h' ∧ h'.head = h.head ∧ h'.tail = h.tail ∧
        h'.prev = h.prev ∧ h'.next = h.next ∧
        ∀ m, h'.owner m = if m ∈ p then some l else h.owner m
  | [], h, fuel, _, _ => ⟨h, by cases fuel <;> rfl, rfl, rfl, rfl, rfl, fun m => by simp⟩
  | a :: post, h, fuel, hnext, hfuel => by
    obtain ⟨fuel, rfl⟩ : ∃ k, fuel = k + 1 := ⟨fuel - 1, by simp at hfuel; omega⟩
    obtain ⟨h', hrelink, hhead, htail, hprev, hnext', howner⟩ := relink_spec (p := post)
      (h := { h with owner := update h.owner a (some l) }) (f := fuel)
      (fun pre m rest hsplit => hnext (a :: pre) m rest (by rw [hsplit]; rfl))
      (by simpa using hfuel)
    refine ⟨h', ?_, hhead, htail, hprev, hnext', fun m => ?_⟩
    · rw [List.head?_cons, relink, hnext [] a post rfl]
      exact hrelink
    · rw [howner]
      simp only [Function.update_apply, List.mem_cons]
      split_ifs <;> tauto

/-- There is nothing to join to. -/
theorem join_of_nil (hq : h.Holds q) (hl : q l' = []) (fuel : ℕ) : Join fuel l l' h = some h := by
  rw [Join, hq.head, hl]
  rfl

/-- `Join` appends a list to another and empties it. The walk takes one step for each of its
items. -/
theorem holds_join (hq : h.Holds q) (hne : l ≠ l') {fuel : ℕ} (hfuel : (q l').length ≤ fuel) :
    ∃ h', Join fuel l l' h = some h' ∧
      h'.Holds (update (update q l (q l ++ q l')) l' []) := by
  rcases hother : q l' with _ | ⟨a, post⟩
  · refine ⟨h, join_of_nil hq hother fuel, ?_⟩
    have hsame : update (update q l (q l ++ [])) l' [] = q := by
      rw [List.append_nil, Function.update_eq_self, ← hother, Function.update_eq_self]
    rw [hsame]
    exact hq
  · obtain ⟨h', hrelink, hhead, htail, hprev, hnext, howner⟩ := relink_spec (l := l) (h := h)
      (p := q l') (fun pre m rest hsplit => (hq.near l' pre m rest hsplit).2) hfuel
    have hh : h.head l' = some a := by rw [hq.head, hother]; rfl
    rw [hother, List.head?_cons] at hrelink
    rw [Join, hh]
    simp only [hrelink, Option.map_some]
    refine ⟨_, rfl, ?_⟩
    rw [← hother]
    have hend : (q l').getLast? ≠ none := by
      rw [hother]
      exact fun heq => List.cons_ne_nil a post (List.getLast?_eq_none_iff.mp heq)
    rcases hlast : h'.tail l with _ | t
    · have hnil : q l = [] := by
        rw [← List.getLast?_eq_none_iff, ← hq.tail, ← htail, hlast]
      refine hq.joined hne (fun m => ?_) (fun m => ?_) (fun m hm => ?_) (fun m hm => ?_)
        (fun m hm => ?_) (fun m hm => ?_) (fun m hm => ?_) fun m hm => ?_
      · simp only [Function.update_apply, hhead, hnil, List.nil_append, hq.head]
      · simp only [Function.update_apply, htail, hnil, List.nil_append, hq.tail]
      · simp only [howner, if_neg hm]
      · simp only [howner, if_pos hm]
      · simp only [hprev]
      · simp only [hprev, hnil, List.getLast?_nil]
        obtain ⟨rest, hrest⟩ : ∃ rest, q l' = m :: rest := by
          rw [hother] at hm ⊢
          exact ⟨post, by rw [Option.some.inj hm]⟩
        exact (hq.near l' [] m rest hrest).1
      · simp only [hnext]
      · rw [hnil] at hm
        exact absurd hm (Option.some_ne_none m)
    · have ht : (q l).getLast? = some t := by rw [← hq.tail, ← htail, hlast]
      refine hq.joined hne (fun m => ?_) (fun m => ?_) (fun m hm => ?_) (fun m hm => ?_)
        (fun m hm => ?_) (fun m hm => ?_) (fun m hm => ?_) fun m hm => ?_
      · simp only [Function.update_apply, hhead]
        split_ifs with h1 h2
        · rfl
        · rw [h2, hq.head]
          rcases hql : q l with _ | ⟨b, rest⟩
          · rw [hql] at ht
            exact absurd ht.symm (Option.some_ne_none t)
          · rfl
        · rfl
      · simp only [Function.update_apply, htail, hq.tail]
        split_ifs with h1 h2
        · rfl
        · rw [List.getLast?_append_of_ne_nil _ (by rw [hother]; exact List.cons_ne_nil a post)]
        · rfl
      · simp only [howner, if_neg hm]
      · simp only [howner, if_pos hm]
      · have hma : m ≠ a := fun heq => hm (by rw [hother, heq]; rfl)
        simp only [Function.update_of_ne hma, hprev]
      · obtain rfl : m = a := Option.some.inj (by rw [hm, hother]; rfl)
        simp only [Function.update_self, ht]
      · have hmt : m ≠ t := fun heq => hm (by rw [ht, heq])
        simp only [Function.update_of_ne hmt, hnext]
      · obtain rfl : m = t := Option.some.inj (hm.trans ht)
        simp only [Function.update_self, hother, List.head?_cons]

/-! ## Whole runs -/

/-- What is done with the lists. -/
inductive LinkOp (N L : Type)
  /-- `ap` goes to the end of `apLink`. -/
  | addTail (apLink : L) (ap : N)
  /-- The first of `apLink` leaves it. -/
  | popHead (apLink : L)
  /-- `apOther` goes behind `apLink`. -/
  | join (apLink apOther : L)
  /-- `ap` leaves its list, if it is in one. -/
  | removeFromLink (ap : N)

namespace LinkOp

/-- What an operation does to the pointers. -/
def run (fuel : ℕ) (h : Links N L) : LinkOp N L → Option (Links N L)
  | addTail l n => some (AddTail l n h)
  | popHead l => some (PopHead l h)
  | join l l' => Join fuel l l' h
  | removeFromLink n => RemoveFromLink n h

open Classical in
/-- What is meant : nodes are added that are in no list. -/
noncomputable def meant (q : L → List N) : LinkOp N L → L → List N
  | addTail l n => if ∃ l', n ∈ q l' then q else update q l (q l ++ [n])
  | popHead l => update q l (q l).tail
  | join l l' => update (update q l (q l ++ q l')) l' []
  | removeFromLink n => fun l => (q l).erase n

/-- The node that is added. -/
def added : LinkOp N L → Option N
  | addTail _ n => some n
  | _ => none

omit [DecidableEq N] [DecidableEq L] in
/-- An item has no owner exactly when it is in no list. -/
theorem owner_eq_none_iff (hq : h.Holds q) : h.owner n = none ↔ ¬∃ l, n ∈ q l := by
  rw [Option.eq_none_iff_forall_ne_some, not_exists]
  exact forall_congr' fun l => not_congr (hq.owner n l)

/-- A node that is in no list may be removed too. -/
theorem holds_removed (hq : h.Holds q) (n : N) :
    ∃ h', RemoveFromLink n h = some h' ∧ h'.Holds fun l => (q l).erase n := by
  by_cases hin : ∃ l, n ∈ q l
  · obtain ⟨l, hl⟩ := hin
    obtain ⟨h', hrun, h''⟩ := holds_removeFromLink hq hl
    refine ⟨h', hrun, ?_⟩
    have hsame : (fun l => (q l).erase n) = update q l ((q l).erase n) := by
      ext1 k
      rcases eq_or_ne k l with rfl | hk
      · rw [Function.update_self]
      · rw [Function.update_of_ne hk]
        exact List.erase_of_not_mem fun hk' => hk (hq.unique hk' hl)
    rw [hsame]
    exact h''
  · refine ⟨h, removeFromLink_of_owner ((owner_eq_none_iff hq).mpr hin), ?_⟩
    have hsame : (fun l => (q l).erase n) = q := by
      ext1 k
      exact List.erase_of_not_mem fun hk => hin ⟨k, hk⟩
    rw [hsame]
    exact hq

/-- One operation. -/
theorem holds_run (hq : h.Holds q) {op : LinkOp N L} (hjoin : ∀ l, op ≠ .join l l) {fuel : ℕ}
    (hfuel : ∀ l, (q l).length ≤ fuel) : ∃ h', op.run fuel h = some h' ∧ h'.Holds (op.meant q) := by
  cases op with
  | addTail l n =>
    refine ⟨_, rfl, ?_⟩
    rw [meant]
    split_ifs with hin
    · have hn : h.owner n ≠ none := fun heq => (owner_eq_none_iff hq).mp heq hin
      rw [addTail_of_owner hn]
      exact hq
    · exact holds_addTail hq ((owner_eq_none_iff hq).mpr hin)
  | popHead l =>
    refine ⟨_, rfl, ?_⟩
    rw [meant]
    rcases hl : q l with _ | ⟨a, rest⟩
    · rw [popHead_of_nil hq hl, List.tail_nil, ← hl, Function.update_eq_self]
      exact hq
    · exact holds_popHead hq hl
  | join l l' => exact holds_join hq (fun heq => hjoin l (by rw [heq])) (hfuel l')
  | removeFromLink n => exact holds_removed hq n

/-- Only what was added is in a list. -/
theorem mem_meant {op : LinkOp N L} (hn : n ∈ op.meant q l) :
    (∃ l', n ∈ q l') ∨ op.added = some n := by
  cases op with
  | addTail k m =>
    rw [meant] at hn
    split_ifs at hn
    · exact Or.inl ⟨l, hn⟩
    · rcases eq_or_ne l k with rfl | hk
      · rw [Function.update_self, List.mem_append, List.mem_singleton] at hn
        rcases hn with hn | rfl
        · exact Or.inl ⟨l, hn⟩
        · exact Or.inr rfl
      · rw [Function.update_of_ne hk] at hn
        exact Or.inl ⟨l, hn⟩
  | popHead k =>
    rw [meant] at hn
    rcases eq_or_ne l k with rfl | hk
    · rw [Function.update_self] at hn
      exact Or.inl ⟨l, List.mem_of_mem_tail hn⟩
    · rw [Function.update_of_ne hk] at hn
      exact Or.inl ⟨l, hn⟩
  | join k k' =>
    rw [meant] at hn
    rcases eq_or_ne l k' with rfl | hk'
    · rw [Function.update_self] at hn
      exact absurd hn List.not_mem_nil
    · rw [Function.update_of_ne hk'] at hn
      rcases eq_or_ne l k with rfl | hk
      · rw [Function.update_self, List.mem_append] at hn
        exact hn.elim (fun hn => Or.inl ⟨l, hn⟩) fun hn => Or.inl ⟨k', hn⟩
      · rw [Function.update_of_ne hk] at hn
        exact Or.inl ⟨l, hn⟩
  | removeFromLink m => exact Or.inl ⟨l, List.mem_of_mem_erase hn⟩

/-- What is in a list was added at some time. -/
theorem mem_added {ops : List (LinkOp N L)} (hn : n ∈ ops.foldl meant (fun _ => []) l) :
    n ∈ ops.filterMap added := by
  induction ops using List.reverseRecOn generalizing l with
  | nil => exact absurd hn List.not_mem_nil
  | append_singleton ops op ih =>
    rw [List.foldl_append] at hn
    rw [List.filterMap_append, List.mem_append]
    rcases mem_meant hn with ⟨l', hn⟩ | hadded
    · exact Or.inl (ih hn)
    · exact Or.inr (by simp [hadded])

/-- Whatever is done with the lists, no pointer is null that is used, no assertion fails, every
walk ends, and the pointers hold the lists that are meant. A list is not joined to itself. -/
theorem run_links {ops : List (LinkOp N L)} (hjoin : ∀ l, .join l l ∉ ops) {fuel : ℕ}
    (hfuel : ops.length ≤ fuel) :
    ∃ h, Moves.run (run fuel) Links.empty ops = some h ∧ h.Holds (ops.foldl meant fun _ => []) := by
  induction ops using List.reverseRecOn with
  | nil => exact ⟨_, rfl, Links.holds_empty⟩
  | append_singleton ops op ih =>
    rw [List.length_append, List.length_singleton] at hfuel
    obtain ⟨h, hrun, hq⟩ := ih (fun l hl => hjoin l (List.mem_append_left _ hl)) (by omega)
    have hlength : ∀ l, (ops.foldl meant (fun _ => []) l).length ≤ fuel := by
      intro l
      have hsub := List.subperm_of_subset (hq.nodup l) fun n hn => mem_added hn
      have hle := hsub.length_le
      have hle' := List.length_filterMap_le added ops
      omega
    obtain ⟨h', hstep, h''⟩ := holds_run hq
      (fun l heq => hjoin l (heq ▸ List.mem_append_right _ (List.mem_singleton_self op)))
      hlength
    refine ⟨h', ?_, ?_⟩
    · rw [Moves.run_append, hrun, Option.bind_some]
      exact Moves.run_cons_eq_some.mpr ⟨h', hstep, rfl⟩
    · rw [List.foldl_append]
      exact h''

/-- Two lists, one of which takes over the other and loses a node. -/
def joining : List (LinkOp ℕ Bool) :=
  [.addTail true 1, .addTail false 2, .addTail false 3, .join true false, .removeFromLink 2]

/-- The node 3 is behind the node 1. -/
theorem run_links_joining : ∃ h : Links ℕ Bool, Moves.run (run 5) Links.empty joining = some h ∧
    h.next 1 = some 3 ∧ h.Holds (joining.foldl meant fun _ => []) := by
  have hjoin : ∀ l, .join l l ∉ joining := by simp [joining]
  obtain ⟨h, hrun, hq⟩ := run_links hjoin (Nat.le_refl 5)
  have hnext : (Moves.run (run 5) Links.empty joining).map (fun h => h.next 1) = some (some 3) := by
    decide +kernel
  rw [hrun] at hnext
  exact ⟨h, hrun, Option.some.inj hnext, hq⟩

end LinkOp

end WzxServer
