import Mathlib.Data.List.Nodup
import Mathlib.Logic.Function.Basic

/-!
# Intrusive lists

Nodes that carry the pointers of the list they are in : its neighbours and the list itself.
A list has pointers to its ends. `Links` are these pointers, for nodes `N` and lists `L`, and
`Links.Holds` says that they hold the lists `q`. A node is in one list at most.

The rules look at a list around a node : `Holds.near` are the neighbours of a node, and
`Holds.concat`, `Holds.cut` and `Holds.joined` say which pointers have to be written for a list to
grow at its end, to lose a node, or to take over an other one.

What is written is described by the pointers afterwards and not by the order of the writes, so a
function may make them in any order, and leave those of a node that left its list as they were.
-/

/-- The pointers of intrusive lists. -/
structure Links (N L : Type) where
  prev : N → Option N
  next : N → Option N
  owner : N → Option L
  head : L → Option N
  tail : L → Option N

namespace Links

variable {N L : Type}

/-- No list has a node. -/
def empty : Links N L :=
  ⟨fun _ => none, fun _ => none, fun _ => none, fun _ => none, fun _ => none⟩

/-- The pointers hold the lists `q`. -/
structure Holds (h : Links N L) (q : L → List N) : Prop where
  head : ∀ l, h.head l = (q l).head?
  tail : ∀ l, h.tail l = (q l).getLast?
  /-- A node points to the list that it is in. -/
  owner : ∀ n l, h.owner n = some l ↔ n ∈ q l
  nodup : ∀ l, (q l).Nodup
  /-- And to its neighbours in this list. -/
  near : ∀ l pre n post, q l = pre ++ n :: post →
    h.prev n = pre.getLast? ∧ h.next n = post.head?

/-- Without items all chains are empty. -/
theorem holds_empty : (empty : Links N L).Holds fun _ => [] :=
  ⟨fun _ => rfl, fun _ => rfl, fun _ _ => by simp [empty], fun _ => List.nodup_nil,
    fun _ _ _ _ h => by simp at h⟩

/-- A node of a list that was put together is in one of its parts. -/
theorem split_append {a b pre post : List N} {n : N} (h : a ++ b = pre ++ n :: post) :
    (∃ post', post = post' ++ b ∧ a = pre ++ n :: post') ∨
      ∃ pre', pre = a ++ pre' ∧ b = pre' ++ n :: post := by
  rcases List.append_eq_append_iff.mp h with ⟨pre', hpre, hb⟩ | ⟨c, ha, hc⟩
  · exact Or.inr ⟨pre', hpre, hb⟩
  · rcases List.cons_eq_append_iff.mp hc with ⟨rfl, hb⟩ | ⟨post', rfl, hpost⟩
    · exact Or.inr ⟨[], by rw [ha, List.append_nil, List.append_nil], hb⟩
    · exact Or.inl ⟨post', hpost, ha⟩

namespace Holds

variable {h h' : Links N L} {q : L → List N} {n : N} {l l' : L}

/-- An item is in one chain. -/
theorem unique (hq : h.Holds q) (hn : n ∈ q l) (hn' : n ∈ q l') : l = l' :=
  Option.some.inj (((hq.owner n l).mpr hn).symm.trans ((hq.owner n l').mpr hn'))

/-- An item without an owner is in none. -/
theorem notMem_of_owner (hq : h.Holds q) (hn : h.owner n = none) (l : L) : n ∉ q l := by
  intro hmem
  have := (hq.owner n l).mpr hmem
  rw [hn] at this
  exact absurd this.symm (Option.some_ne_none l)

variable [DecidableEq L]

/-- A node is added at the end. -/
theorem concat (hq : h.Holds q) (hn : h.owner n = none)
    (hhead : ∀ l', h'.head l' = if l' = l then some ((q l).head?.getD n) else h.head l')
    (htail : ∀ l', h'.tail l' = if l' = l then some n else h.tail l')
    (howner : ∀ m, m ≠ n → h'.owner m = h.owner m) (howner' : h'.owner n = some l)
    (hprev : ∀ m, m ≠ n → h'.prev m = h.prev m) (hprev' : h'.prev n = (q l).getLast?)
    (hnext : ∀ m, m ≠ n → some m ≠ (q l).getLast? → h'.next m = h.next m)
    (hnext' : ∀ m, some m = (q l).getLast? → h'.next m = some n) (hnext'' : h'.next n = none) :
    h'.Holds (Function.update q l (q l ++ [n])) := by
  have hnew : ∀ l', n ∉ q l' := hq.notMem_of_owner hn
  refine ⟨fun l' => ?_, fun l' => ?_, fun m l' => ?_, fun l' => ?_, ?_⟩
  · rw [hhead]
    rcases eq_or_ne l' l with rfl | hl
    · rw [if_pos rfl, Function.update_self]
      rcases q l' with _ | ⟨m, rest⟩ <;> rfl
    · rw [if_neg hl, Function.update_of_ne hl, hq.head]
  · rw [htail]
    rcases eq_or_ne l' l with rfl | hl
    · rw [if_pos rfl, Function.update_self, List.getLast?_concat]
    · rw [if_neg hl, Function.update_of_ne hl, hq.tail]
  · rcases eq_or_ne l' l with rfl | hl
    · rw [Function.update_self, List.mem_append, List.mem_singleton]
      rcases eq_or_ne m n with rfl | hm
      · simp [howner']
      · rw [howner m hm, hq.owner]
        simp [hm]
    · rw [Function.update_of_ne hl]
      rcases eq_or_ne m n with rfl | hm
      · rw [howner', Option.some.injEq]
        exact ⟨fun heq => absurd heq.symm hl, fun hmem => absurd hmem (hnew l')⟩
      · rw [howner m hm, hq.owner]
  · rcases eq_or_ne l' l with rfl | hl
    · rw [Function.update_self]
      exact List.Nodup.append (hq.nodup l') (List.nodup_singleton n)
        (List.disjoint_singleton.mpr (hnew l'))
    · rw [Function.update_of_ne hl]
      exact hq.nodup l'
  · intro l' pre m post hsplit
    rcases eq_or_ne l' l with rfl | hl
    · rw [Function.update_self] at hsplit
      rcases split_append hsplit with ⟨post', rfl, hold⟩ | ⟨pre', rfl, hlast⟩
      · -- a node that was there before
        have hm : m ≠ n := fun heq => hnew l' (heq ▸ hold ▸ List.mem_append_right _
          List.mem_cons_self)
        obtain ⟨hp, hs⟩ := hq.near l' pre m post' hold
        refine ⟨(hprev m hm).trans hp, ?_⟩
        rcases post' with _ | ⟨m', post'⟩
        · rw [hnext' m (by rw [hold, List.getLast?_concat])]
          rfl
        · rw [hnext m hm, hs]
          · rfl
          · intro hlast
            have hend : q l' = (pre ++ [m]) ++ m' :: post' := by
              rw [hold, List.append_assoc, List.singleton_append]
            rw [hend, List.getLast?_append_of_ne_nil _ (List.cons_ne_nil m' post')] at hlast
            have hmem : m ∈ m' :: post' := List.mem_of_getLast? hlast.symm
            have hnodup := hq.nodup l'
            rw [hold, List.nodup_append, List.nodup_cons] at hnodup
            exact hnodup.2.1.1 hmem
      · rcases pre' with _ | ⟨m', pre'⟩
        · obtain ⟨rfl, rfl⟩ := List.cons_eq_cons.mp hlast
          exact ⟨by rw [hprev', List.append_nil], hnext''⟩
        · have hnil := (List.cons_eq_cons.mp hlast).2
          exact absurd hnil.symm (List.append_ne_nil_of_right_ne_nil _ (List.cons_ne_nil _ _))
    · rw [Function.update_of_ne hl] at hsplit
      have hmem : m ∈ q l' := hsplit ▸ List.mem_append_right _ List.mem_cons_self
      have hm : m ≠ n := fun heq => hnew l' (heq ▸ hmem)
      obtain ⟨hp, hs⟩ := hq.near l' pre m post hsplit
      refine ⟨(hprev m hm).trans hp, (hnext m hm fun hlast => hl ?_).trans hs⟩
      exact hq.unique hmem (List.mem_of_getLast? hlast.symm)

/-- A node is taken out. -/
theorem cut (hq : h.Holds q) {pre post : List N} (hl : q l = pre ++ n :: post)
    (hhead : ∀ l', h'.head l' = if l' = l then (pre ++ post).head? else h.head l')
    (htail : ∀ l', h'.tail l' = if l' = l then (pre ++ post).getLast? else h.tail l')
    (howner : ∀ m, m ≠ n → h'.owner m = h.owner m) (howner' : h'.owner n = none)
    (hprev : ∀ m, m ≠ n → some m ≠ post.head? → h'.prev m = h.prev m)
    (hprev' : ∀ m, some m = post.head? → h'.prev m = pre.getLast?)
    (hnext : ∀ m, m ≠ n → some m ≠ pre.getLast? → h'.next m = h.next m)
    (hnext' : ∀ m, some m = pre.getLast? → h'.next m = post.head?) :
    h'.Holds (Function.update q l (pre ++ post)) := by
  have hnodup := hq.nodup l
  rw [hl, List.nodup_middle, List.nodup_cons] at hnodup
  obtain ⟨hnew, hrest⟩ := hnodup
  have hmem : ∀ m, m ∈ q l ↔ m = n ∨ m ∈ pre ++ post := by
    intro m
    rw [hl, List.mem_append, List.mem_append, List.mem_cons]
    tauto
  refine ⟨fun l' => ?_, fun l' => ?_, fun m l' => ?_, fun l' => ?_, ?_⟩
  · rw [hhead]
    rcases eq_or_ne l' l with rfl | hne
    · rw [if_pos rfl, Function.update_self]
    · rw [if_neg hne, Function.update_of_ne hne, hq.head]
  · rw [htail]
    rcases eq_or_ne l' l with rfl | hne
    · rw [if_pos rfl, Function.update_self]
    · rw [if_neg hne, Function.update_of_ne hne, hq.tail]
  · rcases eq_or_ne m n with rfl | hm
    · rw [howner']
      refine ⟨fun heq => absurd heq.symm (Option.some_ne_none l'), fun hin => ?_⟩
      rcases eq_or_ne l' l with rfl | hne
      · rw [Function.update_self] at hin
        exact absurd hin hnew
      · rw [Function.update_of_ne hne] at hin
        exact absurd (hq.unique hin ((hmem m).mpr (Or.inl rfl))) hne
    · rw [howner m hm, hq.owner]
      rcases eq_or_ne l' l with rfl | hne
      · rw [Function.update_self, hmem]
        exact or_iff_right hm
      · rw [Function.update_of_ne hne]
  · rcases eq_or_ne l' l with rfl | hne
    · rw [Function.update_self]
      exact hrest
    · rw [Function.update_of_ne hne]
      exact hq.nodup l'
  · intro l' before m after hsplit
    rcases eq_or_ne l' l with rfl | hne
    · rw [Function.update_self] at hsplit
      have hm : m ≠ n := fun heq => hnew (heq ▸ hsplit ▸ List.mem_append_right _
        List.mem_cons_self)
      rcases split_append hsplit with ⟨after', rfl, rfl⟩ | ⟨before', rfl, rfl⟩
      · -- a node in front of the one that is taken out
        have hold : q l' = before ++ m :: (after' ++ n :: post) := by
          rw [hl, List.append_assoc, List.cons_append]
        obtain ⟨hp, hs⟩ := hq.near l' _ m _ hold
        have hpost : some m ≠ post.head? := by
          intro heq
          have hin := List.mem_of_head? heq.symm
          rw [List.nodup_append] at hrest
          exact hrest.2.2 m (List.mem_append_right _ List.mem_cons_self) m hin rfl
        refine ⟨(hprev m hm hpost).trans hp, ?_⟩
        rcases after' with _ | ⟨m', after'⟩
        · rw [hnext' m (by rw [List.getLast?_concat])]
          rfl
        · rw [hnext m hm, hs]
          · rfl
          · intro heq
            have hend : before ++ m :: m' :: after' = (before ++ [m]) ++ m' :: after' := by
              rw [List.append_assoc, List.singleton_append]
            rw [hend, List.getLast?_append_of_ne_nil _ (List.cons_ne_nil m' after')] at heq
            have hin := List.mem_of_getLast? heq.symm
            rw [List.nodup_append, List.nodup_append, List.nodup_cons] at hrest
            exact hrest.1.2.1.1 hin
      · -- a node behind it
        have hold : q l' = (pre ++ n :: before') ++ m :: after := by
          rw [hl, List.append_assoc, List.cons_append]
        obtain ⟨hp, hs⟩ := hq.near l' _ m _ hold
        have hpre : some m ≠ pre.getLast? := by
          intro heq
          have hin := List.mem_of_getLast? heq.symm
          rw [List.nodup_append] at hrest
          exact hrest.2.2 m hin m (List.mem_append_right _ List.mem_cons_self) rfl
        refine ⟨?_, (hnext m hm hpre).trans hs⟩
        rcases before' with _ | ⟨m', before'⟩
        · rw [hprev' m rfl, List.append_nil]
        · rw [hprev m hm, hp]
          · rw [List.getLast?_append_of_ne_nil _ (List.cons_ne_nil n _),
              List.getLast?_append_of_ne_nil _ (List.cons_ne_nil m' _),
              List.getLast?_cons_cons]
          · intro heq
            obtain rfl := Option.some.inj heq
            rw [List.nodup_append, List.cons_append, List.nodup_cons] at hrest
            exact hrest.2.1.1 (List.mem_append_right _ List.mem_cons_self)
    · rw [Function.update_of_ne hne] at hsplit
      have hin : m ∈ q l' := hsplit ▸ List.mem_append_right _ List.mem_cons_self
      have hout : ∀ m', m' ∈ q l → m ≠ m' := by
        rintro m' hm' rfl
        exact hne (hq.unique hin hm')
      obtain ⟨hp, hs⟩ := hq.near l' before m after hsplit
      refine ⟨(hprev m (hout n ((hmem n).mpr (Or.inl rfl))) fun heq => ?_).trans hp,
        (hnext m (hout n ((hmem n).mpr (Or.inl rfl))) fun heq => ?_).trans hs⟩
      · exact hout m ((hmem m).mpr (Or.inr (List.mem_append_right _
          (List.mem_of_head? heq.symm)))) rfl
      · exact hout m ((hmem m).mpr (Or.inr (List.mem_append_left _
          (List.mem_of_getLast? heq.symm)))) rfl

/-- A list takes over the nodes of an other one. -/
theorem joined (hq : h.Holds q) (hne : l ≠ l')
    (hhead : ∀ m, h'.head m =
      if m = l' then none else if m = l then (q l ++ q l').head? else h.head m)
    (htail : ∀ m, h'.tail m =
      if m = l' then none else if m = l then (q l ++ q l').getLast? else h.tail m)
    (howner : ∀ m, m ∉ q l' → h'.owner m = h.owner m)
    (howner' : ∀ m, m ∈ q l' → h'.owner m = some l)
    (hprev : ∀ m, some m ≠ (q l').head? → h'.prev m = h.prev m)
    (hprev' : ∀ m, some m = (q l').head? → h'.prev m = (q l).getLast?)
    (hnext : ∀ m, some m ≠ (q l).getLast? → h'.next m = h.next m)
    (hnext' : ∀ m, some m = (q l).getLast? → h'.next m = (q l').head?) :
    h'.Holds (Function.update (Function.update q l (q l ++ q l')) l' []) := by
  have hapart : ∀ m, m ∈ q l → m ∉ q l' := fun m hm hm' => hne (hq.unique hm hm')
  have hself : Function.update (Function.update q l (q l ++ q l')) l' [] l = q l ++ q l' := by
    rw [Function.update_of_ne hne, Function.update_self]
  have hother : ∀ k, k ≠ l → k ≠ l' →
      Function.update (Function.update q l (q l ++ q l')) l' [] k = q k := fun k hk hk' => by
    rw [Function.update_of_ne hk', Function.update_of_ne hk]
  refine ⟨fun k => ?_, fun k => ?_, fun m k => ?_, fun k => ?_, ?_⟩
  · rw [hhead]
    rcases eq_or_ne k l' with rfl | hk'
    · rw [if_pos rfl, Function.update_self]
      rfl
    · rcases eq_or_ne k l with rfl | hk
      · rw [if_neg hk', if_pos rfl, hself]
      · rw [if_neg hk', if_neg hk, hother k hk hk', hq.head]
  · rw [htail]
    rcases eq_or_ne k l' with rfl | hk'
    · rw [if_pos rfl, Function.update_self]
      rfl
    · rcases eq_or_ne k l with rfl | hk
      · rw [if_neg hk', if_pos rfl, hself]
      · rw [if_neg hk', if_neg hk, hother k hk hk', hq.tail]
  · by_cases hm : m ∈ q l'
    · rw [howner' m hm, Option.some.injEq]
      constructor
      · rintro rfl
        rw [hself]
        exact List.mem_append_right _ hm
      · intro hin
        by_contra hk
        rcases eq_or_ne k l' with rfl | hk'
        · rw [Function.update_self] at hin
          exact List.not_mem_nil hin
        · rw [hother k (Ne.symm hk) hk'] at hin
          exact hk' (hq.unique hin hm)
    · rw [howner m hm, hq.owner]
      rcases eq_or_ne k l' with rfl | hk'
      · rw [Function.update_self]
        exact ⟨fun h => absurd h hm, fun h => absurd h List.not_mem_nil⟩
      · rcases eq_or_ne k l with rfl | hk
        · rw [hself, List.mem_append]
          exact (or_iff_left hm).symm
        · rw [hother k hk hk']
  · rcases eq_or_ne k l' with rfl | hk'
    · rw [Function.update_self]
      exact List.nodup_nil
    · rcases eq_or_ne k l with rfl | hk
      · rw [hself]
        exact List.Nodup.append (hq.nodup k) (hq.nodup l') fun m hm hm' => hapart m hm hm'
      · rw [hother k hk hk']
        exact hq.nodup k
  · intro k before m after hsplit
    rcases eq_or_ne k l' with rfl | hk'
    · rw [Function.update_self] at hsplit
      exact absurd hsplit.symm (List.append_ne_nil_of_right_ne_nil _ (List.cons_ne_nil _ _))
    · rcases eq_or_ne k l with rfl | hk
      · rw [hself] at hsplit
        rcases split_append hsplit with ⟨after', rfl, hold⟩ | ⟨before', rfl, hold⟩
        · -- a node that was there before
          obtain ⟨hp, hs⟩ := hq.near k _ m _ hold
          have hin : m ∈ q k := hold ▸ List.mem_append_right _ List.mem_cons_self
          refine ⟨(hprev m fun heq => hapart m hin (List.mem_of_head? heq.symm)).trans hp, ?_⟩
          rcases after' with _ | ⟨m', after'⟩
          · rw [hnext' m (by rw [hold, List.getLast?_concat])]
            rfl
          · rw [hnext m, hs]
            · rfl
            · intro heq
              have hend : q k = (before ++ [m]) ++ m' :: after' := by
                rw [hold, List.append_assoc, List.singleton_append]
              rw [hend, List.getLast?_append_of_ne_nil _ (List.cons_ne_nil m' after')] at heq
              have hmem := List.mem_of_getLast? heq.symm
              have hnodup := hq.nodup k
              rw [hold, List.nodup_append, List.nodup_cons] at hnodup
              exact hnodup.2.1.1 hmem
        · -- a node that comes over
          obtain ⟨hp, hs⟩ := hq.near l' _ m _ hold
          have hin : m ∈ q l' := hold ▸ List.mem_append_right _ List.mem_cons_self
          refine ⟨?_, (hnext m fun heq => hapart m (List.mem_of_getLast? heq.symm) hin).trans hs⟩
          rcases before' with _ | ⟨m', before'⟩
          · rw [hprev' m (by rw [hold]; rfl), List.append_nil]
          · rw [hprev m, hp, List.getLast?_append_of_ne_nil _ (List.cons_ne_nil m' _)]
            intro heq
            have hnodup := hq.nodup l'
            rw [hold] at heq hnodup
            obtain rfl := Option.some.inj heq
            rw [List.cons_append, List.nodup_cons] at hnodup
            exact hnodup.1 (List.mem_append_right _ List.mem_cons_self)
      · rw [hother k hk hk'] at hsplit
        obtain ⟨hp, hs⟩ := hq.near k before m after hsplit
        have hin : m ∈ q k := hsplit ▸ List.mem_append_right _ List.mem_cons_self
        refine ⟨(hprev m fun heq => ?_).trans hp, (hnext m fun heq => ?_).trans hs⟩
        · exact hk' (hq.unique hin (List.mem_of_head? heq.symm))
        · exact hk (hq.unique hin (List.mem_of_getLast? heq.symm))

end Holds

end Links
