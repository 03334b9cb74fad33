import WzxServer.CoLoop

/-!
# What the coroutines and the event loop keep

Each move of the coroutines and of the event loop keeps the invariant of `CoLoop`, and does
nothing undefined. So do whole runs : `run_sound`.

There is one lemma for each move (`goes_create`, `goes_poll`, `goes_timedwait`, `goes_signal`,
`goes_broadcast`, `goes_finish`, `goes_event`, `goes_take`, `pop_spec`), which says that the
move is made and that the invariant holds afterwards. They all have the same shape : the lists
are changed by the rules of `CoLinks` and `CoTimeout`, the times of the items by `Times`, and
who is in which list is read off what was put in and what was taken out.

The hard moves are the signal and the end of a time. A signal takes an item from its condition
variable and puts it behind the active ones, wherever it was before : in the wheel, in no list,
or among the active ones already (`inv_signal`). An active item whose time is not over goes back
into the wheel (`pop_spec`), since the wheel has 60000 slots of a millisecond and takes what is
later into its last one.
-/

namespace WzxServer

open Function (update)

variable {N C K : Type} [DecidableEq N] [DecidableEq C] [DecidableEq K]

/-- New memory is in no list. -/
theorem holds_zeroItem {L : Type} {h : Links N L} {q : L → List N} (hq : h.Holds q) {n : N}
    (hn : ∀ l, n ∉ q l) : (zeroItem n h).Holds q := by
  refine ⟨hq.head, hq.tail, fun m l => ?_, hq.nodup, fun l pre m post hl => ?_⟩
  · rcases eq_or_ne m n with rfl | hm
    · simp [zeroItem, hn l]
    · rw [← hq.owner m l, zeroItem]
      simp only [Function.update_of_ne hm]
  · have hm : m ≠ n := fun heq => hn l (by rw [hl, heq]; simp)
    simp only [zeroItem, Function.update_of_ne hm]
    exact hq.near l pre m post hl

/-- New memory changes no list. -/
theorem CoEpoll.Keeps.alloc {ep : CoEpoll N} {a : Agenda N} {idx : ℕ} {n : N}
    (hk : ep.Keeps a idx) (hn : n ∉ a.items) (ullExpireTime : ℕ) :
    (ep.alloc n ullExpireTime).Keeps a idx :=
  ⟨holds_zeroItem hk.holds fun l hl => hn (mem_queues.mp ⟨l, hl⟩), hk.start, hk.llStartIdx,
    hk.bound, hk.positive, hk.bounded, hk.size, hk.within, hk.nodup⟩

namespace CoEnv

variable {main : K} {rank : K → ℕ} {used fuel : ℕ} {s : CoEnv N C K} {a a' : Agenda N}
  {w w' : C → List N} {n : N} {k : K}

/-- A move is made, and keeps the invariant. -/
def Goes (main : K) (rank : K → ℕ) (used fuel : ℕ) (s : CoEnv N C K) (m : CoMove N C K) : Prop :=
  ∃ s', s.step fuel m = some s' ∧ ∃ a w, Inv main rank (used + 1) s' a w

/-- A coroutine is created and runs. -/
theorem goes_create (hinv : Inv main rank used s a w) {co : K}
    (hcan : Can main rank s (.create co)) : Goes main rank used fuel s (.create co) := by
  obtain ⟨-, hstart, hout, hbound, hrank⟩ := hcan
  have hend : s.cEnd co = false := by
    rw [← Bool.not_eq_true]
    intro h
    have := hinv.calls.ended co h
    rw [hstart] at this
    exact Bool.false_ne_true this
  have hlow : ∀ k ∈ s.pCallStack, rank k < rank co := by
    have hsorted := hinv.calls.sorted
    rcases hs : s.pCallStack with _ | ⟨top, rest⟩
    · simp
    · rw [hs] at hrank hsorted
      have htop := hrank top rfl
      rw [List.pairwise_cons] at hsorted
      refine List.forall_mem_cons.mpr ⟨htop, fun k hk => ?_⟩
      exact (hsorted.1 k hk).trans htop
  have hlength : ¬128 ≤ s.pCallStack.length := by
    rcases hs : s.pCallStack with _ | ⟨top, rest⟩
    · simp
    · have htop := hlow top (by rw [hs]; exact List.mem_cons_self)
      have hle := length_le_of_sorted hinv.calls.sorted top (by rw [hs]; rfl)
      rw [hs] at hle
      omega
  refine ⟨{ s with cStart := update s.cStart co true, pCallStack := co :: s.pCallStack }, ?_, a, w,
    ?_⟩
  · show s.co_resume co = _
    rw [co_resume, if_neg (by simp [hend, hout, hlength])]
  · refine { hinv.mono (Nat.le_succ used) with
      ties := ⟨hinv.ties.owns, hinv.ties.linked, hinv.ties.queued, hinv.ties.polled,
        hinv.ties.timed⟩
      calls := hinv.calls.push rfl rfl rfl hend ?_ (fun _ _ => rfl) hlow
      times := ⟨hinv.times.pending, hinv.times.late, hinv.times.raised, hinv.times.quiet,
        hinv.times.signalled, hinv.times.untimed, hinv.times.expires,
      hinv.times.now_le⟩ }
    refine Option.eq_none_iff_forall_ne_some.mpr fun t hk => ?_
    have := (hinv.calls.suspended co t hk).2.1
    rw [hstart] at this
    exact Bool.false_ne_true this

omit [DecidableEq N] [DecidableEq C] [DecidableEq K] in
/-- Memory that is freed at once. -/
theorem Times.alloc (ht : Times s a w) (hties : Ties s a w) (hout : s.pArg n = none)
    {s' : CoEnv N C K} (hwaits : s'.waits = s.waits) (hframe : s'.frame = s.frame)
    (hloop : s'.loop = s.loop) (hexpire : ∀ m, m ≠ n → s'.ep.ullExpireTime m = s.ep.ullExpireTime m)
    (hlate : ∀ m, m ≠ n → s'.ep.bTimeout m = s.ep.bTimeout m)
    (hdetach : s'.iAllEventDetach = s.iAllEventDetach) (hraise : s'.iRaiseCnt = s.iRaiseCnt) :
    Times s' a w := by
  have hitems := (hties.unused hout).1
  have hlive : ∀ k t, s.waits k = some t → t.item ≠ n := by
    rintro k t hk rfl
    have := hties.owns k t hk
    rw [hout] at this
    exact absurd this.symm (Option.some_ne_none k)
  refine ⟨fun p hp => ?_, fun m hm hb => ?_, fun k m hk hm => ?_, fun k m hk hm => ?_,
    fun k c ms m hk hm => ?_, fun k c ms m hk hms => ?_, fun k t hk => ?_,
    fun now hnow => ht.now_le now (hloop ▸ hnow)⟩
  · have hne : p.1 ≠ n := by
      rintro rfl
      exact hitems (List.mem_append_left _ (List.mem_append_left _ (List.mem_map_of_mem hp)))
    rw [hexpire _ hne, hlate _ hne]
    exact ht.pending p hp
  · have hne : m ≠ n := by
      rintro rfl
      exact hitems (List.mem_append_right _ hm)
    rw [hlate m hne] at hb
    rw [hloop]
    exact ht.late m hm hb
  · rw [hwaits] at hk
    have hne : m ≠ n := hlive k _ hk
    rw [hlate m hne, hraise]
    exact ht.raised k m hk hm
  · rw [hwaits] at hk
    have hne : m ≠ n := hlive k _ hk
    rw [hlate m hne] at hm
    rw [hdetach, hraise]
    exact ht.quiet k m hk hm
  · rw [hwaits] at hk
    have hne : m ≠ n := hlive k _ hk
    rw [hlate m hne]
    exact ht.signalled k c ms m hk hm
  · rw [hwaits] at hk
    have hne : m ≠ n := hlive k _ hk
    rw [hlate m hne]
    exact ht.untimed k c ms m hk hms
  · rw [hwaits] at hk
    rw [hframe, hexpire _ (hlive k t hk)]
    exact ht.expires k t hk

omit [DecidableEq N] in
/-- The items after an addition. -/
theorem mem_items_add {size expire : ℕ} {m : N} :
    m ∈ (a.add size n expire).items ↔ m = n ∨ m ∈ a.items := by
  simp only [Agenda.items, Agenda.add, List.map_append, List.map_cons, List.map_nil,
    List.mem_append, List.mem_singleton]
  tauto

omit [DecidableEq C] [DecidableEq K] in
/-- One more item is live. -/
theorem live_update {l : List N} (hl : l.length ≤ used ∧ ∀ m, s.pArg m ≠ none → m ∈ l) :
    ∃ l : List N, l.length ≤ used + 1 ∧ ∀ m, update s.pArg n (some k) m ≠ none → m ∈ l := by
  refine ⟨n :: l, Nat.succ_le_succ hl.1, fun m hm => ?_⟩
  rcases eq_or_ne m n with rfl | hne
  · exact List.mem_cons_self
  · rw [Function.update_of_ne hne] at hm
    exact List.mem_cons_of_mem n (hl.2 m hm)

omit [DecidableEq N] in
/-- The times of an item that is added. -/
theorem pending_add {size expire now : ℕ} (hsize : 1 < size) (hle : a.start ≤ now)
    (hlt : now < expire) : ∀ p ∈ (a.add size n expire).pending, p ∈ a.pending ∨
      p.1 = n ∧ a.start < p.2 ∧ p.2 ≤ expire := by
  intro p hp
  rcases List.mem_append.mp hp with hp | hp
  · exact Or.inl hp
  · obtain rfl := List.mem_singleton.mp hp
    refine Or.inr ⟨rfl, ?_, Nat.min_le_left ..⟩
    show a.start < min expire (a.start + size - 1)
    omega

/-- A poll goes into the wheel and its coroutine waits. -/
theorem goes_poll (hinv : Inv main rank used s a w) {arg : N} {timeout : ℤ} {now : ℕ}
    (hcan : Can main rank s (.poll arg timeout now)) :
    Goes main rank used fuel s (.poll arg timeout now) := by
  obtain ⟨⟨co, last, rest, hstack⟩, hout, htimeout, hnow⟩ := hcan
  obtain ⟨idx, hk⟩ := hinv.keeps
  obtain ⟨hitems, hqueues⟩ := hinv.ties.unused hout
  by_cases hzero : timeout = 0
  · exact ⟨s, by simp only [step, co_poll_inner, hstack, if_pos hzero], a, w,
      hinv.mono (Nat.le_succ used)⟩
  obtain ⟨time, htime⟩ : ∃ time, time = if timeout < 0 then 2 ^ 31 - 1 else timeout.toNat :=
    ⟨_, rfl⟩
  have hpos : 0 < time ∧ time < 2 ^ 31 := by
    rw [htime]
    split_ifs <;> omega
  have hexpire : (now + time) % 2 ^ 64 = now + time := Nat.mod_eq_of_lt (by omega)
  have hk' := hk.alloc hitems (now + time)
  have hself : (s.ep.alloc arg (now + time)).ullExpireTime arg = now + time :=
    Function.update_self ..
  by_cases hlt : now < a.start
  · -- the clock went back
    have howner : (s.ep.alloc arg (now + time)).links.owner arg = none := Function.update_self ..
    refine ⟨{ s with ep := s.ep.alloc arg (now + time), ret := update s.ret co (-1) }, ?_, a, w, ?_⟩
    · simp only [step, co_poll_inner, hstack, if_neg hzero, ← htime, hexpire,
        hk'.addTimeout_of_lt hlt, removeFromLink_of_owner howner, Option.map_some]
      rw [if_pos (by omega)]
    · exact { hinv.mono (Nat.le_succ used) with
        keeps := ⟨idx, hk'⟩
        ties := ⟨hinv.ties.owns, hinv.ties.linked, hinv.ties.queued, hinv.ties.polled,
          hinv.ties.timed⟩
        calls := hinv.calls.congr rfl rfl rfl rfl
        times := hinv.times.alloc hinv.ties hout rfl rfl rfl
          (fun m hm => Function.update_of_ne hm ..) (fun m hm => Function.update_of_ne hm ..)
          rfl rfl }
  · have hle : now ≤ (s.ep.alloc arg (now + time)).ullExpireTime arg := by
      rw [hself]
      omega
    have hadd := hk'.addTimeout hitems (Nat.not_lt.mp hlt) hle
    rw [hself] at hadd
    have hzero' := congrArg Prod.fst (hk'.addTimeout_eq (Nat.not_lt.mp hlt) hle)
    have hco : s.waits co = none := by
      rw [Option.eq_none_iff_forall_ne_some]
      intro t ht
      exact (hinv.calls.suspended co t ht).1 (hstack ▸ List.mem_cons_self)
    refine ⟨{ s with
      ep := (AddTimeout arg now (s.ep.alloc arg (now + time))).2
      pArg := update s.pArg arg (some co)
      iAllEventDetach := update s.iAllEventDetach arg false
      iRaiseCnt := update s.iRaiseCnt arg 0
      waits := update s.waits co (some (.poll arg))
      frame := update s.frame co (now, time)
      pCallStack := last :: rest }, ?_, a.add s.ep.iItemSize arg (now + time), w, ?_⟩
    · simp only [step, co_poll_inner, hstack, if_neg hzero, ← htime, hexpire, hzero', co_yield_env]
      rfl
    have hfields : (AddTimeout arg now (s.ep.alloc arg (now + time))).2.ullExpireTime =
        (s.ep.alloc arg (now + time)).ullExpireTime ∧
        (AddTimeout arg now (s.ep.alloc arg (now + time))).2.bTimeout =
          (s.ep.alloc arg (now + time)).bTimeout := by
      rw [hk'.addTimeout_eq (Nat.not_lt.mp hlt) hle]
      exact ⟨rfl, rfl⟩
    exact {
      keeps := ⟨idx, hadd⟩
      holds := hinv.holds
      timeout := hinv.timeout
      live := hinv.live.elim fun l hl => live_update hl
      ties := hinv.ties.wait hout hco rfl rfl rfl (fun m hm => mem_items_add.mp hm)
        (fun m hm => mem_items_add.mpr (Or.inr hm)) (fun c m hm => Or.inl hm)
        (fun c m hm => hm) (fun _ => mem_items_add.mpr (Or.inl rfl)) (fun c ms h => by cases h)
      calls := hinv.calls.wait hstack rfl rfl rfl rfl
      times := hinv.times.wait hinv.ties hout rfl rfl rfl rfl
        ⟨hpos.1, by rw [hfields.1]; exact hself⟩
        (fun m hm => by rw [hfields.1]; exact Function.update_of_ne hm ..)
        (fun m hm => by rw [hfields.2]; exact Function.update_of_ne hm ..)
        (by rw [hfields.2]; exact Function.update_self ..)
        (fun m hm => Function.update_of_ne hm ..) (fun m hm => Function.update_of_ne hm ..)
        (fun _ => ⟨Function.update_self .., Function.update_self ..⟩) rfl rfl
        (by
          rw [hfields.1, hself]
          exact pending_add hk.size.1 (Nat.not_lt.mp hlt) (by omega))
        (fun c ms h => by cases h) (fun c m hm => Or.inl hm) }

/-- The queue that a new item is put into. -/
theorem holds_enqueue {h : Links N C} (hw : h.Holds w) (hn : ∀ c, n ∉ w c) (link : C) :
    (AddTail link n (zeroItem n h)).Holds (update w link (w link ++ [n])) :=
  holds_addTail (holds_zeroItem hw hn) (Function.update_self ..)

omit [DecidableEq N] in
/-- Who waits for a condition variable after one more. -/
theorem mem_enqueue {c link : C} {m : N} :
    m ∈ update w link (w link ++ [n]) c ↔ m ∈ w c ∨ (m = n ∧ c = link) := by
  rcases eq_or_ne c link with rfl | hc
  · simp
  · simp [hc]

/-- Waiting for a signal, with an item that is in the wheel if there is a time. -/
theorem inv_timedwait (hinv : Inv main rank used s a w) {co last : K} {rest : List K}
    (hstack : s.pCallStack = co :: last :: rest) (hout : s.pArg n = none) (link : C) (ms : ℤ)
    (now : ℕ) {ep : CoEpoll N} (hkeeps : ∃ idx, ep.Keeps a' idx) (htimeout : a'.timeout = [])
    (hitems : ∀ m ∈ a'.items, m = n ∨ m ∈ a.items)
    (hitems' : ∀ m ∈ a.items, m ∈ a'.items) (htimed : n ∈ a'.items ∨ ms ≤ 0)
    (hf : 0 < ms → ep.ullExpireTime n = now + ms.toNat)
    (hexpire : ∀ m, m ≠ n → ep.ullExpireTime m = s.ep.ullExpireTime m)
    (hlate : ∀ m, m ≠ n → ep.bTimeout m = s.ep.bTimeout m) (hnew : ep.bTimeout n = false)
    (hstart : a'.start = a.start) (hactive : a'.active = a.active)
    (hpending : ∀ p ∈ a'.pending, p ∈ a.pending ∨
      p.1 = n ∧ a.start < p.2 ∧ p.2 ≤ ep.ullExpireTime n)
    (huntimed : ms ≤ 0 → a'.pending = a.pending) :
    ∃ s', co_cond_timedwait.wait co link ms n now { s with ep } = some s' ∧
      Inv main rank (used + 1) s' a' (update w link (w link ++ [n])) := by
  have hqueues := (hinv.ties.unused hout).2
  have hco : s.waits co = none := by
    rw [Option.eq_none_iff_forall_ne_some]
    intro t ht
    exact (hinv.calls.suspended co t ht).1 (hstack ▸ List.mem_cons_self)
  refine ⟨{ s with
    ep
    conds := AddTail link n (zeroItem n s.conds)
    pArg := update s.pArg n (some co)
    waits := update s.waits co (some (.timedwait link ms n))
    frame := update s.frame co (now, ms.toNat)
    pCallStack := last :: rest }, ?_, ?_⟩
  · simp only [co_cond_timedwait.wait, co_yield_env, hstack]
  exact {
    keeps := hkeeps
    holds := holds_enqueue hinv.holds hqueues link
    timeout := htimeout
    live := hinv.live.elim fun l hl => live_update hl
    ties := hinv.ties.wait hout hco rfl rfl rfl hitems hitems'
      (fun c m hm => (mem_enqueue.mp hm).imp_right fun h => ⟨h.1, ms, by rw [h.2]⟩)
      (fun c m hm => mem_enqueue.mpr (Or.inl hm)) (fun h => by cases h)
      (fun c ms' h => by
        obtain ⟨rfl, rfl, -⟩ := Wait.timedwait.inj h
        exact htimed.imp_right fun hms => ⟨hms, mem_enqueue.mpr (Or.inr ⟨rfl, rfl⟩)⟩)
    calls := hinv.calls.wait hstack rfl rfl rfl rfl
    times := hinv.times.wait hinv.ties hout rfl rfl rfl rfl ⟨rfl, hf⟩ hexpire hlate hnew (fun _ _ => rfl)
      (fun _ _ => rfl) (fun h => by cases h) hstart hactive hpending
      (fun c ms' h => by
        obtain ⟨-, rfl, -⟩ := Wait.timedwait.inj h
        exact huntimed)
      (fun c m hm => (mem_enqueue.mp hm).imp_right And.left) }

/-- A wait goes to its condition variable, and into the wheel if it has a time. -/
theorem goes_timedwait (hinv : Inv main rank used s a w) {link : C} {ms : ℤ} {psi : N} {now : ℕ}
    (hcan : Can main rank s (.timedwait link ms psi now)) :
    Goes main rank used fuel s (.timedwait link ms psi now) := by
  obtain ⟨⟨co, last, rest, hstack⟩, hout, hms, hnow⟩ := hcan
  obtain ⟨idx, hk⟩ := hinv.keeps
  have hitems := (hinv.ties.unused hout).1
  by_cases htimed : ms > 0
  · have hexpire : (now + ms.toNat) % 2 ^ 64 = now + ms.toNat := Nat.mod_eq_of_lt (by omega)
    have hk' := hk.alloc hitems (now + ms.toNat)
    have hself : (s.ep.alloc psi (now + ms.toNat)).ullExpireTime psi = now + ms.toNat :=
      Function.update_self ..
    by_cases hlt : now < a.start
    · -- the clock went back
      refine ⟨{ s with ep := s.ep.alloc psi (now + ms.toNat), ret := update s.ret co 390 }, ?_, a, w,
        ?_⟩
      · simp only [step, co_cond_timedwait, hstack, if_pos htimed, hexpire,
          hk'.addTimeout_of_lt hlt]
        rw [if_pos (by omega)]
        rfl
      · exact { hinv.mono (Nat.le_succ used) with
          keeps := ⟨idx, hk'⟩
          ties := ⟨hinv.ties.owns, hinv.ties.linked, hinv.ties.queued, hinv.ties.polled,
            hinv.ties.timed⟩
          calls := hinv.calls.congr rfl rfl rfl rfl
          times := hinv.times.alloc hinv.ties hout rfl rfl rfl
            (fun m hm => Function.update_of_ne hm ..) (fun m hm => Function.update_of_ne hm ..)
            rfl rfl }
    · have hle : now ≤ (s.ep.alloc psi (now + ms.toNat)).ullExpireTime psi := by
        rw [hself]
        omega
      have hadd := hk'.addTimeout hitems (Nat.not_lt.mp hlt) hle
      rw [hself] at hadd
      have heq := hk'.addTimeout_eq (Nat.not_lt.mp hlt) hle
      have hzero := congrArg Prod.fst heq
      have hfields : (AddTimeout psi now (s.ep.alloc psi (now + ms.toNat))).2.ullExpireTime =
          (s.ep.alloc psi (now + ms.toNat)).ullExpireTime ∧
          (AddTimeout psi now (s.ep.alloc psi (now + ms.toNat))).2.bTimeout =
            (s.ep.alloc psi (now + ms.toNat)).bTimeout := by
        rw [heq]
        exact ⟨rfl, rfl⟩
      obtain ⟨s', hs', hinv'⟩ := inv_timedwait hinv hstack hout link ms now ⟨idx, hadd⟩ hinv.timeout
        (fun m hm => mem_items_add.mp hm) (fun m hm => mem_items_add.mpr (Or.inr hm))
        (Or.inl (mem_items_add.mpr (Or.inl rfl))) (fun _ => by rw [hfields.1]; exact hself)
        (fun m hm => by rw [hfields.1]; exact Function.update_of_ne hm ..)
        (fun m hm => by rw [hfields.2]; exact Function.update_of_ne hm ..)
        (by rw [hfields.2]; exact Function.update_self ..) rfl rfl
        (by
          rw [hfields.1, hself]
          exact pending_add hk.size.1 (Nat.not_lt.mp hlt) (by omega))
        (fun h => by omega)
      refine ⟨s', ?_, _, _, hinv'⟩
      rw [← hs']
      simp only [step, co_cond_timedwait, hstack, if_pos htimed, hexpire, hzero]
      rw [if_neg (by simp)]
  · obtain ⟨s', hs', hinv'⟩ := inv_timedwait hinv hstack hout link ms now
      ⟨idx, hk.alloc hitems 0⟩ hinv.timeout (fun m hm => Or.inr hm) (fun m hm => hm)
      (Or.inr (Int.not_lt.mp htimed)) (fun h => by omega)
      (fun m hm => Function.update_of_ne hm ..) (fun m hm => Function.update_of_ne hm ..)
      (Function.update_self ..) rfl rfl (fun p hp => Or.inl hp) (fun _ => rfl)
    refine ⟨s', ?_, _, _, hinv'⟩
    rw [← hs']
    simp only [step, co_cond_timedwait, hstack, if_neg htimed]

/-! ## Signals and events -/

omit [DecidableEq N] [DecidableEq C] [DecidableEq K] in
/-- Only an item that is active was taken. -/
theorem Inv.active_of_late (hinv : Inv main rank used s a w) {t : Wait N C}
    (hk : s.waits k = some t) (hlate : s.ep.bTimeout t.item = true) : t.item ∈ a.active := by
  have hmem : t.item ∈ a.items → t.item ∈ a.active := by
    intro hm
    rw [Agenda.items, hinv.timeout, List.append_nil, List.mem_append] at hm
    refine hm.resolve_left fun hp => ?_
    obtain ⟨p, hp, heq⟩ := List.mem_map.mp hp
    have := (hinv.times.pending p hp).2.2
    rw [heq, hlate] at this
    exact Bool.noConfusion this
  cases t with
  | poll n => exact hmem (hinv.ties.polled k n hk)
  | timedwait c ms n =>
    refine (hinv.ties.timed k c ms n hk).elim hmem fun h => ?_
    have := (hinv.times.untimed k c ms n hk h.1).1
    rw [Wait.item, this] at hlate
    exact Bool.noConfusion hlate

omit [DecidableEq C] [DecidableEq K] in
/-- An item is made active. -/
theorem Times.activate (ht : Times s a w) (hnodup : a.items.Nodup)
    (hlate : s.ep.bTimeout n = true → n ∈ a.active) {s' : CoEnv N C K}
    (hep : s'.ep.ullExpireTime = s.ep.ullExpireTime ∧ s'.ep.bTimeout = s.ep.bTimeout)
    (hwaits : s'.waits = s.waits) (hframe : s'.frame = s.frame) (hloop : s'.loop = s.loop)
    (hdetach : ∀ m, m ≠ n → s'.iAllEventDetach m = s.iAllEventDetach m)
    (hraise : ∀ m, m ≠ n → s'.iRaiseCnt m = s.iRaiseCnt m)
    (hpoll : ∀ k, s.waits k = some (.poll n) → 0 < s'.iRaiseCnt n ∧ s.ep.bTimeout n = false)
    (hw : ∀ c, ∀ m ∈ w' c, m ∈ w c) (hout : ∀ c, n ∉ w' c) : Times s' (a.activate n) w' := by
  have hactive : ∀ m, m ∈ (a.activate n).active ↔ m = n ∨ m ∈ a.active := fun m =>
    Agenda.mem_active_activate hnodup
  have hpending : ∀ p ∈ (a.activate n).pending, p ∈ a.pending := fun p hp =>
    List.mem_of_mem_filter hp
  refine ⟨fun p hp => ?_, fun m hm hb => ?_, fun k m hk hm => ?_, fun k m hk hm => ?_,
    fun k c ms m hk hm => ?_, fun k c ms m hk hms => ?_, fun k t hk => ?_,
    fun now hnow => ht.now_le now (hloop ▸ hnow)⟩
  · rw [hep.1, hep.2]
    exact ht.pending p (hpending p hp)
  · rw [hep.2] at hb
    rw [hloop]
    rcases (hactive m).mp hm with rfl | hm
    · exact ht.late m (hlate hb) hb
    · exact ht.late m hm hb
  · rw [hwaits] at hk
    rw [hep.2]
    rcases eq_or_ne m n with rfl | hne
    · exact Or.inr (hpoll k hk).1
    · rw [hraise m hne]
      exact ht.raised k m hk (((hactive m).mp hm).resolve_left hne)
  · rw [hwaits] at hk
    rw [hep.2] at hm
    rcases eq_or_ne m n with rfl | hne
    · rcases hm with hm | hm
      · exact absurd ((hactive m).mpr (Or.inl rfl)) hm
      · rw [(hpoll k hk).2] at hm
        exact Bool.noConfusion hm
    · rw [hdetach m hne, hraise m hne]
      exact ht.quiet k m hk (hm.imp_left fun h hin => h ((hactive m).mpr (Or.inr hin)))
  · rw [hwaits] at hk
    rw [hep.2]
    rcases eq_or_ne m n with rfl | hne
    · exact Or.inr (hout c)
    · exact (ht.signalled k c ms m hk (((hactive m).mp hm).resolve_left hne)).imp_right
        fun h hin => h (hw c m hin)
  · rw [hwaits] at hk
    rw [hep.2]
    exact ⟨(ht.untimed k c ms m hk hms).1, fun p hp =>
      (ht.untimed k c ms m hk hms).2 p (hpending p hp)⟩
  · rw [hwaits] at hk
    rw [hframe, hep.1]
    exact ht.expires k t hk

omit [DecidableEq K] in
/-- An item that waited for a signal is made active. -/
theorem inv_signal (hinv : Inv main rank used s a w) {si : C} {sp : N} {rest : List N}
    (hsi : w si = sp :: rest) :
    ∃ s', s.co_cond_signal si = some s' ∧
      Inv main rank used s' (a.activate sp) (update w si rest) := by
  obtain ⟨idx, hk⟩ := hinv.keeps
  have hin : sp ∈ w si := by rw [hsi]; exact List.mem_cons_self
  have hhead : s.conds.head si = some sp := by rw [hinv.holds.head, hsi]; rfl
  obtain ⟨self, ms, hself⟩ := hinv.ties.queued si sp hin
  have hlive : s.pArg sp ≠ none := by
    have := hinv.ties.owns self _ hself
    rw [Wait.item] at this
    rw [this]
    exact Option.some_ne_none self
  obtain ⟨links, hrun, hk'⟩ := hk.activate sp
  have hpop := holds_popHead hinv.holds hsi
  have hout : ∀ c, sp ∉ update w si rest c := by
    intro c hc
    have hnodup := hinv.holds.nodup si
    rw [hsi, List.nodup_cons] at hnodup
    rcases eq_or_ne c si with rfl | hne
    · rw [Function.update_self] at hc
      exact hnodup.1 hc
    · rw [Function.update_of_ne hne] at hc
      exact hne (hinv.holds.unique hc hin)
  have hsub : ∀ c, ∀ m ∈ update w si rest c, m ∈ w c := by
    intro c m hm
    rcases eq_or_ne c si with rfl | hne
    · rw [Function.update_self] at hm
      rw [hsi]
      exact List.mem_cons_of_mem sp hm
    · rw [Function.update_of_ne hne] at hm
      exact hm
  have hitems := fun m => Agenda.mem_items_activate (m := m) (n := sp) hk.nodup
  have hactive := fun m => Agenda.mem_active_activate (m := m) (n := sp) hk.nodup
  have hpending : ∀ p ∈ (a.activate sp).pending, p ∈ a.pending := fun p hp =>
    List.mem_of_mem_filter hp
  refine ⟨{ s with ep := { s.ep with links }, conds := PopHead si s.conds }, ?_, ?_⟩
  · simp only [co_cond_signal, hhead, if_neg hlive, hrun, Option.map_some]
  exact { hinv with
    keeps := ⟨idx, hk'⟩
    holds := hpop
    timeout := by
      show a.timeout.erase sp = []
      rw [hinv.timeout]
      rfl
    ties := hinv.ties.moved rfl rfl
      (fun m hm => ((hitems m).mp hm).elim (fun heq => Or.inr ⟨si, heq ▸ hin⟩) Or.inl)
      (fun m hm => (hitems m).mpr (Or.inr hm)) hsub fun c m hm => by
        rcases eq_or_ne c si with rfl | hne
        · rw [hsi, List.mem_cons] at hm
          rw [Function.update_self]
          exact hm.symm.imp_right fun heq => (hitems m).mpr (Or.inl heq)
        · rw [Function.update_of_ne hne]
          exact Or.inl hm
    calls := hinv.calls.congr rfl rfl rfl rfl
    times := hinv.times.activate hk.nodup (hinv.active_of_late hself) ⟨rfl, rfl⟩ rfl rfl rfl
      (fun _ _ => rfl) (fun _ _ => rfl) (fun k hkp => by
        have hkk := hinv.ties.unique hkp hself rfl
        rw [hkk, hself] at hkp
        cases hkp) hsub hout }

/-- A signal makes the first that waits active. -/
theorem goes_signal (hinv : Inv main rank used s a w) (si : C) :
    Goes main rank used fuel s (.signal si) := by
  rcases hsi : w si with _ | ⟨sp, rest⟩
  · have hhead : s.conds.head si = none := by rw [hinv.holds.head, hsi]; rfl
    exact ⟨s, by simp only [step, co_cond_signal, hhead], a, w, hinv.mono (Nat.le_succ used)⟩
  · obtain ⟨s', hs', hinv'⟩ := inv_signal hinv hsi
    exact ⟨s', hs', _, _, hinv'.mono (Nat.le_succ used)⟩

/-- A broadcast signals until the list is empty, which takes no more turns than there are items. -/
theorem goes_broadcast (hinv : Inv main rank used s a w) (si : C) (hfuel : used < fuel) :
    Goes main rank used fuel s (.broadcast si) := by
  have hloop : ∀ (l : List N) (fuel : ℕ) (s : CoEnv N C K) (a : Agenda N) (w : C → List N),
      Inv main rank used s a w → w si = l → l.length < fuel →
        ∃ s', co_cond_broadcast fuel si s = some s' ∧ ∃ a w, Inv main rank used s' a w := by
    intro l
    induction l with
    | nil =>
      intro fuel s a w hinv hsi hfuel
      obtain ⟨fuel, rfl⟩ : ∃ k, fuel = k + 1 := ⟨fuel - 1, by simp at hfuel; omega⟩
      have hhead : s.conds.head si = none := by rw [hinv.holds.head, hsi]; rfl
      exact ⟨s, by simp only [co_cond_broadcast, hhead], a, w, hinv⟩
    | cons sp rest ih =>
      intro fuel s a w hinv hsi hfuel
      obtain ⟨fuel, rfl⟩ : ∃ k, fuel = k + 1 := ⟨fuel - 1, by simp at hfuel; omega⟩
      have hhead : s.conds.head si = some sp := by rw [hinv.holds.head, hsi]; rfl
      obtain ⟨s1, hs1, hinv1⟩ := inv_signal hinv hsi
      obtain ⟨s2, hs2, hinv2⟩ := ih fuel s1 _ _ hinv1 (Function.update_self ..)
        (by simpa using hfuel)
      refine ⟨s2, ?_, hinv2⟩
      simp only [co_cond_broadcast, hhead, hs1, Option.bind_some, hs2]
  obtain ⟨s', hs', a', w', hinv'⟩ := hloop (w si) fuel s a w hinv rfl
    ((hinv.length_le.2 si).trans_lt hfuel)
  exact ⟨s', hs', a', w', hinv'.mono (Nat.le_succ used)⟩

/-- A coroutine ends and the one below it runs. -/
theorem goes_finish (hinv : Inv main rank used s a w) (hcan : Can main rank s .finish) :
    Goes main rank used fuel s .finish := by
  obtain ⟨co, last, rest, hstack⟩ := hcan
  refine ⟨{ s with cEnd := update s.cEnd co true, pCallStack := last :: rest }, ?_, a, w, ?_⟩
  · simp only [step, finish, co_yield_env, hstack]
  exact { hinv.mono (Nat.le_succ used) with
    ties := ⟨hinv.ties.owns, hinv.ties.linked, hinv.ties.queued, hinv.ties.polled,
      hinv.ties.timed⟩
    calls := by
      refine hinv.calls.yield hstack rfl rfl (fun k hk => Function.update_of_ne hk ..) ?_
        fun _ _ => rfl
      refine iff_of_false (by simp) (not_not_intro (Option.eq_none_iff_forall_ne_some.mpr ?_))
      exact fun t hk => (hinv.calls.suspended co t hk).1 (hstack ▸ List.mem_cons_self)
    times := ⟨hinv.times.pending, hinv.times.late, hinv.times.raised, hinv.times.quiet,
      hinv.times.signalled, hinv.times.untimed, hinv.times.expires,
      hinv.times.now_le⟩ }

/-- The loop goes on to the next events. -/
theorem goes_epollWait (hinv : Inv main rank used s a w) (hcan : Can main rank s .epollWait) :
    Goes main rank used fuel s .epollWait := by
  obtain ⟨-, hloop⟩ := hcan
  obtain ⟨idx, hk⟩ := hinv.keeps
  have hclear := hk.clearTimeoutList hinv.timeout
  refine ⟨{ s with loop := .events }, ?_, a, w, ?_⟩
  · simp only [step, hclear]
  have hnone : ∀ m ∈ a.active, s.ep.bTimeout m = true → False := by
    intro m hm hb
    have hlate := hinv.times.late m hm hb
    rcases hloop with hbefore | ⟨-, hhead⟩
    · rw [hlate] at hbefore
      exact LoopAt.noConfusion hbefore
    · have hempty := hk.holds.head .pstActiveList
      rw [hhead] at hempty
      have : a.active = [] := List.head?_eq_none_iff.mp hempty.symm
      rw [this] at hm
      exact List.not_mem_nil hm
  exact { hinv.mono (Nat.le_succ used) with
    ties := ⟨hinv.ties.owns, hinv.ties.linked, hinv.ties.queued, hinv.ties.polled,
      hinv.ties.timed⟩
    calls := hinv.calls.congr rfl rfl rfl rfl
    times := ⟨hinv.times.pending, fun m hm hb => (hnone m hm hb).elim, hinv.times.raised,
      hinv.times.quiet, hinv.times.signalled, hinv.times.untimed, hinv.times.expires,
      fun _ h => LoopAt.noConfusion h⟩ }

/-- An event makes its poll active. -/
theorem goes_event (hinv : Inv main rank used s a w) {pPoll : N}
    (hcan : Can main rank s (.event pPoll)) : Goes main rank used fuel s (.event pPoll) := by
  obtain ⟨-, hloop, self, hself⟩ := hcan
  obtain ⟨idx, hk⟩ := hinv.keeps
  have howns : s.pArg pPoll = some self := hinv.ties.owns self _ hself
  have hlive : s.pArg pPoll ≠ none := by
    rw [howns]
    exact Option.some_ne_none self
  have hlate : s.ep.bTimeout pPoll = false := by
    rw [← Bool.not_eq_true]
    intro hb
    have := hinv.times.late pPoll (hinv.active_of_late hself hb) hb
    rw [hloop] at this
    exact LoopAt.noConfusion this
  have hitem := hinv.ties.polled self pPoll hself
  have hout : ∀ c, pPoll ∉ w c := by
    intro c hc
    obtain ⟨k, ms, hk⟩ := hinv.ties.queued c pPoll hc
    have hkk := hinv.ties.unique hk hself rfl
    rw [hkk, hself] at hk
    cases hk
  have hbefore : ∀ b : Bool, s.iAllEventDetach pPoll = b → b = true → pPoll ∈ a.active := by
    rintro b hb rfl
    by_contra hnot
    have := (hinv.times.quiet self pPoll hself (Or.inl hnot)).1
    rw [hb] at this
    exact Bool.noConfusion this
  have hraised : 0 < update s.iRaiseCnt pPoll (s.iRaiseCnt pPoll + 1) pPoll := by
    rw [Function.update_self]
    exact Nat.succ_pos _
  rcases hdetach : s.iAllEventDetach pPoll with _ | _
  · obtain ⟨links, hrun, hk'⟩ := hk.activate pPoll
    refine ⟨{ s with
      ep := { s.ep with links }
      iRaiseCnt := update s.iRaiseCnt pPoll (s.iRaiseCnt pPoll + 1)
      iAllEventDetach := update s.iAllEventDetach pPoll true }, ?_, a.activate pPoll, w, ?_⟩
    · simp only [step, OnPollPreparePfn, if_neg hlive, hdetach, Bool.false_eq_true, if_false, hrun,
        Option.map_some]
    have hitems := fun m => Agenda.mem_items_activate (m := m) (n := pPoll) hk.nodup
    exact { hinv.mono (Nat.le_succ used) with
      keeps := ⟨idx, hk'⟩
      timeout := by
        show a.timeout.erase pPoll = []
        rw [hinv.timeout]
        rfl
      ties := hinv.ties.moved rfl rfl
        (fun m hm => Or.inl (((hitems m).mp hm).elim (fun heq => heq ▸ hitem) id))
        (fun m hm => (hitems m).mpr (Or.inr hm)) (fun c m hm => hm) fun c m hm => Or.inl hm
      calls := hinv.calls.congr rfl rfl rfl rfl
      times := hinv.times.activate hk.nodup (hinv.active_of_late hself) ⟨rfl, rfl⟩ rfl rfl rfl
        (fun m hm => Function.update_of_ne hm ..) (fun m hm => Function.update_of_ne hm ..)
        (fun k _ => ⟨hraised, hlate⟩) (fun c m hm => hm) hout }
  · have hin := hbefore _ hdetach rfl
    refine ⟨{ s with iRaiseCnt := update s.iRaiseCnt pPoll (s.iRaiseCnt pPoll + 1) }, ?_, a, w, ?_⟩
    · simp only [step, OnPollPreparePfn, if_neg hlive, hdetach, if_true]
    exact { hinv.mono (Nat.le_succ used) with
      ties := ⟨hinv.ties.owns, hinv.ties.linked, hinv.ties.queued, hinv.ties.polled,
        hinv.ties.timed⟩
      calls := hinv.calls.congr rfl rfl rfl rfl
      times := ⟨hinv.times.pending, hinv.times.late, fun k m hk hm => by
          rcases eq_or_ne m pPoll with rfl | hne
          · exact Or.inr hraised
          · simp only [Function.update_of_ne hne]
            exact hinv.times.raised k m hk hm,
        fun k m hk hm => by
          rcases eq_or_ne m pPoll with rfl | hne
          · rcases hm with hm | hm
            · exact absurd hin hm
            · rw [hlate] at hm
              exact Bool.noConfusion hm
          · simp only [Function.update_of_ne hne]
            exact hinv.times.quiet k m hk hm,
        hinv.times.signalled, hinv.times.untimed, hinv.times.expires,
      hinv.times.now_le⟩ }

/-! ## The end of a time -/

/-- What a take brings into the list of timeouts. -/
theorem mem_timeout_take {now : ℕ} {m : N} (htimeout : a.timeout = []) :
    m ∈ (a.take now).timeout ↔ a.start ≤ now ∧ ∃ p ∈ a.pending, p.1 = m ∧ p.2 ≤ now := by
  rw [Agenda.take]
  split_ifs with hlt
  · rw [htimeout]
    exact ⟨fun h => absurd h List.not_mem_nil, fun h => by omega⟩
  · simp only [htimeout, List.nil_append, List.mem_map, Deadlines.mem_expired]
    constructor
    · rintro ⟨p, ⟨hp, hle⟩, rfl⟩
      exact ⟨Nat.not_lt.mp hlt, p, hp, rfl, hle⟩
    · rintro ⟨-, p, hp, rfl, hle⟩
      exact ⟨p, ⟨hp, hle⟩, rfl⟩

omit [DecidableEq N] in
/-- What it leaves in the wheel, which is later than what it took. -/
theorem pending_take {t : ℕ} {p : N × ℕ} (hp : p ∈ (a.take t).pending) :
    p ∈ a.pending ∧ (a.start < p.2 → (a.take t).start < p.2) := by
  rw [Agenda.take] at hp ⊢
  split_ifs at hp ⊢
  · exact ⟨hp, id⟩
  · exact ⟨List.mem_of_mem_filter hp, fun _ => of_decide_eq_true (List.mem_filter.mp hp).2⟩

omit [DecidableEq C] [DecidableEq K] in
/-- What was taken is marked. -/
theorem Times.turn (ht : Times s a w) (hnodup : a.items.Nodup) (htimeout : a.timeout = [])
    (hloop : s.loop = .events) {s' : CoEnv N C K} {now : ℕ}
    (hexpire : s'.ep.ullExpireTime = s.ep.ullExpireTime)
    (hlate : s'.ep.bTimeout = fun m => if m ∈ (a.take now).timeout then true else s.ep.bTimeout m)
    (hwaits : s'.waits = s.waits) (hframe : s'.frame = s.frame) (hloop' : s'.loop = .active now)
    (hdetach : s'.iAllEventDetach = s.iAllEventDetach) (hraise : s'.iRaiseCnt = s.iRaiseCnt) :
    Times s' (a.turn now) w := by
  have hperm : (a.turn now).items.Perm a.items := Agenda.items_turn
  have hnew := hperm.nodup_iff.mpr hnodup
  have hactive : ∀ m, m ∈ (a.turn now).active ↔ m ∈ a.active ∨ m ∈ (a.take now).timeout :=
    fun m => List.mem_append
  have hpend : ∀ p ∈ (a.turn now).pending, p.1 ∉ (a.take now).timeout := by
    intro p hp htaken
    rw [Agenda.items, List.nodup_append] at hnew
    refine hnew.2.2 p.1 (List.mem_append_left _ (List.mem_map_of_mem hp)) p.1 ?_ rfl
    exact (hactive p.1).mpr (Or.inr htaken)
  have htaken : ∀ m ∈ (a.take now).timeout, m ∉ a.active := by
    intro m hm hin
    obtain ⟨-, p, hp, rfl, -⟩ := (mem_timeout_take htimeout).mp hm
    rw [Agenda.items, List.nodup_append] at hnodup
    exact hnodup.2.2 p.1 (List.mem_append_left _ (List.mem_map_of_mem hp)) p.1 hin rfl
  refine ⟨fun p hp => ?_, fun m hm hb => ?_, fun k m hk hm => ?_, fun k m hk hm => ?_,
    fun k c ms m hk hm => ?_, fun k c ms m hk hms => ?_, fun k t hk => ?_, fun now' hnow => ?_⟩
  · obtain ⟨hp', hlt⟩ := pending_take (a := a) (t := now) hp
    obtain ⟨hs, he, hb⟩ := ht.pending p hp'
    rw [hexpire, hlate]
    exact ⟨hlt hs, he, by simp only [if_neg (hpend p hp), hb]⟩
  · rw [hloop']
    by_cases hin : m ∈ (a.take now).timeout
    · have hle := ((mem_timeout_take htimeout).mp hin).1
      show LoopAt.active now = .active (a.take now).start
      rw [Agenda.take, if_neg (Nat.not_lt.mpr hle)]
    · simp only [hlate, if_neg hin] at hb
      have := ht.late m (((hactive m).mp hm).resolve_right hin) hb
      rw [hloop] at this
      exact LoopAt.noConfusion this
  · rw [hwaits] at hk
    simp only [hlate, hraise]
    by_cases hin : m ∈ (a.take now).timeout
    · exact Or.inl (if_pos hin)
    · rw [if_neg hin]
      exact ht.raised k m hk (((hactive m).mp hm).resolve_right hin)
  · rw [hwaits] at hk
    rw [hdetach, hraise]
    by_cases hin : m ∈ (a.take now).timeout
    · exact ht.quiet k m hk (Or.inl (htaken m hin))
    · simp only [hlate, if_neg hin] at hm
      exact ht.quiet k m hk (hm.imp_left fun h h' => h ((hactive m).mpr (Or.inl h')))
  · rw [hwaits] at hk
    simp only [hlate]
    by_cases hin : m ∈ (a.take now).timeout
    · exact Or.inl (if_pos hin)
    · rw [if_neg hin]
      exact ht.signalled k c ms m hk (((hactive m).mp hm).resolve_right hin)
  · rw [hwaits] at hk
    obtain ⟨hb, hp⟩ := ht.untimed k c ms m hk hms
    simp only [hlate]
    refine ⟨?_, fun p hp' => hp p (pending_take (a := a) (t := now) hp').1⟩
    rw [if_neg fun hin => ?_, hb]
    obtain ⟨-, p, hp', heq, -⟩ := (mem_timeout_take htimeout).mp hin
    exact hp p hp' heq
  · rw [hwaits] at hk
    rw [hframe, hexpire]
    exact ht.expires k t hk
  · rw [hloop'] at hnow
    obtain rfl := LoopAt.active.inj hnow
    show now ≤ (a.take now).start
    rw [Agenda.take]
    split_ifs with hlt
    · exact hlt.le
    · exact Nat.le_refl now

/-- The timeouts of a reading become active. -/
theorem goes_take (hinv : Inv main rank used s a w) {now : ℕ} (hcan : Can main rank s (.take now))
    (hfuel : used ≤ fuel) : Goes main rank used fuel s (.take now) := by
  obtain ⟨-, hloop, hnow, hgap⟩ := hcan
  obtain ⟨idx, hk⟩ := hinv.keeps
  rw [hk.start] at hgap
  obtain ⟨links, ullStart, llStartIdx, idx', hrun, hk'⟩ :=
    hk.takeTimeouts hnow hgap (hinv.length_le.1.trans hfuel)
  have hitems : ∀ m, m ∈ (a.turn now).items ↔ m ∈ a.items := fun m =>
    Agenda.items_turn.mem_iff
  refine ⟨_, by rw [step, hrun]; rfl, a.turn now, w, ?_⟩
  exact { hinv.mono (Nat.le_succ used) with
    keeps := ⟨idx', hk'⟩
    timeout := rfl
    ties := hinv.ties.moved rfl rfl (fun m hm => Or.inl ((hitems m).mp hm))
      (fun m hm => (hitems m).mpr hm) (fun c m hm => hm) fun c m hm => Or.inl hm
    calls := hinv.calls.congr rfl rfl rfl rfl
    times := hinv.times.turn hk.nodup hinv.timeout hloop rfl rfl rfl rfl rfl rfl rfl }

/-! ## Active items -/

omit [DecidableEq C] [DecidableEq K] in
/-- The first active item goes back into the wheel. -/
theorem Times.early (ht : Times s a w) (hnodup : a.items.Nodup) {rest : List N}
    (hactive : a.active = n :: rest) {now : ℕ} (hloop : s.loop = .active now)
    (hlate : s.ep.bTimeout n = true) (hearly : now < s.ep.ullExpireTime n) {size : ℕ}
    (hsize : 1 < size) {s' : CoEnv N C K} (hexpire : s'.ep.ullExpireTime = s.ep.ullExpireTime)
    (hb : s'.ep.bTimeout = update s.ep.bTimeout n false) (hwaits : s'.waits = s.waits)
    (hframe : s'.frame = s.frame) (hloop' : s'.loop = s.loop) (hdetach : s'.iAllEventDetach = s.iAllEventDetach)
    (hraise : s'.iRaiseCnt = s.iRaiseCnt) :
    Times s' (a.pop.add size n (s.ep.ullExpireTime n)) w := by
  rw [Agenda.items, hactive, List.nodup_middle, List.nodup_cons, List.mem_append,
    List.mem_append, not_or, not_or] at hnodup
  obtain ⟨⟨⟨hpend, -⟩, hrest⟩, -⟩ := hnodup
  have hstart : a.start = now := by
    have := ht.late n (by rw [hactive]; exact List.mem_cons_self) hlate
    rw [hloop] at this
    exact (LoopAt.active.inj this).symm
  have hin : ∀ m, m ∈ (a.pop.add size n (s.ep.ullExpireTime n)).active ↔ m ∈ rest := by
    intro m
    show m ∈ a.active.tail ↔ _
    rw [hactive, List.tail_cons]
  have hmem : ∀ m ∈ rest, m ∈ a.active ∧ m ≠ n := by
    intro m hm
    refine ⟨by rw [hactive]; exact List.mem_cons_of_mem n hm, ?_⟩
    rintro rfl
    exact hrest hm
  have hold : ∀ p ∈ a.pending, p.1 ≠ n := by
    rintro p hp rfl
    exact hpend (List.mem_map_of_mem hp)
  refine ⟨fun p hp => ?_, fun m hm hbm => ?_, fun k m hk hm => ?_, fun k m hk hm => ?_,
    fun k c ms m hk hm => ?_, fun k c ms m hk hms => ?_, fun k t hk => ?_,
    fun now hnow => ht.now_le now (hloop' ▸ hnow)⟩
  · rw [hexpire, hb]
    rcases pending_add (a := a.pop) hsize hstart.le hearly p hp with hp | ⟨heq, hlt, hle⟩
    · rw [Function.update_of_ne (hold p hp)]
      exact ht.pending p hp
    · rw [heq, Function.update_self]
      exact ⟨hlt, hle, rfl⟩
  · obtain ⟨hm, hne⟩ := hmem m ((hin m).mp hm)
    rw [hb, Function.update_of_ne hne] at hbm
    rw [hloop']
    exact ht.late m hm hbm
  · rw [hwaits] at hk
    obtain ⟨hm, hne⟩ := hmem m ((hin m).mp hm)
    rw [hb, Function.update_of_ne hne, hraise]
    exact ht.raised k m hk hm
  · rw [hwaits] at hk
    rw [hdetach, hraise]
    rcases eq_or_ne m n with rfl | hne
    · exact ht.quiet k m hk (Or.inr hlate)
    · rw [hb, Function.update_of_ne hne] at hm
      refine ht.quiet k m hk (hm.imp_left fun h h' => h ((hin m).mpr ?_))
      rw [hactive] at h'
      exact (List.mem_cons.mp h').resolve_left hne
  · rw [hwaits] at hk
    obtain ⟨hm, hne⟩ := hmem m ((hin m).mp hm)
    rw [hb, Function.update_of_ne hne]
    exact ht.signalled k c ms m hk hm
  · rw [hwaits] at hk
    obtain ⟨hbm, hp⟩ := ht.untimed k c ms m hk hms
    have hne : m ≠ n := by
      rintro rfl
      rw [hlate] at hbm
      exact Bool.noConfusion hbm
    rw [hb, Function.update_of_ne hne]
    refine ⟨hbm, fun p hp' heq => ?_⟩
    rcases List.mem_append.mp hp' with hp' | hp'
    · exact hp p hp' heq
    · obtain rfl := List.mem_singleton.mp hp'
      exact hne heq.symm
  · rw [hwaits] at hk
    rw [hframe, hexpire]
    exact ht.expires k t hk

omit [DecidableEq N] [DecidableEq C] [DecidableEq K] in
/-- The coroutine of the first active item goes on. -/
theorem Times.due (ht : Times s a w) {rest : List N} (hactive : a.active = n :: rest)
    {s' : CoEnv N C K}
    (hep : s'.ep.ullExpireTime = s.ep.ullExpireTime ∧ s'.ep.bTimeout = s.ep.bTimeout)
    (hwaits : ∀ k' t', s'.waits k' = some t' → s.waits k' = some t' ∧ t'.item ≠ n)
    (hframe : s'.frame = s.frame) (hloop : s'.loop = s.loop)
    (hdetach : s'.iAllEventDetach = s.iAllEventDetach)
    (hraise : s'.iRaiseCnt = s.iRaiseCnt) (hw : ∀ c, ∀ m ∈ w' c, m ∈ w c) :
    Times s' a.pop w' := by
  have hin : ∀ m, m ∈ a.pop.active ↔ m ∈ rest := by
    intro m
    show m ∈ a.active.tail ↔ _
    rw [hactive, List.tail_cons]
  have hmem : ∀ m ∈ a.pop.active, m ∈ a.active := by
    intro m hm
    rw [hactive]
    exact List.mem_cons_of_mem n ((hin m).mp hm)
  refine ⟨fun p hp => ?_, fun m hm hb => ?_, fun k' m hk' hm => ?_, fun k' m hk' hm => ?_,
    fun k' c ms m hk' hm => ?_, fun k' c ms m hk' hms => ?_, fun k' t' hk' => ?_,
    fun now hnow => ht.now_le now (hloop ▸ hnow)⟩
  · rw [hep.1, hep.2]
    exact ht.pending p hp
  · rw [hep.2] at hb
    rw [hloop]
    exact ht.late m (hmem m hm) hb
  · rw [hep.2, hraise]
    exact ht.raised k' m (hwaits k' _ hk').1 (hmem m hm)
  · obtain ⟨hk', hne⟩ := hwaits k' _ hk'
    rw [hep.2] at hm
    rw [hdetach, hraise]
    refine ht.quiet k' m hk' (hm.imp_left fun h h' => h ((hin m).mpr ?_))
    rw [hactive] at h'
    exact (List.mem_cons.mp h').resolve_left hne
  · rw [hep.2]
    exact (ht.signalled k' c ms m (hwaits k' _ hk').1 (hmem m hm)).imp_right
      fun h h' => h (hw c m h')
  · rw [hep.2]
    exact ht.untimed k' c ms m (hwaits k' _ hk').1 hms
  · rw [hframe, hep.1]
    exact ht.expires k' t' (hwaits k' _ hk').1

/-- Either the first active item goes back into the wheel, or its coroutine goes on. -/
theorem pop_spec (hinv : Inv main rank used s a w) (hcan : Can main rank s .pop) :
    ∃ k t now s', s.waits k = some t ∧ s.loop = .active now ∧ t.item ∈ a.active ∧
      s.pop = some s' ∧ (∃ a' w', Inv main rank used s' a' w') ∧
      ((s.ep.bTimeout t.item = true ∧ now < s.ep.ullExpireTime t.item ∧ s'.waits = s.waits) ∨
        (¬(s.ep.bTimeout t.item = true ∧ now < s.ep.ullExpireTime t.item) ∧
          s'.waits = update s.waits k none ∧
          ∀ n, t = .poll n → s'.ret k = s.iRaiseCnt n)) := by
  obtain ⟨hstack, ⟨now, hloop⟩, hhead⟩ := hcan
  obtain ⟨idx, hk⟩ := hinv.keeps
  rw [hk.holds.head] at hhead
  obtain ⟨n, rest, hactive⟩ : ∃ n rest, a.active = n :: rest := by
    rcases h : a.active with _ | ⟨n, rest⟩
    · exact absurd (List.head?_eq_none_iff.mpr h) hhead
    · exact ⟨n, rest, rfl⟩
  have hhead' : s.ep.links.head .pstActiveList = some n := by
    rw [hk.holds.head]
    show a.active.head? = some n
    rw [hactive]
    rfl
  have hmem : n ∈ a.active := by rw [hactive]; exact List.mem_cons_self
  have hitem : n ∈ a.items := List.mem_append_right _ hmem
  obtain ⟨k, t, hkt, rfl⟩ := hinv.ties.linked n hitem
  obtain ⟨hk', hout⟩ := hk.pop hactive
  have hitems : ∀ m, m ∈ a.pop.items ↔ m ≠ t.item ∧ m ∈ a.items := by
    intro m
    have hperm : a.items.Perm (t.item :: a.pop.items) := by
      simp only [Agenda.items, Agenda.pop, hactive, List.tail_cons]
      exact List.perm_middle
    rw [hperm.mem_iff, List.mem_cons]
    constructor
    · intro hm
      exact ⟨fun heq => hout (heq ▸ hm), Or.inr hm⟩
    · rintro ⟨hne, hm⟩
      exact hm.resolve_left hne
  by_cases hdue : s.ep.bTimeout t.item = true ∧ now < s.ep.ullExpireTime t.item
  · have hstart : a.start = now := by
      have := hinv.times.late t.item hmem hdue.1
      rw [hloop] at this
      exact (LoopAt.active.inj this).symm
    obtain ⟨links, hrun, hk''⟩ := hk.popActive_early hactive hstart.le hdue.1 hdue.2
    refine ⟨k, t, now, { s with ep := { s.ep with
      links, bTimeout := update s.ep.bTimeout t.item false } }, hkt, hloop, hmem, ?_, ?_,
      Or.inl ⟨hdue.1, hdue.2, rfl⟩⟩
    · simp only [pop, hloop, hhead', hrun, Bool.false_eq_true, if_false]
    have hitems' : ∀ m, m ∈ (a.pop.add s.ep.iItemSize t.item
        (s.ep.ullExpireTime t.item)).items ↔ m ∈ a.items := by
      intro m
      rw [mem_items_add, hitems]
      constructor
      · rintro (rfl | hm)
        · exact hitem
        · exact hm.2
      · intro hm
        exact or_iff_not_imp_left.mpr fun hne => ⟨hne, hm⟩
    refine ⟨a.pop.add s.ep.iItemSize t.item (s.ep.ullExpireTime t.item), w, ?_⟩
    exact { hinv with
      keeps := ⟨idx, hk''⟩
      ties := hinv.ties.moved rfl rfl (fun m hm => Or.inl ((hitems' m).mp hm))
        (fun m hm => (hitems' m).mpr hm) (fun c m hm => hm) fun c m hm => Or.inl hm
      calls := hinv.calls.congr rfl rfl rfl rfl
      times := hinv.times.early hk.nodup hactive hloop hdue.1 hdue.2 hk.size.1 rfl rfl rfl rfl
        rfl rfl rfl }
  · have howns := hinv.ties.owns k t hkt
    obtain ⟨hnot, hstart, hend⟩ := hinv.calls.suspended k t hkt
    have hresume : ¬(s.cEnd k = true ∨ k ∈ s.pCallStack ∨ 128 ≤ s.pCallStack.length) := by
      rw [hstack] at hnot ⊢
      simp [hend, List.mem_singleton.not.mp hnot]
    have hrank : ∀ k' ∈ s.pCallStack, rank k' < rank k := by
      rw [hstack]
      intro k' hk'
      rw [List.mem_singleton.mp hk']
      exact hinv.calls.above k hstart
    have hlive : ∃ l : List N, l.length ≤ used ∧ ∀ m, update s.pArg t.item none m ≠ none →
        m ∈ l := by
      obtain ⟨l, hl, hall⟩ := hinv.live
      refine ⟨l, hl, fun m hm => hall m fun hnone => hm ?_⟩
      rw [Function.update_apply]
      split_ifs
      · rfl
      · exact hnone
    have hwaits : ∀ k' t', update s.waits k none k' = some t' →
        s.waits k' = some t' ∧ t'.item ≠ t.item := by
      intro k' t' hk'
      rw [Function.update_apply] at hk'
      split_ifs at hk' with heq
      exact ⟨hk', fun hitem => heq (hinv.ties.unique hk' hkt hitem)⟩
    have hgo : s.pop = goOn k { s with
        ep := { s.ep with links := PopHead .pstActiveList s.ep.links }
        cStart := update s.cStart k true
        pCallStack := k :: s.pCallStack } := by
      simp only [pop, hloop, hhead', CoEpoll.popActive_due hdue, if_true, process, howns,
        co_resume, if_neg hresume, Option.bind_some]
    cases t with
    | poll arg =>
      have howner : (PopHead .pstActiveList s.ep.links).owner arg = none := hk'.owner.mpr hout
      refine ⟨k, .poll arg, now, { s with
        ep := { s.ep with links := PopHead .pstActiveList s.ep.links }
        cStart := update s.cStart k true
        pCallStack := k :: s.pCallStack
        pArg := update s.pArg arg none
        waits := update s.waits k none
        ret := update s.ret k (s.iRaiseCnt arg) }, hkt, hloop, hmem, ?_, ⟨a.pop, w, ?_⟩,
        Or.inr ⟨hdue, rfl, fun n hn => ?_⟩⟩
      · simp only [hgo, goOn, hkt, removeFromLink_of_owner howner, Option.map_some]
      · have hw : ∀ c m, m ∈ w c ↔ m ≠ (Wait.poll arg : Wait N C).item ∧ m ∈ w c := by
          intro c m
          refine ⟨fun hm => ⟨?_, hm⟩, And.right⟩
          rintro rfl
          obtain ⟨k', ms, hk'⟩ := hinv.ties.queued c _ hm
          have hkk := hinv.ties.unique hk' hkt rfl
          rw [hkk, hkt] at hk'
          cases hk'
        exact {
          keeps := ⟨idx, hk'⟩
          holds := hinv.holds
          timeout := hinv.timeout
          live := hlive
          ties := hinv.ties.leave hkt rfl rfl hitems hw
          calls := hinv.calls.push rfl rfl rfl hend (Function.update_self ..)
            (fun _ hne => Function.update_of_ne hne ..) hrank
          times := hinv.times.due hactive ⟨rfl, rfl⟩ hwaits rfl rfl rfl rfl fun c m hm => hm }
      · obtain rfl := Wait.poll.inj hn
        exact Function.update_self ..
    | timedwait link ms psi =>
      obtain ⟨conds, hremove, hq⟩ := LinkOp.holds_removed hinv.holds psi
      refine ⟨k, .timedwait link ms psi, now, { s with
        ep := { s.ep with links := PopHead .pstActiveList s.ep.links }
        conds
        cStart := update s.cStart k true
        pCallStack := k :: s.pCallStack
        pArg := update s.pArg psi none
        waits := update s.waits k none
        ret := update s.ret k 0 }, hkt, hloop, hmem, ?_, ⟨a.pop, fun c => (w c).erase psi, ?_⟩,
        Or.inr ⟨hdue, rfl, fun n hn => by cases hn⟩⟩
      · simp only [hgo, goOn, hkt, hremove, Option.map_some]
      · exact {
          keeps := ⟨idx, hk'⟩
          holds := hq
          timeout := hinv.timeout
          live := hlive
          ties := hinv.ties.leave hkt rfl rfl hitems fun c m => (hinv.holds.nodup c).mem_erase_iff
          calls := hinv.calls.push rfl rfl rfl hend (Function.update_self ..)
            (fun _ hne => Function.update_of_ne hne ..) hrank
          times := hinv.times.due hactive ⟨rfl, rfl⟩ hwaits rfl rfl rfl rfl
            fun c m hm => List.mem_of_mem_erase hm }

/-! ## Whole runs -/

/-- Each move. -/
theorem goes (hinv : Inv main rank used s a w) {m : CoMove N C K} (hcan : Can main rank s m)
    (hfuel : used < fuel) : Goes main rank used fuel s m := by
  cases m with
  | create co => exact goes_create hinv hcan
  | poll arg timeout now => exact goes_poll hinv hcan
  | timedwait link ms psi now => exact goes_timedwait hinv hcan
  | signal si => exact goes_signal hinv si
  | broadcast si => exact goes_broadcast hinv si hfuel
  | finish => exact goes_finish hinv hcan
  | epollWait => exact goes_epollWait hinv hcan
  | event pPoll => exact goes_event hinv hcan
  | take now => exact goes_take hinv hcan hfuel.le
  | pop =>
    obtain ⟨k, t, now, s', -, -, -, hs', ⟨a', w', hinv'⟩, -⟩ := pop_spec hinv hcan
    exact ⟨s', hs', a', w', hinv'.mono (Nat.le_succ used)⟩

/-- A run whose moves can be made keeps the invariant, with as much fuel as it makes items. -/
theorem inv_run {ms : List (CoMove N C K)} (hinv : Inv main rank used s a w)
    (hms : Moves.Meets (step fuel) (Can main rank) s ms) (hfuel : used + ms.length ≤ fuel) :
    ∃ s', Moves.run (step fuel) s ms = some s' ∧
      ∃ a w, Inv main rank (used + ms.length) s' a w := by
  induction ms generalizing s a w used with
  | nil => exact ⟨s, rfl, a, w, hinv⟩
  | cons m ms ih =>
    rw [List.length_cons] at hfuel ⊢
    obtain ⟨s1, hs1, a1, w1, hinv1⟩ := goes hinv hms.1 (by omega : used < fuel)
    obtain ⟨s', hs', a', w', hinv'⟩ := ih hinv1 (hms.2 s1 hs1) (by omega)
    refine ⟨s', Moves.run_cons_eq_some.mpr ⟨s1, hs1, hs'⟩, a', w', ?_⟩
    rwa [Nat.add_comm ms.length 1, ← Nat.add_assoc]

/-- Whatever the coroutines do, nothing is undefined : no memory that was freed is read, no
coroutine is resumed that is not suspended, and the call stack does not overflow. No list has
memory that was freed, and every coroutine that waits is found in one. -/
theorem run_sound {iSize now : ℕ} {ms : List (CoMove N C K)} (hsize : 1 < iSize ∧ iSize < 2 ^ 31)
    (hpos : 0 < now) (hlt : now < 2 ^ 63) (hfuel : ms.length ≤ fuel)
    (hms : Moves.Meets (step fuel) (Can main rank) (co_init_curr_thread_env iSize now main) ms) :
    ∃ s, Moves.run (step fuel) (co_init_curr_thread_env iSize now main) ms = some s ∧ s.Sound := by
  obtain ⟨s, hs, a, w, hinv⟩ := inv_run (inv_init hsize hpos hlt) hms (by omega)
  exact ⟨s, hs, hinv.sound⟩

/-- The main coroutine creates one that polls, and an event comes. -/
def polling : List (CoMove ℕ Unit ℕ) :=
  [.create 1, .poll 10 1000 5, .epollWait, .event 10, .take 6, .pop]

/-- `poll` returns 1. -/
theorem run_sound_polling : ∃ s : CoEnv ℕ Unit ℕ,
    Moves.run (step 6) (co_init_curr_thread_env 60000 5 0) polling = some s ∧ s.ret 1 = 1 ∧
      s.Sound := by
  have hms : Moves.Meets (step 6) (Can 0 fun k => k) (co_init_curr_thread_env 60000 5 0)
      polling := by
    refine ⟨⟨Or.inr rfl, rfl, by decide, by decide, by decide⟩, fun s hs => ?_⟩
    obtain rfl := Option.some.inj hs
    refine ⟨⟨⟨1, 0, [], rfl⟩, rfl, by decide, by decide⟩, fun s hs => ?_⟩
    obtain rfl := Option.some.inj hs
    refine ⟨⟨rfl, Or.inl rfl⟩, fun s hs => ?_⟩
    obtain rfl := Option.some.inj hs
    refine ⟨⟨rfl, rfl, 1, rfl⟩, fun s hs => ?_⟩
    obtain rfl := Option.some.inj hs
    refine ⟨⟨rfl, rfl, by decide, by decide⟩, fun s hs => ?_⟩
    obtain rfl := Option.some.inj hs
    exact ⟨⟨rfl, ⟨6, rfl⟩, by decide⟩, fun s hs => trivial⟩
  obtain ⟨s, hrun, hs⟩ := run_sound (by omega) (by omega) (by omega) (Nat.le_refl 6) hms
  have hret : (Moves.run (step 6) (co_init_curr_thread_env 60000 5 0) polling).map
      (fun s => s.ret 1) = some 1 := by
    decide +kernel
  rw [hrun] at hret
  exact ⟨s, hrun, Option.some.inj hret, hs⟩

end CoEnv

end WzxServer
