import WzxServer.Pool

/-!
# The count of connections

`m_db_cur_conn_cnt` is set to `MIN_DB_CONN_CNT` before there is any connection, and `_Init`
gives up at the first one that cannot be made. By `truthful_iff` the count is right, in every
state until the destructor is called, if and only if both connections of `_Init` are made and
`DBPoolMaxNum` allows for them. When none is made, a pool of two is of no use to anybody
(`Reach.idle`).

The count goes up with each connection that `GetDBConn` makes and nothing makes it go down, so a
count that is wrong at the start stays wrong by as much. The invariant `Counted` says that it is
right, and that callers wait only at its bound; `Counted.truthful` takes it to what a caller can
see.
-/

namespace WzxServer

namespace PoolState

variable {T : Type} [DecidableEq T]

/-- The count is the number of connections and within its bound. A call of `GetDBConn` that
comes to wait, waits again or times out finds all connections in use. -/
structure Truthful (s : PoolState T) : Prop where
  /-- The count is the number of connections. -/
  count : s.pool.curConnCnt = (s.pool.freeList ++ s.pool.usedList).length
  bound : s.pool.curConnCnt ≤ s.pool.maxConnCnt
  /-- A call waits when all connections are in use. -/
  waits : ∀ t timeoutMs created s', s.Permitted (.getDBConn t timeoutMs created) →
    s.perform (.getDBConn t timeoutMs created) = some (some .wait, s') →
    s.pool.usedList.length = s.pool.maxConnCnt
  /-- So does a call that woke up, and it gives up only then. -/
  wakes : ∀ t timedOut res s', s.Permitted (.wakeUp t timedOut) →
    s.perform (.wakeUp t timedOut) = some (some res, s') → res = .wait ∨ res = .null →
    s.pool.usedList.length = s.pool.maxConnCnt

/-- The invariant : callers wait only when the count is at its bound. -/
structure Counted (s : PoolState T) : Prop where
  /-- The count is the number of connections. -/
  count : s.pool.curConnCnt = (s.pool.freeList ++ s.pool.usedList).length
  bound : s.pool.curConnCnt ≤ s.pool.maxConnCnt
  /-- Below the bound a call makes a connection instead of waiting. -/
  full : ∀ t, s.waiting t ≠ none → s.pool.maxConnCnt ≤ s.pool.curConnCnt

/-! ## What a step does -/

variable {s s' : PoolState T}

/-- How a call of `GetDBConn` may end in a pool that is in service. -/
inductive Serves (p : Pool) : GetDBConn → Pool → Prop
  /-- There is no free connection, and the call does not make one. -/
  | idle {res : GetDBConn} (hfree : p.freeList = []) (hres : res = .null ∨ res = .wait) :
    Serves p res p
  /-- It makes one. -/
  | create (c : ℕ) (hfree : p.freeList = []) (hroom : p.curConnCnt < p.maxConnCnt) :
    Serves p (.conn c) ⟨p.curConnCnt + 1, p.maxConnCnt, [], p.usedList ++ [c], p.abortRequest⟩
  /-- There is a free one. -/
  | reuse (c : ℕ) (rest : List ℕ) (hfree : p.freeList = c :: rest) :
    Serves p (.conn c)
      ⟨p.curConnCnt, p.maxConnCnt, rest, p.usedList ++ [c], p.abortRequest⟩

theorem serves_take {p p' : Pool} {res : GetDBConn} (h : p.take = some (res, p')) :
    Serves p res p' := by
  rw [Pool.take] at h
  split at h
  · cases h
  · next c rest hfree =>
    obtain ⟨rfl, rfl⟩ := Prod.mk.inj (Option.some.inj h)
    exact .reuse c rest hfree

theorem serves_getDBConn {p p' : Pool} {created : Option ℕ} {res : GetDBConn}
    (hserv : p.abortRequest = false) (h : p.getDBConn created = some (res, p')) :
    Serves p res p' ∧ (res = .wait → p.maxConnCnt ≤ p.curConnCnt) := by
  unfold Pool.getDBConn at h
  rw [if_neg (Bool.not_eq_true _ ▸ hserv)] at h
  by_cases hfree : p.freeList = []
  · rw [if_pos hfree] at h
    by_cases hfull : p.maxConnCnt ≤ p.curConnCnt
    · rw [if_pos hfull] at h
      obtain ⟨rfl, rfl⟩ := Prod.mk.inj (Option.some.inj h)
      exact ⟨.idle hfree (Or.inr rfl), fun _ => hfull⟩
    · rw [if_neg hfull] at h
      rcases created with _ | c
      · obtain ⟨rfl, rfl⟩ := Prod.mk.inj (Option.some.inj h)
        exact ⟨.idle hfree (Or.inl rfl), by simp⟩
      · simp only [Pool.take, hfree, List.nil_append] at h
        obtain ⟨rfl, rfl⟩ := Prod.mk.inj (Option.some.inj h)
        exact ⟨.create c hfree (Int.not_le.mp hfull), by simp⟩
  · rw [if_neg hfree] at h
    have hserves := serves_take h
    refine ⟨hserves, ?_⟩
    rintro rfl
    cases hserves
    contradiction

theorem serves_wakeUp {p p' : Pool} {timeoutMs : ℤ} {timedOut : Bool} {res : GetDBConn}
    (hserv : p.abortRequest = false) (h : p.wakeUp timeoutMs timedOut = some (res, p')) :
    Serves p res p' := by
  rw [Pool.wakeUp] at h
  split_ifs at h with hwait hnull habort
  · obtain ⟨rfl, rfl⟩ := Prod.mk.inj (Option.some.inj h)
    exact .idle hwait.1 (Or.inr rfl)
  · obtain ⟨rfl, rfl⟩ := Prod.mk.inj (Option.some.inj h)
    exact .idle hnull.2 (Or.inl rfl)
  · rw [hserv] at habort
    cases habort
  · exact serves_take h

theorem Serves.freeList {p p' : Pool} {res : GetDBConn} (h : Serves p res p')
    (hres : res = .wait ∨ res = .null) : p.freeList = [] := by
  cases h with
  | idle hfree _ => exact hfree
  | create => simp at hres
  | reuse => simp at hres

/-- In service, callers wait only when all connections are in use. -/
theorem Counted.truthful (h : Counted s) (hserv : s.pool.abortRequest = false) : Truthful s := by
  have hused : s.pool.freeList = [] → s.pool.maxConnCnt ≤ s.pool.curConnCnt →
      s.pool.usedList.length = s.pool.maxConnCnt := by
    intro hfree hfull
    have hcount := h.count
    rw [hfree, List.nil_append] at hcount
    have hbound := h.bound
    omega
  refine ⟨h.count, h.bound, ?_, ?_⟩
  · intro t timeoutMs created s' _ hs
    obtain ⟨⟨res, p⟩, hr, heq⟩ := Option.map_eq_some_iff.mp hs
    obtain rfl : res = .wait := Option.some.inj (Prod.mk.inj heq).1
    obtain ⟨hserves, hfull⟩ := serves_getDBConn hserv hr
    exact hused (hserves.freeList (Or.inl rfl)) (hfull rfl)
  · intro t timedOut res s' hop hs hres
    obtain ⟨⟨res', p⟩, hr, heq⟩ := Option.map_eq_some_iff.mp hs
    obtain rfl : res' = res := Option.some.inj (Prod.mk.inj heq).1
    have hserves := serves_wakeUp hserv hr
    exact hused (hserves.freeList hres) (h.full t (Option.isSome_iff_ne_none.mp hop))

/-! ## Every step keeps the invariant -/

/-- A call of `GetDBConn` keeps it, if it waits only when the count is at its bound. -/
theorem Counted.settle (h : Counted s) (t : T) (timeoutMs : ℤ) {res : GetDBConn} {p : Pool}
    (hserves : Serves s.pool res p)
    (hwait : res = .wait → s.pool.maxConnCnt ≤ s.pool.curConnCnt) :
    Counted (s.settle t timeoutMs p res) := by
  have hcount := h.count
  have hbound := h.bound
  have hdone : ∀ t', Function.update s.waiting t none t' ≠ none →
      s.pool.maxConnCnt ≤ s.pool.curConnCnt := by
    intro t' ht'
    rcases eq_or_ne t' t with rfl | hne
    · exact absurd (Function.update_self ..) ht'
    · exact h.full t' (by rwa [Function.update_of_ne hne] at ht')
  cases hserves with
  | idle hfree hres =>
    rcases hres with rfl | rfl
    · exact ⟨hcount, hbound, hdone⟩
    · exact ⟨hcount, hbound, fun _ _ => hwait rfl⟩
  | create c hfree hroom =>
    rw [hfree, List.nil_append] at hcount
    refine ⟨?_, ?_, fun t' ht' => ?_⟩
    · simp [PoolState.settle, hcount]
    · simp only [PoolState.settle]
      omega
    · have hfull := hdone t' ht'
      simp only [PoolState.settle]
      omega
  | reuse c rest hfree =>
    rw [hfree] at hcount
    refine ⟨?_, hbound, hdone⟩
    simp only [PoolState.settle, List.length_append, List.length_cons, List.length_nil] at hcount ⊢
    omega

theorem Counted.release (h : Counted s) (howned : Owned s) {t : T} {c : ℕ}
    (hc : c ∈ s.held t) : Counted (s.release t c) := by
  have hfree : c ∉ s.pool.freeList := by
    intro hfree
    have hplace := howned.apart.eq_of_mem (p := none) (q := some t) hfree hc
    exact Option.some_ne_none t hplace.symm
  have hused : c ∈ s.pool.usedList := (howned.mem_used c).mpr ⟨t, hc⟩
  have hlength : (s.pool.usedList.filter (· ≠ c)).length + 1 = s.pool.usedList.length := by
    have herase : s.pool.usedList.filter (· ≠ c) = s.pool.usedList.erase c := by
      rw [howned.used.erase_eq_filter]
      exact List.filter_congr fun x _ => by simp [bne, beq_eq_decide]
    rw [herase, List.length_erase_of_mem hused]
    have hpos := List.length_pos_of_mem hused
    omega
  have hpool : (s.release t c).pool = { s.pool with
      usedList := s.pool.usedList.filter (· ≠ c)
      freeList := s.pool.freeList ++ [c] } := by
    rw [PoolState.release, Pool.relDBConn, if_neg hfree]
  have hcount := h.count
  refine ⟨?_, ?_, ?_⟩
  · rw [hpool]
    simp only [List.length_append, List.length_cons, List.length_nil] at hcount ⊢
    omega
  · rw [hpool]
    exact h.bound
  · rw [hpool]
    exact h.full

theorem Counted.perform (h : Counted s) (howned : Owned s) {op : PoolOp T}
    {res : Option GetDBConn} (hop : s.Permitted op) (hs : s.perform op = some (res, s'))
    (hserv : s'.pool.abortRequest = false) (hserv' : s.pool.abortRequest = false) :
    Counted s' := by
  cases op with
  | getDBConn t timeoutMs created =>
    obtain ⟨⟨res', p⟩, hr, heq⟩ := Option.map_eq_some_iff.mp hs
    obtain ⟨-, rfl⟩ := Prod.mk.inj heq
    obtain ⟨hserves, hwait⟩ := serves_getDBConn hserv' hr
    exact h.settle t timeoutMs hserves hwait
  | wakeUp t timedOut =>
    obtain ⟨⟨res', p⟩, hr, heq⟩ := Option.map_eq_some_iff.mp hs
    obtain ⟨-, rfl⟩ := Prod.mk.inj heq
    have hfull := h.full t (Option.isSome_iff_ne_none.mp hop)
    exact h.settle t _ (serves_wakeUp hserv' hr) fun _ => hfull
  | relDBConn t c =>
    obtain ⟨-, rfl⟩ := Prod.mk.inj (Option.some.inj hs)
    rcases hop.2 with hc | hc
    · exact h.release howned hc
    · rwa [howned.release_free hc]
  | destroy =>
    obtain ⟨-, rfl⟩ := Prod.mk.inj (Option.some.inj hs)
    cases hserv

/-! ## Runs -/

theorem abortRequest_of_take {p p' : Pool} {res : GetDBConn} (h : p.take = some (res, p')) :
    p'.abortRequest = p.abortRequest := by
  cases serves_take h <;> rfl

/-- A pool that is in service was in service before. -/
theorem inService_of_perform {op : PoolOp T} {res : Option GetDBConn}
    (hs : s.perform op = some (res, s')) (hserv : s'.pool.abortRequest = false) :
    s.pool.abortRequest = false := by
  cases op with
  | getDBConn t timeoutMs created =>
    obtain ⟨⟨res', p⟩, hr, heq⟩ := Option.map_eq_some_iff.mp hs
    obtain ⟨-, rfl⟩ := Prod.mk.inj heq
    rw [pool_settle] at hserv
    by_contra habort
    unfold Pool.getDBConn at hr
    rw [if_pos (Bool.not_eq_false _ ▸ habort)] at hr
    obtain ⟨-, rfl⟩ := Prod.mk.inj (Option.some.inj hr)
    exact habort hserv
  | wakeUp t timedOut =>
    obtain ⟨⟨res', p⟩, hr, heq⟩ := Option.map_eq_some_iff.mp hs
    obtain ⟨-, rfl⟩ := Prod.mk.inj heq
    rw [pool_settle] at hserv
    rw [Pool.wakeUp] at hr
    split_ifs at hr
    · obtain ⟨-, rfl⟩ := Prod.mk.inj (Option.some.inj hr)
      exact hserv
    · obtain ⟨-, rfl⟩ := Prod.mk.inj (Option.some.inj hr)
      exact hserv
    · obtain ⟨-, rfl⟩ := Prod.mk.inj (Option.some.inj hr)
      exact hserv
    · exact (abortRequest_of_take hr).symm.trans hserv
  | relDBConn t c =>
    obtain ⟨-, rfl⟩ := Prod.mk.inj (Option.some.inj hs)
    change (s.pool.relDBConn c).abortRequest = false at hserv
    rw [Pool.relDBConn] at hserv
    split_ifs at hserv <;> exact hserv
  | destroy =>
    obtain ⟨-, rfl⟩ := Prod.mk.inj (Option.some.inj hs)
    cases hserv

theorem Reach.counted {maxConnCnt : ℤ} {conns : List ℕ} (hconns : conns.Nodup)
    (hmade : Pool.minConnCnt ≤ conns.length) (hmax : Pool.minConnCnt ≤ maxConnCnt)
    (h : Reach maxConnCnt conns s) (hserv : s.pool.abortRequest = false) : Counted s := by
  induction h with
  | init =>
    refine ⟨?_, hmax, fun t ht => absurd rfl ht⟩
    simp [Pool.init, hmade]
  | step hreach hop hs ih =>
    have hserv' := inService_of_perform hs hserv
    exact (ih hserv').perform (hreach.owned hconns) hop hs hserv hserv'

/-- The count is truthful in every state of a pool in service if and only if `_Init` makes its
two connections, and `DBPoolMaxNum` is not less than two. -/
theorem truthful_iff {maxConnCnt : ℤ} {conns : List ℕ} (hconns : conns.Nodup) :
    (∀ s : PoolState T, Reach maxConnCnt conns s → s.pool.abortRequest = false → Truthful s) ↔
      Pool.minConnCnt ≤ conns.length ∧ Pool.minConnCnt ≤ maxConnCnt := by
  constructor
  · intro h
    have hinit := h _ Reach.init rfl
    refine ⟨?_, hinit.bound⟩
    have hcount := hinit.count
    simp only [Pool.init, List.append_nil, List.length_take] at hcount
    omega
  · rintro ⟨hmade, hmax⟩ s hs hserv
    exact (hs.counted hconns hmade hmax hserv).truthful hserv

/-- A pool of four. -/
theorem truthful_iff_four :
    (∀ s : PoolState (Fin 3), Reach 4 [10, 11] s → s.pool.abortRequest = false → Truthful s) ↔
      Pool.minConnCnt ≤ [10, 11].length ∧ Pool.minConnCnt ≤ (4 : ℤ) :=
  truthful_iff (by decide)

/-- The first connection cannot be made, and the count says two. -/
theorem not_truthful_refused :
    ¬∀ (maxConnCnt : ℤ) (conns : List ℕ) (s : PoolState (Fin 1)), conns.Nodup →
      Reach maxConnCnt conns s → s.pool.abortRequest = false → Truthful s := by
  intro h
  have hcount := (h 2 [] _ List.nodup_nil Reach.init rfl).count
  revert hcount
  decide

/-- A pool of at most two that begins without connections has none, ever. -/
theorem Reach.idle {maxConnCnt : ℤ} (hmax : maxConnCnt ≤ Pool.minConnCnt)
    (h : Reach maxConnCnt [] s) (hserv : s.pool.abortRequest = false) :
    s.pool.freeList = [] ∧ s.pool.usedList = [] := by
  suffices hall : s.pool.maxConnCnt ≤ s.pool.curConnCnt ∧ s.pool.freeList = [] ∧
      s.pool.usedList = [] from hall.2
  have hserves : ∀ {p p' : Pool} {res : GetDBConn}, Serves p res p' →
      p.maxConnCnt ≤ p.curConnCnt ∧ p.freeList = [] ∧ p.usedList = [] →
      p'.maxConnCnt ≤ p'.curConnCnt ∧ p'.freeList = [] ∧ p'.usedList = [] := by
    rintro p p' res (⟨-, -⟩ | ⟨c, -, hroom⟩ | ⟨c, rest, hfree⟩) ⟨hfull, hnil, hused⟩
    · exact ⟨hfull, hnil, hused⟩
    · exact absurd hroom (Int.not_lt.mpr hfull)
    · rw [hfree] at hnil
      cases hnil
  induction h with
  | init => exact ⟨hmax, rfl, rfl⟩
  | @step s s' op res hreach hop hs ih =>
    have hserv' := inService_of_perform hs hserv
    have hidle := ih hserv'
    cases op with
    | getDBConn t timeoutMs created =>
      obtain ⟨⟨res', p⟩, hr, heq⟩ := Option.map_eq_some_iff.mp hs
      obtain ⟨-, rfl⟩ := Prod.mk.inj heq
      rw [pool_settle]
      exact hserves (serves_getDBConn hserv' hr).1 hidle
    | wakeUp t timedOut =>
      obtain ⟨⟨res', p⟩, hr, heq⟩ := Option.map_eq_some_iff.mp hs
      obtain ⟨-, rfl⟩ := Prod.mk.inj heq
      rw [pool_settle]
      exact hserves (serves_wakeUp hserv' hr) hidle
    | relDBConn t c =>
      have howned := hreach.owned List.nodup_nil
      rcases hop.2 with hc | hc
      · have hused := (howned.mem_used c).mpr ⟨t, hc⟩
        rw [hidle.2.2] at hused
        exact absurd hused List.not_mem_nil
      · rw [hidle.2.1] at hc
        exact absurd hc List.not_mem_nil
    | destroy =>
      obtain ⟨-, rfl⟩ := Prod.mk.inj (Option.some.inj hs)
      cases hserv

end PoolState

end WzxServer
