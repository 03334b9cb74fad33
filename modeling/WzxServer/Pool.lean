import WzxServer.Lib.Places
import Mathlib.Data.Int.Basic
import Mathlib.Data.List.Basic

/-!
# The connection pool

`CDBPool` of `DBPool.cpp`. Its functions hold the mutex from beginning to end, except for the
waits of `GetDBConn`, so a call is one step (`getDBConn`) and one more for each time that it
wakes up (`wakeUp`). A waiting call may wake up at any time, notified or not.

By `pool_exclusive` a connection is either free or held by one caller.

The pool itself only knows its lists and its count. `PoolState` puts the callers beside it, with
the connections that they were given, and `Owned` says that the lists of the pool and what the
callers hold are the same connections, each at one place. A caller releases what it holds, which
is what the handlers do; the address of a new connection is none of those in the pool.
-/

namespace WzxServer

/-- `CDBPool`. Connections are known by their addresses. -/
structure Pool where
  curConnCnt : ℤ
  maxConnCnt : ℤ
  freeList : List ℕ
  usedList : List ℕ
  abortRequest : Bool

/-- How a step of `GetDBConn` ends : with a connection, with `NULL`, or in a wait. -/
inductive GetDBConn where
  /-- The call returns `c`. -/
  | conn (c : ℕ)
  /-- The call returns `NULL`. -/
  | null
  /-- The call waits. -/
  | wait
  deriving DecidableEq

namespace Pool

/-- `MIN_DB_CONN_CNT` -/
def minConnCnt : ℕ :=
  2

/-- The constructor, when `_Init` can make the connections `conns`. -/
def init (maxConnCnt : ℤ) (conns : List ℕ) : Pool :=
  ⟨minConnCnt, maxConnCnt, conns.take minConnCnt, [], false⟩

/-- The end of `GetDBConn`, which is undefined when no connection is free. -/
def take (p : Pool) : Option (GetDBConn × Pool) :=
  match p.freeList with
  | [] => none
  | c :: rest => some (.conn c, { p with freeList := rest, usedList := p.usedList ++ [c] })

/-- `GetDBConn` up to its end or a wait. A connection that it makes is `created`, if it can
be initialised. -/
def getDBConn (p : Pool) (created : Option ℕ) : Option (GetDBConn × Pool) :=
  if p.abortRequest then some (.null, p)
  else if p.freeList = [] then
    if p.maxConnCnt ≤ p.curConnCnt then some (.wait, p)
    else match created with
      | none => some (.null, p)
      | some c =>
        take { p with freeList := p.freeList ++ [c], curConnCnt := p.curConnCnt + 1 }
  else p.take

/-- `GetDBConn` from where its wait wakes up, up to its end or an other wait. -/
def wakeUp (p : Pool) (timeoutMs : ℤ) (timedOut : Bool) : Option (GetDBConn × Pool) :=
  if p.freeList = [] ∧ p.abortRequest = false ∧ ¬(0 < timeoutMs ∧ timedOut) then some (.wait, p)
  else if 0 < timeoutMs ∧ p.freeList = [] then some (.null, p)
  else if p.abortRequest then some (.null, p)
  else p.take

/-- `RelDBConn` -/
def relDBConn (p : Pool) (c : ℕ) : Pool :=
  if c ∈ p.freeList then p
  else { p with usedList := p.usedList.filter (· ≠ c), freeList := p.freeList ++ [c] }

/-- The destructor. -/
def destroy (p : Pool) : Pool :=
  { p with abortRequest := true, freeList := [] }

end Pool

/-- The pool with its callers, the timeouts of those that wait and the connections that they
hold. -/
structure PoolState (T : Type) where
  pool : Pool
  waiting : T → Option ℤ
  held : T → List ℕ

/-- What callers do to the pool. A call may make a connection, and one that waits is woken with
a connection or at its timeout. -/
inductive PoolOp (T : Type) where
  /-- A call, with the connection that it could make. -/
  | getDBConn (t : T) (timeoutMs : ℤ) (created : Option ℕ)
  /-- A call that waits goes on, notified or at its timeout. -/
  | wakeUp (t : T) (timedOut : Bool)
  /-- A caller gives a connection back. -/
  | relDBConn (t : T) (c : ℕ)
  /-- The destructor. -/
  | destroy

namespace PoolState

variable {T : Type}

/-- The places of connections : the free list, and the callers. -/
def places (s : PoolState T) : Option T → List ℕ
  | none => s.pool.freeList
  | some t => s.held t

/-- The invariant : a connection is in one place, and the used list holds what callers hold. -/
structure Owned (s : PoolState T) : Prop where
  /-- A connection is free or with one caller. -/
  apart : Places.Apart s.places
  used : s.pool.usedList.Nodup
  /-- The used list is what callers hold, whoever they are. -/
  mem_used : ∀ c, c ∈ s.pool.usedList ↔ ∃ t, c ∈ s.held t

theorem Owned.nodup {s : PoolState T} (h : Owned s) :
    (s.pool.freeList ++ s.pool.usedList).Nodup := by
  refine List.nodup_append.mpr ⟨h.apart.nodup none, h.used, ?_⟩
  rintro c hfree c' hused rfl
  obtain ⟨t, ht⟩ := (h.mem_used c).mp hused
  exact absurd (h.apart.eq_of_mem (p := none) (q := some t) hfree ht) (Option.some_ne_none t).symm

variable [DecidableEq T]

/-- What a step of `GetDBConn` means for its caller. -/
def settle (s : PoolState T) (t : T) (timeoutMs : ℤ) (p : Pool) : GetDBConn → PoolState T
  | .conn c => ⟨p, Function.update s.waiting t none, Function.update s.held t (s.held t ++ [c])⟩
  | .null => ⟨p, Function.update s.waiting t none, s.held⟩
  | .wait => ⟨p, Function.update s.waiting t (some timeoutMs), s.held⟩

@[simp] theorem pool_settle (s : PoolState T) (t : T) (timeoutMs : ℤ) (p : Pool)
    (res : GetDBConn) : (s.settle t timeoutMs p res).pool = p := by
  cases res <;> rfl

/-- A caller releases a connection. -/
def release (s : PoolState T) (t : T) (c : ℕ) : PoolState T :=
  { s with
    pool := s.pool.relDBConn c
    held := Function.update s.held t ((s.held t).filter (· ≠ c)) }

theorem mem_held_release {s : PoolState T} {t t' : T} {c c' : ℕ} :
    c' ∈ (s.release t c).held t' ↔ c' ∈ s.held t' ∧ (t' = t → c' ≠ c) := by
  change c' ∈ Function.update s.held t ((s.held t).filter (· ≠ c)) t' ↔ _
  rcases eq_or_ne t' t with rfl | hne
  · simp
  · simp [hne]

/-- One step, and how it ends if it is one of `GetDBConn`. -/
def perform (s : PoolState T) : PoolOp T → Option (Option GetDBConn × PoolState T)
  | .getDBConn t timeoutMs created =>
    (s.pool.getDBConn created).map fun r => (some r.1, s.settle t timeoutMs r.2 r.1)
  | .wakeUp t timedOut =>
    let timeoutMs := (s.waiting t).getD 0
    (s.pool.wakeUp timeoutMs timedOut).map fun r => (some r.1, s.settle t timeoutMs r.2 r.1)
  | .relDBConn t c => some (none, s.release t c)
  | .destroy => some (none, { s with pool := s.pool.destroy })

/-- What may happen : a caller is not in two calls at once, a new connection is none of those
in the pool, and a caller releases what it holds, or what is free. -/
def Permitted (s : PoolState T) : PoolOp T → Prop
  | .getDBConn t _ created =>
    s.waiting t = none ∧ ∀ c, created = some c → c ∉ s.pool.freeList ∧ c ∉ s.pool.usedList
  | .wakeUp t _ => (s.waiting t).isSome
  | .relDBConn t c => s.waiting t = none ∧ (c ∈ s.held t ∨ c ∈ s.pool.freeList)
  | .destroy => True

/-- The states of a pool that begins with the connections `conns`. -/
inductive Reach (maxConnCnt : ℤ) (conns : List ℕ) : PoolState T → Prop
  | init : Reach maxConnCnt conns ⟨.init maxConnCnt conns, fun _ => none, fun _ => []⟩
  | step {s s' : PoolState T} {op : PoolOp T} {res : Option GetDBConn}
      (h : Reach maxConnCnt conns s) (hop : s.Permitted op)
      (hs : s.perform op = some (res, s')) : Reach maxConnCnt conns s'

/-! ## Where the connections are -/

open Places

variable {s : PoolState T}

/-- The first free connection goes to a caller. -/
theorem Owned.take (h : Owned s) (t : T) (timeoutMs : ℤ) {c : ℕ} {rest : List ℕ} {p : Pool}
    (hfree : s.pool.freeList = c :: rest) (hp : p.freeList = rest)
    (hused : p.usedList = s.pool.usedList ++ [c]) :
    Owned (s.settle t timeoutMs p (.conn c)) ∧ ∀ t, c ∉ s.held t := by
  obtain ⟨hpop, haway⟩ := h.apart.pop (show s.places none = c :: rest from hfree)
  have hnot : ∀ t, c ∉ s.held t := fun t => haway (some t)
  refine ⟨⟨?_, ?_, ?_⟩, hnot⟩
  · have hpush := hpop.push haway (some t)
    have hplaces : (s.settle t timeoutMs p (.conn c)).places = Function.update
        (Function.update s.places none rest) (some t)
        (Function.update s.places none rest (some t) ++ [c]) := by
      ext1 q
      rcases q with _ | t'
      · simp [places, settle, hp]
      · rcases eq_or_ne t' t with rfl | hne
        · simp [places, settle]
        · simp [places, settle, hne]
    rwa [hplaces]
  · change p.usedList.Nodup
    rw [hused]
    refine List.nodup_append.mpr ⟨h.used, List.nodup_singleton c, ?_⟩
    rintro c' hc' c'' hc'' rfl
    obtain ⟨t', ht'⟩ := (h.mem_used c').mp hc'
    exact hnot t' (List.mem_singleton.mp hc'' ▸ ht')
  · intro c'
    change c' ∈ p.usedList ↔ ∃ t', c' ∈ Function.update s.held t (s.held t ++ [c]) t'
    rw [hused, List.mem_append, h.mem_used, List.mem_singleton]
    constructor
    · rintro (⟨t', ht'⟩ | rfl)
      · refine ⟨t', ?_⟩
        rcases eq_or_ne t' t with rfl | hne
        · rw [Function.update_self]
          exact List.mem_append_left _ ht'
        · rwa [Function.update_of_ne hne]
      · exact ⟨t, by simp⟩
    · rintro ⟨t', ht'⟩
      rcases eq_or_ne t' t with rfl | hne
      · rw [Function.update_self, List.mem_append, List.mem_singleton] at ht'
        exact ht'.imp (fun h => ⟨t', h⟩) id
      · rw [Function.update_of_ne hne] at ht'
        exact Or.inl ⟨t', ht'⟩

/-- A new connection becomes free. -/
theorem Owned.create (h : Owned s) {c : ℕ} {p : Pool} (hfree : c ∉ s.pool.freeList)
    (hused : c ∉ s.pool.usedList) (hp : p.freeList = s.pool.freeList ++ [c])
    (hpused : p.usedList = s.pool.usedList) : Owned { s with pool := p } := by
  have haway : Away s.places c := by
    rintro (_ | t) hc
    · exact hfree hc
    · exact hused ((h.mem_used c).mpr ⟨t, hc⟩)
  have hplaces : ({ s with pool := p } : PoolState T).places =
      Function.update s.places none (s.places none ++ [c]) := by
    ext1 q
    rcases q with _ | t
    · simp [places, hp]
    · simp [places]
  refine ⟨hplaces ▸ h.apart.push haway none, ?_, ?_⟩
  · change p.usedList.Nodup
    rw [hpused]
    exact h.used
  · intro c'
    change c' ∈ p.usedList ↔ _
    rw [hpused]
    exact h.mem_used c'

/-- What a step of `GetDBConn` must be : defined, and keep the invariant; a connection that it
returns is held by no caller, and otherwise it leaves the lists as they are. -/
def Proper (s : PoolState T) (t : T) (timeoutMs : ℤ) (r : Option (GetDBConn × Pool)) : Prop :=
  ∃ res p, r = some (res, p) ∧ Owned (s.settle t timeoutMs p res) ∧
    (∀ c, res = .conn c → ∀ t', c ∉ s.held t') ∧
    (res = .null ∨ res = .wait →
      p.freeList = s.pool.freeList ∧ p.usedList = s.pool.usedList)

theorem Owned.idle (h : Owned s) (t : T) (timeoutMs : ℤ) {res : GetDBConn}
    (hres : res = .null ∨ res = .wait) : Proper s t timeoutMs (some (res, s.pool)) := by
  refine ⟨res, s.pool, rfl, ?_, ?_, fun _ => ⟨rfl, rfl⟩⟩
  · rcases hres with rfl | rfl <;> exact ⟨h.apart, h.used, h.mem_used⟩
  · rintro c rfl
    simp at hres

theorem Owned.proper_take (h : Owned s) (t : T) (timeoutMs : ℤ) (hne : s.pool.freeList ≠ []) :
    Proper s t timeoutMs s.pool.take := by
  obtain ⟨c, rest, hfree⟩ := List.exists_cons_of_ne_nil hne
  obtain ⟨howned, hnot⟩ := h.take t timeoutMs hfree
    (p := { s.pool with freeList := rest, usedList := s.pool.usedList ++ [c] }) rfl rfl
  refine ⟨.conn c, _, by rw [Pool.take, hfree], howned, ?_, by simp⟩
  rintro c' hc'
  obtain rfl := GetDBConn.conn.inj hc'
  exact hnot

theorem Owned.proper_getDBConn (h : Owned s) (t : T) (timeoutMs : ℤ) {created : Option ℕ}
    (hnew : ∀ c, created = some c → c ∉ s.pool.freeList ∧ c ∉ s.pool.usedList) :
    Proper s t timeoutMs (s.pool.getDBConn created) := by
  unfold Pool.getDBConn
  split_ifs with habort hfree hfull
  · exact h.idle t timeoutMs (Or.inl rfl)
  · exact h.idle t timeoutMs (Or.inr rfl)
  · rcases created with _ | c
    · exact h.idle t timeoutMs (Or.inl rfl)
    · obtain ⟨hcfree, hcused⟩ := hnew c rfl
      have hcreate := h.create (p := { s.pool with
        freeList := s.pool.freeList ++ [c]
        curConnCnt := s.pool.curConnCnt + 1 }) hcfree hcused rfl rfl
      obtain ⟨res, p, hr, howned, hnot, hsame⟩ := hcreate.proper_take t timeoutMs (by simp)
      refine ⟨res, p, hr, howned, hnot, fun hres => ?_⟩
      simp only [Pool.take, hfree, List.nil_append, Option.some.injEq, Prod.mk.injEq] at hr
      rw [← hr.1] at hres
      simp at hres
  · exact h.proper_take t timeoutMs hfree

theorem Owned.proper_wakeUp (h : Owned s) (t : T) (timeoutMs : ℤ) (timedOut : Bool) :
    Proper s t timeoutMs (s.pool.wakeUp timeoutMs timedOut) := by
  unfold Pool.wakeUp
  split_ifs with hwait hfree habort
  · exact h.idle t timeoutMs (Or.inr rfl)
  · exact h.idle t timeoutMs (Or.inl rfl)
  · exact h.idle t timeoutMs (Or.inl rfl)
  · refine h.proper_take t timeoutMs fun hnil => hwait ⟨hnil, ?_, fun h => hfree ⟨h.1, hnil⟩⟩
    exact Bool.not_eq_true _ ▸ habort

/-! ## Releases, and the end -/

theorem Owned.release (h : Owned s) {t : T} {c : ℕ} (hc : c ∈ s.held t) :
    Owned (s.release t c) := by
  have hfree : c ∉ s.pool.freeList := fun hfree =>
    absurd (h.apart.eq_of_mem (p := none) (q := some t) hfree hc) (Option.some_ne_none t).symm
  have hother : ∀ t' ≠ t, c ∉ s.held t' := fun t' hne hc' =>
    hne (Option.some.inj (h.apart.eq_of_mem (p := some t') (q := some t) hc' hc))
  have hdrop : Apart (Function.update s.places (some t) ((s.held t).filter (· ≠ c))) :=
    h.apart.update ((h.apart.nodup (some t)).filter _)
      fun c' hc' => Or.inl (List.mem_of_mem_filter hc')
  have haway : Away (Function.update s.places (some t) ((s.held t).filter (· ≠ c))) c := by
    rintro (_ | t') hc'
    · rw [Function.update_of_ne (Option.some_ne_none t).symm] at hc'
      exact hfree hc'
    · rcases eq_or_ne t' t with rfl | hne
      · simp at hc'
      · rw [Function.update_of_ne (fun heq => hne (Option.some.inj heq))] at hc'
        exact hother t' hne hc'
  have hpool : (s.release t c).pool.usedList = s.pool.usedList.filter (· ≠ c) ∧
      (s.release t c).pool.freeList = s.pool.freeList ++ [c] := by
    rw [PoolState.release, Pool.relDBConn, if_neg hfree]
    exact ⟨rfl, rfl⟩
  refine ⟨?_, hpool.1 ▸ h.used.filter _, fun c' => ?_⟩
  · have hpush := hdrop.push haway none
    convert hpush using 1
    ext1 q
    rcases q with _ | t'
    · simp [places, hpool.2]
    · rcases eq_or_ne t' t with rfl | hne
      · simp [places, PoolState.release]
      · simp [places, PoolState.release, hne]
  · rw [hpool.1, List.mem_filter, h.mem_used, decide_eq_true_iff]
    simp only [mem_held_release]
    constructor
    · rintro ⟨⟨t', ht'⟩, hne⟩
      exact ⟨t', ht', fun _ => hne⟩
    · rintro ⟨t', ht', hne⟩
      refine ⟨⟨t', ht'⟩, ?_⟩
      rintro rfl
      rcases eq_or_ne t' t with rfl | htne
      · exact hne rfl rfl
      · exact hother t' htne ht'

/-- Releasing a free connection changes nothing. -/
theorem Owned.release_free (h : Owned s) {c : ℕ} (hc : c ∈ s.pool.freeList) (t : T) :
    s.release t c = s := by
  have hheld : (s.held t).filter (· ≠ c) = s.held t := by
    refine List.filter_eq_self.mpr fun c' hc' => decide_eq_true ?_
    rintro rfl
    exact absurd (h.apart.eq_of_mem (p := none) (q := some t) hc hc')
      (Option.some_ne_none t).symm
  rw [PoolState.release, Pool.relDBConn, if_pos hc, hheld, Function.update_eq_self]

theorem Owned.destroy (h : Owned s) : Owned { s with pool := s.pool.destroy } := by
  refine ⟨?_, h.used, h.mem_used⟩
  have hdrop : Apart (Function.update s.places none []) :=
    h.apart.update List.nodup_nil fun c hc => absurd hc List.not_mem_nil
  convert hdrop using 1
  ext1 q
  rcases q with _ | t
  · simp [places, Pool.destroy]
  · simp [places]

/-! ## Runs -/

omit [DecidableEq T] in
theorem owned_init (maxConnCnt : ℤ) {conns : List ℕ} (hconns : conns.Nodup) :
    Owned (⟨.init maxConnCnt conns, fun _ => none, fun _ => []⟩ : PoolState T) := by
  refine ⟨⟨?_, ?_⟩, List.nodup_nil, fun c => ?_⟩
  · rintro (_ | t)
    · exact hconns.sublist (List.take_sublist _ _)
    · exact List.nodup_nil
  · rintro (_ | t) (_ | t') hne
    · exact absurd rfl hne
    · exact List.disjoint_nil_right _
    · exact List.disjoint_nil_left _
    · exact List.disjoint_nil_left _
  · simp [Pool.init]

/-- What a step must be. A connection that it returns is held by no caller, a call that
returns `NULL` leaves the lists as they are, and so does one that waits, and releasing a free
connection changes nothing. -/
structure Sound (s : PoolState T) (op : PoolOp T) (res : Option GetDBConn) (s' : PoolState T) :
    Prop where
  nodup : (s'.pool.freeList ++ s'.pool.usedList).Nodup
  conn : ∀ c, res = some (.conn c) → ∀ t, c ∉ s.held t
  null : res = some .null ∨ res = some .wait →
    s'.pool.freeList = s.pool.freeList ∧ s'.pool.usedList = s.pool.usedList
  again : ∀ t c, op = .relDBConn t c → c ∈ s.pool.freeList → s' = s

theorem Proper.sound {t : T} {timeoutMs : ℤ} {r : Option (GetDBConn × Pool)}
    (h : Proper s t timeoutMs r) {op : PoolOp T} (hop : ∀ t c, op ≠ .relDBConn t c) :
    ∃ res s', r.map (fun r => (some r.1, s.settle t timeoutMs r.2 r.1)) = some (res, s') ∧
      Owned s' ∧ Sound s op res s' := by
  obtain ⟨res, p, rfl, howned, hconn, hnull⟩ := h
  refine ⟨_, _, rfl, howned, howned.nodup, ?_, ?_, fun t c heq => absurd heq (hop t c)⟩
  · exact fun c hc => hconn c (Option.some.inj hc)
  · intro hres
    rw [pool_settle]
    exact hnull (hres.imp Option.some.inj Option.some.inj)

theorem Owned.perform (h : Owned s) {op : PoolOp T} (hop : s.Permitted op) :
    ∃ res s', s.perform op = some (res, s') ∧ Owned s' ∧ Sound s op res s' := by
  cases op with
  | getDBConn t timeoutMs created =>
    exact (h.proper_getDBConn t timeoutMs hop.2).sound (by simp)
  | wakeUp t timedOut =>
    exact (h.proper_wakeUp t _ timedOut).sound (by simp)
  | relDBConn t c =>
    have hagain : c ∈ s.pool.freeList → s.release t c = s := fun hc => h.release_free hc t
    have howned : Owned (s.release t c) := by
      rcases hop.2 with hc | hc
      · exact h.release hc
      · rwa [hagain hc]
    refine ⟨none, _, rfl, howned, howned.nodup, by simp, by simp, ?_⟩
    rintro t' c' heq hc'
    obtain ⟨rfl, rfl⟩ := PoolOp.relDBConn.inj heq
    exact hagain hc'
  | destroy =>
    exact ⟨none, _, rfl, h.destroy, h.destroy.nodup, by simp, by simp, by simp⟩

theorem Reach.owned {maxConnCnt : ℤ} {conns : List ℕ} (hconns : conns.Nodup)
    (h : Reach maxConnCnt conns s) : Owned s := by
  induction h with
  | init => exact owned_init maxConnCnt hconns
  | step _ hop hs ih =>
    obtain ⟨res, s', hs', howned, -⟩ := ih.perform hop
    obtain ⟨rfl, rfl⟩ := Prod.mk.inj (Option.some.inj (hs.symm.trans hs'))
    exact howned

/-- In every run of the pool no connection is in its lists twice, and every step that is
permitted is sound. -/
theorem pool_exclusive {maxConnCnt : ℤ} {conns : List ℕ} (hconns : conns.Nodup)
    (h : Reach maxConnCnt conns s) :
    (s.pool.freeList ++ s.pool.usedList).Nodup ∧
      ∀ op, s.Permitted op → ∃ res s', s.perform op = some (res, s') ∧ Sound s op res s' := by
  refine ⟨(h.owned hconns).nodup, fun op hop => ?_⟩
  obtain ⟨res, s', hs', -, hsound⟩ := (h.owned hconns).perform hop
  exact ⟨res, s', hs', hsound⟩

/-- A pool of two connections, one of them taken. -/
theorem pool_exclusive_one :
    ∃ s : PoolState (Fin 3), s.pool.usedList = [10] ∧
      (s.pool.freeList ++ s.pool.usedList).Nodup ∧
      ∀ op, s.Permitted op → ∃ res s', s.perform op = some (res, s') ∧ Sound s op res s' := by
  have hop : Permitted (⟨.init 2 [10, 11], fun _ => none, fun _ => []⟩ : PoolState (Fin 3))
      (.getDBConn 0 0 none) := ⟨rfl, by simp⟩
  exact ⟨_, rfl, pool_exclusive (by decide) (Reach.step Reach.init hop rfl)⟩

end PoolState

end WzxServer
