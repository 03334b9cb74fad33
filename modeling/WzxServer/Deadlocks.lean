import WzxServer.Coroutines
import Mathlib.Data.List.Dedup
import Mathlib.Data.List.Perm.Subperm

/-!
# When the server stands still

A call of `GetDBConn(0)` that finds no connection blocks the only thread of the server, and so
all the handlers that could give one back (`Deadlocked.stands_still`). The same happens to a
call that comes while an other handler is switched inside of `GetDBConn`, with the mutex locked.

By `not_deadlocked` neither happens as long as the handlers in progress need no more
connections than `DBPoolMaxNum` together, no other handler runs while a connection is made, and
no connection is lost in `add`.

A handler never holds more connections than its request demands, and fewer while it asks for one
(`length_held_le`). So a call that waits would mean that all connections are with clients which
demand more than there are, together with the one that waits (`Light.not_waits`). The run at the
end takes both connections that there are, makes a third one and gives them back.
-/

namespace WzxServer

open Prog Proc

/-! ## Handlers that give back what they take -/

/-- The statement stores an image. -/
def storesImage (text : Bytes) : Prop :=
  ∃ classnum account, text = (Stmt.addInsert classnum account default).text ∨
    text = (Stmt.addUpdate classnum account default).text

/-- No transaction fails to start, and no statement that stores an image to be prepared. -/
def Unfailing : Exchange Db → Prop
  | ⟨.startTransaction _, r⟩ => r = true
  | ⟨.init _ text, r⟩ => storesImage text → r = true
  | _ => True

/-- At most `d` connections are held, and what is given back was held. -/
structure Thrifty (d : ℕ) (s : List Conn) (o : Op) : Prop where
  bound : ∀ n, o = .getDBConn n → s.length < d
  gives : ∀ c, o = .relDBConn c → c ∈ s

/-- The discipline of those that hold at most `d` connections. -/
def thrifty (d : ℕ) : Discipline where
  bound := d
  allows := Thrifty d
  admits o r := Unfailing ⟨o, r⟩
  getDBConn _ n := ⟨fun h => h.bound n rfl, fun h => ⟨fun _ _ => h, nofun⟩⟩
  relDBConn _ c h := h.gives c rfl
  plain s o hplain huses := by
    constructor
    · rintro n rfl
      cases hplain
    · rintro c rfl
      exact huses c rfl

section Thrifty

variable {b d : ℕ} {l l' : List Conn} {β : Type}

/-- What does not concern the pool is allowed, held or not. -/
theorem thrifty_ask_bind {o : Op} {f : o.Ans → Proc β} (ho : o.pooled = false)
    (hf : ∀ r, Unfailing ⟨o, r⟩ → Brackets (thrifty b) d l (f r) l') :
    Brackets (thrifty b) d l (ask o >>= f) l' := by
  refine ⟨fun s hs => ⟨⟨?_, ?_⟩, fun r hr => ?_⟩⟩
  · rintro n rfl
    cases ho
  · rintro c rfl
    cases ho
  · have hhold : hold (l ++ s) ⟨o, r⟩ = l ++ s := by
      cases o with
      | getDBConn | relDBConn => cases ho
      | _ => rfl
    change Obeys (thrifty b).watch (f r) (hold (l ++ s) ⟨o, r⟩) _
    rw [hhold]
    exact (hf r hr).obeys s hs

/-- `add` gives its connection back, when it comes so far. -/
theorem thrifty_storeImage {v : Vision} {c : Conn} {image : Mat} {stmt : ImageParams → Stmt}
    (hstmt : storesImage (stmt default).text) :
    Brackets (thrifty b) 1 [c] (CDetectModel.storeImage v c image stmt) [] := by
  refine thrifty_ask_bind rfl fun started hstarted => ?_
  obtain rfl : started = true := hstarted
  refine (brackets_defined _ _).bind fun length => ?_
  refine thrifty_ask_bind rfl fun prepared hprepared => ?_
  obtain rfl : prepared = true := hprepared hstmt
  refine (brackets_defined _ _).bind fun sent => ?_
  refine thrifty_ask_bind rfl fun executed _ => ?_
  cases executed
  · refine (brackets_relDBConn c).bind fun _ => ?_
    exact thrifty_ask_bind rfl fun _ _ => brackets_ret _
  · refine (brackets_relDBConn c).bind fun _ => ?_
    exact thrifty_ask_bind rfl fun _ _ => brackets_ret _

/-- `add` needs one connection. -/
theorem thrifty_add {v : Vision} {image : Mat} {classnum account : Bytes} :
    Brackets (thrifty b) 1 [] (CDetectModel.add v image classnum account) [] := by
  refine brackets_getDBConn_bind Nat.zero_lt_one (brackets_fault _) fun c => ?_
  refine (brackets_executeQuery _ List.mem_cons_self).bind fun res => ?_
  refine (brackets_deref _).bind fun rows => ?_
  split_ifs
  · exact thrifty_storeImage ⟨classnum, account, Or.inl rfl⟩
  · exact thrifty_storeImage ⟨classnum, account, Or.inr rfl⟩

end Thrifty

/-- Every handler holds at most what its request demands. -/
theorem thrifty_doEvent (v : Vision) (request : Request) :
    ∃ d ≤ (thrifty request.demand).bound,
      Brackets (thrifty request.demand) d [] (doEvent v request) [] :=
  ⟨_, le_rfl, brackets_doEvent fun _ _ _ => thrifty_add⟩

/-! ## Connections in use -/

section Runs

variable {T : Type} [DecidableEq T] {maxConnCnt : ℤ} {conns : List Conn}

omit [DecidableEq T] in
/-- The bound of the pool stays. -/
theorem maxConnCnt_take {p p' : Pool} {res : GetDBConn} (h : p.take = some (res, p')) :
    p'.maxConnCnt = p.maxConnCnt := by
  cases PoolState.serves_take h <;> rfl

/-- It stays whatever is done. -/
theorem maxConnCnt_perform {s s' : PoolState T} {op : PoolOp T} {res : Option GetDBConn}
    (hs : s.perform op = some (res, s')) : s'.pool.maxConnCnt = s.pool.maxConnCnt := by
  cases op with
  | getDBConn t n created =>
    obtain ⟨⟨res', p⟩, hr, heq⟩ := Option.map_eq_some_iff.mp hs
    obtain ⟨-, rfl⟩ := Prod.mk.inj heq
    rw [PoolState.pool_settle]
    unfold Pool.getDBConn at hr
    split_ifs at hr
    · rw [← (Prod.mk.inj (Option.some.inj hr)).2]
    · rw [← (Prod.mk.inj (Option.some.inj hr)).2]
    · rcases created with _ | c
      · rw [← (Prod.mk.inj (Option.some.inj hr)).2]
      · have htake := maxConnCnt_take hr
        exact htake
    · exact maxConnCnt_take hr
  | wakeUp t timedOut =>
    obtain ⟨⟨res', p⟩, hr, heq⟩ := Option.map_eq_some_iff.mp hs
    obtain ⟨-, rfl⟩ := Prod.mk.inj heq
    rw [PoolState.pool_settle]
    rw [Pool.wakeUp] at hr
    split_ifs at hr
    · rw [← (Prod.mk.inj (Option.some.inj hr)).2]
    · rw [← (Prod.mk.inj (Option.some.inj hr)).2]
    · rw [← (Prod.mk.inj (Option.some.inj hr)).2]
    · exact maxConnCnt_take hr
  | relDBConn t c =>
    obtain ⟨-, rfl⟩ := Prod.mk.inj (Option.some.inj hs)
    change (s.pool.relDBConn c).maxConnCnt = _
    rw [Pool.relDBConn]
    split_ifs <;> rfl
  | destroy =>
    obtain ⟨-, rfl⟩ := Prod.mk.inj (Option.some.inj hs)
    rfl

/-- `DBPoolMaxNum` does not change. -/
theorem maxConnCnt_reach {s : PoolState T} (h : PoolState.Reach maxConnCnt conns s) :
    s.pool.maxConnCnt = maxConnCnt := by
  induction h with
  | init => rfl
  | step _ _ hs ih => exact (maxConnCnt_perform hs).trans ih

/-- The connections in use are with some of the clients. -/
theorem exists_holders {s : PoolState T} (h : PoolState.Owned s) (t : T) :
    ∃ F : List T, F.Nodup ∧ t ∈ F ∧ (∀ t' ∈ F, t' = t ∨ s.held t' ≠ []) ∧
      s.pool.usedList.length ≤ (F.map fun t' => (s.held t').length).sum := by
  have howner : ∀ c, ∃ t', c ∈ s.pool.usedList → c ∈ s.held t' := by
    intro c
    by_cases hc : c ∈ s.pool.usedList
    · obtain ⟨t', ht'⟩ := (h.mem_used c).mp hc
      exact ⟨t', fun _ => ht'⟩
    · exact ⟨t, fun hc' => absurd hc' hc⟩
  choose owner howner using howner
  refine ⟨(t :: s.pool.usedList.map owner).dedup, List.nodup_dedup _, ?_, ?_, ?_⟩
  · exact List.mem_dedup.mpr List.mem_cons_self
  · intro t' ht'
    rcases List.mem_cons.mp (List.mem_dedup.mp ht') with rfl | ht'
    · exact Or.inl rfl
    · obtain ⟨c, hc, rfl⟩ := List.mem_map.mp ht'
      exact Or.inr (List.ne_nil_of_mem (howner c hc))
  · have hcover : s.pool.usedList ⊆
        (t :: s.pool.usedList.map owner).dedup.flatMap s.held := by
      intro c hc
      have hmem := List.mem_cons_of_mem t (List.mem_map_of_mem (f := owner) hc)
      exact List.mem_flatMap.mpr ⟨owner c, List.mem_dedup.mpr hmem, howner c hc⟩
    rw [← List.length_flatMap]
    exact (h.used.subperm hcover).length_le

omit [DecidableEq T] in
/-- Sums over the same list, where no summand is more, and one may be less. -/
theorem sum_map_le_and_lt {f g : T → ℕ} {t : T} (ht : f t < g t) :
    ∀ {F : List T}, (∀ t' ∈ F, f t' ≤ g t') →
      (F.map f).sum ≤ (F.map g).sum ∧ (t ∈ F → (F.map f).sum < (F.map g).sum)
  | [], _ => ⟨le_rfl, fun h => absurd h List.not_mem_nil⟩
  | t' :: F, hle => by
    have hhead := hle t' List.mem_cons_self
    obtain ⟨htail, hlt⟩ := sum_map_le_and_lt ht fun t'' h => hle t'' (List.mem_cons_of_mem t' h)
    simp only [List.map_cons, List.sum_cons]
    refine ⟨by omega, fun hmem => ?_⟩
    rcases List.mem_cons.mp hmem with rfl | hmem
    · omega
    · have := hlt hmem
      omega

/-- The handlers in progress need at most `DBPoolMaxNum` connections together. -/
def Light (maxConnCnt : ℤ) (c : Crew Db T (Shared T)) : Prop :=
  ∀ F : List T, F.Nodup → (∀ t ∈ F, ∀ a, c.prog t ≠ ret a) →
    ((F.map fun t => (c.shared.request t).demand).sum : ℤ) ≤ maxConnCnt

/-- The condition on a step : the load is light, while a connection is made no other handler
runs, and nothing fails that makes `add` lose its connection. -/
structure Unhindered (maxConnCnt : ℤ) (c : Crew Db T (Shared T)) (a : Crew.Act Db T) :
    Prop where
  light : Light maxConnCnt c
  alone : ∀ t t', c.shared.connecting = some t →
    (∃ e, a = .serves t' e) ∨ a = .stalls t' → t' = t
  unfailing : ∀ t e, a = .serves t e → Unfailing e

/-- A handler is blocked in `GetDBConn(0)`. -/
def Deadlocked (c : Crew Db T (Shared T)) : Prop :=
  ∃ t k, c.shared.blocked = some t ∧ c.prog t = call (E := Db) (Op.getDBConn 0) k

omit [DecidableEq T] in
/-- A handler that keeps its discipline holds at most what it demands, less when it asks for
more, and nothing when it is done. -/
theorem length_held_le {s : Shared T} {t : T} {p : Proc Unit}
    (h : Abides (fun request => thrifty request.demand) s t p) :
    (s.pool.held t).length ≤ (s.request t).demand ∧
      (∀ n k, p = call (E := Db) (Op.getDBConn n) k →
        (s.pool.held t).length < (s.request t).demand) ∧
      ∀ a, p = ret a → s.pool.held t = [] := by
  obtain ⟨l, hl, hbound, hobeys⟩ := h
  rw [← hl.length_eq]
  refine ⟨hbound, ?_, ?_⟩
  · rintro n k rfl
    exact hobeys.1.bound n rfl
  · rintro a rfl
    have hnil : l = [] := hobeys
    rw [hnil] at hl
    exact hl.symm.eq_nil

/-- Under a light load, nobody waits for a connection. -/
theorem Light.not_waits {c : Crew Db T (Shared T)} (hconns : conns.Nodup)
    (hmade : Pool.minConnCnt ≤ conns.length) (hmax : Pool.minConnCnt ≤ maxConnCnt)
    (hI : Coherent maxConnCnt conns c.shared)
    (hG : ∀ t, Abides (fun request => thrifty request.demand) c.shared t (c.prog t))
    (hlight : Light maxConnCnt c) {t : T} {n : ℕ} {k : Option Conn → Proc Unit}
    (hrun : c.shared.blocked = none) (hprog : c.prog t = call (Op.getDBConn n) k)
    {pool : PoolState T} :
    c.shared.pool.perform (.getDBConn t n none) ≠ some (some .wait, pool) := by
  intro hpool
  have hop : c.shared.pool.Permitted (.getDBConn t n none) := ⟨hI.waiting hrun, by simp⟩
  have htruthful := (hI.reach.counted hconns hmade hmax hI.serving).truthful hI.serving
  have hfull := htruthful.waits t n none pool hop hpool
  obtain ⟨F, hF, ht, hbusy, hused⟩ := exists_holders (hI.reach.owned hconns) t
  have hlt : (F.map fun t' => (c.shared.pool.held t').length).sum <
      (F.map fun t' => (c.shared.request t').demand).sum :=
    (sum_map_le_and_lt ((length_held_le (hG t)).2.1 n k hprog)
      fun t' _ => (length_held_le (hG t')).1).2 ht
  have hdemand := hlight F hF <| by
    intro t' ht' a hdone
    rcases hbusy t' ht' with rfl | hheld
    · rw [hprog] at hdone
      cases hdone
    · exact hheld ((length_held_le (hG t')).2.2 a hdone)
  rw [maxConnCnt_reach hI.reach] at hfull
  omega

/-- A handler that is blocked in `GetDBConn(0)` is so for ever, and with it all others. -/
theorem Deadlocked.stands_still {v : Vision} {c : Crew Db T (Shared T)} (h : Deadlocked c)
    (hserv : c.shared.pool.pool.abortRequest = false) (a : Crew.Act Db T)
    (c' : Crew Db T (Shared T)) : ¬Crew.Step (handlers T v) c a c' := by
  obtain ⟨t, k, hblocked, hprog⟩ := h
  have hrun : c.shared.blocked ≠ none := by
    rw [hblocked]
    exact Option.some_ne_none t
  intro hstep
  cases hstep with
  | begins _ hbegins =>
    obtain ⟨hrun', -⟩ := hbegins
    exact hrun hrun'
  | stalls _ hstalls => cases hstalls <;> exact absurd ‹_› hrun
  | serves hprog' hserves =>
    cases hserves with
    | plain hrun' | relDBConn hrun' | getDBConn hrun' => exact hrun hrun'
    | @timeout n hblocked' hwait pool hpool =>
      obtain rfl := Option.some.inj (hblocked.symm.trans hblocked')
      rw [hprog] at hprog'
      obtain rfl : 0 = n := by
        injection hprog' with hop
        injection hop
      obtain ⟨⟨res, p⟩, hr, heq⟩ := Option.map_eq_some_iff.mp hpool
      obtain rfl := Option.some.inj (Prod.mk.inj heq).1
      rw [hwait, Option.getD_some, Pool.wakeUp, hserv] at hr
      split_ifs at hr with hwaits hfree habort
      · simp at hr
      · exact absurd hfree.1 (lt_irrefl _)
      · cases habort
      · cases PoolState.serves_take hr with
        | idle hfree hres => exact hwaits ⟨hfree, rfl, fun h => lt_irrefl _ h.1⟩

/-- The connection that a call makes is given to it. -/
theorem serves_made {s : Shared T} {t : T} (hrun : s.blocked = none)
    (hmutex : s.connecting = if s.pool.pool.Makes then some t else none) (n : ℕ) (c : Conn)
    (hnew : c ∉ s.pool.pool.freeList ∧ c ∉ s.pool.pool.usedList) {pool : PoolState T}
    (hpool : s.pool.perform (.getDBConn t n (some c)) = some (some (.conn c), pool)) :
    Serves s t (.getDBConn n) (some c) { s with pool := pool, connecting := none } := by
  have hconn : GetDBConn.conn c ≠ .wait := by
    nofun
  refine Serves.getDBConn hrun hmutex n ?_ hconn hpool
  rintro _ ⟨⟩
  exact hnew

/-- A call that finds a free connection gets the first. -/
theorem serves_free {s : Shared T} {t : T} (hrun : s.blocked = none)
    (hmutex : s.connecting = none) (hserv : s.pool.pool.abortRequest = false) {conn : Conn}
    {rest : List Conn} (hfree : s.pool.pool.freeList = conn :: rest) (n : ℕ) :
    Serves s t (.getDBConn n) (some conn)
      { s with
        pool := s.pool.settle t n { s.pool.pool with
          freeList := rest
          usedList := s.pool.pool.usedList ++ [conn] } (.conn conn)
        connecting := none } := by
  have hmakes : ¬s.pool.pool.Makes := by
    intro h
    have hnil := h.2.1
    rw [hfree] at hnil
    cases hnil
  have hnew : ∀ c, (none : Option Conn) = some c → c ∉ s.pool.pool.freeList ∧
      c ∉ s.pool.pool.usedList := nofun
  have hres : GetDBConn.conn conn ≠ .wait := nofun
  refine Serves.getDBConn hrun ?_ n hnew hres ?_
  · rw [if_neg hmakes, hmutex]
  · simp [PoolState.perform, Pool.getDBConn, Pool.take, hserv, hfree]

/-- A call that finds all connections in use waits. -/
theorem stalls_full {s : Shared T} {t : T} (hrun : s.blocked = none)
    (hmutex : s.connecting = none) (hserv : s.pool.pool.abortRequest = false)
    (hfree : s.pool.pool.freeList = []) (hfull : s.pool.pool.maxConnCnt ≤ s.pool.pool.curConnCnt)
    (n : ℕ) : Stalls s t (.getDBConn n)
      { s with pool := s.pool.settle t n s.pool.pool .wait, blocked := some t } := by
  refine Stalls.wait hrun hmutex ?_
  simp [PoolState.perform, Pool.getDBConn, hserv, hfree, hfull]

/-- In every run that is not hindered, no call blocks the thread. -/
theorem reach_unhindered {v : Vision} (hconns : conns.Nodup)
    (hmade : Pool.minConnCnt ≤ conns.length) (hmax : Pool.minConnCnt ≤ maxConnCnt)
    {c : Crew Db T (Shared T)} (h : Crew.Reach (handlers T v) (Unhindered maxConnCnt)
      (Shared.init T maxConnCnt conns) c) : c.shared.blocked = none := by
  have hinv : Crew.Invariant (handlers T v) (Unhindered maxConnCnt) (Coherent maxConnCnt conns)
      (Abides fun request => thrifty request.demand) :=
    handlers_invariant hconns (thrifty_doEvent v) fun _ _ _ h => h.unfailing _ _ rfl
  induction h with
  | start => rfl
  | @step c c' a h hC hs ih =>
    obtain ⟨hI, hG⟩ := h.inv hinv .init fun _ => ⟨[], .nil, Nat.zero_le _, rfl⟩
    cases hs with
    | begins _ hbegins =>
      cases hbegins
      exact ih
    | serves _ hserves => cases hserves <;> first | exact ih | rfl
    | stalls hprog hstalls =>
      cases hstalls with
      | connect => exact ih
      | wait hrun _ hpool =>
        exact absurd hpool (hC.light.not_waits hconns hmade hmax hI hG hrun hprog)
      | mutex _ hmutex hne => exact absurd (hC.alone _ _ hmutex (Or.inr rfl)).symm hne

/-- No handler is ever blocked in `GetDBConn(0)` while the load is light, connections are made
without a switch, and `add` loses none. -/
theorem not_deadlocked {v : Vision} (hconns : conns.Nodup)
    (hmade : Pool.minConnCnt ≤ conns.length) (hmax : Pool.minConnCnt ≤ maxConnCnt)
    {c : Crew Db T (Shared T)} (h : Crew.Reach (handlers T v) (Unhindered maxConnCnt)
      (Shared.init T maxConnCnt conns) c) : ¬Deadlocked c := by
  rintro ⟨t, k, hblocked, -⟩
  rw [reach_unhindered hconns hmade hmax h] at hblocked
  cases hblocked

end Runs

/-- Callers that hold at most one connection each hold no more than they are. -/
theorem sum_map_le_length {T : Type} {f : T → ℕ} (hf : ∀ t, f t ≤ 1) :
    ∀ F : List T, (F.map f).sum ≤ F.length
  | [] => le_rfl
  | t :: F => by
    have hhead := hf t
    have htail := sum_map_le_length hf F
    simp only [List.map_cons, List.sum_cons, List.length_cons]
    omega

/-- A step of three clients that need one connection each, where the third is alone while its
connection is made. -/
theorem unhindered_three {c : Crew Db (Fin 3) (Shared (Fin 3))} {a : Crew.Act Db (Fin 3)}
    (hdemand : ∀ t, (c.shared.request t).demand ≤ 1)
    (halone : c.shared.connecting = none ∨ c.shared.connecting = some 2 ∧ ∃ e, a = .serves 2 e)
    (hunfailing : match a with
      | .serves _ e => Unfailing e
      | _ => True) : Unhindered 3 c a := by
  refine ⟨fun F hF _ => ?_, fun t t' hconnecting hact => ?_, ?_⟩
  · have hlength : F.length ≤ 3 := hF.length_le_card
    have hsum := sum_map_le_length hdemand F
    omega
  · rcases halone with hnone | ⟨htwo, e, rfl⟩
    · rw [hnone] at hconnecting
      cases hconnecting
    · obtain rfl := Option.some.inj (htwo.symm.trans hconnecting)
      rcases hact with ⟨e', h⟩ | h
      · exact (Crew.Act.serves.inj h).1.symm
      · cases h
  · rintro t e rfl
    exact hunfailing

/-- Three clients ask for the groups. The first two take the connections that there are, for the
third one is made, and then the first gives his back. -/
theorem not_deadlocked_groups : ∃ c : Crew Db (Fin 3) (Shared (Fin 3)),
    c.shared.pool.pool.freeList = [10] ∧ c.shared.pool.pool.usedList = [11, 12] ∧
      ¬Deadlocked c := by
  let v : Vision := ⟨fun _ => 1, id, fun _ _ => 0⟩
  have hR : Crew.Reach (handlers (Fin 3) v) (Unhindered 3) (Shared.init (Fin 3) 3 [10, 11]) _ :=
    .start
  have h1 := hR.step (unhindered_three (by decide) (Or.inl rfl) trivial)
    (.begins (t := 0) rfl (Begins.request rfl .getGroup))
  have h2 := h1.step (unhindered_three (by decide) (Or.inl rfl) trivial)
    (.serves (t := 0) rfl (serves_free rfl rfl rfl rfl 0))
  have h3 := h2.step (unhindered_three (by decide) (Or.inl rfl) trivial)
    (.begins (t := 1) rfl (Begins.request rfl .getGroup))
  have h4 := h3.step (unhindered_three (by decide) (Or.inl rfl) trivial)
    (.serves (t := 1) rfl (serves_free rfl rfl rfl rfl 0))
  have h5 := h4.step (unhindered_three (by decide) (Or.inl rfl) trivial)
    (.begins (t := 2) rfl (Begins.request rfl .getGroup))
  have h6 := h5.step (unhindered_three (by decide) (Or.inl rfl) trivial)
    (.stalls (t := 2) rfl (Stalls.connect rfl rfl (by decide) 0))
  have h7 := h6.step (unhindered_three (a := .serves 2 ⟨.getDBConn 0, some 12⟩) (by decide)
      (Or.inr ⟨rfl, _, rfl⟩) trivial)
    (.serves (t := 2) rfl (serves_made rfl rfl 0 12 (by decide) rfl))
  have h8 := h7.step (unhindered_three (by decide) (Or.inl rfl) trivial)
    (.serves (t := 0) rfl (Serves.plain rfl rfl (some [])))
  have h9 := h8.step (unhindered_three (by decide) (Or.inl rfl) trivial)
    (.serves (t := 0) rfl (Serves.relDBConn rfl rfl 10))
  exact ⟨_, rfl, rfl, not_deadlocked (by decide) (by decide) (by decide) h9⟩

/-- Three clients ask for the groups, and two connections are all there are. The third call
finds none, and blocks the two that could give one back. -/
theorem deadlocked_three : ∃ c, Crew.Reach
    (handlers (Fin 3) ⟨fun _ => 1, id, fun _ _ => 0⟩) (fun _ _ => True)
      (Shared.init (Fin 3) 2 [10, 11]) c ∧
    Deadlocked c ∧ ∀ a c', ¬Crew.Step (handlers (Fin 3) ⟨fun _ => 1, id, fun _ _ => 0⟩) c a c' := by
  let v : Vision := ⟨fun _ => 1, id, fun _ _ => 0⟩
  have h1 := (Crew.Reach.start (R := handlers (Fin 3) v) (C := fun _ _ => True)
    (s := Shared.init (Fin 3) 2 [10, 11])).step trivial
      (.begins (t := 0) rfl (Begins.request rfl .getGroup))
  have h2 := h1.step trivial (.serves (t := 0) rfl (serves_free rfl rfl rfl rfl 0))
  have h3 := h2.step trivial (.begins (t := 1) rfl (Begins.request rfl .getGroup))
  have h4 := h3.step trivial (.serves (t := 1) rfl (serves_free rfl rfl rfl rfl 0))
  have h5 := h4.step trivial (.begins (t := 2) rfl (Begins.request rfl .getGroup))
  have h6 := h5.step trivial (.stalls (t := 2) rfl (stalls_full rfl rfl rfl rfl (le_refl 2) 0))
  refine ⟨_, h6, ?_⟩
  suffices hdead : Deadlocked _ from ⟨hdead, hdead.stands_still rfl⟩
  exact ⟨2, _, rfl, rfl⟩

end WzxServer
