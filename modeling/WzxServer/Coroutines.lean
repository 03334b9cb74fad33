import WzxServer.Lib.Crew
import WzxServer.Brackets
import WzxServer.PoolCount

/-!
# Handlers as coroutines

The clients of `main.cpp` are coroutines of one thread, which may be switched whenever MySQL or
a socket is waited for. They share the pool. When `GetDBConn` makes a connection, it is switched
too, in `CDBConn::Init`, and keeps the mutex of the pool; a call that finds the mutex locked, or
waits for a connection, blocks the whole thread.

`handlers` are the rules of this crew. Where all handlers keep a discipline, they hold what
their calls got and did not give back (`Coherent`), by `reach_sound`.

A caller of the pool is a client here, and the pool of `Pool` is used as it is : an operation of a
handler is a step of the pool with the client as its caller. So that a connection is with one
client is the exclusivity of the pool, once the handlers use only what they hold, which is their
discipline.
-/

namespace WzxServer

open Prog Proc

/-- `GetDBConn` is about to make a connection. -/
def Pool.Makes (p : Pool) : Prop :=
  p.abortRequest = false ∧ p.freeList = [] ∧ p.curConnCnt < p.maxConnCnt

instance (p : Pool) : Decidable p.Makes :=
  inferInstanceAs (Decidable (_ ∧ _))

/-- What `GetDBConn` returns. -/
def GetDBConn.conn? : GetDBConn → Option Conn
  | .conn c => some c
  | _ => none

/-- The operations that lock the mutex of the pool. -/
def Op.pooled : Op → Bool
  | .getDBConn _ | .relDBConn _ => true
  | _ => false

/-- What the clients share : the pool, the requests that are handled, the clients that have a
transaction open on a connection, the client whose call of `GetDBConn` makes a connection, and
the client whose call blocks the thread. -/
structure Shared (T : Type) where
  pool : PoolState T
  request : T → Request
  txn : Conn → Option T
  connecting : Option T
  blocked : Option T

/-- At the start, `_Init` made the connections `conns`. -/
def Shared.init (T : Type) (maxConnCnt : ℤ) (conns : List Conn) : Shared T :=
  ⟨⟨.init maxConnCnt conns, fun _ => none, fun _ => []⟩, fun _ => .noOperation, fun _ => none,
    none, none⟩

section Handlers

variable {T : Type}

/-- The open transactions after an exchange of `t`. -/
def transact (txn : Conn → Option T) (t : T) : Exchange Db → Conn → Option T
  | ⟨.startTransaction c, true⟩ => Function.update txn c (some t)
  | ⟨.commit c, true⟩ | ⟨.rollback c, true⟩ => Function.update txn c none
  | _ => txn

theorem transact_of_none {txn : Conn → Option T} {t : T} {o : Op} {r : o.Ans}
    (ho : ∀ c, o ≠ .startTransaction c) (htxn : ∀ conn, txn conn = none) (conn : Conn) :
    transact txn t ⟨o, r⟩ conn = none := by
  have hupdate : ∀ c, Function.update txn c none conn = none := by
    intro c
    rcases eq_or_ne conn c with rfl | hne
    · exact Function.update_self ..
    · rw [Function.update_of_ne hne]
      exact htxn conn
  cases o with
  | startTransaction c => exact absurd rfl (ho c)
  | commit c | rollback c =>
    cases r
    · exact htxn conn
    · exact hupdate c
  | _ => exact htxn conn

variable [DecidableEq T]

/-- A client sends a request. -/
inductive Begins (v : Vision) (s : Shared T) (t : T) : Proc Unit → Shared T → Prop
  | request (hrun : s.blocked = none) (request : Request) : Begins v s t (doEvent v request)
    { s with request := Function.update s.request t request }

/-- How an operation of a client is answered. -/
inductive Serves (s : Shared T) (t : T) : (o : Op) → o.Ans → Shared T → Prop
  /-- An operation that has nothing to do with the pool. -/
  | plain (hrun : s.blocked = none) {o : Op} (ho : o.pooled = false) (r : o.Ans) :
    Serves s t o r { s with txn := transact s.txn t ⟨o, r⟩ }
  /-- A connection goes back. -/
  | relDBConn (hrun : s.blocked = none) (hmutex : s.connecting = none) (c : Conn) :
    Serves s t (.relDBConn c) () { s with pool := s.pool.release t c }
  /-- A call that need not wait, after it has made a connection if it has to. -/
  | getDBConn (hrun : s.blocked = none)
    (hmutex : s.connecting = if s.pool.pool.Makes then some t else none) (n : ℕ)
    {created : Option Conn}
    (hnew : ∀ c, created = some c → c ∉ s.pool.pool.freeList ∧ c ∉ s.pool.pool.usedList)
    {res : GetDBConn} (hres : res ≠ .wait) {pool : PoolState T}
    (hpool : s.pool.perform (.getDBConn t n created) = some (some res, pool)) :
    Serves s t (.getDBConn n) res.conn? { s with pool := pool, connecting := none }
  /-- A call that has waited gives up. -/
  | timeout {n : ℕ} (hrun : s.blocked = some t) (hwait : s.pool.waiting t = some (n : ℤ))
    {pool : PoolState T} (hpool : s.pool.perform (.wakeUp t true) = some (some .null, pool)) :
    Serves s t (.getDBConn n) none { s with pool := pool, blocked := none }

/-- What happens while an operation is not answered : a connection is being made, the call
waits for one, or for the mutex. -/
inductive Stalls (s : Shared T) (t : T) : Op → Shared T → Prop
  /-- A connection is being made, with the mutex locked. -/
  | connect (hrun : s.blocked = none) (hmutex : s.connecting = none) (hmakes : s.pool.pool.Makes)
    (n : ℕ) : Stalls s t (.getDBConn n) { s with connecting := some t }
  /-- No connection is free, and none may be made. -/
  | wait (hrun : s.blocked = none) (hmutex : s.connecting = none) {n : ℕ} {pool : PoolState T}
    (hpool : s.pool.perform (.getDBConn t n none) = some (some .wait, pool)) :
    Stalls s t (.getDBConn n) { s with pool := pool, blocked := some t }
  /-- An other client is making a connection. -/
  | mutex (hrun : s.blocked = none) {t' : T} (hmutex : s.connecting = some t') (hne : t' ≠ t)
    {o : Op} (ho : o.pooled = true) : Stalls s t o { s with blocked := some t }

/-- The rules of the server. -/
def handlers (T : Type) [DecidableEq T] (v : Vision) : Rules Db T (Shared T) :=
  ⟨Begins v, Serves, Stalls⟩

/-- An operation on a connection uses it. -/
theorem mem_uses_of_conn? {o : Op} {c : Conn} (h : o.conn? = some c) : c ∈ o.uses := by
  cases o with
  | relDBConn => cases h
  | _ => exact h

/-! ## What the handlers hold -/

/-- The pool is in service, and only a client that blocks the thread waits. -/
structure Coherent (maxConnCnt : ℤ) (conns : List Conn) (s : Shared T) : Prop where
  /-- The pool is in a state that its callers can bring about. -/
  reach : PoolState.Reach maxConnCnt conns s.pool
  /-- A wait blocks the thread, so there is one at most. -/
  waits : ∀ t, s.pool.waiting t ≠ none → s.blocked = some t
  /-- The destructor was not called. -/
  serving : s.pool.pool.abortRequest = false

/-- What is left of the program of `t` keeps the discipline of its request, with the
connections that `t` holds. -/
def Abides (D : Request → Discipline) (s : Shared T) (t : T) (p : Proc Unit) : Prop :=
  ∃ l : List Conn, l.Perm (s.pool.held t) ∧ l.length ≤ (D (s.request t)).bound ∧
    Obeys (D (s.request t)).watch p l fun _ l' => l' = []

omit [DecidableEq T] in
/-- Only what the caller holds and was asked matters. -/
theorem Abides.congr {D : Request → Discipline} {s s' : Shared T} {t : T} {p : Proc Unit}
    (h : Abides D s t p) (hheld : s'.pool.held t = s.pool.held t)
    (hrequest : s'.request t = s.request t) : Abides D s' t p := by
  rw [Abides, hheld, hrequest]
  exact h

variable {maxConnCnt : ℤ} {conns : List Conn} {s : Shared T} {t : T}

/-- No call stops the service. -/
theorem abortRequest_getDBConn {p p' : Pool} {created : Option ℕ} {res : GetDBConn}
    (hserv : p.abortRequest = false) (h : p.getDBConn created = some (res, p')) :
    p'.abortRequest = false := by
  cases (PoolState.serves_getDBConn hserv h).1 <;> exact hserv

/-- Nor does giving back. -/
theorem abortRequest_relDBConn (p : Pool) (c : Conn) :
    (p.relDBConn c).abortRequest = p.abortRequest := by
  rw [Pool.relDBConn]
  split_ifs <;> rfl

theorem filter_ne_of_nodup {l : List Conn} (h : l.Nodup) (c : Conn) :
    l.erase c = l.filter (· ≠ c) := by
  rw [h.erase_eq_filter]
  refine List.filter_congr fun c' _ => ?_
  rw [bne, decide_not]
  rfl

/-- Nor does waking up. -/
theorem abortRequest_wakeUp {p p' : Pool} {timeoutMs : ℤ} {timedOut : Bool} {res : GetDBConn}
    (hserv : p.abortRequest = false) (h : p.wakeUp timeoutMs timedOut = some (res, p')) :
    p'.abortRequest = false := by
  cases PoolState.serves_wakeUp hserv h <;> exact hserv

/-- What others hold stays. -/
theorem held_settle_of_ne {s : PoolState T} {t t' : T} (hne : t' ≠ t) (n : ℤ) (p : Pool)
    (res : GetDBConn) : (s.settle t n p res).held t' = s.held t' := by
  cases res with
  | conn c => exact Function.update_of_ne hne _ _
  | null | wait => rfl

/-- After a call, its caller waits if it ended so, and the others as before. -/
theorem waiting_settle {s : PoolState T} {t t' : T} {n : ℤ} {p : Pool} {res : GetDBConn}
    (hwait : (s.settle t n p res).waiting t' ≠ none) :
    t' = t ∧ res = .wait ∨ t' ≠ t ∧ s.waiting t' ≠ none := by
  rcases eq_or_ne t' t with rfl | hne
  · refine Or.inl ⟨rfl, ?_⟩
    cases res with
    | conn c => exact absurd (Function.update_self ..) hwait
    | null => exact absurd (Function.update_self ..) hwait
    | wait => rfl
  · refine Or.inr ⟨hne, ?_⟩
    cases res <;> exact (Function.update_of_ne hne _ _).symm.trans_ne hwait

/-- Nobody waits while the thread runs. -/
theorem Coherent.waiting (h : Coherent maxConnCnt conns s) (hrun : s.blocked = none) :
    s.pool.waiting t = none := by
  by_contra hwait
  rw [h.waits t hwait] at hrun
  cases hrun

/-- A call of `GetDBConn`, with what it leaves. -/
theorem Coherent.getDBConn (h : Coherent maxConnCnt conns s) (hrun : s.blocked = none) {n : ℤ}
    {created : Option Conn}
    (hnew : ∀ c, created = some c → c ∉ s.pool.pool.freeList ∧ c ∉ s.pool.pool.usedList)
    {res : GetDBConn} {pool : PoolState T}
    (hpool : s.pool.perform (.getDBConn t n created) = some (some res, pool)) :
    PoolState.Reach maxConnCnt conns pool ∧ pool.pool.abortRequest = false ∧
      ∃ p, pool = s.pool.settle t n p res := by
  have hop : s.pool.Permitted (.getDBConn t n created) := ⟨h.waiting hrun, hnew⟩
  refine ⟨h.reach.step hop hpool, ?_⟩
  obtain ⟨⟨res', p⟩, hr, heq⟩ := Option.map_eq_some_iff.mp hpool
  obtain ⟨hres, rfl⟩ := Prod.mk.inj heq
  obtain rfl := Option.some.inj hres
  rw [PoolState.pool_settle]
  exact ⟨abortRequest_getDBConn h.serving hr, p, rfl⟩

/-- An answer keeps the discipline, and leaves what others hold. -/
theorem abides_serves {D : Request → Discipline} (hconns : conns.Nodup)
    (hI : Coherent maxConnCnt conns s) {o : Op}
    {r : o.Ans} {k : o.Ans → Proc Unit} (hadm : (D (s.request t)).admits o r) {s' : Shared T}
    (hserves : Serves s t o r s') (hG : Abides D s t (call o k)) :
    Coherent maxConnCnt conns s' ∧ Abides D s' t (k r) ∧
      ∀ t' ≠ t, ∀ q, Abides D s t' q → Abides D s' t' q := by
  obtain ⟨l, hl, hbound, hallows, hnext⟩ := hG
  have hobeys : Obeys (D (s.request t)).watch (k r) (hold l ⟨o, r⟩) fun _ l' => l' = [] :=
    hnext r hadm
  cases hserves with
  | plain hrun ho =>
    have hhold : hold l ⟨o, r⟩ = l := by
      cases o with
      | getDBConn | relDBConn => cases ho
      | _ => rfl
    rw [hhold] at hobeys
    exact ⟨⟨hI.reach, hI.waits, hI.serving⟩, ⟨l, hl, hbound, hobeys⟩, fun t' _ q hq => hq⟩
  | relDBConn hrun hmutex c =>
    have hmem : c ∈ s.pool.held t := hl.mem_iff.mp ((D _).relDBConn l c hallows)
    have hop : s.pool.Permitted (.relDBConn t c) := ⟨hI.waiting hrun, Or.inl hmem⟩
    refine ⟨⟨hI.reach.step hop rfl, hI.waits, ?_⟩, ⟨l.erase c, ?_, ?_, hobeys⟩, ?_⟩
    · exact (abortRequest_relDBConn _ c).trans hI.serving
    · have hnodup : (s.pool.held t).Nodup := (hI.reach.owned hconns).apart.nodup (some t)
      change (l.erase c).Perm (Function.update s.pool.held t _ t)
      rw [Function.update_self, ← filter_ne_of_nodup hnodup]
      exact hl.erase c
    · exact (List.length_erase_le).trans hbound
    · exact fun t' hne q hq => hq.congr (Function.update_of_ne hne _ _) rfl
  | @getDBConn hrun hmutex n created hnew res hres pool hpool =>
    obtain ⟨hreach, hserving, p, rfl⟩ := hI.getDBConn hrun hnew hpool
    refine ⟨⟨hreach, fun t' hwait => ?_, hserving⟩, ?_, fun t' hne q hq =>
      hq.congr (held_settle_of_ne hne n p res) rfl⟩
    · rcases waiting_settle hwait with ⟨-, hwait⟩ | ⟨-, hwait⟩
      · exact absurd hwait hres
      · exact absurd (hI.waiting hrun) hwait
    · cases res with
      | conn c =>
        refine ⟨c :: l, ?_, ((D _).getDBConn l n).mp hallows, hobeys⟩
        change (c :: l).Perm (Function.update s.pool.held t _ t)
        rw [Function.update_self]
        exact (hl.cons c).trans (List.perm_append_singleton c _).symm
      | null => exact ⟨l, hl, hbound, hobeys⟩
      | wait => exact absurd rfl hres
  | @timeout n hrun hwait pool hpool =>
    have hop : s.pool.Permitted (.wakeUp t true) := Option.isSome_iff_ne_none.mpr (by simp [hwait])
    obtain ⟨⟨res, p⟩, hr, heq⟩ := Option.map_eq_some_iff.mp hpool
    obtain ⟨hres, rfl⟩ := Prod.mk.inj heq
    obtain rfl := Option.some.inj hres
    refine ⟨⟨hI.reach.step hop hpool, fun t' hwait' => ?_, ?_⟩, ⟨l, hl, hbound, hobeys⟩,
      fun t' _ q hq => hq⟩
    · change (s.pool.settle t ((s.pool.waiting t).getD 0) p .null).waiting t' ≠ none at hwait'
      rcases waiting_settle hwait' with ⟨-, hnull⟩ | ⟨hne, hwait'⟩
      · cases hnull
      · exact absurd (Option.some.inj ((hI.waits t' hwait').symm.trans hrun)) hne
    · exact abortRequest_wakeUp hI.serving hr

/-- The handlers keep their disciplines. -/
theorem handlers_invariant {v : Vision} {D : Request → Discipline}
    {C : Crew Db T (Shared T) → Crew.Act Db T → Prop} (hconns : conns.Nodup)
    (hD : ∀ request, ∃ d ≤ (D request).bound, Brackets (D request) d [] (doEvent v request) [])
    (hC : ∀ c t e, C c (.serves t e) → (D (c.shared.request t)).admits e.1 e.2) :
    Crew.Invariant (handlers T v) C (Coherent maxConnCnt conns) (Abides D) := by
  constructor
  · rintro c t p s - ⟨hrun, request⟩ hI ⟨l, hl, -, rfl⟩
    refine ⟨⟨hI.reach, hI.waits, hI.serving⟩, ?_, ?_⟩
    · obtain ⟨d, hd, hbrackets⟩ := hD request
      have hobeys : ∀ r, r = request →
          Obeys (D r).watch (doEvent v request) [] fun _ l' => l' = [] := by
        rintro _ rfl
        exact hbrackets.obeys [] (by simpa using hd)
      exact ⟨[], hl, Nat.zero_le _, hobeys _ (Function.update_self ..)⟩
    · intro t' hne q hq
      exact hq.congr rfl (Function.update_of_ne hne _ _)
  · intro c t o k r s hcond hserves hI hG
    exact abides_serves hconns hI (hC c t ⟨o, r⟩ hcond) hserves hG
  · rintro c t o s - hstalls hI
    cases hstalls with
    | connect => exact ⟨⟨hI.reach, hI.waits, hI.serving⟩, fun t' q hq => hq⟩
    | mutex hrun =>
      refine ⟨⟨hI.reach, fun t' hwait => ?_, hI.serving⟩, fun t' q hq => hq⟩
      exact absurd (hI.waiting hrun) hwait
    | @wait hrun hmutex n pool hpool =>
      obtain ⟨hreach, hserving, p, rfl⟩ := hI.getDBConn hrun (by simp) hpool
      refine ⟨⟨hreach, fun t' hwait => ?_, hserving⟩, fun t' q hq => hq⟩
      change (c.shared.pool.settle t n p .wait).waiting t' ≠ none at hwait
      rcases waiting_settle hwait with ⟨rfl, -⟩ | ⟨-, hwait⟩
      · rfl
      · exact absurd (hI.waiting hrun) hwait


/-! ## Statements on connections -/

/-- No statement is about to run on a connection that another client holds, or has a
transaction open on. -/
def Exclusive (c : Crew Db T (Shared T)) : Prop :=
  ∀ t o k conn, c.prog t = call o k → o.conn? = some conn → ∀ t' ≠ t,
    conn ∉ c.shared.pool.held t' ∧ c.shared.txn conn ≠ some t'

/-- No look-up of the user of an `ADDFACE` finds nobody. -/
def FindsUsers (_ : Crew Db T (Shared T)) : Crew.Act Db T → Prop
  | .serves _ e => foundNobody e = false
  | _ => True

/-- The discipline of the handlers where look-ups of users find somebody. -/
def finding : Discipline :=
  tidy fun o r => foundNobody ⟨o, r⟩ = false

/-- A discipline that finds nobody holds a bounded number of connections. -/
theorem brackets_finding (v : Vision) (request : Request) :
    ∃ d ≤ finding.bound, Brackets finding d [] (doEvent v request) [] := by
  refine ⟨_, demand_le request, brackets_doEvent fun d _ hfinds => ?_⟩
  obtain ⟨c, hc⟩ := hfinds
  cases hc

/-- The pool as it is made. -/
theorem Coherent.init {maxConnCnt : ℤ} {conns : List Conn} :
    Coherent maxConnCnt conns (Shared.init T maxConnCnt conns) :=
  ⟨.init, fun _ hwait => absurd rfl hwait, rfl⟩

/-- In every state of such a run, the handlers keep the discipline, and no transaction is
open. -/
theorem reach_finding {v : Vision} (hconns : conns.Nodup) {c : Crew Db T (Shared T)}
    (h : Crew.Reach (handlers T v) FindsUsers (Shared.init T maxConnCnt conns) c) :
    Coherent maxConnCnt conns c.shared ∧ (∀ t, Abides (fun _ => finding) c.shared t (c.prog t)) ∧
      ∀ conn, c.shared.txn conn = none := by
  have hinv : Crew.Invariant (handlers T v) FindsUsers (Coherent maxConnCnt conns)
      (Abides fun _ => finding) :=
    handlers_invariant hconns (brackets_finding v) fun _ _ _ h => h
  have hall : ∀ {c : Crew Db T (Shared T)},
      Crew.Reach (handlers T v) FindsUsers (Shared.init T maxConnCnt conns) c →
      Coherent maxConnCnt conns c.shared ∧ ∀ t, Abides (fun _ => finding) c.shared t (c.prog t) :=
    fun h => h.inv hinv .init fun _ => ⟨[], .nil, Nat.zero_le _, rfl⟩
  refine ⟨(hall h).1, (hall h).2, ?_⟩
  induction h with
  | start => exact fun _ => rfl
  | @step c c' a h hC hs ih =>
    cases hs with
    | @begins t p s hidle hbegins =>
      cases hbegins
      exact ih
    | @stalls t o k s hprog hstalls =>
      cases hstalls <;> exact ih
    | @serves t o k r s hprog hserves =>
      have hkeeps := (hall h).2 t
      rw [hprog] at hkeeps
      obtain ⟨l, -, -, hallows, -⟩ := hkeeps
      cases hserves with
      | plain hrun ho =>
        exact transact_of_none (Tidy.starts hallows) ih
      | relDBConn | getDBConn | timeout => exact ih

/-- For every operation, its connections are bracketed exactly when its condition holds. In
every run where look-ups of users find somebody, no handler's statement runs on a connection of
another. -/
theorem bracketed_and_exclusive {v : Vision} {α : Type} {p : Proc α}
    {cond : List (Exchange Db) → Prop} (hp : Operation v p cond) (hconns : conns.Nodup) :
    (∀ t a, Returns p t a → (Bracketed [] t ↔ cond t)) ∧
      ∀ c, Crew.Reach (handlers T v) FindsUsers (Shared.init T maxConnCnt conns) c →
        Exclusive c := by
  refine ⟨fun t a ht => hp.bracketed_iff ht, fun c hc t o k conn hprog hconn t' hne => ?_⟩
  obtain ⟨hcoherent, hkeeps, htxn⟩ := reach_finding hconns hc
  have hmem : conn ∈ c.shared.pool.held t := by
    have hkeep := hkeeps t
    rw [hprog] at hkeep
    obtain ⟨l, hl, -, hallows, -⟩ := hkeep
    exact hl.mem_iff.mp (Tidy.uses hallows conn (mem_uses_of_conn? hconn))
  refine ⟨fun hmem' => hne ?_, by simp [htxn]⟩
  have hapart := (hcoherent.reach.owned hconns).apart
  exact Option.some.inj (hapart.eq_of_mem (p := some t') (q := some t) hmem' hmem)

end Handlers

/-- The look-up of a user, and two clients with a pool of four. -/
theorem bracketed_and_exclusive_getUserId :
    (∀ t a, Returns (CUserModel.getUserId [97] [98]) t a → (Bracketed [] t ↔ True)) ∧
      ∀ c : Crew Db (Fin 2) (Shared (Fin 2)), Crew.Reach
        (handlers (Fin 2) ⟨fun _ => 1, id, fun _ _ => 0⟩) FindsUsers
        (Shared.init (Fin 2) 4 [10, 11]) c → Exclusive c :=
  bracketed_and_exclusive (.getUserId [97] [98]) (by simp)

/-- An image of one pixel is stored, and the transaction is committed after the connection was
given back. -/
theorem not_bracketed_add :
    ¬∀ (v : Vision) (α : Type) (p : Proc α) (cond : List (Exchange Db) → Prop),
      Operation v p cond → ∀ t a, Returns p t a → Bracketed [] t := by
  intro h
  let v : Vision := ⟨fun _ => 1, id, fun _ _ => 0⟩
  have hadd : Operation v (CDetectModel.add v ⟨1, 1, 0, [0, 0]⟩ [97] [98]) fun _ => False :=
    .add _ _ _
  have ht : ∃ t a, Returns (CDetectModel.add v ⟨1, 1, 0, [0, 0]⟩ [97] [98]) t a :=
    ⟨_, _, .call (E := Db) (o := Op.getDBConn 10) (r := some 10) <|
      .call (E := Db) (o := Op.executeQuery 10 (.addSelect [97] [98])) (r := some []) <|
      .call (E := Db) (o := Op.startTransaction 10) (r := true) <|
      .call (E := Db) (o := Op.init 10 (Stmt.addInsert [97] [98] default).text) (r := true) <|
      .call (E := Db) (o := Op.execute 10 (.addInsert [97] [98] ⟨[0, 0], 1, 1, 0, 1⟩))
        (r := true) <|
      .call (E := Db) (o := Op.relDBConn 10) (r := ()) <|
      .call (E := Db) (o := Op.commit 10) (r := true) (.ret _)⟩
  obtain ⟨t, a, ht⟩ := ht
  exact (hadd.bracketed_iff ht).mp (h v _ _ _ hadd t a ht)

end WzxServer
