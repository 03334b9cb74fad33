import WzxServer.CoTurns

/-!
# Coroutines and their event loop

The coroutines of a thread. One of them runs, at the top of `pCallStack`, and the others wait : in
`co_poll_inner`, for events or for the end of a time, in `co_cond_timedwait`, for a signal, or for
a coroutine that they resumed. The main coroutine is in `co_eventloop`. A coroutine that waits has
an item, in memory that is freed when it goes on : the `stPoll_t`, or the `stCoCondItem_t`. The
coroutines may do whatever they want.

Undefined behaviour is `none` : memory that was freed is read, a coroutine is resumed that is not
suspended, or the call stack overflows. `run_sound` : this does not happen, the lists have no
memory that was freed, and no coroutine that waits is forgotten.

The invariant has three parts, which are about different things and are kept for different
reasons. `Ties` says whose the items in the lists are, `Calls` who may be resumed, and `Times` when
an item was taken and why. A move changes few of their fields, so the second half of the module
has a rule for what a move does to each part, and `CoSteps` puts them together.

What is assumed of the coroutines is in `Can` : a coroutine resumes only one that it creates, of
a higher rank, so that the call stack is no higher than the ranks; the main coroutine does not
wait; and readings of the clock stay less than 24 days ahead of the wheel.
-/

namespace WzxServer

open Function (update)

/-- Where a coroutine waits. -/
inductive Wait (N C : Type)
  /-- In `co_poll_inner`, with `arg` as its `stPoll_t`. -/
  | poll (arg : N)
  /-- In `co_cond_timedwait`, with `psi` as its `stCoCondItem_t`, and a time if `ms` is positive. -/
  | timedwait (link : C) (ms : ℤ) (psi : N)

/-- What it waits with. -/
def Wait.item {N C : Type} : Wait N C → N
  | poll arg => arg
  | timedwait _ _ psi => psi

/-- The time at which the wait is over, after `now` and `timeout` of the call. -/
def Wait.Until {N C : Type} (f : ℕ × ℕ) (ullExpireTime : ℕ) : Wait N C → Prop
  | poll _ => 0 < f.2 ∧ ullExpireTime = f.1 + f.2
  | timedwait _ ms _ => f.2 = ms.toNat ∧ (0 < ms → ullExpireTime = f.1 + f.2)

/-- Where `co_eventloop` is : it was not called yet, it looks at events, or at active items. -/
inductive LoopAt
  /-- `co_eventloop` was not called yet. -/
  | before
  /-- `co_epoll_wait` has returned. -/
  | events
  /-- It takes active items, and read `now` from the clock before. -/
  | active (now : ℕ)

/-- `stCoRoutineEnv_t` and the coroutines, with `now` and `timeout`, or `ms`, of the calls that
they wait in, and with what their last calls returned. Memory in use has a `pArg`, and the call
stack has its top first. -/
structure CoEnv (N C K : Type) where
  ep : CoEpoll N
  conds : Links N C
  pArg : N → Option K
  iAllEventDetach : N → Bool
  iRaiseCnt : N → ℕ
  pCallStack : List K
  cStart : K → Bool
  cEnd : K → Bool
  waits : K → Option (Wait N C)
  frame : K → ℕ × ℕ
  ret : K → ℤ
  loop : LoopAt

variable {N C K : Type} [DecidableEq N] [DecidableEq C] [DecidableEq K]

/-- `co_init_curr_thread_env`. -/
def co_init_curr_thread_env (iSize now : ℕ) (main : K) : CoEnv N C K :=
  ⟨AllocTimeout iSize now, Links.empty, fun _ => none, fun _ => false, fun _ => 0, [main],
    fun _ => false, fun _ => false, fun _ => none, fun _ => (0, 0), fun _ => 0, .before⟩

/-- New memory, with null pointers. -/
def zeroItem {L : Type} (n : N) (h : Links N L) : Links N L :=
  { h with
    prev := update h.prev n none
    next := update h.next n none
    owner := update h.owner n none }

/-- A new item. -/
def CoEpoll.alloc (n : N) (ullExpireTime : ℕ) (ep : CoEpoll N) : CoEpoll N :=
  { ep with
    links := zeroItem n ep.links
    ullExpireTime := update ep.ullExpireTime n ullExpireTime
    bTimeout := update ep.bTimeout n false }

namespace CoEnv

/-- `pCallStack` has 128 entries. -/
def co_resume (co : K) (s : CoEnv N C K) : Option (CoEnv N C K) :=
  if s.cEnd co = true ∨ co ∈ s.pCallStack ∨ 128 ≤ s.pCallStack.length then none
  else some { s with cStart := update s.cStart co true, pCallStack := co :: s.pCallStack }

/-- Give the processor back to the coroutine below on the call stack. -/
def co_yield_env (s : CoEnv N C K) : Option (CoEnv N C K) :=
  match s.pCallStack with
  | _ :: last :: rest => some { s with pCallStack := last :: rest }
  | _ => none

/-- `co_poll_inner`, up to where it waits. -/
def co_poll_inner (arg : N) (timeout : ℤ) (now : ℕ) (s : CoEnv N C K) : Option (CoEnv N C K) :=
  match s.pCallStack with
  | [] => none
  | self :: _ =>
    if timeout = 0 then some s
    else
      let timeout := if timeout < 0 then 2 ^ 31 - 1 else timeout.toNat
      let (ret, ep) := AddTimeout arg now (s.ep.alloc arg ((now + timeout) % 2 ^ 64))
      if ret ≠ 0 then
        (RemoveFromLink arg ep.links).map fun links =>
          { s with ep := { ep with links }, ret := update s.ret self (-1) }
      else
        co_yield_env { s with
          ep
          pArg := update s.pArg arg (some self)
          iAllEventDetach := update s.iAllEventDetach arg false
          iRaiseCnt := update s.iRaiseCnt arg 0
          waits := update s.waits self (some (.poll arg))
          frame := update s.frame self (now, timeout) }

/-- The end of `co_cond_timedwait`, up to where it waits. -/
def co_cond_timedwait.wait (self : K) (link : C) (ms : ℤ) (psi : N) (now : ℕ)
    (s : CoEnv N C K) : Option (CoEnv N C K) :=
  co_yield_env { s with
    conds := AddTail link psi (zeroItem psi s.conds)
    pArg := update s.pArg psi (some self)
    waits := update s.waits self (some (.timedwait link ms psi))
    frame := update s.frame self (now, ms.toNat) }

/-- A wait with a time goes into the wheel too, and returns at once if that refuses it. -/
def co_cond_timedwait (link : C) (ms : ℤ) (psi : N) (now : ℕ) (s : CoEnv N C K) :
    Option (CoEnv N C K) :=
  match s.pCallStack with
  | [] => none
  | self :: _ =>
    if ms > 0 then
      let (ret, ep) := AddTimeout psi now (s.ep.alloc psi ((now + ms.toNat) % 2 ^ 64))
      if ret ≠ 0 then some { s with ep, ret := update s.ret self ret }
      else co_cond_timedwait.wait self link ms psi now { s with ep }
    else co_cond_timedwait.wait self link ms psi now { s with ep := s.ep.alloc psi 0 }

/-- `co_cond_signal`, with `co_cond_pop`. -/
def co_cond_signal (si : C) (s : CoEnv N C K) : Option (CoEnv N C K) :=
  match s.conds.head si with
  | none => some s
  | some sp =>
    if s.pArg sp = none then none
    else (activate sp s.ep).map fun ep => { s with ep, conds := PopHead si s.conds }

/-- Signal until nobody waits. -/
def co_cond_broadcast : ℕ → C → CoEnv N C K → Option (CoEnv N C K)
  | 0, _, _ => none
  | fuel + 1, si, s =>
    match s.conds.head si with
    | none => some s
    | some _ => (co_cond_signal si s).bind (co_cond_broadcast fuel si)

/-- An event of one of the files of `pPoll`. -/
def OnPollPreparePfn (pPoll : N) (s : CoEnv N C K) : Option (CoEnv N C K) :=
  if s.pArg pPoll = none then none
  else if s.iAllEventDetach pPoll = true then
    some { s with iRaiseCnt := update s.iRaiseCnt pPoll (s.iRaiseCnt pPoll + 1) }
  else (activate pPoll s.ep).map fun ep => { s with
    ep
    iRaiseCnt := update s.iRaiseCnt pPoll (s.iRaiseCnt pPoll + 1)
    iAllEventDetach := update s.iAllEventDetach pPoll true }

/-- How `co_poll_inner` and `co_cond_timedwait` go on. -/
def goOn (co : K) (s : CoEnv N C K) : Option (CoEnv N C K) :=
  match s.waits co with
  | none => none
  | some (.poll arg) => (RemoveFromLink arg s.ep.links).map fun links => { s with
      ep := { s.ep with links }
      pArg := update s.pArg arg none
      waits := update s.waits co none
      ret := update s.ret co (s.iRaiseCnt arg) }
  | some (.timedwait _ _ psi) => (RemoveFromLink psi s.conds).map fun conds => { s with
      conds
      pArg := update s.pArg psi none
      waits := update s.waits co none
      ret := update s.ret co 0 }

/-- `OnPollProcessEvent` and `OnSignalProcessEvent`. -/
def process (ap : N) (s : CoEnv N C K) : Option (CoEnv N C K) :=
  match s.pArg ap with
  | none => none
  | some co => (s.co_resume co).bind (goOn co)

/-- The loop over the active items, once. -/
def pop (s : CoEnv N C K) : Option (CoEnv N C K) :=
  match s.loop, s.ep.links.head .pstActiveList with
  | .active now, some lp =>
    let (due, ep) := popActive now lp s.ep
    if due = true then process lp { s with ep } else some { s with ep }
  | _, _ => none

/-- The end of `CoRoutineFunc`. -/
def finish (s : CoEnv N C K) : Option (CoEnv N C K) :=
  match s.pCallStack with
  | [] => none
  | co :: _ => co_yield_env { s with cEnd := update s.cEnd co true }

end CoEnv

/-- What the coroutines and the event loop do. -/
inductive CoMove (N C K : Type)
  /-- A coroutine is created and resumed. -/
  | create (co : K)
  /-- The running coroutine polls. -/
  | poll (arg : N) (timeout : ℤ) (now : ℕ)
  /-- It waits for a signal. -/
  | timedwait (link : C) (ms : ℤ) (psi : N) (now : ℕ)
  /-- It signals to the first that waits. -/
  | signal (si : C)
  /-- It signals to all that wait. -/
  | broadcast (si : C)
  /-- It comes to its end. -/
  | finish
  /-- The event loop begins a turn. -/
  | epollWait
  /-- An event comes for a poll. -/
  | event (pPoll : N)
  /-- The clock is read, and what is over is taken. -/
  | take (now : ℕ)
  /-- An active item is taken, and its coroutine resumed. -/
  | pop

namespace CoEnv

/-- What a move does; none where the code reads freed memory, resumes what it must not, or fails
an assertion. -/
def step (fuel : ℕ) (s : CoEnv N C K) : CoMove N C K → Option (CoEnv N C K)
  | .create co => s.co_resume co
  | .poll arg timeout now => s.co_poll_inner arg timeout now
  | .timedwait link ms psi now => s.co_cond_timedwait link ms psi now
  | .signal si => s.co_cond_signal si
  | .broadcast si => s.co_cond_broadcast fuel si
  | .finish => s.finish
  | .epollWait => some { s with ep := clearTimeoutList s.ep, loop := .events }
  | .event pPoll => s.OnPollPreparePfn pPoll
  | .take now => (takeTimeouts fuel now s.ep).map fun ep => { s with ep, loop := .active now }
  | .pop => s.pop

/-- A coroutine other than the main one runs. -/
def Child (s : CoEnv N C K) : Prop :=
  ∃ co last rest, s.pCallStack = co :: last :: rest

/-- When a move is made. The main coroutine does not poll, and does not signal from the loop; a
coroutine creates those of a higher rank; memory that is allocated was not in use; and events come
to those who poll. The clock may go back, but a turn comes less than `2 ^ 31 - 1` ms after the time
up to which the wheel was taken. -/
def Can (main : K) (rank : K → ℕ) (s : CoEnv N C K) : CoMove N C K → Prop
  | .create co => (s.Child ∨ s.loop = .before) ∧ s.cStart co = false ∧ co ∉ s.pCallStack ∧
      rank co < 128 ∧ ∀ k ∈ s.pCallStack.head?, rank k < rank co
  | .poll arg timeout now => s.Child ∧ s.pArg arg = none ∧ timeout < 2 ^ 31 ∧ now < 2 ^ 63
  | .timedwait _ ms psi now => s.Child ∧ s.pArg psi = none ∧ ms < 2 ^ 31 ∧ now < 2 ^ 63
  | .signal _ | .broadcast _ => s.Child ∨ s.loop = .before
  | .finish => s.Child
  | .epollWait => s.pCallStack = [main] ∧
      (s.loop = .before ∨ (∃ now, s.loop = .active now) ∧ s.ep.links.head .pstActiveList = none)
  | .event pPoll => s.pCallStack = [main] ∧ s.loop = .events ∧ ∃ k, s.waits k = some (.poll pPoll)
  | .take now => s.pCallStack = [main] ∧ s.loop = .events ∧ now < 2 ^ 63 ∧
      now + 1 < s.ep.ullStart + 2 ^ 31
  | .pop => s.pCallStack = [main] ∧ (∃ now, s.loop = .active now) ∧
      s.ep.links.head .pstActiveList ≠ none

/-- No coroutine is forgotten, and no memory that was freed is in a list. A coroutine that was
started, did not end and is not on the call stack waits, and its item is found in a list. -/
structure Sound (s : CoEnv N C K) : Prop where
  /-- No coroutine is forgotten. -/
  waiting : ∀ k, s.cStart k = true → s.cEnd k = false → k ∉ s.pCallStack → s.waits k ≠ none
  /-- Whoever polls is found by the event loop. -/
  polls : ∀ k arg, s.waits k = some (.poll arg) → s.ep.links.owner arg ≠ none
  /-- Without a list a wait has no time, and is in the queue of its condition variable. -/
  timed : ∀ k c ms psi, s.waits k = some (.timedwait c ms psi) → s.ep.links.owner psi = none →
    ms ≤ 0 ∧ s.conds.owner psi = some c
  /-- What is in a list of the event loop belongs to a coroutine that waits. -/
  linked : ∀ n, s.ep.links.owner n ≠ none → ∃ k w, s.waits k = some w ∧ w.item = n
  /-- So does what is in a queue. -/
  queued : ∀ n c, s.conds.owner n = some c → ∃ k ms, s.waits k = some (.timedwait c ms n)
  /-- An item leads back to its coroutine. -/
  owns : ∀ k w, s.waits k = some w → s.pArg w.item = some k
  /-- Whoever waits can be resumed. -/
  suspended : ∀ k w, s.waits k = some w → k ∉ s.pCallStack ∧ s.cStart k = true ∧ s.cEnd k = false

/-! ## The invariant -/

/-- The agenda and the queues of the conditions belong to the coroutines that wait. -/
structure Ties (s : CoEnv N C K) (a : Agenda N) (w : C → List N) : Prop where
  /-- An item leads back to the coroutine that waits with it, and so no two wait with one. -/
  owns : ∀ k t, s.waits k = some t → s.pArg t.item = some k
  /-- Every item on the agenda belongs to a coroutine that waits. -/
  linked : ∀ n ∈ a.items, ∃ k t, s.waits k = some t ∧ t.item = n
  /-- So does every item in the queue of a condition variable. -/
  queued : ∀ c, ∀ n ∈ w c, ∃ k ms, s.waits k = some (.timedwait c ms n)
  /-- A poll is always on the agenda, since `poll` waits until a time. -/
  polled : ∀ k n, s.waits k = some (.poll n) → n ∈ a.items
  /-- A wait without a time is in its queue only, until it is signalled. -/
  timed : ∀ k c ms n, s.waits k = some (.timedwait c ms n) → n ∈ a.items ∨ (ms ≤ 0 ∧ n ∈ w c)

/-- The call stack, and the coroutines that are not on it. -/
structure Calls (main : K) (rank : K → ℕ) (s : CoEnv N C K) : Prop where
  /-- Coroutines create those of a higher rank, so the stack is bounded. -/
  sorted : s.pCallStack.Pairwise fun k k' => rank k' < rank k
  /-- The main coroutine is at the bottom. -/
  base : s.pCallStack.getLast? = some main
  /-- Nothing on the stack has ended. -/
  running : ∀ k ∈ s.pCallStack, s.cEnd k = false ∧ (k = main ∨ s.cStart k = true)
  /-- Whoever waits is not on the stack, and may be resumed. -/
  suspended : ∀ k t, s.waits k = some t → k ∉ s.pCallStack ∧ s.cStart k = true ∧ s.cEnd k = false
  ended : ∀ k, s.cEnd k = true → s.cStart k = true
  /-- No coroutine but the main one has its rank. -/
  above : ∀ k, s.cStart k = true → rank main < rank k
  /-- A coroutine that was started is on the stack, waits, or has ended. -/
  waiting : ∀ k, s.cStart k = true → s.cEnd k = false → k ∉ s.pCallStack → s.waits k ≠ none

/-- Who is in the wheel, and why an item is active. -/
structure Times (s : CoEnv N C K) (a : Agenda N) (w : C → List N) : Prop where
  /-- What is in the wheel comes later than the last take, and not after its own time. -/
  pending : ∀ p ∈ a.pending, a.start < p.2 ∧ p.2 ≤ s.ep.ullExpireTime p.1 ∧
    s.ep.bTimeout p.1 = false
  /-- An item that was marked is active in the turn that took it. -/
  late : ∀ n ∈ a.active, s.ep.bTimeout n = true → s.loop = .active a.start
  /-- A poll is active for its time or for an event. -/
  raised : ∀ k n, s.waits k = some (.poll n) → n ∈ a.active → s.ep.bTimeout n = true ∨
    0 < s.iRaiseCnt n
  /-- A poll that is not active had no event. -/
  quiet : ∀ k n, s.waits k = some (.poll n) → n ∉ a.active ∨ s.ep.bTimeout n = true →
    s.iAllEventDetach n = false ∧ s.iRaiseCnt n = 0
  /-- A wait is active for its time or for a signal, which took it out of its queue. -/
  signalled : ∀ k c ms n, s.waits k = some (.timedwait c ms n) → n ∈ a.active →
    s.ep.bTimeout n = true ∨ n ∉ w c
  /-- A wait without a time is never in the wheel. -/
  untimed : ∀ k c ms n, s.waits k = some (.timedwait c ms n) → ms ≤ 0 →
    s.ep.bTimeout n = false ∧ ∀ p ∈ a.pending, p.1 ≠ n
  /-- The time of an item is the one of the call. -/
  expires : ∀ k t, s.waits k = some t → t.Until (s.frame k) (s.ep.ullExpireTime t.item)
  /-- The wheel was taken up to the reading of the turn, at least. -/
  now_le : ∀ now, s.loop = .active now → now ≤ a.start

/-- The pointers hold an agenda and queues that belong to the coroutines that wait. -/
structure Inv (main : K) (rank : K → ℕ) (used : ℕ) (s : CoEnv N C K) (a : Agenda N)
    (w : C → List N) : Prop where
  /-- The wheel and the active items are an agenda. -/
  keeps : ∃ idx, s.ep.Keeps a idx
  /-- The queues of the condition variables. -/
  holds : s.conds.Holds w
  /-- Between the moves no item is on `pstTimeoutList`. -/
  timeout : a.timeout = []
  /-- The memory in use is bounded, and with it the lists. -/
  live : ∃ l : List N, l.length ≤ used ∧ ∀ n, s.pArg n ≠ none → n ∈ l
  ties : Ties s a w
  calls : Calls main rank s
  times : Times s a w

variable {main : K} {rank : K → ℕ} {used : ℕ} {s : CoEnv N C K} {a a' : Agenda N}
  {w w' : C → List N} {n : N} {k : K}

omit [DecidableEq N] [DecidableEq C] [DecidableEq K] in
/-- More memory may have been used. -/
theorem Inv.mono (hinv : Inv main rank used s a w) {used' : ℕ} (hle : used ≤ used') :
    Inv main rank used' s a w :=
  { hinv with live := hinv.live.imp fun _ h => ⟨h.1.trans hle, h.2⟩ }

omit [DecidableEq C] in
omit [DecidableEq N] in
/-- The invariant holds before the first move. -/
theorem inv_init {iSize now : ℕ} (hsize : 1 < iSize ∧ iSize < 2 ^ 31) (hpos : 0 < now)
    (hlt : now < 2 ^ 63) :
    Inv main rank 0 (co_init_curr_thread_env iSize now main : CoEnv N C K) (Agenda.empty N now)
      fun _ => [] where
  keeps := ⟨0, CoEpoll.keeps_allocTimeout hsize hpos hlt⟩
  holds := Links.holds_empty
  timeout := rfl
  live := ⟨[], Nat.le_refl 0, fun _ h => absurd rfl h⟩
  ties := by
    refine ⟨?_, ?_, ?_, ?_, ?_⟩ <;> simp [co_init_curr_thread_env, Agenda.empty, Agenda.items]
  calls := by
    refine ⟨?_, ?_, ?_, ?_, ?_, ?_, ?_⟩ <;> simp [co_init_curr_thread_env]
  times := by
    refine ⟨?_, ?_, ?_, ?_, ?_, ?_, ?_, ?_⟩ <;> simp [co_init_curr_thread_env, Agenda.empty]

omit [DecidableEq N] [DecidableEq C] [DecidableEq K] in
/-- Memory that is in no use is in no list. -/
theorem Ties.unused (ht : Ties s a w) (hn : s.pArg n = none) :
    n ∉ a.items ∧ ∀ c, n ∉ w c := by
  constructor
  · intro hmem
    obtain ⟨k, t, hk, rfl⟩ := ht.linked n hmem
    exact absurd (ht.owns k t hk) (by rw [hn]; exact (Option.some_ne_none k).symm)
  · intro c hmem
    obtain ⟨k, ms, hk⟩ := ht.queued c n hmem
    exact absurd (ht.owns k _ hk) (by rw [Wait.item, hn]; exact (Option.some_ne_none k).symm)

omit [DecidableEq N] [DecidableEq C] [DecidableEq K] in
/-- There are not more items than moves. -/
theorem Inv.length_le (hinv : Inv main rank used s a w) :
    a.items.length ≤ used ∧ ∀ c, (w c).length ≤ used := by
  obtain ⟨l, hl, hlive⟩ := hinv.live
  obtain ⟨idx, hk⟩ := hinv.keeps
  have hall : ∀ n, (n ∈ a.items ∨ ∃ c, n ∈ w c) → n ∈ l := by
    intro n hn
    refine hlive n fun hout => ?_
    obtain ⟨hitems, hqueues⟩ := hinv.ties.unused hout
    exact hn.elim hitems fun ⟨c, hc⟩ => hqueues c hc
  refine ⟨?_, fun c => ?_⟩
  · exact (List.subperm_of_subset hk.nodup fun n hn => hall n (Or.inl hn)).length_le.trans hl
  · exact (List.subperm_of_subset (hinv.holds.nodup c) fun n hn =>
      hall n (Or.inr ⟨c, hn⟩)).length_le.trans hl

omit [DecidableEq N] [DecidableEq C] [DecidableEq K] in
/-- Who waits with an item. -/
theorem Ties.unique (ht : Ties s a w) {k k' : K} {t t' : Wait N C} (hk : s.waits k = some t)
    (hk' : s.waits k' = some t') (hitem : t.item = t'.item) : k = k' := by
  have h := ht.owns k t hk
  rw [hitem, ht.owns k' t' hk'] at h
  exact (Option.some.inj h).symm

omit [DecidableEq K] in
/-- A stack whose ranks fall is no higher than the rank of its top, and one. -/
theorem length_le_of_sorted : ∀ {l : List K},
    l.Pairwise (fun k k' => rank k' < rank k) → ∀ k ∈ l.head?, l.length ≤ rank k + 1
  | [], _, k, hk => by simp at hk
  | [_], _, k, _ => by simp
  | k :: k' :: l, h, _, rfl => by
    rw [List.pairwise_cons] at h
    have hlen := length_le_of_sorted h.2 k' rfl
    have hlt := h.1 k' List.mem_cons_self
    rw [List.length_cons]
    omega

/-! ## What a move does to the parts of the invariant -/

omit [DecidableEq N] [DecidableEq C] [DecidableEq K] in
/-- Only the stack, the flags and the waits matter. -/
theorem Calls.congr (hc : Calls main rank s) {s' : CoEnv N C K}
    (hstack : s'.pCallStack = s.pCallStack) (hstart : s'.cStart = s.cStart)
    (hcend : s'.cEnd = s.cEnd) (hwaits : s'.waits = s.waits) : Calls main rank s' := by
  refine ⟨?_, ?_, ?_, ?_, ?_, ?_, ?_⟩
  · exact hstack ▸ hc.sorted
  · exact hstack ▸ hc.base
  · rw [hstack, hcend, hstart]
    exact hc.running
  · rw [hwaits, hstack, hcend, hstart]
    exact hc.suspended
  · rw [hcend, hstart]
    exact hc.ended
  · rw [hstart]
    exact hc.above
  · rw [hwaits, hstack, hcend, hstart]
    exact hc.waiting

omit [DecidableEq N] [DecidableEq C] in
/-- A coroutine is resumed. -/
theorem Calls.push (hc : Calls main rank s) {s' : CoEnv N C K} {co : K}
    (hstack : s'.pCallStack = co :: s.pCallStack) (hstart : s'.cStart = update s.cStart co true)
    (hcend : s'.cEnd = s.cEnd) (hend : s.cEnd co = false) (hself : s'.waits co = none)
    (hothers : ∀ k, k ≠ co → s'.waits k = s.waits k)
    (hrank : ∀ k ∈ s.pCallStack, rank k < rank co) : Calls main rank s' := by
  have hmain : main ∈ s.pCallStack := List.mem_of_getLast? hc.base
  have hwaits : ∀ k t, s'.waits k = some t → k ≠ co ∧ s.waits k = some t := by
    intro k t hk
    have hne : k ≠ co := by
      rintro rfl
      rw [hself] at hk
      cases hk
    exact ⟨hne, hothers k hne ▸ hk⟩
  refine ⟨?_, ?_, fun k hk => ?_, fun k t hk => ?_, fun k hk => ?_, fun k hk => ?_,
    fun k hs he hk => ?_⟩
  · rw [hstack, List.pairwise_cons]
    exact ⟨hrank, hc.sorted⟩
  · rw [hstack, List.getLast?_cons, hc.base]
    rfl
  · rw [hcend, hstart]
    rw [hstack, List.mem_cons] at hk
    rcases hk with rfl | hk
    · exact ⟨hend, Or.inr (Function.update_self ..)⟩
    · obtain ⟨hk', hm⟩ := hc.running k hk
      refine ⟨hk', hm.imp_right fun h => ?_⟩
      rw [Function.update_apply]
      split_ifs
      · rfl
      · exact h
  · obtain ⟨hne, hk⟩ := hwaits k t hk
    obtain ⟨hout, hs, he⟩ := hc.suspended k t hk
    rw [hstack, hcend, hstart, Function.update_of_ne hne, List.mem_cons, not_or]
    exact ⟨⟨hne, hout⟩, hs, he⟩
  · rw [hcend] at hk
    rw [hstart, Function.update_apply]
    split_ifs
    · rfl
    · exact hc.ended k hk
  · rw [hstart, Function.update_apply] at hk
    split_ifs at hk with heq
    · rw [heq]
      exact hrank main hmain
    · exact hc.above k hk
  · rw [hstack, List.mem_cons, not_or] at hk
    rw [hstart, Function.update_of_ne hk.1] at hs
    rw [hothers k hk.1]
    exact hc.waiting k hs (hcend ▸ he) hk.2

omit [DecidableEq N] [DecidableEq C] [DecidableEq K] in
/-- The running coroutine waits, or is at its end. -/
theorem Calls.yield (hc : Calls main rank s) {s' : CoEnv N C K} {co last : K} {rest : List K}
    (hstack : s.pCallStack = co :: last :: rest) (hstack' : s'.pCallStack = last :: rest)
    (hstart : s'.cStart = s.cStart) (hcend : ∀ k, k ≠ co → s'.cEnd k = s.cEnd k)
    (hself : s'.cEnd co = false ↔ s'.waits co ≠ none)
    (hothers : ∀ k, k ≠ co → s'.waits k = s.waits k) : Calls main rank s' := by
  have hsorted := hc.sorted
  have hbase := hc.base
  rw [hstack, List.pairwise_cons] at hsorted
  rw [hstack, List.getLast?_cons_cons] at hbase
  have hout : co ∉ last :: rest := fun hmem => Nat.lt_irrefl _ (hsorted.1 co hmem)
  have hco := hc.running co (hstack ▸ List.mem_cons_self)
  have hmain : co ≠ main := fun heq => hout (heq ▸ List.mem_of_getLast? hbase)
  have hstarted := hco.2.resolve_left hmain
  refine ⟨hstack' ▸ hsorted.2, hstack' ▸ hbase, fun k hk => ?_, fun k t hk => ?_, fun k hk => ?_,
    fun k hk => ?_, fun k hs he hk => ?_⟩
  · rw [hstack'] at hk
    have hne : k ≠ co := fun heq => hout (heq ▸ hk)
    rw [hcend k hne, hstart]
    exact hc.running k (hstack ▸ List.mem_cons_of_mem co hk)
  · rw [hstack', hstart]
    rcases eq_or_ne k co with rfl | hne
    · exact ⟨hout, hstarted, hself.mpr (by rw [hk]; exact Option.some_ne_none t)⟩
    · obtain ⟨hk', hs, he⟩ := hc.suspended k t (hothers k hne ▸ hk)
      rw [hcend k hne]
      exact ⟨fun hmem => hk' (hstack ▸ List.mem_cons_of_mem co hmem), hs, he⟩
  · rw [hstart]
    rcases eq_or_ne k co with rfl | hne
    · exact hstarted
    · exact hc.ended k (hcend k hne ▸ hk)
  · exact hc.above k (hstart ▸ hk)
  · rcases eq_or_ne k co with rfl | hne
    · exact hself.mp he
    · rw [hothers k hne]
      refine hc.waiting k (hstart ▸ hs) (hcend k hne ▸ he) fun hmem => hk ?_
      rw [hstack, List.mem_cons] at hmem
      exact hstack' ▸ hmem.resolve_left hne

omit [DecidableEq N] [DecidableEq C] in
/-- A coroutine that starts to wait leaves the stack. -/
theorem Calls.wait (hc : Calls main rank s) {s' : CoEnv N C K} {co last : K} {rest : List K}
    {t : Wait N C} (hstack : s.pCallStack = co :: last :: rest)
    (hstack' : s'.pCallStack = last :: rest) (hstart : s'.cStart = s.cStart)
    (hcend : s'.cEnd = s.cEnd) (hwaits : s'.waits = update s.waits co (some t)) :
    Calls main rank s' := by
  refine hc.yield hstack hstack' hstart (fun k _ => by rw [hcend]) ?_ fun k hne => ?_
  · rw [hwaits, Function.update_self, hcend]
    exact iff_of_true (hc.running co (hstack ▸ List.mem_cons_self)).1 (Option.some_ne_none t)
  · rw [hwaits, Function.update_of_ne hne]

omit [DecidableEq C] in
/-- A coroutine begins to wait with new memory. -/
theorem Ties.wait (ht : Ties s a w) {s' : CoEnv N C K} {t : Wait N C} (hout : s.pArg n = none)
    (hself : s.waits k = none) (hitem : t.item = n)
    (hpArg : s'.pArg = update s.pArg n (some k)) (hwaits : s'.waits = update s.waits k (some t))
    (hitems : ∀ m ∈ a'.items, m = n ∨ m ∈ a.items) (hitems' : ∀ m ∈ a.items, m ∈ a'.items)
    (hw : ∀ c, ∀ m ∈ w' c, m ∈ w c ∨ (m = n ∧ ∃ ms, t = .timedwait c ms n))
    (hw' : ∀ c, ∀ m ∈ w c, m ∈ w' c) (hpoll : t = .poll n → n ∈ a'.items)
    (htimed : ∀ c ms, t = .timedwait c ms n → n ∈ a'.items ∨ (ms ≤ 0 ∧ n ∈ w' c)) :
    Ties s' a' w' := by
  have hother : ∀ k' t', s.waits k' = some t' → t'.item ≠ n ∧ k' ≠ k := by
    intro k' t' hk'
    refine ⟨fun heq => ?_, fun heq => ?_⟩
    · have := ht.owns k' t' hk'
      rw [heq, hout] at this
      exact absurd this.symm (Option.some_ne_none k')
    · rw [heq, hself] at hk'
      exact absurd hk'.symm (Option.some_ne_none t')
  have hkeep : ∀ k' t', s.waits k' = some t' → s'.waits k' = some t' := fun k' t' hk' => by
    rw [hwaits, Function.update_of_ne (hother k' t' hk').2, hk']
  have hself' : s'.waits k = some t := by rw [hwaits, Function.update_self]
  have hcases : ∀ k' t', s'.waits k' = some t' → (k' = k ∧ t' = t) ∨ s.waits k' = some t' := by
    intro k' t' hk'
    rw [hwaits, Function.update_apply] at hk'
    split_ifs at hk' with heq
    · exact Or.inl ⟨heq, (Option.some.inj hk').symm⟩
    · exact Or.inr hk'
  refine ⟨fun k' t' hk' => ?_, fun m hm => ?_, fun c m hm => ?_, fun k' m hk' => ?_,
    fun k' c ms m hk' => ?_⟩
  · rcases hcases k' t' hk' with ⟨rfl, rfl⟩ | hk'
    · rw [hpArg, hitem, Function.update_self]
    · rw [hpArg, Function.update_of_ne (hother k' t' hk').1]
      exact ht.owns k' t' hk'
  · rcases hitems m hm with rfl | hm
    · exact ⟨k, t, hself', hitem⟩
    · obtain ⟨k', t', hk', hm⟩ := ht.linked m hm
      exact ⟨k', t', hkeep k' t' hk', hm⟩
  · rcases hw c m hm with hm | ⟨rfl, ms, rfl⟩
    · obtain ⟨k', ms, hk'⟩ := ht.queued c m hm
      exact ⟨k', ms, hkeep k' _ hk'⟩
    · exact ⟨k, ms, hself'⟩
  · rcases hcases k' _ hk' with ⟨rfl, rfl⟩ | hk'
    · obtain rfl : m = n := hitem
      exact hpoll rfl
    · exact hitems' m (ht.polled k' m hk')
  · rcases hcases k' _ hk' with ⟨rfl, rfl⟩ | hk'
    · obtain rfl : m = n := hitem
      exact htimed c ms rfl
    · exact (ht.timed k' c ms m hk').imp (hitems' m) fun h => ⟨h.1, hw' c m h.2⟩

omit [DecidableEq N] [DecidableEq C] [DecidableEq K] in
/-- Items go from one list to an other. -/
theorem Ties.moved (ht : Ties s a w) {s' : CoEnv N C K} (hpArg : s'.pArg = s.pArg)
    (hwaits : s'.waits = s.waits) (hitems : ∀ m ∈ a'.items, m ∈ a.items ∨ ∃ c, m ∈ w c)
    (hitems' : ∀ m ∈ a.items, m ∈ a'.items) (hw : ∀ c, ∀ m ∈ w' c, m ∈ w c)
    (hw' : ∀ c, ∀ m ∈ w c, m ∈ w' c ∨ m ∈ a'.items) : Ties s' a' w' := by
  refine ⟨fun k t hk => ?_, fun m hm => ?_, fun c m hm => ?_, fun k m hk => ?_,
    fun k c ms m hk => ?_⟩
  · rw [hpArg]
    exact ht.owns k t (hwaits ▸ hk)
  · rw [hwaits]
    rcases hitems m hm with hm | ⟨c, hm⟩
    · exact ht.linked m hm
    · obtain ⟨k, ms, hk⟩ := ht.queued c m hm
      exact ⟨k, _, hk, rfl⟩
  · rw [hwaits]
    exact ht.queued c m (hw c m hm)
  · exact hitems' m (ht.polled k m (hwaits ▸ hk))
  · rcases ht.timed k c ms m (hwaits ▸ hk) with hm | ⟨hms, hm⟩
    · exact Or.inl (hitems' m hm)
    · exact (hw' c m hm).symm.imp_right fun hm => ⟨hms, hm⟩

omit [DecidableEq C] in
/-- A coroutine goes on. -/
theorem Ties.leave (ht : Ties s a w) {s' : CoEnv N C K} {t : Wait N C} (hk : s.waits k = some t)
    (hpArg : s'.pArg = update s.pArg t.item none) (hwaits : s'.waits = update s.waits k none)
    (hitems : ∀ m, m ∈ a'.items ↔ m ≠ t.item ∧ m ∈ a.items)
    (hw : ∀ c m, m ∈ w' c ↔ m ≠ t.item ∧ m ∈ w c) : Ties s' a' w' := by
  have hcases : ∀ k' t', s'.waits k' = some t' → s.waits k' = some t' ∧ t'.item ≠ t.item := by
    intro k' t' hk'
    rw [hwaits, Function.update_apply] at hk'
    split_ifs at hk' with heq
    exact ⟨hk', fun hitem => heq (ht.unique hk' hk hitem)⟩
  have hkeep : ∀ k' t', s.waits k' = some t' → t'.item ≠ t.item → s'.waits k' = some t' := by
    intro k' t' hk' hne
    rw [hwaits, Function.update_of_ne, hk']
    rintro rfl
    rw [hk] at hk'
    exact hne (by rw [Option.some.inj hk'])
  refine ⟨fun k' t' hk' => ?_, fun m hm => ?_, fun c m hm => ?_, fun k' m hk' => ?_,
    fun k' c ms m hk' => ?_⟩
  · obtain ⟨hk', hne⟩ := hcases k' t' hk'
    rw [hpArg, Function.update_of_ne hne]
    exact ht.owns k' t' hk'
  · obtain ⟨hne, hm⟩ := (hitems m).mp hm
    obtain ⟨k', t', hk', rfl⟩ := ht.linked m hm
    exact ⟨k', t', hkeep k' t' hk' hne, rfl⟩
  · obtain ⟨hne, hm⟩ := (hw c m).mp hm
    obtain ⟨k', ms, hk'⟩ := ht.queued c m hm
    exact ⟨k', ms, hkeep k' _ hk' hne⟩
  · obtain ⟨hk', hne⟩ := hcases k' _ hk'
    exact (hitems m).mpr ⟨hne, ht.polled k' m hk'⟩
  · obtain ⟨hk', hne⟩ := hcases k' _ hk'
    exact (ht.timed k' c ms m hk').imp (fun hm => (hitems m).mpr ⟨hne, hm⟩)
      fun hm => ⟨hm.1, (hw c m).mpr ⟨hne, hm.2⟩⟩

omit [DecidableEq N] [DecidableEq C] in
/-- A coroutine begins to wait. -/
theorem Times.wait (ht : Times s a w) (hties : Ties s a w) {s' : CoEnv N C K} {t : Wait N C}
    (hout : s.pArg n = none) (hitem : t.item = n)
    (hwaits : s'.waits = update s.waits k (some t)) (hloop : s'.loop = s.loop) {f : ℕ × ℕ}
    (hframe : s'.frame = update s.frame k f) (hf : t.Until f (s'.ep.ullExpireTime n))
    (hexpire : ∀ m, m ≠ n → s'.ep.ullExpireTime m = s.ep.ullExpireTime m)
    (hlate : ∀ m, m ≠ n → s'.ep.bTimeout m = s.ep.bTimeout m) (hnew : s'.ep.bTimeout n = false)
    (hdetach : ∀ m, m ≠ n → s'.iAllEventDetach m = s.iAllEventDetach m)
    (hraise : ∀ m, m ≠ n → s'.iRaiseCnt m = s.iRaiseCnt m)
    (hpoll : t = .poll n → s'.iAllEventDetach n = false ∧ s'.iRaiseCnt n = 0)
    (hstart : a'.start = a.start) (hactive : a'.active = a.active)
    (hpending : ∀ p ∈ a'.pending, p ∈ a.pending ∨
      p.1 = n ∧ a.start < p.2 ∧ p.2 ≤ s'.ep.ullExpireTime n)
    (huntimed : ∀ c ms, t = .timedwait c ms n → ms ≤ 0 → a'.pending = a.pending)
    (hw : ∀ c, ∀ m ∈ w' c, m ∈ w c ∨ m = n) : Times s' a' w' := by
  obtain ⟨hitems, hqueues⟩ := hties.unused hout
  have hcases' : ∀ k' t', s'.waits k' = some t' →
      (k' = k ∧ t' = t) ∨ (k' ≠ k ∧ s.waits k' = some t' ∧ t'.item ≠ n) := by
    intro k' t' hk'
    rw [hwaits, Function.update_apply] at hk'
    split_ifs at hk' with heq
    · exact Or.inl ⟨heq, (Option.some.inj hk').symm⟩
    · refine Or.inr ⟨heq, hk', fun heq => ?_⟩
      have := hties.owns k' t' hk'
      rw [heq, hout] at this
      exact absurd this.symm (Option.some_ne_none k')
  have hcases : ∀ k' t', s'.waits k' = some t' →
      t' = t ∨ (s.waits k' = some t' ∧ t'.item ≠ n) := fun k' t' hk' =>
    (hcases' k' t' hk').imp And.right And.right
  have hact : ∀ m ∈ a.active, m ≠ n := by
    rintro m hm rfl
    exact hitems (List.mem_append_right _ hm)
  have hpend : ∀ p ∈ a.pending, p.1 ≠ n := by
    rintro p hp rfl
    exact hitems (List.mem_append_left _ (List.mem_append_left _ (List.mem_map_of_mem hp)))
  refine ⟨fun p hp => ?_, fun m hm hb => ?_, fun k' m hk' hm => ?_, fun k' m hk' hm => ?_,
    fun k' c ms m hk' hm => ?_, fun k' c ms m hk' hms => ?_, fun k' t' hk' => ?_,
    fun now hnow => by rw [hstart]; exact ht.now_le now (hloop ▸ hnow)⟩
  · rw [hstart]
    rcases hpending p hp with hp | ⟨hpn, hlt, hle⟩
    · rw [hexpire _ (hpend p hp), hlate _ (hpend p hp)]
      exact ht.pending p hp
    · rw [hpn]
      exact ⟨hlt, hle, hnew⟩
  · rw [hactive] at hm
    rw [hlate m (hact m hm)] at hb
    rw [hloop, hstart]
    exact ht.late m hm hb
  · rw [hactive] at hm
    rcases hcases k' _ hk' with rfl | ⟨hk', hne⟩
    · exact absurd hitem (hact m hm)
    · rw [hlate m hne, hraise m hne]
      exact ht.raised k' m hk' hm
  · rcases hcases k' _ hk' with rfl | ⟨hk', hne⟩
    · obtain rfl : m = n := hitem
      exact hpoll rfl
    · rw [hactive, hlate m hne] at hm
      rw [hdetach m hne, hraise m hne]
      exact ht.quiet k' m hk' hm
  · rw [hactive] at hm
    rcases hcases k' _ hk' with rfl | ⟨hk', hne⟩
    · exact absurd hitem (hact m hm)
    · rw [hlate m hne]
      exact (ht.signalled k' c ms m hk' hm).imp_right fun hout hin =>
        (hw c m hin).elim hout hne
  · rcases hcases k' _ hk' with rfl | ⟨hk', hne⟩
    · obtain rfl : m = n := hitem
      rw [huntimed c ms rfl hms]
      exact ⟨hnew, hpend⟩
    · rw [hlate m hne]
      refine ⟨(ht.untimed k' c ms m hk' hms).1, fun p hp heq => ?_⟩
      rcases hpending p hp with hp | ⟨hpn, -⟩
      · exact (ht.untimed k' c ms m hk' hms).2 p hp heq
      · exact hne (heq.symm.trans hpn)
  · rw [hframe]
    rcases hcases' k' t' hk' with ⟨rfl, rfl⟩ | ⟨hk, hk', hne⟩
    · rw [Function.update_self, hitem]
      exact hf
    · rw [Function.update_of_ne hk, hexpire _ hne]
      exact ht.expires k' t' hk'

omit [DecidableEq C] [DecidableEq K] in
omit [DecidableEq N] in
/-- What the pointers say. -/
theorem Inv.sound (hinv : Inv main rank used s a w) : Sound s := by
  obtain ⟨idx, hk⟩ := hinv.keeps
  have howner : ∀ n, s.ep.links.owner n ≠ none ↔ n ∈ a.items := fun n => by
    rw [Ne, hk.owner, not_not]
  refine ⟨hinv.calls.waiting, fun k n hw => (howner n).mpr (hinv.ties.polled k n hw),
    fun k c ms n hw hn => ?_,
    fun n hn => hinv.ties.linked n ((howner n).mp hn), fun n c hn => ?_, hinv.ties.owns,
    hinv.calls.suspended⟩
  · rcases hinv.ties.timed k c ms n hw with hmem | ⟨hms, hmem⟩
    · exact absurd hn ((howner n).mpr hmem)
    · exact ⟨hms, (hinv.holds.owner n c).mpr hmem⟩
  · exact hinv.ties.queued c n ((hinv.holds.owner n c).mp hn)

end CoEnv

end WzxServer
