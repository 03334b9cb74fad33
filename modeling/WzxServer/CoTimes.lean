import WzxServer.CoSteps

/-!
# When a wait ends

`ends_on_time` : `poll` returns 0, and a coroutine that was not signalled goes on, only in a turn
of the event loop whose clock has come to the end of the time. `turn_complete` : after a turn no
coroutine waits that got an event, whose time was over, or that was signalled.

The first follows from the invariant of `CoLoop`, in which every item that is active without a
reason has a time that is over. The second is about a turn as a whole : what the wheel still
holds is later than the reading of the turn, and the active items are done when the queue is
empty. A coroutine that waits again in the same turn waits for something that comes after it.
-/

namespace WzxServer

namespace CoEnv

variable {N C K : Type} [DecidableEq N] [DecidableEq C] [DecidableEq K] {main : K} {rank : K → ℕ}
  {fuel iSize start : ℕ} {ms : List (CoMove N C K)} {s s' : CoEnv N C K} {k : K} {t : Wait N C}

/-- What a wait may end for : an event or a signal, or its time. -/
def Reason (s s' : CoEnv N C K) (k : K) (now : ℕ) : Wait N C → Prop
  | .poll arg => 0 < s.iRaiseCnt arg ∧ s'.ret k = s.iRaiseCnt arg ∨
      (s.frame k).1 + (s.frame k).2 ≤ now
  | .timedwait _ ms psi => s.conds.owner psi = none ∨
      0 < ms ∧ (s.frame k).1 + (s.frame k).2 ≤ now

/-- Whatever the coroutines do, no wait ends too early. -/
theorem ends_on_time (hsize : 1 < iSize ∧ iSize < 2 ^ 31) (hpos : 0 < start)
    (hlt : start < 2 ^ 63) (hfuel : ms.length ≤ fuel)
    (hms : Moves.Meets (step fuel) (Can main rank) (co_init_curr_thread_env iSize start main) ms)
    (hs : Moves.run (step fuel) (co_init_curr_thread_env iSize start main) ms = some s)
    (hcan : Can main rank s .pop) (hpop : s.step fuel .pop = some s')
    (hk : s.waits k = some t) (hk' : s'.waits k = none) :
    ∃ now, s.loop = .active now ∧ Reason s s' k now t := by
  obtain ⟨s1, hs1, a, w, hinv⟩ := inv_run (inv_init hsize hpos hlt) hms (by omega)
  obtain rfl := Option.some.inj (hs1.symm.trans hs)
  obtain ⟨k1, t1, now, s2, hk1, hloop, hmem, hs2, -, hcases⟩ := pop_spec hinv hcan
  obtain rfl := Option.some.inj (hs2.symm.trans hpop)
  refine ⟨now, hloop, ?_⟩
  rcases hcases with ⟨-, -, hsame⟩ | ⟨hdue, hwaits, hret⟩
  · rw [hsame, hk] at hk'
    exact absurd hk' (Option.some_ne_none t)
  · have hkk : k = k1 := by
      by_contra hne
      rw [hwaits, Function.update_of_ne hne, hk] at hk'
      exact Option.some_ne_none t hk'
    rw [← hkk] at hk1 hret
    obtain rfl := Option.some.inj (hk.symm.trans hk1)
    have huntil := hinv.times.expires k t hk
    cases t with
    | poll arg =>
      rcases hinv.times.raised k arg hk hmem with hlate | hraise
      · refine Or.inr ?_
        rw [← huntil.2]
        exact Nat.not_lt.mp fun hearly => hdue ⟨hlate, hearly⟩
      · exact Or.inl ⟨hraise, hret arg rfl⟩
    | timedwait c ms psi =>
      rcases hinv.times.signalled k c ms psi hk hmem with hlate | hout
      · have htimed : 0 < ms := by
          by_contra hms
          rw [(hinv.times.untimed k c ms psi hk (Int.not_lt.mp hms)).1] at hlate
          exact Bool.noConfusion hlate
        refine Or.inr ⟨htimed, ?_⟩
        rw [← huntil.2 htimed]
        exact Nat.not_lt.mp fun hearly => hdue ⟨hlate, hearly⟩
      · refine Or.inl (Option.eq_none_iff_forall_ne_some.mpr fun c' hc' => ?_)
        have hin := (hinv.holds.owner psi c').mp hc'
        obtain ⟨k', ms', hk''⟩ := hinv.ties.queued c' psi hin
        have hkk' := hinv.ties.unique hk'' hk rfl
        rw [hkk', hk] at hk''
        obtain ⟨rfl, -, -⟩ := Wait.timedwait.inj (Option.some.inj hk'')
        exact hout hin

/-- The main coroutine creates one that polls, and its time is over. -/
def timing : List (CoMove ℕ Unit ℕ) :=
  [.create 1, .poll 10 3 5, .epollWait, .take 8]

/-- The moves can be made. -/
theorem meets_timing : Moves.Meets (step 4) (Can 0 fun k => k)
    (co_init_curr_thread_env 60000 5 0) timing := by
  refine ⟨⟨Or.inr rfl, rfl, by decide, by decide, by decide⟩, fun s hs => ?_⟩
  obtain rfl := Option.some.inj hs
  refine ⟨⟨⟨1, 0, [], rfl⟩, rfl, by decide, by decide⟩, fun s hs => ?_⟩
  obtain rfl := Option.some.inj hs
  refine ⟨⟨rfl, Or.inl rfl⟩, fun s hs => ?_⟩
  obtain rfl := Option.some.inj hs
  exact ⟨⟨rfl, rfl, by decide, by decide⟩, fun s hs => trivial⟩

/-- `poll` returns 0. -/
theorem ends_on_time_timing : ∃ s s' : CoEnv ℕ Unit ℕ,
    Moves.run (step 4) (co_init_curr_thread_env 60000 5 0) timing = some s ∧
      s.step 4 .pop = some s' ∧ s'.ret 1 = 0 ∧
        ∃ now, s.loop = .active now ∧ Reason s s' 1 now (.poll 10) := by
  refine ⟨_, _, rfl, rfl, rfl, ?_⟩
  exact ends_on_time (by omega) (by omega) (by omega) (Nat.le_refl 4) meets_timing rfl
    ⟨rfl, ⟨8, rfl⟩, by decide⟩ rfl rfl rfl

/-- The coroutine still has to wait. -/
def StillWaits (s : CoEnv N C K) (k : K) (now : ℕ) : Wait N C → Prop
  | .poll arg => s.iRaiseCnt arg = 0 ∧ now < (s.frame k).1 + (s.frame k).2
  | .timedwait c ms psi => (0 < ms → now < (s.frame k).1 + (s.frame k).2) ∧
      (ms ≤ 0 → s.conds.owner psi = some c)

/-- Whatever the coroutines do, when the active items of a turn are done, those who wait have
to. -/
theorem turn_complete (hsize : 1 < iSize ∧ iSize < 2 ^ 31) (hpos : 0 < start)
    (hlt : start < 2 ^ 63) (hfuel : ms.length ≤ fuel)
    (hms : Moves.Meets (step fuel) (Can main rank) (co_init_curr_thread_env iSize start main) ms)
    (hs : Moves.run (step fuel) (co_init_curr_thread_env iSize start main) ms = some s) {now : ℕ}
    (hloop : s.loop = .active now) (hdone : s.ep.links.head .pstActiveList = none)
    (hk : s.waits k = some t) : StillWaits s k now t := by
  obtain ⟨s1, hs1, a, w, hinv⟩ := inv_run (inv_init hsize hpos hlt) hms (by omega)
  obtain rfl := Option.some.inj (hs1.symm.trans hs)
  obtain ⟨idx, hkeeps⟩ := hinv.keeps
  have hactive : a.active = [] := by
    have hempty := hkeeps.holds.head .pstActiveList
    rw [hdone] at hempty
    exact List.head?_eq_none_iff.mp hempty.symm
  have hle := hinv.times.now_le now hloop
  have huntil := hinv.times.expires k t hk
  have htime : t.item ∈ a.items → now < s1.ep.ullExpireTime t.item := by
    intro hitem
    rw [Agenda.items, hinv.timeout, hactive, List.append_nil, List.append_nil] at hitem
    obtain ⟨p, hp, heq⟩ := List.mem_map.mp hitem
    obtain ⟨hstart, hexpire, -⟩ := hinv.times.pending p hp
    rw [heq] at hexpire
    omega
  have hout : ∀ n, n ∉ a.active := by
    intro n
    rw [hactive]
    exact List.not_mem_nil
  cases t with
  | poll arg =>
    refine ⟨(hinv.times.quiet k arg hk (Or.inl (hout arg))).2, ?_⟩
    rw [← huntil.2]
    exact htime (hinv.ties.polled k arg hk)
  | timedwait c ms psi =>
    refine ⟨fun htimed => ?_, fun hms => ?_⟩
    · rw [← huntil.2 htimed]
      rcases hinv.ties.timed k c ms psi hk with hitem | ⟨hms, -⟩
      · exact htime hitem
      · exact absurd htimed (Int.not_lt.mpr hms)
    · rw [hinv.holds.owner]
      rcases hinv.ties.timed k c ms psi hk with hitem | ⟨-, hin⟩
      · rw [Agenda.items, hinv.timeout, hactive, List.append_nil, List.append_nil] at hitem
        obtain ⟨p, hp, heq⟩ := List.mem_map.mp hitem
        exact absurd heq ((hinv.times.untimed k c ms psi hk hms).2 p hp)
      · exact hin

/-- An other coroutine waits for a signal when the time of the first is over. -/
def resting : List (CoMove ℕ Unit ℕ) :=
  [.create 1, .poll 10 3 5, .create 2, .timedwait () 0 11 5, .epollWait, .take 8, .pop,
    .poll 12 3 8]

/-- The moves can be made. -/
theorem meets_resting : Moves.Meets (step 8) (Can 0 fun k => k)
    (co_init_curr_thread_env 60000 5 0) resting := by
  refine ⟨⟨Or.inr rfl, rfl, by decide, by decide, by decide⟩, fun s hs => ?_⟩
  obtain rfl := Option.some.inj hs
  refine ⟨⟨⟨1, 0, [], rfl⟩, rfl, by decide, by decide⟩, fun s hs => ?_⟩
  obtain rfl := Option.some.inj hs
  refine ⟨⟨Or.inr rfl, rfl, by decide, by decide, by decide⟩, fun s hs => ?_⟩
  obtain rfl := Option.some.inj hs
  refine ⟨⟨⟨2, 0, [], rfl⟩, rfl, by decide, by decide⟩, fun s hs => ?_⟩
  obtain rfl := Option.some.inj hs
  refine ⟨⟨rfl, Or.inl rfl⟩, fun s hs => ?_⟩
  obtain rfl := Option.some.inj hs
  refine ⟨⟨rfl, rfl, by decide, by decide⟩, fun s hs => ?_⟩
  obtain rfl := Option.some.inj hs
  refine ⟨⟨rfl, ⟨8, rfl⟩, by decide⟩, fun s hs => ?_⟩
  obtain rfl := Option.some.inj hs
  exact ⟨⟨⟨1, 0, [], rfl⟩, rfl, by decide, by decide⟩, fun s hs => trivial⟩

/-- The first coroutine polls again, until 11, and the other is in its queue. -/
theorem turn_complete_resting : ∃ s : CoEnv ℕ Unit ℕ,
    Moves.run (step 8) (co_init_curr_thread_env 60000 5 0) resting = some s ∧
      s.frame 1 = (8, 3) ∧ StillWaits s 1 8 (.poll 12) ∧ StillWaits s 2 8 (.timedwait () 0 11) := by
  refine ⟨_, rfl, rfl, ?_, ?_⟩
  · exact turn_complete (by omega) (by omega) (by omega) (Nat.le_refl 8) meets_resting rfl rfl rfl
      rfl
  · exact turn_complete (by omega) (by omega) (by omega) (Nat.le_refl 8) meets_resting rfl rfl rfl
      rfl

end CoEnv

end WzxServer
