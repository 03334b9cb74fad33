import Mathlib.Tactic.Common

/-!
# Draining a queue

The loop `while (!queue.empty()) { take the front; body(front); }` over a queue that is part
of the state, where the body may fail, or put something into the queue again. `drain` gives
up after `n` turns; by `drain_rule` a queue of `n` elements needs no more, as long as the
body leaves the queue alone. `Turns` are the states the loop comes through.

A body that fills the queue again needs a bound from elsewhere : then `turns_rule` says what
the turns keep, and `turns_of_drain` that a loop which returned left nothing.
-/

namespace Drain

variable {σ α : Type}

/-- A queue in a state. -/
structure Queue (σ α : Type) where
  get : σ → List α
  set : σ → List α → σ

/-- At most `n` turns of the loop. -/
def drain [DecidableEq α] (q : Queue σ α) (body : α → σ → Option σ) : ℕ → σ → Option σ
  | 0, s => if q.get s = [] then some s else none
  | n + 1, s => match q.get s with
    | [] => some s
    | a :: rest => (body a (q.set s rest)).bind (drain q body n)

variable [DecidableEq α] {q : Queue σ α} {body : α → σ → Option σ}

/-- Nothing is left. -/
theorem drain_nil {n : ℕ} {s : σ} (h : q.get s = []) : drain q body n s = some s := by
  cases n <;> simp [drain, h]

/-- The first is taken out before its body runs. -/
theorem drain_cons {n : ℕ} {s : σ} {a : α} {rest : List α} (h : q.get s = a :: rest) :
    drain q body (n + 1) s = (body a (q.set s rest)).bind (drain q body n) := by
  simp [drain, h]

/-- The rule for the loop. `I rest s` holds when `rest` is what is left in the queue : if each
turn returns and keeps this, the loop returns, and nothing is left. -/
theorem drain_rule (q : Queue σ α) (body : α → σ → Option σ) (I : List α → σ → Prop)
    (hget : ∀ l s, I l s → q.get s = l)
    (hturn : ∀ a rest s, I (a :: rest) s → ∃ s', body a (q.set s rest) = some s' ∧ I rest s') :
    ∀ {l : List α} {n : ℕ} {s : σ}, I l s → l.length ≤ n →
      ∃ s', drain q body n s = some s' ∧ I [] s'
  | [], _, s, hI, _ => ⟨s, drain_nil (hget _ _ hI), hI⟩
  | a :: rest, n + 1, s, hI, hn => by
    obtain ⟨s', hbody, hI'⟩ := hturn a rest s hI
    obtain ⟨s'', hdrain, hI''⟩ := drain_rule q body I hget hturn hI' (Nat.le_of_succ_le_succ hn)
    exact ⟨s'', by rw [drain_cons (hget _ _ hI), hbody, Option.bind_some, hdrain], hI''⟩

/-- The states at the test of the loop, from `s` on. -/
inductive Turns (q : Queue σ α) (body : α → σ → Option σ) (s : σ) : σ → Prop
  | start : Turns q body s s
  | turn {v v' : σ} (h : Turns q body s v) {a : α} {rest : List α} (hget : q.get v = a :: rest)
      (hbody : body a (q.set v rest) = some v') : Turns q body s v'

omit [DecidableEq α] in
/-- What each turn keeps holds in every turn. -/
theorem turns_rule {I : σ → Prop}
    (hturn : ∀ v v' a rest, I v → q.get v = a :: rest → body a (q.set v rest) = some v' → I v')
    {s v : σ} (hs : I s) (h : Turns q body s v) : I v := by
  induction h with
  | start => exact hs
  | turn _ hget hbody ih => exact hturn _ _ _ _ ih hget hbody

/-- A loop that returns came through its turns, and left nothing. -/
theorem turns_of_drain : ∀ {n : ℕ} {s s' : σ}, drain q body n s = some s' →
    Turns q body s s' ∧ q.get s' = []
  | 0, s, s', h => by
    rw [drain] at h
    split_ifs at h with hnil
    obtain rfl := Option.some.inj h
    exact ⟨.start, hnil⟩
  | n + 1, s, s', h => by
    rcases hl : q.get s with _ | ⟨a, rest⟩
    · rw [drain_nil hl] at h
      obtain rfl := Option.some.inj h
      exact ⟨.start, hl⟩
    · rw [drain_cons hl] at h
      obtain ⟨s1, hbody, hrest⟩ := Option.bind_eq_some_iff.mp h
      obtain ⟨hturns, hnil⟩ := turns_of_drain hrest
      refine ⟨?_, hnil⟩
      have hfirst : Turns q body s s1 := Turns.start.turn hl hbody
      clear hrest h hnil hbody
      induction hturns with
      | start => exact hfirst
      | turn _ hget hbody ih => exact ih.turn hget hbody

/-! ## Two loops that do the same -/

section Simulation

variable {σ' β : Type} [DecidableEq β] {q' : Queue σ' β} {body' : β → σ' → Option σ'}
  {φ : σ → σ'} {f : α → β}

/-- When the queues and the bodies of two loops agree along `φ`, so do the loops. -/
theorem drain_map (hget : ∀ s, q'.get (φ s) = (q.get s).map f)
    (hset : ∀ s l, q'.set (φ s) (l.map f) = φ (q.set s l))
    (hbody : ∀ a s, body' (f a) (φ s) = (body a s).map φ) :
    ∀ (n : ℕ) (s : σ), drain q' body' n (φ s) = (drain q body n s).map φ
  | 0, s => by
    simp only [drain, hget, List.map_eq_nil_iff]
    split_ifs <;> rfl
  | n + 1, s => by
    rcases hl : q.get s with _ | ⟨a, rest⟩
    · rw [drain_nil hl, drain_nil (by rw [hget, hl]; rfl), Option.map_some]
    · have hl' : q'.get (φ s) = f a :: rest.map f := by
        rw [hget, hl]
        rfl
      rw [drain_cons hl, drain_cons hl', hset, hbody, Option.map_bind, Option.bind_map]
      refine Option.bind_congr fun s' _ => ?_
      exact drain_map hget hset hbody n s'

end Simulation

end Drain
