import WzxServer.Lib.Prog
import Mathlib.Logic.Function.Basic

/-!
# Programs that wait for each other

A crew runs programs over one shared state, each member one program after the other. In
difference to `Threads`, an operation that is asked for need not be answered : a member may
stall, and this changes the shared state like everything else. So a `Rules` consists of
relations, and where no rule applies, the crew stands still.

`Reach` are the states of the runs of which every step meets a condition. The proof rule is
`Reach.inv` : an invariant of the shared state and one for each member and the rest of its
program, which what a member does keeps for itself and for all others. `Reach.serves` lets one
member go through a part of its program while the others rest.
-/

open Prog

/-- How programs begin, how operations are answered, and what happens while they are not. -/
structure Rules (E : Effects) (T σ : Type) where
  begins : σ → T → Prog E Unit → σ → Prop
  serves : σ → T → (o : E.Op) → E.Ans o → σ → Prop
  stalls : σ → T → E.Op → σ → Prop

/-- What is left of the program of each member, and what they share. -/
structure Crew (E : Effects) (T σ : Type) where
  prog : T → Prog E Unit
  shared : σ

namespace Crew

variable {E : Effects} {T σ : Type} [DecidableEq T]

/-- What a member does : it begins, gets an answer, or stalls. -/
inductive Act (E : Effects) (T : Type)
  /-- A program begins. -/
  | begins (t : T)
  /-- An operation is answered. -/
  | serves (t : T) (e : Exchange E)
  /-- An operation is not answered yet. -/
  | stalls (t : T)

/-- The steps from a state. -/
inductive Step (R : Rules E T σ) (c : Crew E T σ) : Act E T → Crew E T σ → Prop
  /-- A member whose program has returned begins an other one. -/
  | begins {t : T} {p : Prog E Unit} {s : σ} (hidle : c.prog t = ret ())
      (h : R.begins c.shared t p s) : Step R c (.begins t) ⟨Function.update c.prog t p, s⟩
  /-- A member gets an answer and goes on. -/
  | serves {t : T} {o : E.Op} {k : E.Ans o → Prog E Unit} {r : E.Ans o} {s : σ}
      (hprog : c.prog t = call o k) (h : R.serves c.shared t o r s) :
      Step R c (.serves t ⟨o, r⟩) ⟨Function.update c.prog t (k r), s⟩
  /-- A member stays where it is, and the shared state may change. -/
  | stalls {t : T} {o : E.Op} {k : E.Ans o → Prog E Unit} {s : σ} (hprog : c.prog t = call o k)
      (h : R.stalls c.shared t o s) : Step R c (.stalls t) ⟨c.prog, s⟩

/-- The states of the runs from `s`, where no program has begun, of which every step meets the
condition `C`. -/
inductive Reach (R : Rules E T σ) (C : Crew E T σ → Act E T → Prop) (s : σ) : Crew E T σ → Prop
  | start : Reach R C s ⟨fun _ => ret (), s⟩
  | step {c c' : Crew E T σ} {a : Act E T} (h : Reach R C s c) (hC : C c a) (hs : Step R c a c') :
      Reach R C s c'

variable {R : Rules E T σ} {C : Crew E T σ → Act E T → Prop} {s : σ}

/-- What a condition rules out is not needed for a run. -/
theorem Reach.mono {C' : Crew E T σ → Act E T → Prop} (hCC' : ∀ c a, C c a → C' c a)
    {c : Crew E T σ} (h : Reach R C s c) : Reach R C' s c := by
  induction h with
  | start => exact .start
  | step _ hC hs ih => exact ih.step (hCC' _ _ hC) hs

/-! ## Invariants -/

/-- `I` is kept of the shared state, and `G` of each member and what is left of its program. -/
structure Invariant (R : Rules E T σ) (C : Crew E T σ → Act E T → Prop) (I : σ → Prop)
    (G : σ → T → Prog E Unit → Prop) : Prop where
  /-- A member begins a program. -/
  begins : ∀ c t p s, C c (.begins t) → R.begins c.shared t p s → I c.shared →
    G c.shared t (ret ()) → I s ∧ G s t p ∧ ∀ t' ≠ t, ∀ q, G c.shared t' q → G s t' q
  /-- An operation is answered. -/
  serves : ∀ c t o k r s, C c (.serves t ⟨o, r⟩) → R.serves c.shared t o r s → I c.shared →
    G c.shared t (call o k) → I s ∧ G s t (k r) ∧ ∀ t' ≠ t, ∀ q, G c.shared t' q → G s t' q
  /-- An operation is not answered yet, and something else happens. -/
  stalls : ∀ c t o s, C c (.stalls t) → R.stalls c.shared t o s → I c.shared →
    I s ∧ ∀ t' q, G c.shared t' q → G s t' q

/-- An invariant that holds at the start holds in every state. -/
theorem Reach.inv {I : σ → Prop} {G : σ → T → Prog E Unit → Prop} (hinv : Invariant R C I G)
    (hI : I s) (hG : ∀ t, G s t (ret ())) {c : Crew E T σ} (h : Reach R C s c) :
    I c.shared ∧ ∀ t, G c.shared t (c.prog t) := by
  induction h with
  | start => exact ⟨hI, hG⟩
  | @step c c' a _ hC hs ih =>
    obtain ⟨ihI, ihG⟩ := ih
    have hothers : ∀ {t : T} {p : Prog E Unit} {s' : σ}, G s' t p →
        (∀ t' ≠ t, ∀ q, G c.shared t' q → G s' t' q) →
        ∀ t', G s' t' (Function.update c.prog t p t') := by
      intro t p s' ht hother t'
      rcases eq_or_ne t' t with rfl | hne
      · rwa [Function.update_self]
      · rw [Function.update_of_ne hne]
        exact hother t' hne _ (ihG t')
    cases hs with
    | @begins t p s' hidle hbegins =>
      obtain ⟨hI', ht, hother⟩ := hinv.begins c t p s' hC hbegins ihI (hidle ▸ ihG t)
      exact ⟨hI', hothers ht hother⟩
    | @serves t o k r s' hprog hserves =>
      obtain ⟨hI', ht, hother⟩ := hinv.serves c t o k r s' hC hserves ihI (hprog ▸ ihG t)
      exact ⟨hI', hothers ht hother⟩
    | @stalls t o k s' _ hstalls =>
      obtain ⟨hI', hkept⟩ := hinv.stalls c t o s' hC hstalls ihI
      exact ⟨hI', fun t' => hkept t' _ (ihG t')⟩

/-! ## Parts of a run -/

/-- The exchanges of `t`, one after the other, lead from `s` to `s'`. -/
inductive Serves (R : Rules E T σ) (t : T) : σ → List (Exchange E) → σ → Prop
  | nil (s : σ) : Serves R t s [] s
  | cons {s s' s'' : σ} {o : E.Op} {r : E.Ans o} {l : List (Exchange E)}
      (h : R.serves s t o r s') (hl : Serves R t s' l s'') : Serves R t s (⟨o, r⟩ :: l) s''

/-- A member goes through a part of its program. -/
theorem Reach.serves (hC : ∀ c a, C c a) {t : T} {s₁ s₂ : σ} {l : List (Exchange E)}
    (hl : Serves R t s₁ l s₂) : ∀ {c : Crew E T σ} {p : Prog E Unit}, Reach R C s c →
      c.shared = s₁ → After (c.prog t) l p →
      Reach R C s ⟨Function.update c.prog t p, s₂⟩ := by
  induction hl with
  | nil s₁ =>
    rintro c p h rfl hafter
    generalize hprog : c.prog t = q at hafter
    cases hafter
    rw [← hprog, Function.update_eq_self]
    exact h
  | cons hserve _ ih =>
    rintro c p h rfl hafter
    generalize hprog : c.prog t = q at hafter
    cases hafter with
    | call hafter =>
      have hnext := ih (h.step (hC _ _) (.serves hprog hserve)) rfl (by simpa using hafter)
      rwa [Function.update_idem] at hnext

end Crew
