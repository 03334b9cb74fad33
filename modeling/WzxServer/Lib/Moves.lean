import Mathlib.Data.List.Forall2
import Mathlib.Tactic.Common

/-!
# Runs of a machine, move by move

A machine that answers each move with its next state, or stops. `Meets` and `Throughout` speak
of the steps and of the states of a run : an invariant that is kept by all steps that meet a
condition holds throughout a run that meets it (`throughout_of_meets`), and machines whose
steps agree have runs that agree (`run_related`).

A condition on the steps is a relation between a state and the move that is made in it, so it
can say what the environment does (a clock does not go back, an address is not given out
twice) as well as which branch the program does not take. A move that cannot be made ends the
run, and what is said of the states after it is said of none.
-/

namespace Moves

variable {σ τ μ ν : Type} (next : σ → μ → Option σ)

/-- The state after the moves. -/
def run (s : σ) (ms : List μ) : Option σ :=
  ms.foldlM next s

/-- Every step of the run meets the condition. -/
def Meets (C : σ → μ → Prop) : σ → List μ → Prop
  | _, [] => True
  | s, m :: ms => C s m ∧ ∀ s', next s m = some s' → Meets C s' ms

/-- Every state that the run comes to has the property. -/
def Throughout (P : σ → Prop) : σ → List μ → Prop
  | s, [] => P s
  | s, m :: ms => P s ∧ ∀ s', next s m = some s' → Throughout P s' ms

variable {next}

theorem run_cons_eq_some {s s' : σ} {m : μ} {ms : List μ} :
    run next s (m :: ms) = some s' ↔ ∃ s1, next s m = some s1 ∧ run next s1 ms = some s' := by
  rw [run, List.foldlM_cons]
  exact Option.bind_eq_some_iff

/-- A run in two parts. -/
theorem run_append {s : σ} (ms ms' : List μ) :
    run next s (ms ++ ms') = (run next s ms).bind fun s' => run next s' ms' := by
  rw [run, List.foldlM_append]
  rfl

/-- It holds at the start. -/
theorem Throughout.start {P : σ → Prop} {s : σ} {ms : List μ} (h : Throughout next P s ms) :
    P s := by
  cases ms with
  | nil => exact h
  | cons m ms => exact h.1

/-- What is weaker holds throughout too. -/
theorem Throughout.mono {P Q : σ → Prop} (hPQ : ∀ s, P s → Q s) :
    ∀ {ms : List μ} {s : σ}, Throughout next P s ms → Throughout next Q s ms
  | [], _, h => hPQ _ h
  | _ :: _, _, h => ⟨hPQ _ h.1, fun s' hs' => (h.2 s' hs').mono hPQ⟩

/-- The state that a run ends in is one of those it comes to. -/
theorem Throughout.of_run {P : σ → Prop} : ∀ {ms : List μ} {s s' : σ}, Throughout next P s ms →
    run next s ms = some s' → P s'
  | [], _, _, h, hrun => Option.some.inj hrun ▸ h
  | _ :: _, _, _, h, hrun => by
    obtain ⟨s1, hs1, hrest⟩ := run_cons_eq_some.mp hrun
    exact (h.2 s1 hs1).of_run hrest

/-- A move that can be made, and the others after it. -/
theorem meets_cons_of_some {C : σ → μ → Prop} {s s' : σ} {m : μ} {ms : List μ}
    (hs : next s m = some s') : Meets next C s (m :: ms) ↔ C s m ∧ Meets next C s' ms := by
  refine and_congr_right fun _ => ⟨fun h => h s' hs, fun h s'' hs'' => ?_⟩
  obtain rfl := Option.some.inj (hs.symm.trans hs'')
  exact h

/-- Nothing comes after a move that cannot be made. -/
theorem meets_cons_of_none {C : σ → μ → Prop} {s : σ} {m : μ} {ms : List μ}
    (hs : next s m = none) : Meets next C s (m :: ms) ↔ C s m := by
  refine and_iff_left fun s' hs' => ?_
  rw [hs] at hs'
  cases hs'

/-- Whether a run meets a condition that can be decided. -/
instance Meets.decide {C : σ → μ → Prop} [∀ s m, Decidable (C s m)] :
    (s : σ) → (ms : List μ) → Decidable (Meets next C s ms)
  | _, [] => .isTrue trivial
  | s, m :: ms =>
    match h : next s m with
    | none => decidable_of_iff _ (meets_cons_of_none h).symm
    | some s' =>
      have : Decidable (Meets next C s' ms) := Meets.decide s' ms
      decidable_of_iff (C s m ∧ Meets next C s' ms) (meets_cons_of_some h).symm

/-- Moves meet a condition part by part. -/
theorem Meets.append {C : σ → μ → Prop} {ms' : List μ} : ∀ {ms : List μ} {s : σ},
    Meets next C s ms → (∀ s', run next s ms = some s' → Meets next C s' ms') →
      Meets next C s (ms ++ ms')
  | [], s, _, h' => h' s rfl
  | _ :: _, _, h, h' => ⟨h.1, fun s1 hs1 => (h.2 s1 hs1).append fun s' hs' =>
      h' s' (run_cons_eq_some.mpr ⟨s1, hs1, hs'⟩)⟩

/-- A condition that always holds is met. -/
theorem Meets.of_forall {C : σ → μ → Prop} : ∀ {ms : List μ} {s : σ},
    (∀ s, ∀ m ∈ ms, C s m) → Meets next C s ms
  | [], _, _ => trivial
  | m :: _, s, h =>
    ⟨h s m List.mem_cons_self,
      fun _ _ => Meets.of_forall fun s' m' hm' => h s' m' (List.mem_cons_of_mem m hm')⟩

/-- Two conditions are met together. -/
theorem Meets.and {C D : σ → μ → Prop} :
    ∀ {ms : List μ} {s : σ}, Meets next C s ms → Meets next D s ms →
      Meets next (fun s m => C s m ∧ D s m) s ms
  | [], _, _, _ => trivial
  | _ :: _, _, h, h' => ⟨⟨h.1, h'.1⟩, fun s' hs' => (h.2 s' hs').and (h'.2 s' hs')⟩

/-- What is kept by every step that meets the condition holds throughout the run. -/
theorem throughout_of_meets {C : σ → μ → Prop} {I : σ → Prop}
    (hstep : ∀ s m s', I s → C s m → next s m = some s' → I s') :
    ∀ {ms : List μ} {s : σ}, I s → Meets next C s ms → Throughout next I s ms
  | [], _, h, _ => h
  | m :: _, s, h, hmeets =>
    ⟨h, fun s' hs' =>
      throughout_of_meets hstep (hstep s m s' h hmeets.1 hs') (hmeets.2 s' hs')⟩

/-- Two machines that answer related moves with related states, as long as both meet their
conditions. -/
theorem run_related {next' : τ → ν → Option τ} {C : σ → μ → Prop} {C' : τ → ν → Prop}
    {R : σ → τ → Prop} {E : μ → ν → Prop}
    (hstep : ∀ s t m n s', R s t → E m n → C s m → C' t n → next s m = some s' →
      ∃ t', next' t n = some t' ∧ R s' t') :
    ∀ {ms : List μ} {ns : List ν} {s s' : σ} {t : τ}, R s t → List.Forall₂ E ms ns →
      Meets next C s ms → Meets next' C' t ns → run next s ms = some s' →
      ∃ t', run next' t ns = some t' ∧ R s' t' := by
  intro ms ns s s' t hR hE
  induction hE generalizing s t with
  | nil =>
    intro _ _ hrun
    obtain rfl := Option.some.inj hrun
    exact ⟨t, rfl, hR⟩
  | cons hmn _ ih =>
    intro hmeets hmeets' hrun
    obtain ⟨s1, hs1, hrest⟩ := run_cons_eq_some.mp hrun
    obtain ⟨t1, ht1, hR1⟩ := hstep _ _ _ _ _ hR hmn hmeets.1 hmeets'.1 hs1
    obtain ⟨t', ht', hR'⟩ := ih hR1 (hmeets.2 s1 hs1) (hmeets'.2 t1 ht1) hrest
    exact ⟨t', run_cons_eq_some.mpr ⟨t1, ht1, ht'⟩, hR'⟩

end Moves
