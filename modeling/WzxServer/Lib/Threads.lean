import WzxServer.Lib.Prog
import Mathlib.Logic.Function.Basic

/-!
# Threads

Threads run programs over one state that they share. A step asks for the next operation of
one thread, so the operations are atomic, and their order is any interleaving of the
programs. Every operation comes with an outcome, which its meaning may depend on. A thread
that has returned may start an other program.

`Threads.Run` is every run, of which each step meets a condition. The proof rule is
`Threads.Run.inv` : the programs obey a monitor, the monitors of all threads and the shared
state are tied by an invariant, and one step of one thread keeps it.

So what a program does by itself and what the threads do to each other are proved apart : the first
is `Obeys`, with no other thread in sight, and the second a step of the shared state, with no
program in sight but what the monitors note of them.
-/

open Prog

/-- What threads run on : the outcomes of operations, their meaning, and the programs that
may be started. -/
structure Threads (E : Effects) (σ : Type) where
  Outcome : Type
  serve : Outcome → (o : E.Op) → σ → E.Ans o × σ
  starts : Prog E Unit → Prop

namespace Threads

variable {E : Effects} {σ T : Type}

/-- A state : what is left of the program of each thread, what its exchanges were since it was
started, and what the threads share. -/
structure Config (E : Effects) (σ T : Type) where
  prog : T → Prog E Unit
  trace : T → List (Exchange E)
  shared : σ

/-- No thread has a program. -/
def Config.start (s : σ) : Config E σ T :=
  ⟨fun _ => ret (), fun _ => [], s⟩

variable [DecidableEq T]

namespace Config

/-- The thread `t` starts `p`. -/
def launch (c : Config E σ T) (t : T) (p : Prog E Unit) : Config E σ T :=
  { c with prog := Function.update c.prog t p, trace := Function.update c.trace t [] }

/-- The thread `t` gets the answer `r` to `o` and goes on with `p`. -/
def advance (c : Config E σ T) (t : T) (p : Prog E Unit) (e : Exchange E) (s : σ) :
    Config E σ T :=
  ⟨Function.update c.prog t p, Function.update c.trace t (c.trace t ++ [e]), s⟩

end Config

variable (S : Threads E σ)

/-- The runs from `s` of which every step meets the condition `C` on the state before it, the
thread, its operation and the outcome. -/
inductive Run (C : Config E σ T → T → E.Op → S.Outcome → Prop) (s : σ) : Config E σ T → Prop
  | start : Run C s (.start s)
  | launch {c : Config E σ T} (h : Run C s c) {t : T} (hidle : c.prog t = ret ())
      {p : Prog E Unit} (hp : S.starts p) : Run C s (c.launch t p)
  | step {c : Config E σ T} (h : Run C s c) {t : T} {o : E.Op} {k : E.Ans o → Prog E Unit}
      (hprog : c.prog t = call o k) {out : S.Outcome} (hC : C c t o out) :
      Run C s (c.advance t (k (S.serve out o c.shared).1) ⟨o, (S.serve out o c.shared).1⟩
        (S.serve out o c.shared).2)

/-! ## Schedules -/

/-- A move of a schedule : a thread starts a program, or takes a step with an outcome. -/
inductive Move (E : Effects) (T O : Type)
  | launch (t : T) (p : Prog E Unit)
  | step (t : T) (out : O)

section Schedule

variable {S : Threads E σ} (C : Config E σ T → T → E.Op → S.Outcome → Prop)
  [∀ c t o out, Decidable (C c t o out)]

/-- The state after a schedule. Moves that are not possible, or do not meet the condition, are
left out. -/
def play : List (Move E T S.Outcome) → Config E σ T → Config E σ T
  | [], c => c
  | .launch t p :: l, c =>
    match c.prog t with
    | ret _ => play l (c.launch t p)
    | _ => play l c
  | .step t out :: l, c =>
    match c.prog t with
    | call o k =>
      if C c t o out then
        play l (c.advance t (k (S.serve out o c.shared).1) ⟨o, (S.serve out o c.shared).1⟩
          (S.serve out o c.shared).2)
      else play l c
    | _ => play l c

variable {C}

/-- A schedule is a run. -/
theorem Run.play {s : σ} : ∀ {l : List (Move E T S.Outcome)} {c : Config E σ T}, Run S C s c →
    (∀ t p, Move.launch t p ∈ l → S.starts p) → Run S C s (play C l c)
  | [], _, h, _ => h
  | .launch t p :: l, c, h, hl => by
    have hl' : ∀ t p, Move.launch t p ∈ l → S.starts p := fun t p hp =>
      hl t p (List.mem_cons_of_mem _ hp)
    unfold Threads.play
    split
    · exact (h.launch ‹_› (hl t p List.mem_cons_self)).play hl'
    · exact h.play hl'
  | .step t out :: l, c, h, hl => by
    have hl' : ∀ t p, Move.launch t p ∈ l → S.starts p := fun t p hp =>
      hl t p (List.mem_cons_of_mem _ hp)
    unfold Threads.play
    split
    · split_ifs with hC
      · exact (h.step ‹_› hC).play hl'
      · exact h.play hl'
    · exact h.play hl'

end Schedule

/-- A thread that runs alone comes to every operation of its trace. -/
theorem Run.exists_of_mem_trace {S : Threads E σ}
    {C : Config E σ T → T → E.Op → S.Outcome → Prop} {s : σ} {t : T} (out : S.Outcome)
    (hC : ∀ c o, C c t o out) {p : Prog E Unit} {c : Config E σ T} (h : Run S C s c)
    (hp : c.prog t = p) {e : Exchange E} (he : e ∈ trace (S.serve out) p c.shared) :
    ∃ c' k, Run S C s c' ∧ c'.prog t = call e.1 k := by
  induction p generalizing c with
  | ret a => exact absurd he List.not_mem_nil
  | call o k ih =>
    rcases List.mem_cons.mp he with rfl | he
    · exact ⟨c, k, h, hp⟩
    · exact ih _ (h.step hp (hC c o)) (Function.update_self ..) he
  | fault e => exact absurd he List.not_mem_nil

/-! ## Invariants -/

/-- What a monitor notes of each thread. -/
def Config.notes (M : Monitor E) (m : M.State) (c : Config E σ T) (t : T) : M.State :=
  M.after m (c.trace t)

section Notes

variable {S : Threads E σ} {M : Monitor E} {m : M.State}

theorem Config.notes_launch (c : Config E σ T) (t : T) (p : Prog E Unit) :
    (c.launch t p).notes M m = Function.update (c.notes M m) t m := by
  ext1 t'
  rcases eq_or_ne t' t with rfl | hne
  · simp [notes, launch, Monitor.after]
  · simp [notes, launch, hne]

theorem Config.notes_advance (c : Config E σ T) (t : T) (p : Prog E Unit) (e : Exchange E)
    (s : σ) : (c.advance t p e s).notes M m =
      Function.update (c.notes M m) t (M.next (c.notes M m t) e.1 e.2) := by
  ext1 t'
  rcases eq_or_ne t' t with rfl | hne
  · simp [notes, advance, Monitor.after_append]
  · simp [notes, advance, hne]

/-- Programs that obey a monitor keep an invariant of the shared state and the monitors of all
threads, when every step that the monitor allows does. Where a thread has returned, what its
program leaves behind holds, and so it does where the next one starts. -/
theorem Run.inv_of_done {C : Config E σ T → T → E.Op → S.Outcome → Prop} {s : σ}
    {Q : M.State → Prop} {I : σ → (T → M.State) → Prop}
    (hstarts : ∀ p, S.starts p → Obeys M p m fun _ n => Q n)
    (hstart : I s fun _ => m) (hidle : Q m)
    (hlaunch : ∀ s n t, Q (n t) → I s n → I s (Function.update n t m))
    (hstep : ∀ c t o out, I c.shared (c.notes M m) → M.allowed (c.notes M m t) o → C c t o out →
      M.admits (c.notes M m t) o (S.serve out o c.shared).1 ∧
        I (S.serve out o c.shared).2 (Function.update (c.notes M m) t
          (M.next (c.notes M m t) o (S.serve out o c.shared).1)))
    {c : Config E σ T} (h : Run S C s c) :
    I c.shared (c.notes M m) ∧ ∀ t, Obeys M (c.prog t) (c.notes M m t) fun _ n => Q n := by
  induction h with
  | start => exact ⟨hstart, fun _ => hidle⟩
  | @launch c h t hidle p hp ih =>
    rw [Config.notes_launch]
    have hdone := ih.2 t
    rw [hidle, obeys_ret] at hdone
    refine ⟨hlaunch _ _ t hdone ih.1, fun t' => ?_⟩
    rcases eq_or_ne t' t with rfl | hne
    · simpa [Config.launch] using hstarts p hp
    · simpa [Config.launch, hne] using ih.2 t'
  | @step c h t o k hprog out hC ih =>
    obtain ⟨hI, hobeys⟩ := ih
    have hcall := hobeys t
    rw [hprog, obeys_call] at hcall
    obtain ⟨hadmits, hI'⟩ := hstep c t o out hI hcall.1 hC
    rw [Config.notes_advance]
    refine ⟨hI', fun t' => ?_⟩
    rcases eq_or_ne t' t with rfl | hne
    · simpa [Config.advance] using hcall.2 _ hadmits
    · simpa [Config.advance, hne] using hobeys t'

/-- The same when a program may start over any notes. -/
theorem Run.inv {C : Config E σ T → T → E.Op → S.Outcome → Prop} {s : σ} {Q : M.State → Prop}
    {I : σ → (T → M.State) → Prop} (hstarts : ∀ p, S.starts p → Obeys M p m fun _ n => Q n)
    (hstart : I s fun _ => m) (hidle : Q m)
    (hlaunch : ∀ s n t, I s n → I s (Function.update n t m))
    (hstep : ∀ c t o out, I c.shared (c.notes M m) → M.allowed (c.notes M m t) o → C c t o out →
      M.admits (c.notes M m t) o (S.serve out o c.shared).1 ∧
        I (S.serve out o c.shared).2 (Function.update (c.notes M m) t
          (M.next (c.notes M m t) o (S.serve out o c.shared).1)))
    {c : Config E σ T} (h : Run S C s c) :
    I c.shared (c.notes M m) ∧ ∀ t, Obeys M (c.prog t) (c.notes M m t) fun _ n => Q n :=
  h.inv_of_done hstarts hstart hidle (fun s n t _ => hlaunch s n t) hstep

end Notes

end Threads
