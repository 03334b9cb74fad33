import Mathlib.Tactic.Common

/-!
# Programs with effects

A program asks its surroundings for operations, one at a time, and goes on with the
answers. `Prog E α` is the tree of such a program over the operations of `E` : a leaf
returns a value, or stops in undefined behaviour of some kind (`fault`).

A program is read in three ways. `Prog.run` runs it against surroundings that answer
each operation from a state, and `Prog.trace` are the exchanges of this run. `Prog.Returns`
lists the exchanges of a run that returned, `Prog.After` those of any part of a run.
`Prog.Obeys` is the weakest precondition against a `Monitor` : the monitor says which
operations are allowed, which answers can come, what state follows and which faults are
not its business, and the program must only ask for allowed operations, whatever the
answers. The rules follow the shape of the program (`run_bind`, `Returns.bind`,
`obeys_bind`).
-/

/-- The operations of a program, the answers to each, and the kinds of undefined
behaviour. -/
structure Effects where
  Op : Type
  Ans : Op → Type
  Fault : Type

/-- A program over the operations of `E` that returns an `α`. -/
inductive Prog (E : Effects) (α : Type) : Type
  /-- The end of a program. -/
  | ret (a : α)
  /-- An operation, and how to go on with its answer. -/
  | call (o : E.Op) (k : E.Ans o → Prog E α)
  /-- Undefined behaviour. -/
  | fault (e : E.Fault)

namespace Prog

variable {E : Effects} {α β : Type}

/-! ## The monad -/

/-- Run `p`, then `f` on its value. -/
protected def bind : Prog E α → (α → Prog E β) → Prog E β
  | ret a, f => f a
  | call o k, f => call o fun r => (k r).bind f
  | fault e, _ => fault e

instance : Monad (Prog E) where
  pure := ret
  bind := Prog.bind

@[simp] theorem ret_bind (a : α) (f : α → Prog E β) : ret a >>= f = f a :=
  rfl

@[simp] theorem call_bind (o : E.Op) (k : E.Ans o → Prog E α) (f : α → Prog E β) :
    call o k >>= f = call o fun r => k r >>= f :=
  rfl

@[simp] theorem fault_bind (e : E.Fault) (f : α → Prog E β) :
    (fault e : Prog E α) >>= f = fault e :=
  rfl

@[simp] theorem pure_eq_ret (a : α) : (pure a : Prog E α) = ret a :=
  rfl

protected theorem bind_ret (p : Prog E α) : p >>= ret = p := by
  induction p with
  | ret a => rfl
  | call o k ih => exact congrArg (call o) (funext ih)
  | fault e => rfl

protected theorem bind_assoc {γ : Type} (p : Prog E α) (f : α → Prog E β) (g : β → Prog E γ) :
    p >>= f >>= g = p >>= fun a => f a >>= g := by
  induction p with
  | ret a => rfl
  | call o k ih => exact congrArg (call o) (funext ih)
  | fault e => rfl

instance : LawfulMonad (Prog E) :=
  LawfulMonad.mk' _ Prog.bind_ret (fun _ _ => rfl) Prog.bind_assoc

/-- Ask for one operation and return its answer. -/
def perform (o : E.Op) : Prog E (E.Ans o) :=
  call o ret

/-- The program has returned. -/
def isDone : Prog E Unit → Bool
  | ret _ => true
  | _ => false

theorem eq_ret_of_isDone {p : Prog E Unit} (h : p.isDone = true) : p = ret () := by
  cases p with
  | ret a => rfl
  | call o k => exact absurd h Bool.false_ne_true
  | fault e => exact absurd h Bool.false_ne_true

/-- Run `f` on each element, in order, and collect the values. -/
def forEach (f : α → Prog E β) : List α → Prog E (List β)
  | [] => ret []
  | a :: l => do
    let b ← f a
    let bs ← forEach f l
    return b :: bs

/-- A loop whose bodies only compute. -/
theorem forEach_ret {f : α → Prog E β} {g : α → β} :
    ∀ {l : List α}, (∀ a ∈ l, f a = ret (g a)) → forEach f l = ret (l.map g)
  | [], _ => rfl
  | a :: l, h => by
    rw [forEach, h a List.mem_cons_self,
      forEach_ret fun b hb => h b (List.mem_cons_of_mem _ hb)]
    rfl

/-! ## Runs -/

section Run

variable {σ : Type} (h : (o : E.Op) → σ → E.Ans o × σ)

/-- Run against the surroundings `h` : the value (`none` after a fault) and the state. -/
def run : Prog E α → σ → Option α × σ
  | ret a, s => (some a, s)
  | call o k, s => run (k (h o s).1) (h o s).2
  | fault _, s => (none, s)

@[simp] theorem run_ret (a : α) (s : σ) : run h (ret a) s = (some a, s) :=
  rfl

@[simp] theorem run_call (o : E.Op) (k : E.Ans o → Prog E α) (s : σ) :
    run h (call o k) s = run h (k (h o s).1) (h o s).2 :=
  rfl

@[simp] theorem run_fault (e : E.Fault) (s : σ) : run h (fault e : Prog E α) s = (none, s) :=
  rfl

@[simp] theorem run_perform (o : E.Op) (s : σ) :
    run h (perform o) s = (some (h o s).1, (h o s).2) :=
  rfl

theorem run_bind (p : Prog E α) (f : α → Prog E β) (s : σ) :
    run h (p >>= f) s =
      match run h p s with
      | (some a, s') => run h (f a) s'
      | (none, s') => (none, s') := by
  induction p generalizing s with
  | ret a => rfl
  | call o k ih => exact ih (h o s).1 (h o s).2
  | fault e => rfl

/-- A first part that returns hands its value and its state on. -/
theorem run_bind_of_some {p : Prog E α} {s s' : σ} {a : α} (hp : run h p s = (some a, s'))
    (f : α → Prog E β) : run h (p >>= f) s = run h (f a) s' := by
  rw [run_bind, hp]

theorem run_bind_of_none {p : Prog E α} {s s' : σ} (hp : run h p s = (none, s'))
    (f : α → Prog E β) : run h (p >>= f) s = (none, s') := by
  rw [run_bind, hp]

/-- What returned was returned by the second part, from where the first returned. -/
theorem run_bind_inv {p : Prog E α} {f : α → Prog E β} {s s'' : σ} {b : β}
    (hrun : run h (p >>= f) s = (some b, s'')) :
    ∃ a s', run h p s = (some a, s') ∧ run h (f a) s' = (some b, s'') := by
  rw [run_bind] at hrun
  rcases hp : run h p s with ⟨_ | a, s'⟩
  · rw [hp] at hrun
    simp at hrun
  · rw [hp] at hrun
    exact ⟨a, s', rfl, hrun⟩

/-! ## Total correctness -/

/-- `p` returns from `s`, with a value and a state of which `Q` holds. -/
def Ends (p : Prog E α) (s : σ) (Q : α → σ → Prop) : Prop :=
  ∃ a s', run h p s = (some a, s') ∧ Q a s'

variable {h}

theorem ends_ret {a : α} {s : σ} {Q : α → σ → Prop} : Ends h (ret a) s Q ↔ Q a s := by
  refine ⟨?_, fun hQ => ⟨a, s, rfl, hQ⟩⟩
  rintro ⟨_, _, ⟨⟩, hQ⟩
  exact hQ

theorem ends_call {o : E.Op} {k : E.Ans o → Prog E α} {s : σ} {Q : α → σ → Prop} :
    Ends h (call o k) s Q ↔ Ends h (k (h o s).1) (h o s).2 Q :=
  Iff.rfl

theorem ends_perform {o : E.Op} {s : σ} {Q : E.Ans o → σ → Prop} :
    Ends h (perform o) s Q ↔ Q (h o s).1 (h o s).2 := by
  rw [perform, ends_call, ends_ret]

theorem Ends.mono {p : Prog E α} {s : σ} {Q R : α → σ → Prop} (hp : Ends h p s Q)
    (hQR : ∀ a s', Q a s' → R a s') : Ends h p s R := by
  obtain ⟨a, s', hrun, hQ⟩ := hp
  exact ⟨a, s', hrun, hQR a s' hQ⟩

theorem Ends.bind {p : Prog E α} {f : α → Prog E β} {s : σ} {Q : α → σ → Prop}
    {R : β → σ → Prop} (hp : Ends h p s Q) (hf : ∀ a s', Q a s' → Ends h (f a) s' R) :
    Ends h (p >>= f) s R := by
  obtain ⟨a, s', hrun, hQ⟩ := hp
  obtain ⟨b, s'', hrun', hR⟩ := hf a s' hQ
  exact ⟨b, s'', by rw [run_bind_of_some h hrun, hrun'], hR⟩

/-- A program that returns does so with one value and one state. -/
theorem Ends.of_run {p : Prog E α} {s s' : σ} {a : α} {Q : α → σ → Prop} (hp : Ends h p s Q)
    (hrun : run h p s = (some a, s')) : Q a s' := by
  obtain ⟨_, _, hrun', hQ⟩ := hp
  rw [hrun] at hrun'
  obtain ⟨⟨⟩, ⟨⟩⟩ := hrun'
  exact hQ

/-- A program that ends does not stop before its end. -/
theorem Ends.not_none {p : Prog E α} {s s' : σ} {Q : α → σ → Prop} (hp : Ends h p s Q) :
    run h p s ≠ (none, s') := by
  obtain ⟨a, s'', hrun, -⟩ := hp
  rw [hrun]
  exact fun heq => Option.some_ne_none a (congrArg Prod.fst heq)

/-- A loop whose bodies keep `I` and return what `R` relates to the elements does so. -/
theorem Ends.forEach {f : α → Prog E β} {R : α → β → Prop} {I : σ → Prop}
    (hf : ∀ a b, R a b → ∀ s, I s → Ends h (f a) s fun c s' => c = b ∧ I s') :
    ∀ {l : List α} {bs : List β} {s : σ}, List.Forall₂ R l bs → I s →
      Ends h (forEach f l) s fun cs s' => cs = bs ∧ I s'
  | [], _, _, .nil, hs => ends_ret.2 ⟨rfl, hs⟩
  | a :: l, b :: bs, s, .cons hab hl, hs => by
    refine (hf a b hab s hs).bind ?_
    rintro _ s₁ ⟨rfl, h₁⟩
    refine (Ends.forEach hf hl h₁).bind ?_
    rintro _ s₂ ⟨rfl, h₂⟩
    exact ends_ret.2 ⟨rfl, h₂⟩

/-- A loop stops where one of its bodies does. -/
theorem exists_run_forEach_none {f : α → Prog E β} {I : σ → Prop} :
    ∀ {l : List α} {s : σ}, (∀ a ∈ l, ∀ s, I s →
        Ends h (f a) s (fun _ s' => I s') ∨ ∃ s', run h (f a) s = (none, s')) →
      I s → (∃ a ∈ l, ∀ s, I s → ∃ s', run h (f a) s = (none, s')) →
        ∃ s', run h (forEach f l) s = (none, s')
  | [], _, _, _, hbad => absurd hbad (by simp)
  | a :: l, s, hf, hs, ⟨b, hb, hstops⟩ => by
    rcases hf a List.mem_cons_self s hs with ⟨c, s₁, hrun, h₁⟩ | ⟨s', hrun⟩
    · rcases List.mem_cons.mp hb with rfl | hb
      · obtain ⟨s', hrun'⟩ := hstops s hs
        exact ⟨s', run_bind_of_none h hrun' _⟩
      · obtain ⟨s', hrun'⟩ := exists_run_forEach_none
          (fun a ha => hf a (List.mem_cons_of_mem _ ha)) h₁ ⟨b, hb, hstops⟩
        refine ⟨s', ?_⟩
        rw [forEach, run_bind_of_some h hrun, run_bind_of_none h hrun']
    · exact ⟨s', run_bind_of_none h hrun _⟩

end Run

/-! ## Exchanges -/

/-- An operation with the answer it got. -/
abbrev Exchange (E : Effects) := Σ o : E.Op, E.Ans o

/-- `p` returns `a` after the exchanges `t`. -/
inductive Returns : Prog E α → List (Exchange E) → α → Prop
  | ret (a : α) : Returns (ret a) [] a
  | call {o : E.Op} {k : E.Ans o → Prog E α} {r : E.Ans o} {t : List (Exchange E)} {a : α}
      (h : Returns (k r) t a) : Returns (call o k) (⟨o, r⟩ :: t) a

theorem Returns.bind {p : Prog E α} {f : α → Prog E β} {t t' : List (Exchange E)} {a : α} {b : β}
    (hp : Returns p t a) (hf : Returns (f a) t' b) : Returns (p >>= f) (t ++ t') b := by
  induction hp with
  | ret a => exact hf
  | call _ ih => exact .call (ih hf)

/-- What returned was returned by the second part, on what the first returned. -/
theorem Returns.bind_inv {p : Prog E α} {f : α → Prog E β} {t : List (Exchange E)} {b : β}
    (h : Returns (p >>= f) t b) :
    ∃ a t₁ t₂, Returns p t₁ a ∧ Returns (f a) t₂ b ∧ t = t₁ ++ t₂ := by
  induction p generalizing t with
  | ret a => exact ⟨a, [], t, .ret a, h, rfl⟩
  | call o k ih =>
    cases h with
    | @call _ _ r t _ h =>
      obtain ⟨a, t₁, t₂, hp, hf, rfl⟩ := ih r h
      exact ⟨a, ⟨o, r⟩ :: t₁, t₂, .call hp, hf, rfl⟩
  | fault e => cases h

/-- Each value that a loop collects was returned by one of its bodies. -/
theorem Returns.forEach_inv {f : α → Prog E β} :
    ∀ {l : List α} {t : List (Exchange E)} {bs : List β}, Returns (forEach f l) t bs →
      ∀ b ∈ bs, ∃ a ∈ l, ∃ t', Returns (f a) t' b
  | [], _, _, h, b, hb => by
    cases h
    exact absurd hb List.not_mem_nil
  | a :: l, _, _, h, b, hb => by
    obtain ⟨c, _, _, hc, hrest, -⟩ := h.bind_inv
    obtain ⟨cs, _, _, hcs, hret, -⟩ := hrest.bind_inv
    cases hret
    rcases List.mem_cons.mp hb with rfl | hb
    · exact ⟨a, List.mem_cons_self, _, hc⟩
    · obtain ⟨a', ha', ht'⟩ := Returns.forEach_inv hcs b hb
      exact ⟨a', List.mem_cons_of_mem _ ha', ht'⟩

/-- A run that returns has its exchanges. -/
theorem exists_returns {σ : Type} {h : (o : E.Op) → σ → E.Ans o × σ} {p : Prog E α} {a : α} :
    ∀ {s s' : σ}, run h p s = (some a, s') → ∃ t, Returns p t a := by
  induction p with
  | ret b =>
    rintro s s' ⟨⟩
    exact ⟨[], .ret _⟩
  | call o k ih =>
    intro s s' hrun
    obtain ⟨t, ht⟩ := ih _ hrun
    exact ⟨_, .call ht⟩
  | fault e =>
    rintro s s' ⟨⟩

section Trace

variable {σ : Type} (h : (o : E.Op) → σ → E.Ans o × σ)

/-- The exchanges of a run, up to its value or its fault. -/
def trace : Prog E α → σ → List (Exchange E)
  | ret _, _ => []
  | call o k, s => ⟨o, (h o s).1⟩ :: trace (k (h o s).1) (h o s).2
  | fault _, _ => []

@[simp] theorem trace_ret (a : α) (s : σ) : trace h (ret a) s = [] :=
  rfl

@[simp] theorem trace_call (o : E.Op) (k : E.Ans o → Prog E α) (s : σ) :
    trace h (call o k) s = ⟨o, (h o s).1⟩ :: trace h (k (h o s).1) (h o s).2 :=
  rfl

@[simp] theorem trace_fault (e : E.Fault) (s : σ) : trace h (fault e : Prog E α) s = [] :=
  rfl

theorem trace_bind (p : Prog E α) (f : α → Prog E β) (s : σ) :
    trace h (p >>= f) s = trace h p s ++
      match run h p s with
      | (some a, s') => trace h (f a) s'
      | (none, _) => [] := by
  induction p generalizing s with
  | ret a => rfl
  | call o k ih => exact congrArg (List.cons _) (ih (h o s).1 (h o s).2)
  | fault e => rfl

/-- The exchanges of a first part that returns are followed by those of the second. -/
theorem trace_bind_of_some {p : Prog E α} {s s' : σ} {a : α} (hp : run h p s = (some a, s'))
    (f : α → Prog E β) : trace h (p >>= f) s = trace h p s ++ trace h (f a) s' := by
  rw [trace_bind, hp]

theorem trace_bind_of_none {p : Prog E α} {s s' : σ} (hp : run h p s = (none, s'))
    (f : α → Prog E β) : trace h (p >>= f) s = trace h p s := by
  rw [trace_bind, hp, List.append_nil]

/-- What follows a part that returns is asked for by the whole. -/
theorem Ends.exists_trace {h : (o : E.Op) → σ → E.Ans o × σ} {p : Prog E α} {f : α → Prog E β}
    {s : σ} {Q : α → σ → Prop} {P : Exchange E → Prop} (hp : Ends h p s Q)
    (hf : ∀ a s', Q a s' → ∃ e ∈ trace h (f a) s', P e) : ∃ e ∈ trace h (p >>= f) s, P e := by
  obtain ⟨a, s', hrun, hQ⟩ := hp
  obtain ⟨e, he, hP⟩ := hf a s' hQ
  refine ⟨e, ?_, hP⟩
  rw [trace_bind_of_some h hrun]
  exact List.mem_append_right _ he

/-- A run that returns does so after its exchanges. -/
theorem returns_trace {p : Prog E α} {a : α} :
    ∀ {s s' : σ}, run h p s = (some a, s') → Returns p (trace h p s) a := by
  induction p with
  | ret b =>
    rintro s s' ⟨⟩
    exact .ret _
  | call o k ih =>
    intro s s' hrun
    exact .call (ih _ hrun)
  | fault e =>
    rintro s s' ⟨⟩

/-- The exchanges of a run are answered by its surroundings. -/
theorem answer_of_mem_trace {p : Prog E α} {e : Exchange E} :
    ∀ {s : σ}, e ∈ trace h p s → ∃ s', e.2 = (h e.1 s').1 := by
  induction p with
  | ret a => exact fun he => absurd he List.not_mem_nil
  | call o k ih =>
    intro s he
    rcases List.mem_cons.mp he with rfl | he
    · exact ⟨s, rfl⟩
    · exact ih _ he
  | fault e => exact fun he => absurd he List.not_mem_nil

/-- The fault that a run ends in. -/
def faultOf : Prog E α → σ → Option E.Fault
  | ret _, _ => none
  | call o k, s => faultOf (k (h o s).1) (h o s).2
  | fault e, _ => some e

/-- After a first part that returns, the second decides. -/
theorem faultOf_bind_of_some {p : Prog E α} {s s' : σ} {a : α} (hp : run h p s = (some a, s'))
    (f : α → Prog E β) : faultOf h (p >>= f) s = faultOf h (f a) s' := by
  induction p generalizing s with
  | ret b =>
    obtain ⟨rfl, rfl⟩ : b = a ∧ s = s' := by simpa using hp
    rfl
  | call o k ih => exact ih (h o s).1 hp
  | fault e => simp at hp

theorem faultOf_bind_of_none {p : Prog E α} {s s' : σ} (hp : run h p s = (none, s'))
    (f : α → Prog E β) : faultOf h (p >>= f) s = faultOf h p s := by
  induction p generalizing s with
  | ret b => simp at hp
  | call o k ih => exact ih (h o s).1 hp
  | fault e => rfl

end Trace

/-- `p` is `q` after the exchanges `t`. -/
inductive After : Prog E α → List (Exchange E) → Prog E α → Prop
  | here (p : Prog E α) : After p [] p
  | call {o : E.Op} {k : E.Ans o → Prog E α} {r : E.Ans o} {t : List (Exchange E)}
      {q : Prog E α} (h : After (k r) t q) : After (call o k) (⟨o, r⟩ :: t) q

/-- A run that ends in a fault gets there through its exchanges. -/
theorem after_of_faultOf {σ : Type} {h : (o : E.Op) → σ → E.Ans o × σ} {e : E.Fault} :
    ∀ {p : Prog E α} {s : σ}, faultOf h p s = some e → After p (trace h p s) (fault e)
  | ret _, _, hrun => nomatch hrun
  | call _ _, _, hrun => .call (after_of_faultOf hrun)
  | fault _, _, rfl => .here _

/-! ## Monitors -/

/-- A discipline over exchanges : the operations allowed in a state, the answers that can
come, the state after, and the faults that are excused, all if nothing is said. -/
structure Monitor (E : Effects) where
  State : Type
  allowed : State → E.Op → Prop
  admits : State → (o : E.Op) → E.Ans o → Prop
  next : State → (o : E.Op) → E.Ans o → State
  excuses : State → E.Fault → Prop := fun _ _ => True

namespace Monitor

variable (M : Monitor E)

/-- Every answer of `t` is one that can come. -/
def Admits : M.State → List (Exchange E) → Prop
  | _, [] => True
  | s, ⟨o, r⟩ :: t => M.admits s o r ∧ Admits (M.next s o r) t

/-- The state after `t`. -/
def after : M.State → List (Exchange E) → M.State
  | s, [] => s
  | s, ⟨o, r⟩ :: t => after (M.next s o r) t

/-- The state is a fold over the exchanges. -/
theorem after_eq_foldl (s : M.State) (t : List (Exchange E)) :
    M.after s t = t.foldl (fun s e => M.next s e.1 e.2) s := by
  induction t generalizing s with
  | nil => rfl
  | cons e t ih => exact ih _

theorem after_append (s : M.State) (t : List (Exchange E)) (e : Exchange E) :
    M.after s (t ++ [e]) = M.next (M.after s t) e.1 e.2 := by
  induction t generalizing s with
  | nil => rfl
  | cons d t ih => exact ih _

end Monitor

/-- From `s`, `p` asks only for operations `M` allows, whatever the answers, stops only in
faults `M` excuses, and if it returns, `Q` holds of its value and the state. -/
def Obeys (M : Monitor E) : Prog E α → M.State → (α → M.State → Prop) → Prop
  | ret a, s, Q => Q a s
  | call o k, s, Q => M.allowed s o ∧ ∀ r, M.admits s o r → Obeys M (k r) (M.next s o r) Q
  | fault e, s, _ => M.excuses s e

section Obeys

variable {M : Monitor E} {s : M.State}

@[simp] theorem obeys_ret {a : α} {Q : α → M.State → Prop} :
    Obeys M (ret a) s Q ↔ Q a s :=
  Iff.rfl

@[simp] theorem obeys_call {o : E.Op} {k : E.Ans o → Prog E α} {Q : α → M.State → Prop} :
    Obeys M (call o k) s Q ↔
      M.allowed s o ∧ ∀ r, M.admits s o r → Obeys M (k r) (M.next s o r) Q :=
  Iff.rfl

@[simp] theorem obeys_fault {e : E.Fault} {Q : α → M.State → Prop} :
    Obeys M (fault e) s Q ↔ M.excuses s e :=
  Iff.rfl

theorem Obeys.mono {p : Prog E α} {Q R : α → M.State → Prop} (h : Obeys M p s Q)
    (hQR : ∀ a s', Q a s' → R a s') : Obeys M p s R := by
  induction p generalizing s with
  | ret a => exact hQR a s h
  | call o k ih => exact ⟨h.1, fun r hr => ih r (h.2 r hr)⟩
  | fault e => exact h

theorem obeys_bind {p : Prog E α} {f : α → Prog E β} {Q : β → M.State → Prop} :
    Obeys M (p >>= f) s Q ↔ Obeys M p s fun a s' => Obeys M (f a) s' Q := by
  induction p generalizing s with
  | ret a => rfl
  | call o k ih => exact and_congr Iff.rfl (forall₂_congr fun r _ => ih r)
  | fault e => rfl

/-- The part before a continuation, then the continuation from any state it can leave. -/
theorem Obeys.bind {p : Prog E α} {f : α → Prog E β} {Q : α → M.State → Prop}
    {R : β → M.State → Prop} (hp : Obeys M p s Q) (hf : ∀ a s', Q a s' → Obeys M (f a) s' R) :
    Obeys M (p >>= f) s R :=
  obeys_bind.2 (hp.mono hf)

/-- A loop keeps what each of its bodies keeps. -/
theorem Obeys.forEach {f : α → Prog E β} {I : M.State → Prop} :
    ∀ {l : List α} {s : M.State}, (∀ a ∈ l, ∀ s, I s → Obeys M (f a) s fun _ s' => I s') → I s →
      Obeys M (forEach f l) s fun _ s' => I s'
  | [], _, _, hs => hs
  | a :: _, s, hf, hs => (hf a List.mem_cons_self s hs).bind fun _ _ h1 =>
      (Obeys.forEach (fun b hb => hf b (List.mem_cons_of_mem _ hb)) h1).bind fun _ _ h2 => h2

/-- A loop whose bodies leave the state as it is collects what each of them returns. -/
theorem Obeys.forEach_values {f : α → Prog E β} {P : β → Prop} {s : M.State} :
    ∀ {l : List α}, (∀ a ∈ l, Obeys M (f a) s fun b s' => s' = s ∧ P b) →
      Obeys M (Prog.forEach f l) s fun bs s' => s' = s ∧ ∀ b ∈ bs, P b
  | [], _ => ⟨rfl, fun _ hb => absurd hb List.not_mem_nil⟩
  | a :: l, hf => by
    refine (hf a List.mem_cons_self).bind ?_
    rintro b _ ⟨rfl, hb⟩
    refine (Obeys.forEach_values fun a ha => hf a (List.mem_cons_of_mem _ ha)).bind ?_
    rintro bs _ ⟨rfl, hbs⟩
    exact ⟨rfl, List.forall_mem_cons.mpr ⟨hb, hbs⟩⟩

/-- A run that returned, on answers that can come, ends in a state with `Q`. -/
theorem Obeys.after {p : Prog E α} {Q : α → M.State → Prop} {t : List (Exchange E)} {a : α}
    (h : Obeys M p s Q) (ht : Returns p t a) (hadm : M.Admits s t) : Q a (M.after s t) := by
  induction ht generalizing s with
  | ret a => exact h
  | call _ ih => exact ih (h.2 _ hadm.1) hadm.2

/-- What is left of a program that obeys does so. -/
theorem Obeys.rest {p q : Prog E α} {Q : α → M.State → Prop} {t : List (Exchange E)}
    (h : Obeys M p s Q) (ht : After p t q) (hadm : M.Admits s t) :
    Obeys M q (M.after s t) Q := by
  induction ht generalizing s with
  | here p => exact h
  | call _ ih => exact ih (h.2 _ hadm.1) hadm.2

end Obeys

/-! ## Programs that ask only for some operations -/

section Only

variable (P : E.Op → Prop)

/-- The monitor that allows the operations with `P`. -/
def always : Monitor E where
  State := Unit
  allowed _ := P
  admits _ _ _ := True
  next _ _ _ := ()

/-- `p` asks only for operations with `P`. -/
def Only (p : Prog E α) : Prop :=
  Obeys (always P) p () fun _ _ => True

variable {P}

theorem only_ret {a : α} : Only P (ret a) :=
  trivial

theorem only_fault {e : E.Fault} : Only P (fault e : Prog E α) :=
  trivial

theorem only_perform {o : E.Op} (h : P o) : Only P (perform o) :=
  ⟨h, fun _ _ => trivial⟩

theorem Only.bind {p : Prog E α} {f : α → Prog E β} (hp : Only P p) (hf : ∀ a, Only P (f a)) :
    Only P (p >>= f) :=
  Obeys.bind hp fun a _ _ => hf a

theorem Only.forEach {f : α → Prog E β} (hf : ∀ a, Only P (f a)) (l : List α) :
    Only P (forEach f l) :=
  (Obeys.forEach (I := fun _ => True) (fun a _ _ _ => hf a) trivial).mono fun _ _ _ => trivial

/-- A monitor is obeyed by a program that asks only for what it always allows. -/
theorem Only.obeys {M : Monitor E} {p : Prog E α} (hp : Only P p)
    (hallowed : ∀ s o, P o → M.allowed s o) (hexcuses : ∀ s e, M.excuses s e) (s : M.State) :
    Obeys M p s fun _ _ => True := by
  induction p generalizing s with
  | ret a => trivial
  | call o k ih => exact ⟨hallowed s o hp.1, fun r _ => ih r (hp.2 r trivial) _⟩
  | fault e => exact hexcuses s e

/-- A run asks only for what its program asks for. -/
theorem Only.of_mem_trace {p : Prog E α} (hp : Only P p) {σ : Type}
    {h : (o : E.Op) → σ → E.Ans o × σ} {s : σ} {e : Exchange E} (he : e ∈ trace h p s) :
    P e.1 := by
  induction p generalizing s with
  | ret a => exact absurd he List.not_mem_nil
  | call o k ih =>
    rcases List.mem_cons.mp he with rfl | he
    · exact hp.1
    · exact ih _ (hp.2 _ trivial) he
  | fault e => exact absurd he List.not_mem_nil

end Only

/-! ## Records -/

section Record

variable {γ : Type} (f : Exchange E → List γ)

/-- The monitor that allows everything, and keeps a record of the exchanges. -/
def recorder : Monitor E where
  State := List γ
  allowed _ _ := True
  admits _ _ _ := True
  next s o r := s ++ f ⟨o, r⟩

/-- What `p` adds to the record, when it returns. -/
def Records (p : Prog E α) (Q : α → List γ → Prop) : Prop :=
  ∀ s : List γ, Obeys (recorder f) p s fun a s' => ∃ l, s' = s ++ l ∧ Q a l

/-- `p` adds nothing to the record. -/
def Silent (p : Prog E α) : Prop :=
  Records f p fun _ l => l = []

variable {f}

theorem records_ret {a : α} {Q : α → List γ → Prop} (h : Q a []) : Records f (ret a) Q :=
  fun s => ⟨[], (List.append_nil s).symm, h⟩

theorem records_fault {e : E.Fault} {Q : α → List γ → Prop} : Records f (fault e) Q :=
  fun _ => trivial

theorem records_perform {o : E.Op} {Q : E.Ans o → List γ → Prop} (h : ∀ r, Q r (f ⟨o, r⟩)) :
    Records f (perform o) Q :=
  fun _ => ⟨trivial, fun r _ => ⟨_, rfl, h r⟩⟩

theorem Records.bind {p : Prog E α} {g : α → Prog E β} {P : α → List γ → Prop}
    {Q : β → List γ → Prop} (hp : Records f p P)
    (hg : ∀ a l, P a l → Records f (g a) fun b l' => Q b (l ++ l')) : Records f (p >>= g) Q := by
  intro s
  refine (hp s).bind ?_
  rintro a _ ⟨l, rfl, hP⟩
  refine (hg a l hP _).mono ?_
  rintro b _ ⟨l', rfl, hQ⟩
  exact ⟨l ++ l', List.append_assoc _ _ _, hQ⟩

theorem Records.mono {p : Prog E α} {P Q : α → List γ → Prop} (hp : Records f p P)
    (h : ∀ a l, P a l → Q a l) : Records f p Q := by
  intro s
  refine (hp s).mono ?_
  rintro a _ ⟨l, rfl, hP⟩
  exact ⟨l, rfl, h a l hP⟩

/-- Before the rest of a program, a silent part makes no difference. -/
theorem Silent.bind {p : Prog E α} {g : α → Prog E β} {Q : β → List γ → Prop}
    (hp : Silent f p) (hg : ∀ a, Records f (g a) Q) : Records f (p >>= g) Q := by
  refine Records.bind hp ?_
  rintro a _ rfl
  exact hg a

theorem Silent.forEach {g : α → Prog E β} (hg : ∀ a, Silent f (g a)) :
    ∀ l : List α, Silent f (forEach g l)
  | [] => records_ret rfl
  | a :: l => (hg a).bind fun _ => (Silent.forEach hg l).bind fun _ => records_ret rfl

theorem after_recorder {s : List γ} {t : List (Exchange E)} :
    (recorder f).after s t = s ++ t.flatMap f := by
  induction t generalizing s with
  | nil => exact (List.append_nil s).symm
  | cons e t ih =>
    rw [List.flatMap_cons, ← List.append_assoc]
    exact ih

theorem admits_recorder {s : List γ} {t : List (Exchange E)} : (recorder f).Admits s t := by
  induction t generalizing s with
  | nil => trivial
  | cons e t ih => exact ⟨trivial, ih⟩

/-- The record of a run that returned. -/
theorem Records.of_returns {p : Prog E α} {Q : α → List γ → Prop} (hp : Records f p Q)
    {t : List (Exchange E)} {a : α} (ht : Returns p t a) : Q a (t.flatMap f) := by
  obtain ⟨l, hl, hQ⟩ := (hp []).after ht admits_recorder
  rw [after_recorder] at hl
  exact List.append_cancel_left hl ▸ hQ

end Record

end Prog
