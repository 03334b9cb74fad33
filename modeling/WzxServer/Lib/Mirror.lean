import WzxServer.Lib.Threads

/-!
# Programs that cannot tell states apart

Two states of the surroundings look alike when a relation ties them, and two answers to an
operation when `A` does. A program is `Deaf` to the difference when it goes on in the same way
with answers that look alike. It is a weakest precondition as `Prog.Obeys` is, and its rules
follow the shape of the program in the same way.

Where each operation of threads takes states that look alike to such states, and gives answers
that do, a run of deaf programs from one state is mirrored by a run from the other
(`Threads.Run.mirror`) : the same programs ask for the same operations, step by step.

What can be observed of a run is what its programs ask for (`Config.asked`), so a program that
asks for its outputs like for everything else gives nothing away.
-/

namespace Prog

variable {E : Effects} {α β : Type} {P : E.Op → Prop} {A : (o : E.Op) → E.Ans o → E.Ans o → Prop}

/-- `p` asks only for operations with `P`, whatever the answers, goes on in one way with answers
that `A` ties, and if it returns, `Q` holds of its value. -/
def Deaf (P : E.Op → Prop) (A : (o : E.Op) → E.Ans o → E.Ans o → Prop) :
    Prog E α → (α → Prop) → Prop
  | ret a, Q => Q a
  | call o k, Q => P o ∧ ∀ r r', A o r r' → k r = k r' ∧ Deaf P A (k r) Q
  | fault _, _ => True

@[simp] theorem deaf_ret {a : α} {Q : α → Prop} : Deaf P A (ret a) Q ↔ Q a :=
  Iff.rfl

@[simp] theorem deaf_call {o : E.Op} {k : E.Ans o → Prog E α} {Q : α → Prop} :
    Deaf P A (call o k) Q ↔ P o ∧ ∀ r r', A o r r' → k r = k r' ∧ Deaf P A (k r) Q :=
  Iff.rfl

theorem deaf_fault {e : E.Fault} {Q : α → Prop} : Deaf P A (fault e : Prog E α) Q :=
  trivial

/-- The part before a continuation, then the continuation on any value it can return. -/
theorem Deaf.bind {p : Prog E α} {f : α → Prog E β} {Q : α → Prop} {R : β → Prop}
    (hp : Deaf P A p Q) (hf : ∀ a, Q a → Deaf P A (f a) R) : Deaf P A (p >>= f) R := by
  induction p with
  | ret a => exact hf a hp
  | call o k ih =>
    refine ⟨hp.1, fun r r' hr => ?_⟩
    obtain ⟨heq, hk⟩ := hp.2 r r' hr
    exact ⟨congrArg (· >>= f) heq, ih r hk⟩
  | fault e => trivial

/-- An operation whose answers look alike only if they are the same. -/
theorem deaf_perform {o : E.Op} {Q : E.Ans o → Prop} (h : P o)
    (hA : ∀ r r', A o r r' → r = r' ∧ Q r) : Deaf P A (perform o) Q :=
  ⟨h, fun r r' hr => ⟨congrArg ret (hA r r' hr).1, (hA r r' hr).2⟩⟩

/-- A loop collects what its bodies return. -/
theorem Deaf.forEach {f : α → Prog E β} {Q : β → Prop} :
    ∀ {l : List α}, (∀ a ∈ l, Deaf P A (f a) Q) →
      Deaf P A (Prog.forEach f l) fun bs => ∀ b ∈ bs, Q b
  | [], _ => fun _ hb => absurd hb List.not_mem_nil
  | a :: l, hf => by
    refine (hf a List.mem_cons_self).bind fun b hb => ?_
    refine (Deaf.forEach fun c hc => hf c (List.mem_cons_of_mem a hc)).bind fun bs hbs => ?_
    exact List.forall_mem_cons.mpr ⟨hb, hbs⟩

end Prog

open Prog

namespace Threads

variable {E : Effects} {σ T : Type} [DecidableEq T] {S : Threads E σ} {P : E.Op → Prop}
  {A : (o : E.Op) → E.Ans o → E.Ans o → Prop} {R : σ → σ → Prop}
  {C : T → E.Op → S.Outcome → Prop} {s s' : σ}

/-- The operations that a thread has asked for since it was started. -/
def Config.asked (c : Config E σ T) (t : T) : List E.Op :=
  (c.trace t).map Sigma.fst

/-- What threads ask for from one state, they ask for from every state that looks like it. -/
theorem Run.mirror (hstarts : ∀ p, S.starts p → Deaf P A p fun _ => True)
    (hserve : ∀ out o s s', P o → R s s' →
      A o (S.serve out o s).1 (S.serve out o s').1 ∧ R (S.serve out o s).2 (S.serve out o s').2)
    (hs : R s s') {c : Config E σ T} (h : Run S (fun _ => C) s c) :
    ∃ c', Run S (fun _ => C) s' c' ∧ c'.prog = c.prog ∧ c'.asked = c.asked ∧
      R c.shared c'.shared ∧ ∀ t, Deaf P A (c.prog t) fun _ => True := by
  induction h with
  | start => exact ⟨_, .start, rfl, rfl, hs, fun _ => trivial⟩
  | @launch c h t hidle p hp ih =>
    obtain ⟨c', hc', hprog, hasked, hR, hdeaf⟩ := ih
    refine ⟨c'.launch t p, hc'.launch (hprog ▸ hidle) hp, ?_, ?_, hR, fun t' => ?_⟩
    · rw [Config.launch, Config.launch, hprog]
    · ext1 t'
      have := congrFun hasked t'
      rcases eq_or_ne t' t with rfl | hne
      · simp [Config.asked, Config.launch]
      · simpa [Config.asked, Config.launch, hne] using this
    · rcases eq_or_ne t' t with rfl | hne
      · simpa [Config.launch] using hstarts p hp
      · simpa [Config.launch, hne] using hdeaf t'
  | @step c h t o k hp out hC ih =>
    obtain ⟨c', hc', hprog, hasked, hR, hdeaf⟩ := ih
    have hcall := hdeaf t
    rw [hp, deaf_call] at hcall
    obtain ⟨hA, hR'⟩ := hserve out o _ _ hcall.1 hR
    obtain ⟨heq, hk⟩ := hcall.2 _ _ hA
    refine ⟨_, hc'.step ((congrFun hprog t).trans hp) hC, ?_, ?_, hR', fun t' => ?_⟩
    · rw [Config.advance, Config.advance, hprog, heq]
    · ext1 t'
      have := congrFun hasked t'
      rcases eq_or_ne t' t with rfl | hne
      · simpa [Config.asked, Config.advance] using this
      · simpa [Config.asked, Config.advance, hne] using this
    · rcases eq_or_ne t' t with rfl | hne
      · simpa [Config.advance] using hk
      · simpa [Config.advance, hne] using hdeaf t'

end Threads
