import Mathlib.Algebra.GroupWithZero.Nat
import Mathlib.Data.List.TakeWhile
import Mathlib.Tactic.Common

/-!
# Quoted literals in a text

A text alternates code with quoted literals. Inside a literal a doubled quote stands for
a quote, and an escape symbol with the symbol after it stands for what `unesc` says, or
for itself when `unesc` keeps the pair (`Quoting`). `scan` reads one literal from behind
its opening quote, and `lex` splits a text into code and literal values.

A `Template` is code with holes, and `render` puts the fields into the holes between
quotes, unchanged. A field is `inert` if no symbol of it is read as anything but itself.
`tokens_render_iff` : the rendered text has the template's structure, with each field as
the value of its literal, exactly when every field is inert. The hard half is that a
field which is not inert is never read as its own value, even when its literal runs on
into the code and the fields after it. From the first pair that is read as one symbol on,
the value lags behind the field (`scan_ne_of_lag`), and it never catches up.
-/

/-- A quote and an escape symbol, with what an escaped symbol stands for : `none` keeps
the escape and the symbol. -/
structure Quoting (α : Type) where
  quote : α
  esc : α
  unesc : α → Option α
  quote_ne_esc : quote ≠ esc
  unesc_quote : unesc quote = some quote
  unesc_esc : unesc esc = some esc
  eq_of_unesc_quote : ∀ c, unesc c = some quote → c = quote
  eq_of_unesc_esc : ∀ c, unesc c = some esc → c = esc

namespace Quoting

variable {α : Type} [DecidableEq α] (L : Quoting α)

/-- A quote or an escape. -/
def Special (c : α) : Prop :=
  c = L.quote ∨ c = L.esc

/-- Not the start of a quote or an escape. -/
def Calm (r : List α) : Prop :=
  ∀ c ∈ r.head?, ¬L.Special c

/-- What the escape followed by `c` stands for. -/
def pair (c : α) : List α :=
  match L.unesc c with
  | some d => [d]
  | none => [L.esc, c]

/-- Read a literal from behind its opening quote : its value, and the text behind its
closing quote. -/
def scan : List α → Option (List α × List α)
  | [] => none
  | c :: s =>
    if c = L.quote then
      match s with
      | [] => some ([], [])
      | d :: s' =>
        if d = L.quote then (scan s').map fun r => (L.quote :: r.1, r.2) else some ([], d :: s')
    else if c = L.esc then
      match s with
      | [] => none
      | d :: s' => (scan s').map fun r => (L.pair d ++ r.1, r.2)
    else (scan s).map fun r => (c :: r.1, r.2)

/-- Every symbol of the field stands for itself. -/
def inert : List α → Bool
  | [] => true
  | c :: s =>
    if c = L.quote then false
    else if c = L.esc then
      match s with
      | [] => false
      | d :: s' => (L.unesc d).isNone && inert s'
    else inert s

variable {L}

omit [DecidableEq α] in
/-- A special symbol can be escaped. -/
theorem unesc_ne_none_of_special {c : α} (h : L.Special c) : L.unesc c ≠ none := by
  rcases h with rfl | rfl
  · simp [L.unesc_quote]
  · simp [L.unesc_esc]

omit [DecidableEq α] in
/-- Only special symbols stand for special ones. -/
theorem special_of_unesc {c d : α} (h : L.unesc c = some d) (hd : L.Special d) : L.Special c := by
  rcases hd with rfl | rfl
  · exact Or.inl (L.eq_of_unesc_quote c h)
  · exact Or.inr (L.eq_of_unesc_esc c h)

/-- A field without quotes and escapes is inert. -/
theorem inert_of_plain : ∀ {f : List α}, (∀ c ∈ f, ¬L.Special c) → L.inert f = true
  | [], _ => rfl
  | c :: f, h => by
    have hc : ¬L.Special c := h c (by simp)
    simp only [Special, not_or] at hc
    rw [inert.eq_def]
    simpa [hc.1, hc.2] using inert_of_plain fun d hd => h d (List.mem_cons_of_mem c hd)

/-! ## One literal -/

/-- Any other symbol is kept. -/
theorem scan_plain {c : α} (h : ¬L.Special c) (s : List α) :
    L.scan (c :: s) = (L.scan s).map fun r => (c :: r.1, r.2) := by
  simp only [Special, not_or] at h
  cases s <;> simp [scan, h.1, h.2]

/-- An escape takes the next symbol with it. -/
theorem scan_esc (d : α) (s : List α) :
    L.scan (L.esc :: d :: s) = (L.scan s).map fun r => (L.pair d ++ r.1, r.2) := by
  simp [scan, L.quote_ne_esc.symm]

/-- A doubled quote is one. -/
theorem scan_quote_quote (s : List α) :
    L.scan (L.quote :: L.quote :: s) = (L.scan s).map fun r => (L.quote :: r.1, r.2) := by
  simp [scan]

/-- A quote that no quote follows closes the literal. -/
theorem scan_quote {r : List α} (h : r.head? ≠ some L.quote) :
    L.scan (L.quote :: r) = some ([], r) := by
  cases r with
  | nil => simp [scan]
  | cons d r =>
    have hd : d ≠ L.quote := fun e => h (by simp [e])
    simp [scan, hd]

omit [DecidableEq α] in
theorem Calm.head_ne_quote {r : List α} (h : L.Calm r) : r.head? ≠ some L.quote :=
  fun e => h _ e (Or.inl rfl)

/-- Behind a calm text the value of a literal starts with the text's own symbol. -/
theorem scan_calm {r v r' : List α} (h : L.Calm r) (hs : L.scan r = some (v, r')) :
    ∃ c v', v = c :: v' ∧ ¬L.Special c := by
  cases r with
  | nil => simp [scan] at hs
  | cons c r =>
    have hc : ¬L.Special c := h c rfl
    rw [scan_plain hc] at hs
    obtain ⟨⟨v', r''⟩, -, he⟩ := Option.map_eq_some_iff.mp hs
    exact ⟨c, v', (Prod.mk.inj he).1.symm, hc⟩

/-- An inert field is read as itself. -/
theorem scan_of_inert {r : List α} (hr : r.head? ≠ some L.quote) :
    ∀ {f : List α}, L.inert f = true → L.scan (f ++ L.quote :: r) = some (f, r)
  | [], _ => scan_quote hr
  | [c], h => by
    have hc : ¬L.Special c := by
      rintro (rfl | rfl) <;> simp [inert] at h
    rw [List.singleton_append, scan_plain hc, scan_quote hr]
    rfl
  | c :: d :: f, h => by
    by_cases hq : c = L.quote
    · simp [inert, hq] at h
    by_cases he : c = L.esc
    · subst he
      simp only [inert, L.quote_ne_esc.symm, if_false, if_true, Bool.and_eq_true,
        Option.isNone_iff_eq_none] at h
      rw [List.cons_append, List.cons_append, scan_esc, scan_of_inert hr h.2]
      simp [pair, h.1]
    · have h' : L.inert (d :: f) = true := by
        rw [inert, if_neg hq, if_neg he] at h
        exact h
      rw [List.cons_append, scan_plain (by simp [Special, hq, he]), scan_of_inert hr h']
      rfl

/-- A value that lags behind its field by quotes and escapes never catches up : the
literal read from `g` on, closed or not by the quote behind `g`, is not `pre ++ g`. -/
theorem scan_ne_of_lag {r : List α} (hr : L.Calm r) :
    ∀ (g pre : List α) {v r' : List α}, pre ≠ [] → (∀ c ∈ pre, L.Special c) →
      L.scan (g ++ L.quote :: r) = some (v, r') → v ≠ pre ++ g
  | [], pre, v, r', hne, _, hs => by
    rw [List.nil_append, scan_quote hr.head_ne_quote] at hs
    obtain ⟨rfl, -⟩ := Prod.mk.inj (Option.some.inj hs)
    simpa using hne.symm
  | [c], p :: pre, v, r', _, hpre, hs => by
    rintro rfl
    by_cases hc : L.Special c
    · -- `c` takes the closing quote with it, and the value goes on with the text's own symbol.
      obtain ⟨v', hv, hscan⟩ : ∃ v', pre ++ [c] = v' ∧ ∃ r'', L.scan r = some (v', r'') := by
        refine ⟨_, rfl, ?_⟩
        rcases hc with rfl | rfl
        · rw [List.singleton_append, scan_quote_quote] at hs
          obtain ⟨⟨v', r''⟩, hv', he⟩ := Option.map_eq_some_iff.mp hs
          simp only [List.cons_append, Prod.mk.injEq, List.cons.injEq] at he
          exact ⟨r'', he.1.2 ▸ hv'⟩
        · rw [List.singleton_append, scan_esc] at hs
          obtain ⟨⟨v', r''⟩, hv', he⟩ := Option.map_eq_some_iff.mp hs
          simp only [pair, L.unesc_quote, List.cons_append, List.nil_append, Prod.mk.injEq,
            List.cons.injEq] at he
          exact ⟨r'', he.1.2 ▸ hv'⟩
      obtain ⟨r'', hscan⟩ := hscan
      obtain ⟨d, v'', rfl, hd⟩ := scan_calm hr hscan
      have hmem : d ∈ pre ++ [c] := by rw [hv]; simp
      rcases List.mem_append.mp hmem with h | h
      · exact hd (hpre d (by simp [h]))
      · exact hd (List.mem_singleton.mp h ▸ hc)
    · rw [List.singleton_append, scan_plain hc] at hs
      obtain ⟨_, -, he⟩ := Option.map_eq_some_iff.mp hs
      obtain ⟨he, -⟩ := Prod.mk.inj he
      exact hc ((List.cons.inj he).1 ▸ hpre p (by simp))
  | c :: d :: g, p :: pre, v, r', _, hpre, hs => by
    rintro rfl
    have hp : L.Special p := hpre p (by simp)
    have hrest : ∀ x ∈ pre ++ [c, d], L.Special c → L.Special d → L.Special x := by
      intro x hx hc hd
      simp only [List.mem_append, List.mem_cons, List.not_mem_nil, or_false] at hx
      rcases hx with hx | rfl | rfl
      exacts [hpre x (by simp [hx]), hc, hd]
    have step : ∀ {v'}, (∃ r'', L.scan (g ++ L.quote :: r) = some (v', r'')) →
        L.Special c → L.Special d → v' ≠ pre ++ c :: d :: g := by
      rintro v' ⟨r'', h⟩ hc hd
      have := scan_ne_of_lag hr g (pre ++ [c, d]) (by simp) (fun x hx => hrest x hx hc hd) h
      simpa using this
    by_cases hq : c = L.quote
    · subst hq
      by_cases hd : d = L.quote
      · subst hd
        rw [List.cons_append, List.cons_append, scan_quote_quote] at hs
        obtain ⟨⟨v', r''⟩, hv', he⟩ := Option.map_eq_some_iff.mp hs
        simp only [List.cons_append, Prod.mk.injEq, List.cons.injEq] at he
        exact step ⟨r'', hv'⟩ (Or.inl rfl) (Or.inl rfl) he.1.2
      · rw [List.cons_append, scan_quote (by simp [hd])] at hs
        simp at hs
    by_cases he : c = L.esc
    · subst he
      rw [List.cons_append, List.cons_append, scan_esc] at hs
      obtain ⟨⟨v', r''⟩, hv', he⟩ := Option.map_eq_some_iff.mp hs
      cases hu : L.unesc d with
      | some e =>
        simp only [pair, hu, List.cons_append, List.nil_append, Prod.mk.injEq,
          List.cons.injEq] at he
        have hd : L.Special d := special_of_unesc hu (he.1.1 ▸ hp)
        exact step ⟨r'', hv'⟩ (Or.inr rfl) hd he.1.2
      | none =>
        -- The pair is kept, so the symbol behind the escape is the field's, which is special.
        simp only [pair, hu, List.cons_append, List.nil_append, Prod.mk.injEq,
          List.cons.injEq] at he
        have hd : L.Special d := by
          cases pre with
          | nil => exact Or.inr (List.cons.inj he.1.2).1
          | cons q pre => exact (List.cons.inj he.1.2).1 ▸ hpre q (by simp)
        exact unesc_ne_none_of_special hd hu
    · have hc : ¬L.Special c := by simp [Special, hq, he]
      rw [List.cons_append, scan_plain hc] at hs
      obtain ⟨_, -, he⟩ := Option.map_eq_some_iff.mp hs
      obtain ⟨he, -⟩ := Prod.mk.inj he
      exact hc ((List.cons.inj he).1 ▸ hp)

/-- A field that is read as itself is inert. -/
theorem inert_of_scan {r : List α} (hr : L.Calm r) :
    ∀ {f r' : List α}, L.scan (f ++ L.quote :: r) = some (f, r') → L.inert f = true
  | [], _, _ => rfl
  | [c], r', hs => by
    by_cases hc : L.Special c
    · exfalso
      rcases hc with rfl | rfl
      · rw [List.singleton_append, scan_quote_quote] at hs
        obtain ⟨⟨v, r''⟩, hv, he⟩ := Option.map_eq_some_iff.mp hs
        obtain ⟨d, v', rfl, -⟩ := scan_calm hr hv
        simp at he
      · rw [List.singleton_append, scan_esc] at hs
        obtain ⟨_, -, he⟩ := Option.map_eq_some_iff.mp hs
        simp only [pair, L.unesc_quote, List.cons_append, Prod.mk.injEq, List.cons.injEq] at he
        exact L.quote_ne_esc he.1.1
    · simp only [Special, not_or] at hc
      simp [inert, hc.1, hc.2]
  | c :: d :: f, r', hs => by
    by_cases hq : c = L.quote
    · exfalso
      subst hq
      by_cases hd : d = L.quote
      · subst hd
        rw [List.cons_append, List.cons_append, scan_quote_quote] at hs
        obtain ⟨⟨v, r''⟩, hv, he⟩ := Option.map_eq_some_iff.mp hs
        simp only [Prod.mk.injEq, List.cons.injEq] at he
        exact scan_ne_of_lag hr f [L.quote] (by simp) (by simp [Special]) hv he.1.2
      · rw [List.cons_append, scan_quote (by simp [hd])] at hs
        simp at hs
    by_cases he : c = L.esc
    · subst he
      rw [List.cons_append, List.cons_append, scan_esc] at hs
      obtain ⟨⟨v, r''⟩, hv, he⟩ := Option.map_eq_some_iff.mp hs
      cases hu : L.unesc d with
      | some e =>
        simp only [pair, hu, List.singleton_append, Prod.mk.injEq, List.cons.injEq] at he
        obtain ⟨⟨rfl, rfl⟩, -⟩ := he
        have hd : d = L.esc := L.eq_of_unesc_esc d hu
        exact (scan_ne_of_lag hr f [d] (by simp) (by simp [Special, hd]) hv rfl).elim
      | none =>
        simp only [pair, hu, List.cons_append, List.nil_append, Prod.mk.injEq, List.cons.injEq,
          true_and] at he
        obtain ⟨rfl, -⟩ := he
        simp [inert, L.quote_ne_esc.symm, hu, inert_of_scan hr hv]
    · have hc : ¬L.Special c := by simp [Special, hq, he]
      rw [List.cons_append, scan_plain hc] at hs
      obtain ⟨⟨v, r''⟩, hv, hv'⟩ := Option.map_eq_some_iff.mp hs
      simp only [Prod.mk.injEq, List.cons.injEq, true_and] at hv'
      obtain ⟨rfl, -⟩ := hv'
      rw [inert, if_neg hq, if_neg he]
      exact inert_of_scan hr hv

end Quoting

/-! ## Texts -/

/-- A stretch of code, or the value of a literal. -/
inductive Token (α : Type) where
  /-- Outside of quotes. -/
  | code (s : List α)
  /-- Between quotes, as it is read. -/
  | lit (v : List α)
  deriving DecidableEq

/-- Code with holes. Each hole is the field put into it and the code behind it. -/
structure Template (α : Type) where
  head : List α
  holes : List (List α × List α)

/-- The template with nothing in its holes. -/
def Template.blank {α : Type} (t : Template α) : Template α :=
  ⟨t.head, t.holes.map fun h => ([], h.2)⟩

namespace Quoting

variable {α : Type} [DecidableEq α] (L : Quoting α)

/-- Split a text into code and literals; `n` bounds the number of stretches of code. -/
def lex : ℕ → List α → Option (List (Token α))
  | 0, _ => none
  | n + 1, s =>
    match s.dropWhile (· ≠ L.quote) with
    | [] => some [.code (s.takeWhile (· ≠ L.quote))]
    | _ :: r =>
      (L.scan r).bind fun p =>
        (lex n p.2).map fun ts => .code (s.takeWhile (· ≠ L.quote)) :: .lit p.1 :: ts

/-- The code and literals of a text, if all its literals are closed. -/
def tokens (s : List α) : Option (List (Token α)) :=
  L.lex (s.length + 1) s

/-- The text of code and filled holes : each field between quotes. -/
def fill (head : List α) : List (List α × List α) → List α
  | [] => head
  | (f, c) :: hs => head ++ L.quote :: (f ++ L.quote :: fill c hs)

/-- The text of a template. -/
def render (t : Template α) : List α :=
  L.fill t.head t.holes

omit [DecidableEq α] in
/-- A text is as long as its template and its values. -/
theorem length_fill : ∀ (head : List α) (holes : List (List α × List α)),
    (L.fill head holes).length =
      (L.fill head (holes.map fun h => ([], h.2))).length + (holes.map fun h => h.1.length).sum
  | head, [] => rfl
  | head, (f, c) :: hs => by
    have ih := length_fill c hs
    simp only [fill, List.map_cons, List.sum_cons, List.length_append, List.length_cons,
      List.length_nil] at ih ⊢
    omega

omit [DecidableEq α] in
/-- The fields of a template make its text longer by their lengths. -/
theorem length_render (t : Template α) : (L.render t).length =
    (L.render t.blank).length + (t.holes.map fun h => h.1.length).sum :=
  L.length_fill t.head t.holes

/-- The structure of a template : its code, and a literal for each field. -/
def shape (head : List α) : List (List α × List α) → List (Token α)
  | [] => [.code head]
  | (f, c) :: hs => .code head :: .lit f :: shape c hs

/-- The code of a template has no quote, and behind each hole it starts plainly. -/
def WellFormed (t : Template α) : Prop :=
  L.quote ∉ t.head ∧ ∀ h ∈ t.holes, L.quote ∉ h.2 ∧ ∃ c s, h.2 = c :: s ∧ ¬L.Special c

variable {L}

/-- Without a quote all is code. -/
theorem lex_code {n : ℕ} {s : List α} (hs : L.quote ∉ s) : L.lex (n + 1) s = some [.code s] := by
  have hall : ∀ c ∈ s, (decide (c ≠ L.quote)) = true := by
    intro c hc
    rw [decide_eq_true_iff]
    rintro rfl
    exact hs hc
  rw [lex, List.dropWhile_eq_nil_iff.mpr hall, List.takeWhile_eq_self_iff.mpr hall]

/-- Code goes up to the first quote. -/
theorem lex_code_quote {n : ℕ} {s : List α} (hs : L.quote ∉ s) (r : List α) :
    L.lex (n + 1) (s ++ L.quote :: r) =
      (L.scan r).bind fun p => (L.lex n p.2).map fun ts => .code s :: .lit p.1 :: ts := by
  have hall : ∀ c ∈ s, (decide (c ≠ L.quote)) = true := by
    intro c hc
    rw [decide_eq_true_iff]
    rintro rfl
    exact hs hc
  have hdrop : (s ++ L.quote :: r).dropWhile (· ≠ L.quote) = L.quote :: r := by
    rw [List.dropWhile_append_of_pos hall, List.dropWhile_cons_of_neg (by simp)]
  have htake : (s ++ L.quote :: r).takeWhile (· ≠ L.quote) = s := by
    rw [List.takeWhile_append_of_pos hall, List.takeWhile_cons_of_neg (by simp), List.append_nil]
  rw [lex, hdrop, htake]

omit [DecidableEq α] in
/-- What follows a hole starts plainly. -/
theorem calm_fill {c : α} {s : List α} (hc : ¬L.Special c) (hs : List (List α × List α)) :
    L.Calm (L.fill (c :: s) hs) := by
  intro d hd
  cases hs with
  | nil => simpa [fill, ← Option.some.inj hd] using hc
  | cons h hs => simpa [fill, ← Option.some.inj hd] using hc

/-- A filled text has its template's structure exactly when the fields are inert. -/
theorem lex_fill_iff : ∀ {hs : List (List α × List α)} {head : List α} {n : ℕ}, hs.length < n →
    L.WellFormed ⟨head, hs⟩ →
    (L.lex n (L.fill head hs) = some (shape head hs) ↔ ∀ h ∈ hs, L.inert h.1 = true)
  | [], head, n + 1, _, hwf => by simp [fill, shape, lex_code hwf.1]
  | (f, c) :: hs, head, n + 1, hn, hwf => by
    obtain ⟨hhead, hholes⟩ := hwf
    obtain ⟨hc, d, s, rfl, hd⟩ := hholes (f, c) (by simp)
    have hwf' : L.WellFormed ⟨d :: s, hs⟩ := ⟨hc, fun h hh => hholes h (by simp [hh])⟩
    have ih := lex_fill_iff (n := n) (by simpa using hn) hwf'
    have hcalm : L.Calm (L.fill (d :: s) hs) := calm_fill hd hs
    rw [fill, lex_code_quote hhead, shape, List.forall_mem_cons]
    constructor
    · intro h
      obtain ⟨⟨v, r⟩, hv, h⟩ := Option.bind_eq_some_iff.mp h
      obtain ⟨ts, hts, h⟩ := Option.map_eq_some_iff.mp h
      simp only [List.cons.injEq, Token.lit.injEq, true_and] at h
      obtain ⟨rfl, rfl⟩ := h
      have hin : L.inert v = true := inert_of_scan hcalm hv
      rw [scan_of_inert hcalm.head_ne_quote hin] at hv
      obtain ⟨-, rfl⟩ := Prod.mk.inj (Option.some.inj hv)
      exact ⟨hin, ih.1 hts⟩
    · rintro ⟨hin, hrest⟩
      rw [scan_of_inert hcalm.head_ne_quote hin, Option.bind_some, ih.2 hrest]
      rfl

omit [DecidableEq α] in
theorem length_lt_fill (hs : List (List α × List α)) (head : List α) :
    hs.length < (L.fill head hs).length + 1 := by
  induction hs generalizing head with
  | nil => simp
  | cons h hs ih =>
    have := ih h.2
    simp only [fill, List.length_append, List.length_cons]
    omega

/-- The text of a well-formed template has the template's structure, with each field the
value of its literal, exactly when every field is inert. -/
theorem tokens_render_iff {t : Template α} (ht : L.WellFormed t) :
    L.tokens (L.render t) = some (shape t.head t.holes) ↔ ∀ h ∈ t.holes, L.inert h.1 = true :=
  lex_fill_iff (length_lt_fill _ _) ht

end Quoting
