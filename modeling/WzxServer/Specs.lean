import WzxServer.World

/-!
# What the models do to the tables

The rules that the proofs about the models and the handlers share. A handler of this program
takes a connection, formats a statement into an array, sends it, reads the rows and gives the
connection back, so there is one rule for each of these steps (`ends_getDBConn_bind`,
`ends_openQuery`, `ends_executeQuery_bind`) and a handler is gone through from top to bottom.

`Same` says that a step changed nothing that outlives the handler, and `Frame` that it changed
nothing but the tables. A statement in a transaction works on a copy : `commit_exec` and
`rollback_exec` say what becomes of it.

The statements are written into arrays of a fixed size. `Spares` says of a program that it
writes past the end of none, whatever it is answered, and `faultOf_sprintf` that a statement
which does not fit does. What the real process does afterwards is not known, so the conditions
about what a handler does leave these requests out.
-/

namespace WzxServer

open Prog Proc

variable {S : Server} {ok : Op → Bool} {w w' w'' : World}

namespace World

/-- The two worlds share all that outlives a handler which took no effect. -/
structure Same (w w' : World) : Prop where
  tables : w'.tables = w.tables
  reads : w'.reads = w.reads
  userMap : w'.userMap = w.userMap
  sent : w'.sent = w.sent

theorem Same.rfl : w.Same w :=
  ⟨Eq.refl _, Eq.refl _, Eq.refl _, Eq.refl _⟩

theorem Same.trans (h : w.Same w') (h' : w'.Same w'') : w.Same w'' :=
  ⟨h'.tables.trans h.tables, h'.reads.trans h.reads, h'.userMap.trans h.userMap,
    h'.sent.trans h.sent⟩

theorem same_acquire (w : World) : w.Same w.acquire :=
  ⟨Eq.refl _, Eq.refl _, Eq.refl _, Eq.refl _⟩

/-- The connection handed out has no transaction. -/
theorem txn_acquire (w : World) : w.acquire.txn w.conns = none := by
  simp [acquire]

theorem view_of_none {c : Conn} (h : w.txn c = none) : w.view c = w.tables := by
  rw [view, h, Option.getD_none]

/-- Outside a transaction a statement works on the tables themselves. -/
theorem exec_of_none {M : MySQL} {c : Conn} (h : w.txn c = none) (s : Stmt) :
    w.exec M c s = (M.exec s w.tables,
      { w with
        tables := (M.exec s w.tables).tables
        lastInsert := Function.update w.lastInsert c (M.exec s w.tables).insertId }) := by
  rw [exec, view_of_none h, put, h]

/-- A query outside a transaction leaves everything as it is. -/
theorem same_exec_select {M : MySQL} {c : Conn} (h : w.txn c = none) {s : Stmt}
    {rows : List Row} (hs : M.exec s w.tables = .select w.tables rows) :
    w.Same (w.exec M c s).2 := by
  rw [exec_of_none h, hs]
  exact ⟨Eq.refl _, Eq.refl _, Eq.refl _, Eq.refl _⟩

/-- The two worlds share all but the tables. -/
structure Frame (w w' : World) : Prop where
  reads : w'.reads = w.reads
  userMap : w'.userMap = w.userMap
  sent : w'.sent = w.sent

/-- Worlds that share all share the rest. -/
theorem Same.frame (h : w.Same w') : w.Frame w' :=
  ⟨h.reads, h.userMap, h.sent⟩

theorem Frame.trans (h : w.Frame w') (h' : w'.Frame w'') : w.Frame w'' :=
  ⟨h'.reads.trans h.reads, h'.userMap.trans h.userMap, h'.sent.trans h.sent⟩

/-! ## A transaction of one statement -/

theorem commit_of_some {c : Conn} {t : Tables} (h : w.txn c = some t) :
    w.commit c = { w with tables := t, txn := Function.update w.txn c none } := by
  rw [commit, h]

theorem rollback_of_some {c : Conn} {t : Tables} (h : w.txn c = some t) :
    w.rollback c =
      { w with tables := w.tables.undo t, txn := Function.update w.txn c none } := by
  rw [rollback, h]

theorem start_transaction_of_none {c : Conn} (h : w.txn c = none) :
    w.start_transaction c = { w with txn := Function.update w.txn c (some w.tables) } := by
  rw [start_transaction, commit, h]

/-- A statement in a transaction works on its copy. -/
theorem exec_start_transaction {M : MySQL} {c : Conn} (h : w.txn c = none) (s : Stmt) :
    ((w.start_transaction c).exec M c s).2 = { w with
      txn := Function.update w.txn c (some (M.exec s w.tables).tables)
      lastInsert := Function.update w.lastInsert c (M.exec s w.tables).insertId } := by
  simp [start_transaction_of_none h, exec, view, put]

/-- A start changes no table. -/
theorem frame_start_transaction {c : Conn} (h : w.txn c = none) :
    w.Frame (w.start_transaction c) ∧ (w.start_transaction c).tables = w.tables := by
  rw [start_transaction_of_none h]
  exact ⟨⟨rfl, rfl, rfl⟩, rfl⟩

/-- Committed, it is the statement. -/
theorem commit_exec {M : MySQL} {c : Conn} (h : w.txn c = none) (s : Stmt) :
    w.Frame (((w.start_transaction c).exec M c s).2.commit c) ∧
      (((w.start_transaction c).exec M c s).2.commit c).tables = (M.exec s w.tables).tables := by
  rw [exec_start_transaction h, commit_of_some (Function.update_self ..)]
  exact ⟨⟨rfl, rfl, rfl⟩, rfl⟩

/-- Rolled back, it leaves the rows as they were. -/
theorem rollback_exec {M : MySQL} {c : Conn} (h : w.txn c = none) (s : Stmt) :
    w.Frame (((w.start_transaction c).exec M c s).2.rollback c) ∧
      (((w.start_transaction c).exec M c s).2.rollback c).tables.users = w.tables.users := by
  rw [exec_start_transaction h, rollback_of_some (Function.update_self ..)]
  exact ⟨⟨rfl, rfl, rfl⟩, rfl⟩

/-- An empty transaction leaves no trace. -/
theorem rollback_start_transaction {c : Conn} (h : w.txn c = none) :
    w.Frame ((w.start_transaction c).rollback c) ∧
      ((w.start_transaction c).rollback c).tables.users = w.tables.users := by
  rw [start_transaction_of_none h, rollback_of_some (Function.update_self ..)]
  exact ⟨⟨rfl, rfl, rfl⟩, rfl⟩

end World

open World

/-! ## Replies -/

/-- What was written between the two worlds. -/
def newly (w w' : World) : List Reply :=
  w'.sent.drop w.sent.length

/-- Writing a list appends it to what was written. -/
theorem ends_forEach_write {α : Type} {f : α → Reply} :
    ∀ {l : List α} {w : World}, Ends (serve S ok) (forEach (fun a => ask (.write (f a))) l) w
      fun _ w' => w' = { w with sent := w.sent ++ l.map f }
  | [], w => by
    rw [forEach, ends_ret, List.map_nil, List.append_nil]
  | a :: l, w => by
    rw [forEach, ends_ask_bind]
    refine (ends_forEach_write (l := l) (w := w.write (f a))).bind ?_
    rintro _ _ rfl
    rw [pure_eq_ret, ends_ret]
    simp [write]

/-- A text that fits into its field. -/
theorem ends_memcpyField_bind {α : Type} {size : ℕ} {text : Bytes} {f : Bytes → Proc α}
    {Q : α → World → Prop} (h : text.length ≤ size) :
    Ends (serve S ok) (memcpyField size text >>= f) w Q ↔ Ends (serve S ok) (f text) w Q := by
  rw [memcpyField_of_le h]
  rfl

/-! ## Arrays -/

/-- The monitor that excuses every fault but one past the end of an array. -/
def insideArrays : Monitor Db where
  State := Unit
  allowed _ _ := True
  admits _ _ _ := True
  next _ _ _ := ()
  excuses _ e := e ≠ .overrun

/-- Whatever is answered, `p` overruns no array. -/
def Spares {α : Type} (p : Proc α) : Prop :=
  Obeys insideArrays p () fun _ _ => True

section Spares

variable {α β : Type}

theorem spares_ret (a : α) : Spares (ret a) :=
  trivial

theorem spares_ask (o : Op) : Spares (ask o) :=
  ⟨trivial, fun _ _ => trivial⟩

theorem Spares.bind {p : Proc α} {f : α → Proc β} (hp : Spares p) (hf : ∀ a, Spares (f a)) :
    Spares (p >>= f) :=
  Obeys.bind hp fun a _ _ => hf a

theorem spares_fault {e : Fault} (h : e ≠ .overrun) : Spares (fault e : Proc α) :=
  h

theorem spares_deref (a : Option α) : Spares (deref a) := by
  rcases a with _ | a
  · exact spares_fault (by decide)
  · exact spares_ret a

/-- A null is no overrun. -/
theorem spares_getInt (row : Row) (key : Col) : Spares (getInt row key) := by
  rw [getInt_eq]
  rcases row.int? key with _ | n
  · exact spares_fault (by decide)
  · exact spares_ret n

/-- A statement that fits its array. -/
theorem spares_sprintf {size : ℕ} {s : Stmt} (h : s.text.length < size) :
    Spares (sprintf size s) := by
  rw [sprintf, if_pos h]
  exact spares_ret s

/-- A query whose text fits. -/
theorem spares_openQuery {size : ℕ} {s : Stmt} (h : s.text.length < size) :
    Spares (openQuery size s) :=
  (spares_ask _).bind fun _ => (spares_sprintf h).bind fun _ => (spares_deref _).bind fun _ =>
    (spares_ask _).bind fun _ => spares_ret _

theorem faultOf_ask_bind {o : Op} {f : o.Ans → Proc α} :
    Prog.faultOf (serve S ok) (@bind Proc _ (no_index o.Ans) α (Proc.ask o) f) w =
      Prog.faultOf (serve S ok) (f (serve S ok o w).1) (serve S ok o w).2 :=
  rfl

/-- A program that overruns nothing does not end in an overrun. -/
theorem Spares.faultOf : ∀ {p : Proc α} {w : World}, Spares p →
    Prog.faultOf (serve S ok) p w ≠ some .overrun
  | ret _, _, _ => nofun
  | call o k, w, h => Spares.faultOf (p := k (serve S ok o w).1) (h.2 _ trivial)
  | fault _, _, h => fun he => h (Option.some.inj he)

/-- A statement that does not fit is written past the end of its array. -/
theorem faultOf_sprintf {size : ℕ} {s : Stmt} (h : ¬s.text.length < size) (f : Stmt → Proc α) :
    Prog.faultOf (serve S ok) (sprintf size s >>= f) w = some .overrun := by
  rw [sprintf, if_neg h]
  rfl

/-- A query whose text does not fit overruns its array, with a connection or without. -/
theorem faultOf_openQuery {size : ℕ} {s : Stmt} (h : ¬s.text.length < size)
    (f : Conn × Option (List Row) → Proc α) :
    Prog.faultOf (serve S ok) (openQuery size s >>= f) w = some .overrun := by
  simp only [openQuery, bind_assoc, faultOf_ask_bind]
  exact faultOf_sprintf h _

end Spares

/-! ## Queries -/

/-- The pool has a connection. -/
theorem ends_getDBConn_bind {α : Type} {n : ℕ} {f : Option Conn → Proc α}
    {Q : α → World → Prop} (hconn : ok (.getDBConn n) = true) :
    Ends (serve S ok) (ask (.getDBConn n) >>= f) w Q ↔
      Ends (serve S ok) (f (some w.conns)) w.acquire Q := by
  rw [ends_ask_bind]
  simp only [serve, hconn, if_true]

/-- The last of the ids that a query gives. -/
theorem lastId_idRows {α : Type} (f : α → ℤ) (l : List α) :
    lastId (some (l.map fun a => idRow (f a))) = ret ((l.map f).getLast?.getD (-1)) := by
  have hids : forEach (fun row => getInt row .id) (l.map fun a => idRow (f a)) =
      ret (l.map f) := by
    induction l with
    | nil => rfl
    | cons a l ih =>
      rw [List.map_cons, forEach, ih]
      rfl
  rw [lastId, hids]
  rfl

/-- A query on a connection that is held. -/
theorem ends_executeQuery_bind {α : Type} {c : Conn} {s : Stmt} {rows : List Row}
    {f : Option (List Row) → Proc α} {Q : α → World → Prop} (hc : w.txn c = none)
    (hs : S.mysql.exec s w.tables = .select w.tables rows)
    (hquery : ok (.executeQuery c s) = true)
    (hf : ∀ w', w.Same w' → w'.txn = w.txn → Ends (serve S ok) (f (some rows)) w' Q) :
    Ends (serve S ok) (ask (.executeQuery c s) >>= f) w Q := by
  have hexec := exec_of_none (M := S.mysql) hc s
  have hrows : (w.exec S.mysql c s).1.rows = some rows := by
    rw [hexec]
    exact congrArg Effect.rows hs
  rw [ends_ask_bind]
  simp only [serve, hquery, if_true, hrows]
  refine hf _ (same_exec_select hc hs) ?_
  rw [hexec]

/-- A statement on a new connection gives what MySQL answers, or nothing. -/
theorem ends_openQuery_exec {size : ℕ} {s : Stmt} (hfit : s.text.length < size)
    (hconn : ok (.getDBConn 0) = true) {b : Bool} (hquery : ∀ c, ok (.executeQuery c s) = b) :
    Ends (serve S ok) (openQuery size s) w fun r w' => w.Frame w' ∧
      r.2 = (if b then (S.mysql.exec s w.tables).rows else none) ∧
      w'.tables = if b then (S.mysql.exec s w.tables).tables else w.tables := by
  have hexec := exec_of_none (M := S.mysql) w.txn_acquire s
  simp only [openQuery, sprintf, if_pos hfit, deref, ends_ask_bind, ret_bind, serve, hconn,
    hquery, if_true, pure_eq_ret, ends_ret, hexec]
  cases b
  · exact ⟨w.same_acquire.frame, rfl, rfl⟩
  · exact ⟨⟨rfl, rfl, rfl⟩, rfl, rfl⟩

/-- A query on a new connection gives its rows. -/
theorem ends_openQuery {size : ℕ} {s : Stmt} {rows : List Row} (hfit : s.text.length < size)
    (hs : S.mysql.exec s w.tables = .select w.tables rows) (hconn : ok (.getDBConn 0) = true)
    (hquery : ∀ c, ok (.executeQuery c s) = true) :
    Ends (serve S ok) (openQuery size s) w fun r w' => r.2 = some rows ∧ w.Same w' := by
  have hexec := exec_of_none (M := S.mysql) w.txn_acquire s
  simp only [openQuery, sprintf, if_pos hfit, deref, ends_ask_bind, ret_bind, serve, hconn,
    hquery, if_true, pure_eq_ret, ends_ret]
  refine ⟨?_, w.same_acquire.trans (same_exec_select w.txn_acquire hs)⟩
  rw [hexec]
  exact congrArg Effect.rows hs

/-- The clock is read. -/
theorem ends_time_bind {α : Type} {f : ℤ → Proc α} {Q : α → World → Prop} :
    Ends (serve S ok) (ask .time >>= f) w Q ↔
      Ends (serve S ok) (f (S.clock w.reads)) { w with reads := w.reads + 1 } Q :=
  Iff.rfl

/-- An update on a connection that is held succeeds when it changes a row. -/
theorem ends_executeUpdate {c : Conn} {s : Stmt} (hc : w.txn c = none)
    (hok : ok (.executeUpdate c s) = true) :
    Ends (serve S ok) (ask (.executeUpdate c s)) w fun b w' => w.Frame w' ∧
      b = decide (0 < (S.mysql.exec s w.tables).affected) ∧
      w'.tables = (S.mysql.exec s w.tables).tables := by
  have hexec := exec_of_none (M := S.mysql) hc s
  rw [ends_ask]
  simp only [serve, hok, if_true, hexec]
  exact ⟨⟨rfl, rfl, rfl⟩, trivial, trivial⟩

/-- A prepared insertion gives the id of its row. -/
theorem ends_insertPrepared {c : Conn} {s : Stmt} (hc : w.txn c = none)
    (hinit : ok (.init c s.text) = true) (hok : ok (.execute c s) = true) :
    Ends (serve S ok) (insertPrepared c s) w fun n w' => w.Frame w' ∧
      n = (S.mysql.exec s w.tables).insertId ∧ w'.tables = (S.mysql.exec s w.tables).tables := by
  have hexec := exec_of_none (M := S.mysql) hc s
  simp only [insertPrepared, ends_ask_bind, serve, hinit, hok, if_true, hexec]
  exact ends_ask.2 ⟨⟨rfl, rfl, rfl⟩, Function.update_self .., rfl⟩

/-- A query that returned had room for its text, and gave MySQL's rows or none. -/
theorem openQuery_inv {size : ℕ} {s : Stmt} {r : Conn × Option (List Row)}
    (hrun : Prog.run (serve S ok) (openQuery size s) w = (some r, w')) :
    s.text.length < size ∧ (r.2 = none ∨ r.2 = (S.mysql.exec s w.tables).rows) ∧
      w'.sent = w.sent := by
  have hexec := exec_of_none (M := S.mysql) w.txn_acquire s
  simp only [openQuery, sprintf, deref, run_ask_bind, serve] at hrun
  by_cases hfit : s.text.length < size
  · by_cases hconn : ok (.getDBConn 0) = true
    · by_cases hquery : ok (.executeQuery w.conns s) = true
      · simp only [hconn, if_true, if_pos hfit, ret_bind, run_ask_bind, serve, hquery,
          pure_eq_ret, run_ret, Prod.mk.injEq, Option.some.injEq, hexec] at hrun
        obtain ⟨rfl, rfl⟩ := hrun
        exact ⟨hfit, Or.inr rfl, rfl⟩
      · simp only [hconn, if_true, if_pos hfit, ret_bind, run_ask_bind, serve, if_neg hquery,
          pure_eq_ret, run_ret, Prod.mk.injEq, Option.some.injEq] at hrun
        obtain ⟨rfl, rfl⟩ := hrun
        exact ⟨hfit, Or.inl rfl, rfl⟩
    · simp [hconn, hfit] at hrun
  · simp [hfit] at hrun

end WzxServer
