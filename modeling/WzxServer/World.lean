import WzxServer.Tables
import WzxServer.Events
import WzxServer.Lib.Threads
import Mathlib.Logic.Function.Basic

/-!
# What handlers share

A `World` is what the handlers of all clients share : the tables, the open transactions, the
clock, the map of users and what was written. `World.serve` answers their operations. Which
calls MySQL accepts is up to `ok`, and so is everything of `Server`. Handlers run one after
another, or as `Server.threads` interleaved at their operations.

An open transaction works on a copy of the tables, and `commit` puts the copy in their
place. MySQL does so row by row : what other handlers wrote in between stays. The
difference needs a handler that writes between the start and the commit of another, and
only ADDFACE has transactions, each around one statement. Handlers that run one after
another leave nothing in between. Of interleaved ones, the results are about kinds without
a transaction (one row for each pair in `Conversations`, the map of users in `Presence`),
or about what each row has by itself, which a row brings into the copy and out of it (what
fits in `Copies`, what is meant in `Texts`), or they compare two runs whose copies are
alike (`Secrets`). None says that what another handler wrote is still there.

The pool hands out a connection that nobody holds and that has no transaction; which one
makes no difference here, and each gets a number of its own. ADDFACE gives its connection
back before it commits. The pool could then hand it out with the transaction open, and the
commit would be of two handlers. It is taken here that nobody gets the connection before
the commit; `Brackets` shows where the code does not see to that.

A commit that fails keeps nothing, and the counters of `AUTO_INCREMENT` go on even then.
-/

namespace WzxServer

/-- What the server runs on : MySQL, the readings of `time(NULL)`, the address of the peer,
and the value of a function that returns none. -/
structure Server where
  mysql : MySQL
  clock : ℕ → ℤ
  peerIp : Bytes
  indeterminate : ℤ

/-- A server that rejects every text which is not read as it was meant. -/
def Server.rejecting (e : Collation) : Server :=
  ⟨⟨e, fun _ t => ⟨none, 0, 0, t⟩⟩, fun _ => 0, [], 0⟩

/-- The state that handlers share. -/
structure World where
  tables : Tables
  txn : Conn → Option Tables
  conns : ℕ
  lastInsert : Conn → ℤ
  reads : ℕ
  userMap : List ((Bytes × Bytes) × ℤ)
  sent : List Reply

/-- No transactions, no users seen and nothing written yet. -/
def World.start (t : Tables) : World :=
  ⟨t, fun _ => none, 0, fun _ => 0, 0, [], []⟩

/-- The tables before a transaction that ended without a commit : its rows are gone, and
its ids stay used. -/
def Tables.undo (t copy : Tables) : Tables :=
  { t with
    nextUser := copy.nextUser, nextRelation := copy.nextRelation
    nextMessage := copy.nextMessage, nextSession := copy.nextSession }

/-- Assign to a key of a `map`, whose keys are in order. -/
def setKey (k : Bytes × Bytes) (v : ℤ) :
    List ((Bytes × Bytes) × ℤ) → List ((Bytes × Bytes) × ℤ)
  | [] => [(k, v)]
  | p :: l =>
    if p.1 = k then (k, v) :: l
    else if k.1 < p.1.1 ∨ k.1 = p.1.1 ∧ k.2 < p.1.2 then (k, v) :: p :: l
    else p :: setKey k v l

namespace World

/-- Hand out a connection without a transaction. -/
def acquire (w : World) : World :=
  { w with conns := w.conns + 1, txn := Function.update w.txn w.conns none }

@[simp] theorem acquire_tables (w : World) : w.acquire.tables = w.tables :=
  rfl

@[simp] theorem acquire_reads (w : World) : w.acquire.reads = w.reads :=
  rfl

@[simp] theorem acquire_sent (w : World) : w.acquire.sent = w.sent :=
  rfl

/-- The tables as the statements on `c` see them. -/
def view (w : World) (c : Conn) : Tables :=
  (w.txn c).getD w.tables

/-- The tables after a statement on `c`. -/
def put (w : World) (c : Conn) (t : Tables) : World :=
  match w.txn c with
  | none => { w with tables := t }
  | some _ => { w with txn := Function.update w.txn c (some t) }

/-- Execute a statement on `c`. -/
def exec (M : MySQL) (w : World) (c : Conn) (s : Stmt) : Effect × World :=
  let e := M.exec s (w.view c)
  (e, { w.put c e.tables with lastInsert := Function.update w.lastInsert c e.insertId })

/-- End the transaction on `c` and keep what it did : its copy takes the place of all
tables, as the module says. -/
def commit (w : World) (c : Conn) : World :=
  match w.txn c with
  | none => w
  | some t => { w with tables := t, txn := Function.update w.txn c none }

/-- End the transaction on `c` and drop what it did, on whatever rows. -/
def rollback (w : World) (c : Conn) : World :=
  match w.txn c with
  | none => w
  | some t => { w with tables := w.tables.undo t, txn := Function.update w.txn c none }

/-- Start a transaction on `c`, which ends one that is open. -/
def start_transaction (w : World) (c : Conn) : World :=
  let w := w.commit c
  { w with txn := Function.update w.txn c (some w.tables) }

/-- `m_userMap[k] = islogin`. -/
def userMapSet (w : World) (k : Bytes × Bytes) (islogin : ℤ) : World :=
  { w with userMap := setKey k islogin w.userMap }

/-- Write to the client. -/
def write (w : World) (r : Reply) : World :=
  { w with sent := w.sent ++ [r] }

variable (S : Server) (ok : Op → Bool)

/-- The answer to an operation, and the world after it. -/
def serve (o : Op) (w : World) : o.Ans × World :=
  match o with
  | .getDBConn _ => if ok o then (some w.conns, w.acquire) else (none, w)
  | .relDBConn _ => ((), w)
  | .executeQuery c s =>
    if ok o then ((w.exec S.mysql c s).1.rows, (w.exec S.mysql c s).2) else (none, w)
  | .executeUpdate c s =>
    if ok o then (decide (0 < (w.exec S.mysql c s).1.affected), (w.exec S.mysql c s).2)
    else (false, w)
  | .startTransaction c => if ok o then (true, w.start_transaction c) else (false, w)
  | .commit c => if ok o then (true, w.commit c) else (false, w.rollback c)
  | .rollback c => (ok o, w.rollback c)
  | .init _ _ => (ok o, w)
  | .execute c s => if ok o then (true, (w.exec S.mysql c s).2) else (false, w)
  | .getInsertId c => (w.lastInsert c, w)
  | .time => (S.clock w.reads, { w with reads := w.reads + 1 })
  | .userMapFind k => ((w.userMap.find? fun p => p.1 = k).map Prod.snd, w)
  | .userMapSet k islogin => ((), w.userMapSet k islogin)
  | .userMapAll => (w.userMap, w)
  | .peerIp => (S.peerIp, w)
  | .memcpy _ _ => ((), w)
  | .write r => ((), w.write r)
  | .read => ((), w)
  | .indeterminate => (S.indeterminate, w)

/-- Every call succeeds. -/
def allOk : Op → Bool :=
  fun _ => true

@[simp] theorem allOk_eq (o : Op) : allOk o = true :=
  rfl

section

variable {S ok} {α : Type} {w : World}

theorem run_ask_bind {o : Op} {f : o.Ans → Proc α} :
    Prog.run (serve S ok) (@bind Proc _ (no_index o.Ans) α (Proc.ask o) f) w =
      Prog.run (serve S ok) (f (serve S ok o w).1) (serve S ok o w).2 :=
  rfl

theorem run_ask (o : Op) :
    Prog.run (serve S ok) (Proc.ask o) w = (some (serve S ok o w).1, (serve S ok o w).2) :=
  rfl

theorem ends_ask {o : Op} {Q : o.Ans → World → Prop} :
    Prog.Ends (serve S ok) (Proc.ask o) w Q ↔ Q (serve S ok o w).1 (serve S ok o w).2 :=
  Prog.ends_perform

theorem ends_ask_bind {o : Op} {f : o.Ans → Proc α} {Q : α → World → Prop} :
    Prog.Ends (serve S ok) (@bind Proc _ (no_index o.Ans) α (Proc.ask o) f) w Q ↔
      Prog.Ends (serve S ok) (f (serve S ok o w).1) (serve S ok o w).2 Q :=
  Iff.rfl

end

end World

/-- Clients that start handlers of a kind, each operation with whether it succeeds. -/
abbrev Server.threads (S : Server) (starts : Proc Unit → Prop) : Threads Db World where
  Outcome := Bool
  serve ok := World.serve S fun _ => ok
  starts := starts

end WzxServer
