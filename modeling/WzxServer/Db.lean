import WzxServer.Lib.Prog
import WzxServer.Requests
import WzxServer.Sql

/-!
# What a handler asks for

A handler works on MySQL through pooled connections, on the map of users, the clock and
the socket of its client. `Db` is the list of these operations, and a handler is a
`Prog Db`. A failed call and a null pointer are answers like any other, and a null pointer
that is used is a `fault`. A copy into a fixed-size field is an operation too, so that what
is copied where can be seen.

MySQL hands a row over as texts or nulls. `Cell` keeps the number of an integer column,
which is what `atoi` reads back from its text.

A program fixes neither what the database has in it nor which calls fail. `World` answers the
operations from tables, and other modules answer them in other ways : with anything at all, or
with anything that MySQL could give.
-/

namespace WzxServer

/-- A connection of the pool. -/
abbrev Conn := ℕ

/-! ## Rows -/

/-- The columns that are read by name. -/
inductive Col where
  | id | classnum | account | password | islogin | touxiang
  | image | width | height | image_type | image_length
  | fromId | toId | content | type | status | updated | created
  | userId | peerId | peerTouXiang
  deriving DecidableEq

/-- A value in a row. -/
inductive Cell where
  | null
  | int (n : ℤ)
  | text (s : Bytes)
  deriving DecidableEq

/-- A row of a result set : its columns and their values. -/
abbrev Row := List (Col × Cell)

/-- `_GetIndex`, with the value at the index. -/
def Row.get (row : Row) (key : Col) : Option Cell :=
  (row.find? fun p => p.1 = key).map Prod.snd

/-- The number that a text starts with. -/
def atoi (s : Bytes) : ℤ :=
  let value (t : Bytes) : ℤ :=
    (t.takeWhile fun c => 48 ≤ c.toNat && c.toNat ≤ 57).foldl
      (fun n c => 10 * n + (c.toNat - 48)) 0
  match s.dropWhile fun c => c = 32 || (9 ≤ c.toNat && c.toNat ≤ 13) with
  | 45 :: t => -value t
  | 43 :: t => value t
  | t => value t

/-! ## Replies -/

/-- What is written to a client : a response structure, or a JSON document. -/
inductive Reply where
  | login (m_res : Cmd)
  | register (m_res : Cmd)
  | detect (res : Cmd)
  | messageCreate (res : Cmd)
  | online (res : Cmd)
  | historyCount (m_count : ℕ) (res : Cmd)
  | message (m : MessageSendData)
  | recentSessionRes (res : Cmd) (m_count : ℕ)
  | recentSession (s : RecentSessionData)
  | loginTouXiang (m_touxiang : Bytes) (res : Cmd)
  | changeTouXiang (m_res : Cmd)
  | getTouXiang (m_touxiang : Bytes) (m_res : Cmd)
  | groupList (group_id_list : List Bytes)
  | userList (user_id_list : List (Bytes × Bytes))
  | onlineList (users : List ((Bytes × Bytes) × ℤ))
  | null
  deriving DecidableEq

/-! ## Operations -/

/-- The operations of handlers and models. `init` and `execute` are those of a
`CPrepareStatement`, `memcpy` copies into a field of `size` bytes, `write` is `co_write` or
`write`, and `indeterminate` is the value of a function that returns none. -/
inductive Op where
  /-- A connection, or a null after `timeout_ms`. -/
  | getDBConn (timeout_ms : ℕ)
  | relDBConn (c : Conn)
  /-- The rows, or a null for an error and where a statement gives none. -/
  | executeQuery (c : Conn) (s : Stmt)
  /-- Whether a row was changed. -/
  | executeUpdate (c : Conn) (s : Stmt)
  | startTransaction (c : Conn)
  | commit (c : Conn)
  | rollback (c : Conn)
  | init (c : Conn) (strSql : Bytes)
  | execute (c : Conn) (s : Stmt)
  /-- The id of the last insertion on the connection. -/
  | getInsertId (c : Conn)
  /-- `time(NULL)`. -/
  | time
  /-- The entry of a key in `m_userMap`, if there is one. -/
  | userMapFind (k : Bytes × Bytes)
  | userMapSet (k : Bytes × Bytes) (islogin : ℤ)
  /-- All of `m_userMap`. -/
  | userMapAll
  /-- The address of the client. -/
  | peerIp
  | memcpy (size : ℕ) (text : Bytes)
  | write (r : Reply)
  /-- What `co_read` takes, which is only looked at to print. -/
  | read
  | indeterminate
  deriving DecidableEq

/-- The answers : `none` is a null pointer. -/
@[reducible] def Op.Ans : Op → Type
  | .getDBConn _ => Option Conn
  | .relDBConn _ => Unit
  | .executeQuery _ _ => Option (List Row)
  | .executeUpdate _ _ => Bool
  | .startTransaction _ => Bool
  | .commit _ => Bool
  | .rollback _ => Bool
  | .init _ _ => Bool
  | .execute _ _ => Bool
  | .getInsertId _ => ℤ
  | .time => ℤ
  | .userMapFind _ => Option ℤ
  | .userMapSet _ _ => Unit
  | .userMapAll => List ((Bytes × Bytes) × ℤ)
  | .peerIp => Bytes
  | .memcpy _ _ => Unit
  | .write _ => Unit
  | .read => Unit
  | .indeterminate => ℤ

/-- The undefined behaviour of a handler : a null pointer is used, an array is written past
its end, memory is read past its end, or an `int` overflows. -/
inductive Fault where
  | null
  | overrun
  | overread
  | overflow
  deriving DecidableEq

/-- The surroundings of a handler. -/
abbrev Db : Effects :=
  ⟨Op, Op.Ans, Fault⟩

/-- The connection that an operation uses. -/
def Op.conn? : Op → Option Conn
  | .executeQuery c _ | .executeUpdate c _ | .startTransaction c | .commit c | .rollback c
  | .init c _ | .execute c _ | .getInsertId c => some c
  | _ => none

/-- A program of the server. -/
abbrev Proc := Prog Db

namespace Proc

open Prog

/-- Ask for `o`. -/
abbrev ask (o : Op) : Proc o.Ans :=
  perform (E := Db) o

/-- Use a pointer. -/
def deref {α : Type} : Option α → Proc α
  | some a => ret a
  | none => fault .null

/-- Go on with a value, unless what computes it is undefined behaviour. -/
def defined {α : Type} (e : Fault) : Option α → Proc α
  | some a => ret a
  | none => fault e

/-- Format a statement into `char[size]`. -/
def sprintf (size : ℕ) (s : Stmt) : Proc Stmt :=
  if s.text.length < size then ret s else fault .overrun

/-- Copy a text into a field of `size` bytes. -/
def memcpyField (size : ℕ) (text : Bytes) : Proc Bytes := do
  ask (.memcpy size text)
  if text.length ≤ size then ret text else fault .overrun

theorem memcpyField_of_le {size : ℕ} {text : Bytes} (h : text.length ≤ size) :
    memcpyField size text = ask (.memcpy size text) >>= fun _ => ret text := by
  rw [memcpyField, if_pos h]

/-- `GetInt`. -/
def getInt (row : Row) (key : Col) : Proc ℤ :=
  match row.get key with
  | none => ret 0
  | some .null => fault .null
  | some (.int n) => ret n
  | some (.text s) => ret (atoi s)

end Proc

/-- `GetString` : a pointer to the value. -/
def Row.getString (row : Row) (key : Col) : Option Bytes :=
  match row.get key with
  | none => none
  | some .null => none
  | some (.int n) => some (decimal n)
  | some (.text s) => some s

/-- The number that `GetInt` reads, none at a null. -/
def Row.int? (row : Row) (key : Col) : Option ℤ :=
  match row.get key with
  | none => some 0
  | some .null => none
  | some (.int n) => some n
  | some (.text s) => some (atoi s)

theorem Proc.getInt_eq (row : Row) (key : Col) : getInt row key = defined .null (row.int? key) := by
  rw [getInt, Row.int?]
  rcases row.get key with _ | (_ | n | s) <;> rfl

/-- The `string` made from what `GetString` returns. -/
def Proc.getText (row : Row) (key : Col) : Proc Bytes := do
  let s ← deref (row.getString key)
  return s.takeWhile (· ≠ 0)

end WzxServer
