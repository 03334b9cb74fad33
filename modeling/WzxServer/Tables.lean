import WzxServer.Sql
import WzxServer.Db

/-!
# The tables, and what a statement does to them

The four tables of `wzxServer.sql`, row by row, with the next value of each
`AUTO_INCREMENT`. `Stmt.effect` is the meaning of a statement on them : its result set,
the number of rows it changed, the id it gave, and the tables after it. Rows come in the
order of the table.

Of MySQL itself two things stay open : which texts the collation of the columns holds
equal (`Collation`), and what a text does that is not read as it was meant (`MySQL`).

A text that is compared with a column goes through the collation, one that is stored does not. A
row counts as changed only when a column gets another value, as for MySQL's own
`mysql_affected_rows`. What a statement does that is sent as a text is `MySQL.exec` : its effect
where it is read as it was meant, and anything else where it is not.
-/

namespace WzxServer

/-- `user_table` -/
structure UserRow where
  id : ℤ
  classnum : Bytes
  account : Bytes
  password : Bytes
  islogin : ℤ
  ip : Bytes
  touxiang : Bytes
  image : Option Bytes
  width : Option ℤ
  height : Option ℤ
  image_type : Option ℤ
  image_length : Option ℤ
  deriving DecidableEq

/-- `relationShip_table` -/
structure RelationRow where
  id : ℤ
  smallId : ℤ
  bigId : ℤ
  status : ℤ
  created : ℤ
  updated : ℤ
  deriving DecidableEq

/-- `message_table` -/
structure MessageRow where
  id : ℤ
  relateId : ℤ
  fromId : ℤ
  toId : ℤ
  msgId : ℤ
  content : Bytes
  type : ℤ
  status : ℤ
  updated : ℤ
  created : ℤ
  deriving DecidableEq

/-- The columns that `addSession` writes; `wzxServer.sql` lacks `peerTouXiang`. -/
structure SessionRow where
  id : ℤ
  userId : ℤ
  peerId : ℤ
  type : ℤ
  status : ℤ
  created : ℤ
  updated : ℤ
  peerTouXiang : Bytes
  deriving DecidableEq

/-- The four tables in the order of their ids, and the counters of `AUTO_INCREMENT`. -/
structure Tables where
  users : List UserRow
  nextUser : ℤ
  relations : List RelationRow
  nextRelation : ℤ
  messages : List MessageRow
  nextMessage : ℤ
  sessions : List SessionRow
  nextSession : ℤ
  deriving DecidableEq

/-- The tables as `wzxServer.sql` makes them. -/
def Tables.empty : Tables :=
  ⟨[], 1, [], 1, [], 1, [], 1⟩

/-- What a statement gives : a result set if it has one, the number of rows that changed,
the id of the row inserted, and the tables after it. -/
structure Effect where
  rows : Option (List Row)
  affected : ℕ
  insertId : ℤ
  tables : Tables

/-- The equality of the text columns. -/
structure Collation where
  eq : Bytes → Bytes → Bool
  eq_refl : ∀ s, eq s s = true
  eq_symm : ∀ s t, eq s t = true → eq t s = true
  eq_trans : ∀ s t u, eq s t = true → eq t u = true → eq s u = true

/-- Texts are equal byte by byte. -/
def Collation.binary : Collation :=
  ⟨fun s t => s = t, by simp, by simp [eq_comm], by simp⟩

/-- A collation, and the effect of texts that are not read as they were meant. -/
structure MySQL extends Collation where
  foreign : Bytes → Tables → Effect

/-! ## Statements by kind -/

namespace Effect

/-- A query changes nothing. -/
def select (t : Tables) (rows : List Row) : Effect :=
  ⟨some rows, rows.length, 0, t⟩

/-- Rows count as affected when they change. -/
def changed {α : Type} [DecidableEq α] (f : α → α) (l : List α) : ℕ :=
  l.countP fun a => f a ≠ a

/-- An update of `user_table`. -/
def updateUsers (t : Tables) (f : UserRow → UserRow) : Effect :=
  ⟨none, changed f t.users, 0, { t with users := t.users.map f }⟩

/-- An update of `relationShip_table`. -/
def updateRelations (t : Tables) (f : RelationRow → RelationRow) : Effect :=
  ⟨none, changed f t.relations, 0, { t with relations := t.relations.map f }⟩

/-- An update of `recentSession_table`. -/
def updateSessions (t : Tables) (f : SessionRow → SessionRow) : Effect :=
  ⟨none, changed f t.sessions, 0, { t with sessions := t.sessions.map f }⟩

/-- An insertion takes the next id. -/
def insertUser (t : Tables) (row : ℤ → UserRow) : Effect :=
  ⟨none, 1, t.nextUser,
    { t with users := t.users ++ [row t.nextUser], nextUser := t.nextUser + 1 }⟩

/-- As for users. -/
def insertRelation (t : Tables) (row : ℤ → RelationRow) : Effect :=
  ⟨none, 1, t.nextRelation,
    { t with
      relations := t.relations ++ [row t.nextRelation], nextRelation := t.nextRelation + 1 }⟩

/-- As for users. -/
def insertMessage (t : Tables) (row : ℤ → MessageRow) : Effect :=
  ⟨none, 1, t.nextMessage,
    { t with messages := t.messages ++ [row t.nextMessage], nextMessage := t.nextMessage + 1 }⟩

/-- As for users. -/
def insertSession (t : Tables) (row : ℤ → SessionRow) : Effect :=
  ⟨none, 1, t.nextSession,
    { t with sessions := t.sessions ++ [row t.nextSession], nextSession := t.nextSession + 1 }⟩

end Effect

/-- A nullable number in a result set. -/
def Cell.ofInt? (n : Option ℤ) : Cell :=
  n.elim .null .int

/-- A nullable text in a result set. -/
def Cell.ofText? (s : Option Bytes) : Cell :=
  s.elim .null .text

/-- One of each class of equal texts, the first. -/
def distinct (eq : Bytes → Bytes → Bool) : List Bytes → List Bytes
  | [] => []
  | s :: l => s :: (distinct eq l).filter fun t => !eq s t

variable (e : Collation)

/-- `classnum = '…' and account = '…'`. -/
def UserRow.named (classnum account : Bytes) (r : UserRow) : Bool :=
  e.eq r.classnum classnum && e.eq r.account account

/-- `classnum = '…' and account = '…' and password = '…'`. -/
def UserRow.matches (classnum account password : Bytes) (r : UserRow) : Bool :=
  r.named e classnum account && e.eq r.password password

/-- The names of a user in a result set. -/
def UserRow.names (r : UserRow) : Row :=
  [(.classnum, .text r.classnum), (.account, .text r.account)]

/-- The columns that `detectOneFace` selects. -/
def UserRow.face (r : UserRow) : Row :=
  [(.image, .ofText? r.image), (.width, .ofInt? r.width), (.height, .ofInt? r.height),
    (.image_type, .ofInt? r.image_type), (.image_length, .ofInt? r.image_length)]

/-- A new row of `user_table`, with the defaults of the columns that are not given. -/
def UserRow.new (classnum account password touxiang : Bytes) (id : ℤ) : UserRow :=
  ⟨id, classnum, account, password, 0, ascii "0.0.0.0", touxiang, none, none, none, none, none⟩

/-- The columns that `add` sets. -/
def UserRow.setImage (p : ImageParams) (r : UserRow) : UserRow :=
  { r with
    image := some p.image, width := some p.cols, height := some p.rows
    image_type := some p.type, image_length := some p.length }

/-- The columns that `getMessage` selects. -/
def MessageRow.cells (r : MessageRow) : Row :=
  [(.fromId, .int r.fromId), (.toId, .int r.toId), (.content, .text r.content),
    (.type, .int r.type), (.status, .int r.status), (.updated, .int r.updated),
    (.created, .int r.created)]

/-- The columns that `getRecentSession` selects. -/
def SessionRow.cells (r : SessionRow) : Row :=
  [(.id, .int r.id), (.userId, .int r.userId), (.peerId, .int r.peerId), (.type, .int r.type),
    (.status, .int r.status), (.created, .int r.created), (.updated, .int r.updated),
    (.peerTouXiang, .text r.peerTouXiang)]

/-- A row whose only column is a number. -/
def idRow (id : ℤ) : Row :=
  [(.id, .int id)]

/-- The meaning of a statement that is read as it was meant. -/
def Stmt.effect (t : Tables) : Stmt → Effect
  | .loginUser c a p => .select t ((t.users.filter (·.matches e c a p)).map fun r =>
      r.names ++ [(.password, .text r.password)])
  | .isLogin c a => .select t ((t.users.filter (·.named e c a)).map fun r =>
      [(.islogin, .int r.islogin)])
  | .loginOnline ip c a => .updateUsers t fun r =>
      if r.named e c a then { r with ip := ip, islogin := 1 } else r
  | .loginOffline c a => .updateUsers t fun r =>
      if r.named e c a then { r with islogin := 0 } else r
  | .getUserId c a => .select t ((t.users.filter (·.named e c a)).map fun r => idRow r.id)
  | .getUserFromId userId => .select t ((t.users.filter (·.id = userId)).map UserRow.names)
  | .getTouXiang c a | .GetTouXiang c a =>
    .select t ((t.users.filter (·.named e c a)).map fun r => [(.touxiang, .text r.touxiang)])
  | .userExist c a p => .select t ((t.users.filter (·.matches e c a p)).map UserRow.names)
  | .addUserInfo c a p touxiang => .insertUser t (UserRow.new c a p touxiang)
  | .changeTouXiang touxiangPath c a => .updateUsers t fun r =>
      if r.named e c a then { r with touxiang := touxiangPath } else r
  | .getRelationId small big => .select t
      ((t.relations.filter fun r => r.smallId = small ∧ r.bigId = big ∧ r.status = 0).map
        fun r => idRow r.id)
  | .addRelationSelect small big => .select t
      ((t.relations.filter fun r => r.smallId = small ∧ r.bigId = big).map fun r => idRow r.id)
  | .addRelationUpdate now id => .updateRelations t fun r =>
      if r.id = id then { r with status := 0, updated := now } else r
  | .addRelationInsert small big status now => .insertRelation t fun id =>
      ⟨id, small, big, status, now, now⟩
  | .updateRelation time id => .updateRelations t fun r =>
      if r.id = id then { r with updated := time } else r
  | .removeRelation now id => .updateRelations t fun r =>
      if r.id = id then { r with status := 1, updated := now } else r
  -- The third parameter is bound as an empty text, which the column takes as 0.
  | .inserMessage relateId fromId toId content type status now => .insertMessage t fun id =>
      ⟨id, relateId, fromId, toId, 0, content, type, status, now, now⟩
  | .getMessage relateId type nowTime lastTime => .select t
      ((t.messages.filter fun r =>
        r.relateId = relateId ∧ r.type = type ∧ r.updated ≤ nowTime ∧ lastTime < r.updated).map
          MessageRow.cells)
  | .getLastMsg relateId => .select t
      ((((t.messages.filter fun r => r.relateId = relateId ∧ r.status = 1).mergeSort fun r s =>
        s.created < r.created ∨ s.created = r.created ∧ s.id ≤ r.id).take 1).map fun r =>
          [(.type, .int r.type), (.content, .text r.content)])
  | .getRecentSession userId lastTime => .select t
      ((((t.sessions.filter fun r =>
        r.userId = userId ∧ r.status = 0 ∧ r.updated < lastTime).mergeSort fun r s =>
          s.updated ≤ r.updated).take 100).map SessionRow.cells)
  | .getSessionId userId peerId type isAll => .select t
      ((t.sessions.filter fun r =>
        r.userId = userId ∧ r.peerId = peerId ∧ r.type = type ∧ (isAll ∨ r.status = 0)).map
          fun r => idRow r.id)
  | .updateSession time id => .updateSessions t fun r =>
      if r.id = id then { r with updated := time } else r
  | .removeSession now id => .updateSessions t fun r =>
      if r.id = id then { r with status := 1, updated := now } else r
  | .addSessionUpdate peerTouXiang now id => .updateSessions t fun r =>
      if r.id = id then { r with status := 0, peerTouXiang := peerTouXiang, updated := now } else r
  | .addSessionInsert userId peerId type status now peerTouXiang => .insertSession t fun id =>
      ⟨id, userId, peerId, type, status, now, now, peerTouXiang⟩
  | .detectOneFace c a => .select t ((t.users.filter (·.named e c a)).map UserRow.face)
  | .addSelect c a => .select t ((t.users.filter (·.named e c a)).map UserRow.names)
  | .addUpdate c a p => .updateUsers t fun r => if r.named e c a then r.setImage p else r
  | .addInsert c a p => .insertUser t fun id => (UserRow.new c a [] [] id).setImage p
  | .groupGetlist => .select t ((distinct e.eq (t.users.map UserRow.classnum)).map fun c =>
      [(.classnum, .text c)])
  | .groupGetusers c => .select t ((t.users.filter fun r => e.eq r.classnum c).map fun r =>
      [(.account, .text r.account), (.touxiang, .text r.touxiang)])

/-- The effect of the text of a statement. -/
def MySQL.exec (M : MySQL) (s : Stmt) (t : Tables) : Effect :=
  if s.AsMeant then s.effect M.toCollation t else M.foreign s.text t

theorem MySQL.exec_of_not_inert {M : MySQL} {s : Stmt} (h : ¬s.Inert) (t : Tables) :
    M.exec s t = M.foreign s.text t :=
  if_neg fun h' => h ((asMeant_iff_inert s).1 h')

theorem MySQL.exec_of_inert {M : MySQL} {s : Stmt} (h : s.Inert) (t : Tables) :
    M.exec s t = s.effect M.toCollation t :=
  if_pos ((asMeant_iff_inert s).2 h)

/-- A statement with no text in it is always read as it was meant. -/
theorem MySQL.exec_of_plain {M : MySQL} {s : Stmt} (h : s.fields = []) (t : Tables) :
    M.exec s t = s.effect M.toCollation t :=
  exec_of_inert (by simp [Stmt.Inert, h]) t

end WzxServer
