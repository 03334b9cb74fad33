import WzxServer.World

/-!
# Null pointers

`GetDBConn` and `ExecuteQuery` answer with a null pointer when they fail, and a column of a row
may be null. Some functions look before they use what they got, others do not. An answer is
`Tolerated` where it is looked at, or there is nothing to look for. A request that gets only
tolerated answers never uses a null pointer, and one that gets another answer never comes to
its end (`guarded_spec`).

Whether an answer is tolerated depends on where the handler is : MESSAGE_HISTORY looks at its
connections in the model of the relations and not in that of the users. `Place` keeps as much of
this as matters, and `next` moves it along with the operations.

Both halves are proved at once. A watch goes with the handler, which is on as long as every
answer was tolerated. While it is on the handler goes on without a null, and once an answer puts
it out the rest of the program is `Fatal`, with no way to return. There is a rule of this kind
for every way of using an answer, then a lemma for each model and for each handler.
-/

namespace WzxServer

open Prog Proc

/-! ## What is looked at -/

/-- The result of the statement is used without a look. -/
def Stmt.unchecked : Stmt → Bool
  | .loginUser .. | .isLogin .. | .userExist .. | .detectOneFace .. | .addSelect ..
  | .groupGetlist | .groupGetusers .. => true
  | _ => false

/-- The columns can be read as numbers. -/
def Row.Ints (row : Row) (keys : List Col) : Prop :=
  ∀ key ∈ keys, row.int? key ≠ none

/-- The columns can be read as texts. -/
def Row.Texts (row : Row) (keys : List Col) : Prop :=
  ∀ key ∈ keys, row.getString key ≠ none

/-- `detectOneFace` can read the rows up to the one it stops at. -/
def FacesFine (v : Vision) (detectSrc : Mat) : List Row → Prop
  | [] => True
  | row :: rows => row.Ints [.width, .height, .image_type, .image_length] ∧
    row.Texts [.image] ∧
      ∀ width height image_type image, row.int? .width = some width →
        row.int? .height = some height → row.int? .image_type = some image_type →
        row.getString .image = some image →
        let res := v.compareImage detectSrc (Mat.make height width image_type image)
        8 / 10 < res ∨ res = 0 ∨ FacesFine v detectSrc rows

/-- The columns that are used without a look are not null, in the rows that are read. -/
def RowsFine (v : Vision) (request : Request) (s : Stmt) (rows : List Row) : Prop :=
  match s, request with
  | .isLogin .., _ => ∀ row ∈ rows.head?, row.Ints [.islogin]
  | .getUserId .., _ | .addRelationSelect .., _ => ∀ row ∈ rows.head?, row.Ints [.id]
  | .getUserFromId .., _ => ∀ row ∈ rows.head?, row.Texts [.classnum, .account]
  | .getTouXiang .., _ => ∀ row ∈ rows.head?, row.Texts [.touxiang]
  | .getRelationId .., _ | .getSessionId .., _ => ∀ row ∈ rows, row.Ints [.id]
  | .getMessage .., _ => ∀ row ∈ rows, row.Ints [.fromId, .toId, .created] ∧ row.Texts [.content]
  | .getLastMsg .., _ => ∀ row ∈ rows, row.Ints [.type] ∧ row.Texts [.content]
  | .getRecentSession .., _ => ∀ row ∈ rows, row.Ints [.updated, .peerId]
  | .groupGetlist, _ => ∀ row ∈ rows, row.Texts [.classnum]
  | .groupGetusers .., _ => ∀ row ∈ rows, row.Texts [.account, .touxiang]
  | .detectOneFace .., .detect d => FacesFine v (v.reread d.image) rows
  | _, _ => True

/-- How far a handler has come : how many users it looked up, whether it reads the messages of
a history, and whether it has copied the avatar of a session and not released a connection
since. -/
structure Place where
  users : ℕ
  messages : Bool
  avatar : Bool

namespace Place

/-- Before the first operation. -/
def start : Place :=
  ⟨0, false, false⟩

/-- How far the handler is after an operation. -/
def next (pl : Place) : Op → Place
  | .executeQuery _ (.getUserId ..) => { pl with users := pl.users + 1 }
  | .executeQuery _ (.getMessage ..) => { pl with messages := true }
  | .memcpy size _ => { pl with avatar := pl.avatar || size == 50 }
  | .relDBConn _ => { pl with avatar := false }
  | _ => pl

end Place

/-- The next connection is looked at before it is used. Only the relation, message and session
models look, and these call `getUserFromId`, which does not. -/
def Request.looks (pl : Place) : Request → Bool
  | .messageCreate _ | .messageSend _ => 2 ≤ pl.users
  | .messageHistory _ => 2 ≤ pl.users && !pl.messages
  | .recentSession _ _ _ => 1 ≤ pl.users && !pl.avatar
  | _ => false

/-- The handler can go on with the answer. -/
def Tolerated (v : Vision) (request : Request) (pl : Place) : (o : Op) → o.Ans → Prop
  | .getDBConn _, none => request.looks pl = true
  | .executeQuery _ s, none => s.unchecked = false
  | .executeQuery _ s, some rows => RowsFine v request s rows
  | _, _ => True

/-- Every answer is tolerated. -/
def Guarded (v : Vision) (request : Request) : Place → List (Exchange Db) → Prop
  | _, [] => True
  | pl, ⟨o, r⟩ :: t => Tolerated v request pl o r ∧ Guarded v request (pl.next o) t

/-! ## A watch over the answers -/

namespace NullWatch

section Watch

variable {v : Vision} {q : Request} {pl : Place} {α β : Type}

open Classical in
/-- The monitor that follows the place until an answer is not tolerated. After that every fault
is excused, before it a null pointer is not. -/
@[reducible] noncomputable def nullWatch (v : Vision) (q : Request) : Monitor Db where
  State := Option Place
  allowed _ _ := True
  admits _ _ _ := True
  next s o r := s.bind fun pl => if Tolerated v q pl o r then some (pl.next o) else none
  excuses s e := s = none ∨ e ≠ .null

/-- After answers that are all tolerated, the watch is still on, and only then. -/
theorem after_nullWatch {t : List (Exchange Db)} :
    (nullWatch v q).after (some pl) t ≠ none ↔ Guarded v q pl t := by
  have hnone : ∀ t : List (Exchange Db), (nullWatch v q).after none t = none := by
    intro t
    induction t with
    | nil => rfl
    | cons e t ih => exact ih
  induction t generalizing pl with
  | nil => simp [Monitor.after, Guarded]
  | cons e t ih =>
    obtain ⟨o, r⟩ := e
    by_cases hT : Tolerated v q pl o r
    · have hnext : (nullWatch v q).next (some pl) o r = some (pl.next o) := by
        simp [nullWatch, hT]
      rw [Monitor.after, hnext]
      exact ⟨fun h => ⟨hT, ih.1 h⟩, fun h => ih.2 h.2⟩
    · have hnext : (nullWatch v q).next (some pl) o r = none := by
        simp [nullWatch, hT]
      rw [Monitor.after, hnext, hnone]
      exact ⟨fun h => absurd rfl h, fun h => absurd h.1 hT⟩

/-- Nothing matters any more once the watch is off. -/
theorem obeys_none (p : Proc α) : Obeys (nullWatch v q) p none fun _ s => s = none := by
  induction p with
  | ret a => rfl
  | call o k ih => exact ⟨trivial, fun r _ => ih r⟩
  | fault e => exact Or.inl rfl

variable (v q) in
/-- `p` does not return. -/
def Fatal (p : Proc α) : Prop :=
  Obeys (nullWatch v q) p none fun _ _ => False

theorem fatal_fault (e : Fault) : Fatal v q (fault e : Proc α) :=
  Or.inl rfl

theorem Fatal.bind {p : Proc α} (hp : Fatal v q p) (f : α → Proc β) : Fatal v q (p >>= f) :=
  Obeys.bind hp fun _ _ h => h.elim

/-- What follows a part that may return does not. -/
theorem fatal_bind (p : Proc α) {f : α → Proc β} (hf : ∀ a, Fatal v q (f a)) :
    Fatal v q (p >>= f) := by
  refine (obeys_none p).bind ?_
  rintro a _ rfl
  exact hf a

/-- A loop comes to a body that does not return. -/
theorem fatal_forEach {f : α → Proc β} : ∀ {l : List α}, (∃ a ∈ l, Fatal v q (f a)) →
    Fatal v q (forEach f l)
  | [], h => absurd h (by simp)
  | a :: l, h => by
    rw [forEach]
    obtain ⟨b, hb, hfatal⟩ := h
    rcases List.mem_cons.mp hb with rfl | hb
    · exact hfatal.bind _
    · exact fatal_bind _ fun _ => (fatal_forEach ⟨b, hb, hfatal⟩).bind _

theorem fatal_getInt {row : Row} {key : Col} (h : row.int? key = none) :
    Fatal v q (getInt row key) := by
  rw [getInt_eq, h]
  exact fatal_fault _

theorem fatal_getText {row : Row} {key : Col} (h : row.getString key = none) :
    Fatal v q (getText row key) := by
  rw [getText, h]
  exact fatal_fault _

variable {R : β → Option Place → Prop}

/-- Ask, and go on with an answer that is tolerated, or do not return. -/
theorem obeys_ask_bind {o : Op} {f : o.Ans → Proc β}
    (h : ∀ r, Tolerated v q pl o r → Obeys (nullWatch v q) (f r) (some (pl.next o)) R)
    (hf : ∀ r, ¬Tolerated v q pl o r → Fatal v q (f r)) :
    Obeys (nullWatch v q) (ask o >>= f) (some pl) R := by
  refine ⟨trivial, fun r _ => ?_⟩
  by_cases hT : Tolerated v q pl o r
  · have hnext : (nullWatch v q).next (some pl) o r = some (pl.next o) := by
      simp [nullWatch, hT]
    rw [hnext]
    exact h r hT
  · have hnext : (nullWatch v q).next (some pl) o r = none := by
      simp [nullWatch, hT]
    rw [hnext]
    exact (hf r hT).mono fun _ _ hfalse => hfalse.elim

/-- Ask for something of which every answer is tolerated. -/
theorem obeys_plain_bind {o : Op} {f : o.Ans → Proc β} (hT : ∀ r, Tolerated v q pl o r)
    (h : ∀ r, Obeys (nullWatch v q) (f r) (some (pl.next o)) R) :
    Obeys (nullWatch v q) (ask o >>= f) (some pl) R :=
  obeys_ask_bind (fun r _ => h r) fun r hr => absurd (hT r) hr

theorem obeys_getInt {row : Row} {key : Col} (h : row.int? key ≠ none) :
    Obeys (nullWatch v q) (getInt row key) (some pl) fun n s =>
      row.int? key = some n ∧ s = some pl := by
  obtain ⟨n, hn⟩ := Option.ne_none_iff_exists'.mp h
  rw [getInt_eq, hn]
  exact ⟨rfl, rfl⟩

theorem obeys_getText {row : Row} {key : Col} (h : row.getString key ≠ none) :
    Obeys (nullWatch v q) (getText row key) (some pl) fun _ s => s = some pl := by
  obtain ⟨text, ht⟩ := Option.ne_none_iff_exists'.mp h
  rw [getText, ht]
  rfl

theorem obeys_sprintf_bind {size : ℕ} {s : Stmt} {f : Stmt → Proc β}
    (h : Obeys (nullWatch v q) (f s) (some pl) R) :
    Obeys (nullWatch v q) (sprintf size s >>= f) (some pl) R := by
  rw [sprintf]
  split_ifs
  · exact h
  · exact Or.inr (by decide)

theorem obeys_memcpyField {size : ℕ} {text : Bytes} :
    Obeys (nullWatch v q) (memcpyField size text) (some pl) fun _ s =>
      s = some (pl.next (.memcpy size text)) := by
  refine obeys_plain_bind (fun _ => trivial) fun _ => ?_
  split_ifs
  · rfl
  · exact Or.inr (by decide)

/-- A query on a connection that is not looked at. -/
theorem obeys_openQuery_bind {size : ℕ} {s : Stmt} {f : Conn × Option (List Row) → Proc β}
    (hlooks : q.looks pl = false)
    (h : ∀ c res, Tolerated v q pl (.executeQuery c s) res →
      Obeys (nullWatch v q) (f (c, res)) (some (pl.next (.executeQuery c s))) R)
    (hf : ∀ c res, ¬Tolerated v q pl (.executeQuery c s) res → Fatal v q (f (c, res))) :
    Obeys (nullWatch v q) (openQuery size s >>= f) (some pl) R := by
  rw [openQuery]
  simp only [bind_assoc]
  refine obeys_ask_bind (fun r hr => ?_) fun r hr => ?_
  · rcases r with _ | c
    · exact absurd (hlooks.symm.trans hr) (by simp)
    · refine obeys_sprintf_bind ?_
      exact obeys_ask_bind (fun res hres => h c res hres) fun res hres => hf c res hres
  · rcases r with _ | c
    · exact fatal_bind _ fun _ => fatal_fault _
    · exact absurd trivial hr

theorem not_forall_mem {p : α → Prop} {l : List α} (h : ¬∀ a ∈ l, p a) : ∃ a ∈ l, ¬p a := by
  simpa using h

/-- The connection goes back. -/
theorem obeys_release (c : Conn) (a : α) :
    Obeys (nullWatch v q) (ask (.relDBConn c) >>= fun _ => ret a) (some pl) fun b s =>
      b = a ∧ s = some { pl with avatar := false } :=
  obeys_plain_bind (fun _ => trivial) fun _ => ⟨rfl, rfl⟩

/-- What every row allows, the loop does. -/
theorem obeys_forEach {f : α → Proc β} {l : List α}
    (h : ∀ a ∈ l, Obeys (nullWatch v q) (f a) (some pl) fun _ s => s = some pl) :
    Obeys (nullWatch v q) (forEach f l) (some pl) fun _ s => s = some pl := by
  refine Obeys.forEach (M := nullWatch v q) (I := fun s => s = some pl) ?_ rfl
  rintro a ha _ rfl
  exact h a ha

/-! ## CUserModel -/

theorem obeys_getUserId {classnum account : Bytes} (hlooks : q.looks pl = false) :
    Obeys (nullWatch v q) (CUserModel.getUserId classnum account) (some pl) fun _ s =>
      s = some ⟨pl.users + 1, pl.messages, false⟩ := by
  rw [CUserModel.getUserId]
  refine obeys_openQuery_bind hlooks (fun c res hres => ?_) fun c res hres => ?_
  · rcases res with _ | (_ | ⟨row, rows⟩)
    · exact (obeys_release _ _).mono fun _ _ h => h.2
    · exact (obeys_release _ _).mono fun _ _ h => h.2
    · refine (obeys_getInt (hres row rfl .id (by simp))).bind ?_
      rintro n _ ⟨-, rfl⟩
      exact (obeys_release _ _).mono fun _ _ h => h.2
  · rcases res with _ | (_ | ⟨row, rows⟩)
    · exact absurd rfl hres
    · exact absurd (by simp [Tolerated, RowsFine]) hres
    · refine (fatal_getInt ?_).bind _
      simpa [Tolerated, RowsFine, Row.Ints] using hres

theorem obeys_getUserFromId {userId : ℤ} (hlooks : q.looks pl = false) :
    Obeys (nullWatch v q) (CUserModel.getUserFromId userId) (some pl) fun _ s =>
      s = some { pl with avatar := false } := by
  rw [CUserModel.getUserFromId]
  refine obeys_openQuery_bind hlooks (fun c res hres => ?_) fun c res hres => ?_
  · rcases res with _ | (_ | ⟨row, rows⟩)
    · exact (obeys_release _ _).mono fun _ _ h => h.2
    · exact (obeys_release _ _).mono fun _ _ h => h.2
    · refine (obeys_getText (hres row rfl .classnum (by simp))).bind ?_
      rintro classNum _ rfl
      refine (obeys_getText (hres row rfl .account (by simp))).bind ?_
      rintro account _ rfl
      exact (obeys_release _ _).mono fun _ _ h => h.2
  · rcases res with _ | (_ | ⟨row, rows⟩)
    · exact absurd rfl hres
    · exact absurd (by simp [Tolerated, RowsFine]) hres
    · have htexts : row.getString .classnum = none ∨ row.getString .account = none := by
        by_contra hnot
        exact hres (by simpa [Tolerated, RowsFine, Row.Texts] using hnot)
      rcases htexts with h | h
      · exact (fatal_getText h).bind _
      · exact fatal_bind _ fun _ => (fatal_getText h).bind _

theorem obeys_getTouXiang {classnum account : Bytes} (hlooks : q.looks pl = false) :
    Obeys (nullWatch v q) (CUserModel.getTouXiang classnum account) (some pl) fun _ s =>
      s = some { pl with avatar := false } := by
  rw [CUserModel.getTouXiang]
  refine obeys_openQuery_bind hlooks (fun c res hres => ?_) fun c res hres => ?_
  · rcases res with _ | (_ | ⟨row, rows⟩)
    · exact (obeys_release _ _).mono fun _ _ h => h.2
    · exact (obeys_release _ _).mono fun _ _ h => h.2
    · refine (obeys_getText (hres row rfl .touxiang (by simp))).bind ?_
      rintro touxiang _ rfl
      exact (obeys_release _ _).mono fun _ _ h => h.2
  · rcases res with _ | (_ | ⟨row, rows⟩)
    · exact absurd rfl hres
    · exact absurd (by simp [Tolerated, RowsFine]) hres
    · refine (fatal_getText ?_).bind _
      simpa [Tolerated, RowsFine, Row.Texts] using hres

theorem obeys_userExist {classnum account password : Bytes} (hlooks : q.looks pl = false) :
    Obeys (nullWatch v q) (CUserModel.userExist classnum account password) (some pl) fun _ s =>
      s = some { pl with avatar := false } := by
  rw [CUserModel.userExist]
  refine obeys_openQuery_bind hlooks (fun c res hres => ?_) fun c res hres => ?_
  · rcases res with _ | rows
    · exact absurd hres (by simp [Tolerated, Stmt.unchecked])
    · exact (obeys_release _ _).mono fun _ _ h => h.2
  · rcases res with _ | rows
    · exact fatal_fault _
    · exact absurd (by simp [Tolerated, RowsFine]) hres

/-- A statement of which every result is tolerated, and dropped. -/
theorem obeys_openQuery_drop {size : ℕ} {s : Stmt} (hlooks : q.looks pl = false)
    (hT : ∀ c res, Tolerated v q pl (.executeQuery c s) res)
    (hnext : ∀ c, pl.next (.executeQuery c s) = pl) :
    Obeys (nullWatch v q) (openQuery size s >>= fun r => ask (.relDBConn r.1)) (some pl)
      fun _ s => s = some { pl with avatar := false } := by
  refine obeys_openQuery_bind hlooks (fun c res _ => ?_) fun c res hres => absurd (hT c res) hres
  rw [hnext]
  exact obeys_plain_bind (o := .relDBConn c) (f := ret) (fun _ => trivial) fun _ => rfl

/-! ## The models that look -/

/-- A connection that is looked at. -/
theorem obeys_getDBConn_bind {n : ℕ} {f : Option Conn → Proc β} (hlooks : q.looks pl = true)
    (h : ∀ conn, Obeys (nullWatch v q) (f conn) (some pl) R) :
    Obeys (nullWatch v q) (ask (.getDBConn n) >>= f) (some pl) R := by
  refine obeys_plain_bind (fun conn => ?_) h
  rcases conn with _ | c
  · exact hlooks
  · exact trivial

/-- A query whose result is looked at, and whose rows are read. -/
theorem obeys_executeQuery_bind {c : Conn} {s : Stmt} {f : Option (List Row) → Proc β}
    (hchecked : s.unchecked = false)
    (hnone : Obeys (nullWatch v q) (f none) (some (pl.next (.executeQuery c s))) R)
    (h : ∀ rows, RowsFine v q s rows →
      Obeys (nullWatch v q) (f (some rows)) (some (pl.next (.executeQuery c s))) R)
    (hf : ∀ rows, ¬RowsFine v q s rows → Fatal v q (f (some rows))) :
    Obeys (nullWatch v q) (ask (.executeQuery c s) >>= f) (some pl) R := by
  refine obeys_ask_bind (fun res hres => ?_) fun res hres => ?_
  · rcases res with _ | rows
    · exact hnone
    · exact h rows hres
  · rcases res with _ | rows
    · exact absurd hchecked hres
    · exact hf rows hres

theorem obeys_lastId {rows : List Row} (h : ∀ row ∈ rows, row.Ints [.id]) :
    Obeys (nullWatch v q) (lastId (some rows)) (some pl) fun _ s => s = some pl := by
  refine (obeys_forEach fun row hrow => ?_).bind ?_
  · exact (obeys_getInt (h row hrow .id (by simp))).mono fun _ _ h => h.2
  · rintro ids _ rfl
    rfl

theorem fatal_lastId {rows : List Row} (h : ¬∀ row ∈ rows, row.Ints [.id]) :
    Fatal v q (lastId (some rows)) := by
  refine (fatal_forEach ?_).bind _
  simp only [Row.Ints, List.mem_singleton, forall_eq, not_forall, not_not] at h
  obtain ⟨row, hrow, hid⟩ := h
  exact ⟨row, hrow, fatal_getInt hid⟩

theorem obeys_insertPrepared (c : Conn) (s : Stmt) :
    Obeys (nullWatch v q) (insertPrepared c s) (some pl) fun _ st => st = some pl := by
  refine obeys_plain_bind (fun _ => trivial) fun prepared => ?_
  cases prepared
  · rfl
  · refine obeys_plain_bind (fun _ => trivial) fun executed => ?_
    cases executed
    · rfl
    · exact obeys_plain_bind (f := ret) (fun _ => trivial) fun _ => rfl

/-- The avatar of a session is copied. -/
theorem next_memcpy_avatar (text : Bytes) :
    pl.next (.memcpy 50 text) = { pl with avatar := true } := by
  simp [Place.next]

/-- A copy into another field. -/
theorem obeys_memcpyField_steady {size : ℕ} {text : Bytes} (havatar : pl.avatar = false)
    (hsize : size ≠ 50) :
    Obeys (nullWatch v q) (memcpyField size text) (some pl) fun _ s => s = some pl := by
  have hnext : pl.next (.memcpy size text) = pl := by
    cases pl
    simp_all [Place.next]
  exact obeys_memcpyField.mono fun _ _ h => hnext ▸ h

section Steady

variable (hlooks : q.looks pl = true) (havatar : pl.avatar = false)

include havatar in
/-- Where no avatar was copied, a release makes no difference. -/
theorem next_relDBConn (c : Conn) : pl.next (.relDBConn c) = pl := by
  cases pl
  simp_all [Place.next]

include havatar in
theorem obeys_release_steady (c : Conn) (a : α) :
    Obeys (nullWatch v q) (ask (.relDBConn c) >>= fun _ => ret a) (some pl) fun _ s =>
      s = some pl :=
  obeys_plain_bind (fun _ => trivial) fun _ => congrArg some (next_relDBConn havatar c)

include hlooks havatar

theorem obeys_updateOnce (s : Stmt) :
    Obeys (nullWatch v q) (updateOnce s) (some pl) fun _ st => st = some pl := by
  refine obeys_getDBConn_bind hlooks fun conn => ?_
  rcases conn with _ | c
  · rfl
  · exact obeys_plain_bind (fun _ => trivial) fun _ => obeys_release_steady havatar c _

theorem obeys_addRelation (i j : ℤ) :
    Obeys (nullWatch v q) (CRelationModel.addRelation i j) (some pl) fun _ s => s = some pl := by
  refine obeys_getDBConn_bind hlooks fun conn => ?_
  rcases conn with _ | c
  · rfl
  · have hinsert : ∀ now, Obeys (nullWatch v q) (insertPrepared c
        (.addRelationInsert i j 0 now) >>= fun n => ask (.relDBConn c) >>= fun _ => ret n)
        (some pl) fun _ s => s = some pl := by
      intro now
      refine (obeys_insertPrepared c _).bind ?_
      rintro n _ rfl
      exact obeys_release_steady havatar c n
    refine obeys_plain_bind (fun _ => trivial) fun now => ?_
    refine obeys_executeQuery_bind rfl (hinsert now) (fun rows hrows => ?_) fun rows hrows => ?_
    · rcases rows with _ | ⟨row, rows⟩
      · exact hinsert now
      · refine (obeys_getInt (hrows row rfl .id (by simp))).bind ?_
        rintro n _ ⟨-, rfl⟩
        exact obeys_plain_bind (fun _ => trivial) fun _ => obeys_release_steady havatar c _
    · rcases rows with _ | ⟨row, rows⟩
      · exact absurd (by simp [RowsFine]) hrows
      · refine (fatal_getInt ?_).bind _
        simpa [RowsFine, Row.Ints] using hrows

theorem obeys_getRelationId (i j : ℤ) (bAdd : Bool) :
    Obeys (nullWatch v q) (CRelationModel.getRelationId i j bAdd) (some pl) fun _ s =>
      s = some pl := by
  rw [CRelationModel.getRelationId]
  by_cases h0 : i = 0 ∨ j = 0
  · rw [if_pos h0]
    rfl
  · rw [if_neg h0]
    generalize (if i > j then i else j) = big
    generalize (if i > j then j else i) = small
    refine obeys_getDBConn_bind hlooks fun conn => ?_
    rcases conn with _ | c
    · rfl
    · have hrest : ∀ n, Obeys (nullWatch v q) (ask (.relDBConn c) >>= fun _ =>
          if n = -1 ∧ bAdd = true then CRelationModel.addRelation small big else ret n)
          (some pl) fun _ s => s = some pl := by
        refine fun n => obeys_plain_bind (fun _ => trivial) fun _ => ?_
        rw [next_relDBConn havatar]
        by_cases hadd : n = -1 ∧ bAdd = true
        · rw [if_pos hadd]
          exact obeys_addRelation hlooks havatar small big
        · rw [if_neg hadd]
          rfl
      refine obeys_executeQuery_bind rfl (hrest (-1)) (fun rows hrows => ?_) fun rows hrows =>
        (fatal_lastId hrows).bind _
      refine (obeys_lastId hrows).bind ?_
      rintro n _ rfl
      exact hrest n

theorem obeys_getSessionId (i j nType : ℤ) (isAll : Bool) :
    Obeys (nullWatch v q) (CSessionModel.getSessionId i j nType isAll) (some pl) fun _ s =>
      s = some pl := by
  refine obeys_getDBConn_bind hlooks fun conn => ?_
  rcases conn with _ | c
  · rfl
  · refine obeys_executeQuery_bind rfl (obeys_release_steady havatar c _) (fun rows hrows => ?_)
      fun rows hrows => (fatal_lastId hrows).bind _
    refine (obeys_lastId hrows).bind ?_
    rintro n _ rfl
    exact obeys_release_steady havatar c n

theorem obeys_addSession (i j nType : ℤ) (peerTouXiang : Bytes) :
    Obeys (nullWatch v q) (CSessionModel.addSession i j nType peerTouXiang) (some pl) fun _ s =>
      s = some pl := by
  refine (obeys_getSessionId hlooks havatar i j nType true).bind ?_
  rintro n _ rfl
  refine obeys_plain_bind (fun _ => trivial) fun now => ?_
  refine obeys_getDBConn_bind hlooks fun conn => ?_
  rcases conn with _ | c
  · rfl
  · dsimp only
    by_cases hn : n ≠ -1
    · rw [if_pos hn]
      refine obeys_sprintf_bind ?_
      exact obeys_plain_bind (fun _ => trivial) fun _ => obeys_release_steady havatar c _
    · rw [if_neg hn]
      refine (obeys_insertPrepared c _).bind ?_
      rintro n _ rfl
      exact obeys_release_steady havatar c n

theorem obeys_inserMessage (relateId fromId toId : ℤ) (content : Bytes) (type status : ℤ) :
    Obeys (nullWatch v q) (CMessageModel.inserMessage relateId fromId toId content type status)
      (some pl) fun _ s => s = some pl := by
  refine obeys_getDBConn_bind hlooks fun conn => ?_
  rcases conn with _ | c
  · rfl
  · refine obeys_plain_bind (fun _ => trivial) fun prepared => ?_
    cases prepared
    · exact obeys_release_steady havatar c _
    · refine obeys_plain_bind (fun _ => trivial) fun now => ?_
      refine obeys_plain_bind (fun _ => trivial) fun executed => ?_
      cases executed
      · exact obeys_release_steady havatar c _
      · exact obeys_plain_bind (fun _ => trivial) fun _ => obeys_release_steady havatar c _

theorem obeys_getLastMsg (i j : ℤ) :
    Obeys (nullWatch v q) (CMessageModel.getLastMsg i j) (some pl) fun _ s => s = some pl := by
  refine (obeys_getRelationId hlooks havatar i j false).bind ?_
  rintro n _ rfl
  split_ifs
  · rfl
  · refine obeys_getDBConn_bind hlooks fun conn => ?_
    rcases conn with _ | c
    · rfl
    · refine obeys_executeQuery_bind rfl (obeys_release_steady havatar c _) (fun rows hrows => ?_)
        fun rows hrows => ?_
      · refine (obeys_forEach fun row hrow => ?_).bind ?_
        · refine (obeys_getInt ((hrows row hrow).1 .type (by simp))).bind ?_
          rintro nMsgType _ ⟨-, rfl⟩
          refine (obeys_getText ((hrows row hrow).2 .content (by simp))).bind ?_
          rintro strMsgData _ rfl
          rfl
        · rintro msgs _ rfl
          exact obeys_release_steady havatar c _
      · refine (fatal_forEach ?_).bind _
        obtain ⟨row, hrow, hbad⟩ := not_forall_mem hrows
        refine ⟨row, hrow, ?_⟩
        rcases not_and_or.mp hbad with hints | htexts
        · obtain ⟨key, hkey, hnull⟩ := not_forall_mem hints
          obtain rfl := List.mem_singleton.mp hkey
          exact (fatal_getInt (not_not.mp hnull)).bind _
        · obtain ⟨key, hkey, hnull⟩ := not_forall_mem htexts
          obtain rfl := List.mem_singleton.mp hkey
          exact fatal_bind _ fun _ => (fatal_getText (not_not.mp hnull)).bind _

theorem obeys_sessionOf (hinner : q.looks { pl with avatar := true } = false) {row : Row}
    (hrow : row.Ints [.updated, .peerId]) (nUserId : ℤ) :
    Obeys (nullWatch v q) (CSessionModel.sessionOf nUserId row) (some pl) fun _ s =>
      s = some pl := by
  have hback : ({ pl with avatar := false } : Place) = pl := by
    rw [← havatar]
  refine (obeys_getInt (hrow .updated (by simp))).bind ?_
  rintro updated _ ⟨-, rfl⟩
  refine obeys_memcpyField.bind ?_
  rintro touxiang _ rfl
  rw [next_memcpy_avatar]
  refine (obeys_getInt (hrow .peerId (by simp))).bind ?_
  rintro peerId _ ⟨-, rfl⟩
  refine (obeys_getUserFromId hinner).bind ?_
  rintro peer _ rfl
  rw [hback]
  refine (obeys_getLastMsg hlooks havatar nUserId peerId).bind ?_
  rintro ⟨lastMsg, _⟩ _ rfl
  refine (obeys_memcpyField_steady havatar (by decide)).bind ?_
  rintro lastMessage _ rfl
  refine (obeys_memcpyField_steady havatar (by decide)).bind ?_
  rintro classNum _ rfl
  refine (obeys_memcpyField_steady havatar (by decide)).bind ?_
  rintro account _ rfl
  rfl

theorem obeys_getRecentSession (hinner : q.looks { pl with avatar := true } = false)
    (nUserId lastTime : ℤ) :
    Obeys (nullWatch v q) (CSessionModel.getRecentSession nUserId lastTime) (some pl) fun _ s =>
      s = some pl := by
  refine obeys_getDBConn_bind hlooks fun conn => ?_
  rcases conn with _ | c
  · rfl
  · refine obeys_executeQuery_bind rfl (obeys_release_steady havatar c _) (fun rows hrows => ?_)
      fun rows hrows => ?_
    · refine (obeys_forEach fun row hrow =>
        obeys_sessionOf hlooks havatar hinner (hrows row hrow) nUserId).bind ?_
      rintro sessions _ rfl
      exact obeys_release_steady havatar c _
    · refine (fatal_forEach ?_).bind _
      obtain ⟨row, hrow, hbad⟩ := not_forall_mem hrows
      obtain ⟨key, hkey, hnull⟩ := not_forall_mem hbad
      refine ⟨row, hrow, ?_⟩
      rw [List.mem_cons, List.mem_singleton] at hkey
      rcases hkey with rfl | rfl
      · exact (fatal_getInt (not_not.mp hnull)).bind _
      · exact fatal_bind _ fun _ => fatal_bind _ fun _ =>
          (fatal_getInt (not_not.mp hnull)).bind _

end Steady

/-! ## Messages -/

section Messages

variable (hlooks : q.looks pl = false) (havatar : pl.avatar = false)

include hlooks havatar

theorem obeys_messageOf {res : Row} (hints : res.Ints [.fromId, .toId, .created])
    (htexts : res.Texts [.content]) :
    Obeys (nullWatch v q) (CMessageModel.messageOf res) (some pl) fun _ s => s = some pl := by
  have hback : ({ pl with avatar := false } : Place) = pl := by
    rw [← havatar]
  refine (obeys_getText (htexts .content (by simp))).bind ?_
  rintro content _ rfl
  refine (obeys_getInt (hints .fromId (by simp))).bind ?_
  rintro fromId _ ⟨-, rfl⟩
  refine (obeys_getUserFromId hlooks).bind ?_
  rintro sender _ rfl
  rw [hback]
  refine (obeys_getInt (hints .toId (by simp))).bind ?_
  rintro toId _ ⟨-, rfl⟩
  refine (obeys_getUserFromId hlooks).bind ?_
  rintro receiver _ rfl
  rw [hback]
  refine (obeys_memcpyField_steady havatar (by decide)).bind ?_
  rintro fromClassNum _ rfl
  refine (obeys_memcpyField_steady havatar (by decide)).bind ?_
  rintro fromAccount _ rfl
  refine (obeys_memcpyField_steady havatar (by decide)).bind ?_
  rintro toClassNum _ rfl
  refine (obeys_memcpyField_steady havatar (by decide)).bind ?_
  rintro toAccount _ rfl
  refine (obeys_memcpyField_steady havatar (by decide)).bind ?_
  rintro messageContent _ rfl
  refine (obeys_getInt (hints .created (by simp))).bind ?_
  rintro updatetime _ ⟨-, rfl⟩
  rfl

end Messages

theorem fatal_messageOf {res : Row}
    (h : ¬(res.Ints [.fromId, .toId, .created] ∧ res.Texts [.content])) :
    Fatal v q (CMessageModel.messageOf res) := by
  rcases not_and_or.mp h with hints | htexts
  · obtain ⟨key, hkey, hnull⟩ := not_forall_mem hints
    rw [List.mem_cons, List.mem_cons, List.mem_singleton] at hkey
    rcases hkey with rfl | rfl | rfl
    · exact fatal_bind _ fun _ => (fatal_getInt (not_not.mp hnull)).bind _
    · exact fatal_bind _ fun _ => fatal_bind _ fun _ => fatal_bind _ fun _ =>
        (fatal_getInt (not_not.mp hnull)).bind _
    · exact fatal_bind _ fun _ => fatal_bind _ fun _ => fatal_bind _ fun _ =>
        fatal_bind _ fun _ => fatal_bind _ fun _ => fatal_bind _ fun _ => fatal_bind _ fun _ =>
        fatal_bind _ fun _ => fatal_bind _ fun _ => fatal_bind _ fun _ =>
        (fatal_getInt (not_not.mp hnull)).bind _
  · obtain ⟨key, hkey, hnull⟩ := not_forall_mem htexts
    obtain rfl := List.mem_singleton.mp hkey
    exact (fatal_getText (not_not.mp hnull)).bind _

theorem obeys_getMessage (hlooks : q.looks pl = true) (havatar : pl.avatar = false)
    (hinner : q.looks { pl with messages := true } = false) (relateId lastTime nowTime : ℤ) :
    Obeys (nullWatch v q) (CMessageModel.getMessage relateId lastTime nowTime) (some pl)
      fun _ s => ∃ pl', s = some pl' := by
  have hreads : ∀ c a, Obeys (nullWatch v q) (ask (.relDBConn c) >>= fun _ => ret a)
      (some { pl with messages := true }) fun (_ : List MessageSendData) s =>
        ∃ pl', s = some pl' :=
    fun c a => (obeys_release c a).mono fun _ _ h => ⟨_, h.2⟩
  refine obeys_getDBConn_bind hlooks fun conn => ?_
  rcases conn with _ | c
  · exact ⟨pl, rfl⟩
  · refine obeys_sprintf_bind ?_
    refine obeys_executeQuery_bind rfl (hreads c _) (fun rows hrows => ?_) fun rows hrows => ?_
    · refine (obeys_forEach fun row hrow =>
        obeys_messageOf hinner havatar (hrows row hrow).1 (hrows row hrow).2).bind ?_
      rintro messages _ rfl
      exact hreads c _
    · refine (fatal_forEach ?_).bind _
      obtain ⟨row, hrow, hbad⟩ := not_forall_mem hrows
      exact ⟨row, hrow, fatal_messageOf hbad⟩

/-! ## CDetectModel -/

/-- A connection that is used at once. -/
theorem obeys_connect_bind {n : ℕ} {f : Conn → Proc β} (hlooks : q.looks pl = false)
    (h : ∀ c, Obeys (nullWatch v q) (f c) (some pl) R) :
    Obeys (nullWatch v q) (ask (.getDBConn n) >>= fun conn => deref conn >>= f) (some pl) R := by
  refine obeys_ask_bind (fun conn hconn => ?_) fun conn hconn => ?_
  · rcases conn with _ | c
    · exact absurd (hlooks.symm.trans hconn) (by simp)
    · exact h c
  · rcases conn with _ | c
    · exact fatal_fault _
    · exact absurd trivial hconn

/-- A result set that is used at once. -/
theorem obeys_demand_bind {c : Conn} {s : Stmt} {f : List Row → Proc β}
    (hunchecked : s.unchecked = true)
    (h : ∀ rows, RowsFine v q s rows →
      Obeys (nullWatch v q) (f rows) (some (pl.next (.executeQuery c s))) R)
    (hf : ∀ rows, ¬RowsFine v q s rows → Fatal v q (f rows)) :
    Obeys (nullWatch v q) (ask (.executeQuery c s) >>= fun res => deref res >>= f) (some pl) R := by
  refine obeys_ask_bind (fun res hres => ?_) fun res hres => ?_
  · rcases res with _ | rows
    · exact absurd (hunchecked.symm.trans hres) (by simp)
    · exact h rows hres
  · rcases res with _ | rows
    · exact fatal_fault _
    · exact hf rows hres

theorem obeys_groupGetlist (hlooks : q.looks pl = false) :
    Obeys (nullWatch v q) CDetectModel.groupGetlist (some pl) fun _ s =>
      s = some { pl with avatar := false } := by
  refine obeys_connect_bind hlooks fun c => ?_
  refine obeys_demand_bind rfl (fun rows hrows => ?_) fun rows hrows => ?_
  · refine (obeys_forEach fun row hrow =>
      obeys_getText (hrows row hrow .classnum (by simp))).bind ?_
    rintro groups _ rfl
    exact (obeys_release c groups).mono fun _ _ h => h.2
  · refine (fatal_forEach ?_).bind _
    obtain ⟨row, hrow, hbad⟩ := not_forall_mem hrows
    obtain ⟨key, hkey, hnull⟩ := not_forall_mem hbad
    obtain rfl := List.mem_singleton.mp hkey
    exact ⟨row, hrow, fatal_getText (not_not.mp hnull)⟩

theorem obeys_groupGetusers (hlooks : q.looks pl = false) (classnum : Bytes) :
    Obeys (nullWatch v q) (CDetectModel.groupGetusers classnum) (some pl) fun _ s =>
      s = some { pl with avatar := false } := by
  refine obeys_connect_bind hlooks fun c => ?_
  refine obeys_demand_bind rfl (fun rows hrows => ?_) fun rows hrows => ?_
  · refine (obeys_forEach fun row hrow => ?_).bind ?_
    · refine (obeys_getText (hrows row hrow .account (by simp))).bind ?_
      rintro account _ rfl
      refine (obeys_getText (hrows row hrow .touxiang (by simp))).bind ?_
      rintro touxiang _ rfl
      rfl
    · rintro users _ rfl
      exact (obeys_release c users).mono fun _ _ h => h.2
  · refine (fatal_forEach ?_).bind _
    obtain ⟨row, hrow, hbad⟩ := not_forall_mem hrows
    obtain ⟨key, hkey, hnull⟩ := not_forall_mem hbad
    refine ⟨row, hrow, ?_⟩
    rw [List.mem_cons, List.mem_singleton] at hkey
    rcases hkey with rfl | rfl
    · exact (fatal_getText (not_not.mp hnull)).bind _
    · exact fatal_bind _ fun _ => (fatal_getText (not_not.mp hnull)).bind _

theorem obeys_storeImage (c : Conn) (image : Mat) (stmt : ImageParams → Stmt) :
    Obeys (nullWatch v q) (CDetectModel.storeImage v c image stmt) (some pl) fun _ s =>
      ∃ pl', s = some pl' := by
  refine obeys_plain_bind (fun _ => trivial) fun started => ?_
  cases started
  · exact ⟨_, rfl⟩
  · dsimp only
    rw [if_pos rfl]
    rcases CDetectModel.imageLength v image with _ | length
    · exact Or.inr (by decide)
    · refine obeys_plain_bind (fun _ => trivial) fun prepared => ?_
      cases prepared
      · exact ⟨_, rfl⟩
      · rw [if_pos rfl]
        rcases CDetectModel.sentBytes image length with _ | sent
        · exact Or.inr (by decide)
        · refine obeys_plain_bind (fun _ => trivial) fun executed => ?_
          cases executed
          · exact obeys_plain_bind (fun _ => trivial) fun _ =>
              obeys_plain_bind (fun _ => trivial) fun _ => ⟨_, rfl⟩
          · exact obeys_plain_bind (fun _ => trivial) fun _ =>
              obeys_plain_bind (fun _ => trivial) fun _ => ⟨_, rfl⟩

theorem obeys_add (hlooks : q.looks pl = false) (image : Mat) (classnum account : Bytes) :
    Obeys (nullWatch v q) (CDetectModel.add v image classnum account) (some pl) fun _ s =>
      ∃ pl', s = some pl' := by
  refine obeys_connect_bind hlooks fun c => ?_
  refine obeys_demand_bind rfl (fun rows _ => ?_) fun rows hrows =>
    absurd (by simp [RowsFine]) hrows
  by_cases hempty : rows.isEmpty = true
  · rw [if_pos hempty]
    exact obeys_storeImage c image _
  · rw [if_neg hempty]
    exact obeys_storeImage c image _

theorem obeys_compareRows {m : Mat} {classnum account : Bytes} : ∀ {rows : List Row},
    FacesFine v m rows →
      Obeys (nullWatch v q) (CDetectModel.compareRows v m classnum account rows) (some pl)
        fun _ s => s = some pl
  | [], _ => rfl
  | row :: rows, ⟨hints, htexts, hrest⟩ => by
    rw [CDetectModel.compareRows]
    refine (obeys_getInt (hints .width (by simp))).bind ?_
    rintro width _ ⟨hwidth, rfl⟩
    refine (obeys_getInt (hints .height (by simp))).bind ?_
    rintro height _ ⟨hheight, rfl⟩
    refine (obeys_getInt (hints .image_type (by simp))).bind ?_
    rintro image_type _ ⟨htype, rfl⟩
    refine (obeys_getInt (hints .image_length (by simp))).bind ?_
    rintro _ _ ⟨-, rfl⟩
    obtain ⟨image, himage⟩ := Option.ne_none_iff_exists'.mp (htexts .image (by simp))
    rw [himage, deref, ret_bind]
    dsimp only
    by_cases hmatch : 8 / 10 < v.compareImage m (Mat.make height width image_type image)
    · rw [if_pos hmatch]
      rfl
    · rw [if_neg hmatch]
      by_cases hnone : v.compareImage m (Mat.make height width image_type image) = 0
      · rw [if_pos hnone]
        rfl
      · rw [if_neg hnone]
        have hfine := hrest width height image_type image hwidth hheight htype himage
        exact obeys_compareRows ((hfine.resolve_left hmatch).resolve_left hnone)

theorem fatal_compareRows {m : Mat} {classnum account : Bytes} : ∀ {rows : List Row},
    ¬FacesFine v m rows →
      Fatal v q (CDetectModel.compareRows v m classnum account rows)
  | [], h => absurd trivial h
  | row :: rows, h => by
    rw [CDetectModel.compareRows, getInt_eq, getInt_eq, getInt_eq, getInt_eq]
    rcases hwidth : row.int? .width with _ | width
    · exact fatal_fault _
    rcases hheight : row.int? .height with _ | height
    · exact fatal_fault _
    rcases htype : row.int? .image_type with _ | image_type
    · exact fatal_fault _
    rcases hlength : row.int? .image_length with _ | image_length
    · exact fatal_fault _
    rcases himage : row.getString .image with _ | image
    · exact fatal_fault _
    simp only [defined, deref, ret_bind]
    have hrest : ¬(8 / 10 < v.compareImage m (Mat.make height width image_type image) ∨
        v.compareImage m (Mat.make height width image_type image) = 0 ∨
          FacesFine v m rows) := by
      intro hfine
      refine h ⟨?_, ?_, ?_⟩
      · simp [Row.Ints, hwidth, hheight, htype, hlength]
      · simp [Row.Texts, himage]
      · intro _ _ _ _ hw hh ht hi
        rw [hwidth] at hw
        rw [hheight] at hh
        rw [htype] at ht
        rw [himage] at hi
        obtain rfl := Option.some.inj hw
        obtain rfl := Option.some.inj hh
        obtain rfl := Option.some.inj ht
        obtain rfl := Option.some.inj hi
        exact hfine
    rw [if_neg fun hmatch => hrest (Or.inl hmatch),
      if_neg fun hnone => hrest (Or.inr (Or.inl hnone))]
    exact fatal_compareRows fun hfine => hrest (Or.inr (Or.inr hfine))

/-! ## The handlers -/

/-- The watch stays on. -/
abbrev On : α → Option Place → Prop :=
  fun _ s => ∃ pl, s = some pl

theorem obeys_ask (o : Op) (hT : ∀ r, Tolerated v q pl o r) :
    Obeys (nullWatch v q) (ask o) (some pl) On :=
  obeys_plain_bind (f := ret) hT fun _ => ⟨_, rfl⟩

theorem obeys_write (r : Reply) : Obeys (nullWatch v q) (ask (.write r)) (some pl) On :=
  obeys_ask _ fun _ => trivial

theorem obeys_forEach_write (f : α → Reply) (l : List α) :
    Obeys (nullWatch v q) (forEach (fun a => ask (.write (f a))) l) (some pl) On := by
  refine (obeys_forEach (f := fun a => ask (.write (f a))) fun a _ => ?_).mono fun _ _ h => ⟨_, h⟩
  exact obeys_plain_bind (f := ret) (fun _ => trivial) fun _ => rfl

/-- The second half of a turn of the loop over the users of a group. -/
theorem obeys_refreshRow {g m_group_id account : Bytes} :
    Obeys (nullWatch v (.getUser g)) (do
      let r ← openQuery 200 (.isLogin m_group_id account)
      match ← deref r.2 with
      | [] => ask (.relDBConn r.1)
      | row :: _ => do
        let islogin ← getInt row .islogin
        ask (.userMapSet (m_group_id, account) islogin)
        ask (.relDBConn r.1)) (some pl) fun _ s => s = some { pl with avatar := false } := by
  have hback : ∀ c : Conn, Obeys (nullWatch v (.getUser g)) (ask (.relDBConn c)) (some pl)
      fun _ s => s = some { pl with avatar := false } :=
    fun c => obeys_plain_bind (o := .relDBConn c) (f := ret) (fun _ => trivial) fun _ => rfl
  refine obeys_openQuery_bind rfl (fun c res hres => ?_) fun c res hres => ?_
  · rcases res with _ | (_ | ⟨row, rows⟩)
    · exact absurd hres (by simp [Tolerated, Stmt.unchecked])
    · exact hback c
    · refine (obeys_getInt (hres row rfl .islogin (by simp))).bind ?_
      rintro islogin _ ⟨-, rfl⟩
      exact obeys_plain_bind (fun _ => trivial) fun _ => hback c
  · rcases res with _ | (_ | ⟨row, rows⟩)
    · exact fatal_fault _
    · exact absurd (by simp [Tolerated, RowsFine]) hres
    · refine (fatal_getInt ?_).bind _
      simpa [Tolerated, RowsFine, Row.Ints] using hres

theorem obeys_refreshUser {g m_group_id account : Bytes} :
    Obeys (nullWatch v (.getUser g)) (refreshUser m_group_id account) (some pl) fun _ s =>
      s = some { pl with avatar := false } := by
  refine obeys_plain_bind (fun _ => trivial) fun known => ?_
  rcases known with _ | islogin
  · exact obeys_plain_bind (fun _ => trivial) fun _ => obeys_refreshRow
  · exact obeys_refreshRow

theorem obeys_getuserListEvent (g : Bytes) :
    Obeys (nullWatch v (.getUser g)) (getuserListEvent g) (some pl) On := by
  refine (obeys_groupGetusers rfl g).bind ?_
  rintro users _ rfl
  refine (Obeys.forEach (M := nullWatch v (.getUser g)) (I := fun s => s = some _)
    (fun user _ s hs => ?_) rfl).bind ?_
  · subst hs
    exact obeys_refreshUser
  · rintro _ _ rfl
    exact obeys_write _

theorem obeys_indeterminate_write (r : Reply) :
    Obeys (nullWatch v q) (ask .indeterminate >>= fun n => if n = 0 then ret () else ask (.write r))
      (some pl) On := by
  refine obeys_plain_bind (fun _ => trivial) fun n => ?_
  split_ifs
  · exact ⟨_, rfl⟩
  · exact obeys_write r

theorem obeys_getGroupListEvent : Obeys (nullWatch v .getGroup) getGroupListEvent (some pl) On := by
  refine (obeys_groupGetlist rfl).bind ?_
  rintro groups _ rfl
  exact obeys_write _

theorem obeys_detectFaceEvent (d : DetectFaceData) :
    Obeys (nullWatch v (.detect d)) (detectFaceEvent v d) (some pl) On := by
  have hanswer : ∀ (pl : Place) (res : Bytes × Bytes), Obeys (nullWatch v (.detect d))
      (if res.2 ≠ d.m_account ∨ res.1 ≠ d.m_classnum then ask (.write (.detect .detectNoUser))
        else ask (.write (.detect .detectSuccess))) (some pl) On := by
    intro pl res
    split_ifs
    · exact obeys_write _
    · exact obeys_write _
  have hdetect : Obeys (nullWatch v (.detect d))
      (CDetectModel.detectOneFace v (v.reread d.image) d.m_classnum d.m_account) (some pl) On := by
    refine obeys_openQuery_bind rfl (fun c res hres => ?_) fun c res hres => ?_
    · rcases res with _ | rows
      · exact absurd hres (by simp [Tolerated, Stmt.unchecked])
      · refine (obeys_compareRows hres).bind ?_
        rintro t _ rfl
        exact (obeys_release c t).mono fun _ _ h => ⟨_, h.2⟩
    · rcases res with _ | rows
      · exact fatal_fault _
      · exact (fatal_compareRows hres).bind _
  refine hdetect.bind ?_
  rintro res _ ⟨pl', rfl⟩
  exact hanswer pl' res

theorem obeys_LoginUserEvent (d : LoginData) :
    Obeys (nullWatch v (.login d)) (LoginUserEvent d) (some pl) On := by
  have hback : ∀ pl (c : Conn) r, Obeys (nullWatch v (.login d))
      (ask (.write r) >>= fun _ => ask (.relDBConn c)) (some pl) On :=
    fun pl c r => obeys_plain_bind (fun _ => trivial) fun _ => obeys_ask _ fun _ => trivial
  refine obeys_openQuery_bind rfl (fun c res hres => ?_) fun c res hres => ?_
  · rcases res with _ | (_ | ⟨row, rows⟩)
    · exact absurd hres (by simp [Tolerated, Stmt.unchecked])
    · exact hback _ c _
    · exact hback _ c _
  · rcases res with _ | rows
    · exact fatal_fault _
    · exact absurd (by simp [Tolerated, RowsFine]) hres

theorem obeys_LoginAddFaceEvent (d : AddFaceData) :
    Obeys (nullWatch v (.addFace d)) (LoginAddFaceEvent v d) (some pl) On := by
  refine (obeys_userExist rfl).bind ?_
  rintro isExist _ rfl
  rcases isExist
  · refine Obeys.bind (obeys_openQuery_drop (s := .addUserInfo ..) rfl ?_ ?_) ?_
    · rintro c (_ | rows)
      · rfl
      · exact trivial
    · exact fun _ => rfl
    · rintro _ _ rfl
      refine (obeys_add rfl d.image d.m_classnum d.m_account).bind ?_
      rintro ⟨_, error_code⟩ _ ⟨pl', rfl⟩
      dsimp only
      split_ifs
      · exact ⟨_, rfl⟩
      · exact obeys_write _
  · exact obeys_write _

/-- The end of ONLINE and of OFFLINE, with a connection. -/
theorem obeys_shown {n : ℤ} {d : UserName} {s : Stmt} {r : Reply} (c : Conn)
    (hT : ∀ pl res, Tolerated v q pl (.executeQuery c s) res) :
    Obeys (nullWatch v q) (do
      ask (.userMapSet (d.classnum, d.account) n)
      let newConnect ← deref (some c)
      let _ ← ask (.executeQuery newConnect s)
      ask (.write r)
      ask (.relDBConn newConnect)) (some pl) On := by
  refine obeys_plain_bind (fun _ => trivial) fun _ => ?_
  refine obeys_plain_bind (hT _) fun _ => ?_
  exact obeys_plain_bind (fun _ => trivial) fun _ => obeys_ask _ fun _ => trivial

/-- Without a connection, ONLINE and OFFLINE set the map before they use it. -/
theorem fatal_shown {n : ℤ} {d : UserName} {f : Conn → Proc Unit} :
    Fatal v q (do
      ask (.userMapSet (d.classnum, d.account) n)
      let newConnect ← deref none
      f newConnect) :=
  fatal_bind _ fun _ => fatal_fault _

theorem obeys_LoginOnlineEvent (d : UserName) :
    Obeys (nullWatch v (.online d)) (LoginOnlineEvent d) (some pl) On := by
  refine obeys_ask_bind (fun conn hconn => ?_) fun conn hconn => ?_
  · rcases conn with _ | c
    · exact absurd hconn (by simp [Tolerated, Request.looks])
    · refine obeys_plain_bind (fun _ => trivial) fun ip => obeys_sprintf_bind (obeys_shown c ?_)
      rintro pl (_ | rows)
      · rfl
      · exact trivial
  · rcases conn with _ | c
    · exact fatal_bind _ fun ip => fatal_bind _ fun s => fatal_shown
    · exact absurd trivial hconn

theorem obeys_LoginOfflineEvent (d : UserName) :
    Obeys (nullWatch v (.offline d)) (LoginOfflineEvent d) (some pl) On := by
  refine obeys_ask_bind (fun conn hconn => ?_) fun conn hconn => ?_
  · rcases conn with _ | c
    · exact absurd hconn (by simp [Tolerated, Request.looks])
    · refine obeys_sprintf_bind (obeys_shown c ?_)
      rintro pl (_ | rows)
      · rfl
      · exact trivial
  · rcases conn with _ | c
    · exact fatal_bind _ fun s => fatal_shown
    · exact absurd trivial hconn

theorem obeys_MessageCreateEvent (d : MessageCreateData) :
    Obeys (nullWatch v (.messageCreate d)) (MessageCreateEvent d) (some .start) On := by
  refine (obeys_getUserId rfl).bind ?_
  rintro fromId _ rfl
  refine (obeys_getUserId rfl).bind ?_
  rintro toId _ rfl
  refine (obeys_addSession rfl rfl fromId toId 0 d.m_peertouxiang).bind ?_
  rintro sessionId _ rfl
  split_ifs
  · exact obeys_write _
  · exact obeys_write _

theorem obeys_MessageSendEvent (d : MessageSendData) :
    Obeys (nullWatch v (.messageSend d)) (MessageSendEvent d) (some .start) On := by
  refine (obeys_getUserId rfl).bind ?_
  rintro fromId _ rfl
  refine (obeys_getUserId rfl).bind ?_
  rintro toId _ rfl
  refine (obeys_getRelationId rfl rfl fromId toId true).bind ?_
  rintro relationId _ rfl
  refine (obeys_getSessionId rfl rfl fromId toId 0 false).bind ?_
  rintro sessionId _ rfl
  refine (obeys_updateOnce rfl rfl _).bind ?_
  rintro _ _ rfl
  refine (obeys_inserMessage rfl rfl relationId fromId toId d.messageContent 1 1).bind ?_
  rintro _ _ rfl
  exact ⟨_, rfl⟩

theorem obeys_MessageHistoryEvent (d : MessageHistoryData) :
    Obeys (nullWatch v (.messageHistory d)) (MessageHistoryEvent d) (some .start) On := by
  refine (obeys_getUserId rfl).bind ?_
  rintro fromId _ rfl
  refine (obeys_getUserId rfl).bind ?_
  rintro toId _ rfl
  refine (obeys_getRelationId rfl rfl fromId toId true).bind ?_
  rintro relationId _ rfl
  refine obeys_plain_bind (fun _ => trivial) fun nowTime => ?_
  refine (obeys_getMessage rfl rfl rfl relationId d.lastupdatetime nowTime).bind ?_
  rintro messageList _ ⟨pl, rfl⟩
  split_ifs
  · exact obeys_write _
  · refine obeys_plain_bind (fun _ => trivial) fun _ => ?_
    refine (obeys_forEach_write _ messageList).bind ?_
    rintro _ _ ⟨pl', rfl⟩
    exact ⟨pl', rfl⟩

theorem obeys_RescentSessionEvent (classNum account : Bytes) (lastupdatetime : ℤ) :
    Obeys (nullWatch v (.recentSession classNum account lastupdatetime))
      (RescentSessionEvent classNum account lastupdatetime) (some .start) On := by
  refine (obeys_getUserId rfl).bind ?_
  rintro fromId _ rfl
  refine (obeys_getRecentSession rfl rfl rfl fromId lastupdatetime).bind ?_
  rintro recentList _ rfl
  split_ifs
  · exact obeys_write _
  · refine obeys_plain_bind (fun _ => trivial) fun _ => ?_
    refine (obeys_forEach fun s _ => ?_).bind ?_
    · exact obeys_plain_bind (fun _ => trivial) fun _ =>
        obeys_plain_bind (f := ret) (fun _ => trivial) fun _ => rfl
    · rintro _ _ rfl
      exact ⟨_, rfl⟩

theorem obeys_LoginTouXiang (d : UserName) :
    Obeys (nullWatch v (.loginTouXiang d)) (LoginTouXiang d) (some pl) On := by
  refine (obeys_getTouXiang rfl).bind ?_
  rintro pic _ rfl
  split_ifs
  · refine obeys_memcpyField.bind ?_
    rintro m_touxiang _ rfl
    exact obeys_write _
  · exact obeys_write _

theorem obeys_GetTouXiang (d : UserName) :
    Obeys (nullWatch v (.getTouXiang d)) (GetTouXiang d) (some pl) On := by
  refine (obeys_getTouXiang rfl).bind ?_
  rintro touXiangPath _ rfl
  refine obeys_memcpyField.bind ?_
  rintro m_touxiang _ rfl
  split_ifs
  · exact obeys_write _
  · exact obeys_write _

theorem obeys_ChangeTouXiang (d : ChangeTouXiangData) :
    Obeys (nullWatch v (.changeTouXiang d)) (ChangeTouXiang d) (some pl) On := by
  refine Obeys.bind (obeys_openQuery_drop (s := .changeTouXiang ..) rfl ?_ ?_) ?_
  · rintro c (_ | rows)
    · rfl
    · exact trivial
  · exact fun _ => rfl
  · rintro _ _ rfl
    exact obeys_write _

/-- Every handler uses what it was given. -/
theorem obeys_doEvent (v : Vision) (request : Request) :
    Obeys (nullWatch v request) (doEvent v request) (some .start) On := by
  cases request with
  | noOperation => exact ⟨_, rfl⟩
  | addFace d => exact obeys_LoginAddFaceEvent d
  | getGroup => exact obeys_getGroupListEvent
  | getUser g => exact obeys_getuserListEvent g
  | delUser d => exact obeys_indeterminate_write _
  | delGroup g => exact obeys_indeterminate_write _
  | login d => exact obeys_LoginUserEvent d
  | detect d => exact obeys_detectFaceEvent d
  | messageCreate d => exact obeys_MessageCreateEvent d
  | messageSend d => exact obeys_MessageSendEvent d
  | messageHistory d => exact obeys_MessageHistoryEvent d
  | recentSession classNum account t => exact obeys_RescentSessionEvent classNum account t
  | online d => exact obeys_LoginOnlineEvent d
  | offline d => exact obeys_LoginOfflineEvent d
  | checkIsOnline => exact obeys_plain_bind (fun _ => trivial) fun _ => obeys_write _
  | loginTouXiang d => exact obeys_LoginTouXiang d
  | changeTouXiang d => exact obeys_ChangeTouXiang d
  | getTouXiang d => exact obeys_GetTouXiang d

theorem admits_nullWatch : ∀ {s : Option Place} {t : List (Exchange Db)},
    (nullWatch v q).Admits s t
  | _, [] => trivial
  | _, _ :: _ => ⟨trivial, admits_nullWatch⟩

end Watch

end NullWatch

/-! ## Requests -/

open NullWatch

/-- The request uses a null pointer after the exchanges `t`. -/
def Request.UsesNull (v : Vision) (request : Request) (t : List (Exchange Db)) : Prop :=
  After (doEvent v request) t (fault .null)

/-- A request whose answers are all tolerated uses no null pointer, and a request returns only
from such answers. -/
theorem guarded_spec (v : Vision) (request : Request) (t : List (Exchange Db)) :
    (Guarded v request .start t → ¬request.UsesNull v t) ∧
      ∀ a, Returns (doEvent v request) t a → Guarded v request .start t := by
  have hobeys := obeys_doEvent v request
  refine ⟨fun hguarded hnull => ?_, fun a hreturns => ?_⟩
  · have hexcused : (nullWatch v request).after (some .start) t = none ∨ Fault.null ≠ .null :=
      hobeys.rest hnull admits_nullWatch
    exact hexcused.elim (after_nullWatch.2 hguarded) fun h => h rfl
  · obtain ⟨pl, hpl⟩ := hobeys.after hreturns admits_nullWatch
    exact after_nullWatch.1 (hpl ▸ Option.some_ne_none pl)

/-- An image of one pixel. -/
def onePixel : Mat :=
  Mat.make 1 1 0 [7, 0]

/-- Only transactions cannot be started. -/
def noTransaction : Op → Bool
  | .startTransaction _ => false
  | _ => true

/-- A vision where a pixel is a byte, and no face is like another. -/
def plainVision : Vision :=
  ⟨fun _ => 1, id, fun _ _ => 0⟩

/-- The empty tables after a registration that stopped half-way. -/
def halfRegistered : World :=
  (run (World.serve (.rejecting .binary) noTransaction)
    (doEvent plainVision (.addFace ⟨ascii "1", ascii "root", ascii "pw", [], onePixel⟩))
    (.start .empty)).2

/-- The face of that user. -/
def detectHalf : Request :=
  .detect ⟨ascii "1", ascii "root", onePixel⟩

/-- A user whose registration stopped half-way is compared with an image that is not there. -/
theorem usesNull_halfRegistered :
    detectHalf.UsesNull plainVision (trace (World.serve (.rejecting .binary) World.allOk)
      (doEvent plainVision detectHalf) halfRegistered) :=
  after_of_faultOf (by decide +kernel)

end WzxServer
