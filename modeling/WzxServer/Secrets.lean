import WzxServer.Texts
import WzxServer.Copies

/-!
# What a client learns about passwords

Two tables are alike when they differ only in passwords, and every password that is tried matches
the same rows of both. By `alike_serve` each operation of the handlers keeps worlds alike and
gets answers that look alike, so `sent_of_alike` follows : whatever clients do, and in whatever
order, they are sent the same from both. `asMeant_of_run` says that no statement of such a run is
read in an other way than it was meant, also where its texts come from the table.

The runs go in step. A handler that looks only at what the answers share (`Discreet`, of `Texts`)
does the same operation in both runs, and an operation keeps what the runs share. The copies that
transactions work on are alike as well, and are committed in the same step of both runs.

A client that tries a password learns whether it is the right one, so the tables have to agree
about the passwords that are tried. The texts are those that MySQL reads as they were meant; with
a quote in a name nothing is said.
-/

namespace WzxServer

open Prog Proc World

/-- Rows that differ at most in a password, and match the same passwords with `P`. -/
structure UserRow.Alike (e : Collation) (P : Bytes → Prop) (r r' : UserRow) : Prop where
  /-- Only the password may differ. -/
  rest : r' = { r with password := r'.password }
  /-- No password that is tried tells the two apart. -/
  tried : ∀ p, P p → e.eq r'.password p = e.eq r.password p
  /-- `GETUSER` puts the account into a statement. -/
  legible : Legible r.account

/-- Tables that differ at most in such rows. -/
structure Tables.Alike (e : Collation) (P : Bytes → Prop) (t t' : Tables) : Prop where
  users : List.Forall₂ (UserRow.Alike e P) t.users t'.users
  rest : t' = { t with users := t'.users }

/-- Worlds that differ at most in such tables. -/
structure World.Alike (e : Collation) (P : Bytes → Prop) (w w' : World) : Prop where
  tables : w.tables.Alike e P w'.tables
  /-- The same connections have transactions, on copies that are alike. -/
  txn : ∀ c, Option.Rel (Tables.Alike e P) (w.txn c) (w'.txn c)
  conns : w'.conns = w.conns
  lastInsert : w'.lastInsert = w.lastInsert
  reads : w'.reads = w.reads
  userMap : w'.userMap = w.userMap
  /-- The same was sent to clients. -/
  sent : w'.sent = w.sent

/-- The effects of a statement that look alike. -/
structure Effect.Alike (e : Collation) (P : Bytes → Prop) (s : Stmt) (x x' : Effect) : Prop where
  rows : ∀ c, Like (.executeQuery c s) x.rows x'.rows
  affected : x'.affected = x.affected
  insertId : x'.insertId = x.insertId
  tables : x.tables.Alike e P x'.tables

variable {e : Collation} {P : Bytes → Prop}

/-! ## Rows -/

section Rows

variable {r r' : UserRow} {l l' : List UserRow}

theorem UserRow.Alike.named (h : r.Alike e P r') (c a : Bytes) :
    r'.named e c a = r.named e c a := by
  rw [h.rest]
  rfl

theorem UserRow.Alike.matches (h : r.Alike e P r') (c a : Bytes) {p : Bytes} (hp : P p) :
    r'.matches e c a p = r.matches e c a p := by
  rw [UserRow.matches, UserRow.matches, h.named, h.tried p hp]

/-- What is selected without the password is the same. -/
theorem map_filter_users {α : Type} {q : UserRow → Bool} {f : UserRow → α}
    (h : List.Forall₂ (UserRow.Alike e P) l l')
    (hq : ∀ r r' : UserRow, r.Alike e P r' → q r' = q r)
    (hf : ∀ (r : UserRow) (p : Bytes), f { r with password := p } = f r) :
    (l'.filter q).map f = (l.filter q).map f := by
  induction h with
  | nil => rfl
  | @cons r r' l l' hr hl ih =>
    have hrow : f r' = f r := by
      rw [hr.rest]
      exact hf r _
    rw [List.filter_cons, List.filter_cons, hq r r' hr]
    split_ifs
    · rw [List.map_cons, List.map_cons, hrow, ih]
    · exact ih

theorem map_users {α : Type} {f : UserRow → α} (h : List.Forall₂ (UserRow.Alike e P) l l')
    (hf : ∀ (r : UserRow) (p : Bytes), f { r with password := p } = f r) :
    l'.map f = l.map f := by
  simpa using map_filter_users (q := fun _ => true) h (fun _ _ _ => rfl) hf

theorem exists_alike (h : List.Forall₂ (UserRow.Alike e P) l l') (hr : r ∈ l) :
    ∃ r' : UserRow, r.Alike e P r' := by
  induction h with
  | nil => exact absurd hr List.not_mem_nil
  | @cons a a' l l' ha hl ih =>
    rcases List.mem_cons.mp hr with rfl | hr
    · exact ⟨a', ha⟩
    · exact ih hr

/-- A change that does not look at the password. -/
theorem UserRow.Alike.change (h : r.Alike e P r') {f : UserRow → UserRow}
    (hf : ∀ (r : UserRow) (p : Bytes), f { r with password := p } = { f r with password := p })
    (haccount : ∀ r, (f r).account = r.account) :
    (f r).Alike e P (f r') ∧ (f r' = r' ↔ f r = r) := by
  have hr' : f r' = { f r with password := r'.password } := by
    conv_lhs => rw [h.rest]
    exact hf r _
  have hkeeps : (f r).password = r.password := by
    have hsame := congrArg UserRow.password (hf r r.password)
    exact hsame
  refine ⟨⟨?_, fun p hp => ?_, ?_⟩, fun heq => ?_, fun heq => ?_⟩
  · rw [hr']
  · rw [hr', hkeeps]
    exact h.tried p hp
  · rw [haccount]
    exact h.legible
  · have hback : ({ f r with password := r.password } : UserRow) =
        { r' with password := r.password } := by
      rw [← heq, hr']
    rw [← hkeeps] at hback
    rw [show f r = { r' with password := (f r).password } from hback, h.rest, hkeeps]
  · rw [hr', heq]
    exact h.rest.symm

theorem countP_change {f : UserRow → UserRow} (h : List.Forall₂ (UserRow.Alike e P) l l')
    (hf : ∀ (r : UserRow) (p : Bytes), f { r with password := p } = { f r with password := p })
    (haccount : ∀ r, (f r).account = r.account) :
    Effect.changed f l' = Effect.changed f l ∧
      List.Forall₂ (UserRow.Alike e P) (l.map f) (l'.map f) := by
  induction h with
  | nil => exact ⟨rfl, .nil⟩
  | @cons r r' l l' hr hl ih =>
    obtain ⟨halike, hiff⟩ := hr.change hf haccount
    refine ⟨?_, .cons halike ih.2⟩
    have hrest := ih.1
    simp only [Effect.changed, List.countP_cons] at hrest ⊢
    rw [hrest]
    simp only [ne_eq, hiff]

end Rows

/-! ## Statements -/

section Statements

variable {t t' : Tables} {s : Stmt}

theorem like_none (c : Conn) (s : Stmt) : Like (.executeQuery c s) none none := by
  cases s <;> first | rfl | exact ⟨rfl, fun _ h => absurd h (by simp)⟩

theorem Tables.Alike.updateUsers (ht : t.Alike e P t') {f : UserRow → UserRow}
    (hf : ∀ (r : UserRow) (p : Bytes), f { r with password := p } = { f r with password := p })
    (haccount : ∀ r, (f r).account = r.account) :
    Effect.Alike e P s (.updateUsers t f) (.updateUsers t' f) := by
  obtain ⟨hcount, husers⟩ := countP_change ht.users hf haccount
  refine ⟨fun c => like_none c s, hcount, rfl, husers, ?_⟩
  simp only [Effect.updateUsers]
  rw [ht.rest]

/-- The rows of a user are changed. -/
theorem Tables.Alike.updateNamed (ht : t.Alike e P t') (c a : Bytes) {g : UserRow → UserRow}
    (hg : ∀ (r : UserRow) (p : Bytes), g { r with password := p } = { g r with password := p })
    (haccount : ∀ r, (g r).account = r.account) :
    Effect.Alike e P s (.updateUsers t fun r => if r.named e c a then g r else r)
      (.updateUsers t' fun r => if r.named e c a then g r else r) := by
  refine ht.updateUsers (fun r p => ?_) fun r => ?_
  · change (if r.named e c a then _ else _) = _
    split_ifs
    · exact hg r p
    · rfl
  · split_ifs
    · exact haccount r
    · rfl

theorem Tables.Alike.insertUser (ht : t.Alike e P t') {row : ℤ → UserRow}
    (hrow : ∀ i, Legible (row i).account) :
    Effect.Alike e P s (.insertUser t row) (.insertUser t' row) := by
  have hnext : t'.nextUser = t.nextUser := by rw [ht.rest]
  refine ⟨fun c => like_none c s, rfl, hnext, ?_, ?_⟩
  · simp only [Effect.insertUser, hnext]
    exact List.rel_append ht.users (.cons ⟨rfl, fun _ _ => rfl, hrow _⟩ .nil)
  · simp only [Effect.insertUser]
    rw [ht.rest]

theorem Tables.Alike.select (ht : t.Alike e P t') {rows rows' : List Row} (h : rows' = rows)
    (hlike : ∀ c, Like (.executeQuery c s) (some rows) (some rows)) :
    Effect.Alike e P s (.select t rows) (.select t' rows') := by
  subst h
  exact ⟨hlike, rfl, rfl, ht⟩

/-- A fair statement does the same to tables that are alike. -/
theorem alike_effect (hs : s.Fair P) (ht : t.Alike e P t') :
    Effect.Alike e P s (s.effect e t) (s.effect e t') := by
  have hnamed : ∀ c a : Bytes, ∀ r r' : UserRow, r.Alike e P r' →
      r'.named e c a = r.named e c a := fun c a r r' h => h.named c a
  cases s
  case loginUser c a p =>
    have hp : P p := hs.tries p (List.mem_singleton_self p)
    have hlength : ∀ {l l' : List UserRow}, List.Forall₂ (UserRow.Alike e P) l l' →
        (l'.filter (·.matches e c a p)).map (fun _ => ()) =
          (l.filter (·.matches e c a p)).map fun _ => () := fun h =>
      map_filter_users h (fun r r' hr => hr.matches c a hp) fun _ _ => rfl
    have hlen := congrArg List.length (hlength ht.users)
    rw [List.length_map, List.length_map] at hlen
    refine ⟨fun k => ?_, ?_, rfl, ht⟩
    · refine congrArg some ?_
      rw [Bool.eq_iff_iff, List.isEmpty_iff_length_eq_zero, List.isEmpty_iff_length_eq_zero,
        List.length_map, List.length_map, hlen]
    · exact ((List.length_map _).trans hlen).trans (List.length_map _).symm
  case isLogin c a =>
    exact ht.select (map_filter_users ht.users (hnamed c a) fun _ _ => rfl) fun _ => rfl
  case loginOnline ip c a =>
    exact ht.updateNamed c a (fun _ _ => rfl) fun _ => rfl
  case loginOffline c a =>
    exact ht.updateNamed c a (fun _ _ => rfl) fun _ => rfl
  case changeTouXiang touxiang c a =>
    exact ht.updateNamed c a (fun _ _ => rfl) fun _ => rfl
  case addUpdate c a q =>
    exact ht.updateNamed c a (fun _ _ => rfl) fun _ => rfl
  case getUserId c a =>
    exact ht.select (map_filter_users ht.users (hnamed c a) fun _ _ => rfl) fun _ => rfl
  case getUserFromId i =>
    refine ht.select (map_filter_users ht.users (fun r r' hr => ?_) fun _ _ => rfl) fun _ => rfl
    rw [hr.rest]
  case getTouXiang c a =>
    exact ht.select (map_filter_users ht.users (hnamed c a) fun _ _ => rfl) fun _ => rfl
  case GetTouXiang c a =>
    exact ht.select (map_filter_users ht.users (hnamed c a) fun _ _ => rfl) fun _ => rfl
  case userExist c a p =>
    have hp : P p := hs.tries p (List.mem_singleton_self p)
    exact ht.select (map_filter_users ht.users (fun r r' hr => hr.matches c a hp)
      fun _ _ => rfl) fun _ => rfl
  case addUserInfo c a p touxiang =>
    exact ht.insertUser fun i => hs.legible a (by simp [Stmt.fields, Stmt.template])
  case addInsert c a q =>
    have ha : Legible a := hs.legible a (by simp [Stmt.fields, Stmt.template])
    have hrow : ∀ i, Legible ((UserRow.new c a [] [] i).setImage q).account := fun _ => ha
    exact ht.insertUser hrow
  case detectOneFace c a =>
    exact ht.select (map_filter_users ht.users (hnamed c a) fun _ _ => rfl) fun _ => rfl
  case addSelect c a =>
    exact ht.select (map_filter_users ht.users (hnamed c a) fun _ _ => rfl) fun _ => rfl
  case groupGetlist =>
    refine ht.select ?_ fun _ => rfl
    rw [map_users ht.users fun _ _ => rfl]
  case groupGetusers c =>
    refine ht.select (map_filter_users ht.users (fun r r' hr => ?_) fun _ _ => rfl) fun k =>
      ⟨rfl, fun rows hrows row hrow s hs => ?_⟩
    · rw [hr.rest]
    · obtain rfl := Option.some.inj hrows
      obtain ⟨r, hr, rfl⟩ := List.mem_map.mp hrow
      obtain rfl := Option.some.inj hs
      obtain ⟨r', halike⟩ := exists_alike ht.users (List.mem_filter.mp hr).1
      exact halike.legible
  all_goals
    obtain ⟨husers, hrest⟩ := ht
    generalize t'.users = us at husers hrest
    subst hrest
    exact ⟨fun c => rfl, rfl, rfl, husers, rfl⟩

end Statements

/-! ## Operations -/

section Operations

variable {S : Server} {w w' : World} {t t' : Tables} {c : Conn} {s : Stmt}

theorem World.Alike.view (hw : w.Alike e P w') : (w.view c).Alike e P (w'.view c) := by
  have htxn := hw.txn c
  rw [World.view, World.view]
  generalize w.txn c = a at htxn
  generalize w'.txn c = a' at htxn
  rcases htxn with h | -
  · exact h
  · exact hw.tables

/-- One of the copies is replaced. -/
theorem rel_update {a a' : Option Tables}
    (htxn : ∀ c, Option.Rel (Tables.Alike e P) (w.txn c) (w'.txn c))
    (ha : Option.Rel (Tables.Alike e P) a a') (k : Conn) :
    Option.Rel (Tables.Alike e P) (Function.update w.txn c a k)
      (Function.update w'.txn c a' k) := by
  rcases eq_or_ne k c with rfl | hne
  · rwa [Function.update_self, Function.update_self]
  · rw [Function.update_of_ne hne, Function.update_of_ne hne]
    exact htxn k

theorem World.Alike.put (hw : w.Alike e P w') (ht : t.Alike e P t') :
    (w.put c t).Alike e P (w'.put c t') := by
  have htxn := hw.txn c
  rw [World.put, World.put]
  generalize w.txn c = a at htxn
  generalize w'.txn c = a' at htxn
  rcases htxn with h | -
  · exact { hw with txn := rel_update hw.txn (.some ht) }
  · exact { hw with tables := ht }

theorem World.Alike.acquire (hw : w.Alike e P w') : w.acquire.Alike e P w'.acquire := by
  refine { hw with txn := ?_, conns := congrArg (· + 1) hw.conns }
  rw [World.acquire, World.acquire, hw.conns]
  exact rel_update hw.txn .none

theorem World.Alike.commit (hw : w.Alike e P w') : (w.commit c).Alike e P (w'.commit c) := by
  have htxn := hw.txn c
  rw [World.commit, World.commit]
  generalize w.txn c = a at htxn
  generalize w'.txn c = a' at htxn
  rcases htxn with h | -
  · exact { hw with tables := h, txn := rel_update hw.txn .none }
  · exact hw

theorem Tables.Alike.undo (ht : t.Alike e P t') {copy copy' : Tables}
    (hcopy : copy.Alike e P copy') : (t.undo copy).Alike e P (t'.undo copy') := by
  refine ⟨ht.users, ?_⟩
  rw [Tables.undo, Tables.undo, ht.rest, hcopy.rest]

theorem World.Alike.rollback (hw : w.Alike e P w') :
    (w.rollback c).Alike e P (w'.rollback c) := by
  have htxn := hw.txn c
  rw [World.rollback, World.rollback]
  generalize w.txn c = a at htxn
  generalize w'.txn c = a' at htxn
  rcases htxn with h | -
  · exact { hw with tables := hw.tables.undo h, txn := rel_update hw.txn .none }
  · exact hw

theorem World.Alike.start_transaction (hw : w.Alike e P w') :
    (w.start_transaction c).Alike e P (w'.start_transaction c) := by
  have hcommit : (w.commit c).Alike e P (w'.commit c) := hw.commit
  exact { hcommit with txn := rel_update hcommit.txn (.some hcommit.tables) }

/-- A fair statement is executed alike. -/
theorem alike_exec (hs : s.Fair P) (hw : w.Alike S.mysql.toCollation P w') :
    Effect.Alike S.mysql.toCollation P s (w.exec S.mysql c s).1 (w'.exec S.mysql c s).1 ∧
      (w.exec S.mysql c s).2.Alike S.mysql.toCollation P (w'.exec S.mysql c s).2 := by
  have hinert : s.Inert := fun f hf => (hs.legible f hf).inert
  have heffect := alike_effect hs (hw.view (c := c))
  rw [← MySQL.exec_of_inert hinert, ← MySQL.exec_of_inert hinert] at heffect
  have hput := hw.put (c := c) heffect.tables
  refine ⟨heffect, { hput with lastInsert := ?_ }⟩
  simp only [World.exec]
  rw [heffect.insertId, hw.lastInsert]

/-- Every operation keeps worlds alike, and its answers look alike. -/
theorem alike_serve (hip : Legible S.peerIp) (ok : Bool) {o : Op} (ho : o.Fair P)
    (hw : w.Alike S.mysql.toCollation P w') :
    Like o (serve S (fun _ => ok) o w).1 (serve S (fun _ => ok) o w').1 ∧
      (serve S (fun _ => ok) o w).2.Alike S.mysql.toCollation P
        (serve S (fun _ => ok) o w').2 := by
  cases o
  case getDBConn n =>
    cases ok
    · exact ⟨rfl, hw⟩
    · exact ⟨congrArg some hw.conns.symm, hw.acquire⟩
  case relDBConn c => exact ⟨rfl, hw⟩
  case executeQuery c s =>
    cases ok
    · exact ⟨like_none c s, hw⟩
    · obtain ⟨heffect, hw'⟩ := alike_exec (c := c) ho hw
      exact ⟨heffect.rows c, hw'⟩
  case executeUpdate c s =>
    cases ok
    · exact ⟨rfl, hw⟩
    · obtain ⟨heffect, hw'⟩ := alike_exec (c := c) ho hw
      exact ⟨congrArg (fun n => decide (0 < n)) heffect.affected.symm, hw'⟩
  case execute c s =>
    cases ok
    · exact ⟨rfl, hw⟩
    · exact ⟨rfl, (alike_exec (c := c) ho hw).2⟩
  case startTransaction c =>
    cases ok
    · exact ⟨rfl, hw⟩
    · exact ⟨rfl, hw.start_transaction⟩
  case commit c =>
    cases ok
    · exact ⟨rfl, hw.rollback⟩
    · exact ⟨rfl, hw.commit⟩
  case rollback c => exact ⟨rfl, hw.rollback⟩
  case init c text => exact ⟨rfl, hw⟩
  case getInsertId c => exact ⟨congrFun hw.lastInsert.symm c, hw⟩
  case time =>
    exact ⟨congrArg S.clock hw.reads.symm, { hw with reads := congrArg (· + 1) hw.reads }⟩
  case userMapFind k =>
    refine ⟨?_, hw⟩
    change Option.map _ _ = Option.map _ _
    rw [hw.userMap]
  case userMapSet k n => exact ⟨rfl, { hw with userMap := congrArg (setKey k n) hw.userMap }⟩
  case userMapAll => exact ⟨hw.userMap.symm, hw⟩
  case peerIp => exact ⟨⟨rfl, hip⟩, hw⟩
  case memcpy n text => exact ⟨rfl, hw⟩
  case write r => exact ⟨rfl, { hw with sent := congrArg (· ++ [r]) hw.sent }⟩
  case read => exact ⟨rfl, hw⟩
  case indeterminate => exact ⟨rfl, hw⟩

end Operations

/-! ## Runs -/

section Runs

variable {S : Server} {v : Vision} {t t' : Tables} {T : Type} [DecidableEq T]

/-- The handlers of fair requests. -/
def HandlesFair (v : Vision) (P : Bytes → Prop) (p : Proc Unit) : Prop :=
  ∃ request : Request, request.Fair P ∧ p = doEvent v request

theorem World.Alike.start (ht : t.Alike e P t') : (World.start t).Alike e P (World.start t') :=
  ⟨ht, fun _ => .none, rfl, rfl, rfl, rfl, rfl⟩

/-- Tables that are alike cannot be told apart : whatever is done with the one, in any order and
with any failures, can be done with the other, where every handler asks for the same operations
and every client is sent the same. -/
theorem sent_of_alike (hip : Legible S.peerIp) (ht : t.Alike S.mysql.toCollation P t')
    {c : Threads.Config Db World T}
    (h : Threads.Run (S.threads (HandlesFair v P)) (fun _ _ _ _ => True) (World.start t) c) :
    ∃ c' : Threads.Config Db World T,
      Threads.Run (S.threads (HandlesFair v P)) (fun _ _ _ _ => True) (World.start t') c' ∧
        c'.prog = c.prog ∧ c'.asked = c.asked ∧ c'.shared.sent = c.shared.sent ∧
        c.shared.tables.Alike S.mysql.toCollation P c'.shared.tables := by
  obtain ⟨c', hc', hprog, hasked, halike, -⟩ := Threads.Run.mirror (A := Like)
    (R := World.Alike S.mysql.toCollation P) (P := Op.Fair P) (C := fun _ _ _ => True)
    (by rintro p ⟨request, hfair, rfl⟩; exact discreet_doEvent v hfair)
    (fun ok o w w' ho hw => alike_serve hip ok ho hw) (.start ht) h
  exact ⟨c', hc', hprog, hasked, halike.sent, halike.tables⟩

/-- The texts of the requests, of the peer and of the table are put into statements, and none of
these is read in an other way than it was meant. -/
theorem asMeant_of_run (hip : Legible S.peerIp) (haccounts : ∀ r ∈ t.users, Legible r.account)
    {c : Threads.Config Db World T}
    (h : Threads.Run (S.threads (HandlesFair v fun _ => True)) (fun _ _ _ _ => True)
      (World.start t) c) {i : T} {p : Conn × Stmt}
    (hnext : (nextOp (c.prog i)).bind Op.statement? = some p) : p.2.AsMeant := by
  have hsame : t.Alike S.mysql.toCollation (fun _ => True) t := by
    refine ⟨List.forall₂_same.mpr fun r hr => ⟨rfl, fun _ _ => rfl, haccounts r hr⟩, rfl⟩
  obtain ⟨c', -, -, -, -, hdeaf⟩ := Threads.Run.mirror (A := Like)
    (R := World.Alike S.mysql.toCollation fun _ => True) (P := Op.Fair fun _ => True)
    (C := fun _ _ _ => True)
    (by rintro p ⟨request, hfair, rfl⟩; exact discreet_doEvent v hfair)
    (fun ok o w w' ho hw => alike_serve hip ok ho hw) (.start hsame) h
  have hi := hdeaf i
  generalize c.prog i = q at hnext hi
  cases q with
  | ret a => exact absurd hnext (by simp [nextOp])
  | fault f => exact absurd hnext (by simp [nextOp])
  | call o k =>
    have ho : o.Fair fun _ => True := hi.1
    refine (asMeant_iff_inert p.2).mpr fun f hf => ?_
    have hs : p.2.Fair fun _ => True := by
      cases o <;> simp only [nextOp, Option.bind_some, Op.statement?, reduceCtorEq,
        Option.some.injEq] at hnext
      all_goals exact hnext ▸ ho
    exact (hs.legible f hf).inert

/-! ## A wrong guess -/

/-- One user, whose password is `secret`. -/
def keeper (secret : Bytes) : Tables :=
  { Tables.empty with users := [UserRow.new (ascii "1") (ascii "ann") secret [] 1], nextUser := 2 }

/-- A login with the password `c`. -/
def guess : Request :=
  .login ⟨ascii "1", ascii "ann", ascii "c"⟩

theorem legible_ascii {s : Bytes} (h : s.all fun c => c ≠ 0 && c ≠ 39 && c ≠ 92) : Legible s := by
  have hall : ∀ c ∈ s, c ≠ 0 ∧ c ≠ 39 ∧ c ≠ 92 := by
    simpa [List.all_eq_true, and_assoc] using h
  refine ⟨fun h0 => (hall 0 h0).1 rfl, Quoting.inert_of_plain fun c hc => not_or.2 ?_⟩
  exact (hall c hc).2

theorem fair_guess : guess.Fair fun p => p = ascii "c" := by
  refine ⟨?_, List.forall_mem_singleton.mpr rfl⟩
  have h : ∀ f ∈ guess.quoted, f.all fun c => c ≠ 0 && c ≠ 39 && c ≠ 92 := by
    decide +kernel
  exact fun f hf => legible_ascii (h f hf)

/-- The run of the guess. -/
def guessed (secret : Bytes) : Threads.Config Db World Unit :=
  Threads.play
    (S := (Server.rejecting .binary).threads (HandlesFair noVision fun p => p = ascii "c"))
    (fun _ _ _ _ => True) (asking guess 4) (.start (World.start (keeper secret)))

/-- With the password `a` or `b`, the answer to `c` is the same. -/
theorem sent_of_alike_guess :
    ∃ c' : Threads.Config Db World Unit,
      Threads.Run ((Server.rejecting .binary).threads
          (HandlesFair noVision fun p => p = ascii "c")) (fun _ _ _ _ => True)
        (World.start (keeper (ascii "b"))) c' ∧
      c'.prog = (guessed (ascii "a")).prog ∧ c'.asked = (guessed (ascii "a")).asked ∧
      c'.shared.sent = (guessed (ascii "a")).shared.sent ∧
      (guessed (ascii "a")).shared.tables.Alike .binary (fun p => p = ascii "c")
        c'.shared.tables := by
  have hip : Legible (Server.rejecting .binary).peerIp := legible_ascii rfl
  have ht : (keeper (ascii "a")).Alike .binary (fun p => p = ascii "c") (keeper (ascii "b")) := by
    refine ⟨.cons ⟨rfl, fun p hp => ?_, legible_ascii (by decide +kernel)⟩ .nil, rfl⟩
    rw [hp]
    decide +kernel
  refine sent_of_alike hip ht (Threads.Run.start.play fun i p hp => ?_)
  simp only [asking, List.mem_cons, List.mem_replicate, reduceCtorEq, and_false, or_false,
    Threads.Move.launch.injEq] at hp
  exact ⟨guess, fair_guess, hp.2⟩

/-- `GETUSER` has found `ann`, and is about to look up whether she is online. -/
def listing : Threads.Config Db World Unit :=
  Threads.play (S := (Server.rejecting .binary).threads (HandlesFair noVision fun _ => True))
    (fun _ _ _ _ => True) (asking (.getUser (ascii "1")) 6)
    (.start (World.start (keeper (ascii "a"))))

/-- The account comes from the table. -/
theorem asMeant_of_run_listing :
    (nextOp (listing.prog ())).bind Op.statement? =
        some (1, .isLogin (ascii "1") (ascii "ann")) ∧
      (Stmt.isLogin (ascii "1") (ascii "ann")).AsMeant := by
  have hnext : (nextOp (listing.prog ())).bind Op.statement? =
      some (1, .isLogin (ascii "1") (ascii "ann")) := by
    decide +kernel
  have hfair : (Request.getUser (ascii "1")).Fair fun _ => True :=
    ⟨List.forall_mem_singleton.mpr (legible_ascii rfl), fun _ _ => trivial⟩
  have haccounts : ∀ r ∈ (keeper (ascii "a")).users, Legible r.account :=
    List.forall_mem_singleton.mpr (legible_ascii (by decide +kernel))
  refine ⟨hnext, asMeant_of_run (S := .rejecting .binary) (v := noVision) (legible_ascii rfl)
    haccounts (Threads.Run.start.play fun i p hp => ?_) hnext⟩
  simp only [asking, List.mem_cons, List.mem_replicate, reduceCtorEq, and_false, or_false,
    Threads.Move.launch.injEq] at hp
  exact ⟨_, hfair, hp.2⟩

end Runs

end WzxServer
