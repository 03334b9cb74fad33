import WzxServer.Specs

/-!
# Texts in statements

Names and passwords go into statements between quotes, and nothing is escaped. By
`asMeant_iff_inert` a statement is read as it was meant exactly when its texts are inert,
and a quote, or a backslash that is not kept, is enough to break it. For `LOGIN` this is a
way in : `loginSound_iff` says when the answer can be trusted. A text that does not fit into
`strSql` is written past its end, and nothing is said of an answer after that.

What MySQL makes of a text that is not read as it was meant is left open. So `LoginSound` asks
for the answer to be the truth whatever that is, and where a text is not inert a MySQL that
answers with one row is enough to show that it is not (`ends_login_oneRow`).
-/

namespace WzxServer

open Prog Proc World

/-- The statement of a `LOGIN` request. -/
def LoginData.stmt (d : LoginData) : Stmt :=
  .loginUser d.m_classnum d.m_username d.m_password

/-- Whatever MySQL does with texts that are not read as they were meant, no array is
overrun, and `LOGIN_SUCCESS` is only answered when the table has the user with the password. -/
def LoginSound (e : Collation) (d : LoginData) : Prop :=
  ∀ (S : Server) (ok : Op → Bool) (w : World), S.mysql.toCollation = e →
    Prog.faultOf (serve S ok) (LoginUserEvent d) w ≠ some .overrun ∧
      ∀ w', Prog.run (serve S ok) (LoginUserEvent d) w = (some (), w') →
        w'.sent = w.sent ++ [.login .loginSuccess] →
        ∃ r ∈ w.tables.users, r.matches e d.m_classnum d.m_username d.m_password = true

variable {S : Server} {ok : Op → Bool} {w w' : World}

/-- A login that returned answered by the rows that MySQL gave for its text. -/
theorem loginUser_inv {d : LoginData}
    (hrun : Prog.run (serve S ok) (LoginUserEvent d) w = (some (), w')) :
    d.stmt.text.length < 256 ∧ ∃ rows, (S.mysql.exec d.stmt w.tables).rows = some rows ∧
      w'.sent = w.sent ++ [.login (if rows.isEmpty then .loginNoUser else .loginSuccess)] := by
  obtain ⟨⟨c, res⟩, w₁, hquery, hrest⟩ := run_bind_inv _ hrun
  obtain ⟨hfit, hres, hsent⟩ := openQuery_inv hquery
  refine ⟨hfit, ?_⟩
  rcases res with _ | rows
  · simp [deref] at hrest
  · refine ⟨rows, (hres.resolve_left (by simp)).symm, ?_⟩
    rcases rows with _ | ⟨row, rows⟩
    · obtain ⟨-, rfl⟩ := Prod.mk.inj hrest
      rw [← hsent]
      rfl
    · obtain ⟨-, rfl⟩ := Prod.mk.inj hrest
      rw [← hsent]
      rfl

/-- A login whose text fits stays inside of its array. -/
theorem spares_loginUser {d : LoginData} (h : d.stmt.text.length < 256) :
    Spares (LoginUserEvent d) := by
  refine (spares_openQuery h).bind fun r => (spares_deref r.2).bind fun rows => ?_
  rcases rows with _ | ⟨_, _⟩
  · exact (spares_ask _).bind fun _ => spares_ask _
  · exact (spares_ask _).bind fun _ => spares_ask _

/-- With inert texts that fit, `LOGIN_SUCCESS` is the truth. -/
theorem loginSound_of_inert {e : Collation} {d : LoginData} (hfit : d.stmt.text.length < 256)
    (h : d.stmt.Inert) : LoginSound e d := by
  rintro S ok w rfl
  refine ⟨(spares_loginUser hfit).faultOf, fun w' hrun hsent => ?_⟩
  obtain ⟨-, rows, hrows, hsent'⟩ := loginUser_inv hrun
  rw [MySQL.exec_of_inert h] at hrows
  rw [hsent, List.append_cancel_left_eq] at hsent'
  cases hfound : w.tables.users.filter
    (·.matches S.mysql.toCollation d.m_classnum d.m_username d.m_password) with
  | nil =>
    simp only [LoginData.stmt, Stmt.effect, Effect.select, hfound, List.map_nil,
      Option.some.injEq] at hrows
    subst hrows
    simp at hsent'
  | cons r rs =>
    have hr : r ∈ w.tables.users.filter
        (·.matches S.mysql.toCollation d.m_classnum d.m_username d.m_password) := by
      rw [hfound]
      exact List.mem_cons_self ..
    exact ⟨r, (List.mem_filter.mp hr).1, (List.mem_filter.mp hr).2⟩

/-- A MySQL that answers every text it was not meant to read with one row. -/
def oneRow (e : Collation) : Server :=
  ⟨⟨e, fun _ t => .select t [[]]⟩, fun _ => 0, [], 0⟩

/-- A text that is not inert can be answered with a row where the table has none. -/
theorem ends_login_oneRow {e : Collation} {d : LoginData} (hfit : d.stmt.text.length < 256)
    (h : ¬d.stmt.Inert) :
    Ends (serve (oneRow e) allOk) (LoginUserEvent d) (.start .empty) fun _ w' =>
      w'.sent = [.login .loginSuccess] := by
  have hexec : (oneRow e).mysql.exec d.stmt Tables.empty = .select .empty [[]] :=
    MySQL.exec_of_not_inert h _
  rw [LoginUserEvent]
  refine (ends_openQuery hfit hexec (rfl : allOk _ = true) fun _ => rfl).bind ?_
  rintro ⟨c, _⟩ w₁ ⟨rfl, hsame⟩
  simp only [deref, ret_bind, ends_ask_bind, serve]
  have hsent : w₁.sent = [] := hsame.sent
  rw [ends_ask]
  exact congrArg (· ++ [Reply.login .loginSuccess]) hsent

/-- `LOGIN_SUCCESS` can be trusted exactly for texts that fit and are inert. -/
theorem loginSound_iff {e : Collation} {d : LoginData} :
    LoginSound e d ↔ d.stmt.text.length < 256 ∧ d.stmt.Inert := by
  constructor
  · intro hsound
    obtain ⟨hspared, htrue⟩ := hsound (oneRow e) allOk (.start .empty) rfl
    have hfit : d.stmt.text.length < 256 := by
      by_contra h
      exact hspared (faultOf_openQuery h _)
    refine ⟨hfit, ?_⟩
    by_contra h
    obtain ⟨_, w', hrun, hsent⟩ := ends_login_oneRow (e := e) hfit h
    obtain ⟨r, hr, -⟩ := htrue w' hrun hsent
    exact List.not_mem_nil hr
  · rintro ⟨hfit, h⟩
    exact loginSound_of_inert hfit h

/-- Every statement of the server is read as it was meant exactly when the texts in it are
inert, and a login is sound exactly when its texts are, and fit. -/
theorem asMeant_iff_and_loginSound_iff (s : Stmt) (e : Collation) (d : LoginData) :
    (s.AsMeant ↔ s.Inert) ∧ (LoginSound e d ↔ d.stmt.text.length < 256 ∧ d.stmt.Inert) :=
  ⟨asMeant_iff_inert s, loginSound_iff⟩

/-- A password that closes its literal. -/
theorem not_asMeant_orOne :
    ¬(Stmt.loginUser (ascii "1") (ascii "root") (ascii "' or '1'='1")).AsMeant := by
  rw [asMeant_iff_inert]
  decide +kernel

end WzxServer
