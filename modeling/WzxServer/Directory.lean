import WzxServer.Specs

/-!
# Names and ids

Clients know a user by a class number and an account, and the tables know it by an id.
`getUserId` takes the one to the other and `getUserFromId` takes it back. For a `Member`
of the directory, whose names are in exactly one row, neither loses anything
(`ends_getUserId`, `ends_getUserFromId`), and different members have different ids
(`idOf_injective`).

A name is plain when it goes through a statement and comes back as it was : it has no NUL, at
which a C string would end, and no quote or backslash. The two lookups go through statements in
a `strSql` of their own, so a member's names are also short enough for these.
-/

namespace WzxServer

open Prog Proc World

/-- The ids are a primary key, and each fits into an `int`. -/
structure Directory (us : List UserRow) : Prop where
  nodup : (us.map UserRow.id).Nodup
  pos : ∀ r ∈ us, 0 < r.id
  isInt : ∀ r ∈ us, IsInt r.id

/-- No byte of a name ends a C string, closes a literal or escapes. -/
def PlainName (s : Bytes) : Prop :=
  ∀ c ∈ s, c ≠ 0 ∧ c ≠ 39 ∧ c ≠ 92

instance (s : Bytes) : Decidable (PlainName s) :=
  inferInstanceAs (Decidable (∀ c ∈ s, _))

/-- The names of `u` are in exactly one row of the directory, and the text that looks for
them is harmless and fits its buffer. -/
structure Member (e : Collation) (us : List UserRow) (u : UserName) : Prop where
  /-- The names are in one row, spelt in the same way. -/
  row : ∃ r : UserRow, us.filter (·.named e u.classnum u.account) = [r] ∧
    r.classnum = u.classnum ∧ r.account = u.account
  classnum_plain : PlainName u.classnum
  account_plain : PlainName u.account
  /-- The lookup has 100 bytes for its text. -/
  fits : (Stmt.getUserId u.classnum u.account).text.length < 100

/-- The id that the directory gives to the names of `u`. -/
def idOf (e : Collation) (us : List UserRow) (u : UserName) : ℤ :=
  ((us.filter (·.named e u.classnum u.account)).head?.map UserRow.id).getD (-1)

variable {e : Collation} {us : List UserRow} {u v : UserName}

/-- A plain name is inert. -/
theorem inert_of_plainName {s : Bytes} (h : PlainName s) : mysql.inert s = true :=
  Quoting.inert_of_plain fun c hc => not_or.2 (h c hc).2

/-- A plain name has no NUL. -/
theorem takeWhile_plainName {s : Bytes} (h : PlainName s) : s.takeWhile (· ≠ 0) = s := by
  rw [List.takeWhile_eq_self_iff]
  exact fun c hc => decide_eq_true (h c hc).1

namespace Member

/-- The lookup of a member is read as it was meant. -/
theorem inert (h : Member e us u) : (Stmt.getUserId u.classnum u.account).Inert := by
  simp only [Stmt.Inert, Stmt.fields, Stmt.template, whereUser, List.map_cons, List.map_nil,
    List.forall_mem_cons]
  exact ⟨inert_of_plainName h.classnum_plain, inert_of_plainName h.account_plain, by simp⟩

/-- The row of a member. -/
theorem exists_row (h : Member e us u) : ∃ r ∈ us,
    us.filter (·.named e u.classnum u.account) = [r] ∧ r.id = idOf e us u ∧
      r.classnum = u.classnum ∧ r.account = u.account := by
  obtain ⟨r, hr, hc, ha⟩ := h.row
  have hmem : r ∈ us.filter (·.named e u.classnum u.account) := by simp [hr]
  exact ⟨r, (List.mem_filter.mp hmem).1, hr, by simp [idOf, hr], hc, ha⟩

end Member

/-- Where `f` is a key, the key of a row selects this row. -/
theorem filter_of_nodup_map {α β : Type} [DecidableEq β] {f : α → β} {l : List α}
    (h : (l.map f).Nodup) {a : α} (ha : a ∈ l) : l.filter (fun b => f b = f a) = [a] := by
  obtain ⟨l₁, l₂, rfl⟩ := List.append_of_mem ha
  rw [List.map_append, List.map_cons, List.nodup_append, List.nodup_cons] at h
  obtain ⟨-, ⟨hright, -⟩, hleft⟩ := h
  have h₁ : l₁.filter (fun b => f b = f a) = [] := by
    rw [List.filter_eq_nil_iff]
    intro b hb heq
    exact hleft _ (List.mem_map_of_mem hb) _ (List.mem_cons_self ..) (by simpa using heq)
  have h₂ : l₂.filter (fun b => f b = f a) = [] := by
    rw [List.filter_eq_nil_iff]
    intro b hb heq
    exact hright (List.mem_map.2 ⟨b, hb, by simpa using heq⟩)
  rw [List.filter_append, h₁, List.filter_cons_of_pos (by simp), h₂, List.nil_append]

/-- Ids start from 1. -/
theorem Member.idOf_pos (hdir : Directory us) (h : Member e us u) : 0 < idOf e us u := by
  obtain ⟨r, hr, -, hid, -⟩ := h.exists_row
  exact hid ▸ hdir.pos r hr

/-- They are ints. -/
theorem Member.isInt_idOf (hdir : Directory us) (h : Member e us u) : IsInt (idOf e us u) := by
  obtain ⟨r, hr, -, hid, -⟩ := h.exists_row
  exact hid ▸ hdir.isInt r hr

/-- Different members have different ids. -/
theorem idOf_injective (hdir : Directory us) (hu : Member e us u) (hv : Member e us v)
    (h : idOf e us u = idOf e us v) : u = v := by
  obtain ⟨r, hr, -, hrid, hrc, hra⟩ := hu.exists_row
  obtain ⟨s, hs, -, hsid, hsc, hsa⟩ := hv.exists_row
  have hrs : r = s :=
    List.inj_on_of_nodup_map hdir.nodup hr hs (by rw [hrid, hsid, h])
  subst hrs
  cases u
  cases v
  exact UserName.mk.injEq .. ▸ ⟨hrc.symm.trans hsc, hra.symm.trans hsa⟩

/-! ## Looking up -/

variable {S : Server} {w : World}

/-- Names that are read as they are lead to the id of their first row, or to -1. -/
theorem ends_getUserId_idOf (hfits : (Stmt.getUserId u.classnum u.account).text.length < 100)
    (hinert : (Stmt.getUserId u.classnum u.account).Inert) :
    Ends (serve S allOk) (CUserModel.getUserId u.classnum u.account) w fun n w' =>
      n = idOf S.mysql.toCollation w.tables.users u ∧ w.Same w' := by
  have hexec := MySQL.exec_of_inert (M := S.mysql) hinert w.tables
  rw [CUserModel.getUserId]
  refine (ends_openQuery hfits hexec rfl fun _ => rfl).bind ?_
  rintro ⟨conn, _⟩ w₁ ⟨rfl, hsame⟩
  rw [idOf]
  generalize w.tables.users.filter (·.named S.mysql.toCollation u.classnum u.account) = rows
  cases rows
  · exact ⟨_, _, rfl, rfl, hsame⟩
  · exact ⟨_, _, rfl, rfl, hsame⟩

/-- The names of a member lead to its id. -/
theorem ends_getUserId (h : Member S.mysql.toCollation w.tables.users u) :
    Ends (serve S allOk) (CUserModel.getUserId u.classnum u.account) w fun n w' =>
      n = idOf S.mysql.toCollation w.tables.users u ∧ w.Same w' :=
  ends_getUserId_idOf h.fits h.inert

/-- The id of a member leads to its names. -/
theorem ends_getUserFromId (hdir : Directory w.tables.users)
    (h : Member S.mysql.toCollation w.tables.users u) :
    Ends (serve S allOk) (CUserModel.getUserFromId (idOf S.mysql.toCollation w.tables.users u)) w
      fun n w' => n = u ∧ w.Same w' := by
  obtain ⟨r, hr, -, hid, hc, ha⟩ := h.exists_row
  have hfits : (Stmt.getUserFromId (idOf S.mysql.toCollation w.tables.users u)).text.length
      < 200 := by
    have hlen := length_decimal_le (h.isInt_idOf hdir)
    have hhead : (ascii "select classnum,account from user_table where id = ").length = 51 := by
      decide +kernel
    simp only [Stmt.text, Quoting.render, Stmt.template, plain, Quoting.fill, List.length_append]
    omega
  have hexec := MySQL.exec_of_plain (M := S.mysql)
    (s := .getUserFromId (idOf S.mysql.toCollation w.tables.users u)) rfl w.tables
  rw [CUserModel.getUserFromId]
  refine (ends_openQuery hfits hexec rfl fun _ => rfl).bind ?_
  rintro ⟨conn, _⟩ w₁ ⟨rfl, hsame⟩
  rw [← hid, filter_of_nodup_map hdir.nodup hr]
  refine ⟨_, _, rfl, ?_, hsame⟩
  change UserName.mk (r.classnum.takeWhile (· ≠ 0)) (r.account.takeWhile (· ≠ 0)) = u
  rw [hc, ha, takeWhile_plainName h.classnum_plain, takeWhile_plainName h.account_plain]

end WzxServer
