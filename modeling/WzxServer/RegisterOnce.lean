import WzxServer.RegisterAtomic

/-!
# One row for each user

No key of `user_table` keeps two rows with the same names apart; the handler of `ADDFACE`
has to. It asks for a row with the password too, so a request with another password for
names that are taken inserts a second row, and then stores its image in both. The run
theorem `kept_of_carefulRun` needs that whoever comes with names that are taken brings the
password, and that the texts fit their buffers and are inert.

The invariant is `Unique`. A request for new names adds at most one row, whatever becomes of its
calls (`users_step_of_new`), and a careful one for names that are taken changes nothing
(`step_of_registered`). The handlers are taken one after another here; two of one user at a time
are not kept apart by anything.
-/

namespace WzxServer

open Prog Proc World

/-- An `ADDFACE` request, with what becomes of the calls it leads to. -/
structure Arrival where
  d : AddFaceData
  o : Outcomes

/-- At most one row for each pair of names. -/
def Unique (e : Collation) (users : List UserRow) : Prop :=
  users.Pairwise fun r s => r.named e s.classnum s.account = false

/-- The names are taken. -/
def Registered (e : Collation) (users : List UserRow) (d : AddFaceData) : Prop :=
  ∃ r ∈ users, r.named e d.m_classnum d.m_account = true

variable (S : Server) (v : Vision)

/-- The world once a request is handled, or has stopped the server. -/
def Arrival.step (w : World) (x : Arrival) : World :=
  (Prog.run (serve S x.o.ok) (LoginAddFaceEvent v x.d) w).2

/-- A request for names that are taken changes no row and is told so. -/
def Undisturbed (w : World) (x : Arrival) : Prop :=
  Registered S.mysql.toCollation w.tables.users x.d →
    (x.step S v w).tables.users = w.tables.users ∧
      newly w (x.step S v w) = [.register .registerUserAlreadyExist]

/-- In every state of the run no pair of names has two rows, and no request for names that
are taken disturbs anything. -/
def Kept : World → List Arrival → Prop
  | w, [] => Unique S.mysql.toCollation w.tables.users
  | w, x :: xs => Unique S.mysql.toCollation w.tables.users ∧ Undisturbed S v w x ∧
      Kept (x.step S v w) xs

/-- The texts fit their buffers, those that reach MySQL are inert, and whoever comes with names
that are taken brings the password of a row. -/
structure Careful (e : Collation) (users : List UserRow) (x : Arrival) : Prop where
  /-- `userExist` has 256 bytes for its text. -/
  exist_fits : x.d.existStmt.text.length < 256
  exist_inert : x.d.existStmt.Inert
  /-- Who is there already is known by the password. -/
  password : Registered e users x.d →
    users.any (·.matches e x.d.m_classnum x.d.m_account x.d.m_password) = true
  /-- The insertion is formatted for new names only. -/
  info_fits : ¬Registered e users x.d → x.d.infoStmt.text.length < 200
  /-- Where it fails, its text is not read. -/
  info_inert : ¬Registered e users x.d → x.o.insert = true → x.d.infoStmt.Inert

/-- Every request of the run meets the condition in the state it comes to. -/
def CarefulRun : World → List Arrival → Prop
  | _, [] => True
  | w, x :: xs => Careful S.mysql.toCollation w.tables.users x ∧ CarefulRun (x.step S v w) xs

variable {S v} {w : World} {x : Arrival}

/-! ## One request -/

/-- A row with new names keeps the names unique. -/
theorem unique_append {e : Collation} {users : List UserRow} (h : Unique e users) {r : UserRow}
    (hr : ∀ s ∈ users, s.named e r.classnum r.account = false) : Unique e (users ++ [r]) := by
  refine List.pairwise_append.2 ⟨h, List.pairwise_singleton _ _, ?_⟩
  intro s hs t ht
  obtain rfl := List.mem_singleton.mp ht
  exact hr s hs

/-- The row that is left behind has the names of the request. -/
theorem names_lastRow {d : AddFaceData} {o : Outcomes} {id : ℤ} {r : UserRow}
    (h : lastRow v d o id = some r) : r.classnum = d.m_classnum ∧ r.account = d.m_account := by
  unfold lastRow at h
  split_ifs at h
  all_goals
    obtain rfl := Option.some.inj h
    exact ⟨rfl, rfl⟩

/-- Nobody has names that are not registered. -/
theorem absent_of_not_registered {e : Collation} {users : List UserRow} {d : AddFaceData}
    (h : ¬Registered e users d) : ∀ r ∈ users, r.named e d.m_classnum d.m_account = false := by
  intro r hr
  by_contra hnamed
  exact h ⟨r, hr, by simpa using hnamed⟩

/-- A request for new names adds at most one row, with these names. -/
theorem users_step_of_new (hcare : Careful S.mysql.toCollation w.tables.users x)
    (hnew : ¬Registered S.mysql.toCollation w.tables.users x.d) :
    (x.step S v w).tables.users = w.tables.users ∨
      ∃ r : UserRow, (x.step S v w).tables.users = w.tables.users ++ [r] ∧
        r.classnum = x.d.m_classnum ∧ r.account = x.d.m_account := by
  have habsent := absent_of_not_registered hnew
  have hnomatch : ¬w.tables.users.any (·.matches S.mysql.toCollation x.d.m_classnum
      x.d.m_account x.d.m_password) = true := by
    simp only [List.any_eq_true, UserRow.matches, Bool.and_eq_true, not_exists, not_and]
    intro r hr hnamed
    simp [habsent r hr] at hnamed
  have hfit' := hcare.info_fits hnew
  have hinfo := hcare.info_inert hnew
  by_cases hread : Readable x.o v x.d.image
  · obtain ⟨_, w', hrun, husers, -⟩ := ends_addFace_new (o := x.o) (v := v) hcare.exist_fits
      hcare.exist_inert hnomatch hfit' hread
    obtain ⟨id, hid⟩ := addFaceUsers_of_absent (S := S) (v := v) (t := w.tables) habsent hinfo
    rw [Arrival.step, hrun, husers, hid]
    rcases hrow : lastRow v x.d x.o id with _ | r
    · exact Or.inl (List.append_nil _)
    · exact Or.inr ⟨r, rfl, names_lastRow hrow⟩
  · obtain ⟨w', hrun, htables⟩ := addFace_unreadable (o := x.o) (v := v) hcare.exist_fits
      hcare.exist_inert hnomatch hfit' hread
    rw [Arrival.step, hrun, htables, infoTables_of_inert hinfo]
    split_ifs
    · exact Or.inr ⟨_, rfl, rfl, rfl⟩
    · exact Or.inl rfl

/-- A request for names that are taken, with the password, changes nothing. -/
theorem step_of_registered (hcare : Careful S.mysql.toCollation w.tables.users x)
    (hreg : Registered S.mysql.toCollation w.tables.users x.d) :
    (x.step S v w).tables.users = w.tables.users ∧
      newly w (x.step S v w) = [.register .registerUserAlreadyExist] := by
  obtain ⟨_, w', hrun, htables, hsent⟩ := ends_addFace_exist (o := x.o) (v := v)
    hcare.exist_fits hcare.exist_inert (hcare.password hreg)
  rw [Arrival.step, hrun, htables, newly, hsent, List.drop_left]
  exact ⟨rfl, rfl⟩

/-- A careful registration keeps the names unique. -/
theorem unique_step (h : Unique S.mysql.toCollation w.tables.users)
    (hcare : Careful S.mysql.toCollation w.tables.users x) :
    Unique S.mysql.toCollation (x.step S v w).tables.users := by
  by_cases hreg : Registered S.mysql.toCollation w.tables.users x.d
  · rwa [(step_of_registered hcare hreg).1]
  · rcases users_step_of_new (v := v) hcare hreg with husers | ⟨r, husers, hc, ha⟩
    · rwa [husers]
    · rw [husers]
      refine unique_append h ?_
      rw [hc, ha]
      exact absent_of_not_registered hreg

/-! ## A run of requests -/

/-- In a run where every request is careful, names never get a second row, and a request
for names that are taken changes no row and is answered so. -/
theorem kept_of_carefulRun : ∀ {xs : List Arrival} {w : World},
    Unique S.mysql.toCollation w.tables.users → CarefulRun S v w xs → Kept S v w xs
  | [], _, h, _ => h
  | _ :: _, _, h, ⟨hcare, hrun⟩ =>
    ⟨h, step_of_registered hcare, kept_of_carefulRun (unique_step h hcare) hrun⟩

/-- All calls succeed. -/
def Outcomes.good : Outcomes :=
  ⟨true, true, true, true, true, true⟩

/-- `root` registers, comes again with the password, and is told that the names are taken. -/
theorem kept_of_carefulRun_root :
    Kept (.rejecting .binary) grayVision (.start .empty) [⟨addRoot, .good⟩, ⟨addRoot, .good⟩] ∧
      Registered .binary (Arrival.step (.rejecting .binary) grayVision (.start .empty)
        ⟨addRoot, .good⟩).tables.users addRoot := by
  have husers : (Arrival.step (.rejecting .binary) grayVision (.start .empty)
      ⟨addRoot, .good⟩).tables.users =
        [(UserRow.new (ascii "1") (ascii "root") (ascii "pw") [] 1).setImage
          ⟨[7, 0], 1, 1, 0, 1⟩] := by
    decide +kernel
  have hreg : Registered .binary (Arrival.step (.rejecting .binary) grayVision (.start .empty)
      ⟨addRoot, .good⟩).tables.users addRoot := by
    rw [husers]
    exact ⟨_, List.mem_cons_self, by decide +kernel⟩
  have hfirst : Careful .binary [] ⟨addRoot, .good⟩ :=
    ⟨by decide +kernel, by decide +kernel, fun ⟨_, hr, _⟩ => absurd hr List.not_mem_nil,
      fun _ => by decide +kernel, fun _ _ => by decide +kernel⟩
  have hsecond : Careful .binary (Arrival.step (.rejecting .binary) grayVision (.start .empty)
      ⟨addRoot, .good⟩).tables.users ⟨addRoot, .good⟩ :=
    ⟨hfirst.exist_fits, hfirst.exist_inert, fun _ => by rw [husers]; decide +kernel,
      fun hnew => absurd hreg hnew, fun hnew => absurd hreg hnew⟩
  exact ⟨kept_of_carefulRun List.Pairwise.nil ⟨hfirst, hsecond, trivial⟩, hreg⟩

/-- `root` of class `1` again, with another password. -/
def addOther : AddFaceData :=
  { addRoot with m_password := ascii "x" }

/-- With another password, names that are taken get a second row. -/
theorem not_kept_otherPassword :
    ¬∀ (S : Server) (v : Vision) (w : World) (xs : List Arrival),
      Unique S.mysql.toCollation w.tables.users → Kept S v w xs := by
  intro hall
  let S : Server := .rejecting .binary
  let row : UserRow := .new (ascii "1") (ascii "root") (ascii "pw") [] 1
  let w : World := .start { Tables.empty with users := [row] }
  obtain ⟨-, hundisturbed, -⟩ :=
    hall S grayVision w [⟨addOther, .good⟩] (List.pairwise_singleton _ _)
  have husers := (hundisturbed ⟨row, List.mem_cons_self .., by decide +kernel⟩).1
  obtain ⟨_, w', hrun, husers', -⟩ := ends_addFace_new (S := S) (o := .good) (v := grayVision)
    (w := w) (d := addOther) (by decide +kernel) (by decide +kernel) (by decide +kernel)
    (by decide +kernel) (by decide +kernel)
  have hstep : Arrival.step S grayVision w ⟨addOther, .good⟩ = w' := congrArg Prod.snd hrun
  rw [hstep, husers'] at husers
  have hge := length_infoTables_le (S := S) (o := .good) (v := grayVision) (d := addOther) w.tables
  rw [husers, infoTables_of_inert fun _ => by decide +kernel] at hge
  simp [Outcomes.good] at hge

end WzxServer
