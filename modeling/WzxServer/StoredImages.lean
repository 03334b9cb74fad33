import WzxServer.AddFace
import WzxServer.Isolation

/-!
# Images that are stored

`CDetectModel::add` sends the pixels of an image and the byte behind them, together with the
number of the pixel bytes as `image_length`. So what `detectOneFace` rebuilds from a row has
the geometry and the pixels of the image (`rebuilds_setImage`), and the blob is never what the
row says it is (`roundTrips_iff_unreadable`).

Both branches of `add` write the same columns, one by an insertion and one by an update, so
`exists_setImage_addUsers` speaks of the row that is there afterwards. What MySQL makes of
names that are not read as they were meant is a parameter, and the condition has to hold for
each of them.
-/

namespace WzxServer

open Prog Proc World

attribute [local irreducible] toInt

/-- The same geometry and the same pixels. -/
def Mat.Same (v : Vision) (m image : Mat) : Prop :=
  m.rows = image.rows ∧ m.cols = image.cols ∧ m.type = image.type ∧
    m.data.take (v.matSize image) = image.data.take (v.matSize image)

/-- What `detectOneFace` rebuilds from the row is the image. -/
def UserRow.Rebuilds (v : Vision) (image : Mat) (r : UserRow) : Prop :=
  ∃ blob height width image_type, r.image = some blob ∧ r.height = some height ∧
    r.width = some width ∧ r.image_type = some image_type ∧
      (Mat.make height width image_type blob).Same v image

/-- The row gives the image back that was stored : its blob is the pixels and nothing else, of
the length that the row says, and the image is rebuilt from it. -/
structure UserRow.GivesBack (v : Vision) (image : Mat) (r : UserRow) : Prop where
  pixels : r.image = some (image.data.take (v.matSize image))
  length : ∃ blob : Bytes, r.image = some blob ∧ r.image_length = some (blob.length : ℤ)
  rebuilds : r.Rebuilds v image

/-- Whatever MySQL does with texts that are not read as they were meant, a successful `add`
leaves rows of the user that give the image back. -/
def RoundTrips (e : Collation) (v : Vision) (image : Mat) (classnum account : Bytes)
    (users : List UserRow) : Prop :=
  ∀ (S : Server) (o : Outcomes) (w w' : World) (res : ℤ × Option ℤ),
    S.mysql.toCollation = e → w.tables.users = users → o.stored = true →
      Prog.run (serve S o.ok) (CDetectModel.add v image classnum account) w = (some res, w') →
        ∀ r ∈ w'.tables.users, r.named e classnum account → r.GivesBack v image

variable {S : Server} {o : Outcomes} {v : Vision} {w : World} {image : Mat} {e : Collation}
  {classnum account : Bytes} {users : List UserRow}

/-! ## What is stored -/

/-- The blob that is stored is one byte longer than its length says. -/
theorem length_image_of_imageParams {p : ImageParams} (h : imageParams v image = some p) :
    p.image.length = toSize (p.length + 1) ∧ -intMax - 1 ≤ p.length ∧ p.length ≤ intMax := by
  obtain ⟨length, hlength, h⟩ := Option.bind_eq_some_iff.mp h
  obtain ⟨sent, hsent, rfl⟩ := Option.map_eq_some_iff.mp h
  unfold CDetectModel.imageLength at hlength
  split_ifs at hlength
  obtain rfl := Option.some.inj hlength
  unfold CDetectModel.sentBytes at hsent
  split_ifs at hsent with hle
  obtain rfl := Option.some.inj hsent
  refine ⟨?_, neg_le_toInt _, toInt_le_intMax _⟩
  rw [List.length_take, min_eq_left hle]

/-- A row that `add` writes does not give the image back. -/
theorem not_givesBack_setImage {p : ImageParams} (h : imageParams v image = some p)
    (r : UserRow) : ¬(r.setImage p).GivesBack v image := by
  rintro ⟨-, ⟨blob, hblob, hlength⟩, -⟩
  obtain ⟨hsize, hlow, hhigh⟩ := length_image_of_imageParams h
  obtain rfl := Option.some.inj hblob
  have hexact := Option.some.inj hlength
  rw [hsize] at hexact
  unfold toSize at hexact
  unfold intMax at hlow hhigh
  omega

/-- The image itself comes back. -/
theorem rebuilds_setImage {p : ImageParams} (h : imageParams v image = some p)
    (htype : image.type % 4096 = image.type)
    (hsize : image.rows * image.cols * v.elemSize image.type ≤ faceSize) (r : UserRow) :
    (r.setImage p).Rebuilds v image := by
  obtain ⟨length, hlength, h⟩ := Option.bind_eq_some_iff.mp h
  obtain ⟨sent, hsent, rfl⟩ := Option.map_eq_some_iff.mp h
  refine ⟨sent, _, _, _, rfl, rfl, rfl, rfl, rfl, rfl, htype, ?_⟩
  unfold CDetectModel.imageLength at hlength
  split_ifs at hlength
  obtain rfl := Option.some.inj hlength
  unfold CDetectModel.sentBytes at hsent
  split_ifs at hsent with hle
  obtain rfl := Option.some.inj hsent
  have hface := faceSize_eq
  have hcomm : image.cols * image.rows = image.rows * image.cols := mul_comm ..
  have hmin : min (v.matSize image)
      (toSize (toInt (image.cols * image.rows * v.elemSize image.type) + 1)) =
      v.matSize image := by
    rw [hcomm, Vision.matSize]
    generalize image.rows * image.cols * v.elemSize image.type = n at hsize
    refine min_eq_left ?_
    rcases lt_or_ge n 0 with hneg | hpos
    · omega
    · have hint : n ≤ intMax := by
        unfold intMax
        omega
      rw [toInt_of_le hpos hint, toSize, Int.emod_eq_of_lt (by omega) (by omega)]
      omega
  exact (List.take_take ..).trans (by rw [hmin])

theorem named_refl (e : Collation) {r : UserRow} (hc : r.classnum = classnum)
    (ha : r.account = account) : r.named e classnum account = true := by
  rw [UserRow.named, hc, ha, e.eq_refl, e.eq_refl]
  rfl

/-- The user has a row afterwards, in which `add` wrote the image. -/
theorem exists_setImage_addUsers (e : Collation) (classnum account : Bytes) (p : ImageParams)
    (t : Tables) : ∃ r : UserRow, r.setImage p ∈ addUsers e classnum account p t ∧
      (r.setImage p).named e classnum account = true := by
  rw [addUsers]
  split_ifs with hany
  · obtain ⟨r, hr, hnamed⟩ := List.any_eq_true.mp hany
    exact ⟨r, List.mem_map.2 ⟨r, hr, if_pos hnamed⟩, hnamed⟩
  · exact ⟨_, List.mem_append_right _ (List.mem_singleton_self _), named_refl e rfl rfl⟩

/-! ## Runs -/

/-- Every call succeeds. -/
def Outcomes.all : Outcomes :=
  ⟨true, true, true, true, true, true⟩

/-- An image with parameters can be read. -/
theorem readable_of_imageParams {p : ImageParams} (h : imageParams v image = some p) :
    Readable o v image := by
  refine fun _ => ⟨?_, fun _ => by simp [h]⟩
  intro hnone
  simp [imageParams, hnone] at h

/-- An `add` that cannot read what it sends does not return. -/
theorem run_add_unreadable (ho : o.stored = true) (h : imageParams v image = none) :
    (Prog.run (serve S o.ok) (CDetectModel.add v image classnum account) w).1 = none := by
  rcases hrows : (S.mysql.exec (.addSelect classnum account) w.tables).rows with _ | rows
  · have hexec := exec_of_none (M := S.mysql) w.txn_acquire (.addSelect classnum account)
    have hfound : (w.acquire.exec S.mysql w.conns (.addSelect classnum account)).1.rows =
        none := by
      rw [hexec, acquire_tables, hrows]
    rw [CDetectModel.add]
    simp only [run_ask_bind, serve, Outcomes.ok, if_true, deref, ret_bind, hfound, fault_bind,
      run_fault]
  · obtain ⟨w₁, -, -, htxn, hrun⟩ := run_add_rows (S := S) (o := o) (v := v) image hrows
    simp only [Outcomes.stored, Bool.and_eq_true] at ho
    have hread : ¬Readable o v image := fun hread => (hread ho.1.1.1).2 ho.1.1.2 h
    obtain ⟨w₂, hrun', -, -⟩ := storeImage_unreadable (S := S) htxn hread
    rw [hrun, hrun']

/-- What is stored under names that are read as they are. -/
theorem exists_run_add_inert {p : ImageParams} (h : imageParams v image = some p)
    (hinert : (Stmt.addSelect classnum account).Inert) :
    ∃ res w', Prog.run (serve S Outcomes.all.ok) (CDetectModel.add v image classnum account) w =
        (some res, w') ∧
      w'.tables.users = addUsers S.mysql.toCollation classnum account p w.tables := by
  have hexist : (Stmt.userExist classnum account []).Inert := by
    simp only [Stmt.Inert, Stmt.fields, Stmt.template, whereUser, List.map_cons, List.map_nil,
      List.forall_mem_cons] at hinert ⊢
    exact ⟨hinert.1, hinert.2.1, by decide, by simp⟩
  obtain ⟨res, w', hrun, -, -, husers⟩ := ends_add (S := S) (o := .all) (w := w) hexist
    (readable_of_imageParams h)
  refine ⟨res, w', hrun, ?_⟩
  rw [husers, if_pos (by decide), h, Option.getD_some]

/-- A MySQL that makes of every text which is not read as it was meant a table with a user who
has no image. -/
def Server.imageless (e : Collation) (classnum account : Bytes) : Server :=
  ⟨⟨e, fun _ t => ⟨some [], 1, 0, { t with users := [.new classnum account [] [] 0] }⟩⟩,
    fun _ => 0, [], 0⟩

theorem exists_run_add_foreign {p : ImageParams} (h : imageParams v image = some p)
    (hinert : ¬(Stmt.addSelect classnum account).Inert) :
    ∃ res w', Prog.run (serve (Server.imageless e classnum account) Outcomes.all.ok)
        (CDetectModel.add v image classnum account) w = (some res, w') ∧
      w'.tables.users = [.new classnum account [] [] 0] := by
  have hinsert : ¬(Stmt.addInsert classnum account p).Inert := by
    simp only [Stmt.Inert, Stmt.fields, Stmt.template, whereUser, List.map_cons, List.map_nil,
      List.forall_mem_cons] at hinert ⊢
    exact fun hinert' => hinert ⟨hinert'.1, hinert'.2.1, by simp⟩
  have hselect := MySQL.exec_of_not_inert (M := (Server.imageless e classnum account).mysql)
    hinert w.tables
  obtain ⟨w₁, -, -, htxn, hrun⟩ := run_add_rows (o := .all) (v := v) image
    (congrArg Effect.rows hselect)
  have hread : Readable .all v image := readable_of_imageParams h
  obtain ⟨res, w₂, hrun', -, -, husers⟩ := ends_storeImage htxn hread
  refine ⟨res, w₂, hrun.trans hrun', ?_⟩
  rw [husers, if_pos (by decide), h, Option.getD_some, if_pos List.isEmpty_nil,
    MySQL.exec_of_not_inert hinsert]
  rfl

/-- An image that can be sent is stored, and not given back. -/
theorem not_roundTrips {p : ImageParams} (h : imageParams v image = some p) :
    ¬RoundTrips e v image classnum account users := by
  intro hback
  let w := World.start { Tables.empty with users := users }
  by_cases hinert : (Stmt.addSelect classnum account).Inert
  · obtain ⟨res, w', hrun, husers⟩ := exists_run_add_inert (S := .rejecting e) (w := w) h hinert
    obtain ⟨r, hr, hnamed⟩ := exists_setImage_addUsers e classnum account p w.tables
    exact not_givesBack_setImage h r
      (hback _ _ w w' res rfl rfl (by decide) hrun _ (husers ▸ hr) hnamed)
  · obtain ⟨res, w', hrun, husers⟩ := exists_run_add_foreign (e := e) (w := w) h hinert
    have hrow := hback _ _ w w' res rfl rfl (by decide) hrun (.new classnum account [] [] 0)
      (husers ▸ List.mem_singleton_self _) (named_refl e rfl rfl)
    exact Option.some_ne_none _ hrow.pixels.symm

/-- Stored images are given back only where none can be stored. -/
theorem roundTrips_iff_unreadable (e : Collation) (v : Vision) (image : Mat)
    (classnum account : Bytes) (users : List UserRow) :
    RoundTrips e v image classnum account users ↔ imageParams v image = none := by
  refine ⟨fun h => ?_, fun hnone S o w w' res _ _ ho hrun => ?_⟩
  · by_contra hsome
    obtain ⟨p, hp⟩ := Option.ne_none_iff_exists'.mp hsome
    exact not_roundTrips hp h
  · have hunread : (Prog.run (serve S o.ok) (CDetectModel.add v image classnum account) w).1 =
        none := run_add_unreadable ho hnone
    rw [hrun] at hunread
    exact absurd hunread (Option.some_ne_none res)

/-- An image of one pixel is stored as two bytes. -/
theorem not_roundTrips_pixel : ¬RoundTrips .binary ⟨fun _ => 1, id, fun _ _ => 0⟩
    ⟨1, 1, 0, [7, 0]⟩ (ascii "1") (ascii "ann") [.new (ascii "1") (ascii "ann") [] [] 1] :=
  not_roundTrips (p := ⟨[7, 0], 1, 1, 0, 1⟩) (by decide +kernel)

end WzxServer
