import WzxServer.Directory

/-!
# One relation for each pair of users

Both directions of a conversation share one row of `relationShip_table`, under the ids of
the two users with the smaller one first. `Relations` is what every request keeps of that
table, and `ends_getRelationId` says that a request for the relation of two users ends with
the id of the one row of the pair, made if it was not there.

The model looks for the row, inserts it where there is none, and asks for the id of the last
insertion. That the two steps give the same row is what `exists_relate` is about : a pair that
was related has one row by the invariant, and one that was not gets the next id of the table.
-/

namespace WzxServer

open Prog Proc World

instance lawfulBEq_pair : LawfulBEq (ℤ × ℤ) :=
  inferInstance

/-- The two ids of a row. -/
def RelationRow.pair (r : RelationRow) : ℤ × ℤ :=
  (r.smallId, r.bigId)

/-- Two ids, the smaller one first. -/
def pairOf (i j : ℤ) : ℤ × ℤ :=
  (min i j, max i j)

/-- The order of the two does not matter. -/
theorem pairOf_comm (i j : ℤ) : pairOf i j = pairOf j i := by
  rw [pairOf, pairOf, min_comm, max_comm]

/-- An unordered pair determines its members. -/
theorem pairOf_eq_iff {i j k l : ℤ} :
    pairOf i j = pairOf k l ↔ i = k ∧ j = l ∨ i = l ∧ j = k := by
  rw [pairOf, pairOf, Prod.mk.injEq]
  omega

/-- Each pair of users has at most one row, none is removed, and the ids were given in
order. -/
structure Relations (t : Tables) : Prop where
  /-- No relation is removed. -/
  status : ∀ r ∈ t.relations, r.status = 0
  /-- The ids are a primary key. -/
  ids : (t.relations.map RelationRow.id).Nodup
  /-- A pair has at most one row. -/
  pairs : (t.relations.map RelationRow.pair).Nodup
  /-- `AUTO_INCREMENT` starts from 1. -/
  next_pos : 0 < t.nextRelation
  /-- So the next id is new, and none is 0. -/
  id_lt : ∀ r ∈ t.relations, 0 < r.id ∧ r.id < t.nextRelation

/-- The row of a new relation. -/
def newRelation (t : Tables) (i j now : ℤ) : RelationRow :=
  ⟨t.nextRelation, min i j, max i j, 0, now, now⟩

/-- The tables with a relation of `i` and `j`, inserted if there was none. -/
def Tables.relate (t : Tables) (i j now : ℤ) : Tables :=
  if pairOf i j ∈ t.relations.map RelationRow.pair then t
  else { t with
    relations := t.relations ++ [newRelation t i j now], nextRelation := t.nextRelation + 1 }

variable {t : Tables} {i j now : ℤ}

/-- There is still one row for each pair. -/
theorem Relations.relate (h : Relations t) (i j now : ℤ) : Relations (t.relate i j now) := by
  rw [Tables.relate]
  split_ifs with hmem
  · exact h
  · refine ⟨?_, ?_, ?_, ?_, ?_⟩
    · intro r hr
      rcases List.mem_append.mp hr with hr | hr
      · exact h.status r hr
      · obtain rfl := List.mem_singleton.mp hr
        rfl
    · rw [List.map_append, List.nodup_append]
      refine ⟨h.ids, List.nodup_singleton _, ?_⟩
      rintro a ha b hb rfl
      obtain ⟨r, hr, rfl⟩ := List.mem_map.mp ha
      have hlt := (h.id_lt r hr).2
      simp only [List.map_cons, List.map_nil, List.mem_singleton, newRelation] at hb
      omega
    · rw [List.map_append, List.nodup_append]
      refine ⟨h.pairs, List.nodup_singleton _, ?_⟩
      rintro a ha b hb rfl
      obtain rfl := List.mem_singleton.mp hb
      exact hmem ha
    · have := h.next_pos
      simp only
      omega
    · intro r hr
      rcases List.mem_append.mp hr with hr | hr
      · have := h.id_lt r hr
        simp only
        omega
      · obtain rfl := List.mem_singleton.mp hr
        exact ⟨h.next_pos, by simp [newRelation]⟩

/-- Afterwards the pair has a row. -/
theorem exists_relate (t : Tables) (i j now : ℤ) :
    ∃ r ∈ (t.relate i j now).relations, r.pair = pairOf i j := by
  rw [Tables.relate]
  split_ifs with hmem
  · exact List.mem_map.mp hmem
  · exact ⟨newRelation t i j now, by simp, rfl⟩

/-- The rows before stay. -/
theorem mem_relate {r : RelationRow} (hr : r ∈ t.relations) (i j now : ℤ) :
    r ∈ (t.relate i j now).relations := by
  rw [Tables.relate]
  split_ifs
  · exact hr
  · exact List.mem_append_left _ hr

theorem nextRelation_relate_le (t : Tables) (i j now : ℤ) :
    (t.relate i j now).nextRelation ≤ t.nextRelation + 1 := by
  rw [Tables.relate]
  split_ifs <;> simp

@[simp] theorem users_relate (t : Tables) (i j now : ℤ) :
    (t.relate i j now).users = t.users := by
  rw [Tables.relate]
  split_ifs <;> rfl

@[simp] theorem messages_relate (t : Tables) (i j now : ℤ) :
    (t.relate i j now).messages = t.messages := by
  rw [Tables.relate]
  split_ifs <;> rfl

/-! ## The model -/

/-- The rows of a pair, as the queries of the model find them. -/
theorem filter_pair (i j : ℤ) (rs : List RelationRow) :
    rs.filter (fun r => r.smallId = min i j ∧ r.bigId = max i j) =
      rs.filter fun r => r.pair = pairOf i j := by
  simp [RelationRow.pair, pairOf]

/-- No relation was removed. -/
theorem Relations.filter_status (h : Relations t) (i j : ℤ) :
    t.relations.filter (fun r => r.smallId = min i j ∧ r.bigId = max i j ∧ r.status = 0) =
      t.relations.filter fun r => r.pair = pairOf i j := by
  rw [← filter_pair]
  refine List.filter_congr fun r hr => ?_
  simp [h.status r hr]

variable {S : Server} {w : World}

/-- A relation that is missing is inserted. -/
theorem ends_addRelation
    (hmem : pairOf i j ∉ w.tables.relations.map RelationRow.pair) :
    Ends (serve S allOk) (CRelationModel.addRelation (min i j) (max i j)) w fun n w' =>
      n = w.tables.nextRelation ∧ w'.tables = w.tables.relate i j (S.clock w.reads) ∧
        w'.reads = w.reads + 1 ∧ w'.sent = w.sent := by
  have hselect := MySQL.exec_of_plain (M := S.mysql)
    (s := .addRelationSelect (min i j) (max i j)) rfl w.tables
  have hinsert := MySQL.exec_of_plain (M := S.mysql)
    (s := .addRelationInsert (min i j) (max i j) 0 (S.clock w.reads)) rfl w.tables
  have hempty : w.tables.relations.filter (fun r => r.smallId = min i j ∧ r.bigId = max i j) =
      [] := by
    rw [filter_pair, List.filter_eq_nil_iff]
    intro r hr heq
    exact hmem (List.mem_map.2 ⟨r, hr, by simpa using heq⟩)
  rw [CRelationModel.addRelation, ends_getDBConn_bind rfl]
  dsimp only
  rw [ends_ask_bind]
  refine ends_executeQuery_bind w.txn_acquire
    (hselect.trans (?_ : _ = Effect.select w.tables [])) rfl ?_
  · exact congrArg (fun rs => Effect.select w.tables (rs.map fun r => idRow r.id)) hempty
  · intro w₁ hsame htxn
    have hexec := exec_of_none (M := S.mysql) ((congrFun htxn w.conns).trans w.txn_acquire)
      (.addRelationInsert (min i j) (max i j) 0 (S.clock w.reads))
    have htables : w₁.tables = w.tables := hsame.tables
    rw [htables, hinsert] at hexec
    have hreads : w₁.reads = w.reads + 1 := hsame.reads
    have hsent : w₁.sent = w.sent := hsame.sent
    simp only [insertPrepared, bind_assoc, ends_ask_bind, serve, allOk_eq, if_true, pure_eq_ret,
      ends_ret, acquire_reads, hexec, hreads, hsent]
    refine ⟨Function.update_self .., ?_, trivial, trivial⟩
    rw [Tables.relate, if_neg hmem]
    rfl

/-- A request for the relation of two users ends with the id of the row of the pair. -/
theorem ends_getRelationId (h : Relations w.tables) (hi : 0 < i) (hj : 0 < j) :
    Ends (serve S allOk) (CRelationModel.getRelationId i j true) w fun n w' =>
      (∃ now, w'.tables = w.tables.relate i j now) ∧
        (∃ r ∈ w'.tables.relations, r.id = n ∧ r.pair = pairOf i j) ∧
        w.reads ≤ w'.reads ∧ w'.sent = w.sent := by
  have hselect := MySQL.exec_of_plain (M := S.mysql)
    (s := .getRelationId (min i j) (max i j)) rfl w.tables
  have hmin : (if i > j then j else i) = min i j := by
    split_ifs <;> omega
  have hmax : (if i > j then i else j) = max i j := by
    split_ifs <;> omega
  rw [CRelationModel.getRelationId, if_neg (by omega), ends_getDBConn_bind rfl]
  dsimp only
  rw [hmin, hmax]
  refine ends_executeQuery_bind w.txn_acquire hselect rfl ?_
  intro w₁ hsame htxn
  rw [h.filter_status, lastId_idRows, ret_bind, ends_ask_bind]
  by_cases hmem : pairOf i j ∈ w.tables.relations.map RelationRow.pair
  · obtain ⟨r, hr, hpair⟩ := List.mem_map.mp hmem
    have hid := h.id_lt r hr
    have hne : ¬(r.id = -1 ∧ True) := by
      omega
    have hrelate : w.tables.relate i j 0 = w.tables := if_pos hmem
    rw [← hpair, filter_of_nodup_map h.pairs hr]
    simp only [List.map_cons, List.map_nil, List.getLast?_singleton, Option.getD_some, if_neg hne,
      serve, ends_ret]
    exact ⟨⟨0, hsame.tables.trans hrelate.symm⟩, ⟨r, hsame.tables ▸ hr, rfl, rfl⟩,
      hsame.reads.ge, hsame.sent⟩
  · have hempty : w.tables.relations.filter (fun r => r.pair = pairOf i j) = [] := by
      rw [List.filter_eq_nil_iff]
      intro r hr heq
      exact hmem (List.mem_map.2 ⟨r, hr, by simpa using heq⟩)
    rw [hempty]
    have htables : w₁.tables = w.tables := hsame.tables
    refine (ends_addRelation (w := w₁) (i := i) (j := j) ?_).mono ?_
    · rwa [htables]
    · rintro n w₂ ⟨rfl, htables₂, hreads, hsent⟩
      rw [htables] at htables₂ ⊢
      refine ⟨⟨_, htables₂⟩, ?_, ?_, hsent.trans hsame.sent⟩
      · rw [htables₂, Tables.relate, if_neg hmem]
        exact ⟨newRelation w.tables i j (S.clock w₁.reads), by simp, rfl, rfl⟩
      · rw [hreads, hsame.reads]
        exact Nat.le_succ _

end WzxServer
