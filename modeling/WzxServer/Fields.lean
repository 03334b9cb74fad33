import WzxServer.Isolation

/-!
# The text fields of a request

A text field is an array of `char`, and a handler makes a string from it as if it were a C
string : from the first byte of the field up to the first NUL of `msgBuffer`. `fieldText` is
the text of the field itself. By `cString_eq_fieldText_iff` the two are the same exactly when
the field has a NUL or is followed by one, and `decodesFields_iff` says so for all fields of
all requests.

The fields of a kind are a table of offsets and sizes (`Cmd.textFields`), and `texts_of_decode`
takes the texts of a decoded request back to the offsets of the table. So the argument is about
one field at a time, and the kinds differ only in their tables.
-/

namespace WzxServer

attribute [local irreducible] toInt intAt faceSize msgBufferSize slice

/-- The offsets and sizes of the text fields that are read for a request. -/
def Cmd.textFields : Cmd → List (ℕ × ℕ)
  | .addFace => [(8, 20), (28, 20), (48, 20), (68 + faceSize + 12, 50)]
  | .getUser | .delGroup => [(8, 20)]
  | .delUser | .detect | .messagrRecentSession | .online | .offline | .loginTouXiang
  | .getTouXiang => [(8, 20), (28, 20)]
  | .login => [(8, 20), (28, 20), (48, 20)]
  | .changeTouXiang => [(8, 20), (28, 20), (48, 50)]
  | .messageCreate => [(8, 20), (28, 20), (48, 20), (68, 20), (88, 50)]
  | .messageSend => [(8, 20), (28, 20), (48, 20), (68, 20), (92, 4096)]
  | .messageHistory => [(8, 20), (28, 20), (48, 20), (68, 20)]
  | _ => []

/-- The strings that the handler of a request makes from its fields. -/
def Request.texts : Request → List Bytes
  | .addFace d => [d.m_classnum, d.m_account, d.m_password, d.m_touxiang]
  | .getUser m_group_id | .delGroup m_group_id => [m_group_id]
  | .delUser d => [d.m_group_id, d.m_user_id]
  | .login d => [d.m_classnum, d.m_username, d.m_password]
  | .detect d => [d.m_classnum, d.m_account]
  | .messageCreate d =>
    [d.m_fromclassnum, d.m_toclassnum, d.m_fromaccount, d.m_toaccount, d.m_peertouxiang]
  | .messageSend d => [d.fromClassNum, d.toClassNum, d.fromAccount, d.toAccount, d.messageContent]
  | .messageHistory d => [d.fromClassNum, d.toClassNum, d.fromAccount, d.toAccount]
  | .recentSession classNum account _ => [classNum, account]
  | .online d | .offline d | .loginTouXiang d | .getTouXiang d => [d.classnum, d.account]
  | .changeTouXiang d => [d.m_classNum, d.m_account, d.m_touxiang]
  | .noOperation | .getGroup | .checkIsOnline => []

/-- The text of a field : its bytes up to its first NUL, or all of them. -/
def fieldText (b : ℕ → UInt8) (field : ℕ × ℕ) : Bytes :=
  (slice b field.1 field.2).takeWhile (· ≠ 0)

/-- The handler of the frame gets the texts of its fields. -/
def DecodesFields (h : Handed) (c : Cmd) : Prop :=
  ∃ request, decode h.msgBuffer c = some request ∧
    request.texts = c.textFields.map (fieldText h.msgBuffer)

/-- The field has a NUL, or stands before one. -/
def Ended (b : ℕ → UInt8) (field : ℕ × ℕ) : Prop :=
  (0 : UInt8) ∈ slice b field.1 field.2 ∨ b (field.1 + field.2) = 0

/-! ## One field -/

section Field

variable {b : ℕ → UInt8} {off n : ℕ}

theorem slice_succ (b : ℕ → UInt8) (off n : ℕ) :
    slice b off (n + 1) = b off :: slice b (off + 1) n := by
  rw [Nat.add_comm, ← slice_append]
  simp [slice]

/-- The bytes up to the end of the buffer are those of the field, the one behind it and the
rest. -/
theorem slice_buffer (h : off + n < msgBufferSize) :
    slice b off (msgBufferSize - off) =
      slice b off n ++ b (off + n) :: slice b (off + n + 1) (msgBufferSize - (off + n + 1)) := by
  rw [← slice_succ, slice_append]
  congr 1
  omega

/-- A text without a NUL is its own. -/
theorem takeWhile_of_notMem {s : Bytes} (h : (0 : UInt8) ∉ s) : s.takeWhile (· ≠ 0) = s := by
  rw [List.takeWhile_eq_self_iff]
  exact fun c hc => decide_eq_true fun h0 => h (h0 ▸ hc)

/-- What is behind a NUL does not matter. -/
theorem takeWhile_append_of_mem {s : Bytes} (h : (0 : UInt8) ∈ s) (t : Bytes) :
    (s ++ t).takeWhile (· ≠ 0) = s.takeWhile (· ≠ 0) := by
  rw [List.takeWhile_append, if_neg]
  intro hlen
  have heq := (List.takeWhile_sublist (p := (· ≠ 0)) (l := s)).eq_of_length hlen
  have hall := List.takeWhile_eq_self_iff.mp heq 0 h
  simp at hall

/-- A string is the text of its field exactly when it is ended in the field or right behind. -/
theorem cString_eq_fieldText_iff (h : off + n < msgBufferSize) :
    cString b off = some (fieldText b (off, n)) ↔ Ended b (off, n) := by
  rw [cString, slice_buffer h, fieldText, Ended]
  by_cases hmem : (0 : UInt8) ∈ slice b off n
  · rw [if_pos (List.mem_append_left _ hmem), takeWhile_append_of_mem hmem]
    exact iff_of_true rfl (Or.inl hmem)
  · rw [takeWhile_of_notMem hmem]
    have hsplit : ∀ t : Bytes, (slice b off n ++ t).takeWhile (· ≠ 0) =
        slice b off n ++ t.takeWhile (· ≠ 0) := fun t =>
      List.takeWhile_append_of_pos fun c hc => decide_eq_true fun h0 => hmem (h0 ▸ hc)
    simp only [hsplit, List.mem_append, hmem, false_or]
    by_cases hzero : b (off + n) = 0
    · simp [hzero]
    · simp [hzero]

end Field

/-! ## All fields -/

section Fields

variable {b : ℕ → UInt8} {c : Cmd}

/-- The strings of a request are read at the offsets of its fields. -/
theorem texts_of_decode {request : Request} (h : decode b c = some request) :
    (c.textFields.map fun field => cString b field.1) = request.texts.map some := by
  cases c <;> simp only [decode, Option.bind_eq_bind, Option.pure_def, Option.bind_eq_some_iff,
    Option.some.injEq, reduceCtorEq] at h
  all_goals
    first
    | exact h ▸ rfl
    | (obtain ⟨_, h1, h⟩ := h; simp [← h, Cmd.textFields, Request.texts, h1])
    | (obtain ⟨_, h1, _, h2, h⟩ := h; simp [← h, Cmd.textFields, Request.texts, h1, h2])
    | (obtain ⟨_, h1, _, h2, _, h3, h⟩ := h
       simp [← h, Cmd.textFields, Request.texts, h1, h2, h3])
    | (obtain ⟨_, h1, _, h2, _, h3, _, h4, h⟩ := h
       simp [← h, Cmd.textFields, Request.texts, h1, h2, h3, h4])
    | (obtain ⟨_, h1, _, h2, _, h3, _, h4, _, h5, h⟩ := h
       simp [← h, Cmd.textFields, Request.texts, h1, h2, h3, h4, h5])

/-- The fields are at the offsets that are read. -/
theorem map_textFields (c : Cmd) : c.textFields.map Prod.fst = textOffs c := by
  cases c <;> rfl

/-- When all its strings end in the buffer, a request is read. -/
theorem exists_decode_of_texts (hc : c ∈ Cmd.cases)
    (h : ∀ field ∈ c.textFields, (cString b field.1).isSome = true) :
    ∃ request, decode b c = some request := by
  have hoffs : ∀ off ∈ textOffs c, (cString b off).isSome = true := by
    rw [← map_textFields, List.forall_mem_map]
    exact h
  rcases hnone : textOffs c with _ | ⟨off, offs⟩
  · cases c <;> first | exact ⟨_, rfl⟩ | exact absurd hc (by decide) | cases hnone
  · exact exists_decode (hnone ▸ List.mem_cons_self) hoffs

/-- A request is decoded to the texts at its offsets. -/
theorem decode_texts_iff (hc : c ∈ Cmd.cases) (texts : List Bytes) :
    (∃ request, decode b c = some request ∧ request.texts = texts) ↔
      (c.textFields.map fun field => cString b field.1) = texts.map some := by
  constructor
  · rintro ⟨request, hdecode, rfl⟩
    exact texts_of_decode hdecode
  · intro h
    obtain ⟨request, hdecode⟩ := exists_decode_of_texts (b := b) hc fun field hfield => by
      obtain ⟨text, -, htext⟩ := List.mem_map.mp (h ▸ List.mem_map_of_mem hfield)
      rw [← htext, Option.isSome_some]
    refine ⟨request, hdecode, ?_⟩
    rw [texts_of_decode hdecode] at h
    exact List.map_injective_iff.mpr (Option.some_injective _) h

/-- The fields lie in the buffer. -/
theorem textFields_lt {field : ℕ × ℕ} (h : field ∈ c.textFields) :
    field.1 + field.2 < msgBufferSize := by
  have hface := faceSize_eq
  have hbuffer := msgBufferSize_eq
  cases c <;> simp only [Cmd.textFields, List.mem_cons, List.not_mem_nil, or_false] at h
  all_goals
    rcases h with rfl | rfl | rfl | rfl | rfl <;> dsimp only <;> omega

/-- A handler gets the texts of all fields of its request exactly when each is ended. -/
theorem decodesFields_iff (h : Handed) (c : Cmd) (hc : coWorkCase h.header.cmd = some c) :
    DecodesFields h c ↔ ∀ field ∈ c.textFields, Ended h.msgBuffer field := by
  have hcase : c ∈ Cmd.cases := List.mem_of_find?_eq_some hc
  rw [DecodesFields, decode_texts_iff hcase, List.map_map, List.map_inj_left]
  refine forall₂_congr fun field hfield => ?_
  exact cString_eq_fieldText_iff (textFields_lt hfield)

end Fields

/-- An `ONLINE` frame with a class number of `n` ones and the account `2`. -/
def onlineFrame (n : ℕ) : Handed :=
  ⟨fun i => if i = 0 then 22 else if i = 4 then 48 else if i < 8 then 0 else if i < 8 + n then 49
    else if i = 28 then 50 else 0⟩

/-- A frame whose names have one letter. -/
theorem decodesFields_iff_one : DecodesFields (onlineFrame 1) .online ↔
    ∀ field ∈ Cmd.online.textFields, Ended (onlineFrame 1).msgBuffer field :=
  decodesFields_iff (onlineFrame 1) .online (by decide +kernel)

/-- A class number that fills its field goes on with the account. -/
theorem not_decodesFields_twenty :
    (onlineFrame 20).header = ⟨Cmd.online.code, 48⟩ ∧ ¬DecodesFields (onlineFrame 20) .online := by
  refine ⟨by decide +kernel, fun ⟨request, hdecode, htexts⟩ => ?_⟩
  have hfirst : cString (onlineFrame 20).msgBuffer 8 =
      some (fieldText (onlineFrame 20).msgBuffer (8, 20)) := by
    have h := texts_of_decode hdecode
    rw [htexts] at h
    exact (List.cons.inj h).1
  have hended : Ended (onlineFrame 20).msgBuffer (8, 20) := by
    refine (cString_eq_fieldText_iff ?_).1 hfirst
    rw [msgBufferSize_eq]
    decide
  revert hended
  unfold Ended
  decide +kernel

end WzxServer
