import WzxServer.Specs

/-!
# The map of users and the table

`ONLINE` and `OFFLINE` set the entry of a user in `m_userMap` and then the row; `GETUSER` reads
the row and then sets the entry. Between the two accesses the handlers of other clients run, and
whether the statement on the row succeeds is not looked at.

`Access` is where a handler stands with an entry and its row. By `agrees_of_run` the map and the
table agree whenever no handler is in progress, in every run in which no `UPDATE` fails, no entry
is set while an other handler has set it to something else and is yet to write the row, and no
row is written while an other handler has read something else from it and is yet to set the
entry.

The invariant (`Present`) says what an entry and a row may be while handlers are between their two
accesses : they agree, but for the users that some handler is about. A step of a handler begins
with a user, sets its entry or marks its row, and there is one lemma for each of these. What the
handlers ask for, and in which order, is a fact about their programs and is kept apart from it.

Of two users with the same names for MySQL but not for the map nothing is said : the names of the
users are spelt in one way (`Spelt`).
-/

namespace WzxServer

open Prog Proc World

variable {S : Server} {w w' : World} {T : Type} [DecidableEq T]

/-- The names of a user, which are the key of an entry. -/
def UserRow.key (r : UserRow) : Bytes × Bytes :=
  (r.classnum, r.account)

/-- The entry of a key. -/
def World.entry (w : World) (k : Bytes × Bytes) : Option ℤ :=
  (w.userMap.find? fun p => p.1 = k).map Prod.snd

/-- Every entry whose key names a row holds the `islogin` of the row. -/
def Agrees (S : Server) (w : World) : Prop :=
  ∀ r ∈ w.tables.users, ∀ k n, r.named S.mysql.toCollation k.1 k.2 = true → w.entry k = some n →
    n = r.islogin

/-! ## Entries -/

theorem find_setKey (k k' : Bytes × Bytes) (v : ℤ) (l : List ((Bytes × Bytes) × ℤ)) :
    ((setKey k v l).find? fun p => p.1 = k').map Prod.snd =
      if k' = k then some v else (l.find? fun p => p.1 = k').map Prod.snd := by
  induction l with
  | nil =>
    rw [setKey]
    split_ifs with hk
    · simp [hk]
    · simp [Ne.symm hk]
  | cons p l ih =>
    rw [setKey]
    rcases eq_or_ne k' k with rfl | hk
    · rw [if_pos rfl] at ih ⊢
      split_ifs with hp
      · simp
      · simp
      · rw [List.find?_cons_of_neg (by simpa using hp)]
        exact ih
    · rw [if_neg hk] at ih ⊢
      split_ifs with hp
      · rw [List.find?_cons_of_neg (by simpa using hk.symm),
          List.find?_cons_of_neg (by simpa [hp] using hk.symm)]
      · rw [List.find?_cons_of_neg (by simpa using hk.symm)]
      · rw [List.find?_cons, List.find?_cons]
        split
        · rfl
        · exact ih

theorem World.entry_userMapSet (w : World) (k k' : Bytes × Bytes) (n : ℤ) :
    (w.userMapSet k n).entry k' = if k' = k then some n else w.entry k' :=
  find_setKey k k' n w.userMap

/-! ## What a handler has done -/

/-- Where a handler stands with the entry and the row of a user. -/
inductive Access where
  /-- The handler is about nobody. -/
  | idle
  /-- It has not yet touched the user. -/
  | looking (k : Bytes × Bytes)
  /-- It has set the entry to `n`, and is yet to write the row. -/
  | opened (k : Bytes × Bytes) (n : ℤ)
  /-- It has read `n` from the row, and is yet to set the entry. -/
  | read (k : Bytes × Bytes) (n : ℤ)

namespace Access

/-- The user that a handler is about. -/
def key : Access → Option (Bytes × Bytes)
  | idle => none
  | looking k | opened k _ | read k _ => some k

/-- What was put into the entry of `k`, until it is in the row. -/
def opens (k : Bytes × Bytes) : Access → Option ℤ
  | opened k' n => if k' = k then some n else none
  | _ => none

/-- What was read from the row of `k`, until it is in the entry. -/
def reads (k : Bytes × Bytes) : Access → Option ℤ
  | read k' n => if k' = k then some n else none
  | _ => none

/-- An entry is set. -/
def set (k : Bytes × Bytes) (n : ℤ) : Access → Access
  | idle | opened _ _ => opened k n
  | looking k' => looking k'
  | read _ _ => idle

/-- A row is looked up. -/
def found : Option (List Row) → Access → Access
  | some (row :: _), looking k => read k ((row.int? .islogin).getD 0)
  | _, s => s

/-- After an exchange. -/
def next (s : Access) : (o : Op) → o.Ans → Access
  | .userMapFind k, _ => looking k
  | .userMapSet k n, _ => s.set k n
  | .executeQuery _ (.isLogin _ _), res => s.found res
  | .executeQuery _ (.loginOnline _ _ _), _ | .executeQuery _ (.loginOffline _ _), _ => idle
  | _, _ => s

/-- What a handler asks for, `names` being the users and `ip` the address of the peer. -/
def Allows (names : List (Bytes × Bytes)) (ip : Bytes) (s : Access) : Op → Prop
  | .userMapFind k => s = idle ∧ k ∈ names
  | .userMapSet k n => k ∈ names ∧ (s = idle ∨ s = looking k ∨ s = read k n)
  | .executeQuery _ (.isLogin g a) => s = looking (g, a)
  | .executeQuery _ (.loginOnline ip' c a) => s = opened (c, a) 1 ∧ ip' = ip
  | .executeQuery _ (.loginOffline c a) => s = opened (c, a) 0
  | .executeQuery _ (.groupGetusers g) => ∃ k ∈ names, k.1 = g
  | .executeQuery _ _ | .executeUpdate _ _ | .startTransaction _ | .commit _ | .rollback _
  | .execute _ _ => False
  | _ => True

/-- The answers : the users of a group are registered, and so is a user that was looked for. -/
def Admits (names : List (Bytes × Bytes)) (ip : Bytes) : (o : Op) → o.Ans → Prop
  | .executeQuery _ (.groupGetusers g), res =>
    ∀ row ∈ res.getD [], ∃ a, row.getString .account = some a ∧ (0 : UInt8) ∉ a ∧ (g, a) ∈ names
  | .executeQuery _ (.isLogin _ _), res =>
    ∀ rows ∈ res, ∃ row rest n, rows = row :: rest ∧ row.int? .islogin = some n
  | .peerIp, r => r = ip
  | _, _ => True

end Access

/-- The monitor of the accesses. -/
def accesses (names : List (Bytes × Bytes)) (ip : Bytes) : Monitor Db where
  State := Access
  allowed := Access.Allows names ip
  admits _ := Access.Admits names ip
  next := Access.next

/-- Where the handler of a client stands. -/
def accessOf (c : Threads.Config Db World T) (t : T) : Access :=
  (c.trace t).foldl (fun s e => s.next e.1 e.2) .idle

omit [DecidableEq T] in
theorem notes_accesses {names : List (Bytes × Bytes)} {ip : Bytes}
    (c : Threads.Config Db World T) :
    c.notes (accesses names ip) Access.idle = accessOf c := by
  ext1 t
  exact Monitor.after_eq_foldl _ _ _

/-! ## The condition -/

/-- The entry that is set, and to what. -/
def Op.sets : Op → Option ((Bytes × Bytes) × ℤ)
  | .userMapSet k n => some (k, n)
  | _ => none

/-- The row that is marked, and with what. -/
def Op.marks : Op → Option ((Bytes × Bytes) × ℤ)
  | .executeQuery _ (.loginOnline _ c a) => some ((c, a), 1)
  | .executeQuery _ (.loginOffline c a) => some ((c, a), 0)
  | _ => none

/-- The condition on a step. An entry is set while no other handler has set it to something else
and is yet to mark the row. A row is marked, and this succeeds, while no other handler has read
something else from it and is yet to set the entry. -/
def Orderly (c : Threads.Config Db World T) (t : T) (o : Op) (ok : Bool) : Prop :=
  (∀ p ∈ o.sets, ∀ t' ≠ t, ∀ n ∈ (accessOf c t').opens p.1, n = p.2) ∧
  ∀ p ∈ o.marks, ok = true ∧ ∀ t' ≠ t, ∀ n ∈ (accessOf c t').reads p.1, n = p.2

instance [Fintype T] (c : Threads.Config Db World T) (t : T) (o : Op) (ok : Bool) :
    Decidable (Orderly c t o ok) :=
  inferInstanceAs (Decidable (_ ∧ _))

/-- The names of the users are spelt in one way, and stand for themselves in a statement. -/
structure Spelt (e : Collation) (names : List (Bytes × Bytes)) : Prop where
  nodup : names.Nodup
  /-- The names can be put into a statement. -/
  inert : ∀ k ∈ names, mysql.inert k.1 = true ∧ mysql.inert k.2 = true
  /-- An account comes back as it was stored. -/
  noNul : ∀ k ∈ names, (0 : UInt8) ∉ k.2
  /-- Class numbers that are equal for MySQL are equal for the map. -/
  fst : ∀ k ∈ names, ∀ k' ∈ names, e.eq k.1 k'.1 = true → k.1 = k'.1
  /-- And so are accounts. -/
  snd : ∀ k ∈ names, ∀ k' ∈ names, e.eq k.2 k'.2 = true → k.2 = k'.2

/-- The handlers of `ONLINE`, `OFFLINE` and `GETUSER` requests about registered users. -/
def AboutUsers (t₀ : Tables) (p : Proc Unit) : Prop :=
  ∃ r ∈ t₀.users, p = LoginOnlineEvent ⟨r.classnum, r.account⟩ ∨
    p = LoginOfflineEvent ⟨r.classnum, r.account⟩ ∨ p = getuserListEvent r.classnum

/-! ## The handlers -/

section Handlers

variable {names : List (Bytes × Bytes)} {ip : Bytes} {s : Access} {α β : Type}

theorem access_sprintf_bind {size : ℕ} {stmt : Stmt} {f : Stmt → Proc β} {Q : β → Access → Prop}
    (hf : Obeys (accesses names ip) (f stmt) s Q) :
    Obeys (accesses names ip) (sprintf size stmt >>= f) s Q := by
  rw [sprintf]
  split_ifs
  · exact hf
  · trivial

theorem access_deref_bind {a : Option α} {f : α → Proc β} {Q : β → Access → Prop}
    (hf : ∀ b, a = some b → Obeys (accesses names ip) (f b) s Q) :
    Obeys (accesses names ip) (deref a >>= f) s Q := by
  rcases a with _ | b
  · trivial
  · exact hf b rfl

theorem access_LoginOnlineEvent {d : UserName} (hd : (d.classnum, d.account) ∈ names) :
    Obeys (accesses names ip) (LoginOnlineEvent d) .idle fun _ s => s = .idle := by
  refine ⟨trivial, fun conn _ => ⟨trivial, fun peer hpeer => ?_⟩⟩
  obtain rfl : peer = ip := hpeer
  refine access_sprintf_bind ⟨⟨hd, Or.inl rfl⟩, fun _ _ => ?_⟩
  refine access_deref_bind fun c _ => ⟨⟨rfl, rfl⟩, fun res _ => ?_⟩
  exact ⟨trivial, fun _ _ => ⟨trivial, fun _ _ => rfl⟩⟩

theorem access_LoginOfflineEvent {d : UserName} (hd : (d.classnum, d.account) ∈ names) :
    Obeys (accesses names ip) (LoginOfflineEvent d) .idle fun _ s => s = .idle := by
  refine ⟨trivial, fun conn _ => access_sprintf_bind ⟨⟨hd, Or.inl rfl⟩, fun _ _ => ?_⟩⟩
  refine access_deref_bind fun c _ => ⟨rfl, fun res _ => ?_⟩
  exact ⟨trivial, fun _ _ => ⟨trivial, fun _ _ => rfl⟩⟩

/-- The end of a turn of `GETUSER`, once the row was read. -/
theorem access_refreshFrom {g account : Bytes} (hk : (g, account) ∈ names) {c : Conn} {row : Row}
    {rest : List Row} {n : ℤ} (hrow : row.int? .islogin = some n) :
    Obeys (accesses names ip) (refreshFrom g account c (row :: rest)) (.read (g, account) n)
      fun _ s => s = .idle := by
  rw [refreshFrom, getInt_eq, hrow]
  exact ⟨⟨hk, Or.inr (Or.inr rfl)⟩, fun _ _ => ⟨trivial, fun _ _ => rfl⟩⟩

theorem access_refreshUser {g account : Bytes} (hk : (g, account) ∈ names) :
    Obeys (accesses names ip) (refreshUser g account) .idle fun _ s => s = .idle := by
  have hrest : Obeys (accesses names ip) (openQuery 200 (.isLogin g account) >>= fun r =>
      deref r.2 >>= refreshFrom g account r.1) (.looking (g, account)) fun _ s => s = .idle := by
    simp only [openQuery, bind_assoc]
    refine ⟨trivial, fun conn _ => ?_⟩
    refine access_sprintf_bind (access_deref_bind fun c _ => ⟨rfl, fun res hres => ?_⟩)
    refine access_deref_bind fun rows hrows => ?_
    obtain rfl : res = some rows := hrows
    obtain ⟨row, rest, n, rfl, hrow⟩ := hres rows rfl
    have hnext : Access.next (.looking (g, account)) (.executeQuery c (.isLogin g account))
        (some (row :: rest)) = .read (g, account) n := by
      simp [Access.next, Access.found, hrow]
    have hturn : Obeys (accesses names ip) (refreshFrom g account c (row :: rest))
        (.read (g, account) n) fun _ s => s = .idle := access_refreshFrom hk hrow
    rw [← hnext] at hturn
    exact hturn
  rw [refreshUser_eq]
  refine ⟨⟨rfl, hk⟩, fun known _ => ?_⟩
  rcases known with _ | islogin
  · exact ⟨⟨hk, Or.inr (Or.inl rfl)⟩, fun _ _ => hrest⟩
  · exact hrest

theorem access_getText_bind {row : Row} {key : Col} {f : Bytes → Proc β} {Q : β → Access → Prop}
    (hf : ∀ a, row.getString key = some a → Obeys (accesses names ip) (f (a.takeWhile (· ≠ 0))) s Q) :
    Obeys (accesses names ip) (getText row key >>= f) s Q := by
  rw [getText, bind_assoc]
  exact access_deref_bind hf

/-- The users of a group are registered. -/
theorem access_groupGetusers {g : Bytes} (hg : ∃ k ∈ names, k.1 = g) :
    Obeys (accesses names ip) (CDetectModel.groupGetusers g) .idle fun users s =>
      s = .idle ∧ ∀ user ∈ users, (g, user.1) ∈ names := by
  refine ⟨trivial, fun conn _ => access_deref_bind fun c _ => ⟨hg, fun res hres => ?_⟩⟩
  refine access_deref_bind fun rows hrows => ?_
  obtain rfl : res = some rows := hrows
  refine Obeys.bind (Obeys.forEach_values (P := fun user => (g, user.1) ∈ names) ?_) ?_
  · intro row hmem
    obtain ⟨account, haccount, hnul, hk⟩ := hres row hmem
    refine access_getText_bind fun a ha => access_getText_bind fun b _ => ⟨rfl, ?_⟩
    obtain rfl := Option.some.inj (ha.symm.trans haccount)
    rw [List.takeWhile_eq_self_iff.mpr]
    · exact hk
    · rintro x hx
      rw [decide_eq_true_iff]
      rintro rfl
      exact hnul hx
  · rintro users _ ⟨rfl, husers⟩
    exact ⟨trivial, fun _ _ => ⟨rfl, husers⟩⟩

theorem access_getuserListEvent {g : Bytes} (hg : ∃ k ∈ names, k.1 = g) :
    Obeys (accesses names ip) (getuserListEvent g) .idle fun _ s => s = .idle := by
  refine (access_groupGetusers hg).bind ?_
  rintro users _ ⟨rfl, husers⟩
  refine (Obeys.forEach (I := fun s : Access => s = .idle) ?_ rfl).bind ?_
  · rintro user huser _ rfl
    exact access_refreshUser (husers user huser)
  · rintro _ _ rfl
    exact ⟨trivial, fun _ _ => rfl⟩

theorem access_aboutUsers {t₀ : Tables} {p : Proc Unit} (hp : AboutUsers t₀ p) :
    Obeys (accesses (t₀.users.map UserRow.key) ip) p .idle fun _ s => s = .idle := by
  obtain ⟨r, hr, rfl | rfl | rfl⟩ := hp
  · exact access_LoginOnlineEvent (List.mem_map_of_mem hr)
  · exact access_LoginOfflineEvent (List.mem_map_of_mem hr)
  · exact access_getuserListEvent ⟨_, List.mem_map_of_mem hr, rfl⟩

end Handlers

/-! ## One step -/

/-- What holds of the world and of where the handlers stand : the users stay, an entry that was
set is there until the row is marked, a row that was read stays until the entry is set, and the
users that no handler is about agree. -/
structure Present (names : List (Bytes × Bytes)) (w : World) (n : T → Access) : Prop where
  /-- These handlers have no transactions. -/
  txn : ∀ c, w.txn c = none
  /-- No user comes or goes. -/
  users : w.tables.users.map UserRow.key = names
  /-- Entries are about users. -/
  entries : ∀ k, ∀ m ∈ w.entry k, k ∈ names
  /-- So are the handlers. -/
  about : ∀ t, ∀ k ∈ (n t).key, k ∈ names
  /-- What was put into an entry stays there until it is in the row. -/
  opens : ∀ t k, ∀ m ∈ (n t).opens k, w.entry k = some m
  /-- What was read from a row stays there until it is in the entry. -/
  reads : ∀ t k, ∀ m ∈ (n t).reads k, ∀ r ∈ w.tables.users, r.key = k → r.islogin = m
  /-- Where no handler is in between, the entry and the row agree. -/
  settled : ∀ r ∈ w.tables.users, (∀ t, (n t).key ≠ some r.key) →
    ∀ m ∈ w.entry r.key, m = r.islogin

theorem Spelt.named_iff {e : Collation} {names : List (Bytes × Bytes)} (h : Spelt e names)
    {r : UserRow} (hr : r.key ∈ names) {k : Bytes × Bytes} (hk : k ∈ names) :
    r.named e k.1 k.2 = true ↔ r.key = k := by
  rw [UserRow.named, Bool.and_eq_true]
  refine ⟨fun ⟨hfst, hsnd⟩ => Prod.ext (h.fst _ hr _ hk hfst) (h.snd _ hr _ hk hsnd), ?_⟩
  rintro rfl
  exact ⟨e.eq_refl _, e.eq_refl _⟩

theorem Spelt.inert_pair {e : Collation} {names : List (Bytes × Bytes)} (hspelt : Spelt e names) {k : Bytes × Bytes}
    (hk : k ∈ names) : ∀ f ∈ [k.1, k.2], mysql.inert f = true := by
  simpa using hspelt.inert k hk

section Step

variable {names : List (Bytes × Bytes)} {n : T → Access} {t : T}

namespace Present

omit [DecidableEq T] in
theorem key_mem (h : Present names w n) {r : UserRow} (hr : r ∈ w.tables.users) :
    r.key ∈ names :=
  h.users ▸ List.mem_map_of_mem hr

omit [DecidableEq T] in
/-- When no handler is in progress the map and the table agree. -/
theorem agrees (h : Present names w n) (hspelt : Spelt S.mysql.toCollation names)
    (hidle : ∀ t, n t = .idle) : Agrees S w := by
  intro r hr k m hnamed hentry
  obtain rfl := (hspelt.named_iff (h.key_mem hr) (h.entries k m hentry)).mp hnamed
  refine h.settled r hr (fun t => ?_) m hentry
  rw [hidle t]
  exact Option.some_ne_none _ |>.symm

omit [DecidableEq T] in
/-- What changes neither tables nor entries. -/
theorem congr (h : Present names w n) (htables : w'.tables = w.tables)
    (hmap : w'.userMap = w.userMap) (htxn : ∀ c, w'.txn c = none) : Present names w' n := by
  have hentry : ∀ k, w'.entry k = w.entry k := fun k => by rw [World.entry, hmap, World.entry]
  refine ⟨htxn, htables ▸ h.users, fun k m hm => h.entries k m (hentry k ▸ hm), h.about,
    fun t k m hm => (hentry k).trans (h.opens t k m hm),
    fun t k m hm r hr => h.reads t k m hm r (htables ▸ hr), fun r hr hfree m hm => ?_⟩
  exact h.settled r (htables ▸ hr) hfree m (hentry r.key ▸ hm)

/-- One handler goes on to `s` : what holds of `s`, what the others keep, and the users that
nobody is about any more. -/
theorem goes (h : Present names w n) {s : Access} (htxn : ∀ c, w'.txn c = none)
    (husers : w'.tables.users.map UserRow.key = names)
    (hentries : ∀ k, ∀ m ∈ w'.entry k, k ∈ names) (habout : ∀ k ∈ s.key, k ∈ names)
    (hopens : ∀ k, ∀ m ∈ s.opens k, w'.entry k = some m)
    (hreads : ∀ k, ∀ m ∈ s.reads k, ∀ r ∈ w'.tables.users, r.key = k → r.islogin = m)
    (hopens' : ∀ t' ≠ t, ∀ k, ∀ m ∈ (n t').opens k, w'.entry k = some m)
    (hreads' : ∀ t' ≠ t, ∀ k, ∀ m ∈ (n t').reads k,
      ∀ r ∈ w'.tables.users, r.key = k → r.islogin = m)
    (hsettled : ∀ r ∈ w'.tables.users, s.key ≠ some r.key →
      (∀ t' ≠ t, (n t').key ≠ some r.key) → ∀ m ∈ w'.entry r.key, m = r.islogin) :
    Present names w' (Function.update n t s) where
  txn := htxn
  users := husers
  entries := hentries
  about := (Function.forall_update_iff n fun _ s => ∀ k ∈ s.key, k ∈ names).mpr
    ⟨habout, fun t' _ => h.about t'⟩
  opens := (Function.forall_update_iff n
    fun _ s => ∀ k, ∀ m ∈ s.opens k, w'.entry k = some m).mpr ⟨hopens, hopens'⟩
  reads := (Function.forall_update_iff n fun _ s => ∀ k, ∀ m ∈ s.reads k,
    ∀ r ∈ w'.tables.users, r.key = k → r.islogin = m).mpr ⟨hreads, hreads'⟩
  settled r hr hfree := by
    have hfree' := (Function.forall_update_iff n fun _ s => s.key ≠ some r.key).mp hfree
    exact hsettled r hr hfree'.1 hfree'.2

/-- A handler begins with a user. -/
theorem find (h : Present names w n) {k : Bytes × Bytes} (hk : k ∈ names)
    (hidle : n t = .idle) : Present names w (Function.update n t (.looking k)) := by
  refine h.goes h.txn h.users h.entries ?_ (fun _ _ hm => absurd hm (Option.not_mem_none _))
    (fun _ _ hm => absurd hm (Option.not_mem_none _)) (fun t' _ => h.opens t')
    (fun t' _ => h.reads t') fun r hr _ hfree => h.settled r hr fun t' => ?_
  · intro k' hk'
    obtain rfl := Option.some.inj hk'
    exact hk
  · rcases eq_or_ne t' t with rfl | ht
    · rw [hidle]
      exact (Option.some_ne_none _).symm
    · exact hfree t' ht

/-- What is read from the row of a user is in the row. -/
theorem found (h : Present names w n) {k : Bytes × Bytes} {m : ℤ} (hlooking : n t = .looking k)
    (hrow : ∀ r ∈ w.tables.users, r.key = k → r.islogin = m) :
    Present names w (Function.update n t (.read k m)) := by
  refine h.goes h.txn h.users h.entries (fun k' hk' => h.about t k' (hlooking ▸ hk'))
    (fun _ _ hm => absurd hm (Option.not_mem_none _)) (fun k' m' hm' => ?_)
    (fun t' _ => h.opens t') (fun t' _ => h.reads t')
    fun r hr hkey hfree => h.settled r hr fun t' => ?_
  · rw [Access.reads] at hm'
    split_ifs at hm' with hk
    · obtain rfl := Option.some.inj hm'
      exact hk ▸ hrow
    · exact absurd hm' (Option.not_mem_none _)
  · rcases eq_or_ne t' t with rfl | ht
    · rw [hlooking]
      exact hkey
    · exact hfree t' ht

/-- An entry is set : a new one, one to be marked, or to what was read from the row. -/
theorem set (h : Present names w n) {k : Bytes × Bytes} {m : ℤ} (hk : k ∈ names)
    (ht : n t = .idle ∨ n t = .looking k ∨ n t = .read k m)
    (hothers : ∀ t' ≠ t, ∀ m' ∈ (n t').opens k, m' = m) :
    Present names (w.userMapSet k m) (Function.update n t ((n t).set k m)) := by
  have hentry := w.entry_userMapSet k
  refine h.goes h.txn h.users ?_ ?_ ?_ ?_ ?_ (fun t' _ => h.reads t') ?_
  · intro k' m' hm'
    rw [hentry] at hm'
    split_ifs at hm' with hk'
    · exact hk' ▸ hk
    · exact h.entries k' m' hm'
  · intro k' hk'
    rcases ht with ht | ht | ht <;> rw [ht] at hk'
    · obtain rfl := Option.some.inj hk'
      exact hk
    · obtain rfl := Option.some.inj hk'
      exact hk
    · exact absurd hk' (Option.not_mem_none _)
  · intro k' m' hm'
    rcases ht with ht | ht | ht <;> rw [ht] at hm'
    · simp only [Access.set, Access.opens] at hm'
      split_ifs at hm' with hk'
      · obtain rfl := Option.some.inj hm'
        rw [hentry, if_pos hk'.symm]
      · exact absurd hm' (Option.not_mem_none _)
    · exact absurd hm' (Option.not_mem_none _)
    · exact absurd hm' (Option.not_mem_none _)
  · intro k' m' hm'
    rcases ht with ht | ht | ht <;> rw [ht] at hm' <;> exact absurd hm' (Option.not_mem_none _)
  · intro t' ht' k' m' hm'
    rw [hentry]
    split_ifs with hk'
    · rw [hothers t' ht' m' (hk' ▸ hm')]
    · exact h.opens t' k' m' hm'
  · intro r hr hkey hfree m' hm'
    rw [hentry] at hm'
    split_ifs at hm' with hk'
    · obtain rfl := Option.some.inj hm'
      rcases ht with ht | ht | ht <;> rw [ht] at hkey
      · exact absurd (congrArg some hk'.symm) hkey
      · exact absurd (congrArg some hk'.symm) hkey
      · refine (h.reads t k m ?_ r hr hk').symm
        rw [ht, Access.reads, if_pos rfl]
        rfl
    · refine h.settled r hr (fun t' => ?_) m' hm'
      rcases eq_or_ne t' t with rfl | ht'
      · rcases ht with ht | ht | ht <;> rw [ht]
        · exact (Option.some_ne_none _).symm
        · exact fun heq => hk' (Option.some.inj heq).symm
        · exact fun heq => hk' (Option.some.inj heq).symm
      · exact hfree t' ht'

/-- The row of a user is marked with what its entry was set to. -/
theorem mark (h : Present names w n) {k : Bytes × Bytes} {m : ℤ} (hopened : n t = .opened k m)
    {f : UserRow → UserRow} (hkey : ∀ r, (f r).key = r.key)
    (hmark : ∀ r ∈ w.tables.users, r.key = k → (f r).islogin = m)
    (hkeep : ∀ r ∈ w.tables.users, r.key ≠ k → f r = r)
    (hothers : ∀ t' ≠ t, ∀ m' ∈ (n t').reads k, m' = m)
    (htables : w'.tables.users = w.tables.users.map f) (hmap : w'.userMap = w.userMap)
    (htxn : ∀ c, w'.txn c = none) : Present names w' (Function.update n t .idle) := by
  have hentry : ∀ k, w'.entry k = w.entry k := fun k => by rw [World.entry, hmap, World.entry]
  have hset : w.entry k = some m := by
    refine h.opens t k m ?_
    rw [hopened, Access.opens, if_pos rfl]
    rfl
  refine h.goes htxn ?_ (fun k' m' hm' => h.entries k' m' (hentry k' ▸ hm'))
    (fun _ hm => absurd hm (Option.not_mem_none _))
    (fun _ _ hm => absurd hm (Option.not_mem_none _))
    (fun _ _ hm => absurd hm (Option.not_mem_none _))
    (fun t' _ k' m' hm' => (hentry k').trans (h.opens t' k' m' hm')) ?_ ?_
  · rw [htables, List.map_map, ← h.users]
    exact List.map_congr_left fun r _ => hkey r
  · intro t' ht' k' m' hm' r' hr' hrk
    rw [htables] at hr'
    obtain ⟨r, hr, rfl⟩ := List.mem_map.mp hr'
    rw [hkey] at hrk
    rcases eq_or_ne k' k with rfl | hne
    · exact (hmark r hr hrk).trans (hothers t' ht' m' hm').symm
    · rw [hkeep r hr fun heq => hne (hrk.symm.trans heq)]
      exact h.reads t' k' m' hm' r hr hrk
  · intro r' hr' _ hfree m' hm'
    rw [htables] at hr'
    obtain ⟨r, hr, rfl⟩ := List.mem_map.mp hr'
    rw [hkey, hentry] at hm'
    simp only [hkey] at hfree
    rcases eq_or_ne r.key k with hrk | hne
    · rw [hmark r hr hrk]
      exact Option.some.inj ((hrk ▸ hm' : w.entry k = some m').symm.trans hset)
    · rw [hkeep r hr hne]
      refine h.settled r hr (fun t' => ?_) m' hm'
      rcases eq_or_ne t' t with rfl | ht'
      · rw [hopened]
        exact fun heq => hne (Option.some.inj heq).symm
      · exact hfree t' ht'

/-! ### Statements -/

variable {c : Conn} {ok : Bool}

/-- The statement of `ONLINE` or `OFFLINE`. -/
theorem marks (h : Present names w n) (hspelt : Spelt S.mysql.toCollation names)
    {k : Bytes × Bytes} {m : ℤ} (hopened : n t = .opened k m) {s : Stmt}
    (hinert : s.Inert) {g : UserRow → UserRow} (hkey : ∀ r, (g r).key = r.key)
    (hmark : ∀ r, (g r).islogin = m)
    (heffect : s.effect S.mysql.toCollation w.tables = .updateUsers w.tables fun r =>
      if r.named S.mysql.toCollation k.1 k.2 then g r else r)
    (hothers : ∀ t' ≠ t, ∀ m' ∈ (n t').reads k, m' = m) :
    Present names (serve S (fun _ => true) (.executeQuery c s) w).2
      (Function.update n t .idle) := by
  have hk : k ∈ names := h.about t k (by rw [hopened]; rfl)
  have hexec := exec_of_none (M := S.mysql) (h.txn c) s
  rw [MySQL.exec_of_inert hinert, heffect] at hexec
  simp only [serve, if_true, hexec]
  refine h.mark hopened (f := fun r => if r.named S.mysql.toCollation k.1 k.2 then g r else r)
    (fun r => ?_) (fun r hr hrk => ?_) (fun r hr hrk => ?_) hothers rfl rfl h.txn
  · split_ifs
    · exact hkey r
    · rfl
  · rw [if_pos ((hspelt.named_iff (h.key_mem hr) hk).mpr hrk)]
    exact hmark r
  · rw [if_neg fun hnamed => hrk ((hspelt.named_iff (h.key_mem hr) hk).mp hnamed)]

/-- The look of `GETUSER` at the row of a user. -/
theorem finds (h : Present names w n) (hspelt : Spelt S.mysql.toCollation names)
    {g a : Bytes} (hlooking : n t = .looking (g, a)) :
    Access.Admits names S.peerIp (.executeQuery c (.isLogin g a))
        (serve S (fun _ => ok) (.executeQuery c (.isLogin g a)) w).1 ∧
      Present names (serve S (fun _ => ok) (.executeQuery c (.isLogin g a)) w).2
        (Function.update n t ((n t).next (.executeQuery c (.isLogin g a))
          (serve S (fun _ => ok) (.executeQuery c (.isLogin g a)) w).1)) := by
  have hk : (g, a) ∈ names := h.about t _ (by rw [hlooking]; rfl)
  cases ok with
  | false =>
    refine ⟨nofun, ?_⟩
    have hnext : (n t).next (.executeQuery c (.isLogin g a)) none = n t := by
      rw [hlooking]
      rfl
    simp only [serve, Bool.false_eq_true, if_false, hnext, Function.update_eq_self]
    exact h
  | true =>
    have hexec := exec_of_none (M := S.mysql) (h.txn c) (.isLogin g a)
    rw [MySQL.exec_of_inert (s := .isLogin g a) (hspelt.inert_pair hk)] at hexec
    simp only [serve, if_true, hexec]
    obtain ⟨r₀, hr₀, hrk₀⟩ := List.mem_map.mp (h.users ▸ hk)
    obtain ⟨r, rest, hfilter⟩ := List.exists_cons_of_ne_nil <| List.ne_nil_of_mem <|
      List.mem_filter.mpr ⟨hr₀, (hspelt.named_iff (h.key_mem hr₀) hk).mpr hrk₀⟩
    obtain ⟨hr, hnamed⟩ := List.mem_filter.mp (hfilter ▸ List.mem_cons_self)
    have hrk := (hspelt.named_iff (h.key_mem hr) hk).mp hnamed
    simp only [Stmt.effect, Effect.select, hfilter]
    refine ⟨?_, ?_⟩
    · rintro rows hrows
      obtain rfl := Option.some.inj hrows
      exact ⟨_, _, r.islogin, rfl, rfl⟩
    · rw [hlooking]
      refine (h.found (m := r.islogin) hlooking fun r' hr' hrk' => ?_).congr rfl rfl h.txn
      have hnodup : (w.tables.users.map UserRow.key).Nodup := h.users ▸ hspelt.nodup
      rw [List.inj_on_of_nodup_map hnodup hr' hr (hrk'.trans hrk.symm)]

omit [DecidableEq T] in
/-- The list of the users of a group. -/
theorem lists (h : Present names w n) (hspelt : Spelt S.mysql.toCollation names) {g : Bytes}
    (hg : ∃ k ∈ names, k.1 = g) :
    Access.Admits names S.peerIp (.executeQuery c (.groupGetusers g))
        (serve S (fun _ => ok) (.executeQuery c (.groupGetusers g)) w).1 ∧
      Present names (serve S (fun _ => ok) (.executeQuery c (.groupGetusers g)) w).2 n := by
  obtain ⟨k, hk, rfl⟩ := hg
  cases ok with
  | false => exact ⟨nofun, h⟩
  | true =>
    have hexec := exec_of_none (M := S.mysql) (h.txn c) (.groupGetusers k.1)
    have hinert : (Stmt.groupGetusers k.1).Inert := by
      intro f hf
      obtain rfl := List.mem_singleton.mp hf
      exact (hspelt.inert k hk).1
    rw [MySQL.exec_of_inert hinert] at hexec
    simp only [serve, if_true, hexec]
    refine ⟨fun row hrow => ?_, h.congr rfl rfl h.txn⟩
    obtain ⟨r, hr, rfl⟩ := List.mem_map.mp hrow
    obtain ⟨hr, hclass⟩ := List.mem_filter.mp hr
    have hrk := h.key_mem hr
    refine ⟨r.account, rfl, hspelt.noNul _ hrk, ?_⟩
    rw [← hspelt.fst _ hrk _ hk hclass]
    exact hrk

/-- A step that is allowed and meets the condition. -/
theorem step (h : Present names w n) (hspelt : Spelt S.mysql.toCollation names)
    (hip : mysql.inert S.peerIp = true) {o : Op} (hallowed : (n t).Allows names S.peerIp o)
    (hsets : ∀ p ∈ o.sets, ∀ t' ≠ t, ∀ m ∈ (n t').opens p.1, m = p.2)
    (hmarks : ∀ p ∈ o.marks, ok = true ∧ ∀ t' ≠ t, ∀ m ∈ (n t').reads p.1, m = p.2) :
    Access.Admits names S.peerIp o (serve S (fun _ => ok) o w).1 ∧
      Present names (serve S (fun _ => ok) o w).2
        (Function.update n t ((n t).next o (serve S (fun _ => ok) o w).1)) := by
  cases o with
  | userMapFind k => exact ⟨trivial, h.find hallowed.2 hallowed.1⟩
  | userMapSet k m => exact ⟨trivial, h.set hallowed.1 hallowed.2 (hsets _ rfl)⟩
  | executeQuery c stmt =>
    cases stmt with
    | isLogin g a => exact h.finds hspelt hallowed
    | groupGetusers g =>
      have hnext : ∀ res, (n t).next (.executeQuery c (.groupGetusers g)) res = n t :=
        fun _ => rfl
      rw [hnext, Function.update_eq_self]
      exact h.lists hspelt hallowed
    | loginOnline ip g a =>
      obtain ⟨hopened, rfl⟩ := hallowed
      obtain ⟨rfl, hothers⟩ := hmarks _ rfl
      have hk := h.about t (g, a) (by rw [hopened]; rfl)
      exact ⟨trivial, h.marks hspelt hopened (s := .loginOnline S.peerIp g a)
        (g := fun r => { r with ip := S.peerIp, islogin := 1 })
        (List.forall_mem_cons.mpr ⟨hip, hspelt.inert_pair hk⟩) (fun _ => rfl) (fun _ => rfl) rfl
        hothers⟩
    | loginOffline g a =>
      obtain ⟨rfl, hothers⟩ := hmarks _ rfl
      have hk := h.about t (g, a) (by rw [show n t = _ from hallowed]; rfl)
      exact ⟨trivial, h.marks hspelt hallowed (s := .loginOffline g a)
        (g := fun r => { r with islogin := 0 }) (hspelt.inert_pair hk) (fun _ => rfl)
        (fun _ => rfl) rfl hothers⟩
    | _ => exact absurd hallowed id
  | getDBConn timeout_ms =>
    change _ ∧ Present names _ (Function.update n t (n t))
    rw [Function.update_eq_self]
    refine ⟨trivial, ?_⟩
    cases ok
    · exact h
    · refine h.congr rfl rfl fun c => ?_
      simp only [serve, if_true, acquire, Function.update_apply]
      split_ifs
      · rfl
      · exact h.txn c
  | executeUpdate | startTransaction | commit | rollback | execute => exact absurd hallowed id
  | _ =>
    change _ ∧ Present names _ (Function.update n t (n t))
    rw [Function.update_eq_self]
    first
    | exact ⟨trivial, h.congr rfl rfl h.txn⟩
    | exact ⟨rfl, h⟩

end Present

end Step

/-! ## Whole runs -/

/-- In every run of the handlers of `ONLINE`, `OFFLINE` and `GETUSER`, about users whose names are
spelt in one way and of which every step is orderly, the map and the table agree whenever no
handler is in progress. -/
theorem agrees_of_run {t₀ : Tables}
    (hspelt : Spelt S.mysql.toCollation (t₀.users.map UserRow.key))
    (hip : mysql.inert S.peerIp = true) {c : Threads.Config Db World T}
    (h : Threads.Run (S.threads (AboutUsers t₀)) Orderly (World.start t₀) c)
    (hdone : ∀ t, c.prog t = ret ()) : Agrees S c.shared := by
  have hinv := h.inv_of_done (M := accesses (t₀.users.map UserRow.key) S.peerIp)
    (m := Access.idle) (I := Present (t₀.users.map UserRow.key)) (Q := fun s : Access => s = .idle)
    (fun p hp => access_aboutUsers hp) ?_ rfl ?_ ?_
  · refine hinv.1.agrees hspelt fun t => ?_
    have hobeys := hinv.2 t
    rw [hdone t] at hobeys
    exact hobeys
  · exact ⟨fun _ => rfl, rfl, nofun, nofun, nofun, nofun, fun _ _ _ => nofun⟩
  · rintro w n t hidle hw
    rw [show Function.update n t Access.idle = n from hidle ▸ Function.update_eq_self t n]
    exact hw
  · intro c t o ok hI hallowed hC
    rw [notes_accesses] at hI hallowed ⊢
    exact hI.step hspelt hip hallowed hC.1 hC.2

/-! ## An update that fails, and one that is overtaken -/

/-- The user `ann`, who is not logged in. -/
def oneUser : Tables :=
  { Tables.empty with users := [UserRow.new (ascii "1") (ascii "ann") [] [] 1], nextUser := 2 }

theorem spelt_oneUser : Spelt Collation.binary (oneUser.users.map UserRow.key) :=
  ⟨by decide +kernel, by decide +kernel, by decide +kernel, by decide +kernel, by decide +kernel⟩

/-- `ann` goes online. -/
def annOnline : Proc Unit :=
  LoginOnlineEvent ⟨ascii "1", ascii "ann"⟩

/-- Moves of a client. -/
def moves (t : Bool) (oks : List Bool) : List (Threads.Move Db Bool Bool) :=
  oks.map (.step t)

/-- `ann` goes online, and her row is not updated. -/
def failing : List (Threads.Move Db Bool Bool) :=
  .launch false annOnline :: moves false [true, true, true, false, true, true]

/-- `ann` goes online while an other client asks for her group, which looks at her row before
it is updated; `first` of her steps come before the entry is set from it. -/
def overtaking (first : ℕ) : List (Threads.Move Db Bool Bool) :=
  [.launch false annOnline, .launch true (getuserListEvent (ascii "1"))] ++
    moves true (List.replicate 7 true) ++ moves false (List.replicate first true) ++
      moves true (List.replicate 3 true) ++ moves false (List.replicate (6 - first) true)

theorem aboutUsers_failing (t : Bool) (p : Proc Unit) (h : Threads.Move.launch t p ∈ failing) :
    AboutUsers oneUser p := by
  simp only [failing, moves, List.map_cons, List.map_nil, List.mem_cons, List.not_mem_nil,
    or_false, reduceCtorEq, Threads.Move.launch.injEq] at h
  obtain ⟨-, rfl⟩ := h
  exact ⟨_, List.mem_cons_self, Or.inl rfl⟩

theorem aboutUsers_overtaking {first : ℕ} (t : Bool) (p : Proc Unit)
    (h : Threads.Move.launch t p ∈ overtaking first) : AboutUsers oneUser p := by
  simp only [overtaking, moves, List.mem_append, List.mem_map, List.mem_cons, List.not_mem_nil,
    or_false, reduceCtorEq, and_false, exists_false, Threads.Move.launch.injEq] at h
  obtain ⟨-, rfl⟩ | ⟨-, rfl⟩ := h
  · exact ⟨_, List.mem_cons_self, Or.inl rfl⟩
  · exact ⟨_, List.mem_cons_self, Or.inr (Or.inr rfl)⟩

/-- The state after a schedule. -/
def afterMoves (C : Threads.Config Db World Bool → Bool → Op → Bool → Prop)
    [∀ c t o ok, Decidable (C c t o ok)] (l : List (Threads.Move Db Bool Bool)) :
    Threads.Config Db World Bool :=
  Threads.play (S := (Server.rejecting .binary).threads (AboutUsers oneUser)) C l
    (.start (World.start oneUser))

/-- When the entry is set in time, `ann` is online in both places. -/
theorem agrees_of_run_overtaking :
    (afterMoves Orderly (overtaking 2)).shared.entry (ascii "1", ascii "ann") = some 1 ∧
      Agrees (Server.rejecting .binary) (afterMoves Orderly (overtaking 2)).shared := by
  have hdone : ∀ t, ((afterMoves Orderly (overtaking 2)).prog t).isDone = true := by decide +kernel
  exact ⟨by decide +kernel, agrees_of_run spelt_oneUser (by decide +kernel)
    (Threads.Run.start.play aboutUsers_overtaking) fun t => eq_ret_of_isDone (hdone t)⟩

theorem not_agrees {k : Bytes × Bytes} (h : ∃ r ∈ w.tables.users,
    r.named S.mysql.toCollation k.1 k.2 = true ∧ ∃ m ∈ w.entry k, m ≠ r.islogin) :
    ¬Agrees S w := by
  obtain ⟨r, hr, hnamed, m, hm, hne⟩ := h
  exact fun hagrees => hne (hagrees r hr k m hnamed hm)

/-- A run of all these moves, with every handler done, after which entry and row differ. -/
def Disagrees (l : List (Threads.Move Db Bool Bool)) : Prop :=
  Threads.Run ((Server.rejecting .binary).threads (AboutUsers oneUser)) (fun _ _ _ _ => True)
      (World.start oneUser) (afterMoves (fun _ _ _ _ => True) l) ∧
    (∀ t, (afterMoves (fun _ _ _ _ => True) l).prog t = ret ()) ∧
    ¬Agrees (Server.rejecting .binary) (afterMoves (fun _ _ _ _ => True) l).shared

/-- A row that is not updated, and an entry that is set too late. -/
theorem disagrees_failing_overtaking : Disagrees failing ∧ Disagrees (overtaking 6) := by
  have hfailing : ∀ t, ((afterMoves (fun _ _ _ _ => True) failing).prog t).isDone = true := by
    decide +kernel
  have hovertaking : ∀ t,
      ((afterMoves (fun _ _ _ _ => True) (overtaking 6)).prog t).isDone = true := by
    decide +kernel
  refine ⟨⟨Threads.Run.start.play aboutUsers_failing,
    fun t => eq_ret_of_isDone (hfailing t), ?_⟩, ⟨Threads.Run.start.play aboutUsers_overtaking,
    fun t => eq_ret_of_isDone (hovertaking t), ?_⟩⟩
  · exact not_agrees (k := (ascii "1", ascii "ann")) (by decide +kernel)
  · exact not_agrees (k := (ascii "1", ascii "ann")) (by decide +kernel)

end WzxServer
