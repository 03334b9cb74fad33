import WzxServer.Fields

/-!
# Statements in their buffers

A statement is formatted into an array of 100, 200 or 256 bytes, and nobody compares lengths
before. The array of `getUserId` has two bytes less than two names of 19 bytes can take. By
`formats_iff` the lookups of users are the only statements of a request that may not fit; but
in the list of users of a class the accounts come from the table, whose column takes more
bytes than the field of a request.

The lengths are counted from the templates of the statements : the code and the texts
(`Stmt.length_text_of_blank`), and the code of each statement is a number that is computed. A
text of a request is shorter than its field (`short_of_decode`), a number is printed in at most
eleven bytes, and a text of the table is as long as its column allows.

`Fitting` goes through a program with any answers that can come (`Plausible`), so the statements
of a loop are measured once for all of its turns. Copies into fields of replies are another
matter and are left out by the monitor.
-/

namespace WzxServer

open Prog Proc

/-! ## The answers that can come -/

/-- The text of a peer address : dotted, or empty when there is none. -/
def PeerText (ip : Bytes) : Prop :=
  ip = [] ∨ ∃ a b c d : UInt8, ip = decimal a.toNat ++ ascii "." ++ decimal b.toNat ++ ascii "." ++
    decimal c.toNat ++ ascii "." ++ decimal d.toNat

/-- The numbers of a row are read as `int`s, and its account has at most `width` bytes. -/
def Row.Within (width : ℕ) (row : Row) : Prop :=
  (∀ key, ∀ n ∈ row.int? key, IsInt n) ∧ ∀ text ∈ row.getString .account, text.length ≤ width

/-- The answers that can come when the accounts in the table have at most `width` bytes. -/
def Plausible (width : ℕ) : (o : Op) → o.Ans → Prop
  | .executeQuery _ _, some rows => ∀ row ∈ rows, row.Within width
  | .getInsertId _, n => IsInt n
  | .time, n => IsInt n
  | .peerIp, ip => PeerText ip
  | _, _ => True

/-! ## The property -/

/-- A monitor that keeps whether a copy was too long : else, no array is written past its
end. -/
def formatWatch (width : ℕ) : Monitor Db where
  State := Bool
  allowed _ _ := True
  admits _ := Plausible width
  next s o _ :=
    match o with
    | .memcpy size text => s || decide (size < text.length)
    | _ => s
  excuses s e := e = .overrun → s = true

/-- Whatever is answered, every statement that `p` formats fits its array. -/
structure Formats (width : ℕ) {α : Type} (p : Proc α) : Prop where
  obeys : Obeys (formatWatch width) p false fun _ _ => True

/-- The names that `getUserId` is called with, and the class whose users are listed. -/
def Request.LookupsFit (width : ℕ) : Request → Prop
  | .messageCreate d => d.m_fromclassnum.length + d.m_fromaccount.length ≤ 36 ∧
    d.m_toclassnum.length + d.m_toaccount.length ≤ 36
  | .messageSend d => d.fromClassNum.length + d.fromAccount.length ≤ 36 ∧
    d.toClassNum.length + d.toAccount.length ≤ 36
  | .messageHistory d => d.fromClassNum.length + d.fromAccount.length ≤ 36 ∧
    d.toClassNum.length + d.toAccount.length ≤ 36
  | .recentSession classNum account _ => classNum.length + account.length ≤ 36
  | .getUser m_group_id => m_group_id.length + width ≤ 131
  | _ => True

/-! ## Lengths -/

section Lengths

theorem length_peerText {ip : Bytes} (h : PeerText ip) : ip.length ≤ 15 := by
  have hbyte : ∀ a : UInt8, (decimal a.toNat).length ≤ 3 := by
    intro a
    have hlt := a.toNat_lt
    rw [decimal, if_neg (by omega)]
    exact length_digits_le (by simpa using by omega) (by decide)
  rcases h with rfl | ⟨a, b, c, d, rfl⟩
  · exact Nat.zero_le _
  · have ha := hbyte a
    have hb := hbyte b
    have hc := hbyte c
    have hd := hbyte d
    have hdot : (ascii ".").length = 1 := by decide
    simp only [List.length_append, hdot]
    omega

/-- The texts of a statement make it longer by their lengths. -/
theorem Stmt.length_text_of_blank {s : Stmt} (blank : Stmt)
    (hblank : blank.template = s.template.blank) :
    s.text.length = blank.text.length + (s.fields.map List.length).sum := by
  rw [Stmt.text, Quoting.length_render, ← hblank, Stmt.fields, List.map_map]
  rfl

variable {c a p t : Bytes}

theorem length_getUserId (c a : Bytes) :
    (Stmt.getUserId c a).text.length = 63 + (c.length + a.length) := by
  have hblank : (Stmt.getUserId [] []).text.length = 63 := by decide +kernel
  rw [Stmt.length_text_of_blank (.getUserId [] []) rfl, hblank]
  rfl

theorem length_isLogin (c a : Bytes) :
    (Stmt.isLogin c a).text.length = 68 + (c.length + a.length) := by
  have hblank : (Stmt.isLogin [] []).text.length = 68 := by decide +kernel
  rw [Stmt.length_text_of_blank (.isLogin [] []) rfl, hblank]
  rfl

/-- A statement with short texts fits where its code and the longest texts do. -/
theorem Stmt.length_text_lt {s : Stmt} (blank : Stmt) {n size : ℕ}
    (hblank : blank.template = s.template.blank) (hfields : (s.fields.map List.length).sum ≤ n)
    (hsize : blank.text.length + n < size) : s.text.length < size := by
  rw [Stmt.length_text_of_blank blank hblank]
  omega

theorem length_loginUser_lt (hc : c.length < 20) (ha : a.length < 20) (hp : p.length < 20) :
    (Stmt.loginUser c a p).text.length < 256 := by
  refine Stmt.length_text_lt (n := 57) (.loginUser [] [] []) rfl ?_ (by decide +kernel)
  simp only [Stmt.fields, Stmt.template, List.map_cons, List.map_nil, List.sum_cons, List.sum_nil]
  omega

theorem length_userExist_lt (hc : c.length < 20) (ha : a.length < 20) (hp : p.length < 20) :
    (Stmt.userExist c a p).text.length < 256 := by
  refine Stmt.length_text_lt (n := 57) (.userExist [] [] []) rfl ?_ (by decide +kernel)
  simp only [Stmt.fields, Stmt.template, List.map_cons, List.map_nil, List.sum_cons, List.sum_nil]
  omega

theorem length_addUserInfo_lt (hc : c.length < 20) (ha : a.length < 20) (hp : p.length < 20)
    (ht : t.length < 50) : (Stmt.addUserInfo c a p t).text.length < 200 := by
  refine Stmt.length_text_lt (n := 106) (.addUserInfo [] [] [] []) rfl ?_ (by decide +kernel)
  simp only [Stmt.fields, Stmt.template, List.map_cons, List.map_nil, List.sum_cons, List.sum_nil]
  omega

theorem length_changeTouXiang_lt (hc : c.length < 20) (ha : a.length < 20)
    (ht : t.length < 50) : (Stmt.changeTouXiang t c a).text.length < 200 := by
  refine Stmt.length_text_lt (n := 87) (.changeTouXiang [] [] []) rfl ?_ (by decide +kernel)
  simp only [Stmt.fields, Stmt.template, whereUser, List.map_cons, List.map_nil, List.sum_cons,
    List.sum_nil]
  omega

theorem length_loginOnline_lt {ip : Bytes} (hip : PeerText ip) (hc : c.length < 20)
    (ha : a.length < 20) : (Stmt.loginOnline ip c a).text.length < 200 := by
  have hlength := length_peerText hip
  refine Stmt.length_text_lt (n := 53) (.loginOnline [] [] []) rfl ?_ (by decide +kernel)
  simp only [Stmt.fields, Stmt.template, whereUser, List.map_cons, List.map_nil, List.sum_cons,
    List.sum_nil]
  omega

/-- The statements about one user, with two names. -/
theorem length_names_lt {s : Stmt} (blank : Stmt) {size : ℕ}
    (hblank : blank.template = s.template.blank) (hfields : s.fields = [c, a])
    (hc : c.length < 20) (ha : a.length < 20) (hsize : blank.text.length + 38 < size) :
    s.text.length < size := by
  refine Stmt.length_text_lt blank hblank ?_ hsize
  rw [hfields]
  simp only [List.map_cons, List.map_nil, List.sum_cons, List.sum_nil]
  omega

theorem length_getUserFromId_lt {userId : ℤ} (h : IsInt userId) :
    (Stmt.getUserFromId userId).text.length < 200 := by
  have hid := length_decimal_le h
  have hcode : (ascii "select classnum,account from user_table where id = ").length = 51 := by
    decide +kernel
  simp only [Stmt.text, Quoting.render, Stmt.template, plain, Quoting.fill, List.length_append,
    hcode]
  omega

theorem length_addSessionUpdate_lt {now id : ℤ} (ht : t.length < 50) (hnow : IsInt now)
    (hid : IsInt id) : (Stmt.addSessionUpdate t now id).text.length < 200 := by
  have hnow' := length_decimal_le hnow
  have hid' := length_decimal_le hid
  have hcode : (ascii "update recentSession_table set status=0, peerTouXiang = " ++
      ascii " , updated = " ++ ascii " where id = ").length = 81 := by
    decide +kernel
  simp only [List.length_append] at hcode
  simp only [Stmt.text, Quoting.render, Stmt.template, Quoting.fill, List.length_append,
    List.length_cons]
  omega

end Lengths

/-! ## Parts of handlers -/

section Fitting

variable {width : ℕ} {α β : Type}

/-- Whatever is answered, `p` overruns no array but in a copy, and `Q` holds of its value. -/
structure Fitting (width : ℕ) (p : Proc α) (Q : α → Prop) : Prop where
  obeys : ∀ s, Obeys (formatWatch width) p s fun a _ => Q a

theorem fitting_ret {a : α} {Q : α → Prop} (h : Q a) : Fitting width (ret a) Q :=
  ⟨fun _ => h⟩

theorem Fitting.bind {p : Proc α} {f : α → Proc β} {P : α → Prop} {Q : β → Prop}
    (hp : Fitting width p P) (hf : ∀ a, P a → Fitting width (f a) Q) :
    Fitting width (p >>= f) Q :=
  ⟨fun s => (hp.obeys s).bind fun a s' ha => (hf a ha).obeys s'⟩

theorem Fitting.mono {p : Proc α} {P Q : α → Prop} (hp : Fitting width p P)
    (hPQ : ∀ a, P a → Q a) : Fitting width p Q :=
  ⟨fun s => (hp.obeys s).mono fun a _ ha => hPQ a ha⟩

theorem fitting_ask (o : Op) : Fitting width (ask o) (Plausible width o) :=
  ⟨fun _ => ⟨trivial, fun _ hr => hr⟩⟩

theorem fitting_fault {e : Fault} (h : e ≠ .overrun) {Q : α → Prop} :
    Fitting width (fault e : Proc α) Q :=
  ⟨fun _ he => absurd he h⟩

theorem fitting_deref (a : Option α) : Fitting width (deref a) (· ∈ a) := by
  rcases a with _ | a
  · exact fitting_fault (by decide)
  · exact fitting_ret rfl

theorem fitting_defined {e : Fault} (h : e ≠ .overrun) (a : Option α) :
    Fitting width (defined e a) (· ∈ a) := by
  rcases a with _ | a
  · exact fitting_fault h
  · exact fitting_ret rfl

theorem fitting_sprintf {size : ℕ} {s : Stmt} (h : s.text.length < size) :
    Fitting width (sprintf size s) (· = s) := by
  rw [sprintf, if_pos h]
  exact fitting_ret rfl

theorem fitting_sprintf_bind {size : ℕ} {s : Stmt} {f : Stmt → Proc β} {Q : β → Prop}
    (h : s.text.length < size) (hf : Fitting width (f s) Q) :
    Fitting width (sprintf size s >>= f) Q := by
  rw [sprintf, if_pos h]
  exact hf

/-- A copy that is too long is not the business of the monitor. -/
theorem fitting_memcpyField (size : ℕ) (text : Bytes) :
    Fitting width (memcpyField size text) fun _ => True := by
  refine ⟨fun s => ⟨trivial, fun _ _ => ?_⟩⟩
  by_cases h : text.length ≤ size
  · rw [if_pos h]
    trivial
  · rw [if_neg h]
    intro _
    simp only [formatWatch, Nat.lt_of_not_le h, decide_true]
    exact Bool.or_true s

theorem fitting_getInt {row : Row} (h : row.Within width) (key : Col) :
    Fitting width (getInt row key) IsInt := by
  rw [getInt_eq]
  exact (fitting_defined (by decide) _).mono fun n hn => h.1 key n hn

theorem fitting_getText (row : Row) (key : Col) :
    Fitting width (getText row key) fun text =>
      ∀ n, (∀ t ∈ row.getString key, t.length ≤ n) → text.length ≤ n := by
  refine (fitting_deref _).bind fun s hs => fitting_ret fun n hn => ?_
  exact (List.takeWhile_sublist _).length_le.trans (hn s hs)

theorem fitting_release (c : Conn) {a : α} {Q : α → Prop} (h : Q a) :
    Fitting width (ask (.relDBConn c) >>= fun _ => ret a) Q :=
  (fitting_ask _).bind fun _ _ => fitting_ret h

theorem Fitting.forEach {f : α → Proc β} {Q : β → Prop} :
    ∀ {l : List α}, (∀ a ∈ l, Fitting width (f a) Q) →
      Fitting width (forEach f l) fun bs => ∀ b ∈ bs, Q b
  | [], _ => fitting_ret fun _ hb => absurd hb List.not_mem_nil
  | a :: _, hf => (hf a List.mem_cons_self).bind fun _ hb =>
      (Fitting.forEach fun a' ha' => hf a' (List.mem_cons_of_mem _ ha')).bind fun _ hbs =>
        fitting_ret (List.forall_mem_cons.2 ⟨hb, hbs⟩)

theorem fitting_openQuery {size : ℕ} {s : Stmt} (h : s.text.length < size) :
    Fitting width (openQuery size s) fun r => ∀ rows ∈ r.2, ∀ row ∈ rows, row.Within width := by
  refine (fitting_ask _).bind fun _ _ => (fitting_sprintf h).bind fun _ _ => ?_
  refine (fitting_deref _).bind fun _ _ => (fitting_ask _).bind fun res hres => fitting_ret ?_
  rintro rows rfl
  exact hres

/-- A query of which only the connection is used afterwards. -/
theorem fitting_openQuery_drop {size : ℕ} {s : Stmt} (h : s.text.length < size) :
    Fitting width (openQuery size s >>= fun r => ask (.relDBConn r.1)) fun _ => True :=
  (fitting_openQuery h).bind fun _ _ => fitting_ask _

/-! ## The models -/

/-- The `id` of the first row, or -1. -/
theorem fitting_getUserId {c a : Bytes} (h : c.length + a.length ≤ 36) :
    Fitting width (CUserModel.getUserId c a) fun _ => True := by
  have hfit : (Stmt.getUserId c a).text.length < 100 := by
    rw [length_getUserId]
    omega
  refine (fitting_openQuery hfit).bind ?_
  rintro ⟨k, _ | (_ | ⟨row, rows⟩)⟩ hrows
  · exact fitting_release k trivial
  · exact fitting_release k trivial
  · have hrow := hrows _ rfl row List.mem_cons_self
    exact (fitting_getInt hrow .id).bind fun _ _ => fitting_release k trivial

theorem fitting_getUserFromId {userId : ℤ} (h : IsInt userId) :
    Fitting width (CUserModel.getUserFromId userId) fun _ => True := by
  refine (fitting_openQuery (length_getUserFromId_lt h)).bind ?_
  rintro ⟨k, _ | (_ | ⟨row, rows⟩)⟩ -
  · exact fitting_release k trivial
  · exact fitting_release k trivial
  · refine (fitting_getText row .classnum).bind fun _ _ => ?_
    exact (fitting_getText row .account).bind fun _ _ => fitting_release k trivial

theorem fitting_getTouXiang {c a : Bytes} (hc : c.length < 20) (ha : a.length < 20) :
    Fitting width (CUserModel.getTouXiang c a) fun _ => True := by
  have hfit : (Stmt.getTouXiang c a).text.length < 200 :=
    length_names_lt (.getTouXiang [] []) rfl rfl hc ha (by decide +kernel)
  refine (fitting_openQuery hfit).bind ?_
  rintro ⟨k, _ | (_ | ⟨row, rows⟩)⟩ -
  · exact fitting_release k trivial
  · exact fitting_release k trivial
  · exact (fitting_getText row .touxiang).bind fun _ _ => fitting_release k trivial

/-- The function that no handler calls. -/
theorem formats_GetTouXiang {c a : Bytes} (hc : c.length < 20) (ha : a.length < 20) :
    Formats width (CUserModel.GetTouXiang c a) := by
  have hfit : (Stmt.GetTouXiang c a).text.length < 200 :=
    length_names_lt (.GetTouXiang [] []) rfl rfl hc ha (by decide +kernel)
  have hfitting : Fitting width (CUserModel.GetTouXiang c a) fun _ => True :=
    (fitting_openQuery hfit).bind fun r _ => fitting_release r.1 trivial
  exact ⟨hfitting.obeys false⟩

theorem fitting_userExist {c a p : Bytes} (hc : c.length < 20) (ha : a.length < 20)
    (hp : p.length < 20) : Fitting width (CUserModel.userExist c a p) fun _ => True := by
  refine (fitting_openQuery (length_userExist_lt hc ha hp)).bind fun r _ => ?_
  exact (fitting_deref _).bind fun _ _ => fitting_release r.1 trivial

theorem isInt_neg_one : IsInt (-1) := by
  decide

theorem fitting_lastId {res : Option (List Row)}
    (h : ∀ rows ∈ res, ∀ row ∈ rows, row.Within width) : Fitting width (lastId res) IsInt := by
  rcases res with _ | rows
  · exact fitting_ret isInt_neg_one
  · refine (Fitting.forEach fun row hrow => fitting_getInt (h rows rfl row hrow) .id).bind
      fun ids hids => fitting_ret ?_
    rcases hlast : ids.getLast? with _ | id
    · exact isInt_neg_one
    · exact hids id (List.mem_of_getLast? hlast)

theorem fitting_executeQuery (k : Conn) (s : Stmt) :
    Fitting width (ask (.executeQuery k s)) fun res =>
      ∀ rows ∈ res, ∀ row ∈ rows, row.Within width := by
  refine ⟨fun _ => ⟨trivial, fun res hres => ?_⟩⟩
  rintro rows rfl
  exact hres

theorem fitting_insertPrepared (k : Conn) (s : Stmt) :
    Fitting width (insertPrepared k s) IsInt := by
  refine (fitting_ask _).bind fun prepared _ => ?_
  cases prepared
  · exact fitting_ret isInt_neg_one
  · refine (fitting_ask _).bind fun executed _ => ?_
    cases executed
    · exact fitting_ret isInt_neg_one
    · exact fitting_ask _

theorem fitting_updateOnce (s : Stmt) : Fitting width (updateOnce s) fun _ => True := by
  refine (fitting_ask _).bind fun conn _ => ?_
  rcases conn with _ | k
  · exact fitting_ret trivial
  · exact (fitting_ask _).bind fun _ _ => fitting_release k trivial

theorem fitting_addRelation (i j : ℤ) : Fitting width (CRelationModel.addRelation i j) IsInt := by
  refine (fitting_ask _).bind fun conn _ => ?_
  rcases conn with _ | k
  · exact fitting_ret isInt_neg_one
  · refine (fitting_ask _).bind fun now _ => (fitting_executeQuery k _).bind fun res hres => ?_
    have hinsert : Fitting width (insertPrepared k (.addRelationInsert i j 0 now) >>= fun n =>
        ask (.relDBConn k) >>= fun _ => ret n) IsInt :=
      (fitting_insertPrepared k _).bind fun _ hn => fitting_release k hn
    rcases res with _ | (_ | ⟨row, rows⟩)
    · exact hinsert
    · exact hinsert
    · refine (fitting_getInt (hres _ rfl row List.mem_cons_self) .id).bind fun n hn => ?_
      refine (fitting_ask _).bind fun bRet _ => fitting_release k ?_
      cases bRet
      · exact isInt_neg_one
      · exact hn

theorem fitting_getRelationId (i j : ℤ) (bAdd : Bool) :
    Fitting width (CRelationModel.getRelationId i j bAdd) IsInt := by
  rw [CRelationModel.getRelationId]
  by_cases h0 : i = 0 ∨ j = 0
  · rw [if_pos h0]
    exact fitting_ret isInt_neg_one
  · rw [if_neg h0]
    generalize (if i > j then i else j) = big
    generalize (if i > j then j else i) = small
    refine (fitting_ask _).bind fun conn _ => ?_
    rcases conn with _ | k
    · exact fitting_ret isInt_neg_one
    · refine (fitting_executeQuery k _).bind fun res hres => ?_
      refine (fitting_lastId hres).bind fun n hn => (fitting_ask _).bind fun _ _ => ?_
      split_ifs
      · exact fitting_addRelation _ _
      · exact fitting_ret hn

theorem fitting_getSessionId (i j nType : ℤ) (isAll : Bool) :
    Fitting width (CSessionModel.getSessionId i j nType isAll) IsInt := by
  refine (fitting_ask _).bind fun conn _ => ?_
  rcases conn with _ | k
  · exact fitting_ret isInt_neg_one
  · refine (fitting_executeQuery k _).bind fun res hres => ?_
    exact (fitting_lastId hres).bind fun _ hn => fitting_release k hn

theorem fitting_addSession (i j nType : ℤ) {touxiang : Bytes} (h : touxiang.length < 50) :
    Fitting width (CSessionModel.addSession i j nType touxiang) fun _ => True := by
  refine (fitting_getSessionId i j nType true).bind fun n hn => ?_
  refine (fitting_ask _).bind fun now hnow => (fitting_ask _).bind fun conn _ => ?_
  rcases conn with _ | k
  · exact fitting_ret trivial
  · dsimp only
    split_ifs
    · refine fitting_sprintf_bind (length_addSessionUpdate_lt h hnow hn) ?_
      exact (fitting_ask _).bind fun _ _ => fitting_release k trivial
    · exact (fitting_insertPrepared k _).bind fun _ _ => fitting_release k trivial

theorem fitting_inserMessage (relateId fromId toId : ℤ) (content : Bytes) (type status : ℤ) :
    Fitting width (CMessageModel.inserMessage relateId fromId toId content type status)
      fun _ => True := by
  refine (fitting_ask _).bind fun conn _ => ?_
  rcases conn with _ | k
  · exact fitting_ret trivial
  · refine (fitting_ask _).bind fun prepared _ => ?_
    cases prepared
    · exact fitting_release k trivial
    · refine (fitting_ask _).bind fun _ _ => (fitting_ask _).bind fun executed _ => ?_
      cases executed
      · exact fitting_release k trivial
      · exact (fitting_ask _).bind fun _ _ => fitting_release k trivial

theorem fitting_messageOf {row : Row} (h : row.Within width) :
    Fitting width (CMessageModel.messageOf row) fun _ => True := by
  refine (fitting_getText row .content).bind fun _ _ => ?_
  refine (fitting_getInt h .fromId).bind fun fromId hfrom => ?_
  refine (fitting_getUserFromId hfrom).bind fun _ _ => ?_
  refine (fitting_getInt h .toId).bind fun toId hto => ?_
  refine (fitting_getUserFromId hto).bind fun _ _ => ?_
  refine (fitting_memcpyField _ _).bind fun _ _ => (fitting_memcpyField _ _).bind fun _ _ => ?_
  refine (fitting_memcpyField _ _).bind fun _ _ => (fitting_memcpyField _ _).bind fun _ _ => ?_
  refine (fitting_memcpyField _ _).bind fun _ _ => (fitting_getInt h .created).bind fun _ _ => ?_
  exact fitting_ret trivial

theorem mem_getD_within {res : Option (List Row)}
    (h : ∀ rows ∈ res, ∀ row ∈ rows, row.Within width) : ∀ row ∈ res.getD [], row.Within width := by
  rcases res with _ | rows
  · exact fun _ hrow => absurd hrow List.not_mem_nil
  · exact h rows rfl

theorem fitting_getMessage {relateId lastTime nowTime : ℤ} (hrelate : IsInt relateId)
    (hlast : IsInt lastTime) (hnow : IsInt nowTime) :
    Fitting width (CMessageModel.getMessage relateId lastTime nowTime) fun _ => True := by
  refine (fitting_ask _).bind fun conn _ => ?_
  rcases conn with _ | k
  · exact fitting_ret trivial
  · refine fitting_sprintf_bind (length_getMessage_lt hrelate hnow hlast) ?_
    refine (fitting_executeQuery k _).bind fun res hres => ?_
    refine (Fitting.forEach (Q := fun _ => True) fun row hrow => ?_).bind fun _ _ =>
      fitting_release k trivial
    exact fitting_messageOf (mem_getD_within hres row hrow)

theorem fitting_getLastMsg (i j : ℤ) :
    Fitting width (CMessageModel.getLastMsg i j) fun _ => True := by
  refine (fitting_getRelationId i j false).bind fun n _ => ?_
  split_ifs
  · exact fitting_ret trivial
  · refine (fitting_ask _).bind fun conn _ => ?_
    rcases conn with _ | k
    · exact fitting_ret trivial
    · refine (fitting_executeQuery k _).bind fun res hres => ?_
      refine (Fitting.forEach (Q := fun _ => True) fun row hrow => ?_).bind fun _ _ =>
        fitting_release k trivial
      refine (fitting_getInt (mem_getD_within hres row hrow) .type).bind fun _ _ => ?_
      exact (fitting_getText row .content).bind fun _ _ => fitting_ret trivial

theorem fitting_sessionOf (nUserId : ℤ) {row : Row} (h : row.Within width) :
    Fitting width (CSessionModel.sessionOf nUserId row) fun _ => True := by
  refine (fitting_getInt h .updated).bind fun _ _ => (fitting_memcpyField _ _).bind fun _ _ => ?_
  refine (fitting_getInt h .peerId).bind fun peerId hpeer => ?_
  refine (fitting_getUserFromId hpeer).bind fun _ _ => ?_
  refine (fitting_getLastMsg nUserId peerId).bind fun _ _ => ?_
  refine (fitting_memcpyField _ _).bind fun _ _ => (fitting_memcpyField _ _).bind fun _ _ => ?_
  exact (fitting_memcpyField _ _).bind fun _ _ => fitting_ret trivial

theorem fitting_getRecentSession (nUserId lastTime : ℤ) :
    Fitting width (CSessionModel.getRecentSession nUserId lastTime) fun _ => True := by
  refine (fitting_ask _).bind fun conn _ => ?_
  rcases conn with _ | k
  · exact fitting_ret trivial
  · refine (fitting_executeQuery k _).bind fun res hres => ?_
    refine (Fitting.forEach (Q := fun _ => True) fun row hrow => ?_).bind fun _ _ =>
      fitting_release k trivial
    exact fitting_sessionOf nUserId (mem_getD_within hres row hrow)

theorem fitting_compareRows (v : Vision) (m : Mat) (c a : Bytes) :
    ∀ rows : List Row, (∀ row ∈ rows, row.Within width) →
      Fitting width (CDetectModel.compareRows v m c a rows) fun _ => True
  | [], _ => fitting_ret trivial
  | row :: rows, h => by
    have hrow := h row List.mem_cons_self
    unfold CDetectModel.compareRows
    refine (fitting_getInt hrow _).bind fun _ _ => (fitting_getInt hrow _).bind fun _ _ => ?_
    refine (fitting_getInt hrow _).bind fun _ _ => (fitting_getInt hrow _).bind fun _ _ => ?_
    refine (fitting_deref _).bind fun _ _ => ?_
    dsimp only
    split_ifs
    · exact fitting_ret trivial
    · exact fitting_ret trivial
    · exact fitting_compareRows v m c a rows fun r hr => h r (List.mem_cons_of_mem _ hr)

theorem fitting_storeImage (v : Vision) (k : Conn) (image : Mat) (stmt : ImageParams → Stmt) :
    Fitting width (CDetectModel.storeImage v k image stmt) fun _ => True := by
  refine (fitting_ask _).bind fun started _ => ?_
  cases started
  · exact fitting_ret trivial
  · refine (fitting_defined (by decide) _).bind fun _ _ => (fitting_ask _).bind fun prepared _ => ?_
    cases prepared
    · exact fitting_ret trivial
    · refine (fitting_defined (by decide) _).bind fun _ _ => ?_
      refine (fitting_ask _).bind fun executed _ => ?_
      cases executed
      · exact (fitting_ask _).bind fun _ _ => (fitting_ask _).bind fun _ _ => fitting_ret trivial
      · exact (fitting_ask _).bind fun _ _ => (fitting_ask _).bind fun _ _ => fitting_ret trivial

theorem fitting_add (v : Vision) (image : Mat) (c a : Bytes) :
    Fitting width (CDetectModel.add v image c a) fun _ => True := by
  refine (fitting_ask _).bind fun _ _ => (fitting_deref _).bind fun k _ => ?_
  refine (fitting_ask _).bind fun _ _ => (fitting_deref _).bind fun rows _ => ?_
  split_ifs
  · exact fitting_storeImage v k image _
  · exact fitting_storeImage v k image _

theorem fitting_groupGetlist : Fitting width CDetectModel.groupGetlist fun _ => True := by
  refine (fitting_ask _).bind fun _ _ => (fitting_deref _).bind fun k _ => ?_
  refine (fitting_ask _).bind fun _ _ => (fitting_deref _).bind fun rows _ => ?_
  refine (Fitting.forEach (Q := fun _ => True) fun row _ => ?_).bind fun _ _ =>
    fitting_release k trivial
  exact (fitting_getText row .classnum).mono fun _ _ => trivial

/-- The accounts that are listed are as long as the table lets them be. -/
theorem fitting_groupGetusers (c : Bytes) :
    Fitting width (CDetectModel.groupGetusers c) fun users =>
      ∀ user ∈ users, user.1.length ≤ width := by
  refine (fitting_ask _).bind fun _ _ => (fitting_deref _).bind fun k _ => ?_
  refine (fitting_executeQuery k _).bind fun res hres => (fitting_deref _).bind fun rows hrows => ?_
  refine (Fitting.forEach (Q := fun user : Bytes × Bytes => user.1.length ≤ width)
    fun row hrow => ?_).bind fun users husers => fitting_release k husers
  have hwithin := hres rows hrows row hrow
  refine (fitting_getText row .account).bind fun account haccount => ?_
  exact (fitting_getText row .touxiang).bind fun _ _ => fitting_ret (haccount width hwithin.2)

/-! ## The handlers -/

theorem fitting_refreshUser {g account : Bytes} (h : g.length + account.length ≤ 131) :
    Fitting width (refreshUser g account) fun _ => True := by
  have hfit : (Stmt.isLogin g account).text.length < 200 := by
    rw [length_isLogin]
    omega
  have hset : ∀ (k : Conn) (rows : List Row), (∀ row ∈ rows, row.Within width) →
      Fitting width (refreshFrom g account k rows) fun _ => True := by
    intro k rows hrows
    rcases rows with _ | ⟨row, rows⟩
    · exact fitting_ask _
    · refine (fitting_getInt (hrows row List.mem_cons_self) .islogin).bind fun _ _ => ?_
      exact (fitting_ask _).bind fun _ _ => fitting_ask _
  have hrest : Fitting width (openQuery 200 (.isLogin g account) >>= fun r =>
      deref r.2 >>= refreshFrom g account r.1) fun _ => True :=
    (fitting_openQuery hfit).bind fun r hrows =>
      (fitting_deref _).bind fun rows hmem => hset r.1 rows (hrows rows hmem)
  rw [refreshUser_eq]
  refine (fitting_ask _).bind fun known _ => ?_
  rcases known with _ | islogin
  · exact (fitting_ask _).bind fun _ _ => hrest
  · exact hrest

theorem fitting_getuserListEvent {g : Bytes} (h : g.length + width ≤ 131) :
    Fitting width (getuserListEvent g) fun _ => True := by
  refine (fitting_groupGetusers g).bind fun users husers => ?_
  have hloop : Fitting width (forEach (fun user : Bytes × Bytes => refreshUser g user.1) users)
      fun _ => True := by
    refine (Fitting.forEach (Q := fun _ => True) fun user huser => fitting_refreshUser ?_).mono
      fun _ _ => trivial
    have hlength := husers user huser
    omega
  exact hloop.bind fun _ _ => fitting_ask _

theorem fitting_indeterminate_write (r : Reply) :
    Fitting width (ask .indeterminate >>= fun n => if n = 0 then ret () else ask (.write r))
      fun _ => True := by
  refine (fitting_ask _).bind fun n _ => ?_
  split_ifs
  · exact fitting_ret trivial
  · exact fitting_ask _

theorem fitting_detectFaceEvent (v : Vision) {d : DetectFaceData} (hc : d.m_classnum.length < 20)
    (ha : d.m_account.length < 20) : Fitting width (detectFaceEvent v d) fun _ => True := by
  have hfit : (Stmt.detectOneFace d.m_classnum d.m_account).text.length < 256 :=
    length_names_lt (.detectOneFace [] []) rfl rfl hc ha (by decide +kernel)
  have hdetect : Fitting width (CDetectModel.detectOneFace v (v.reread d.image) d.m_classnum
      d.m_account) fun _ => True :=
    (fitting_openQuery hfit).bind fun r hrows => (fitting_deref _).bind fun rows hmem =>
      (fitting_compareRows v _ _ _ rows (hrows rows hmem)).bind fun _ _ =>
        fitting_release r.1 trivial
  refine hdetect.bind fun res _ => ?_
  split_ifs
  · exact fitting_ask _
  · exact fitting_ask _

theorem fitting_LoginUserEvent {d : LoginData} (hc : d.m_classnum.length < 20)
    (ha : d.m_username.length < 20) (hp : d.m_password.length < 20) :
    Fitting width (LoginUserEvent d) fun _ => True := by
  refine (fitting_openQuery (length_loginUser_lt hc ha hp)).bind fun r _ => ?_
  refine (fitting_deref _).bind fun rows _ => ?_
  rcases rows with _ | ⟨row, rows⟩
  · exact (fitting_ask _).bind fun _ _ => fitting_ask _
  · exact (fitting_ask _).bind fun _ _ => fitting_ask _

theorem fitting_LoginAddFaceEvent (v : Vision) {d : AddFaceData} (hc : d.m_classnum.length < 20)
    (ha : d.m_account.length < 20) (hp : d.m_password.length < 20)
    (ht : d.m_touxiang.length < 50) : Fitting width (LoginAddFaceEvent v d) fun _ => True := by
  refine (fitting_userExist hc ha hp).bind fun isExist _ => ?_
  cases isExist
  · refine (fitting_openQuery_drop (length_addUserInfo_lt hc ha hp ht)).bind fun _ _ => ?_
    refine (fitting_add v _ _ _).bind ?_
    rintro ⟨_, error_code⟩ -
    dsimp only
    split_ifs
    · exact fitting_ret trivial
    · exact fitting_ask _
  · exact fitting_ask _

theorem fitting_LoginOnlineEvent {d : UserName} (hc : d.classnum.length < 20)
    (ha : d.account.length < 20) : Fitting width (LoginOnlineEvent d) fun _ => True := by
  refine (fitting_ask _).bind fun _ _ => (fitting_ask _).bind fun ip hip => ?_
  refine fitting_sprintf_bind (length_loginOnline_lt hip hc ha) ?_
  refine (fitting_ask _).bind fun _ _ => (fitting_deref _).bind fun _ _ => ?_
  refine (fitting_ask _).bind fun _ _ => ?_
  exact (fitting_ask _).bind fun _ _ => fitting_ask _

theorem fitting_LoginOfflineEvent {d : UserName} (hc : d.classnum.length < 20)
    (ha : d.account.length < 20) : Fitting width (LoginOfflineEvent d) fun _ => True := by
  have hfit : (Stmt.loginOffline d.classnum d.account).text.length < 200 :=
    length_names_lt (.loginOffline [] []) rfl rfl hc ha (by decide +kernel)
  refine (fitting_ask _).bind fun _ _ => fitting_sprintf_bind hfit ?_
  refine (fitting_ask _).bind fun _ _ => (fitting_deref _).bind fun _ _ => ?_
  refine (fitting_ask _).bind fun _ _ => ?_
  exact (fitting_ask _).bind fun _ _ => fitting_ask _

theorem fitting_MessageCreateEvent {d : MessageCreateData}
    (h : (Request.messageCreate d).LookupsFit width) (ht : d.m_peertouxiang.length < 50) :
    Fitting width (MessageCreateEvent d) fun _ => True := by
  refine (fitting_getUserId h.1).bind fun _ _ => (fitting_getUserId h.2).bind fun _ _ => ?_
  refine (fitting_addSession _ _ _ ht).bind fun n _ => ?_
  split_ifs
  · exact fitting_ask _
  · exact fitting_ask _

theorem fitting_MessageSendEvent {d : MessageSendData}
    (h : (Request.messageSend d).LookupsFit width) :
    Fitting width (MessageSendEvent d) fun _ => True := by
  refine (fitting_getUserId h.1).bind fun _ _ => (fitting_getUserId h.2).bind fun _ _ => ?_
  refine (fitting_getRelationId _ _ _).bind fun _ _ => ?_
  refine (fitting_getSessionId _ _ _ _).bind fun _ _ => ?_
  refine (fitting_updateOnce _).bind fun _ _ => ?_
  exact (fitting_inserMessage _ _ _ _ _ _).bind fun _ _ => fitting_ret trivial

theorem fitting_forEach_write {γ : Type} (f : γ → Reply) (l : List γ) :
    Fitting width (forEach (fun a => ask (.write (f a))) l >>= fun _ => ret ()) fun _ => True :=
  (Fitting.forEach (Q := fun _ => True) fun _ _ => fitting_ask _).bind fun _ _ =>
    fitting_ret trivial

theorem fitting_MessageHistoryEvent {d : MessageHistoryData}
    (h : (Request.messageHistory d).LookupsFit width) (hlast : IsInt d.lastupdatetime) :
    Fitting width (MessageHistoryEvent d) fun _ => True := by
  refine (fitting_getUserId h.1).bind fun _ _ => (fitting_getUserId h.2).bind fun _ _ => ?_
  refine (fitting_getRelationId _ _ _).bind fun relationId hrelate => ?_
  refine (fitting_ask _).bind fun now hnow => ?_
  refine (fitting_getMessage hrelate hlast hnow).bind fun messageList _ => ?_
  split_ifs
  · exact fitting_ask _
  · exact (fitting_ask _).bind fun _ _ => fitting_forEach_write _ _

theorem fitting_RescentSessionEvent {c a : Bytes} (h : c.length + a.length ≤ 36)
    (lastupdatetime : ℤ) : Fitting width (RescentSessionEvent c a lastupdatetime) fun _ => True := by
  refine (fitting_getUserId h).bind fun fromId _ => ?_
  refine (fitting_getRecentSession fromId lastupdatetime).bind fun recentList _ => ?_
  split_ifs
  · exact fitting_ask _
  · refine (fitting_ask _).bind fun _ _ => ?_
    refine (Fitting.forEach (Q := fun _ => True) fun s _ => ?_).bind fun _ _ => fitting_ret trivial
    exact (fitting_ask _).bind fun _ _ => fitting_ask _

theorem fitting_LoginTouXiang {d : UserName} (hc : d.classnum.length < 20)
    (ha : d.account.length < 20) : Fitting width (LoginTouXiang d) fun _ => True := by
  refine (fitting_getTouXiang hc ha).bind fun pic _ => ?_
  split_ifs
  · exact (fitting_memcpyField _ _).bind fun _ _ => fitting_ask _
  · exact fitting_ask _

theorem fitting_GetTouXiang {d : UserName} (hc : d.classnum.length < 20)
    (ha : d.account.length < 20) : Fitting width (GetTouXiang d) fun _ => True := by
  refine (fitting_getTouXiang hc ha).bind fun pic _ => ?_
  refine (fitting_memcpyField _ _).bind fun _ _ => ?_
  split_ifs
  · exact fitting_ask _
  · exact fitting_ask _

theorem fitting_ChangeTouXiang {d : ChangeTouXiangData} (hc : d.m_classNum.length < 20)
    (ha : d.m_account.length < 20) (ht : d.m_touxiang.length < 50) :
    Fitting width (ChangeTouXiang d) fun _ => True :=
  (fitting_openQuery_drop (length_changeTouXiang_lt hc ha ht)).bind fun _ _ => fitting_ask _

/-- Each text is shorter than its field. -/
def Shorter : List Bytes → List (ℕ × ℕ) → Prop
  | text :: texts, field :: fields => text.length < field.2 ∧ Shorter texts fields
  | _, _ => True

/-- Every text of the request is shorter than its field, and its time is an `int`. -/
structure Request.Short (request : Request) : Prop where
  /-- A text of the request has its NUL in its field. -/
  texts : Shorter request.texts request.kind.textFields
  /-- The one number that goes into a statement. -/
  time : ∀ d, request = .messageHistory d → IsInt d.lastupdatetime

theorem fitting_doEvent (v : Vision) {request : Request} (hshort : request.Short)
    (h : request.LookupsFit width) : Fitting width (doEvent v request) fun _ => True := by
  have htexts := hshort.texts
  cases request with
  | noOperation => exact fitting_ret trivial
  | addFace d => exact fitting_LoginAddFaceEvent v htexts.1 htexts.2.1 htexts.2.2.1 htexts.2.2.2.1
  | getGroup => exact fitting_groupGetlist.bind fun _ _ => fitting_ask _
  | getUser g => exact fitting_getuserListEvent h
  | delUser d | delGroup g => exact fitting_indeterminate_write .null
  | login d => exact fitting_LoginUserEvent htexts.1 htexts.2.1 htexts.2.2.1
  | detect d => exact fitting_detectFaceEvent v htexts.1 htexts.2.1
  | messageCreate d => exact fitting_MessageCreateEvent h htexts.2.2.2.2.1
  | messageSend d => exact fitting_MessageSendEvent h
  | messageHistory d => exact fitting_MessageHistoryEvent h (hshort.time d rfl)
  | recentSession c a last => exact fitting_RescentSessionEvent h last
  | online d => exact fitting_LoginOnlineEvent htexts.1 htexts.2.1
  | offline d => exact fitting_LoginOfflineEvent htexts.1 htexts.2.1
  | checkIsOnline => exact (fitting_ask _).bind fun _ _ => fitting_ask _
  | loginTouXiang d => exact fitting_LoginTouXiang htexts.1 htexts.2.1
  | changeTouXiang d => exact fitting_ChangeTouXiang htexts.1 htexts.2.1 htexts.2.2.1
  | getTouXiang d => exact fitting_GetTouXiang htexts.1 htexts.2.1

end Fitting

/-! ## Lookups that do not fit -/

section Unfit

variable {width : ℕ} {α : Type}

/-- Any answer that can come may come. -/
theorem Formats.ask_bind {o : Op} {f : o.Ans → Proc α} (h : Formats width (ask o >>= f)) (r : o.Ans)
    (hr : Plausible width o r) (hnext : (formatWatch width).next false o r = false) :
    Formats width (f r) := by
  have hrest := h.obeys.2 r hr
  rw [hnext] at hrest
  exact ⟨hrest⟩

/-- What is formatted fits, and the rest goes on. -/
theorem Formats.sprintf_bind {size : ℕ} {s : Stmt} {f : Stmt → Proc α}
    (h : Formats width (sprintf size s >>= f)) : s.text.length < size ∧ Formats width (f s) := by
  by_cases hfit : s.text.length < size
  · rw [sprintf, if_pos hfit] at h
    exact ⟨hfit, h⟩
  · rw [sprintf, if_neg hfit] at h
    cases h.obeys rfl

theorem Formats.openQuery_bind {size : ℕ} {s : Stmt} {f : Conn × Option (List Row) → Proc α}
    (h : Formats width (openQuery size s >>= f)) :
    s.text.length < size ∧ Formats width (f (0, some [])) := by
  rw [openQuery, bind_assoc] at h
  have hconn := h.ask_bind (some 0) trivial rfl
  rw [bind_assoc] at hconn
  obtain ⟨hfit, hrest⟩ := hconn.sprintf_bind
  exact ⟨hfit, hrest.ask_bind (some []) (fun _ hrow => absurd hrow List.not_mem_nil) rfl⟩

theorem Formats.getUserId_bind {c a : Bytes} {f : ℤ → Proc α}
    (h : Formats width (CUserModel.getUserId c a >>= f)) :
    c.length + a.length ≤ 36 ∧ Formats width (f (-1)) := by
  rw [CUserModel.getUserId, bind_assoc] at h
  obtain ⟨hfit, hrest⟩ := h.openQuery_bind
  rw [length_getUserId] at hfit
  exact ⟨by omega, hrest.ask_bind () trivial rfl⟩

/-- A row of the table, with an account that has as many bytes as it may have. -/
def longRow (width : ℕ) : Row :=
  [(.account, .text (List.replicate width 97)), (.touxiang, .text [])]

theorem within_longRow (width : ℕ) : (longRow width).Within width := by
  have hzero : atoi (List.replicate width 97) = 0 := by
    cases width
    · rfl
    · rw [List.replicate_succ, atoi]
      rfl
  refine ⟨fun key n hn => ?_, fun text htext => ?_⟩
  · have hn0 : n = 0 := by
      have hnil : atoi [] = 0 := rfl
      cases key <;> simpa [longRow, Row.int?, Row.get, hzero, hnil, eq_comm] using hn
    rw [hn0]
    decide
  · simp [longRow, Row.getString, Row.get] at htext
    simp [← htext]

theorem getText_longRow (width : ℕ) :
    getText (longRow width) .account = ret (List.replicate width 97) := by
  have h0 : (0 : UInt8) ∉ List.replicate width 97 := by
    rw [List.mem_replicate]
    exact fun h => absurd h.2 (by decide)
  exact congrArg ret (takeWhile_of_notMem h0)

theorem fits_of_formats_getUser {g : Bytes} (h : Formats width (getuserListEvent g)) :
    g.length + width ≤ 131 := by
  have htouxiang : getText (longRow width) .touxiang = ret [] := rfl
  rw [getuserListEvent, CDetectModel.groupGetusers] at h
  simp only [bind_assoc] at h
  have hquery := h.ask_bind (some 0) trivial rfl
  simp only [deref, ret_bind] at hquery
  have hrows := hquery.ask_bind (some [longRow width]) (by simp [Plausible, within_longRow]) rfl
  simp only [forEach, getText_longRow, htouxiang, bind_assoc, ret_bind, pure_eq_ret] at hrows
  have hloop := hrows.ask_bind () trivial rfl
  simp only [refreshUser, bind_assoc] at hloop
  have hknown := hloop.ask_bind (some 0) trivial rfl
  simp only [Option.isNone_some, Bool.false_eq_true, if_false, ret_bind, bind_assoc] at hknown
  obtain ⟨hfit, -⟩ := hknown.openQuery_bind
  rw [length_isLogin, List.length_replicate] at hfit
  omega

end Unfit

/-! ## Requests -/

section Requests

attribute [local irreducible] toInt intAt faceSize msgBufferSize slice

variable {b : ℕ → UInt8} {c : Cmd} {request : Request}

/-- The text of a field with a NUL is shorter than the field. -/
theorem length_fieldText_lt {field : ℕ × ℕ} (h : (0 : UInt8) ∈ slice b field.1 field.2) :
    (fieldText b field).length < field.2 := by
  have hsub : (fieldText b field).Sublist (slice b field.1 field.2) := List.takeWhile_sublist _
  have hle := hsub.length_le
  rw [length_slice] at hle
  refine hle.lt_of_ne fun heq => ?_
  have hself : fieldText b field = slice b field.1 field.2 :=
    hsub.eq_of_length (by rw [heq, length_slice])
  have hzero := List.takeWhile_eq_self_iff.mp hself 0 h
  simp at hzero

theorem shorter_map {f : ℕ × ℕ → Bytes} : ∀ {fields : List (ℕ × ℕ)},
    (∀ field ∈ fields, (f field).length < field.2) → Shorter (fields.map f) fields
  | [], _ => trivial
  | _ :: _, h => ⟨h _ List.mem_cons_self,
      shorter_map fun field hfield => h field (List.mem_cons_of_mem _ hfield)⟩

/-- A request whose text fields have NULs is short. -/
theorem short_of_decode (hdecode : decode b c = some request)
    (hended : ∀ field ∈ c.textFields, (0 : UInt8) ∈ slice b field.1 field.2) : request.Short := by
  have htexts : request.texts = c.textFields.map (fieldText b) := by
    refine List.map_injective_iff.mpr (Option.some_injective _) ?_
    rw [← texts_of_decode hdecode, List.map_map]
    refine List.map_congr_left fun field hfield => ?_
    exact (cString_eq_fieldText_iff (textFields_lt hfield)).mpr (Or.inl (hended field hfield))
  refine ⟨?_, ?_⟩
  · rw [htexts, kind_decode hdecode]
    exact shorter_map fun field hfield => length_fieldText_lt (hended field hfield)
  · rintro d rfl
    obtain rfl : Cmd.messageHistory = c := kind_decode hdecode
    simp only [decode, Option.bind_eq_bind, Option.pure_def, Option.bind_eq_some_iff,
      Option.some.injEq, Request.messageHistory.injEq] at hdecode
    obtain ⟨_, -, _, -, _, -, _, -, rfl⟩ := hdecode
    exact isInt_intAt b 88

theorem lookupsFit_of_formats {width : ℕ} {v : Vision} (h : Formats width (doEvent v request)) :
    request.LookupsFit width := by
  cases request with
  | getUser g => exact fits_of_formats_getUser h
  | messageCreate d =>
    obtain ⟨hfrom, hrest⟩ := Formats.getUserId_bind h
    exact ⟨hfrom, hrest.getUserId_bind.1⟩
  | messageSend d =>
    obtain ⟨hfrom, hrest⟩ := Formats.getUserId_bind h
    exact ⟨hfrom, hrest.getUserId_bind.1⟩
  | messageHistory d =>
    obtain ⟨hfrom, hrest⟩ := Formats.getUserId_bind h
    exact ⟨hfrom, hrest.getUserId_bind.1⟩
  | recentSession c a last => exact (Formats.getUserId_bind h).1
  | _ => trivial

/-- The statements of a request whose text fields have NULs fit their arrays, whatever is
answered, if and only if the names that are looked up have at most 36 bytes together, and the
names in the list of users at most 131. -/
theorem formats_iff (v : Vision) (width : ℕ) (hdecode : decode b c = some request)
    (hended : ∀ field ∈ c.textFields, (0 : UInt8) ∈ slice b field.1 field.2) :
    (Formats width (doEvent v request) ↔ request.LookupsFit width) ∧
      ∀ classNum account : Bytes, classNum.length < 20 → account.length < 20 →
        Formats width (CUserModel.GetTouXiang classNum account) := by
  refine ⟨⟨lookupsFit_of_formats, fun h => ?_⟩, fun _ _ hc ha => formats_GetTouXiang hc ha⟩
  exact ⟨(fitting_doEvent v (short_of_decode hdecode hended) h).obeys false⟩

end Requests

/-- A `MESSAGE_CREATE` whose four names have `n` bytes each. -/
def createBuffer (n : ℕ) : ℕ → UInt8 := fun i =>
  if i < 88 ∧ (i - 8) % 20 < n then 49 else 0

/-- `createBuffer` as it is read. -/
def createRequest (n : ℕ) : Request :=
  let name := List.replicate n 49
  .messageCreate ⟨name, name, name, name, []⟩

theorem fieldText_createBuffer : ∀ n ∈ [18, 19],
    (∀ off ∈ [8, 28, 48, 68], fieldText (createBuffer n) (off, 20) = List.replicate n 49) ∧
    fieldText (createBuffer n) (88, 50) = [] ∧
    ∀ field ∈ Cmd.messageCreate.textFields, (0 : UInt8) ∈ slice (createBuffer n) field.1 field.2 := by
  decide +kernel

theorem decode_createBuffer {n : ℕ} (hn : n ∈ [18, 19]) :
    decode (createBuffer n) .messageCreate = some (createRequest n) := by
  obtain ⟨hnames, havatar, hzero⟩ := fieldText_createBuffer n hn
  have hread : ∀ field ∈ Cmd.messageCreate.textFields,
      cString (createBuffer n) field.1 = some (fieldText (createBuffer n) field) :=
    fun field hfield =>
      (cString_eq_fieldText_iff (textFields_lt hfield)).mpr (Or.inl (hzero field hfield))
  simp only [Cmd.textFields, List.forall_mem_cons, List.not_mem_nil, false_implies, implies_true,
    and_true] at hread hnames
  obtain ⟨h1, h2, h3, h4⟩ := hnames
  simp only [decode, hread, h1, h2, h3, h4, havatar, Option.bind_eq_bind, Option.bind_some,
    Option.pure_def]
  rfl

/-- Four names of 18 bytes. -/
theorem formats_iff_eighteen :
    let v : Vision := ⟨fun _ => 1, id, fun _ _ => 0⟩
    (Formats 19 (doEvent v (createRequest 18)) ↔ (createRequest 18).LookupsFit 19) ∧
      ∀ classNum account : Bytes, classNum.length < 20 → account.length < 20 →
        Formats 19 (CUserModel.GetTouXiang classNum account) :=
  formats_iff _ 19 (decode_createBuffer (by decide)) (fieldText_createBuffer 18 (by decide)).2.2

/-- Names of 19 bytes take 102 of the 100 bytes of `getUserId`. -/
theorem not_formats_nineteen : ¬∀ (v : Vision) (b : ℕ → UInt8) (c : Cmd) (request : Request),
    decode b c = some request →
    (∀ field ∈ c.textFields, (0 : UInt8) ∈ slice b field.1 field.2) →
      Formats 19 (doEvent v request) := by
  intro hall
  have hformats := hall ⟨fun _ => 1, id, fun _ _ => 0⟩ (createBuffer 19) .messageCreate
    (createRequest 19) (decode_createBuffer (by decide)) (fieldText_createBuffer 19 (by decide)).2.2
  have hfits := (lookupsFit_of_formats hformats).1
  revert hfits
  decide

end WzxServer
