import WzxServer.Bytes
import WzxServer.Lib.Literal

/-!
# SQL statements

Every SQL text of the server is one of the statements below : code, with texts put between
quotes by `sprintf` or `+`, and numbers printed into the code. `Stmt` keeps what was put
in, and `Stmt.text` is the text. The parameters of a prepared statement are part of the
`Stmt` and not of its text.

`mysql` are the rules by which MySQL reads string literals. By `tokens_text_iff` a
statement is read as it was meant exactly when each of its texts is inert.

What a text between quotes comes to is a matter of its template and not of SQL : the code around it
has no quote, and what stands behind it starts with neither a quote nor a backslash
(`wellFormed_template`). So the statements go through `Lib.Literal` all at once.
-/

namespace WzxServer

/-- What a backslash and the byte after it stand for in a MySQL string; `\%` and `\_` are
kept. -/
def unescape (c : UInt8) : Option UInt8 :=
  if c = 48 then some 0
  else if c = 98 then some 8
  else if c = 110 then some 10
  else if c = 114 then some 13
  else if c = 116 then some 9
  else if c = 90 then some 26
  else if c = 37 ∨ c = 95 then none
  else some c

theorem eq_of_unescape {c d : UInt8} (h : unescape c = some d) (hd : d = 39 ∨ d = 92) : c = d := by
  unfold unescape at h
  split_ifs at h
  all_goals
    obtain rfl := Option.some.inj h
    first
      | rfl
      | exact absurd hd (by decide)

/-- String literals of MySQL, between single quotes. -/
def mysql : Quoting UInt8 where
  quote := 39
  esc := 92
  unesc := unescape
  quote_ne_esc := by decide
  unesc_quote := by decide
  unesc_esc := by decide
  eq_of_unesc_quote _ h := eq_of_unescape h (Or.inl rfl)
  eq_of_unesc_esc _ h := eq_of_unescape h (Or.inr rfl)

/-- The parameters of the two statements that store an image. -/
structure ImageParams where
  image : Bytes
  cols : ℤ
  rows : ℤ
  type : ℤ
  length : ℤ
  deriving DecidableEq, Inhabited

/-- The statements, named after the functions that build them. -/
inductive Stmt where
  -- event handlers
  | loginUser (classnum username password : Bytes)
  | isLogin (group_id account : Bytes)
  | loginOnline (ip classnum account : Bytes)
  | loginOffline (classnum account : Bytes)
  -- CUserModel
  | getUserId (classnum account : Bytes)
  | getUserFromId (userId : ℤ)
  | getTouXiang (classnum account : Bytes)
  | userExist (classnum account password : Bytes)
  | addUserInfo (classnum account password touxiang : Bytes)
  | changeTouXiang (touxiangPath classNum account : Bytes)
  | GetTouXiang (classNum account : Bytes)
  -- CRelationModel
  | getRelationId (nSmallId nBigId : ℤ)
  | addRelationSelect (nSmallId nBigId : ℤ)
  | addRelationUpdate (nTimeNow nRelationId : ℤ)
  | addRelationInsert (nSmallId nBigId nStatus nTimeNow : ℤ)
  | updateRelation (nUpdateTime nRelationId : ℤ)
  | removeRelation (nNow nRelationId : ℤ)
  -- CMessageModel
  | inserMessage (relateId fromId toId : ℤ) (content : Bytes) (type status nTimeNow : ℤ)
  | getMessage (relateId type nowTime lastTime : ℤ)
  | getLastMsg (nRelateId : ℤ)
  -- CSessionModel
  | getRecentSession (nUserId lastTime : ℤ)
  | getSessionId (nUserId nPeerId nType : ℤ) (isAll : Bool)
  | updateSession (nUpdateTime nSessionId : ℤ)
  | removeSession (nNow nSessionId : ℤ)
  | addSessionUpdate (peerTouXiang : Bytes) (nTimeNow nSessionId : ℤ)
  | addSessionInsert (nUserId nPeerId nType nStatus nTimeNow : ℤ) (peerTouXiang : Bytes)
  -- CDetectModel
  | detectOneFace (classnum account : Bytes)
  | addSelect (classnum account : Bytes)
  | addUpdate (classnum account : Bytes) (p : ImageParams)
  | addInsert (classnum account : Bytes) (p : ImageParams)
  | groupGetlist
  | groupGetusers (classnum : Bytes)
  deriving DecidableEq

/-! ## Texts -/

/-- Code with no text in it. -/
def plain (head : Bytes) : Template UInt8 :=
  ⟨head, []⟩

/-- The common end of the statements about one user. -/
def whereUser (classnum account : Bytes) (stop : String) : List (Bytes × Bytes) :=
  [(classnum, ascii " and account = "), (account, ascii stop)]

/-- The code of a statement, with the texts that are put into it. -/
def Stmt.template : Stmt → Template UInt8
  | .loginUser classnum username password =>
    ⟨ascii "select classnum,account,password from user_table where classnum = ",
      [(classnum, ascii " and account = "), (username, ascii " and password = "),
        (password, ascii ";")]⟩
  | .isLogin group_id account =>
    ⟨ascii "select islogin from user_table where classnum = ", whereUser group_id account ";"⟩
  | .loginOnline ip classnum account =>
    ⟨ascii "update user_table set ip = ",
      (ip, ascii ", islogin = 1 where classnum = ") :: whereUser classnum account ";"⟩
  | .loginOffline classnum account =>
    ⟨ascii "update user_table set islogin = 0 where classnum = ",
      whereUser classnum account ";"⟩
  | .getUserId classnum account =>
    ⟨ascii "select id from user_table where classnum = ", whereUser classnum account ";"⟩
  | .getUserFromId userId =>
    plain (ascii "select classnum,account from user_table where id = " ++ decimal userId)
  | .getTouXiang classnum account =>
    ⟨ascii "select touxiang from user_table where classnum = ", whereUser classnum account "; "⟩
  | .userExist classnum account password =>
    ⟨ascii "select classnum,account from user_table where classnum = ",
      [(classnum, ascii " and account = "), (account, ascii " and password = "),
        (password, ascii ";")]⟩
  | .addUserInfo classnum account password touxiang =>
    ⟨ascii "insert into user_table(classnum, account, password,islogin,touxiang) values(",
      [(classnum, ascii ","), (account, ascii ","), (password, ascii ",0,"),
        (touxiang, ascii ")")]⟩
  | .changeTouXiang touxiangPath classNum account =>
    ⟨ascii "update user_table set touxiang = ",
      (touxiangPath, ascii " where classnum = ") :: whereUser classNum account ";"⟩
  | .GetTouXiang classNum account =>
    ⟨ascii "select touxiang from user_table where classnum = ", whereUser classNum account ";"⟩
  | .getRelationId nSmallId nBigId =>
    plain (ascii "select id from relationShip_table where smallId=" ++ decimal nSmallId ++
      ascii " and bigId=" ++ decimal nBigId ++ ascii " and status = 0")
  | .addRelationSelect nSmallId nBigId =>
    plain (ascii "select id from relationShip_table where smallId=" ++ decimal nSmallId ++
      ascii " and bigId=" ++ decimal nBigId)
  | .addRelationUpdate nTimeNow nRelationId =>
    plain (ascii "update relationShip_table set status=0, updated=" ++ decimal nTimeNow ++
      ascii " where id=" ++ decimal nRelationId)
  | .addRelationInsert _ _ _ _ =>
    plain (ascii "insert into relationShip_table (`smallId`,`bigId`,`status`,`created`,`updated`)" ++
      ascii " values(?,?,?,?,?)")
  | .updateRelation nUpdateTime nRelationId =>
    plain (ascii "update relationShip_table set `updated`=" ++ decimal nUpdateTime ++
      ascii " where id=" ++ decimal nRelationId)
  | .removeRelation nNow nRelationId =>
    plain (ascii "update relationShip_table set status = 1, updated=" ++ decimal nNow ++
      ascii " where id=" ++ decimal nRelationId)
  | .inserMessage _ _ _ _ _ _ _ =>
    plain (ascii "insert into message_table " ++
      ascii "(relateId,fromId,toId,msgId,content,type,status,updated,created)" ++
      ascii " values(?,?,?,?,?,?,?,?,?);")
  | .getMessage relateId type nowTime lastTime =>
    plain (ascii "select fromId,toId,content,type,status,updated,created from message_table" ++
      ascii " where relateId = " ++ decimal relateId ++ ascii " and type = " ++ decimal type ++
      ascii " and updated <= " ++ decimal nowTime ++ ascii " and updated > " ++ decimal lastTime)
  | .getLastMsg nRelateId =>
    plain (ascii "select type,content from message_table" ++
      ascii " force index (idx_relateId_status_created) where relateId= " ++ decimal nRelateId ++
      ascii " and status = 1 order by created desc, id desc limit 1")
  | .getRecentSession nUserId lastTime =>
    plain (ascii "select * from recentSession_table where userId = " ++ decimal nUserId ++
      ascii " and status = 0 and updated <" ++ decimal lastTime ++
      ascii " order by updated desc limit 100")
  | .getSessionId nUserId nPeerId nType isAll =>
    plain (ascii "select id from recentSession_table where userId=" ++ decimal nUserId ++
      ascii " and peerId=" ++ decimal nPeerId ++ ascii " and type=" ++ decimal nType ++
      if isAll then [] else ascii " and status=0")
  | .updateSession nUpdateTime nSessionId =>
    plain (ascii "update recentSession_table set `updated`=" ++ decimal nUpdateTime ++
      ascii " where id=" ++ decimal nSessionId)
  | .removeSession nNow nSessionId =>
    plain (ascii "update recentSession_table set status = 1, updated=" ++ decimal nNow ++
      ascii " where id=" ++ decimal nSessionId)
  | .addSessionUpdate peerTouXiang nTimeNow nSessionId =>
    ⟨ascii "update recentSession_table set status=0, peerTouXiang = ",
      [(peerTouXiang, ascii " , updated = "),
        (decimal nTimeNow, ascii " where id = " ++ decimal nSessionId)]⟩
  | .addSessionInsert _ _ _ _ _ _ =>
    plain (ascii "insert into recentSession_table " ++
      ascii "(`userId`,`peerId`,`type`,`status`,`created`,`updated`,`peerTouXiang`)" ++
      ascii " values(?,?,?,?,?,?,?)")
  | .detectOneFace classnum account =>
    ⟨ascii "select image,width,height,image_type,image_length from user_table where classnum = ",
      whereUser classnum account ";"⟩
  | .addSelect classnum account =>
    ⟨ascii "select classnum,account from user_table where classnum = ",
      whereUser classnum account ";"⟩
  | .addUpdate classnum account _ =>
    ⟨ascii ("update user_table set image=?,width=?,height =?,image_type=?,image_length =?" ++
      " where classnum = "), whereUser classnum account ";"⟩
  | .addInsert classnum account _ =>
    ⟨ascii "insert into user_table (classnum,account,image,width,height,image_type,image_length) values(",
      [(classnum, ascii ","), (account, ascii ",?,?,?,?,?);")]⟩
  | .groupGetlist => plain (ascii "select distinct classnum from user_table;")
  | .groupGetusers classnum =>
    ⟨ascii "select account,touxiang from user_table where classnum = ", [(classnum, ascii ";")]⟩

/-- The text sent to MySQL. -/
def Stmt.text (s : Stmt) : Bytes :=
  mysql.render s.template

/-- The texts put into a statement. -/
def Stmt.fields (s : Stmt) : List Bytes :=
  s.template.holes.map Prod.fst

/-- The structure a statement is meant to have. -/
def Stmt.shape (s : Stmt) : List (Token UInt8) :=
  Quoting.shape s.template.head s.template.holes

/-- MySQL reads the statement as it was meant. -/
def Stmt.AsMeant (s : Stmt) : Prop :=
  mysql.tokens s.text = some s.shape

instance (s : Stmt) : Decidable s.AsMeant :=
  inferInstanceAs (Decidable (_ = _))

/-- No text of the statement is read as anything but itself. -/
def Stmt.Inert (s : Stmt) : Prop :=
  ∀ f ∈ s.fields, mysql.inert f = true

instance (s : Stmt) : Decidable s.Inert :=
  inferInstanceAs (Decidable (∀ f ∈ s.fields, _))

/-! ## How they are read -/

/-- Code without a quote that starts with neither a quote nor a backslash. -/
def plainCode (code : Bytes) : Bool :=
  match code with
  | [] => false
  | c :: _ => c ≠ 39 && c ≠ 92 && !code.contains 39

/-- Code with code behind it. -/
theorem plainCode_append {a : Bytes} (ha : plainCode a = true) {b : Bytes} (hb : (39 : UInt8) ∉ b) :
    plainCode (a ++ b) = true := by
  cases a with
  | nil => simp [plainCode] at ha
  | cons c a =>
    simp only [plainCode, Bool.and_eq_true] at ha
    simpa [plainCode, hb] using ha

theorem wellFormed_mk {head : Bytes} {holes : List (Bytes × Bytes)} (hhead : (39 : UInt8) ∉ head)
    (hholes : ∀ h ∈ holes, plainCode h.2 = true) : mysql.WellFormed ⟨head, holes⟩ := by
  refine ⟨hhead, fun h hh => ?_⟩
  have hcode := hholes h hh
  revert hcode
  rcases h.2 with _ | ⟨c, code⟩
  · simp [plainCode]
  · intro hcode
    simp only [plainCode, Bool.and_eq_true, decide_eq_true_eq, Bool.not_eq_true',
      List.contains_eq_mem, decide_eq_false_iff_not] at hcode
    exact ⟨hcode.2, c, code, rfl, not_or.2 hcode.1⟩

/-- A number has no quote. -/
theorem quote_notMem_decimal (n : ℤ) : (39 : UInt8) ∉ decimal n := by
  intro h
  rcases mem_decimal h with h | h <;> revert h <;> decide

/-- The code of every statement is free of quotes, and starts plainly behind each text. -/
theorem wellFormed_template (s : Stmt) : mysql.WellFormed s.template := by
  cases s with
  | addSessionUpdate peerTouXiang nTimeNow nSessionId =>
    refine wellFormed_mk (by decide) ?_
    simp only [List.forall_mem_cons, List.not_mem_nil, false_implies, implies_true, and_true]
    exact ⟨by decide, plainCode_append (by decide) (quote_notMem_decimal _)⟩
  | getSessionId nUserId nPeerId nType isAll =>
    refine wellFormed_mk ?_ (by simp)
    cases isAll
    all_goals
      simp only [List.mem_append, quote_notMem_decimal, not_or, or_false]
      decide +kernel
  | _ =>
    refine wellFormed_mk ?_ ?_
    · first
        | decide +kernel
        | simp only [List.mem_append, quote_notMem_decimal, not_or, or_false]
          decide +kernel
    · simp only [whereUser, List.forall_mem_cons, List.not_mem_nil, false_implies, implies_true,
        and_true] <;> decide +kernel

/-- MySQL reads a statement as it was meant exactly when its texts are inert. -/
theorem asMeant_iff_inert (s : Stmt) : s.AsMeant ↔ s.Inert := by
  have h := Quoting.tokens_render_iff (wellFormed_template s)
  rw [Stmt.AsMeant, Stmt.Inert, Stmt.fields, List.forall_mem_map]
  exact h

/-- The query for the messages of a relation fits, whatever its numbers. -/
theorem length_getMessage_lt {relateId now last : ℤ} (hrelate : IsInt relateId) (hnow : IsInt now)
    (hlast : IsInt last) : (Stmt.getMessage relateId 1 now last).text.length < 200 := by
  have h₁ := length_decimal_le hrelate
  have h₂ := length_decimal_le hnow
  have h₃ := length_decimal_le hlast
  have hcode : (ascii "select fromId,toId,content,type,status,updated,created from message_table" ++
      ascii " where relateId = " ++ decimal 1 ++ ascii " and type = " ++
      ascii " and updated <= " ++ ascii " and updated > ").length = 135 := by
    decide +kernel
  simp only [List.length_append] at hcode
  simp only [Stmt.text, Quoting.render, Stmt.template, plain, Quoting.fill, List.length_append]
  omega

end WzxServer
