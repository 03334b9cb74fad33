import WzxServer.Chat
import WzxServer.Lib.Polling
import Mathlib

/-!
# Polling a conversation

A client that follows a conversation asks for its history again and again, each time with
the largest time it has received. `PollRun` is a run of such polls by `a` with messages
between `a` and `b` in any order. It is a run of `Polling` over the times of the messages
(`PollRun.inv`), so a message is returned in exactly one poll when it is timely, and else
lost : when it is sent in the second of a message that an earlier poll has found.

`PollInv` is what connects the two. It says that the polls are a run of `Polling` over the times
of the conversation, and that each answer is the window of its poll over the messages; the time
that the client sends back is then the cursor of `Polling`, and the rest is about times in a log.
The clock may stand still between two steps and does not go back, and its readings are `int`s.
-/

namespace WzxServer

open Prog Proc World

/-- A poll that was answered : the time it asked with, the time it was answered, how many
messages there were between the two users, and the messages it got. -/
structure PollAnswer where
  lastupdatetime : ℤ
  now : ℤ
  stop : ℕ
  got : List MessageSendData
  deriving DecidableEq

/-- The messages among the replies. -/
def messagesOf (rs : List Reply) : List MessageSendData :=
  rs.filterMap fun
    | .message m => some m
    | _ => none

/-- The largest `updatetime` received so far, and 0 before there is one. -/
def lastReceived (answers : List PollAnswer) : ℤ :=
  ((answers.flatMap PollAnswer.got).map MessageSendData.updatetime).foldl max 0

/-- The messages between `a` and `b`. -/
def conversation (a b : UserName) (log : List Entry) : List Entry :=
  log.filter fun m => m.Between a b

/-- Messages between `a` and `b` and polls of `a`, after any run of requests. -/
inductive PollRun (S : Server) (us : List UserRow) (Us : Set UserName) (a b : UserName) :
    List Entry → List PollAnswer → World → Prop
  /-- Any run of requests comes before the first poll. -/
  | start {log : List Entry} {w : World} (h : ChatRun S us Us log w) : PollRun S us Us a b log [] w
  /-- One of the two writes to the other. -/
  | send {log : List Entry} {answers : List PollAnswer} {w : World}
      (h : PollRun S us Us a b log answers w) (hids : IsInt w.tables.nextRelation)
      {x y : UserName} (hxy : x = a ∧ y = b ∨ x = b ∧ y = a) {content : Bytes}
      (hcontent : IsContent content) (updatetime : ℤ) :
      PollRun S us Us a b
        (log ++ [⟨x, y, content,
          (w.handled S (MessageSendEvent (sendRequest x y content updatetime))).lastTime S⟩])
        answers (w.handled S (MessageSendEvent (sendRequest x y content updatetime)))
  /-- `a` asks with the largest time it has received. -/
  | poll {log : List Entry} {answers : List PollAnswer} {w w' : World}
      (h : PollRun S us Us a b log answers w) (hids : IsInt w.tables.nextRelation)
      (hw' : w' = w.handled S (MessageHistoryEvent (historyRequest a b (lastReceived answers)))) :
      PollRun S us Us a b log
        (answers ++ [⟨lastReceived answers, w'.lastTime S, (conversation a b log).length,
          messagesOf (newly w w')⟩]) w'

/-- The window of a poll. -/
def PollAnswer.toPoll (p : PollAnswer) : Polling.Poll ℤ :=
  ⟨p.lastupdatetime, p.now, p.stop⟩

/-- The messages of a conversation that a poll should have got. -/
def PollAnswer.window (ms : List Entry) (p : PollAnswer) : List Entry :=
  (ms.take p.stop).filter fun m => p.lastupdatetime < m.created ∧ m.created ≤ p.now

/-- The message at position `i` of the conversation was returned by exactly one poll. -/
def ReturnedOnce (ms : List Entry) (answers : List PollAnswer) (i : ℕ) : Prop :=
  answers.countP (fun p => p.toPoll.takes (ms.map Entry.created) i) = 1

instance (ms : List Entry) (answers : List PollAnswer) (i : ℕ) :
    Decidable (ReturnedOnce ms answers i) :=
  inferInstanceAs (Decidable (_ = _))

/-- The message at position `i` was stored after second 0, and later than every message
that a poll before it has found. -/
def SentTimely (ms : List Entry) (answers : List PollAnswer) (i : ℕ) : Prop :=
  Polling.Timely 0 (ms.map Entry.created) (answers.map PollAnswer.toPoll) i

/-! ## The polls as polls of a log -/

variable {S : Server} {us : List UserRow} {Us : Set UserName} {a b : UserName}
  {log : List Entry} {answers : List PollAnswer} {w : World}

theorem messagesOf_historyReplies (ms : List MessageSendData) :
    messagesOf (historyReplies ms) = ms := by
  rw [historyReplies, messagesOf]
  split_ifs with hlength
  · exact (List.length_eq_zero_iff.mp hlength).symm
  · rw [List.filterMap_cons_none rfl, List.filterMap_map]
    exact List.filterMap_some

/-- What the run of polls keeps. -/
structure PollInv (S : Server) (us : List UserRow) (Us : Set UserName) (a b : UserName)
    (log : List Entry) (answers : List PollAnswer) (w : World) : Prop where
  /-- The messages were sent by a run of requests. -/
  chat : ChatRun S us Us log w
  /-- The polls are polls of the times at which they were stored. -/
  run : Polling.Run 0 ((conversation a b log).map Entry.created)
    (answers.map PollAnswer.toPoll) (S.clock w.reads)
  /-- Each answer is the window of its poll. -/
  got : ∀ p ∈ answers, p.got = (p.window (conversation a b log)).map Entry.reply

/-- The time a client asks with is the cursor over what it was sent. -/
theorem lastReceived_eq {ms : List Entry}
    (hgot : ∀ p ∈ answers, p.got = (p.window ms).map Entry.reply) :
    lastReceived answers =
      Polling.cursor 0 (ms.map Entry.created) (answers.map PollAnswer.toPoll) := by
  have htaken : ∀ p ∈ answers, p.got.map MessageSendData.updatetime =
      p.toPoll.taken (ms.map Entry.created) := by
    intro p hp
    rw [hgot p hp, List.map_map, Polling.Poll.taken, ← List.map_take, List.filter_map]
    rfl
  rw [lastReceived, Polling.cursor, List.map_flatMap, List.flatMap_map]
  rw [List.flatMap_congr htaken]

theorem conversation_append (log : List Entry) {m : Entry} (h : m.Between a b) :
    conversation a b (log ++ [m]) = conversation a b log ++ [m] := by
  simp [conversation, List.filter_append, h]

/-- The time a client asks with is a reading of the clock, or 0. -/
theorem PollInv.isInt_lastReceived (hclock : ∀ n, IsInt (S.clock n))
    (h : PollInv S us Us a b log answers w)
    (hcreated : ∀ m ∈ log, ∃ n < w.reads, m.created = S.clock n) :
    IsInt (lastReceived answers) := by
  rw [lastReceived_eq h.got]
  rcases h.run.inv.attained with hcursor | ⟨i, -, hcursor⟩
  · rw [hcursor]
    decide
  · obtain ⟨m, hm, hmcreated⟩ := List.mem_map.mp (List.mem_of_getElem? hcursor)
    obtain ⟨n, -, hn⟩ := hcreated m (List.mem_filter.mp hm).1
    rw [← hmcreated, hn]
    exact hclock n

/-- The invariant of a run of polls, from one step to the next. -/
theorem PollRun.inv (hmono : Monotone S.clock) (hclock : ∀ n, IsInt (S.clock n))
    (hdir : Directory us) (hmember : ∀ u ∈ Us, Member S.mysql.toCollation us u)
    (hcarried : ∀ u ∈ Us, Carried u) (ha : a ∈ Us) (hb : b ∈ Us)
    (h : PollRun S us Us a b log answers w) : PollInv S us Us a b log answers w := by
  induction h with
  | @start log w h =>
    refine ⟨h, .start ?_, by simp⟩
    intro t ht
    obtain ⟨m, hm, rfl⟩ := List.mem_map.mp ht
    obtain ⟨-, -, hcreated⟩ := chat_of_run hclock hdir hmember hcarried h
    obtain ⟨n, hn, hm⟩ := hcreated m (List.mem_filter.mp hm).1
    rw [hm]
    exact hmono hn.le
  | @send log answers w h hids x y hxy content hcontent updatetime ih =>
    have hm : Entry.Between a b ⟨x, y, content, (w.handled S (MessageSendEvent
        (sendRequest x y content updatetime))).lastTime S⟩ := hxy
    have hx : x ∈ Us := by
      rcases hxy with ⟨rfl, rfl⟩ | ⟨rfl, rfl⟩ <;> assumption
    have hy : y ∈ Us := by
      rcases hxy with ⟨rfl, rfl⟩ | ⟨rfl, rfl⟩ <;> assumption
    obtain ⟨husers, hkept, -⟩ := chat_of_run hclock hdir hmember hcarried ih.chat
    subst husers
    obtain ⟨_, w', hrun, -, -, hreads, -⟩ := ends_send hdir hmember hkept hx hy hcontent updatetime
    have hw' : w.handled S (MessageSendEvent (sendRequest x y content updatetime)) = w' :=
      congrArg Prod.snd hrun
    refine ⟨.send ih.chat hids hx hy hcontent updatetime, ?_, fun p hp => ?_⟩
    · rw [conversation_append log hm, List.map_append, hw']
      exact ih.run.append (hmono (Nat.le_sub_one_of_lt hreads)) (hmono (Nat.sub_le _ _))
    · have hstop := ih.run.inv.stop_le p.toPoll (List.mem_map_of_mem hp)
      rw [List.length_map] at hstop
      change p.stop ≤ _ at hstop
      rw [ih.got p hp, conversation_append log hm, PollAnswer.window, PollAnswer.window,
        List.take_append_of_le_length hstop]
  | @poll log answers w w' h hids hw' ih =>
    obtain ⟨husers, hkept, hcreated⟩ := chat_of_run hclock hdir hmember hcarried ih.chat
    have hlast := ih.isInt_lastReceived hclock hcreated
    subst husers
    obtain ⟨_, w'', hrun, -, -, hreads, hsent⟩ :=
      ends_history hclock hdir hmember hcarried hkept hids ha hb hlast
    obtain rfl : w' = w'' := hw'.trans (congrArg Prod.snd hrun)
    refine ⟨hw' ▸ .history ih.chat hids ha hb hlast, ?_, fun p hp => ?_⟩
    · rw [List.map_append, List.map_singleton, PollAnswer.toPoll, lastReceived_eq ih.got,
        ← List.length_map (f := Entry.created)]
      exact ih.run.poll (hmono (Nat.le_sub_one_of_lt hreads)) (hmono (Nat.sub_le _ _))
    · rcases List.mem_append.mp hp with hp | hp
      · exact ih.got p hp
      · obtain rfl := List.mem_singleton.mp hp
        rw [newly, hsent, List.drop_left, messagesOf_historyReplies, PollAnswer.window,
          List.take_length, conversation, List.filter_filter]
        simp only [Bool.decide_and, Bool.and_comm]

/-! ## Returned once -/

/-- Every poll returns the messages in its window, each once. A message that is older than
some poll was returned by exactly one of the polls if it was sent timely, and else by none. -/
theorem returnedOnce_iff_sentTimely (hmono : Monotone S.clock) (hclock : ∀ n, IsInt (S.clock n))
    (hdir : Directory us) (hmember : ∀ u ∈ Us, Member S.mysql.toCollation us u)
    (hcarried : ∀ u ∈ Us, Carried u) (ha : a ∈ Us) (hb : b ∈ Us)
    (h : PollRun S us Us a b log answers w) :
    (∀ p ∈ answers, p.got = (p.window (conversation a b log)).map Entry.reply) ∧
      ∀ i m, (conversation a b log)[i]? = some m → (∃ p ∈ answers, m.created < p.now) →
        (ReturnedOnce (conversation a b log) answers i ↔
          SentTimely (conversation a b log) answers i) := by
  have hinv := h.inv hmono hclock hdir hmember hcarried ha hb
  refine ⟨hinv.got, ?_⟩
  rintro i m hm ⟨p, hp, hlt⟩
  have hcreated : ((conversation a b log).map Entry.created)[i]? = some m.created := by
    rw [List.getElem?_map, hm]
    rfl
  have honce := hinv.run.once_iff hcreated ⟨p.toPoll, List.mem_map_of_mem hp, hlt⟩
  rw [List.countP_map] at honce
  exact honce

/-- A server whose clock shows 5 four times, and then 6. -/
def Server.ticking (e : Collation) : Server :=
  { Server.rejecting e with clock := fun n => if n < 4 then 5 else 6 }

theorem monotone_ticking (e : Collation) : Monotone (Server.ticking e).clock := by
  intro m n hmn
  simp only [Server.ticking]
  split_ifs <;> omega

theorem isInt_ticking (e : Collation) (n : ℕ) : IsInt ((Server.ticking e).clock n) := by
  simp only [Server.ticking]
  split_ifs <;> decide

/-- The worlds after a message, a poll, a message in the same second, and a poll in the
next. -/
def World.hi (S : Server) : World :=
  (World.quiet "ann" "ben").handled S
    (MessageSendEvent (sendRequest (pupil "ann") (pupil "ben") (ascii "hi") 0))

/-- The first poll, with no time to start from. -/
def World.hiPolled (S : Server) : World :=
  (World.hi S).handled S (MessageHistoryEvent (historyRequest (pupil "ann") (pupil "ben") 0))

/-- A second message in second 5. -/
def World.ho (S : Server) : World :=
  (World.hiPolled S).handled S
    (MessageSendEvent (sendRequest (pupil "ann") (pupil "ben") (ascii "ho") 0))

/-- The second poll starts from second 5. -/
def World.hoPolled (S : Server) : World :=
  (World.ho S).handled S (MessageHistoryEvent (historyRequest (pupil "ann") (pupil "ben") 5))

/-- The two messages. -/
def entryHi : Entry :=
  ⟨pupil "ann", pupil "ben", ascii "hi", 5⟩

/-- The second message. -/
def entryHo : Entry :=
  ⟨pupil "ann", pupil "ben", ascii "ho", 5⟩

/-- What the four requests show. -/
theorem shown_hiHo : ((World.hi (.ticking .binary)).lastTime (.ticking .binary) = 5 ∧
      IsInt (World.hi (.ticking .binary)).tables.nextRelation) ∧
    ((World.hiPolled (.ticking .binary)).lastTime (.ticking .binary) = 5 ∧
      messagesOf (newly (.hi (.ticking .binary)) (.hiPolled (.ticking .binary))) =
        [entryHi.reply] ∧
      IsInt (World.hiPolled (.ticking .binary)).tables.nextRelation) ∧
    ((World.ho (.ticking .binary)).lastTime (.ticking .binary) = 5 ∧
      IsInt (World.ho (.ticking .binary)).tables.nextRelation) ∧
    (World.hoPolled (.ticking .binary)).lastTime (.ticking .binary) = 6 ∧
      messagesOf (newly (.ho (.ticking .binary)) (.hoPolled (.ticking .binary))) = [] := by
  decide +kernel

/-- The run of the first message and its poll. -/
theorem pollRun_hi : PollRun (.ticking .binary) (pupils "ann" "ben") {pupil "ann", pupil "ben"}
    (pupil "ann") (pupil "ben") [entryHi] [⟨0, 5, 1, [entryHi.reply]⟩]
    (.hiPolled (.ticking .binary)) := by
  obtain ⟨⟨htime, hids⟩, ⟨htime', hgot, -⟩, -⟩ := shown_hiHo
  have hsend : PollRun (.ticking .binary) (pupils "ann" "ben") {pupil "ann", pupil "ben"}
      (pupil "ann") (pupil "ben") [⟨pupil "ann", pupil "ben", ascii "hi",
        (World.hi (.ticking .binary)).lastTime (.ticking .binary)⟩] []
      (.hi (.ticking .binary)) :=
    .send (.start (.start (w := .quiet "ann" "ben") rfl rfl rfl (by decide : (0 : ℤ) < 1)))
      (by decide : IsInt 1) (Or.inl ⟨rfl, rfl⟩) (by decide +kernel) 0
  rw [htime] at hsend
  have hpoll := PollRun.poll hsend hids (rfl : World.hiPolled (.ticking .binary) = _)
  rw [htime', hgot] at hpoll
  exact hpoll

/-- The answers to the two polls. -/
def answersHiHo : List PollAnswer :=
  [⟨0, 5, 1, [entryHi.reply]⟩, ⟨5, 6, 2, []⟩]

/-- The run of both messages and both polls. -/
theorem pollRun_hiHo : PollRun (.ticking .binary) (pupils "ann" "ben") {pupil "ann", pupil "ben"}
    (pupil "ann") (pupil "ben") [entryHi, entryHo] answersHiHo (.hoPolled (.ticking .binary)) := by
  obtain ⟨-, ⟨-, -, hids⟩, ⟨htime, hids'⟩, htime', hgot⟩ := shown_hiHo
  have hsend : PollRun (.ticking .binary) (pupils "ann" "ben") {pupil "ann", pupil "ben"}
      (pupil "ann") (pupil "ben") [entryHi, ⟨pupil "ann", pupil "ben", ascii "ho",
        (World.ho (.ticking .binary)).lastTime (.ticking .binary)⟩] [⟨0, 5, 1, [entryHi.reply]⟩]
      (.ho (.ticking .binary)) :=
    .send pollRun_hi hids (Or.inl ⟨rfl, rfl⟩) (by decide +kernel) 0
  rw [htime] at hsend
  have hpoll := PollRun.poll hsend hids' (rfl : World.hoPolled (.ticking .binary) = _)
  rw [htime', hgot] at hpoll
  exact hpoll

theorem conversation_hiHo : conversation (pupil "ann") (pupil "ben") [entryHi, entryHo] =
    [entryHi, entryHo] := by
  decide +kernel

theorem returnedOnce_iff_sentTimely_hi : ReturnedOnce [entryHi, entryHo] answersHiHo 0 := by
  obtain ⟨-, honce⟩ := returnedOnce_iff_sentTimely (monotone_ticking _) (isInt_ticking _)
    (directory_pupils "ann" "ben") (member_pupils (by decide +kernel) (by decide +kernel))
    (by rintro u (rfl | rfl) <;> decide +kernel) (Or.inl rfl) (Or.inr rfl) pollRun_hiHo
  rw [conversation_hiHo] at honce
  refine (honce 0 entryHi rfl ⟨⟨5, 6, 2, []⟩, by simp [answersHiHo], by decide⟩).2 ?_
  refine ⟨5, rfl, by decide, ?_⟩
  intro p hp hstop
  have hpos : ∀ p ∈ answersHiHo.map PollAnswer.toPoll, 0 < p.stop := by
    decide
  exact absurd (hpos p hp) (not_lt.mpr hstop)

/-- The second message was sent in the second of the first, after the first had been
polled, and is lost. -/
theorem not_returnedOnce_ho :
    ¬∀ (S : Server) (us : List UserRow) (Us : Set UserName) (a b : UserName) (log : List Entry)
      (answers : List PollAnswer) (w : World), Monotone S.clock → (∀ n, IsInt (S.clock n)) →
      Directory us → (∀ u ∈ Us, Member S.mysql.toCollation us u) → (∀ u ∈ Us, Carried u) →
      a ∈ Us → b ∈ Us → PollRun S us Us a b log answers w →
      ∀ i m, (conversation a b log)[i]? = some m → (∃ p ∈ answers, m.created < p.now) →
        ReturnedOnce (conversation a b log) answers i := by
  intro hall
  have honce := hall _ _ _ _ _ _ _ _ (monotone_ticking _) (isInt_ticking _)
    (directory_pupils "ann" "ben") (member_pupils (by decide +kernel) (by decide +kernel))
    (by rintro u (rfl | rfl) <;> decide +kernel) (Or.inl rfl) (Or.inr rfl) pollRun_hiHo
  rw [conversation_hiHo] at honce
  have hlost := honce 1 entryHo rfl ⟨⟨5, 6, 2, []⟩, by simp [answersHiHo], by decide⟩
  exact absurd hlost (by decide)

end WzxServer
