import WzxServer.RecentSessions
import WzxServer.Strangers
import WzxServer.Lib.Paging

/-!
# Paging through recent sessions

A client asks for recent sessions, goes on with the smallest time it was given, and stops at an
empty page (`Pages`). The cursor is strict and a page has 100 rows, so of several sessions of one
second that do not fit on a page together, some are never shown. `pagesComplete_iff` says when
all are.

That a client which goes on like this is given all rows, when no time has rows on both sides of
a page's end, is a fact about sorted lists and is in `Lib.Paging`, where MySQL may put rows of
one time in any order. Here the rows are those of the query, and a page is what the handler
wrote : the two directions of `pagesComplete_iff` go through `pages_of_given` and
`Pages.exists_given`.
-/

namespace WzxServer

open Prog Proc World

/-! ## The property -/

/-- The client starts at `lastTime` and is given `ds`, page by page, until a page is empty. -/
inductive Pages (S : Server) (u : UserName) : ℤ → World → List RecentSessionData → Prop
  /-- The page is empty, and the client stops. -/
  | last {lastTime : ℤ} {w w' : World}
      (h : Prog.run (serve S allOk) (RescentSessionEvent u.classnum u.account lastTime) w =
        (some (), w'))
      (hempty : sessionsIn (newly w w') = []) : Pages S u lastTime w []
  /-- The client goes on from the smallest time on the page. -/
  | next {lastTime : ℤ} {w w' : World} {ds : List RecentSessionData}
      (h : Prog.run (serve S allOk) (RescentSessionEvent u.classnum u.account lastTime) w =
        (some (), w'))
      (hpage : sessionsIn (newly w w') ≠ [])
      (hrest : Pages S u (Paging.cursor RecentSessionData.lastupdatetime lastTime
        (sessionsIn (newly w w'))) w' ds) :
      Pages S u lastTime w (sessionsIn (newly w w') ++ ds)

/-- A client that starts above all sessions of its user is given each of them once, whatever
MySQL makes of texts that are not read as they were meant. -/
def PagesComplete (e : Collation) (u : UserName) (t : Tables) : Prop :=
  ∀ (S : Server) (w : World), S.mysql.toCollation = e → w.tables = t →
    ∀ first, (∀ s ∈ sessionsOf t (idOf e t.users u), s.updated < first) →
      ∃ ds, Pages S u first w ds ∧
        ds.Perm ((sessionsOf t (idOf e t.users u)).map (shown t (idOf e t.users u)))

/-- The user can be looked up, each session fits its fields, and no second has sessions on
both sides of a multiple of 100, the latest sessions first. -/
structure Pageable (e : Collation) (u : UserName) (t : Tables) : Prop where
  fits : (Stmt.getUserId u.classnum u.account).text.length < 100
  inert : (Stmt.getUserId u.classnum u.account).Inert
  /-- A session that does not fit stops the handler. -/
  showable : ∀ s ∈ sessionsOf t (idOf e t.users u), Showable t (idOf e t.users u) s
  /-- No second has sessions on both sides of the end of a page. -/
  apart : ∀ time k,
    (sessionsOf t (idOf e t.users u)).countP (fun s => time < s.updated) < 100 * k →
      (sessionsOf t (idOf e t.users u)).countP (fun s => time ≤ s.updated) ≤ 100 * k

/-! ## Pages of rows -/

/-- What a request is answered with is a page. -/
theorem isPage_page (t : Tables) (i lastTime : ℤ) :
    Paging.IsPage SessionRow.updated 100 (sessionsOf t i) lastTime (page t i lastTime) := by
  let le : SessionRow → SessionRow → Bool := fun r s => s.updated ≤ r.updated
  refine Paging.isPage_take ((List.mergeSort_perm _ le).trans (List.Perm.of_eq ?_)) ?_
  · rw [Paging.lower, sessionsOf, List.filter_filter]
    refine List.filter_congr fun s _ => ?_
    rw [← Bool.decide_and, decide_eq_decide]
    tauto
  · have hsorted : ((t.sessions.filter fun r =>
        r.userId = i ∧ r.status = 0 ∧ r.updated < lastTime).mergeSort le).Pairwise
          fun a b => le a b = true :=
      List.pairwise_mergeSort (fun a b c hab hbc => by simp [le] at *; omega)
        (fun a b => by simp [le]; omega) _
    exact hsorted.imp fun h => of_decide_eq_true h

section Run

variable {S : Server} {u : UserName} {w : World} {i x : ℤ} {ds : List RecentSessionData}

/-- A request that is answered shows its page. -/
theorem page_of_run (hfit : (Stmt.getUserId u.classnum u.account).text.length < 100)
    (hinert : (Stmt.getUserId u.classnum u.account).Inert)
    (hi : i = idOf S.mysql.toCollation w.tables.users u) {w' : World}
    (hrun : Prog.run (serve S allOk) (RescentSessionEvent u.classnum u.account x) w =
      (some (), w')) :
    (∀ s ∈ page w.tables i x, Showable w.tables i s) ∧ w'.tables = w.tables ∧
      sessionsIn (newly w w') = (page w.tables i x).map (shown w.tables i) := by
  have hall : ∀ s ∈ page w.tables i x, Showable w.tables i s := by
    by_contra hnot
    obtain ⟨w'', hrun'⟩ := run_RescentSessionEvent_of_not hfit hinert hi hnot
    rw [hrun] at hrun'
    simp at hrun'
  obtain ⟨htables, hsent⟩ := (ends_RescentSessionEvent hfit hinert hi hall).of_run hrun
  refine ⟨hall, htables, ?_⟩
  rw [newly, hsent, List.drop_left, sessionsIn_sessionReplies]

/-- The pages of a client are pages of rows. -/
theorem Pages.exists_given (hfit : (Stmt.getUserId u.classnum u.account).text.length < 100)
    (hinert : (Stmt.getUserId u.classnum u.account).Inert) (h : Pages S u x w ds) :
    i = idOf S.mysql.toCollation w.tables.users u →
      ∃ q, Paging.Given SessionRow.updated (page w.tables i) x q ∧
        (∀ s ∈ q, Showable w.tables i s) ∧ ds = q.map (shown w.tables i) := by
  induction h with
  | @last x w w' hrun hempty =>
    intro hi
    obtain ⟨-, -, hpage⟩ := page_of_run hfit hinert hi hrun
    rw [hempty] at hpage
    exact ⟨[], .last (List.map_eq_nil_iff.1 hpage.symm), by simp, rfl⟩
  | @next x w w' ds hrun hne _ ih =>
    intro hi
    obtain ⟨hall, htables, hpage⟩ := page_of_run hfit hinert hi hrun
    rw [htables, hpage, Paging.cursor_map] at ih
    obtain ⟨q, hgiven, hshow, rfl⟩ := ih hi
    rw [hpage] at hne ⊢
    refine ⟨page w.tables i x ++ q, .next (fun hnil => hne (by rw [hnil]; rfl)) hgiven,
      fun s hs => ?_, by rw [List.map_append]⟩
    exact (List.mem_append.mp hs).elim (hall s) (hshow s)

/-- Pages of rows that fit are pages of a client. -/
theorem pages_of_given {t : Tables} {q : List SessionRow}
    (hfit : (Stmt.getUserId u.classnum u.account).text.length < 100)
    (hinert : (Stmt.getUserId u.classnum u.account).Inert)
    (hi : i = idOf S.mysql.toCollation t.users u)
    (h : Paging.Given SessionRow.updated (page t i) x q) :
    (∀ s ∈ q, Showable t i s) → ∀ w : World, w.tables = t →
      Pages S u x w (q.map (shown t i)) := by
  induction h with
  | @last x hnil =>
    rintro - w rfl
    have hall : ∀ s ∈ page w.tables i x, Showable w.tables i s := by simp [hnil]
    obtain ⟨_, w', hrun, -, hsent⟩ := ends_RescentSessionEvent hfit hinert hi hall
    refine .last hrun ?_
    rw [newly, hsent, List.drop_left, sessionsIn_sessionReplies, hnil]
    rfl
  | @next x q hne _ ih =>
    rintro hshow w rfl
    have hall : ∀ s ∈ page w.tables i x, Showable w.tables i s := fun s hs =>
      hshow s (List.mem_append_left _ hs)
    obtain ⟨_, w', hrun, htables, hsent⟩ := ends_RescentSessionEvent hfit hinert hi hall
    have hpage : sessionsIn (newly w w') = (page w.tables i x).map (shown w.tables i) := by
      rw [newly, hsent, List.drop_left, sessionsIn_sessionReplies]
    have hrest := ih (fun s hs => hshow s (List.mem_append_right _ hs)) w' htables
    have hnext : Pages S u x w (sessionsIn (newly w w') ++ q.map (shown w.tables i)) := by
      refine .next hrun (by simpa [hpage] using hne) ?_
      rw [hpage, Paging.cursor_map]
      exact hrest
    rwa [hpage, ← List.map_append] at hnext

end Run

/-! ## All sessions -/

variable {e : Collation} {u : UserName} {t : Tables}

/-- There is a time above all sessions. -/
theorem exists_above (l : List SessionRow) : ∃ first : ℤ, ∀ s ∈ l, s.updated < first := by
  induction l with
  | nil => exact ⟨0, by simp⟩
  | cons r l ih =>
    obtain ⟨first, hfirst⟩ := ih
    refine ⟨max first (r.updated + 1), fun s hs => ?_⟩
    rcases List.mem_cons.mp hs with rfl | hs
    · omega
    · have := hfirst s hs
      omega

/-- A MySQL that answers a text which is not read as it was meant with a null id. -/
def Server.nullId (e : Collation) : Server :=
  ⟨⟨e, fun _ t => ⟨some [[(.id, .null)]], 0, 0, t⟩⟩, fun _ => 0, [], 0⟩

/-- A client that is given pages can look its user up. -/
theorem Pages.lookup_ne_none {S : Server} {w : World} {x : ℤ} {ds : List RecentSessionData}
    (h : Pages S u x w ds) : lookup S.mysql u w.tables ≠ none := by
  intro hnone
  have hstops : ∀ w', Prog.run (serve S allOk) (RescentSessionEvent u.classnum u.account x) w ≠
      (some (), w') := by
    intro w' hrun
    obtain ⟨w'', hrun', -⟩ := run_getUserId_of_none hnone
    rw [RescentSessionEvent, run_bind_of_none _ hrun'] at hrun
    simp at hrun
  cases h with
  | last hrun _ => exact hstops _ hrun
  | next hrun _ _ => exact hstops _ hrun

/-- A MySQL that gives a null id stops the lookup. -/
theorem lookup_nullId (h : ¬((Stmt.getUserId u.classnum u.account).text.length < 100 ∧
    (Stmt.getUserId u.classnum u.account).Inert)) :
    lookup (Server.nullId e).mysql u t = none := by
  rw [lookup]
  split_ifs with hfit
  · rw [MySQL.exec_of_not_inert fun hinert => h ⟨hfit, hinert⟩]
    rfl
  · rfl

/-- Pages that miss nothing need what the condition says. -/
theorem pageable_of_pagesComplete (h : PagesComplete e u t) : Pageable e u t := by
  obtain ⟨first, hfirst⟩ := exists_above (sessionsOf t (idOf e t.users u))
  have hread : (Stmt.getUserId u.classnum u.account).text.length < 100 ∧
      (Stmt.getUserId u.classnum u.account).Inert := by
    by_contra hnot
    obtain ⟨ds, hpages, -⟩ := h (.nullId e) (.start t) rfl rfl first hfirst
    exact hpages.lookup_ne_none (lookup_nullId hnot)
  obtain ⟨hfit, hinert⟩ := hread
  obtain ⟨ds, hpages, hperm⟩ := h (.rejecting e) (.start t) rfl rfl first hfirst
  obtain ⟨q, hgiven, hshow, rfl⟩ := hpages.exists_given hfit hinert rfl
  change Paging.Given SessionRow.updated (page t (idOf e t.users u)) first q at hgiven
  have hpage := isPage_page t (idOf e t.users u)
  have hlower := Paging.lower_of_forall hfirst
  have hsub := hgiven.subperm hpage
  rw [hlower] at hsub
  have hlength := hperm.length_eq
  rw [List.length_map, List.length_map] at hlength
  have hall := hsub.perm_of_length_le hlength.ge
  refine ⟨hfit, hinert, fun s hs => hshow s (hall.mem_iff.2 hs), fun time k hlow => ?_⟩
  have hapart := (hgiven.perm_iff (by decide) hpage).1 (hlower.symm ▸ hall) time
  rw [Paging.Straddles, hlower] at hapart
  exact not_lt.1 fun hhigh => hapart ⟨k, hlow, hhigh⟩

/-- They need no more. -/
theorem pagesComplete_of_pageable (h : Pageable e u t) : PagesComplete e u t := by
  rintro S w rfl rfl first hfirst
  have hpage := isPage_page w.tables (idOf S.mysql.toCollation w.tables.users u)
  have hlower := Paging.lower_of_forall hfirst
  obtain ⟨q, hgiven⟩ := Paging.exists_given hpage first
  have hall : q.Perm (sessionsOf w.tables (idOf S.mysql.toCollation w.tables.users u)) := by
    rw [← hlower, hgiven.perm_iff (by decide) hpage]
    rintro time ⟨k, hlow, hhigh⟩
    rw [hlower] at hlow hhigh
    exact absurd hhigh (not_lt.2 (h.apart time k hlow))
  refine ⟨_, pages_of_given h.fits h.inert rfl hgiven (fun s hs => ?_) w rfl, hall.map _⟩
  exact h.showable s (hall.mem_iff.1 hs)

/-- Exactly the pageable sessions are all shown. -/
theorem pagesComplete_iff (e : Collation) (u : UserName) (t : Tables) :
    PagesComplete e u t ↔ Pageable e u t :=
  ⟨pageable_of_pagesComplete, pagesComplete_of_pageable⟩

/-- One more session than a page holds, all of one second. -/
def crowded : Tables :=
  { Tables.empty with
    users := [.new (ascii "1") (ascii "ann") [] [] 1]
    sessions := (List.range 101).map fun k => ⟨k + 1, 1, k + 2, 0, 0, 5, 5, []⟩ }

/-- With 101 sessions of one second, one is missed. -/
theorem not_pagesComplete_crowded :
    ¬PagesComplete .binary ⟨ascii "1", ascii "ann"⟩ crowded := by
  intro h
  have hapart := (pageable_of_pagesComplete h).apart 5 1 (by decide +kernel)
  revert hapart
  decide +kernel

end WzxServer
