import LiteExchange.Fix.StoredNumbers

/-!
# Under which comp id a session is logged on

A session gets its comp id from a LOGON that leaves it open, and from nothing else: new
sessions have none, and a send, a disconnect and any other message leave the comp ids of
the live sessions as they are.
-/

namespace LiteExchange.Fix

open Foundation.Ascii FixConstants FixSession

namespace FixServerReactor

/-- A live session has the comp id it had before, or none. -/
def KeepsCompIds (reactor next : FixServerReactor) : Prop :=
  ∀ slot session, next.getSession slot = some session → session.targetCompId = [] ∨
    ∃ before, reactor.getSession slot = some before ∧ session.targetCompId = before.targetCompId

/-- Only the session in the slot has another comp id, the given one. -/
def SetsCompId (reactor : FixServerReactor) (slot : Nat) (compId : Bytes)
    (next : FixServerReactor) : Prop :=
  ∀ other session, next.getSession other = some session → session.targetCompId = [] ∨
    other = slot ∧ session.targetCompId = compId ∨
    other ≠ slot ∧ ∃ before, reactor.getSession other = some before ∧
      session.targetCompId = before.targetCompId

/-- The message logs the live session in the slot on, and its number is the one after those
that are stored for its sender. -/
def LogsOnIn (reactor : FixServerReactor) (slot : Nat) (message : FixMessage) : Prop :=
  ∃ session, reactor.getSession slot = some session ∧ LogsOn reactor message ∧
    LogonReadable message ∧
    (session.logOn reactor.sequenceStore message).IsNext reactor message

variable {reactor middle next : FixServerReactor} {slot : Nat} {session : FixSession}
  {message : FixMessage} {currentUTCDateTime : Bytes}

theorem KeepsCompIds.refl (reactor : FixServerReactor) : reactor.KeepsCompIds reactor :=
  fun _ session hsession => Or.inr ⟨session, hsession, rfl⟩

theorem KeepsCompIds.trans (h : reactor.KeepsCompIds middle) (hnext : middle.KeepsCompIds next) :
    reactor.KeepsCompIds next := by
  intro slot session hsession
  rcases hnext slot session hsession with hnone | ⟨before, hbefore, hsame⟩
  · exact Or.inl hnone
  · rw [hsame]
    exact h slot before hbefore

theorem SetsCompId.trans {compId : Bytes} (h : reactor.SetsCompId slot compId middle)
    (hnext : middle.KeepsCompIds next) : reactor.SetsCompId slot compId next := by
  intro other session hsession
  rcases hnext other session hsession with hnone | ⟨before, hbefore, hsame⟩
  · exact Or.inl hnone
  · rw [hsame]
    exact h other before hbefore

theorem setSession_keepsCompIds {changed : FixSession}
    (h : reactor.sessions[slot]? = some session)
    (same : changed.targetCompId = session.targetCompId) :
    reactor.KeepsCompIds (reactor.setSession slot changed) := by
  intro other present hpresent
  rcases getSession_setSession hpresent with ⟨rfl, rfl, hused⟩ | ⟨-, hbefore⟩
  · exact Or.inr ⟨session, getSession_some.mpr ⟨getD_flag.mpr hused, h⟩, same⟩
  · exact Or.inr ⟨present, hbefore, rfl⟩

theorem disconnect_keepsCompIds (hclose : reactor.onClientDisconnected slot = .ok next) :
    reactor.KeepsCompIds next :=
  fun _ present hpresent => Or.inr ⟨present, (getSession_disconnect hclose hpresent).2, rfl⟩

theorem accept_keepsCompIds (hinStep : reactor.InStep)
    (haccept : reactor.acceptNewConnection = .ok next) : reactor.KeepsCompIds next := by
  intro other present hpresent
  obtain ⟨slot, -, -, hnew, hothers⟩ := accept_slot hinStep haccept
  obtain ⟨hflag, hsession⟩ := getSession_some.mp hpresent
  by_cases hother : other = slot
  · subst hother
    rw [hnew, Option.some.injEq] at hsession
    rw [← hsession]
    exact Or.inl rfl
  · obtain ⟨hsame, hflags⟩ := hothers other hother
    refine Or.inr ⟨present, getSession_some.mpr ⟨?_, ?_⟩, rfl⟩
    · rw [getD_flag, InUse, ← hflags]
      exact getD_flag.mp hflag
    · rw [← hsame]
      exact hsession

/-- A LOGON that is handled and does not close its session is the next one of its sender. -/
theorem logsOnIn_of_open {taken : List SessionStep} {verdict : Verdict}
    (hlive : reactor.getSession slot = some session) (hlogsOn : LogsOn reactor message)
    (hsteps : session.steps reactor message currentUTCDateTime = .ok (taken, verdict))
    (hopen : verdict ≠ .closed) : reactor.LogsOnIn slot message := by
  obtain ⟨hvalid, hlogon, htarget⟩ := hlogsOn
  have hreadable := (steps_logon_isOk session currentUTCDateTime hvalid hlogon htarget).mp
    (by rw [hsteps]; rfl)
  refine ⟨session, hlive, ⟨hvalid, hlogon, htarget⟩, hreadable, ?_⟩
  by_contra hwrong
  apply hopen
  rw [steps_closed hsteps, Closes, if_pos hlogon]
  exact ⟨hvalid, Or.inr ⟨hreadable, hwrong⟩⟩

/-- A message keeps the comp ids, or logs its session on. -/
theorem processMessage_compIds {processed : Processed}
    (hsession : reactor.sessions[slot]? = some session)
    (h : reactor.processMessage message session slot currentUTCDateTime = .ok processed) :
    reactor.KeepsCompIds processed.reactor ∨
      reactor.LogsOnIn slot message ∧
        reactor.SetsCompId slot message.senderCompId processed.reactor := by
  obtain ⟨taken, verdict, hsteps, hsettle⟩ := processMessage_cases hsession h
  rcases settle_cases hsettle with ⟨hopen, hreactor, -⟩ | ⟨-, hclose, -⟩
  · rw [hreactor]
    by_cases hused : InUse reactor.sessionFlags slot
    · have hlive := getSession_some.mpr ⟨getD_flag.mpr hused, hsession⟩
      rcases (steps_frame hsteps).2 with hsame | ⟨hlogsOn, hcompId⟩
      · exact Or.inl (setSession_keepsCompIds hsession hsame)
      · right
        refine ⟨logsOnIn_of_open hlive hlogsOn hsteps hopen, fun other present hpresent => ?_⟩
        rcases getSession_setSession hpresent with ⟨rfl, rfl, -⟩ | ⟨hother, hbefore⟩
        · exact Or.inr (Or.inl ⟨rfl, hcompId⟩)
        · exact Or.inr (Or.inr ⟨hother, present, hbefore, rfl⟩)
    · -- The slot has no session, whatever becomes of the object that stands there.
      left
      intro other present hpresent
      rcases getSession_setSession hpresent with ⟨-, -, hlive⟩ | ⟨-, hbefore⟩
      · exact absurd hlive hused
      · exact Or.inr ⟨present, hbefore, rfl⟩
  · left
    intro other present hpresent
    obtain ⟨hother, hbefore⟩ := getSession_disconnect hclose hpresent
    rcases getSession_setSession hbefore with ⟨rfl, -, -⟩ | ⟨-, hbefore⟩
    · exact absurd rfl hother
    · exact Or.inr ⟨present, hbefore, rfl⟩

end FixServerReactor

end LiteExchange.Fix
