import LiteExchange.Fix.CompIds
import LiteExchange.Fix.SentMessages
import LiteExchange.Server.MessageHandling

/-!
# Replies to a message

What a message makes the server send: the answers of its session, the reject of an order, and
the execution reports of the orders that it creates or fills. The fields of a sent text are
compared with the message that it answers. Comp ids, client order ids and the texts of tags
come from received messages, symbols and the comp id of the server from the configuration.
-/

namespace LiteExchange.Server

open Foundation.Ascii Foundation.Results OrderMatcher
open LiteExchange.Fix LiteExchange.Fix.FixConstants

variable {γ : Type}

/-- A message that is handed to `TCPConnection::send` in reply to `incoming`, which arrives on
`session`. An execution report may go to any session that stands in the slot of its order. -/
inductive Reply (reactor : FixServerReactor) (manager : SecurityManager) (session : FixSession)
    (incoming : FixMessage) (currentUTCDateTime : Bytes) : FixMessage → Prop
  | answer {taken front back : List SessionStep} {verdict : Verdict} {message : FixMessage}
      {time : Bytes}
      (steps : session.steps reactor incoming currentUTCDateTime = .ok (taken, verdict))
      (split : taken = front ++ .send message time :: back) :
      Reply reactor manager session incoming currentUTCDateTime
        ((session.perform front).stamped message time)
  | businessReject {γ : Type} {taken : List SessionStep} {sessionId : Nat}
      {memory : Indeterminate γ} {rejectionMessage : Bytes}
      (steps : session.steps reactor incoming currentUTCDateTime = .ok (taken, .passed))
      (handling : onFixMessage manager incoming sessionId memory =
        .ok (.rejectOrder rejectionMessage)) :
      Reply reactor manager session incoming currentUTCDateTime
        ((session.perform taken).stamped
          (rejectMessage reactor.compId (session.perform taken) rejectionMessage)
          currentUTCDateTime)
  | executionReport {γ : Type} {taken : List SessionStep} {receiver : FixSession}
      {order : Order γ} {execID : Nat} {securityName time : Bytes}
      (steps : session.steps reactor incoming currentUTCDateTime = .ok (taken, .passed))
      (named : manager.getSecurityName order.securityId = some securityName)
      (client : Plain receiver.targetCompId) (orderID : Plain order.clientOrderID)
      (timePlain : Plain time) :
      Reply reactor manager session incoming currentUTCDateTime
        (receiver.stamped
          (executionReport reactor.compId receiver order execID securityName) time)

/-- The text of a reply, with the tags of its map in any order. -/
def RepliesWith (reactor : FixServerReactor) (manager : SecurityManager) (session : FixSession)
    (incoming : FixMessage) (currentUTCDateTime wire : Bytes) : Prop :=
  ∃ message order, Reply reactor manager session incoming currentUTCDateTime message ∧
    message.Enumerates order ∧ wire = message.toString order

/-- None of the texts that replies are built from contains a separator. -/
structure PlainTexts (reactor : FixServerReactor) (manager : SecurityManager)
    (session : FixSession) (incoming : FixMessage) (currentUTCDateTime : Bytes) : Prop where
  server : Plain reactor.compId
  client : Plain session.targetCompId
  incoming : incoming.IsPlain
  symbols : ∀ symbol ∈ manager.securitiesById, Plain symbol
  time : Plain currentUTCDateTime

/-! ## What the handlers build -/

theorem plain_append {front back : Bytes} (hfront : Plain front) (hback : Plain back) :
    Plain (front ++ back) := by
  simp only [Plain, List.mem_append, not_or]
  exact ⟨⟨hfront.1, hback.1⟩, hfront.2, hback.2⟩

theorem plain_padLeft {text : Bytes} (plain : Plain text) (number : Nat) {padChar : UInt8}
    (pad : Plain [padChar]) : Plain (FixMessage.padLeft text number padChar) := by
  refine plain_append ⟨?_, ?_⟩ plain
  · intro h
    exact pad.1 (List.mem_singleton.mpr (List.eq_of_mem_replicate h))
  · intro h
    exact pad.2 (List.mem_singleton.mpr (List.eq_of_mem_replicate h))

theorem plain_doubleText (value : ℚ) : Plain (doubleText value) := by
  have hpoint : ∀ text : Bytes, Plain text → Plain (46 :: text) := by
    intro text htext
    have hdot : Plain [46] := by
      unfold Plain
      decide
    exact plain_append hdot htext
  unfold doubleText
  refine plain_append (plain_append ?_ (plain_natText _)) (hpoint _ ?_)
  · split
    · unfold Plain
      decide
    · exact plain_nil
  · exact plain_padLeft (plain_natText _) 6 (by decide)

theorem plain_rejectionMessage {manager : SecurityManager} {message : FixMessage}
    {sessionId : Nat} {memory : Indeterminate γ} {rejectionMessage : Bytes}
    (h : onFixMessage manager message sessionId memory = .ok (.rejectOrder rejectionMessage)) :
    Plain rejectionMessage := by
  unfold onFixMessage at h
  split at h
  · obtain ⟨order, -, h⟩ := bind_eq_ok.mp h
    obtain ⟨orderType, -, h⟩ := bind_eq_ok.mp h
    split at h
    · cases h
      decide
    · split at h
      · cases h
        decide
      · cases h
  · obtain ⟨order, -, h⟩ := bind_eq_ok.mp h
    cases h
  · cases h
    decide

section Built

variable {compId : Bytes} {session : FixSession}

theorem rejectMessage_wellBuilt {rejectionMessage : Bytes} (server : Plain compId)
    (client : Plain session.targetCompId) (text : Plain rejectionMessage) :
    (rejectMessage compId session rejectionMessage).WellBuilt :=
  (((FixSession.wellBuilt_base session .businessReject server client).setTag (by decide)
    (plain_intText _)).setTag (by decide) (plain_intText _)).setTag (by decide) text

theorem executionReport_wellBuilt {order : Order γ} {securityName : Bytes} (execID : Nat)
    (server : Plain compId) (client : Plain session.targetCompId)
    (orderID : Plain order.clientOrderID) (symbol : Plain securityName) :
    (executionReport compId session order execID securityName).WellBuilt := by
  have hbase := FixSession.wellBuilt_base session .executionReport server client
  have hint := plain_intText
  have hdouble := plain_doubleText
  unfold executionReport
  extract_lets orderStatus executionType side report filled
  have hreport : report.WellBuilt := by
    apply hbase.setTags
    simp only [List.forall_mem_cons]
    exact ⟨⟨by decide, hint _⟩, ⟨by decide, orderID⟩, ⟨by decide, orderID⟩,
      ⟨by decide, plain_natText _⟩, ⟨by decide, hint _⟩, ⟨by decide, hint _⟩,
      ⟨by decide, hint _⟩, ⟨by decide, hint _⟩, ⟨by decide, hint _⟩, ⟨by decide, hdouble _⟩,
      ⟨by decide, symbol⟩, nofun⟩
  have hfilled : filled.WellBuilt := by
    simp only [filled]
    split
    · apply hreport.setTags
      simp only [List.forall_mem_cons]
      exact ⟨⟨by decide, hint _⟩, ⟨by decide, hdouble _⟩, nofun⟩
    · exact hreport
  split
  · exact hfilled.setTag (by decide) (hint _)
  · exact hfilled

theorem setTags_messageType (message : FixMessage) (pairs : List (Int × Bytes)) :
    (message.setTags pairs).messageType = message.messageType := by
  rw [FixMessage.setTags_members]

theorem executionReport_messageType (session : FixSession) (order : Order γ) (execID : Nat)
    (securityName : Bytes) :
    (executionReport compId session order execID securityName).messageType = .executionReport := by
  unfold executionReport
  extract_lets orderStatus executionType side report filled
  have hfilled : filled.messageType = .executionReport := by
    simp only [filled]
    split
    · rw [setTags_messageType, setTags_messageType]
      rfl
    · rw [setTags_messageType]
      rfl
  split
  · exact hfilled
  · exact hfilled

end Built

/-! ## Which messages get well formed replies -/

section Replies

variable {reactor : FixServerReactor} {manager : SecurityManager} {session : FixSession}
  {incoming message : FixMessage} {currentUTCDateTime : Bytes}

/-- Replies to a valid message are well formed, and repeat what they have to. -/
theorem reply_formed
    (texts : PlainTexts reactor manager session incoming currentUTCDateTime)
    (valid : (FixSession.validateRequiredTags incoming 0).1 = true)
    (reply : Reply reactor manager session incoming currentUTCDateTime message) :
    message.WellBuilt ∧ incoming.Correlates message := by
  cases reply with
  | @answer taken front back verdict message time steps split =>
    have hmem : .send message time ∈ taken := by
      rw [split]
      exact List.mem_append_right front List.mem_cons_self
    obtain ⟨rfl, sender, hclient, hanswer⟩ := FixSession.send_of_steps valid steps hmem
    have hplain : Plain sender.targetCompId := by
      rcases hclient with hclient | hclient
      · rw [hclient]
        exact texts.client
      · rw [hclient]
        exact texts.incoming.senderCompId
    rcases hanswer with rfl | hanswer
    · exact ⟨FixSession.stamped_wellBuilt _ (FixSession.wellBuilt_logon texts.server hplain)
        texts.time, FixSession.stamped_correlates _ ⟨nofun, fun _ => nofun, nofun⟩⟩
    · obtain ⟨hbuilt, hcorrelates⟩ :=
        FixSession.adminAnswer_formed texts.server hplain texts.incoming hanswer
      exact ⟨FixSession.stamped_wellBuilt _ hbuilt texts.time,
        FixSession.stamped_correlates _ hcorrelates⟩
  | businessReject steps handling =>
    obtain ⟨-, -, -, rfl⟩ := FixSession.steps_passed steps
    have hclient : Plain (session.perform [.accept incoming]).targetCompId := texts.client
    have hbuilt := rejectMessage_wellBuilt texts.server hclient (plain_rejectionMessage handling)
    exact ⟨FixSession.stamped_wellBuilt _ hbuilt texts.time,
      FixSession.stamped_correlates _ ⟨nofun, fun _ => nofun, nofun⟩⟩
  | @executionReport γ taken receiver order execID _ _ steps named client orderID timePlain =>
    have hsymbol := texts.symbols _ (List.mem_of_getElem? named)
    have hbuilt := executionReport_wellBuilt execID texts.server client orderID hsymbol
    refine ⟨FixSession.stamped_wellBuilt _ hbuilt timePlain, FixSession.stamped_correlates _ ?_⟩
    constructor
    · rw [executionReport_messageType]
      nofun
    · rw [executionReport_messageType]
      exact fun _ => nofun
    · rw [executionReport_messageType]
      nofun

/-- The reject that a message without its tags is answered with, as it is sent. -/
def sentRejection (reactor : FixServerReactor) (session : FixSession) (incoming : FixMessage)
    (currentUTCDateTime : Bytes) : FixMessage :=
  session.stamped (reactor.missingTagRejection session incoming
    (FixSession.validateRequiredTags incoming 0).2) currentUTCDateTime

/-- The tags of that reject. -/
def rejectionTags : List Int := [fixTagSequenceNumber, fixTagRefSeqNum, fixTagFreeText,
  fixTagRefTag, fixTagRefMsgType, fixTagRejectReason]

theorem sentRejection_enumerates :
    (sentRejection reactor session incoming currentUTCDateTime).Enumerates rejectionTags := by
  have hdifferent : rejectionTags.Nodup := by decide
  refine FixSession.stamped_enumerates session rfl ?_
  rw [FixSession.missingTagRejection_eq]
  exact setTags_enumerates (fun _ => rfl) hdifferent

theorem sentRejection_plain
    (texts : PlainTexts reactor manager session incoming currentUTCDateTime) :
    (sentRejection reactor session incoming currentUTCDateTime).IsPlain := by
  have hbase := FixSession.wellBuilt_base session .adminReject texts.server texts.client
  refine FixSession.stamped_plain session ?_ texts.time
  rw [FixSession.missingTagRejection_eq]
  exact plain_setTags hbase.plain (FixSession.rejectionPairs_plain incoming _)

theorem rejection_replies (manager : SecurityManager)
    (invalid : (FixSession.validateRequiredTags incoming 0).1 = false) :
    RepliesWith reactor manager session incoming currentUTCDateTime
      ((sentRejection reactor session incoming currentUTCDateTime).toString rejectionTags) := by
  have hsteps : session.steps reactor incoming currentUTCDateTime =
      .ok ([.send (reactor.missingTagRejection session incoming
        (FixSession.validateRequiredTags incoming 0).2) currentUTCDateTime], .rejected) := by
    unfold FixSession.steps
    simp only [invalid, if_true]
  exact ⟨_, rejectionTags, .answer hsteps (List.nil_append _).symm, sentRejection_enumerates, rfl⟩

/-- The text of the reject has the tag 34 twice. -/
theorem rejection_repeats
    (texts : PlainTexts reactor manager session incoming currentUTCDateTime) :
    ¬ TagsOnce
      ((sentRejection reactor session incoming currentUTCDateTime).toString rejectionTags) := by
  rw [tagsOnce_iff (sentRejection_plain texts) sentRejection_enumerates]
  intro habsent
  have hnone := habsent fixTagSequenceNumber (by decide)
  rw [FixMessage.hasTag, sentRejection, FixSession.stamped_lookup session (by decide)] at hnone
  cases hnone

/-- In every reply each tag occurs once, and a reject, the answer to a test request and a user
response repeat what they have to, if and only if the message has its required tags. -/
theorem replies_formed_iff
    (texts : PlainTexts reactor manager session incoming currentUTCDateTime) :
    (∀ wire, RepliesWith reactor manager session incoming currentUTCDateTime wire →
      TagsOnce wire ∧ CorrelatedWire incoming wire) ↔
        (FixSession.validateRequiredTags incoming 0).1 = true := by
  constructor
  · intro hformed
    by_contra hinvalid
    rw [Bool.not_eq_true] at hinvalid
    exact rejection_repeats texts (hformed _ (rejection_replies manager hinvalid)).1
  · rintro hvalid wire ⟨message, order, hreply, henumerates, rfl⟩
    obtain ⟨hbuilt, hcorrelates⟩ := reply_formed texts hvalid hreply
    exact ⟨(tagsOnce_iff hbuilt.plain henumerates).mpr hbuilt.unreserved,
      correlatedWire hbuilt henumerates hcorrelates⟩

/-- CLIENT, who has sent one message. -/
def clientSession : FixSession where
  fixVersion := .fix42
  outgoingSequenceNumber := 2
  tcpConnection := some 0
  targetCompId := ascii "CLIENT"

theorem clientMessage_plain (messageType : MessageType) (sequenceNumber : Nat)
    {tags : List (Int × Bytes)} (plain : ∀ pair ∈ tags, Plain pair.2) :
    (clientMessage messageType sequenceNumber tags).IsPlain := by
  have hfirst : ∀ pair ∈ [(fixTagBodyLength, ascii "100"), (fixTagBodyChecksum, ascii "000")],
      Plain pair.2 := by decide
  have htexts : Plain (ascii "CLIENT") ∧ Plain (ascii "T") ∧ Plain (ascii "SERVER") := by decide
  have hempty : (FixMessage.construct messageType).IsPlain :=
    ⟨plain_nil, plain_nil, plain_nil, fun _ => plain_nil⟩
  have hbody := plain_setTags hempty (List.forall_mem_append.mpr ⟨hfirst, plain⟩)
  exact ⟨htexts.1, htexts.2.1, htexts.2.2, hbody.body⟩

theorem replies_formed_iff_ping :
    let reactor := FixServerReactor.initial (ascii "SERVER") true fun _ => none
    let ping := clientMessage .testRequest 1 [(fixTagTestRequestId, ascii "PING")]
    (∀ wire, RepliesWith reactor {} clientSession ping (ascii "T") wire →
        TagsOnce wire ∧ CorrelatedWire ping wire) ↔
      (FixSession.validateRequiredTags ping 0).1 = true :=
  replies_formed_iff
    { server := by decide
      client := by decide
      incoming := clientMessage_plain .testRequest 1 (by decide)
      symbols := nofun
      time := by decide }

/-- The reject of an order without a symbol, number 7, has the tag 34 twice, and an empty
tag 45. -/
theorem reject_without_number :
    let reactor := FixServerReactor.initial (ascii "SERVER") true fun _ => none
    let order := (clientOrder 7).removeTag fixTagSymbol
    ∃ wire, RepliesWith reactor {} clientSession order (ascii "T") wire ∧ ¬ TagsOnce wire ∧
      wireValue wire fixTagRefSeqNum = some [] ∧ ¬ CorrelatedWire order wire := by
  intro reactor order
  have hreference : wireValue ((sentRejection reactor clientSession order (ascii "T")).toString
      rejectionTags) fixTagRefSeqNum = some [] := by decide +kernel
  refine ⟨_, rejection_replies {} (by decide +kernel), by decide +kernel, hreference, ?_⟩
  intro hcorrelated
  have hnumber := hcorrelated.rejection (by decide +kernel)
  rw [hreference] at hnumber
  revert hnumber
  decide +kernel

end Replies

/-! ## Where the texts come from -/

/-- Comp ids that hold no separator, and a message that the parser gives, leave such comp ids. -/
theorem plain_compIds {reactor : FixServerReactor} {session : FixSession} {message : FixMessage}
    {slot : Nat} {currentUTCDateTime : Bytes} {processed : FixServerReactor.Processed}
    (clients : ∀ other present, reactor.getSession other = some present →
      Plain present.targetCompId)
    (texts : message.IsPlain) (hsession : reactor.sessions[slot]? = some session)
    (h : reactor.processMessage message session slot currentUTCDateTime = .ok processed) :
    ∀ other present, processed.reactor.getSession other = some present →
      Plain present.targetCompId := by
  intro other present hpresent
  rcases FixServerReactor.processMessage_compIds hsession h with hkeeps | ⟨-, hsets⟩
  · rcases hkeeps other present hpresent with hnone | ⟨before, hbefore, hsame⟩
    · rw [hnone]
      exact plain_nil
    · rw [hsame]
      exact clients other before hbefore
  · rcases hsets other present hpresent with hnone | ⟨-, hsender⟩ | ⟨-, before, hbefore, hsame⟩
    · rw [hnone]
      exact plain_nil
    · rw [hsender]
      exact texts.senderCompId
    · rw [hsame]
      exact clients other before hbefore

/-! ## What is recorded as sent -/

/-- The reject is recorded on the session that stands in the slot, if there is one. -/
theorem rejectOrder_sent {reactor : FixServerReactor} {session : FixSession} {sessionId : Nat}
    (hsession : reactor.sessions[sessionId]? = some session)
    (rejectionMessage currentUTCDateTime : Bytes) :
    ∃ changed events, (rejectOrder reactor sessionId rejectionMessage
        currentUTCDateTime).sessions[sessionId]? = some changed ∧
      changed.history = session.history ++ events ∧ ∀ sent, .sent sent ∈ events →
        sent = session.stamped (rejectMessage reactor.compId session rejectionMessage)
          currentUTCDateTime := by
  unfold rejectOrder
  split
  · rename_i receiver hreceiver
    have hsame := (FixServerReactor.getSession_some.mp hreceiver).2
    rw [hsession, Option.some.injEq] at hsame
    subst hsame
    refine ⟨_, _, List.getElem?_set_self (List.getElem?_eq_some_iff.mp hsession).1,
      session.send_stamped _ _, fun sent hmem => ?_⟩
    cases List.mem_singleton.mp hmem
    rfl
  · exact ⟨session, [], hsession, (List.append_nil _).symm, nofun⟩

/-- What a handled message makes its session send is a reply to it. -/
theorem sent_is_reply {reactor : FixServerReactor} {manager : SecurityManager}
    {session : FixSession} {incoming : FixMessage} {currentUTCDateTime : Bytes} {peerIndex : Nat}
    {memory : Indeterminate γ} {handled : Handled γ}
    (hsession : reactor.sessions[peerIndex]? = some session)
    (h : processMessage reactor manager incoming session peerIndex currentUTCDateTime memory =
      .ok handled) :
    ∃ changed events, handled.reactor.sessions[peerIndex]? = some changed ∧
      changed.history = session.history ++ events ∧ ∀ sent, .sent sent ∈ events →
        Reply reactor manager session incoming currentUTCDateTime sent := by
  unfold processMessage at h
  split at h
  · rename_i processed hprocessed
    obtain ⟨taken, verdict, hsteps, hsettle⟩ :=
      FixServerReactor.processMessage_cases hsession hprocessed
    obtain ⟨events, hevents, hsent⟩ := FixSession.sent_of_perform session taken
    have hwritten : processed.reactor.sessions[peerIndex]? = some (session.perform taken) := by
      rw [FixServerReactor.settle_sessions hsettle]
      exact List.getElem?_set_self (List.getElem?_eq_some_iff.mp hsession).1
    have hanswers : ∀ sent, .sent sent ∈ events →
        Reply reactor manager session incoming currentUTCDateTime sent := by
      intro sent hmem
      obtain ⟨front, message, time, back, hsplit, rfl⟩ := hsent sent hmem
      exact .answer hsteps hsplit
    split at h
    · rename_i hpassed
      rcases FixServerReactor.settle_cases hsettle with ⟨-, hreactor, hverdict⟩ | ⟨-, -, hclosed⟩
      · rw [hpassed] at hverdict
        obtain rfl : verdict = .passed := beq_iff_eq.mp hverdict.symm
        split at h
        · rename_i rejectionMessage hhandling
          cases h
          obtain ⟨changed, added, hchanged, hadded, hreject⟩ :=
            rejectOrder_sent hwritten rejectionMessage currentUTCDateTime
          refine ⟨changed, events ++ added, hchanged, ?_, fun sent hmem => ?_⟩
          · rw [hadded, hevents, List.append_assoc]
          · rcases List.mem_append.mp hmem with hold | hnew
            · exact hanswers sent hold
            · rw [hreject sent hnew, hreactor]
              exact .businessReject hsteps hhandling
        · cases h
          exact ⟨_, events, hwritten, hevents, hanswers⟩
        · cases h
      · rw [hpassed] at hclosed
        cases hclosed
    · cases h
      exact ⟨_, events, hwritten, hevents, hanswers⟩
  · cases h

end LiteExchange.Server
