import Smcp.Inbound.Duplicate

/-!
# Counting the answers

How many datagrams a handler sends in answer to a confirmable message, call by call.

* `Answered`: so many answers were sent, and `didRespond` fits that;
* `UnderWay`: besides, a response is being composed;
* `Answered.beginResponse`, `UnderWay.addOption`, `UnderWay.getContentPtr` and `UnderWay.send`
  follow the calls;
* `processPacket_answered`: the answers to a message, the automatic reply included.
-/

namespace Smcp

open ByteMemory OptionFormat

/-- A confirmable message from somewhere. -/
structure Inbound.Confirmable (i : Inbound) : Prop where
  packet : i.packet.isSome
  tt : headerTt i.bytes = coapTransTypeConfirmable
  family : i.saddr.family ≠ 0

/-- `n` datagrams were sent behind `base`, all of them answers to the message `i`, which is still
being processed. If the socket works, it takes everything, and `didRespond` says whether there were
any. -/
structure Answered (works : Prop) (i : Inbound) (base : List Datagram) (n : ℕ) (u : Instance) :
    Prop where
  samePacket : i.SamePacket u.inbound
  isProcessingMessage : u.isProcessingMessage = true
  sent_eq : ∃ ds : List Datagram, u.sent = base ++ ds ∧ ds.length = n ∧ ∀ d ∈ ds, d.Answers i
  responded : u.didRespond = true → 0 < n
  takes : works → ∀ k, 0 < u.sendResult k
  unanswered : works → u.didRespond = false → n = 0

/-- Besides, a response to the message is in `outbound`, without content. -/
structure UnderWay (works : Prop) (i : Inbound) (base : List Datagram) (n : ℕ) (u : Instance) :
    Prop where
  answered : Answered works i base n u
  replying : Replying i u.outbound
  contentLen_eq : u.outbound.contentLen = 0
  due : u.didRespond = true ∨ u.isResponding = true

section
variable {works : Prop} {i : Inbound} {base : List Datagram} {n : ℕ} {u : Instance}

theorem Inbound.Confirmable.congr {i' : Inbound} (h : i.Confirmable) (hsame : i.SamePacket i') :
    i'.Confirmable where
  packet := by rw [hsame.packet]; exact h.packet
  tt := by rw [hsame.bytes]; exact h.tt
  family := by rw [hsame.saddr]; exact h.family

theorem Replying.congr {i' : Inbound} {o : Outbound} (h : Replying i' o) (hsame : i.SamePacket i') :
    Replying i o where
  composed := h.composed
  ptr_le := h.ptr_le
  saddr_eq := h.saddr_eq.trans hsame.saddr
  version_eq := h.version_eq
  tt_eq := h.tt_eq
  msgId_eq := by rw [h.msgId_eq, hsame.bytes]
  tokenLen_eq := by rw [h.tokenLen_eq, hsame.bytes]
  token_eq := by
    have htoken := h.token_eq
    rw [hsame.bytes] at htoken
    exact htoken

/-! ## The calls -/

/-- What is in `outbound`, and where the option iterator is, does not matter. -/
theorem Answered.move (h : Answered works i base n u) {i' : Inbound} (hsame : u.inbound.SamePacket i')
    (o : Outbound) : Answered works i base n { u with inbound := i', outbound := o } :=
  ⟨h.samePacket.trans hsame, h.isProcessingMessage, h.sent_eq, h.responded, h.takes, h.unanswered⟩

theorem UnderWay.setOutbound (h : UnderWay works i base n u) {o : Outbound} (hreply : Replying i o)
    (hzero : o.contentLen = 0) : UnderWay works i base n { u with outbound := o } :=
  ⟨⟨h.answered.samePacket, h.answered.isProcessingMessage, h.answered.sent_eq,
    h.answered.responded, h.answered.takes, h.answered.unanswered⟩, hreply, hzero, h.due⟩

theorem UnderWay.addOption (h : UnderWay works i base n u) {key : ℕ} (hkey : key ≤ coapOptionInvalid)
    (value : List UInt8) : UnderWay works i base n (smcpOutboundAddOption u key value).1 := by
  obtain ⟨hreply, hzero, -⟩ := h.replying.addOption h.contentLen_eq u.autoOptions value hkey
  exact h.setOutbound hreply hzero

theorem UnderWay.getContentPtr (h : UnderWay works i base n u) :
    UnderWay works i base n (smcpOutboundGetContentPtr u) := by
  obtain ⟨hreply, hzero, -⟩ := h.replying.getContentPtr h.contentLen_eq u.autoOptions
  exact h.setOutbound hreply hzero

/-- `smcp_outbound_begin_response` when nothing was sent yet, and nothing begun. -/
theorem beginResponse_eq {s : Instance} (hprocessing : s.isProcessingMessage = true)
    (hdid : s.didRespond = false) (hresponding : s.isResponding = false) (code : ℕ) :
    ∃ tr o force, smcpOutboundBeginResponse s code =
      ({ s with
          transaction := tr
          outbound := o
          forceCurrentOutboundCode := force
          isResponding := true }, smcpStatusOk) := by
  unfold smcpOutboundBeginResponse
  rw [if_neg (by simp [hdid]), if_neg (by simp [hresponding]), if_pos hprocessing]
  unfold smcpOutboundSetDestaddr startResponse
  rw [if_pos hprocessing]
  dsimp only
  split
  · exact ⟨_, _, _, rfl⟩
  · exact ⟨_, _, _, rfl⟩

theorem Answered.beginResponse (h : Answered works i base n u) (hi : i.Confirmable)
    (hdid : u.didRespond = false) (hresponding : u.isResponding = false) {code : ℕ}
    (hcode : coapResult100 ≤ code) :
    (smcpOutboundBeginResponse u code).2 = smcpStatusOk ∧
      UnderWay works i base n (smcpOutboundBeginResponse u code).1 := by
  have hi' := hi.congr h.samePacket
  obtain ⟨hreply, hzero⟩ := replying_beginResponse hi'.packet h.isProcessingMessage hdid
    hresponding hi'.tt hcode
  obtain ⟨tr, o, force, heq⟩ := beginResponse_eq h.isProcessingMessage hdid hresponding code
  rw [heq] at hreply hzero ⊢
  exact ⟨rfl, ⟨h.samePacket, h.isProcessingMessage, h.sent_eq, h.responded, h.takes, h.unanswered⟩,
    hreply.congr h.samePacket, hzero, .inr rfl⟩

/-- What `smcp_outbound_send` changes. -/
theorem send_eq (s : Instance) :
    ∃ tr sent did responding, (smcpOutboundSend s).1 =
        { s with
          transaction := tr
          outbound := outboundGetContentPtr (noteSentCode s).autoOptions s.outbound
          sent := sent
          didRespond := did
          isResponding := responding } ∧
      ((smcpOutboundSend s).2 = smcpStatusOk ∧ did = (s.didRespond || s.isResponding) ∨
        (smcpOutboundSend s).2 ≠ smcpStatusOk ∧ did = s.didRespond ∧
          responding = s.isResponding) := by
  -- the bookkeeping of the sent code touches the transaction only
  have hnote : ∃ tr, noteSentCode s = { s with transaction := tr } := by
    unfold noteSentCode
    split
    · exact ⟨_, rfl⟩
    · exact ⟨_, rfl⟩
  obtain ⟨tr, hnote⟩ := hnote
  -- the hook of the platform adds to the datagrams, and notes nothing but the reply
  have hhook : ∃ sent, (smcpOutboundSendHook (noteSentCode s)).1 =
      { s with
        transaction := tr
        outbound := outboundGetContentPtr (noteSentCode s).autoOptions s.outbound
        sent := sent } := by
    unfold smcpOutboundSendHook smcpOutboundGetContentPtr
    rw [hnote]
    dsimp only
    split_ifs <;> exact ⟨_, rfl⟩
  obtain ⟨sent, hhook⟩ := hhook
  unfold smcpOutboundSend
  dsimp only
  rw [hhook]
  -- the answer is noted only where the hook has not failed
  by_cases hok : (smcpOutboundSendHook (noteSentCode s)).2 = smcpStatusOk
  · rw [if_neg (not_not.2 hok)]
    exact ⟨tr, sent, _, _, rfl, .inl ⟨rfl, rfl⟩⟩
  · rw [if_pos hok]
    exact ⟨tr, sent, _, _, hhook, .inr ⟨hok, rfl, rfl⟩⟩

/-- The socket takes what has a destination. -/
theorem send_ok {s : Instance} (htakes : ∀ k, 0 < s.sendResult k)
    (hfamily : (outboundGetContentPtr (noteSentCode s).autoOptions s.outbound).saddr.family ≠ 0) :
    (smcpOutboundSend s).2 = smcpStatusOk := by
  have hnote : (noteSentCode s).outbound = s.outbound ∧
      (noteSentCode s).sendResult = s.sendResult ∧ (noteSentCode s).sent = s.sent := by
    unfold noteSentCode
    split <;> exact ⟨rfl, rfl, rfl⟩
  have hhook : (smcpOutboundSendHook (noteSentCode s)).2 = smcpStatusOk := by
    have htakes := htakes s.sent.length
    unfold smcpOutboundSendHook smcpOutboundGetContentPtr
    dsimp only
    rw [hnote.1, if_neg hfamily, hnote.2.1, hnote.2.2, if_neg (by omega), if_neg (by omega)]
  unfold smcpOutboundSend
  dsimp only
  rw [if_neg (not_not.2 hhook)]

/-- One more answer. -/
theorem Answered.send (h : Answered works i base n u) (hi : i.Confirmable) (hreply : Replying i u.outbound)
    (hdue : u.didRespond = true ∨ u.isResponding = true) :
    Answered works i base (n + 1) (smcpOutboundSend u).1 ∧
      (works → (smcpOutboundSend u).2 = smcpStatusOk) ∧
      ((smcpOutboundSend u).1.didRespond = true ∨ (smcpOutboundSend u).1.isResponding = true) := by
  obtain ⟨d, hd, hanswers, -⟩ := hreply.send hi.family
  obtain ⟨ds, hsent, hlen, hall⟩ := h.sent_eq
  obtain ⟨opts, hc⟩ := hreply.composed
  obtain ⟨opts', -, -, hextends⟩ := getContentPtr_extends hc (noteSentCode u).autoOptions
  -- a failure of the hook is a failure of the socket, and `works` excludes it
  have hok (hworks : works) : (smcpOutboundSend u).2 = smcpStatusOk := by
    apply send_ok (h.takes hworks)
    rw [hextends.saddr_eq, hreply.saddr_eq]
    exact hi.family
  -- one more datagram behind the ones that were there
  have hanswered : ∃ ds : List Datagram, (smcpOutboundSend u).1.sent = base ++ ds ∧
      ds.length = n + 1 ∧ ∀ d ∈ ds, d.Answers i := by
    refine ⟨ds ++ [d], ?_, ?_, ?_⟩
    · rw [hd, hsent, List.append_assoc]
    · rw [List.length_append, hlen, List.length_singleton]
    · intro d' hd'
      rcases List.mem_append.1 hd' with hold | hnew
      · exact hall d' hold
      · rw [List.mem_singleton.1 hnew]
        exact hanswers
  obtain ⟨tr, sent, did, responding, heq, hdid⟩ := send_eq u
  -- the send is made while a response is under way, so it counts as the answer
  have heither : (u.didRespond || u.isResponding) = true := by
    rw [Bool.or_eq_true]
    exact hdue
  have hnow : did = true ∨ responding = true := by
    rcases hdid with ⟨-, rfl⟩ | ⟨-, rfl, rfl⟩
    · exact .inl heither
    · exact hdue
  rw [heq] at hanswered ⊢
  refine ⟨⟨h.samePacket, h.isProcessingMessage, hanswered, fun _ => Nat.succ_pos n, h.takes, ?_⟩,
    hok, hnow⟩
  intro hworks hnot
  have hnot : did = false := hnot
  rcases hdid with ⟨-, rfl⟩ | ⟨hfails, -, -⟩
  · exact absurd (heither.symm.trans hnot) (by decide)
  · exact absurd (hok hworks) hfails

theorem UnderWay.send (h : UnderWay works i base n u) (hi : i.Confirmable) :
    UnderWay works i base (n + 1) (smcpOutboundSend u).1 := by
  obtain ⟨hanswered, -, hdue⟩ := h.answered.send hi h.replying h.due
  obtain ⟨hreply, hzero, -⟩ :=
    h.replying.getContentPtr h.contentLen_eq (noteSentCode u).autoOptions
  obtain ⟨tr, sent, did, responding, heq, -⟩ := send_eq u
  have hout : (smcpOutboundSend u).1.outbound =
      outboundGetContentPtr (noteSentCode u).autoOptions u.outbound := by rw [heq]
  rw [← hout] at hreply hzero
  exact ⟨hanswered, hreply, hzero, hdue⟩

/-! ## The automatic reply -/

/-- At the end there is an answer, and one that is sent automatically is the only one, unless the
socket failed. -/
theorem Answered.automaticReply (h : Answered works i base n u) (hi : i.Confirmable)
    (hcode : coapCodeIsRequest (headerCode i.bytes) = true) (ret : ℤ) :
    ∃ ds : List Datagram, (automaticReply i.bytes u ret).1.sent = base ++ ds ∧
      (∀ d ∈ ds, d.Answers i) ∧ 0 < ds.length ∧
      (works → ds.length = max n 1) := by
  obtain ⟨ds, hsent, hlen, hall⟩ := h.sent_eq
  unfold Smcp.automaticReply
  -- the automatic reply is composed only where nothing has answered yet
  cases hdid : u.didRespond with
  | true =>
    have hpos := h.responded hdid
    rw [if_neg fun hand => Bool.true_eq_false_eq_False hand.1]
    exact ⟨ds, hsent, hall, by omega, fun _ => by omega⟩
  | false =>
    have hi' := hi.congr h.samePacket
    rw [if_pos ⟨rfl, hi.tt⟩, if_pos hcode]
    obtain ⟨d, hd, hanswers, -⟩ := replyToRequest_sent hi'.packet h.isProcessingMessage hi'.tt
      hi'.family (headerCode i.bytes) ret
    refine ⟨ds ++ [d], ?_, ?_, ?_, ?_⟩
    · rw [hd, hsent, List.append_assoc]
    · intro d' hd'
      rcases List.mem_append.1 hd' with hold | hnew
      · exact hall d' hold
      · rw [List.mem_singleton.1 hnew]
        exact hanswers.congr h.samePacket.packet h.samePacket.saddr
    · rw [List.length_append, List.length_singleton]
      omega
    · intro hworks
      have hzero := h.unanswered hworks hdid
      rw [List.length_append, hlen, List.length_singleton]
      omega

end

section
variable {works : Prop} {hooks : Hooks} {buffer : ℕ → UInt8} {n : ℕ} {source : SockAddr}
  {dest : Option SockAddr} {s : Instance}

/-- The message as the handler finds it. -/
def Instance.received (s : Instance) (buffer : ℕ → UInt8) (n : ℕ) (source : SockAddr)
    (dest : Option SockAddr) : Inbound :=
  { (s.arrived buffer n source dest).inbound with
    isDupe := s.dupeInfo.knows (s.arrived buffer n source dest).inbound }

theorem received_confirmable (hv : coapVerifyPacket buffer n = true)
    (htt : headerTt buffer = coapTransTypeConfirmable) (hfamily : source.family ≠ 0) :
    (s.received buffer n source dest).Confirmable where
  packet := rfl
  tt := by
    show headerTt (s.arrived buffer n source dest).inbound.bytes = coapTransTypeConfirmable
    rw [headerTt, arrived_header hv s source dest 0 (by decide)]
    exact htt
  family := hfamily

/-- Before a handler is called, nothing has been sent. -/
theorem answered_preparePacket (s : Instance) (buffer : ℕ → UInt8) (n : ℕ) (source : SockAddr)
    (dest : Option SockAddr) :
    Answered (∀ k, 0 < s.sendResult k) (s.received buffer n source dest) s.sent 0
        (preparePacket (s.arrived buffer n source dest)) ∧
      (preparePacket (s.arrived buffer n source dest)).didRespond = false ∧
      (preparePacket (s.arrived buffer n source dest)).isResponding = s.isResponding := by
  have hmark := preparePacket_samePacket (s := s.arrived buffer n source dest) rfl
  obtain ⟨i0, d0, l0, hprep⟩ := preparePacket_eq (s.arrived buffer n source dest)
  rw [hprep] at hmark ⊢
  refine ⟨⟨hmark, rfl, ⟨[], ?_, rfl, ?_⟩, ?_, id, fun _ _ => rfl⟩, rfl, rfl⟩
  · exact (List.append_nil _).symm
  · exact fun d hd => absurd hd List.not_mem_nil
  · exact fun hdid => absurd hdid Bool.false_ne_true

/-- The answers to a confirmable request, when the handler sent `m` of them. -/
theorem processPacket_answered {m : ℕ} (hv : coapVerifyPacket buffer n = true)
    (hcode : coapCodeIsRequest (headerCode buffer) = true)
    (htt : headerTt buffer = coapTransTypeConfirmable)
    (hunicast : dest.any (fun dest => smcpIsAddrMulticast dest.addr) = false)
    (hfamily : source.family ≠ 0)
    (hanswered : Answered works (s.received buffer n source dest) s.sent m
      (smcpHandleRequest hooks (preparePacket (s.arrived buffer n source dest))).1) :
    ∃ ds : List Datagram, (processPacket hooks s buffer n source dest).1.sent = s.sent ++ ds ∧
      (∀ d ∈ ds, d.Answers (s.arrived buffer n source dest).inbound) ∧ 0 < ds.length ∧
      (works → ds.length = max m 1) := by
  have hi : (s.received buffer n source dest).Confirmable :=
    received_confirmable hv htt hfamily
  have hcode' : coapCodeIsRequest (headerCode (s.arrived buffer n source dest).inbound.bytes) =
      true := by
    rw [headerCode, arrived_header hv s source dest 1 (by decide)]
    exact hcode
  obtain ⟨ds, hsent, hall, hpos, hlen⟩ := hanswered.automaticReply hi hcode'
    (smcpHandleRequest hooks (preparePacket (s.arrived buffer n source dest))).2
  rw [processPacket_eq hooks hv, finishPacket_request hooks rfl _ hcode']
  · exact ⟨ds, hsent, fun d hd => (hall d hd).congr rfl rfl, hpos, hlen⟩
  · rintro ⟨hmulticast, -⟩
    exact Bool.false_ne_true (hunicast.symm.trans hmulticast)

end

end Smcp
