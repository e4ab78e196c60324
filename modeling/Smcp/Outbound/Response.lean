import Smcp.Application
import Smcp.Outbound.Reply
import Smcp.Outbound.RoundTrip

/-!
# Composing a response

What a handler sends when it composes a response, inside a transaction or outside of one.

* `replyMessage`: the message that `smcp_outbound_begin_response` begins;
* `Replies`: a message has been composed, and the socket takes it;
* `replies_beginResponse`, `replies_beginAsyncResponse`, `Replies.addOptionUint`,
  `Replies.fillContent` and `Replies.send` follow the calls.
-/

namespace Smcp

open ByteMemory OptionFormat

/-- The instance has composed the message. It may do so in a transaction that adds nothing of its
own, and the socket takes the datagram. -/
structure Replies (s : Instance) (m : Message) : Prop where
  composes : Composes { s with currentTransaction := none } m
  auto : s.autoOptions = {}
  family : m.dest.family ≠ 0
  takes : ∀ n, 0 < s.sendResult n

section
variable {s : Instance} {m : Message}

/-- Adding an option. -/
theorem Replies.addOptionUint (h : Replies s m) (hcontent : m.content = []) {key : ℕ}
    (hkey : key ≤ coapOptionInvalid) (value : ℕ) (hspace : 12 ≤ s.outbound.spaceRemaining) :
    (smcpOutboundAddOptionUint s key value).2 = smcpStatusOk ∧
      (smcpOutboundAddOptionUint s key value).1.sent = s.sent ∧
      s.outbound.spaceRemaining ≤
        (smcpOutboundAddOptionUint s key value).1.outbound.spaceRemaining + 9 ∧
      Replies (smcpOutboundAddOptionUint s key value).1
        { m with options := insertByKey (key, uintOptionValue value) m.options } := by
  have hlen := length_uintOptionValue_le value
  have hauto := h.composes.autoOptions_eq
  -- the condition on the room is the one of the source, at the length of the value
  have hroom : word16 (uintOptionValue value).length + 8 ≤ s.outbound.spaceRemaining := by
    rw [word16_of_lt (by omega)]
    omega
  have hleft := addOption_space h.composes.composed h.composes.bounded hkey hroom
  rw [word16_of_lt (by omega)] at hleft
  -- there is room, so nothing is refused
  have hok : (smcpOutboundAddOption { s with currentTransaction := none } key
      (uintOptionValue value)).2 = smcpStatusOk := by
    unfold smcpOutboundAddOption
    simp only [hauto, outboundAddOption_none]
    exact (addOption_spec h.composes.composed h.composes.bounded hkey hroom).1
  have hadd := h.composes.addOption hcontent hkey (by omega) hok
  unfold smcpOutboundAddOptionUint
  unfold smcpOutboundAddOption at hok hadd ⊢
  simp only [hauto] at hok hadd
  simp only [h.auto, outboundAddOption_none] at hok hadd ⊢
  refine ⟨hok, trivial, ?_, hadd, h.auto, h.family, h.takes⟩
  show s.outbound.spaceRemaining ≤ _
  refine hleft.trans ?_
  exact Nat.add_le_add_right (Nat.add_le_add_left hlen _) 5

/-- Writing the content. -/
theorem Replies.fillContent (h : Replies s m) (hcontent : m.content = []) {l : List UInt8}
    (hspace : l.length < s.outbound.spaceRemaining) :
    Replies (smcpOutboundSetContentLen (fillContent s l) l.length) { m with content := l } ∧
      (smcpOutboundSetContentLen (fillContent s l) l.length).sent = s.sent := by
  have hauto := h.composes.autoOptions_eq
  have hzero : s.outbound.contentLen = 0 := by
    have hlen := h.composes.content_len
    rw [hcontent] at hlen
    exact hlen
  have hmax : s.outbound.maxPacketLen = smcpMaxPacketLength := h.composes.composed.max_eq
  -- the content is shorter than the packet, so its length does not wrap
  have hlt : l.length < 65536 := by
    have hle := spaceRemaining_le s.outbound
    rw [hmax, smcpMaxPacketLength] at hle
    omega
  -- all of the content is written, since the space is larger
  have happend := h.composes.appendContent ⟨l, hlt⟩ (by
    unfold smcpOutboundAppendContent
    simp only [hauto, outboundAppendContent, getContentPtr_none, word16_of_lt hlt]
    rw [if_pos (show s.outbound.spaceRemaining > l.length from hspace)])
  unfold smcpOutboundAppendContent at happend
  simp only [hauto, outboundAppendContent, getContentPtr_none, word16_of_lt hlt] at happend
  rw [if_pos (show s.outbound.spaceRemaining > l.length from hspace)] at happend
  simp only [hzero, Nat.add_zero, Nat.zero_add, List.take_length, word16_of_lt hlt, hcontent,
    List.nil_append] at happend
  unfold smcpOutboundSetContentLen Smcp.fillContent smcpOutboundGetContentPtr
  simp only [h.auto, getContentPtr_none, Nat.mod_eq_of_lt hlt]
  exact ⟨⟨happend, h.auto, h.family, h.takes⟩, trivial⟩

/-- The room behind a message that was just begun. -/
theorem Replies.spaceRemaining_ge (h : Replies s m) (hopts : m.options = []) (hcontent : m.content = [])
    (htoken : m.token.length ≤ 8) : 1019 ≤ s.outbound.spaceRemaining := by
  have hptr : s.outbound.contentPtr = _ := h.composes.composed.contentPtr_eq
  have hlen : s.outbound.contentLen = m.content.length := h.composes.content_len
  have hmax : s.outbound.maxPacketLen = _ := h.composes.composed.max_eq
  have hheader : s.outbound.header = m.header := h.composes.header_eq
  rw [hopts, encode, List.length_nil, Outbound.optionsStart] at hptr
  have hstart : s.outbound.contentPtr = 4 + m.token.length + 1 + 0 := by
    rw [hptr, ← h.composes.token_len, ← hheader]
  rw [h.composes.bounded.spaceRemaining_eq h.composes.composed]
  show 1019 ≤ s.outbound.maxPacketLen - (s.outbound.contentPtr + s.outbound.contentLen)
  rw [hmax, hstart, hlen, hcontent, smcpMaxPacketLength, List.length_nil]
  omega

/-- Noting the code of a message changes nothing that a message depends on. -/
theorem noteSentCode_same (s : Instance) :
    (noteSentCode s).outbound = s.outbound ∧ (noteSentCode s).sent = s.sent ∧
      (noteSentCode s).sendResult = s.sendResult ∧ (noteSentCode s).autoOptions = s.autoOptions := by
  unfold noteSentCode
  cases hcur : s.currentTransaction with
  | none => exact ⟨rfl, rfl, rfl, rfl⟩
  | some h =>
    refine ⟨rfl, rfl, rfl, ?_⟩
    simp only [Instance.autoOptions, Instance.setTransaction, hcur, Function.update_self]

/-- Sending. -/
theorem Replies.send (h : Replies s m) :
    (smcpOutboundSend s).2 = smcpStatusOk ∧
      (smcpOutboundSend s).1.sent = s.sent ++ [⟨m.dest, m.wire⟩] := by
  obtain ⟨hout, hsent, hresult, hauto⟩ := noteSentCode_same s
  have hbytes : s.outbound.bytes s.outbound.sendLength = m.wire := h.composes.bytes_eq
  have hdest : s.outbound.saddr = m.dest := h.composes.dest_eq
  have htakes := h.takes s.sent.length
  have hhook : (smcpOutboundSendHook (noteSentCode s)).2 = smcpStatusOk ∧
      (smcpOutboundSendHook (noteSentCode s)).1.sent = s.sent ++ [⟨m.dest, m.wire⟩] := by
    unfold smcpOutboundSendHook smcpOutboundGetContentPtr
    simp only [hauto, hout, hsent, hresult, h.auto, getContentPtr_none, hdest, hbytes, h.family,
      ↓reduceIte]
    rw [if_neg (by omega), if_neg (by omega)]
    exact ⟨rfl, rfl⟩
  unfold smcpOutboundSend
  dsimp only
  rw [if_neg (by simp [hhook.1])]
  exact ⟨rfl, hhook.2⟩

end

/-! ## Beginning -/

/-- A message is in `outbound`. -/
theorem Composes.congr {s s' : Instance} {m : Message} (h : Composes s m)
    (hout : s'.outbound = s.outbound) (hcur : s'.currentTransaction = none) : Composes s' m where
  current := hcur
  composed := hout ▸ h.composed
  bounded := hout ▸ h.bounded
  header_eq := hout ▸ h.header_eq
  token_len := h.token_len
  token_eq := hout ▸ h.token_eq
  dest_eq := hout ▸ h.dest_eq
  content_len := hout ▸ h.content_len
  content_eq := hout ▸ h.content_eq

/-- Other fields in the header, without another token. -/
theorem Composes.setHeader {s : Instance} {m : Message} (h : Composes s m) (header : CoapHeader)
    (hlen : header.tokenLen = m.header.tokenLen) :
    Composes { s with outbound.header := header } { m with header := header } := by
  have hstart : ({ s.outbound with header := header } : Outbound).optionsStart =
      s.outbound.optionsStart := by
    rw [Outbound.optionsStart, Outbound.optionsStart, h.header_eq]
    exact congrArg _ hlen
  refine ⟨h.current, ⟨h.composed.ordered, ?_, ?_, h.composed.marker, h.composed.lastKey_eq,
    h.composed.max_eq⟩, h.bounded, rfl, hlen.trans h.token_len, h.token_eq, h.dest_eq, h.content_len,
    h.content_eq⟩
  · rw [hstart]
    exact h.composed.read
  · rw [hstart]
    exact h.composed.start_lt

/-- What was sent, what the socket will say, and what the current transaction adds to a message are
the same. -/
structure SameSetup (s s' : Instance) : Prop where
  sent : s'.sent = s.sent
  sendResult : s'.sendResult = s.sendResult
  auto : s'.autoOptions = s.autoOptions

theorem SameSetup.trans {s s' s'' : Instance} (h : SameSetup s s') (h' : SameSetup s' s'') :
    SameSetup s s'' :=
  ⟨h'.sent.trans h.sent, h'.sendResult.trans h.sendResult, h'.auto.trans h.auto⟩

theorem sameSetup_setDestaddr (s : Instance) (sockaddr : SockAddr) :
    SameSetup s (smcpOutboundSetDestaddr s sockaddr) := by
  unfold smcpOutboundSetDestaddr
  cases hcur : s.currentTransaction with
  | none =>
    refine ⟨rfl, rfl, ?_⟩
    simp only [Instance.autoOptions, hcur]
  | some h =>
    refine ⟨rfl, rfl, ?_⟩
    simp only [Instance.autoOptions, Instance.setTransaction, hcur, Function.update_self]

theorem sameSetup_beginResponse (s : Instance) (code : ℕ) :
    SameSetup s (smcpOutboundBeginResponse s code).1 := by
  have hstart : SameSetup s (startResponse s code) := by
    unfold startResponse
    dsimp only
    split_ifs <;> exact ⟨rfl, rfl, rfl⟩
  unfold smcpOutboundBeginResponse
  dsimp only
  split_ifs
  · exact ⟨rfl, rfl, rfl⟩
  · exact ⟨rfl, rfl, rfl⟩
  · have hid : SameSetup s
        (smcpOutboundSetMsgId (startResponse s code) (smcpInboundGetMsgId s)) :=
      ⟨hstart.sent, hstart.sendResult, hstart.auto⟩
    exact hid.trans (sameSetup_setDestaddr _ _)
  · exact hstart

/-- The token of the response with the given code to the message in `inbound`. -/
def replyToken (i : Inbound) (code : ℕ) : List UInt8 :=
  if code = 0 then [] else readBytes i.bytes 4 (headerTokenLen i.bytes)

/-- The message that `smcp_outbound_begin_response` begins, for the message in `inbound`. -/
def replyMessage (i : Inbound) (code : ℕ) : Message where
  header :=
    { version := coapVersion
      tt := if headerTt i.bytes = coapTransTypeNonconfirmable then coapTransTypeNonconfirmable
        else coapTransTypeAck
      tokenLen := (replyToken i code).length
      code := code
      msgId := headerMsgId i.bytes }
  token := replyToken i code
  dest := i.saddr
  options := []
  content := []

section
variable {s : Instance} {code : ℕ}

theorem smcpOutboundToken_reply (hpacket : s.inbound.packet.isSome)
    (hprocessing : s.isProcessingMessage = true) (hcode : code = 0 ∨ coapResult100 ≤ code) :
    smcpOutboundToken s code = replyToken s.inbound code := by
  obtain ⟨packet, hp⟩ := Option.isSome_iff_exists.1 hpacket
  unfold replyToken
  rcases hcode with rfl | hcode
  · rw [if_pos rfl]
    unfold smcpOutboundToken
    rw [hp]
    dsimp only
    rw [if_neg (by simp), smcpOutboundToken.requestToken]
    split
    · rw [if_neg (by simp)]
    · rfl
  · have h0 : code ≠ 0 := by
      unfold coapResult100 httpToCoapCode at hcode
      omega
    rw [if_neg h0]
    exact token_of_response hp hprocessing hcode

/-- What is begun, whether or not there is a transaction. -/
theorem composes_beginResponse (hpacket : s.inbound.packet.isSome)
    (hprocessing : s.isProcessingMessage = true) (hdid : s.didRespond = false)
    (hresponding : s.isResponding = false) (hcode : code = 0 ∨ coapResult100 ≤ code)
    (hlt : code < 256) :
    Composes
      { s with
        currentTransaction := none
        outbound := (smcpOutboundBeginResponse s code).1.outbound } (replyMessage s.inbound code) := by
  have htt : responseTt s < 4 := by
    unfold responseTt
    split_ifs <;> decide
  have hid : smcpInboundGetMsgId s % 65536 = smcpInboundGetMsgId s :=
    Nat.mod_eq_of_lt (headerMsgId_lt _)
  -- the reply has the id of the message; whether there is a transaction does not matter
  set v : Instance := { s with outbound.nextTid := smcpInboundGetMsgId s } with hv
  set u : Instance := { v with currentTransaction := none } with hu
  have htoken : smcpOutboundToken v code = replyToken s.inbound code :=
    smcpOutboundToken_reply (s := v) hpacket hprocessing hcode
  -- its token is the one of the request, or empty for a message without a code
  have htoken' : smcpOutboundToken u code = replyToken s.inbound code :=
    smcpOutboundToken_reply (s := u) hpacket hprocessing hcode
  have hbegin : (smcpOutboundBegin v code (responseTt s)).1.outbound =
      (smcpOutboundBegin u code (responseTt s)).1.outbound := by
    unfold smcpOutboundBegin
    rw [htoken, htoken']
  -- and it goes to the sender
  have hcomposes := (composes_begin (s := u) rfl hlt htt).setDestaddr s.inbound.saddr
  rw [htoken'] at hcomposes
  apply hcomposes.congr _ rfl
  rw [setDestaddr_outbound, ← hbegin]
  dsimp only
  rw [beginResponse_outbound hprocessing hdid hresponding, hid]
  rfl

variable (code) in
theorem replies_beginResponse (hpacket : s.inbound.packet.isSome)
    (hprocessing : s.isProcessingMessage = true) (hdid : s.didRespond = false)
    (hresponding : s.isResponding = false) (hcode : code = 0 ∨ coapResult100 ≤ code)
    (hlt : code < 256) (hauto : s.autoOptions = {}) (hfamily : s.inbound.saddr.family ≠ 0)
    (htakes : ∀ n, 0 < s.sendResult n) :
    (smcpOutboundBeginResponse s code).2 = smcpStatusOk ∧
      Replies (smcpOutboundBeginResponse s code).1 (replyMessage s.inbound code) := by
  have hcomposes := composes_beginResponse hpacket hprocessing hdid hresponding hcode hlt
  have hsame := sameSetup_beginResponse s code
  constructor
  · unfold smcpOutboundBeginResponse
    rw [if_neg (by simp [hdid]), if_neg (by simp [hresponding]), if_pos hprocessing]
  · refine ⟨hcomposes.congr rfl rfl, hsame.auto.trans hauto, hfamily, fun n => ?_⟩
    rw [hsame.sendResult]
    exact htakes n

/-- The message that `smcp_outbound_begin_async_response` begins: the type of the request, and the
id of the transaction. -/
def asyncMessage (x : AsyncResponse) (code msgId : ℕ) : Message where
  header :=
    { version := coapVersion
      tt := headerTt x.request
      tokenLen := headerTokenLen x.request
      code := code
      msgId := msgId % 65536 }
  token := readBytes x.request 4 (headerTokenLen x.request)
  dest := x.remoteSaddr
  options := []
  content := []

theorem setToken_outbound {s s' : Instance} (h : s'.outbound = s.outbound) (token : List UInt8) :
    (smcpOutboundSetToken s' token).1.outbound = (smcpOutboundSetToken s token).1.outbound := by
  unfold smcpOutboundSetToken
  split_ifs <;> simp only [h]

theorem sameSetup_setToken (s : Instance) (token : List UInt8) :
    SameSetup s (smcpOutboundSetToken s token).1 := by
  unfold smcpOutboundSetToken
  split_ifs <;> exact ⟨rfl, rfl, rfl⟩

variable (code) in
theorem replies_beginAsyncResponse {x : AsyncResponse} {h : TransactionPtr}
    (hcur : s.currentTransaction = some h) (hresponding : s.isResponding = false)
    (hcode : coapResult100 ≤ code) (hlt : code < 256) (hauto : s.autoOptions = {})
    (hfamily : x.remoteSaddr.family ≠ 0) (htoken : headerTokenLen x.request ≤ 8)
    (htakes : ∀ n, 0 < s.sendResult n) :
    (smcpOutboundBeginAsyncResponse s code x).2 = smcpStatusOk ∧
      (smcpOutboundBeginAsyncResponse s code x).1.sent = s.sent ∧
      ∃ msgId, Replies (smcpOutboundBeginAsyncResponse s code x).1 (asyncMessage x code msgId) := by
  unfold smcpOutboundBeginAsyncResponse
  dsimp only
  -- the packet of the request, as it was kept for the reply
  set u : Instance :=
    { s with
      inbound :=
        { s.inbound with
          packet := some x.request
          packetLen := x.requestLen
          contentPtr := 4 + headerTokenLen x.request
          lastOptionKey := 0
          thisOption := some 4
          isFake := true
          saddr := x.remoteSaddr }
      isProcessingMessage := true
      didRespond := false } with hu
  have hcomposes := composes_beginResponse (s := u) rfl rfl rfl hresponding
    (.inr hcode) hlt
  -- the begin of the reply leaves the socket and the automatic options
  have hsame := sameSetup_beginResponse u code
  have hb : (smcpOutboundBeginResponse u code).1.currentTransaction = some h :=
    (beginResponse_code (s := u) code rfl hresponding).2.trans hcur
  generalize (smcpOutboundBeginResponse u code).1 = b at hcomposes hsame hb
  rw [hb]
  dsimp only
  have hlen : (readBytes x.request 4 (headerTokenLen x.request)).length ≤ 8 := by
    rw [length_readBytes]
    exact htoken
  -- the type and the id are those of the request that is answered later
  set r := smcpOutboundSetTt (smcpOutboundSetMsgId b (b.store.msgId h)) (headerTt x.request) with hr
  have hok : (smcpOutboundSetToken r
      (readBytes x.request 4 (headerTokenLen x.request))).2 = smcpStatusOk := by
    unfold smcpOutboundSetToken
    rw [if_pos hlen]
  rw [if_neg (by simp [hok])]
  have hsetup : SameSetup s (smcpOutboundSetDestaddr (smcpOutboundSetToken r
      (readBytes x.request 4 (headerTokenLen x.request))).1 x.remoteSaddr) := by
    have hur : SameSetup s r := ⟨hsame.sent, hsame.sendResult, hsame.auto⟩
    exact (hur.trans (sameSetup_setToken r _)).trans (sameSetup_setDestaddr _ _)
  refine ⟨rfl, hsetup.sent, b.store.msgId h, ?_, hsetup.auto.trans hauto, hfamily, fun n => ?_⟩
  · have hheader : b.outbound.header = (replyMessage u.inbound code).header := hcomposes.header_eq
    have htt : headerTt x.request % 4 = headerTt x.request := Nat.mod_mod _ _
    set token := readBytes x.request 4 (headerTokenLen x.request) with htok
    have hmessage : asyncMessage x code (b.store.msgId h) =
        { header :=
            { version := coapVersion, tt := headerTt x.request % 4, tokenLen := token.length
              code := code, msgId := b.store.msgId h % 65536 }
          token := token, dest := x.remoteSaddr, options := [], content := [] } := by
      rw [asyncMessage, htt, htok, length_readBytes]
    rw [hmessage]
    apply Composes.congr (((hcomposes.setHeader
      { (replyMessage u.inbound code).header with
        msgId := b.store.msgId h % 65536, tt := headerTt x.request % 4 } rfl).setToken rfl rfl
      hlen).setDestaddr x.remoteSaddr) _ rfl
    dsimp only
    rw [setDestaddr_outbound, setDestaddr_outbound]
    refine congrArg (fun o : Outbound => ({ o with saddr := x.remoteSaddr } : Outbound))
      (setToken_outbound ?_ token)
    rw [← hheader]
    rfl
  · rw [hsetup.sendResult]
    exact htakes n

end

end Smcp
