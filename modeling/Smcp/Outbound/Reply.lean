import Smcp.Outbound.Size

/-!
# Replies

A response to a confirmable message, from `smcp_outbound_begin_response` to the datagram.
`Replying i o` says that `o` is a response to the message `i` under composition: whatever options
and content it gets, it is an ACK with the id and the token of the message, for its sender.
-/

namespace Smcp

open ByteMemory OptionFormat

/-- The bytes of a datagram as they lie in memory. -/
def Datagram.memory (d : Datagram) : ℕ → UInt8 := ofList d.bytes fun _ => 0

/-- The datagram is an ACK for the message: it goes to the sender, with the id and the token. -/
structure Datagram.Answers (d : Datagram) (i : Inbound) : Prop where
  dest : d.dest = i.saddr
  tt : headerTt d.memory = coapTransTypeAck
  msgId : headerMsgId d.memory = headerMsgId i.bytes
  tokenLen : headerTokenLen d.memory = headerTokenLen i.bytes
  token : readBytes d.memory 4 (headerTokenLen i.bytes) = readBytes i.bytes 4 (headerTokenLen i.bytes)

/-- The outbound message is such an ACK, with options and perhaps content. -/
structure Replying (i : Inbound) (o : Outbound) : Prop where
  composed : ∃ opts, Composed o opts
  ptr_le : o.contentPtr ≤ smcpMaxPacketLength
  saddr_eq : o.saddr = i.saddr
  version_eq : o.header.version = coapVersion
  tt_eq : o.header.tt = coapTransTypeAck
  msgId_eq : o.header.msgId = headerMsgId i.bytes
  tokenLen_eq : o.header.tokenLen = headerTokenLen i.bytes
  token_eq : readBytes o.packetBytes.byte 4 (headerTokenLen i.bytes) =
    readBytes i.bytes 4 (headerTokenLen i.bytes)

section
variable {i : Inbound} {o o' : Outbound} {key : ℕ}

theorem Replying.of_extends (h : Replying i o) (he : Extends o o') (hc : ∃ opts, Composed o' opts)
    (hptr : o'.contentPtr ≤ smcpMaxPacketLength) : Replying i o' where
  composed := hc
  ptr_le := hptr
  saddr_eq := he.saddr_eq.trans h.saddr_eq
  version_eq := by rw [he.header_eq, h.version_eq]
  tt_eq := by rw [he.header_eq, h.tt_eq]
  msgId_eq := by rw [he.header_eq, h.msgId_eq]
  tokenLen_eq := by rw [he.header_eq, h.tokenLen_eq]
  token_eq := by
    rw [← h.token_eq]
    refine readBytes_congr fun j _ hj => he.token_eq j ?_
    rw [Outbound.optionsStart, h.tokenLen_eq]
    exact hj

/-- Without content, there is room up to the end of the packet. -/
theorem Replying.bounded (h : Replying i o) (h0 : o.contentLen = 0) : Bounded o := by
  obtain ⟨opts, hc⟩ := h.composed
  rw [Bounded, h0, hc.max_eq]
  exact h.ptr_le

/-- More options, as long as there is no content. -/
theorem Replying.of_bounded (h : Replying i o) (h0 : o.contentLen = 0)
    (h' : ∃ opts, Composed o' opts ∧ Bounded o' ∧ Extends o o') :
    Replying i o' ∧ o'.contentLen = 0 ∧ o'.header.code = o.header.code := by
  obtain ⟨opts, hc, hb, he⟩ := h'
  refine ⟨h.of_extends he ⟨opts, hc⟩ ?_, he.contentLen_eq.trans h0, by rw [he.header_eq]⟩
  have hmax := hc.max_eq
  unfold Bounded at hb
  omega

theorem Replying.addOption (h : Replying i o) (h0 : o.contentLen = 0) (auto : AutoOptions)
    (value : List UInt8) (hkey : key ≤ coapOptionInvalid) :
    Replying i (outboundAddOption auto o key value).1 ∧
      (outboundAddOption auto o key value).1.contentLen = 0 ∧
      (outboundAddOption auto o key value).1.header.code = o.header.code := by
  obtain ⟨opts, hc⟩ := h.composed
  exact h.of_bounded h0 (outboundAddOption_composed value auto hc (h.bounded h0) hkey)

theorem Replying.getContentPtr (h : Replying i o) (h0 : o.contentLen = 0) (auto : AutoOptions) :
    Replying i (outboundGetContentPtr auto o) ∧ (outboundGetContentPtr auto o).contentLen = 0 ∧
      (outboundGetContentPtr auto o).header.code = o.header.code := by
  obtain ⟨opts, hc⟩ := h.composed
  exact h.of_bounded h0 (getContentPtr_composed auto hc (h.bounded h0))

/-- Content behind the marker, however long it is said to be. -/
theorem Replying.of_bytes (h : Replying i o) {b : Buffer} (len : ℕ)
    (hb : ∀ j, j < o.contentPtr → b.byte j = o.packetBytes.byte j) :
    Replying i { o with packetBytes := b, contentLen := len } := by
  obtain ⟨opts, hc⟩ := h.composed
  have hlt := hc.start_lt
  refine { h with composed := ⟨opts, hc.of_bytes len hb⟩, token_eq := ?_ }
  rw [← h.token_eq]
  refine readBytes_congr fun j _ hj => hb j ?_
  rw [Outbound.optionsStart, h.tokenLen_eq] at hlt
  omega

theorem Replying.write (h : Replying i o) {at_ : ℕ} (l : List UInt8) (hat : o.contentPtr ≤ at_)
    (len : ℕ) :
    Replying i { o with packetBytes := o.packetBytes.copy at_ l, contentLen := len } :=
  h.of_bytes len fun _ hj => Buffer.copy_of_outside _ _ (Or.inl (hj.trans_le hat))

theorem Replying.setContentFormatted (h : Replying i o) (h0 : o.contentLen = 0) (auto : AutoOptions)
    (text : List UInt8) :
    Replying i (outboundSetContentFormatted auto o text).1 ∧
      (outboundSetContentFormatted auto o text).1.header.code = o.header.code := by
  obtain ⟨h1, -, hcode⟩ := h.getContentPtr h0 auto
  unfold outboundSetContentFormatted
  dsimp only
  split_ifs
  all_goals exact ⟨h1.write _ (Nat.le_add_right _ _) _, hcode⟩

theorem replying_setVarContentInt {s : Instance} (h : Replying i s.outbound)
    (h0 : s.outbound.contentLen = 0) (v : ℤ) :
    Replying i (smcpOutboundSetVarContentInt s v).1.outbound ∧
      (smcpOutboundSetVarContentInt s v).1.outbound.header.code = s.outbound.header.code := by
  obtain ⟨h1, hlen, hcode⟩ := h.addOption h0 s.autoOptions (uintOptionValue 65005)
    (by decide : coapOptionContentType ≤ coapOptionInvalid)
  obtain ⟨h2, hcode'⟩ := h1.setContentFormatted hlen
    (smcpOutboundAddOptionUint s coapOptionContentType 65005).1.autoOptions
    ([0x76, 0x3D] ++ decimalBytes v)
  exact ⟨h2, hcode'.trans hcode⟩

/-! ## Sending -/

/-- An option moves the content by less than a packet, whatever the content is. -/
theorem addOption_extends {opts : List (ℕ × List UInt8)} (hc : Composed o opts) (value : List UInt8)
    (hkey : key ≤ coapOptionInvalid) :
    ∃ opts', Composed (smcpOutboundAddOption_ o key value).1 opts' ∧
      (smcpOutboundAddOption_ o key value).1.contentPtr ≤ o.contentPtr + smcpMaxPacketLength ∧
      Extends o (smcpOutboundAddOption_ o key value).1 := by
  by_cases hspace : word16 value.length + 8 ≤ o.spaceRemaining
  · obtain ⟨-, hc', hptr, he⟩ := addOption_inserts hc hkey hspace
    refine ⟨_, hc', ?_, he⟩
    have hle := spaceRemaining_le o
    rw [hc.max_eq] at hle
    omega
  · rw [addOption_tooBig hspace]
    exact ⟨opts, hc, Nat.le_add_right _ _, Extends.refl o⟩

theorem getContentPtr_extends {opts : List (ℕ × List UInt8)} (hc : Composed o opts)
    (auto : AutoOptions) :
    ∃ opts', Composed (outboundGetContentPtr auto o) opts' ∧
      (outboundGetContentPtr auto o).contentPtr ≤ o.contentPtr + 2 * smcpMaxPacketLength ∧
      Extends o (outboundGetContentPtr auto o) := by
  have hblock2 : ∃ opts', Composed (addAutoBlock2 auto o coapOptionInvalid).1 opts' ∧
      (addAutoBlock2 auto o coapOptionInvalid).1.contentPtr ≤
        o.contentPtr + smcpMaxPacketLength ∧ Extends o (addAutoBlock2 auto o coapOptionInvalid).1 := by
    unfold addAutoBlock2
    split_ifs
    · exact addOption_extends hc _ (by decide)
    · exact ⟨opts, hc, Nat.le_add_right _ _, Extends.refl o⟩
  obtain ⟨opts1, hc1, hptr1, he1⟩ := hblock2
  unfold outboundGetContentPtr smcpOutboundAddOptionsUpToKey_
  dsimp only
  generalize addAutoBlock2 auto o coapOptionInvalid = r at hc1 hptr1 he1 ⊢
  unfold addAutoObserve
  split_ifs
  · obtain ⟨opts2, hc2, hptr2, he2⟩ :=
      addOption_extends hc1 [] (by decide : coapOptionObserve ≤ coapOptionInvalid)
    exact ⟨opts2, hc2, by omega, he1.trans he2⟩
  · exact ⟨opts1, hc1, hptr1.trans (by omega), he1⟩
  · exact ⟨opts, hc, Nat.le_add_right _ _, Extends.refl o⟩

/-- The first bytes of what the send hook takes from the packet are header and token. -/
theorem Composed.bytes_eq {opts : List (ℕ × List UInt8)} (hc : Composed o opts)
    (hptr : o.contentPtr < 65536) :
    ∃ rest, o.bytes o.sendLength =
      o.header.bytes ++ readBytes o.packetBytes.byte 4 o.header.tokenLen ++ rest := by
  have hlt := hc.start_lt
  have hhdr : o.header.bytes.length = 4 := rfl
  unfold Outbound.optionsStart at hlt
  have hlen : 4 + o.header.tokenLen ≤ o.sendLength := by
    simp only [Outbound.sendLength, word16_of_lt hptr]
    split_ifs <;> omega
  refine ⟨readBytes o.packetBytes.byte (4 + o.header.tokenLen)
    (o.sendLength - 4 - o.header.tokenLen), ?_⟩
  rw [Outbound.bytes, List.take_of_length_le (by rw [List.length_append, length_readBytes]; omega),
    List.append_assoc, ← readBytes_add]
  congr 2
  omega

/-- A datagram that starts with header and token of a reply answers the message. -/
theorem Replying.answers (h : Replying i o) (rest : List UInt8) :
    let d : Datagram := ⟨o.saddr, o.header.bytes ++
      readBytes o.packetBytes.byte 4 o.header.tokenLen ++ rest⟩
    d.Answers i ∧ headerCode d.memory = o.header.code % 256 := by
  intro d
  -- the four bytes of the header, one by one
  have h0 : d.memory 0 = UInt8.ofNat (o.header.version * 64 + o.header.tt * 16 + o.header.tokenLen) :=
    rfl
  have h1 : d.memory 1 = UInt8.ofNat o.header.code := rfl
  have h2 : d.memory 2 = UInt8.ofNat (o.header.msgId % 256) := rfl
  have h3 : d.memory 3 = UInt8.ofNat (o.header.msgId / 256) := rfl
  have htkl : headerTokenLen i.bytes < 16 := Nat.mod_lt _ (by decide)
  have hid : headerMsgId i.bytes < 65536 := by
    have := (i.bytes 2).toNat_lt
    have := (i.bytes 3).toNat_lt
    unfold headerMsgId
    omega
  -- the version and the token length are in the first one
  have hfirst : (d.memory 0).toNat = 96 + headerTokenLen i.bytes := by
    rw [h0, h.version_eq, h.tt_eq, h.tokenLen_eq, UInt8.toNat_ofNat']
    unfold coapVersion coapTransTypeAck
    omega
  -- and the rest of the bytes are those that were composed
  have hread : readBytes d.memory 0 d.bytes.length =
      o.header.bytes ++ (readBytes o.packetBytes.byte 4 o.header.tokenLen ++ rest) := by
    rw [Datagram.memory, readBytes_ofList, ← List.append_assoc]
  refine ⟨⟨h.saddr_eq, ?_, ?_, ?_, ?_⟩, ?_⟩
  · rw [headerTt, hfirst]
    unfold coapTransTypeAck
    omega
  · rw [headerMsgId, h2, h3, h.msgId_eq, UInt8.toNat_ofNat', UInt8.toNat_ofNat']
    omega
  · rw [headerTokenLen, hfirst]
    omega
  · have htail := (readBytes_eq_append hread).2
    have htoken := (readBytes_eq_append htail).1
    rw [length_readBytes, h.tokenLen_eq, h.token_eq] at htoken
    exact htoken
  · rw [headerCode, h1, UInt8.toNat_ofNat']

/-- What the send hook gives to the socket. -/
theorem sendHook_sent {s : Instance}
    (hfamily : (outboundGetContentPtr s.autoOptions s.outbound).saddr.family ≠ 0) :
    (smcpOutboundSendHook s).1.sent = s.sent ++
      [⟨(outboundGetContentPtr s.autoOptions s.outbound).saddr,
        (outboundGetContentPtr s.autoOptions s.outbound).bytes
          (outboundGetContentPtr s.autoOptions s.outbound).sendLength⟩] := by
  unfold smcpOutboundSendHook
  dsimp only [smcpOutboundGetContentPtr]
  rw [if_neg hfamily]
  split_ifs <;> rfl

theorem send_sent (s : Instance) :
    (smcpOutboundSend s).1.sent = (smcpOutboundSendHook (noteSentCode s)).1.sent := by
  unfold smcpOutboundSend
  dsimp only
  split_ifs <;> rfl

/-- Exactly one datagram is sent. -/
theorem Replying.send {s : Instance} (h : Replying i s.outbound) (hfamily : i.saddr.family ≠ 0) :
    ∃ d : Datagram, (smcpOutboundSend s).1.sent = s.sent ++ [d] ∧ d.Answers i ∧
      headerCode d.memory = s.outbound.header.code % 256 := by
  have hnote : (noteSentCode s).outbound = s.outbound ∧ (noteSentCode s).sent = s.sent := by
    unfold noteSentCode
    split <;> exact ⟨rfl, rfl⟩
  obtain ⟨opts, hc⟩ := h.composed
  obtain ⟨opts', hc', hptr', he⟩ := getContentPtr_extends hc (noteSentCode s).autoOptions
  have hptr := h.ptr_le
  unfold smcpMaxPacketLength at hptr hptr'
  obtain ⟨rest, hbytes⟩ := hc'.bytes_eq (by omega)
  have htoken : readBytes (outboundGetContentPtr (noteSentCode s).autoOptions
      s.outbound).packetBytes.byte 4 s.outbound.header.tokenLen =
      readBytes s.outbound.packetBytes.byte 4 s.outbound.header.tokenLen :=
    readBytes_congr fun j _ hj => he.token_eq j hj
  rw [he.header_eq, htoken] at hbytes
  obtain ⟨hanswers, hcode⟩ := h.answers rest
  refine ⟨_, ?_, hanswers, hcode⟩
  rw [send_sent, sendHook_sent, hnote.1, hnote.2, he.saddr_eq, hbytes]
  rw [hnote.1, he.saddr_eq, h.saddr_eq]
  exact hfamily

/-! ## Beginning a reply -/

/-- The token of a response is that of the request. -/
theorem token_of_response {s : Instance} {code : ℕ} {packet : ℕ → UInt8}
    (hpacket : s.inbound.packet = some packet) (hprocessing : s.isProcessingMessage = true)
    (hcode : coapResult100 ≤ code) :
    smcpOutboundToken s code = readBytes s.inbound.bytes 4 (headerTokenLen s.inbound.bytes) := by
  have h0 : code ≠ 0 := by
    unfold coapResult100 httpToCoapCode at hcode
    omega
  have hbytes : s.inbound.bytes = packet := by rw [Inbound.bytes, hpacket]; rfl
  unfold smcpOutboundToken
  rw [hpacket, hbytes]
  dsimp only
  by_cases hlen : headerTokenLen packet = 0
  · rw [if_neg (by simp [hlen]), hlen, smcpOutboundToken.requestToken]
    split
    · rw [if_neg (by omega)]
      rfl
    · rfl
  · rw [if_pos ⟨hprocessing, hlen, h0⟩]

theorem setDestaddr_outbound (s : Instance) (sockaddr : SockAddr) :
    (smcpOutboundSetDestaddr s sockaddr).outbound = { s.outbound with saddr := sockaddr } := by
  unfold smcpOutboundSetDestaddr
  dsimp only
  split <;> rfl

/-- The message that `smcp_outbound_begin_response` begins. -/
theorem beginResponse_outbound {s : Instance} {code : ℕ} (hprocessing : s.isProcessingMessage = true)
    (hdid : s.didRespond = false) (hresponding : s.isResponding = false) :
    (smcpOutboundBeginResponse s code).1.outbound =
      { (smcpOutboundBegin { s with outbound.nextTid := smcpInboundGetMsgId s } code
          (responseTt s)).1.outbound with
        header.msgId := smcpInboundGetMsgId s % 65536
        saddr := s.inbound.saddr } := by
  have hstart : startResponse s code =
      { (smcpOutboundBegin { s with outbound.nextTid := smcpInboundGetMsgId s } code
          (responseTt s)).1 with isResponding := true } := by
    rw [startResponse, if_pos hprocessing]
    rfl
  unfold smcpOutboundBeginResponse
  rw [if_neg (by simp [hdid]), if_neg (by simp [hresponding]), if_pos hprocessing, hstart]
  exact setDestaddr_outbound _ _

theorem headerMsgId_lt (m : ℕ → UInt8) : headerMsgId m < 65536 := by
  have h2 := (m 2).toNat_lt
  have h3 := (m 3).toNat_lt
  unfold headerMsgId
  omega

/-- `smcp_outbound_begin_response` for a confirmable message, with a response code. -/
theorem replying_beginResponse {s : Instance} {code : ℕ} (hpacket : s.inbound.packet.isSome)
    (hprocessing : s.isProcessingMessage = true) (hdid : s.didRespond = false)
    (hresponding : s.isResponding = false)
    (htt : headerTt s.inbound.bytes = coapTransTypeConfirmable) (hcode : coapResult100 ≤ code) :
    Replying s.inbound (smcpOutboundBeginResponse s code).1.outbound ∧
      (smcpOutboundBeginResponse s code).1.outbound.contentLen = 0 := by
  obtain ⟨packet, hp⟩ := Option.isSome_iff_exists.1 hpacket
  set u : Instance := { s with outbound.nextTid := smcpInboundGetMsgId s } with hu
  set b := (smcpOutboundBegin u code coapTransTypeAck).1 with hb
  have htoken : smcpOutboundToken u code =
      readBytes s.inbound.bytes 4 (headerTokenLen s.inbound.bytes) :=
    token_of_response (s := u) hp hprocessing hcode
  have hlen : (smcpOutboundToken u code).length = headerTokenLen s.inbound.bytes := by
    rw [htoken, length_readBytes]
  have hid : headerMsgId s.inbound.bytes % 65536 = headerMsgId s.inbound.bytes :=
    Nat.mod_eq_of_lt (headerMsgId_lt _)
  -- the message that is begun, with its id and address
  have hout : (smcpOutboundBeginResponse s code).1.outbound =
      { b.outbound with
        header.msgId := headerMsgId s.inbound.bytes % 65536, saddr := s.inbound.saddr } := by
    have hreply : responseTt s = coapTransTypeAck := by
      rw [responseTt, htt]
      rfl
    rw [beginResponse_outbound hprocessing hdid hresponding, hreply]
    rfl
  obtain ⟨⟨opts, hc⟩, hw⟩ := composing_begin (s := u) (Or.inr rfl) code coapTransTypeAck
  have hbound := hw.bounded
  rw [Bounded, hc.max_eq] at hbound
  rw [hout, hid]
  refine ⟨⟨⟨opts, hc.ordered, hc.read, hc.start_lt, hc.marker, hc.lastKey_eq, hc.max_eq⟩, ?_, rfl,
    rfl, rfl, rfl, ?_, ?_⟩, rfl⟩
  · exact (Nat.le_add_right _ _).trans hbound
  · exact hlen
  · have hcopy := Buffer.readBytes_copy u.outbound.packetBytes 4 (smcpOutboundToken u code)
    rw [hlen] at hcopy
    refine Eq.trans ?_ (hcopy.trans htoken)
    refine readBytes_congr fun j _ hj => Buffer.store_of_ne _ _ ?_
    change j ≠ 4 + (smcpOutboundToken u code).length
    omega

end

end Smcp
