import Smcp.Cgi.Node
import Smcp.Outbound.Response

/-!
# The responses of a CGI node

The block that a CGI node sends, and a client that fetches the blocks.

* `Replies.sendOutput`: the datagram with the block;
* `BlockClient.receive`: what the client makes of a datagram;
* `receive_block`: it takes the block and the M bit from it.
-/

namespace Smcp

open ByteMemory OptionFormat

section
variable {s : Instance} {m : Message}

/-- The block is sent behind Block2, if that is given. -/
theorem Replies.sendOutput (h : Replies s m) (hopts : m.options = []) (hcontent : m.content = [])
    (block2 : Option ℕ) {l : List UInt8} (hspace : l.length + 12 < s.outbound.spaceRemaining) :
    (sendOutput s block2 l).2 = smcpStatusOk ∧
      (sendOutput s block2 l).1.sent = s.sent ++ [⟨m.dest,
        { m with
          options := (block2.map fun v => (coapOptionBlock2, uintOptionValue v)).toList
          content := l }.wire⟩] := by
  -- the content goes behind the option, if there is one
  have hfill {s' : Instance} {m' : Message} (h' : Replies s' m') (hcontent' : m'.content = [])
      (hroom : l.length < s'.outbound.spaceRemaining) (hsent : s'.sent = s.sent) :
      (smcpOutboundSend (smcpOutboundSetContentLen (Smcp.fillContent s' l) l.length)).2 =
          smcpStatusOk ∧
        (smcpOutboundSend (smcpOutboundSetContentLen (Smcp.fillContent s' l) l.length)).1.sent =
          s.sent ++ [⟨m'.dest, { m' with content := l }.wire⟩] := by
    obtain ⟨hfilled, hkeep⟩ := h'.fillContent hcontent' hroom
    obtain ⟨hok, hsend⟩ := hfilled.send
    rw [hkeep, hsent] at hsend
    exact ⟨hok, hsend⟩
  unfold Smcp.sendOutput
  cases block2 with
  | none =>
    have hnone := hfill h hcontent (by omega) rfl
    obtain ⟨header, token, dest, options, content⟩ := m
    obtain rfl : options = [] := hopts
    exact hnone
  | some v =>
    obtain ⟨hok, hsent, hleft, hadd⟩ := h.addOptionUint hcontent
      (show coapOptionBlock2 ≤ coapOptionInvalid by decide) v (by omega)
    have hsome := hfill hadd hcontent (by omega) hsent
    dsimp only
    rw [if_neg (by simp [hok])]
    rw [hopts] at hsome
    exact hsome

end

/-! ## The client -/

/-- Where the client is with the block it fetches. -/
inductive BlockPhase where
  /-- It can ask for the block. -/
  | ready
  /-- It has asked for it. -/
  | waiting
  /-- It has received it in a message of its own, and has to acknowledge that. -/
  | acknowledging (last : Bool)
  /-- It has received the last block. -/
  | done
deriving DecidableEq

/-- A client that fetches the blocks of a response one after the other. -/
structure BlockClient where
  number : ℕ := 0
  phase : BlockPhase := .ready
  content : List UInt8 := []

/-- The response is the last one: it has no Block2 option, or one with the M bit clear. -/
def isLastBlock (options : List (ℕ × List UInt8)) : Bool :=
  match options.find? fun o => o.1 = coapOptionBlock2 with
  | some o => !(decodeUint o.2).testBit 3
  | none => true

/-- The next request, if there is one. -/
def BlockClient.next (c : BlockClient) (last : Bool) : BlockClient :=
  if last then { c with phase := .done } else { c with phase := .ready, number := c.number + 1 }

/-- A datagram comes. A `2.05` response with the token is what the client waits for; it need not be
acknowledged when it is an acknowledgement itself. -/
def BlockClient.receive (token : List UInt8) (c : BlockClient) (d : Datagram) : BlockClient :=
  if c.phase = .waiting ∧ headerCode d.memory = httpToCoapCode 205 ∧
      readBytes d.memory 4 (headerTokenLen d.memory) = token then
    let r := (smcpInboundStartPacket (smcpCreate default (fun _ => 0) fun _ => 0) d.memory
      d.bytes.length).1.inbound.scan
    let last := isLastBlock r.2
    let c := { c with content := c.content ++ readBytes r.1.bytes r.1.contentPtr r.1.contentLen }
    if headerTt d.memory = coapTransTypeAck then c.next last
    else { c with phase := .acknowledging last }
  else c

/-- A message with a block. -/
def blockMessage (m : Message) (block2 : Option ℕ) (content : List UInt8) : Message :=
  { m with
    options := (block2.map fun v => (coapOptionBlock2, uintOptionValue v)).toList
    content := content }

/-- The block is the last one. -/
def lastBit (block2 : Option ℕ) : Bool := block2.all fun v => !v.testBit 3

section
variable {m : Message} {block2 : Option ℕ} {content : List UInt8}

/-- A message with a block of at most 512 bytes is valid. -/
theorem blockMessage_valid (hversion : m.header.version = coapVersion) (htt : m.header.tt < 4)
    (hpos : 0 < m.header.code) (hcode : m.header.code < 256) (hid : m.header.msgId < 65536)
    (hlen : m.header.tokenLen = m.token.length) (htoken : m.token.length ≤ 8)
    (hcontent : content.length ≤ 512) : (blockMessage m block2 content).Valid := by
  -- the value of the option has at most four bytes
  have hoption (v : ℕ) := length_uintOptionValue_le v
  have hopts : Ordered coapOptionInvalid coapMaxOptionValueSize 0
        (blockMessage m block2 content).options ∧
      (encode 0 (blockMessage m block2 content).options).length ≤ 10 := by
    unfold blockMessage
    cases block2 with
    | none => exact ⟨trivial, by simp [encode]⟩
    | some v =>
      have hv := hoption v
      refine ⟨⟨Nat.zero_le _, by decide, ?_, trivial⟩, ?_⟩
      · unfold coapMaxOptionValueSize
        omega
      · have hlen := length_optionBytes_short (d := coapOptionBlock2 - 0)
          (v := uintOptionValue v) (by decide) (by omega)
        simp only [Option.map_some, Option.toList_some, encode, List.append_nil]
        rw [hlen]
        split_ifs <;> omega
  -- header, token, options and content are shorter than a packet
  refine ⟨hversion, htt, hpos, hcode, hid, hlen, htoken, hopts.1, ?_⟩
  have htail : (contentTail content).length ≤ 513 := by
    unfold contentTail
    split_ifs
    · simp
    · simp only [List.length_cons]
      omega
  have hhead : m.header.bytes.length = 4 := rfl
  show (m.header.bytes ++ m.token ++ encode 0 (blockMessage m block2 content).options ++
    contentTail content).length ≤ coapMaxMessageSize
  simp only [List.length_append, hhead, coapMaxMessageSize]
  omega

/-- The client takes the block. -/
theorem receive_block (hvalid : (blockMessage m block2 content).Valid)
    (hcode : m.header.code = httpToCoapCode 205) (hblock2 : ∀ v ∈ block2, v < 4294967296)
    {c : BlockClient} (hphase : c.phase = .waiting) (dest : SockAddr) :
    c.receive m.token ⟨dest, (blockMessage m block2 content).wire⟩ =
      let c := { c with content := c.content ++ content }
      if m.header.tt = coapTransTypeAck then c.next (lastBit block2)
      else { c with phase := .acknowledging (lastBit block2) } := by
  -- the keys of the options are below the end mark
  have hkeys : ∀ o ∈ (blockMessage m block2 content).options, o.1 ≠ coapOptionInvalid := by
    intro o ho
    cases block2 with
    | none => simp [blockMessage] at ho
    | some v =>
      obtain rfl : o = (coapOptionBlock2, uintOptionValue v) := by simpa [blockMessage] using ho
      show coapOptionBlock2 ≠ coapOptionInvalid
      decide
  have hlast : isLastBlock (blockMessage m block2 content).options = lastBit block2 := by
    cases block2 with
    | none => rfl
    | some v => simp [isLastBlock, blockMessage, lastBit, decodeUint_uintOptionValue (hblock2 v rfl)]
  set d : Datagram := ⟨dest, (blockMessage m block2 content).wire⟩ with hd
  -- the header and the options of what has arrived
  obtain ⟨-, htt, htl, hc, -, htok⟩ := hvalid.header_read
    (readBytes_ofList (blockMessage m block2 content).wire fun _ => 0)
  obtain ⟨-, hoptions, hcontent⟩ := hvalid.parsed hkeys
    (smcpCreate default (fun _ => 0) fun _ => 0) fun _ => 0
  have htt' : headerTt d.memory = m.header.tt := htt
  have htl' : headerTokenLen d.memory = m.token.length := htl
  have hc' : headerCode d.memory = httpToCoapCode 205 := hc.trans hcode
  have htok' : readBytes d.memory 4 m.token.length = m.token := htok
  unfold BlockClient.receive
  rw [if_pos ⟨hphase, hc', by rw [htl', htok']⟩, htt']
  dsimp only
  set r := (smcpInboundStartPacket (smcpCreate default (fun _ => 0) fun _ => 0) d.memory
    d.bytes.length).1.inbound.scan with hr
  have hoptions' : r.2 = (blockMessage m block2 content).options := hoptions
  have hcontent' : readBytes r.1.bytes r.1.contentPtr r.1.contentLen = content := hcontent
  rw [hoptions', hlast, hcontent']

end

end Smcp
