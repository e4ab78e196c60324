import Smcp.Instance

/-!
# Composing and sending messages

`smcp-outbound.c` and the send hook of `smcp-plat-bsd.c`.

A `value`/`len` pair of arguments is the list of the bytes it denotes: the first `len` bytes at
`value`, or the whole C string when `len` is `SMCP_CSTR_LEN`. Either way the callee keeps the
number of bytes in a `coap_size_t`.
-/

namespace Smcp

open ByteMemory

/-! ## Numbers as option values -/

/-- The bytes of a 32-bit number in network order. -/
def htonl (value : ℕ) : List UInt8 :=
  [UInt8.ofNat (value / 16777216 % 256), UInt8.ofNat (value / 65536 % 256),
    UInt8.ofNat (value / 256 % 256), UInt8.ofNat (value % 256)]

/-- `smcp_calc_uint32_option_size`. -/
def smcpCalcUint32OptionSize (bigEndianValue : List UInt8) : ℕ :=
  if bigEndianValue.getD 0 0 ≠ 0 then 4
  else if bigEndianValue.getD 1 0 ≠ 0 then 3
  else if bigEndianValue.getD 2 0 ≠ 0 then 2
  else if bigEndianValue.getD 3 0 ≠ 0 then 1
  else 0

/-- The last `smcp_calc_uint32_option_size` bytes of a number in network order. -/
def uintOptionValue (value : ℕ) : List UInt8 :=
  (htonl value).drop (4 - smcpCalcUint32OptionSize (htonl value))

/-! ## The composition state -/

/-- Where the options start: behind the header and the token. -/
def Outbound.optionsStart (o : Outbound) : ℕ := 4 + o.header.tokenLen

/-- Write the start-of-content marker and step over it. -/
def Outbound.putMarker (o : Outbound) : Outbound :=
  { o with packetBytes := o.packetBytes.store o.contentPtr 0xFF, contentPtr := o.contentPtr + 1 }

/-- `smcp_outbound_drop`. -/
def smcpOutboundDrop (s : Instance) : Instance :=
  { s with isResponding := false, didRespond := true }

/-- `smcp_outbound_reset`. -/
def smcpOutboundReset (s : Instance) : Instance :=
  { s with
    outbound := { packetBytes := ⟨fun _ => 0, s.outbound.packetBytes.top⟩ }
    isResponding := false
    didRespond := false }

/-- The two bytes of a transaction's token, as a little-endian host stores them. -/
def tokenBytes (token : ℕ) : List UInt8 := [UInt8.ofNat (token % 256), UInt8.ofNat (token / 256)]

/-- The token that `smcp_outbound_begin` chooses: of the message being answered, of the current
transaction for a request, or none. -/
def smcpOutboundToken (s : Instance) (code : ℕ) : List UInt8 :=
  match s.inbound.packet with
  | some packet =>
    if s.isProcessingMessage ∧ headerTokenLen packet ≠ 0 ∧ code ≠ 0 then
      readBytes packet 4 (headerTokenLen packet)
    else requestToken
  | none => requestToken
where
  requestToken : List UInt8 :=
    match s.currentTransaction with
    | some h => if code ≠ 0 ∧ code < coapResult100 then tokenBytes (s.store.token h) else []
    | none => []

/-- `smcp_outbound_begin`. The code has eight bits in the header, the type two. -/
def smcpOutboundBegin (s : Instance) (code tt : ℕ) : Instance × ℤ :=
  let token := smcpOutboundToken s code
  let header : CoapHeader :=
    { version := coapVersion, tt := tt % 4, tokenLen := token.length, code := code % 256
      msgId := s.outbound.nextTid }
  let outbound : Outbound :=
    { s.outbound with
      header := header
      packetBytes := s.outbound.packetBytes.copy 4 token
      maxPacketLen := smcpMaxPacketLength
      saddr := default
      lastOptionKey := 0
      contentPtr := 4 + token.length
      contentLen := 0 }
  ({ s with
      outbound := outbound.putMarker
      forceCurrentOutboundCode := false
      isResponding := false }, smcpStatusOk)

/-- `smcp_outbound_set_msg_id`. -/
def smcpOutboundSetMsgId (s : Instance) (tid : ℕ) : Instance :=
  { s with outbound.header.msgId := tid % 65536 }

/-- `smcp_outbound_set_code`. -/
def smcpOutboundSetCode (s : Instance) (code : ℕ) : Instance :=
  if s.forceCurrentOutboundCode then s else { s with outbound.header.code := code % 256 }

/-- Assign the type of the outbound packet. -/
def smcpOutboundSetTt (s : Instance) (tt : ℕ) : Instance :=
  { s with outbound.header.tt := tt % 4 }

/-- `smcp_outbound_set_token`. A token of another length discards the options and the content. -/
def smcpOutboundSetToken (s : Instance) (token : List UInt8) : Instance × ℤ :=
  if token.length ≤ 8 then
    let o := s.outbound
    let o : Outbound :=
      if o.header.tokenLen ≠ token.length then
        Outbound.putMarker
          { o with
            header.tokenLen := token.length
            contentPtr := 4 + token.length
            contentLen := 0 }
      else o
    ({ s with outbound := { o with packetBytes := o.packetBytes.copy 4 token } }, smcpStatusOk)
  else (s, smcpStatusInvalidArgument)

/-- `smcp_outbound_set_destaddr`. -/
def smcpOutboundSetDestaddr (s : Instance) (sockaddr : SockAddr) : Instance :=
  let s := { s with outbound.saddr := sockaddr }
  match s.currentTransaction with
  | some h => s.setTransaction h fun t =>
    { t with saddr := sockaddr, multicast := smcpIsAddrMulticast sockaddr.addr }
  | none => s

/-- `smcp_inbound_get_msg_id`. -/
def smcpInboundGetMsgId (s : Instance) : ℕ := headerMsgId s.inbound.bytes

/-- The type of a response to the message in `inbound`. -/
def responseTt (s : Instance) : ℕ :=
  if headerTt s.inbound.bytes = coapTransTypeNonconfirmable then coapTransTypeNonconfirmable
  else coapTransTypeAck

/-- The response that `smcp_outbound_begin_response` begins, before it is addressed. -/
def startResponse (s : Instance) (code : ℕ) : Instance :=
  let s := if s.isProcessingMessage then { s with outbound.nextTid := smcpInboundGetMsgId s } else s
  { (smcpOutboundBegin s code (responseTt s)).1 with isResponding := true }

/-- `smcp_outbound_begin_response`. -/
def smcpOutboundBeginResponse (s : Instance) (code : ℕ) : Instance × ℤ :=
  if s.didRespond then
    ({ s with isResponding := false }, smcpStatusResponseNotAllowed)
  else if s.isResponding then (s, smcpStatusOk)
  else if s.isProcessingMessage then
    let response := smcpOutboundSetMsgId (startResponse s code) (smcpInboundGetMsgId s)
    (smcpOutboundSetDestaddr response s.inbound.saddr, smcpStatusOk)
  else (startResponse s code, smcpStatusOk)

section
variable (s : Instance) (code : ℕ) (sockaddr : SockAddr)

@[simp] theorem setDestaddr_header :
    (smcpOutboundSetDestaddr s sockaddr).outbound.header = s.outbound.header := by
  unfold smcpOutboundSetDestaddr
  dsimp only
  split <;> rfl

@[simp] theorem setDestaddr_currentTransaction :
    (smcpOutboundSetDestaddr s sockaddr).currentTransaction = s.currentTransaction := by
  unfold smcpOutboundSetDestaddr
  dsimp only
  split <;> rfl

@[simp] theorem startResponse_code : (startResponse s code).outbound.header.code = code % 256 := rfl

@[simp] theorem startResponse_currentTransaction :
    (startResponse s code).currentTransaction = s.currentTransaction := by
  unfold startResponse
  split_ifs <;> rfl

variable {s}

/-- A response that is begun has its code, and belongs to the current transaction. -/
theorem beginResponse_code (hdid : s.didRespond = false) (hresponding : s.isResponding = false) :
    (smcpOutboundBeginResponse s code).1.outbound.header.code = code % 256 ∧
      (smcpOutboundBeginResponse s code).1.currentTransaction = s.currentTransaction := by
  unfold smcpOutboundBeginResponse
  simp only [hdid, hresponding, Bool.false_eq_true, if_false]
  split_ifs
  · simp [smcpOutboundSetMsgId]
  · simp

end

/-! ## Options -/

/-- `smcp_outbound_get_space_remaining`. -/
def Outbound.spaceRemaining (o : Outbound) : ℕ :=
  let len := word16 (word16 o.contentPtr + o.contentLen)
  if o.maxPacketLen > len then o.maxPacketLen - len else 0

/-- `smcp_outbound_add_option_`. -/
def smcpOutboundAddOption_ (o : Outbound) (key : ℕ) (value : List UInt8) : Outbound × ℤ :=
  let len := word16 value.length
  if o.spaceRemaining < len + 8 then (o, smcpStatusMessageTooBig)
  else
    -- remove the end-of-options marker
    let contentPtr := if o.contentPtr ≠ o.optionsStart then o.contentPtr - 1 else o.contentPtr
    let inserted :=
      coapInsertOption o.packetBytes o.optionsStart contentPtr key (value.take len) len
    let o : Outbound :=
      { o with
        packetBytes := inserted.1
        contentPtr := contentPtr + inserted.2
        lastOptionKey := if key > o.lastOptionKey then key else o.lastOptionKey }
    (o.putMarker, smcpStatusOk)

/-- The automatic options still to come, as the current transaction asks for them: the value of
`next_block2` and whether it observes. -/
structure AutoOptions where
  nextBlock2 : ℕ := 0
  observe : Bool := false

/-- What the current transaction adds to messages. -/
def Instance.autoOptions (s : Instance) : AutoOptions :=
  match s.currentTransaction with
  | none => {}
  | some h =>
    { nextBlock2 := (s.transaction h).nextBlock2
      observe := hasFlag (s.transaction h).flags smcpTransactionObserve }

/-- The Block2 part of `smcp_outbound_add_options_up_to_key_`. -/
def addAutoBlock2 (auto : AutoOptions) (o : Outbound) (key : ℕ) : Outbound × ℤ :=
  if auto.nextBlock2 ≠ 0 ∧ o.lastOptionKey < coapOptionBlock2 ∧ key > coapOptionBlock2 then
    smcpOutboundAddOption_ o coapOptionBlock2 (uintOptionValue auto.nextBlock2)
  else (o, smcpStatusOk)

/-- The Observe part, after the Block2 part returned `ret`. -/
def addAutoObserve (auto : AutoOptions) (o : Outbound) (key : ℕ) (ret : ℤ) : Outbound × ℤ :=
  if auto.observe ∧ o.lastOptionKey < coapOptionObserve ∧ key > coapOptionObserve ∧
      o.header.code ≠ 0 ∧ o.header.code < coapResult100 then
    smcpOutboundAddOption_ o coapOptionObserve []
  else (o, ret)

/-- `smcp_outbound_add_options_up_to_key_`. -/
def smcpOutboundAddOptionsUpToKey_ (auto : AutoOptions) (o : Outbound) (key : ℕ) : Outbound × ℤ :=
  let block2 := addAutoBlock2 auto o key
  addAutoObserve auto block2.1 key block2.2

/-- `smcp_outbound_add_option`, on the message. A Block2 option gives way to the automatic one. -/
def outboundAddOption (auto : AutoOptions) (o : Outbound) (key : ℕ) (value : List UInt8) :
    Outbound × ℤ :=
  let before := smcpOutboundAddOptionsUpToKey_ auto o key
  if before.2 ≠ smcpStatusOk then before
  else if key = coapOptionBlock2 ∧ auto.nextBlock2 ≠ 0 then before
  else smcpOutboundAddOption_ before.1 key value

/-- `smcp_outbound_add_option`. -/
def smcpOutboundAddOption (s : Instance) (key : ℕ) (value : List UInt8) : Instance × ℤ :=
  let r := outboundAddOption s.autoOptions s.outbound key value
  ({ s with outbound := r.1 }, r.2)

/-- `smcp_outbound_add_option_uint`. -/
def smcpOutboundAddOptionUint (s : Instance) (key value : ℕ) : Instance × ℤ :=
  smcpOutboundAddOption s key (uintOptionValue value)

/-! ## Content -/

/-- The effect of `smcp_outbound_get_content_ptr` on the message. -/
def outboundGetContentPtr (auto : AutoOptions) (o : Outbound) : Outbound :=
  if o.header.code ≠ 0 then (smcpOutboundAddOptionsUpToKey_ auto o coapOptionInvalid).1 else o

/-- `smcp_outbound_append_content`, on the message. -/
def outboundAppendContent (auto : AutoOptions) (o : Outbound) (value : List UInt8) :
    Outbound × ℤ :=
  let maxLen := o.spaceRemaining
  let len := word16 value.length
  if maxLen > len then
    let o := outboundGetContentPtr auto o
    ({ o with
        packetBytes := o.packetBytes.copy (o.contentPtr + o.contentLen) (value.take len)
        contentLen := word16 (o.contentLen + len) }, smcpStatusOk)
  else (o, smcpStatusMessageTooBig)

/-- `smcp_outbound_set_content_formatted`, on the message. `text` is what the format and its
arguments denote; `vsnprintf` writes what fits with a zero behind it and returns the length of
the whole. -/
def outboundSetContentFormatted (auto : AutoOptions) (o : Outbound) (text : List UInt8) :
    Outbound × ℤ :=
  let o := outboundGetContentPtr auto o
  let len := o.spaceRemaining
  let written := if len = 0 then [] else text.take (len - 1) ++ [0]
  let o : Outbound :=
    { o with packetBytes := o.packetBytes.copy (o.contentPtr + o.contentLen) written }
  let len := word16 text.length
  if len ≠ 0 then ({ o with contentLen := word16 (len + o.contentLen) }, smcpStatusOk)
  else (o, smcpStatusFailure)

/-- `smcp_outbound_get_content_ptr`. The pointer itself is `outbound.contentPtr`. -/
def smcpOutboundGetContentPtr (s : Instance) : Instance :=
  { s with outbound := outboundGetContentPtr s.autoOptions s.outbound }

/-- `smcp_outbound_append_content`. -/
def smcpOutboundAppendContent (s : Instance) (value : List UInt8) : Instance × ℤ :=
  let r := outboundAppendContent s.autoOptions s.outbound value
  ({ s with outbound := r.1 }, r.2)

/-- `smcp_outbound_set_content_formatted`. -/
def smcpOutboundSetContentFormatted (s : Instance) (text : List UInt8) : Instance × ℤ :=
  let r := outboundSetContentFormatted s.autoOptions s.outbound text
  ({ s with outbound := r.1 }, r.2)

/-- `smcp_outbound_set_content_len`. -/
def smcpOutboundSetContentLen (s : Instance) (len : ℕ) : Instance :=
  { s with outbound.contentLen := len % 65536 }

/-- The decimal digits of a number, as `printf` writes them. -/
def decimalBytes (v : ℤ) : List UInt8 :=
  (if v < 0 then [0x2D] else []) ++ (Nat.toDigits 10 v.natAbs).map fun c => UInt8.ofNat c.toNat

/-- `smcp_outbound_set_var_content_int`. -/
def smcpOutboundSetVarContentInt (s : Instance) (v : ℤ) : Instance × ℤ :=
  smcpOutboundSetContentFormatted (smcpOutboundAddOptionUint s coapOptionContentType 65005).1
    ([0x76, 0x3D] ++ decimalBytes v)

/-! ## Sending -/

/-- The number of bytes that the send hook takes from the packet: without the marker when there
is no content. -/
def Outbound.sendLength (o : Outbound) : ℕ :=
  let headerLen := word16 o.contentPtr
  (if o.contentLen = 0 then headerLen - 1 else headerLen) + o.contentLen

/-- `smcp_outbound_send_hook`: the rest of the automatic options, then `sendto`. -/
def smcpOutboundSendHook (s : Instance) : Instance × ℤ :=
  let s := smcpOutboundGetContentPtr s
  let o := s.outbound
  if o.saddr.family = 0 then (s, smcpStatusFailure)
  else
    let sentBytes := s.sendResult s.sent.length
    let s := { s with sent := s.sent ++ [⟨o.saddr, o.bytes o.sendLength⟩] }
    if sentBytes < 0 then (s, smcpStatusErrno)
    else if sentBytes = 0 then (s, smcpStatusFailure)
    else (s, smcpStatusOk)

/-- The current transaction remembers the code it sends. -/
def noteSentCode (s : Instance) : Instance :=
  match s.currentTransaction with
  | some h => s.setTransaction h fun t => { t with sentCode := s.outbound.header.code }
  | none => s

/-- `smcp_outbound_send`. -/
def smcpOutboundSend (s : Instance) : Instance × ℤ :=
  let hook := smcpOutboundSendHook (noteSentCode s)
  if hook.2 ≠ smcpStatusOk then hook
  else
    ({ hook.1 with
        didRespond := hook.1.didRespond || hook.1.isResponding
        isResponding := false }, smcpStatusOk)

/-- Sending does to transactions what `noteSentCode` does. -/
theorem send_transaction (s : Instance) :
    (smcpOutboundSend s).1.transaction = (noteSentCode s).transaction := by
  have hhook : (smcpOutboundSendHook (noteSentCode s)).1.transaction =
      (noteSentCode s).transaction := by
    unfold smcpOutboundSendHook
    dsimp only
    split_ifs <;> rfl
  unfold smcpOutboundSend
  dsimp only
  split_ifs <;> exact hhook

/-- `smcp_outbound_quick_response`. -/
def smcpOutboundQuickResponse (s : Instance) (code : ℕ) (body : Option (List UInt8)) :
    Instance × ℤ :=
  let s := (smcpOutboundBeginResponse s code).1
  match body with
  | some body => smcpOutboundSend (smcpOutboundAppendContent s body).1
  | none => smcpOutboundSend s

end Smcp
