import Mathlib.Tactic.IntervalCases
import Smcp.Inbound.Parse
import Smcp.Outbound.Options

/-!
# What is sent is what is received

A message composed without a current transaction, and the same message as the receiver's parser
sees it. `Message` is what a message says; `Message.wire` are its bytes.

* `sent_wire`: composing a message call by call and sending it sends its wire bytes;
* `wire_verified`, `wire_scan`: these are accepted, and parsed to the same message.
-/

namespace Smcp

open ByteMemory OptionFormat

/-! ## Numbers as option values -/

/-- What `coap_decode_uint32` computes from the bytes it reads. -/
def decodeUint (l : List UInt8) : ℕ := l.foldl (fun ret b => (ret * 256 + b.toNat) % 4294967296) 0

/-- A number is as great as its bytes allow. -/
theorem decodeUint_lt (l : List UInt8) : decodeUint l < 256 ^ l.length := by
  induction l using List.reverseRecOn with
  | nil => simp [decodeUint]
  | append_singleton l b ih =>
    have hb := toNat_lt_256 b
    have hle : (decodeUint l * 256 + b.toNat) % 4294967296 ≤ decodeUint l * 256 + b.toNat :=
      Nat.mod_le _ _
    have hsnoc : decodeUint (l ++ [b]) = (decodeUint l * 256 + b.toNat) % 4294967296 := by
      simp [decodeUint]
    rw [hsnoc, List.length_append, List.length_singleton, pow_succ]
    omega

/-- The size of an option value, by the first byte of the number that is not zero. -/
theorem smcpCalcUint32OptionSize_htonl (n : ℕ) :
    smcpCalcUint32OptionSize (htonl n) =
      if n / 16777216 % 256 ≠ 0 then 4
      else if n / 65536 % 256 ≠ 0 then 3
      else if n / 256 % 256 ≠ 0 then 2
      else if n % 256 ≠ 0 then 1
      else 0 := by
  have hz {k : ℕ} : UInt8.ofNat (k % 256) = 0 ↔ k % 256 = 0 := by
    rw [← UInt8.toNat_inj]
    simp
  simp only [smcpCalcUint32OptionSize, htonl, List.getD_cons_zero, List.getD_cons_succ, ne_eq, hz]

/-- An option value made from a number decodes to the number. -/
theorem decodeUint_uintOptionValue {n : ℕ} (h : n < 4294967296) :
    decodeUint (uintOptionValue n) = n := by
  have h3 : (UInt8.ofNat (n / 16777216 % 256)).toNat = n / 16777216 % 256 := by simp
  have h2 : (UInt8.ofNat (n / 65536 % 256)).toNat = n / 65536 % 256 := by simp
  have h1 : (UInt8.ofNat (n / 256 % 256)).toNat = n / 256 % 256 := by simp
  have h0 : (UInt8.ofNat (n % 256)).toNat = n % 256 := by simp
  rw [uintOptionValue, smcpCalcUint32OptionSize_htonl, htonl]
  split_ifs <;>
    simp only [Nat.sub_self, List.drop_zero, List.drop_succ_cons, Nat.reduceSub, decodeUint,
      List.foldl_cons, List.foldl_nil, h3, h2, h1, h0, List.drop_nil] <;>
    omega

/-- Without its leading zeros: the number has no shorter form. -/
theorem length_uintOptionValue_minimal {n : ℕ} {l : List UInt8} (h : decodeUint l = n) :
    (uintOptionValue n).length ≤ l.length := by
  have hlt := decodeUint_lt l
  rw [h] at hlt
  have hlen : (uintOptionValue n).length = 4 - (4 - smcpCalcUint32OptionSize (htonl n)) := by
    simp [uintOptionValue, htonl]
  rw [hlen, smcpCalcUint32OptionSize_htonl]
  rcases Nat.lt_or_ge l.length 4 with hl | hl
  · generalize l.length = k at hlt hl
    interval_cases k <;> split_ifs <;> omega
  · omega

/-! ## Messages and their bytes -/

/-- What a message says, and where it goes. -/
structure Message where
  header : CoapHeader
  token : List UInt8
  dest : SockAddr
  options : List (ℕ × List UInt8)
  content : List UInt8

/-- What follows the options: nothing, or the marker and the content. -/
def contentTail (content : List UInt8) : List UInt8 := if content = [] then [] else 0xFF :: content

/-- The bytes of a message. -/
def Message.wire (m : Message) : List UInt8 :=
  m.header.bytes ++ m.token ++ encode 0 m.options ++ contentTail m.content

/-- The instance has composed the message, outside of any transaction. -/
structure Composes (s : Instance) (m : Message) : Prop where
  current : s.currentTransaction = none
  composed : Composed s.outbound m.options
  bounded : Bounded s.outbound
  header_eq : s.outbound.header = m.header
  token_len : m.header.tokenLen = m.token.length
  token_eq : readBytes s.outbound.packetBytes.byte 4 m.token.length = m.token
  dest_eq : s.outbound.saddr = m.dest
  content_len : s.outbound.contentLen = m.content.length
  content_eq : readBytes s.outbound.packetBytes.byte s.outbound.contentPtr m.content.length =
    m.content

section
variable {s : Instance} {m : Message}

/-- Without a current transaction no option comes by itself. -/
theorem Composes.autoOptions_eq (h : Composes s m) : s.autoOptions = {} := by
  rw [Instance.autoOptions, h.current]

/-- Without a transaction nothing is added automatically. -/
theorem getContentPtr_none (o : Outbound) : outboundGetContentPtr {} o = o := by
  simp [outboundGetContentPtr, smcpOutboundAddOptionsUpToKey_, addAutoBlock2, addAutoObserve]

/-- Then an option is just put behind the others. -/
theorem outboundAddOption_none (o : Outbound) (key : ℕ) (value : List UInt8) :
    outboundAddOption {} o key value = smcpOutboundAddOption_ o key value := by
  simp [outboundAddOption, smcpOutboundAddOptionsUpToKey_, addAutoBlock2, addAutoObserve]

/-- The packet up to the content: token, options, marker. -/
theorem Composes.read_head (h : Composes s m) :
    readBytes s.outbound.packetBytes.byte 4 (s.outbound.contentPtr - 4) =
      m.token ++ encode 0 m.options ++ [0xFF] := by
  have hread := h.composed.read
  have hlt := h.composed.start_lt
  have hmark := h.composed.marker
  rw [Outbound.optionsStart, h.header_eq, h.token_len] at hread hlt
  rw [show s.outbound.contentPtr - 4 =
      m.token.length + ((s.outbound.contentPtr - 1 - (4 + m.token.length)) + 1) by omega,
    readBytes_add, h.token_eq, readBytes_add, hread, List.append_assoc]
  rw [show 4 + m.token.length + (s.outbound.contentPtr - 1 - (4 + m.token.length)) =
    s.outbound.contentPtr - 1 by omega, readBytes, readBytes, hmark]

/-- The send hook takes the wire bytes from the packet. -/
theorem Composes.bytes_eq (h : Composes s m) :
    s.outbound.bytes s.outbound.sendLength = m.wire := by
  -- the header is in the first four bytes, the token behind it
  have hhead := h.read_head
  have hlt := h.composed.start_lt
  have hb := h.bounded
  have hmax := h.composed.max_eq
  have hcl := h.content_len
  have hhdr : m.header.bytes.length = 4 := rfl
  unfold Bounded at hb
  unfold smcpMaxPacketLength at hmax
  unfold Outbound.optionsStart at hlt
  -- the pointer to the content is inside the packet, so no length wraps
  have hword : word16 s.outbound.contentPtr = s.outbound.contentPtr := word16_of_lt (by omega)
  have hlen : s.outbound.sendLength = 4 + (s.outbound.sendLength - 4) := by
    simp only [Outbound.sendLength, hword]
    split_ifs <;> omega
  rw [Outbound.bytes, h.header_eq, List.take_of_length_le
    (by rw [List.length_append, length_readBytes, hhdr]; omega)]
  rw [Message.wire, List.append_assoc, List.append_assoc, List.append_cancel_left_eq, contentTail]
  by_cases hc : m.content = []
  · -- without content the marker stays behind
    have hzero : s.outbound.contentLen = 0 := by rw [hcl, hc, List.length_nil]
    have hsend : s.outbound.contentPtr - 4 = (s.outbound.sendLength - 4) + 1 := by
      simp only [Outbound.sendLength, hword, hzero, ↓reduceIte]
      omega
    rw [hsend, readBytes_add] at hhead
    rw [if_pos hc, List.append_nil]
    exact (List.append_inj' hhead (by simp)).1
  · have hne : s.outbound.contentLen ≠ 0 := by
      rw [hcl]
      exact fun h0 => hc (List.length_eq_zero_iff.1 h0)
    have hsend : s.outbound.sendLength - 4 = (s.outbound.contentPtr - 4) + m.content.length := by
      simp only [Outbound.sendLength, hword, hne, ↓reduceIte]
      omega
    rw [hsend, readBytes_add, hhead, show 4 + (s.outbound.contentPtr - 4) = s.outbound.contentPtr by
      omega, h.content_eq, if_neg hc]
    simp

/-- A composed message is sent as its wire bytes. -/
theorem Composes.send (h : Composes s m) (hdest : m.dest.family ≠ 0) :
    (smcpOutboundSend s).1.sent = s.sent ++ [⟨m.dest, m.wire⟩] := by
  have hnote : noteSentCode s = s := by rw [noteSentCode, h.current]
  have hget : smcpOutboundGetContentPtr s = s := by
    rw [smcpOutboundGetContentPtr, h.autoOptions_eq, getContentPtr_none]
  have hhook : (smcpOutboundSendHook s).1.sent = s.sent ++ [⟨m.dest, m.wire⟩] := by
    unfold smcpOutboundSendHook
    simp only [hget, h.dest_eq, hdest, ↓reduceIte, h.bytes_eq]
    split_ifs <;> rfl
  unfold smcpOutboundSend
  rw [hnote]
  simp only
  split_ifs
  · exact hhook
  · exact hhook

end

/-! ## Composing a message -/

/-- A call that adds an option. Lengths are `coap_size_t`, numbers `uint32_t`. -/
inductive OptionCall where
  | bytes (key : Fin 65535) (value : List UInt8) (hlen : value.length < 65536)
  | uint (key : Fin 65535) (value : Fin 4294967296)

/-- The option it adds. -/
def OptionCall.option : OptionCall → ℕ × List UInt8
  | .bytes key value _ => (key, value)
  | .uint key value => (key, uintOptionValue value)

def OptionCall.exec : OptionCall → Instance → Instance × ℤ
  | .bytes key value _, s => smcpOutboundAddOption s key value
  | .uint key value, s => smcpOutboundAddOptionUint s key value

/-- A piece of content; its length is a `coap_size_t`. -/
structure Piece where
  bytes : List UInt8
  hlen : bytes.length < 65536

/-- How a message is composed: the arguments of `smcp_outbound_begin`, the token if
`smcp_outbound_set_token` is called, the destination, then options, then content. -/
structure Composition where
  code : ℕ
  tt : ℕ
  token : Option (List UInt8)
  dest : SockAddr
  options : List OptionCall
  pieces : List Piece
  code_pos : 0 < code
  code_lt : code < 256
  tt_lt : tt < 4
  family_ne : dest.family ≠ 0

/-- Make the calls one after the other, as long as they return `SMCP_STATUS_OK`. -/
def allOk : List (Instance → Instance × ℤ) → Instance → Option Instance
  | [], s => some s
  | call :: calls, s => if (call s).2 = smcpStatusOk then allOk calls (call s).1 else none

namespace Composition

/-- The token of the message: the one that was set, or the one that `smcp_outbound_begin` chose. -/
def tokenIn (c : Composition) (s : Instance) : List UInt8 :=
  c.token.getD (smcpOutboundToken s c.code)

def calls (c : Composition) : List (Instance → Instance × ℤ) :=
  [fun s => smcpOutboundBegin s c.code c.tt] ++
    (c.token.map fun token s => smcpOutboundSetToken s token).toList ++
    [fun s => (smcpOutboundSetDestaddr s c.dest, smcpStatusOk)] ++
    c.options.map OptionCall.exec ++
    c.pieces.map fun piece s => smcpOutboundAppendContent s piece.bytes

/-- The message that the calls compose, starting from `s`. -/
def message (c : Composition) (s : Instance) : Message where
  header :=
    { version := coapVersion, tt := c.tt, tokenLen := (c.tokenIn s).length, code := c.code
      msgId := s.outbound.nextTid }
  token := c.tokenIn s
  dest := c.dest
  options := (c.options.map OptionCall.option).insertionSort fun x y => x.1 ≤ y.1
  content := (c.pieces.map Piece.bytes).flatten

end Composition

/-- All calls go well if the first ones do, and then the others. -/
theorem allOk_append {s s' : Instance} (calls rest : List (Instance → Instance × ℤ)) :
    allOk (calls ++ rest) s = some s' ↔ ∃ t, allOk calls s = some t ∧ allOk rest t = some s' := by
  induction calls generalizing s with
  | nil => simp [allOk]
  | cons call calls ih =>
    rw [List.cons_append, allOk, allOk]
    split_ifs
    · exact ih
    · simp

section
variable {s : Instance} {m : Message}

theorem tooBig_ne_ok : smcpStatusMessageTooBig ≠ smcpStatusOk := by decide

/-- One more option. -/
theorem Composes.addOption (h : Composes s m) (hcontent : m.content = []) {key : ℕ}
    {value : List UInt8} (hkey : key ≤ coapOptionInvalid) (hlen : value.length < 65536)
    (hok : (smcpOutboundAddOption s key value).2 = smcpStatusOk) :
    Composes (smcpOutboundAddOption s key value).1
      { m with options := insertByKey (key, value) m.options } := by
  unfold smcpOutboundAddOption at hok ⊢
  simp only [h.autoOptions_eq, outboundAddOption_none] at hok ⊢
  have hspace : word16 value.length + 8 ≤ s.outbound.spaceRemaining := by
    by_contra hno
    rw [addOption_tooBig hno] at hok
    exact absurd hok tooBig_ne_ok
  obtain ⟨-, hc, hb, he⟩ := addOption_spec h.composed h.bounded hkey hspace
  rw [word16_of_lt hlen, List.take_length] at hc
  refine ⟨h.current, hc, hb, he.header_eq.trans h.header_eq, h.token_len, ?_,
    he.saddr_eq.trans h.dest_eq, he.contentLen_eq.trans h.content_len, ?_⟩
  · rw [← h.token_eq, length_readBytes]
    refine readBytes_congr fun j hj hj' => he.token_eq j ?_
    rw [Outbound.optionsStart, h.header_eq, h.token_len]
    exact hj'
  · simp only [hcontent, List.length_nil, readBytes]

/-- Options are added one by one, each in its place. -/
theorem Composes.options (h : Composes s m) (hcontent : m.content = []) (calls : List OptionCall)
    {s' : Instance} (hok : allOk (calls.map OptionCall.exec) s = some s') :
    Composes s'
        { m with
          options := (calls.map OptionCall.option).foldl (fun l o => insertByKey o l) m.options } ∧
      s'.sent = s.sent := by
  induction calls generalizing s m with
  | nil =>
    simp only [List.map_nil, allOk, Option.some.injEq] at hok
    exact hok ▸ ⟨h, rfl⟩
  | cons call calls ih =>
    rw [List.map_cons, allOk] at hok
    split_ifs at hok with hone
    have hstep : Composes (call.exec s).1 { m with options := insertByKey call.option m.options } ∧
        (call.exec s).1.sent = s.sent := by
      cases call with
      | bytes key value hlen => exact ⟨h.addOption hcontent key.isLt.le hlen hone, rfl⟩
      | uint key value =>
        have hlen := length_uintOptionValue_le value
        exact ⟨h.addOption hcontent key.isLt.le (by omega) hone, rfl⟩
    obtain ⟨hrest, hsent⟩ := ih hstep.1 hcontent hok
    exact ⟨hrest, hsent.trans hstep.2⟩

/-- One more piece of content. -/
theorem Composes.appendContent (h : Composes s m) (piece : Piece)
    (hok : (smcpOutboundAppendContent s piece.bytes).2 = smcpStatusOk) :
    Composes (smcpOutboundAppendContent s piece.bytes).1
      { m with content := m.content ++ piece.bytes } := by
  unfold smcpOutboundAppendContent at hok ⊢
  simp only [h.autoOptions_eq, outboundAppendContent, getContentPtr_none] at hok ⊢
  -- the piece fits behind the content, or it is refused
  split_ifs at hok ⊢ with hspace
  · rw [word16_of_lt piece.hlen] at hspace
    rw [h.bounded.spaceRemaining_eq h.composed] at hspace
    have hmax := h.composed.max_eq
    have hcl := h.content_len
    unfold smcpMaxPacketLength at hmax
    simp only [word16_of_lt piece.hlen, List.take_length,
      word16_of_lt (show s.outbound.contentLen + piece.bytes.length < 65536 by omega)]
    have hlt := h.composed.start_lt
    rw [Outbound.optionsStart, h.header_eq, h.token_len] at hlt
    refine ⟨h.current, h.composed.copy _ (by omega), ?_, h.header_eq, h.token_len, ?_, h.dest_eq,
      ?_, ?_⟩
    · simp only [Bounded]
      omega
    · rw [← h.token_eq, length_readBytes]
      exact readBytes_congr fun j _ hj => Buffer.copy_of_outside _ _ (by omega)
    · simp only [List.length_append]
      omega
    · simp only [List.length_append, readBytes_add]
      rw [← hcl, Buffer.readBytes_copy, hcl]
      congr 1
      rw [← h.content_eq, length_readBytes]
      exact readBytes_congr fun j _ hj => Buffer.copy_of_outside _ _ (by omega)
  · exact absurd hok tooBig_ne_ok

/-- Content is appended piece by piece. -/
theorem Composes.pieces (h : Composes s m) (pieces : List Piece) {s' : Instance}
    (hok : allOk (pieces.map fun piece s => smcpOutboundAppendContent s piece.bytes) s = some s') :
    Composes s' { m with content := m.content ++ (pieces.map Piece.bytes).flatten } ∧
      s'.sent = s.sent := by
  induction pieces generalizing s m with
  | nil =>
    simp only [List.map_nil, allOk, Option.some.injEq] at hok
    simp only [List.map_nil, List.flatten_nil, List.append_nil]
    exact hok ▸ ⟨h, rfl⟩
  | cons piece pieces ih =>
    rw [List.map_cons, allOk] at hok
    split_ifs at hok with hone
    obtain ⟨hrest, hsent⟩ := ih (h.appendContent piece hone) hok
    simp only [List.append_assoc] at hrest
    simp only [List.map_cons, List.flatten_cons]
    exact ⟨hrest, hsent⟩

/-- A message without options: header, token and marker. -/
theorem composes_fresh {header : CoapHeader} {token : List UInt8}
    (hcur : s.currentTransaction = none) (hheader : s.outbound.header = header)
    (hlen : header.tokenLen = token.length) (htoken : token.length ≤ 15)
    (hread : readBytes s.outbound.packetBytes.byte 4 token.length = token)
    (hmark : s.outbound.packetBytes.byte (4 + token.length) = 0xFF)
    (hptr : s.outbound.contentPtr = 4 + token.length + 1) (hcontent : s.outbound.contentLen = 0)
    (hkey : s.outbound.lastOptionKey = 0) (hmax : s.outbound.maxPacketLen = smcpMaxPacketLength) :
    Composes s
      { header := header, token := token, dest := s.outbound.saddr, options := [], content := [] } := by
  have hstart : s.outbound.optionsStart = 4 + token.length := by
    rw [Outbound.optionsStart, hheader, hlen]
  refine ⟨hcur, ⟨trivial, ?_, ?_, ?_, hkey, hmax⟩, ?_, hheader, hlen, hread, rfl, hcontent, rfl⟩
  · rw [hstart, hptr, Nat.add_sub_cancel, Nat.sub_self]
    rfl
  · omega
  · rw [hptr, Nat.add_sub_cancel, hmark]
  · rw [Bounded, hptr, hcontent, hmax, smcpMaxPacketLength]
    omega

/-- A new message has its header, and nothing else. -/
theorem composes_begin (hcur : s.currentTransaction = none) {code tt : ℕ} (hcode : code < 256)
    (htt : tt < 4) :
    Composes (smcpOutboundBegin s code tt).1
      { header :=
          { version := coapVersion, tt := tt, tokenLen := (smcpOutboundToken s code).length
            code := code, msgId := s.outbound.nextTid }
        token := smcpOutboundToken s code, dest := default, options := [], content := [] } := by
  refine composes_fresh hcur ?_ rfl (length_smcpOutboundToken_le s code) ?_ ?_ rfl rfl rfl rfl
  · simp only [smcpOutboundBegin, Outbound.putMarker, Nat.mod_eq_of_lt hcode, Nat.mod_eq_of_lt htt]
  · refine Eq.trans ?_ (Buffer.readBytes_copy s.outbound.packetBytes 4 (smcpOutboundToken s code))
    refine readBytes_congr fun j _ hj => Buffer.store_of_ne _ _ ?_
    change j ≠ 4 + _
    omega
  · simp [smcpOutboundBegin, Outbound.putMarker]

/-- Another token, right after the beginning. -/
theorem Composes.setToken (h : Composes s m) (hopts : m.options = []) (hcontent : m.content = [])
    {token : List UInt8} (htoken : token.length ≤ 8) :
    Composes (smcpOutboundSetToken s token).1
      { m with token := token, header.tokenLen := token.length } := by
  -- nothing has been added yet: no option, no content
  have hkey : s.outbound.lastOptionKey = 0 := by rw [h.composed.lastKey_eq, hopts, lastKey_nil]
  have hzero : s.outbound.contentLen = 0 := by rw [h.content_len, hcontent, List.length_nil]
  have hptr := h.composed.contentPtr_eq
  have hmark := h.composed.marker
  rw [hopts, encode, List.length_nil, Nat.add_zero, Outbound.optionsStart] at hptr
  -- the packet starts with the header and the token, and nothing else
  have hfresh : Composes (smcpOutboundSetToken s token).1
      { header := { m.header with tokenLen := token.length }, token := token, dest := m.dest
        options := [], content := [] } := by
    rw [← h.dest_eq, ← h.header_eq]
    unfold smcpOutboundSetToken
    rw [if_pos htoken]
    simp only
    split_ifs with hne
    · refine composes_fresh h.current rfl rfl (by omega) (Buffer.readBytes_copy _ _ _) ?_ rfl rfl hkey
        h.composed.max_eq
      simp only [Outbound.putMarker]
      rw [Buffer.copy_of_outside _ _ (by omega), Buffer.store_self]
    · have heq : s.outbound.header.tokenLen = token.length := by
        by_contra hno
        exact hne hno
      rw [heq] at hptr
      refine composes_fresh h.current ?_ rfl (by omega) (Buffer.readBytes_copy _ _ _) ?_ hptr hzero hkey
        h.composed.max_eq
      · simp only [← heq]
      · rw [hptr, Nat.add_sub_cancel] at hmark
        simp only
        rw [Buffer.copy_of_outside _ _ (by omega), hmark]
  obtain ⟨header, token', dest, options, content⟩ := m
  obtain rfl : options = [] := hopts
  obtain rfl : content = [] := hcontent
  exact hfresh

/-- It gets its destination. -/
theorem Composes.setDestaddr (h : Composes s m) (dest : SockAddr) :
    Composes (smcpOutboundSetDestaddr s dest) { m with dest := dest } := by
  have heq : smcpOutboundSetDestaddr s dest = { s with outbound.saddr := dest } := by
    unfold smcpOutboundSetDestaddr
    simp only [h.current]
  rw [heq]
  exact ⟨h.current, ⟨h.composed.ordered, h.composed.read, h.composed.start_lt, h.composed.marker,
    h.composed.lastKey_eq, h.composed.max_eq⟩, h.bounded, h.header_eq, h.token_len, h.token_eq, rfl,
    h.content_len, h.content_eq⟩

/-- The calls of a composition compose its message. -/
theorem Composition.composes (c : Composition) {s' : Instance} (hcur : s.currentTransaction = none)
    (htoken : (c.tokenIn s).length ≤ 8) (hok : allOk c.calls s = some s') :
    Composes s' (c.message s) ∧ s'.sent = s.sent := by
  -- the calls in their order: the begin, the token, the destination, the options, the content
  rw [Composition.calls, allOk_append, List.append_assoc, List.append_assoc] at hok
  obtain ⟨s4, hok, hpieces⟩ := hok
  rw [allOk_append] at hok
  obtain ⟨s1, hbegin, hok⟩ := hok
  rw [allOk_append] at hok
  obtain ⟨s2, htok, hok⟩ := hok
  rw [allOk_append] at hok
  obtain ⟨s3, hdest, hoptions⟩ := hok
  have hbeginOk : (smcpOutboundBegin s c.code c.tt).2 = smcpStatusOk := rfl
  simp only [allOk, hbeginOk, ↓reduceIte, Option.some.injEq] at hbegin hdest
  have h1 : Composes s1 _ := hbegin ▸ composes_begin hcur c.code_lt c.tt_lt
  have hsent1 : s1.sent = s.sent := hbegin ▸ rfl
  have h2 : Composes s2
      { header :=
          { version := coapVersion, tt := c.tt, tokenLen := (c.tokenIn s).length, code := c.code
            msgId := s.outbound.nextTid }
        token := c.tokenIn s, dest := default, options := [], content := [] } ∧
      s2.sent = s1.sent := by
    unfold Composition.tokenIn at htoken ⊢
    cases hc : c.token with
    | none =>
      rw [hc] at htok
      simp only [Option.map_none, Option.toList_none, allOk, Option.some.injEq] at htok
      exact htok ▸ ⟨h1, rfl⟩
    | some token =>
      rw [hc] at htok htoken
      simp only [Option.getD_some] at htoken
      simp only [Option.map_some, Option.toList_some, allOk] at htok
      split_ifs at htok
      rw [Option.some.injEq] at htok
      rw [← htok]
      refine ⟨h1.setToken rfl rfl htoken, ?_⟩
      unfold smcpOutboundSetToken
      rw [if_pos htoken]
  have h3 : Composes s3 _ := hdest ▸ h2.1.setDestaddr c.dest
  have hsent3 : s3.sent = s2.sent := by
    rw [← hdest]
    unfold smcpOutboundSetDestaddr
    simp only [h2.1.current]
  obtain ⟨h4, hsent4⟩ := h3.options rfl c.options hoptions
  obtain ⟨h5, hsent5⟩ := h4.pieces c.pieces hpieces
  rw [foldl_insertByKey] at h5
  refine ⟨h5, ?_⟩
  rw [hsent5, hsent4, hsent3, h2.2, hsent1]

end

/-! ## Reading the message back -/

/-- The payload of a message with the given content. -/
def payloadOf (content : List UInt8) : Option (List UInt8) :=
  if content = [] then none else some content

/-- The marker is in front of a content that is not empty. -/
theorem contentOf_payloadOf (content : List UInt8) : contentOf (payloadOf content) = content := by
  unfold contentOf payloadOf
  split_ifs with h
  · exact h.symm
  · rfl

/-- The fields of the message are ones the header has room for, and the options are in order. -/
structure Message.Valid (m : Message) : Prop where
  version : m.header.version = coapVersion
  tt_lt : m.header.tt < 4
  code_pos : 0 < m.header.code
  code_lt : m.header.code < 256
  msgId_lt : m.header.msgId < 65536
  token_len : m.header.tokenLen = m.token.length
  token_le : m.token.length ≤ coapMaxTokenSize
  ordered : Ordered coapOptionInvalid coapMaxOptionValueSize 0 m.options
  size : m.wire.length ≤ coapMaxMessageSize

section
variable {m : Message}

/-- The first bytes of the message, as any memory that holds it has them. -/
theorem Message.Valid.header_read (h : m.Valid) {b : ℕ → UInt8}
    (hb : readBytes b 0 m.wire.length = m.wire) :
    headerVersion b = coapVersion ∧ headerTt b = m.header.tt ∧ headerTokenLen b = m.token.length ∧
      headerCode b = m.header.code ∧ headerMsgId b = m.header.msgId ∧
      readBytes b 4 m.token.length = m.token := by
  -- header, token, options and content, one behind the other
  have hwire : m.wire = m.header.bytes ++ (m.token ++ encode 0 m.options ++ contentTail m.content) := by
    simp only [Message.wire, List.append_assoc]
  rw [hwire] at hb
  obtain ⟨hhead, hrest⟩ := readBytes_eq_append hb
  simp only [CoapHeader.bytes, List.length_cons, List.length_nil, readBytes, List.cons.injEq] at hhead
  obtain ⟨h0, h1, h2, h3, -⟩ := hhead
  rw [List.append_assoc] at hrest
  obtain ⟨htoken, -⟩ := readBytes_eq_append hrest
  -- each field of the header is read out of its byte
  have hver := h.version
  have htt := h.tt_lt
  have hcode := h.code_lt
  have hid := h.msgId_lt
  have htl := h.token_len
  have hle := h.token_le
  unfold coapVersion at hver
  unfold coapMaxTokenSize at hle
  have hfirst : (b 0).toNat = 64 + m.header.tt * 16 + m.token.length := by
    rw [h0, UInt8.toNat_ofNat', hver, htl]
    omega
  refine ⟨?_, ?_, ?_, ?_, ?_, htoken⟩
  · rw [headerVersion, hfirst, coapVersion]
    omega
  · rw [headerTt, hfirst]
    omega
  · rw [headerTokenLen, hfirst]
    omega
  · rw [headerCode, h1, UInt8.toNat_ofNat']
    omega
  · rw [headerMsgId, h2, h3, UInt8.toNat_ofNat', UInt8.toNat_ofNat']
    omega

/-- Behind the token there are the options and then the content. -/
theorem Message.Valid.optionArea_eq (h : m.Valid) :
    optionArea m.wire = encode 0 m.options ++ contentTail m.content := by
  have htl : tokenLength m.wire = m.token.length := by
    obtain ⟨-, -, htok, -⟩ := h.header_read (readBytes_ofList m.wire fun _ => 0)
    rw [← htok]
    rfl
  have hlen : (m.header.bytes ++ m.token).length = 4 + m.token.length := by
    rw [List.length_append]
    rfl
  rw [optionArea, htl, Message.wire, List.append_assoc, List.drop_left' hlen]

/-- They are parted as they were put together. -/
theorem Message.Valid.splits (h : m.Valid) :
    Splits word16 (optionArea m.wire) (deltas 0 m.options) (payloadOf m.content) := by
  have htail : Splits word16 (contentTail m.content) [] (payloadOf m.content) := by
    unfold contentTail payloadOf
    split_ifs
    · exact .nil
    · exact .marker _
  rw [h.optionArea_eq]
  refine splits_encode h.ordered (by decide) (by decide) (fun n hn => word16_of_lt ?_) htail
  unfold coapMaxOptionValueSize at hn
  omega

/-- A valid message is accepted. -/
theorem Message.Valid.verified (h : m.Valid) (rest : ℕ → UInt8) :
    coapVerifyPacket (ofList m.wire rest) m.wire.length = true := by
  -- the length of the message is below 2^16
  have hsize := h.size
  have hword : word16 m.wire.length = m.wire.length := by
    unfold coapMaxMessageSize at hsize
    exact word16_of_lt (by omega)
  rw [coapVerifyPacket_iff, hword, readBytes_ofList]
  -- what is read back is what was written
  have hread := readBytes_ofList m.wire rest
  obtain ⟨hver, -, htok, hcode, -⟩ := h.header_read hread
  have hge : 4 + m.token.length ≤ m.wire.length := by
    simp only [Message.wire, CoapHeader.bytes, List.length_append, List.length_cons, List.length_nil]
    omega
  -- the checks of the source look at single bytes
  have hget {i : ℕ} (hi : i < m.wire.length) : m.wire.getD i 0 = ofList m.wire rest i := by
    rw [← getD_readBytes (m := ofList m.wire rest) hi, hread]
  have htl : tokenLength m.wire = m.token.length := by
    rw [← htok, tokenLength, hget (by omega), headerTokenLen]
  refine ⟨by omega, hsize, ?_, ?_, ?_, ?_, ⟨_, _, h.splits⟩⟩
  · rw [hget (by omega)]
    exact hver
  · rw [htl]
    exact h.token_le
  · rw [htl]
    exact hge
  · intro h0
    have hpos := h.code_pos
    rw [hget (by omega)] at h0
    rw [headerCode, h0, coapCodeEmpty] at hcode
    omega

/-- A valid message without an option numbered `COAP_OPTION_INVALID` is parsed to itself. -/
theorem Message.Valid.parsed (h : m.Valid) (hkeys : ∀ o ∈ m.options, o.1 ≠ coapOptionInvalid)
    (receiver : Instance) (rest : ℕ → UInt8) :
    let r := (smcpInboundStartPacket receiver (ofList m.wire rest) m.wire.length).1.inbound.scan
    readBytes r.1.bytes 0 m.wire.length = m.wire ∧ r.2 = m.options ∧
      readBytes r.1.bytes r.1.contentPtr r.1.contentLen = m.content := by
  have hsize := h.size
  unfold coapMaxMessageSize at hsize
  have hsplits := h.splits
  rw [← readBytes_ofList m.wire rest] at hsplits
  have hcomplete := (scan_spec receiver (by omega) (h.verified rest) hsplits).2
  rw [withKeys_deltas h.ordered] at hcomplete
  obtain ⟨hvisited, -, hcontent⟩ := hcomplete hkeys
  rw [withKeys_deltas h.ordered] at hvisited
  rw [contentOf_payloadOf] at hcontent
  refine ⟨?_, hvisited, hcontent⟩
  rw [startPacket_inbound receiver (h.verified rest), scan_bytes]
  refine Eq.trans ?_ (readBytes_ofList m.wire rest)
  exact readBytes_update_of_le (by omega) 0

end

/-! ## The round trip -/

/-- What is composed is valid. -/
theorem Composition.message_valid (c : Composition) {s s' : Instance}
    (hid : s.outbound.nextTid < 65536) (htoken : (c.tokenIn s).length ≤ 8)
    (h : Composes s' (c.message s)) : (c.message s).Valid := by
  refine ⟨rfl, c.tt_lt, c.code_pos, c.code_lt, hid, rfl, htoken, h.composed.ordered, ?_⟩
  have hb := h.bounded
  have hmax := h.composed.max_eq
  have hlt := h.composed.start_lt
  unfold Bounded at hb
  unfold smcpMaxPacketLength at hmax
  rw [← h.bytes_eq, Outbound.bytes, List.length_take]
  refine (Nat.min_le_left _ _).trans ?_
  simp only [Outbound.sendLength, coapMaxMessageSize, word16]
  split_ifs <;> omega

/-- No option has the key that stands for none. -/
theorem Composition.keys_ne (c : Composition) (s : Instance) :
    ∀ o ∈ (c.message s).options, o.1 ≠ coapOptionInvalid := by
  intro o ho
  obtain ⟨call, -, rfl⟩ := List.mem_map.1 ((List.mem_insertionSort _).1 ho)
  cases call with
  | bytes key value hlen => exact key.isLt.ne
  | uint key value => exact key.isLt.ne

/-- A message composed outside of any transaction is sent as bytes that are accepted and parsed to
the same message: type, code, id and token, the options sorted by number with equal numbers in
the order of the calls, and the content. Numbers have their shortest form and decode to
themselves. -/
theorem wire_round_trip (c : Composition) {s s' : Instance} (hcur : s.currentTransaction = none)
    (hid : s.outbound.nextTid < 65536) (htoken : (c.tokenIn s).length ≤ 8)
    (hok : allOk c.calls s = some s') (receiver : Instance) (rest : ℕ → UInt8) :
    ∃ bytes, (smcpOutboundSend s').1.sent = s.sent ++ [⟨c.dest, bytes⟩] ∧
      coapVerifyPacket (ofList bytes rest) bytes.length = true ∧
      (let r := (smcpInboundStartPacket receiver (ofList bytes rest) bytes.length).1.inbound.scan;
        headerTt r.1.bytes = c.tt ∧ headerCode r.1.bytes = c.code ∧
        headerMsgId r.1.bytes = s.outbound.nextTid ∧
        readBytes r.1.bytes 4 (headerTokenLen r.1.bytes) = c.tokenIn s ∧
        r.2 = (c.options.map OptionCall.option).insertionSort (fun x y => x.1 ≤ y.1) ∧
        readBytes r.1.bytes r.1.contentPtr r.1.contentLen = (c.pieces.map Piece.bytes).flatten) ∧
      ∀ key value, OptionCall.uint key value ∈ c.options → ∀ (m : ℕ → UInt8) (p : ℕ),
        (readBytes m p (uintOptionValue value).length = uintOptionValue value →
          coapDecodeUint32 m p (uintOptionValue value).length = value) ∧
        ∀ n, coapDecodeUint32 m p n = value → (uintOptionValue value).length ≤ n := by
  -- what is sent are the bytes of the message that was composed
  obtain ⟨h, hsent⟩ := c.composes hcur htoken hok
  have hvalid := c.message_valid hid htoken h
  obtain ⟨hbytes, hopts, hcontent⟩ := hvalid.parsed (c.keys_ne s) receiver rest
  -- the fields, and then the options and the content, of what was received
  obtain ⟨-, htt, htl, hcode, hmsgId, htok⟩ := hvalid.header_read hbytes
  refine ⟨(c.message s).wire, ?_, hvalid.verified rest,
    ⟨htt, hcode, hmsgId, ?_, hopts, hcontent⟩, fun key value _ m p => ⟨fun hread => ?_,
    fun n hn => ?_⟩⟩
  · rw [h.send c.family_ne, hsent]
    rfl
  -- the pairs of key and value, in the order of the options
  · rw [htl]
    exact htok
  · have hlen := length_uintOptionValue_le value
    have hmod : (uintOptionValue value).length % 256 = (uintOptionValue value).length :=
      Nat.mod_eq_of_lt (by omega)
    change decodeUint (readBytes m p ((uintOptionValue value).length % 256)) = value
    rw [hmod, hread, decodeUint_uintOptionValue value.isLt]
  · have hmin := length_uintOptionValue_minimal (l := readBytes m p (n % 256)) hn
    rw [length_readBytes] at hmin
    exact hmin.trans (Nat.mod_le _ _)

/-- A request with a token, two path segments around a number, and content in two pieces. -/
def sampleComposition : Composition where
  code := coapMethodPut
  tt := coapTransTypeConfirmable
  token := some [0xA1, 0xA2, 0xA3]
  dest := { SockAddr.zero with family := 10, port := 5683 }
  options := [.bytes 11 [0x61] (by decide), .uint 6 300, .bytes 11 [0x62, 0x63] (by decide)]
  pieces := [⟨[0x78], by decide⟩, ⟨[0x79, 0x7A], by decide⟩]
  code_pos := by decide
  code_lt := by decide
  tt_lt := by decide
  family_ne := by decide

theorem wire_round_trip_sample :
    let s := smcpCreate default (fun _ => 0) fun _ => 1
    ∃ s', allOk sampleComposition.calls s = some s' ∧
      ∃ bytes, (smcpOutboundSend s').1.sent = [⟨sampleComposition.dest, bytes⟩] ∧
        (let r := (smcpInboundStartPacket s (ofList bytes fun _ => 0) bytes.length).1.inbound.scan;
          headerCode r.1.bytes = 3 ∧ r.2 = [(6, [1, 44]), (11, [0x61]), (11, [0x62, 0x63])] ∧
          readBytes r.1.bytes r.1.contentPtr r.1.contentLen = [0x78, 0x79, 0x7A]) := by
  intro s
  have hok : (allOk sampleComposition.calls s).isSome = true := by decide
  obtain ⟨s', hs'⟩ := Option.isSome_iff_exists.1 hok
  obtain ⟨bytes, hsent, -, ⟨-, hcode, -, -, hopts, hcontent⟩, -⟩ :=
    wire_round_trip sampleComposition rfl (by decide) (by decide) hs' s fun _ => 0
  exact ⟨s', hs', bytes, hsent, hcode, hopts, hcontent⟩

end Smcp
