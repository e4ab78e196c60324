import Smcp.Transaction.Response

/-!
# Processing a message

The duplicate check of `smcp-dupe.c` with the hash of `fasthash.c`,
`smcp_inbound_finish_packet`, and `smcp_process` of `smcp-plat-bsd.c`.
-/

namespace Smcp

open ByteMemory

/-! ## Hashing -/

/-- `struct fasthash_state_s`. -/
structure FasthashState where
  hash : UInt32 := 0
  bytes : UInt32 := 0
  next : UInt32 := 0

/-- `fasthash_feed_block`. -/
def fasthashFeedBlock (state : FasthashState) (blk : UInt32) : FasthashState :=
  let blk := blk ^^^ (state.bytes >>> 2)
  { state with hash := (state.hash ^^^ blk) * 1664525 + 1013904223 }

/-- `fasthash_start`. -/
def fasthashStart (salt : UInt32) : FasthashState := fasthashFeedBlock {} salt

/-- `fasthash_feed_byte`. -/
def fasthashFeedByte (state : FasthashState) (data : UInt8) : FasthashState :=
  let state : FasthashState :=
    { state with
      next := state.next ||| (data.toUInt32 <<< (8 * (state.bytes &&& 3)))
      bytes := state.bytes + 1 }
  if state.bytes &&& 3 = 0 then { fasthashFeedBlock state state.next with next := 0 } else state

/-- `fasthash_feed`. -/
def fasthashFeed (state : FasthashState) (data : List UInt8) : FasthashState :=
  data.foldl fasthashFeedByte state

/-- `fasthash_finish`. -/
def fasthashFinish (state : FasthashState) : UInt32 :=
  if state.bytes &&& 3 ≠ 0 then (fasthashFeedBlock state state.next).hash else state.hash

/-! ## Duplicates -/

/-- The bytes of a `struct sockaddr_in6`, fields in host order. -/
def SockAddr.bytes (a : SockAddr) : List UInt8 :=
  littleEndian a.family 2 ++ littleEndian a.port 2 ++ littleEndian a.flowinfo 4 ++ a.addr.toList ++
    littleEndian a.scopeId 4
where
  littleEndian (n : ℕ) : ℕ → List UInt8
    | 0 => []
    | k + 1 => UInt8.ofNat (n % 256) :: littleEndian (n / 256) k

def smcpConfDupeBufferSize : ℕ := 16

/-- The hash that `smcp_inbound_dupe_check` computes. -/
def Inbound.dupeHash (i : Inbound) : ℕ :=
  (fasthashFinish (fasthashFeed (fasthashFeed (fasthashStart 0) i.saddr.bytes)
    (readBytes i.bytes 2 2))).toNat

/-- The entry is for the message. -/
def DupeEntry.isFor (e : DupeEntry) (i : Inbound) : Bool :=
  e.hash = i.dupeHash && e.source = i.saddr && e.msgId = headerMsgId i.bytes

/-- The entry for the message. -/
def Inbound.dupeEntry (i : Inbound) : DupeEntry := ⟨i.dupeHash, i.saddr, headerMsgId i.bytes⟩

/-- The history of a check of the message. -/
def Inbound.dupeCheck (i : Inbound) (isDupe : Bool) : DupeCheck :=
  ⟨headerTt i.bytes, headerCode i.bytes, i.saddr, headerMsgId i.bytes, isDupe⟩

/-- Enter a message in the table. -/
def DupeInfo.enter (d : DupeInfo) (entry : DupeEntry) : DupeInfo where
  dupe := Function.update d.dupe d.dupeIndex entry
  dupeIndex := (d.dupeIndex + 1) % smcpConfDupeBufferSize
  fresh := d.fresh + 1

/-- The table has an entry for the message. -/
def DupeInfo.knows (d : DupeInfo) (i : Inbound) : Bool :=
  (List.range smcpConfDupeBufferSize).any fun j => (d.dupe j).isFor i

/-- `smcp_inbound_dupe_check`. -/
def smcpInboundDupeCheck (s : Instance) : Instance × Bool :=
  if (List.range smcpConfDupeBufferSize).any fun i => (s.dupeInfo.dupe i).isFor s.inbound then
    ({ s with checks := s.inbound.dupeCheck true :: s.checks }, true)
  else
    ({ s with
      dupeInfo := s.dupeInfo.enter s.inbound.dupeEntry
      checks := s.inbound.dupeCheck false :: s.checks }, false)

/-! ## The table over time -/

/-- Messages were entered, and nothing else happened to the table. -/
def DupeInfo.Later (d d' : DupeInfo) : Prop := ∃ entries, d' = List.foldl DupeInfo.enter d entries

section
variable {d d' d'' : DupeInfo}

theorem DupeInfo.Later.refl (d : DupeInfo) : d.Later d := ⟨[], rfl⟩

theorem DupeInfo.Later.trans (h : d.Later d') (h' : d'.Later d'') : d.Later d'' := by
  obtain ⟨entries, rfl⟩ := h
  obtain ⟨entries', rfl⟩ := h'
  exact ⟨entries ++ entries', by rw [List.foldl_append]⟩

theorem DupeInfo.later_enter (d : DupeInfo) (entry : DupeEntry) : d.Later (d.enter entry) :=
  ⟨[entry], rfl⟩

theorem fresh_foldl_enter (d : DupeInfo) (entries : List DupeEntry) :
    (entries.foldl DupeInfo.enter d).fresh = d.fresh + entries.length := by
  induction entries generalizing d with
  | nil => rfl
  | cons entry entries ih =>
    have hfresh : (d.enter entry).fresh = d.fresh + 1 := rfl
    rw [List.foldl_cons, ih, List.length_cons, hfresh]
    omega

/-- An entry stays until the ring comes round to it. -/
theorem dupe_foldl_enter {j : ℕ} (hd : d.dupeIndex < smcpConfDupeBufferSize)
    (hj : j < smcpConfDupeBufferSize) (entries : List DupeEntry)
    (hlen : entries.length ≤
      (j + smcpConfDupeBufferSize - d.dupeIndex) % smcpConfDupeBufferSize) :
    (entries.foldl DupeInfo.enter d).dupe j = d.dupe j := by
  unfold smcpConfDupeBufferSize at hd hj hlen
  induction entries generalizing d with
  | nil => rfl
  | cons entry entries ih =>
    rw [List.length_cons] at hlen
    have hne : j ≠ d.dupeIndex := by
      rintro rfl
      omega
    rw [List.foldl_cons, ih]
    · exact Function.update_of_ne hne _ _
    · exact Nat.mod_lt _ (by decide)
    · simp only [DupeInfo.enter, smcpConfDupeBufferSize]
      omega

end

/-! ## Finishing a packet -/

/-- `smcp_convert_status_to_result_code`. -/
def smcpConvertStatusToResultCode (status : ℤ) : ℕ :=
  if status = smcpStatusOk then coapResult200
  else if status = smcpStatusNotFound then httpToCoapCode 404
  else if status = smcpStatusNotImplemented then httpToCoapCode 501
  else if status = smcpStatusNotAllowed then httpToCoapCode 405
  else if status = smcpStatusUnsupportedUri then httpToCoapCode 400
  else if status = smcpStatusBadOption then httpToCoapCode 402
  else httpToCoapCode 500

/-- The code of the automatic reply to a request, for the status `ret`. -/
def automaticResultCode (code : ℕ) (ret : ℤ) (isDupe : Bool) : ℕ :=
  if isDupe ∨ ret = smcpStatusOk then
    if code = coapMethodGet then httpToCoapCode 205
    else if code = coapMethodPost ∨ code = coapMethodPut then httpToCoapCode 204
    else if code = coapMethodDelete then httpToCoapCode 202
    else smcpConvertStatusToResultCode ret
  else smcpConvertStatusToResultCode ret

/-- The automatic reply to a request with the given code. -/
def replyToRequest (code : ℕ) (s : Instance) (ret : ℤ) : Instance × ℤ :=
  let resultCode := automaticResultCode code ret s.inbound.isDupe
  let ret := if s.inbound.isDupe then 0 else ret
  let s := (smcpOutboundBeginResponse (smcpOutboundReset s) resultCode).1
  smcpOutboundSend (if resultCode = httpToCoapCode 500 then (smcpOutboundSetVarContentInt s ret).1
    else s)

/-- The automatic reply to another confirmable message. -/
def replyToResult (s : Instance) (ret : ℤ) : Instance × ℤ :=
  let s := (smcpOutboundBeginResponse (smcpOutboundReset s) 0).1
  let s := smcpOutboundSetTt s (if ret ≠ 0 ∧ s.inbound.isDupe = false then coapTransTypeReset
    else coapTransTypeAck)
  smcpOutboundSend (smcpOutboundSetToken s []).1

section
variable (hooks : Hooks)

/-- The part of `smcp_inbound_finish_packet` that hands the message on. -/
def dispatchPacket (s : Instance) : Instance × ℤ :=
  if coapCodeIsRequest (headerCode s.inbound.bytes) then smcpHandleRequest hooks s
  else if coapCodeIsResult (headerCode s.inbound.bytes) then smcpHandleResponse hooks s
  else (s, smcpStatusOk)

/-- The automatic reply of `smcp_inbound_finish_packet`, when one is needed. The packet is the one
that was received, whatever `inbound` has become. -/
def automaticReply (packet : ℕ → UInt8) (s : Instance) (ret : ℤ) : Instance × ℤ :=
  if s.didRespond = false ∧ headerTt packet = coapTransTypeConfirmable then
    if coapCodeIsRequest (headerCode packet) then replyToRequest (headerCode packet) s ret
    else replyToResult s ret
  else (s, ret)

/-- What `smcp_inbound_finish_packet` does before it hands the message on. -/
def preparePacket (s : Instance) : Instance :=
  let checked := smcpInboundDupeCheck s
  let s := if s.inbound.isFake then s else { checked.1 with inbound.isDupe := checked.2 }
  { s with inbound := s.inbound.scan.1 }

theorem dupeCheck_inbound (s : Instance) : (smcpInboundDupeCheck s).1.inbound = s.inbound := by
  unfold smcpInboundDupeCheck
  split_ifs <;> rfl

theorem preparePacket_bytes (s : Instance) : (preparePacket s).inbound.bytes = s.inbound.bytes := by
  unfold preparePacket
  dsimp only
  rw [scan_bytes]
  split_ifs
  · rfl
  · rw [dupeCheck_inbound]
    rfl

theorem dupeCheck_eq (s : Instance) :
    ∃ d l, (smcpInboundDupeCheck s).1 = { s with dupeInfo := d, checks := l } := by
  unfold smcpInboundDupeCheck
  split_ifs <;> exact ⟨_, _, rfl⟩

theorem preparePacket_eq (s : Instance) :
    ∃ i d l, preparePacket s = { s with inbound := i, dupeInfo := d, checks := l } := by
  obtain ⟨d, l, hd⟩ := dupeCheck_eq s
  unfold preparePacket
  dsimp only
  rw [hd]
  split_ifs <;> exact ⟨_, _, _, rfl⟩

/-- The end of `smcp_inbound_finish_packet`. -/
def finishPacketBail (s : Instance) : Instance :=
  { s with
    isProcessingMessage := false
    forceCurrentOutboundCode := false
    inbound := { s.inbound with packet := none, contentPtr := 0, contentLen := 0 } }

/-- `smcp_inbound_finish_packet`. -/
def smcpInboundFinishPacket (s : Instance) : Instance × ℤ :=
  if s.isProcessingMessage = false then (finishPacketBail s, smcpStatusFailure)
  else if s.inbound.wasSentToMulticast ∧
      headerTt s.inbound.bytes = coapTransTypeConfirmable then
    (finishPacketBail s, smcpStatusFailure)
  else
    let s := preparePacket s
    let handled := dispatchPacket hooks s
    let replied := automaticReply s.inbound.bytes handled.1 handled.2
    (finishPacketBail replied.1, replied.2)

/-- A packet gets its addresses. -/
def addressPacket (s : Instance) (source : SockAddr) (dest : Option SockAddr) : Instance :=
  let s := (smcpInboundSetSrcaddr s source).1
  match dest with
  | some dest => (smcpInboundSetDestaddr s dest).1
  | none => s

/-- A packet is started, gets its addresses, and is finished. -/
def processPacket (s : Instance) (buffer : ℕ → UInt8) (packetLength : ℕ) (source : SockAddr)
    (dest : Option SockAddr) : Instance × ℤ :=
  let r := smcpInboundStartPacket s buffer packetLength
  if r.2 ≠ smcpStatusOk then r
  else smcpInboundFinishPacket hooks (addressPacket r.1 source dest)

/-- The instance that is about to finish a packet. -/
def Instance.arrived (s : Instance) (buffer : ℕ → UInt8) (packetLength : ℕ) (source : SockAddr)
    (dest : Option SockAddr) : Instance :=
  { s with
    inbound :=
      { packet := some (Function.update buffer packetLength 0)
        packetLen := packetLength
        contentType := coapContentTypeUnknown
        wasSentToMulticast := dest.any fun dest => smcpIsAddrMulticast dest.addr
        saddr := source }
    isProcessingMessage := true
    didRespond := false }

/-- The header of the packet, before and after its end was marked. -/
theorem arrived_header {buffer : ℕ → UInt8} {packetLength : ℕ}
    (hv : coapVerifyPacket buffer packetLength = true) (s : Instance) (source : SockAddr)
    (dest : Option SockAddr) (j : ℕ) (hj : j < 4) :
    (s.arrived buffer packetLength source dest).inbound.bytes j = buffer j := by
  have hge := four_le_of_coapVerifyPacket hv
  exact Function.update_of_ne (by omega) _ _

/-- A verified packet is finished. -/
theorem processPacket_eq {buffer : ℕ → UInt8} {packetLength : ℕ}
    (hv : coapVerifyPacket buffer packetLength = true) (s : Instance) (source : SockAddr)
    (dest : Option SockAddr) :
    processPacket hooks s buffer packetLength source dest =
      smcpInboundFinishPacket hooks (s.arrived buffer packetLength source dest) := by
  unfold processPacket smcpInboundStartPacket
  rw [if_pos hv]
  cases dest <;> rfl

/-- A request that is not dropped goes to a handler, and is answered if that did not. -/
theorem finishPacket_request {s : Instance} (hprocessing : s.isProcessingMessage = true)
    (hkept : ¬(s.inbound.wasSentToMulticast = true ∧
      headerTt s.inbound.bytes = coapTransTypeConfirmable))
    (hcode : coapCodeIsRequest (headerCode s.inbound.bytes) = true) :
    smcpInboundFinishPacket hooks s =
      let handled := smcpHandleRequest hooks (preparePacket s)
      let replied := automaticReply s.inbound.bytes handled.1 handled.2
      (finishPacketBail replied.1, replied.2) := by
  unfold smcpInboundFinishPacket dispatchPacket
  rw [if_neg (by simp [hprocessing]), if_neg hkept]
  simp only [preparePacket_bytes, hcode, if_true]

/-- A datagram from the socket, with its sender and the address it was sent to. -/
structure Arrival where
  bytes : List UInt8
  source : SockAddr
  dest : Option SockAddr

/-- The receiving part of `smcp_process`: false when it stops there. The buffer behind the
datagram holds `rest`. -/
def receivePacket (s : Instance) (a : Arrival) (rest : ℕ → UInt8) : Instance × Bool :=
  let bytes := a.bytes.take smcpMaxPacketLength
  if bytes = [] then (s, false)
  else
    let r := processPacket hooks s (ofList bytes rest) bytes.length a.source a.dest
    (r.1, r.2 = smcpStatusOk)

/-- `smcp_process`, with the datagram that is waiting. -/
def smcpProcess (s : Instance) (arrival : Option Arrival) (rest : ℕ → UInt8) : Instance :=
  let r := match arrival with
    | some a => receivePacket hooks s a rest
    | none => (s, true)
  let s := if r.2 then smcpHandleTimers hooks r.1 else r.1
  { s with isResponding := false }

end

end Smcp
