import Smcp.Transaction.Runs

/-!
# Rejected packets

What `smcp_process` does with a datagram that `coap_verify_packet` rejects, on both platforms.

* `smcpProcess_rejected`: on BSD sockets it has no effect;
* `smcpProcessUip_rejected`: with uIP, where `smcp_process` does not look at the status of
  `smcp_inbound_start_packet`, it has no effect unless a message is being processed, and then
  `smcp_inbound_finish_packet` goes on with the packet that was left over.
-/

namespace Smcp

open Run ByteMemory

/-- What a uIP application is called for. -/
inductive UipEvent where
  /-- The call is not for the connection of the instance. -/
  | other
  | newdata (bytes : List UInt8) (source dest : SockAddr)
  | poll

/-- `smcp_process` of `smcp-plat-uip.c`. Behind the data there is `rest`. -/
def smcpProcessUip (hooks : Hooks) (s : Instance) (event : UipEvent) (rest : ℕ → UInt8) : Instance :=
  let s := match event with
    | .other => s
    | .newdata bytes source dest =>
      let s := (smcpInboundStartPacket s (ofList bytes rest) bytes.length).1
      let s := (smcpInboundSetSrcaddr s source).1
      let s := (smcpInboundSetDestaddr s dest).1
      (smcpInboundFinishPacket hooks s).1
    | .poll => smcpHandleTimers hooks s
  { s with isResponding := false }

/-- Nothing is called, nothing is sent, and the transactions, the timers, the table of duplicates
and the observers stay as they are. -/
structure NoEffect (process : Hooks → Instance → Instance) (s : Instance) : Prop where
  calls : ∀ hooks hooks', process hooks s = process hooks' s
  sent : ∀ hooks, (process hooks s).sent = s.sent
  store : ∀ hooks, (process hooks s).store = s.store
  transaction : ∀ hooks, (process hooks s).transaction = s.transaction
  events : ∀ hooks, (process hooks s).events = s.events
  timers : ∀ hooks, (process hooks s).timers = s.timers
  dupeInfo : ∀ hooks, (process hooks s).dupeInfo = s.dupeInfo
  observerTable : ∀ hooks, (process hooks s).observerTable = s.observerTable
  observables : ∀ hooks, (process hooks s).observables = s.observables

/-- A step that leaves one state, whatever the application does, and in it only the message that is
being processed is different. -/
theorem NoEffect.of_eq {process : Hooks → Instance → Instance} {s : Instance} {i : Inbound}
    {isResponding isProcessingMessage forceCurrentOutboundCode : Bool}
    (h : ∀ hooks, process hooks s =
      { s with
        inbound := i
        isResponding := isResponding
        isProcessingMessage := isProcessingMessage
        forceCurrentOutboundCode := forceCurrentOutboundCode }) : NoEffect process s := by
  constructor
  · intro hooks hooks'
    rw [h, h]
  all_goals
    intro hooks
    rw [h]

section
variable {buffer : ℕ → UInt8} {packetLength : ℕ}

theorem startPacket_rejected (h : coapVerifyPacket buffer packetLength = false) (s : Instance) :
    smcpInboundStartPacket s buffer packetLength = (s, smcpStatusBadPacket) := by
  unfold smcpInboundStartPacket
  rw [h]
  rfl

/-- On BSD sockets a datagram that is rejected has no effect. -/
theorem smcpProcess_rejected (s : Instance) (a : Arrival) (rest : ℕ → UInt8)
    (h : coapVerifyPacket (ofList (a.bytes.take smcpMaxPacketLength) rest)
      (a.bytes.take smcpMaxPacketLength).length = false) :
    NoEffect (fun hooks s => smcpProcess hooks s (some a) rest) s := by
  have hreceive (hooks : Hooks) : receivePacket hooks s a rest = (s, false) := by
    have hbad : smcpStatusBadPacket ≠ smcpStatusOk := by decide
    unfold receivePacket processPacket
    dsimp only
    rw [startPacket_rejected h, if_pos hbad]
    split_ifs <;> rfl
  have hleft : ∀ hooks, smcpProcess hooks s (some a) rest =
      { s with
        inbound := s.inbound
        isResponding := false
        isProcessingMessage := s.isProcessingMessage
        forceCurrentOutboundCode := s.forceCurrentOutboundCode } := by
    intro hooks
    unfold smcpProcess
    dsimp only
    rw [hreceive]
    rfl
  exact NoEffect.of_eq hleft

/-- With uIP the datagram is dropped if no message is being processed, or if what was left over is a
confirmable message and this one came by multicast. -/
def UipDrops (s : Instance) (dest : SockAddr) : Prop :=
  s.isProcessingMessage = false ∨
    (smcpIsAddrMulticast dest.addr = true ∧
      headerTt s.inbound.bytes = coapTransTypeConfirmable)

theorem smcpProcessUip_rejected (s : Instance) (bytes : List UInt8) (source dest : SockAddr)
    (rest : ℕ → UInt8) (h : coapVerifyPacket (ofList bytes rest) bytes.length = false)
    (hdrops : UipDrops s dest) :
    NoEffect (fun hooks s => smcpProcessUip hooks s (.newdata bytes source dest) rest) s := by
  unfold smcpProcessUip
  dsimp only
  -- the header was refused, or a confirmable message came to a multicast address
  by_cases hprocessing : s.isProcessingMessage = false
  · apply NoEffect.of_eq
    intro hooks
    rw [startPacket_rejected h]
    unfold smcpInboundSetSrcaddr smcpInboundSetDestaddr smcpInboundFinishPacket
    simp only [hprocessing, Bool.false_eq_true, ↓reduceIte]
    rfl
  · obtain ⟨hmulticast, htt⟩ := hdrops.resolve_left hprocessing
    rw [Bool.not_eq_false] at hprocessing
    -- the type is read from the bytes, so the source's own change of the address does not matter
    have htt' (saddr : SockAddr) : headerTt (Inbound.bytes { s.inbound with
        saddr := saddr
        wasSentToMulticast := true }) = coapTransTypeConfirmable := htt
    apply NoEffect.of_eq
    intro hooks
    rw [startPacket_rejected h]
    unfold smcpInboundSetSrcaddr smcpInboundSetDestaddr smcpInboundFinishPacket
    simp only [hprocessing, hmulticast, ↓reduceIte, Bool.true_eq_false, htt', and_self]
    rfl

/-- Rejected packets have no effect: on BSD sockets never, and with uIP under `UipDrops`. -/
theorem rejected_noEffect (s : Instance) (a : Arrival) (rest : ℕ → UInt8) :
    (coapVerifyPacket (ofList (a.bytes.take smcpMaxPacketLength) rest)
        (a.bytes.take smcpMaxPacketLength).length = false →
      NoEffect (fun hooks s => smcpProcess hooks s (some a) rest) s) ∧
    ∀ dest, coapVerifyPacket (ofList a.bytes rest) a.bytes.length = false → UipDrops s dest →
      NoEffect (fun hooks s => smcpProcessUip hooks s (.newdata a.bytes a.source dest) rest) s :=
  ⟨smcpProcess_rejected s a rest, fun dest h => smcpProcessUip_rejected s a.bytes a.source dest rest h⟩

end

/-! ## After an asynchronous response -/

/-- A request for `/`, from `::` port 5683. -/
def earlierRequest : AsyncResponse where
  remoteSaddr := { (default : SockAddr) with family := 10, port := 5683 }
  requestLen := 4
  request := ofList [0x40, 0x01, 0x12, 0x34] fun _ => 0

/-- A program that sends an asynchronous response when it is told to resend. -/
def responderHooks : Hooks := fun c s =>
  match c with
  | .resend _ =>
    (execAll Op.exec idleHooks
      [.beginAsyncResponse (httpToCoapCode 205) earlierRequest, .outbound .send] s, 0)
  | _ => (s, 0)

/-- The program has sent an asynchronous response. -/
def respondedRun : Instance :=
  execAll Op.exec responderHooks [.setDefaultRequestHandler (some 1),
    .transactionInit 0 false 0 (some 0) none, .transactionBegin 0 5000, .handleTimers]
    (smcpCreate default (fun _ => 5) fun _ => 1)

theorem reachable_respondedRun : Reachable respondedRun := by
  refine ⟨default, fun _ => 5, fun _ => 1, (Reaches.refl _).execAll (fun c u => ?_) _⟩
  cases c with
  | resend f => exact (Reaches.refl u).execAll (fun _ v => .refl v) _
  | _ => exact .refl u

theorem rejected_noEffect_one :
    NoEffect (fun hooks s => smcpProcess hooks s (some ⟨[0xFF], default, none⟩) fun _ => 0)
      respondedRun ∧
    NoEffect (fun hooks s => smcpProcessUip hooks s (.newdata [0xFF] default default) fun _ => 0)
      (smcpCreate default (fun _ => 5) fun _ => 1) :=
  ⟨(rejected_noEffect respondedRun ⟨[0xFF], default, none⟩ fun _ => 0).1 (by decide),
    (rejected_noEffect (smcpCreate default (fun _ => 5) fun _ => 1) ⟨[0xFF], default, none⟩
      fun _ => 0).2 default (by decide) (.inl rfl)⟩

/-- An application whose request handler takes the handler away. -/
def disablingHooks : Hooks
  | .request _, s => ({ s with requestHandler := none }, 0)
  | _, s => (s, 0)

/-- With uIP the rejected packet `FF` makes the request that was answered before be handled again. -/
theorem rejected_handled_again : respondedRun.sent.length = 1 ∧
    ¬∀ s, Reachable s → ∀ bytes source dest rest,
      coapVerifyPacket (ofList bytes rest) bytes.length = false →
      NoEffect (fun hooks s => smcpProcessUip hooks s (.newdata bytes source dest) rest) s := by
  refine ⟨by decide +kernel, fun h => ?_⟩
  have hcalls := (h respondedRun reachable_respondedRun [0xFF] default default (fun _ => 0)
    (by decide)).calls idleHooks disablingHooks
  have hhandler := congrArg Instance.requestHandler hcalls
  revert hhandler
  decide +kernel

end Smcp
