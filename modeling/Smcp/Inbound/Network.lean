import Mathlib.Algebra.Order.BigOperators.Group.List
import Smcp.Inbound.MessageLayer

/-!
# Endpoints on a network

Any number of endpoints that exchange datagrams over a network which delays, reorders, loses and
repeats them.

* `NetStep`: what can happen next;
* `messageWeight`: how many deliveries a message can lead to;
* `network_deliveries_le`: no storm of replies arises from any number of messages;
* `network_accounted`: whatever is on its way was sent by an application or a timer, or is the reply
  to a message that its sender received.
-/

namespace Smcp

open ByteMemory Relation

/-! ## The network -/

/-- A datagram on its way. -/
structure Envelope where
  source : SockAddr
  dest : SockAddr
  bytes : List UInt8
deriving DecidableEq

/-- The bytes as they lie in memory. -/
def Envelope.memory (e : Envelope) : ℕ → UInt8 := ofList e.bytes fun _ => 0

/-- What becomes of a datagram that the endpoint at `source` sends. -/
def Datagram.envelope (source : SockAddr) (d : Datagram) : Envelope := ⟨source, d.dest, d.bytes⟩

/-- The endpoints by their addresses, and what is between them. The history has what was sent on
behalf of applications and timers, how often the network repeated something, and what arrived. -/
structure Network where
  node : SockAddr → Instance
  flying : List Envelope := []
  injected : List Envelope := []
  copies : ℕ := 0
  delivered : List Envelope := []

/-- The receiving part of `smcp_process`. -/
def receiveEnvelope (hooks : Hooks) (s : Instance) (e : Envelope) (rest : ℕ → UInt8) : Instance :=
  { (receivePacket hooks s ⟨e.bytes, e.source, some e.dest⟩ rest).1 with isResponding := false }

/-- What the endpoint at `a` sends until it is in the state `s`. -/
def Network.sends (n : Network) (a : SockAddr) (s : Instance) : List Envelope :=
  (s.sent.drop (n.node a).sent.length).map (Datagram.envelope a)

/-- The endpoint at `a` gets into the state `s`, by an application or a timer. -/
def Network.act (n : Network) (a : SockAddr) (s : Instance) : Network :=
  { n with
    node := Function.update n.node a s
    flying := n.flying ++ n.sends a s
    injected := n.injected ++ n.sends a s }

/-- A datagram arrives. `hooks` is the application there. -/
def Network.receive (n : Network) (hooks : Hooks) (e : Envelope) (rest : ℕ → UInt8) : Network :=
  let s := receiveEnvelope hooks (n.node e.dest) e rest
  { n with
    node := Function.update n.node e.dest s
    flying := n.flying.erase e ++ n.sends e.dest s
    delivered := e :: n.delivered }

/-- A step of the network: an endpoint does something of its own accord, or the network delivers,
loses or repeats a datagram. `hooks a` is the application at `a`. -/
inductive NetStep (hooks : SockAddr → Hooks) (n : Network) : Network → Prop
  | act (a : SockAddr) (s : Instance) (hidle : s.isResponding = false)
      (hworks : ∀ k, 0 < s.sendResult k) : NetStep hooks n (n.act a s)
  | receive (e : Envelope) (he : e ∈ n.flying) (hfamily : e.source.family ≠ 0) (rest : ℕ → UInt8) :
      NetStep hooks n (n.receive (hooks e.dest) e rest)
  | lose (e : Envelope) (he : e ∈ n.flying) : NetStep hooks n { n with flying := n.flying.erase e }
  | copy (e : Envelope) (he : e ∈ n.flying) :
      NetStep hooks n { n with flying := e :: n.flying, copies := n.copies + 1 }

/-- No endpoint is in the middle of a response, and the sockets work. -/
def Network.Idle (n : Network) : Prop :=
  ∀ a, (n.node a).isResponding = false ∧ ∀ k, 0 < (n.node a).sendResult k

/-! ## Replies -/

/-- How many deliveries a message can lead to, its own included: a request may be answered by a
response, a response or an empty message may be acknowledged or reset. -/
def messageWeight (m : ℕ → UInt8) : ℕ :=
  if coapCodeIsRequest (headerCode m) then 3
  else if headerTt m ≤ coapTransTypeNonconfirmable then 2
  else 1

/-- The header is in the first four bytes. -/
theorem messageWeight_congr {m m' : ℕ → UInt8} (h : ∀ j < 4, m' j = m j) :
    messageWeight m' = messageWeight m ∧ headerMsgId m' = headerMsgId m := by
  unfold messageWeight headerCode headerTt headerMsgId
  rw [h 0 (by decide), h 1 (by decide), h 2 (by decide), h 3 (by decide)]
  exact ⟨rfl, rfl⟩

theorem messageWeight_pos (m : ℕ → UInt8) : 0 < messageWeight m := by
  unfold messageWeight
  split_ifs <;> decide

theorem messageWeight_le (m : ℕ → UInt8) : messageWeight m ≤ 3 := by
  unfold messageWeight
  split_ifs <;> decide

section
variable {i : Inbound} {known : Bool} {ds : List Datagram}

/-- An empty ACK or reset leads to nothing. -/
theorem header_emptyMessage {tt msgId : ℕ} (htt : tt = coapTransTypeAck ∨ tt = coapTransTypeReset)
    (hid : msgId < 65536) (dest : SockAddr) :
    messageWeight (Datagram.memory ⟨dest, emptyMessage tt msgId⟩) = 1 ∧
      headerMsgId (Datagram.memory ⟨dest, emptyMessage tt msgId⟩) = msgId := by
  have hcode : headerCode (Datagram.memory ⟨dest, emptyMessage tt msgId⟩) = 0 := rfl
  have htype : ¬headerTt (Datagram.memory ⟨dest, emptyMessage tt msgId⟩) ≤
      coapTransTypeNonconfirmable := by
    have hfirst : Datagram.memory ⟨dest, emptyMessage tt msgId⟩ 0 =
        UInt8.ofNat (coapVersion * 64 + tt * 16 + 0) := rfl
    unfold headerTt
    rw [hfirst]
    rcases htt with rfl | rfl <;> decide
  constructor
  · unfold messageWeight
    rw [hcode, if_neg (by decide), if_neg htype]
  · show (UInt8.ofNat (msgId % 256)).toNat + (UInt8.ofNat (msgId / 256)).toNat * 256 = msgId
    rw [UInt8.toNat_ofNat', UInt8.toNat_ofNat']
    omega

/-- A response leads to less than a request. -/
theorem messageWeight_response {m : ℕ → UInt8} (h : coapResult100 ≤ headerCode m) :
    messageWeight m ≤ 2 := by
  have hcode : coapCodeIsRequest (headerCode m) = false := by
    simp only [coapCodeIsRequest, Bool.and_eq_false_iff, decide_eq_false_iff_not]
    exact .inr (Nat.not_lt.2 h)
  unfold messageWeight
  rw [hcode, if_neg Bool.false_ne_true]
  split_ifs <;> decide

/-- The replies to a message weigh less than the message. They go to its sender, with its id. -/
theorem MessageLayer.lighter (h : MessageLayer i known ds) :
    (ds.map fun d => messageWeight d.memory).sum < messageWeight i.bytes ∧
      ∀ d ∈ ds, d.dest = i.saddr ∧ headerMsgId d.memory = headerMsgId i.bytes := by
  -- there is no reply, or one that weighs less
  have hnone : (([] : List Datagram).map fun d => messageWeight d.memory).sum < messageWeight i.bytes ∧
      ∀ d ∈ ([] : List Datagram), d.dest = i.saddr ∧ headerMsgId d.memory = headerMsgId i.bytes :=
    ⟨messageWeight_pos _, nofun⟩
  have hone {d : Datagram} (hlight : messageWeight d.memory < messageWeight i.bytes)
      (hdest : d.dest = i.saddr) (hid : headerMsgId d.memory = headerMsgId i.bytes) :
      ([d].map fun d => messageWeight d.memory).sum < messageWeight i.bytes ∧
        ∀ d' ∈ [d], d'.dest = i.saddr ∧ headerMsgId d'.memory = headerMsgId i.bytes := by
    constructor
    · rw [List.map_singleton, List.sum_singleton]
      exact hlight
    · intro d' hd'
      rw [List.mem_singleton.1 hd']
      exact ⟨hdest, hid⟩
  -- a request weighs the most, since a response may answer it
  have hrequest (hcode : coapCodeIsRequest (headerCode i.bytes) = true) : messageWeight i.bytes = 3 := by
    unfold messageWeight
    rw [if_pos hcode]
  have hheavy (htt : headerTt i.bytes ≤ coapTransTypeNonconfirmable) : 2 ≤ messageWeight i.bytes := by
    unfold messageWeight
    split_ifs <;> omega
  -- the id of a reply is the one of the message, so the pair of them is settled
  have hid := headerMsgId_lt i.bytes
  have hcon (htt : headerTt i.bytes = coapTransTypeConfirmable) :
      headerTt i.bytes ≤ coapTransTypeNonconfirmable := by
    rw [htt]
    exact Nat.zero_le _
  -- one case for each kind of reply that the message layer gives
  cases h with
  | dropped hdropped => exact hnone
  | answered hkept hcode htt hanswers hresponse =>
    apply hone _ hanswers.dest hanswers.msgId
    have hlight := messageWeight_response hresponse
    rw [hrequest hcode]
    omega
  | responded hkept hcode htt hresponds =>
    apply hone _ hresponds.dest hresponds.msgId
    have hlight := messageWeight_response hresponds.code
    rw [hrequest hcode]
    omega
  | unanswered hkept hcode htt => exact hnone
  | unknown hkept hcode hunknown htt =>
    obtain ⟨hweight, hsame⟩ := header_emptyMessage (.inr rfl) hid i.saddr
    apply hone _ rfl hsame
    rw [hweight]
    exact hheavy htt
  | known hkept hcode hknown htt hreply =>
    obtain ⟨hweight, hsame⟩ := header_emptyMessage hreply hid i.saddr
    apply hone _ rfl hsame
    rw [hweight]
    exact hheavy (hcon htt)
  | silent hcode htt hsilent => exact hnone

end

/-! ## Receiving -/

/-- What the endpoint does with a datagram: so many replies, and it is ready for the next. -/
structure Consumed (e : Envelope) (s s' : Instance) : Prop where
  idle : s'.isResponding = false
  sendResult : s'.sendResult = s.sendResult
  replies : ∃ ds, s'.sent = s.sent ++ ds ∧
    (ds.map fun d => messageWeight d.memory).sum < messageWeight e.memory ∧
    ∀ d ∈ ds, d.dest = e.source ∧ headerMsgId d.memory = headerMsgId e.memory

section
variable {hooks : Hooks} {s : Instance} {e : Envelope}

theorem consumed_receiveEnvelope (hquiet : CallbacksQuiet hooks) (honce : RespondsAtMostOnce hooks)
    (hfamily : e.source.family ≠ 0) (hresponding : s.isResponding = false)
    (htakes : ∀ k, 0 < s.sendResult k) (rest : ℕ → UInt8) :
    Consumed e s (receiveEnvelope hooks s e rest) := by
  -- what does nothing consumes the envelope and adds none
  have hnothing : ∃ ds, s.sent = s.sent ++ ds ∧
      (ds.map fun d => messageWeight d.memory).sum < messageWeight e.memory ∧
      ∀ d ∈ ds, d.dest = e.source ∧ headerMsgId d.memory = headerMsgId e.memory :=
    ⟨[], (List.append_nil _).symm, messageWeight_pos _, nofun⟩
  unfold receiveEnvelope receivePacket
  dsimp only
  -- an empty packet is refused by the length, before anything is read
  by_cases hempty : e.bytes.take smcpMaxPacketLength = []
  · rw [if_pos hempty]
    exact ⟨rfl, rfl, hnothing⟩
  · rw [if_neg hempty]
    generalize hbytes : e.bytes.take smcpMaxPacketLength = bytes
    -- a packet that is verified is answered as the message layer says, any other one is dropped
    by_cases hv : coapVerifyPacket (ofList bytes rest) bytes.length = true
    · have hreplied : Replied
          (s.arrived (ofList bytes rest) bytes.length e.source (some e.dest)).inbound _ s _ :=
        replied_processPacket hquiet honce hv hfamily hresponding htakes
      obtain ⟨⟨ds, hds, hlayer⟩, hresult⟩ := hreplied
      obtain ⟨hlight, hall⟩ := hlayer.lighter
      have hge := four_le_of_coapVerifyPacket hv
      have hheader (j : ℕ) (hj : j < 4) :
          (s.arrived (ofList bytes rest) bytes.length e.source (some e.dest)).inbound.bytes j =
            e.memory j := by
        have hlt : j < bytes.length := by omega
        rw [arrived_header hv s e.source (some e.dest) j hj, Envelope.memory, ofList, ofList]
        rw [List.getD_eq_getElem?_getD, List.getD_eq_getElem?_getD, List.getElem?_eq_getElem hlt]
        subst hbytes
        rw [List.length_take] at hlt
        rw [List.getElem_take, List.getElem?_eq_getElem (by omega)]
        rfl
      obtain ⟨hweight, hid⟩ := messageWeight_congr hheader
      rw [hweight] at hlight
      rw [hid] at hall
      exact ⟨rfl, hresult, ds, hds, hlight, hall⟩
    · have hrejected : processPacket hooks s (ofList bytes rest) bytes.length e.source (some e.dest) =
          (s, smcpStatusBadPacket) := by
        unfold processPacket smcpInboundStartPacket
        rw [if_neg hv]
        rfl
      rw [hrejected]
      exact ⟨rfl, rfl, hnothing⟩

end

/-! ## Runs -/

/-- How many deliveries everything on its way can lead to. -/
def Network.load (n : Network) : ℕ := (n.flying.map fun e => messageWeight e.memory).sum

/-- `e` is a reply to `e'`: it goes back, with the same id, and leads to less. -/
structure Envelope.RepliesTo (e e' : Envelope) : Prop where
  source : e.source = e'.dest
  dest : e.dest = e'.source
  msgId : headerMsgId e.memory = headerMsgId e'.memory
  lighter : messageWeight e.memory < messageWeight e'.memory

/-- Where it comes from is known. -/
def Network.Accounts (n : Network) (e : Envelope) : Prop :=
  e ∈ n.injected ∨ ∃ e' ∈ n.delivered, e.RepliesTo e'

/-- What holds at any time. -/
structure Network.Ok (n : Network) : Prop where
  idle : n.Idle
  load_le : n.delivered.length + n.load ≤ 3 * (n.injected.length + n.copies)
  accounts : ∀ e, e ∈ n.flying ∨ e ∈ n.delivered → n.Accounts e

section
variable {hooks : SockAddr → Hooks} {n n' : Network} {a : SockAddr} {s : Instance}

theorem Network.sends_eq {ds : List Datagram} (h : s.sent = (n.node a).sent ++ ds) :
    n.sends a s = ds.map (Datagram.envelope a) := by
  unfold Network.sends
  rw [h, List.drop_left]

theorem Network.Idle.update (h : n.Idle) (a : SockAddr) (hidle : s.isResponding = false)
    (hworks : ∀ k, 0 < s.sendResult k) (b : SockAddr) :
    (Function.update n.node a s b).isResponding = false ∧
      ∀ k, 0 < (Function.update n.node a s b).sendResult k := by
  by_cases hb : b = a
  · rw [hb, Function.update_self]
    exact ⟨hidle, hworks⟩
  · rw [Function.update_of_ne hb]
    exact h b

/-- Whatever is sent leads to three deliveries at most. -/
theorem load_le_length (l : List Envelope) :
    (l.map fun e => messageWeight e.memory).sum ≤ 3 * l.length := by
  induction l with
  | nil => exact Nat.zero_le _
  | cons e l ih =>
    have hle := messageWeight_le e.memory
    rw [List.map_cons, List.sum_cons, List.length_cons]
    omega

theorem load_erase {l : List Envelope} {e : Envelope} (he : e ∈ l) :
    (l.map fun e => messageWeight e.memory).sum =
      messageWeight e.memory + ((l.erase e).map fun e => messageWeight e.memory).sum :=
  (List.sum_map_erase _ he).symm

theorem NetStep.ok (hquiet : ∀ a, CallbacksQuiet (hooks a)) (honce : ∀ a, RespondsAtMostOnce (hooks a))
    (hstep : NetStep hooks n n') (h : n.Ok) : n'.Ok := by
  -- one case for each step of the network: the endpoints' own, and what the medium does
  cases hstep with
  | act a s hidle hworks =>
    have hload := load_le_length (n.sends a s)
    have hle := h.load_le
    refine ⟨h.idle.update a hidle hworks, ?_, ?_⟩
    · unfold Network.load at hle ⊢
      unfold Network.act
      dsimp only
      rw [List.map_append, List.sum_append, List.length_append]
      omega
    · intro e he
      rcases he with hflying | hdelivered
      · rcases List.mem_append.1 hflying with hold | hnew
        · rcases h.accounts e (.inl hold) with hsent | hreply
          · exact .inl (List.mem_append_left _ hsent)
          · exact .inr hreply
        · exact .inl (List.mem_append_right _ hnew)
      · rcases h.accounts e (.inr hdelivered) with hsent | hreply
        · exact .inl (List.mem_append_left _ hsent)
        · exact .inr hreply
  | receive e he hfamily rest =>
    have hnode := h.idle e.dest
    obtain ⟨hidle, hresult, ds, hds, hlight, hall⟩ := consumed_receiveEnvelope (hquiet e.dest)
      (honce e.dest) hfamily hnode.1 hnode.2 rest
    have hworks (k : ℕ) :
        0 < (receiveEnvelope (hooks e.dest) (n.node e.dest) e rest).sendResult k := by
      rw [hresult]
      exact hnode.2 k
    have hreplies := n.sends_eq hds
    have hle := h.load_le
    have herase := load_erase he
    refine ⟨h.idle.update e.dest hidle hworks, ?_, ?_⟩
    · have hsum : ((ds.map (Datagram.envelope e.dest)).map fun e => messageWeight e.memory).sum <
          messageWeight e.memory := by
        rw [List.map_map]
        exact hlight
      unfold Network.load at hle ⊢
      unfold Network.receive
      dsimp only
      rw [hreplies, List.map_append, List.sum_append, List.length_cons]
      omega
    · have hold (e' : Envelope) (he' : n.Accounts e') : e' ∈ n.injected ∨
          ∃ e'' ∈ e :: n.delivered, e'.RepliesTo e'' := by
        rcases he' with hsent | ⟨e'', hmem, hreply⟩
        · exact .inl hsent
        · exact .inr ⟨e'', List.mem_cons_of_mem _ hmem, hreply⟩
      intro e' he'
      rcases he' with hflying | hdelivered
      · rcases List.mem_append.1 hflying with hrest | hnew
        · exact hold e' (h.accounts e' (.inl (List.mem_of_mem_erase hrest)))
        · rw [hreplies] at hnew
          obtain ⟨d, hd, rfl⟩ := List.mem_map.1 hnew
          obtain ⟨hdest, hid⟩ := hall d hd
          have hone : messageWeight d.memory ≤ (ds.map fun d => messageWeight d.memory).sum :=
            List.single_le_sum (fun _ _ => Nat.zero_le _) _ (List.mem_map_of_mem hd)
          exact .inr ⟨e, List.mem_cons_self, rfl, hdest, hid, hone.trans_lt hlight⟩
      · rcases List.mem_cons.1 hdelivered with rfl | hbefore
        · exact hold e' (h.accounts e' (.inl he))
        · exact hold e' (h.accounts e' (.inr hbefore))
  | lose e he =>
    have hle := h.load_le
    have herase := load_erase he
    refine ⟨h.idle, ?_, ?_⟩
    · unfold Network.load at hle ⊢
      dsimp only
      omega
    · intro e' he'
      rcases he' with hflying | hdelivered
      · exact h.accounts e' (.inl (List.mem_of_mem_erase hflying))
      · exact h.accounts e' (.inr hdelivered)
  | copy e he =>
    have hle := h.load_le
    have hweight := messageWeight_le e.memory
    refine ⟨h.idle, ?_, ?_⟩
    · unfold Network.load at hle ⊢
      dsimp only
      rw [List.map_cons, List.sum_cons]
      omega
    · intro e' he'
      rcases he' with hflying | hdelivered
      · rcases List.mem_cons.1 hflying with rfl | hold
        · exact h.accounts e' (.inl he)
        · exact h.accounts e' (.inl hold)
      · exact h.accounts e' (.inr hdelivered)

/-- Endpoints that have nothing to do with each other yet. -/
theorem Network.Ok.start {node : SockAddr → Instance} (h : Network.Idle ⟨node, [], [], 0, []⟩) :
    Network.Ok ⟨node, [], [], 0, []⟩ :=
  ⟨h, Nat.le_refl 0, fun _ he => absurd (he.elim id id) List.not_mem_nil⟩

theorem NetStep.run_ok (hquiet : ∀ a, CallbacksQuiet (hooks a))
    (honce : ∀ a, RespondsAtMostOnce (hooks a)) (hrun : ReflTransGen (NetStep hooks) n n')
    (h : n.Ok) : n'.Ok := by
  induction hrun with
  | refl => exact h
  | tail _ hstep ih => exact hstep.ok hquiet honce ih

/-- However the network delays, reorders, loses and repeats datagrams, the deliveries are at most
three for each datagram that an application or a timer sent or the network repeated, those that
what is on its way can still lead to included. -/
theorem network_deliveries_le {node : SockAddr → Instance} (hquiet : ∀ a, CallbacksQuiet (hooks a))
    (honce : ∀ a, RespondsAtMostOnce (hooks a)) (hidle : Network.Idle ⟨node, [], [], 0, []⟩)
    (hrun : ReflTransGen (NetStep hooks) ⟨node, [], [], 0, []⟩ n) :
    n.delivered.length + n.load ≤ 3 * (n.injected.length + n.copies) :=
  (NetStep.run_ok hquiet honce hrun (.start hidle)).load_le

/-- Whatever is on its way, or has arrived, was sent by the application or a timer of its sender, or
else replies to a message that its sender received before. So nobody gets an acknowledgement or a
reset of a message that did not arrive. -/
theorem network_accounted {node : SockAddr → Instance} (hquiet : ∀ a, CallbacksQuiet (hooks a))
    (honce : ∀ a, RespondsAtMostOnce (hooks a)) (hidle : Network.Idle ⟨node, [], [], 0, []⟩)
    (hrun : ReflTransGen (NetStep hooks) ⟨node, [], [], 0, []⟩ n) {e : Envelope}
    (he : e ∈ n.flying ∨ e ∈ n.delivered) : n.Accounts e :=
  (NetStep.run_ok hquiet honce hrun (.start hidle)).accounts e he

end

/-! ## An exchange -/

/-- A server everywhere. -/
def servingNetwork : Network where
  node _ := servingRun

/-- The one at port 5684 has sent a request to the one at port 5683. -/
def requestingRun : Instance :=
  Run.execAll Op.exec idleHooks
    [.outbound (.begin coapMethodGet coapTransTypeConfirmable), .outbound (.setDestaddr localPeer),
      .outbound .send] servingRun

/-- The request, and its answer. -/
def exchangeRun : Network :=
  ((servingNetwork.act (peerAt 1 5684) requestingRun).receive (answeringHooks (httpToCoapCode 205) [0x68])
    ⟨peerAt 1 5684, localPeer, [0x40, 0x01, 0x00, 0x00]⟩ fun _ => 0).receive
    (answeringHooks (httpToCoapCode 205) [0x68])
    ⟨localPeer, peerAt 1 5684, [0x60, 0x45, 0x00, 0x00, 0xFF, 0x68]⟩ fun _ => 0

theorem netStep_exchangeRun :
    ReflTransGen (NetStep fun _ => answeringHooks (httpToCoapCode 205) [0x68]) servingNetwork
      exchangeRun := by
  have hrequested : requestingRun.isResponding = false := by decide +kernel
  have hworks (k : ℕ) : 0 < requestingRun.sendResult k := Int.one_pos
  have hact := ReflTransGen.single
    (NetStep.act (peerAt 1 5684) requestingRun hrequested hworks : NetStep
      (fun _ => answeringHooks (httpToCoapCode 205) [0x68]) servingNetwork _)
  apply (hact.tail (.receive _ _ _ _)).tail (.receive _ _ _ _)
  · decide +kernel
  · decide
  · decide +kernel
  · decide

theorem network_deliveries_le_exchange :
    exchangeRun.delivered.length = 2 ∧ exchangeRun.injected.length = 1 ∧
      exchangeRun.delivered.length + exchangeRun.load ≤
        3 * (exchangeRun.injected.length + exchangeRun.copies) :=
  ⟨by decide +kernel, by decide +kernel,
    network_deliveries_le (fun _ => callbacksQuiet_answeringHooks _ _)
      (fun _ => respondsAtMostOnce_answeringHooks (by decide) (by decide) _)
      (fun _ => ⟨rfl, fun _ => Int.one_pos⟩) netStep_exchangeRun⟩

theorem network_accounted_exchange :
    exchangeRun.Accounts ⟨localPeer, peerAt 1 5684, [0x60, 0x45, 0x00, 0x00, 0xFF, 0x68]⟩ :=
  network_accounted (fun _ => callbacksQuiet_answeringHooks _ _)
    (fun _ => respondsAtMostOnce_answeringHooks (by decide) (by decide) _)
    (fun _ => ⟨rfl, fun _ => Int.one_pos⟩) netStep_exchangeRun (.inr (by decide +kernel))

end Smcp
