import Smcp.Cgi.Output
import Smcp.Cgi.States

/-!
# Fetching the output of a CGI command block by block

A client fetches the output of a command, and the node reads it from the command in pieces of any
size.

* `CgiExchange`: the client and the output;
* `CgiExchange.Op`: requests, reads, transmissions and acknowledgements, in any order that the client
  and the pipe allow;
* `Arrives.first`, `Arrives.later`, `Arrives.laterNow`, `process_waitFd`, `resend_sends`,
  `ackHandler_open`: what the node does at each of them.
-/

namespace Smcp

open ByteMemory Run

/-! ## The client and the output -/

/-- A client with its address, its token and its block size, the output of the command, and the slot
for the request. -/
structure CgiExchange where
  slot : Fin cgiNodeMaxRequests
  addr : SockAddr
  token : List UInt8
  szx : ℕ
  output : List UInt8
  token_le : token.length ≤ 8
  szx_le : szx ≤ 5
  family : addr.family ≠ 0

namespace CgiExchange

variable (x : CgiExchange)

def blockSize : ℕ := 2 ^ (x.szx + 4)

/-- Block2 of the request for a block. -/
def block2 (number : ℕ) : ℕ := number * 16 + x.szx

/-- The value of a Block2 option is about the block `number`, whatever its M bit is. -/
structure IsBlock (b number : ℕ) : Prop where
  number_eq : b >>> 4 = number
  szx_eq : b &&& 0x7 = x.szx

/-- The packet is a confirmable `GET` with the token. -/
structure Header (m : ℕ → UInt8) : Prop where
  tt : headerTt m = coapTransTypeConfirmable
  code : headerCode m = coapMethodGet
  tokenLen : headerTokenLen m = x.token.length
  token : readBytes m 4 x.token.length = x.token

/-- The response object is for the client. -/
structure Stored (a : AsyncResponse) : Prop where
  source : a.remoteSaddr = x.addr
  header : x.Header a.request

/-- A request of the client without content has arrived, and is being handled. -/
structure Arrives (s : Instance) : Prop where
  packet : s.inbound.packet.isSome
  header : x.Header s.inbound.bytes
  inside : 4 + x.token.length ≤ s.inbound.packetLen
  source : s.inbound.saddr = x.addr
  content : s.inbound.contentLen = 0
  fresh : s.inbound.isDupe = false
  real : s.inbound.isFake = false
  processing : s.isProcessingMessage = true
  didRespond : s.didRespond = false
  isResponding : s.isResponding = false
  auto : s.autoOptions = {}
  takes : ∀ n, 0 < s.sendResult n

/-- It asks for the block `number`. Block2 has 20 bits for the number. -/
structure Asks (s : Instance) (number : ℕ) : Prop extends x.Arrives s where
  options : readBlockOptions (s.inbound.readOptions (s.inbound.packetLen + 1)) {} =
    some { block2 := x.block2 number }
  number_lt : number < 2 ^ 20

variable {x} {b number : ℕ}

/-! ## Block numbers -/

theorem blockSize_le : x.blockSize ≤ 512 := by
  have h := x.szx_le
  unfold blockSize
  calc 2 ^ (x.szx + 4) ≤ 2 ^ 9 := Nat.pow_le_pow_right (by decide) (by omega)
    _ = 512 := by decide

theorem blockSize_pos : 0 < x.blockSize := Nat.two_pow_pos _

theorem IsBlock.blockLen_eq (h : x.IsBlock b number) : blockLen b = x.blockSize := by
  rw [blockLen, h.szx_eq, Nat.shiftLeft_eq, one_mul, blockSize]

theorem IsBlock.blockStart_eq (h : x.IsBlock b number) (hlt : number < 2 ^ 20) :
    blockStart b = number * x.blockSize := by
  have hsize := x.blockSize_le
  rw [blockStart, h.blockLen_eq, h.number_eq]
  apply Nat.mod_eq_of_lt
  calc number * x.blockSize ≤ number * 512 := Nat.mul_le_mul_left _ hsize
    _ < 4294967296 := by omega

theorem IsBlock.lt (h : x.IsBlock b number) (hlt : number < 2 ^ 20) : b < 2 ^ 24 := by
  have hnum := h.number_eq
  rw [Nat.shiftRight_eq_div_pow] at hnum
  omega

theorem isBlock_block2 : x.IsBlock (x.block2 number) number := by
  have h := x.szx_le
  constructor
  · rw [block2, Nat.shiftRight_eq_div_pow]
    omega
  · rw [block2, show (0x7 : ℕ) = 2 ^ 3 - 1 by decide, Nat.and_two_pow_sub_one_eq_mod]
    omega

/-- The M bit set. -/
theorem IsBlock.setMore (h : x.IsBlock b number) : x.IsBlock (b ||| 8) number := by
  constructor
  · rw [Nat.shiftRight_or_distrib, h.number_eq]
    exact Nat.or_zero _
  · rw [Nat.and_or_distrib_right, h.szx_eq]
    exact Nat.or_zero _

/-- The M bit cleared. -/
theorem IsBlock.clearMore (h : x.IsBlock b number) (hlt : number < 2 ^ 20) :
    x.IsBlock (b &&& 0xFFFFFFF7) number := by
  constructor
  · rw [Nat.shiftRight_and_distrib, h.number_eq, show 0xFFFFFFF7 >>> 4 = 2 ^ 28 - 1 by decide,
      Nat.and_two_pow_sub_one_eq_mod, Nat.mod_eq_of_lt (by omega)]
  · rw [Nat.and_assoc]
    exact h.szx_eq

/-! ## Asynchronous responses -/

section
variable {s : Instance}

/-- The header and the token are in the first bytes. -/
theorem Header.congr {m m' : ℕ → UInt8} (h : x.Header m)
    (heq : ∀ j < 4 + x.token.length, m' j = m j) : x.Header m' := by
  have h0 := heq 0 (by omega)
  have h1 := heq 1 (by omega)
  constructor
  · rw [headerTt, h0]
    exact h.tt
  · rw [headerCode, h1]
    exact h.code
  · rw [headerTokenLen, h0]
    exact h.tokenLen
  · refine Eq.trans (readBytes_congr fun j _ hj => heq j ?_) h.token
    omega

/-- What is stored for a request with room for it. -/
theorem Arrives.stored (h : x.Arrives s) (hlen : s.inbound.packetLen ≤ 80) (a : AsyncResponse)
    (dontAck : Bool) : x.Stored (smcpStartAsyncResponse s a dontAck).response := by
  have hstored : x.Stored
      { remoteSaddr := s.inbound.saddr
        requestLen := s.inbound.packetLen
        request := fun j => if j < s.inbound.packetLen then s.inbound.bytes j else a.request j } := by
    refine ⟨h.source, h.header.congr fun j hj => if_pos ?_⟩
    have hinside := h.inside
    omega
  unfold smcpStartAsyncResponse
  dsimp only
  rw [h.content, Nat.sub_zero, if_neg (by unfold asyncRequestSize; omega)]
  split_ifs <;> exact hstored

/-- At first nothing is sent. -/
theorem Arrives.startAsync_dontAck (h : x.Arrives s) (hlen : s.inbound.packetLen ≤ 80)
    (a : AsyncResponse) : (smcpStartAsyncResponse s a true).state = s := by
  unfold smcpStartAsyncResponse
  dsimp only
  rw [h.content, Nat.sub_zero, if_neg (by unfold asyncRequestSize; omega), if_neg (by simp)]

/-- Then the request is acknowledged, with an empty message. -/
theorem Arrives.startAsync (h : x.Arrives s) (hlen : s.inbound.packetLen ≤ 80)
    (a : AsyncResponse) :
    ∃ d : Datagram, (smcpStartAsyncResponse s a false).state.sent = s.sent ++ [d] ∧
      headerCode d.memory = 0 := by
  have hfamily : s.inbound.saddr.family ≠ 0 := by
    rw [h.source]
    exact x.family
  have hsent := (sameSetup_beginResponse s coapCodeEmpty).sent
  obtain ⟨hok, hreplies⟩ := replies_beginResponse coapCodeEmpty h.packet h.processing
    h.didRespond h.isResponding (.inl rfl) (by decide) h.auto hfamily h.takes
  obtain ⟨hsend, hdatagram⟩ := hreplies.send
  rw [hsent] at hdatagram
  refine ⟨⟨s.inbound.saddr, (replyMessage s.inbound coapCodeEmpty).wire⟩, ?_, rfl⟩
  · unfold smcpStartAsyncResponse
    dsimp only
    rw [h.content, Nat.sub_zero, if_neg (by unfold asyncRequestSize; omega),
      if_pos ⟨rfl, h.header.tt⟩, if_neg (by simp [h.real]), if_neg (by simp [hok]),
      if_neg (by simp [hsend])]
    exact hdatagram

end

end CgiExchange

/-! ## Changing the state of one request -/

section
variable {env : CgiEnv} {node : CgiNode} {s : Instance} {i : Fin cgiNodeMaxRequests}

@[simp] theorem CgiNode.set_set (r r' : CgiNodeRequest) : (node.set i r).set i r' = node.set i r' := by
  unfold CgiNode.set
  rw [Function.update_idem]

theorem CgiNode.set_eq {r : CgiNodeRequest} (h : node.requests i = r) : node.set i r = node := by
  unfold CgiNode.set
  rw [← h, Function.update_eq_self]

/-- Closing the pipe to the command changes nothing else. -/
theorem closeStdin_eq (r : CgiNodeRequest) : ∃ fd, r.closeStdin = { r with fdCmdStdin := fd } := by
  unfold CgiNodeRequest.closeStdin
  split_ifs
  · exact ⟨_, rfl⟩
  · exact ⟨_, rfl⟩

/-- A request without Block1. -/
theorem takeInput_plain (hstate : (node.requests i).state = .activeBlock1WaitReq) :
    takeInput env node s i blockOptionUnspecified =
      cgiNodeRequestChangeState env
        (node.set i { node.requests i with
          stdinBuffer := (node.requests i).stdinBuffer ++ inboundContent s }) s i
        .activeBlock2WaitFd := by
  have hne : ¬(node.requests i).state = .activeBlock1WaitAck := by
    rw [hstate]
    decide
  unfold takeInput
  rw [if_neg hne]
  exact if_pos (.inl rfl)

/-- To `ACTIVE_BLOCK2_WAIT_FD`. -/
theorem changeState_waitFd (hstate : (node.requests i).state = .activeBlock2WaitReq ∨
    (node.requests i).state = .activeBlock1WaitReq) :
    cgiNodeRequestChangeState env node s i .activeBlock2WaitFd =
      ⟨node.set i
        { (node.requests i).closeStdin with
          asyncResponse :=
            (smcpStartAsyncResponse s (node.requests i).closeStdin.asyncResponse false).response
          state := .activeBlock2WaitFd },
        (smcpStartAsyncResponse s (node.requests i).closeStdin.asyncResponse false).state,
        smcpStatusOk⟩ := by
  have hchange : stateChange env node s i .activeBlock2WaitFd =
      some (startAsync (node.set i (node.requests i).closeStdin) s i) := by
    unfold stateChange
    rcases hstate with hs | hs <;> simp [hs]
  unfold cgiNodeRequestChangeState
  rw [hchange]
  dsimp only
  simp only [startAsync, CgiNode.set_self, CgiNode.set_set]

/-- To `ACTIVE_BLOCK2_WAIT_ACK`. -/
theorem changeState_waitAck (hstate : (node.requests i).state = .activeBlock2WaitFd)
    (hcallbacks : env.callbacks = id) :
    (cgiNodeRequestChangeState env node s i .activeBlock2WaitAck).node =
      node.set i { (node.requests i).closeStdin with state := .activeBlock2WaitAck } := by
  have hsend : (cgiNodeSendNextBlock env (node.set i (node.requests i).closeStdin) s i).node =
      node.set i (node.requests i).closeStdin := by
    unfold cgiNodeSendNextBlock
    dsimp only
    split
    · rfl
    · rw [hcallbacks]
      rfl
  have hchange : stateChange env node s i .activeBlock2WaitAck =
      some ((cgiNodeSendNextBlock env (node.set i (node.requests i).closeStdin) s i).node,
        (cgiNodeSendNextBlock env (node.set i (node.requests i).closeStdin) s i).smcp) := by
    unfold stateChange
    simp [hstate]
  unfold cgiNodeRequestChangeState
  rw [hchange]
  dsimp only
  rw [hsend, CgiNode.set_self, CgiNode.set_set]

/-- From `ACTIVE_BLOCK2_WAIT_ACK`, without a transaction to end. -/
theorem changeState_waitReq (hstate : (node.requests i).state = .activeBlock2WaitAck)
    (htransaction : (node.requests i).transaction = none) :
    cgiNodeRequestChangeState env node s i .activeBlock2WaitReq =
      ⟨node.set i { (node.requests i).closeStdin with state := .activeBlock2WaitReq }, s,
        smcpStatusOk⟩ := by
  have hclose : (node.requests i).closeStdin.transaction = none := by
    unfold CgiNodeRequest.closeStdin
    split_ifs <;> exact htransaction
  have hend : endTransaction env (node.set i (node.requests i).closeStdin) s i =
      (node.set i (node.requests i).closeStdin, s) := by
    unfold endTransaction
    rw [CgiNode.set_self, hclose]
  have hchange : stateChange env node s i .activeBlock2WaitReq =
      some (node.set i (node.requests i).closeStdin, s) := by
    unfold stateChange
    simp [hstate, hend]
  unfold cgiNodeRequestChangeState
  rw [hchange]
  dsimp only
  rw [CgiNode.set_self, CgiNode.set_set]

end

namespace CgiExchange

/-! ## The steps -/

/-- The node, what the command has still to write, and the client. -/
structure World where
  node : CgiNode
  unread : List UInt8
  client : BlockClient := {}

/-- What happens in an exchange. -/
inductive Op where
  /-- The request for the next block arrives. -/
  | request (env : CgiEnv) (now : ℤ) (fork : Fork) (s : Instance)
  /-- The main loop looks after the pipes; if it reads, it gets up to `n` bytes. -/
  | process (env : CgiEnv) (now : ℤ) (io : CgiPipes) (n : ℕ) (s : Instance)
  /-- The transaction transmits the response, and it arrives or is lost. -/
  | transmit (s : Instance) (arrives : Bool)
  /-- The acknowledgement of the client arrives. -/
  | acknowledge (env : CgiEnv) (s : Instance)
  /-- Something happens to other requests. -/
  | other (node : CgiNode)

variable (x : CgiExchange)

/-- The client gets what was sent. -/
def deliver (s s' : Instance) (c : BlockClient) : BlockClient :=
  (s'.sent.drop s.sent.length).foldl (BlockClient.receive x.token) c

/-- The pipes as `cgi_node_process` finds them when the command has `unread` to write. -/
def pipes (w : World) (io : CgiPipes) (n : ℕ) : CgiPipes :=
  { io with read := some (w.unread.take n) }.limit (w.node.requests x.slot).watched

/-- Do it. -/
def exec (op : Op) (w : World) : World :=
  match op with
  | .request env now fork s =>
    let r := cgiNodeRequestHandler env now fork w.node s
    { w with node := r.node, client := x.deliver s r.smcp { w.client with phase := .waiting } }
  | .process env now io n s =>
    let io := x.pipes w io n
    { w with
      node := (cgiNodeProcessRequest env now io w.node s x.slot).1
      unread :=
        if io.stdoutReady ∧ now ≤ (w.node.requests x.slot).expiration then w.unread.drop n
        else w.unread }
  | .transmit s arrives =>
    let r := cgiNodeAsyncResendResponse w.node s x.slot
    { w with node := r.node, client := if arrives then x.deliver s r.smcp w.client else w.client }
  | .acknowledge env s =>
    { w with
      node := (cgiNodeAsyncAckHandler env w.node s x.slot).node
      client := match w.client.phase with
        | .acknowledging last => w.client.next last
        | _ => w.client }
  | .other node => { w with node := node }

/-- The transaction of the request calls its resend callback. -/
structure Transmits (s : Instance) : Prop where
  current : s.currentTransaction.isSome
  isResponding : s.isResponding = false
  auto : s.autoOptions = {}
  takes : ∀ n, 0 < s.sendResult n

/-- The request belongs to the client. -/
structure Owns (r : CgiNodeRequest) : Prop where
  state : r.state ≠ .inactive
  tokenLen : headerTokenLen r.asyncResponse.request = x.token.length
  code : headerCode r.asyncResponse.request = coapMethodGet
  token : readBytes r.asyncResponse.request 4 x.token.length = x.token
  source : r.asyncResponse.remoteSaddr = x.addr

/-- The program runs, and the slots of the others do not belong to the client. -/
structure Apart (node : CgiNode) : Prop where
  running : node.fate = .running
  others : ∀ j, j ≠ x.slot → ¬x.Owns (node.requests j)

/-- Before the first request: the client has no slot, and the next one to be used is `x.slot`. -/
structure Idle (node : CgiNode) : Prop where
  apart : x.Apart node
  notOwned : ¬x.Owns (node.requests x.slot)
  free : freeSlot node none (List.finRange cgiNodeMaxRequests) = some x.slot
  transaction : (node.requests x.slot).transaction = none

/-- What the client and its surroundings do: the client asks for a block when it has the one before,
and acknowledges what it receives; `fork` succeeds; the pipe gives what the command writes, in pieces
of at most two blocks, and then the end of file; the transaction transmits until it is acknowledged. -/
def Legal (op : Op) (w : World) : Prop :=
  match op with
  | .request _ _ fork s => w.client.phase = .ready ∧ x.Asks s w.client.number ∧ 0 < fork.pid
  | .process env _ io n _ =>
    env.callbacks = id ∧ env.transaction.isSome ∧ io.stdoutError = false ∧ 0 < n ∧
      n ≤ 2 * x.blockSize
  | .transmit s _ =>
    (w.node.requests x.slot).state = .activeBlock2WaitAck ∧ Transmits s
  | .acknowledge _ _ => ∃ last, w.client.phase = .acknowledging last
  | .other node =>
    x.Apart node ∧ node.requests x.slot = w.node.requests x.slot ∧
      (w.client.number = 0 → w.client.phase = .ready → x.Idle node)

/-- Less than two blocks are in the buffer, or two and there is nothing left to read. -/
def Drained (w : World) : Prop :=
  (w.node.requests x.slot).stdoutBuffer.length < 2 * x.blockSize ∨
    ((w.node.requests x.slot).stdoutBuffer.length = 2 * x.blockSize ∧ w.unread = [])

/-- A request fits into the buffer for the response object, and all but the first find little output
in the buffer; the exchange does not expire. -/
def Expected (op : Op) (w : World) : Prop :=
  match op with
  | .request _ _ _ s =>
    s.inbound.packetLen ≤ 80 ∧ (w.client.number ≠ 0 → x.Drained w)
  | .process _ now _ _ _ => now ≤ (w.node.requests x.slot).expiration
  | _ => True

/-! ## Requests -/

section
variable {x} {env : CgiEnv} {now : ℤ} {fork : Fork} {node : CgiNode} {s : Instance} {number : ℕ}
  {r : CgiNodeRequest}

/-- The option iterator moves on. -/
theorem Arrives.skip (h : x.Arrives s) (fuel : ℕ) :
    x.Arrives { s with inbound := s.inbound.skipOptions fuel } := by
  obtain ⟨key, option, heq⟩ := s.inbound.sameMessage_skipOptions fuel
  rw [heq]
  exact ⟨h.packet, h.header, h.inside, h.source, h.content, h.fresh, h.real, h.processing,
    h.didRespond, h.isResponding, h.auto, h.takes⟩

/-- The options are read, and the request is looked up. -/
theorem Asks.handler_eq (h : x.Asks s number) :
    ∃ s', x.Arrives s' ∧ s'.sent = s.sent ∧ s'.inbound.packetLen = s.inbound.packetLen ∧
      cgiNodeRequestHandler env now fork node s =
        handleRead env now fork node s' { block2 := x.block2 number } := by
  refine ⟨{ s with inbound := s.inbound.skipOptions (s.inbound.packetLen + 1) },
    h.toArrives.skip _, rfl, ?_, ?_⟩
  · obtain ⟨key, option, heq⟩ := s.inbound.sameMessage_skipOptions (s.inbound.packetLen + 1)
    rw [heq]
  · unfold cgiNodeRequestHandler
    dsimp only
    rw [h.options]

theorem Arrives.isFor_iff (h : x.Arrives s) : r.isFor s.inbound = true ↔ x.Owns r := by
  have hlen := h.header.tokenLen
  have hcode := h.header.code
  have htoken := h.header.token
  unfold CgiNodeRequest.isFor
  simp only [Bool.and_eq_true, beq_iff_eq, decide_eq_true_eq, hlen, hcode, htoken,
    h.source]
  constructor
  · rintro ⟨⟨⟨⟨h1, h2⟩, h3⟩, h4⟩, h5⟩
    exact ⟨h1, h2, h3, h4, h5⟩
  · rintro ⟨h1, h2, h3, h4, h5⟩
    exact ⟨⟨⟨⟨h1, h2⟩, h3⟩, h4⟩, h5⟩

variable (x) in
/-- A request of the client that has been begun: it has no input, no transaction that could be ended,
and no Block1 option to return. -/
structure Active (r : CgiNodeRequest) : Prop where
  stored : x.Stored r.asyncResponse
  transaction : r.transaction = none
  block1 : r.block1 = blockOptionUnspecified
  stdin : r.stdinBuffer = []

theorem Active.owns (h : x.Active r) (hstate : r.state ≠ .inactive) : x.Owns r :=
  ⟨hstate, h.stored.header.tokenLen, h.stored.header.code, h.stored.header.token, h.stored.source⟩

variable (env node) in
/-- The response is going to be sent later. -/
theorem Arrives.waitFd (h : x.Arrives s) (hlen : s.inbound.packetLen ≤ 80)
    (hr : node.requests x.slot = r) (htransaction : r.transaction = none)
    (hblock1 : r.block1 = blockOptionUnspecified) (hstdin : r.stdinBuffer = [])
    (hstate : r.state = .activeBlock2WaitReq ∨ r.state = .activeBlock1WaitReq) :
    ∃ r' d, (cgiNodeRequestChangeState env node s x.slot .activeBlock2WaitFd).node =
        node.set x.slot r' ∧ x.Active r' ∧ r'.state = .activeBlock2WaitFd ∧ r'.block2 = r.block2 ∧
      r'.stdoutBuffer = r.stdoutBuffer ∧ r'.fdCmdStdout = r.fdCmdStdout ∧
      (cgiNodeRequestChangeState env node s x.slot .activeBlock2WaitFd).smcp.sent = s.sent ++ [d] ∧
      headerCode d.memory = 0 := by
  obtain ⟨fd, hclose⟩ := closeStdin_eq r
  obtain ⟨d, hsent, hcode⟩ := h.startAsync hlen r.closeStdin.asyncResponse
  have hstored := h.stored hlen r.closeStdin.asyncResponse false
  rw [changeState_waitFd (by rw [hr]; exact hstate), hr]
  refine ⟨_, d, rfl, ?_, rfl, ?_, ?_, ?_, hsent, hcode⟩
  · rw [hclose] at hstored ⊢
    exact ⟨hstored, htransaction, hblock1, hstdin⟩
  all_goals rw [hclose]

/-- The first request: the client gets a slot. -/
theorem Arrives.first (h : x.Arrives s) (hlen : s.inbound.packetLen ≤ 80) (hidle : x.Idle node)
    (hfork : 0 < fork.pid) :
    ∃ r d, (handleRead env now fork node s { block2 := x.block2 0 }).node = node.set x.slot r ∧
      x.Active r ∧ r.state = .activeBlock2WaitFd ∧ r.block2 = x.block2 0 ∧ r.stdoutBuffer = [] ∧
      0 ≤ r.fdCmdStdout ∧
      (handleRead env now fork node s { block2 := x.block2 0 }).smcp.sent = s.sent ++ [d] ∧
      headerCode d.memory = 0 := by
  -- no slot has the token of this client yet
  have hget : cgiNodeGetAssociatedRequest node s = none := by
    unfold cgiNodeGetAssociatedRequest
    rw [List.find?_eq_none]
    intro j _
    rw [h.isFor_iff]
    by_cases hj : j = x.slot
    · rw [hj]
      exact hidle.notOwned
    · exact hidle.apart.others j hj
  -- the first request asks for block 0, and carries no content
  have hblock : x.block2 0 >>> 4 = 0 := isBlock_block2.number_eq
  have hcontent : inboundContent s = [] := by
    rw [inboundContent, h.content]
    rfl
  unfold handleRead
  dsimp only
  rw [if_neg (by simp [h.header.code, coapMethodGet]), hget]
  dsimp only
  -- so the request starts the command, and goes into the slot that is free
  rw [if_neg (by simp [hblock])]
  unfold cgiNodeCreateRequest
  rw [hidle.free]
  dsimp only
  rw [if_neg (by omega), h.startAsync_dontAck hlen, hidle.transaction]
  dsimp only
  unfold handleFound
  -- the slot is written twice, and only the last of it counts
  rw [CgiNode.setBlock2, CgiNode.set_self, CgiNode.set_set, CgiNode.set_self]
  dsimp only
  rw [takeInput_plain (by rw [CgiNode.set_self]), CgiNode.set_self, CgiNode.set_set, hcontent]
  obtain ⟨r, d, hnode, hactive, hstate, hblock2, hbuffer, hfd, hsent, hcode⟩ := h.waitFd env _
    (r :=
      { asyncResponse := (smcpStartAsyncResponse s (node.requests x.slot).asyncResponse true).response
        state := .activeBlock1WaitReq
        expiration := now + 30
        isActive := true
        fdCmdStdin := fork.stdin
        fdCmdStdout := fork.stdout
        pid := fork.pid
        block1 := blockOptionUnspecified
        block2 := x.block2 0
        transaction := none })
    hlen (CgiNode.set_self _) rfl rfl rfl (.inr rfl)
  refine ⟨r, d, hnode.trans (CgiNode.set_set _ _), hactive, hstate, hblock2, hbuffer, ?_, hsent, hcode⟩
  rw [hfd]
  exact Int.natCast_nonneg _

/-- A later request is found in its slot. -/
theorem Arrives.found (h : x.Arrives s) (hapart : x.Apart node)
    (howns : x.Owns (node.requests x.slot)) (b : BlockOptions) :
    handleRead env now fork node s b = handleFound env node s x.slot b := by
  have hget : cgiNodeGetAssociatedRequest node s = some x.slot := by
    unfold cgiNodeGetAssociatedRequest
    cases hfind : (List.finRange cgiNodeMaxRequests).find?
        fun i => (node.requests i).isFor s.inbound with
    | none =>
      exact absurd (h.isFor_iff.2 howns) (List.find?_eq_none.1 hfind x.slot (List.mem_finRange _))
    | some j =>
      have hp : (node.requests j).isFor s.inbound = true :=
        (List.find?_eq_some_iff_append.1 hfind).1
      have hj : x.Owns (node.requests j) := h.isFor_iff.1 hp
      rw [Option.some.injEq]
      by_contra hne
      exact hapart.others j hne hj
  unfold handleRead
  dsimp only
  rw [if_neg (by simp [h.header.code, coapMethodGet]), hget]

/-- The block that the client has is dropped. -/
theorem continueOutput_next (hr : node.requests x.slot = r) (hstate : r.state = .activeBlock2WaitReq)
    (hblock : x.IsBlock r.block2 number) (hlt : number + 1 < 2 ^ 20) :
    continueOutput env node s x.slot (x.block2 (number + 1)) =
      giveOutput env (node.set x.slot { r with
        stdoutBuffer := r.stdoutBuffer.drop x.blockSize, block2 := x.block2 (number + 1) }) s
        x.slot := by
  have hnext : x.IsBlock (x.block2 (number + 1)) (number + 1) := isBlock_block2
  have hold : ¬(r.block2 ≠ blockOptionUnspecified ∧
      blockStart (x.block2 (number + 1)) < blockStart r.block2) := by
    rw [hnext.blockStart_eq hlt, hblock.blockStart_eq (by omega), Nat.add_mul]
    omega
  have hne : x.block2 (number + 1) ≠ r.block2 := by
    intro heq
    have h1 := hnext.number_eq
    rw [heq, hblock.number_eq] at h1
    omega
  unfold continueOutput
  dsimp only
  rw [hr, if_neg hold, if_neg (by rw [hstate]; decide), if_pos hne, popBytes_eq, hr,
    hblock.blockLen_eq, CgiNode.setBlock2, CgiNode.set_self, CgiNode.set_set]

/-- A later request, with less than a block left in the buffer. -/
theorem Arrives.later (h : x.Arrives s) (hlen : s.inbound.packetLen ≤ 80) (hapart : x.Apart node)
    (hr : node.requests x.slot = r) (hactive : x.Active r) (hstate : r.state = .activeBlock2WaitReq)
    (hblock : x.IsBlock r.block2 number) (hlt : number + 1 < 2 ^ 20) (hopen : 0 ≤ r.fdCmdStdout)
    (hbuffer : (r.stdoutBuffer.drop x.blockSize).length < x.blockSize) :
    ∃ r' d, (handleRead env now fork node s { block2 := x.block2 (number + 1) }).node =
        node.set x.slot r' ∧ x.Active r' ∧ r'.state = .activeBlock2WaitFd ∧
      r'.block2 = x.block2 (number + 1) ∧
      r'.stdoutBuffer = r.stdoutBuffer.drop x.blockSize ∧ r'.fdCmdStdout = r.fdCmdStdout ∧
      (handleRead env now fork node s { block2 := x.block2 (number + 1) }).smcp.sent =
        s.sent ++ [d] ∧ headerCode d.memory = 0 := by
  -- the slot is the one of the client, so it is found again
  have howns : x.Owns (node.requests x.slot) := by
    rw [hr]
    exact hactive.owns (by rw [hstate]; decide)
  have hnext : x.IsBlock (x.block2 (number + 1)) (number + 1) := isBlock_block2
  obtain ⟨r', d, hnode, hrest⟩ := h.waitFd env
    (node.set x.slot { r with
      stdoutBuffer := r.stdoutBuffer.drop x.blockSize, block2 := x.block2 (number + 1) })
    hlen (CgiNode.set_self _) hactive.transaction hactive.block1 hactive.stdin (.inl hstate)
  rw [CgiNode.set_set] at hnode
  rw [h.found hapart howns]
  unfold handleFound
  rw [hr, hstate]
  dsimp only
  -- the block that was asked for is over: it is taken off the buffer, and the next one is due
  rw [continueOutput_next hr hstate hblock hlt]
  unfold giveOutput
  dsimp only
  rw [CgiNode.set_self]
  dsimp only
  rw [hnext.blockLen_eq, if_neg (by omega)]
  exact ⟨r', d, hnode, hrest⟩

/-- With a block in the buffer and the pipe open, the answer is the block with Block2 as it is. -/
theorem Arrives.giveOutput_now (h : x.Arrives s) (hr : node.requests x.slot = r)
    (hblock : x.IsBlock r.block2 number) (hopen : 0 ≤ r.fdCmdStdout)
    (hbuffer : x.blockSize ≤ r.stdoutBuffer.length) :
    (giveOutput env node s x.slot).smcp.sent = s.sent ++ [⟨s.inbound.saddr,
      (blockMessage (replyMessage s.inbound (httpToCoapCode 205)) (some r.block2)
        (r.stdoutBuffer.take x.blockSize)).wire⟩] := by
  have hfamily : s.inbound.saddr.family ≠ 0 := by
    rw [h.source]
    exact x.family
  have hmore : r.hasMore = true := by simp [CgiNodeRequest.hasMore, hopen]
  have hnextBlock : r.nextBlock = r.stdoutBuffer.take x.blockSize := by
    rw [CgiNodeRequest.nextBlock, hblock.blockLen_eq]
  have hcontent : (r.stdoutBuffer.take x.blockSize).length ≤ 512 :=
    (List.length_take_le _ _).trans x.blockSize_le
  have hle : blockLen r.block2 ≤ r.stdoutBuffer.length := by
    rw [hblock.blockLen_eq]
    exact hbuffer
  -- the response is begun, and the block is sent
  obtain ⟨hbegin, hreplies⟩ := replies_beginResponse (httpToCoapCode 205) h.packet
    h.processing h.didRespond h.isResponding (.inr (by decide)) (by decide) h.auto hfamily h.takes
  have htoken : (replyMessage s.inbound (httpToCoapCode 205)).token.length ≤ 8 := by
    show (readBytes s.inbound.bytes 4 (headerTokenLen s.inbound.bytes)).length ≤ 8
    rw [length_readBytes, h.header.tokenLen]
    exact x.token_le
  have hroom := hreplies.spaceRemaining_ge rfl rfl htoken
  obtain ⟨hok, hsent⟩ := hreplies.sendOutput rfl rfl (some r.block2)
    (l := r.stdoutBuffer.take x.blockSize) (by omega)
  rw [(sameSetup_beginResponse s (httpToCoapCode 205)).sent] at hsent
  unfold giveOutput
  dsimp only
  rw [hr, hmore, hnextBlock, if_pos (.inl hle), if_neg (by simp [hbegin]), if_pos rfl,
    if_neg (by simp [hok]), if_neg (by omega)]
  exact hsent

variable (env now fork) in
/-- A later request, with a block or more left in the buffer: it is answered at once. -/
theorem Arrives.laterNow (h : x.Arrives s) (hapart : x.Apart node)
    (hr : node.requests x.slot = r) (hactive : x.Active r) (hstate : r.state = .activeBlock2WaitReq)
    (hblock : x.IsBlock r.block2 number) (hlt : number + 1 < 2 ^ 20) (hopen : 0 ≤ r.fdCmdStdout)
    (hbuffer : x.blockSize ≤ (r.stdoutBuffer.drop x.blockSize).length) :
    (handleRead env now fork node s { block2 := x.block2 (number + 1) }).smcp.sent =
      s.sent ++ [⟨s.inbound.saddr, (blockMessage (replyMessage s.inbound (httpToCoapCode 205))
        (some (x.block2 (number + 1)))
        ((r.stdoutBuffer.drop x.blockSize).take x.blockSize)).wire⟩] := by
  have howns : x.Owns (node.requests x.slot) := by
    rw [hr]
    exact hactive.owns (by rw [hstate]; decide)
  -- the slot is found again, as when less is left
  rw [h.found hapart howns]
  unfold handleFound
  rw [hr, hstate]
  dsimp only
  rw [continueOutput_next hr hstate hblock hlt]
  -- `r'` has what is left of the output, and that is enough for a block
  generalize hr' : ({ r with
    stdoutBuffer := r.stdoutBuffer.drop x.blockSize
    block2 := x.block2 (number + 1) } : CgiNodeRequest) = r'
  have hblock' : r'.block2 = x.block2 (number + 1) := hr' ▸ rfl
  have hbuffer' : r'.stdoutBuffer = r.stdoutBuffer.drop x.blockSize := hr' ▸ rfl
  have hopen' : r'.fdCmdStdout = r.fdCmdStdout := hr' ▸ rfl
  rw [← hblock', ← hbuffer']
  apply h.giveOutput_now (CgiNode.set_self r')
  · rw [hblock']
    exact isBlock_block2
  · rw [hopen']
    exact hopen
  · rw [hbuffer']
    exact hbuffer

/-! ## The pipes and the transaction -/

/-- Without input the first half of the loop does nothing. -/
theorem processStdin_idle {io : CgiPipes} {i : Fin cgiNodeMaxRequests} (hr : node.requests i = r)
    (hstdin : r.stdinBuffer = []) (hstate : r.state ≠ .activeBlock1WaitFd) :
    processStdin env node s io i = (node, s) := by
  have hwrite : r.writeStdin io = r := by
    unfold CgiNodeRequest.writeStdin
    rw [if_neg (by simp [hstdin])]
  unfold processStdin
  dsimp only
  rw [hr, hwrite, if_neg (by simp [hstate]), CgiNode.set_eq hr]

theorem expireRequest_not {i : Fin cgiNodeMaxRequests} (hnow : now ≤ (node.requests i).expiration) :
    expireRequest env node s now i = (node, s) := by
  unfold expireRequest
  rw [if_neg (by omega)]

/-- Nothing is read, and nothing is awaited from the pipes. -/
theorem process_idle {io : CgiPipes} (hr : node.requests x.slot = r)
    (hnow : now ≤ r.expiration) (hstdin : r.stdinBuffer = [])
    (hstate1 : r.state ≠ .activeBlock1WaitFd) (hstate2 : r.state ≠ .activeBlock2WaitFd)
    (hready : io.stdoutReady = false) (herror : io.stdoutError = false) :
    cgiNodeProcessRequest env now io node s x.slot = (node, s) := by
  have hread : r.readStdout io = r := by
    unfold CgiNodeRequest.readStdout
    rw [if_neg (by simp [hready, herror])]
  unfold cgiNodeProcessRequest
  dsimp only
  rw [expireRequest_not (by rw [hr]; exact hnow), processStdin_idle hr hstdin hstate1]
  unfold processStdout
  dsimp only
  rw [hr, hread, if_neg hstate2, CgiNode.set_eq hr, ite_self]

/-- In `ACTIVE_BLOCK2_WAIT_FD` the response is sent as soon as there is a block, or the end of the
output. -/
theorem process_waitFd {io : CgiPipes} (hr : node.requests x.slot = r) (hactive : x.Active r)
    (hnow : now ≤ r.expiration) (hstate : r.state = .activeBlock2WaitFd)
    (hblock : x.IsBlock r.block2 number) (hcallbacks : env.callbacks = id) :
    ∃ r', (cgiNodeProcessRequest env now io node s x.slot).1 = node.set x.slot r' ∧ x.Active r' ∧
      r'.block2 = r.block2 ∧ r'.stdoutBuffer = (r.readStdout io).stdoutBuffer ∧
      r'.fdCmdStdout = (r.readStdout io).fdCmdStdout ∧
      r'.state =
        if x.blockSize ≤ r'.stdoutBuffer.length ∨ r'.fdCmdStdout < 0 then .activeBlock2WaitAck
        else .activeBlock2WaitFd := by
  -- what is read of the pipe goes behind the buffer, and nothing else of the slot changes
  have hread : x.Active (r.readStdout io) ∧ (r.readStdout io).block2 = r.block2 ∧
      (r.readStdout io).state = .activeBlock2WaitFd := by
    obtain ⟨fd, buffer, heq, -⟩ := readStdout_eq r io
    rw [heq]
    exact ⟨⟨hactive.stored, hactive.transaction, hactive.block1, hactive.stdin⟩, rfl, hstate⟩
  -- the slot is neither idle nor over, and it has not expired
  have hidle : ¬((node.requests x.slot).state = .inactive ∨
      (node.requests x.slot).state = .finished) := by
    rw [hr, hstate]
    decide
  unfold cgiNodeProcessRequest
  dsimp only
  rw [if_neg hidle, expireRequest_not (by rw [hr]; exact hnow),
    processStdin_idle hr hactive.stdin (by rw [hstate]; decide)]
  unfold processStdout
  dsimp only
  rw [hr]
  generalize r.readStdout io = r₁ at hread
  obtain ⟨hactive₁, hblock₁, hstate₁⟩ := hread
  -- in this state a block, or the end of the output, is what the loop waits for
  rw [if_pos hstate₁]
  obtain ⟨fd, hclose⟩ := closeStdin_eq r₁
  have hlen : blockLen r₁.closeStdin.block2 = x.blockSize := by
    rw [hclose]
    show blockLen r₁.block2 = x.blockSize
    rw [hblock₁]
    exact hblock.blockLen_eq
  by_cases hdata : x.blockSize ≤ r₁.stdoutBuffer.length ∨ r₁.fdCmdStdout < 0
  · obtain ⟨fd₂, hclose₂⟩ := closeStdin_eq r₁.closeStdin
    refine ⟨{ r₁.closeStdin.closeStdin with state := .activeBlock2WaitAck }, ?_, ?_, ?_, ?_, ?_, ?_⟩
    · rw [if_pos (by rw [hlen, hclose]; exact hdata),
        changeState_waitAck (by rw [CgiNode.set_self, closeStdin_state]; exact hstate₁) hcallbacks,
        CgiNode.set_self, CgiNode.set_set]
    all_goals rw [hclose₂, hclose]
    · exact ⟨hactive₁.stored, hactive₁.transaction, hactive₁.block1, hactive₁.stdin⟩
    · exact hblock₁
    · exact (if_pos hdata).symm
  · refine ⟨r₁.closeStdin, ?_, ?_, ?_, ?_, ?_, ?_⟩
    · rw [if_neg (by rw [hlen, hclose]; exact hdata)]
    all_goals rw [hclose]
    · exact ⟨hactive₁.stored, hactive₁.transaction, hactive₁.block1, hactive₁.stdin⟩
    · exact hblock₁
    · exact hstate₁.trans (if_neg hdata).symm

/-- What the transaction sends. -/
theorem resend_sends {s : Instance} (hs : Transmits s) (hr : node.requests x.slot = r)
    (hactive : x.Active r) (hstate : r.state = .activeBlock2WaitAck)
    (hblock : x.IsBlock r.block2 number) (hlt : number < 2 ^ 20) :
    ∃ block2 msgId b,
      (cgiNodeAsyncResendResponse node s x.slot).smcp.sent = s.sent ++ [⟨x.addr,
        (blockMessage (asyncMessage r.asyncResponse (httpToCoapCode 205) msgId) block2
          (r.stdoutBuffer.take x.blockSize)).wire⟩] ∧
      lastBit block2 = !r.hasMore ∧ (∀ v ∈ block2, v < 4294967296) ∧
      (cgiNodeAsyncResendResponse node s x.slot).node = node.set x.slot { r with block2 := b } ∧
      x.IsBlock b number := by
  obtain ⟨h, hcur⟩ := Option.isSome_iff_exists.1 hs.current
  -- the transaction of the slot has the address and the token of the request
  have hfamily : r.asyncResponse.remoteSaddr.family ≠ 0 := by
    rw [hactive.stored.source]
    exact x.family
  have htoken := hactive.stored.header.tokenLen
  have htoken_le := x.token_le
  -- the block is the front of what is in the buffer
  have hnextBlock : r.nextBlock = r.stdoutBuffer.take x.blockSize := by
    rw [CgiNodeRequest.nextBlock, hblock.blockLen_eq]
  have hcontent : (r.stdoutBuffer.take x.blockSize).length ≤ 512 :=
    (List.length_take_le _ _).trans x.blockSize_le
  have hbound := hblock.lt hlt
  -- the response is begun with the token, and with an id of its own
  obtain ⟨hbegin, hsent, msgId, hreplies⟩ := replies_beginAsyncResponse (httpToCoapCode 205)
    (x := r.asyncResponse) hcur hs.isResponding (by decide) (by decide) hs.auto hfamily (by omega)
    hs.takes
  have hroom := hreplies.spaceRemaining_ge rfl rfl (by
    show (readBytes r.asyncResponse.request 4 (headerTokenLen r.asyncResponse.request)).length ≤ 8
    rw [length_readBytes]
    omega)
  have hsend (block2 : Option ℕ) := hreplies.sendOutput rfl rfl block2
    (l := r.stdoutBuffer.take x.blockSize) (by omega)
  rw [hsent] at hsend
  have hdest : (asyncMessage r.asyncResponse (httpToCoapCode 205) msgId).dest = x.addr :=
    hactive.stored.source
  unfold cgiNodeAsyncResendResponse
  dsimp only
  have hblock1 : ¬r.block1 ≠ blockOptionUnspecified := fun hne => hne hactive.block1
  have hbegun : ¬(smcpOutboundBeginAsyncResponse s (httpToCoapCode 205) r.asyncResponse).2 ≠
      smcpStatusOk := fun hne => hne hbegin
  rw [hr, if_neg hbegun, if_neg hblock1, if_neg hbegun]
  unfold resendBlock
  dsimp only
  rw [hr, if_pos hstate, hnextBlock, ← hdest]
  by_cases hoption : r.hasMore ∨ r.block2 >>> 4 ≠ 0
  · rw [if_pos hoption]
    have hset : ∃ b, (if r.hasMore then r.block2 ||| 8 else r.block2 &&& 0xFFFFFFF7) = b ∧
        x.IsBlock b number ∧ b.testBit 3 = r.hasMore := by
      refine ⟨_, rfl, ?_⟩
      cases hmore : r.hasMore with
      | true =>
        simp only [↓reduceIte]
        exact ⟨hblock.setMore, by rw [Nat.testBit_or, show Nat.testBit 8 3 = true by decide, Bool.or_true]⟩
      | false =>
        simp only [Bool.false_eq_true, ↓reduceIte]
        exact ⟨hblock.clearMore hlt, by
          rw [Nat.testBit_and, show Nat.testBit 0xFFFFFFF7 3 = false by decide, Bool.and_false]⟩
    obtain ⟨b, hb, hblock', hbit⟩ := hset
    have hb_lt := hblock'.lt hlt
    rw [hb]
    refine ⟨some b, msgId, b, (hsend (some b)).2, ?_, ?_, ?_, hblock'⟩
    · simp [lastBit, hbit]
    · intro v hv
      obtain rfl : b = v := Option.some.inj hv
      omega
    · rw [CgiNode.setBlock2, hr]
  · rw [if_neg hoption]
    have hmore : r.hasMore = false := by
      by_contra hm
      exact hoption (.inl (by simpa using hm))
    refine ⟨none, msgId, r.block2, (hsend none).2, ?_, ?_, ?_, hblock⟩
    · rw [hmore]
      rfl
    · intro v hv
      cases hv
    · rw [CgiNode.set_eq hr]

/-- With the pipe open an acknowledgement makes the node wait for the next request. -/
theorem ackHandler_open (hr : node.requests x.slot = r) (hactive : x.Active r)
    (hstate : r.state = .activeBlock2WaitAck) (hopen : 0 ≤ r.fdCmdStdout) :
    ∃ fd, (cgiNodeAsyncAckHandler env node s x.slot).node =
      node.set x.slot { r with fdCmdStdin := fd, state := .activeBlock2WaitReq } := by
  obtain ⟨fd, hclose⟩ := closeStdin_eq r
  have hne : ¬r.state = .activeBlock1WaitAck := by
    rw [hstate]
    decide
  have hnotClosed : ¬(r.fdCmdStdout < 0 ∧ r.stdoutBuffer.length ≤ 2 * blockLen r.block2) :=
    fun hclosed => absurd hclosed.1 (by omega)
  refine ⟨fd, ?_⟩
  unfold cgiNodeAsyncAckHandler
  dsimp only
  rw [hr, if_neg hne, if_pos hstate, if_neg hnotClosed, changeState_waitReq (by rw [hr]; exact hstate)
    (by rw [hr]; exact hactive.transaction), hr, hclose]
  dsimp only
  rw [CgiNode.set_self, CgiNode.set_set, ← hactive.transaction]

end

end CgiExchange

end Smcp
