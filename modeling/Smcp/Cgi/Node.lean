import Mathlib.Data.Fintype.Basic
import Smcp.Application
import Smcp.Inbound.Iterator

/-!
# CGI nodes

`cgi-node.c` of `smcpd`: a node that runs a command for every exchange, feeds it the content of the
request, and returns what it writes, block by block.

The state of a node is in its twenty slots for requests. What comes from outside is passed to the
functions: the clock, the results of `fork` and `pipe`, of `select`, `write` and `read`, and what
`smcp_transaction_begin` does. Memory is always available; what becomes of the processes is left
out.
-/

namespace Smcp

open ByteMemory

/-! ## Data -/

/-- `CGI_NODE_MAX_REQUESTS`. -/
def cgiNodeMaxRequests : ℕ := 20

/-- `cgi_node_state_t`. -/
inductive CgiNodeState where
  | inactive
  | finished
  | activeBlock1WaitReq
  | activeBlock1WaitFd
  | activeBlock1WaitAck
  | activeBlock2WaitReq
  | activeBlock2WaitFd
  | activeBlock2WaitAck
deriving DecidableEq

def blockOptionUnspecified : ℕ := 0xFFFFFFFF
def blockOptionDefault : ℕ := 0x03

def coapOptionBlock1 : ℕ := 27

/-- `1<<((block&0x7)+4)`. -/
def blockLen (block : ℕ) : ℕ := 1 <<< ((block &&& 0x7) + 4)

/-- `(block>>4) * (1<<((block&0x7)+4))`, in a `uint32_t`. -/
def blockStart (block : ℕ) : ℕ := ((block >>> 4) * blockLen block) % 4294967296

/-- `struct cgi_node_request_s`. Closed file descriptors are negative. -/
structure CgiNodeRequest where
  asyncResponse : AsyncResponse := {}
  state : CgiNodeState := .inactive
  expiration : ℤ := 0
  isActive : Bool := false
  fdCmdStdin : ℤ := -1
  fdCmdStdout : ℤ := -1
  pid : ℤ := 0
  block1 : ℕ := 0
  block2 : ℕ := 0
  stdinBuffer : List UInt8 := []
  stdoutBuffer : List UInt8 := []
  transaction : Option TransactionPtr := none

/-- Whether the program still runs: it may have called `abort`, or be in a loop that does not end. -/
inductive CgiFate where
  | running
  | aborted
  | looping
deriving DecidableEq

/-- `struct cgi_node_s`. -/
structure CgiNode where
  requests : Fin cgiNodeMaxRequests → CgiNodeRequest := fun _ => {}
  fate : CgiFate := .running

/-- Store a request. -/
def CgiNode.set (node : CgiNode) (i : Fin cgiNodeMaxRequests) (r : CgiNodeRequest) : CgiNode :=
  { node with requests := Function.update node.requests i r }

/-- `request->block2 = block2_option`. -/
def CgiNode.setBlock2 (node : CgiNode) (i : Fin cgiNodeMaxRequests) (block2Option : ℕ) : CgiNode :=
  node.set i { node.requests i with block2 := block2Option }

/-- What a function leaves: the node, the instance and the status. -/
structure CgiResult where
  node : CgiNode
  smcp : Instance
  ret : ℤ

/-- What happens outside of the node when it starts or ends a transaction: the number of a new one,
if there is memory for it, and the callbacks that the library makes meanwhile, for the instance and
for the node. -/
structure CgiEnv where
  transaction : Option ℕ
  hooks : Hooks
  callbacks : CgiNode → CgiNode

/-! ## Changing the state -/

/-- `cgi_node_send_next_block`. -/
def cgiNodeSendNextBlock (env : CgiEnv) (node : CgiNode) (s : Instance)
    (i : Fin cgiNodeMaxRequests) : CgiResult :=
  let handler := (node.requests i).transaction
  match handler <|> env.transaction.map .user with
  | none => ⟨node, s, smcpStatusMallocFailure⟩
  | some transaction =>
    let s := smcpTransactionInit s transaction handler.isNone 0 (some (.user i)) (some (.user i))
    ⟨env.callbacks node, smcpTransactionBegin env.hooks s transaction 30000, smcpStatusOk⟩

/-- `if(request->transaction) smcp_transaction_end(...)`. -/
def endTransaction (env : CgiEnv) (node : CgiNode) (s : Instance) (i : Fin cgiNodeMaxRequests) :
    CgiNode × Instance :=
  match (node.requests i).transaction with
  | none => (node, s)
  | some transaction =>
    let node := env.callbacks node
    (node.set i { node.requests i with transaction := none },
      smcpTransactionEnd env.hooks s transaction)

/-- `if(!request->stdin_buffer_len && request->fd_cmd_stdin>=0) close(request->fd_cmd_stdin)`. -/
def CgiNodeRequest.closeStdin (r : CgiNodeRequest) : CgiNodeRequest :=
  if r.stdinBuffer = [] ∧ 0 ≤ r.fdCmdStdin then { r with fdCmdStdin := -1 } else r

/-- `smcp_start_async_response(&request->async_response, 0)`. -/
def startAsync (node : CgiNode) (s : Instance) (i : Fin cgiNodeMaxRequests) : CgiNode × Instance :=
  let r := smcpStartAsyncResponse s (node.requests i).asyncResponse false
  (node.set i { node.requests i with asyncResponse := r.response }, r.state)

/-- What `cgi_node_request_change_state` does before it stores the new state; `none` when it calls
`abort`. -/
def stateChange (env : CgiEnv) (node : CgiNode) (s : Instance) (i : Fin cgiNodeMaxRequests)
    (newState : CgiNodeState) : Option (CgiNode × Instance) :=
  let r := node.requests i
  if r.state = newState then some (node, s)
  else if r.state = .inactive ∧ newState = .activeBlock1WaitReq then some (node, s)
  else if r.state = .activeBlock1WaitReq ∧ newState = .activeBlock1WaitFd then
    some (startAsync node s i)
  else if r.state = .activeBlock1WaitFd ∧ newState = .activeBlock1WaitAck then
    let sent := cgiNodeSendNextBlock env node s i
    some (sent.node, sent.smcp)
  else if r.state = .activeBlock1WaitAck ∧ newState = .activeBlock1WaitReq then
    some (endTransaction env node s i)
  else if (r.state = .activeBlock2WaitReq ∨ r.state = .activeBlock1WaitReq) ∧
      newState = .activeBlock2WaitFd then
    some (startAsync (node.set i r.closeStdin) s i)
  else if r.state = .activeBlock2WaitFd ∧ newState = .activeBlock2WaitAck then
    let sent := cgiNodeSendNextBlock env (node.set i r.closeStdin) s i
    some (sent.node, sent.smcp)
  else if r.state = .activeBlock2WaitAck ∧ newState = .activeBlock2WaitReq then
    some (endTransaction env (node.set i r.closeStdin) s i)
  else if newState = .finished then
    let e := endTransaction env node s i
    some (e.1.set i { e.1.requests i with fdCmdStdin := -1, fdCmdStdout := -1 }, e.2)
  else none

/-- `cgi_node_request_change_state`. -/
def cgiNodeRequestChangeState (env : CgiEnv) (node : CgiNode) (s : Instance)
    (i : Fin cgiNodeMaxRequests) (newState : CgiNodeState) : CgiResult :=
  match stateChange env node s i newState with
  | none => ⟨{ node with fate := .aborted }, s, smcpStatusOk⟩
  | some r => ⟨r.1.set i { r.1.requests i with state := newState }, r.2, smcpStatusOk⟩

/-- `cgi_node_async_ack_handler`, the callback of the transactions. It does not look at the
status code. -/
def cgiNodeAsyncAckHandler (env : CgiEnv) (node : CgiNode) (s : Instance)
    (i : Fin cgiNodeMaxRequests) : CgiResult :=
  let r := node.requests i
  let changed :=
    if r.state = .activeBlock1WaitAck then
      if r.block1 ≠ blockOptionUnspecified ∧ r.block1 &&& 8 = 0 then
        cgiNodeRequestChangeState env node s i .activeBlock1WaitReq
      else cgiNodeRequestChangeState env node s i .activeBlock2WaitReq
    else if r.state = .activeBlock2WaitAck then
      if r.fdCmdStdout < 0 ∧ r.stdoutBuffer.length ≤ 2 * blockLen r.block2 then
        cgiNodeRequestChangeState env node s i .finished
      else cgiNodeRequestChangeState env node s i .activeBlock2WaitReq
    else ⟨node, s, smcpStatusOk⟩
  { changed with
    node := changed.node.set i { changed.node.requests i with transaction := none } }

/-! ## Responses -/

/-- Add Block2 if it is given, write the content and send. -/
def sendOutput (s : Instance) (block2 : Option ℕ) (content : List UInt8) : Instance × ℤ :=
  let r := match block2 with
    | some value => smcpOutboundAddOptionUint s coapOptionBlock2 value
    | none => (s, smcpStatusOk)
  if r.2 ≠ smcpStatusOk then r
  else smcpOutboundSend (smcpOutboundSetContentLen (fillContent r.1 content) content.length)

/-- `cgi_node_request_pop_bytes_from_stdout`. -/
def cgiNodeRequestPopBytesFromStdout (node : CgiNode) (i : Fin cgiNodeMaxRequests) (count : ℕ) :
    CgiNode :=
  let r := node.requests i
  if count < r.stdoutBuffer.length then
    node.set i { r with stdoutBuffer := r.stdoutBuffer.drop count }
  else node.set i { r with stdoutBuffer := [] }

/-- The next block of the output. -/
def CgiNodeRequest.nextBlock (r : CgiNodeRequest) : List UInt8 :=
  r.stdoutBuffer.take (blockLen r.block2)

/-- There is more output than the next block, or there may be. -/
def CgiNodeRequest.hasMore (r : CgiNodeRequest) : Bool :=
  r.stdoutBuffer.length > blockLen r.block2 || 0 ≤ r.fdCmdStdout

/-- The part of `cgi_node_async_resend_response` after Block1. -/
def resendBlock (node : CgiNode) (s : Instance) (i : Fin cgiNodeMaxRequests) : CgiResult :=
  let r := node.requests i
  if r.state = .activeBlock2WaitAck then
    if r.hasMore ∨ r.block2 >>> 4 ≠ 0 then
      let block2 := if r.hasMore then r.block2 ||| 8 else r.block2 &&& 0xFFFFFFF7
      let sent := sendOutput s (some block2) r.nextBlock
      ⟨node.setBlock2 i block2, sent.1, sent.2⟩
    else
      let sent := sendOutput s none r.nextBlock
      ⟨node, sent.1, sent.2⟩
  else
    let sent := smcpOutboundSend s
    ⟨node, sent.1, sent.2⟩

/-- `cgi_node_async_resend_response`, the resend callback of the transactions. -/
def cgiNodeAsyncResendResponse (node : CgiNode) (s : Instance) (i : Fin cgiNodeMaxRequests) :
    CgiResult :=
  let r := node.requests i
  let begun := smcpOutboundBeginAsyncResponse s (httpToCoapCode 205) r.asyncResponse
  if begun.2 ≠ smcpStatusOk then ⟨node, begun.1, begun.2⟩
  else
    let b1 :=
      if r.block1 ≠ blockOptionUnspecified then
        smcpOutboundAddOptionUint begun.1 coapOptionBlock1 r.block1
      else begun
    if b1.2 ≠ smcpStatusOk then ⟨node, b1.1, b1.2⟩ else resendBlock node b1.1 i

/-! ## Requests -/

/-- The value of a Block option. The loop counts in a `uint8_t`, and does not end when the value is
longer than that. -/
def blockOptionValue (value : List UInt8) : Option ℕ :=
  if value.length < 256 then some (value.foldl (fun b v => (b * 256 + v.toNat) % 4294967296) 0)
  else none

/-- The two Block options of a request. -/
structure BlockOptions where
  block1 : ℕ := blockOptionUnspecified
  block2 : ℕ := blockOptionDefault

/-- The loop over the options of a request; `none` when it does not end. -/
def readBlockOptions : List (ℕ × List UInt8) → BlockOptions → Option BlockOptions
  | [], b => some b
  | o :: opts, b =>
    if o.1 = coapOptionBlock2 then
      (blockOptionValue o.2).bind fun v => readBlockOptions opts { b with block2 := v }
    else if o.1 = coapOptionBlock1 then
      (blockOptionValue o.2).bind fun v => readBlockOptions opts { b with block1 := v }
    else readBlockOptions opts b

/-- Whether the message in `inbound` belongs to the exchange of the request. -/
def CgiNodeRequest.isFor (r : CgiNodeRequest) (i : Inbound) : Bool :=
  r.state ≠ .inactive && headerTokenLen r.asyncResponse.request == headerTokenLen i.bytes &&
    headerCode r.asyncResponse.request == headerCode i.bytes &&
    readBytes r.asyncResponse.request 4 (headerTokenLen i.bytes) ==
      readBytes i.bytes 4 (headerTokenLen i.bytes) &&
    r.asyncResponse.remoteSaddr == i.saddr

/-- `cgi_node_get_associated_request`. -/
def cgiNodeGetAssociatedRequest (node : CgiNode) (s : Instance) : Option (Fin cgiNodeMaxRequests) :=
  (List.finRange cgiNodeMaxRequests).find? fun i => (node.requests i).isFor s.inbound

/-- The loop of `cgi_node_create_request`: the first slot that is inactive, else the last one that
is finished. -/
def freeSlot (node : CgiNode) :
    Option (Fin cgiNodeMaxRequests) → List (Fin cgiNodeMaxRequests) → Option (Fin cgiNodeMaxRequests)
  | ret, [] => ret
  | ret, i :: slots =>
    match (node.requests i).state with
    | .inactive => some i
    | .finished => freeSlot node (some i) slots
    | _ => freeSlot node ret slots

/-- The result of `fork`, and the ends of the pipes. -/
structure Fork where
  pid : ℤ
  stdin : ℕ
  stdout : ℕ

/-- `cgi_node_create_request`. -/
def cgiNodeCreateRequest (node : CgiNode) (s : Instance) (now : ℤ) (fork : Fork) :
    CgiNode × Instance × Option (Fin cgiNodeMaxRequests) :=
  match freeSlot node none (List.finRange cgiNodeMaxRequests) with
  | none => (node, s, none)
  | some i =>
    let started := smcpStartAsyncResponse s (node.requests i).asyncResponse true
    let r : CgiNodeRequest :=
      { asyncResponse := started.response
        state := .activeBlock1WaitReq
        expiration := now + 30
        isActive := true
        pid := fork.pid
        block1 := blockOptionUnspecified
        block2 := blockOptionDefault
        transaction := (node.requests i).transaction }
    if fork.pid < 0 then
      (node.set i { r with isActive := false, state := .inactive }, started.state, none)
    else
      (node.set i { r with fdCmdStdin := fork.stdin, fdCmdStdout := fork.stdout }, started.state,
        some i)

/-- The message in `inbound` came when the node was not waiting for one. -/
def answerEarly (node : CgiNode) (s : Instance) : CgiResult :=
  if s.inbound.isDupe then
    ⟨node, (smcpOutboundSend (smcpOutboundBeginResponse s coapCodeEmpty).1).1, smcpStatusOk⟩
  else ⟨node, s, smcpStatusFailure⟩

/-- The content of the message in `inbound`. -/
def inboundContent (s : Instance) : List UInt8 :=
  readBytes s.inbound.bytes s.inbound.contentPtr s.inbound.contentLen

/-- A request in `CGI_NODE_STATE_ACTIVE_BLOCK1_WAIT_REQ` or `CGI_NODE_STATE_ACTIVE_BLOCK1_WAIT_ACK`:
take the content. -/
def takeInput (env : CgiEnv) (node : CgiNode) (s : Instance) (i : Fin cgiNodeMaxRequests)
    (block1Option : ℕ) : CgiResult :=
  let c :=
    if (node.requests i).state = .activeBlock1WaitAck then
      cgiNodeRequestChangeState env node s i .activeBlock1WaitReq
    else ⟨node, s, smcpStatusOk⟩
  let r := c.node.requests i
  let node := c.node.set i { r with stdinBuffer := r.stdinBuffer ++ inboundContent s }
  if block1Option = 0xFFFFFFFF ∨ block1Option &&& 0x4 = 0 then
    cgiNodeRequestChangeState env node c.smcp i .activeBlock2WaitFd
  else cgiNodeRequestChangeState env node c.smcp i .activeBlock1WaitFd

/-- Answer with the next block if there is one, else later. -/
def giveOutput (env : CgiEnv) (node : CgiNode) (s : Instance) (i : Fin cgiNodeMaxRequests) :
    CgiResult :=
  let r := node.requests i
  if blockLen r.block2 ≤ r.stdoutBuffer.length ∨ r.fdCmdStdout ≤ -1 then
    let begun := smcpOutboundBeginResponse s (httpToCoapCode 205)
    if begun.2 ≠ smcpStatusOk then ⟨node, begun.1, begun.2⟩
    else
      let sent := sendOutput begun.1 (if r.hasMore then some r.block2 else none) r.nextBlock
      if sent.2 ≠ smcpStatusOk then ⟨node, sent.1, sent.2⟩
      else if r.fdCmdStdout < 0 ∧ r.stdoutBuffer.length ≤ blockLen r.block2 then
        cgiNodeRequestChangeState env node sent.1 i .finished
      else ⟨node, sent.1, sent.2⟩
  else cgiNodeRequestChangeState env node s i .activeBlock2WaitFd

/-- A request in `CGI_NODE_STATE_ACTIVE_BLOCK2_WAIT_REQ`, `CGI_NODE_STATE_ACTIVE_BLOCK2_WAIT_ACK` or
`CGI_NODE_STATE_FINISHED`: drop what the peer has, and go on with the block it asks for. -/
def continueOutput (env : CgiEnv) (node : CgiNode) (s : Instance) (i : Fin cgiNodeMaxRequests)
    (block2Option : ℕ) : CgiResult :=
  let r := node.requests i
  let block2Stop := (blockStart block2Option + blockLen block2Option) % 4294967296
  if r.block2 ≠ blockOptionUnspecified ∧ blockStart block2Option < blockStart r.block2 then
    ⟨node, smcpOutboundDrop s, smcpStatusDupe⟩
  else if r.state = .activeBlock2WaitAck then
    if block2Stop ≠ blockStart r.block2 then ⟨node, s, smcpStatusFailure⟩
    else
      let c := cgiNodeRequestChangeState env node s i .activeBlock2WaitReq
      giveOutput env (c.node.setBlock2 i block2Option) c.smcp i
  else
    let node :=
      if block2Option ≠ r.block2 then
        cgiNodeRequestPopBytesFromStdout node i (blockLen r.block2)
      else node
    giveOutput env (node.setBlock2 i block2Option) s i

/-- The part of `cgi_node_request_handler` after the request has been found. -/
def handleFound (env : CgiEnv) (node : CgiNode) (s : Instance) (i : Fin cgiNodeMaxRequests)
    (b : BlockOptions) : CgiResult :=
  match (node.requests i).state with
  | .activeBlock1WaitReq => takeInput env node s i b.block1
  | .activeBlock1WaitAck => takeInput env node s i b.block1
  | .activeBlock1WaitFd => answerEarly node s
  | .activeBlock2WaitReq => continueOutput env node s i b.block2
  | .activeBlock2WaitAck => continueOutput env node s i b.block2
  | .finished => continueOutput env node s i b.block2
  | .activeBlock2WaitFd => answerEarly node s
  | .inactive => ⟨node, s, smcpStatusOk⟩

/-- The part of `cgi_node_request_handler` after the options have been read. -/
def handleRead (env : CgiEnv) (now : ℤ) (fork : Fork) (node : CgiNode) (s : Instance)
    (b : BlockOptions) : CgiResult :=
  let method := headerCode s.inbound.bytes
  if method ≠ coapMethodGet ∧ method ≠ coapMethodPut ∧ method ≠ coapMethodPost ∧
      method ≠ coapMethodDelete then
    ⟨node, s, smcpStatusNotImplemented⟩
  else
    match cgiNodeGetAssociatedRequest node s with
    | some i => handleFound env node s i b
    | none =>
      if b.block2 >>> 4 ≠ 0 then ⟨node, s, smcpStatusInvalidArgument⟩
      else
        let c := cgiNodeCreateRequest node s now fork
        match c.2.2 with
        | none => ⟨c.1, c.2.1, smcpStatusFailure⟩
        | some i => handleFound env (c.1.setBlock2 i b.block2) c.2.1 i b

/-- `cgi_node_request_handler`. -/
def cgiNodeRequestHandler (env : CgiEnv) (now : ℤ) (fork : Fork) (node : CgiNode) (s : Instance) :
    CgiResult :=
  let fuel := s.inbound.packetLen + 1
  match readBlockOptions (s.inbound.readOptions fuel) {} with
  | none => ⟨{ node with fate := .looping }, s, smcpStatusOk⟩
  | some b => handleRead env now fork node { s with inbound := s.inbound.skipOptions fuel } b

/-! ## The pipes -/

/-- The result of `select` for a request, and what `write` and `read` return: `none` when they
fail. -/
structure CgiPipes where
  stdinReady : Bool
  stdinError : Bool
  stdoutReady : Bool
  stdoutError : Bool
  written : Option ℕ
  read : Option (List UInt8)

/-- Write to the command. -/
def CgiNodeRequest.writeStdin (r : CgiNodeRequest) (io : CgiPipes) : CgiNodeRequest :=
  if r.stdinBuffer ≠ [] ∧ 0 ≤ r.fdCmdStdin ∧ (io.stdinReady ∨ io.stdinError) then
    match io.written with
    | some n =>
      if io.stdinError then { r with fdCmdStdin := -1 }
      else { r with stdinBuffer := r.stdinBuffer.drop n }
    | none => { r with fdCmdStdin := -1 }
  else r

/-- Read from the command, at most two blocks. -/
def CgiNodeRequest.readStdout (r : CgiNodeRequest) (io : CgiPipes) : CgiNodeRequest :=
  if 0 ≤ r.fdCmdStdout ∧ (io.stdoutReady ∨ io.stdoutError) then
    match io.read.map (List.take (2 * blockLen r.block2)) with
    | some (b :: bytes) =>
      if io.stdoutError then { r with fdCmdStdout := -1 }
      else { r with stdoutBuffer := r.stdoutBuffer ++ b :: bytes }
    | _ => { r with fdCmdStdout := -1 }
  else r

/-- `request->expiration<time(NULL)`. -/
def expireRequest (env : CgiEnv) (node : CgiNode) (s : Instance) (now : ℤ)
    (i : Fin cgiNodeMaxRequests) : CgiNode × Instance :=
  if (node.requests i).expiration < now then
    let c := cgiNodeRequestChangeState env (node.set i { node.requests i with expiration := 0 }) s i
      .finished
    (c.node, c.smcp)
  else (node, s)

/-- The first half of the loop body of `cgi_node_process`: `fd_cmd_stdin`. -/
def processStdin (env : CgiEnv) (node : CgiNode) (s : Instance) (io : CgiPipes)
    (i : Fin cgiNodeMaxRequests) : CgiNode × Instance :=
  let r := (node.requests i).writeStdin io
  let node := node.set i r
  if r.state = .activeBlock1WaitFd ∧ (r.stdinBuffer = [] ∨ r.fdCmdStdin < 0) then
    let c := cgiNodeRequestChangeState env node s i .activeBlock1WaitAck
    (c.node, c.smcp)
  else (node, s)

/-- The second half: `fd_cmd_stdout`. -/
def processStdout (env : CgiEnv) (node : CgiNode) (s : Instance) (io : CgiPipes)
    (i : Fin cgiNodeMaxRequests) : CgiNode × Instance :=
  let r := (node.requests i).readStdout io
  if r.state = .activeBlock2WaitFd then
    let r := r.closeStdin
    let node := node.set i r
    if blockLen r.block2 ≤ r.stdoutBuffer.length ∨ r.fdCmdStdout < 0 then
      let c := cgiNodeRequestChangeState env node s i .activeBlock2WaitAck
      (c.node, c.smcp)
    else (node, s)
  else (node.set i r, s)

/-- The loop body of `cgi_node_process`. -/
def cgiNodeProcessRequest (env : CgiEnv) (now : ℤ) (io : CgiPipes) (node : CgiNode) (s : Instance)
    (i : Fin cgiNodeMaxRequests) : CgiNode × Instance :=
  if (node.requests i).state = .inactive ∨ (node.requests i).state = .finished then (node, s)
  else
    let e := expireRequest env node s now i
    let p := processStdin env e.1 e.2 io i
    processStdout env p.1 p.2 io i

/-- What `cgi_node_update_fdset` asks `select` to watch for a request: the pipe to the command, and
the one from it. -/
def CgiNodeRequest.watched (r : CgiNodeRequest) : Bool × Bool :=
  if r.state = .inactive ∨ r.state = .finished then (false, false)
  else (r.stdinBuffer ≠ [] ∧ 0 ≤ r.fdCmdStdin,
    0 ≤ r.fdCmdStdout ∧ r.stdoutBuffer.length < blockLen r.block2)

/-- `select` reports nothing that is not watched. -/
def CgiPipes.limit (io : CgiPipes) (watched : Bool × Bool) : CgiPipes :=
  { io with
    stdinReady := io.stdinReady && watched.1
    stdinError := io.stdinError && watched.1
    stdoutReady := io.stdoutReady && watched.2
    stdoutError := io.stdoutError && watched.2 }

/-- `cgi_node_process`, when `select` has something to report. -/
def cgiNodeProcess (env : Fin cgiNodeMaxRequests → CgiEnv) (now : ℤ)
    (io : Fin cgiNodeMaxRequests → CgiPipes) (node : CgiNode) (s : Instance) : CgiNode × Instance :=
  let watched := fun i => (node.requests i).watched
  (List.finRange cgiNodeMaxRequests).foldl
    (fun c i => cgiNodeProcessRequest (env i) now ((io i).limit (watched i)) c.1 c.2 i) (node, s)

end Smcp
