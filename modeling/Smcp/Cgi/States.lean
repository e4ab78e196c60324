import Smcp.Cgi.Node
import Smcp.Transaction.Runs

/-!
# The states of a CGI request

`cgi_node_request_change_state` calls `abort` when it is asked for a change that is not in its list.

* `CgiNodeState.MayBecome`: the list;
* `CgiOk`: what holds between the events of a run;
* `cgiNode_notAborted`: `abort` is not called as long as no transaction callback finds its request
  in `ACTIVE_BLOCK1_WAIT_ACK`;
* `callback_aborts`: it is, when one does.
-/

namespace Smcp

open ByteMemory Run

/-! ## The list of changes -/

/-- The changes that `cgi_node_request_change_state` accepts. -/
def CgiNodeState.MayBecome (state newState : CgiNodeState) : Prop :=
  state = newState ∨ newState = .finished ∨
    (state, newState) ∈ [
      (CgiNodeState.inactive, CgiNodeState.activeBlock1WaitReq),
      (.activeBlock1WaitReq, .activeBlock1WaitFd),
      (.activeBlock1WaitFd, .activeBlock1WaitAck),
      (.activeBlock1WaitAck, .activeBlock1WaitReq),
      (.activeBlock2WaitReq, .activeBlock2WaitFd),
      (.activeBlock1WaitReq, .activeBlock2WaitFd),
      (.activeBlock2WaitFd, .activeBlock2WaitAck),
      (.activeBlock2WaitAck, .activeBlock2WaitReq)]

instance (state newState : CgiNodeState) : Decidable (state.MayBecome newState) := by
  unfold CgiNodeState.MayBecome
  infer_instance

section
variable {env : CgiEnv} {node : CgiNode} {s : Instance} {i : Fin cgiNodeMaxRequests}
  {newState : CgiNodeState}

/-- The pairs of the source, and those of the table, are the same. -/
theorem stateChange_isSome :
    (stateChange env node s i newState).isSome ↔ (node.requests i).state.MayBecome newState := by
  unfold stateChange
  dsimp only
  cases hstate : (node.requests i).state <;> cases newState <;>
    simp [CgiNodeState.MayBecome]

/-- A request that is stored. -/
@[simp] theorem CgiNode.set_self (r : CgiNodeRequest) : (node.set i r).requests i = r :=
  Function.update_self ..

@[simp] theorem CgiNode.set_fate (r : CgiNodeRequest) : (node.set i r).fate = node.fate := rfl

/-- One request is set. -/
theorem CgiNode.set_requests (r : CgiNodeRequest) (j : Fin cgiNodeMaxRequests) :
    (node.set i r).requests j = if j = i then r else node.requests j :=
  Function.update_apply ..

/-! ## The invariant -/

/-- No request has a transaction, a Block1 option to return, or a pipe that is left open when it is
finished. -/
structure RequestOk (r : CgiNodeRequest) : Prop where
  transaction : r.transaction = none
  block1 : r.state ≠ .inactive → r.block1 = blockOptionUnspecified
  closed : r.state = .finished → r.fdCmdStdout < 0

/-- The node between two events. -/
structure CgiOk (node : CgiNode) : Prop where
  notAborted : node.fate ≠ .aborted
  requests : ∀ i, RequestOk (node.requests i)

/-- A request in order takes the place of another one. -/
theorem CgiOk.set (h : CgiOk node) {r : CgiNodeRequest} (hr : RequestOk r) : CgiOk (node.set i r) := by
  refine ⟨h.notAborted, fun j => ?_⟩
  rw [CgiNode.set_requests]
  split_ifs
  · exact hr
  · exact h.requests j

/-- The node after callbacks of its transactions, none of which finds its request in
`ACTIVE_BLOCK1_WAIT_ACK`. The callback neither begins nor ends a transaction. -/
inductive CalledBack (node : CgiNode) : CgiNode → Prop
  | refl : CalledBack node node
  | call {node' : CgiNode} (h : CalledBack node node') (transaction : Option ℕ) (hooks : Hooks)
      (s : Instance) (i : Fin cgiNodeMaxRequests)
      (hstate : (node'.requests i).state ≠ .activeBlock1WaitAck) :
      CalledBack node (cgiNodeAsyncAckHandler ⟨transaction, hooks, id⟩ node' s i).node

/-- The library calls nothing of the node but the callbacks of its transactions, and those as in
`CalledBack`. -/
def CgiEnv.Calm (env : CgiEnv) : Prop := ∀ node, CalledBack node (env.callbacks node)

/-- The invariant is kept, and no request becomes inactive. -/
structure Advances (node node' : CgiNode) : Prop where
  ok : CgiOk node'
  active : ∀ j, (node.requests j).state ≠ .inactive → (node'.requests j).state ≠ .inactive

/-- One call after the other. -/
theorem Advances.trans {node' node'' : CgiNode} (h : Advances node node')
    (h' : Advances node' node'') : Advances node node'' :=
  ⟨h'.ok, fun j hj => h'.active j (h.active j hj)⟩

theorem CgiOk.advances (h : CgiOk node) : Advances node node := ⟨h, fun _ => id⟩

/-- Storing a request. -/
theorem CgiOk.advances_set (h : CgiOk node) {r : CgiNodeRequest} (hr : RequestOk r)
    (hactive : (node.requests i).state ≠ .inactive → r.state ≠ .inactive) :
    Advances node (node.set i r) := by
  refine ⟨h.set hr, fun j hj => ?_⟩
  rw [CgiNode.set_requests]
  split_ifs with heq
  · rw [heq] at hj
    exact hactive hj
  · exact hj

/-! ## Changing the state -/

/-- The pipe is closed, which no state depends on. -/
theorem RequestOk.closeStdin {r : CgiNodeRequest} (h : RequestOk r) : RequestOk r.closeStdin := by
  unfold CgiNodeRequest.closeStdin
  split_ifs
  · exact ⟨h.transaction, h.block1, h.closed⟩
  · exact h

@[simp] theorem closeStdin_state (r : CgiNodeRequest) : r.closeStdin.state = r.state := by
  unfold CgiNodeRequest.closeStdin
  split_ifs <;> rfl

theorem CgiOk.closeStdin (h : CgiOk node) (i : Fin cgiNodeMaxRequests) :
    Advances node (node.set i (node.requests i).closeStdin) :=
  h.advances_set (h.requests i).closeStdin fun hi => by rwa [closeStdin_state]

theorem CgiOk.startAsync (h : CgiOk node) (s : Instance) (i : Fin cgiNodeMaxRequests) :
    Advances node (startAsync node s i).1 :=
  h.advances_set ⟨(h.requests i).transaction, (h.requests i).block1, (h.requests i).closed⟩ id

/-- No transaction has to be ended. -/
theorem CgiOk.endTransaction (h : CgiOk node) (env : CgiEnv) (s : Instance)
    (i : Fin cgiNodeMaxRequests) : endTransaction env node s i = (node, s) := by
  unfold Smcp.endTransaction
  rw [(h.requests i).transaction]

/-- What the callbacks of an environment have to keep. -/
def CgiEnv.Keeps (env : CgiEnv) : Prop := ∀ node, CgiOk node → Advances node (env.callbacks node)

/-- A block is sent by a transaction, which may call back at once. -/
theorem CgiOk.sendNextBlock (h : CgiOk node) (henv : env.Keeps) (s : Instance)
    (i : Fin cgiNodeMaxRequests) : Advances node (cgiNodeSendNextBlock env node s i).node := by
  unfold cgiNodeSendNextBlock
  dsimp only
  split
  · exact h.advances
  · exact henv node h

/-- What is done before the new state is stored. -/
theorem CgiOk.stateChange (h : CgiOk node) (henv : env.Keeps) {r : CgiNode × Instance}
    (hr : stateChange env node s i newState = some r) :
    Advances node r.1 ∧ (newState = .finished → (r.1.requests i).fdCmdStdout < 0) := by
  have hclose := h.closeStdin i
  unfold Smcp.stateChange at hr
  dsimp only at hr
  simp only [h.endTransaction, hclose.ok.endTransaction] at hr
  -- one case for each branch of the source, in its order
  split_ifs at hr with hsame h1 h2 h3 h4 h5 h6 h7 h8
  all_goals obtain rfl := Option.some.inj hr
  · refine ⟨h.advances, fun hfin => (h.requests i).closed (hsame.trans hfin)⟩
  · refine ⟨h.advances, fun hfin => ?_⟩
    exact absurd (h1.2.symm.trans hfin) (by decide)
  · refine ⟨h.startAsync s i, fun hfin => ?_⟩
    exact absurd (h2.2.symm.trans hfin) (by decide)
  · refine ⟨h.sendNextBlock henv s i, fun hfin => ?_⟩
    exact absurd (h3.2.symm.trans hfin) (by decide)
  · refine ⟨h.advances, fun hfin => ?_⟩
    exact absurd (h4.2.symm.trans hfin) (by decide)
  · refine ⟨hclose.trans (hclose.ok.startAsync s i), fun hfin => ?_⟩
    exact absurd (h5.2.symm.trans hfin) (by decide)
  · refine ⟨hclose.trans (hclose.ok.sendNextBlock henv s i), fun hfin => ?_⟩
    exact absurd (h6.2.symm.trans hfin) (by decide)
  · refine ⟨hclose, fun hfin => ?_⟩
    exact absurd (h7.2.symm.trans hfin) (by decide)
  · refine ⟨h.advances_set ⟨(h.requests i).transaction, (h.requests i).block1, ?_⟩ id, fun _ => ?_⟩
    · intro _
      show (-1 : ℤ) < 0
      decide
    · rw [CgiNode.set_self]
      show (-1 : ℤ) < 0
      decide

/-- A change that is in the list. -/
theorem CgiOk.changeState (h : CgiOk node) (henv : env.Keeps)
    (hactive : (node.requests i).state ≠ .inactive) (hnew : newState ≠ .inactive)
    (hmay : (node.requests i).state.MayBecome newState) :
    Advances node (cgiNodeRequestChangeState env node s i newState).node ∧
      ((cgiNodeRequestChangeState env node s i newState).node.requests i).state = newState := by
  obtain ⟨r, hr⟩ := Option.isSome_iff_exists.1 (stateChange_isSome.2 hmay)
  obtain ⟨hadv, hclosed⟩ := h.stateChange henv hr
  have hreq := hadv.ok.requests i
  have hblock1 := hreq.block1 (hadv.active i hactive)
  unfold cgiNodeRequestChangeState
  rw [hr]
  dsimp only
  constructor
  · exact hadv.trans (hadv.ok.advances_set ⟨hreq.transaction, fun _ => hblock1, hclosed⟩ fun _ => hnew)
  · rw [CgiNode.set_self]

/-! ## The callback -/

/-- The callback changes to a state in the list unless the request is in `ACTIVE_BLOCK1_WAIT_ACK`. -/
theorem CgiOk.ackHandler (h : CgiOk node) (henv : env.Keeps)
    (hstate : (node.requests i).state ≠ .activeBlock1WaitAck) :
    Advances node (cgiNodeAsyncAckHandler env node s i).node := by
  have hclear (node' : CgiNode) (h' : Advances node node') :
      Advances node (node'.set i { node'.requests i with transaction := none }) := by
    have hr := h'.ok.requests i
    exact h'.trans (h'.ok.advances_set ⟨rfl, hr.block1, hr.closed⟩ id)
  unfold cgiNodeAsyncAckHandler
  dsimp only
  apply hclear
  rw [if_neg hstate]
  by_cases hack : (node.requests i).state = .activeBlock2WaitAck
  · rw [if_pos hack]
    have hactive : (node.requests i).state ≠ .inactive := by rw [hack]; decide
    split_ifs
    · exact (h.changeState henv hactive (by decide) (by rw [hack]; decide)).1
    · exact (h.changeState henv hactive (by decide) (by rw [hack]; decide)).1
  · rw [if_neg hack]
    exact h.advances

/-- In `ACTIVE_BLOCK1_WAIT_ACK` it calls `abort`. -/
theorem callback_aborts (h : CgiOk node) (hstate : (node.requests i).state = .activeBlock1WaitAck) :
    (cgiNodeAsyncAckHandler env node s i).node.fate = .aborted := by
  have hactive : (node.requests i).state ≠ .inactive := by rw [hstate]; decide
  have hblock1 := (h.requests i).block1 hactive
  have hnone : stateChange env node s i .activeBlock2WaitReq = none := by
    apply Option.not_isSome_iff_eq_none.1
    rw [stateChange_isSome, hstate]
    decide
  unfold cgiNodeAsyncAckHandler
  dsimp only
  rw [if_pos hstate, if_neg (by simp [hblock1]), CgiNode.set_fate]
  unfold cgiNodeRequestChangeState
  rw [hnone]

/-- A callback in order is all that happens in between. -/
theorem CalledBack.advances {node' : CgiNode} (h : CalledBack node node') (hnode : CgiOk node) :
    Advances node node' := by
  induction h with
  | refl => exact hnode.advances
  | call _ transaction hooks s i hstate ih =>
    exact ih.trans (ih.ok.ackHandler (fun _ h => h.advances) hstate)

/-- A calm environment leaves the node as it should. -/
theorem CgiEnv.Calm.keeps (h : env.Calm) : env.Keeps := fun node hnode => (h node).advances hnode

/-! ## Requests -/

/-- An asynchronous response is begun before the command has said anything. -/
theorem CgiOk.answerEarly (h : CgiOk node) (s : Instance) : CgiOk (answerEarly node s).node := by
  unfold Smcp.answerEarly
  split_ifs <;> exact h

/-- The content goes to the command, and the state with it. -/
theorem CgiOk.takeInput (h : CgiOk node) (henv : env.Keeps) (s : Instance) (block1Option : ℕ)
    (hstate : (node.requests i).state = .activeBlock1WaitReq ∨
      (node.requests i).state = .activeBlock1WaitAck) :
    CgiOk (takeInput env node s i block1Option).node := by
  unfold Smcp.takeInput
  dsimp only
  generalize hc : (if (node.requests i).state = .activeBlock1WaitAck then
    cgiNodeRequestChangeState env node s i .activeBlock1WaitReq
    else (⟨node, s, smcpStatusOk⟩ : CgiResult)) = c
  -- the state in which the content is taken, whether it was waited for or acknowledged
  have hok : CgiOk c.node ∧ (c.node.requests i).state = .activeBlock1WaitReq := by
    rw [← hc]
    by_cases hack : (node.requests i).state = .activeBlock1WaitAck
    · rw [if_pos hack]
      have hmay : (node.requests i).state.MayBecome .activeBlock1WaitReq := by
        rw [hack]
        decide
      have hchange := h.changeState (s := s) henv (by rw [hack]; decide) (by decide) hmay
      exact ⟨hchange.1.ok, hchange.2⟩
    · rw [if_neg hack]
      exact ⟨h, hstate.resolve_right hack⟩
  clear hc
  obtain ⟨hok, hreq⟩ := hok
  have hr := hok.requests i
  have hset := hok.set (i := i) (r := { c.node.requests i with
    stdinBuffer := (c.node.requests i).stdinBuffer ++ inboundContent s })
    ⟨hr.transaction, hr.block1, hr.closed⟩
  -- the last block, one in between, or an error
  split_ifs
  · apply (hset.changeState henv _ (by decide) _).1.ok
    all_goals
      rw [CgiNode.set_self, hreq]
      decide
  · apply (hset.changeState henv _ (by decide) _).1.ok
    all_goals
      rw [CgiNode.set_self, hreq]
      decide

/-- The block that is asked for is noted. -/
theorem CgiOk.setBlock2 (h : CgiOk node) (i : Fin cgiNodeMaxRequests) (block2Option : ℕ) :
    CgiOk (node.setBlock2 i block2Option) :=
  h.set ⟨(h.requests i).transaction, (h.requests i).block1, (h.requests i).closed⟩

/-- The bytes that were sent are taken off. -/
theorem popBytes_eq (node : CgiNode) (i : Fin cgiNodeMaxRequests) (count : ℕ) :
    cgiNodeRequestPopBytesFromStdout node i count =
      node.set i { node.requests i with
        stdoutBuffer := (node.requests i).stdoutBuffer.drop count } := by
  unfold cgiNodeRequestPopBytesFromStdout
  dsimp only
  split_ifs with hlt
  · rfl
  · rw [List.drop_eq_nil_of_le (by omega)]

theorem CgiOk.popBytes (h : CgiOk node) (i : Fin cgiNodeMaxRequests) (count : ℕ) :
    CgiOk (cgiNodeRequestPopBytesFromStdout node i count) := by
  rw [popBytes_eq]
  exact h.set ⟨(h.requests i).transaction, (h.requests i).block1, (h.requests i).closed⟩

/-- What the command has written is sent, or waited for. -/
theorem CgiOk.giveOutput (h : CgiOk node) (henv : env.Keeps) (s : Instance)
    (hstate : (node.requests i).state = .activeBlock2WaitReq ∨
      (node.requests i).state = .finished) : CgiOk (giveOutput env node s i).node := by
  have hactive : (node.requests i).state ≠ .inactive := by
    rcases hstate with hs | hs <;> rw [hs] <;> decide
  unfold Smcp.giveOutput
  dsimp only
  generalize smcpOutboundBeginResponse s (httpToCoapCode 205) = begun
  generalize sendOutput begun.1 _ _ = sent
  split_ifs with hdata
  · exact h
  · exact h
  · exact (h.changeState henv hactive (by decide) (.inr (.inl rfl))).1.ok
  · exact h
  · -- a request that is finished has its pipe closed
    have hopen : ¬(node.requests i).fdCmdStdout ≤ -1 := fun hle => hdata (.inr hle)
    have hreq : (node.requests i).state = .activeBlock2WaitReq := by
      apply hstate.resolve_right
      intro hfin
      have := (h.requests i).closed hfin
      omega
    exact (h.changeState henv hactive (by decide) (by rw [hreq]; decide)).1.ok

/-- The client asks for more of it, in one of three states. -/
theorem CgiOk.continueOutput (h : CgiOk node) (henv : env.Keeps) (s : Instance)
    (block2Option : ℕ)
    (hstate : (node.requests i).state = .activeBlock2WaitReq ∨
      (node.requests i).state = .activeBlock2WaitAck ∨ (node.requests i).state = .finished) :
    CgiOk (continueOutput env node s i block2Option).node := by
  unfold Smcp.continueOutput
  dsimp only
  -- an old block is asked for again, and nothing moves
  by_cases hold : (node.requests i).block2 ≠ blockOptionUnspecified ∧
      blockStart block2Option < blockStart (node.requests i).block2
  · rw [if_pos hold]
    exact h
  rw [if_neg hold]
  -- the acknowledgement of the last response is still out, or it has come
  by_cases hack : (node.requests i).state = .activeBlock2WaitAck
  · rw [if_pos hack]
    split_ifs
    · exact h
    · have hmay : (node.requests i).state.MayBecome .activeBlock2WaitReq := by
        rw [hack]
        decide
      have hchange := h.changeState (s := s) henv (by rw [hack]; decide) (by decide) hmay
      apply (hchange.1.ok.setBlock2 i _).giveOutput henv
      left
      rw [CgiNode.setBlock2, CgiNode.set_self]
      exact hchange.2
  · rw [if_neg hack]
    have hstate' : (node.requests i).state = .activeBlock2WaitReq ∨
        (node.requests i).state = .finished := by
      rcases hstate with hs | hs | hs
      · exact .inl hs
      · exact absurd hs hack
      · exact .inr hs
    split_ifs
    · apply ((h.popBytes i _).setBlock2 i _).giveOutput henv
      rw [CgiNode.setBlock2, CgiNode.set_self, popBytes_eq, CgiNode.set_self]
      exact hstate'
    · apply (h.setBlock2 i _).giveOutput henv
      rw [CgiNode.setBlock2, CgiNode.set_self]
      exact hstate'

/-- A request that is known goes on where it was. -/
theorem CgiOk.handleFound (h : CgiOk node) (henv : env.Keeps) (s : Instance) (b : BlockOptions) :
    CgiOk (handleFound env node s i b).node := by
  unfold Smcp.handleFound
  split
  · exact h.takeInput henv s _ (.inl ‹_›)
  · exact h.takeInput henv s _ (.inr ‹_›)
  · exact h.answerEarly s
  · exact h.continueOutput henv s _ (.inl ‹_›)
  · exact h.continueOutput henv s _ (.inr (.inl ‹_›))
  · exact h.continueOutput henv s _ (.inr (.inr ‹_›))
  · exact h.answerEarly s
  · exact h

/-- A slot is used again only when its request is finished or inactive; then it has no pipes. -/
theorem CgiOk.createRequest (h : CgiOk node) (s : Instance) (now : ℤ) (fork : Fork) :
    CgiOk (cgiNodeCreateRequest node s now fork).1 := by
  unfold cgiNodeCreateRequest
  split
  · exact h
  · rename_i i _
    dsimp only
    split_ifs
    · exact h.set ⟨(h.requests i).transaction, fun hne => absurd rfl hne, fun hfin => by cases hfin⟩
    · exact h.set ⟨(h.requests i).transaction, fun _ => rfl, fun hfin => by cases hfin⟩

/-- A new one is given a command, if there is a place for it. -/
theorem CgiOk.handleRead (h : CgiOk node) (henv : env.Keeps) (now : ℤ) (fork : Fork)
    (s : Instance) (b : BlockOptions) : CgiOk (handleRead env now fork node s b).node := by
  have hcreate := h.createRequest s now fork
  unfold Smcp.handleRead
  dsimp only
  generalize cgiNodeCreateRequest node s now fork = c at hcreate
  cases cgiNodeGetAssociatedRequest node s with
  | some i =>
    dsimp only
    split_ifs
    · exact h
    · exact h.handleFound henv s b
  | none =>
    dsimp only
    split_ifs
    · exact h
    · exact h
    · split
      · exact hcreate
      · exact (hcreate.setBlock2 _ _).handleFound henv _ b

/-- The handler of the node, with all of its branches. -/
theorem CgiOk.requestHandler (h : CgiOk node) (henv : env.Keeps) (now : ℤ) (fork : Fork)
    (s : Instance) : CgiOk (cgiNodeRequestHandler env now fork node s).node := by
  unfold cgiNodeRequestHandler
  dsimp only
  split
  · refine ⟨fun heq => ?_, h.requests⟩
    cases heq
  · exact h.handleRead henv now fork _ _

/-! ## The pipes -/

/-- Writing to the command changes nothing but the buffer and the pipe for it. -/
theorem writeStdin_eq (r : CgiNodeRequest) (io : CgiPipes) :
    ∃ fd buffer, r.writeStdin io = { r with fdCmdStdin := fd, stdinBuffer := buffer } := by
  unfold CgiNodeRequest.writeStdin
  cases io.written <;> dsimp only <;> split_ifs <;> exact ⟨_, _, rfl⟩

/-- Reading from it changes nothing but the buffer and the pipe for that; the pipe may be closed. -/
theorem readStdout_eq (r : CgiNodeRequest) (io : CgiPipes) :
    ∃ fd buffer, r.readStdout io = { r with fdCmdStdout := fd, stdoutBuffer := buffer } ∧
      (fd = r.fdCmdStdout ∨ fd = -1) := by
  unfold CgiNodeRequest.readStdout
  rcases io.read.map (List.take (2 * blockLen r.block2)) with _ | _ | ⟨b, bytes⟩ <;> dsimp only <;>
    split_ifs <;> first | exact ⟨_, _, rfl, .inl rfl⟩ | exact ⟨_, _, rfl, .inr rfl⟩

/-- Bytes go into the pipe. -/
theorem RequestOk.writeStdin {r : CgiNodeRequest} (h : RequestOk r) (io : CgiPipes) :
    RequestOk (r.writeStdin io) := by
  obtain ⟨fd, buffer, heq⟩ := writeStdin_eq r io
  rw [heq]
  exact ⟨h.transaction, h.block1, h.closed⟩

/-- Bytes come out of it. -/
theorem RequestOk.readStdout {r : CgiNodeRequest} (h : RequestOk r) (io : CgiPipes) :
    RequestOk (r.readStdout io) := by
  obtain ⟨fd, buffer, heq, hfd⟩ := readStdout_eq r io
  rw [heq]
  refine ⟨h.transaction, h.block1, fun hfin => ?_⟩
  have hclosed := h.closed hfin
  show fd < 0
  omega

/-- A request that takes too long is stopped. -/
theorem CgiOk.expireRequest (h : CgiOk node) (henv : env.Keeps) (s : Instance) (now : ℤ)
    (hactive : (node.requests i).state ≠ .inactive) : CgiOk (expireRequest env node s now i).1 := by
  unfold Smcp.expireRequest
  split_ifs
  · have hr := h.requests i
    have hset := h.set (i := i) (r := { node.requests i with expiration := 0 })
      ⟨hr.transaction, hr.block1, hr.closed⟩
    apply (hset.changeState henv _ (by decide) (.inr (.inl rfl))).1.ok
    rw [CgiNode.set_self]
    exact hactive
  · exact h

/-- The command takes its input when it can. -/
theorem CgiOk.processStdin (h : CgiOk node) (henv : env.Keeps) (s : Instance) (io : CgiPipes)
    (i : Fin cgiNodeMaxRequests) : CgiOk (processStdin env node s io i).1 := by
  have hset := h.set (i := i) ((h.requests i).writeStdin io)
  unfold Smcp.processStdin
  dsimp only
  split_ifs with hsend
  · apply (hset.changeState henv _ (by decide) _).1.ok
    all_goals
      rw [CgiNode.set_self, hsend.1]
      decide
  · exact hset

/-- Its output is sent on. -/
theorem CgiOk.processStdout (h : CgiOk node) (henv : env.Keeps) (s : Instance) (io : CgiPipes)
    (i : Fin cgiNodeMaxRequests) : CgiOk (processStdout env node s io i).1 := by
  have hread := (h.requests i).readStdout io
  unfold Smcp.processStdout
  dsimp only
  split_ifs with hstate hsend
  · apply ((h.set hread.closeStdin).changeState henv _ (by decide) _).1.ok
    all_goals
      rw [CgiNode.set_self, closeStdin_state, hstate]
      decide
  · exact h.set hread.closeStdin
  · exact h.set hread

/-- One request, with both of its pipes. -/
theorem CgiOk.processRequest (h : CgiOk node) (henv : env.Keeps) (now : ℤ) (io : CgiPipes)
    (s : Instance) (i : Fin cgiNodeMaxRequests) :
    CgiOk (cgiNodeProcessRequest env now io node s i).1 := by
  unfold cgiNodeProcessRequest
  dsimp only
  split_ifs with hidle
  · exact h
  · have hactive : (node.requests i).state ≠ .inactive := fun heq => hidle (.inl heq)
    exact ((h.expireRequest henv s now hactive).processStdin henv _ io i).processStdout henv _ io i

/-- The loop over the slots. -/
theorem CgiOk.process (h : CgiOk node) {env : Fin cgiNodeMaxRequests → CgiEnv}
    (henv : ∀ i, (env i).Keeps) (now : ℤ) (io : Fin cgiNodeMaxRequests → CgiPipes) (s : Instance) :
    CgiOk (cgiNodeProcess env now io node s).1 := by
  unfold cgiNodeProcess
  dsimp only
  have hfold (slots : List (Fin cgiNodeMaxRequests)) (c : CgiNode × Instance) (hc : CgiOk c.1) :
      CgiOk (slots.foldl (fun c i => cgiNodeProcessRequest (env i) now
        ((io i).limit (node.requests i).watched) c.1 c.2 i) c).1 := by
    induction slots generalizing c with
    | nil => exact hc
    | cons i slots ih =>
      have hi := hc.processRequest (henv i) now ((io i).limit (node.requests i).watched) c.2 i
      rw [List.foldl_cons]
      exact ih _ hi
  exact hfold _ (node, s) h

/-- The response is composed again. -/
theorem CgiOk.resendResponse (h : CgiOk node) (s : Instance) (i : Fin cgiNodeMaxRequests) :
    CgiOk (cgiNodeAsyncResendResponse node s i).node := by
  have hblock (s' : Instance) : CgiOk (resendBlock node s' i).node := by
    unfold resendBlock
    dsimp only
    split_ifs
    · exact h.setBlock2 i _
    · exact h.setBlock2 i _
    · exact h
    · exact h
  unfold cgiNodeAsyncResendResponse
  dsimp only
  generalize smcpOutboundBeginAsyncResponse s _ _ = begun
  by_cases hbegun : begun.2 ≠ smcpStatusOk
  · rw [if_pos hbegun]
    exact h
  · rw [if_neg hbegun]
    generalize (if (node.requests i).block1 ≠ blockOptionUnspecified then
      smcpOutboundAddOptionUint begun.1 coapOptionBlock1 (node.requests i).block1 else begun) = b1
    split_ifs
    · exact h
    · exact hblock b1.1

end

/-! ## Runs -/

/-- What happens to a node. The instance is in any state when it does. -/
inductive CgiOp where
  /-- A request comes. -/
  | request (env : CgiEnv) (now : ℤ) (fork : Fork) (s : Instance)
  /-- A transaction of the request `i` has come to its end: it was acknowledged, reset, timed out or
  invalidated. -/
  | callback (env : CgiEnv) (i : Fin cgiNodeMaxRequests) (s : Instance)
  /-- A transaction of the request `i` transmits. -/
  | resend (i : Fin cgiNodeMaxRequests) (s : Instance)
  /-- The main loop looks after the pipes and the expirations. -/
  | process (env : Fin cgiNodeMaxRequests → CgiEnv) (now : ℤ)
      (io : Fin cgiNodeMaxRequests → CgiPipes) (s : Instance)

/-- Let it happen, as long as the program runs. -/
def CgiOp.exec (op : CgiOp) (node : CgiNode) : CgiNode :=
  if node.fate = .running then
    match op with
    | .request env now fork s => (cgiNodeRequestHandler env now fork node s).node
    | .callback env i s => (cgiNodeAsyncAckHandler env node s i).node
    | .resend i s => (cgiNodeAsyncResendResponse node s i).node
    | .process env now io s => (cgiNodeProcess env now io node s).1
  else node

/-- While the node begins a transaction, no callback finds its request in `ACTIVE_BLOCK1_WAIT_ACK`. -/
def CgiOp.Calm : CgiOp → Prop
  | .request env _ _ _ => env.Calm
  | .callback env _ _ => env.Calm
  | .resend _ _ => True
  | .process env _ _ _ => ∀ i, (env i).Calm

/-- No callback finds its request in `ACTIVE_BLOCK1_WAIT_ACK`. -/
def CgiOp.Expected (op : CgiOp) (node : CgiNode) : Prop :=
  op.Calm ∧ match op with
    | .callback _ i _ => (node.requests i).state ≠ .activeBlock1WaitAck
    | _ => True

/-- Every operation of the node that is to be expected. -/
theorem CgiOk.exec {node : CgiNode} (h : CgiOk node) {op : CgiOp} (hop : op.Expected node) :
    CgiOk (op.exec node) := by
  unfold CgiOp.exec
  split_ifs
  · cases op with
    | request env now fork s => exact h.requestHandler hop.1.keeps now fork s
    | callback env i s => exact (h.ackHandler hop.1.keeps hop.2).ok
    | resend i s => exact h.resendResponse s i
    | process env now io s => exact h.process (fun i => (hop.1 i).keeps) now io s
  · exact h

theorem cgiOk_new : CgiOk ({} : CgiNode) where
  notAborted := by
    intro h
    cases h
  requests := by
    intro i
    exact ⟨rfl, fun hactive => absurd rfl hactive, fun hfin => by cases hfin⟩

/-- `abort` is not called in any run, as long as no transaction callback finds its request in
`ACTIVE_BLOCK1_WAIT_ACK`. -/
theorem cgiNode_notAborted (ops : List CgiOp) (h : AllSteps CgiOp.exec CgiOp.Expected {} ops) :
    AllStates CgiOp.exec (fun node => node.fate ≠ .aborted) {} ops := by
  have hrun (ops : List CgiOp) {node : CgiNode} (hnode : CgiOk node)
      (h : AllSteps CgiOp.exec CgiOp.Expected node ops) :
      AllStates CgiOp.exec (fun node => node.fate ≠ .aborted) node ops := by
    induction ops generalizing node with
    | nil => exact hnode.notAborted
    | cons op ops ih => exact ⟨hnode.notAborted, ih (hnode.exec h.1) h.2⟩
  exact hrun ops cgiOk_new h

/-- An environment that does not call back. -/
def quietEnv : CgiEnv := ⟨some 0, idleHooks, id⟩

/-- An environment in which nobody calls back. -/
theorem quietEnv_calm : quietEnv.Calm := fun _ => .refl

/-- A datagram has been received. -/
def cgiArrival (bytes : List UInt8) : Instance :=
  let s := (smcpInboundStartPacket (smcpCreate default (fun _ => 5) fun _ => 1)
    (ofList bytes fun _ => 0) bytes.length).1
  { s with inbound := s.inbound.scan.1 }

/-- The command takes a byte, and writes nothing. -/
def takesByte : CgiPipes := ⟨true, false, false, false, some 1, none⟩

/-- A request with a byte of content; the command takes it; the response is acknowledged. -/
def uploadRun (bytes : List UInt8) : List CgiOp :=
  [.request quietEnv 0 ⟨7, 3, 4⟩ (cgiArrival bytes),
    .process (fun _ => quietEnv) 0 (fun _ => takesByte) (cgiArrival bytes),
    .callback quietEnv ⟨0, by decide⟩ (cgiArrival bytes)]

/-- Each operation of the run is calm. -/
theorem uploadRun_calm (bytes : List UInt8) : ∀ op ∈ uploadRun bytes, op.Calm := by
  intro op hop
  simp only [uploadRun, List.mem_cons, List.not_mem_nil, or_false] at hop
  rcases hop with rfl | rfl | rfl
  · exact quietEnv_calm
  · exact fun _ => quietEnv_calm
  · exact quietEnv_calm

/-- A `PUT` without Block1. -/
def plainPut : List UInt8 := [0x40, 0x03, 0x12, 0x34, 0xFF, 0x78]

/-- A `PUT` whose Block1 option is `0E`: block 0 of 1024 bytes, and more to come. -/
def block1Put : List UInt8 := [0x40, 0x03, 0x12, 0x34, 0xD1, 0x0E, 0x0E, 0xFF, 0x78]

/-- A PUT without Block1. -/
theorem cgiNode_notAborted_plain :
    AllStates CgiOp.exec (fun node => node.fate ≠ .aborted) {} (uploadRun plainPut) := by
  apply cgiNode_notAborted
  refine ⟨⟨quietEnv_calm, trivial⟩, ⟨fun _ => quietEnv_calm, trivial⟩, ⟨quietEnv_calm, ?_⟩, trivial⟩
  show _ ≠ _
  decide +kernel

/-- The acknowledgement of the response to the first block of an upload makes the node abort. -/
theorem cgiNode_aborts : ¬∀ ops : List CgiOp, (∀ op ∈ ops, op.Calm) →
    AllStates CgiOp.exec (fun node => node.fate ≠ .aborted) {} ops := by
  intro h
  obtain ⟨-, -, -, hlast⟩ := h (uploadRun block1Put) (uploadRun_calm block1Put)
  revert hlast
  show ¬(_ ≠ _)
  decide +kernel

end Smcp
