import Smcp.Inbound.Parse
import Smcp.Outbound.Compose

/-!
# Dispatching requests

`smcp_handle_request` of `smcp-inbound.c` and the virtual hosts and asynchronous responses of
`smcp.c`.
-/

namespace Smcp

open ByteMemory

/-! ## Virtual hosts -/

def smcpMaxVhosts : ℕ := 3

/-- `sizeof(vhost->name) - 1`. -/
def vhostNameSize : ℕ := 63

/-- `strncmp` of the C strings at `i` in `a` and at `j` in `b`. -/
def strncmp (a b : ℕ → UInt8) (i j : ℕ) : (n : ℕ) → ℤ
  | 0 => 0
  | n + 1 =>
    if a i ≠ b j then (a i).toNat - (b j).toNat
    else if a i = 0 then 0
    else strncmp a b (i + 1) (j + 1) n

/-- `smcp_vhost_add`. -/
def smcpVhostAdd (s : Instance) (name : List UInt8) (func : ℕ) : Instance × ℤ :=
  if name = [] then (s, smcpStatusInvalidArgument)
  else if s.vhosts.length < smcpMaxVhosts then
    ({ s with vhosts := s.vhosts ++ [⟨name.take vhostNameSize, func⟩] }, smcpStatusOk)
  else (s, smcpStatusFailure)

/-- The scan of `smcp_vhost_route`: the key it ends with, and the last value. -/
def vhostScan : (fuel : ℕ) → Inbound → (value : ℕ × ℕ) → Inbound × ℕ × ℕ × ℕ
  | 0, i, value => (i, coapOptionInvalid, value)
  | fuel + 1, i, value =>
    let r := i.nextOption
    let value := r.value.getD value
    if r.key = coapOptionInvalid ∨ r.key ≥ coapOptionUriHost then (r.inbound, r.key, value)
    else vhostScan fuel r.inbound value

/-- The test of `smcp_vhost_route` for one virtual host: the names differ, and the name of the
virtual host is not longer. -/
def Vhost.selects (v : Vhost) (m : ℕ → UInt8) (value len : ℕ) : Bool :=
  strncmp (ofList v.name fun _ => 0) m 0 value len ≠ 0 && (ofList v.name fun _ => 0) len == 0

/-- `smcp_vhost_route`: the handler, if it is to be another than `func`. -/
def smcpVhostRoute (s : Instance) (func : Option ℕ) : Instance × Option ℕ :=
  if s.vhosts = [] then (s, func)
  else
    let r := vhostScan (s.inbound.packetLen + 1) s.inbound.resetNextOption (0, 0)
    let s := { s with inbound := r.1 }
    let len := r.2.2.2
    if len > vhostNameSize ∨ r.2.1 ≠ coapOptionUriHost then (s, func)
    else
      match s.vhosts.find? fun v => v.selects s.inbound.bytes r.2.2.1 len with
      | some v => (s, some v.func)
      | none => (s, func)

/-- Move the option iterator to the end. -/
def Inbound.skipOptions : (fuel : ℕ) → Inbound → Inbound
  | 0, i => i
  | fuel + 1, i =>
    let r := i.nextOption
    if r.key = coapOptionInvalid then r.inbound else skipOptions fuel r.inbound

/-- `smcp_auth_inbound_init`. It looks at all options of a request, and accepts everything. -/
def smcpAuthInboundInit (s : Instance) : Instance :=
  if coapCodeIsRequest (headerCode s.inbound.bytes) then
    { s with inbound := s.inbound.resetNextOption.skipOptions (s.inbound.packetLen + 1) }
  else s

/-- `smcp_handle_request`. -/
def smcpHandleRequest (hooks : Hooks) (s : Instance) : Instance × ℤ :=
  let r := smcpVhostRoute (smcpAuthInboundInit s) s.requestHandler
  match r.2 with
  | none => (r.1, smcpStatusNotImplemented)
  | some handler => hooks (.request handler) { r.1 with inbound := r.1.inbound.resetNextOption }

/-! ## The option iterator moves, the message stays -/

/-- `i'` is `i` with the option iterator somewhere else. -/
def Inbound.SameMessage (i i' : Inbound) : Prop :=
  ∃ key option, i' = { i with lastOptionKey := key, thisOption := option }

section
variable {i i' i'' : Inbound}

theorem Inbound.SameMessage.refl (i : Inbound) : i.SameMessage i := ⟨_, _, rfl⟩

theorem Inbound.SameMessage.trans (h : i.SameMessage i') (h' : i'.SameMessage i'') :
    i.SameMessage i'' := by
  obtain ⟨key, option, rfl⟩ := h
  obtain ⟨key', option', rfl⟩ := h'
  exact ⟨key', option', rfl⟩

theorem Inbound.SameMessage.bytes (h : i.SameMessage i') : i'.bytes = i.bytes := by
  obtain ⟨key, option, rfl⟩ := h
  rfl

theorem Inbound.SameMessage.packetLen (h : i.SameMessage i') : i'.packetLen = i.packetLen := by
  obtain ⟨key, option, rfl⟩ := h
  rfl

theorem Inbound.SameMessage.contentPtr (h : i.SameMessage i') : i'.contentPtr = i.contentPtr := by
  obtain ⟨key, option, rfl⟩ := h
  rfl

theorem Inbound.SameMessage.isDupe (h : i.SameMessage i') : i'.isDupe = i.isDupe := by
  obtain ⟨key, option, rfl⟩ := h
  rfl

theorem Inbound.sameMessage_resetNextOption (i : Inbound) : i.SameMessage i.resetNextOption :=
  ⟨_, _, rfl⟩

theorem Inbound.sameMessage_nextOption (i : Inbound) : i.SameMessage i.nextOption.inbound := by
  unfold Inbound.nextOption
  split
  · exact ⟨_, _, rfl⟩
  · split_ifs
    · split <;> exact ⟨_, _, rfl⟩
    · exact ⟨_, _, rfl⟩

theorem Inbound.sameMessage_skipOptions (fuel : ℕ) (i : Inbound) :
    i.SameMessage (i.skipOptions fuel) := by
  induction fuel generalizing i with
  | zero => exact .refl i
  | succ fuel ih =>
    have hnext := i.sameMessage_nextOption
    unfold Inbound.skipOptions
    dsimp only
    split_ifs
    · exact hnext
    · exact hnext.trans (ih _)

theorem sameMessage_vhostScan (fuel : ℕ) (i : Inbound) (value : ℕ × ℕ) :
    i.SameMessage (vhostScan fuel i value).1 := by
  induction fuel generalizing i value with
  | zero => exact .refl i
  | succ fuel ih =>
    have hnext := i.sameMessage_nextOption
    unfold vhostScan
    dsimp only
    split_ifs
    · exact hnext
    · exact hnext.trans (ih _ _)

end

theorem authInboundInit_eq (s : Instance) :
    ∃ i, s.inbound.SameMessage i ∧ smcpAuthInboundInit s = { s with inbound := i } := by
  unfold smcpAuthInboundInit
  split_ifs
  · exact ⟨_, (Inbound.sameMessage_resetNextOption _).trans (Inbound.sameMessage_skipOptions _ _), rfl⟩
  · exact ⟨_, .refl _, rfl⟩

theorem vhostRoute_eq (s : Instance) (func : ℕ) :
    ∃ i k, s.inbound.SameMessage i ∧ smcpVhostRoute s (some func) = ({ s with inbound := i }, some k) := by
  have hscan := (Inbound.sameMessage_resetNextOption s.inbound).trans
    (sameMessage_vhostScan (s.inbound.packetLen + 1) _ (0, 0))
  unfold smcpVhostRoute
  dsimp only
  split_ifs
  · exact ⟨_, _, .refl _, rfl⟩
  · exact ⟨_, _, hscan, rfl⟩
  · split <;> exact ⟨_, _, hscan, rfl⟩

/-- A request handler is called for the same message, with the iterator at its start. -/
theorem handleRequest_eq (hooks : Hooks) {s : Instance} (hhandler : s.requestHandler.isSome) :
    ∃ i k, s.inbound.SameMessage i ∧
      smcpHandleRequest hooks s = hooks (.request k) { s with inbound := i } := by
  obtain ⟨func, hfunc⟩ := Option.isSome_iff_exists.1 hhandler
  obtain ⟨i, hi, hauth⟩ := authInboundInit_eq s
  obtain ⟨i', k, hi', hroute⟩ := vhostRoute_eq ({ s with inbound := i }) func
  have hrouted : smcpVhostRoute (smcpAuthInboundInit s) s.requestHandler =
      ({ s with inbound := i' }, some k) := by
    rw [hauth]
    exact (congrArg _ hfunc).trans hroute
  refine ⟨i'.resetNextOption, k, (hi.trans hi').trans (Inbound.sameMessage_resetNextOption i'), ?_⟩
  unfold smcpHandleRequest
  rw [hrouted]

/-! ## Asynchronous responses -/

/-- `sizeof(x->request)`. -/
def asyncRequestSize : ℕ := 80

/-- What `smcp_start_async_response` leaves: the instance, the response object and the status. -/
structure AsyncStart where
  state : Instance
  response : AsyncResponse
  status : ℤ

/-- `smcp_start_async_response`. -/
def smcpStartAsyncResponse (s : Instance) (x : AsyncResponse) (dontAck : Bool) : AsyncStart :=
  let requestLen := s.inbound.packetLen - s.inbound.contentLen
  if requestLen > asyncRequestSize then
    ⟨(smcpOutboundQuickResponse s (httpToCoapCode 413) none).1, x, smcpStatusFailure⟩
  else
    let x : AsyncResponse :=
      { remoteSaddr := s.inbound.saddr
        requestLen := requestLen
        request := fun j => if j < requestLen then s.inbound.bytes j else x.request j }
    let late := if s.inbound.isDupe then smcpStatusDupe else smcpStatusOk
    if dontAck = false ∧ headerTt s.inbound.bytes = coapTransTypeConfirmable then
      if s.inbound.isFake then ⟨s, x, smcpStatusNotImplemented⟩
      else
        let r := smcpOutboundBeginResponse s coapCodeEmpty
        if r.2 ≠ smcpStatusOk then ⟨r.1, x, r.2⟩
        else
          let sent := smcpOutboundSend r.1
          if sent.2 ≠ smcpStatusOk then ⟨sent.1, x, sent.2⟩ else ⟨sent.1, x, late⟩
    else ⟨s, x, late⟩

/-- `smcp_finish_async_response`. -/
def smcpFinishAsyncResponse (x : AsyncResponse) : AsyncResponse := { x with requestLen := 0 }

/-- `smcp_inbound_is_related_to_async_response`. -/
def smcpInboundIsRelatedToAsyncResponse (s : Instance) (x : AsyncResponse) : Bool :=
  x.remoteSaddr = s.inbound.saddr

/-- `smcp_outbound_begin_async_response`. It takes the id of the current transaction. -/
def smcpOutboundBeginAsyncResponse (s : Instance) (code : ℕ) (x : AsyncResponse) : Instance × ℤ :=
  let s :=
    { s with
      inbound :=
        { s.inbound with
          packet := some x.request
          packetLen := x.requestLen
          contentPtr := 4 + headerTokenLen x.request
          lastOptionKey := 0
          thisOption := some 4
          isFake := true
          saddr := x.remoteSaddr }
      isProcessingMessage := true
      didRespond := false }
  let s := (smcpOutboundBeginResponse s code).1
  match s.currentTransaction with
  | none => ({ s with fault := true }, smcpStatusFailure)
  | some h =>
    let s := smcpOutboundSetMsgId s (s.store.msgId h)
    let s := smcpOutboundSetTt s (headerTt x.request)
    let r := smcpOutboundSetToken s (readBytes x.request 4 (headerTokenLen x.request))
    if r.2 ≠ smcpStatusOk then r else (smcpOutboundSetDestaddr r.1 x.remoteSaddr, smcpStatusOk)

end Smcp
