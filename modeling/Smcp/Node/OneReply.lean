import Smcp.Node.Faults

/-!
# One answer to every confirmable request

A confirmable request that the router hands to the list handler or to a variable node.

* `router_answered`, `fault_router`: what the selected handler does;
* `oneReply_iff`: exactly one answer is sent, unless the request wants to observe something that it
  is too long for, or the handler gets lost.
-/

namespace Smcp

open ByteMemory

/-! ## The router -/

/-- The router selects a variable node, and that answers twice. -/
def NodeApp.AnswersTwice (app : NodeApp) (v : VarState) : Prop :=
  let r := app.route v.state.inbound
  ∃ context, r.target = some (some (.other app.variableHandler), context) ∧
    (app.variableNode context).AnswersTwice { v with state.inbound := r.inbound }

theorem NodeApp.AnswersTwice.observes {app : NodeApp} {v : VarState} (h : app.AnswersTwice v) :
    (app.route v.state.inbound).inbound.hasObserveOption = true := by
  obtain ⟨context, -, htwice⟩ := h
  have hlong := htwice.2.2.2.1
  exact hlong.2.2.2.1

/-- The handler that the router selects gets lost. -/
def NodeApp.getsLost (app : NodeApp) (v : VarState) : Bool :=
  let r := app.route v.state.inbound
  match r.target with
  | some (some .smcpDefaultRequestHandler, context) =>
    headerCode r.inbound.bytes = coapMethodGet &&
      listsUnnamed app.text app.store context r.inbound
  | some (some (.other _), context) =>
    (app.variableNode context).getsLost { v with state.inbound := r.inbound }
  | _ => false

section
variable {works : Prop} {i : Inbound} {base : List Datagram} {hooks : Hooks} {app : NodeApp}
  {v : VarState} {handler : RequestHandler} {context : ℕ}

theorem router_answered (hleaves : LeavesMessage hooks)
    (htarget : (app.route v.state.inbound).target = some (some handler, context))
    (hown : handler = .smcpDefaultRequestHandler ∨ handler = .other app.variableHandler)
    (h : Answered works i base 0 v.state) (hi : i.Confirmable) (hdid : v.state.didRespond = false)
    (hresponding : v.state.isResponding = false) :
    ∃ m, m ≤ 2 ∧ Answered works i base m (app.smcpNodeRouterHandler hooks v).1.state ∧
      (m = 2 ↔ app.AnswersTwice v) := by
  -- the router moves the iterator, and answers nothing
  have hsame := sameMessage_route app v.state.inbound
  have hmoved : Answered works i base 0
      { v.state with inbound := (app.route v.state.inbound).inbound } :=
    h.move hsame.samePacket v.state.outbound
  unfold NodeApp.smcpNodeRouterHandler NodeApp.callHandler NodeApp.AnswersTwice
  dsimp only
  rw [htarget]
  dsimp only
  -- the target has one of the two handlers
  rcases hown with hlist | hvariable
  · -- the list handler answers once at most
    rw [hlist]
    obtain ⟨m, hm, hanswered⟩ := defaultHandler_answered app.text app.store context hmoved hi hdid
      hresponding
    refine ⟨m, hm.trans (by decide), hanswered, ?_⟩
    apply iff_of_false (by omega)
    rintro ⟨context', heq, -⟩
    cases heq
  · rw [hvariable]
    dsimp only
    rw [if_pos rfl]
    obtain ⟨m, hm, hanswered, hiff⟩ := variableHandler_answered (app.variableNode context)
      (v := { v with state.inbound := (app.route v.state.inbound).inbound }) hleaves hmoved hi hdid
      hresponding
    refine ⟨m, hm, hanswered, hiff.trans ?_⟩
    constructor
    · exact fun htwice => ⟨context, rfl, htwice⟩
    · rintro ⟨context', heq, htwice⟩
      cases heq
      exact htwice

theorem fault_router (hleaves : LeavesMessage hooks)
    (htarget : (app.route v.state.inbound).target = some (some handler, context))
    (hown : handler = .smcpDefaultRequestHandler ∨ handler = .other app.variableHandler)
    (hprocessing : v.state.isProcessingMessage = true) (hdid : v.state.didRespond = false)
    (hresponding : v.state.isResponding = false) :
    (app.smcpNodeRouterHandler hooks v).1.state.fault = (v.state.fault || app.getsLost v) := by
  unfold NodeApp.smcpNodeRouterHandler NodeApp.callHandler NodeApp.getsLost
  dsimp only
  rw [htarget]
  dsimp only
  rcases hown with hlist | hvariable
  · rw [hlist]
    exact fault_defaultHandler app.text app.store context _
  · rw [hvariable]
    dsimp only
    rw [if_pos rfl]
    exact fault_variableHandler (v := { v with
      state.inbound := (app.route v.state.inbound).inbound }) (app.variableNode context) hleaves
      hprocessing hdid hresponding

end

/-! ## The message -/

theorem fault_automaticReply (packet : ℕ → UInt8) (u : Instance) (ret : ℤ) :
    (automaticReply packet u ret).1.fault = u.fault := by
  have hbegin (code : ℕ) :
      (smcpOutboundBeginResponse (smcpOutboundReset u) code).1.fault = u.fault :=
    fault_beginResponse (smcpOutboundReset u) code
  have htoken (w : Instance) (token : List UInt8) :
      (smcpOutboundSetToken w token).1.fault = w.fault := by
    unfold smcpOutboundSetToken
    split_ifs
    · rfl
    · rfl
  unfold automaticReply
  split_ifs
  · unfold replyToRequest
    rw [fault_send]
    split_ifs
    · exact hbegin _
    · exact hbegin _
    · exact hbegin _
  · unfold replyToResult
    rw [fault_send, htoken]
    exact hbegin _
  · rfl

section
variable {hooks : Hooks} {buffer : ℕ → UInt8} {n : ℕ} {source : SockAddr} {dest : Option SockAddr}
  {s : Instance} {app : NodeApp} {handler : RequestHandler} {context : ℕ}

/-- A confirmable request gets exactly one answer, and nothing undefined happens, unless the
selected node answers twice or the handler gets lost. -/
theorem oneReply_iff (calls : List VarCall) (hv : coapVerifyPacket buffer n = true)
    (hcode : coapCodeIsRequest (headerCode buffer) = true)
    (htt : headerTt buffer = coapTransTypeConfirmable)
    (hunicast : dest.any (fun dest => smcpIsAddrMulticast dest.addr) = false)
    (hfamily : source.family ≠ 0) (hhandler : s.requestHandler.isSome)
    (hidle : s.isResponding = false) (hsound : s.fault = false) (hworks : ∀ k, 0 < s.sendResult k)
    (hleaves : LeavesMessage hooks)
    (htarget : (app.route (preparePacket (s.arrived buffer n source dest)).inbound).target =
      some (some handler, context))
    (hown : handler = .smcpDefaultRequestHandler ∨ handler = .other app.variableHandler) :
    let after := (processPacket (app.requestHooks hooks calls) s buffer n source dest).1
    let v : VarState := ⟨preparePacket (s.arrived buffer n source dest), calls⟩
    (∃ d : Datagram, after.sent = s.sent ++ [d] ∧
        d.Answers (s.arrived buffer n source dest).inbound) ∧ after.fault = false ↔
      ¬app.AnswersTwice v ∧ app.getsLost v = false := by
  intro after v
  obtain ⟨hprepared, hdid, hresponding⟩ := answered_preparePacket s buffer n source dest
  rw [hidle] at hresponding
  have hi : (s.received buffer n source dest).Confirmable :=
    received_confirmable hv htt hfamily
  have hrouted := app.handleRequest_router hooks (u := v.state) calls (by
    obtain ⟨i0, d0, l0, hprep⟩ := preparePacket_eq (s.arrived buffer n source dest)
    show (preparePacket (s.arrived buffer n source dest)).requestHandler.isSome = true
    rw [hprep]
    exact hhandler)
  -- the answers
  obtain ⟨m, hm, hanswered, htwice⟩ :=
    router_answered (v := v) hleaves htarget hown hprepared hi hdid hresponding
  have hhandled : (smcpHandleRequest (app.requestHooks hooks calls)
      (preparePacket (s.arrived buffer n source dest))).1 =
      (app.smcpNodeRouterHandler hooks v).1.state := congrArg Prod.fst hrouted
  rw [← hhandled] at hanswered
  obtain ⟨ds, hsent, hall, -, hlen⟩ :=
    processPacket_answered hv hcode htt hunicast hfamily hanswered
  have hlen := hlen hworks
  have hone : (∃ d : Datagram, after.sent = s.sent ++ [d] ∧
      d.Answers (s.arrived buffer n source dest).inbound) ↔ ¬app.AnswersTwice v := by
    rw [← htwice]
    constructor
    · rintro ⟨d, hd, -⟩ hmany
      rw [hsent] at hd
      have hds := congrArg List.length (List.append_cancel_left hd)
      rw [hlen, hmany, List.length_singleton] at hds
      omega
    · intro hfew
      have hsingle : ds.length = 1 := by omega
      obtain ⟨d, hd⟩ := List.length_eq_one_iff.1 hsingle
      refine ⟨d, ?_, hall d ?_⟩
      · rw [← hd]
        exact hsent
      · rw [hd]
        exact List.mem_singleton_self d
  -- undefined behaviour
  have hprocessing : v.state.isProcessingMessage = true := hprepared.isProcessingMessage
  have hfaults := fault_router (v := v) hleaves htarget hown hprocessing hdid hresponding
  have hclean : v.state.fault = false := by
    obtain ⟨i0, d0, l0, hprep⟩ := preparePacket_eq (s.arrived buffer n source dest)
    show (preparePacket (s.arrived buffer n source dest)).fault = false
    rw [hprep]
    exact hsound
  rw [hclean, Bool.false_or] at hfaults
  have hafter : after.fault = app.getsLost v := by
    have hcode' : coapCodeIsRequest (headerCode (s.arrived buffer n source dest).inbound.bytes) =
        true := by
      rw [arrived_code hv]
      exact hcode
    have hkept : ¬((s.arrived buffer n source dest).inbound.wasSentToMulticast = true ∧
        headerTt (s.arrived buffer n source dest).inbound.bytes = coapTransTypeConfirmable) := by
      rintro ⟨hmulticast, -⟩
      exact Bool.false_ne_true (hunicast.symm.trans hmulticast)
    have hbail (u : Instance) : (finishPacketBail u).fault = u.fault := rfl
    have hfinished := congrArg (fun r => r.1.fault)
      ((processPacket_eq (app.requestHooks hooks calls) hv s source dest).trans
        (finishPacket_request (app.requestHooks hooks calls) rfl hkept hcode'))
    dsimp only at hfinished
    rw [hbail, fault_automaticReply, hhandled, hfaults] at hfinished
    exact hfinished
  rw [hone, hafter]

end

/-! ## A server with one variable -/

theorem leavesMessage_noHooks : LeavesMessage noHooks := fun _ _ _ => untouched_of_eq rfl

/-- A confirmable GET of the root. -/
def rootGet : ℕ → UInt8 := ofList [0x40, 0x01, 0x12, 0x34] fun _ => 0

theorem oneReply_rootGet :
    ∃ d : Datagram, (processPacket (variableApp.requestHooks noHooks []) servingRun rootGet 4
        localPeer none).1.sent = servingRun.sent ++ [d] ∧
      d.Answers (servingRun.arrived rootGet 4 localPeer none).inbound := by
  have htarget : (variableApp.route (preparePacket
      (servingRun.arrived rootGet 4 localPeer none)).inbound).target =
      some (some (.other 0), 0) := by decide +kernel
  have hobserve : (variableApp.route (preparePacket
      (servingRun.arrived rootGet 4 localPeer none)).inbound).inbound.hasObserveOption = false := by
    decide +kernel
  have hiff := @oneReply_iff noHooks rootGet 4 localPeer none servingRun variableApp _ _ []
    (by decide) (by decide) (by decide) rfl (by decide) (by decide) (by decide) (by decide)
    (fun _ => Int.one_pos) leavesMessage_noHooks htarget (.inr rfl)
  have honce : ¬variableApp.AnswersTwice
      ⟨preparePacket (servingRun.arrived rootGet 4 localPeer none), []⟩ := by
    intro htwice
    have hyes := htwice.observes
    dsimp only at hyes
    rw [hobserve] at hyes
    exact Bool.false_ne_true hyes
  have hfinds : variableApp.getsLost
      ⟨preparePacket (servingRun.arrived rootGet 4 localPeer none), []⟩ = false := by
    decide +kernel
  exact (hiff.2 ⟨honce, hfinds⟩).1

/-- A confirmable GET of the root, with an Observe option and a query of 80 bytes. -/
def longObserve : ℕ → UInt8 :=
  ofList ([0x40, 0x01, 0x12, 0x34, 0x60, 0x9D, 67] ++ List.replicate 80 0x61) fun _ => 0

/-- It is answered by `smcp_start_async_response`, which sends the response that was under way, an ACK
with code 2.05, and again with the listing. -/
theorem oneReply_longObserve :
    ¬∀ (app : NodeApp) (hooks : Hooks) (calls : List VarCall) (s : Instance) (buffer : ℕ → UInt8)
      (n : ℕ) (source : SockAddr) (handler : RequestHandler) (context : ℕ), Reachable s →
      coapVerifyPacket buffer n = true → coapCodeIsRequest (headerCode buffer) = true →
      headerTt buffer = coapTransTypeConfirmable → source.family ≠ 0 → s.requestHandler.isSome →
      s.isResponding = false → s.fault = false → (∀ k, 0 < s.sendResult k) →
      LeavesMessage hooks →
      (app.route (preparePacket (s.arrived buffer n source none)).inbound).target =
        some (some handler, context) →
      handler = .smcpDefaultRequestHandler ∨ handler = .other app.variableHandler →
      ∃ d : Datagram, (processPacket (app.requestHooks hooks calls) s buffer n source none).1.sent =
          s.sent ++ [d] ∧ d.Answers (s.arrived buffer n source none).inbound := by
  intro hall
  have htarget : (variableApp.route (preparePacket
      (servingRun.arrived longObserve 87 localPeer none)).inbound).target =
      some (some (.other 0), 0) := by decide +kernel
  obtain ⟨d, hd, -⟩ := hall variableApp noHooks [] servingRun longObserve 87 localPeer _ _
    (reachable_idleRun _ _) (by decide +kernel) (by decide) (by decide) (by decide) (by decide)
    (by decide) (by decide) (fun _ => Int.one_pos) leavesMessage_noHooks htarget (.inr rfl)
  have htwo : (processPacket (variableApp.requestHooks noHooks []) servingRun longObserve 87
      localPeer none).1.sent.length = 2 := by decide +kernel
  have hnone : servingRun.sent.length = 0 := by decide
  rw [hd, List.length_append, hnone, List.length_singleton] at htwo
  exact absurd htwo (by decide)

end Smcp
