import Smcp.Inbound.Answered
import Smcp.Node.Critical
import Smcp.Variable.Form

/-!
# Writes that come again

A POST or PUT to a variable node, delivered any number of times.

* `variableHandler_writes` and `router_writes`: one call of the handler. It writes at most once, and
  not at all for a duplicate; nothing that outlives the message changes; at most one answer is sent;
* `Delivery.setCalls_le` and `Delivery.dupeInfo_after`: one delivery;
* `setCalls_known`: the table knows the message in every delivery behind a fresh one;
* `write_atMostOnce`: over the whole run, one write, and an answer to every delivery.
-/

namespace Smcp

open Run ByteMemory OptionFormat

/-! ## One call of the handler -/

/-- The number of calls that write. -/
def setCalls (calls : List VarCall) : ℕ := calls.countP fun c => c.action = .setValue

/-- The handler wrote at most once, not at all for a duplicate, and left everything that outlives
the message. -/
structure WritesOnce (v v' : VarState) : Prop where
  same : Same v.state v'.state
  calls : ∃ made, v'.calls = made ++ v.calls ∧
    setCalls made ≤ if v.state.inbound.isDupe then 0 else 1

theorem setCalls_append (calls calls' : List VarCall) :
    setCalls (calls ++ calls') = setCalls calls + setCalls calls' :=
  List.countP_append

theorem setCalls_eq_zero {asked : List VarCall} (h : ∀ c ∈ asked, c.action = .getKey) :
    setCalls asked = 0 := by
  apply List.countP_eq_zero.2
  intro c hc
  rw [h c hc]
  decide

section
variable {works : Prop} {v v' : VarState} {i : Inbound}
  {base : List Datagram}

theorem WritesOnce.of_asked (h : Same v.state v'.state) (hasks : AsksKeys v.calls v'.calls) :
    WritesOnce v v' := by
  obtain ⟨asked, hcalls, hkeys⟩ := hasks
  refine ⟨h, asked, hcalls, ?_⟩
  rw [setCalls_eq_zero hkeys]
  exact Nat.zero_le _

/-- Before that, keys were asked for, and the option iterator moved. -/
theorem WritesOnce.behind {v'' : VarState} (h : WritesOnce v' v'') (hsame : Same v.state v'.state)
    (hasks : AsksKeys v.calls v'.calls)
    (hdupe : v'.state.inbound.isDupe = v.state.inbound.isDupe) : WritesOnce v v'' := by
  obtain ⟨asked, hcalls, hkeys⟩ := hasks
  obtain ⟨hsame', made, hcalls', hmade⟩ := h
  refine ⟨hsame.trans hsame', made ++ asked, ?_, ?_⟩
  · rw [hcalls', hcalls, List.append_assoc]
  · rw [setCalls_append, setCalls_eq_zero hkeys, Nat.add_zero, ← hdupe]
    exact hmade

theorem writeVariable_writes (node : VariableNode) (keyIndex : ℕ) (o : VarOptions) (v : VarState) :
    WritesOnce v (writeVariable node keyIndex o v).1 := by
  have hasked : AsksKeys v.calls v.calls := AsksKeys.refl v.calls
  unfold writeVariable
  by_cases hdupe : v.state.inbound.isDupe = true
  · rw [if_pos hdupe]
    exact .of_asked (Same.refl v.state) hasked
  · rw [if_neg hdupe]
    by_cases hkey : keyIndex = badKeyIndex
    · rw [if_pos hkey]
      exact .of_asked (Same.refl v.state) hasked
    · rw [if_neg hkey]
      -- this is the one call
      have hwrites {u : Instance} (hsame : Same v.state u) : WritesOnce v
          ⟨u, ⟨.setValue, keyIndex, o.writtenValue⟩ :: v.calls⟩ := by
        refine ⟨hsame, [⟨.setValue, keyIndex, o.writtenValue⟩], rfl, ?_⟩
        rw [if_neg hdupe]
        exact Nat.le_refl 1
      have hbegin := same_beginResponse v.state (httpToCoapCode 204)
      dsimp only
      split_ifs
      · exact hwrites (Same.refl v.state)
      · exact hwrites hbegin
      · exact hwrites (hbegin.trans (same_send _))

theorem writeVariable_answered (node : VariableNode) (hi : i.Confirmable)
    (h : Answered works i base 0 v.state) (hdid : v.state.didRespond = false)
    (hresponding : v.state.isResponding = false) (keyIndex : ℕ) (o : VarOptions) :
    ∃ m, m ≤ 1 ∧ Answered works i base m (writeVariable node keyIndex o v).1.state := by
  obtain ⟨hok, hway⟩ := h.beginResponse hi hdid hresponding
    (by decide : coapResult100 ≤ httpToCoapCode 204)
  unfold writeVariable
  dsimp only
  split_ifs with hdupe hkey hset hbegin
  · exact ⟨0, Nat.zero_le 1, h⟩
  · exact ⟨0, Nat.zero_le 1, h⟩
  · exact ⟨0, Nat.zero_le 1, h⟩
  · exact absurd hok hbegin
  · exact ⟨1, Nat.le_refl 1, (hway.send hi).answered⟩

/-- The handler, for a POST or PUT. -/
theorem variableHandler_writes (hooks : Hooks) (node : VariableNode)
    (hmethod : headerCode v.state.inbound.bytes = coapMethodPost ∨
      headerCode v.state.inbound.bytes = coapMethodPut) :
    WritesOnce v (smcpVariableNodeRequestHandler hooks node v).1 ∧
      (i.Confirmable → Answered works i base 0 v.state → v.state.didRespond = false →
        v.state.isResponding = false →
        ∃ m, Answered works i base m (smcpVariableNodeRequestHandler hooks node v).1.state) := by
  obtain ⟨j, calls', hsame, hafter, hasks⟩ := lookUpKey_state node v
  unfold smcpVariableNodeRequestHandler
  dsimp only
  rw [hafter]
  -- where the option iterator is does not matter
  have hmoved {i' : Inbound} (hi' : v.state.inbound.SameMessage i') :
      WritesOnce v ⟨{ v.state with inbound := i' }, calls'⟩ ∧
        (i.Confirmable → Answered works i base 0 v.state → v.state.didRespond = false →
          v.state.isResponding = false →
          ∃ m, Answered works i base m { v.state with inbound := i' }) :=
    ⟨.of_asked ⟨rfl⟩ hasks, fun _ h _ _ => ⟨0, h.move hi'.samePacket v.state.outbound⟩⟩
  by_cases hfound : (lookUpKey node v).status = smcpStatusOk
  · rw [if_neg (not_not.2 hfound)]
    have hscan := hsame.trans (sameMessage_scanVarOptions (headerCode v.state.inbound.bytes)
      (j.packetLen + 1) j.varOptions)
    change v.state.inbound.SameMessage
      (VarState.scanned (headerCode v.state.inbound.bytes)
        ⟨{ v.state with inbound := j }, calls'⟩).1.inbound at hscan
    generalize VarState.scanned (headerCode v.state.inbound.bytes)
      ⟨{ v.state with inbound := j }, calls'⟩ = scanned at hscan ⊢
    by_cases hscanned : scanned.2 = smcpStatusOk
    · rw [if_neg (not_not.2 hscanned), if_pos hmethod]
      constructor
      · exact (writeVariable_writes node _ scanned.1 _).behind ⟨rfl⟩ hasks hscan.isDupe
      · intro hi h hdid hresponding
        obtain ⟨m, -, hanswered⟩ := writeVariable_answered node
          (v := ⟨{ v.state with inbound := scanned.1.inbound }, calls'⟩) hi
          (h.move hscan.samePacket v.state.outbound) hdid hresponding
          (lookUpKey node v).keyIndex scanned.1
        exact ⟨m, hanswered⟩
    · rw [if_pos hscanned]
      exact hmoved hscan
  · rw [if_pos hfound]
    exact hmoved hsame

/-- Through the router. -/
theorem router_writes (hooks : Hooks) {app : NodeApp} {context : ℕ}
    (htarget : (app.route v.state.inbound).target =
      some (some (.other app.variableHandler), context))
    (hmethod : headerCode v.state.inbound.bytes = coapMethodPost ∨
      headerCode v.state.inbound.bytes = coapMethodPut) :
    WritesOnce v (app.smcpNodeRouterHandler hooks v).1 ∧
      (i.Confirmable → Answered works i base 0 v.state → v.state.didRespond = false →
        v.state.isResponding = false →
        ∃ m, Answered works i base m (app.smcpNodeRouterHandler hooks v).1.state) := by
  -- the router moves the iterator, and writes nothing
  have hsame := sameMessage_route app v.state.inbound
  unfold NodeApp.smcpNodeRouterHandler NodeApp.callHandler
  dsimp only
  rw [htarget]
  dsimp only
  rw [if_pos rfl]
  have hmethod' : headerCode (app.route v.state.inbound).inbound.bytes = coapMethodPost ∨
      headerCode (app.route v.state.inbound).inbound.bytes = coapMethodPut := by
    rw [hsame.bytes]
    exact hmethod
  obtain ⟨hwrites, hanswered⟩ := @variableHandler_writes works
    { v with state.inbound := (app.route v.state.inbound).inbound } i base hooks
    (app.variableNode context) hmethod'
  -- what is written, and that it is answered
  constructor
  · exact hwrites.behind ⟨rfl⟩ (AsksKeys.refl v.calls) hsame.isDupe
  · intro hi h hdid hresponding
    exact hanswered hi (h.move hsame.samePacket v.state.outbound) hdid hresponding

end

/-! ## One delivery -/

/-- A datagram that arrives: the application at that time, the calls of node functions until then,
and the instance. -/
structure Delivery where
  hooks : Hooks
  app : NodeApp
  calls : List VarCall
  state : Instance
  buffer : ℕ → UInt8
  length : ℕ
  dest : Option SockAddr

namespace Delivery
variable (source : SockAddr) (d : Delivery)

/-- The instance that is about to finish the packet. -/
def arrived : Instance := d.state.arrived d.buffer d.length source d.dest

/-- `smcp_inbound_finish_packet` drops the packet. -/
def isDropped : Bool :=
  d.dest.any (fun dest => smcpIsAddrMulticast dest.addr) &&
    headerTt d.buffer == coapTransTypeConfirmable

/-- The instance afterwards. -/
def after : Instance :=
  (processPacket (d.app.requestHooks d.hooks d.calls) d.state d.buffer d.length source d.dest).1

/-- The calls of node functions afterwards. -/
def callsAfter : List VarCall :=
  if d.isDropped then d.calls
  else (d.app.smcpNodeRouterHandler d.hooks ⟨preparePacket (d.arrived source), d.calls⟩).1.calls

/-- How often the node function was called to write. -/
def setCalls : ℕ := Smcp.setCalls (d.callsAfter source) - Smcp.setCalls d.calls

/-- The packet is entered in the table of duplicates. -/
def isFresh : Bool := !d.isDropped && !d.state.dupeInfo.knows (d.arrived source).inbound

/-- A POST or PUT to a variable node, with the given message id. -/
structure IsWrite (msgId : ℕ) : Prop where
  verified : coapVerifyPacket d.buffer d.length = true
  msgId_eq : headerMsgId d.buffer = msgId
  method : headerCode d.buffer = coapMethodPost ∨ headerCode d.buffer = coapMethodPut
  handler : d.state.requestHandler.isSome
  target : ∃ context, (d.app.route (preparePacket (d.arrived source)).inbound).target =
    some (some (.other d.app.variableHandler), context)

end Delivery

/-- The entry for a message is about its sender and its id. -/
theorem dupeEntry_congr {i i' : Inbound} (hsaddr : i'.saddr = i.saddr)
    (hid : headerMsgId i'.bytes = headerMsgId i.bytes) : i'.dupeEntry = i.dupeEntry := by
  have hlow := (i.bytes 2).toNat_lt
  have hlow' := (i'.bytes 2).toNat_lt
  have hsum := hid
  unfold headerMsgId at hsum
  have h2 : i'.bytes 2 = i.bytes 2 := UInt8.toNat_inj.1 (by omega)
  have h3 : i'.bytes 3 = i.bytes 3 := UInt8.toNat_inj.1 (by omega)
  have hread : readBytes i'.bytes 2 2 = readBytes i.bytes 2 2 := by
    simp only [readBytes, h2, h3]
  unfold Inbound.dupeEntry Inbound.dupeHash
  rw [hsaddr, hid, hread]

section
variable {source : SockAddr} {msgId : ℕ} {d d' : Delivery}

theorem Delivery.isDropped_iff (h : d.IsWrite source msgId) : d.isDropped = true ↔
    (d.arrived source).inbound.wasSentToMulticast = true ∧
      headerTt (d.arrived source).inbound.bytes = coapTransTypeConfirmable := by
  have htt : headerTt (d.arrived source).inbound.bytes = headerTt d.buffer := by
    unfold Delivery.arrived
    rw [headerTt, arrived_header h.verified d.state source d.dest 0 (by decide), headerTt]
  unfold Delivery.isDropped
  rw [Bool.and_eq_true, beq_iff_eq, htt]
  rfl

/-- A packet that is dropped changes nothing that outlives it. -/
theorem Delivery.same_dropped (h : d.IsWrite source msgId) (hdropped : d.isDropped = true) :
    Same d.state (d.after source) := by
  have hcond := (Delivery.isDropped_iff h).1 hdropped
  unfold Delivery.after
  rw [processPacket_eq _ h.verified]
  change Same d.state (smcpInboundFinishPacket _ (d.arrived source)).1
  rw [smcpInboundFinishPacket, if_neg (by simp [Delivery.arrived, Instance.arrived]), if_pos hcond]
  exact ⟨rfl⟩

theorem Delivery.code_eq (h : d.IsWrite source msgId) :
    headerCode (d.arrived source).inbound.bytes = headerCode d.buffer := by
  unfold Delivery.arrived
  rw [headerCode, arrived_header h.verified d.state source d.dest 1 (by decide), headerCode]

/-- The handler is called for a packet that is not dropped. -/
theorem Delivery.handled (h : d.IsWrite source msgId) :
    smcpHandleRequest (d.app.requestHooks d.hooks d.calls) (preparePacket (d.arrived source)) =
      ((d.app.smcpNodeRouterHandler d.hooks
          ⟨preparePacket (d.arrived source), d.calls⟩).1.state,
        (d.app.smcpNodeRouterHandler d.hooks ⟨preparePacket (d.arrived source), d.calls⟩).2) := by
  obtain ⟨i0, d0, l0, hprep⟩ := preparePacket_eq (d.arrived source)
  have hhandler : (preparePacket (d.arrived source)).requestHandler.isSome := by
    rw [hprep]
    exact h.handler
  exact d.app.handleRequest_router d.hooks d.calls hhandler

theorem Delivery.routed (works : Prop) (h : d.IsWrite source msgId) (i : Inbound)
    (base : List Datagram) :
    WritesOnce ⟨preparePacket (d.arrived source), d.calls⟩ (d.app.smcpNodeRouterHandler d.hooks
        ⟨preparePacket (d.arrived source), d.calls⟩).1 ∧
      (i.Confirmable → Answered works i base 0 (preparePacket (d.arrived source)) →
        (preparePacket (d.arrived source)).didRespond = false →
        (preparePacket (d.arrived source)).isResponding = false →
        ∃ m, Answered works i base m (d.app.smcpNodeRouterHandler d.hooks
          ⟨preparePacket (d.arrived source), d.calls⟩).1.state) := by
  obtain ⟨context, htarget⟩ := h.target
  have hcode : headerCode (preparePacket (d.arrived source)).inbound.bytes = headerCode d.buffer := by
    rw [preparePacket_bytes, Delivery.code_eq h]
  have hmethod := h.method
  rw [← hcode] at hmethod
  exact router_writes (v := ⟨preparePacket (d.arrived source), d.calls⟩) d.hooks htarget hmethod

theorem Delivery.same_kept (h : d.IsWrite source msgId) (hkept : d.isDropped = false) :
    Same (preparePacket (d.arrived source)) (d.after source) := by
  have hcond : ¬((d.arrived source).inbound.wasSentToMulticast = true ∧
      headerTt (d.arrived source).inbound.bytes = coapTransTypeConfirmable) := by
    rw [← Delivery.isDropped_iff h, hkept]
    exact Bool.false_ne_true
  have hrequest : coapCodeIsRequest (headerCode (d.arrived source).inbound.bytes) = true := by
    rw [Delivery.code_eq h]
    rcases h.method with hpost | hput
    · rw [hpost]
      decide
    · rw [hput]
      decide
  have hrouted := (Delivery.routed True h (d.arrived source).inbound []).1.same
  have hhandled := Delivery.handled h
  have hbail (u : Instance) : Same u (finishPacketBail u) := ⟨rfl⟩
  unfold Delivery.after
  rw [processPacket_eq _ h.verified]
  change Same _ (smcpInboundFinishPacket _ (d.arrived source)).1
  rw [finishPacket_request _ rfl hcond hrequest]
  dsimp only
  rw [hhandled]
  exact (hrouted.trans (same_automaticReply _ _ _)).trans (hbail _)

theorem preparePacket_known {s : Instance} (hfake : s.inbound.isFake = false)
    (hknows : s.dupeInfo.knows s.inbound = true) : (preparePacket s).dupeInfo = s.dupeInfo := by
  unfold DupeInfo.knows at hknows
  unfold preparePacket smcpInboundDupeCheck
  dsimp only
  rw [if_neg (by simp [hfake]), if_pos hknows]

/-- The table of duplicates after a delivery. -/
theorem Delivery.dupeInfo_after (h : d.IsWrite source msgId) :
    (d.after source).dupeInfo = if d.isFresh source then
      d.state.dupeInfo.enter (d.arrived source).inbound.dupeEntry else d.state.dupeInfo := by
  have hinfo {s s' : Instance} (hsame : Same s s') : s'.dupeInfo = s.dupeInfo :=
    congrArg (fun w : World => w.dupes.info) hsame.world
  unfold Delivery.isFresh
  cases hdropped : d.isDropped with
  | true =>
    rw [Bool.not_true, Bool.false_and, if_neg Bool.false_ne_true]
    exact hinfo (Delivery.same_dropped h hdropped)
  | false =>
    rw [hinfo (Delivery.same_kept h hdropped)]
    cases hknows : d.state.dupeInfo.knows (d.arrived source).inbound with
    | true =>
      rw [if_neg (by decide)]
      exact preparePacket_known (s := d.arrived source) rfl hknows
    | false =>
      rw [if_pos (by decide)]
      exact preparePacket_dupeInfo (s := d.arrived source) rfl hknows

/-- Only a fresh message is written, and only once. -/
theorem Delivery.setCalls_le (h : d.IsWrite source msgId) :
    d.setCalls source ≤ if d.isFresh source then 1 else 0 := by
  unfold Delivery.setCalls Delivery.callsAfter Delivery.isFresh
  cases hdropped : d.isDropped with
  | true =>
    rw [if_pos rfl, Nat.sub_self]
    exact Nat.zero_le _
  | false =>
    obtain ⟨made, hcalls, hmade⟩ := (Delivery.routed True h (d.arrived source).inbound []).1.calls
    have hmark : (preparePacket (d.arrived source)).inbound.isDupe =
        d.state.dupeInfo.knows (d.arrived source).inbound :=
      (preparePacket_samePacket (s := d.arrived source) rfl).isDupe
    change Smcp.setCalls made ≤ if (preparePacket (d.arrived source)).inbound.isDupe then 0 else 1 at hmade
    rw [if_neg (by decide), hcalls, setCalls_append, Nat.add_sub_cancel]
    rw [hmark] at hmade
    cases hknows : d.state.dupeInfo.knows (d.arrived source).inbound with
    | true =>
      rw [hknows] at hmade
      exact hmade
    | false =>
      rw [hknows] at hmade
      exact hmade

theorem Delivery.callbacksOk_after (h : d.IsWrite source msgId) (hs : CallbacksOk d.state) :
    CallbacksOk (d.after source) := by
  cases hdropped : d.isDropped with
  | true => exact (Delivery.same_dropped h hdropped).evolves.callbacksOk hs
  | false =>
    have harrived : CallbacksOk (d.arrived source) := hs
    have hprepared := (evolves_preparePacket (d.arrived source)).callbacksOk harrived
    exact (Delivery.same_kept h hdropped).evolves.callbacksOk hprepared

/-- A confirmable delivery is answered. -/
theorem Delivery.answered (h : d.IsWrite source msgId)
    (htt : headerTt d.buffer = coapTransTypeConfirmable)
    (hunicast : d.dest.any (fun dest => smcpIsAddrMulticast dest.addr) = false)
    (hfamily : source.family ≠ 0) (hidle : d.state.isResponding = false) :
    ∃ answers : List Datagram, (d.after source).sent = d.state.sent ++ answers ∧ answers ≠ [] ∧
      ∀ x ∈ answers, x.Answers (d.arrived source).inbound := by
  have hrequest : coapCodeIsRequest (headerCode d.buffer) = true := by
    rcases h.method with hpost | hput
    · rw [hpost]
      decide
    · rw [hput]
      decide
  obtain ⟨hbefore, hdid, hresponding⟩ :=
    answered_preparePacket d.state d.buffer d.length source d.dest
  obtain ⟨m, hanswered⟩ := (Delivery.routed _ h
    (d.state.received d.buffer d.length source d.dest) d.state.sent).2
    (received_confirmable h.verified htt hfamily) hbefore hdid (hresponding.trans hidle)
  have hhandled : (smcpHandleRequest (d.app.requestHooks d.hooks d.calls)
      (preparePacket (d.arrived source))).1 = (d.app.smcpNodeRouterHandler d.hooks
        ⟨preparePacket (d.arrived source), d.calls⟩).1.state := by rw [Delivery.handled h]
  rw [← hhandled] at hanswered
  obtain ⟨answers, hsent, hall, hpos, -⟩ :=
    processPacket_answered h.verified hrequest htt hunicast hfamily hanswered
  exact ⟨answers, hsent, List.ne_nil_of_length_pos hpos, hall⟩

end

/-! ## The run -/

section
variable {source : SockAddr} {msgId : ℕ} {d : Delivery} {ds : List Delivery}

/-- Between two deliveries, the program does what it likes. -/
def Delivery.Before (source : SockAddr) (d d' : Delivery) : Prop :=
  Reaches Op.exec (d.after source) d'.state

/-- The number of messages that are entered in the table of duplicates between the deliveries. -/
def othersBetween (source : SockAddr) : List Delivery → ℕ
  | [] => 0
  | [_] => 0
  | d :: d' :: ds =>
    (d'.state.dupeInfo.fresh - (d.after source).dupeInfo.fresh) + othersBetween source (d' :: ds)

theorem DupeInfo.Later.fresh_le {e e' : DupeInfo} (h : e.Later e') : e.fresh ≤ e'.fresh := by
  obtain ⟨entries, rfl⟩ := h
  rw [fresh_foldl_enter]
  exact Nat.le_add_right _ _

/-- What the next delivery finds. -/
theorem Delivery.Before.next {d' : Delivery} (hbefore : d.Before source d')
    (h : d.IsWrite source msgId) (hs : CallbacksOk d.state) :
    CallbacksOk d'.state ∧ (d.after source).dupeInfo.Later d'.state.dupeInfo := by
  have hevolves := evolves_of_reaches hbefore
  have hok := Delivery.callbacksOk_after h hs
  exact ⟨hevolves.callbacksOk hok, (hevolves hok).later⟩

theorem Delivery.dupeEntry_eq {d' : Delivery} (h : d.IsWrite source msgId)
    (h' : d'.IsWrite source msgId) :
    (d'.arrived source).inbound.dupeEntry = (d.arrived source).inbound.dupeEntry := by
  have hid {x : Delivery} (hx : x.IsWrite source msgId) :
      headerMsgId (x.arrived source).inbound.bytes = msgId := by
    rw [← hx.msgId_eq]
    unfold Delivery.arrived headerMsgId
    rw [arrived_header hx.verified x.state source x.dest 2 (by decide),
      arrived_header hx.verified x.state source x.dest 3 (by decide)]
  have hsaddr : (d'.arrived source).inbound.saddr = (d.arrived source).inbound.saddr := rfl
  exact dupeEntry_congr hsaddr ((hid h').trans (hid h).symm)

/-- Behind the delivery that was entered in `e`, the table knows the message: nothing is written. -/
theorem setCalls_known {e : DupeInfo} (he : e.dupeIndex < smcpConfDupeBufferSize)
    (hs : CallbacksOk d.state) (hwrites : ∀ x ∈ d :: ds, x.IsWrite source msgId)
    (hchain : (d :: ds).IsChain (Delivery.Before source))
    (hlater : (e.enter (d.arrived source).inbound.dupeEntry).Later d.state.dupeInfo)
    (hcount : d.state.dupeInfo.fresh + othersBetween source (d :: ds) <
      e.fresh + 1 + smcpConfDupeBufferSize) :
    ((d :: ds).map (Delivery.setCalls source)).sum = 0 := by
  -- induction on the deliveries: each one is a duplicate
  induction ds generalizing d with
  | nil =>
    have hknows := knows_of_later he hlater hcount
    have hle := Delivery.setCalls_le (hwrites d List.mem_cons_self)
    unfold Delivery.isFresh at hle
    rw [hknows, Bool.not_true, Bool.and_false, if_neg Bool.false_ne_true] at hle
    rw [List.map_cons, List.map_nil, List.sum_cons, List.sum_nil]
    omega
  | cons d' ds ih =>
    obtain ⟨hbefore, hchain'⟩ := List.isChain_cons_cons.1 hchain
    have hd := hwrites d List.mem_cons_self
    have hwrites' : ∀ x ∈ d' :: ds, x.IsWrite source msgId :=
      fun x hx => hwrites x (List.mem_cons_of_mem d hx)
    have hd' := hwrites' d' List.mem_cons_self
    have hknows := knows_of_later he hlater ((Nat.le_add_right _ _).trans_lt hcount)
    have hle := Delivery.setCalls_le hd
    have hinfo := Delivery.dupeInfo_after hd
    unfold Delivery.isFresh at hle hinfo
    rw [hknows, Bool.not_true, Bool.and_false, if_neg Bool.false_ne_true] at hle hinfo
    obtain ⟨hok, hnext⟩ := hbefore.next hd hs
    have hfresh := hnext.fresh_le
    rw [othersBetween] at hcount
    rw [hinfo] at hnext hfresh hcount
    have hlater' : (e.enter (d'.arrived source).inbound.dupeEntry).Later d'.state.dupeInfo := by
      rw [Delivery.dupeEntry_eq hd hd']
      exact hlater.trans hnext
    have hrest := ih hok hwrites' hchain' hlater' (by omega)
    rw [List.map_cons, List.sum_cons, hrest]
    omega

/-- All deliveries together write at most once. -/
theorem setCalls_sum_le (hs : CallbacksOk d.state)
    (hindex : d.state.dupeInfo.dupeIndex < smcpConfDupeBufferSize)
    (hwrites : ∀ x ∈ d :: ds, x.IsWrite source msgId)
    (hchain : (d :: ds).IsChain (Delivery.Before source))
    (hothers : othersBetween source (d :: ds) < smcpConfDupeBufferSize) :
    ((d :: ds).map (Delivery.setCalls source)).sum ≤ 1 := by
  -- induction on the deliveries: the first one that is not a duplicate writes
  induction ds generalizing d with
  | nil =>
    have hle := Delivery.setCalls_le (hwrites d List.mem_cons_self)
    rw [List.map_cons, List.map_nil, List.sum_cons, List.sum_nil]
    split_ifs at hle
    · omega
    · omega
  | cons d' ds ih =>
    obtain ⟨hbefore, hchain'⟩ := List.isChain_cons_cons.1 hchain
    have hd := hwrites d List.mem_cons_self
    have hwrites' : ∀ x ∈ d' :: ds, x.IsWrite source msgId :=
      fun x hx => hwrites x (List.mem_cons_of_mem d hx)
    have hd' := hwrites' d' List.mem_cons_self
    have hle := Delivery.setCalls_le hd
    have hinfo := Delivery.dupeInfo_after hd
    obtain ⟨hok, hnext⟩ := hbefore.next hd hs
    have hfresh := hnext.fresh_le
    rw [othersBetween] at hothers
    rw [List.map_cons, List.sum_cons]
    by_cases hfirst : d.isFresh source = true
    · -- this one is entered
      rw [if_pos hfirst] at hle hinfo
      rw [hinfo] at hnext hfresh hothers
      have hone : (d.state.dupeInfo.enter (d.arrived source).inbound.dupeEntry).fresh =
          d.state.dupeInfo.fresh + 1 := rfl
      rw [← Delivery.dupeEntry_eq hd hd'] at hnext
      have hrest := setCalls_known hindex hok hwrites' hchain' hnext (by omega)
      rw [hrest]
      exact hle
    · rw [if_neg hfirst] at hle
      have hrest := ih hok
        (dupeIndex_of_later hnext (by
          rw [hinfo, if_neg hfirst]
          exact hindex)) hwrites' hchain' (by omega)
      omega

/-- A POST or PUT to a variable node is delivered any number of times, with fewer than sixteen other
fresh messages in between: the node function is called to write at most once, and every confirmable
delivery that was not sent to a multicast address is answered. -/
theorem write_atMostOnce (hs : Reachable d.state) (hfamily : source.family ≠ 0)
    (hwrites : ∀ x ∈ d :: ds, x.IsWrite source msgId)
    (hchain : (d :: ds).IsChain (Delivery.Before source))
    (hothers : othersBetween source (d :: ds) < smcpConfDupeBufferSize) :
    ((d :: ds).map (Delivery.setCalls source)).sum ≤ 1 ∧
      ∀ x ∈ d :: ds, headerTt x.buffer = coapTransTypeConfirmable →
        x.dest.any (fun dest => smcpIsAddrMulticast dest.addr) = false →
        x.state.isResponding = false →
        ∃ answers : List Datagram, (x.after source).sent = x.state.sent ++ answers ∧ answers ≠ [] ∧
          ∀ y ∈ answers, y.Answers (x.arrived source).inbound := by
  constructor
  · exact setCalls_sum_le hs.callbacksOk hs.dupeIndex_lt hwrites hchain hothers
  · intro x hx htt hunicast hidle
    exact Delivery.answered (hwrites x hx) htt hunicast hfamily hidle

end

/-! ## A server with one variable -/

/-- A server whose root is a variable node with the key `k`. -/
def variableApp : NodeApp where
  text _ := stringAt []
  store :=
    let s := (smcpNodeInit (fun _ => stringAt []) .empty (some 0) none none none).1
    s.setNode 0 { s.node 0 with requestHandler := some (.other 0) }
  root := 0
  packetAddr := 100
  variableHandler := 0
  variableNode _ := keyNode
  otherHandler _ _ v := (v, smcpStatusNotImplemented)

/-- A confirmable PUT of `1` to the key. -/
def putVariable : ℕ → UInt8 :=
  ofList [0x40, 0x03, 0x12, 0x34, 0xB1, 0x6B, 0xFF, 0x31] fun _ => 0

/-- It is delivered. -/
def putDelivery (calls : List VarCall) (s : Instance) (dest : Option SockAddr) : Delivery :=
  ⟨noHooks, variableApp, calls, s, putVariable, 8, dest⟩

/-- The address of all nodes on the link. -/
def allNodes : SockAddr :=
  ⟨10, 5683, 0, #v[0xFF, 0, 0, 0, 0, 0, 0, 0, 0, 0, 0, 0, 0, 0, 0, 1], 0⟩

/-- Two deliveries, one right behind the other. -/
theorem write_atMostOnce_twice :
    let d := putDelivery [] servingRun none
    let d' := putDelivery (d.callsAfter localPeer) (d.after localPeer) none
    d.setCalls localPeer + d'.setCalls localPeer ≤ 1 ∧
      ∃ answers : List Datagram, (d'.after localPeer).sent = d'.state.sent ++ answers ∧
        answers ≠ [] := by
  intro d d'
  have hwrites : ∀ x ∈ [d, d'], x.IsWrite localPeer 0x3412 := by
    intro x hx
    rcases List.mem_cons.1 hx with rfl | hx'
    · exact ⟨by decide, by decide, by decide, by decide +kernel, 0, by decide +kernel⟩
    · rw [List.mem_singleton.1 hx']
      exact ⟨by decide, by decide, by decide, by decide +kernel, 0, by decide +kernel⟩
  have hnear : d.Before localPeer d' := .refl _
  have hchain : [d, d'].IsChain (Delivery.Before localPeer) :=
    List.isChain_cons_cons.2 ⟨hnear, List.isChain_singleton d'⟩
  have hothers : othersBetween localPeer [d, d'] < smcpConfDupeBufferSize := by decide +kernel
  have hidle : d'.state.isResponding = false := by decide +kernel
  obtain ⟨hsum, hall⟩ := write_atMostOnce (reachable_idleRun _ _) (by decide) hwrites hchain hothers
  obtain ⟨answers, hsent, hne, -⟩ := hall d' (by simp) (by decide) rfl hidle
  simp only [List.map_cons, List.map_nil, List.sum_cons, List.sum_nil, Nat.add_zero] at hsum
  exact ⟨hsum, answers, hsent, hne⟩

/-- A confirmable PUT to a multicast address is not answered. -/
theorem write_multicast_unanswered :
    ¬∀ (source : SockAddr) (msgId : ℕ) (d : Delivery) (ds : List Delivery), Reachable d.state →
      source.family ≠ 0 → (∀ x ∈ d :: ds, x.IsWrite source msgId) →
      (d :: ds).IsChain (Delivery.Before source) →
      othersBetween source (d :: ds) < smcpConfDupeBufferSize →
      ((d :: ds).map (Delivery.setCalls source)).sum ≤ 1 ∧
        ∀ x ∈ d :: ds, headerTt x.buffer = coapTransTypeConfirmable →
          x.state.isResponding = false →
          ∃ answers : List Datagram, (x.after source).sent = x.state.sent ++ answers ∧
            answers ≠ [] ∧ ∀ y ∈ answers, y.Answers (x.arrived source).inbound := by
  intro hclaim
  set d := putDelivery [] servingRun (some allNodes) with hd
  have hwrites : ∀ x ∈ [d], x.IsWrite localPeer 0x3412 := by
    intro x hx
    rw [List.mem_singleton.1 hx]
    exact ⟨by decide, by decide, by decide, by decide +kernel, 0, by decide +kernel⟩
  obtain ⟨-, hall⟩ := hclaim localPeer 0x3412 d [] (reachable_idleRun _ _) (by decide) hwrites
    (List.isChain_singleton d) (by decide)
  obtain ⟨answers, hsent, hne, -⟩ := hall d List.mem_cons_self (by decide) (by decide +kernel)
  have hnone : (d.after localPeer).sent = d.state.sent := by decide +kernel
  rw [hnone] at hsent
  exact hne (List.append_right_eq_self.1 hsent.symm)

end Smcp
