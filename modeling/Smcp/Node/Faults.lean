import Smcp.Node.Answers

/-!
# When a handler leaves the ground of the language

The lists of observers may be broken: an index leads out of the table, or round in it for ever. A
node without a name has no name to compare.

* `Instance.observersBroken`: `smcp_observable_update` gets lost in the list;
* `VariableNode.GetsLost`, `ListPath.IsNamed`: what that means for the handlers;
* `fault_variableHandler`, `fault_defaultHandler`: they get lost then, and only then.
-/

namespace Smcp

open ByteMemory OptionFormat

/-! ## Messages -/

section
variable (s : Instance)

theorem fault_send : (smcpOutboundSend s).1.fault = s.fault := by
  obtain ⟨tr, sent, did, responding, heq, -⟩ := send_eq s
  rw [heq]

theorem fault_beginResponse (code : ℕ) : (smcpOutboundBeginResponse s code).1.fault = s.fault := by
  have hstart : (startResponse s code).fault = s.fault := by
    unfold startResponse
    split_ifs
    · rfl
    · rfl
  unfold smcpOutboundBeginResponse
  split_ifs
  · rfl
  · rfl
  · unfold smcpOutboundSetDestaddr
    dsimp only
    split
    · exact hstart
    · exact hstart
  · exact hstart

theorem fault_confirmObserver (i : ℤ) : (confirmObserver s i).1.fault = s.fault := by
  have hquick (u : Instance) (code : ℕ) :
      (smcpOutboundQuickResponse u code none).1.fault = u.fault := by
    unfold smcpOutboundQuickResponse
    dsimp only
    rw [fault_send, fault_beginResponse]
  have hstart : (smcpStartAsyncResponse s (s.observer i).asyncResponse true).state.fault =
      s.fault := by
    unfold smcpStartAsyncResponse
    dsimp only
    by_cases hlong : asyncRequestSize < s.inbound.packetLen - s.inbound.contentLen
    · rw [if_pos hlong]
      exact hquick s _
    · rw [if_neg hlong, if_neg fun hand => absurd hand.1 (by decide)]
  exact hstart

end

/-! ## Observers -/

namespace Instance

/-- Where `smcp_observable_update` finds the observer who sent the message, if it does not get
lost. -/
def observerIndex (s : Instance) (context key : ℕ) : Option ℤ :=
  findObserver s key (smcpMaxObservers + 1) ((s.observables context).firstObserver - 1)

/-- `smcp_observable_update` gets lost in the list of the observable: when it looks for the
observer, or when it takes the observer out. -/
def observersBroken (s : Instance) (context key : ℕ) : Bool :=
  s.inbound.packet.isSome && !s.inbound.isFake && !s.inbound.isDupe &&
    match s.observerIndex context key with
    | none => true
    | some i => !s.inbound.hasObserveOption && i ≠ -1 && s.freeFails i.toNat

end Instance

section
variable {s t : Instance} {hooks : Hooks}

theorem freeFails_congr (htable : t.observerTable = s.observerTable)
    (hfirst : ∀ c, (t.observables c).firstObserver = (s.observables c).firstObserver) (i : ℕ) :
    t.freeFails i = s.freeFails i := by
  unfold Instance.freeFails Instance.unlinkFails
  rw [htable]
  simp only [hfirst, freeObserverSearch_congr htable]

theorem observerIndex_congr (htable : t.observerTable = s.observerTable)
    (hfirst : ∀ c, (t.observables c).firstObserver = (s.observables c).firstObserver)
    (hsaddr : t.inbound.saddr = s.inbound.saddr) (context key : ℕ) :
    t.observerIndex context key = s.observerIndex context key := by
  unfold Instance.observerIndex
  rw [hfirst, findObserver_congr htable hsaddr]

/-- What the iterator points to does not matter. -/
theorem observersBroken_congr (hsame : s.inbound.SameMessage t.inbound)
    (htable : t.observerTable = s.observerTable) (hobservables : t.observables = s.observables)
    (context key : ℕ) : t.observersBroken context key = s.observersBroken context key := by
  obtain ⟨lastKey, option, hinbound⟩ := hsame
  have hsaddr : t.inbound.saddr = s.inbound.saddr := by rw [hinbound]
  have hfirst (c : ℕ) : (t.observables c).firstObserver = (s.observables c).firstObserver := by
    rw [hobservables]
  have hindex := observerIndex_congr htable hfirst hsaddr
  have hfree := freeFails_congr htable hfirst
  unfold Instance.observersBroken
  rw [hindex]
  simp only [hfree, hinbound]

/-- `smcp_observable_update`. -/
theorem fault_observableUpdate (hleaves : LeavesMessage hooks) (s : Instance) (context key : ℕ) :
    (smcpObservableUpdate hooks s context key).1.fault =
      (s.fault || s.observersBroken context key) := by
  set v := s.setObservable context fun c => { c with hasInterface := true } with hv
  -- the list of the observable is not touched by the first store
  have hfirst (c : ℕ) : (v.observables c).firstObserver = (s.observables c).firstObserver := by
    rw [hv]
    unfold Instance.setObservable
    dsimp only
    by_cases hc : c = context
    · rw [hc, Function.update_self]
    · rw [Function.update_of_ne hc]
  have htable : v.observerTable = s.observerTable := rfl
  have hindex : findObserver v key (smcpMaxObservers + 1)
      ((v.observables context).firstObserver - 1) = s.observerIndex context key :=
    observerIndex_congr htable hfirst rfl context key
  have hfree := freeFails_congr htable hfirst
  have hinbound : v.inbound = s.inbound := rfl
  have hfault : v.fault = s.fault := rfl
  unfold smcpObservableUpdate Instance.observersBroken
  dsimp only
  -- the entry with the token is searched first, and a free one afterwards
  rw [← hv, hindex]
  clear_value v
  by_cases hskip : v.inbound.packet.isNone = true ∨ v.inbound.isFake = true ∨ v.inbound.isDupe = true
  · rw [if_pos hskip, hfault]
    rw [hinbound] at hskip
    have hnot : (s.inbound.packet.isSome && !s.inbound.isFake && !s.inbound.isDupe) = false := by
      rcases hskip with hpacket | hfake | hdupe
      · rw [Option.isNone_iff_eq_none.1 hpacket]
        rfl
      · rw [hfake, Bool.not_true, Bool.and_false, Bool.false_and]
      · rw [hdupe, Bool.not_true, Bool.and_false]
    rw [hnot, Bool.false_and, Bool.or_false]
  · rw [if_neg hskip]
    rw [hinbound] at hskip
    simp only [not_or, Bool.not_eq_true, Option.isNone_eq_false_iff] at hskip
    obtain ⟨hsome, hfake, hdupe⟩ := hskip
    rw [hsome, hfake, hdupe, Bool.not_false, Bool.and_true, Bool.and_true, Bool.true_and]
    cases s.observerIndex context key with
    | none => exact (Bool.or_true _).symm
    | some i =>
      dsimp only
      rw [hinbound]
      by_cases hobserve : s.inbound.hasObserveOption = true
      · rw [if_pos hobserve, hobserve, Bool.not_true, Bool.false_and, Bool.false_and, Bool.or_false]
        split_ifs
        · exact hfault
        · rw [fault_confirmObserver, (undisturbed_addObserver _ _ _ _).2]
          exact hfault
        · rw [fault_confirmObserver]
          exact hfault
      · rw [if_neg hobserve, Bool.eq_false_iff.2 hobserve, Bool.not_false, Bool.true_and]
        by_cases hnone : i = -1
        · rw [if_pos hnone, hnone]
          exact hfault.trans (Bool.or_false _).symm
        · rw [if_neg hnone, decide_eq_true hnone, Bool.true_and]
          rw [(freeObserver_spec hleaves v i.toNat).2, hfault, hfree]

end

/-! ## The handler of a variable node -/

/-- The node is asked to show something that can be observed, and the list of its observers is
broken. -/
def VariableNode.getsLost (node : VariableNode) (v : VarState) : Bool :=
  let found := lookUpKey node v
  headerCode v.state.inbound.bytes = coapMethodGet && found.status = smcpStatusOk &&
    (found.after.scanned coapMethodGet).2 = smcpStatusOk &&
    (found.keyIndex = badKeyIndex ||
      (node.func found.after.calls ⟨.getObservable, found.keyIndex, []⟩).status = 0) &&
    v.state.observersBroken node.observable found.keyIndex

section
variable {v : VarState} {hooks : Hooks} (node : VariableNode)

theorem fault_listVariables (hleaves : LeavesMessage hooks)
    (hprocessing : v.state.isProcessingMessage = true) (hdid : v.state.didRespond = false)
    (hresponding : v.state.isResponding = false) (needsPrefix : Bool) :
    (listVariables hooks node needsPrefix v).1.state.fault =
      (v.state.fault || v.state.observersBroken node.observable badKeyIndex) := by
  obtain ⟨tr, o, force, heq⟩ := beginResponse_eq hprocessing hdid hresponding (httpToCoapCode 205)
  unfold listVariables
  dsimp only
  rw [heq]
  dsimp only
  rw [if_neg (not_not.2 rfl), fault_send]
  have hbroken := observersBroken_congr (s := v.state) (t := (smcpOutboundAddOptionUint
    { v.state with
      transaction := tr, outbound := o, forceCurrentOutboundCode := force, isResponding := true }
    coapOptionContentType coapContentTypeApplicationLinkFormat).1) (.refl v.state.inbound) rfl rfl
    node.observable badKeyIndex
  refine (fault_observableUpdate hleaves _ _ _).trans ?_
  exact congrArg _ hbroken

theorem fault_readValue (keyIndex replyContentType : ℕ) :
    (readValue node keyIndex replyContentType v).1.state.fault = v.state.fault := by
  -- the age is added before the value, and cannot fail
  have hage : (addMaxAge node keyIndex v).state.fault = v.state.fault := by
    unfold addMaxAge
    dsimp only
    split_ifs
    · rfl
    · rfl
  have hchosen : (if replyContentType = smcpContentTypeApplicationFormUrlencoded then
      addMaxAge node keyIndex v else v).state.fault = v.state.fault := by
    split_ifs
    · exact hage
    · rfl
  unfold readValue
  dsimp only
  generalize (if replyContentType = smcpContentTypeApplicationFormUrlencoded then
    addMaxAge node keyIndex v else v) = w at hchosen ⊢
  -- a begin that fails, a key that fails, or the value
  split
  · exact hchosen
  · split
    · rw [fault_send]
      exact hchosen
    · have happended (value : List UInt8) :
          (smcpOutboundAppendContent w.state value).1.fault = w.state.fault := rfl
      split
      · exact (happended _).trans hchosen
      · rw [fault_send]
        exact (happended _).trans hchosen

theorem fault_readVariable (hleaves : LeavesMessage hooks)
    (hprocessing : v.state.isProcessingMessage = true) (hdid : v.state.didRespond = false)
    (hresponding : v.state.isResponding = false) (keyIndex replyContentType : ℕ) :
    (readVariable hooks node keyIndex replyContentType v).1.state.fault =
      (v.state.fault || (decide ((node.func v.calls ⟨.getObservable, keyIndex, []⟩).status = 0) &&
        v.state.observersBroken node.observable keyIndex)) := by
  obtain ⟨tr, o, force, heq⟩ := beginResponse_eq hprocessing hdid hresponding (httpToCoapCode 205)
  unfold readVariable
  dsimp only
  rw [heq]
  dsimp only
  rw [if_neg (not_not.2 rfl), fault_readValue]
  dsimp only
  by_cases hobservable : (node.func v.calls ⟨.getObservable, keyIndex, []⟩).status = 0
  · rw [if_pos hobservable, decide_eq_true hobservable, Bool.true_and]
    have hbroken := observersBroken_congr (s := v.state) (t :=
      { v.state with
        transaction := tr, outbound := o, forceCurrentOutboundCode := force, isResponding := true })
      (.refl v.state.inbound) rfl rfl node.observable keyIndex
    rw [fault_observableUpdate hleaves, hbroken]
  · rw [if_neg hobservable, decide_eq_false hobservable, Bool.false_and, Bool.or_false]

theorem fault_writeVariable (keyIndex : ℕ) (o : VarOptions) :
    (writeVariable node keyIndex o v).1.state.fault = v.state.fault := by
  unfold writeVariable
  dsimp only
  split_ifs
  · rfl
  · rfl
  · rfl
  · exact fault_beginResponse _ _
  · exact (fault_send _).trans (fault_beginResponse _ _)

theorem fault_variableHandler (hleaves : LeavesMessage hooks)
    (hprocessing : v.state.isProcessingMessage = true) (hdid : v.state.didRespond = false)
    (hresponding : v.state.isResponding = false) :
    (smcpVariableNodeRequestHandler hooks node v).1.state.fault =
      (v.state.fault || node.getsLost v) := by
  -- the lookup moves the iterator only
  obtain ⟨j, calls', hsame, hafter, -⟩ := lookUpKey_state node v
  unfold smcpVariableNodeRequestHandler VariableNode.getsLost
  dsimp only
  rw [hafter]
  have hscan (method : ℕ) := hsame.trans (sameMessage_scanVarOptions method (j.packetLen + 1)
    j.varOptions)
  -- without the variable nothing is read
  by_cases hfound : (lookUpKey node v).status = smcpStatusOk
  · rw [if_neg (not_not.2 hfound), decide_eq_true hfound, Bool.and_true]
    by_cases hget : headerCode v.state.inbound.bytes = coapMethodGet
    · rw [hget, decide_eq_true rfl, Bool.true_and]
      have hscan : v.state.inbound.SameMessage
        (VarState.scanned coapMethodGet ⟨{ v.state with inbound := j }, calls'⟩).1.inbound :=
        hscan coapMethodGet
      generalize VarState.scanned coapMethodGet ⟨{ v.state with inbound := j }, calls'⟩ = scanned
        at hscan ⊢
      by_cases hscanned : scanned.2 = smcpStatusOk
      · have hbroken := @observersBroken_congr v.state { v.state with inbound := scanned.1.inbound }
          hscan rfl rfl node.observable
        rw [if_neg (not_not.2 hscanned), if_neg (by decide), if_pos rfl, decide_eq_true hscanned,
          Bool.true_and]
        by_cases hkey : (lookUpKey node v).keyIndex = badKeyIndex
        · rw [if_pos hkey, hkey, decide_eq_true rfl, Bool.true_or, Bool.true_and, ← hbroken]
          exact fault_listVariables (v := ⟨{ v.state with inbound := scanned.1.inbound }, calls'⟩)
            node hleaves hprocessing hdid hresponding _
        · rw [if_neg hkey, decide_eq_false hkey, Bool.false_or, ← hbroken]
          exact fault_readVariable (v := ⟨{ v.state with inbound := scanned.1.inbound }, calls'⟩)
            node hleaves hprocessing hdid hresponding _ _
      · rw [if_pos hscanned, decide_eq_false hscanned, Bool.false_and, Bool.false_and,
          Bool.or_false]
    · rw [decide_eq_false hget, Bool.false_and, Bool.false_and, Bool.false_and, Bool.or_false]
      split_ifs
      · rfl
      · exact fault_writeVariable _ _ _
      · rfl
  · rw [if_pos hfound, decide_eq_false hfound, Bool.and_false, Bool.false_and, Bool.false_and,
      Bool.false_and, Bool.or_false]

end

/-! ## The list handler -/

/-- `smcp_handle_list` is asked for a path with a trailing slash at a node without a name. -/
def listsUnnamed (text : ℕ → CStr) (s : NodeStore) (node : ℕ) (i : Inbound) : Bool :=
  let path := listWellKnown (s.node node).parent.isSome
    ((s.node node).name.map fun name => (text name).bytes) i
  path.status = smcpStatusOk && path.inbound.optionStrequal coapOptionUriPath (stringAt []) &&
    path.namePrefix.isNone

theorem fault_sendList (text : ℕ → CStr) (s : NodeStore) (node : ℕ)
    (namePrefix : Option (List UInt8)) (u : Instance) :
    (sendList text s node namePrefix u).1.fault = u.fault := by
  have hbegun := fault_beginResponse u (httpToCoapCode 205)
  unfold sendList
  dsimp only
  split_ifs
  · exact hbegun
  · exact hbegun
  · rw [fault_send]
    exact hbegun

theorem fault_listBehindPath (text : ℕ → CStr) (s : NodeStore) (node : ℕ)
    (namePrefix : Option (List UInt8)) (u : Instance) :
    (listBehindPath text s node namePrefix u).1.fault = u.fault := by
  unfold listBehindPath
  dsimp only
  split_ifs
  · rfl
  · exact fault_sendList text s node namePrefix _

theorem fault_defaultHandler (text : ℕ → CStr) (s : NodeStore) (node : ℕ) (u : Instance) :
    (smcpDefaultRequestHandler text s node u).1.fault =
      (u.fault || (decide (headerCode u.inbound.bytes = coapMethodGet) &&
        listsUnnamed text s node u.inbound)) := by
  unfold smcpDefaultRequestHandler
  -- the default handler lists for a GET, and refuses everything else
  by_cases hget : headerCode u.inbound.bytes = coapMethodGet
  · rw [if_pos hget, decide_eq_true hget, Bool.true_and]
    unfold smcpHandleList listsUnnamed
    dsimp only
    generalize listWellKnown (s.node node).parent.isSome
      ((s.node node).name.map fun name => (text name).bytes) u.inbound = path
    -- a path that the handler refuses ends the request
    by_cases hok : path.status = smcpStatusOk
    · rw [if_neg (not_not.2 hok), decide_eq_true hok, Bool.true_and]
      by_cases hslash : path.inbound.optionStrequal coapOptionUriPath (stringAt []) = true
      · rw [if_pos hslash, hslash, Bool.true_and]
        split
        · next hnone =>
          rw [hnone]
          exact (Bool.or_true _).symm
        · next hsome =>
          rw [hsome, fault_listBehindPath]
          exact (Bool.or_false _).symm
        · next hsome =>
          rw [hsome, fault_listBehindPath]
          exact (Bool.or_false _).symm
      · rw [if_neg hslash, Bool.eq_false_iff.2 hslash, Bool.false_and, Bool.or_false,
          fault_listBehindPath]
    · rw [if_pos hok, decide_eq_false hok, Bool.false_and, Bool.false_and, Bool.or_false]
  · rw [if_neg hget, decide_eq_false hget, Bool.false_and, Bool.or_false]

end Smcp
