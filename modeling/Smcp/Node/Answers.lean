import Smcp.Node.Writes
import Smcp.Variable.Listing

/-!
# How many answers a request gets

A confirmable request that the router hands to the list handler or to a variable node.

* `Undisturbed`: what a function leaves that has nothing to do with the message;
* `observableUpdate_underWay`: the registration of an observer sends an answer of its own when the
  request is too long;
* `listVariables_answered` and `readVariable_answered`: the handler sends another one behind it;
* `variableHandler_answered` and `defaultHandler_answered`: there are at most two answers, and when
  there are two.
-/

namespace Smcp

open ByteMemory OptionFormat

/-! ## What leaves the message alone -/

/-- The message in `inbound` and the one in `outbound` are the same, and nothing was sent. -/
structure Undisturbed (u u' : Instance) : Prop where
  inbound : u'.inbound = u.inbound
  outbound : u'.outbound = u.outbound
  sent : u'.sent = u.sent
  sendResult : u'.sendResult = u.sendResult
  didRespond : u'.didRespond = u.didRespond
  isResponding : u'.isResponding = u.isResponding
  isProcessingMessage : u'.isProcessingMessage = u.isProcessingMessage

/-- Besides, the observers are the same, and nothing undefined has happened. -/
structure Untouched (u u' : Instance) : Prop extends Undisturbed u u' where
  observerTable : u'.observerTable = u.observerTable
  observables : u'.observables = u.observables
  fault : u'.fault = u.fault

/-- The callbacks of the application, other than request handlers, leave the message and the
observers alone. -/
def LeavesMessage (hooks : Hooks) : Prop :=
  ∀ c u, (∀ k, c ≠ .request k) → Untouched u (hooks c u).1

section
variable {u u' u'' : Instance} {hooks : Hooks}

/-- One after the other. -/
theorem Undisturbed.trans (h : Undisturbed u u') (h' : Undisturbed u' u'') : Undisturbed u u'' where
  inbound := h'.inbound.trans h.inbound
  outbound := h'.outbound.trans h.outbound
  sent := h'.sent.trans h.sent
  sendResult := h'.sendResult.trans h.sendResult
  didRespond := h'.didRespond.trans h.didRespond
  isResponding := h'.isResponding.trans h.isResponding
  isProcessingMessage := h'.isProcessingMessage.trans h.isProcessingMessage

theorem Untouched.trans (h : Untouched u u') (h' : Untouched u' u'') : Untouched u u'' where
  toUndisturbed := h.toUndisturbed.trans h'.toUndisturbed
  observerTable := h'.observerTable.trans h.observerTable
  observables := h'.observables.trans h.observables
  fault := h'.fault.trans h.fault

/-- Timers, transactions and the history have changed. -/
theorem untouched_of_eq {timers : TimerList} {store : TransactionStore}
    {current : Option TransactionPtr} {events : List Event} {timerEvents : List TimerEvent}
    {observerEvents : List ObserverEvent}
    (h : u' =
      { u with
        timers := timers
        store := store
        currentTransaction := current
        events := events
        timerEvents := timerEvents
        observerEvents := observerEvents }) : Untouched u u' := by
  rw [h]
  exact ⟨⟨rfl, rfl, rfl, rfl, rfl, rfl, rfl⟩, rfl, rfl, rfl⟩

/-- A response that is under way stays so. -/
theorem UnderWay.undisturbed {works : Prop} {i : Inbound} {base : List Datagram} {n : ℕ}
    (h : UnderWay works i base n u) (hu : Undisturbed u u') : UnderWay works i base n u' where
  answered :=
    { samePacket := by rw [hu.inbound]; exact h.answered.samePacket
      isProcessingMessage := hu.isProcessingMessage.trans h.answered.isProcessingMessage
      sent_eq := by rw [hu.sent]; exact h.answered.sent_eq
      responded := by rw [hu.didRespond]; exact h.answered.responded
      takes := by rw [hu.sendResult]; exact h.answered.takes
      unanswered := by rw [hu.didRespond]; exact h.answered.unanswered }
  replying := by rw [hu.outbound]; exact h.replying
  contentLen_eq := by rw [hu.outbound]; exact h.contentLen_eq
  due := by rw [hu.didRespond, hu.isResponding]; exact h.due

/-- The cancel callback leaves the message alone, as all callbacks do. -/
theorem untouched_invalidateTimer (hleaves : LeavesMessage hooks) (u : Instance)
    (timer : TimerPtr) : Untouched u (smcpInvalidateTimer hooks u timer) := by
  unfold smcpInvalidateTimer
  dsimp only
  split
  · next cancel _ =>
    apply Untouched.trans _ (hleaves (.timerCancel cancel) _ fun k heq => nomatch heq)
    exact untouched_of_eq rfl
  · exact untouched_of_eq rfl

/-- So does the callback of a transaction that ends. -/
theorem untouched_deleteTransaction (hleaves : LeavesMessage hooks) (u : Instance)
    (h : TransactionPtr) : Untouched u (smcpInternalDeleteTransaction_ hooks u h) := by
  have htimer := untouched_invalidateTimer hleaves u (.ofTransaction h)
  unfold smcpInternalDeleteTransaction_
  dsimp only
  generalize smcpInvalidateTimer hooks u (.ofTransaction h) = v at htimer ⊢
  set w := ({ v with store := v.store.setActive h false } : Instance).log
    (.deleted h (v.transaction h).callback.isSome) with hw
  have hmarked : Untouched u w := htimer.trans (untouched_of_eq hw)
  have hfinal (x : Instance) (hx : Untouched u x) :
      Untouched u (if (x.transaction h).shouldDealloc then x.log (.freed h) else x) := by
    split_ifs
    · exact hx.trans (untouched_of_eq rfl)
    · exact hx
  apply hfinal
  -- the callback of a transaction of the application
  split
  · next callback _ =>
    exact hmarked.trans (hleaves (.response callback smcpStatusTransactionInvalidated) w
      fun k heq => nomatch heq)
  · exact hmarked

/-- Both are called at its end. -/
theorem untouched_end (hleaves : LeavesMessage hooks) (u : Instance) (h : TransactionPtr) :
    Untouched u (smcpTransactionEnd hooks u h) := by
  unfold smcpTransactionEnd deleteFound
  dsimp only
  set v := if u.currentTransaction = some h then { u with currentTransaction := none } else u with hv
  have hcurrent : Untouched u v := by
    rw [hv]
    split_ifs
    · exact untouched_of_eq rfl
    · exact untouched_of_eq rfl
  clear_value v
  split_ifs
  · split
    · apply Untouched.trans _ (untouched_deleteTransaction hleaves _ _)
      exact hcurrent.trans (untouched_of_eq rfl)
    · exact hcurrent.trans (untouched_of_eq rfl)
  · exact hcurrent

/-! ## Taking an observer out -/

/-- The search reads the table, and nothing else. -/
theorem freeObserverSearch_congr {s s' : Instance} (htable : s'.observerTable = s.observerTable)
    (prev : ℤ) (fuel : ℕ) (i : ℤ) :
    freeObserverSearch s' prev fuel i = freeObserverSearch s prev fuel i := by
  have hobserver (j : ℤ) : s'.observer j = s.observer j := by
    unfold Instance.observer
    rw [htable]
  induction fuel generalizing i with
  | zero => rfl
  | succ fuel ih => rw [freeObserverSearch, freeObserverSearch, hobserver, hobserver, ih]

/-- `free_observer` leaves the table when it takes the entry `i` out of the list. -/
def Instance.unlinkFails (s : Instance) (context i : ℕ) : Bool :=
  let first := (s.observables context).firstObserver
  first ≠ i + 1 &&
    !(inTable (first - 1) &&
      (freeObserverSearch s (first - 1) (smcpMaxObservers + 1) i).any fun j => inTable j)

/-- What it leaves alone, and when something undefined happens. -/
theorem unlinkObserver_spec (s : Instance) (context i : ℕ) :
    Undisturbed s (unlinkObserver s context i) ∧
      (unlinkObserver s context i).fault = (s.fault || s.unlinkFails context i) := by
  unfold unlinkObserver Instance.unlinkFails
  dsimp only
  -- the observer is the first of its list, or the source searches for the one before it
  by_cases hfirst : (s.observables context).firstObserver = i + 1
  · have hfails : (s.fault || (decide ((s.observables context).firstObserver ≠ i + 1) &&
        !(inTable ((s.observables context).firstObserver - 1) &&
          (freeObserverSearch s ((s.observables context).firstObserver - 1)
            (smcpMaxObservers + 1) i).any fun j => inTable j))) = s.fault := by
      simp [hfirst]
    rw [hfails]
    split_ifs
    · exact ⟨⟨rfl, rfl, rfl, rfl, rfl, rfl, rfl⟩, rfl⟩
    · exact ⟨⟨rfl, rfl, rfl, rfl, rfl, rfl, rfl⟩, rfl⟩
  · rw [if_neg fun hand => hfirst hand.1, if_neg hfirst, decide_eq_true hfirst, Bool.true_and]
    by_cases htable : inTable ((s.observables context).firstObserver - 1) = true
    · rw [if_pos htable, htable, Bool.true_and]
      split
      · next hnone =>
        rw [hnone]
        exact ⟨⟨rfl, rfl, rfl, rfl, rfl, rfl, rfl⟩, (Bool.or_true _).symm⟩
      · next j hfound =>
        rw [hfound, Option.any_some]
        by_cases hj : inTable j = true
        · rw [if_pos hj, hj, Bool.not_true, Bool.or_false]
          split_ifs
          · exact ⟨⟨rfl, rfl, rfl, rfl, rfl, rfl, rfl⟩, rfl⟩
          · exact ⟨⟨rfl, rfl, rfl, rfl, rfl, rfl, rfl⟩, rfl⟩
        · rw [if_neg hj, Bool.eq_false_iff.2 hj, Bool.not_false, Bool.or_true]
          exact ⟨⟨rfl, rfl, rfl, rfl, rfl, rfl, rfl⟩, rfl⟩
    · rw [if_neg htable, Bool.eq_false_iff.2 htable, Bool.false_and, Bool.not_false, Bool.or_true]
      exact ⟨⟨rfl, rfl, rfl, rfl, rfl, rfl, rfl⟩, rfl⟩

/-- `free_observer` leaves the table. -/
def Instance.freeFails (s : Instance) (i : ℕ) : Bool :=
  (s.observerTable i).observable.any fun context => s.unlinkFails context i

/-- An observer is freed without a message, and undefined only where the search fails. -/
theorem freeObserver_spec (hleaves : LeavesMessage hooks) (u : Instance) (i : ℕ) :
    Undisturbed u (freeObserver hooks u i) ∧
      (freeObserver hooks u i).fault = (u.fault || u.freeFails i) := by
  have hforget (v : Instance) (f : Observer → Observer) : Undisturbed v (v.setObserver i f) :=
    ⟨rfl, rfl, rfl, rfl, rfl, rfl, rfl⟩
  unfold freeObserver Instance.freeFails
  dsimp only
  -- an observer of nothing is in no list
  split
  · next hnone =>
    rw [hnone]
    exact ⟨hforget u _, (Bool.or_false _).symm⟩
  · next context hsome =>
    rw [hsome, Option.any_some]
    have hend := untouched_end hleaves u (.observer i)
    generalize smcpTransactionEnd hooks u (.observer i) = v at hend ⊢
    have hlogged : Untouched u (v.logObserver (.released context i
        (v.observables context).firstObserver (v.observables context).lastObserver)) :=
      hend.trans (untouched_of_eq rfl)
    generalize v.logObserver (.released context i (v.observables context).firstObserver
      (v.observables context).lastObserver) = w at hlogged ⊢
    obtain ⟨hsame, hfault⟩ := unlinkObserver_spec w context i
    have hfails : w.unlinkFails context i = u.unlinkFails context i := by
      unfold Instance.unlinkFails
      rw [hlogged.observables]
      simp only [freeObserverSearch_congr hlogged.observerTable]
    rw [hfails, hlogged.fault] at hfault
    exact ⟨(hlogged.toUndisturbed.trans hsame).trans (hforget _ _), hfault⟩

/-- A new observer is put into a list. -/
theorem undisturbed_addObserver (u : Instance) (context key : ℕ) (i : ℤ) :
    Undisturbed u (addObserver u context key i) ∧
      (addObserver u context key i).fault = u.fault := by
  unfold addObserver
  dsimp only
  split_ifs
  · exact ⟨⟨rfl, rfl, rfl, rfl, rfl, rfl, rfl⟩, rfl⟩
  · exact ⟨⟨rfl, rfl, rfl, rfl, rfl, rfl, rfl⟩, rfl⟩

end

/-! ## The room that options take -/

section
variable {o : Outbound} {opts : List (ℕ × List UInt8)} {key : ℕ}

/-- An option takes its value and five bytes at most. -/
theorem addOption_ptr_le (hc : Composed o opts) (hkey : key ≤ coapOptionInvalid)
    (value : List UInt8) : (smcpOutboundAddOption_ o key value).1.contentPtr ≤
      o.contentPtr + word16 value.length + 5 := by
  by_cases hspace : word16 value.length + 8 ≤ o.spaceRemaining
  · obtain ⟨-, -, hptr, -⟩ := addOption_inserts hc hkey hspace
    exact hptr
  · rw [addOption_tooBig hspace]
    exact (Nat.le_add_right _ _).trans (Nat.le_add_right _ _)

/-- The automatic options take 14 bytes at most. -/
theorem upToKey_ptr_le (hc : Composed o opts) (auto : AutoOptions) (key : ℕ) :
    ∃ opts', Composed (smcpOutboundAddOptionsUpToKey_ auto o key).1 opts' ∧
      (smcpOutboundAddOptionsUpToKey_ auto o key).1.contentPtr ≤ o.contentPtr + 14 := by
  have hsize := length_uintOptionValue_le auto.nextBlock2
  have hword : word16 (uintOptionValue auto.nextBlock2).length ≤ 4 := (Nat.mod_le _ _).trans hsize
  -- Block2 takes at most as much as its value and its head
  have hblock2 : ∃ opts', Composed (addAutoBlock2 auto o key).1 opts' ∧
      (addAutoBlock2 auto o key).1.contentPtr ≤ o.contentPtr + 9 := by
    unfold addAutoBlock2
    split_ifs
    · have hkey : coapOptionBlock2 ≤ coapOptionInvalid := by decide
      have hptr := addOption_ptr_le hc hkey (uintOptionValue auto.nextBlock2)
      obtain ⟨opts', hc', -⟩ := addOption_extends hc (uintOptionValue auto.nextBlock2) hkey
      exact ⟨opts', hc', by omega⟩
    · exact ⟨opts, hc, Nat.le_add_right _ _⟩
  obtain ⟨opts1, hc1, hptr1⟩ := hblock2
  unfold smcpOutboundAddOptionsUpToKey_
  dsimp only
  generalize addAutoBlock2 auto o key = r at hc1 hptr1 ⊢
  unfold addAutoObserve
  -- and Observe comes behind it, or is not due
  split_ifs
  · have hkey : coapOptionObserve ≤ coapOptionInvalid := by decide
    have hptr := addOption_ptr_le hc1 hkey []
    have hzero : word16 ([] : List UInt8).length = 0 := by decide
    obtain ⟨opts', hc', -⟩ := addOption_extends hc1 [] hkey
    exact ⟨opts', hc', by omega⟩
  · exact ⟨opts1, hc1, hptr1.trans (by omega)⟩

/-- The options that come by themselves take 14 bytes at most. -/
theorem getContentPtr_ptr_le (hc : Composed o opts) (auto : AutoOptions) :
    (outboundGetContentPtr auto o).contentPtr ≤ o.contentPtr + 14 := by
  unfold outboundGetContentPtr
  split_ifs
  · obtain ⟨opts', -, hptr⟩ := upToKey_ptr_le hc auto coapOptionInvalid
    exact hptr
  · exact Nat.le_add_right _ _

/-- With those that are due in front of it an option takes no more than that. -/
theorem outboundAddOption_ptr_le (hc : Composed o opts) (auto : AutoOptions)
    (hkey : key ≤ coapOptionInvalid) {value : List UInt8} (hvalue : value.length ≤ 4) :
    (outboundAddOption auto o key value).1.contentPtr ≤ o.contentPtr + 23 := by
  obtain ⟨opts', hc', hptr⟩ := upToKey_ptr_le hc auto key
  have hword : word16 value.length ≤ 4 := (Nat.mod_le _ _).trans hvalue
  have hadded := addOption_ptr_le hc' hkey value
  unfold outboundAddOption
  dsimp only
  split_ifs
  · omega
  · omega
  · omega

end

/-! ## Registering an observer -/

/-- The request asks to observe, and `smcp_observable_update` finds a place for the observer, but
the request is too long to be kept. -/
def Instance.ObservesTooLong (s : Instance) (context key : ℕ) : Prop :=
  s.inbound.packet.isSome ∧ s.inbound.isFake = false ∧ s.inbound.isDupe = false ∧
    s.inbound.hasObserveOption = true ∧
    asyncRequestSize < s.inbound.packetLen - s.inbound.contentLen ∧
    ∃ i, findObserver s key (smcpMaxObservers + 1) ((s.observables context).firstObserver - 1) =
        some i ∧ (i = -1 → getUnusedObserverIndex s ≠ -1)

section
variable {works : Prop} {i : Inbound} {base : List Datagram} {n : ℕ} {u : Instance} {hooks : Hooks}

/-- A response that is under way is sent as it is, and the room it takes. -/
theorem UnderWay.quickResponse (h : UnderWay works i base n u) (hi : i.Confirmable)
    (hdid : u.didRespond = false) (code : ℕ) :
    UnderWay works i base (n + 1) (smcpOutboundQuickResponse u code none).1 ∧
      (smcpOutboundQuickResponse u code none).1.outbound.contentPtr ≤ u.outbound.contentPtr + 14 := by
  have hresponding : u.isResponding = true := by
    rcases h.due with hdid' | hresponding
    · exact absurd (hdid.symm.trans hdid') (by decide)
    · exact hresponding
  have hbegun : (smcpOutboundBeginResponse u code).1 = u := by
    unfold smcpOutboundBeginResponse
    rw [if_neg (by simp [hdid]), if_pos hresponding]
  obtain ⟨opts, hc⟩ := h.replying.composed
  obtain ⟨tr, sent, did, responding, heq, -⟩ := send_eq u
  have hptr := getContentPtr_ptr_le hc (noteSentCode u).autoOptions
  unfold smcpOutboundQuickResponse
  dsimp only
  rw [hbegun]
  refine ⟨h.send hi, ?_⟩
  rw [heq]
  exact hptr

/-- The answer to a registration gets the Observe option. A request that is too long is answered
at once. -/
theorem UnderWay.confirmObserver (h : UnderWay works i base n u) (hi : i.Confirmable)
    (hdid : u.didRespond = false) (index : ℤ) :
    ∃ k, UnderWay works i base (n + k) (confirmObserver u index).1 ∧
      k = (if asyncRequestSize < u.inbound.packetLen - u.inbound.contentLen then 1 else 0) ∧
      (Smcp.confirmObserver u index).1.outbound.contentPtr ≤ u.outbound.contentPtr + 37 := by
  have hkey : coapOptionObserve ≤ coapOptionInvalid := by decide
  -- what is left once the request is kept, or answered
  have hadd {v : Instance} {m : ℕ} (hv : UnderWay works i base m v)
      (hptr : v.outbound.contentPtr ≤ u.outbound.contentPtr + 14) (f : Observer → Observer)
      (seq : ℕ) :
      UnderWay works i base m
          (smcpOutboundAddOptionUint (v.setObserver index f) coapOptionObserve seq).1 ∧
        (smcpOutboundAddOptionUint (v.setObserver index f) coapOptionObserve
          seq).1.outbound.contentPtr ≤ u.outbound.contentPtr + 37 := by
    have hv' : UnderWay works i base m (v.setObserver index f) :=
      hv.undisturbed ⟨rfl, rfl, rfl, rfl, rfl, rfl, rfl⟩
    obtain ⟨opts, hc⟩ := hv'.replying.composed
    have hadded := outboundAddOption_ptr_le hc (v.setObserver index f).autoOptions hkey
      (length_uintOptionValue_le seq)
    refine ⟨hv'.addOption hkey _, hadded.trans ?_⟩
    show v.outbound.contentPtr + 23 ≤ _
    omega
  unfold Smcp.confirmObserver smcpStartAsyncResponse
  dsimp only
  by_cases hlong : asyncRequestSize < u.inbound.packetLen - u.inbound.contentLen
  · rw [if_pos hlong, if_pos hlong]
    obtain ⟨hquick, hptr⟩ := h.quickResponse hi hdid (httpToCoapCode 413)
    obtain ⟨hfinal, hroom⟩ := hadd hquick hptr (fun o =>
      { o with asyncResponse := (u.observer index).asyncResponse })
      (((smcpOutboundQuickResponse u (httpToCoapCode 413) none).1.setObserver index fun o =>
        { o with asyncResponse := (u.observer index).asyncResponse }).observer index).seq
    exact ⟨1, hfinal, rfl, hroom⟩
  · rw [if_neg hlong, if_neg hlong, if_neg fun hand => absurd hand.1 (by decide)]
    dsimp only
    obtain ⟨hfinal, hroom⟩ := hadd h (Nat.le_add_right _ _) _ _
    exact ⟨0, hfinal, rfl, hroom⟩

/-- Observers are compared by key and address. -/
theorem findObserver_congr {s s' : Instance} (htable : s'.observerTable = s.observerTable)
    (hsaddr : s'.inbound.saddr = s.inbound.saddr) (key fuel : ℕ) (index : ℤ) :
    findObserver s' key fuel index = findObserver s key fuel index := by
  have hobserver (j : ℤ) : s'.observer j = s.observer j := by
    unfold Instance.observer
    rw [htable]
  induction fuel generalizing index with
  | zero => rfl
  | succ fuel ih =>
    rw [findObserver, findObserver, hobserver, ih]
    unfold smcpInboundIsRelatedToAsyncResponse
    rw [hsaddr]

/-- `smcp_observable_update`. -/
theorem observableUpdate_underWay (hleaves : LeavesMessage hooks) (h : UnderWay works i base n u)
    (hi : i.Confirmable) (hdid : u.didRespond = false) (context key : ℕ) :
    ∃ k, k ≤ 1 ∧ UnderWay works i base (n + k) (smcpObservableUpdate hooks u context key).1 ∧
      (k = 1 ↔ u.ObservesTooLong context key) ∧
      (smcpObservableUpdate hooks u context key).1.outbound.contentPtr ≤
        u.outbound.contentPtr + 37 := by
  set v := u.setObservable context fun c => { c with hasInterface := true } with hv
  have hset : Undisturbed u v := ⟨rfl, rfl, rfl, rfl, rfl, rfl, rfl⟩
  have hfirst : (v.observables context).firstObserver = (u.observables context).firstObserver := by
    rw [hv]
    simp only [Instance.setObservable, Function.update_self]
  have hfind := @findObserver_congr u v rfl rfl key (smcpMaxObservers + 1)
    ((u.observables context).firstObserver - 1)
  have hunused : getUnusedObserverIndex v = getUnusedObserverIndex u := rfl
  have hlogged (w : Instance) (e : ObserverEvent) : Undisturbed w (w.logObserver e) :=
    ⟨rfl, rfl, rfl, rfl, rfl, rfl, rfl⟩
  -- nothing is sent
  have hnone {w : Instance} (hw : Undisturbed u w) (hnot : ¬u.ObservesTooLong context key) :
      ∃ k, k ≤ 1 ∧ UnderWay works i base (n + k) w ∧ (k = 1 ↔ u.ObservesTooLong context key) ∧
        w.outbound.contentPtr ≤ u.outbound.contentPtr + 37 := by
    refine ⟨0, Nat.zero_le 1, h.undisturbed hw, iff_of_false (by decide) hnot, ?_⟩
    rw [hw.outbound]
    exact Nat.le_add_right _ _
  -- an observer is registered
  have hconfirm {w : Instance} (hw : Undisturbed u w) (index : ℤ)
      (hiff : asyncRequestSize < u.inbound.packetLen - u.inbound.contentLen ↔
        u.ObservesTooLong context key) :
      ∃ k, k ≤ 1 ∧ UnderWay works i base (n + k) (confirmObserver w index).1 ∧
        (k = 1 ↔ u.ObservesTooLong context key) ∧
        (confirmObserver w index).1.outbound.contentPtr ≤ u.outbound.contentPtr + 37 := by
    obtain ⟨k, hway, hk, hroom⟩ :=
      (h.undisturbed hw).confirmObserver hi (hw.didRespond.trans hdid) index
    rw [hw.inbound] at hk
    rw [hw.outbound] at hroom
    refine ⟨k, ?_, hway, ?_, hroom⟩
    · rw [hk]
      split_ifs <;> decide
    · rw [← hiff, hk]
      split_ifs with hlong
      · exact iff_of_true rfl hlong
      · exact iff_of_false (by decide) hlong
  unfold smcpObservableUpdate
  dsimp only
  rw [← hv, hfirst, hfind, hunused]
  by_cases hskip : v.inbound.packet.isNone = true ∨ v.inbound.isFake = true ∨ v.inbound.isDupe = true
  · rw [if_pos hskip]
    apply hnone hset
    rintro ⟨hsome, hfake, hdupe, -⟩
    rcases hskip with hpacket | hfake' | hdupe'
    · rw [Option.isNone_iff_eq_none] at hpacket
      have hpacket : u.inbound.packet = none := hpacket
      rw [hpacket] at hsome
      exact absurd hsome (by decide)
    · exact absurd (hfake.symm.trans hfake') (by decide)
    · exact absurd (hdupe.symm.trans hdupe') (by decide)
  · rw [if_neg hskip]
    simp only [not_or, Bool.not_eq_true, Option.isNone_eq_false_iff] at hskip
    obtain ⟨hsome, hfake, hdupe⟩ := hskip
    cases hfound : findObserver u key (smcpMaxObservers + 1)
        ((u.observables context).firstObserver - 1) with
    | none =>
      have hfault : Undisturbed v { v with fault := true } := ⟨rfl, rfl, rfl, rfl, rfl, rfl, rfl⟩
      apply hnone (hset.trans hfault)
      rintro ⟨-, -, -, -, -, index, hindex, -⟩
      rw [hfound] at hindex
      exact Option.some_ne_none index hindex.symm
    | some index =>
      dsimp only
      by_cases hobserve : v.inbound.hasObserveOption = true
      · rw [if_pos hobserve]
        have hiff (hplace : index = -1 → getUnusedObserverIndex u ≠ -1) :
            asyncRequestSize < u.inbound.packetLen - u.inbound.contentLen ↔
              u.ObservesTooLong context key := by
          constructor
          · intro hlong
            exact ⟨hsome, hfake, hdupe, hobserve, hlong, index, hfound, hplace⟩
          · exact fun hlong => hlong.2.2.2.2.1
        by_cases hnew : index = -1
        · rw [if_pos hnew]
          by_cases hfull : getUnusedObserverIndex u = -1
          · rw [if_pos hfull]
            apply hnone hset
            rintro ⟨-, -, -, -, -, index', hindex, hplace⟩
            rw [hfound] at hindex
            rw [← Option.some.inj hindex] at hplace
            exact hplace hnew hfull
          · rw [if_neg hfull]
            apply hconfirm _ _ (hiff fun _ => hfull)
            exact (hset.trans (hlogged v _)).trans (undisturbed_addObserver _ _ _ _).1
        · rw [if_neg hnew]
          exact hconfirm (hset.trans (hlogged v _)) index (hiff fun heq => absurd heq hnew)
      · rw [if_neg hobserve]
        have hnot : ¬u.ObservesTooLong context key := fun hlong => hobserve hlong.2.2.2.1
        split_ifs
        · exact hnone hset hnot
        · exact hnone (hset.trans (freeObserver_spec hleaves v index.toNat).1) hnot

end

/-! ## The handler of a variable node -/

/-- What decides about the registration stays the same. -/
theorem observesTooLong_congr {s s' : Instance} (hsame : s.inbound.SameMessage s'.inbound)
    (htable : s'.observerTable = s.observerTable) (hobservables : s'.observables = s.observables)
    (hstore : s'.store = s.store) (context key : ℕ) :
    s'.ObservesTooLong context key ↔ s.ObservesTooLong context key := by
  obtain ⟨lastKey, option, hinbound⟩ := hsame
  have hsaddr : s'.inbound.saddr = s.inbound.saddr := by rw [hinbound]
  have hfind := findObserver_congr htable hsaddr
  have hunused : getUnusedObserverIndex s' = getUnusedObserverIndex s := by
    unfold getUnusedObserverIndex
    rw [htable, hstore]
  unfold Instance.ObservesTooLong
  rw [hunused, hobservables]
  simp only [hfind, hinbound]

/-- The key is observable, and it has a value. `calls` are the calls of the node function before. -/
def VariableNode.ReadsObservable (node : VariableNode) (calls : List VarCall)
    (keyIndex replyContentType : ℕ) : Prop :=
  let calls' : List VarCall := ⟨.getObservable, keyIndex, []⟩ :: calls
  let calls'' : List VarCall :=
    if replyContentType = smcpContentTypeApplicationFormUrlencoded then
      ⟨.getMaxAge, keyIndex, []⟩ :: calls'
    else calls'
  (node.func calls ⟨.getObservable, keyIndex, []⟩).status = 0 ∧
    (node.func calls'' ⟨.getValue, keyIndex, []⟩).status = 0

section
variable {works : Prop} {i : Inbound} {base : List Datagram} {n : ℕ} {hooks : Hooks}
  {v : VarState}

/-- What a response takes before it has options. -/
theorem beginResponse_ptr_le {u : Instance} (hprocessing : u.isProcessingMessage = true)
    (hdid : u.didRespond = false) (hresponding : u.isResponding = false) (code : ℕ) :
    (smcpOutboundBeginResponse u code).1.outbound.contentPtr ≤ 20 := by
  rw [beginResponse_outbound hprocessing hdid hresponding]
  have htoken := length_smcpOutboundToken_le
    { u with outbound.nextTid := smcpInboundGetMsgId u } code
  show 4 + _ + 1 ≤ 20
  omega

/-- The listing sends one answer behind the registration. -/
theorem listVariables_answered (node : VariableNode) (hleaves : LeavesMessage hooks)
    (h : Answered works i base 0 v.state) (hi : i.Confirmable) (hdid : v.state.didRespond = false)
    (hresponding : v.state.isResponding = false) (needsPrefix : Bool) :
    ∃ m, m ≤ 2 ∧ Answered works i base m (listVariables hooks node needsPrefix v).1.state ∧
      (m = 2 ↔ v.state.ObservesTooLong node.observable smcpObservableBroadcastKey) := by
  obtain ⟨hok, hbegun⟩ := h.beginResponse hi hdid hresponding
    (by decide : coapResult100 ≤ httpToCoapCode 205)
  obtain ⟨tr, o, force, heq⟩ :=
    beginResponse_eq h.isProcessingMessage hdid hresponding (httpToCoapCode 205)
  unfold listVariables
  dsimp only
  rw [if_neg (not_not.2 hok)]
  have hadded := hbegun.addOption (by decide : coapOptionContentType ≤ coapOptionInvalid)
    (uintOptionValue coapContentTypeApplicationLinkFormat)
  change UnderWay works i base 0 (smcpOutboundAddOptionUint
    (smcpOutboundBeginResponse v.state (httpToCoapCode 205)).1 coapOptionContentType
    coapContentTypeApplicationLinkFormat).1 at hadded
  have hiff : (smcpOutboundAddOptionUint
      (smcpOutboundBeginResponse v.state (httpToCoapCode 205)).1 coapOptionContentType
      coapContentTypeApplicationLinkFormat).1.ObservesTooLong node.observable
        smcpObservableBroadcastKey ↔
      v.state.ObservesTooLong node.observable smcpObservableBroadcastKey := by
    rw [heq]
    exact observesTooLong_congr (.refl v.state.inbound) rfl rfl rfl _ _
  have hdid' : (smcpOutboundAddOptionUint
      (smcpOutboundBeginResponse v.state (httpToCoapCode 205)).1 coapOptionContentType
      coapContentTypeApplicationLinkFormat).1.didRespond = false := by
    rw [heq]
    exact hdid
  generalize (smcpOutboundAddOptionUint
    (smcpOutboundBeginResponse v.state (httpToCoapCode 205)).1 coapOptionContentType
    coapContentTypeApplicationLinkFormat).1 = u at hadded hiff hdid' ⊢
  obtain ⟨k, hk, hupdated, hkiff, -⟩ := observableUpdate_underWay hleaves hadded hi hdid'
    node.observable smcpObservableBroadcastKey
  have hready := hupdated.getContentPtr
  generalize smcpOutboundGetContentPtr
    (smcpObservableUpdate hooks u node.observable smcpObservableBroadcastKey).1 = w at hready ⊢
  -- the listing is written behind the marker
  have hwritten := hready.replying.of_bytes
    (sizeT (listContent node needsPrefix v.calls w.outbound).2.2 % 65536)
    (b := ⟨(listContent node needsPrefix v.calls w.outbound).2.1.out.byte,
      max w.outbound.packetBytes.top (listContent node needsPrefix v.calls w.outbound).2.1.out.top⟩)
    (listContent_behind node needsPrefix v.calls w.outbound)
  have hanswered := (hready.answered.move ⟨rfl, rfl, rfl, rfl, rfl⟩ _).send hi hwritten hready.due
  rw [Nat.zero_add] at hanswered
  refine ⟨k + 1, Nat.succ_le_succ hk, hanswered.1, ?_⟩
  rw [← hiff, ← hkiff]
  omega

/-- The content is appended, since a value is short. -/
theorem UnderWay.appendContent {u : Instance} (h : UnderWay works i base n u)
    (hptr : u.outbound.contentPtr ≤ 57) {value : List UInt8}
    (hvalue : value.length ≤ smcpVariableMaxValueLength) :
    (smcpOutboundAppendContent u value).2 = smcpStatusOk ∧
      Answered works i base n (smcpOutboundAppendContent u value).1 ∧
      Replying i (smcpOutboundAppendContent u value).1.outbound ∧
      ((smcpOutboundAppendContent u value).1.didRespond = true ∨
        (smcpOutboundAppendContent u value).1.isResponding = true) := by
  unfold smcpVariableMaxValueLength at hvalue
  obtain ⟨opts, hc⟩ := h.replying.composed
  have hmax := hc.max_eq
  have hspace := (h.replying.bounded h.contentLen_eq).spaceRemaining_eq hc
  rw [hmax, h.contentLen_eq, smcpMaxPacketLength] at hspace
  have hword : word16 value.length = value.length := word16_of_lt (by omega)
  have hroom : u.outbound.spaceRemaining > word16 value.length := by omega
  have hready := h.getContentPtr
  have hwritten := hready.replying.write
    (value.take (word16 value.length)) (Nat.le_add_right _ (outboundGetContentPtr u.autoOptions
      u.outbound).contentLen)
    (word16 ((outboundGetContentPtr u.autoOptions u.outbound).contentLen + word16 value.length))
  unfold smcpOutboundAppendContent outboundAppendContent
  dsimp only
  rw [if_pos hroom]
  exact ⟨rfl, h.answered.move ⟨rfl, rfl, rfl, rfl, rfl⟩ _, hwritten, h.due⟩

/-- The value is written as a form. -/
theorem UnderWay.fillFormValue {u : Instance} (h : UnderWay works i base n u)
    (value : List UInt8) :
    Answered works i base n (fillFormValue u value) ∧
      Replying i (Smcp.fillFormValue u value).outbound ∧
      ((Smcp.fillFormValue u value).didRespond = true ∨
        (Smcp.fillFormValue u value).isResponding = true) := by
  have hready := h.getContentPtr
  unfold Smcp.fillFormValue
  dsimp only
  generalize smcpOutboundGetContentPtr u = w at hready ⊢
  generalize urlEncodeCstr value (word16 (w.outbound.maxContentLen + 65536 - 2)) = encoded
  have hwritten := hready.replying.write (asciiBytes "v=" ++ encoded.stored) (Nat.le_refl _)
    ((word16 encoded.ret + 2) % 65536)
  exact ⟨hready.answered.move ⟨rfl, rfl, rfl, rfl, rfl⟩ _, hwritten, hready.due⟩

/-- The calls of the node function before it is asked for the value. -/
def callsBeforeValue (keyIndex replyContentType : ℕ) (calls : List VarCall) : List VarCall :=
  if replyContentType = smcpContentTypeApplicationFormUrlencoded then
    ⟨.getMaxAge, keyIndex, []⟩ :: calls
  else calls

/-- One answer is sent, if there is a value. -/
theorem readValue_answered (node : VariableNode) (hi : i.Confirmable) (h : UnderWay works i base n v.state)
    (hptr : v.state.outbound.contentPtr ≤ 57) (keyIndex replyContentType : ℕ) :
    Answered works i base
      (if (node.func (callsBeforeValue keyIndex replyContentType v.calls)
        ⟨.getValue, keyIndex, []⟩).status = 0 then n + 1 else n)
      (readValue node keyIndex replyContentType v).1.state := by
  unfold readValue callsBeforeValue
  dsimp only
  by_cases hform : replyContentType = smcpContentTypeApplicationFormUrlencoded
  · simp only [if_pos hform]
    -- a form
    have hage : UnderWay works i base n (addMaxAge node keyIndex v).state := by
      unfold addMaxAge
      dsimp only
      split_ifs
      · exact h.addOption (by decide : coapOptionMaxAge ≤ coapOptionInvalid) _
      · exact h
    have hcalls : (addMaxAge node keyIndex v).calls = ⟨.getMaxAge, keyIndex, []⟩ :: v.calls := rfl
    rw [hcalls]
    generalize node.func _ ⟨.getValue, keyIndex, []⟩ = value
    by_cases hstatus : value.status = 0
    · rw [if_neg (not_not.2 hstatus), if_pos hstatus]
      have htyped := hage.addOption (by decide : coapOptionContentType ≤ coapOptionInvalid)
        (uintOptionValue smcpContentTypeApplicationFormUrlencoded)
      have htagged := htyped.addOption (by decide : coapOptionEtag ≤ coapOptionInvalid)
        (uintOptionValue
          (fasthashFinish (fasthashFeed (fasthashStart 0) value.value.str.bytes)).toNat)
      obtain ⟨hanswered, hreply, hdue⟩ := htagged.fillFormValue value.value.str.bytes
      exact (hanswered.send hi hreply hdue).1
    · rw [if_pos hstatus, if_neg hstatus]
      exact hage.answered
  · simp only [if_neg hform]
    generalize node.func v.calls ⟨.getValue, keyIndex, []⟩ = value
    by_cases hstatus : value.status = 0
    · rw [if_neg (not_not.2 hstatus), if_pos hstatus]
      obtain ⟨hok, hanswered, hreply, hdue⟩ := h.appendContent hptr value.value.length_le
      rw [if_neg (not_not.2 hok)]
      exact (hanswered.send hi hreply hdue).1
    · rw [if_pos hstatus, if_neg hstatus]
      exact h.answered

/-- The value of one key. -/
theorem readVariable_answered (node : VariableNode) (hleaves : LeavesMessage hooks)
    (h : Answered works i base 0 v.state) (hi : i.Confirmable) (hdid : v.state.didRespond = false)
    (hresponding : v.state.isResponding = false) (keyIndex replyContentType : ℕ) :
    ∃ m, m ≤ 2 ∧
      Answered works i base m (readVariable hooks node keyIndex replyContentType v).1.state ∧
      (m = 2 ↔ v.state.ObservesTooLong node.observable keyIndex ∧
        node.ReadsObservable v.calls keyIndex replyContentType) := by
  -- the response is begun, with the message and the token of the request
  obtain ⟨hok, hbegun⟩ := h.beginResponse hi hdid hresponding
    (by decide : coapResult100 ≤ httpToCoapCode 205)
  obtain ⟨tr, o, force, heq⟩ :=
    beginResponse_eq h.isProcessingMessage hdid hresponding (httpToCoapCode 205)
  have hptr := beginResponse_ptr_le h.isProcessingMessage hdid hresponding (httpToCoapCode 205)
  -- too long for Observe at the begin, and so afterwards
  have hiff : (smcpOutboundBeginResponse v.state (httpToCoapCode 205)).1.ObservesTooLong
      node.observable keyIndex ↔ v.state.ObservesTooLong node.observable keyIndex := by
    rw [heq]
    exact observesTooLong_congr (.refl v.state.inbound) rfl rfl rfl _ _
  have hdid' : (smcpOutboundBeginResponse v.state (httpToCoapCode 205)).1.didRespond = false := by
    rw [heq]
    exact hdid
  unfold readVariable VariableNode.ReadsObservable
  dsimp only
  -- the begin has gone well, and from here on `u` is the state behind it
  rw [if_neg (not_not.2 hok), ← hiff]
  generalize (smcpOutboundBeginResponse v.state (httpToCoapCode 205)).1 = u at hbegun hptr hdid' ⊢
  obtain ⟨k, hk, hupdated, hkiff, hroom⟩ :=
    observableUpdate_underWay hleaves hbegun hi hdid' node.observable keyIndex
  rw [Nat.zero_add] at hupdated
  by_cases hobservable : (node.func v.calls ⟨.getObservable, keyIndex, []⟩).status = 0
  · rw [if_pos hobservable]
    have hread := readValue_answered (v := ⟨(smcpObservableUpdate hooks u node.observable
      keyIndex).1, ⟨.getObservable, keyIndex, []⟩ :: v.calls⟩) node hi hupdated
      (hroom.trans (Nat.add_le_add_right hptr 37)) keyIndex replyContentType
    refine ⟨_, ?_, hread, ?_⟩
    · split_ifs
      · exact Nat.succ_le_succ hk
      · exact hk.trans (by decide)
    · rw [← hkiff, and_iff_right hobservable]
      change (if (node.func (callsBeforeValue keyIndex replyContentType
        (⟨.getObservable, keyIndex, []⟩ :: v.calls)) ⟨.getValue, keyIndex, []⟩).status = 0
        then k + 1 else k) = 2 ↔ k = 1 ∧ (node.func (callsBeforeValue keyIndex replyContentType
        (⟨.getObservable, keyIndex, []⟩ :: v.calls)) ⟨.getValue, keyIndex, []⟩).status = 0
      split_ifs with hvalue
      · simp [hvalue]
      · rw [iff_false_right fun hand => hvalue hand.2]
        omega
  · rw [if_neg hobservable]
    have hread := readValue_answered (v := ⟨u, ⟨.getObservable, keyIndex, []⟩ :: v.calls⟩)
      node hi hbegun (hptr.trans (by decide)) keyIndex replyContentType
    refine ⟨_, ?_, hread, ?_⟩
    · split_ifs <;> decide
    · apply iff_of_false
      · split_ifs <;> decide
      · exact fun hand => hobservable hand.2.1

/-- The node is asked to show something that can be observed to somebody who wants to observe it,
with a request that is too long for that. -/
def VariableNode.AnswersTwice (node : VariableNode) (v : VarState) : Prop :=
  let found := lookUpKey node v
  let scanned := found.after.scanned coapMethodGet
  headerCode v.state.inbound.bytes = coapMethodGet ∧ found.status = smcpStatusOk ∧
    scanned.2 = smcpStatusOk ∧ v.state.ObservesTooLong node.observable found.keyIndex ∧
    (found.keyIndex = badKeyIndex ∨
      node.ReadsObservable found.after.calls found.keyIndex scanned.1.replyContentType)

/-- The variable handler sends two answers in the case of `AnswersTwice`, and otherwise one at
most. -/
theorem variableHandler_answered (node : VariableNode) (hleaves : LeavesMessage hooks)
    (h : Answered works i base 0 v.state) (hi : i.Confirmable) (hdid : v.state.didRespond = false)
    (hresponding : v.state.isResponding = false) :
    ∃ m, m ≤ 2 ∧ Answered works i base m (smcpVariableNodeRequestHandler hooks node v).1.state ∧
      (m = 2 ↔ node.AnswersTwice v) := by
  obtain ⟨j, calls', hsame, hafter, -⟩ := lookUpKey_state node v
  unfold smcpVariableNodeRequestHandler VariableNode.AnswersTwice
  dsimp only
  rw [hafter]
  -- nothing is sent
  have hmoved {i' : Inbound} (hi' : v.state.inbound.SameMessage i') {p : Prop} (hnot : ¬p) :
      ∃ m, m ≤ 2 ∧ Answered works i base m { v.state with inbound := i' } ∧ (m = 2 ↔ p) :=
    ⟨0, by decide, h.move hi'.samePacket v.state.outbound, iff_of_false (by decide) hnot⟩
  by_cases hfound : (lookUpKey node v).status = smcpStatusOk
  · rw [if_neg (not_not.2 hfound)]
    have hscan := hsame.trans (sameMessage_scanVarOptions (headerCode v.state.inbound.bytes)
      (j.packetLen + 1) j.varOptions)
    change v.state.inbound.SameMessage
      (VarState.scanned (headerCode v.state.inbound.bytes)
        ⟨{ v.state with inbound := j }, calls'⟩).1.inbound at hscan
    by_cases hget : headerCode v.state.inbound.bytes = coapMethodGet
    · rw [hget] at hscan ⊢
      generalize VarState.scanned coapMethodGet ⟨{ v.state with inbound := j }, calls'⟩ = scanned
        at hscan ⊢
      by_cases hscanned : scanned.2 = smcpStatusOk
      · have hready : Answered works i base 0 { v.state with inbound := scanned.1.inbound } :=
          h.move hscan.samePacket v.state.outbound
        have hlong := @observesTooLong_congr v.state { v.state with inbound := scanned.1.inbound }
          hscan rfl rfl rfl node.observable
        rw [if_neg (not_not.2 hscanned), if_neg (by decide), if_pos rfl, and_iff_right rfl,
          and_iff_right hfound, and_iff_right hscanned]
        by_cases hkey : (lookUpKey node v).keyIndex = badKeyIndex
        · rw [if_pos hkey, hkey]
          obtain ⟨m, hm, hanswered, hiff⟩ := listVariables_answered node
            (v := ⟨{ v.state with inbound := scanned.1.inbound }, calls'⟩) hleaves hready hi hdid
            hresponding (lookUpKey node v).needsPrefix
          refine ⟨m, hm, hanswered, ?_⟩
          rw [hiff, and_iff_left (.inl rfl)]
          exact hlong _
        · rw [if_neg hkey]
          obtain ⟨m, hm, hanswered, hiff⟩ := readVariable_answered node
            (v := ⟨{ v.state with inbound := scanned.1.inbound }, calls'⟩) hleaves hready hi hdid
            hresponding (lookUpKey node v).keyIndex scanned.1.replyContentType
          refine ⟨m, hm, hanswered, ?_⟩
          rw [hiff, or_iff_right hkey]
          exact and_congr_left fun _ => hlong _
      · rw [if_pos hscanned]
        exact hmoved hscan fun hand => hscanned hand.2.2.1
    · generalize VarState.scanned (headerCode v.state.inbound.bytes)
        ⟨{ v.state with inbound := j }, calls'⟩ = scanned at hscan ⊢
      by_cases hscanned : scanned.2 = smcpStatusOk
      · rw [if_neg (not_not.2 hscanned)]
        by_cases hwrite : headerCode v.state.inbound.bytes = coapMethodPost ∨
            headerCode v.state.inbound.bytes = coapMethodPut
        · rw [if_pos hwrite]
          obtain ⟨m, hm, hanswered⟩ := writeVariable_answered node
            (v := ⟨{ v.state with inbound := scanned.1.inbound }, calls'⟩) hi
            (h.move hscan.samePacket v.state.outbound) hdid hresponding
            (lookUpKey node v).keyIndex scanned.1
          exact ⟨m, hm.trans (by decide), hanswered,
            iff_of_false (by omega) fun hand => hget hand.1⟩
        · rw [if_neg hwrite, if_neg hget]
          exact hmoved hscan fun hand => hget hand.1
      · rw [if_pos hscanned]
        exact hmoved hscan fun hand => hget hand.1
  · rw [if_pos hfound]
    exact hmoved hsame fun hand => hfound hand.2.1

end

/-! ## The list handler -/

/-- The path `.well-known/core` is read from the options. -/
theorem sameMessage_listWellKnown (hasParent : Bool) (namePrefix : Option (List UInt8))
    (i : Inbound) : i.SameMessage (listWellKnown hasParent namePrefix i).inbound := by
  have hfirst := i.sameMessage_nextOption
  unfold listWellKnown
  dsimp only
  split_ifs
  · exact hfirst.trans (Inbound.sameMessage_nextOption _)
  · exact hfirst
  · exact .refl i

section
variable {works : Prop} {i : Inbound} {base : List Datagram} {u : Instance} (text : ℕ → CStr)
  (s : NodeStore) (node : ℕ)

/-- The listing sends one answer, if it has room for its type. -/
theorem sendList_answered (h : Answered works i base 0 u) (hi : i.Confirmable)
    (hdid : u.didRespond = false) (hresponding : u.isResponding = false)
    (namePrefix : Option (List UInt8)) :
    ∃ m, m ≤ 1 ∧ Answered works i base m (sendList text s node namePrefix u).1 := by
  obtain ⟨hok, hbegun⟩ := h.beginResponse hi hdid hresponding
    (by decide : coapResult100 ≤ httpToCoapCode 205)
  unfold sendList
  dsimp only
  rw [if_neg (not_not.2 hok)]
  have hadded := hbegun.addOption (by decide : coapOptionContentType ≤ coapOptionInvalid)
    (uintOptionValue coapContentTypeApplicationLinkFormat)
  change UnderWay works i base 0 (smcpOutboundAddOptionUint
    (smcpOutboundBeginResponse u (httpToCoapCode 205)).1 coapOptionContentType
    coapContentTypeApplicationLinkFormat).1 at hadded
  -- with no room for the type it is refused, and nothing is sent
  split_ifs
  · exact ⟨0, Nat.zero_le 1, hadded.answered⟩
  · have hready := hadded.getContentPtr
    generalize smcpOutboundGetContentPtr (smcpOutboundAddOptionUint
      (smcpOutboundBeginResponse u (httpToCoapCode 205)).1 coapOptionContentType
      coapContentTypeApplicationLinkFormat).1 = w at hready ⊢
    generalize listChildren text s w.outbound.maxContentLen namePrefix node (s.inserted + 1) _ [] =
      reply
    have hwritten := hready.replying.write (reply ++ [0]) (Nat.le_refl _) (reply.length % 65536)
    have hanswered := (hready.answered.move ⟨rfl, rfl, rfl, rfl, rfl⟩ _).send hi hwritten hready.due
    exact ⟨1, Nat.le_refl 1, hanswered.1⟩

/-- Behind the path the list handler answers once at most. -/
theorem listBehindPath_answered (h : Answered works i base 0 u) (hi : i.Confirmable)
    (hdid : u.didRespond = false) (hresponding : u.isResponding = false)
    (namePrefix : Option (List UInt8)) :
    ∃ m, m ≤ 1 ∧ Answered works i base m (listBehindPath text s node namePrefix u).1 := by
  have hscan := sameMessage_scanListOptions (u.inbound.packetLen + 1) u.inbound
  have hmoved : Answered works i base 0
      { u with inbound := (scanListOptions (u.inbound.packetLen + 1) u.inbound).1 } :=
    h.move hscan.samePacket u.outbound
  unfold listBehindPath
  dsimp only
  split_ifs
  · exact ⟨0, Nat.zero_le 1, hmoved⟩
  · exact sendList_answered text s node hmoved hi hdid hresponding namePrefix

/-- So does all of it. -/
theorem defaultHandler_answered (h : Answered works i base 0 u) (hi : i.Confirmable)
    (hdid : u.didRespond = false) (hresponding : u.isResponding = false) :
    ∃ m, m ≤ 1 ∧ Answered works i base m (smcpDefaultRequestHandler text s node u).1 := by
  have hpath := sameMessage_listWellKnown (s.node node).parent.isSome
    ((s.node node).name.map fun name => (text name).bytes) u.inbound
  unfold smcpDefaultRequestHandler smcpHandleList
  dsimp only
  generalize listWellKnown (s.node node).parent.isSome
    ((s.node node).name.map fun name => (text name).bytes) u.inbound = path at hpath ⊢
  have hmoved {j : Inbound} (hj : u.inbound.SameMessage j) :
      Answered works i base 0 { u with inbound := j } := h.move hj.samePacket u.outbound
  have hnext := hpath.trans path.inbound.sameMessage_nextOption
  split
  · split
    · exact ⟨0, Nat.zero_le 1, hmoved hpath⟩
    · split
      · split
        · have hfault := hmoved hnext
          exact ⟨0, Nat.zero_le 1, ⟨hfault.samePacket, hfault.isProcessingMessage, hfault.sent_eq,
            hfault.responded, hfault.takes, hfault.unanswered⟩⟩
        · exact listBehindPath_answered text s node (hmoved hnext) hi hdid hresponding _
        · exact listBehindPath_answered text s node (hmoved hnext) hi hdid hresponding _
      · exact listBehindPath_answered text s node (hmoved hpath) hi hdid hresponding _
  · exact ⟨0, Nat.zero_le 1, h⟩

end

end Smcp
