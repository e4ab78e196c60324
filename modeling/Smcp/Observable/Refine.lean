import Smcp.Transaction.Refine

/-!
# Requests and observers take the steps of the machines

`smcp_handle_request` and the functions of `smcp-observable.c`, under the assumption that the
application takes steps of the machines only.
-/

namespace Smcp

section
variable {hooks : Hooks} {s : Instance}

variable (hhooks : ∀ c u, Evolves u (hooks c u).1)
include hhooks

theorem evolves_tickle (h : TransactionPtr) : Evolves s (smcpTransactionTickle hooks s h) :=
  (evolves_invalidateTimer hhooks _).trans (quiet_scheduleTimer _ _ _).evolves

theorem evolves_handleRequest : Evolves s (smcpHandleRequest hooks s).1 := by
  have hroute := (same_authInboundInit s).trans (same_vhostRoute _ s.requestHandler)
  unfold smcpHandleRequest
  dsimp only
  split
  · exact hroute.evolves
  · refine Evolves.trans ?_ (hhooks _ _)
    exact hroute.evolves.trans (Same.evolves ⟨rfl⟩)

/-! ## Observers -/

omit hhooks in
/-- The world with another entry in the observer table. -/
theorem world_setObserver (s : Instance) (i : ℤ) (f : Observer → Observer) :
    (s.setObserver i f).world =
      { s.world with
        observers :=
          { s.observerState with
            link := Function.update s.observerState.link i.toNat (f (s.observer i)).link } } := by
  have hlink : (fun j => ((s.setObserver i f).observerTable j).link) =
      Function.update s.observerState.link i.toNat (f (s.observer i)).link := by
    funext j
    by_cases heq : j = i.toNat
    · subst heq
      simp [Instance.setObserver]
    · simp [Instance.setObserver, heq, Instance.observerState]
  unfold Instance.world Instance.observerState at *
  rw [hlink]
  rfl

omit hhooks in
/-- The world with another observable. -/
theorem world_setObservable (s : Instance) (context : ℕ) (f : Observable → Observable) :
    (s.setObservable context f).world =
      { s.world with
        observers :=
          { s.observerState with
            first := Function.update s.observerState.first context
              (f (s.observables context)).firstObserver
            last := Function.update s.observerState.last context
              (f (s.observables context)).lastObserver } } := by
  have hends (g : Observable → ℤ) : (fun c => g ((s.setObservable context f).observables c)) =
      Function.update (fun c => g (s.observables c)) context (g (f (s.observables context))) := by
    funext c
    by_cases heq : c = context
    · subst heq
      simp [Instance.setObservable]
    · simp [Instance.setObservable, heq]
  have hfirst := hends Observable.firstObserver
  have hlast := hends Observable.lastObserver
  unfold Instance.world Instance.observerState
  rw [hfirst, hlast]
  rfl

omit hhooks in
theorem same_setObserver (s : Instance) (i : ℤ) {f : Observer → Observer}
    (hf : ∀ o, (f o).link = o.link) : Same s (s.setObserver i f) := by
  refine ⟨?_⟩
  have hself : (s.observer i).link = s.observerState.link i.toNat := rfl
  rw [world_setObserver, hf, hself, Function.update_eq_self]
  rfl

omit hhooks in
theorem same_setObservable (s : Instance) (context : ℕ) {f : Observable → Observable}
    (hfirst : ∀ c, (f c).firstObserver = c.firstObserver)
    (hlast : ∀ c, (f c).lastObserver = c.lastObserver) : Same s (s.setObservable context f) := by
  refine ⟨?_⟩
  have hf : (s.observables context).firstObserver = s.observerState.first context := rfl
  have hl : (s.observables context).lastObserver = s.observerState.last context := rfl
  rw [world_setObservable, hfirst, hlast, hf, hl, Function.update_eq_self, Function.update_eq_self]
  rfl

omit hhooks in
/-- Taking an entry out of a list changes nothing but the lists. -/
theorem unlinkObserver_world (s : Instance) (context i : ℕ) :
    ∃ o, o.events = s.observerEvents ∧
      (unlinkObserver s context i).world = { s.world with observers := o } := by
  have hself : ∃ o : ObserverState, o.events = s.observerEvents ∧
      ({ s with fault := true } : Instance).world = { s.world with observers := o } :=
    ⟨s.observerState, rfl, rfl⟩
  unfold unlinkObserver
  dsimp only
  split_ifs
  · exact ⟨_, rfl, world_setObservable _ _ _⟩
  · exact ⟨_, rfl, world_setObservable _ _ _⟩
  · split
    · exact hself
    · split_ifs
      · refine ⟨_, ?_, (world_setObservable _ _ _).trans (by rw [world_setObserver])⟩
        rfl
      · exact ⟨_, rfl, world_setObserver _ _ _⟩
      · exact hself
  · exact hself

omit hhooks in
/-- The list of an only observer becomes empty. -/
theorem unlinkObserver_only (s : Instance) {context i : ℕ}
    (hfirst : s.observerState.first context = i + 1) (hlast : s.observerState.last context = i + 1) :
    (unlinkObserver s context i).world =
      { s.world with observers := s.observerState.releaseOnly context } := by
  unfold unlinkObserver
  dsimp only
  rw [if_pos ⟨hfirst, hlast⟩, world_setObservable]
  rfl

theorem evolves_freeObserver (i : ℕ) : Evolves s (freeObserver hooks s i) := by
  unfold freeObserver
  dsimp only
  -- an entry of no observable is in no list
  cases hobservable : (s.observerTable i).observable with
  | none =>
    dsimp only
    intro _
    rw [world_setObserver]
    exact .single (.observers s.world _ (.forget s.observerState i hobservable))
  | some context =>
    dsimp only
    intro hs
    refine (evolves_end hhooks (.observer i) hs).trans ?_
    have hended := end_inactive hhooks hs i
    generalize smcpTransactionEnd hooks s (.observer i) = s1 at hended ⊢
    set s2 := s1.logObserver (.released context i (s1.observables context).firstObserver
      (s1.observables context).lastObserver) with hs2
    obtain ⟨o, hevents, hworld⟩ := unlinkObserver_world s2 context i
    have honly := @unlinkObserver_only s2 context i
    generalize unlinkObserver s2 context i = s3 at hworld honly ⊢
    have hfinal : (s3.setObserver i fun o =>
        { o with asyncResponse := smcpFinishAsyncResponse o.asyncResponse }).world =
        { s1.world with observers := s3.observerState.forget i } := by
      rw [world_setObserver, hworld]
      rfl
    rw [hfinal]
    refine .single (.observers s1.world _ (.release s1.observerState _ context i hended ?_ ?_))
    · have hobs : s3.observerState = o := congrArg World.observers hworld
      rw [hobs]
      exact hevents
    · intro hfirst hlast
      have hobs : s3.observerState = s2.observerState.releaseOnly context :=
        congrArg World.observers (honly hfirst hlast)
      rw [hobs]
      rfl

theorem evolves_eventResponseHandler (statuscode : ℤ) (i : ℕ) :
    Evolves s (eventResponseHandler hooks s statuscode i).1 := by
  have hfree := evolves_freeObserver (s := s) hhooks i
  have hcases (p : Prop) [Decidable p] :
      Evolves s (if p then (freeObserver hooks s i, smcpStatusReset) else (s, smcpStatusOk)).1 := by
    split_ifs
    · exact hfree
    · exact Evolves.refl s
  exact hcases _

theorem evolves_retrySendingEvent (i : ℕ) : Evolves s (retrySendingEvent hooks s i).1 := by
  have hbegin := same_beginAsyncResponse s (httpToCoapCode 205) (s.observerTable i).asyncResponse
  unfold retrySendingEvent
  dsimp only
  -- the response of the observer is composed step by step
  generalize smcpOutboundBeginAsyncResponse s (httpToCoapCode 205)
    (s.observerTable i).asyncResponse = r at hbegin ⊢
  -- a response that cannot be begun ends the event
  by_cases hr : r.2 = smcpStatusOk
  · have hoption : Same s (smcpOutboundAddOptionUint r.1 coapOptionObserve
        (r.1.observerTable i).seq).1 := hbegin.trans ⟨rfl⟩
    rw [if_neg (not_not.2 hr)]
    generalize smcpOutboundAddOptionUint r.1 coapOptionObserve (r.1.observerTable i).seq = r2
      at hoption ⊢
    by_cases hr2 : r2.2 = smcpStatusOk
    · rw [if_neg (not_not.2 hr2)]
      set s2 : Instance := { smcpOutboundSetTt r2.1 _ with
        inbound.hasObserveOption := true, isResponding := true, forceCurrentOutboundCode := true
        isProcessingMessage := true, didRespond := false }
      have hs2 : Same s s2 := hoption.trans ⟨rfl⟩
      have hhandle : Evolves s (smcpHandleRequest hooks s2).1 :=
        (evolves_handleRequest hhooks).of_same hs2
      split_ifs
      · refine hhandle.trans (Same.evolves ?_)
        refine Same.trans (Same.trans ?_ (same_send _)) ⟨rfl⟩
        exact ⟨rfl⟩
      · exact hhandle.trans (Same.evolves ⟨rfl⟩)
    · rw [if_pos hr2]
      exact hoption.evolves.trans (Same.evolves ⟨rfl⟩)
  · rw [if_pos hr]
    exact hbegin.evolves.trans (Same.evolves ⟨rfl⟩)

/-- The observer at an index that leads to it is notified. -/
theorem evolves_notifyObserver (i : ℕ) (hpoints : s.observerState.PointsTo i) :
    Evolves s (notifyObserver hooks s i) := by
  unfold notifyObserver
  dsimp only
  set s1 := s.setObserver i fun o => { o with seq := (o.seq + 1) % 4294967296 } with hs1
  have h1 : Same s s1 := same_setObserver s i fun _ => rfl
  have hpoints1 : s1.observerState.PointsTo i := by
    rw [show s1.observerState = s.observerState from congrArg World.observers h1.world]
    exact hpoints
  by_cases hactive : s1.store.active (.observer i) = true
  · rw [if_pos hactive]
    refine Evolves.trans ?_ (evolves_tickle hhooks _)
    exact Evolves.of_same (evolves_renew hhooks _) h1
  · rw [if_neg hactive]
    refine Evolves.trans ?_ (evolves_beginTransaction hhooks _ _ ?_)
    · exact Evolves.of_same (evolves_init _ _ _ _ (by simp [CallbackFits])) h1
    · intro j hj
      cases hj
      exact hpoints1

/-- The loop of `smcp_observable_trigger`, from an index that leads to an observer. -/
theorem evolves_triggerFrom (key fuel : ℕ) (i : ℤ)
    (hpoints : 0 ≤ i → s.observerState.PointsTo i.toNat) :
    Evolves s (triggerFrom hooks key fuel s i) := by
  -- induction on the fuel: one observer is notified, and the index goes on to the next one
  induction fuel generalizing s i with
  | zero => exact Same.evolves ⟨rfl⟩
  | succ fuel ih =>
    have hnext (u : Instance) (hin : inTable i = true) :
        0 ≤ (u.observer i).next - 1 → u.observerState.PointsTo ((u.observer i).next - 1).toNat := by
      intro hge
      unfold inTable at hin
      refine .inr ⟨i.toNat, by simp at hin; omega, ?_⟩
      have hlink : (u.observerState.link i.toNat).next = (u.observer i).next := rfl
      rw [hlink]
      omega
    unfold triggerFrom
    -- an index below 0 is the end of the list
    by_cases hge : i ≥ 0
    · rw [if_pos hge]
      by_cases hin : inTable i = false
      · rw [if_pos hin]
        exact Same.evolves ⟨rfl⟩
      · rw [if_neg hin]
        have hin' : inTable i = true := Bool.eq_true_of_not_eq_false hin
        dsimp only
        split_ifs
        · exact ih _ (hnext s hin')
        · exact (evolves_notifyObserver hhooks _ (hpoints hge)).trans (ih _ (hnext _ hin'))
    · rw [if_neg hge]
      exact Evolves.refl s

theorem evolves_observableTrigger (context key : ℕ) :
    Evolves s (smcpObservableTrigger hooks s context key) := by
  unfold smcpObservableTrigger
  split_ifs
  · refine evolves_triggerFrom hhooks _ _ _ fun hge => .inl ⟨context, ?_⟩
    have hfirst : s.observerState.first context = (s.observables context).firstObserver := rfl
    rw [hfirst]
    omega
  · exact Evolves.refl s

omit hhooks in
/-- What the search finds is an entry of the table that an index leads to. -/
theorem findObserver_some {key fuel : ℕ} {i j : ℤ} (h : findObserver s key fuel i = some j)
    (hpoints : 0 ≤ i → s.observerState.PointsTo i.toNat) :
    j = -1 ∨ inTable j = true ∧ s.observerState.PointsTo j.toNat := by
  -- induction on the fuel: the entry of the index, or the one behind it
  induction fuel generalizing i with
  | zero => simp [findObserver] at h
  | succ fuel ih =>
    unfold findObserver at h
    -- an index below 0 is the end of the list
    by_cases hge : i ≥ 0
    · rw [if_pos hge] at h
      by_cases hin : inTable i = false
      · rw [if_pos hin] at h
        cases h
      · rw [if_neg hin] at h
        have hin' : inTable i = true := Bool.eq_true_of_not_eq_false hin
        split_ifs at h
        · cases h
          exact .inr ⟨hin', hpoints hge⟩
        · refine ih h fun hnext => .inr ⟨i.toNat, ?_, ?_⟩
          · unfold inTable at hin'
            simp at hin'
            omega
          · have hlink : (s.observerState.link i.toNat).next = (s.observer i).next := rfl
            rw [hlink]
            omega
    · rw [if_neg hge] at h
      cases h
      exact .inl rfl

omit hhooks in
theorem getUnusedObserverIndex_spec (s : Instance) :
    getUnusedObserverIndex s = -1 ∨
      ∃ i : ℕ, getUnusedObserverIndex s = i ∧ i < smcpMaxObservers ∧
        s.observerState.unused s.core.activeObservers i := by
  unfold getUnusedObserverIndex
  cases hfind : (List.range smcpMaxObservers).find? fun i =>
      (s.observerTable i).asyncResponse.requestLen = 0 ∧ (s.observerTable i).next = 0 ∧
        s.store.active (.observer i) = false with
  | none => exact .inl rfl
  | some i =>
    have hunused := List.find?_some hfind
    rw [decide_eq_true_eq] at hunused
    exact .inr ⟨i, rfl, List.mem_range.1 (List.mem_of_find?_eq_some hfind), hunused⟩

omit hhooks in
theorem requestLen_startAsyncResponse (s : Instance) (x : AsyncResponse) (dontAck : Bool) :
    (smcpStartAsyncResponse s x dontAck).response.requestLen =
      startedLen (s.inbound.packetLen - s.inbound.contentLen) x.requestLen := by
  unfold smcpStartAsyncResponse startedLen
  dsimp only
  split_ifs <;> rfl

omit hhooks in
/-- A registration is answered: the request of the entry is set. -/
theorem confirmObserver_world (s : Instance) (i : ℤ) :
    (confirmObserver s i).1.world =
      { s.world with
        observers :=
          { s.observerState with
            link := Function.update s.observerState.link i.toNat
              { s.observerState.link i.toNat with
                requestLen := startedLen (s.inbound.packetLen - s.inbound.contentLen)
                  (s.observerState.link i.toNat).requestLen } } } := by
  have hsame := same_startAsyncResponse s (s.observer i).asyncResponse true
  have hlen := requestLen_startAsyncResponse s (s.observer i).asyncResponse true
  unfold confirmObserver
  dsimp only
  generalize smcpStartAsyncResponse s (s.observer i).asyncResponse true = start at hsame hlen ⊢
  have hoption (u : Instance) (seq : ℕ) :
      (smcpOutboundAddOptionUint u coapOptionObserve seq).1.world = u.world := rfl
  have hobs : start.state.observerState = s.observerState := congrArg World.observers hsame.world
  have hlink : ({ start.state.observer i with asyncResponse := start.response } : Observer).link =
      { s.observerState.link i.toNat with requestLen := start.response.requestLen } := by
    rw [← hobs]
    rfl
  rw [hoption, world_setObserver, hlink, hlen, hsame.world, hobs]
  rfl

omit hhooks in
/-- Taking an entry into a list. -/
theorem addObserver_world (s : Instance) (context key i : ℕ) :
    (addObserver s context key i).world =
      { s.world with
        observers :=
          { link :=
              let link := if s.observerState.last context = 0 then s.observerState.link
                else Function.update s.observerState.link (s.observerState.last context - 1).toNat
                  { s.observerState.link (s.observerState.last context - 1).toNat with next := i + 1 }
              Function.update link i { link i with observable := some context }
            first := Function.update s.observerState.first context
              (if s.observerState.last context = 0 then i + 1 else s.observerState.first context)
            last := Function.update s.observerState.last context (i + 1)
            events := s.observerEvents } } := by
  have hlast : s.observerState.last context = (s.observables context).lastObserver := rfl
  unfold addObserver
  dsimp only
  rw [hlast, world_setObserver]
  -- the first entry of a list, or one behind the last
  by_cases hempty : (s.observables context).lastObserver = 0
  · simp only [if_pos hempty]
    set s1 := s.setObservable context _ with hs1
    have hworld : s1.world = _ := world_setObservable s context _
    have hobs : s1.observerState = _ := congrArg World.observers hworld
    have hlink : ({ s1.observer i with key := key, seq := 0, observable := some context } :
        Observer).link = { s1.observerState.link i with observable := some context } := rfl
    rw [hlink, hworld, hobs]
    simp only [if_pos hempty]
    rfl
  · simp only [if_neg hempty]
    set s1 := s.setObserver ((s.observables context).lastObserver - 1) _ with hs1
    have hworld1 : s1.world = _ := world_setObserver s _ _
    have hobs1 : s1.observerState = _ := congrArg World.observers hworld1
    set s2 := s1.setObservable context _ with hs2
    have hworld2 : s2.world = _ := world_setObservable s1 context _
    have hobs2 : s2.observerState = _ := congrArg World.observers hworld2
    have hlink : ({ s2.observer i with key := key, seq := 0, observable := some context } :
        Observer).link = { s2.observerState.link i with observable := some context } := rfl
    have hsame : s1.observables = s.observables := rfl
    rw [hlink, hworld2, hobs2, hworld1, hobs1, hsame]
    simp only [if_neg hempty]
    rfl

omit hhooks in
/-- A new registration. -/
theorem registered_world (s : Instance) (context key i : ℕ) :
    (confirmObserver (addObserver (s.logObserver (.registered context i
      (s.inbound.packetLen - s.inbound.contentLen))) context key i) i).1.world =
      { s.world with
        observers := s.observerState.register context i
          (s.inbound.packetLen - s.inbound.contentLen) } := by
  have hinbound (u : Instance) : (addObserver u context key i).inbound = u.inbound := by
    unfold addObserver
    dsimp only
    split_ifs <;> rfl
  have hworld := addObserver_world (s.logObserver (.registered context i
    (s.inbound.packetLen - s.inbound.contentLen))) context key i
  have hobs := congrArg World.observers hworld
  rw [confirmObserver_world, hinbound, hworld]
  generalize addObserver (s.logObserver _) context key i = u at hobs ⊢
  have hu : u.observerState = u.world.observers := rfl
  rw [hu, hobs, ObserverState.register]
  dsimp only [Int.toNat_natCast]
  rw [Function.update_self, Function.update_idem]
  rfl

theorem evolves_observableUpdate (context key : ℕ) :
    Evolves s (smcpObservableUpdate hooks s context key).1 := by
  have h1 : Same s (s.setObservable context fun c => { c with hasInterface := true }) :=
    same_setObservable s context (fun _ => rfl) fun _ => rfl
  unfold smcpObservableUpdate
  dsimp only
  -- the observable has its instance; the other fields are as they were
  generalize s.setObservable context (fun c => { c with hasInterface := true }) = s1 at h1 ⊢
  split
  · exact h1.evolves
  -- a token that is known renews its entry, another one takes a free entry
  · cases hfound : findObserver s1 key (smcpMaxObservers + 1)
        ((s1.observables context).firstObserver - 1) with
    | none => exact h1.evolves.trans (Same.evolves ⟨rfl⟩)
    | some i =>
      have hspec := findObserver_some hfound fun hge => .inl ⟨context, by
        have hfirst : s1.observerState.first context = (s1.observables context).firstObserver := rfl
        rw [hfirst]
        omega⟩
      refine h1.evolves.trans ?_
      dsimp only
      by_cases hobserve : s1.inbound.hasObserveOption = true
      · rw [if_pos hobserve]
        by_cases hnone : i = -1
        · -- a new observer
          rw [if_pos hnone]
          rcases getUnusedObserverIndex_spec s1 with hfull | ⟨j, hj, hlt, hunused⟩
          · rw [if_pos hfull]
            exact Evolves.refl s1
          · rw [if_neg (by omega), hj]
            intro _
            rw [Int.toNat_natCast, registered_world]
            exact .single (.observers s1.world _ (.register s1.observerState context j _ hlt hunused))
        · -- an observer that is known
          obtain ⟨hin, hpoints⟩ := hspec.resolve_left hnone
          rw [if_neg hnone]
          intro _
          rw [confirmObserver_world]
          refine .single (.observers s1.world _ (.renew s1.observerState i.toNat _ ?_ hpoints))
          unfold inTable at hin
          simp at hin
          omega
      · rw [if_neg hobserve]
        by_cases hnone : i = -1
        · rw [if_pos hnone]
          exact Evolves.refl s1
        · rw [if_neg hnone]
          exact evolves_freeObserver hhooks i.toNat

end

end Smcp
