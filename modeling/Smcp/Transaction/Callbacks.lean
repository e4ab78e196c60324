import Smcp.Transaction.Runs

/-!
# The callback of a transaction in every run

`openCalls` counts the calls of the callback of a transaction, from the call of
`smcp_transaction_begin` that made it active to the moment it stops being active.

`reachable_callbacks`: in every run that keeps the store, the callback of a transaction without
`SMCP_TRANSACTION_ALWAYS_INVALIDATE` is called once, and that of a transaction with the flag is told
once, and last, that the transaction is invalid.
-/

namespace Smcp

open Run

/-- The transaction as it was when it became active, and the statuses its callback has been called
with since, while it is active. -/
def openCalls (h : TransactionPtr) : List Event → Option (Transaction × List ℤ)
  | [] => none
  | .began h' active t :: earlier =>
    if h' = h ∧ active = false then some (t, []) else openCalls h earlier
  | .called h' statuscode :: earlier =>
    if h' = h then (openCalls h earlier).map fun x => (x.1, x.2 ++ [statuscode])
    else openCalls h earlier
  | .deleted h' _ :: earlier | .initialized h' _ :: earlier =>
    if h' = h then none else openCalls h earlier
  | .ended h' found :: earlier =>
    if h' = h ∧ found ≠ some h then none else openCalls h earlier
  | _ :: earlier => openCalls h earlier

/-- The flags with which a transaction follows the rule. -/
def followsRule (flags : ℕ) : Prop :=
  hasFlag flags smcpTransactionObserve = false ∧ hasFlag flags smcpTransactionNoAutoEnd = false

/-- The calls of the callback of a transaction that stopped being active: one, or, with
`SMCP_TRANSACTION_ALWAYS_INVALIDATE`, any number and then the one for the invalidation. -/
def Transaction.CallsOk (t : Transaction) (calls : List ℤ) : Prop :=
  t.callback.isSome = true → followsRule t.flags →
    (hasFlag t.flags smcpTransactionAlwaysInvalidate = false → calls.length = 1) ∧
    (hasFlag t.flags smcpTransactionAlwaysInvalidate = true →
      ∃ before, calls = before ++ [smcpStatusTransactionInvalidated] ∧
        smcpStatusTransactionInvalidated ∉ before)

/-- When a transaction stops being active, its callback has been called as it should. -/
def Event.CallsBack : Event → List Event → Prop
  | .deleted h told, earlier => ∀ t calls, openCalls h earlier = some (t, calls) →
      t.CallsOk (calls ++ if told then [smcpStatusTransactionInvalidated] else [])
  | .ended h found, earlier => found ≠ some h →
      ∀ t calls, openCalls h earlier = some (t, calls) → t.CallsOk calls
  | _, _ => True

/-- No resend callback reports that its transaction is invalid. -/
def Event.KeepsStatus : Event → Prop
  | .resendReturned _ status => status ≠ smcpStatusTransactionInvalidated
  | _ => True

/-! ## Events that do not matter -/

/-- The event neither opens nor closes the count, and is no call. -/
def Event.Uncounted : Event → Prop
  | .began _ _ _ | .called _ _ | .deleted _ _ | .initialized _ _ | .ended _ _ => False
  | _ => True

theorem openCalls_append {es : List Event} (hes : ∀ e ∈ es, e.Uncounted) (h : TransactionPtr)
    (earlier : List Event) : openCalls h (es ++ earlier) = openCalls h earlier := by
  induction es with
  | nil => rfl
  | cons e es ih =>
    have hrest := ih fun e' he' => hes e' (List.mem_cons_of_mem e he')
    have he := hes e List.mem_cons_self
    rw [List.cons_append]
    cases e <;> first | exact absurd he id | exact hrest

theorem callsBack_append {es : List Event} (hes : ∀ e ∈ es, e.Uncounted) (earlier : List Event) :
    Along Event.CallsBack (es ++ earlier) ↔ Along Event.CallsBack earlier := by
  apply along_append
  intro e he earlier
  have huncounted := hes e he
  cases e <;> first | exact absurd huncounted id | trivial

/-! ## One step -/

/-- The calls so far of an active transaction that became active as `t`, and whose fields are now
`l`. -/
structure OpenOk (t : Transaction) (calls : List ℤ) (l : Life) : Prop where
  flags_eq : l.flags = t.flags
  once : t.callback.isSome = true → followsRule t.flags →
    hasFlag t.flags smcpTransactionAlwaysInvalidate = false →
      calls = [] ∧ l.callback.isSome = true ∨ calls.length = 1 ∧ l.callback = none
  always : t.callback.isSome = true → followsRule t.flags →
    hasFlag t.flags smcpTransactionAlwaysInvalidate = true →
      l.callback.isSome = true ∧ smcpStatusTransactionInvalidated ∉ calls

/-- The counts are open for the active transactions, and they are right. -/
structure CallsInvariant (c : Core) : Prop where
  active : ∀ h, c.store.active h = (openCalls h c.events).isSome
  openOk : ∀ h t calls, openCalls h c.events = some (t, calls) → OpenOk t calls (c.life h)
  closed : Along Event.CallsBack c.events

section
variable {t : Transaction} {calls : List ℤ} {l l' : Life}

theorem OpenOk.congr (h : OpenOk t calls l) (hflags : l'.flags = l.flags)
    (hcallback : l'.callback = l.callback) : OpenOk t calls l' := by
  refine ⟨hflags.trans h.flags_eq, ?_, ?_⟩
  · rw [hcallback]
    exact h.once
  · rw [hcallback]
    exact h.always

/-- A transaction that becomes active. -/
theorem openOk_began (hflags : l.flags = t.flags) (hcallback : l.callback = t.callback) :
    OpenOk t [] l := by
  refine ⟨hflags, fun hsome _ _ => .inl ⟨rfl, ?_⟩, fun hsome _ _ => ⟨?_, List.not_mem_nil⟩⟩
  · rw [hcallback]
    exact hsome
  · rw [hcallback]
    exact hsome

/-- The callback is called. -/
theorem OpenOk.call (h : OpenOk t calls l) {statuscode : ℤ} {disarm : Bool}
    (hcallback : l.callback.isSome = true) (honce : calledOnce l.flags = true → disarm = true)
    (halways : hasFlag l.flags smcpTransactionAlwaysInvalidate = true → disarm = false)
    (hstatus : statuscode ≠ smcpStatusTransactionInvalidated) :
    OpenOk t (calls ++ [statuscode])
      { l with callback := if disarm then none else l.callback } := by
  have hflags := h.flags_eq
  -- the flags of `h` stay; what is left is what the call does to the right to another one
  refine ⟨hflags, fun hsome hrule hflag => ?_, fun hsome hrule hflag => ?_⟩
  · right
    have hdisarm : disarm = true := by
      apply honce
      unfold calledOnce
      rw [hflags, hflag, hrule.1, hrule.2]
      rfl
    rw [hdisarm]
    refine ⟨?_, rfl⟩
    rcases h.once hsome hrule hflag with ⟨hnil, -⟩ | ⟨-, hnone⟩
    · rw [hnil]
      rfl
    · rw [hnone] at hcallback
      cases hcallback
  · have hdisarm : disarm = false := by
      apply halways
      rw [hflags]
      exact hflag
    obtain ⟨hsome', hnot⟩ := h.always hsome hrule hflag
    rw [hdisarm]
    refine ⟨hsome', ?_⟩
    rw [List.mem_append, not_or, List.mem_singleton]
    exact ⟨hnot, hstatus.symm⟩

/-- The transaction is deleted. -/
theorem OpenOk.callsOk (h : OpenOk t calls l) :
    t.CallsOk (calls ++ if l.callback.isSome then [smcpStatusTransactionInvalidated] else []) := by
  intro hsome hrule
  refine ⟨fun hflag => ?_, fun hflag => ?_⟩
  · rcases h.once hsome hrule hflag with ⟨hnil, hcallback⟩ | ⟨hlen, hnone⟩
    · rw [hnil, hcallback]
      rfl
    · rw [hnone]
      simpa using hlen
  · obtain ⟨hcallback, hnot⟩ := h.always hsome hrule hflag
    rw [hcallback]
    exact ⟨calls, rfl, hnot⟩

/-- Nothing that counts has happened. -/
theorem CallsInvariant.uncounted {c c' : Core} (h : CallsInvariant c) {es : List Event}
    (hes : ∀ e ∈ es, e.Uncounted) (hevents : c'.events = es ++ c.events)
    (hactive : c'.store.active = c.store.active)
    (hlife : ∀ x, (c'.life x).flags = (c.life x).flags ∧ (c'.life x).callback = (c.life x).callback) :
    CallsInvariant c' := by
  have hopen (x : TransactionPtr) : openCalls x c'.events = openCalls x c.events := by
    rw [hevents]
    exact openCalls_append hes x c.events
  refine ⟨fun x => ?_, fun x t calls hx => ?_, ?_⟩
  · rw [hactive, hopen]
    exact h.active x
  · rw [hopen] at hx
    exact (h.openOk x t calls hx).congr (hlife x).1 (hlife x).2
  · rw [hevents]
    exact (callsBack_append hes _).2 h.closed

theorem CallsInvariant.uncounted_one {c c' : Core} (h : CallsInvariant c) {e : Event}
    (hevents : c'.events = e :: c.events) (he : e.Uncounted) (hactive : c'.store.active = c.store.active)
    (hlife : c'.life = c.life) : CallsInvariant c' := by
  have hes : ∀ e' ∈ [e], e'.Uncounted := List.forall_mem_singleton.2 he
  apply h.uncounted hes hevents hactive
  rw [hlife]
  exact fun _ => ⟨rfl, rfl⟩

/-- The fields of the transactions change: no flag and no callback does. -/
theorem same_update {life : TransactionPtr → Life} (h : TransactionPtr) {l : Life}
    (hflags : l.flags = (life h).flags) (hcallback : l.callback = (life h).callback) :
    ∀ x, (Function.update life h l x).flags = (life x).flags ∧
      (Function.update life h l x).callback = (life x).callback := by
  intro x
  by_cases hx : x = h
  · subst hx
    rw [Function.update_self]
    exact ⟨hflags, hcallback⟩
  · rw [Function.update_of_ne hx]
    exact ⟨rfl, rfl⟩

/-- A call is added to the count of its transaction. -/
theorem CallsInvariant.called {c c' : Core} (hinv : CallsInvariant c) (h : TransactionPtr)
    (statuscode : ℤ) {l : Life} {es : List Event} (hes : ∀ e ∈ es, e.Uncounted)
    (hcall : ∀ t calls, OpenOk t calls (c.life h) → OpenOk t (calls ++ [statuscode]) l)
    (hevents : c'.events = .called h statuscode :: es ++ c.events) (hstore : c'.store = c.store)
    (hlife : c'.life = Function.update c.life h l) : CallsInvariant c' := by
  -- the count of the transaction goes up, and no other count changes
  have hopen (x : TransactionPtr) : openCalls x c'.events =
      if h = x then (openCalls x c.events).map fun y => (y.1, y.2 ++ [statuscode])
      else openCalls x c.events := by
    rw [hevents, List.cons_append, openCalls, openCalls_append hes]
  -- the store, the counts of the calls that are open, and the history so far
  refine ⟨fun x => ?_, fun x t calls hx => ?_, ?_⟩
  · rw [hstore, hopen, hinv.active]
    split_ifs
    · rw [Option.isSome_map]
    · rfl
  · rw [hopen] at hx
    rw [hlife]
    by_cases hxh : h = x
    · subst hxh
      rw [if_pos rfl, Option.map_eq_some_iff] at hx
      obtain ⟨⟨t', calls'⟩, hbefore, heq⟩ := hx
      obtain ⟨rfl, rfl⟩ := Prod.mk.inj heq
      rw [Function.update_self]
      exact hcall t' calls' (hinv.openOk h t' calls' hbefore)
    · rw [if_neg hxh] at hx
      rw [Function.update_of_ne (Ne.symm hxh)]
      exact hinv.openOk x t calls hx
  · rw [hevents]
    exact ⟨trivial, (callsBack_append hes _).2 hinv.closed⟩

theorem CallsInvariant.live {c : Core} (hinv : CallsInvariant c) {life : TransactionPtr → Life}
    {es : List Event} (hlife : LifeStep c.life c.events life es)
    (hstatus : ∀ e ∈ c.events, e.KeepsStatus) :
    CallsInvariant { c with life := life, events := es ++ c.events } := by
  have hsame : ∀ x, (c.life x).flags = (c.life x).flags ∧ (c.life x).callback = (c.life x).callback :=
    fun _ => ⟨rfl, rfl⟩
  cases hlife with
  | pass h => exact hinv.uncounted (by simp [Event.Uncounted]) rfl rfl (same_update h rfl rfl)
  | answer h waits => exact hinv.uncounted (by simp [Event.Uncounted]) rfl rfl (same_update h rfl rfl)
  | backOff h t now random random' n hpos hn =>
    exact hinv.uncounted (by simp [Event.Uncounted]) rfl rfl (same_update h rfl rfl)
  | restart h => exact hinv.uncounted (by simp [Event.Uncounted]) rfl rfl (same_update h rfl rfl)
  | call h statuscode disarm hcallback honce halways hnot =>
    have hne : statuscode ≠ smcpStatusTransactionInvalidated := by
      rcases hnot with hne | hreturned
      · exact hne
      · exact hstatus _ hreturned
    exact hinv.called h statuscode (List.forall_mem_nil _)
      (fun t calls hopen => hopen.call hcallback honce halways hne) rfl rfl rfl
  | deliver h i t ht hobserve hnew =>
    have hes : ∀ e ∈ [.delivered h i.observeValue, .notification h i.observeValue t],
        Event.Uncounted e := by simp [Event.Uncounted]
    refine hinv.called h i.responseStatus hes (fun t' calls hopen => ?_) rfl rfl rfl
    -- an observing transaction does not follow the rule
    have hflags : t.flags = t'.flags := (congrArg Life.flags ht).trans hopen.flags_eq
    have hnorule : ¬followsRule t'.flags := by
      rintro ⟨hnot, -⟩
      rw [← hflags, hobserve] at hnot
      cases hnot
    exact ⟨hopen.flags_eq, fun _ hrule => absurd hrule hnorule, fun _ hrule => absurd hrule hnorule⟩
  | acknowledge h tt => exact hinv.uncounted (by simp [Event.Uncounted]) rfl rfl (same_update h rfl rfl)
  | skip h i t ht hobserve hold => exact hinv.uncounted (by simp [Event.Uncounted]) rfl rfl hsame
  | timeOut h t now ht => exact hinv.uncounted (by simp [Event.Uncounted]) rfl rfl hsame
  | resend h t now hfired hcallback hleft hresend =>
    exact hinv.uncounted (by simp [Event.Uncounted]) rfl rfl hsame
  | resendReturn h status => exact hinv.uncounted (by simp [Event.Uncounted]) rfl rfl hsame

/-- A transaction begins, and replaces none. -/
theorem CallsInvariant.start {c : Core} (hinv : CallsInvariant c) (h : TransactionPtr) (r : ℕ)
    (t : Transaction) (ht : t.life = c.life h)
    (hnone : (c.store.start h (drawnId c.lastMsgId r)).2 = none) :
    CallsInvariant
      { store := (c.store.start h (drawnId c.lastMsgId r)).1
        lastMsgId := drawnId c.lastMsgId r
        life := Function.update c.life h (c.life h).fresh
        events := replacedEvents c.life h (c.store.start h (drawnId c.lastMsgId r)).2 ++
          .drew (.beginning h) (c.store.btRemove (c.store.msgId h)).1 c.lastMsgId r
            (drawnId c.lastMsgId r) :: .begun h c.store :: .began h (c.store.active h) t ::
            c.events } := by
  -- `h` becomes active with its new identity, and nobody else does
  have hactive : (c.store.start h (drawnId c.lastMsgId r)).1.active =
      Function.update c.store.active h true := active_insertOver hnone
  rw [hnone]
  generalize (c.store.start h (drawnId c.lastMsgId r)).1 = st at hactive
  -- a transaction that was active goes on with the calls it has had
  have hopen (x : TransactionPtr) : openCalls x (.drew (.beginning h)
      (c.store.btRemove (c.store.msgId h)).1 c.lastMsgId r (drawnId c.lastMsgId r) ::
        .begun h c.store :: .began h (c.store.active h) t :: c.events) =
      if h = x ∧ c.store.active h = false then some (t, []) else openCalls x c.events := rfl
  have hlife := same_update h (c.life h).fresh_flags (c.life h).fresh_callback
  refine ⟨fun x => ?_, fun x t' calls hx => ?_, trivial, trivial, trivial, hinv.closed⟩
  · show st.active x = (openCalls x (.drew _ _ _ _ _ :: _)).isSome
    rw [hactive, hopen]
    by_cases hxh : x = h
    · subst hxh
      rw [Function.update_self]
      split_ifs with hnew
      · rfl
      · have hbefore : c.store.active x = true := by
          rw [← Bool.not_eq_false]
          exact fun hfalse => hnew ⟨rfl, hfalse⟩
        rw [← hinv.active, hbefore]
    · rw [Function.update_of_ne hxh, if_neg fun hand => hxh hand.1.symm]
      exact hinv.active x
  · have hx : openCalls x (.drew (.beginning h) (c.store.btRemove (c.store.msgId h)).1 c.lastMsgId r
      (drawnId c.lastMsgId r) :: .begun h c.store :: .began h (c.store.active h) t :: c.events) =
        some (t', calls) := hx
    rw [hopen] at hx
    split_ifs at hx with hnew
    · obtain ⟨rfl, rfl⟩ := Prod.mk.inj (Option.some.inj hx)
      obtain ⟨rfl, -⟩ := hnew
      refine openOk_began ?_ ?_
      · exact (hlife h).1.trans (congrArg Life.flags ht).symm
      · exact (hlife h).2.trans (congrArg Life.callback ht).symm
    · exact (hinv.openOk x t' calls hx).congr (hlife x).1 (hlife x).2

/-- An active transaction ends, and is the one that is taken out. -/
theorem CallsInvariant.finish {c : Core} (hinv : CallsInvariant c) (h : TransactionPtr)
    (ha : c.store.active h = true)
    (hfound : ((c.store.setActive h false).btRemove (c.store.msgId h)).2 = some h) :
    CallsInvariant
      { c with
        store := c.store.finish h
        events := endedEvents c.life h
          ((c.store.setActive h false).btRemove (c.store.msgId h)).2 ++ c.events } := by
  have hactive : (c.store.finish h).active = Function.update c.store.active h false := by
    unfold TransactionStore.finish
    rw [if_pos ha]
    dsimp only
    rw [hfound]
    exact Function.update_idem _ _ _
  -- the one that is taken out is `h` itself
  rw [hfound]
  -- nothing is counted for `h` any more
  have hopen (x : TransactionPtr) :
      openCalls x (.deleted h (c.life h).callback.isSome :: .ended h (some h) :: c.events) =
        if h = x then none else openCalls x c.events := by
    rw [openCalls, openCalls]
    by_cases hxh : h = x
    · rw [if_pos hxh, if_pos hxh]
    · rw [if_neg hxh, if_neg hxh, if_neg fun hand => hxh hand.1]
  refine ⟨fun x => ?_, fun x t calls hx => ?_, fun t calls hx => ?_, fun hne => absurd rfl hne,
    hinv.closed⟩
  · show (c.store.finish h).active x = (openCalls x (.deleted h _ :: _)).isSome
    rw [hactive]
    refine Eq.trans ?_ (congrArg Option.isSome (hopen x)).symm
    by_cases hxh : x = h
    · subst hxh
      rw [Function.update_self, if_pos rfl]
      rfl
    · rw [Function.update_of_ne hxh, if_neg (Ne.symm hxh)]
      exact hinv.active x
  · have hx : (if h = x then none else openCalls x c.events) = some (t, calls) :=
      (hopen x).symm.trans hx
    split_ifs at hx with hxh
    exact hinv.openOk x t calls hx
  · have hended : openCalls h (.ended h (some h) :: c.events) = openCalls h c.events := by
      rw [openCalls, if_neg fun hand => hand.2 rfl]
    exact (hinv.openOk h t calls (hended.symm.trans hx)).callsOk

theorem CallsInvariant.step {c c' : Core} (hstep : Step c c') (hok : StoreOk c.store)
    (hinv : CallsInvariant c) (hgood : ∀ e ∈ c'.events, e.KeepsStore ∧ e.KeepsStatus) :
    CallsInvariant c' := by
  have hsame : ∀ x, (c.life x).flags = (c.life x).flags ∧ (c.life x).callback = (c.life x).callback :=
    fun _ => ⟨rfl, rfl⟩
  -- one case for each step that the store or a transaction can make
  cases hstep with
  | init h t hfresh hcallback =>
    have hinactive : c.store.active h = false :=
      (hgood (.initialized h c.store) List.mem_cons_self).1
    have hopen (x : TransactionPtr) : openCalls x (.initialized h c.store :: c.events) =
        openCalls x c.events := by
      rw [openCalls]
      split_ifs with hx
      · subst hx
        rw [hinv.active] at hinactive
        exact (Option.not_isSome_iff_eq_none.1 (by simp [hinactive])).symm
      · rfl
    refine ⟨fun x => ?_, fun x t' calls hx => ?_, trivial, hinv.closed⟩
    · rw [hopen]
      show Function.update c.store.active h false x = _
      rw [← hinactive, Function.update_eq_self]
      exact hinv.active x
    · rw [hopen] at hx
      have hne : x ≠ h := by
        rintro rfl
        rw [hinv.active, hx] at hinactive
        cases hinactive
      show OpenOk t' calls (Function.update c.life h t x)
      rw [Function.update_of_ne hne]
      exact hinv.openOk x t' calls hx
  | start h r t ht =>
    have hbegun := (hgood (.begun h c.store) (by simp)).1
    have hdrew := (hgood (.drew (.beginning h) (c.store.btRemove (c.store.msgId h)).1 c.lastMsgId r
      (drawnId c.lastMsgId r)) (by simp)).1
    exact hinv.start h r t ht (hok.start _ hbegun hdrew).2
  | redraw h r =>
    have hdrew := (hgood (.drew (.renewing h) c.store c.lastMsgId r (drawnId c.lastMsgId r))
      (by simp)).1
    have hnone := (hok.rename (drawnId c.lastMsgId r) hdrew).2
    rw [hnone]
    exact hinv.uncounted_one rfl trivial (active_rename hnone) rfl
  | rename h msgId =>
    have hnone := (hok.rename msgId (hgood (.renamed h msgId c.store c.lastMsgId) (by simp)).1).2
    rw [hnone]
    exact hinv.uncounted_one rfl trivial (active_rename hnone) rfl
  | draw r => exact hinv.uncounted_one rfl trivial rfl rfl
  | finish h hactive => exact hinv.finish h hactive (hok.btRemove_self hactive)
  | respond i i' transaction hpacket hsaddr =>
    refine hinv.uncounted ?_ rfl rfl hsame
    unfold responseEvents
    split <;> simp [Event.Uncounted]
  | free h => exact hinv.uncounted_one rfl trivial rfl rfl
  | live life es hlife =>
    exact hinv.live hlife fun e he => (hgood e (List.mem_append_right _ he)).2

end

/-! ## Runs -/

/-- The life cycle of the callback in every run. -/
theorem reachable_callbacks {s : Instance} (hreach : Reachable s)
    (hsafe : ∀ e ∈ s.events, e.KeepsStore) (hstatus : ∀ e ∈ s.events, e.KeepsStatus) :
    (∀ h, s.store.active h = (openCalls h s.events).isSome) ∧
      ∀ e earlier, e :: earlier <:+ s.events → e.CallsBack earlier := by
  obtain ⟨now, random, sendResult, hsteps⟩ := hreach.steps
  have hinit : CallsInvariant (smcpCreate now random sendResult).core :=
    ⟨fun _ => rfl, fun _ _ _ hx => absurd hx.symm (Option.some_ne_none _), trivial⟩
  have hboth := hsteps.invariant (fun c => StoreOk c.store ∧ CallsInvariant c)
    (fun _ _ hstep hinv hgood => ⟨hinv.1.step hstep fun e he => (hgood e he).1,
      hinv.2.step hstep hinv.1 hgood⟩)
    ⟨storeOk_create now random sendResult, hinit⟩ fun e he => ⟨hsafe e he, hstatus e he⟩
  exact ⟨hboth.2.active, (along_iff _).1 hboth.2.closed⟩

/-- A transaction begins, and the application ends it. -/
def endedRun : Instance := idleRun (fun _ => 5) (launch 0 ++ [.transactionEnd 0])

theorem reachable_callbacks_ended :
    (∀ e earlier, e :: earlier <:+ endedRun.events → e.CallsBack earlier) ∧
      endedRun.store.active (.user 0) = false := by
  refine ⟨(reachable_callbacks (reachable_idleRun _ _) ?_ ?_).2, by decide⟩
  · change ∀ e ∈ [_, _, _, _, _, _], Event.KeepsStore e
    simp only [List.forall_mem_cons]
    refine ⟨trivial, trivial, ?_, ?_, trivial, rfl, List.forall_mem_nil _⟩
    -- no other transaction is active
    all_goals
      rintro (⟨_ | n⟩ | i) hne ha
      · exact absurd rfl hne
      · cases ha
      · cases ha
  · change ∀ e ∈ [_, _, _, _, _, _], Event.KeepsStatus e
    simp only [List.forall_mem_cons]
    exact ⟨trivial, trivial, trivial, trivial, trivial, trivial, List.forall_mem_nil _⟩

/-- Two transactions with the id 0: the end of the first one deletes the second one, and the callback
of the first one is never called. -/
theorem callbacks_missed : ¬∀ s, Reachable s →
    ∀ e earlier, e :: earlier <:+ s.events → e.CallsBack earlier := by
  intro hall
  have hended := hall (idleRun (fun _ => 57111) (launch 0 ++ launch 1 ++ [.transactionEnd 0]))
    (reachable_idleRun _ _) (.ended (.user 0) (some (.user 1)))
    (idleRun (fun _ => 57111) (launch 0 ++ launch 1)).events (List.suffix_cons _ _) (by decide)
  obtain ⟨t, hopen, hsome, hflags⟩ : ∃ t, openCalls (.user 0)
      (idleRun (fun _ => 57111) (launch 0 ++ launch 1)).events = some (t, []) ∧
        t.callback.isSome = true ∧ t.flags = 0 := ⟨_, rfl, rfl, rfl⟩
  have hcalls := (hended t [] hopen hsome ⟨by rw [hflags]; decide, by rw [hflags]; decide⟩).1
    (by rw [hflags]; decide)
  cases hcalls

end Smcp
