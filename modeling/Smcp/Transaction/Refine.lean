import Smcp.World

/-!
# The code takes the steps of the machine

Every function of the library, called with an application that does nothing but call the library,
changes store, generator and history by a run of the machine of `Smcp.Transaction.Core`.

`Same s s'` is for functions that do not touch any of it; `Evolves s s'` for the others.
-/

namespace Smcp

open ByteMemory

/-! ## Relations between states -/

/-- Nothing that outlives a message is different. -/
structure Same (s s' : Instance) : Prop where
  world : s'.world = s.world

/-- The timers of transactions are never cancelled by a callback. -/
def TimerList.NoCancel (l : TimerList) : Prop := ∀ h, (l.timer (.ofTransaction h)).cancel = none

/-- What the library relies on: the timers of transactions have no cancel callback, and the
transactions of observers no callback of the application. -/
def CallbacksOk (s : Instance) : Prop :=
  s.timers.NoCancel ∧ ∀ h, CallbackFits h (s.core.life h).callback

/-- Only the timers have changed. -/
structure Quiet (s s' : Instance) : Prop where
  timers : Relation.ReflTransGen TimerStep s.timerState s'.timerState
  world : s'.world = { s.world with timers := s'.timerState }

/-- From `s` to `s'` the machines have taken steps. -/
def Evolves (s s' : Instance) : Prop := CallbacksOk s → Acts s.world s'.world

section
variable {s s' s'' : Instance}

theorem Same.refl (s : Instance) : Same s s := ⟨rfl⟩

theorem Same.trans (h : Same s s') (h' : Same s' s'') : Same s s'' := ⟨h'.world.trans h.world⟩

/-- Other fields of a transaction than those of its life. -/
theorem same_setTransaction (s : Instance) (h : TransactionPtr) {f : Transaction → Transaction}
    (hf : ∀ t, (f t).life = t.life) : Same s (s.setTransaction h f) := by
  have hlife : (fun h' => ((s.setTransaction h f).transaction h').life) =
      fun h' => (s.transaction h').life := by
    funext h'
    by_cases heq : h' = h
    · subst heq
      simp only [Instance.setTransaction, Function.update_self, hf]
    · simp only [Instance.setTransaction, Function.update_of_ne heq]
  refine ⟨?_⟩
  unfold Instance.world Instance.core
  rw [hlife]
  rfl

/-- What changes nothing is quiet. -/
theorem Same.quiet (h : Same s s') : Quiet s s' := by
  have htimers : s'.timerState = s.timerState := congrArg World.timers h.world
  refine ⟨?_, ?_⟩
  · rw [htimers]
  · rw [h.world, htimers]
    rfl

/-- One quiet change after another. -/
theorem Quiet.trans (h : Quiet s s') (h' : Quiet s' s'') : Quiet s s'' :=
  ⟨h.timers.trans h'.timers, by rw [h'.world, h.world]⟩

/-- What the timers do is something that the world does. -/
theorem acts_timers {w : World} {l : TimerState} (h : Relation.ReflTransGen TimerStep w.timers l) :
    Acts w { w with timers := l } := by
  induction h with
  | refl => exact .refl
  | tail _ hstep ih => exact ih.tail (.timers _ _ hstep)

/-- A quiet change moves timers at most. -/
theorem Quiet.acts (h : Quiet s s') : Acts s.world s'.world := by
  rw [h.world]
  exact acts_timers h.timers

/-- It does so from every state, whatever the callbacks are. -/
theorem Quiet.evolves (h : Quiet s s') : Evolves s s' := fun _ => h.acts

theorem Same.evolves (h : Same s s') : Evolves s s' := h.quiet.evolves

theorem Evolves.refl (s : Instance) : Evolves s s := fun _ => .refl

end

/-! ## Cancel callbacks -/

/-- The cancel callbacks are the same. -/
def SameCancel (l l' : TimerList) : Prop := ∀ t, (l'.timer t).cancel = (l.timer t).cancel

section
variable {l l' l'' : TimerList}

/-- One change after another. -/
theorem SameCancel.trans (h : SameCancel l l') (h' : SameCancel l' l'') : SameCancel l l'' :=
  fun t => (h' t).trans (h t)

/-- A timer that keeps its cancel callback. -/
theorem SameCancel.modify (l : TimerList) (t : TimerPtr) (f : Timer → Timer)
    (hf : ∀ x, (f x).cancel = x.cancel) : SameCancel l (l.modify t f) := by
  intro u
  by_cases hu : u = t
  · simp [TimerList.modify, hu, hf]
  · simp [TimerList.modify, hu]

/-- The links of a timer have nothing to do with its callbacks. -/
theorem SameCancel.setNext (l : TimerList) (item v : Option TimerPtr) :
    SameCancel l (l.setNext item v) := by
  cases item with
  | none => exact fun _ => rfl
  | some t => exact .modify l t (fun x => { x with next := v }) fun _ => rfl

theorem SameCancel.setPrev (l : TimerList) (item v : Option TimerPtr) :
    SameCancel l (l.setPrev item v) := by
  cases item with
  | none => exact fun _ => rfl
  | some t => exact .modify l t (fun x => { x with prev := v }) fun _ => rfl

/-- Four links are set. -/
theorem SameCancel.insertAfter (l : TimerList) (location item : TimerPtr) :
    SameCancel l (l.insertAfter location item) := by
  unfold TimerList.insertAfter
  refine SameCancel.trans (SameCancel.trans (SameCancel.trans ?_ (.setNext _ _ _)) (.setPrev _ _ _))
    (.setNext _ _ _)
  exact .setPrev l _ _

theorem SameCancel.insert (l : TimerList) (location item : TimerPtr) :
    SameCancel l (l.insert location item) := by
  unfold TimerList.insert
  refine SameCancel.trans (SameCancel.trans (SameCancel.trans ?_ (.setPrev _ _ _)) (.setPrev _ _ _))
    (.setNext _ _ _)
  exact .setNext l _ _

/-- The new head of the list keeps its callbacks, as do the others. -/
theorem SameCancel.prepend (l : TimerList) (item : TimerPtr) : SameCancel l (l.prepend item) := by
  unfold TimerList.prepend
  dsimp only
  split
  · exact fun _ => rfl
  · exact (SameCancel.insert l _ _).trans fun _ => rfl

/-- Wherever the timer is put, only links are set. -/
theorem SameCancel.sortedInsertFrom {item location : TimerPtr} {fuel : ℕ}
    (h : TimerList.sortedInsertFrom item fuel l location = some l') : SameCancel l l' := by
  induction fuel generalizing location with
  | zero => simp [TimerList.sortedInsertFrom] at h
  | succ fuel ih =>
    rw [TimerList.sortedInsertFrom] at h
    split_ifs at h
    · split at h
      · exact ih h
      · exact Option.some.inj h ▸ .insertAfter l _ _
    · exact Option.some.inj h ▸ .prepend l _
    · exact Option.some.inj h ▸ .insert l _ _

/-- So it is from the head of the list on. -/
theorem SameCancel.sortedInsert {item : TimerPtr} (h : l.sortedInsert item = some l') :
    SameCancel l l' := by
  unfold TimerList.sortedInsert at h
  split at h
  · exact .sortedInsertFrom h
  · exact Option.some.inj h ▸ fun _ => rfl

/-- The links around the timer are joined, and its own are cleared. -/
theorem SameCancel.remove (l : TimerList) (item : TimerPtr) : SameCancel l (l.remove item) := by
  have h := (SameCancel.setNext l (l.timer item).prev (l.timer item).next).trans
    (.setPrev _ ((l.setNext (l.timer item).prev (l.timer item).next).timer item).next
      ((l.setNext (l.timer item).prev (l.timer item).next).timer item).prev)
  unfold TimerList.remove
  dsimp only
  split_ifs
  · exact h.trans fun _ => rfl
  · exact h

end

/-- The timer is taken out of the list, if it is in it. -/
theorem SameCancel.unlink (l : TimerList) (timer : TimerPtr) : SameCancel l (l.unlink timer) :=
  (SameCancel.remove l timer).trans
    (.modify _ timer (fun t => { t with next := none, prev := none }) fun _ => rfl)

/-- No step of the timers gives a transaction a cancel callback. -/
theorem TimerStep.noCancel {l l' : TimerState} (h : TimerStep l l') (hl : l.list.NoCancel) :
    l'.list.NoCancel := by
  have hsame {m : TimerList} (hm : SameCancel l.list m) : m.NoCancel := fun h => (hm _).trans (hl h)
  have hset (timer : TimerPtr) (f : Timer → Timer)
      (hf : ∀ h, timer = .ofTransaction h → (f (l.list.timer timer)).cancel = none) :
      (l.list.modify timer f).NoCancel := by
    intro h
    by_cases heq : TimerPtr.ofTransaction h = timer
    · simpa [TimerList.modify, heq] using hf h heq.symm
    · simpa [TimerList.modify, heq] using hl h
  cases h with
  | schedule timer fireDate list hfree hinsert =>
    have hdate : SameCancel l.list (l.list.setFireDate timer fireDate) := .modify _ _ _ fun _ => rfl
    have hinserted : SameCancel (l.list.setFireDate timer fireDate) list := .sortedInsert hinsert
    exact hsame (m := { list with scheduled := list.scheduled + 1 }) (hdate.trans hinserted)
  | hang timer fireDate hfree hinsert =>
    have hdate : SameCancel l.list (l.list.setFireDate timer fireDate) := .modify _ _ _ fun _ => rfl
    exact hsame hdate
  | invalidate timer => exact hsame (.unlink _ timer)
  | clear timer x hnext hprev hcancel => exact hset timer (fun _ => x) hcancel
  | uncancel timer => exact hset timer (fun t => { t with cancel := none }) fun _ _ => rfl
  | fire timer now hhead hdue =>
    have huncancelled := hset timer (fun t => { t with cancel := none }) fun _ _ => rfl
    exact fun h => (SameCancel.unlink _ timer _).trans (huncancelled h)

/-- No step of the world gives a timer a cancel callback. -/
theorem Acts.noCancel {w w' : World} (h : Acts w w') (hw : w.timers.list.NoCancel) :
    w'.timers.list.NoCancel := by
  have hsteps := h.timers
  generalize w'.timers = l at hsteps ⊢
  induction hsteps with
  | refl => exact hw
  | tail _ hstep ih => exact hstep.noCancel ih

/-- A transaction of an observer keeps the callback of the observer, by any step. -/
theorem Acts.callbackFits {w w' : World} (h : Acts w w')
    (hw : ∀ h, CallbackFits h (w.core.life h).callback) :
    ∀ h, CallbackFits h (w'.core.life h).callback := by
  have hsteps := h.core
  generalize w'.core = c at hsteps ⊢
  induction hsteps with
  | refl => exact hw
  | tail _ hstep ih => exact hstep.callbackFits ih

section
variable {s s' s'' : Instance}

/-- Both facts about callbacks are kept by the world. -/
theorem Acts.callbacksOk (h : Acts s.world s'.world) (hs : CallbacksOk s) : CallbacksOk s' :=
  ⟨h.noCancel hs.1, h.callbackFits hs.2⟩

/-- The same of an instance. -/
theorem Evolves.callbacksOk (h : Evolves s s') (hs : CallbacksOk s) : CallbacksOk s' :=
  (h hs).callbacksOk hs

/-- One after the other: the first one keeps what the second one starts from. -/
theorem Evolves.trans (h : Evolves s s') (h' : Evolves s' s'') : Evolves s s'' :=
  fun hs => (h hs).trans (h' (h.callbacksOk hs))

/-- `s` may be replaced by a state that differs elsewhere only. -/
theorem Evolves.of_same (h : Evolves s' s'') (hs : Same s s') : Evolves s s'' := hs.evolves.trans h

end

/-! ## Composing messages -/

section
variable (s : Instance)

/-- The token is stored in `outbound`. -/
theorem same_setToken (token : List UInt8) : Same s (smcpOutboundSetToken s token).1 := by
  unfold smcpOutboundSetToken
  split_ifs <;> exact ⟨rfl⟩

/-- The address is stored in `outbound`. -/
theorem same_setDestaddr (sockaddr : SockAddr) : Same s (smcpOutboundSetDestaddr s sockaddr) := by
  have hsaddr : Same s { s with outbound.saddr := sockaddr } := ⟨rfl⟩
  unfold smcpOutboundSetDestaddr
  dsimp only
  split
  · exact hsaddr.trans (same_setTransaction _ _ fun _ => rfl)
  · exact hsaddr

/-- The header of the response is begun in `outbound`. -/
theorem same_startResponse (code : ℕ) : Same s (startResponse s code) := by
  unfold startResponse
  split_ifs <;> exact ⟨rfl⟩

/-- Beginning a response sets flags of the instance, and `outbound`. -/
theorem same_beginResponse (code : ℕ) : Same s (smcpOutboundBeginResponse s code).1 := by
  have h := same_startResponse s code
  unfold smcpOutboundBeginResponse
  split_ifs
  · exact ⟨rfl⟩
  · exact ⟨rfl⟩
  · refine Same.trans ?_ (same_setDestaddr _ _)
    exact h.trans ⟨rfl⟩
  · exact h

/-- The current transaction notes the code, and none of its callbacks. -/
theorem same_noteSentCode : Same s (noteSentCode s) := by
  unfold noteSentCode
  split
  · exact same_setTransaction s _ fun _ => rfl
  · exact Same.refl s

/-- The hook in front of the send looks at the current transaction. -/
theorem same_sendHook : Same s (smcpOutboundSendHook s).1 := by
  unfold smcpOutboundSendHook
  dsimp only
  split_ifs <;> exact ⟨rfl⟩

/-- A send consumes a result of the socket and adds to what was sent. -/
theorem same_send : Same s (smcpOutboundSend s).1 := by
  have h := (same_noteSentCode s).trans (same_sendHook (noteSentCode s))
  unfold smcpOutboundSend
  dsimp only
  split_ifs
  · exact h
  · exact h.trans ⟨rfl⟩

/-- The content goes to `outbound`, behind the options that are due. -/
theorem same_appendContent (value : List UInt8) : Same s (smcpOutboundAppendContent s value).1 :=
  ⟨rfl⟩

theorem same_setVarContentInt (v : ℤ) : Same s (smcpOutboundSetVarContentInt s v).1 := ⟨rfl⟩

/-- A response is begun, filled and sent. -/
theorem same_quickResponse (code : ℕ) (body : Option (List UInt8)) :
    Same s (smcpOutboundQuickResponse s code body).1 := by
  have h := same_beginResponse s code
  unfold smcpOutboundQuickResponse
  dsimp only
  split
  · exact (h.trans (same_appendContent _ _)).trans (same_send _)
  · exact h.trans (same_send _)

/-- The request is copied, and acknowledged unless it was a duplicate. -/
theorem same_startAsyncResponse (x : AsyncResponse) (dontAck : Bool) :
    Same s (smcpStartAsyncResponse s x dontAck).state := by
  have hbegin := same_beginResponse s coapCodeEmpty
  have hsend := hbegin.trans (same_send _)
  unfold smcpStartAsyncResponse
  dsimp only
  split_ifs
  · exact same_quickResponse s _ _
  · exact Same.refl s
  · exact hbegin
  · exact hsend
  · exact hsend
  · exact hsend
  · exact Same.refl s
  · exact Same.refl s

/-- The copied request is put back into `inbound`. -/
theorem same_beginAsyncResponse (code : ℕ) (x : AsyncResponse) :
    Same s (smcpOutboundBeginAsyncResponse s code x).1 := by
  unfold smcpOutboundBeginAsyncResponse
  dsimp only
  set s1 : Instance := { s with inbound := _, isProcessingMessage := true, didRespond := false }
    with hs1
  have h1 : Same s (smcpOutboundBeginResponse s1 code).1 := by
    refine Same.trans ?_ (same_beginResponse s1 code)
    exact ⟨rfl⟩
  split
  · exact h1.trans ⟨rfl⟩
  · have h2 (msgId tt : ℕ) (token : List UInt8) : Same s (smcpOutboundSetToken (smcpOutboundSetTt
        (smcpOutboundSetMsgId (smcpOutboundBeginResponse s1 code).1 msgId) tt) token).1 := by
      refine Same.trans ?_ (same_setToken _ _)
      exact h1.trans ⟨rfl⟩
    split_ifs
    · exact h2 _ _ _
    · exact (h2 _ _ _).trans (same_setDestaddr _ _)

/-! ## Requests -/

theorem same_authInboundInit : Same s (smcpAuthInboundInit s) := by
  unfold smcpAuthInboundInit
  split_ifs <;> exact ⟨rfl⟩

/-- Looking for a virtual host moves the option pointer of `inbound`. -/
theorem same_vhostRoute (func : Option ℕ) : Same s (smcpVhostRoute s func).1 := by
  unfold smcpVhostRoute
  dsimp only
  split_ifs
  · exact Same.refl s
  · exact ⟨rfl⟩
  · split <;> exact ⟨rfl⟩

/-! ## Packets -/

/-- A new packet sets `inbound` and the flags of the instance. -/
theorem same_startPacket (buffer : ℕ → UInt8) (n : ℕ) :
    Same s (smcpInboundStartPacket s buffer n).1 := by
  unfold smcpInboundStartPacket
  split_ifs <;> exact ⟨rfl⟩

/-- The source goes to `inbound`. -/
theorem same_setSrcaddr (sockaddr : SockAddr) : Same s (smcpInboundSetSrcaddr s sockaddr).1 := by
  unfold smcpInboundSetSrcaddr
  split_ifs <;> exact ⟨rfl⟩

/-- The destination does, too. -/
theorem same_inboundSetDestaddr (sockaddr : SockAddr) :
    Same s (smcpInboundSetDestaddr s sockaddr).1 := by
  unfold smcpInboundSetDestaddr
  split_ifs <;> exact ⟨rfl⟩

/-- Preparing a packet reads its options and looks it up in the table of duplicates. -/
theorem evolves_preparePacket : Evolves s (preparePacket s) := by
  have hcheck : Evolves s (smcpInboundDupeCheck s).1 := by
    unfold smcpInboundDupeCheck
    split_ifs with hknown
    · exact fun _ => .single (.dupes s.world _ (.known s.dupeState s.inbound hknown))
    · exact fun _ => .single
        (.dupes s.world _ (.fresh s.dupeState s.inbound (Bool.eq_false_iff.2 hknown)))
  have hscan (u : Instance) : Same u { u with inbound := u.inbound.scan.1 } := ⟨rfl⟩
  unfold preparePacket
  refine Evolves.trans ?_ (hscan _).evolves
  split_ifs
  · exact Evolves.refl s
  · exact hcheck.trans (Same.evolves ⟨rfl⟩)

/-- The automatic reply to a request is composed and sent. -/
theorem same_replyToRequest (code : ℕ) (ret : ℤ) : Same s (replyToRequest code s ret).1 := by
  have h (code : ℕ) : Same s (smcpOutboundBeginResponse (smcpOutboundReset s) code).1 := by
    refine Same.trans ?_ (same_beginResponse _ code)
    exact ⟨rfl⟩
  have hvar (code : ℕ) (v : ℤ) := (h code).trans (same_setVarContentInt _ v)
  unfold replyToRequest
  refine Same.trans ?_ (same_send _)
  split_ifs
  · exact hvar _ _
  · exact hvar _ _
  · exact h _

/-- So is that to a response. -/
theorem same_replyToResult (ret : ℤ) : Same s (replyToResult s ret).1 := by
  have h : Same s (smcpOutboundBeginResponse (smcpOutboundReset s) 0).1 := by
    refine Same.trans ?_ (same_beginResponse _ 0)
    exact ⟨rfl⟩
  have htt (tt : ℕ) : Same s (smcpOutboundSetToken (smcpOutboundSetTt
      (smcpOutboundBeginResponse (smcpOutboundReset s) 0).1 tt) []).1 := by
    refine Same.trans ?_ (same_setToken _ _)
    exact h.trans ⟨rfl⟩
  exact (htt _).trans (same_send _)

/-- Whichever of them it is, if there is one. -/
theorem same_automaticReply (packet : ℕ → UInt8) (ret : ℤ) :
    Same s (automaticReply packet s ret).1 := by
  unfold automaticReply
  split_ifs
  · exact same_replyToRequest s _ ret
  · exact same_replyToResult s ret
  · exact Same.refl s

end

/-! ## Timers -/

section
variable (s : Instance)

/-- The timer is put in its place in the list. -/
theorem quiet_scheduleTimer (timer : TimerPtr) (cms : ℤ) :
    Quiet s (smcpScheduleTimer s timer cms).1 := by
  unfold smcpScheduleTimer
  by_cases hsched : smcpTimerIsScheduled s timer = true
  · rw [if_pos hsched]
    exact (Same.refl s).quiet
  · rw [if_neg hsched]
    have hfree : s.timerState.list.isLinked timer = false := Bool.eq_false_iff.2 hsched
    dsimp only
    cases hinsert : (s.timers.modify timer fun t =>
        { t with fireDate := convertCmsToTimeval s.now (if cms < 0 then 0 else cms) }).sortedInsert
          timer with
    | some l => exact ⟨.single (.schedule s.timerState timer _ l hfree hinsert), rfl⟩
    | none => exact ⟨.single (.hang s.timerState timer _ hfree hinsert), rfl⟩

/-- A timer loses its cancel callback. -/
theorem quiet_uncancel (timer : TimerPtr) :
    Quiet s { s with timers := s.timers.modify timer fun t => { t with cancel := none } } :=
  ⟨.single (.uncancel s.timerState timer), rfl⟩

/-- A timer is set up; that of a transaction has no cancel callback. -/
theorem quiet_timerInit (timer : TimerPtr) (callback : TimerFunc) (cancel : Option ℕ)
    (hcancel : ∀ h, timer = .ofTransaction h → cancel = none) :
    Quiet s (smcpTimerInit s timer callback cancel) :=
  ⟨.single (.clear s.timerState timer { callback := some callback, cancel := cancel } rfl rfl
    hcancel), rfl⟩

/-- The delay takes random numbers. -/
theorem same_delayStart (flags range : ℕ) : Same s (delayStart s flags range).1 := by
  unfold delayStart
  split_ifs <;> exact ⟨rfl⟩

variable {s} {hooks : Hooks}

/-- Taking a timer out of the list, before anybody is told. -/
theorem quiet_unlink (timer : TimerPtr) :
    Quiet s (({ s with timers := s.timers.unlink timer }).logTimer (.invalidated timer)) :=
  ⟨.single (.invalidate s.timerState timer), rfl⟩

/-- Invalidating the timer of a transaction calls nothing. -/
theorem quiet_invalidate (hs : s.timers.NoCancel) (h : TransactionPtr) :
    Quiet s (smcpInvalidateTimer hooks s (.ofTransaction h)) := by
  have hsame := SameCancel.unlink s.timers (.ofTransaction h)
  unfold TimerList.unlink at hsame
  unfold smcpInvalidateTimer
  dsimp only
  rw [hsame, hs h]
  exact quiet_unlink (.ofTransaction h)

/-- The timers of transactions have no cancel callback, so that nobody is called. -/
theorem quiet_invalidateTimer (hs : CallbacksOk s) (h : TransactionPtr) :
    Quiet s (smcpInvalidateTimer hooks s (.ofTransaction h)) :=
  quiet_invalidate hs.1 h

/-- Other timers may have one, and then it acts. -/
theorem evolves_invalidateTimer (hhooks : ∀ c u, Evolves u (hooks c u).1) (timer : TimerPtr) :
    Evolves s (smcpInvalidateTimer hooks s timer) := by
  have hquiet : Quiet s _ := quiet_unlink timer
  unfold smcpInvalidateTimer
  dsimp only
  split
  · exact hquiet.evolves.trans (hhooks _ _)
  · exact hquiet.evolves

/-! ## Ids and insertions -/

/-- A draw: what it gives and what it does. -/
theorem getNextMsgId_world (s : Instance) (purpose : DrawPurpose) :
    ∃ r, (smcpGetNextMsgId s purpose).2 = drawnId s.lastMsgId r ∧
      (smcpGetNextMsgId s purpose).1.world =
        { s.world with
          core :=
            { s.core with
              lastMsgId := drawnId s.lastMsgId r
              events := .drew purpose s.store s.lastMsgId r (drawnId s.lastMsgId r) ::
                s.events } } := by
  refine ⟨s.randomUint32.2, ?_⟩
  unfold smcpGetNextMsgId drawnId
  dsimp only
  split_ifs <;> exact ⟨rfl, rfl⟩

/-- The machine with one transaction made inactive. -/
def Core.delete (c : Core) (h : TransactionPtr) : Core :=
  { c with
    store := c.store.setActive h false
    events := .deleted h (c.life h).callback.isSome :: c.events }

/-- The end of `smcp_internal_delete_transaction_`: the application is told, and the object may be
given back. -/
theorem evolves_deleted (hhooks : ∀ c u, Evolves u (hooks c u).1) (s : Instance)
    (h : TransactionPtr) :
    Evolves s
      (let s := match (s.transaction h).callback with
        | some (.user callback) =>
          (hooks (.response callback smcpStatusTransactionInvalidated) s).1
        | _ => s
      if (s.transaction h).shouldDealloc then s.log (.freed h) else s) := by
  have hfree (u : Instance) : Evolves u (if (u.transaction h).shouldDealloc then u.log (.freed h)
      else u) := by
    split_ifs
    · exact fun _ => .single (.core u.world _ (.free u.core h) fun _ => .inl)
    · exact Evolves.refl u
  refine Evolves.trans ?_ (hfree _)
  split
  · exact hhooks _ _
  · exact Evolves.refl s

/-- Deleting a transaction: it is made inactive, then the application may act. -/
theorem acts_deleteTransaction (hhooks : ∀ c u, Evolves u (hooks c u).1) (hs : CallbacksOk s)
    (h : TransactionPtr) :
    Acts { s.world with core := s.core.delete h } (smcpInternalDeleteTransaction_ hooks s h).world := by
  have hquiet : Quiet s (smcpInvalidateTimer hooks s (.ofTransaction h)) := quiet_invalidateTimer hs h
  have hok : CallbacksOk (smcpInvalidateTimer hooks s (.ofTransaction h)) := hquiet.evolves.callbacksOk hs
  unfold smcpInternalDeleteTransaction_
  dsimp only
  generalize smcpInvalidateTimer hooks s (.ofTransaction h) = s1 at hquiet hok ⊢
  have hcore : s1.core = s.core := congrArg World.core hquiet.world
  set s2 : Instance := ({ s1 with store := s1.store.setActive h false }).log
    (.deleted h (s1.transaction h).callback.isSome) with hs2
  have hworld : s2.world = { s.world with core := s.core.delete h, timers := s1.timerState } := by
    have hdelete : s2.world = { s1.world with core := s1.core.delete h } := rfl
    rw [hdelete, hcore, hquiet.world]
  have htimers : Acts { s.world with core := s.core.delete h } s2.world := by
    rw [hworld]
    exact acts_timers (w := { s.world with core := s.core.delete h }) hquiet.timers
  exact htimers.trans (evolves_deleted hhooks s2 h hok)

/-- The machine after an insertion. -/
def Core.insertOver (c : Core) (h : TransactionPtr) : Core :=
  { c with
    store := (c.store.insertOver h).1
    events := replacedEvents c.life h (c.store.insertOver h).2 ++ c.events }

/-- Inserting a transaction: it takes its place, then the application may act. -/
theorem acts_insertTransaction (hhooks : ∀ c u, Evolves u (hooks c u).1) (hs : CallbacksOk s)
    (h : TransactionPtr) :
    Acts { s.world with core := s.core.insertOver h } (insertTransaction hooks s h).world := by
  have hcore : s.core.insertOver h =
      { s.core with
        store := (s.store.insertOver h).1
        events := replacedEvents s.core.life h (s.store.insertOver h).2 ++ s.events } := rfl
  rw [hcore]
  unfold insertTransaction TransactionStore.insertOver
  generalize s.store.btInsert h = r
  obtain ⟨st, old⟩ := r
  cases old with
  | none => exact .refl
  | some old =>
    set s1 := ({ s with store := st }).log (.replaced h old) with hs1
    have hs1ok : CallbacksOk s1 := hs
    exact acts_deleteTransaction hhooks hs1ok old

/-- The machine after a transaction was given another id. -/
def Core.rename (c : Core) (h : TransactionPtr) (msgId : ℕ) : Core :=
  { c with
    store := (c.store.rename h msgId).1
    events := replacedEvents c.life h (c.store.rename h msgId).2 ++ c.events }

/-- A new message id takes the transaction out of the tree and puts it back. -/
theorem acts_newMsgId (hhooks : ∀ c u, Evolves u (hooks c u).1) (hs : CallbacksOk s)
    (h : TransactionPtr) (msgId : ℕ) :
    Acts { s.world with core := s.core.rename h msgId }
      (smcpTransactionNewMsgId hooks s h msgId).world := by
  have hcore : s.core.rename h msgId =
      { s.core with
        store := (s.store.rename h msgId).1
        events := replacedEvents s.core.life h (s.store.rename h msgId).2 ++ s.events } := rfl
  rw [hcore]
  unfold smcpTransactionNewMsgId TransactionStore.rename
  split_ifs
  · exact acts_insertTransaction (s := { s with
      store := (s.store.btRemove (s.store.msgId h)).1.setMsgId h msgId }) hhooks hs h
  · exact .refl

/-! ## Transactions -/

/-- An active transaction goes on with a new id. -/
theorem evolves_renew (hhooks : ∀ c u, Evolves u (hooks c u).1) (h : TransactionPtr) :
    Evolves s (smcpTransactionNewMsgId hooks (smcpGetNextMsgId s (.renewing h)).1 h
      (smcpGetNextMsgId s (.renewing h)).2) := by
  intro hs
  obtain ⟨r, hid, hworld⟩ := getNextMsgId_world s (.renewing h)
  generalize smcpGetNextMsgId s (.renewing h) = drawn at hid hworld ⊢
  have hs1 : CallbacksOk drawn.1 := by
    have htimers : drawn.1.timers = s.timers := congrArg (fun w => w.timers.list) hworld
    have hlife : drawn.1.core.life = s.core.life := congrArg (fun w => w.core.life) hworld
    rw [CallbacksOk, htimers, hlife]
    exact hs
  have hacts := acts_newMsgId hhooks hs1 h drawn.2
  have hcore := congrArg World.core hworld
  have hstep : Act s.world { s.world with core := drawn.1.core.rename h drawn.2 } := by
    rw [show drawn.1.core = _ from hcore, hid]
    exact .core s.world _ (.redraw s.core h r) fun i hi =>
      .inl (TransactionStore.active_of_rename hi)
  rw [hworld] at hacts
  exact .trans (.single hstep) hacts

/-- A transaction is initialised, with its timer. -/
theorem evolves_init (h : TransactionPtr) (alloc : Bool) (flags : ℕ)
    (resendCallback : Option ResendFunc) {callback : Option ResponseFunc}
    (hcallback : CallbackFits h callback) :
    Evolves s (smcpTransactionInit s h alloc flags resendCallback callback) := by
  intro hs
  set t : Transaction := { resendCallback := resendCallback, callback := callback
                           flags := flags % 256, shouldDealloc := alloc }
  -- the initialisation is one step of the store, and one of the timers
  have hinit : Act s.world _ := .core s.world _ (.init s.core h t.life rfl hcallback) fun i hi =>
    .inl (TransactionStore.active_of_clear hi)
  have hclear : TimerStep s.timerState _ :=
    .clear s.timerState (.ofTransaction h) {} rfl rfl fun _ _ => rfl
  refine .tail (.single hinit) ?_
  -- the life of `h` starts anew, and the other lives go on
  have hlife : (fun h' => (Function.update s.transaction h t h').life) =
      Function.update s.core.life h t.life := by
    funext h'
    by_cases heq : h' = h
    · subst heq
      simp
    · simp [heq, Instance.core]
  have hworld : (smcpTransactionInit s h alloc flags resendCallback callback).world =
      { s.world with
        core := ⟨s.store.clear h, s.lastMsgId, fun h' => (Function.update s.transaction h t h').life,
          .initialized h s.store :: s.events⟩
        timers := ⟨s.timers.modify (.ofTransaction h) fun _ => {},
          .cleared (.ofTransaction h) (s.timers.isLinked (.ofTransaction h)) :: s.timerEvents⟩ } := rfl
  rw [hworld, hlife]
  exact .timers _ _ hclear

/-- An active transaction ends. -/
theorem evolves_endActive (hhooks : ∀ c u, Evolves u (hooks c u).1) (h : TransactionPtr)
    (hactive : s.store.active h = true) :
    Evolves s (deleteFound hooks
      (({ s with store := ((s.store.setActive h false).btRemove (s.store.msgId h)).1 }).log
        (.ended h ((s.store.setActive h false).btRemove (s.store.msgId h)).2))
      ((s.store.setActive h false).btRemove (s.store.msgId h)).2) := by
  intro hs
  have hfinish : Act s.world _ := .core s.world _ (.finish s.core h hactive) fun i hi =>
    .inl (TransactionStore.active_of_finish hi)
  have hstore : s.world.core.store = s.store := rfl
  have hstore' : s.core.store = s.store := rfl
  rw [hstore', TransactionStore.finish, if_pos hactive] at hfinish
  dsimp only at hfinish
  generalize (s.store.setActive h false).btRemove (s.store.msgId h) = r at hfinish ⊢
  obtain ⟨st, found⟩ := r
  cases found with
  | none => exact .single hfinish
  | some x =>
    set s1 : Instance := ({ s with store := st }).log (.ended h (some x)) with hs1
    have hs1ok : CallbacksOk s1 := hs
    exact .trans (.single hfinish) (acts_deleteTransaction hhooks hs1ok x)

/-- The end of a transaction invalidates its timer, takes it out and calls its callback. -/
theorem evolves_end (hhooks : ∀ c u, Evolves u (hooks c u).1) (h : TransactionPtr) :
    Evolves s (smcpTransactionEnd hooks s h) := by
  have hcurrent : Same s (if s.currentTransaction = some h then
      { s with currentTransaction := none } else s) := by
    split_ifs <;> exact ⟨rfl⟩
  unfold smcpTransactionEnd
  dsimp only
  split_ifs at hcurrent ⊢ with hcur hactive hactive
  · exact (evolves_endActive hhooks h hactive).of_same hcurrent
  · exact hcurrent.evolves
  · exact evolves_endActive hhooks h hactive
  · exact Evolves.refl s

/-- The transaction of an observer is deleted without a call. -/
theorem delete_inactive (hs : CallbacksOk s) (i : ℕ) :
    (smcpInternalDeleteTransaction_ hooks s (.observer i)).store.active (.observer i) = false := by
  have hquiet : Quiet s (smcpInvalidateTimer hooks s (.ofTransaction (.observer i))) :=
    quiet_invalidateTimer hs (.observer i)
  unfold smcpInternalDeleteTransaction_
  dsimp only
  generalize smcpInvalidateTimer hooks s (.ofTransaction (.observer i)) = s1 at hquiet ⊢
  have hlife : s1.core.life = s.core.life := congrArg (fun w => w.core.life) hquiet.world
  have hfits : CallbackFits (.observer i) (s1.core.life (.observer i)).callback := by
    rw [hlife]
    exact hs.2 _
  set s2 : Instance := ({ s1 with store := s1.store.setActive (.observer i) false }).log
    (.deleted (.observer i) (s1.transaction (.observer i)).callback.isSome) with hs2
  have hinactive : s2.store.active (.observer i) = false := Function.update_self _ _ _
  cases hcallback : (s2.transaction (.observer i)).callback with
  | none =>
    dsimp only
    split_ifs <;> exact hinactive
  | some callback =>
    cases callback with
    | user f => exact absurd hcallback (hfits i f rfl)
    | eventResponseHandler j =>
      dsimp only
      split_ifs <;> exact hinactive

/-- When the transaction of an observer has ended it is not active, unless another one was taken out
of the store. -/
theorem end_inactive (hhooks : ∀ c u, Evolves u (hooks c u).1) (hs : CallbacksOk s) (i : ℕ) :
    (smcpTransactionEnd hooks s (.observer i)).core.activeObservers i = false ∨
      (smcpTransactionEnd hooks s (.observer i)).core.EndedAnother i := by
  unfold smcpTransactionEnd
  dsimp only
  set s1 := (if s.currentTransaction = some (.observer i) then
    { s with currentTransaction := none } else s) with hs1
  -- the current transaction is forgotten, and nothing else of the state
  have hs1ok : CallbacksOk s1 := by
    rw [hs1]
    split_ifs <;> exact hs
  -- found in the store and deleted, or not active to begin with
  by_cases hactive : s1.store.active (.observer i) = true
  · rw [if_pos hactive]
    have hinactive : ((s1.store.setActive (.observer i) false).btRemove
        (s1.store.msgId (.observer i))).1.active (.observer i) = false := Function.update_self _ _ _
    generalize (s1.store.setActive (.observer i) false).btRemove (s1.store.msgId (.observer i)) = r
      at hinactive ⊢
    obtain ⟨st, found⟩ := r
    set s2 := ({ s1 with store := st } : Instance).log (.ended (.observer i) found) with hs2
    have hs2ok : CallbacksOk s2 := hs1ok
    cases found with
    | none => exact .inl hinactive
    | some x =>
      by_cases hx : x = .observer i
      · subst hx
        exact .inl (delete_inactive hs2ok i)
      · refine .inr ⟨x, hx, ?_⟩
        have hacts := acts_deleteTransaction hhooks hs2ok x
        refine (Steps.events_suffix hacts.core).subset ?_
        show _ ∈ _ :: .ended (.observer i) (some x) :: s1.events
        simp
  · rw [if_neg hactive]
    exact .inl (Bool.eq_false_of_not_eq_true hactive)

/-- The first part of `smcp_transaction_begin`. -/
theorem beginIdentity_world (s : Instance) (h : TransactionPtr) :
    ∃ r, (beginIdentity s h).world =
      { s.world with
        core :=
          { store := (((s.store.btRemove (s.store.msgId h)).1.setToken h
              (drawnId s.lastMsgId r)).setMsgId h (drawnId s.lastMsgId r)).setActive h true
            lastMsgId := drawnId s.lastMsgId r
            life := s.core.life
            events := .drew (.beginning h) (s.store.btRemove (s.store.msgId h)).1 s.lastMsgId r
              (drawnId s.lastMsgId r) :: .begun h s.store ::
              .began h (s.store.active h) (s.transaction h) :: s.events } } := by
  set s1 : Instance := { (s.log (.began h (s.store.active h) (s.transaction h))).log
    (.begun h s.store) with store := (s.store.btRemove (s.store.msgId h)).1 } with hs1
  obtain ⟨r, hid, hworld⟩ := getNextMsgId_world s1 (.beginning h)
  refine ⟨r, ?_⟩
  have hbegin : (beginIdentity s h).world = { (smcpGetNextMsgId s1 (.beginning h)).1.world with
      core := { (smcpGetNextMsgId s1 (.beginning h)).1.world.core with
        store := (((smcpGetNextMsgId s1 (.beginning h)).1.world.core.store.setToken h
          (smcpGetNextMsgId s1 (.beginning h)).2).setMsgId h
            (smcpGetNextMsgId s1 (.beginning h)).2).setActive h true } } := rfl
  rw [hbegin, hid, hworld]
  rfl

/-- The machine with other fields in one transaction. -/
theorem world_setTransaction (s : Instance) (h : TransactionPtr) (f : Transaction → Transaction) :
    (s.setTransaction h f).world =
      { s.world with
        core :=
          { s.core with
            life := Function.update s.core.life h (f (s.transaction h)).life } } := by
  have hlife : (fun h' => ((s.setTransaction h f).transaction h').life) =
      Function.update s.core.life h (f (s.transaction h)).life := by
    funext h'
    by_cases heq : h' = h
    · subst heq
      simp [Instance.setTransaction]
    · simp [Instance.setTransaction, heq, Instance.core]
  unfold Instance.world Instance.core at *
  rw [hlife]
  rfl

/-- A step of the fields of the transactions. -/
theorem evolves_live {s' : Instance} {life : TransactionPtr → Life} {es : List Event}
    (hlife : LifeStep s.core.life s.events life es)
    (hworld : s'.world = { s.world with
      core := { s.core with life := life, events := es ++ s.events } }) : Evolves s s' := by
  intro _
  rw [hworld]
  exact .single (.core s.world _ (.live s.core life es hlife) fun _ => .inl)

/-- A step that leaves nothing but history. -/
theorem evolves_log {e : Event} (hlife : LifeStep s.core.life s.events s.core.life [e]) :
    Evolves s (s.log e) :=
  evolves_live hlife rfl

/-- An event is the latest of the history. -/
theorem world_log (s : Instance) (e : Event) :
    (s.log e).world =
      { s.world with core := { s.world.core with events := e :: s.world.core.events } } := rfl

/-- The fields of one transaction are set, and an event says so. -/
theorem evolves_logSet (h : TransactionPtr) {e : Event} {f : Transaction → Transaction} {l : Life}
    (hlife : LifeStep s.core.life s.events (Function.update s.core.life h l) [e])
    (hf : (f (s.transaction h)).life = l) : Evolves s ((s.log e).setTransaction h f) := by
  refine evolves_live hlife ?_
  have hsame : (s.log e).transaction h = s.transaction h := rfl
  rw [world_setTransaction, hsame, hf]
  rfl

/-- A transaction is set to what it is, as far as its life goes. -/
theorem same_setTransaction_at (h : TransactionPtr) {f : Transaction → Transaction}
    (hf : (f (s.transaction h)).life = (s.transaction h).life) : Same s (s.setTransaction h f) := by
  refine ⟨?_⟩
  have hself : (s.transaction h).life = s.core.life h := rfl
  rw [world_setTransaction, hf, hself, Function.update_eq_self]
  rfl

/-- The second part. -/
theorem beginTimer_world (s : Instance) (h : TransactionPtr) (expiration : ℤ) :
    ∃ l, Relation.ReflTransGen TimerStep s.timerState l ∧
      (beginTimer s h expiration).world =
        { s.world with
          core :=
            { s.core with
              life := Function.update s.core.life h (s.core.life h).fresh }
          timers := l } := by
  unfold beginTimer
  dsimp only
  -- the source's default for a negative expiration
  generalize (if expiration < 0 then coapExchangeLifetime else expiration) = cms
  set s1 := s.setTransaction h fun t =>
    { t with
      waitingForAsyncResponse := false, attemptCount := 0, lastObserve := 0, nextBlock2 := 0
      expiration := convertCmsToTimeval s.now cms } with hs1
  have hworld : s1.world = _ := world_setTransaction s h _
  -- the delay draws a random number, if there is a resend callback
  have hdelay : Same s1 (if (s1.transaction h).resendCallback.isSome
      then delayStart s1 (s1.transaction h).flags 5000 else (s1, cms)).1 := by
    split_ifs
    · exact same_delayStart s1 _ _
    · exact Same.refl s1
  generalize (if (s1.transaction h).resendCallback.isSome
    then delayStart s1 (s1.transaction h).flags 5000 else (s1, cms)) = delay at hdelay ⊢
  -- the timer gets its delay and is put into the list
  have hquiet := (hdelay.quiet.trans (quiet_timerInit delay.1 (.ofTransaction h)
    (.transactionTimeout h) none fun _ _ => rfl)).trans
      (quiet_scheduleTimer _ (.ofTransaction h) (keepaliveCap (s1.transaction h).flags delay.2))
  refine ⟨_, hquiet.timers, ?_⟩
  rw [hquiet.world, hworld]
  rfl

/-- What is noted of the transaction that is pushed out depends on its callback alone. -/
theorem replacedEvents_congr {life life' : TransactionPtr → Life} (h : TransactionPtr)
    (old : Option TransactionPtr) (hsame : ∀ x, (life' x).callback = (life x).callback) :
    replacedEvents life' h old = replacedEvents life h old := by
  cases old with
  | none => rfl
  | some old => rw [replacedEvents, replacedEvents, hsame]

/-- A transaction begins; that of an observer only while an index leads to the observer. -/
theorem evolves_beginTransaction (hhooks : ∀ c u, Evolves u (hooks c u).1) (h : TransactionPtr)
    (expiration : ℤ) (hpoints : ∀ i, h = .observer i → s.observerState.PointsTo i) :
    Evolves s (smcpTransactionBegin hooks s h expiration) := by
  intro hs
  obtain ⟨r, hidentity⟩ := beginIdentity_world s h
  unfold smcpTransactionBegin
  generalize beginIdentity s h = s1 at hidentity ⊢
  have htimers1 : s1.timerState = s.timerState := congrArg World.timers hidentity
  obtain ⟨l, hsteps, hworld⟩ := beginTimer_world s1 h expiration
  generalize beginTimer s1 h expiration = s2 at hworld ⊢
  rw [htimers1] at hsteps
  have hs2 : CallbacksOk s2 := by
    have hacts : Acts s.world { s.world with timers := l } := acts_timers hsteps
    have hlist : s2.timers = l.list := congrArg (fun w => w.timers.list) hworld
    have hlife : s2.core.life = _ := congrArg (fun w => w.core.life) hworld
    have hlife1 : s1.core.life = s.core.life := congrArg (fun w => w.core.life) hidentity
    rw [CallbacksOk, hlist, hlife, hlife1]
    exact ⟨hacts.noCancel hs.1, callbackFits_update hs.2 h (hs.2 h)⟩
  -- the machine takes its step first, then the timer is set up, then the application may act
  have hstart : Act s.world _ :=
    .core s.world _ (.start s.core h r (s.transaction h) rfl) fun i hi => by
      rcases TransactionStore.active_of_start hi with ha | hih
      · exact .inl ha
      · exact .inr (hpoints i hih.symm)
  have hinsert := acts_insertTransaction hhooks hs2 h
  have hcore1 : s1.core = _ := congrArg World.core hidentity
  have hcore2 : s2.core = _ := congrArg World.core hworld
  rw [hworld, hidentity, hcore2, hcore1] at hinsert
  refine .trans (.single hstart) (.trans (acts_timers hsteps) ?_)
  unfold Core.insertOver at hinsert
  dsimp only at hinsert
  rw [replacedEvents_congr] at hinsert
  · exact hinsert
  · intro x
    by_cases hx : x = h
    · subst hx
      simp
    · simp [hx]

end

end Smcp
