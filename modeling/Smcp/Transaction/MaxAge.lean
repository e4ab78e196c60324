import Smcp.Timer.Convert
import Smcp.Transaction.Runs

/-!
# The age of a notification

The Max-Age option of a notification on its way from the bytes of the option, through
`smcp_inbound_finish_packet`, to the timer that `smcp_handle_response` schedules.

* `scan_maxAge`: what the scan of the options leaves in `max_age`;
* `respondObserve_eq`: a notification that is accepted sets the expiration and the timer of its
  transaction, with one delay;
* `maxAge_delay_iff`: the delay is as long as the age asks for, and no signed operation overflows,
  exactly for ages below 2147483 seconds.
-/

namespace Smcp

open ByteMemory

/-! ## The option -/

/-- `coap_decode_uint32` of the value of an option. -/
def decodeUint32 (value : List UInt8) : ℕ :=
  (value.take (value.length % 256)).foldl (fun ret b => (ret * 256 + b.toNat) % 4294967296) 0

/-- The value of the last Max-Age option. -/
def maxAgeOption (opts : List (ℕ × List UInt8)) : Option ℕ :=
  ((opts.filter fun o => o.1 = coapOptionMaxAge).getLast?).map fun o => decodeUint32 o.2

/-- What the option with the value `v` leaves in `self->inbound.max_age`. -/
def maxAgeField (v : ℕ) : ℤ :=
  let maxAge := int32 (int32 v + 1)
  if maxAge < 5 then 5 else maxAge

/-- The product that `smcp_handle_response` takes for the delay. -/
def maxAgeDelay (v : ℕ) : ℤ := int32 (maxAgeField v * 1000)

/-- The operations on signed values, from the option to the timer. -/
def maxAgeOperations (v : ℕ) : List ℤ :=
  [int32 v + 1, maxAgeField v * 1000] ++ cmsOperations (maxAgeDelay v)

/-! ## The scan -/

theorem decodeUint32_readBytes (m : ℕ → UInt8) (value len : ℕ) :
    decodeUint32 (readBytes m value len) = coapDecodeUint32 m value len := by
  unfold decodeUint32 coapDecodeUint32
  rw [length_readBytes]
  have hsplit : len = len % 256 + (len - len % 256) := by omega
  have htake : (readBytes m value len).take (len % 256) = readBytes m value (len % 256) := by
    generalize len % 256 = n at hsplit
    rw [hsplit, readBytes_add]
    exact List.take_left' (length_readBytes m value n)
  rw [htake]

theorem decodeUint32_lt (value : List UInt8) : decodeUint32 value < 4294967296 := by
  unfold decodeUint32
  generalize value.take (value.length % 256) = bytes
  have hfold (ret : ℕ) (hret : ret < 4294967296) :
      bytes.foldl (fun ret b => (ret * 256 + b.toNat) % 4294967296) ret < 4294967296 := by
    induction bytes generalizing ret with
    | nil => exact hret
    | cons b bytes ih => exact ih _ (Nat.mod_lt _ (by decide))
  exact hfold 0 (by decide)

theorem maxAgeOption_cons (key : ℕ) (value : List UInt8) (opts : List (ℕ × List UInt8)) :
    maxAgeOption ((key, value) :: opts) =
      if key = coapOptionMaxAge then some ((maxAgeOption opts).getD (decodeUint32 value))
      else maxAgeOption opts := by
  unfold maxAgeOption
  rw [List.filter_cons]
  by_cases hage : key = coapOptionMaxAge
  · rw [if_pos (by simpa using hage), if_pos hage, List.getLast?_cons]
    generalize (opts.filter fun o => o.1 = coapOptionMaxAge).getLast? = last
    cases last with
    | none => rw [Option.getD_none, Option.map_some, Option.map_none, Option.getD_none]
    | some o => rw [Option.getD_some, Option.map_some, Option.getD_some]
  · rw [if_neg (by simpa using hage), if_neg hage]

theorem maxAge_noteOption (i : Inbound) (key value len : ℕ) :
    (i.noteOption key value len).maxAge =
      if key = coapOptionMaxAge then maxAgeField (coapDecodeUint32 i.bytes value len)
      else i.maxAge := by
  unfold Inbound.noteOption maxAgeField
  by_cases hage : key = coapOptionMaxAge
  · rw [if_neg (by rw [hage]; decide), if_neg (by rw [hage]; decide), if_pos hage, if_pos hage]
  · rw [if_neg hage, if_neg hage]
    split_ifs <;> rfl

theorem maxAge_nextOption (i : Inbound) : i.nextOption.inbound.maxAge = i.maxAge := by
  obtain ⟨key, option, hnext⟩ := i.sameMessage_nextOption
  rw [hnext]

theorem bytes_nextOption (i : Inbound) : i.nextOption.inbound.bytes = i.bytes := by
  obtain ⟨key, option, hnext⟩ := i.sameMessage_nextOption
  rw [hnext]
  rfl

/-- The last Max-Age option that the loop visits decides. -/
theorem maxAge_scanOptions (fuel : ℕ) (i : Inbound) :
    (i.scanOptions fuel).1.maxAge =
      ((maxAgeOption (i.scanOptions fuel).2).map maxAgeField).getD i.maxAge := by
  induction fuel generalizing i with
  | zero => rfl
  | succ fuel ih =>
    rw [Inbound.scanOptions]
    dsimp only
    by_cases hkey : i.nextOption.key = coapOptionInvalid
    · rw [if_pos hkey]
      exact maxAge_nextOption i
    · rw [if_neg hkey]
      dsimp only
      rw [ih, maxAge_noteOption, maxAge_nextOption, bytes_nextOption, ← decodeUint32_readBytes]
      rw [maxAgeOption_cons]
      by_cases hage : i.nextOption.key = coapOptionMaxAge
      · rw [if_pos hage, if_pos hage, Option.map_some, Option.getD_some]
        generalize maxAgeOption _ = rest
        cases rest with
        | none => rw [Option.map_none, Option.getD_none, Option.getD_none]
        | some v => rw [Option.map_some, Option.getD_some, Option.getD_some]
      · rw [if_neg hage, if_neg hage]

theorem scan_maxAge {i : Inbound} {v : ℕ} (hage : maxAgeOption i.scan.2 = some v) :
    i.scan.1.maxAge = maxAgeField v := by
  have hscan := maxAge_scanOptions (i.packetLen + 1) i.resetNextOption
  have hcontent (i : Inbound) : i.locateContent.maxAge = i.maxAge := by
    unfold Inbound.locateContent
    dsimp only
    split_ifs <;> rfl
  have hvisited : i.scan.2 = (i.resetNextOption.scanOptions (i.packetLen + 1)).2 := rfl
  rw [← hvisited, hage, Option.map_some, Option.getD_some] at hscan
  rw [← hscan]
  exact hcontent _

/-! ## The response handler -/

section
variable (hooks : Hooks) (s : Instance) (h : TransactionPtr) (callback : ResponseFunc)

/-- The callback is called for a notification. -/
def callNotified : Instance × ℤ :=
  let t := s.transaction h
  let value := s.inbound.observeValue
  let s := ((s.logResponded h).log (.notification h value t)).log (.delivered h value)
  let s := (s.log (.called h s.inbound.responseStatus)).setTransaction h fun t =>
    { t with lastObserve := value }
  callResponse hooks s callback s.inbound.responseStatus

/-- The transaction is ready for the next notification. -/
def awaitNext : Instance :=
  let waits := (s.transaction h).waitingForAsyncResponse || s.inbound.hasObserveOption
  let s := (s.log (.answered h waits)).setTransaction h fun t =>
    { t with waitingForAsyncResponse := waits, attemptCount := 0 }
  let s := { s with
    timers := s.timers.modify (.ofTransaction h) fun t => { t with cancel := none } }
  smcpInvalidateTimer hooks s (.ofTransaction h)

/-- The delay for the product `cms`. -/
def observeDelay (cms : ℤ) : ℤ :=
  if cms = 0 then if s.inbound.hasObserveOption then cmsDistantFuture else smcpObservationDefaultMaxAge
  else cms

/-- Set the expiration and the timer of `h`. -/
def setDelay (cms : ℤ) : Instance :=
  (smcpScheduleTimer (s.setTransaction h fun t =>
    { t with expiration := convertCmsToTimeval s.now cms }) (.ofTransaction h) cms).1

/-- A message for `h` has come in, and its callback is about to be called. -/
def Instance.notified : Instance :=
  prepareCallback
    { s.log (.received s.inbound s.store s.transaction) with currentTransaction := some h }

/-- `smcp_handle_response` calls the callback of `h` for the message of `s`, a notification, and goes
on with `h` afterwards, which has no keep-alive. -/
structure AcceptsNotification : Prop where
  handler : s.responseHandler = some h
  announces : s.inbound.announcesResponse (s.transaction h) = false
  callback_eq : (s.transaction h).callback = some callback
  notifies : s.inbound.notifies (s.transaction h) = true
  recent : s.inbound.isOldObservation (s.transaction h) = false
  current : (callNotified hooks (s.notified h) h callback).1.currentTransaction ≠ none
  sameId : s.store.msgId h = (callNotified hooks (s.notified h) h callback).1.store.msgId h

/-- What is left of the transaction when its timer is set. -/
def waitingNext : Instance := awaitNext hooks (callNotified hooks (s.notified h) h callback).1 h

end

section
variable {hooks : Hooks} {s : Instance} {h : TransactionPtr} {callback : ResponseFunc}

theorem rescheduleObserve_eq {cms : ℤ}
    (hkeepalive : hasFlag (s.transaction h).flags smcpTransactionKeepalive = false) :
    rescheduleObserve s h cms = setDelay s h (observeDelay s cms) := by
  unfold rescheduleObserve setDelay
  dsimp only
  have hdelay : (if cms = 0 then
      if s.inbound.hasObserveOption then cmsDistantFuture else smcpObservationDefaultMaxAge
    else cms) = observeDelay s cms := rfl
  rw [hdelay]
  generalize observeDelay s cms = delay
  have hflags (f : Timeval) : ((s.setTransaction h fun t => { t with expiration := f }).transaction
      h).flags = (s.transaction h).flags := by
    unfold Instance.setTransaction
    dsimp only
    rw [Function.update_self]
  unfold keepaliveCap
  rw [hflags, if_neg (by simp [hkeepalive])]

theorem notified_inbound (s : Instance) (h : TransactionPtr) :
    ∃ key option, (s.notified h).inbound =
      { s.inbound with lastOptionKey := key, thisOption := option } := by
  obtain ⟨i, hmessage, hauth⟩ := authInboundInit_eq
    { s.log (.received s.inbound s.store s.transaction) with currentTransaction := some h }
  have hinbound : (s.notified h).inbound = i.resetNextOption := by
    unfold Instance.notified prepareCallback
    rw [hauth]
  rw [hinbound]
  exact hmessage.trans i.sameMessage_resetNextOption

theorem notified_eq (s : Instance) (h : TransactionPtr) :
    (s.notified h).transaction = s.transaction ∧ (s.notified h).store = s.store := by
  obtain ⟨i, -, hauth⟩ := authInboundInit_eq
    { s.log (.received s.inbound s.store s.transaction) with currentTransaction := some h }
  unfold Instance.notified prepareCallback
  rw [hauth]
  exact ⟨rfl, rfl⟩

theorem respondObserve_recent
    (hrecent : s.inbound.isOldObservation (s.transaction h) = false) :
    respondObserve hooks s h callback =
      let r := callNotified hooks s h callback
      if r.1.currentTransaction = none ∨ s.store.msgId h ≠ r.1.store.msgId h then r
      else responseBail hooks
        (rescheduleObserve (awaitNext hooks r.1 h) h (int32 (s.inbound.maxAge * 1000))) r.2
        (some h) := by
  unfold respondObserve
  dsimp only
  rw [if_neg (by simp [hrecent])]
  rfl

/-- The expiration and the timer of a transaction that accepts a notification. -/
theorem respondObserve_eq (haccepts : AcceptsNotification hooks s h callback)
    (hkeepalive : hasFlag ((waitingNext hooks s h callback).transaction h).flags
      smcpTransactionKeepalive = false) :
    smcpHandleResponse hooks s =
      responseBail hooks
        (setDelay (waitingNext hooks s h callback) h
          (observeDelay (waitingNext hooks s h callback) (int32 (s.inbound.maxAge * 1000))))
        (callNotified hooks (s.notified h) h callback).2 (some h) := by
  -- the notification is newer than the one before, and the same transaction is still current
  obtain ⟨hhandler, hannounces, hcallback, hnotifies, hrecent, hcurrent, hsameId⟩ := haccepts
  obtain ⟨key, option, hinbound⟩ := notified_inbound s h
  obtain ⟨htransaction, hstore⟩ := notified_eq s h
  have hold : (s.notified h).inbound.isOldObservation ((s.notified h).transaction h) = false := by
    rw [hinbound, htransaction]
    exact hrecent
  -- `Max-Age` is read from the message, which the callback leaves
  have hage : (s.notified h).inbound.maxAge = s.inbound.maxAge := by
    rw [hinbound]
  have hhandled : smcpHandleResponse hooks s = respondObserve hooks (s.notified h) h callback := by
    unfold smcpHandleResponse respondTo
    have hhandler' : (s.log (.received s.inbound s.store s.transaction)).responseHandler = some h :=
      hhandler
    dsimp only
    rw [hhandler']
    dsimp only
    rw [if_neg (by
      show Inbound.announcesResponse s.inbound (s.transaction h) ≠ true
      simp [hannounces])]
    have hcallback' : ((s.log (.received s.inbound s.store s.transaction)).transaction h).callback =
        some callback := hcallback
    rw [hcallback']
    exact if_pos hnotifies
  -- the branch of a notification that is not older
  rw [hhandled, respondObserve_recent hold]
  dsimp only
  rw [hstore, hage, if_neg (not_or.2 ⟨hcurrent, not_not.2 hsameId⟩)]
  exact congrArg (fun s => responseBail hooks s _ (some h)) (rescheduleObserve_eq hkeepalive)

end

/-! ## The delay -/

/-- The delay of a notification with an age of `v` seconds is long enough, and was computed without
overflow. -/
def DelayExact (v : ℕ) (delay : ℤ) : Prop :=
  1000 * min (v : ℤ) 2147483 ≤ delay ∧ ∀ n ∈ maxAgeOperations v, FitsInt32 n

instance (v : ℕ) (delay : ℤ) : Decidable (DelayExact v delay) := inferInstanceAs (Decidable (_ ∧ _))

/-- An age whose milliseconds fit in 32 bits. -/
theorem maxAgeDelay_eq {v : ℕ} (hv : v < 2147483) :
    maxAgeField v = max 5 (v + 1) ∧ maxAgeDelay v = maxAgeField v * 1000 := by
  have hfield : maxAgeField v = max 5 (v + 1) := by
    unfold maxAgeField int32
    dsimp only
    split_ifs <;> omega
  refine ⟨hfield, ?_⟩
  unfold maxAgeDelay
  apply int32_eq
  rw [hfield]
  unfold FitsInt32 int32Max
  omega

theorem delayExact_iff (s : Instance) {v : ℕ} (hv : v < 4294967296) :
    DelayExact v (observeDelay s (maxAgeDelay v)) ↔ v < 2147483 := by
  constructor
  · intro ⟨hdelay, hfits⟩
    by_contra hge
    by_cases hsigned : v < 2147483648
    · -- the age itself fits, its successor or the product does not
      have hv' : int32 v = v := by
        apply int32_eq
        unfold FitsInt32 int32Max
        omega
      have hsucc : FitsInt32 (int32 v + 1) := hfits _ (by simp [maxAgeOperations])
      have hfield : maxAgeField v = v + 1 := by
        unfold maxAgeField
        rw [int32_eq hsucc, hv']
        exact if_neg (by omega)
      have hproduct : FitsInt32 (maxAgeField v * 1000) := hfits _ (by simp [maxAgeOperations])
      rw [hfield] at hproduct
      unfold FitsInt32 int32Max at hproduct
      omega
    · -- the age is taken for a negative number, and replaced by the least one
      have hfield : maxAgeField v = 5 := by
        unfold maxAgeField int32
        dsimp only
        exact if_pos (by omega)
      have hfive : maxAgeDelay v = 5000 := by
        unfold maxAgeDelay
        rw [hfield]
        rfl
      rw [hfive] at hdelay
      have hshort : observeDelay s 5000 = 5000 := if_neg (by decide)
      rw [hshort] at hdelay
      omega
  · intro hlt
    obtain ⟨hfield, hproduct⟩ := maxAgeDelay_eq hlt
    have hrange : 5000 ≤ maxAgeField v * 1000 ∧ maxAgeField v * 1000 ≤ 2147483000 := by
      rw [hfield]
      omega
    have hdelay : observeDelay s (maxAgeDelay v) = maxAgeField v * 1000 := by
      rw [hproduct]
      exact if_neg (by omega)
    constructor
    · rw [hdelay, hfield]
      omega
    · have hsigned : int32 v = v := by
        apply int32_eq
        unfold FitsInt32 int32Max
        omega
      unfold maxAgeOperations cmsOperations
      rw [hproduct, hsigned, Int.tdiv_eq_ediv_of_nonneg (by omega)]
      generalize maxAgeField v * 1000 = cms at hrange
      have hrest : (cms - cms / 1000 * 1000).tmod 1000 = cms % 1000 := by
        rw [Int.tmod_eq_emod_of_nonneg (by omega)]
        omega
      rw [hrest]
      simp only [List.cons_append, List.nil_append, List.forall_mem_cons]
      unfold FitsInt32 int32Max
      refine ⟨by omega, by omega, by omega, by omega, by omega, by omega, by omega, ?_⟩
      simp

/-- A notification with an age of `v` seconds: the expiration and the timer of its transaction are
set with a delay that is long enough, without overflow, exactly when `v` is below 2147483. -/
theorem maxAge_delay_iff {hooks : Hooks} {i : Inbound} {s : Instance} {h : TransactionPtr}
    {callback : ResponseFunc} {v : ℕ} (hage : maxAgeOption i.scan.2 = some v)
    (hscan : s.inbound = i.scan.1) (haccepts : AcceptsNotification hooks s h callback)
    (hkeepalive : hasFlag ((waitingNext hooks s h callback).transaction h).flags
      smcpTransactionKeepalive = false) :
    let u := waitingNext hooks s h callback
    let delay := observeDelay u (maxAgeDelay v)
    smcpHandleResponse hooks s = responseBail hooks (setDelay u h delay)
      (callNotified hooks (s.notified h) h callback).2 (some h) ∧
    (DelayExact v delay ↔ v < 2147483) := by
  have hfield : s.inbound.maxAge = maxAgeField v := by
    rw [hscan]
    exact scan_maxAge hage
  have hlt : v < 4294967296 := by
    unfold maxAgeOption at hage
    rw [Option.map_eq_some_iff] at hage
    obtain ⟨o, -, hvalue⟩ := hage
    rw [← hvalue]
    exact decodeUint32_lt o.2
  have hhandled := respondObserve_eq haccepts hkeepalive
  rw [hfield] at hhandled
  exact ⟨hhandled, delayExact_iff _ hlt⟩

/-- An observing transaction with the id and token 53870, and a notification with the given age. -/
def agedInbound (age : List UInt8) : Inbound :=
  { packet := some (ofList ([0x62, 0x45, 0x6E, 0xD2, 0x6E, 0xD2, 0x61, 5,
      0x80 + UInt8.ofNat age.length] ++ age) fun _ => 0)
    packetLen := 9 + age.length, saddr := peerAt 0 0 }

def agedNotification (age : List UInt8) : Instance :=
  { idleRun (fun _ => 5) [.transactionInit 0 false 2 none (some 0), .transactionBegin 0 5000] with
    inbound := (agedInbound age).scan.1, isProcessingMessage := true }

theorem agedNotification_inbound (age : List UInt8) :
    (agedNotification age).inbound = (agedInbound age).scan.1 := rfl

instance (hooks : Hooks) (s : Instance) (h : TransactionPtr) (callback : ResponseFunc) :
    Decidable (AcceptsNotification hooks s h callback) :=
  decidable_of_iff (s.responseHandler = some h ∧
    s.inbound.announcesResponse (s.transaction h) = false ∧
    (s.transaction h).callback = some callback ∧
    s.inbound.notifies (s.transaction h) = true ∧
    s.inbound.isOldObservation (s.transaction h) = false ∧
    (callNotified hooks (s.notified h) h callback).1.currentTransaction ≠ none ∧
    s.store.msgId h = (callNotified hooks (s.notified h) h callback).1.store.msgId h)
    ⟨fun ⟨a, b, c, d, e, f, g⟩ => ⟨a, b, c, d, e, f, g⟩,
      fun ⟨a, b, c, d, e, f, g⟩ => ⟨a, b, c, d, e, f, g⟩⟩

theorem maxAge_delay_minute :
    maxAgeOption (agedInbound [60]).scan.2 = some 60 ∧
      DelayExact 60 (observeDelay (waitingNext idleHooks (agedNotification [60]) (.user 0) (.user 0))
        (maxAgeDelay 60)) := by
  have hage : maxAgeOption (agedInbound [60]).scan.2 = some 60 := by decide +kernel
  have haccepts : AcceptsNotification idleHooks (agedNotification [60]) (.user 0) (.user 0) := by
    decide +kernel
  have hkeepalive : hasFlag ((waitingNext idleHooks (agedNotification [60]) (.user 0)
      (.user 0)).transaction (.user 0)).flags smcpTransactionKeepalive = false := by decide +kernel
  exact ⟨hage, (maxAge_delay_iff hage (agedNotification_inbound _) haccepts hkeepalive).2.2 (by decide)⟩

/-- The greatest age: the delay is five seconds. -/
theorem maxAge_delay_short :
    ¬∀ (hooks : Hooks) (i : Inbound) (s : Instance) (h : TransactionPtr) (callback : ResponseFunc)
      (v : ℕ), maxAgeOption i.scan.2 = some v → s.inbound = i.scan.1 →
      AcceptsNotification hooks s h callback →
      hasFlag ((waitingNext hooks s h callback).transaction h).flags
        smcpTransactionKeepalive = false →
      DelayExact v (observeDelay (waitingNext hooks s h callback) (maxAgeDelay v)) := by
  intro hall
  have hage : maxAgeOption (agedInbound [255, 255, 255, 255]).scan.2 = some 4294967295 := by
    decide +kernel
  have hexact := hall idleHooks _ (agedNotification [255, 255, 255, 255]) (.user 0) (.user 0) _ hage
    (agedNotification_inbound _) (by decide +kernel) (by decide +kernel)
  have hshort : observeDelay (waitingNext idleHooks (agedNotification [255, 255, 255, 255]) (.user 0)
      (.user 0)) (maxAgeDelay 4294967295) = 5000 := by decide +kernel
  rw [hshort] at hexact
  have hless : (5000 : ℤ) < 1000 * min ((4294967295 : ℕ) : ℤ) 2147483 := by omega
  exact absurd hexact.1 (not_le.2 hless)

end Smcp
