import Smcp.Transaction.Runs

/-!
# Retransmissions in every run

When the timer of a transaction fires, `smcp_internal_transaction_timeout_` sends the request again
and decides how long to wait for the next time.

* `backOff_inBounds_iff`: the delays are in their bounds exactly when the 32-bit product they are
  computed from does not wrap around to something small;
* `reachable_runsByTimer`: what the history says about attempts and announced responses is what the
  transactions know of them;
* `acknowledged_not_resent`: a request that was acknowledged is not sent again, if the
  acknowledgement came before the first attempt.
-/

namespace Smcp

open Run

/-! ## The delay -/

/-- The product that `calc_retransmit_timeout` computes in 32 bits, without its sign. -/
def backOffProduct (retries random : ℕ) : ℕ := 1500 * 2 ^ retries * (512 + random % 256) % 4294967296

/-- The time that is waited after a send, when the time until the expiration is `left`, is at least
1500 ms or all of it, at most 14 s, and not zero while there is time left. A negative delay is
scheduled as 0. -/
def DelayInBounds (left delay : ℤ) : Prop :=
  min 1500 left ≤ max 0 delay ∧ max 0 delay ≤ 14000 ∧ (0 < left → 0 < max 0 delay)

instance (left delay : ℤ) : Decidable (DelayInBounds left delay) :=
  inferInstanceAs (Decidable (_ ∧ _ ∧ _))

/-- The products for the two random numbers: the first decides whether the time left is less than
the timeout, and otherwise the second must be large enough. -/
def ProductsFit (left : ℤ) (retries random random' : ℕ) : Prop :=
  left ≤ 0 ∨
  (left < 14000 ∧ backOffProduct retries random < 2147483648 ∧
    (left + 1) * 512 ≤ backOffProduct retries random) ∨
  (backOffProduct retries random' < 2147483648 ∧
    min 1500 left * 512 ≤ backOffProduct retries random')

instance (left : ℤ) (retries random random' : ℕ) :
    Decidable (ProductsFit left retries random random') :=
  inferInstanceAs (Decidable (_ ∨ _ ∧ _ ∧ _ ∨ _ ∧ _))

theorem retransmitTimeout_le (retries random : ℕ) : retransmitTimeout retries random ≤ 14000 := by
  unfold retransmitTimeout
  dsimp only
  split_ifs <;> omega

/-- When the timeout is longer than a given time. -/
theorem lt_retransmitTimeout_iff {c : ℤ} (hc : 0 ≤ c) (retries random : ℕ) :
    c < retransmitTimeout retries random ↔ c < 14000 ∧ backOffProduct retries random < 2147483648 ∧
      (c + 1) * 512 ≤ backOffProduct retries random := by
  unfold retransmitTimeout backOffProduct
  dsimp only
  have hcast : ((1500 * 2 ^ retries : ℕ) : ℤ) * ((512 + random % 256 : ℕ) : ℤ) =
      ((1500 * 2 ^ retries * (512 + random % 256) : ℕ) : ℤ) := (Nat.cast_mul _ _).symm
  rw [hcast]
  generalize 1500 * 2 ^ retries * (512 + random % 256) = n
  unfold int32
  by_cases hsign : n % 4294967296 < 2147483648
  · -- the product is what it looks like
    have heq : ((n : ℤ) + 2147483648) % 4294967296 - 2147483648 = (n % 4294967296 : ℕ) := by omega
    rw [heq, Int.tdiv_eq_ediv_of_nonneg (Int.natCast_nonneg _)]
    split_ifs <;> omega
  · -- it is negative
    have hneg : ((n : ℤ) + 2147483648) % 4294967296 - 2147483648 < 0 := by omega
    generalize ((n : ℤ) + 2147483648) % 4294967296 - 2147483648 = m at hneg ⊢
    have htdiv : m.tdiv 512 ≤ 0 := by
      have hpos : 0 ≤ (-m).tdiv 512 := Int.tdiv_nonneg (by omega) (by decide)
      rw [Int.neg_tdiv] at hpos
      omega
    split_ifs <;> omega

section
variable {t : Transaction} {now : Timeval}

/-- The time left as the handler takes it. -/
theorem attemptCms_cases
    (hclock : convertTimevalToCms now t.expiration = timeLeft now t.expiration) :
    t.attemptCms now = timeLeft now t.expiration ∨
      t.attemptCms now = 45000 ∧ 45000 < timeLeft now t.expiration := by
  have hleft : 0 ≤ timeLeft now t.expiration := le_max_left _ _
  unfold Transaction.attemptCms keepaliveCap smcpObservationKeepaliveInterval
  rw [hclock]
  generalize timeLeft now t.expiration = left at hleft
  dsimp only
  split_ifs <;> omega

/-- One delay. -/
theorem backOffDelay_inBounds_iff
    (hclock : convertTimevalToCms now t.expiration = timeLeft now t.expiration)
    (retries random random' : ℕ) :
    DelayInBounds (timeLeft now t.expiration) (backOffDelay t now retries random random') ↔
      ProductsFit (timeLeft now t.expiration) retries random random' := by
  -- the timeout of the attempt is cut to the time left where it is larger
  have hcms := attemptCms_cases hclock
  have hleft : 0 ≤ timeLeft now t.expiration := le_max_left _ _
  have hle := retransmitTimeout_le retries random
  have hle' := retransmitTimeout_le retries random'
  -- the bound for the first random number, and for the second one if the source draws it
  have hfirst := @lt_retransmitTimeout_iff (t.attemptCms now) (by omega) retries random
  have hsecond (hpos : 0 < timeLeft now t.expiration) := @lt_retransmitTimeout_iff
    (min 1500 (timeLeft now t.expiration) - 1) (by omega) retries random'
  unfold DelayInBounds ProductsFit backOffDelay
  generalize timeLeft now t.expiration = left at *
  generalize t.attemptCms now = cms at *
  generalize retransmitTimeout retries random = timeout at *
  generalize retransmitTimeout retries random' = timeout' at *
  by_cases hpos : 0 < left
  · have hsecond := hsecond hpos
    by_cases hlt : cms < timeout
    · rw [if_pos hlt]
      have hprod := hfirst.1 hlt
      omega
    · rw [if_neg hlt]
      have hprod := fun hand => hlt (hfirst.2 hand)
      omega
  · by_cases hlt : cms < timeout
    · rw [if_pos hlt]
      omega
    · rw [if_neg hlt]
      omega

end

/-! ## The attempts of a transaction -/

/-- The event is a delay after a send only if the property holds of it. -/
def Event.OnBackOff (p : Transaction → Timeval → ℕ → ℕ → ℕ → ℤ → Prop) : Event → Prop
  | .backedOff _ t now retries random random' delay => p t now retries random random' delay
  | _ => True

instance (p : Transaction → Timeval → ℕ → ℕ → ℕ → ℤ → Prop)
    [∀ t now k r r' d, Decidable (p t now k r r' d)] : DecidablePred (Event.OnBackOff p)
  | .backedOff _ t now k r r' d => inferInstanceAs (Decidable (p t now k r r' d))
  | .received .. | .responded .. | .drew .. | .begun .. | .initialized .. | .renamed .. | .replaced ..
  | .freed .. | .began .. | .ended .. | .deleted .. | .called .. | .acknowledged .. | .notification ..
  | .delivered .. | .skipped .. | .timedOut .. | .resent .. | .resendReturned .. | .restarted ..
  | .passed .. | .answered .. =>
    isTrue trivial

/-- What the history says about the delays. -/
def Event.DelayComputed (e : Event) : Prop :=
  e.OnBackOff fun t now retries random random' delay =>
    delay = backOffDelay t now retries random random' ∧ retries ≤ smcpTransactionMaxAttempts

/-- The attempts are counted in four bits, and the delays are computed from them. -/
structure AttemptsOk (c : Core) : Prop where
  attemptCount_le : ∀ h, (c.life h).attemptCount ≤ smcpTransactionMaxAttempts
  computed : ∀ e ∈ c.events, e.DelayComputed

/-- The attempts of one transaction are set, and nothing else that is counted. -/
theorem attemptCount_update {life : TransactionPtr → Life}
    (hle : ∀ h, (life h).attemptCount ≤ smcpTransactionMaxAttempts) (h : TransactionPtr) {t : Life}
    (ht : t.attemptCount ≤ smcpTransactionMaxAttempts) :
    ∀ h', (Function.update life h t h').attemptCount ≤ smcpTransactionMaxAttempts := by
  intro h'
  by_cases heq : h' = h
  · subst heq
    rw [Function.update_self]
    exact ht
  · rw [Function.update_of_ne heq]
    exact hle h'

theorem LifeStep.attemptsOk {life life' : TransactionPtr → Life} {events es : List Event}
    (hstep : LifeStep life events life' es)
    (hle : ∀ h, (life h).attemptCount ≤ smcpTransactionMaxAttempts) :
    (∀ h, (life' h).attemptCount ≤ smcpTransactionMaxAttempts) ∧ ∀ e ∈ es, e.DelayComputed := by
  have hzero : 0 ≤ smcpTransactionMaxAttempts := Nat.zero_le _
  -- the attempts are counted by the pass and by the back-off, and are set to 0 by the others
  cases hstep with
  | pass h =>
    have hcount := hle h
    have hone : 1 ≤ smcpTransactionMaxAttempts := by decide
    refine ⟨attemptCount_update hle h ?_, by simp [Event.DelayComputed, Event.OnBackOff]⟩
    unfold Life.pass
    dsimp only
    split_ifs <;> omega
  | answer h waits =>
    exact ⟨attemptCount_update hle h hzero, by simp [Event.DelayComputed, Event.OnBackOff]⟩
  | acknowledge h tt =>
    exact ⟨attemptCount_update hle h (hle h), by simp [Event.DelayComputed, Event.OnBackOff]⟩
  | backOff h t now random random' n hpos hn =>
    have hcount := hle h
    exact ⟨attemptCount_update hle h (by dsimp only; omega),
      by simpa [Event.DelayComputed, Event.OnBackOff] using hcount⟩
  | restart h => exact ⟨attemptCount_update hle h hzero, by simp [Event.DelayComputed, Event.OnBackOff]⟩
  | call h statuscode disarm _ _ _ _ =>
    exact ⟨attemptCount_update hle h (hle h), by simp [Event.DelayComputed, Event.OnBackOff]⟩
  | deliver h i t _ _ _ =>
    exact ⟨attemptCount_update hle h (hle h), by simp [Event.DelayComputed, Event.OnBackOff]⟩
  | _ => exact ⟨hle, by simp [Event.DelayComputed, Event.OnBackOff]⟩

theorem Event.IsStore.delayComputed {e : Event} (h : e.IsStore) : e.DelayComputed := by
  cases e with
  | backedOff h t now k r r' d => exact absurd h id
  | _ => trivial

theorem Change.attemptsOk {c : Core} {life : TransactionPtr → Life} {es : List Event}
    (hchange : Change c life es)
    (hle : ∀ h, (c.life h).attemptCount ≤ smcpTransactionMaxAttempts) :
    (∀ h, (life h).attemptCount ≤ smcpTransactionMaxAttempts) ∧ ∀ e ∈ es, e.DelayComputed := by
  cases hchange with
  | init h t hfresh =>
    have hcount : t.attemptCount = 0 := congrArg Life.attemptCount hfresh
    exact ⟨attemptCount_update hle h (by omega), by simp [Event.DelayComputed, Event.OnBackOff]⟩
  | start h t ht es hstore =>
    refine ⟨attemptCount_update hle h (Nat.zero_le _), ?_⟩
    rw [List.forall_mem_append]
    exact ⟨fun e he => (hstore e he).delayComputed, by simp [Event.DelayComputed, Event.OnBackOff]⟩
  | store es hstore => exact ⟨hle, fun e he => (hstore e he).delayComputed⟩
  | live life es hlife => exact hlife.attemptsOk hle

theorem AttemptsOk.step {c c' : Core} (hstep : Step c c') (hok : AttemptsOk c) : AttemptsOk c' := by
  obtain ⟨es, hes, hchange⟩ := hstep.change
  obtain ⟨hle, hnew⟩ := hchange.attemptsOk hok.attemptCount_le
  refine ⟨hle, ?_⟩
  rw [hes, List.forall_mem_append]
  exact ⟨hnew, hok.computed⟩

/-- The attempts in every run. -/
theorem reachable_attemptsOk {s : Instance} (hreach : Reachable s) : AttemptsOk s.core := by
  obtain ⟨now, random, sendResult, hsteps⟩ := hreach.steps
  have hinit : AttemptsOk (smcpCreate now random sendResult).core :=
    ⟨fun _ => Nat.zero_le _, fun _ he => absurd he List.not_mem_nil⟩
  exact hsteps.invariant (P := fun _ => True) AttemptsOk (fun _ _ hstep hok _ => hok.step hstep) hinit
    fun _ _ => trivial

/-! ## The back-off -/

/-- The 32-bit clock is exact. -/
def Event.ClockExact (e : Event) : Prop :=
  e.OnBackOff fun t now _ _ _ _ => convertTimevalToCms now t.expiration = timeLeft now t.expiration

/-- The delay after a send is in its bounds. -/
def Event.BacksOff (e : Event) : Prop :=
  e.OnBackOff fun t now _ _ _ delay => DelayInBounds (timeLeft now t.expiration) delay

/-- The products that the delay after a send is computed from do not wrap around badly. -/
def Event.ProductsFit (e : Event) : Prop :=
  e.OnBackOff fun t now retries random random' _ =>
    Smcp.ProductsFit (timeLeft now t.expiration) retries random random'

instance (e : Event) : Decidable e.BacksOff := inferInstanceAs (Decidable (e.OnBackOff _))

instance (e : Event) : Decidable e.ProductsFit := inferInstanceAs (Decidable (e.OnBackOff _))

instance (e : Event) : Decidable e.ClockExact := inferInstanceAs (Decidable (e.OnBackOff _))

/-- A transaction whose request is sent again every 14 s, `n` times in all, and never answered. -/
def unansweredRun (n : ℕ) : Instance :=
  idleRun (fun _ => 255) ([.transactionInit 0 false 0 (some 0) (some 0), .transactionBegin 0 (-1)] ++
    (List.range n).flatMap fun k => [.tick ⟨14 * k, 0⟩, .handleTimers])

/-- An Empty ACK was accepted for `h`, and since then `h` was neither started over nor given another
id. -/
def isAcknowledged (h : TransactionPtr) : List Event → Bool
  | [] => false
  | .acknowledged h' tt :: earlier =>
    (h' = h && tt = coapTransTypeAck) || isAcknowledged h earlier
  | .initialized h' _ :: earlier | .begun h' _ :: earlier | .restarted h' :: earlier =>
    h' ≠ h && isAcknowledged h earlier
  | .renamed h' _ st _ :: earlier | .drew (.renewing h') st _ _ _ :: earlier =>
    !(h' = h && st.active h) && isAcknowledged h earlier
  | _ :: earlier => isAcknowledged h earlier

/-- The transaction, whose timer fires at the time `now`, waits for the response to a request that
was acknowledged: it is to keep quiet until it expires. -/
def Transaction.Waits (t : Transaction) (now : Timeval) (acknowledged : Bool) : Prop :=
  acknowledged = true ∧ hasFlag t.flags smcpTransactionKeepalive = false ∧ now.Before t.expiration

/-- What an event says about the attempts of `h`: one has been made, or they are counted from 0. -/
def Event.attempts (h : TransactionPtr) : Event → Option Bool
  | .backedOff h' _ _ _ _ _ _ | .passed h' => if h' = h then some true else none
  | .initialized h' _ | .began h' _ _ | .restarted h' | .answered h' _ =>
    if h' = h then some false else none
  | _ => none

/-- What an event says about the response that `h` waits for: it was announced, or it was not. -/
def Event.announces (h : TransactionPtr) : Event → Option Bool
  | .acknowledged h' _ => if h' = h then some true else none
  | .answered h' waits => if h' = h then some waits else none
  | .initialized h' _ | .began h' _ _ | .restarted h' => if h' = h then some false else none
  | _ => none

/-- Since it was begun, started over or was answered, `h` has made an attempt: a resend has gone
well, or the timer has fired with nothing to send. -/
def hasAttempted (h : TransactionPtr) : List Event → Bool := lastSaid (Event.attempts h) false

/-- A response to `h` was announced, and has not come since. -/
def isAnnounced (h : TransactionPtr) : List Event → Bool := lastSaid (Event.announces h) false

/-- The history, when the timer of the transaction `h` fires, that keeps it from sending: there is no
way to send, or the response was announced before any attempt, or an attempt was made and the
conversion of the time left gives nothing. -/
def Transaction.IsKeptQuiet (t : Transaction) (now : Timeval) (h : TransactionPtr)
    (earlier : List Event) : Prop :=
  t.resendCallback = none ∨ (hasAttempted h earlier = false ∧ isAnnounced h earlier = true) ∨
    (hasAttempted h earlier = true ∧ convertTimevalToCms now t.expiration ≤ 0)

/-! What a step adds to the history is what it does to the transactions. -/

/-- An attempt counts. -/
def Life.attempted (l : Life) : Bool := l.attemptCount ≠ 0

/-- The history and a transaction agree. -/
structure Life.Recorded (l : Life) (h : TransactionPtr) (events : List Event) : Prop where
  attempted : l.attempted = hasAttempted h events
  announced : l.waitingForAsyncResponse = isAnnounced h events

section
variable {life life' : TransactionPtr → Life} {events es : List Event} {h h' : TransactionPtr}

/-- New events that speak of `h` as its new fields do. -/
theorem Life.Recorded.append {l l' : Life} (hl : l.Recorded h events)
    (hattempts : lastSaid (Event.attempts h) l.attempted es = l'.attempted)
    (hannounces : lastSaid (Event.announces h) l.waitingForAsyncResponse es =
      l'.waitingForAsyncResponse) : l'.Recorded h (es ++ events) where
  attempted := by
    unfold hasAttempted
    rw [lastSaid_append, ← hattempts, hl.attempted]
    rfl
  announced := by
    unfold isAnnounced
    rw [lastSaid_append, ← hannounces, hl.announced]
    rfl

theorem Event.IsStore.says_nothing {e : Event} (hstore : e.IsStore) :
    e.attempts h = none ∧ e.announces h = none := by
  cases e <;> first | exact ⟨rfl, rfl⟩ | exact absurd hstore id

/-- Events of the store leave the agreement as it is. -/
theorem Life.Recorded.store {l : Life} (hl : l.Recorded h events)
    (hes : ∀ e ∈ es, e.IsStore) : l.Recorded h (es ++ events) :=
  hl.append (lastSaid_of_none (fun e he => (hes e he).says_nothing.1) _)
    (lastSaid_of_none (fun e he => (hes e he).says_nothing.2) _)

/-- An event speaks of one transaction at most. -/
theorem Event.says_nothing_of_ne {e : Event} (hspeaks : e.attempts h ≠ none ∨ e.announces h ≠ none)
    (hne : h ≠ h') : e.attempts h' = none ∧ e.announces h' = none := by
  unfold Event.attempts Event.announces at *
  cases e <;> simp_all

/-- One event about `h'`: it tells what the new fields of `h'` are, and nothing about the others. -/
theorem recorded_update (hrecorded : ∀ x, (life x).Recorded x events) {e : Event} {l : Life}
    (hspeaks : e.attempts h' ≠ none ∨ e.announces h' ≠ none)
    (hself : (e.attempts h').getD (life h').attempted = l.attempted ∧
      (e.announces h').getD (life h').waitingForAsyncResponse = l.waitingForAsyncResponse) :
    ∀ x, (Function.update life h' l x).Recorded x (e :: events) := by
  intro x
  by_cases heq : h' = x
  · subst heq
    rw [Function.update_self]
    have hattempted : lastSaid (Event.attempts h') (life h').attempted [e] = l.attempted := by
      rw [← hself.1]
      unfold lastSaid
      simp
    have hannounced : lastSaid (Event.announces h') (life h').waitingForAsyncResponse [e]
        = l.waitingForAsyncResponse := by
      rw [← hself.2]
      unfold lastSaid
      simp
    exact (hrecorded h').append hattempted hannounced
  · rw [Function.update_of_ne (Ne.symm heq)]
    have hnothing := Event.says_nothing_of_ne hspeaks heq
    have hattempts : ∀ e' ∈ [e], e'.attempts x = none := by simpa using hnothing.1
    have hannounces : ∀ e' ∈ [e], e'.announces x = none := by simpa using hnothing.2
    exact (hrecorded x).append (lastSaid_of_none hattempts _) (lastSaid_of_none hannounces _)

/-- Nothing is said about any transaction, and none changes in these fields. -/
theorem recorded_silent (hrecorded : ∀ x, (life x).Recorded x events)
    (hes : ∀ x, ∀ e ∈ es, e.attempts x = none ∧ e.announces x = none)
    (hlife : ∀ x, (life' x).attemptCount = (life x).attemptCount ∧
      (life' x).waitingForAsyncResponse = (life x).waitingForAsyncResponse) :
    ∀ x, (life' x).Recorded x (es ++ events) := by
  intro x
  apply (hrecorded x).append
  · rw [lastSaid_of_none fun e he => (hes x e he).1]
    unfold Life.attempted
    rw [(hlife x).1]
  · rw [lastSaid_of_none fun e he => (hes x e he).2]
    exact (hlife x).2.symm

end

/-- A firing that is let pass counts. -/
theorem Life.attempted_pass (l : Life) : l.pass.attempted = true := by
  unfold Life.attempted Life.pass
  dsimp only
  by_cases hzero : l.attemptCount = 0
  · rw [if_pos hzero]
    rfl
  · rw [if_neg hzero]
    exact decide_eq_true hzero

/-- A step of the fields, with the history it adds. -/
theorem LifeStep.recorded {life life' : TransactionPtr → Life} {events es : List Event}
    (hstep : LifeStep life events life' es) (hrecorded : ∀ x, (life x).Recorded x events) :
    ∀ x, (life' x).Recorded x (es ++ events) := by
  -- a step that sets fields of `h` which the history does not record
  have hset (h : TransactionPtr) (l : Life) (hattempts : l.attemptCount = (life h).attemptCount)
      (hwaits : l.waitingForAsyncResponse = (life h).waitingForAsyncResponse) (x : TransactionPtr) :
      (Function.update life h l x).attemptCount = (life x).attemptCount ∧
        (Function.update life h l x).waitingForAsyncResponse = (life x).waitingForAsyncResponse := by
    by_cases heq : x = h
    · subst heq
      rw [Function.update_self]
      exact ⟨hattempts, hwaits⟩
    · rw [Function.update_of_ne heq]
      exact ⟨rfl, rfl⟩
  cases hstep with
  | pass h =>
    apply recorded_update hrecorded
    · simp [Event.attempts, Event.announces]
    · have hwaits : (life h).pass.waitingForAsyncResponse = (life h).waitingForAsyncResponse := rfl
      simp [Event.attempts, Event.announces, Life.attempted_pass, hwaits]
  | answer h waits =>
    apply recorded_update hrecorded
    · simp [Event.attempts, Event.announces]
    · simp [Event.attempts, Event.announces, Life.attempted]
  | backOff h t now random random' n hpos hn =>
    apply recorded_update hrecorded
    · simp [Event.attempts, Event.announces]
    · simp [Event.attempts, Event.announces, Life.attempted, hpos]
  | restart h =>
    apply recorded_update hrecorded
    · simp [Event.attempts, Event.announces]
    · simp [Event.attempts, Event.announces, Life.attempted, Life.fresh]
  | acknowledge h tt =>
    apply recorded_update hrecorded
    · simp [Event.attempts, Event.announces]
    · simp [Event.attempts, Event.announces, Life.attempted]
  | call h statuscode disarm hcallback honce halways hstatus =>
    apply recorded_silent hrecorded
    · simp [Event.attempts, Event.announces]
    · exact hset h _ rfl rfl
  | deliver h i t ht hobserve hnew =>
    apply recorded_silent hrecorded
    · simp [Event.attempts, Event.announces]
    · exact hset h _ rfl rfl
  | skip h i t ht hobserve hold =>
    apply recorded_silent hrecorded
    · simp [Event.attempts, Event.announces]
    · exact fun x => ⟨rfl, rfl⟩
  | timeOut h t now ht =>
    apply recorded_silent hrecorded
    · simp [Event.attempts, Event.announces]
    · exact fun x => ⟨rfl, rfl⟩
  | resend h t now hfired hcallback hleft hresend =>
    apply recorded_silent hrecorded
    · simp [Event.attempts, Event.announces]
    · exact fun x => ⟨rfl, rfl⟩
  | resendReturn h status =>
    apply recorded_silent hrecorded
    · simp [Event.attempts, Event.announces]
    · exact fun x => ⟨rfl, rfl⟩

/-- What a step does to the fields is what it adds to the history. -/
theorem Change.recorded {c : Core} {life : TransactionPtr → Life} {es : List Event}
    (hchange : Change c life es) (hrecorded : ∀ x, (c.life x).Recorded x c.events) :
    ∀ x, (life x).Recorded x (es ++ c.events) := by
  cases hchange with
  | init h t hfresh hcallback =>
    apply recorded_update hrecorded
    · simp [Event.attempts, Event.announces]
    · rw [hfresh]
      simp [Event.attempts, Event.announces, Life.attempted, Life.fresh]
  | start h t ht es hstore =>
    intro x
    rw [List.append_assoc]
    refine Life.Recorded.store ?_ hstore
    refine recorded_update hrecorded ?_ ?_ x
    · simp [Event.attempts, Event.announces]
    · simp [Event.attempts, Event.announces, Life.attempted, Life.fresh]
  | store es hstore => exact fun x => (hrecorded x).store hstore
  | live life es hlife => exact hlife.recorded hrecorded

/-- A timer fires in the state that the history tells, and a resend comes from a timer that has just
fired. -/
def Event.ByTimer : Event → List Event → Prop
  | .timedOut h t _, earlier => t.life.Recorded h earlier
  | .resent h t now, earlier => earlier.head? = some (.timedOut h t now) ∧
      t.resendCallback.isSome = true ∧
      (convertTimevalToCms now t.expiration > 0 ∨ t.attemptCount = 0) ∧ t.suppressesResend = false
  | _, _ => True

theorem Event.IsStore.byTimer {e : Event} (h : e.IsStore) (earlier : List Event) :
    e.ByTimer earlier := by
  cases e with
  | resent h' t now => exact absurd h id
  | timedOut h' t now => exact absurd h id
  | _ => trivial

theorem LifeStep.byTimer {life life' : TransactionPtr → Life} {events es : List Event}
    (hstep : LifeStep life events life' es) (hrecorded : ∀ x, (life x).Recorded x events)
    (h : Along Event.ByTimer events) : Along Event.ByTimer (es ++ events) := by
  cases hstep with
  | timeOut h' t now ht =>
    refine ⟨?_, h⟩
    show t.life.Recorded h' events
    rw [ht]
    exact hrecorded h'
  | resend h' t now hfired hcallback hleft hresend =>
    exact ⟨⟨hfired, hcallback, hleft, hresend⟩, h⟩
  | deliver => exact ⟨trivial, trivial, trivial, h⟩
  | skip => exact ⟨trivial, trivial, h⟩
  | _ => exact ⟨trivial, h⟩

/-- The attempts, the announced responses and the timers of the transactions, against the history. -/
structure RunsByTimer (c : Core) : Prop where
  recorded : ∀ x, (c.life x).Recorded x c.events
  byTimer : Along Event.ByTimer c.events

/-- One step of the machine. -/
theorem RunsByTimer.step {c c' : Core} (hstep : Step c c') (hinv : RunsByTimer c) :
    RunsByTimer c' := by
  obtain ⟨es, hes, hchange⟩ := hstep.change
  have hrecorded := hchange.recorded hinv.recorded
  have hbefore := hinv.byTimer
  rw [← hes] at hrecorded
  refine ⟨hrecorded, ?_⟩
  rw [hes]
  generalize c'.life = life' at hchange
  cases hchange with
  | init h t => exact ⟨trivial, hbefore⟩
  | start h t ht es hstore =>
    rw [List.append_assoc, along_append fun e he => (hstore e he).byTimer]
    exact ⟨trivial, hbefore⟩
  | store es hstore =>
    rw [along_append fun e he => (hstore e he).byTimer]
    exact hbefore
  | live life es hlife => exact hlife.byTimer hinv.recorded hbefore

/-- Attempts and announced responses in every run. -/
theorem reachable_runsByTimer {s : Instance} (hreach : Reachable s) : RunsByTimer s.core := by
  obtain ⟨now, random, sendResult, hsteps⟩ := hreach.steps
  refine hsteps.invariant (P := fun _ => True) RunsByTimer (fun _ _ hstep hinv _ => hinv.step hstep) ?_
    fun _ _ => trivial
  exact ⟨fun _ => ⟨rfl, rfl⟩, trivial⟩

/-- An acknowledged request is not sent again before the transaction expires, in every run whose
history keeps it quiet when the timer fires: as a rule, when the response was announced before the
first attempt. -/
theorem acknowledged_not_resent {s : Instance} (hreach : Reachable s)
    (hquiet : ∀ h t now earlier, .timedOut h t now :: earlier <:+ s.events →
      t.Waits now (isAcknowledged h earlier) → t.IsKeptQuiet now h earlier) :
    ∀ h t now earlier, .resent h t now :: earlier <:+ s.events →
      ¬t.Waits now (isAcknowledged h earlier) := by
  intro h t now earlier hsuffix hwaits
  have hinv := (along_iff s.events).1 (reachable_runsByTimer hreach).byTimer
  obtain ⟨hfired, hcallback, hleft, hresend⟩ := hinv _ _ hsuffix
  obtain ⟨earlier', rfl⟩ := List.head?_eq_some_iff.1 hfired
  -- the timer fired in the same situation, which the history tells
  have hbefore : .timedOut h t now :: earlier' <:+ s.events := (List.suffix_cons _ _).trans hsuffix
  have hrecorded : t.life.Recorded h earlier' := hinv _ _ hbefore
  have hattempted : hasAttempted h earlier' = decide (t.attemptCount ≠ 0) := hrecorded.attempted.symm
  have hannounced : isAnnounced h earlier' = t.waitingForAsyncResponse := hrecorded.announced.symm
  rcases hquiet h t now earlier' hbefore hwaits with hnone | ⟨hfirst, hwaiting⟩ | ⟨hsent, hexpired⟩
  · rw [hnone] at hcallback
    exact absurd hcallback (by decide)
  · -- it has not been sent, and waits
    rw [hattempted, decide_eq_false_iff_not, not_not] at hfirst
    rw [hannounced] at hwaiting
    have hsuppress := (suppressesResend_eq_true t).2 ⟨hfirst, hwaiting, hwaits.2.1⟩
    rw [hsuppress] at hresend
    exact absurd hresend (by decide)
  · rw [hattempted, decide_eq_true_iff] at hsent
    omega

instance (t : Transaction) (now : Timeval) (acknowledged : Bool) :
    Decidable (t.Waits now acknowledged) :=
  inferInstanceAs (Decidable (_ ∧ _ ∧ _))

instance (t : Transaction) (now : Timeval) (h : TransactionPtr) (earlier : List Event) :
    Decidable (t.IsKeptQuiet now h earlier) :=
  inferInstanceAs (Decidable (_ ∨ _ ∧ _ ∨ _ ∧ _))

/-- The timer fires for a transaction that waits, and that satisfies `p`. -/
def firesWaiting (p : Transaction → Timeval → TransactionPtr → List Event → Bool) :
    List Event → Bool
  | .timedOut h t now :: earlier => t.Waits now (isAcknowledged h earlier) && p t now h earlier
  | _ => false

/-- A transaction, with the id 53870 and no address yet, and an Empty ACK for it; `before` happens
before the ACK and `after` after it. -/
def acknowledgedRun (before after : List Op) : Instance :=
  idleRun (fun _ => 5) ([.transactionInit 0 false 0 (some 0) (some 0), .transactionBegin 0 5000] ++
    before ++ [.process (some ⟨[0x60, 0x00, 0x6E, 0xD2], peerAt 0 0, none⟩) fun _ => 0] ++ after)

/-- The ACK comes before the first attempt, which is then left out. -/
theorem acknowledged_not_resent_first :
    (∀ h t now earlier, .resent h t now :: earlier <:+ (acknowledgedRun [] []).events →
      ¬t.Waits now (isAcknowledged h earlier)) ∧
    ∃ l ∈ (acknowledgedRun [] []).events.tails, firesWaiting (fun _ _ _ _ => true) l = true := by
  refine ⟨acknowledged_not_resent (reachable_idleRun _ _) ?_, by decide +kernel⟩
  have hall : ∀ l ∈ (acknowledgedRun [] []).events.tails,
      firesWaiting (fun t now h earlier => ¬t.IsKeptQuiet now h earlier) l = false := by
    decide +kernel
  intro h t now earlier hsuffix hwaits
  have hquiet := hall _ ((List.mem_tails _ _).2 hsuffix)
  simpa [firesWaiting, hwaits] using hquiet

/-- The last event is an attempt that comes after the ACK. -/
def resentAfterAck : List Event → Bool
  | .resent h t now :: earlier => decide (t.Waits now (isAcknowledged h earlier))
  | _ => false

/-- The ACK comes after the first attempt; 3 s after it the request is sent again, 2 s before the
expiration. -/
theorem acknowledged_resent : ¬∀ s, Reachable s → ∀ h t now earlier,
    .resent h t now :: earlier <:+ s.events → ¬t.Waits now (isAcknowledged h earlier) := by
  intro hall
  set s := acknowledgedRun [.handleTimers] [.tick ⟨3, 0⟩, .handleTimers] with hs
  have hnone := hall s (reachable_idleRun _ _)
  have hresent : ∃ l ∈ s.events.tails, resentAfterAck l = true := by
    decide +kernel
  obtain ⟨l, hl, hafter⟩ := hresent
  have hsuffix := (List.mem_tails _ _).1 hl
  unfold resentAfterAck at hafter
  split at hafter
  · exact hnone _ _ _ _ hsuffix (of_decide_eq_true hafter)
  · exact absurd hafter (by decide)

end Smcp
