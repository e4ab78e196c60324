import Smcp.Application
import Smcp.Transaction.Ids

/-!
# Transactions in every run

What holds of the transactions in every state that a program can reach.

* `reachable_storeInvariant`: the active transactions are the ones in the store, and each is found under
  its id;
* `drawn_ids_fresh`: an id that is drawn for a transaction belongs to no other active one;

both in runs that keep away from the two places where the code goes wrong: `smcp_transaction_begin`
removes whatever has the id that the transaction had before, and the generator of ids starts at a
random place again after it has come to 0.
-/

namespace Smcp

open Run LinkedTree

/-! ## Runs without callbacks -/

/-- An application that does nothing when it is called. -/
def idleHooks : Hooks := fun _ s => (s, 0)

/-- What a sequence of calls makes of a new instance, for the given random numbers. -/
def idleRun (random : ℕ → ℕ) (ops : List Op) : Instance :=
  execAll Op.exec idleHooks ops (smcpCreate default random fun _ => 1)

theorem reachable_idleRun (random : ℕ → ℕ) (ops : List Op) : Reachable (idleRun random ops) :=
  ⟨default, random, fun _ => 1, (Reaches.refl _).execAll (fun _ u => .refl u) ops⟩

/-- Initialise a transaction of the application, and begin it. -/
def launch (n : ℕ) : List Op := [.transactionInit n false 0 none (some n), .transactionBegin n 5000]

/-! ## The store -/

/-- `smcp_transaction_begin` leaves the other active transactions in the store. -/
def Event.UnlinksNoOther : Event → Prop
  | .begun h st => ∀ h', h' ≠ h → st.active h' = true →
      Linked (st.btRemove (st.msgId h)).1.links h'
  | _ => True

theorem StoreOk.unlinksNoOther {st : TransactionStore} {h : TransactionPtr} (hok : StoreOk st)
    (hsafe : (Event.begun h st).KeepsStore) : (Event.begun h st).UnlinksNoOther := by
  intro h' hne ha
  obtain ⟨t, hs, hin⟩ := hok.btRemove hsafe
  rw [linked_iff_mem hs.rep, hin]
  exact ⟨hne, ha⟩

/-- Only `smcp_transaction_begin` can unlink another transaction. -/
theorem Step.unlinksNoOther {c c' : Core} (hstep : Step c c') (hok : StoreOk c.store)
    (hevents : ∀ e ∈ c.events, e.UnlinksNoOther) (hsafe : ∀ e ∈ c'.events, e.KeepsStore) :
    ∀ e ∈ c'.events, e.UnlinksNoOther := by
  -- what is noted about a transaction that is replaced says nothing about the store
  have hreplaced (h : TransactionPtr) (old : Option TransactionPtr) :
      ∀ e ∈ replacedEvents c.life h old, e.UnlinksNoOther := by
    cases old <;> simp [replacedEvents, Event.UnlinksNoOther]
  -- one case for each step; a begin is the only one that takes another transaction out
  cases hstep with
  | start h r t ht =>
    have hbegun := hok.unlinksNoOther (hsafe (.begun h c.store) (by simp))
    simp only [List.forall_mem_append, List.forall_mem_cons]
    exact ⟨hreplaced _ _, trivial, hbegun, trivial, hevents⟩
  | redraw h r =>
    simp only [List.forall_mem_append, List.forall_mem_cons]
    exact ⟨hreplaced _ _, trivial, hevents⟩
  | rename h msgId =>
    simp only [List.forall_mem_append, List.forall_mem_cons]
    exact ⟨hreplaced _ _, trivial, hevents⟩
  | respond i i' transaction hpacket hsaddr =>
    rw [List.forall_mem_append]
    refine ⟨?_, hevents⟩
    unfold responseEvents
    split <;> simp [Event.UnlinksNoOther]
  | finish h hactive =>
    rw [List.forall_mem_append]
    refine ⟨?_, hevents⟩
    unfold endedEvents
    split <;> simp [Event.UnlinksNoOther]
  | live life es hlife =>
    rw [List.forall_mem_append]
    refine ⟨fun e he => ?_, hevents⟩
    have hkind := hlife.isLife e he
    cases e <;> trivial
  | _ => simpa [Event.UnlinksNoOther] using hevents

/-- The active transactions are the linked ones, each is found under its id, and none was ever
taken out by another one that began. -/
structure StoreInvariant (s : Instance) : Prop where
  linked : ∀ h, s.store.active h = true ↔ Linked s.store.links h
  found : ∀ h, s.store.active h = true → s.store.findViaMsgId (s.store.msgId h) = some h
  kept : ∀ e ∈ s.events, e.UnlinksNoOther

/-- The store holds the active transactions in every run. -/
theorem reachable_storeOk {s : Instance} (hreach : Reachable s)
    (hsafe : ∀ e ∈ s.events, e.KeepsStore) : StoreOk s.store := by
  obtain ⟨now, random, sendResult, hsteps⟩ := hreach.steps
  exact hsteps.invariant (fun c => StoreOk c.store)
    (fun _ _ hstep hok hgood => hok.step hstep hgood) (storeOk_create now random sendResult) hsafe

/-- The store in every run. -/
theorem reachable_storeInvariant {s : Instance} (hreach : Reachable s)
    (hsafe : ∀ e ∈ s.events, e.KeepsStore) : StoreInvariant s := by
  obtain ⟨now, random, sendResult, hsteps⟩ := hreach.steps
  obtain ⟨hok, hevents⟩ := hsteps.invariant
    (fun c => StoreOk c.store ∧ ∀ e ∈ c.events, e.UnlinksNoOther)
    (fun _ _ hstep hinv hgood =>
      ⟨hinv.1.step hstep hgood, hstep.unlinksNoOther hinv.1 hinv.2 hgood⟩)
    ⟨storeOk_create now random sendResult, by simp [smcpCreate, Instance.core]⟩ hsafe
  exact ⟨fun _ => hok.linked_iff, hok.findViaMsgId, hevents⟩

/-- Two transactions, with the ids 53870 and 25623. -/
def twoTransactions : Instance := idleRun (fun _ => 5) (launch 0 ++ launch 1)

theorem twoTransactions_keepsStore : ∀ e ∈ twoTransactions.events, e.KeepsStore := by
  change ∀ e ∈ [_, _, _, _, _, _, _, _], Event.KeepsStore e
  simp only [List.forall_mem_cons]
  refine ⟨?_, ?_, trivial, rfl, ?_, ?_, trivial, rfl, List.forall_mem_nil _⟩
  -- the second one begins while the first one is active
  iterate 2
    rintro (⟨_ | _ | n⟩ | i) hne ha
    · decide
    · exact absurd rfl hne
    · cases ha
    · cases ha
  -- the first one begins alone
  iterate 2
    rintro (⟨_ | n⟩ | i) hne ha
    · exact absurd rfl hne
    · cases ha
    · cases ha

theorem reachable_storeInvariant_twoTransactions :
    StoreInvariant twoTransactions ∧ twoTransactions.store.active (.user 0) = true ∧
      twoTransactions.store.active (.user 1) = true :=
  ⟨reachable_storeInvariant (reachable_idleRun _ _) twoTransactions_keepsStore, by decide, by decide⟩

/-- The random number 57111 makes 0 the first id. A transaction that was just initialised has the
id 0 as well, and takes the first one out when it begins. -/
theorem reachable_not_storeInvariant : ¬∀ s, Reachable s → StoreInvariant s := by
  intro hall
  have hinv := hall _ (reachable_idleRun (fun _ => 57111) (launch 0 ++ launch 1))
  have hfound := hinv.found (.user 0) (by decide)
  revert hfound
  decide

/-! ## Ids -/

/-- Ids in every run: one that is drawn for a transaction is neither the id nor the token of another
active one, and nothing is replaced in the store. -/
theorem drawn_ids_fresh {s : Instance} (hreach : Reachable s)
    (hsafe : ∀ e ∈ s.events, e.KeepsIds) : ∀ e ∈ s.events, e.DrawsFresh := by
  obtain ⟨now, random, sendResult, hsteps⟩ := hreach.steps
  have hinit : FreshOk (smcpCreate now random sendResult).core :=
    ⟨storeOk_create now random sendResult, ⟨Nat.succ_pos _, fun h0 => absurd rfl h0⟩,
      by simp [smcpCreate, Instance.core]⟩
  exact (hsteps.invariant FreshOk (fun _ _ hstep hinv hgood => hinv.step hstep hgood) hinit
    hsafe).fresh

theorem twoTransactions_keepsIds : ∀ e ∈ twoTransactions.events, e.KeepsIds := by
  change ∀ e ∈ [_, _, _, _, _, _, _, _], Event.KeepsIds e
  simp only [List.forall_mem_cons]
  refine ⟨Or.inl (by decide), ?_, trivial, rfl, Or.inr ?_, ?_, trivial, rfl, List.forall_mem_nil _⟩
  · rintro (⟨_ | _ | n⟩ | i) hne ha
    · decide
    · exact absurd rfl hne
    · cases ha
    · cases ha
  · rintro (⟨_ | n⟩ | i) ha
    · rfl
    · cases ha
    · cases ha
  · rintro (⟨_ | n⟩ | i) hne ha
    · exact absurd rfl hne
    · cases ha
    · cases ha

theorem drawn_ids_fresh_twoTransactions :
    (∀ e ∈ twoTransactions.events, e.DrawsFresh) ∧ twoTransactions.events.length = 8 :=
  ⟨drawn_ids_fresh (reachable_idleRun _ _) twoTransactions_keepsIds, by decide⟩

/-- The random number 36206 makes 57111 the first id and 0 the second one. The transaction with the
id 0 ends, and the next one gets 57111 again, which the first one still has. -/
theorem drawn_ids_not_fresh : ¬∀ s, Reachable s → ∀ e ∈ s.events, e.DrawsFresh := by
  intro hall
  have hfresh := hall _ (reachable_idleRun (fun _ => 36206)
    (launch 0 ++ launch 1 ++ [.transactionEnd 1] ++ launch 2))
  exact hfresh (.replaced (.user 2) (.user 0)) (List.mem_cons_of_mem _ List.mem_cons_self)

/-! ## Responses -/

namespace TransactionStore

variable {st : TransactionStore} {h : TransactionPtr}

theorem msgId_of_findViaMsgId {msgId : ℕ} (hfound : st.findViaMsgId msgId = some h) :
    st.msgId h = msgId :=
  compareMsgId_eq_zero.1 (btFind_some hfound)

theorem token_of_findViaTokenFrom {token fuel : ℕ} {ret : Option TransactionPtr}
    (hfound : st.findViaTokenFrom token fuel ret = some h) : st.token h = token := by
  induction fuel generalizing ret with
  | zero => simp [findViaTokenFrom] at hfound
  | succ fuel ih =>
    cases ret with
    | none => simp [findViaTokenFrom] at hfound
    | some a =>
      rw [findViaTokenFrom] at hfound
      split_ifs at hfound with htoken
      · exact ih hfound
      · obtain rfl := Option.some.inj hfound
        exact not_not.1 htoken

end TransactionStore

/-- The message says which transaction it is for: a response by a token of two bytes, an empty
message by being an ACK or a reset. -/
def Inbound.NamesTransaction (i : Inbound) : Prop :=
  if headerCode i.bytes = coapCodeEmpty then coapTransTypeAck ≤ headerTt i.bytes
  else headerTokenLen i.bytes = 2

/-- A message that gets as far as a callback says which transaction it is for. -/
def Event.Names : Event → Prop
  | .received i st transaction => i.reaches st transaction ≠ none → i.NamesTransaction
  | _ => True

instance (i : Inbound) : Decidable i.NamesTransaction := by
  unfold Inbound.NamesTransaction
  infer_instance

instance : DecidablePred Event.Names
  | .received i st transaction =>
    inferInstanceAs (Decidable (i.reaches st transaction ≠ none → i.NamesTransaction))
  | .responded .. | .drew .. | .begun .. | .initialized .. | .renamed .. | .replaced .. | .freed ..
  | .began .. | .ended .. | .deleted .. | .called .. | .acknowledged .. | .notification ..
  | .delivered .. | .skipped .. | .timedOut .. | .resent .. | .resendReturned .. | .backedOff ..
  | .restarted .. | .passed .. | .answered .. => isTrue trivial

/-- The message for which a callback is called is from the peer, has the token of the transaction
unless it is empty, and its id if it is an ACK or a reset; and it is not a ping. -/
def Event.Matches : Event → Prop
  | .responded h i st t =>
    (t.multicast = true ∨ i.saddr.addr = t.saddr.addr ∧ i.saddr.port = t.saddr.port) ∧
    (headerCode i.bytes ≠ coapCodeEmpty →
      headerTokenLen i.bytes = 2 ∧ ByteMemory.readBytes i.bytes 4 2 = tokenBytes (st.token h)) ∧
    (coapTransTypeAck ≤ headerTt i.bytes → headerMsgId i.bytes = st.msgId h) ∧
    ¬(headerCode i.bytes = coapCodeEmpty ∧ headerTt i.bytes < coapTransTypeAck)
  | _ => True

section
variable {i i' : Inbound} {st : TransactionStore} {h : TransactionPtr}
  {transaction : TransactionPtr → Transaction}

/-- What the lookups of `smcp_handle_response` compare. -/
theorem lookup_some (hlookup : i.lookup st = some h) :
    (headerCode i.bytes ≠ coapCodeEmpty → i.responseToken = st.token h) ∧
      (coapTransTypeAck ≤ headerTt i.bytes → headerMsgId i.bytes = st.msgId h) := by
  unfold Inbound.lookup at hlookup
  split at hlookup
  · split_ifs at hlookup with htt
    exact ⟨fun _ => (TransactionStore.token_of_findViaTokenFrom hlookup).symm, fun hge => by omega⟩
  · rename_i a hfound
    split_ifs at hlookup with htoken
    obtain rfl := Option.some.inj hlookup
    refine ⟨fun hcode => ?_, fun _ => (TransactionStore.msgId_of_findViaMsgId hfound).symm⟩
    by_contra hne
    exact htoken ⟨hcode, hne⟩

theorem reaches_some (hreaches : i.reaches st transaction = some h) :
    i.lookup st = some h ∧ i.fromPeer (transaction h) = true := by
  unfold Inbound.reaches at hreaches
  split at hreaches
  · cases hreaches
  · rename_i a hlookup
    dsimp only at hreaches
    split_ifs at hreaches with hcond
    obtain rfl := Option.some.inj hreaches
    simp only [Bool.and_eq_true] at hcond
    exact ⟨hlookup, hcond.1.1.1⟩

/-- A token of two bytes that is equal as a number is equal byte by byte. -/
theorem readBytes_token (hlen : headerTokenLen i.bytes = 2) (heq : i.responseToken = st.token h) :
    ByteMemory.readBytes i.bytes 4 2 = tokenBytes (st.token h) := by
  rw [← heq, Inbound.responseToken, if_pos hlen, tokenBytes]
  have h4 := (i.bytes 4).toNat_lt
  have h5 := (i.bytes 5).toNat_lt
  have hlo : ((i.bytes 4).toNat + (i.bytes 5).toNat * 256) % 256 = (i.bytes 4).toNat := by omega
  have hhi : ((i.bytes 4).toNat + (i.bytes 5).toNat * 256) / 256 = (i.bytes 5).toNat := by omega
  rw [hlo, hhi]
  simp [ByteMemory.readBytes]

/-- A callback is called for the right message exactly when the message names its transaction. -/
theorem matches_iff (hpacket : i'.packet = i.packet) (hsaddr : i'.saddr = i.saddr)
    (hreaches : i.reaches st transaction = some h) :
    (Event.responded h i' st (transaction h)).Matches ↔ i.NamesTransaction := by
  obtain ⟨hlookup, hpeer⟩ := reaches_some hreaches
  obtain ⟨htoken, hid⟩ := lookup_some hlookup
  have hbytes : i'.bytes = i.bytes := by rw [Inbound.bytes, Inbound.bytes, hpacket]
  have hfrom : (transaction h).multicast = true ∨
      i.saddr.addr = (transaction h).saddr.addr ∧ i.saddr.port = (transaction h).saddr.port := by
    rw [Inbound.fromPeer, Bool.or_eq_true, Bool.and_eq_true, decide_eq_true_eq,
      decide_eq_true_eq] at hpeer
    exact hpeer.imp_right fun hsame => ⟨hsame.1.symm, hsame.2.symm⟩
  simp only [Event.Matches, Inbound.NamesTransaction, hbytes, hsaddr]
  constructor
  · rintro ⟨-, hnonempty, -, hping⟩
    split_ifs with hcode
    · by_contra hlt
      exact hping ⟨hcode, by omega⟩
    · exact (hnonempty hcode).1
  · intro hnames
    refine ⟨hfrom, fun hcode => ?_, hid, fun hping => ?_⟩
    · rw [if_neg hcode] at hnames
      exact ⟨hnames, readBytes_token hnames (htoken hcode)⟩
    · rw [if_pos hping.1] at hnames
      omega

end

theorem responseEvents_matches_iff {i i' : Inbound} {st : TransactionStore}
    {transaction : TransactionPtr → Transaction} (hpacket : i'.packet = i.packet)
    (hsaddr : i'.saddr = i.saddr) :
    (∀ e ∈ responseEvents i i' st transaction, e.Matches) ↔
      ∀ e ∈ responseEvents i i' st transaction, e.Names := by
  unfold responseEvents
  split
  · rename_i h hreaches
    have hiff := matches_iff hpacket hsaddr hreaches
    simp only [List.forall_mem_cons, hiff]
    simp [Event.Matches, Event.Names, hreaches]
  · rename_i hreaches
    simp [Event.Matches, Event.Names, hreaches]

/-- Every step adds events that match exactly when they name their transaction. -/
theorem Step.matches_iff_names {c c' : Core} (hstep : Step c c')
    (h : (∀ e ∈ c.events, e.Matches) ↔ ∀ e ∈ c.events, e.Names) :
    (∀ e ∈ c'.events, e.Matches) ↔ ∀ e ∈ c'.events, e.Names := by
  have hreplaced (x : TransactionPtr) (old : Option TransactionPtr) :
      (∀ e ∈ replacedEvents c.life x old, e.Matches) ↔
        ∀ e ∈ replacedEvents c.life x old, e.Names := by
    cases old <;> simp [replacedEvents, Event.Matches, Event.Names]
  -- one case for each step; a response and an end name a transaction, a begin at most replaces
  -- one
  cases hstep with
  | respond i i' transaction hpacket hsaddr =>
    rw [List.forall_mem_append, List.forall_mem_append, responseEvents_matches_iff hpacket hsaddr, h]
  | finish x hactive =>
    have hended : (∀ e ∈ endedEvents c.life x ((c.store.setActive x false).btRemove
        (c.store.msgId x)).2, e.Matches) ↔ ∀ e ∈ endedEvents c.life x
          ((c.store.setActive x false).btRemove (c.store.msgId x)).2, e.Names := by
      unfold endedEvents
      split <;> simp [Event.Matches, Event.Names]
    rw [List.forall_mem_append, List.forall_mem_append, hended, h]
  | live life es hlife =>
    have hes : (∀ e ∈ es, e.Matches) ↔ ∀ e ∈ es, e.Names := by
      refine forall₂_congr fun e he => ?_
      have hkind := hlife.isLife e he
      cases e <;> first | exact Iff.rfl | exact absurd hkind id
    rw [List.forall_mem_append, List.forall_mem_append, hes, h]
  | start x r t ht =>
    simp only [List.forall_mem_append, List.forall_mem_cons, hreplaced, h]
    exact Iff.rfl
  | redraw x r =>
    simp only [List.forall_mem_append, List.forall_mem_cons, hreplaced, h]
    exact Iff.rfl
  | rename x msgId =>
    simp only [List.forall_mem_append, List.forall_mem_cons, hreplaced, h]
    exact Iff.rfl
  | _ => simpa [Event.Matches, Event.Names] using h

/-- Callbacks in every run: they are called for the right messages only, exactly when every message
that gets as far as a callback names its transaction. -/
theorem responses_match_iff {s : Instance} (hreach : Reachable s) :
    (∀ e ∈ s.events, e.Matches) ↔ ∀ e ∈ s.events, e.Names := by
  obtain ⟨now, random, sendResult, hsteps⟩ := hreach.steps
  exact hsteps.invariant (P := fun _ => True)
    (fun c => (∀ e ∈ c.events, e.Matches) ↔ ∀ e ∈ c.events, e.Names)
    (fun _ _ hstep hinv _ => hstep.matches_iff_names hinv) (by simp [smcpCreate, Instance.core])
    fun _ _ => trivial

/-- The peer at `[::b]`. -/
def peerAt (b : UInt8) (port : ℕ) : SockAddr := ⟨10, port, 0, (Vector.replicate 16 0).set 15 b, 0⟩

/-- A peer at `[::1]:5683`. -/
def localPeer : SockAddr := peerAt 1 5683

/-- An application that sends its request to the peer when it is asked to. -/
def clientHooks : Hooks
  | .resend _, s => (execAll Op.exec idleHooks
      [.outbound (.begin coapMethodGet coapTransTypeConfirmable), .outbound (.setDestaddr localPeer),
        .outbound .send] s, smcpStatusOk)
  | _, s => (s, smcpStatusOk)

/-- A transaction with the id and token 53870 has sent its request; then the datagram arrives from
the peer. -/
def clientRun (datagram : List UInt8) : Instance :=
  execAll Op.exec clientHooks
    [.transactionInit 0 false 0 (some 0) (some 0), .transactionBegin 0 5000, .handleTimers,
      .process (some ⟨datagram, localPeer, none⟩) fun _ => 0]
    (smcpCreate default (fun _ => 5) fun _ => 1)

theorem reachable_clientRun (datagram : List UInt8) : Reachable (clientRun datagram) := by
  refine ⟨default, fun _ => 5, fun _ => 1, (Reaches.refl _).execAll (fun c u => ?_) _⟩
  cases c with
  | resend callback => exact (Reaches.refl _).execAll (fun _ u => .refl u) _
  | _ => exact .refl u

/-- The event is a call of the callback of `h`, for a message with these properties. -/
def Event.respondsTo (h : TransactionPtr) (p : Inbound → Bool) : Event → Bool
  | .responded h' i _ _ => h' = h && p i
  | _ => false

/-- The response of the peer: an ACK with the code 2.05, the id and the token. -/
theorem responses_match_answer :
    let s := clientRun [0x62, 0x45, 0x6E, 0xD2, 0x6E, 0xD2]
    (∀ e ∈ s.events, e.Matches) ∧ ∃ e ∈ s.events, e.respondsTo (.user 0) fun _ => true := by
  refine ⟨(responses_match_iff (reachable_clientRun _)).2 ?_, ?_⟩
  · decide +kernel
  · decide +kernel

/-- A ping of the peer that happens to have the id of the transaction. -/
theorem responses_not_match : ¬∀ s, Reachable s → ∀ e ∈ s.events, e.Matches := by
  intro hall
  have hping : ∃ e ∈ (clientRun [0x40, 0x00, 0x6E, 0xD2]).events, e.respondsTo (.user 0) fun i =>
      headerCode i.bytes = coapCodeEmpty ∧ headerTt i.bytes < coapTransTypeAck := by
    decide +kernel
  obtain ⟨e, he, hresponds⟩ := hping
  have hmatches := hall _ (reachable_clientRun _) e he
  cases e with
  | responded h i st t =>
    rw [Event.respondsTo, Bool.and_eq_true, decide_eq_true_eq, decide_eq_true_eq] at hresponds
    exact hmatches.2.2.2 hresponds.2
  | _ => cases hresponds

/-! ## Responses that carry an id of their own -/

/-- A response with its own id and the token of the active transaction `h`, from its peer, goes to
`h` exactly when no other active transaction has that id. -/
theorem responseHandler_eq_iff {s : Instance} {h : TransactionPtr} (hok : StoreOk s.store)
    (hdistinct : ∀ a b, s.store.active a = true → s.store.active b = true →
      s.store.token a = s.store.token b → a = b)
    (hactive : s.store.active h = true) (hcode : headerCode s.inbound.bytes ≠ coapCodeEmpty)
    (htt : headerTt s.inbound.bytes = coapTransTypeConfirmable ∨
      headerTt s.inbound.bytes = coapTransTypeNonconfirmable)
    (hlen : headerTokenLen s.inbound.bytes = 2)
    (htoken : (s.inbound.bytes 4).toNat + (s.inbound.bytes 5).toNat * 256 = s.store.token h)
    (hsource : s.inbound.saddr = (s.transaction h).saddr) :
    s.responseHandler = some h ↔
      ∀ a, a ≠ h → s.store.active a = true → s.store.msgId a ≠ headerMsgId s.inbound.bytes := by
  have hresponse : s.inbound.responseToken = s.store.token h := by
    rw [Inbound.responseToken, if_pos hlen, htoken]
  have hpeer : s.inbound.fromPeer (s.transaction h) = true := by
    simp [Inbound.fromPeer, hsource]
  have htoack : headerTt s.inbound.bytes < coapTransTypeAck := by
    unfold coapTransTypeConfirmable coapTransTypeNonconfirmable at htt
    unfold coapTransTypeAck
    omega
  have hhandler : s.responseHandler = some h ↔ s.inbound.lookup s.store = some h := by
    unfold Instance.responseHandler
    cases hlookup : s.inbound.lookup s.store with
    | none => simp
    | some a =>
      by_cases hah : a = h
      · simp [hah, hpeer]
      · dsimp only
        split_ifs <;> simp [hah]
  rw [hhandler, Inbound.lookup]
  cases hfound : s.store.findViaMsgId (headerMsgId s.inbound.bytes) with
  | none =>
    -- the id is unknown, and the token decides
    dsimp only
    rw [if_pos htoack, hresponse,
      hok.findViaToken hactive fun a ha htok => hdistinct a h ha hactive htok]
    simp only [true_iff]
    intro a _ ha hid
    rw [hok.findViaMsgId_iff.2 ⟨ha, hid⟩] at hfound
    cases hfound
  | some b =>
    obtain ⟨hb, hid⟩ := hok.findViaMsgId_iff.1 hfound
    dsimp only
    by_cases hbh : b = h
    · -- the id is that of the transaction itself
      subst hbh
      rw [if_neg (by simp [hresponse])]
      simp only [true_iff]
      intro a hne ha hid'
      have hfound' := hok.findViaMsgId_iff.2 ⟨ha, hid'⟩
      rw [hfound] at hfound'
      exact hne (Option.some.inj hfound').symm
    · -- the id is that of another transaction, whose token is not the right one
      have hother : s.inbound.responseToken ≠ s.store.token b := by
        rw [hresponse]
        exact fun htok => hbh (hdistinct b h hb hactive htok.symm)
      rw [if_pos ⟨hcode, hother⟩]
      constructor
      · intro hnone
        cases hnone
      · intro hno
        exact absurd hid (hno b hbh hb)

/-- An active one of the two transactions. -/
theorem active_twoTransactions {h : TransactionPtr} (ha : twoTransactions.store.active h = true) :
    h = .user 0 ∨ h = .user 1 := by
  rcases h with ⟨_ | _ | n⟩ | i
  · exact .inl rfl
  · exact .inr rfl
  · cases ha
  · cases ha

/-- A confirmable 2.05 with the id 513 and the token of the first one. -/
theorem responseHandler_eq_twoTransactions :
    (twoTransactions.arrived (ByteMemory.ofList [0x42, 0x45, 0x01, 0x02, 0x6E, 0xD2] fun _ => 0) 6
      default none).responseHandler = some (.user 0) := by
  have hok : StoreOk twoTransactions.store :=
    reachable_storeOk (reachable_idleRun _ _) twoTransactions_keepsStore
  apply (responseHandler_eq_iff ?_ ?_ ?_ ?_ ?_ ?_ ?_ ?_).2
  · intro a _ ha
    rcases active_twoTransactions ha with rfl | rfl <;> decide
  · exact hok
  · intro a b ha hb htoken
    rcases active_twoTransactions ha with rfl | rfl <;>
      rcases active_twoTransactions hb with rfl | rfl
    · rfl
    · exact absurd htoken (by decide)
    · exact absurd htoken (by decide)
    · rfl
  · decide
  · decide
  · decide
  · decide
  · decide
  · rfl

/-- Two transactions with the ids and tokens 53870 and 25623 have sent their requests to the peer;
then the datagram arrives from there. -/
def twoClients (datagram : List UInt8) : Instance :=
  (execAll Op.exec clientHooks
    [.transactionInit 0 false 0 (some 0) (some 0), .transactionBegin 0 5000, .handleTimers,
      .transactionInit 1 false 0 (some 0) (some 1), .transactionBegin 1 5000, .handleTimers]
    (smcpCreate default (fun _ => 5) fun _ => 1)).arrived (ByteMemory.ofList datagram fun _ => 0)
      datagram.length localPeer none

/-- The peer chose the id 25623 for its response to the first request: nobody gets it. -/
theorem responseHandler_none :
    let s := twoClients [0x42, 0x45, 0x17, 0x64, 0x6E, 0xD2]
    s.store.active (.user 0) = true ∧ s.store.active (.user 1) = true ∧
      s.store.token (.user 0) = 53870 ∧ s.store.token (.user 1) = 25623 ∧
      headerTt s.inbound.bytes = coapTransTypeConfirmable ∧
      s.inbound.responseToken = s.store.token (.user 0) ∧
      s.inbound.saddr = (s.transaction (.user 0)).saddr ∧ s.responseHandler = none := by
  decide +kernel

end Smcp
