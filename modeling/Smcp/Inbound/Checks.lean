import Smcp.Lib.Ring
import Smcp.Transaction.Runs

/-!
# The duplicate table in every run

`smcp_inbound_dupe_check` is asked about every message, also about ACKs and resets, whose ids were
chosen by this node and not by its peer. The table is keyed by address and id alone.

* `reachable_dupesOk`: the table holds the last sixteen fresh messages, and a message is flagged
  exactly when one of these has its source and id;
* `dupeRun_check_iff`: whatever comes in, the table answers as the plain comparison with the last
  sixteen messages that were no duplicates;
* `requests_flagged_iff`: requests are flagged for messages of the peer only, exactly when the ids
  of ACKs and resets in the table do not get in the way.
-/

namespace Smcp

open Run ByteMemory

/-! ## The table and the history -/

/-- The entry that is made for the message, or looked for. -/
def DupeCheck.entry (c : DupeCheck) : DupeEntry where
  hash := (fasthashFinish (fasthashFeed (fasthashFeed (fasthashStart 0) c.source.bytes)
    [UInt8.ofNat (c.msgId % 256), UInt8.ofNat (c.msgId / 256)])).toNat
  source := c.source
  msgId := c.msgId

/-- The messages have the same source and id. -/
def DupeCheck.SameMessage (c c' : DupeCheck) : Prop := c.source = c'.source ∧ c.msgId = c'.msgId

instance (c c' : DupeCheck) : Decidable (c.SameMessage c') :=
  inferInstanceAs (Decidable (c.source = c'.source ∧ c.msgId = c'.msgId))

/-- The messages that were no duplicates. -/
def freshChecks (checks : List DupeCheck) : List DupeCheck := checks.filter fun c => !c.isDupe

/-- The last sixteen of them. -/
def recentChecks (checks : List DupeCheck) : List DupeCheck :=
  (freshChecks checks).take smcpConfDupeBufferSize

theorem entry_dupeCheck (i : Inbound) (isDupe : Bool) : (i.dupeCheck isDupe).entry = i.dupeEntry := by
  have h2 := (i.bytes 2).toNat_lt
  have h3 := (i.bytes 3).toNat_lt
  have hlo : headerMsgId i.bytes % 256 = (i.bytes 2).toNat := by
    unfold headerMsgId
    omega
  have hhi : headerMsgId i.bytes / 256 = (i.bytes 3).toNat := by
    unfold headerMsgId
    omega
  have hbytes : [UInt8.ofNat (headerMsgId i.bytes % 256), UInt8.ofNat (headerMsgId i.bytes / 256)] =
      readBytes i.bytes 2 2 := by
    rw [hlo, hhi, UInt8.ofNat_toNat, UInt8.ofNat_toNat]
    rfl
  unfold DupeCheck.entry Inbound.dupeEntry Inbound.dupeHash Inbound.dupeCheck
  rw [hbytes]

theorem entry_eq_iff (c c' : DupeCheck) : c.entry = c'.entry ↔ c.SameMessage c' := by
  constructor
  · intro heq
    exact ⟨congrArg DupeEntry.source heq, congrArg DupeEntry.msgId heq⟩
  · intro hsame
    unfold DupeCheck.entry
    rw [hsame.1, hsame.2]

/-- No message looks like an entry that was never made. -/
theorem entry_ne_zero (c : DupeCheck) : c.entry ≠ {} := by
  intro heq
  have hsource : c.source = SockAddr.zero := congrArg DupeEntry.source heq
  have hmsgId : c.msgId = 0 := congrArg DupeEntry.msgId heq
  have hhash : c.entry.hash = 0 := congrArg DupeEntry.hash heq
  unfold DupeCheck.entry at hhash
  rw [hsource, hmsgId] at hhash
  revert hhash
  decide +kernel

theorem isFor_iff (e : DupeEntry) (i : Inbound) : e.isFor i = true ↔ e = i.dupeEntry := by
  unfold DupeEntry.isFor Inbound.dupeEntry
  rw [Bool.and_eq_true, Bool.and_eq_true, decide_eq_true_eq, decide_eq_true_eq, decide_eq_true_eq]
  constructor
  · intro hfields
    obtain ⟨⟨hhash, hsource⟩, hmsgId⟩ := hfields
    cases e
    simp_all
  · intro heq
    subst heq
    exact ⟨⟨rfl, rfl⟩, rfl⟩

/-- The table holds the fresh messages, and the flags say what the table said. -/
structure DupeState.Ok (d : DupeState) : Prop where
  holds : Ring.Holds smcpConfDupeBufferSize {} d.info.dupe d.info.dupeIndex
    ((freshChecks d.checks).map DupeCheck.entry)
  flags : ∀ c earlier, c :: earlier <:+ d.checks →
    (c.isDupe = true ↔ ∃ c' ∈ recentChecks earlier, c'.SameMessage c)

section
variable {d d' : DupeState} {i : Inbound}

/-- What the table knows. -/
theorem DupeState.Ok.knows_iff (h : d.Ok) (isDupe : Bool) :
    d.info.knows i = true ↔ ∃ c ∈ recentChecks d.checks, c.SameMessage (i.dupeCheck isDupe) := by
  have htable : d.info.knows i = true ↔
      ∃ j < smcpConfDupeBufferSize, d.info.dupe j = i.dupeEntry := by
    unfold DupeInfo.knows
    simp only [List.any_eq_true, List.mem_range, isFor_iff]
  rw [htable, h.holds.exists_iff, ← entry_dupeCheck i isDupe, ← List.map_take]
  constructor
  · intro hmem
    rcases hmem with hin | ⟨-, hzero⟩
    · obtain ⟨c, hc, heq⟩ := List.mem_map.1 hin
      exact ⟨c, hc, (entry_eq_iff c _).1 heq⟩
    · exact absurd hzero (entry_ne_zero _)
  · intro hrecent
    obtain ⟨c, hc, hsame⟩ := hrecent
    left
    exact List.mem_map.2 ⟨c, hc, (entry_eq_iff c _).2 hsame⟩

/-- A check adds to the history what the table says. -/
theorem DupeState.Ok.flags_cons (h : d.Ok) (isDupe : Bool)
    (hknows : d.info.knows i = isDupe) :
    ∀ c earlier, c :: earlier <:+ i.dupeCheck isDupe :: d.checks →
      (c.isDupe = true ↔ ∃ c' ∈ recentChecks earlier, c'.SameMessage c) := by
  intro c earlier hsuffix
  rcases List.suffix_cons_iff.1 hsuffix with heq | hbefore
  · obtain ⟨rfl, rfl⟩ := List.cons.inj heq
    rw [← h.knows_iff isDupe, hknows]
    rfl
  · exact h.flags c earlier hbefore

theorem DupeStep.ok (hstep : DupeStep d d') (h : d.Ok) : d'.Ok := by
  cases hstep with
  | known i hknows => exact ⟨h.holds, h.flags_cons true hknows⟩
  | fresh i hknows =>
    refine ⟨?_, h.flags_cons false hknows⟩
    have hfresh : freshChecks (i.dupeCheck false :: d.checks) =
        i.dupeCheck false :: freshChecks d.checks := rfl
    show Ring.Holds smcpConfDupeBufferSize {} (d.info.enter i.dupeEntry).dupe
      (d.info.enter i.dupeEntry).dupeIndex
      ((freshChecks (i.dupeCheck false :: d.checks)).map DupeCheck.entry)
    rw [hfresh, List.map_cons, entry_dupeCheck]
    exact h.holds.push i.dupeEntry

end

/-- The table in every run. -/
theorem reachable_dupesOk {s : Instance} (hreach : Reachable s) : s.dupeState.Ok := by
  obtain ⟨now, random, sendResult, hacts⟩ := hreach.acts
  have hsteps := hacts.dupes
  change Relation.ReflTransGen DupeStep _ s.dupeState at hsteps
  generalize s.dupeState = d at hsteps ⊢
  induction hsteps with
  | refl =>
    refine ⟨Ring.Holds.empty (by decide) _, ?_⟩
    intro c earlier hsuffix
    exact absurd (List.suffix_nil.1 hsuffix) (List.cons_ne_nil c earlier)
  | tail _ hstep ih => exact hstep.ok ih

/-! ## The table and the plain comparison -/

/-- One more message is checked. The answers are listed with their messages, newest first. -/
def dupeStep (r : Instance × List (Inbound × Bool)) (i : Inbound) : Instance × List (Inbound × Bool) :=
  let c := smcpInboundDupeCheck { r.1 with inbound := i }
  (c.1, (i, c.2) :: r.2)

/-- Messages are checked one after the other, by an instance that has just been created. -/
def dupeRun (now : Timeval) (random : ℕ → ℕ) (sendResult : ℕ → ℤ) (messages : List Inbound) :
    Instance × List (Inbound × Bool) :=
  messages.foldl dupeStep (smcpCreate now random sendResult, [])

/-- The last sixteen messages for which the check returned false. -/
def dupeWindow (answers : List (Inbound × Bool)) : List Inbound :=
  ((answers.filter fun a => !a.2).map Prod.fst).take smcpConfDupeBufferSize

/-- The table holds what the answers say. -/
structure DupeRun (r : Instance × List (Inbound × Bool)) : Prop where
  ok : r.1.dupeState.Ok
  checks : r.1.checks = r.2.map fun a => a.1.dupeCheck a.2

section
variable {r : Instance × List (Inbound × Bool)} {i : Inbound}

theorem DupeRun.recentChecks_eq (h : DupeRun r) :
    recentChecks r.1.checks = (dupeWindow r.2).map fun m => m.dupeCheck false := by
  unfold recentChecks freshChecks dupeWindow
  rw [h.checks, List.map_take, List.map_map, List.filter_map]
  apply congrArg
  apply List.map_congr_left
  intro a ha
  have hfalse : a.2 = false := by simpa [Inbound.dupeCheck] using (List.mem_filter.1 ha).2
  show a.1.dupeCheck a.2 = a.1.dupeCheck false
  rw [hfalse]

/-- The check answers what a plain comparison with the messages of the window answers. -/
theorem DupeRun.check_iff (h : DupeRun r) :
    (smcpInboundDupeCheck { r.1 with inbound := i }).2 = true ↔
      ∃ m ∈ dupeWindow r.2, m.saddr = i.saddr ∧ headerMsgId m.bytes = headerMsgId i.bytes := by
  have hanswer : (smcpInboundDupeCheck { r.1 with inbound := i }).2 = r.1.dupeInfo.knows i := by
    unfold smcpInboundDupeCheck DupeInfo.knows
    split_ifs with hknows
    · exact hknows.symm
    · exact (Bool.eq_false_iff.2 hknows).symm
  have hknows := h.ok.knows_iff (i := i) false
  change r.1.dupeInfo.knows i = true ↔ ∃ c ∈ recentChecks r.1.checks, _ at hknows
  rw [hanswer, hknows, h.recentChecks_eq]
  simp only [List.mem_map, exists_exists_and_eq_and]
  rfl

theorem DupeRun.step (h : DupeRun r) : DupeRun (dupeStep r i) := by
  have hok : DupeState.Ok { info := r.1.dupeInfo, checks := r.1.checks } := h.ok
  unfold dupeStep smcpInboundDupeCheck
  dsimp only
  split_ifs with hknows
  · constructor
    · exact (DupeStep.known { info := r.1.dupeInfo, checks := r.1.checks } i hknows).ok hok
    · show i.dupeCheck true :: r.1.checks = _
      rw [h.checks, List.map_cons]
  · constructor
    · have hnew : r.1.dupeInfo.knows i = false := Bool.eq_false_iff.2 hknows
      exact (DupeStep.fresh { info := r.1.dupeInfo, checks := r.1.checks } i hnew).ok hok
    · show i.dupeCheck false :: r.1.checks = _
      rw [h.checks, List.map_cons]

end

/-- For every sequence of messages and every message behind it, the table answers as the plain
comparison with the last sixteen messages that were no duplicates. -/
theorem dupeRun_check_iff (now : Timeval) (random : ℕ → ℕ) (sendResult : ℕ → ℤ)
    (messages : List Inbound) (i : Inbound) :
    let r := dupeRun now random sendResult messages
    (smcpInboundDupeCheck { r.1 with inbound := i }).2 = true ↔
      ∃ m ∈ dupeWindow r.2, m.saddr = i.saddr ∧ headerMsgId m.bytes = headerMsgId i.bytes := by
  intro r
  have hstart : DupeRun (smcpCreate now random sendResult, []) := by
    refine ⟨⟨Ring.Holds.empty (by decide) _, ?_⟩, rfl⟩
    intro c earlier hsuffix
    exact absurd (List.suffix_nil.1 hsuffix) (List.cons_ne_nil c earlier)
  have hrun : DupeRun r := by
    show DupeRun (messages.foldl dupeStep (smcpCreate now random sendResult, []))
    generalize (smcpCreate now random sendResult, ([] : List (Inbound × Bool))) = start at hstart
    induction messages generalizing start with
    | nil => exact hstart
    | cons m messages ih => exact ih _ hstart.step
  exact hrun.check_iff

/-! ## Requests and the ids of this node -/

/-- A request of the peer. -/
def DupeCheck.isRequest (c : DupeCheck) : Bool :=
  coapCodeIsRequest c.code && c.tt < coapTransTypeAck

/-- Before, a CON or NON with the same source and id was received. -/
def DupeCheck.Repeats (c : DupeCheck) (earlier : List DupeCheck) : Prop :=
  ∃ c' ∈ earlier, c'.tt < coapTransTypeAck ∧ c'.SameMessage c

/-- The table has an ACK or a reset with the source and id of the message. -/
def DupeCheck.Collides (c : DupeCheck) (earlier : List DupeCheck) : Prop :=
  ∃ c' ∈ recentChecks earlier, coapTransTypeAck ≤ c'.tt ∧ c'.SameMessage c

instance (c : DupeCheck) (earlier : List DupeCheck) : Decidable (c.Repeats earlier) :=
  inferInstanceAs (Decidable (∃ c' ∈ earlier, c'.tt < coapTransTypeAck ∧ c'.SameMessage c))

instance (c : DupeCheck) (earlier : List DupeCheck) : Decidable (c.Collides earlier) :=
  inferInstanceAs
    (Decidable (∃ c' ∈ recentChecks earlier, coapTransTypeAck ≤ c'.tt ∧ c'.SameMessage c))

/-- Requests are flagged as duplicates for messages of the peer only: exactly when, for every
request, an ACK or a reset with its source and id is in the table only if the peer has used the id
before. -/
theorem requests_flagged_iff {s : Instance} (hreach : Reachable s) :
    (∀ c earlier, c :: earlier <:+ s.checks → c.isRequest = true → c.isDupe = true →
      c.Repeats earlier) ↔
    ∀ c earlier, c :: earlier <:+ s.checks → c.isRequest = true → c.Collides earlier →
      c.Repeats earlier := by
  have hflags := (reachable_dupesOk hreach).flags
  constructor
  · intro hall c earlier hsuffix hrequest hcollides
    obtain ⟨c', hc', -, hsame⟩ := hcollides
    exact hall c earlier hsuffix hrequest ((hflags c earlier hsuffix).2 ⟨c', hc', hsame⟩)
  · intro hall c earlier hsuffix hrequest hdupe
    obtain ⟨c', hc', hsame⟩ := (hflags c earlier hsuffix).1 hdupe
    by_cases htt : c'.tt < coapTransTypeAck
    · have hin : c' ∈ earlier := List.mem_of_mem_filter (List.mem_of_mem_take hc')
      exact ⟨c', hin, htt, hsame⟩
    · exact hall c earlier hsuffix hrequest ⟨c', hc', Nat.le_of_not_lt htt, hsame⟩

/-- The datagrams arrive from the peer, one after the other. -/
def arrivalsRun (datagrams : List (List UInt8)) : Instance :=
  idleRun (fun _ => 5)
    (datagrams.map fun bytes => .process (some ⟨bytes, localPeer, none⟩) fun _ => 0)

/-- A GET comes twice, after an ACK with another id: it is flagged the second time. -/
theorem requests_flagged_retransmission :
    let s := arrivalsRun [[0x60, 0x45, 0x43, 0x21], [0x40, 0x01, 0x12, 0x34], [0x40, 0x01, 0x12, 0x34]]
    (∀ c earlier, c :: earlier <:+ s.checks → c.isRequest = true → c.isDupe = true →
      c.Repeats earlier) ∧ s.checks.map DupeCheck.isDupe = [true, false, false] := by
  intro s
  refine ⟨(requests_flagged_iff (reachable_idleRun _ _)).2 ?_, by decide +kernel⟩
  have hchecks : ∀ l ∈ s.checks.tails, ∀ c ∈ l.head?, c.isRequest = true →
      c.Collides l.tail → c.Repeats l.tail := by
    decide +kernel
  intro c earlier hsuffix
  exact hchecks (c :: earlier) ((List.mem_tails _ _).2 hsuffix) c rfl

/-- An ACK with the id 0x3412, and then the first request of the peer with the same id. -/
theorem requests_flagged_ack : ¬∀ s, Reachable s → ∀ c earlier, c :: earlier <:+ s.checks →
    c.isRequest = true → c.isDupe = true → c.Repeats earlier := by
  intro hall
  set s := arrivalsRun [[0x60, 0x45, 0x12, 0x34], [0x40, 0x03, 0x12, 0x34]] with hs
  have hchecks : s.checks = [⟨0, 3, localPeer, 13330, true⟩, ⟨2, 69, localPeer, 13330, false⟩] := by
    decide +kernel
  have hrepeats := hall s (reachable_idleRun _ _) ⟨0, 3, localPeer, 13330, true⟩
    [⟨2, 69, localPeer, 13330, false⟩] (by rw [hchecks]) (by decide) rfl
  revert hrepeats
  decide

end Smcp
