import Smcp.Lib.Run
import Smcp.Outbound.Options

/-!
# How long an outbound message gets

Sequences of composition calls, errors returned to the caller and ignored there, and the bound
that `outbound.max_packet_len` is meant to be.

The space check of `smcp_outbound_append_content` comes before the automatic options are added,
and `smcp_outbound_set_content_formatted` takes the length that `vsnprintf` would have written.
`ComposeOp.Fits` says when neither matters, and `composeRun_bounded_iff` that this is exactly when
the bound holds throughout.
-/

namespace Smcp

open ByteMemory OptionFormat Run

/-- The calls that compose and send a message. Option numbers have 16 bits. -/
inductive ComposeOp where
  | begin (code tt : ℕ)
  | addOption (key : Fin 65536) (value : List UInt8)
  | addOptionUint (key : Fin 65536) (value : ℕ)
  | appendContent (value : List UInt8)
  | setContentFormatted (text : List UInt8)
  | send

/-- Make the call and forget the status. -/
def ComposeOp.exec : ComposeOp → Instance → Instance
  | .begin code tt, s => (smcpOutboundBegin s code tt).1
  | .addOption key value, s => (smcpOutboundAddOption s key value).1
  | .addOptionUint key value, s => (smcpOutboundAddOptionUint s key value).1
  | .appendContent value, s => (smcpOutboundAppendContent s value).1
  | .setContentFormatted text, s => (smcpOutboundSetContentFormatted s text).1
  | .send, s => (smcpOutboundSend s).1

/-- The call has room for the automatic options that are still due, and a formatted text is not
longer than the space behind them. -/
def ComposeOp.Fits : ComposeOp → Instance → Prop
  | .appendContent value, s =>
    word16 value.length < s.outbound.spaceRemaining →
      word16 value.length + pendingOptionBytes s.autoOptions s.outbound ≤ s.outbound.spaceRemaining
  | .setContentFormatted text, s =>
    word16 text.length ≠ 0 →
      s.outbound.contentPtr + pendingOptionBytes s.autoOptions s.outbound +
        word16 (word16 text.length + s.outbound.contentLen) ≤ s.outbound.maxPacketLen
  | _, _ => True

/-- Since `s₀`, header and content have stayed within the packet, and no byte outside of it has
been written or sent. -/
structure WithinPacket (s₀ s : Instance) : Prop where
  bounded : Bounded s.outbound
  written : s.outbound.packetBytes.top ≤ max s₀.outbound.packetBytes.top (smcpMaxPacketLength + 1)
  sent : ∃ new, s.sent = s₀.sent ++ new ∧ ∀ d ∈ new, d.bytes.length ≤ smcpMaxPacketLength

/-- The invariant of composition. -/
def Composing (s₀ s : Instance) : Prop :=
  (∃ opts, Composed s.outbound opts) ∧ WithinPacket s₀ s

section
variable {s₀ s : Instance} {o : Outbound} {opts : List (ℕ × List UInt8)} {auto : AutoOptions}

/-- A message in order with the same packet otherwise. -/
theorem Composing.of_outbound {o' : Outbound} (h : Composing s₀ s) {s' : Instance}
    (hs : s'.outbound = o') (hsent : s'.sent = s.sent) (hc : ∃ opts, Composed o' opts)
    (hb : Bounded o') (htop : o'.packetBytes.top ≤ max s.outbound.packetBytes.top
      (smcpMaxPacketLength + 1)) : Composing s₀ s' := by
  obtain ⟨-, -, hw, hsent'⟩ := h
  refine ⟨hs ▸ hc, hs ▸ hb, ?_, hsent ▸ hsent'⟩
  rw [hs]
  omega

/-- The invariant is about the message and the datagrams alone. -/
theorem Composing.congr {s' : Instance} (h : Composing s₀ s) (ho : s'.outbound = s.outbound)
    (hsent : s'.sent = s.sent) : Composing s₀ s' :=
  ⟨ho ▸ h.1, ho ▸ h.2.bounded, ho ▸ h.2.written, hsent ▸ h.2.sent⟩

theorem Extends.top_le_max {o' : Outbound} (he : Extends o o') (hb : Bounded o')
    (hc : Composed o opts) : o'.packetBytes.top ≤ max o.packetBytes.top (smcpMaxPacketLength + 1) := by
  have htop := he.top_le
  have hmax := he.max_eq.trans hc.max_eq
  unfold Bounded at hb
  omega

/-- A message that was begun has no options. -/
theorem composed_begin (s : Instance) (code tt : ℕ) :
    Composed (smcpOutboundBegin s code tt).1.outbound [] := by
  refine ⟨trivial, ?_, ?_, ?_, rfl, rfl⟩
  · simp [smcpOutboundBegin, Outbound.putMarker, Outbound.optionsStart, readBytes, encode]
  · simp [smcpOutboundBegin, Outbound.putMarker, Outbound.optionsStart]
  · simp [smcpOutboundBegin, Outbound.putMarker]

theorem composing_begin (h : WithinPacket s₀ s ∨ s = s₀) (code tt : ℕ) :
    Composing s₀ (smcpOutboundBegin s code tt).1 := by
  have htoken := length_smcpOutboundToken_le s code
  set token := smcpOutboundToken s code with htok
  have hold : s.outbound.packetBytes.top ≤
      max s₀.outbound.packetBytes.top (smcpMaxPacketLength + 1) := by
    rcases h with h | rfl
    · exact h.written
    · exact le_max_left _ _
  have hsent : ∃ new, s.sent = s₀.sent ++ new ∧ ∀ d ∈ new, d.bytes.length ≤ smcpMaxPacketLength := by
    rcases h with h | rfl
    · exact h.sent
    · exact ⟨[], by simp, by simp⟩
  refine ⟨⟨[], composed_begin s code tt⟩, ?_, ?_, hsent⟩
  · simp only [smcpOutboundBegin, Outbound.putMarker, Bounded, smcpMaxPacketLength, ← htok]
    omega
  · simp only [smcpOutboundBegin, Outbound.putMarker, Buffer.store, ← htok]
    have := Buffer.top_copy_le (b := s.outbound.packetBytes) (i := 4) (l := token) hold
      (by unfold smcpMaxPacketLength; omega)
    unfold smcpMaxPacketLength at this ⊢
    omega

theorem composing_addOption (h : Composing s₀ s) {key : ℕ} (hkey : key ≤ coapOptionInvalid)
    (value : List UInt8) : Composing s₀ (smcpOutboundAddOption s key value).1 := by
  have h' := h
  obtain ⟨⟨opts, hc⟩, hw⟩ := h
  obtain ⟨opts1, hc1, hb1, he1⟩ := outboundAddOption_composed value s.autoOptions hc
    hw.bounded hkey
  exact Composing.of_outbound h' rfl rfl ⟨opts1, hc1⟩ hb1 (he1.top_le_max hb1 hc)

/-- Appending keeps the bound exactly when there is room for the automatic options too. -/
theorem composing_appendContent (h : Composing s₀ s) (value : List UInt8) :
    (ComposeOp.Fits (.appendContent value) s → Composing s₀ (smcpOutboundAppendContent s value).1) ∧
      (Bounded (smcpOutboundAppendContent s value).1.outbound →
        ComposeOp.Fits (.appendContent value) s) := by
  -- the packet before, with its options and the bound on its size
  have h' := h
  obtain ⟨⟨opts, hc⟩, hw⟩ := h
  have hspace := hw.bounded.spaceRemaining_eq hc
  obtain ⟨opts1, hc1, hb1, he1⟩ := getContentPtr_composed s.autoOptions hc hw.bounded
  have hptr := getContentPtr_contentPtr s.autoOptions hc hw.bounded
  have hmax := hc.max_eq
  -- the content is cut to what 16 bits can say
  have hlen : (value.take (word16 value.length)).length = word16 value.length := by
    rw [List.length_take]
    exact Nat.min_eq_left (Nat.mod_le _ _)
  -- the automatic options come out first, so the content is behind them
  set o1 := outboundGetContentPtr s.autoOptions s.outbound with ho1
  have hbo := hw.bounded
  unfold Bounded at hbo
  unfold smcpMaxPacketLength at hmax
  by_cases hroom : word16 value.length < s.outbound.spaceRemaining
  · have hcl := he1.contentLen_eq
    have heq : (smcpOutboundAppendContent s value).1.outbound =
        { o1 with
          packetBytes := o1.packetBytes.copy (o1.contentPtr + o1.contentLen)
            (value.take (word16 value.length))
          contentLen := word16 (o1.contentLen + word16 value.length) } := by
      unfold smcpOutboundAppendContent outboundAppendContent
      rw [if_pos hroom]
    have hsum : word16 (o1.contentLen + word16 value.length) = o1.contentLen + word16 value.length :=
      word16_of_lt (by omega)
    have hmax1 := he1.max_eq
    refine ⟨fun hfits => ?_, fun hb _ => ?_⟩
    · have hfits := hfits hroom
      refine Composing.of_outbound h' heq (by unfold smcpOutboundAppendContent; rfl)
        ⟨opts1, hc1.copy _ (by omega)⟩ ?_ ?_
      · simp only [Bounded, hsum]
        omega
      · refine Buffer.top_copy_le ?_ ?_
        · exact he1.top_le_max hb1 hc
        · rw [hlen]
          unfold smcpMaxPacketLength
          omega
    · rw [heq] at hb
      simp only [Bounded, hsum] at hb
      omega
  · have heq : (smcpOutboundAppendContent s value).1 = s := by
      unfold smcpOutboundAppendContent outboundAppendContent
      rw [if_neg hroom]
    rw [heq]
    exact ⟨fun _ => h', fun _ hr => absurd hr hroom⟩

/-- A formatted text keeps the bound exactly when its whole length fits. -/
theorem composing_setContentFormatted (h : Composing s₀ s) (text : List UInt8) :
    (ComposeOp.Fits (.setContentFormatted text) s →
        Composing s₀ (smcpOutboundSetContentFormatted s text).1) ∧
      (Bounded (smcpOutboundSetContentFormatted s text).1.outbound →
        ComposeOp.Fits (.setContentFormatted text) s) := by
  have h' := h
  obtain ⟨⟨opts, hc⟩, hw⟩ := h
  obtain ⟨opts1, hc1, hb1, he1⟩ := getContentPtr_composed s.autoOptions hc hw.bounded
  have hptr := getContentPtr_contentPtr s.autoOptions hc hw.bounded
  have hspace1 := hb1.spaceRemaining_eq hc1
  have hmax := hc.max_eq
  have htop1 := he1.top_le_max hb1 hc
  set o1 := outboundGetContentPtr s.autoOptions s.outbound with ho1
  have hcl := he1.contentLen_eq
  have hmax1 := he1.max_eq
  have hbo1 := hb1
  unfold Bounded at hbo1
  unfold smcpMaxPacketLength at hmax
  -- what vsnprintf writes ends inside the packet
  set written := if o1.spaceRemaining = 0 then [] else text.take (o1.spaceRemaining - 1) ++ [0]
    with hwritten
  have hwlen : written.length ≤ o1.spaceRemaining := by
    rw [hwritten]
    split_ifs
    · simp
    · simp only [List.length_append, List.length_take, List.length_singleton]
      omega
  have htop : (o1.packetBytes.copy (o1.contentPtr + o1.contentLen) written).top ≤
      max s.outbound.packetBytes.top (smcpMaxPacketLength + 1) := by
    refine Buffer.top_copy_le htop1 ?_
    unfold smcpMaxPacketLength
    omega
  by_cases hlen : word16 text.length = 0
  · have heq : (smcpOutboundSetContentFormatted s text).1.outbound =
        { o1 with packetBytes := o1.packetBytes.copy (o1.contentPtr + o1.contentLen) written } := by
      unfold smcpOutboundSetContentFormatted outboundSetContentFormatted
      simp only [hlen, ne_eq, not_true_eq_false, ↓reduceIte]
      rfl
    refine ⟨fun _ => ?_, fun _ hne => absurd hlen hne⟩
    exact Composing.of_outbound h' heq (by unfold smcpOutboundSetContentFormatted; rfl)
      ⟨opts1, hc1.copy _ (by omega)⟩ (by simpa [Bounded] using hbo1) htop
  · have heq : (smcpOutboundSetContentFormatted s text).1.outbound =
        { o1 with
          packetBytes := o1.packetBytes.copy (o1.contentPtr + o1.contentLen) written
          contentLen := word16 (word16 text.length + o1.contentLen) } := by
      unfold smcpOutboundSetContentFormatted outboundSetContentFormatted
      simp only [hlen, ne_eq, not_false_eq_true, ↓reduceIte]
      rfl
    refine ⟨fun hfits => ?_, fun hb _ => ?_⟩
    · have hfits := hfits hlen
      refine Composing.of_outbound h' heq (by unfold smcpOutboundSetContentFormatted; rfl)
        ⟨opts1, hc1.copy _ (by omega)⟩ ?_ htop
      simp only [Bounded, hcl]
      omega
    · rw [heq] at hb
      simp only [Bounded, hcl] at hb
      omega

theorem composing_send (h : Composing s₀ s) : Composing s₀ (smcpOutboundSend s).1 := by
  have hnote : Composing s₀ (noteSentCode s) := by
    unfold noteSentCode
    split
    · exact h.congr rfl rfl
    · exact h
  have hhook : Composing s₀ (smcpOutboundSendHook (noteSentCode s)).1 := by
    obtain ⟨⟨opts, hc⟩, hw⟩ := hnote
    set s1 := noteSentCode s with hs1
    obtain ⟨opts1, hc1, hb1, he1⟩ := getContentPtr_composed s1.autoOptions hc hw.bounded
    have hcomp : Composing s₀ (smcpOutboundGetContentPtr s1) :=
      Composing.of_outbound ⟨⟨opts, hc⟩, hw⟩ rfl rfl ⟨opts1, hc1⟩ hb1 (he1.top_le_max hb1 hc)
    set s2 := smcpOutboundGetContentPtr s1 with hs2
    -- the hook takes at most header and content from the packet
    have hlen : (s2.outbound.bytes s2.outbound.sendLength).length ≤ smcpMaxPacketLength := by
      obtain ⟨⟨opts2, hc2⟩, hb2, -⟩ := hcomp
      have hmax := hc2.max_eq
      have hword : word16 s2.outbound.contentPtr ≤ s2.outbound.contentPtr := Nat.mod_le _ _
      unfold Bounded at hb2
      unfold Outbound.bytes
      rw [List.length_take]
      refine (Nat.min_le_left _ _).trans ?_
      simp only [Outbound.sendLength]
      split_ifs <;> omega
    have hsent (d : Datagram) (hd : d.bytes.length ≤ smcpMaxPacketLength) :
        Composing s₀ { s2 with sent := s2.sent ++ [d] } := by
      obtain ⟨hc2, hb2, hw2, new, hnew, hall⟩ := hcomp
      refine ⟨hc2, hb2, hw2, new ++ [d], by simp [hnew], fun e he => ?_⟩
      rcases List.mem_append.1 he with he | he
      · exact hall e he
      · rw [List.mem_singleton.1 he]
        exact hd
    unfold smcpOutboundSendHook
    simp only [← hs2]
    split_ifs
    · exact hcomp
    · exact hsent _ hlen
    · exact hsent _ hlen
    · exact hsent _ hlen
  unfold smcpOutboundSend
  simp only
  split_ifs
  · exact hhook
  · exact hhook.congr rfl rfl

/-- One call: `Fits` is what it takes to keep the invariant. -/
theorem composing_exec (h : Composing s₀ s) (op : ComposeOp) :
    (op.Fits s → Composing s₀ (op.exec s)) ∧ (Bounded (op.exec s).outbound → op.Fits s) := by
  cases op with
  | begin code tt => exact ⟨fun _ => composing_begin (.inl h.2) code tt, fun _ => trivial⟩
  | addOption key value =>
    exact ⟨fun _ => composing_addOption h (Nat.le_of_lt_succ key.isLt) value, fun _ => trivial⟩
  | addOptionUint key value =>
    exact ⟨fun _ => composing_addOption h (Nat.le_of_lt_succ key.isLt) _, fun _ => trivial⟩
  | appendContent value => exact composing_appendContent h value
  | setContentFormatted text => exact composing_setContentFormatted h text
  | send => exact ⟨fun _ => composing_send h, fun _ => trivial⟩

end

/-- In every transaction context, a sequence of calls stays within the packet exactly when every
appended piece leaves room for the automatic options that are due and every formatted text
fits. -/
theorem composeRun_withinPacket_iff (s : Instance) (code tt : ℕ) (ops : List ComposeOp) :
    AllStates ComposeOp.exec (WithinPacket s) (smcpOutboundBegin s code tt).1 ops ↔
      AllSteps ComposeOp.exec ComposeOp.Fits (smcpOutboundBegin s code tt).1 ops :=
  allStates_iff_allSteps (Composing s) (fun _ h => h.2)
    (fun _ op h hfits => (composing_exec h op).1 hfits)
    (fun _ op h hw => (composing_exec h op).2 hw.bounded)
    (composing_begin (.inr rfl) code tt) ops

/-- A formatted text of 1100 bytes is taken to be content of 1100 bytes. -/
theorem composeRun_exceeds_packet :
    ¬AllStates ComposeOp.exec (WithinPacket (smcpCreate default (fun _ => 0) fun _ => 1))
      (smcpOutboundBegin (smcpCreate default (fun _ => 0) fun _ => 1) coapMethodGet
        coapTransTypeConfirmable).1
      [.setContentFormatted (List.replicate 1100 0x41)] := by
  rintro ⟨-, hw⟩
  have hfits := (composing_setContentFormatted (composing_begin (.inr rfl) coapMethodGet
    coapTransTypeConfirmable) (List.replicate 1100 0x41)).2 hw.bounded
  simp only [ComposeOp.Fits, List.length_replicate] at hfits
  have hle := hfits (by decide)
  have hmax : (smcpOutboundBegin (smcpCreate default (fun _ => 0) fun _ => 1) coapMethodGet
    coapTransTypeConfirmable).1.outbound.maxPacketLen = 1032 := rfl
  have hlen : (smcpOutboundBegin (smcpCreate default (fun _ => 0) fun _ => 1) coapMethodGet
    coapTransTypeConfirmable).1.outbound.contentLen = 0 := rfl
  rw [hmax, hlen] at hle
  have : word16 (word16 1100 + 0) = 1100 := by decide
  omega

end Smcp
