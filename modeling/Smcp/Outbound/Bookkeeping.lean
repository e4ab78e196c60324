import Smcp.Lib.Run
import Smcp.Outbound.Size

/-!
# The marker, the options and the last key

Sequences of calls that compose a message, `smcp_outbound_set_token` among them. A token of another
length discards the options, but `outbound.last_option_key` stays.

* `Bookkept`: the marker, the options and the last key fit together;
* `bookkept_exec`: what one call needs to keep that;
* `composeRun_bookkept_iff`: when it holds throughout.
-/

namespace Smcp

open ByteMemory OptionFormat Run

/-- The marker is in front of the content, the options are between the token and the marker, in the
order of their keys, and the last key is the largest one. -/
structure Bookkept (o : Outbound) : Prop where
  start_lt : o.optionsStart < o.contentPtr
  marker : o.packetBytes.byte (o.contentPtr - 1) = 0xFF
  options : ∃ opts, Ordered coapOptionInvalid coapMaxOptionValueSize 0 opts ∧
    readBytes o.packetBytes.byte o.optionsStart (o.contentPtr - 1 - o.optionsStart) =
      encode 0 opts ∧ o.lastOptionKey = largestKey opts

/-- The calls that compose a message. Option numbers have 16 bits. -/
inductive BookOp where
  | begin (code tt : ℕ)
  | setToken (token : List UInt8)
  | addOption (key : Fin 65536) (value : List UInt8)
  | addOptionUint (key : Fin 65536) (value : ℕ)

/-- Make the call and forget the status. -/
def BookOp.exec : BookOp → Instance → Instance
  | .begin code tt, s => (smcpOutboundBegin s code tt).1
  | .setToken token, s => (smcpOutboundSetToken s token).1
  | .addOption key value, s => (smcpOutboundAddOption s key value).1
  | .addOptionUint key value, s => (smcpOutboundAddOptionUint s key value).1

/-- A token of another length is set while there are no options with a key other than 0. -/
def BookOp.KeepsOptions : BookOp → Instance → Prop
  | .setToken token, s =>
    token.length ≤ 8 → token.length ≠ s.outbound.header.tokenLen → s.outbound.lastOptionKey = 0
  | _, _ => True

/-- The invariant of composition. -/
def Booked (s : Instance) : Prop := (∃ opts, Composed s.outbound opts) ∧ Bounded s.outbound

section
variable {s : Instance} {o : Outbound} {opts : List (ℕ × List UInt8)}

theorem Composed.bookkept (hc : Composed o opts) : Bookkept o where
  start_lt := hc.start_lt
  marker := hc.marker
  options := by
    refine ⟨opts, hc.ordered, hc.read, ?_⟩
    rw [hc.lastKey_eq, hc.ordered.lastKey_eq_max, Nat.zero_max]

/-- The bytes of the token are in front of the options. -/
theorem Composed.copyToken (hc : Composed o opts) {token : List UInt8}
    (hlen : token.length ≤ o.header.tokenLen) :
    Composed { o with packetBytes := o.packetBytes.copy 4 token } opts := by
  have hstart : o.optionsStart = 4 + o.header.tokenLen := rfl
  have hlt := hc.start_lt
  refine ⟨hc.ordered, ?_, hlt, ?_, hc.lastKey_eq, hc.max_eq⟩
  · rw [← hc.read]
    apply readBytes_congr
    intro j hj _
    exact Buffer.copy_of_outside _ _ (Or.inr (by change o.optionsStart ≤ j at hj; omega))
  · rw [← hc.marker]
    exact Buffer.copy_of_outside _ _ (Or.inr (by show _ ≤ o.contentPtr - 1; omega))

/-- What a token of another length leaves: no options. -/
theorem setToken_discards {token : List UInt8} (hshort : token.length ≤ 8)
    (hlen : token.length ≠ s.outbound.header.tokenLen) :
    let o := (smcpOutboundSetToken s token).1.outbound
    o.contentPtr = o.optionsStart + 1 ∧ o.optionsStart = 4 + token.length ∧
      o.packetBytes.byte (o.contentPtr - 1) = 0xFF ∧ o.contentLen = 0 ∧
      o.lastOptionKey = s.outbound.lastOptionKey ∧ o.maxPacketLen = s.outbound.maxPacketLen := by
  unfold smcpOutboundSetToken
  rw [if_pos hshort]
  dsimp only
  rw [if_pos (Ne.symm hlen)]
  refine ⟨rfl, rfl, ?_, rfl, rfl, rfl⟩
  have hmarker := Buffer.store_self s.outbound.packetBytes (4 + token.length) 0xFF
  exact (Buffer.copy_of_outside _ _ (Or.inr (by show _ ≤ 4 + token.length; omega))).trans hmarker

/-- `smcp_outbound_set_token`. -/
theorem booked_setToken (h : Booked s) (token : List UInt8) :
    (BookOp.KeepsOptions (.setToken token) s → Booked (smcpOutboundSetToken s token).1) ∧
      (Bookkept (smcpOutboundSetToken s token).1.outbound →
        BookOp.KeepsOptions (.setToken token) s) := by
  obtain ⟨⟨opts, hc⟩, hb⟩ := h
  by_cases hshort : token.length ≤ 8
  · by_cases hlen : token.length = s.outbound.header.tokenLen
    · have heq : (smcpOutboundSetToken s token).1 =
          { s with outbound.packetBytes := s.outbound.packetBytes.copy 4 token } := by
        unfold smcpOutboundSetToken
        rw [if_pos hshort]
        dsimp only
        rw [if_neg (not_not.2 hlen.symm)]
      rw [heq]
      exact ⟨fun _ => ⟨⟨opts, hc.copyToken hlen.le⟩, hb⟩, fun _ _ hne => absurd hlen hne⟩
    · obtain ⟨hptr, hstart, hmarker, hzero, hlast, hmax⟩ := setToken_discards hshort hlen
      have hempty (o : Outbound) (hptr : o.contentPtr = o.optionsStart + 1) :
          o.contentPtr - 1 - o.optionsStart = 0 := by omega
      constructor
      · intro hkeeps
        have hkey := hkeeps hshort hlen
        refine ⟨⟨[], trivial, ?_, by omega, hmarker, ?_, hmax.trans hc.max_eq⟩, ?_⟩
        · rw [hempty _ hptr]
          rfl
        · exact hlast.trans hkey
        · unfold Bounded
          rw [hptr, hstart, hzero, hmax, hc.max_eq]
          unfold smcpMaxPacketLength
          omega
      · rintro ⟨-, -, opts', hordered, hread, hkey⟩ - -
        rw [hempty _ hptr] at hread
        -- there are no options left
        have hnone : opts' = [] :=
          encode_inj hordered (show Ordered _ _ 0 [] from trivial) (by decide) (by decide) hread.symm
        rw [← hlast, hkey, hnone]
        rfl
  · have heq : (smcpOutboundSetToken s token).1 = s := by
      unfold smcpOutboundSetToken
      rw [if_neg hshort]
    rw [heq]
    exact ⟨fun _ => ⟨⟨opts, hc⟩, hb⟩, fun _ hle => absurd hle hshort⟩

theorem booked_begin (s : Instance) (code tt : ℕ) : Booked (smcpOutboundBegin s code tt).1 := by
  have hcomposing := @composing_begin s s (.inr rfl) code tt
  exact ⟨hcomposing.1, hcomposing.2.bounded⟩

theorem booked_addOption (h : Booked s) {key : ℕ} (hkey : key ≤ coapOptionInvalid)
    (value : List UInt8) : Booked (smcpOutboundAddOption s key value).1 := by
  obtain ⟨⟨opts, hc⟩, hb⟩ := h
  obtain ⟨opts', hc', hb', -⟩ := outboundAddOption_composed value s.autoOptions hc hb hkey
  exact ⟨⟨opts', hc'⟩, hb'⟩

/-- One call. -/
theorem booked_exec (h : Booked s) (op : BookOp) :
    (op.KeepsOptions s → Booked (op.exec s)) ∧ (Bookkept (op.exec s).outbound → op.KeepsOptions s) := by
  cases op with
  | begin code tt => exact ⟨fun _ => booked_begin s code tt, fun _ => trivial⟩
  | setToken token => exact booked_setToken h token
  | addOption key value =>
    exact ⟨fun _ => booked_addOption h (Nat.le_of_lt_succ key.isLt) value, fun _ => trivial⟩
  | addOptionUint key value =>
    exact ⟨fun _ => booked_addOption h (Nat.le_of_lt_succ key.isLt) _, fun _ => trivial⟩

end

/-- In a sequence of calls, the marker, the options and the last key fit together throughout exactly
when no token of another length is set while there are options. -/
theorem composeRun_bookkept_iff (s : Instance) (code tt : ℕ) (ops : List BookOp) :
    AllStates BookOp.exec (fun s => Bookkept s.outbound) (smcpOutboundBegin s code tt).1 ops ↔
      AllSteps BookOp.exec BookOp.KeepsOptions (smcpOutboundBegin s code tt).1 ops := by
  apply allStates_iff_allSteps Booked
  · intro s h
    obtain ⟨⟨opts, hc⟩, -⟩ := h
    exact hc.bookkept
  · exact fun s op h hkeeps => (booked_exec h op).1 hkeeps
  · exact fun s op h hbookkept => (booked_exec h op).2 hbookkept
  · exact booked_begin s code tt

/-- A GET with the option Uri-Path. -/
def begunGet : Instance :=
  (smcpOutboundBegin (smcpCreate default (fun _ => 0) fun _ => 1) coapMethodGet
    coapTransTypeConfirmable).1

/-- The last key stays when a token is set behind the option. -/
theorem composeRun_stale_lastKey :
    ¬∀ (s : Instance) (code tt : ℕ) (ops : List BookOp),
      AllStates BookOp.exec (fun s => Bookkept s.outbound) (smcpOutboundBegin s code tt).1 ops := by
  intro hclaim
  obtain ⟨-, -, hbookkept⟩ := hclaim (smcpCreate default (fun _ => 0) fun _ => 1) coapMethodGet
    coapTransTypeConfirmable [.addOption 11 [0x61], .setToken [0x01, 0x02]]
  have hbegun : Booked begunGet := booked_begin _ _ _
  have hoption : Booked (BookOp.exec (.addOption 11 [0x61]) begunGet) :=
    (booked_exec hbegun _).1 trivial
  have hkeeps := (booked_exec hoption (.setToken [0x01, 0x02])).2 hbookkept
  have hkey := hkeeps (by decide) (by decide +kernel)
  exact absurd hkey (by decide +kernel)

end Smcp
