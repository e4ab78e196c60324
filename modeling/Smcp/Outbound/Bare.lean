import Smcp.Outbound.Reply
import Smcp.Outbound.RoundTrip

/-!
# Messages without content

A message that was begun and got options, but no content: a request, or a response that says
nothing but its code. `Bare o opts` says that `o` is one, with these options.

* `bare_begin`, `Bare.addOption` and `Bare.getContentPtr` follow the calls;
* `Bare.hasOption_iff`: the datagram has the options of the list and no others;
* `Bare.send`: what is sent.
-/

namespace Smcp

open ByteMemory OptionFormat

/-- The message has the options `opts` and no content. -/
structure Bare (o : Outbound) (opts : List (ℕ × List UInt8)) : Prop where
  composed : Composed o opts
  bounded : Bounded o
  contentLen_eq : o.contentLen = 0
  version_eq : o.header.version = coapVersion
  tt_lt : o.header.tt < 4
  tokenLen_lt : o.header.tokenLen < 16

/-- The datagram is a message with the option. -/
def Datagram.HasOption (d : Datagram) (o : ℕ × List UInt8) : Prop :=
  ∃ split payload, Splits word16 (optionArea d.bytes) split payload ∧ o ∈ withKeys 0 split

/-- `opts'` is `opts` and perhaps more, with the given keys only. -/
structure GrowsBy (keys : List ℕ) (opts opts' : List (ℕ × List UInt8)) : Prop where
  subset : ∀ o ∈ opts, o ∈ opts'
  new : ∀ o ∈ opts', o ∈ opts ∨ o.1 ∈ keys

section
variable {o : Outbound} {opts opts' opts'' : List (ℕ × List UInt8)} {key : ℕ} {keys : List ℕ}
  {value : List UInt8}

theorem GrowsBy.refl (keys : List ℕ) (opts : List (ℕ × List UInt8)) : GrowsBy keys opts opts :=
  ⟨fun _ ho => ho, fun _ ho => .inl ho⟩

theorem GrowsBy.trans (h : GrowsBy keys opts opts') (h' : GrowsBy keys opts' opts'') :
    GrowsBy keys opts opts'' where
  subset o ho := h'.subset o (h.subset o ho)
  new o ho := (h'.new o ho).elim (h.new o) .inr

theorem mem_insertByKey (a b : ℕ × List UInt8) (l : List (ℕ × List UInt8)) :
    b ∈ insertByKey a l ↔ b = a ∨ b ∈ l := by
  induction l with
  | nil => simp [insertByKey]
  | cons c l ih =>
    rw [insertByKey]
    split_ifs
    · simp only [List.mem_cons, ih]
      tauto
    · simp only [List.mem_cons]

theorem growsBy_insertByKey (hkey : key ∈ keys) :
    GrowsBy keys opts (insertByKey (key, value) opts) where
  subset o ho := (mem_insertByKey _ _ _).2 (.inr ho)
  new o ho := by
    rcases (mem_insertByKey _ _ _).1 ho with rfl | hmem
    · exact .inr hkey
    · exact .inl hmem

theorem bare_begin (s : Instance) (code tt : ℕ) :
    Bare (smcpOutboundBegin s code tt).1.outbound [] := by
  obtain ⟨-, hw⟩ := composing_begin (Or.inr (Eq.refl s)) code tt
  have hlen := length_smcpOutboundToken_le s code
  exact ⟨composed_begin s code tt, hw.bounded, rfl, rfl, Nat.mod_lt _ (by decide),
    Nat.lt_succ_of_le hlen⟩

/-- The same message with other options. -/
theorem Bare.of_extends {o' : Outbound} (h : Bare o opts) (he : Extends o o')
    (hc : Composed o' opts') (hb : Bounded o') : Bare o' opts' where
  composed := hc
  bounded := hb
  contentLen_eq := he.contentLen_eq.trans h.contentLen_eq
  version_eq := by rw [he.header_eq, h.version_eq]
  tt_lt := by
    rw [he.header_eq]
    exact h.tt_lt
  tokenLen_lt := by
    rw [he.header_eq]
    exact h.tokenLen_lt

/-- One option is put in, or has no room. -/
theorem Bare.addOption_ (h : Bare o opts) (hkey : key ≤ coapOptionInvalid) (value : List UInt8) :
    ∃ opts', Bare (smcpOutboundAddOption_ o key value).1 opts' ∧ GrowsBy [key] opts opts' ∧
      Extends o (smcpOutboundAddOption_ o key value).1 ∧
      ((smcpOutboundAddOption_ o key value).2 = smcpStatusOk →
        (key, value.take (word16 value.length)) ∈ opts') := by
  by_cases hspace : word16 value.length + 8 ≤ o.spaceRemaining
  · obtain ⟨-, hc, hb, he⟩ := addOption_spec h.composed h.bounded hkey hspace
    exact ⟨_, h.of_extends he hc hb, growsBy_insertByKey (List.mem_singleton.2 rfl), he,
      fun _ => (mem_insertByKey _ _ _).2 (.inl rfl)⟩
  · rw [addOption_tooBig hspace]
    exact ⟨opts, h, GrowsBy.refl _ _, Extends.refl o, fun hok => absurd hok tooBig_ne_ok⟩

theorem GrowsBy.mono {keys' : List ℕ} (h : GrowsBy keys opts opts')
    (hkeys : ∀ k ∈ keys, k ∈ keys') : GrowsBy keys' opts opts' :=
  ⟨h.subset, fun o ho => (h.new o ho).imp_right (hkeys o.1)⟩

/-- The automatic options. -/
theorem Bare.upToKey (h : Bare o opts) (auto : AutoOptions) (key : ℕ) :
    ∃ opts', Bare (smcpOutboundAddOptionsUpToKey_ auto o key).1 opts' ∧
      GrowsBy [coapOptionObserve, coapOptionBlock2] opts opts' ∧
      Extends o (smcpOutboundAddOptionsUpToKey_ auto o key).1 := by
  have hblock2 : ∃ opts', Bare (addAutoBlock2 auto o key).1 opts' ∧
      GrowsBy [coapOptionObserve, coapOptionBlock2] opts opts' ∧
      Extends o (addAutoBlock2 auto o key).1 := by
    unfold addAutoBlock2
    split_ifs
    · obtain ⟨opts1, hb, hg, he, -⟩ := h.addOption_ (by decide : coapOptionBlock2 ≤ _)
        (uintOptionValue auto.nextBlock2)
      exact ⟨opts1, hb, hg.mono (by simp), he⟩
    · exact ⟨opts, h, GrowsBy.refl _ _, Extends.refl o⟩
  obtain ⟨opts1, hb1, hg1, he1⟩ := hblock2
  unfold smcpOutboundAddOptionsUpToKey_
  dsimp only
  generalize addAutoBlock2 auto o key = r at hb1 he1 ⊢
  unfold addAutoObserve
  split_ifs
  · obtain ⟨opts2, hb2, hg2, he2, -⟩ := hb1.addOption_ (by decide : coapOptionObserve ≤ _) []
    exact ⟨opts2, hb2, hg1.trans (hg2.mono (by simp)), he1.trans he2⟩
  · exact ⟨opts1, hb1, hg1, he1⟩

/-- `smcp_outbound_add_option`, whatever it returns. -/
theorem Bare.addOption (h : Bare o opts) (auto : AutoOptions) (hkey : key ≤ coapOptionInvalid)
    (value : List UInt8) :
    ∃ opts', Bare (outboundAddOption auto o key value).1 opts' ∧
      GrowsBy [coapOptionObserve, coapOptionBlock2, key] opts opts' ∧
      Extends o (outboundAddOption auto o key value).1 ∧
      ((outboundAddOption auto o key value).2 = smcpStatusOk → key ≠ coapOptionBlock2 →
        (key, value.take (word16 value.length)) ∈ opts') := by
  obtain ⟨opts1, hb1, hg1, he1⟩ := h.upToKey auto key
  have hg1' : GrowsBy [coapOptionObserve, coapOptionBlock2, key] opts opts1 := hg1.mono (by simp)
  unfold outboundAddOption
  dsimp only
  split_ifs with hbefore hskip
  · exact ⟨opts1, hb1, hg1', he1, fun hok => absurd hok hbefore⟩
  · exact ⟨opts1, hb1, hg1', he1, fun _ hne => absurd hskip.1 hne⟩
  · obtain ⟨opts2, hb2, hg2, he2, hin⟩ := hb1.addOption_ hkey value
    exact ⟨opts2, hb2, hg1'.trans (hg2.mono (by simp)), he1.trans he2, fun hok _ => hin hok⟩

theorem Bare.getContentPtr (h : Bare o opts) (auto : AutoOptions) :
    ∃ opts', Bare (outboundGetContentPtr auto o) opts' ∧
      GrowsBy [coapOptionObserve, coapOptionBlock2] opts opts' ∧
      Extends o (outboundGetContentPtr auto o) := by
  unfold outboundGetContentPtr
  split_ifs
  · exact h.upToKey auto coapOptionInvalid
  · exact ⟨opts, h, GrowsBy.refl _ _, Extends.refl o⟩

/-! ## The datagram -/

/-- The bytes that the send hook takes: header, token, options. -/
theorem Bare.bytes_eq (h : Bare o opts) :
    o.bytes o.sendLength =
      o.header.bytes ++ readBytes o.packetBytes.byte 4 o.header.tokenLen ++ encode 0 opts := by
  have hread := h.composed.read
  have hlt := h.composed.start_lt
  have hb := h.bounded
  have hmax := h.composed.max_eq
  unfold Bounded at hb
  unfold smcpMaxPacketLength at hmax
  unfold Outbound.optionsStart at hread hlt
  have hword : word16 o.contentPtr = o.contentPtr := word16_of_lt (by omega)
  have hsend : o.sendLength =
      4 + (o.header.tokenLen + (o.contentPtr - 1 - (4 + o.header.tokenLen))) := by
    simp only [Outbound.sendLength, h.contentLen_eq, hword]
    rw [if_pos trivial]
    omega
  have hlen : o.header.bytes.length = 4 := rfl
  rw [Outbound.bytes, hsend, Nat.add_sub_cancel_left, List.take_of_length_le
    (by rw [List.length_append, length_readBytes, hlen]), readBytes_add, hread, List.append_assoc]

theorem Bare.optionArea_eq (h : Bare o opts) :
    optionArea (o.bytes o.sendLength) = encode 0 opts := by
  have htt := h.tt_lt
  have htoken := h.tokenLen_lt
  have hfirst : (UInt8.ofNat (o.header.version * 64 + o.header.tt * 16 + o.header.tokenLen)).toNat =
      64 + o.header.tt * 16 + o.header.tokenLen := by
    rw [h.version_eq, UInt8.toNat_ofNat']
    unfold coapVersion
    omega
  have hlength : tokenLength (o.bytes o.sendLength) = o.header.tokenLen := by
    rw [h.bytes_eq]
    show (UInt8.ofNat (o.header.version * 64 + o.header.tt * 16 + o.header.tokenLen)).toNat % 16 = _
    rw [hfirst]
    omega
  have hlen : (o.header.bytes ++ readBytes o.packetBytes.byte 4 o.header.tokenLen).length =
      4 + o.header.tokenLen := by
    rw [List.length_append, length_readBytes]
    rfl
  rw [optionArea, hlength, h.bytes_eq, List.drop_left' hlen]

theorem Bare.splits (h : Bare o opts) :
    Splits word16 (optionArea (o.bytes o.sendLength)) (deltas 0 opts) none := by
  have hword (n : ℕ) (hn : n ≤ coapMaxOptionValueSize) : word16 n = n := by
    unfold coapMaxOptionValueSize at hn
    exact word16_of_lt (by omega)
  have hsplits : Splits word16 (encode 0 opts ++ []) (deltas 0 opts) none :=
    splits_encode h.composed.ordered (by decide) (by decide) hword .nil
  rw [h.optionArea_eq, ← List.append_nil (encode 0 opts)]
  exact hsplits

/-- The datagram has the options of the message. -/
theorem Bare.hasOption_iff (h : Bare o opts) (dest : SockAddr) (x : ℕ × List UInt8) :
    (⟨dest, o.bytes o.sendLength⟩ : Datagram).HasOption x ↔ x ∈ opts := by
  have hkeys := withKeys_deltas h.composed.ordered
  constructor
  · rintro ⟨split, payload, hs, hx⟩
    obtain ⟨heq, -⟩ := hs.unique h.splits
    rw [heq, hkeys] at hx
    exact hx
  · intro hx
    refine ⟨_, _, h.splits, ?_⟩
    rw [hkeys]
    exact hx

/-- Nothing is sent, or the message with the automatic options that were still due. -/
theorem Bare.send {s : Instance} (h : Bare s.outbound opts) :
    (smcpOutboundSend s).1.sent = s.sent ∨
      ∃ o opts', (smcpOutboundSend s).1.sent = s.sent ++ [⟨o.saddr, o.bytes o.sendLength⟩] ∧
        Bare o opts' ∧ GrowsBy [coapOptionObserve, coapOptionBlock2] opts opts' ∧
        o.header = s.outbound.header := by
  have hnote : (noteSentCode s).outbound = s.outbound ∧ (noteSentCode s).sent = s.sent := by
    unfold noteSentCode
    split <;> exact ⟨rfl, rfl⟩
  obtain ⟨opts', hb, hg, he⟩ := h.getContentPtr (noteSentCode s).autoOptions
  rw [send_sent]
  by_cases hfamily : (outboundGetContentPtr (noteSentCode s).autoOptions
      (noteSentCode s).outbound).saddr.family = 0
  · left
    unfold smcpOutboundSendHook
    dsimp only [smcpOutboundGetContentPtr]
    rw [if_pos hfamily]
    exact hnote.2
  · right
    rw [sendHook_sent hfamily, hnote.1, hnote.2]
    exact ⟨_, opts', rfl, hb, hg, he.header_eq⟩

end

end Smcp
