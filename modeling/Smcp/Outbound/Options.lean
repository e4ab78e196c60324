import Smcp.Outbound.Compose

/-!
# The options of the message being composed

`Composed o opts` says that the outbound packet holds the option list `opts` and the
start-of-content marker behind it, and `Bounded o` that header and content fit the packet.

* `addOption_spec`: one accepted option is inserted in its place;
* `addOptionsUpToKey_spec`, `getContentPtr_spec`: the automatic options keep all of this, and
  `pendingOptionBytes` is how many bytes they take.
-/

namespace Smcp

open ByteMemory OptionFormat

/-- Even a token that was never checked has at most 15 bytes. -/
theorem length_smcpOutboundToken_le (s : Instance) (code : ℕ) :
    (smcpOutboundToken s code).length ≤ 15 := by
  unfold smcpOutboundToken
  have hreq : (smcpOutboundToken.requestToken s code).length ≤ 15 := by
    unfold smcpOutboundToken.requestToken
    split
    · split_ifs <;> simp [tokenBytes]
    · simp
  split
  · split_ifs
    · rw [length_readBytes, headerTokenLen]
      omega
    · exact hreq
  · exact hreq

/-- The packet holds the options `opts`, each in its place, and the marker. -/
structure Composed (o : Outbound) (opts : List (ℕ × List UInt8)) : Prop where
  ordered : Ordered coapOptionInvalid coapMaxOptionValueSize 0 opts
  read : readBytes o.packetBytes.byte o.optionsStart (o.contentPtr - 1 - o.optionsStart) =
    encode 0 opts
  start_lt : o.optionsStart < o.contentPtr
  marker : o.packetBytes.byte (o.contentPtr - 1) = 0xFF
  lastKey_eq : o.lastOptionKey = lastKey 0 opts
  max_eq : o.maxPacketLen = smcpMaxPacketLength

/-- Header and content fit the packet. -/
def Bounded (o : Outbound) : Prop := o.contentPtr + o.contentLen ≤ o.maxPacketLen

/-- `o'` is `o` with more options: header, token and content length are the same, and nothing was
written behind the marker. -/
structure Extends (o o' : Outbound) : Prop where
  header_eq : o'.header = o.header
  contentLen_eq : o'.contentLen = o.contentLen
  max_eq : o'.maxPacketLen = o.maxPacketLen
  saddr_eq : o'.saddr = o.saddr
  ptr_le : o.contentPtr ≤ o'.contentPtr
  top_le : o'.packetBytes.top ≤ max o.packetBytes.top o'.contentPtr
  token_eq : ∀ j, j < o.optionsStart → o'.packetBytes.byte j = o.packetBytes.byte j

section
variable {o o' o'' : Outbound} {opts : List (ℕ × List UInt8)} {key : ℕ} {value : List UInt8}
  {auto : AutoOptions}

theorem Extends.refl (o : Outbound) : Extends o o :=
  ⟨rfl, rfl, rfl, rfl, le_refl _, le_max_left _ _, fun _ _ => rfl⟩

theorem Extends.optionsStart_eq (h : Extends o o') : o'.optionsStart = o.optionsStart := by
  rw [Outbound.optionsStart, Outbound.optionsStart, h.header_eq]

theorem Extends.trans (h : Extends o o') (h' : Extends o' o'') : Extends o o'' where
  header_eq := h'.header_eq.trans h.header_eq
  contentLen_eq := h'.contentLen_eq.trans h.contentLen_eq
  max_eq := h'.max_eq.trans h.max_eq
  saddr_eq := h'.saddr_eq.trans h.saddr_eq
  ptr_le := h.ptr_le.trans h'.ptr_le
  top_le := by
    have := h.top_le
    have := h'.top_le
    have := h'.ptr_le
    omega
  token_eq j hj := by
    rw [h'.token_eq j (by rw [h.optionsStart_eq]; exact hj), h.token_eq j hj]

/-- The position of the content, by the length of the encoded options. -/
theorem Composed.contentPtr_eq (h : Composed o opts) :
    o.contentPtr = o.optionsStart + 1 + (encode 0 opts).length := by
  have hlen := congrArg List.length h.read
  have := h.start_lt
  rw [length_readBytes] at hlen
  omega

/-- The packet tells what its options are. -/
theorem Composed.unique {opts' : List (ℕ × List UInt8)} (h : Composed o opts)
    (h' : Composed o opts') : opts = opts' :=
  encode_inj h.ordered h'.ordered (by decide) (by decide) (h.read.symm.trans h'.read)

theorem Bounded.spaceRemaining_eq (h : Bounded o) (hc : Composed o opts) :
    o.spaceRemaining = o.maxPacketLen - (o.contentPtr + o.contentLen) := by
  have hmax := hc.max_eq
  unfold Bounded at h
  unfold smcpMaxPacketLength at hmax
  unfold Outbound.spaceRemaining
  simp only [word16_of_lt (show o.contentPtr < 65536 by omega),
    word16_of_lt (show o.contentPtr + o.contentLen < 65536 by omega)]
  split_ifs <;> omega

/-- The same bytes up to the marker, and other content. -/
theorem Composed.of_bytes (hc : Composed o opts) {b : Buffer} (len : ℕ)
    (hb : ∀ j, j < o.contentPtr → b.byte j = o.packetBytes.byte j) :
    Composed { o with packetBytes := b, contentLen := len } opts := by
  have hlt := hc.start_lt
  refine ⟨hc.ordered, ?_, hlt, ?_, hc.lastKey_eq, hc.max_eq⟩
  · rw [← hc.read]
    refine readBytes_congr fun j hj hj' => hb j ?_
    simp only [Outbound.optionsStart] at *
    omega
  · rw [← hc.marker]
    exact hb _ (Nat.sub_lt ((Nat.zero_le _).trans_lt hlt) (by decide))

/-- Writing behind the marker leaves the options alone. -/
theorem Composed.copy (hc : Composed o opts) {i len : ℕ} (l : List UInt8) (hi : o.contentPtr ≤ i) :
    Composed { o with packetBytes := o.packetBytes.copy i l, contentLen := len } opts :=
  hc.of_bytes len fun _ hj => Buffer.copy_of_outside _ _ (Or.inl (hj.trans_le hi))

theorem spaceRemaining_le (o : Outbound) : o.spaceRemaining ≤ o.maxPacketLen := by
  unfold Outbound.spaceRemaining
  dsimp only
  split_ifs <;> omega

/-- One option that has room is put in its place. -/
theorem addOption_inserts (hc : Composed o opts) (hkey : key ≤ coapOptionInvalid)
    (hspace : word16 value.length + 8 ≤ o.spaceRemaining) :
    (smcpOutboundAddOption_ o key value).2 = smcpStatusOk ∧
      Composed (smcpOutboundAddOption_ o key value).1
        (insertByKey (key, value.take (word16 value.length)) opts) ∧
      (smcpOutboundAddOption_ o key value).1.contentPtr ≤ o.contentPtr + word16 value.length + 5 ∧
      Extends o (smcpOutboundAddOption_ o key value).1 := by
  -- the value is cut to what 16 bits can say
  set v := value.take (word16 value.length) with hv
  have hvlen : v.length = word16 value.length := by
    rw [hv, List.length_take]
    exact Nat.min_eq_left (Nat.mod_le _ _)
  have hptr := hc.contentPtr_eq
  have hlt := hc.start_lt
  have hmax := hc.max_eq
  unfold smcpMaxPacketLength at hmax
  have hsp := spaceRemaining_le o
  have hvmax : v.length ≤ coapMaxOptionValueSize := by
    unfold coapMaxOptionValueSize
    omega
  -- the option is put into the packet by the function of the CoAP module
  obtain ⟨b', n, heq, hn, hread, hkeep, htop⟩ := coapInsertOption_spec (b := o.packetBytes)
    (v := v) (by omega : o.optionsStart ≤ o.contentPtr - 1)
    hc.ordered hc.read hkey hvmax
  rw [hvlen] at heq
  unfold smcpOutboundAddOption_
  simp only [show ¬o.spaceRemaining < word16 value.length + 8 by omega, ↓reduceIte, ← hv,
    show o.contentPtr ≠ o.optionsStart by omega, ne_eq, not_false_eq_true, heq,
    Outbound.putMarker]
  refine ⟨trivial, ⟨?_, ?_, ?_, ?_, ?_, hc.max_eq⟩, ?_, ⟨rfl, rfl, rfl, rfl, ?_, ?_, ?_⟩⟩
  · exact hc.ordered.insertByKey (Nat.zero_le _) hkey hvmax
  · rw [← hread]
    simp only [Outbound.optionsStart] at hlt ⊢
    rw [show o.contentPtr - 1 + n + 1 - 1 - (4 + o.header.tokenLen) =
      o.contentPtr - 1 - (4 + o.header.tokenLen) + n by omega]
    refine readBytes_congr fun j hj hj' => Buffer.store_of_ne _ _ ?_
    omega
  · simp only [Outbound.optionsStart] at hlt ⊢
    omega
  · simp
  · rw [lastKey_insertByKey hc.ordered (Nat.zero_le _), hc.lastKey_eq]
    simp only
    split_ifs <;> omega
  · omega
  · simp only
    omega
  · simp only [Buffer.store]
    omega
  · intro j hj
    rw [Buffer.store_of_ne _ _ (by omega), hkeep j (by omega)]

/-- In a packet that is within its bound, it stays so. -/
theorem addOption_spec (hc : Composed o opts) (hb : Bounded o) (hkey : key ≤ coapOptionInvalid)
    (hspace : word16 value.length + 8 ≤ o.spaceRemaining) :
    (smcpOutboundAddOption_ o key value).2 = smcpStatusOk ∧
      Composed (smcpOutboundAddOption_ o key value).1
        (insertByKey (key, value.take (word16 value.length)) opts) ∧
      Bounded (smcpOutboundAddOption_ o key value).1 ∧
      Extends o (smcpOutboundAddOption_ o key value).1 := by
  obtain ⟨hok, hc', hptr, he⟩ := addOption_inserts hc hkey hspace
  refine ⟨hok, hc', ?_, he⟩
  rw [hb.spaceRemaining_eq hc] at hspace
  rw [Bounded, he.contentLen_eq, he.max_eq]
  omega

/-- The room that an option takes. -/
theorem addOption_space (hc : Composed o opts) (hb : Bounded o) (hkey : key ≤ coapOptionInvalid)
    (hspace : word16 value.length + 8 ≤ o.spaceRemaining) :
    o.spaceRemaining ≤ (smcpOutboundAddOption_ o key value).1.spaceRemaining +
      word16 value.length + 5 := by
  obtain ⟨-, hc', hptr, he⟩ := addOption_inserts hc hkey hspace
  obtain ⟨-, -, hb', -⟩ := addOption_spec hc hb hkey hspace
  rw [hb.spaceRemaining_eq hc, hb'.spaceRemaining_eq hc', he.contentLen_eq, he.max_eq]
  omega

/-- An option without room changes nothing. -/
theorem addOption_tooBig (hspace : ¬word16 value.length + 8 ≤ o.spaceRemaining) :
    smcpOutboundAddOption_ o key value = (o, smcpStatusMessageTooBig) := by
  unfold smcpOutboundAddOption_
  simp only [show o.spaceRemaining < word16 value.length + 8 by omega, ↓reduceIte]

variable (value) in
/-- Either way the packet stays in order. -/
theorem addOption_composed (hc : Composed o opts) (hb : Bounded o) (hkey : key ≤ coapOptionInvalid) :
    ∃ opts', Composed (smcpOutboundAddOption_ o key value).1 opts' ∧
      Bounded (smcpOutboundAddOption_ o key value).1 ∧
      Extends o (smcpOutboundAddOption_ o key value).1 := by
  by_cases hspace : word16 value.length + 8 ≤ o.spaceRemaining
  · obtain ⟨-, h⟩ := addOption_spec hc hb hkey hspace
    exact ⟨_, h⟩
  · rw [addOption_tooBig hspace]
    exact ⟨opts, hc, hb, Extends.refl o⟩

/-! ## Automatic options -/

variable (key auto) in
theorem addAutoBlock2_composed (hc : Composed o opts) (hb : Bounded o) :
    ∃ opts', Composed (addAutoBlock2 auto o key).1 opts' ∧ Bounded (addAutoBlock2 auto o key).1 ∧
      Extends o (addAutoBlock2 auto o key).1 := by
  unfold addAutoBlock2
  split_ifs
  · exact addOption_composed _ hc hb (by decide)
  · exact ⟨opts, hc, hb, Extends.refl o⟩

variable (key auto) in
theorem addAutoObserve_composed (ret : ℤ) (hc : Composed o opts) (hb : Bounded o) :
    ∃ opts', Composed (addAutoObserve auto o key ret).1 opts' ∧
      Bounded (addAutoObserve auto o key ret).1 ∧ Extends o (addAutoObserve auto o key ret).1 := by
  unfold addAutoObserve
  split_ifs
  · exact addOption_composed _ hc hb (by decide)
  · exact ⟨opts, hc, hb, Extends.refl o⟩

variable (key auto) in
/-- The automatic options keep the packet in order. -/
theorem addOptionsUpToKey_composed (hc : Composed o opts) (hb : Bounded o) :
    ∃ opts', Composed (smcpOutboundAddOptionsUpToKey_ auto o key).1 opts' ∧
      Bounded (smcpOutboundAddOptionsUpToKey_ auto o key).1 ∧
      Extends o (smcpOutboundAddOptionsUpToKey_ auto o key).1 := by
  unfold smcpOutboundAddOptionsUpToKey_
  obtain ⟨opts1, hc1, hb1, he1⟩ := addAutoBlock2_composed key auto hc hb
  obtain ⟨opts2, hc2, hb2, he2⟩ := addAutoObserve_composed key auto
    (addAutoBlock2 auto o key).2 hc1 hb1
  exact ⟨opts2, hc2, hb2, he1.trans he2⟩

variable (auto) in
theorem getContentPtr_composed (hc : Composed o opts) (hb : Bounded o) :
    ∃ opts', Composed (outboundGetContentPtr auto o) opts' ∧
      Bounded (outboundGetContentPtr auto o) ∧ Extends o (outboundGetContentPtr auto o) := by
  unfold outboundGetContentPtr
  split_ifs
  · exact addOptionsUpToKey_composed _ auto hc hb
  · exact ⟨opts, hc, hb, Extends.refl o⟩

variable (value auto) in
theorem outboundAddOption_composed (hc : Composed o opts) (hb : Bounded o)
    (hkey : key ≤ coapOptionInvalid) :
    ∃ opts', Composed (outboundAddOption auto o key value).1 opts' ∧
      Bounded (outboundAddOption auto o key value).1 ∧
      Extends o (outboundAddOption auto o key value).1 := by
  obtain ⟨opts1, hc1, hb1, he1⟩ := addOptionsUpToKey_composed key auto hc hb
  unfold outboundAddOption
  simp only
  split_ifs
  · exact ⟨opts1, hc1, hb1, he1⟩
  · exact ⟨opts1, hc1, hb1, he1⟩
  · obtain ⟨opts2, hc2, hb2, he2⟩ := addOption_composed value hc1 hb1 hkey
    exact ⟨opts2, hc2, hb2, he1.trans he2⟩

/-- An option that goes to the end moves the content by its own size. -/
theorem addOption_contentPtr (hc : Composed o opts) (hb : Bounded o)
    (hkey : key ≤ coapOptionInvalid) (hlast : o.lastOptionKey ≤ key)
    (hspace : word16 value.length + 8 ≤ o.spaceRemaining) :
    (smcpOutboundAddOption_ o key value).1.contentPtr =
      o.contentPtr + (optionBytes (key - o.lastOptionKey)
        (value.take (word16 value.length))).length := by
  obtain ⟨-, hc', -, he⟩ := addOption_spec hc hb hkey hspace
  have hend : insertByKey (key, value.take (word16 value.length)) opts =
      opts ++ [(key, value.take (word16 value.length))] :=
    insertByKey_of_lastKey_le hc.ordered (by rw [← hc.lastKey_eq]; exact hlast)
  rw [hc'.contentPtr_eq, hc.contentPtr_eq, he.optionsStart_eq, hend, encode_append, hc.lastKey_eq]
  simp only [encode, List.append_nil, List.length_append]
  omega

/-- How many bytes the automatic options will take once the content is asked for: Block2 if it is
due and has room, else Observe if it is. -/
def pendingOptionBytes (auto : AutoOptions) (o : Outbound) : ℕ :=
  let size := (uintOptionValue auto.nextBlock2).length
  if o.header.code = 0 then 0
  else if auto.nextBlock2 ≠ 0 ∧ o.lastOptionKey < coapOptionBlock2 ∧
      size + 8 ≤ o.spaceRemaining then
    1 + (if 13 ≤ coapOptionBlock2 - o.lastOptionKey then 1 else 0) + size
  else if auto.observe ∧ o.lastOptionKey < coapOptionObserve ∧ o.header.code < coapResult100 ∧
      8 ≤ o.spaceRemaining then 1
  else 0

theorem length_uintOptionValue_le (n : ℕ) : (uintOptionValue n).length ≤ 4 := by
  simp [uintOptionValue, htonl]

/-- The bytes of an automatic option. -/
theorem length_optionBytes_short {d : ℕ} {v : List UInt8} (hd : d < 269) (hv : v.length < 13) :
    (optionBytes d v).length = 1 + (if 13 ≤ d then 1 else 0) + v.length := by
  rw [length_optionBytes, extLen_nibble, extLen_nibble]
  split_ifs <;> omega

variable (auto) in
theorem getContentPtr_contentPtr (hc : Composed o opts) (hb : Bounded o) :
    (outboundGetContentPtr auto o).contentPtr = o.contentPtr + pendingOptionBytes auto o := by
  -- the value of Block2 has at most four bytes
  have hsize := length_uintOptionValue_le auto.nextBlock2
  have hword : word16 (uintOptionValue auto.nextBlock2).length =
      (uintOptionValue auto.nextBlock2).length := word16_of_lt (by omega)
  unfold outboundGetContentPtr pendingOptionBytes
  -- the automatic options come only with a code
  by_cases hcode : o.header.code = 0
  · simp [hcode]
  simp only [ne_eq, hcode, not_false_eq_true, ↓reduceIte]
  by_cases hblock : auto.nextBlock2 ≠ 0 ∧ o.lastOptionKey < coapOptionBlock2 ∧
      (uintOptionValue auto.nextBlock2).length + 8 ≤ o.spaceRemaining
  · -- Block2 goes in, and nothing is due after it
    rw [if_pos hblock]
    obtain ⟨hne, hlast, hspace⟩ := hblock
    have hspace' : word16 (uintOptionValue auto.nextBlock2).length + 8 ≤ o.spaceRemaining := by
      rw [hword]
      exact hspace
    obtain ⟨-, hc', -, -⟩ := addOption_spec hc hb (show coapOptionBlock2 ≤ coapOptionInvalid by decide)
      hspace'
    have hlast' := hc'.lastKey_eq
    rw [lastKey_insertByKey hc.ordered (Nat.zero_le _)] at hlast'
    have hptr := addOption_contentPtr hc hb (show coapOptionBlock2 ≤ coapOptionInvalid by decide)
      hlast.le hspace'
    have hb2 : addAutoBlock2 auto o coapOptionInvalid =
        smcpOutboundAddOption_ o coapOptionBlock2 (uintOptionValue auto.nextBlock2) :=
      if_pos ⟨hne, hlast, by decide⟩
    unfold smcpOutboundAddOptionsUpToKey_
    simp only [hb2]
    unfold addAutoObserve
    rw [if_neg, hptr, hword, List.take_length, length_optionBytes_short _ (by omega)]
    · exact lt_of_le_of_lt (Nat.sub_le _ _) (by decide)
    · rintro ⟨-, h, -⟩
      rw [hlast'] at h
      exact absurd (lt_of_le_of_lt (le_max_left _ _) h) (by decide)
  · rw [if_neg hblock]
    have hb2 : (addAutoBlock2 auto o coapOptionInvalid).1 = o := by
      unfold addAutoBlock2
      split_ifs with h
      · rw [addOption_tooBig (by rw [hword]; exact fun hs => hblock ⟨h.1, h.2.1, hs⟩)]
      · rfl
    unfold smcpOutboundAddOptionsUpToKey_
    simp only [hb2]
    unfold addAutoObserve
    by_cases hobs : auto.observe = true ∧ o.lastOptionKey < coapOptionObserve ∧
        o.header.code < coapResult100
    · rw [if_pos ⟨hobs.1, hobs.2.1, by decide, hcode, hobs.2.2⟩]
      by_cases hspace : 8 ≤ o.spaceRemaining
      · rw [if_pos ⟨hobs.1, hobs.2.1, hobs.2.2, hspace⟩]
        have hspace' : word16 ([] : List UInt8).length + 8 ≤ o.spaceRemaining := hspace
        rw [addOption_contentPtr hc hb (by decide) hobs.2.1.le hspace', List.take_nil,
          length_optionBytes_short _ (by simp), if_neg, List.length_nil]
        · exact fun h => absurd (h.trans (Nat.sub_le _ _)) (by decide)
        · exact lt_of_le_of_lt (Nat.sub_le _ _) (by decide)
      · have hspace' : ¬word16 ([] : List UInt8).length + 8 ≤ o.spaceRemaining := hspace
        rw [if_neg (fun h => hspace h.2.2.2), addOption_tooBig hspace', Nat.add_zero]
    · rw [if_neg (fun h => hobs ⟨h.1, h.2.1, h.2.2.2.2⟩), if_neg (fun h => hobs ⟨h.1, h.2.1, h.2.2.1⟩),
        Nat.add_zero]

end

end Smcp
