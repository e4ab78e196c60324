import Smcp.Coap.Decode

/-!
# What the packet verifier accepts

`WellFormed` says what a CoAP message is, with the reading of declared option lengths as a
parameter. `coap_verify_packet` accepts the messages that are well formed when lengths are
cut to 16 bits, which is `WellFormed word16`; read with unbounded lengths it agrees except
on the packets of `WrapsLength`. What lies behind the packet makes no difference
(`coapVerifyPacket_inside`).
-/

namespace Smcp

open ByteMemory OptionFormat

/-! ## Well-formed messages -/

/-- The `token_len` field of the packet `p`. -/
def tokenLength (p : List UInt8) : ℕ := (p.getD 0 0).toNat % 16

/-- The bytes after the token. -/
def optionArea (p : List UInt8) : List UInt8 := p.drop (4 + tokenLength p)

/-- The packet `p` is a well-formed CoAP message; a declared option length `n` stands for
`len n` bytes. -/
structure WellFormed (len : ℕ → ℕ) (p : List UInt8) : Prop where
  size_ge : 4 ≤ p.length
  size_le : p.length ≤ coapMaxMessageSize
  version : (p.getD 0 0).toNat / 64 = coapVersion
  token_le : tokenLength p ≤ coapMaxTokenSize
  token_inside : 4 + tokenLength p ≤ p.length
  empty : (p.getD 1 0).toNat = coapCodeEmpty → p.length = 4
  options : ∃ opts payload, Splits len (optionArea p) opts payload

theorem getD_readBytes {m : ℕ → UInt8} {i n : ℕ} (h : i < n) :
    (readBytes m 0 n).getD i 0 = m i := by
  rw [List.getD_eq_getElem?_getD, getElem?_readBytes h, Nat.zero_add, Option.getD_some]

theorem drop_readBytes (m : ℕ → UInt8) (n k : ℕ) :
    (readBytes m 0 n).drop k = readBytes m k (n - k) := by
  by_cases h : k ≤ n
  · have hn : n = k + (n - k) := by omega
    rw [hn, readBytes_add, List.drop_left' (by simp)]
    simp
  · rw [List.drop_of_length_le (by simp; omega), Nat.sub_eq_zero_of_le (by omega), readBytes]

/-- The verifier accepts the messages that are well formed with 16-bit lengths. -/
theorem coapVerifyPacket_iff (m : ℕ → UInt8) (size : ℕ) :
    coapVerifyPacket m size = true ↔ WellFormed word16 (readBytes m 0 (word16 size)) := by
  unfold coapVerifyPacket
  by_cases hge : word16 size < 4
  · simp only [hge, ↓reduceIte, Bool.false_eq_true, false_iff]
    intro hwf
    have := hwf.size_ge
    simp only [length_readBytes] at this
    omega
  have h0 := getD_readBytes (m := m) (show 0 < word16 size by omega)
  have h1 := getD_readBytes (m := m) (show 1 < word16 size by omega)
  have htok : tokenLength (readBytes m 0 (word16 size)) = headerTokenLen m := by
    rw [tokenLength, h0, headerTokenLen]
  have harea : optionArea (readBytes m 0 (word16 size)) =
      readBytes m (4 + headerTokenLen m) (word16 size - (4 + headerTokenLen m)) := by
    rw [optionArea, htok, drop_readBytes]
  have hloop := coapVerifyOptions_iff m 0
    (by omega : word16 size < 4 + headerTokenLen m + (word16 size + 1))
  -- each test of the code refutes one field, the loop decides the last two
  constructor
  · intro hv
    simp only [hge, ↓reduceIte] at hv
    split_ifs at hv with hver hsize htoken hempty
    obtain ⟨hinside, hsplit⟩ := hloop.1 hv
    refine ⟨by simp only [length_readBytes]; omega, by simp only [length_readBytes]; omega, ?_,
      by rw [htok]; omega, by rw [htok, length_readBytes]; omega, ?_, by rw [harea]; exact hsplit⟩
    · rw [h0]
      by_contra hne
      exact hver hne
    · intro hcode
      rw [h1] at hcode
      rw [length_readBytes]
      by_contra hne
      exact hempty ⟨hcode, hne⟩
  · intro hwf
    have hver := hwf.version
    have hsize := hwf.size_le
    have htoken := hwf.token_le
    have hinside := hwf.token_inside
    have hempty := hwf.empty
    have hsplit := hwf.options
    rw [h0] at hver
    rw [h1] at hempty
    rw [htok] at htoken hinside
    rw [harea] at hsplit
    rw [length_readBytes] at hsize hinside hempty
    rw [if_neg hge, if_neg (by rw [headerVersion]; omega), if_neg (by omega), if_neg (by omega),
      if_neg (by rw [headerCode]; tauto)]
    exact hloop.2 ⟨hinside, hsplit⟩

/-! ## Lengths that wrap -/

theorem four_le_of_coapVerifyPacket {m : ℕ → UInt8} {size : ℕ}
    (hv : coapVerifyPacket m size = true) : 4 ≤ size := by
  have hge := ((coapVerifyPacket_iff m size).1 hv).size_ge
  rw [length_readBytes] at hge
  exact hge.trans (Nat.mod_le _ _)

/-- The size of `p` or the declared length of one of its options needs more than 16 bits, and
what the cut values describe is a well-formed message. -/
def WrapsLength (p : List UInt8) : Prop :=
  WellFormed word16 (p.take (word16 p.length)) ∧
    (65536 ≤ p.length ∨ HasLong word16 65536 (optionArea p))

theorem readBytes_ofList_take (p : List UInt8) (rest : ℕ → UInt8) {n : ℕ} (h : n ≤ p.length) :
    readBytes (ofList p rest) 0 n = p.take n := by
  have hp := readBytes_ofList p rest
  have hn : p.length = n + (p.length - n) := by omega
  rw [hn, readBytes_add] at hp
  have htake := congrArg (List.take n) hp
  rwa [List.take_left' (by simp)] at htake

theorem WellFormed.change_len {len len' : ℕ → ℕ} {p : List UInt8} (hwf : WellFormed len p)
    (hagree : ∀ n, n < 65536 → len n = len' n) (hlong : ¬HasLong len 65536 (optionArea p)) :
    WellFormed len' p := by
  obtain ⟨opts, payload, hs⟩ := hwf.options
  exact { hwf with options := ⟨opts, payload, hs.change_len hagree hlong⟩ }

/-- A message that is well formed with unbounded lengths has no option of 65536 bytes or
more, however the reader takes such lengths. -/
theorem WellFormed.not_hasLong {len : ℕ → ℕ} {p : List UInt8} (hwf : WellFormed id p)
    (hagree : ∀ n, n < 65536 → len n = n) : ¬HasLong len 65536 (optionArea p) := by
  obtain ⟨opts, payload, hs⟩ := hwf.options
  have hsize := hwf.size_le
  refine hs.not_hasLong hagree ?_
  rw [optionArea, List.length_drop]
  unfold coapMaxMessageSize at hsize
  omega

/-- `coap_verify_packet` decides well-formedness exactly for the packets whose size and
declared lengths do not wrap into another well-formed message. -/
theorem coapVerifyPacket_iff_wellFormed_iff (p : List UInt8) (rest : ℕ → UInt8) :
    (coapVerifyPacket (ofList p rest) p.length = true ↔ WellFormed id p) ↔ ¬WrapsLength p := by
  have hle : word16 p.length ≤ p.length := Nat.mod_le _ _
  rw [coapVerifyPacket_iff, readBytes_ofList_take p rest hle, WrapsLength]
  by_cases hsize : p.length < 65536
  · rw [word16_of_lt hsize, List.take_length]
    have hword : ∀ n, n < 65536 → word16 n = id n := fun n hn => word16_of_lt hn
    have hback : WellFormed id p → WellFormed word16 p := fun hwf =>
      hwf.change_len (fun n hn => (hword n hn).symm) (hwf.not_hasLong fun n _ => rfl)
    constructor
    · rintro hiff ⟨hwf, hbig | hlong⟩
      · omega
      · exact (hiff.1 hwf).not_hasLong hword hlong
    · intro hno
      exact ⟨fun hwf => hwf.change_len hword fun hl => hno ⟨hwf, .inr hl⟩, hback⟩
  · have hno : ¬WellFormed id p := by
      intro hwf
      have := hwf.size_le
      unfold coapMaxMessageSize at this
      omega
    have hbig : 65536 ≤ p.length := by omega
    simp [hno, hbig]

/-- An option that declares 65536 bytes in a packet of seven. -/
def wrappingPacket : List UInt8 := [0x40, 0x01, 0, 0, 0x0E, 0xFE, 0xF3]

/-- The verifier accepts the packet, but its only option does not lie inside it. -/
theorem coapVerifyPacket_accepts_wrapping :
    coapVerifyPacket (ofList wrappingPacket fun _ => 0) wrappingPacket.length = true ∧
      ¬WellFormed id wrappingPacket := by
  refine ⟨by decide, fun hwf => ?_⟩
  refine hwf.not_hasLong (fun n (_ : n < 65536) => rfl) ?_
  exact .here 0x0E [] [0xFE, 0xF3] [] (by decide) (by decide) rfl rfl (by decide)

/-! ## Bytes behind the packet -/

/-- The results of `coap_decode_option` in the loop of `coap_verify_packet`. -/
def coapVerifyDecodings (m : ℕ → UInt8) (packetSize : ℕ) :
    (fuel : ℕ) → (optionPtr key : ℕ) → List (Option DecodedOption)
  | 0, _, _ => []
  | fuel + 1, optionPtr, key =>
    if optionPtr < packetSize ∧ m optionPtr ≠ 0xFF then
      match coapDecodeOption m optionPtr key with
      | none => [none]
      | some d =>
        if d.next > packetSize then [some d]
        else some d :: coapVerifyDecodings m packetSize fuel d.next d.key
    else []

/-- What `coap_verify_packet` decodes. -/
def coapPacketDecodings (packet : ℕ → UInt8) (size : ℕ) : List (Option DecodedOption) :=
  coapVerifyDecodings packet (word16 size) (word16 size + 1) (4 + headerTokenLen packet) 0

section
variable {m m' : ℕ → UInt8} {p size key : ℕ}

/-- An option that ends inside the packet is decoded from the bytes of the packet. -/
theorem coapDecodeOption_congr {d : DecodedOption} (hsame : ∀ j < size, m' j = m j)
    (hd : coapDecodeOption m p key = some d) (hnext : d.next ≤ size) :
    coapDecodeOption m' p key = some d := by
  rw [coapDecodeOption_eq] at hd ⊢
  split_ifs at hd with hnib
  rw [Option.some.injEq] at hd
  subst hd
  have hstart : valueStart m p ≤ size := by
    dsimp only at hnext
    omega
  have hp : m' p = m p := by
    apply hsame
    unfold valueStart at hstart
    omega
  have hvalue : valueStart m' p = valueStart m p := by
    unfold valueStart
    rw [hp]
  -- the extension bytes lie in front of the value
  have hdelta : declaredDelta m' p = declaredDelta m p := by
    unfold declaredDelta deltaExt
    rw [hp]
    apply congrArg
    apply readBytes_congr
    intro j _ hj
    apply hsame
    unfold valueStart at hstart
    omega
  have hlength : declaredLength m' p = declaredLength m p := by
    unfold declaredLength lengthExt
    rw [hp]
    apply congrArg
    apply readBytes_congr
    intro j _ hj
    apply hsame
    unfold valueStart at hstart
    omega
  rw [hp, if_neg hnib, hvalue, hdelta, hlength]

/-- The loop decodes an accepted packet from its own bytes. -/
theorem coapVerifyDecodings_congr {fuel : ℕ} (hsame : ∀ j < size, m' j = m j)
    (hv : coapVerifyOptions m size fuel p key = true) :
    coapVerifyDecodings m' size fuel p key = coapVerifyDecodings m size fuel p key := by
  -- induction on the fuel: the same bytes are looked at in both of the packets
  induction fuel generalizing p key with
  | zero => rfl
  | succ fuel ih =>
    rw [coapVerifyOptions] at hv
    rw [coapVerifyDecodings, coapVerifyDecodings]
    -- an option is decoded inside of the size, the end is reached together
    by_cases hopt : p < size ∧ m p ≠ 0xFF
    · have hopt' : p < size ∧ m' p ≠ 0xFF := by
        rw [hsame p hopt.1]
        exact hopt
      rw [if_pos hopt] at hv ⊢
      rw [if_pos hopt']
      cases hd : coapDecodeOption m p key with
      | none =>
        rw [hd] at hv
        exact absurd hv (by simp)
      | some d =>
        rw [hd] at hv
        dsimp only at hv
        by_cases hnext : d.next > size
        · rw [if_pos hnext] at hv
          exact absurd hv (by simp)
        · rw [if_neg hnext] at hv
          rw [coapDecodeOption_congr hsame hd (Nat.le_of_not_gt hnext)]
          dsimp only
          rw [if_neg hnext, if_neg hnext, ih hv]
    · have hopt' : ¬(p < size ∧ m' p ≠ 0xFF) := by
        intro h
        apply hopt
        rw [← hsame p h.1]
        exact h
      rw [if_neg hopt, if_neg hopt']

/-- The verdict is that of the first `n` bytes. -/
theorem coapVerifyPacket_congr {n : ℕ} (hsame : ∀ j < n, m' j = m j) :
    coapVerifyPacket m' n = coapVerifyPacket m n := by
  have hword : word16 n ≤ n := Nat.mod_le _ _
  have hread : readBytes m' 0 (word16 n) = readBytes m 0 (word16 n) := by
    apply readBytes_congr
    intro j _ hj
    apply hsame
    omega
  rw [Bool.eq_iff_iff, coapVerifyPacket_iff, coapVerifyPacket_iff, hread]

end

/-- The verdict is that of the first `n` bytes, and when bytes behind them change what is decoded, the
packet is rejected. -/
theorem coapVerifyPacket_inside (n : ℕ) (m m' : ℕ → UInt8) (hsame : ∀ j < n, m' j = m j) :
    coapVerifyPacket m' n = coapVerifyPacket m n ∧
      (coapPacketDecodings m' n ≠ coapPacketDecodings m n →
        coapVerifyPacket m n = false ∧ coapVerifyPacket m' n = false) := by
  -- the source looks at the length with 16 bits
  have hword : word16 n ≤ n := Nat.mod_le _ _
  have hsame' : ∀ j < word16 n, m' j = m j := fun j hj => hsame j (by omega)
  have hverdict := coapVerifyPacket_congr hsame
  refine ⟨hverdict, fun hne => ?_⟩
  rw [hverdict, and_self]
  -- suppose it is accepted: then nothing behind the size is looked at
  by_contra hv
  rw [Bool.not_eq_false] at hv
  apply hne
  have hsize : 4 ≤ word16 n := by
    have hge := ((coapVerifyPacket_iff m n).1 hv).size_ge
    rwa [length_readBytes] at hge
  have htoken : headerTokenLen m' = headerTokenLen m := by
    unfold headerTokenLen
    rw [hsame' 0 (by omega)]
  unfold coapVerifyPacket at hv
  dsimp only at hv
  unfold coapPacketDecodings
  rw [htoken]
  apply coapVerifyDecodings_congr hsame'
  split_ifs at hv
  exact hv

/-- A packet that ends in the middle of an option header. -/
def cutPacket : List UInt8 := [0x40, 0x01, 0, 0, 0xE0, 0x01]

theorem coapVerifyPacket_inside_cut :
    coapPacketDecodings (ofList cutPacket fun _ => 0) 6 ≠
        coapPacketDecodings (ofList cutPacket fun _ => 1) 6 ∧
      coapVerifyPacket (ofList cutPacket fun _ => 0) 6 = false := by
  have hne : coapPacketDecodings (ofList cutPacket fun _ => 0) 6 ≠
      coapPacketDecodings (ofList cutPacket fun _ => 1) 6 := by decide
  have hsame : ∀ j < 6, ofList cutPacket (fun _ => 0) j = ofList cutPacket (fun _ => 1) j := by decide
  exact ⟨hne, ((coapVerifyPacket_inside 6 _ _ hsame).2 hne).2⟩

end Smcp
