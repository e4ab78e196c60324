import Smcp.Lib.Memory
import Smcp.Lib.OptionFormat

/-!
# Reading options

`coap_decode_option` and `coap_verify_packet` of `coap.c`, over the bytes behind a pointer.

* `coapDecodeOption_eq` says what one call reads, in the terms of the option format;
* `coapVerifyOptions_iff` says that the loop of the verifier accepts exactly the areas that
  split into options, with the declared lengths taken modulo `2 ^ 16`;
* `coapVerifyPacket_iff` is the same for whole packets.

Pointers are indices from the start of the packet. `coap_option_key_t` is a 32-bit
enumeration: a packet of at most `2 ^ 16` bytes cannot make the sum of its deltas reach
`2 ^ 32`, so keys are plain natural numbers. `coap_size_t` is 16 bits wide and does wrap.
-/

namespace Smcp

open ByteMemory OptionFormat

/-! ## Constants -/

def coapVersion : ℕ := 1
def coapMaxMessageSize : ℕ := 1280 - 40
def coapMaxTokenSize : ℕ := 8
def coapOptionInvalid : ℕ := 65535
def coapCodeEmpty : ℕ := 0

/-- The value of an expression stored in a `coap_size_t`. -/
def word16 (n : ℕ) : ℕ := n % 65536

theorem word16_of_lt {n : ℕ} (h : n < 65536) : word16 n = n := Nat.mod_eq_of_lt h

/-! ## One option -/

/-- What `coap_decode_option` stores through its result pointers, with the pointer it
returns. -/
structure DecodedOption where
  next : ℕ
  key : ℕ
  value : ℕ
  len : ℕ
deriving Repr, DecidableEq

/-- `coap_decode_option`: decode the option at `buffer`, adding its delta to `key`. `none` is
the `NULL` return, after which the key is `COAP_OPTION_INVALID` and the value is empty. -/
def coapDecodeOption (m : ℕ → UInt8) (buffer key : ℕ) : Option DecodedOption :=
  let len := (m buffer).toNat % 16
  let delta := (m buffer).toNat / 16
  let afterDelta : Option (ℕ × ℕ) :=
    if delta = 13 then some (key + (13 + (m (buffer + 1)).toNat), buffer + 2)
    else if delta = 14 then
      some (key + (269 + (m (buffer + 2)).toNat + (m (buffer + 1)).toNat * 256), buffer + 3)
    else if delta = 15 then none
    else some (key + delta, buffer + 1)
  afterDelta.bind fun (key, buffer) =>
    let afterLength : Option (ℕ × ℕ) :=
      if len = 13 then some (13 + (m buffer).toNat, buffer + 1)
      else if len = 14 then
        some (word16 (269 + (m (buffer + 1)).toNat + (m buffer).toNat * 256), buffer + 2)
      else if len = 15 then none
      else some (len, buffer)
    afterLength.map fun (len, buffer) =>
      { next := buffer + len, key := key, value := buffer, len := len }

/-- The extension bytes of the delta at `p`. -/
def deltaExt (m : ℕ → UInt8) (p : ℕ) : List UInt8 :=
  readBytes m (p + 1) (extLen ((m p).toNat / 16))

/-- The extension bytes of the length at `p`. -/
def lengthExt (m : ℕ → UInt8) (p : ℕ) : List UInt8 :=
  readBytes m (p + 1 + extLen ((m p).toNat / 16)) (extLen ((m p).toNat % 16))

/-- The delta that the option at `p` declares. -/
def declaredDelta (m : ℕ → UInt8) (p : ℕ) : ℕ :=
  fieldValue ((m p).toNat / 16) (deltaExt m p)

/-- The length that the option at `p` declares. -/
def declaredLength (m : ℕ → UInt8) (p : ℕ) : ℕ :=
  fieldValue ((m p).toNat % 16) (lengthExt m p)

/-- Where the value of the option at `p` starts. -/
def valueStart (m : ℕ → UInt8) (p : ℕ) : ℕ :=
  p + 1 + extLen ((m p).toNat / 16) + extLen ((m p).toNat % 16)

theorem toNat_lt_256 (b : UInt8) : b.toNat < 256 := UInt8.toNat_lt b

private theorem after_delta (m : ℕ → UInt8) (p key : ℕ) :
    (if (m p).toNat / 16 = 13 then some (key + (13 + (m (p + 1)).toNat), p + 2)
      else if (m p).toNat / 16 = 14 then
        some (key + (269 + (m (p + 2)).toNat + (m (p + 1)).toNat * 256), p + 3)
      else if (m p).toNat / 16 = 15 then none
      else some (key + (m p).toNat / 16, p + 1)) =
    if (m p).toNat / 16 = 15 then none
    else some (key + declaredDelta m p, p + 1 + extLen ((m p).toNat / 16)) := by
  unfold declaredDelta deltaExt fieldValue extLen
  by_cases h13 : (m p).toNat / 16 = 13
  · simp [h13, readBytes]
  by_cases h14 : (m p).toNat / 16 = 14
  · have hp : (m (p + 1 + 1)).toNat = (m (p + 2)).toNat := rfl
    simp [h14, readBytes]
    omega
  by_cases h15 : (m p).toNat / 16 = 15
  · simp [h15]
  · simp [h13, h14, h15]

private theorem after_length (m : ℕ → UInt8) (q len : ℕ) (hlen : len < 16) :
    (if len = 13 then some (13 + (m q).toNat, q + 1)
      else if len = 14 then some (word16 (269 + (m (q + 1)).toNat + (m q).toNat * 256), q + 2)
      else if len = 15 then none
      else some (len, q)) =
    if len = 15 then none
    else some (word16 (fieldValue len (readBytes m q (extLen len))), q + extLen len) := by
  have hq := toNat_lt_256 (m q)
  unfold fieldValue extLen word16
  by_cases h13 : len = 13
  · simp [h13, readBytes]
    omega
  by_cases h14 : len = 14
  · simp [h14, readBytes]
    omega
  by_cases h15 : len = 15
  · simp [h15]
  · simp [h13, h14, h15]
    omega

/-- What one call reads. The length is the declared one, cut to 16 bits. -/
theorem coapDecodeOption_eq (m : ℕ → UInt8) (p key : ℕ) :
    coapDecodeOption m p key =
      if (m p).toNat / 16 = 15 ∨ (m p).toNat % 16 = 15 then none
      else some
        { next := valueStart m p + word16 (declaredLength m p)
          key := key + declaredDelta m p
          value := valueStart m p
          len := word16 (declaredLength m p) } := by
  have hlen : (m p).toNat % 16 < 16 := Nat.mod_lt _ (by decide)
  unfold coapDecodeOption
  simp only [after_delta, after_length m _ _ hlen]
  by_cases hd : (m p).toNat / 16 = 15
  · simp [hd]
  by_cases hl : (m p).toNat % 16 = 15
  · simp [hd, hl]
  · simp [hd, hl, valueStart, declaredLength, lengthExt]

/-- The bytes of an option that ends before `size`, and what follows it. -/
theorem readBytes_option {m : ℕ → UInt8} {p n size : ℕ} (h : valueStart m p + n ≤ size) :
    readBytes m p (size - p) =
      m p :: (deltaExt m p ++ lengthExt m p ++ readBytes m (valueStart m p) n ++
        readBytes m (valueStart m p + n) (size - (valueStart m p + n))) := by
  unfold valueStart at h ⊢
  have hsize : size - p = 1 + (extLen ((m p).toNat / 16) + (extLen ((m p).toNat % 16) +
      (n + (size - (p + 1 + extLen ((m p).toNat / 16) + extLen ((m p).toNat % 16) + n))))) := by
    omega
  rw [hsize]
  simp only [readBytes_add, readBytes, deltaExt, lengthExt, List.append_assoc,
    List.singleton_append]

/-- An option area that starts with an option: what the format reads there is what
`coap_decode_option` reads. -/
theorem splits_readBytes_option {m : ℕ → UInt8} {p size : ℕ} (key : ℕ)
    {opts : List (ℕ × List UInt8)} {payload : Option (List UInt8)}
    (hp : p < size) (hmark : m p ≠ 0xFF) :
    Splits word16 (readBytes m p (size - p)) opts payload ↔
      ∃ d, coapDecodeOption m p key = some d ∧ d.next ≤ size ∧
        ∃ opts', opts = (declaredDelta m p, readBytes m d.value d.len) :: opts' ∧
          Splits word16 (readBytes m d.next (size - d.next)) opts' payload := by
  rw [coapDecodeOption_eq]
  constructor
  · intro hs
    generalize hb : readBytes m p (size - p) = b at hs
    cases hs with
    | nil =>
      have := congrArg List.length hb
      simp at this
      omega
    | marker payload => exact absurd (readBytes_eq_cons hb).1 hmark
    | option h dext lext value rest opts payload hdelta hlength hdext hlext hvalue hrest =>
      obtain ⟨rfl, -⟩ := readBytes_eq_cons hb
      have hlen := congrArg List.length hb
      simp only [length_readBytes, List.length_cons, List.length_append] at hlen
      have hend : valueStart m p + value.length ≤ size := by
        unfold valueStart
        omega
      -- both decompositions of the area have pieces of the same lengths
      rw [readBytes_option hend, List.cons.injEq] at hb
      obtain ⟨hb, hr⟩ := List.append_inj hb.2 (by simp [deltaExt, lengthExt]; omega)
      obtain ⟨hb, hv⟩ := List.append_inj hb (by simp [deltaExt, lengthExt]; omega)
      obtain ⟨hd, hl⟩ := List.append_inj hb (by simp [deltaExt]; omega)
      have hword : value.length = word16 (declaredLength m p) := by
        rw [hvalue, declaredLength, hl]
      rw [if_neg (by omega)]
      refine ⟨_, rfl, by rw [← hword]; exact hend, opts, ?_, ?_⟩
      · rw [← hword, hv, declaredDelta, hd]
      · rw [← hword, hr]
        exact hrest
  · rintro ⟨d, hd, hnext, opts', rfl, hs⟩
    split_ifs at hd with hnib
    rw [Option.some.injEq] at hd
    subst hd
    rw [readBytes_option hnext]
    exact .option (m p) (deltaExt m p) (lengthExt m p) _ _ _ _ (by omega) (by omega)
      (by simp [deltaExt]) (by simp [lengthExt]) (by rw [length_readBytes]; rfl) hs

/-- An option area that starts with the marker. -/
theorem splits_readBytes_marker {m : ℕ → UInt8} {p size : ℕ}
    {opts : List (ℕ × List UInt8)} {payload : Option (List UInt8)}
    (hp : p < size) (hmark : m p = 0xFF) :
    Splits word16 (readBytes m p (size - p)) opts payload ↔
      opts = [] ∧ payload = some (readBytes m (p + 1) (size - (p + 1))) := by
  have hsize : size - p = (size - (p + 1)) + 1 := by omega
  rw [hsize, readBytes, hmark]
  constructor
  · intro hs
    generalize hb : (0xFF : UInt8) :: readBytes m (p + 1) (size - (p + 1)) = b at hs
    cases hs with
    | nil => simp at hb
    | marker payload => exact ⟨rfl, by rw [(List.cons.inj hb).2]⟩
    | option h dext lext value rest opts payload hdelta =>
      rw [← (List.cons.inj hb).1] at hdelta
      exact absurd (by decide) hdelta
  · rintro ⟨rfl, rfl⟩
    exact .marker _

/-- The empty option area. -/
theorem splits_readBytes_end {m : ℕ → UInt8} {size : ℕ}
    {opts : List (ℕ × List UInt8)} {payload : Option (List UInt8)} :
    Splits word16 (readBytes m size (size - size)) opts payload ↔
      opts = [] ∧ payload = none := by
  rw [Nat.sub_self, readBytes]
  constructor
  · intro hs
    cases hs
    exact ⟨rfl, rfl⟩
  · rintro ⟨rfl, rfl⟩
    exact .nil

/-! ## The packet verifier -/

/-- The `version` field of the header. -/
def headerVersion (m : ℕ → UInt8) : ℕ := (m 0).toNat / 64

/-- The `tt` field of the header. -/
def headerTt (m : ℕ → UInt8) : ℕ := (m 0).toNat / 16 % 4

/-- The `token_len` field of the header. -/
def headerTokenLen (m : ℕ → UInt8) : ℕ := (m 0).toNat % 16

/-- The `code` field of the header. -/
def headerCode (m : ℕ → UInt8) : ℕ := (m 1).toNat

/-- The `msg_id` field of the header, as a little-endian host holds the two bytes. -/
def headerMsgId (m : ℕ → UInt8) : ℕ := (m 2).toNat + (m 3).toNat * 256

/-- The option loop of `coap_verify_packet` and the two tests after it. An option takes at
least one byte, so `packetSize + 1` rounds are enough. -/
def coapVerifyOptions (m : ℕ → UInt8) (packetSize : ℕ) : (fuel : ℕ) → (optionPtr key : ℕ) → Bool
  | 0, _, _ => false
  | fuel + 1, optionPtr, key =>
    if optionPtr < packetSize ∧ m optionPtr ≠ 0xFF then
      match coapDecodeOption m optionPtr key with
      | none => false
      | some d =>
        if d.next > packetSize then false
        else coapVerifyOptions m packetSize fuel d.next d.key
    else if optionPtr > packetSize then false
    else if optionPtr < packetSize then m optionPtr == 0xFF
    else true

/-- `coap_verify_packet`. The size is passed as a `coap_size_t`. -/
def coapVerifyPacket (packet : ℕ → UInt8) (size : ℕ) : Bool :=
  let packetSize := word16 size
  if packetSize < 4 then false
  else if headerVersion packet ≠ coapVersion then false
  else if packetSize > coapMaxMessageSize then false
  else if headerTokenLen packet > coapMaxTokenSize then false
  else if headerCode packet = coapCodeEmpty ∧ packetSize ≠ 4 then false
  else coapVerifyOptions packet packetSize (packetSize + 1) (4 + headerTokenLen packet) 0

theorem coapDecodeOption_lt_next {m : ℕ → UInt8} {p key : ℕ} {d : DecodedOption}
    (h : coapDecodeOption m p key = some d) : p < d.next := by
  rw [coapDecodeOption_eq] at h
  split_ifs at h
  rw [Option.some.injEq] at h
  subst h
  simp only [valueStart]
  omega

/-- The option loop accepts exactly what splits into options, with 16-bit lengths. -/
theorem coapVerifyOptions_iff (m : ℕ → UInt8) {size fuel p : ℕ} (key : ℕ)
    (hfuel : size < p + fuel) :
    coapVerifyOptions m size fuel p key = true ↔
      p ≤ size ∧ ∃ opts payload, Splits word16 (readBytes m p (size - p)) opts payload := by
  -- induction on the fuel: the loop and the splitting take the same option
  induction fuel generalizing p key with
  | zero => simp [coapVerifyOptions]; omega
  | succ fuel ih =>
    rw [coapVerifyOptions]
    -- at the marker or at the end nothing is left to split
    by_cases hopt : p < size ∧ m p ≠ 0xFF
    · rw [if_pos hopt]
      simp only [splits_readBytes_option key hopt.1 hopt.2]
      cases hd : coapDecodeOption m p key with
      | none => simp
      | some d =>
        have hlt := coapDecodeOption_lt_next hd
        simp only [Option.some.injEq]
        by_cases hnext : d.next > size
        · simp only [hnext, ↓reduceIte, Bool.false_eq_true, false_iff]
          rintro ⟨-, opts, payload, d', rfl, hle, -⟩
          omega
        · simp only [hnext, ↓reduceIte]
          rw [ih d.key (by omega)]
          constructor
          · rintro ⟨hle, opts, payload, hs⟩
            exact ⟨by omega, _, payload, d, rfl, hle, opts, rfl, hs⟩
          · rintro ⟨-, _, payload, d', rfl, hle, opts, -, hs⟩
            exact ⟨hle, opts, payload, hs⟩
    · rw [if_neg hopt]
      by_cases hgt : p > size
      · simp [hgt]
      by_cases hlt : p < size
      · have hmark : m p = 0xFF := by
          by_contra hne
          exact hopt ⟨hlt, hne⟩
        simp only [hgt, hlt, hmark, splits_readBytes_marker hlt hmark, ↓reduceIte, beq_self_eq_true,
          true_iff]
        exact ⟨by omega, [], _, rfl, rfl⟩
      · have hend : p = size := by omega
        subst hend
        simp only [gt_iff_lt, lt_irrefl, ↓reduceIte, true_iff]
        exact ⟨le_refl p, [], none, splits_readBytes_end.2 ⟨rfl, rfl⟩⟩

end Smcp
