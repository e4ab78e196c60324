import Smcp.Coap.Encode

/-!
# Option lists on the wire

Whole option lists, written by repeated `coap_encode_option` and read back by repeated
`coap_decode_option`, the way every caller of the two functions uses them.

* `encodeOptions_eq`: the calls write the encoding of the list;
* `decodeOptions_iff`: the calls read exactly the areas that split into options;
* `options_codec`: the two are inverse to each other, except that a declared length of `2 ^ 16` or
  more is read modulo `2 ^ 16` and never written again;
* `insertOption_area`: `coap_insert_option` turns the encoding of a list into the encoding of the
  list with one option more.
-/

namespace Smcp

open ByteMemory OptionFormat

/-! ## Writing a list, reading a list -/

/-- `coap_encode_option` for each option, with the key of the option before it as `prev_key`: the
buffer and the pointer behind the last option. -/
def encodeOptions (b : Buffer) (buffer prevKey : ℕ) : List (ℕ × List UInt8) → Buffer × ℕ
  | [] => (b, buffer)
  | (key, value) :: opts =>
    let r := coapEncodeOption b buffer prevKey key (.outside value) value.length
    encodeOptions r.1 r.2 key opts

/-- `coap_decode_option` until the pointer is at `endp`: the keys and values. `none` when an option
is invalid or reaches over the end. -/
def decodeOptions (m : ℕ → UInt8) (endp : ℕ) :
    (fuel : ℕ) → (buffer key : ℕ) → Option (List (ℕ × List UInt8))
  | 0, _, _ => none
  | fuel + 1, buffer, key =>
    if buffer < endp then
      (coapDecodeOption m buffer key).bind fun d =>
        (decodeOptions m endp fuel d.next d.key).map fun opts =>
          (d.key, readBytes m d.value d.len) :: opts
    else if buffer = endp then some []
    else none

/-- The options between `start` and `endp`. An option takes at least one byte. -/
def decodeArea (m : ℕ → UInt8) (start endp : ℕ) : Option (List (ℕ × List UInt8)) :=
  decodeOptions m endp (endp - start + 1) start 0

/-- The bytes that the calls of `coap_encode_option` put behind `start`. -/
def encodedArea (b : Buffer) (start : ℕ) (opts : List (ℕ × List UInt8)) : List UInt8 :=
  readBytes (encodeOptions b start 0 opts).1.byte start ((encodeOptions b start 0 opts).2 - start)

section
variable {m : ℕ → UInt8} {p endp prev : ℕ} {opts : List (ℕ × List UInt8)}

/-- The calls write the encoding of the list and nothing else. -/
theorem encodeOptions_eq (b : Buffer) (p : ℕ)
    (h : Ordered coapOptionInvalid coapMaxOptionValueSize prev opts) :
    encodeOptions b p prev opts =
      (b.copy p (encode prev opts), p + (encode prev opts).length) := by
  induction opts generalizing b p prev with
  | nil =>
    rw [encodeOptions, encode, Buffer.copy_nil]
    rfl
  | cons o opts ih =>
    obtain ⟨k, v⟩ := o
    obtain ⟨hprev, hk, hv, hopts⟩ := h
    unfold coapOptionInvalid at hk
    have hone := coapEncodeOption_eq b (p := p) hprev (by omega : k - prev < 65536) hv
    rw [encodeOptions, hone]
    dsimp only
    rw [ih _ _ hopts, encode, Buffer.copy_copy, List.length_append, Nat.add_assoc]

/-- The calls read exactly what splits into options up to the end, with 16-bit lengths. -/
theorem decodeOptions_iff {fuel : ℕ} (key : ℕ) (hfuel : endp < p + fuel) :
    decodeOptions m endp fuel p key = some opts ↔
      p ≤ endp ∧ ∃ split, Splits word16 (readBytes m p (endp - p)) split none ∧
        opts = withKeys key split := by
  -- induction on the fuel: one option is decoded, and the rest of the area split
  induction fuel generalizing p key opts with
  | zero =>
    rw [decodeOptions]
    constructor
    · intro h
      cases h
    · rintro ⟨hle, -⟩
      omega
  | succ fuel ih =>
    rw [decodeOptions]
    by_cases hlt : p < endp
    · rw [if_pos hlt]
      by_cases hmark : m p = 0xFF
      · -- the marker is no option, and a split without payload has none
        have hnone : coapDecodeOption m p key = none := by
          rw [coapDecodeOption_eq, if_pos (by rw [hmark]; decide)]
        rw [hnone]
        constructor
        · intro h
          cases h
        · rintro ⟨-, split, hs, -⟩
          have hpayload := ((splits_readBytes_marker hlt hmark).1 hs).2
          cases hpayload
      · simp only [splits_readBytes_option key hlt hmark]
        cases hd : coapDecodeOption m p key with
        | none => simp
        | some d =>
          have hnext := coapDecodeOption_lt_next hd
          have hkey : d.key = key + declaredDelta m p := by
            rw [coapDecodeOption_eq] at hd
            split_ifs at hd
            cases hd
            rfl
          simp only [Option.bind_some, Option.map_eq_some_iff, Option.some.injEq]
          constructor
          · rintro ⟨rest, hrest, rfl⟩
            obtain ⟨hle, split, hs, rfl⟩ := (ih d.key (by omega)).1 hrest
            refine ⟨by omega, _, ⟨d, rfl, hle, split, rfl, hs⟩, ?_⟩
            rw [withKeys, ← hkey]
          · rintro ⟨-, _, ⟨d', rfl, hle, split, rfl, hs⟩, rfl⟩
            refine ⟨withKeys d.key split, (ih d.key (by omega)).2 ⟨hle, split, hs, rfl⟩, ?_⟩
            rw [withKeys, ← hkey]
    · rw [if_neg hlt]
      by_cases hend : p = endp
      · subst hend
        simp only [splits_readBytes_end, ↓reduceIte, Option.some.injEq]
        constructor
        · rintro rfl
          exact ⟨le_refl p, [], ⟨rfl, trivial⟩, rfl⟩
        · rintro ⟨-, split, ⟨rfl, -⟩, rfl⟩
          rfl
      · rw [if_neg hend]
        constructor
        · intro h
          cases h
        · rintro ⟨hle, -⟩
          omega

theorem decodeArea_iff (m : ℕ → UInt8) (start endp : ℕ) :
    decodeArea m start endp = some opts ↔
      start ≤ endp ∧ ∃ split, Splits word16 (readBytes m start (endp - start)) split none ∧
        opts = withKeys 0 split :=
  decodeOptions_iff 0 (by omega)

/-- The keys of a decoded list do not decrease. -/
theorem ordered_withKeys {split : List (ℕ × List UInt8)} {maxKey maxLen : ℕ} (prev : ℕ)
    (hbounds : ∀ o ∈ withKeys prev split, o.1 ≤ maxKey ∧ o.2.length ≤ maxLen) :
    Ordered maxKey maxLen prev (withKeys prev split) := by
  induction split generalizing prev with
  | nil => trivial
  | cons o split ih =>
    obtain ⟨d, v⟩ := o
    rw [withKeys] at hbounds ⊢
    have hhead := hbounds _ (List.mem_cons_self ..)
    refine ⟨Nat.le_add_right prev d, hhead.1, hhead.2, ih _ ?_⟩
    intro o ho
    exact hbounds o (List.mem_cons_of_mem _ ho)

end

/-- Values are kept when keys are turned into deltas. -/
theorem length_value_of_deltas {maxKey maxLen prev : ℕ} {opts : List (ℕ × List UInt8)}
    (h : Ordered maxKey maxLen prev opts) : ∀ o ∈ deltas prev opts, o.2.length ≤ maxLen := by
  induction opts generalizing prev with
  | nil => simp [deltas]
  | cons o opts ih =>
    obtain ⟨k, v⟩ := o
    obtain ⟨-, -, hv, hopts⟩ := h
    intro o ho
    rcases List.mem_cons.1 ho with rfl | ho
    · exact hv
    · exact ih hopts o ho

/-! ## The round trips -/

/-- What is written is read back, and the reading stops where the writing stopped. -/
theorem decodeArea_encodeOptions (b : Buffer) (start : ℕ) {opts : List (ℕ × List UInt8)}
    (h : Ordered coapOptionInvalid coapMaxOptionValueSize 0 opts) :
    decodeArea (encodeOptions b start 0 opts).1.byte start (encodeOptions b start 0 opts).2 =
      some opts := by
  have hagree (n : ℕ) (hn : n ≤ coapMaxOptionValueSize) : word16 n = n := by
    unfold coapMaxOptionValueSize at hn
    exact word16_of_lt (by omega)
  have hsplit : Splits word16 (encode 0 opts ++ []) (deltas 0 opts) none :=
    splits_encode h (by decide) (by decide) hagree .nil
  rw [List.append_nil] at hsplit
  rw [encodeOptions_eq b start h, decodeArea_iff]
  refine ⟨Nat.le_add_right .., deltas 0 opts, ?_, (withKeys_deltas h).symm⟩
  rw [Nat.add_sub_cancel_left, Buffer.readBytes_copy]
  exact hsplit

/-- What the calls write for an ordered list. -/
theorem encodedArea_eq (b : Buffer) (start : ℕ) {opts : List (ℕ × List UInt8)}
    (h : Ordered coapOptionInvalid coapMaxOptionValueSize 0 opts) :
    encodedArea b start opts = encode 0 opts := by
  rw [encodedArea, encodeOptions_eq b start h, Nat.add_sub_cancel_left, Buffer.readBytes_copy]

/-- A decoded list is written back as it was, exactly when no length was cut to 16 bits. -/
theorem encodedArea_decodeArea (b : Buffer) (start : ℕ) {bytes : List UInt8} {rest : ℕ → UInt8}
    {opts : List (ℕ × List UInt8)} (h : decodeArea (ofList bytes rest) 0 bytes.length = some opts)
    (hbounds : ∀ o ∈ opts, o.1 ≤ coapOptionInvalid ∧ o.2.length ≤ coapMaxOptionValueSize) :
    encodedArea b start opts = bytes ↔ ¬HasLong word16 65536 bytes := by
  obtain ⟨-, split, hs, rfl⟩ := (decodeArea_iff _ _ _).1 h
  rw [Nat.sub_zero, readBytes_ofList] at hs
  have hord := ordered_withKeys 0 hbounds
  rw [encodedArea_eq b start hord]
  constructor
  · -- written options declare the lengths of their values, which are short
    intro heq
    have hwritten : Splits id (encode 0 (withKeys 0 split) ++ []) (deltas 0 (withKeys 0 split))
        none := splits_encode hord (by decide) (by decide) (fun _ _ => rfl) .nil
    rw [List.append_nil, heq] at hwritten
    apply hwritten.not_hasLong_of_values fun n => word16_of_lt
    intro o ho
    have hlen := length_value_of_deltas hord o ho
    unfold coapMaxOptionValueSize at hlen
    omega
  · intro hshort
    exact encode_withKeys (hs.change_len (fun n => word16_of_lt) hshort) rfl 0

/-- The option codec. Every ordered list of options is read back as it was written, up to the end
of what was written; and every area that decodes completely into options with keys up to 65535 and
values of up to 1034 bytes is reproduced by writing the decoded list, exactly when no option in it
declares a length of `2 ^ 16` or more. -/
theorem options_codec (b : Buffer) (start : ℕ) :
    (∀ opts, Ordered 65535 1034 0 opts →
      decodeArea (encodeOptions b start 0 opts).1.byte start (encodeOptions b start 0 opts).2 =
        some opts) ∧
    ∀ bytes rest opts, decodeArea (ofList bytes rest) 0 bytes.length = some opts →
      (∀ o ∈ opts, o.1 ≤ 65535 ∧ o.2.length ≤ 1034) →
      (encodedArea b start opts = bytes ↔ ¬HasLong word16 65536 bytes) := by
  constructor
  · intro opts hord
    exact decodeArea_encodeOptions b start hord
  · intro bytes rest opts hdec hbounds
    exact encodedArea_decodeArea b start hdec hbounds

/-- A buffer of zeros. -/
def zeroBuffer : Buffer := { byte := fun _ => 0, top := 0 }

/-- Three options over two of the size classes: a repeated key, a large delta, an empty value. -/
def sampleOptions : List (ℕ × List UInt8) := [(11, [0x61]), (11, [0x62, 0x63]), (2000, [])]

theorem options_codec_sampleOptions :
    decodeArea (encodeOptions zeroBuffer 4 0 sampleOptions).1.byte 4
        (encodeOptions zeroBuffer 4 0 sampleOptions).2 = some sampleOptions ∧
      (encodedArea zeroBuffer 4 sampleOptions = [0xB1, 0x61, 0x02, 0x62, 0x63, 0xE0, 0x06, 0xB8] ↔
        ¬HasLong word16 65536 [0xB1, 0x61, 0x02, 0x62, 0x63, 0xE0, 0x06, 0xB8]) :=
  ⟨(options_codec zeroBuffer 4).1 sampleOptions (by decide),
    (options_codec zeroBuffer 4).2 _ (fun _ => 0) sampleOptions (by decide) (by decide)⟩

/-- An option with the length nibble 14 and the extension `FE F3`: it declares 65536 bytes, is read
as the empty option 0, and that is written as the single byte 0. -/
theorem options_codec_fails :
    decodeArea (ofList [0x0E, 0xFE, 0xF3] fun _ => 0) 0 3 = some [(0, [])] ∧
      encodedArea zeroBuffer 0 [(0, [])] = [0x00] ∧
      encodedArea zeroBuffer 0 [(0, [])] ≠ [0x0E, 0xFE, 0xF3] := by
  decide

/-! ## Insertion -/

/-- Between `start` and `endp` the buffer holds the encoding of the options. -/
def HoldsOptions (b : Buffer) (start endp : ℕ) (opts : List (ℕ × List UInt8)) : Prop :=
  start ≤ endp ∧ readBytes b.byte start (endp - start) = encode 0 opts

/-- `coap_insert_option`: the area, longer by the returned number of bytes, holds the options with
the new one behind all whose key is not larger, and nothing outside of it is touched. -/
theorem insertOption_area (b : Buffer) (start endp key : ℕ) (value : List UInt8)
    (opts : List (ℕ × List UInt8)) (harea : HoldsOptions b start endp opts)
    (hord : Ordered 65535 1034 0 opts) (hkey : key ≤ 65535) (hvalue : value.length ≤ 1034) :
    let r := coapInsertOption b start endp key value value.length
    HoldsOptions r.1 start (endp + r.2) (insertByKey (key, value) opts) ∧
      (encode 0 (insertByKey (key, value) opts)).length = (encode 0 opts).length + r.2 ∧
      ∀ j, j < start ∨ endp + r.2 ≤ j → r.1.byte j = b.byte j := by
  obtain ⟨hle, hread⟩ := harea
  obtain ⟨b', n, heq, -, hread', hkeep, -⟩ := coapInsertOption_spec hle hord hread hkey hvalue
  have hlen := congrArg List.length hread
  have hlen' := congrArg List.length hread'
  rw [length_readBytes] at hlen hlen'
  dsimp only
  rw [heq]
  refine ⟨⟨by omega, ?_⟩, by omega, hkeep⟩
  rw [show endp + n - start = endp - start + n by omega]
  exact hread'

/-- An option is inserted before one whose delta then needs no extension: the header of that one
shrinks by a byte. -/
theorem insertOption_area_shrinks :
    let b := zeroBuffer.copy 0 [0xD1, 0x07, 0x61]
    let r := coapInsertOption b 0 3 11 [0x62] 1
    HoldsOptions r.1 0 (3 + r.2) [(11, [0x62]), (20, [0x61])] ∧ r.2 = 1 := by
  have harea := insertOption_area (zeroBuffer.copy 0 [0xD1, 0x07, 0x61]) 0 3 11 [0x62] [(20, [0x61])]
    ⟨by decide, by decide⟩ (by decide) (by decide) (by decide)
  exact ⟨harea.1, by decide⟩

end Smcp
