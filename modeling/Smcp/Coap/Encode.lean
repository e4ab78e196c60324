import Smcp.Coap.Decode

/-!
# Writing options

`coap_encode_option` and `coap_insert_option` of `coap.c`, over a write buffer.

* `coapEncodeOption_eq`: one call writes exactly the bytes of one option;
* `coapInsertOption_spec`: inserting into the encoding of a sorted option list gives the
  encoding of the list with the new option behind all options whose key is not larger.
-/

namespace Smcp

open ByteMemory OptionFormat

def coapMaxOptionValueSize : ℕ := 1034

/-! ## `coap_encode_option` -/

/-- Where a `value` argument points: to bytes of another object, or into the buffer that is
being written. -/
inductive ValueSource where
  | outside (bytes : List UInt8)
  | inside (p : ℕ)

/-- The `memcpy` of `len` value bytes to `dst`. -/
def copyValue (b : Buffer) (dst : ℕ) (value : ValueSource) (len : ℕ) : Buffer :=
  match value with
  | .outside bytes => b.copy dst (bytes.take len)
  | .inside p => b.move dst p len

/-- The delta part of `coap_encode_option`: the buffer and `value_offset`. -/
def encodeDelta (b : Buffer) (buffer optionDelta : ℕ) : Buffer × ℕ :=
  if optionDelta ≥ 269 then
    (((b.store buffer 0xE0).store (buffer + 1) (UInt8.ofNat ((optionDelta - 269) / 256))).store
      (buffer + 2) (UInt8.ofNat ((optionDelta - 269) % 256)), 3)
  else if optionDelta ≥ 13 then
    ((b.store buffer 0xD0).store (buffer + 1) (UInt8.ofNat (optionDelta - 13)), 2)
  else (b.store buffer (UInt8.ofNat (optionDelta * 16)), 1)

/-- The length part of `coap_encode_option`: the buffer and `value_offset`. -/
def encodeLength (b : Buffer) (buffer valueOffset len : ℕ) : Buffer × ℕ :=
  if len ≥ 269 then
    (((b.store buffer (b.byte buffer ||| 14)).store (buffer + valueOffset)
      (UInt8.ofNat ((len - 269) / 256))).store (buffer + valueOffset + 1)
      (UInt8.ofNat ((len - 269) % 256)), valueOffset + 2)
  else if len ≥ 13 then
    ((b.store buffer (b.byte buffer ||| 13)).store (buffer + valueOffset)
      (UInt8.ofNat (len - 13)), valueOffset + 1)
  else (b.store buffer (b.byte buffer ||| UInt8.ofNat (len % 16)), valueOffset)

/-- `coap_encode_option`: the buffer and the returned pointer. The difference of the
keys is kept in a `uint16_t`; the length is cut to the largest option value. -/
def coapEncodeOption (b : Buffer) (buffer prevKey key : ℕ) (value : ValueSource) (len : ℕ) :
    Buffer × ℕ :=
  let optionDelta := (((key : ℤ) - prevKey) % 65536).toNat
  let (b, valueOffset) := encodeDelta b buffer optionDelta
  let len := if len > coapMaxOptionValueSize then coapMaxOptionValueSize else len
  let (b, valueOffset) := encodeLength b buffer valueOffset len
  let buffer := buffer + valueOffset
  (copyValue b buffer value len, buffer + len)

theorem encodeDelta_eq (b : Buffer) (p d : ℕ) :
    encodeDelta b p d =
      (b.copy p (UInt8.ofNat (nibble d * 16) :: extension d), 1 + extLen (nibble d)) := by
  unfold encodeDelta nibble extension extLen
  -- two extension bytes, one, or none
  by_cases h269 : 269 ≤ d
  · have h13 : ¬d < 13 := by omega
    have h269' : ¬d < 269 := by omega
    have h := (b.copy_copy p [0xE0] [UInt8.ofNat ((d - 269) / 256)])
    have h' := (b.copy_copy p [0xE0, UInt8.ofNat ((d - 269) / 256)]
      [UInt8.ofNat ((d - 269) % 256)])
    simp only [List.length_cons, List.length_nil, List.cons_append, List.nil_append] at h h'
    simp only [ge_iff_le, h269, h13, h269', ↓reduceIte, Buffer.store_eq_copy]
    rw [h, h']
    rfl
  · by_cases h13 : 13 ≤ d
    · have h13' : ¬d < 13 := by omega
      have h269' : d < 269 := by omega
      have h := (b.copy_copy p [0xD0] [UInt8.ofNat (d - 13)])
      simp only [List.length_cons, List.length_nil, List.cons_append, List.nil_append] at h
      simp only [ge_iff_le, h269, h13, h13', h269', ↓reduceIte, Buffer.store_eq_copy]
      rw [h]
      rfl
    · have h13' : d < 13 := by omega
      have hne : d ≠ 13 := by omega
      have hne' : d ≠ 14 := by omega
      simp [h269, h13, h13', hne, hne', Buffer.store_eq_copy]

/-- The two nibbles of a header byte, put together with `|=`. -/
theorem or_nibbles (a c : Fin 16) :
    UInt8.ofNat (a.val * 16) ||| UInt8.ofNat c.val = UInt8.ofNat (a.val * 16 + c.val) := by
  revert a c
  decide

theorem ofNat_or_nibble {a c : ℕ} (ha : a < 16) (hc : c < 16) :
    UInt8.ofNat (a * 16) ||| UInt8.ofNat c = UInt8.ofNat (a * 16 + c) :=
  or_nibbles ⟨a, ha⟩ ⟨c, hc⟩

theorem encodeLength_copy (b : Buffer) (p a n : ℕ) (l : List UInt8) (ha : a < 16) :
    encodeLength (b.copy p (UInt8.ofNat (a * 16) :: l)) p (1 + l.length) n =
      (b.copy p (UInt8.ofNat (a * 16 + nibble n) :: (l ++ extension n)),
        1 + l.length + extLen (nibble n)) := by
  -- the first byte has the delta in its upper half already
  have hor := ofNat_or_nibble ha (show nibble n < 16 by have := nibble_lt n; omega)
  have happend (x : UInt8) (r : List UInt8) :
      (b.copy p (x :: l)).copy (p + (1 + l.length)) r = b.copy p (x :: (l ++ r)) := by
    have h := b.copy_copy p (x :: l) r
    rw [List.length_cons, Nat.add_comm l.length 1, List.cons_append] at h
    exact h
  unfold encodeLength
  rw [Buffer.copy_cons_self]
  unfold nibble extension extLen at *
  -- two extension bytes, one, or none
  by_cases h269 : 269 ≤ n
  · have h13 : ¬n < 13 := by omega
    have h269' : ¬n < 269 := by omega
    simp only [h13, h269', ↓reduceIte] at hor
    simp only [ge_iff_le, h269, h13, h269', ↓reduceIte, Buffer.copy_cons_store]
    rw [show (14 : UInt8) = UInt8.ofNat 14 from rfl, hor, Buffer.store_eq_copy, Buffer.store_eq_copy,
      happend]
    have h2 := b.copy_copy p
      (UInt8.ofNat (a * 16 + 14) :: (l ++ [UInt8.ofNat ((n - 269) / 256)]))
      [UInt8.ofNat ((n - 269) % 256)]
    simp only [List.length_cons, List.length_append, List.length_nil, List.cons_append,
      List.append_assoc, List.nil_append] at h2
    rw [show p + (1 + l.length) + 1 = p + (l.length + (0 + 1) + 1) by omega, h2]
    rfl
  · by_cases h13 : 13 ≤ n
    · have h13' : ¬n < 13 := by omega
      have h269' : n < 269 := by omega
      simp only [h13', h269', ↓reduceIte] at hor
      simp only [ge_iff_le, h269, h13, h13', h269', ↓reduceIte, Buffer.copy_cons_store]
      rw [show (13 : UInt8) = UInt8.ofNat 13 from rfl, hor, Buffer.store_eq_copy, happend]
    · have h13' : n < 13 := by omega
      have hmod : n % 16 = n := by omega
      have hne : n ≠ 13 := by omega
      have hne' : n ≠ 14 := by omega
      simp only [h13', ↓reduceIte] at hor
      simp only [ge_iff_le, h269, h13, h13', hmod, hne, hne', ↓reduceIte, Buffer.copy_cons_store,
        hor, List.append_nil, Nat.add_zero]

/-- The header of an option: everything before its value. -/
def optionHeader (delta n : ℕ) : List UInt8 :=
  UInt8.ofNat (nibble delta * 16 + nibble n) :: (extension delta ++ extension n)

theorem length_optionHeader (delta n : ℕ) :
    (optionHeader delta n).length = 1 + extLen (nibble delta) + extLen (nibble n) := by
  simp [optionHeader]
  omega

theorem optionBytes_eq_header (delta : ℕ) (v : List UInt8) :
    optionBytes delta v = optionHeader delta v.length ++ v := by
  simp [optionBytes, optionHeader]

/-- One call of `coap_encode_option` writes the header and copies the value behind it. -/
theorem coapEncodeOption_header (b : Buffer) {p prev key len : ℕ} (value : ValueSource)
    (hkey : prev ≤ key) (hdelta : key - prev < 65536) (hlen : len ≤ coapMaxOptionValueSize) :
    coapEncodeOption b p prev key value len =
      (copyValue (b.copy p (optionHeader (key - prev) len))
        (p + (optionHeader (key - prev) len).length) value len,
        p + (optionHeader (key - prev) len).length + len) := by
  have hd : (((key : ℤ) - prev) % 65536).toNat = key - prev := by omega
  have hn : nibble (key - prev) < 16 := by
    have := nibble_lt (key - prev)
    omega
  have hl := encodeLength_copy b p (nibble (key - prev)) len (extension (key - prev)) hn
  rw [length_extension] at hl
  unfold coapEncodeOption
  simp only [hd, encodeDelta_eq, show ¬len > coapMaxOptionValueSize by omega, ↓reduceIte]
  rw [hl, length_optionHeader, optionHeader, ← Nat.add_assoc]

/-- One call of `coap_encode_option` with a value from another object. -/
theorem coapEncodeOption_eq (b : Buffer) {p prev key : ℕ} {v : List UInt8}
    (hkey : prev ≤ key) (hdelta : key - prev < 65536) (hlen : v.length ≤ coapMaxOptionValueSize) :
    coapEncodeOption b p prev key (.outside v) v.length =
      (b.copy p (optionBytes (key - prev) v), p + (optionBytes (key - prev) v).length) := by
  rw [coapEncodeOption_header b _ hkey hdelta hlen, optionBytes_eq_header, copyValue,
    List.take_length, Buffer.copy_copy, List.length_append, Nat.add_assoc]

/-- `coap_decode_option` on bytes that `coap_encode_option` wrote. -/
theorem coapDecodeOption_of_read {m : ℕ → UInt8} {p delta : ℕ} {v : List UInt8} (key : ℕ)
    (hdelta : delta ≤ 65804) (hv : v.length < 65536)
    (h : readBytes m p (optionBytes delta v).length = optionBytes delta v) :
    coapDecodeOption m p key =
      some
        { next := p + (optionBytes delta v).length
          key := key + delta
          value := p + (optionHeader delta v.length).length
          len := v.length } := by
  -- the first byte, and then the two extensions, one behind the other
  obtain ⟨hhead, htail⟩ := readBytes_eq_cons (h.trans rfl)
  have hext := readBytes_eq_append htail
  rw [List.length_append] at hext
  have hdext := readBytes_eq_append hext.1
  rw [length_extension, length_extension] at hdext
  -- the two nibbles of the first byte
  have hnib : (m p).toNat / 16 = nibble delta := by rw [hhead, nibble_header_div]
  have hnib' : (m p).toNat % 16 = nibble v.length := by rw [hhead, nibble_header_mod]
  have hd : declaredDelta m p = delta := by
    rw [declaredDelta, deltaExt, hnib, hdext.1, fieldValue_nibble hdelta]
  have hl : declaredLength m p = v.length := by
    rw [declaredLength, lengthExt, hnib, hnib', hdext.2, fieldValue_nibble (by omega)]
  have hstart : valueStart m p = p + (optionHeader delta v.length).length := by
    rw [valueStart, hnib, hnib', length_optionHeader]
    omega
  have := nibble_lt delta
  have := nibble_lt v.length
  rw [coapDecodeOption_eq, if_neg (by omega), hd, hl, hstart, word16_of_lt hv,
    optionBytes_eq_header, List.length_append, Nat.add_assoc]

/-! ## `coap_insert_option` -/

/-- The variables of `coap_insert_option` after the search for the insertion point. -/
structure InsertScan where
  iter : Option ℕ
  iterKey : ℕ
  insertionPoint : ℕ
  prevKey : ℕ
deriving Repr, DecidableEq

/-- The search loop. Every round passes at least one byte, so the length of the area is enough
fuel. A `NULL` iterator ends the loop with `iter_key` invalid. -/
def coapInsertScan (m : ℕ → UInt8) (endOfOptions key : ℕ) :
    (fuel : ℕ) → (iter iterKey insertionPoint prevKey : ℕ) → InsertScan
  | 0, _, iterKey, insertionPoint, prevKey => ⟨none, iterKey, insertionPoint, prevKey⟩
  | fuel + 1, iter, iterKey, insertionPoint, prevKey =>
    match coapDecodeOption m iter iterKey with
    | none =>
      ⟨none, coapOptionInvalid, insertionPoint,
        if coapOptionInvalid ≤ key then coapOptionInvalid else prevKey⟩
    | some d =>
      if d.key > key then ⟨some d.next, d.key, insertionPoint, prevKey⟩
      else if d.next < endOfOptions then
        coapInsertScan m endOfOptions key fuel d.next d.key d.next d.key
      else ⟨some d.next, d.key, d.next, d.key⟩

/-- How many bytes the options grow, as `coap_insert_option` adds it up in a `coap_size_t`. -/
def insertSizeDiff (m : ℕ → UInt8) (s : InsertScan) (key len : ℕ) : ℕ :=
  let grow :=
    len + 1 + (if len ≥ 13 then 1 else 0) + (if len ≥ 269 then 1 else 0)
      + (if key - s.prevKey ≥ 13 then 1 else 0) + (if key - s.prevKey ≥ 269 then 1 else 0)
      + (if s.iterKey - key ≥ 13 then 1 else 0) + (if s.iterKey - key ≥ 269 then 1 else 0)
  let nib := (m s.insertionPoint).toNat / 16
  let shrink := if nib = 13 then 1 else if nib = 14 then 2 else 0
  word16 (grow + 65536 - shrink)

/-- `coap_insert_option`: the buffer and the number of bytes inserted. -/
def coapInsertOption (b : Buffer) (startOfOptions endOfOptions key : ℕ) (value : List UInt8)
    (len : ℕ) : Buffer × ℕ :=
  let s : InsertScan :=
    if startOfOptions = endOfOptions then ⟨none, 0, startOfOptions, 0⟩
    else coapInsertScan b.byte endOfOptions key (endOfOptions - startOfOptions)
      startOfOptions 0 startOfOptions 0
  if s.iter.any fun iter => s.iterKey > key ∨ iter < endOfOptions then
    let sizeDiff := insertSizeDiff b.byte s key len
    -- move higher options
    let b := if sizeDiff ≠ 0 then
        b.move (s.insertionPoint + sizeDiff) s.insertionPoint (endOfOptions - s.insertionPoint)
      else b
    let (nextValue, nextLen) :=
      match coapDecodeOption b.byte (s.insertionPoint + sizeDiff) 0 with
      | none => (ValueSource.outside [], 0)
      | some d => (ValueSource.inside d.value, d.len)
    -- encode the new option, then the first option after it again
    let (b, iter) := coapEncodeOption b s.insertionPoint s.prevKey key (.outside value) len
    let (b, _) := coapEncodeOption b iter key s.iterKey nextValue nextLen
    (b, sizeDiff)
  else
    -- just append
    let (b, iter) := coapEncodeOption b endOfOptions s.prevKey key (.outside value) len
    (b, iter - endOfOptions)

/-! ## What the insertion does -/

section
variable {m : ℕ → UInt8} {p endp fuel prev key : ℕ} {below above : List (ℕ × List UInt8)}

/-- The first option of an encoded area, as the search loop reads it. -/
theorem coapDecodeOption_encode {k : ℕ} {v : List UInt8} {l : List (ℕ × List UInt8)}
    (h : Ordered coapOptionInvalid coapMaxOptionValueSize prev ((k, v) :: l))
    (hread : readBytes m p (endp - p) = encode prev ((k, v) :: l)) :
    coapDecodeOption m p prev =
        some
          { next := p + (optionBytes (k - prev) v).length
            key := k
            value := p + (optionHeader (k - prev) v.length).length
            len := v.length } ∧
      readBytes m (p + (optionBytes (k - prev) v).length)
        (endp - (p + (optionBytes (k - prev) v).length)) = encode k l := by
  obtain ⟨hprev, hk, hv, -⟩ := h
  unfold coapOptionInvalid at hk
  unfold coapMaxOptionValueSize at hv
  rw [encode] at hread
  have hlen := congrArg List.length hread
  simp only [length_readBytes, List.length_append] at hlen
  obtain ⟨hopt, hrest⟩ := readBytes_eq_append hread
  refine ⟨?_, ?_⟩
  · rw [coapDecodeOption_of_read prev (by omega) (by omega) hopt,
      show prev + (k - prev) = k by omega]
  · rw [show endp - (p + (optionBytes (k - prev) v).length) = (encode k l).length by omega, hrest]

theorem length_optionBytes_pos (d : ℕ) (v : List UInt8) : 0 < (optionBytes d v).length := by
  rw [length_optionBytes]
  omega

theorem length_le_length_encode (prev : ℕ) (l : List (ℕ × List UInt8)) :
    l.length ≤ (encode prev l).length := by
  induction l generalizing prev with
  | nil => simp
  | cons o l ih =>
    obtain ⟨k, v⟩ := o
    have := ih k
    have := length_optionBytes_pos (k - prev) v
    simp only [encode, List.length_cons, List.length_append]
    omega

/-- The search stops behind the first option whose key is larger. -/
theorem coapInsertScan_above {k : ℕ} {v : List UInt8} (hfuel : below.length < fuel)
    (hord : Ordered coapOptionInvalid coapMaxOptionValueSize prev (below ++ (k, v) :: above))
    (hbelow : ∀ x ∈ below, x.1 ≤ key) (hk : key < k)
    (hread : readBytes m p (endp - p) = encode prev (below ++ (k, v) :: above)) :
    coapInsertScan m endp key fuel p prev p prev =
      ⟨some (p + (encode prev below).length + (optionBytes (k - lastKey prev below) v).length), k,
        p + (encode prev below).length, lastKey prev below⟩ := by
  induction below generalizing p prev fuel with
  | nil =>
    obtain ⟨fuel, rfl⟩ : ∃ n, fuel = n + 1 := ⟨fuel - 1, by simp at hfuel; omega⟩
    rw [coapInsertScan, (coapDecodeOption_encode hord hread).1]
    simp [hk, encode]
  | cons x below ih =>
    obtain ⟨k', v'⟩ := x
    simp only [List.length_cons] at hfuel
    rw [List.cons_append] at hord hread
    obtain ⟨fuel, rfl⟩ : ∃ n, fuel = n + 1 := ⟨fuel - 1, by omega⟩
    obtain ⟨hdec, hrest⟩ := coapDecodeOption_encode hord hread
    have hle : k' ≤ key := hbelow (k', v') (by simp)
    -- the larger option is still ahead, so the area does not end here
    have hmore : p + (optionBytes (k' - prev) v').length < endp := by
      have hlen := congrArg List.length hrest
      have := length_optionBytes_pos (k - lastKey k' below) v
      simp only [length_readBytes, encode_append, encode, List.length_append] at hlen
      omega
    rw [coapInsertScan, hdec]
    simp only [show ¬k' > key by omega, hmore, ↓reduceIte]
    rw [ih (by omega) hord.2.2.2 (fun x hx => hbelow x (by simp [hx])) hrest]
    simp only [encode, List.length_append, lastKey_cons, Nat.add_assoc]

/-- The search passes a list without larger keys to its end. -/
theorem coapInsertScan_end (hne : below ≠ []) (hfuel : below.length ≤ fuel) (hp : p ≤ endp)
    (hord : Ordered coapOptionInvalid coapMaxOptionValueSize prev below)
    (hbelow : ∀ x ∈ below, x.1 ≤ key) (hread : readBytes m p (endp - p) = encode prev below) :
    coapInsertScan m endp key fuel p prev p prev =
      ⟨some endp, lastKey prev below, endp, lastKey prev below⟩ := by
  -- induction on the options that are passed over
  induction below generalizing p prev fuel with
  | nil => exact absurd rfl hne
  | cons x below ih =>
    obtain ⟨k', v'⟩ := x
    simp only [List.length_cons] at hfuel
    obtain ⟨fuel, rfl⟩ : ∃ n, fuel = n + 1 := ⟨fuel - 1, by omega⟩
    obtain ⟨hdec, hrest⟩ := coapDecodeOption_encode hord hread
    have hle : k' ≤ key := hbelow (k', v') (by simp)
    have hlen := congrArg List.length hread
    simp only [length_readBytes, encode, List.length_append] at hlen
    rw [coapInsertScan, hdec]
    simp only [show ¬k' > key by omega, ↓reduceIte]
    cases below with
    | nil =>
      have hend : p + (optionBytes (k' - prev) v').length = endp := by
        simp only [encode, List.length_nil] at hlen
        omega
      simp [hend]
    | cons y below =>
      have := length_le_length_encode k' (y :: below)
      simp only [List.length_cons] at this
      rw [if_pos (by omega), ih (by simp) (by omega) (by omega) hord.2.2.2
        (fun x hx => hbelow x (by simp [hx])) hrest, lastKey_cons prev]

/-- The growth that `coap_insert_option` adds up is the growth of the encoding. -/
theorem insertSizeDiff_eq (iter : Option ℕ) {k q len : ℕ} (n : ℕ) (hprev : prev ≤ key) (hk : key < k)
    (hkk : k ≤ 65535) (hlen : len ≤ 1034)
    (hnib : (m q).toNat / 16 = nibble (k - prev)) :
    insertSizeDiff m ⟨iter, k, q, prev⟩ key len + ((optionHeader (k - prev) n).length + n) =
      (optionHeader (key - prev) len).length + len + ((optionHeader (k - key) n).length + n) := by
  have hsplit := extLen_nibble_add_le (key - prev) (k - key)
  rw [show key - prev + (k - key) = k - prev by omega] at hsplit
  have hgrow : len + 1 + (if len ≥ 13 then 1 else 0) + (if len ≥ 269 then 1 else 0)
      + (if key - prev ≥ 13 then 1 else 0) + (if key - prev ≥ 269 then 1 else 0)
      + (if k - key ≥ 13 then 1 else 0) + (if k - key ≥ 269 then 1 else 0) =
      len + 1 + extLen (nibble len) + extLen (nibble (key - prev)) + extLen (nibble (k - key)) := by
    simp only [extLen_nibble, ge_iff_le]
    ring
  have hlenExt := extLen_le (nibble len)
  have hprevExt := extLen_le (nibble (key - prev))
  have hkExt := extLen_le (nibble (k - key))
  have hshrink : (if nibble (k - prev) = 13 then 1 else if nibble (k - prev) = 14 then 2 else 0) =
      extLen (nibble (k - prev)) := rfl
  simp only [insertSizeDiff, hgrow, hnib, hshrink, length_optionHeader, word16]
  omega

/-- The bytes that `coap_insert_option` rewrites when an option with a larger key follows. -/
theorem coapInsertOption_middle {b : Buffer} {start k n : ℕ} {v w : List UInt8}
    (hle : start ≤ endp)
    (hord : Ordered coapOptionInvalid coapMaxOptionValueSize 0 (below ++ (k, w) :: above))
    (hread : readBytes b.byte start (endp - start) = encode 0 (below ++ (k, w) :: above))
    (hbelow : ∀ x ∈ below, x.1 ≤ key) (hk : key < k) (hv : v.length ≤ coapMaxOptionValueSize)
    (hn : n + (optionBytes (k - lastKey 0 below) w).length =
      (optionBytes (key - lastKey 0 below) v).length + (optionBytes (k - key) w).length) :
    ∃ b', coapInsertOption b start endp key v v.length = (b', n) ∧
      readBytes b'.byte start (endp - start + n) = encode 0 (below ++ (key, v) :: (k, w) :: above) ∧
      (∀ j, j < start ∨ endp + n ≤ j → b'.byte j = b.byte j) ∧
      b'.top ≤ max b.top (endp + n) := by
  set kp := lastKey 0 below with hkp
  set q := start + (encode 0 below).length with hq
  obtain ⟨hordb, horda⟩ := ordered_append.1 hord
  obtain ⟨hkp', hkinv, hw, -⟩ := horda
  have hprev : kp ≤ key := lastKey_le (by omega) hbelow
  unfold coapOptionInvalid at hkinv
  have hwlen : w.length ≤ 1034 := hw
  have hvlen : v.length ≤ 1034 := hv
  -- the old encoding, cut at the insertion point
  have henc : encode 0 (below ++ (k, w) :: above) =
      encode 0 below ++ (optionBytes (k - kp) w ++ encode k above) := by
    rw [encode_append, encode]
  have hlen : endp - start =
      (encode 0 below).length + ((optionBytes (k - kp) w).length + (encode k above).length) := by
    rw [← length_readBytes b.byte start (endp - start), hread, henc]
    simp only [List.length_append]
  have hpos := length_optionBytes_pos (k - kp) w
  rw [henc] at hread
  obtain ⟨hread1, hread2⟩ := readBytes_eq_append hread
  rw [← hq] at hread2
  have hqe : (optionBytes (k - kp) w ++ encode k above).length = endp - q := by
    rw [List.length_append]
    omega
  rw [hqe] at hread2
  -- what the search finds, and how far the rest moves
  have hscan := coapInsertScan_above
    (by have := length_le_length_encode 0 below; omega : below.length < endp - start) hord hbelow hk
    (by rw [henc]; exact hread)
  rw [← hkp, ← hq] at hscan
  have hnib : (b.byte q).toNat / 16 = nibble (k - kp) := by
    rw [(readBytes_eq_cons (hread2.trans rfl)).1, nibble_header_div]
  have hdiff : insertSizeDiff b.byte
      ⟨some (q + (optionBytes (k - kp) w).length), k, q, kp⟩ key v.length = n := by
    have h := insertSizeDiff_eq (some (q + (optionBytes (k - kp) w).length)) w.length hprev hk hkinv
      hvlen hnib
    simp only [optionBytes_eq_header, List.length_append] at hn
    omega
  set b1 := if n ≠ 0 then b.move (q + n) q (endp - q) else b with hb1
  have hmoved : readBytes b1.byte (q + n) (endp - q) =
      optionBytes (k - kp) w ++ encode k above := by
    rw [← hread2, hb1]
    split_ifs with h0
    · exact Buffer.readBytes_move b (q + n) q (endp - q)
    · rw [show n = 0 by omega, Nat.add_zero]
  have hkeep : ∀ j, j < q ∨ endp + n ≤ j → b1.byte j = b.byte j := by
    intro j hj
    rw [hb1]
    split_ifs with h0
    · exact Buffer.move_of_outside b q (endp - q) (by omega)
    · rfl
  have htop1 : b1.top ≤ max b.top (endp + n) := by
    rw [hb1]
    split_ifs
    · exact Buffer.top_move_le (le_max_left _ _) (by omega)
    · exact le_max_left _ _
  -- the option that follows is found at its new place, and its value does not move again
  have hnext := coapDecodeOption_of_read (m := b1.byte) 0 (show k - kp ≤ 65804 by omega)
    (show w.length < 65536 by omega) (readBytes_eq_append hmoved).1
  have hplace : q + (optionBytes (key - kp) v).length + (optionHeader (k - key) w.length).length =
      q + n + (optionHeader (k - kp) w.length).length := by
    simp only [optionBytes_eq_header, List.length_append] at hn ⊢
    omega
  have henc1 := coapEncodeOption_eq b1 (p := q) hprev (by omega) hv
  have henc2 := coapEncodeOption_header (b1.copy q (optionBytes (key - kp) v))
    (p := q + (optionBytes (key - kp) v).length)
    (.inside (q + n + (optionHeader (k - kp) w.length).length)) hk.le (by omega) hw
  rw [hplace, copyValue, Buffer.copy_copy] at henc2
  set b2 := b1.copy q (optionBytes (key - kp) v ++ optionHeader (k - key) w.length) with hb2
  set src := q + n + (optionHeader (k - kp) w.length).length with hsrc
  have hne : start ≠ endp := by omega
  refine ⟨b2.move src src w.length, ?_, ?_, ?_, ?_⟩
  · unfold coapInsertOption
    simp only [hne, ↓reduceIte, hscan, hdiff, hk, true_or, decide_true, Option.any_some,
      ← hb1, hnext, henc1, henc2]
  · rw [Buffer.move_self, encode_append, encode, encode, ← hkp]
    have hw' := (readBytes_eq_append (show readBytes b1.byte (q + n) (endp - q) =
      optionHeader (k - kp) w.length ++ (w ++ encode k above) by
        rw [hmoved, optionBytes_eq_header, List.append_assoc])).2
    rw [← hsrc] at hw'
    have hsum : endp - start + n = (encode 0 below).length +
        ((optionBytes (key - kp) v ++ optionHeader (k - key) w.length).length +
          (w ++ encode k above).length) := by
      simp only [List.length_append, optionBytes_eq_header] at hlen hn ⊢
      omega
    have hplace' : start + (encode 0 below).length +
        (optionBytes (key - kp) v ++ optionHeader (k - key) w.length).length = src := by
      rw [List.length_append]
      omega
    have hfirst : readBytes b2.byte start (encode 0 below).length = encode 0 below := by
      refine Eq.trans (readBytes_congr fun j hj hj' => ?_) hread1
      rw [hb2, Buffer.copy_of_outside _ _ (by omega), hkeep j (by omega)]
    have hlast : readBytes b2.byte src (w ++ encode k above).length = w ++ encode k above := by
      refine Eq.trans (readBytes_congr fun j hj hj' => ?_) hw'
      rw [hb2, Buffer.copy_of_outside _ _ (by omega)]
    rw [hsum, readBytes_add, readBytes_add, hfirst, hplace', hlast, ← hq, hb2, Buffer.readBytes_copy]
    simp only [optionBytes_eq_header, List.append_assoc]
  · intro j hj
    have hlen2 : q + (optionBytes (key - kp) v ++ optionHeader (k - key) w.length).length ≤ endp + n := by
      simp only [List.length_append, optionBytes_eq_header] at hlen hn ⊢
      omega
    rw [Buffer.move_self, hb2, Buffer.copy_of_outside _ _ (by omega), hkeep j (by omega)]
  · have hlen2 : src + w.length ≤ endp + n := by
      simp only [List.length_append, optionBytes_eq_header] at hlen hn ⊢
      omega
    refine Buffer.top_move_le (Buffer.top_copy_le htop1 ?_) ?_
    · rw [List.length_append]
      omega
    · omega

/-- Appending behind a list without larger keys. -/
theorem coapInsertOption_end {b : Buffer} {start : ℕ} {v : List UInt8} (hle : start ≤ endp)
    (hord : Ordered coapOptionInvalid coapMaxOptionValueSize 0 below)
    (hread : readBytes b.byte start (endp - start) = encode 0 below)
    (hbelow : ∀ x ∈ below, x.1 ≤ key) (hkey : key ≤ coapOptionInvalid)
    (hv : v.length ≤ coapMaxOptionValueSize) :
    coapInsertOption b start endp key v v.length =
      (b.copy endp (optionBytes (key - lastKey 0 below) v),
        (optionBytes (key - lastKey 0 below) v).length) := by
  -- the option goes behind all of them
  have hprev : lastKey 0 below ≤ key := lastKey_le (by omega) hbelow
  unfold coapOptionInvalid at hkey
  have henc := coapEncodeOption_eq b (p := endp) hprev (by omega) hv
  have hlen : endp - start = (encode 0 below).length := by
    rw [← hread, length_readBytes]
  unfold coapInsertOption
  -- without options the area is empty
  by_cases hempty : below = []
  · have hse : start = endp := by
      rw [hempty, encode, List.length_nil] at hlen
      omega
    rw [hempty, lastKey_nil] at henc ⊢
    simp only [hse, ↓reduceIte, Option.any_none, Bool.false_eq_true, henc, Nat.add_sub_cancel_left]
  · have hpos := length_le_length_encode 0 below
    have hne : start ≠ endp := by
      have := List.length_pos_iff.2 hempty
      omega
    have hscan := coapInsertScan_end (m := b.byte) (p := start) hempty
      (show below.length ≤ endp - start by omega) hle hord hbelow hread
    simp only [hne, ↓reduceIte, hscan, show ¬lastKey 0 below > key by omega, lt_irrefl, or_self,
      decide_false, Option.any_some, Bool.false_eq_true, henc, Nat.add_sub_cancel_left]

/-- Inserting one option: the area grows by at most five bytes more than the value, it is the
encoding of the list with the new option in its place, and nothing else is touched. -/
theorem coapInsertOption_spec {b : Buffer} {start : ℕ} {v : List UInt8}
    {opts : List (ℕ × List UInt8)} (hle : start ≤ endp)
    (hord : Ordered coapOptionInvalid coapMaxOptionValueSize 0 opts)
    (hread : readBytes b.byte start (endp - start) = encode 0 opts)
    (hkey : key ≤ coapOptionInvalid) (hv : v.length ≤ coapMaxOptionValueSize) :
    ∃ b' n, coapInsertOption b start endp key v v.length = (b', n) ∧ n ≤ v.length + 5 ∧
      readBytes b'.byte start (endp - start + n) = encode 0 (insertByKey (key, v) opts) ∧
      (∀ j, j < start ∨ endp + n ≤ j → b'.byte j = b.byte j) ∧
      b'.top ≤ max b.top (endp + n) := by
  -- the list taken apart at the place of the new option
  obtain ⟨below, above, hopts, hins, hbelow, habove⟩ := insertByKey_split (key, v) opts
  rw [hins]
  have hlv := extLen_le (nibble v.length)
  have hlk := extLen_le (nibble (key - lastKey 0 below))
  -- nothing behind it, or an option whose delta is written anew
  cases above with
  | nil =>
    rw [List.append_nil] at hopts
    subst hopts
    have hlen := length_optionBytes (key - lastKey 0 opts) v
    refine ⟨_, _, coapInsertOption_end hle hord hread hbelow hkey hv, by omega, ?_, ?_, ?_⟩
    · rw [readBytes_add, encode_append, encode, encode, List.append_nil]
      congr 1
      · rw [← hread]
        exact readBytes_congr fun j hj hj' => Buffer.copy_of_outside b _ (by omega)
      · rw [show start + (endp - start) = endp by omega]
        exact Buffer.readBytes_copy b endp _
    · exact fun j hj => Buffer.copy_of_outside b _ (by omega)
    · exact Buffer.top_copy_le (le_max_left _ _) (le_max_right _ _)
  | cons x above =>
    obtain ⟨k, w⟩ := x
    subst hopts
    have hk : key < k := habove (k, w) above rfl
    have hprev : lastKey 0 below ≤ key := lastKey_le (by omega) hbelow
    have hmono : extLen (nibble (k - key)) ≤ extLen (nibble (k - lastKey 0 below)) :=
      extLen_nibble_mono (by omega)
    have hsplit := extLen_nibble_add_le (key - lastKey 0 below) (k - key)
    rw [show key - lastKey 0 below + (k - key) = k - lastKey 0 below by omega] at hsplit
    have hlen := length_optionBytes (key - lastKey 0 below) v
    have hlen1 := length_optionBytes (k - key) w
    have hlen2 := length_optionBytes (k - lastKey 0 below) w
    obtain ⟨n, hn⟩ : ∃ n, n + (optionBytes (k - lastKey 0 below) w).length =
        (optionBytes (key - lastKey 0 below) v).length + (optionBytes (k - key) w).length :=
      ⟨_, Nat.sub_add_cancel (by omega)⟩
    obtain ⟨b', heq, hread', hkeep, htop⟩ :=
      coapInsertOption_middle hle hord hread hbelow hk hv hn
    exact ⟨b', n, heq, by omega, hread', hkeep, htop⟩

end

end Smcp
