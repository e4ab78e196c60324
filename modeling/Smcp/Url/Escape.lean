import Mathlib.Data.Nat.Notation
import Mathlib.Data.List.TakeWhile
import Mathlib.Data.Fintype.Basic

/-!
# Escaped strings

`url_encode_cstr`, `url_decode_cstr` and `url_decode_str` of `url-helpers.c`.

* `urlEncodeCstr_eq`: a destination that is large enough gets the escaped string;
* `urlDecode_escape`: what either decoder makes of an escaped string;
* `urlDecode_urlEncode`: the round trip holds for the strings without a `+`, which the encoder
  leaves alone and the decoders turn into a space.

A source string is the list of the bytes behind the pointer, up to the terminator or to the end
of what may be read. `isalnum` is the one of the C locale.
-/

namespace Smcp

/-- The byte of an ASCII character. -/
def ascii (c : Char) : UInt8 := UInt8.ofNat c.toNat

/-- The bytes of a string of ASCII characters. -/
def asciiBytes (s : String) : List UInt8 := s.toList.map ascii

/-- The string at the front of some bytes: everything before the first `NUL`. -/
def cString (bytes : List UInt8) : List UInt8 := bytes.takeWhile (· ≠ 0)

/-- What a function leaves that fills a destination of `max_size` bytes: the bytes it stored
there, from the front, and the value it returned. -/
structure Filled where
  stored : List UInt8
  ret : ℕ
deriving Repr, DecidableEq

/-- The same with `bytes` stored and counted before. -/
def Filled.after (bytes : List UInt8) (f : Filled) : Filled :=
  ⟨bytes ++ f.stored, bytes.length + f.ret⟩

@[simp] theorem Filled.after_stored (bytes : List UInt8) (f : Filled) :
    (f.after bytes).stored = bytes ++ f.stored := rfl

/-- The number of bytes is added. -/
@[simp] theorem Filled.after_ret (bytes : List UInt8) (f : Filled) :
    (f.after bytes).ret = bytes.length + f.ret := rfl

/-! ## Characters -/

def isalnum (c : UInt8) : Bool :=
  (ascii '0' ≤ c && c ≤ ascii '9') || (ascii 'A' ≤ c && c ≤ ascii 'Z') ||
    (ascii 'a' ≤ c && c ≤ ascii 'z')

def isurlchar (srcChar : UInt8) : Bool :=
  isalnum srcChar || srcChar == ascii '$' || srcChar == ascii '-' || srcChar == ascii '_' ||
    srcChar == ascii '.' || srcChar == ascii '+' || srcChar == ascii '!' ||
    srcChar == ascii '*' || srcChar == ascii '\'' || srcChar == ascii '(' ||
    srcChar == ascii ')' || srcChar == ascii ','

def intToHexDigit (x : UInt8) : UInt8 :=
  ("0123456789ABCDEF".toList.map ascii).getD (x &&& 0xF).toNat 0

def hexDigitToInt (c : UInt8) : UInt8 :=
  if ascii '0' ≤ c ∧ c ≤ ascii '9' then c - ascii '0'
  else if ascii 'A' ≤ c ∧ c ≤ ascii 'F' then 10 + c - ascii 'A'
  else if ascii 'a' ≤ c ∧ c ≤ ascii 'f' then 10 + c - ascii 'a'
  else 0

/-! ## The three functions -/

/-- The bytes that stand for a character in an escaped string. The source shifts a signed
character; the sign bits that come in are cut off by the mask in `int_to_hex_digit`. -/
def escapeChar (srcChar : UInt8) : List UInt8 :=
  if isurlchar srcChar then [srcChar]
  else [ascii '%', intToHexDigit (srcChar >>> 4), intToHexDigit (srcChar &&& 0xF)]

/-- The loop of `url_encode_cstr`. -/
def urlEncodeLoop : (maxSize : ℕ) → (src : List UInt8) → Filled
  | _, [] => ⟨[0], 0⟩
  | maxSize, srcChar :: src =>
    if srcChar = 0 then ⟨[0], 0⟩
    else if maxSize = 0 then ⟨[0], 1⟩
    else if isurlchar srcChar then
      (urlEncodeLoop (maxSize - 1) src).after [srcChar]
    -- the destination is too small for the next character
    else if maxSize < 3 then ⟨[0], 1⟩
    else
      (urlEncodeLoop (maxSize - 3) src).after
        [ascii '%', intToHexDigit (srcChar >>> 4), intToHexDigit (srcChar &&& 0xF)]

/-- `url_encode_cstr`. -/
def urlEncodeCstr (src : List UInt8) (maxSize : ℕ) : Filled :=
  if maxSize = 0 then ⟨[], 0⟩ else urlEncodeLoop (maxSize - 1) src

/-- What a decoder makes of a character that does not start an escape. -/
def plainChar (srcChar : UInt8) : UInt8 :=
  -- stupid legacy space encoding
  if srcChar = ascii '+' then ascii ' ' else srcChar

/-- The loop of both decoders. They differ in the pairs of characters that make an escape of the
`%` in front of them. -/
def urlDecodeLoop (isEscape : UInt8 → UInt8 → Bool) : (maxSize : ℕ) → (src : List UInt8) → Filled
  | _, [] => ⟨[0], 0⟩
  | maxSize, [srcChar] =>
    if srcChar = 0 then ⟨[0], 0⟩
    else if maxSize = 0 then ⟨[0], 1⟩
    else Filled.after [plainChar srcChar] ⟨[0], 0⟩
  | maxSize, [srcChar, src0] =>
    if srcChar = 0 then ⟨[0], 0⟩
    else if maxSize = 0 then ⟨[0], 1⟩
    else (urlDecodeLoop isEscape (maxSize - 1) [src0]).after [plainChar srcChar]
  | maxSize, srcChar :: src0 :: src1 :: src =>
    if srcChar = 0 then ⟨[0], 0⟩
    else if maxSize = 0 then ⟨[0], 1⟩
    else if srcChar = ascii '%' ∧ isEscape src0 src1 then
      (urlDecodeLoop isEscape (maxSize - 1) src).after
        [(hexDigitToInt src0 <<< 4) + hexDigitToInt src1]
    else (urlDecodeLoop isEscape (maxSize - 1) (src0 :: src1 :: src)).after [plainChar srcChar]

/-- The condition of `url_decode_str` on `src[0]` and `src[1]`. -/
def isEscapeStr (src0 src1 : UInt8) : Bool := src0 != 0 && src1 != 0

/-- The condition of `url_decode_cstr`, which does not take `%00` for an escape. -/
def isEscapeCstr (src0 src1 : UInt8) : Bool :=
  src0 != 0 && src1 != 0 && !(src0 == ascii '0' && src1 == ascii '0')

/-- `url_decode_str`, with the first `src_len` bytes of the source. -/
def urlDecodeStr (maxSize : ℕ) (src : List UInt8) (srcLen : ℕ) : Filled :=
  if maxSize = 0 then ⟨[], 0⟩ else urlDecodeLoop isEscapeStr (maxSize - 1) (src.take srcLen)

/-- `url_decode_cstr`. A destination of size `0` gets the terminator all the same. -/
def urlDecodeCstr (src : List UInt8) (maxSize : ℕ) : Filled :=
  if maxSize = 0 then ⟨[0], 0⟩ else urlDecodeLoop isEscapeCstr (maxSize - 1) src

/-! ## Facts about single characters -/

/-- A property of the bytes holds if it holds of the numbers below 256. -/
theorem forall_byte {P : UInt8 → Prop} (h : ∀ n : Fin 256, P (UInt8.ofNat n)) (c : UInt8) : P c := by
  have hc := h ⟨c.toNat, c.toNat_lt⟩
  rwa [UInt8.ofNat_toNat] at hc

/-- The two digits of a byte give the byte back. -/
theorem hexDigits_value (c : UInt8) :
    (hexDigitToInt (intToHexDigit (c >>> 4)) <<< 4) + hexDigitToInt (intToHexDigit (c &&& 0xF)) =
      c := by
  revert c
  apply forall_byte
  decide +kernel

/-- A digit is no terminator. -/
theorem intToHexDigit_ne_zero (x : UInt8) : intToHexDigit x ≠ 0 := by
  revert x
  apply forall_byte
  decide +kernel

/-- Only the byte `NUL` has the digits `00`. -/
theorem eq_zero_of_hexDigits {c : UInt8} (hhigh : intToHexDigit (c >>> 4) = ascii '0')
    (hlow : intToHexDigit (c &&& 0xF) = ascii '0') : c = 0 := by
  have hvalue := hexDigits_value c
  rw [hhigh, hlow] at hvalue
  exact hvalue.symm

/-- `+` is written as it is. -/
theorem isurlchar_plus : isurlchar (ascii '+') = true := by decide

/-- `%` is not written as it is. -/
theorem isurlchar_percent : isurlchar (ascii '%') = false := by decide

theorem plainChar_of_ne {c : UInt8} (h : c ≠ ascii '+') : plainChar c = c := if_neg h

/-- Only `+` is read as something else. -/
theorem plainChar_eq_iff {c : UInt8} : plainChar c = c ↔ c ≠ ascii '+' := by
  constructor
  · intro h hplus
    subst hplus
    exact absurd h (by decide)
  · exact plainChar_of_ne

/-- What is read is no terminator. -/
theorem plainChar_ne_zero {c : UInt8} (h : c ≠ 0) : plainChar c ≠ 0 := by
  unfold plainChar
  split_ifs
  · decide
  · exact h

/-- Both decoders take the digits of a byte other than `NUL` for an escape. -/
def TakesDigits (isEscape : UInt8 → UInt8 → Bool) : Prop :=
  ∀ c : UInt8, c ≠ 0 → isEscape (intToHexDigit (c >>> 4)) (intToHexDigit (c &&& 0xF)) = true

/-- The decoder with a limit takes two digits behind `%`. -/
theorem takesDigits_str : TakesDigits isEscapeStr := by
  intro c _
  simp [isEscapeStr, intToHexDigit_ne_zero]

/-- The decoder of a C string takes two digits behind `%`. -/
theorem takesDigits_cstr : TakesDigits isEscapeCstr := by
  intro c hc
  have hdigits : ¬ (intToHexDigit (c >>> 4) = ascii '0' ∧ intToHexDigit (c &&& 0xF) = ascii '0') :=
    fun h => hc (eq_zero_of_hexDigits h.1 h.2)
  rw [not_and_or] at hdigits
  simpa [isEscapeCstr, intToHexDigit_ne_zero] using hdigits

/-! ## The escaped string -/

/-- The string with its characters escaped. -/
def escape (s : List UInt8) : List UInt8 := s.flatMap escapeChar

@[simp] theorem escape_nil : escape [] = [] := rfl

@[simp] theorem escape_cons (c : UInt8) (s : List UInt8) :
    escape (c :: s) = escapeChar c ++ escape s := rfl

/-- Escaping goes character by character. -/
theorem escape_append (s t : List UInt8) : escape (s ++ t) = escape s ++ escape t :=
  List.flatMap_append

/-- No character is lost. -/
theorem escapeChar_length_pos (c : UInt8) : 0 < (escapeChar c).length := by
  unfold escapeChar
  split_ifs <;> simp

/-- Everything in an escaped string is left alone by the encoder or is a `%`. -/
theorem mem_escapeChar {b c : UInt8} (h : b ∈ escapeChar c) : isurlchar b = true ∨ b = ascii '%' := by
  have hdigit : ∀ x : UInt8, isurlchar (intToHexDigit x) = true := by
    apply forall_byte
    decide +kernel
  unfold escapeChar at h
  split_ifs at h with hurl
  · rw [List.mem_singleton] at h
    left
    rwa [h]
  · simp only [List.mem_cons, List.not_mem_nil, or_false] at h
    rcases h with h | h | h
    · right
      exact h
    · left
      rw [h]
      apply hdigit
    · left
      rw [h]
      apply hdigit

/-- What is written is a URL character or `%`. -/
theorem mem_escape {b : UInt8} {s : List UInt8} (h : b ∈ escape s) :
    isurlchar b = true ∨ b = ascii '%' := by
  rw [escape, List.mem_flatMap] at h
  obtain ⟨c, -, hb⟩ := h
  exact mem_escapeChar hb

/-- None of it is a terminator. -/
theorem ne_zero_of_mem_escape {b : UInt8} {s : List UInt8} (h : b ∈ escape s) : b ≠ 0 := by
  intro hzero
  subst hzero
  exact absurd (mem_escape h) (by decide)

/-- The loop ends at the terminator. -/
theorem urlEncodeLoop_zero (maxSize : ℕ) (src : List UInt8) :
    urlEncodeLoop maxSize (0 :: src) = ⟨[0], 0⟩ := by
  rw [urlEncodeLoop, if_pos rfl]

/-- One round of the loop of the encoder. -/
theorem urlEncodeLoop_cons {maxSize : ℕ} {c : UInt8} {src : List UInt8} (hc : c ≠ 0) :
    urlEncodeLoop maxSize (c :: src) =
      if (escapeChar c).length ≤ maxSize then
        (urlEncodeLoop (maxSize - (escapeChar c).length) src).after (escapeChar c)
      else ⟨[0], 1⟩ := by
  have hpos := escapeChar_length_pos c
  rw [urlEncodeLoop, if_neg hc]
  by_cases hsize : maxSize = 0
  · rw [if_pos hsize, if_neg (by omega)]
  · rw [if_neg hsize]
    by_cases hurl : isurlchar c = true
    · have hone : escapeChar c = [c] := if_pos hurl
      rw [if_pos hurl, hone, List.length_singleton, if_pos (by omega)]
    · have hthree : escapeChar c =
          [ascii '%', intToHexDigit (c >>> 4), intToHexDigit (c &&& 0xF)] := if_neg hurl
      have hlength : (escapeChar c).length = 3 := by
        rw [hthree]
        rfl
      rw [if_neg hurl, hlength]
      by_cases hsmall : maxSize < 3
      · rw [if_pos hsmall, if_neg (by omega)]
      · rw [if_neg hsmall, if_pos (by omega), hthree]

/-- What is stored: at most what there is room for, no question mark, and what is counted. -/
theorem urlEncodeLoop_stored (room : ℕ) (src : List UInt8) :
    (urlEncodeLoop room src).stored.length ≤ room + 1 ∧
      (urlEncodeLoop room src).ret ≤ (urlEncodeLoop room src).stored.length ∧
      ascii '?' ∉ (urlEncodeLoop room src).stored := by
  -- induction on the characters, with the room that is left
  induction src generalizing room with
  | nil =>
    rw [urlEncodeLoop]
    exact ⟨by simp, by simp, by decide⟩
  | cons c src ih =>
    -- the end of the string, or another character
    by_cases hc : c = 0
    · rw [hc, urlEncodeLoop_zero]
      exact ⟨by simp, by simp, by decide⟩
    · rw [urlEncodeLoop_cons hc]
      by_cases hroom : (escapeChar c).length ≤ room
      · rw [if_pos hroom]
        obtain ⟨hlen, hret, hmark⟩ := ih (room - (escapeChar c).length)
        refine ⟨?_, ?_, ?_⟩
        · rw [Filled.after_stored, List.length_append]
          omega
        · rw [Filled.after_stored, Filled.after_ret, List.length_append]
          omega
        · rw [Filled.after_stored, List.mem_append]
          rintro (hin | hin)
          · exact absurd (mem_escapeChar hin) (by decide)
          · exact hmark hin
      · rw [if_neg hroom]
        exact ⟨by simp, by simp, by decide⟩

/-- The loop of the encoder writes the escaped string, if there is room for it. -/
theorem urlEncodeLoop_eq {maxSize : ℕ} {s : List UInt8} (rest : List UInt8) (hs : ∀ c ∈ s, c ≠ 0)
    (hroom : (escape s).length ≤ maxSize) :
    urlEncodeLoop maxSize (s ++ 0 :: rest) = ⟨escape s ++ [0], (escape s).length⟩ := by
  induction s generalizing maxSize with
  | nil => exact urlEncodeLoop_zero maxSize rest
  | cons c s ih =>
    have hc : c ≠ 0 := hs c List.mem_cons_self
    have hrest : ∀ d ∈ s, d ≠ 0 := fun d hd => hs d (List.mem_cons_of_mem c hd)
    rw [escape_cons, List.length_append] at hroom
    rw [List.cons_append, urlEncodeLoop_cons hc, if_pos (by omega), ih hrest (by omega), escape_cons,
      Filled.after, List.length_append, List.append_assoc]

/-- A destination that is large enough gets the escaped string and the terminator. -/
theorem urlEncodeCstr_eq {maxSize : ℕ} {s : List UInt8} (rest : List UInt8) (hs : ∀ c ∈ s, c ≠ 0)
    (hroom : (escape s).length < maxSize) :
    urlEncodeCstr (s ++ 0 :: rest) maxSize = ⟨escape s ++ [0], (escape s).length⟩ := by
  rw [urlEncodeCstr, if_neg (by omega), urlEncodeLoop_eq rest hs (by omega)]

/-! ## Decoding an escaped string -/

section
variable {isEscape : UInt8 → UInt8 → Bool} {maxSize : ℕ} {c : UInt8} {src : List UInt8}

/-- A decoder copies a character that is not a `%`. -/
theorem urlDecodeLoop_plain (hc : c ≠ 0) (hsize : maxSize ≠ 0) (hpercent : c ≠ ascii '%') :
    urlDecodeLoop isEscape maxSize (c :: src) =
      (urlDecodeLoop isEscape (maxSize - 1) src).after [plainChar c] := by
  match src with
  | [] => simp [urlDecodeLoop, hc, hsize]
  | [src0] => rw [urlDecodeLoop.eq_3, if_neg hc, if_neg hsize]
  | src0 :: src1 :: src =>
    rw [urlDecodeLoop, if_neg hc, if_neg hsize, if_neg (fun h => hpercent h.1)]

/-- A decoder reads a character from its two digits. -/
theorem urlDecodeLoop_digits (hescape : TakesDigits isEscape) (hc : c ≠ 0) (hsize : maxSize ≠ 0) :
    urlDecodeLoop isEscape maxSize
        (ascii '%' :: intToHexDigit (c >>> 4) :: intToHexDigit (c &&& 0xF) :: src) =
      (urlDecodeLoop isEscape (maxSize - 1) src).after [c] := by
  rw [urlDecodeLoop, if_neg (by decide), if_neg hsize, if_pos ⟨rfl, hescape c hc⟩, hexDigits_value]

/-- A decoder reads what the encoder wrote for one character: a `+`, which the encoder leaves
alone, becomes a space. -/
theorem urlDecodeLoop_escapeChar (hescape : TakesDigits isEscape) (hc : c ≠ 0)
    (hsize : maxSize ≠ 0) :
    urlDecodeLoop isEscape maxSize (escapeChar c ++ src) =
      (urlDecodeLoop isEscape (maxSize - 1) src).after [plainChar c] := by
  unfold escapeChar
  split_ifs with hurl
  · apply urlDecodeLoop_plain hc hsize
    intro h
    rw [h, isurlchar_percent] at hurl
    contradiction
  · have hplus : c ≠ ascii '+' := by
      intro h
      rw [h, isurlchar_plus] at hurl
      contradiction
    rw [plainChar_of_ne hplus]
    exact urlDecodeLoop_digits hescape hc hsize

/-- What a decoder makes of an escaped string. -/
theorem urlDecodeLoop_escape {s : List UInt8} (hescape : TakesDigits isEscape)
    (hs : ∀ c ∈ s, c ≠ 0) (hsize : s.length ≤ maxSize) :
    urlDecodeLoop isEscape maxSize (escape s ++ src) =
      (urlDecodeLoop isEscape (maxSize - s.length) src).after (s.map plainChar) := by
  induction s generalizing maxSize with
  | nil => simp [Filled.after]
  | cons c s ih =>
    have hc : c ≠ 0 := hs c List.mem_cons_self
    have hrest : ∀ d ∈ s, d ≠ 0 := fun d hd => hs d (List.mem_cons_of_mem c hd)
    rw [List.length_cons] at hsize
    rw [escape_cons, List.append_assoc, urlDecodeLoop_escapeChar hescape hc (by omega),
      ih hrest (by omega), List.length_cons]
    have hleft : maxSize - 1 - s.length = maxSize - (s.length + 1) := by omega
    rw [hleft]
    simp [Filled.after]
    omega

end

/-- A string has no terminator in it. -/
theorem ne_zero_of_mem_cString {bytes : List UInt8} {b : UInt8} (hb : b ∈ cString bytes) : b ≠ 0 := by
  simpa using List.mem_takeWhile_imp hb

/-- A buffer without a terminator is a string as it stands. -/
theorem cString_eq_self {s : List UInt8} (hs : ∀ c ∈ s, c ≠ 0) : cString s = s := by
  rw [cString, List.takeWhile_eq_self_iff]
  exact fun c hc => decide_eq_true (hs c hc)

/-- A string ends in front of its first terminator. -/
theorem cString_append_zero {s : List UInt8} (rest : List UInt8) (hs : ∀ c ∈ s, c ≠ 0) :
    cString (s ++ 0 :: rest) = s := by
  have hall : ∀ c ∈ s, decide (c ≠ 0) = true := fun c hc => decide_eq_true (hs c hc)
  rw [cString, List.takeWhile_append_of_pos hall]
  simp

section
variable {s : List UInt8}

/-- What is read has no terminator in it. -/
theorem plainChars_ne_zero (hs : ∀ c ∈ s, c ≠ 0) : ∀ c ∈ s.map plainChar, c ≠ 0 := by
  intro c hc
  obtain ⟨d, hd, rfl⟩ := List.mem_map.mp hc
  exact plainChar_ne_zero (hs d hd)

/-- `url_decode_cstr` on an escaped string. -/
theorem urlDecodeCstr_escape {maxSize : ℕ} (rest : List UInt8) (hs : ∀ c ∈ s, c ≠ 0)
    (hsize : s.length < maxSize) :
    cString (urlDecodeCstr (escape s ++ 0 :: rest) maxSize).stored = s.map plainChar := by
  rw [urlDecodeCstr, if_neg (by omega),
    urlDecodeLoop_escape takesDigits_cstr hs (by omega : s.length ≤ maxSize - 1)]
  have hend : (urlDecodeLoop isEscapeCstr (maxSize - 1 - s.length) (0 :: rest)).stored = [0] := by
    match rest with
    | [] => rfl
    | [_] => rfl
    | _ :: _ :: _ => rfl
  rw [Filled.after_stored, hend]
  exact cString_append_zero [] (plainChars_ne_zero hs)

/-- `url_decode_str` on an escaped string. -/
theorem urlDecodeStr_escape {maxSize : ℕ} (rest : List UInt8) (hs : ∀ c ∈ s, c ≠ 0)
    (hsize : s.length < maxSize) :
    cString (urlDecodeStr maxSize (escape s ++ rest) (escape s).length).stored =
      s.map plainChar := by
  rw [urlDecodeStr, if_neg (by omega), List.take_left]
  have hroom : s.length ≤ maxSize - 1 := by omega
  have hloop : urlDecodeLoop isEscapeStr (maxSize - 1) (escape s ++ []) = _ :=
    urlDecodeLoop_escape takesDigits_str hs hroom
  rw [List.append_nil] at hloop
  rw [hloop, Filled.after_stored, urlDecodeLoop]
  exact cString_append_zero [] (plainChars_ne_zero hs)

/-- A text without `+` is read as it is. -/
theorem map_plainChar_eq_iff : s.map plainChar = s ↔ ascii '+' ∉ s := by
  induction s with
  | nil => simp
  | cons c s ih =>
    rw [List.map_cons, List.cons.injEq, plainChar_eq_iff, ih, List.mem_cons, not_or, ne_comm]

/-- Escaping and decoding give the string back exactly when there is no `+` in it. Behind the
terminator of the source there may be anything. -/
theorem urlDecode_urlEncode (rest : List UInt8) (encodeSize decodeSize : ℕ) (hs : ∀ c ∈ s, c ≠ 0)
    (hencode : (escape s).length < encodeSize) (hdecode : s.length < decodeSize) :
    (cString (urlDecodeCstr (urlEncodeCstr (s ++ 0 :: rest) encodeSize).stored decodeSize).stored
          = s ∧
        cString (urlDecodeStr decodeSize (urlEncodeCstr (s ++ 0 :: rest) encodeSize).stored
          (urlEncodeCstr (s ++ 0 :: rest) encodeSize).ret).stored = s) ↔
      ascii '+' ∉ s := by
  rw [urlEncodeCstr_eq rest hs hencode]
  dsimp only
  rw [urlDecodeCstr_escape [] hs hdecode, urlDecodeStr_escape [0] hs hdecode, and_self,
    map_plainChar_eq_iff]

theorem urlDecode_urlEncode_ab : (cString (urlDecodeCstr (urlEncodeCstr
      ([ascii 'a', ascii '/'] ++ [0]) 16).stored 16).stored = [ascii 'a', ascii '/'] ∧
    cString (urlDecodeStr 16 (urlEncodeCstr ([ascii 'a', ascii '/'] ++ [0]) 16).stored
      (urlEncodeCstr ([ascii 'a', ascii '/'] ++ [0]) 16).ret).stored = [ascii 'a', ascii '/']) ↔
      ascii '+' ∉ [ascii 'a', ascii '/'] :=
  urlDecode_urlEncode [] 16 16 (by decide +kernel) (by decide +kernel) (by decide)

/-- The string `1+1` comes back as `1 1`. -/
theorem urlDecode_urlEncode_plus :
    ¬ ∀ (s : List UInt8) (encodeSize decodeSize : ℕ), (∀ c ∈ s, c ≠ 0) →
      (escape s).length < encodeSize → s.length < decodeSize →
      cString (urlDecodeCstr (urlEncodeCstr (s ++ [0]) encodeSize).stored decodeSize).stored = s ∧
        cString (urlDecodeStr decodeSize (urlEncodeCstr (s ++ [0]) encodeSize).stored
          (urlEncodeCstr (s ++ [0]) encodeSize).ret).stored = s := by
  intro h
  have hone := h [ascii '1', ascii '+', ascii '1'] 16 16 (by decide +kernel) (by decide +kernel)
    (by decide)
  revert hone
  decide +kernel

end

end Smcp
