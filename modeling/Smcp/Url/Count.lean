import Smcp.Lib.CString
import Smcp.Url.Escape

/-!
# What the coders count

The values that `url_encode_cstr` and `url_decode_cstr` return, for every size of the destination.

* `urlEncodeLoop_count`: the encoder stores whole escapes, and counts one more if it stops early;
* `urlDecodeLoop_count`: the decoder stores what is in front of the end of the room;
* `coders_count`: when the value returned is the length of the string left.
-/

namespace Smcp

/-- `max_size` bytes are written at most, and the length of the string is returned. -/
def Filled.Counted (f : Filled) (maxSize : ℕ) : Prop :=
  f.stored.length ≤ maxSize ∧ f.ret = (cString f.stored).length

/-! ## The encoder -/

/-- The encoder stores the escapes of the first characters, and one more is counted if there is
no room for the next one. -/
theorem urlEncodeLoop_count {s : List UInt8} (rest : List UInt8) (hs : ∀ c ∈ s, c ≠ 0) (room : ℕ) :
    ∃ k, (escape (s.take k)).length ≤ room ∧
      urlEncodeLoop room (s ++ 0 :: rest) = ⟨escape (s.take k) ++ [0],
        (escape (s.take k)).length + if (escape s).length ≤ room then 0 else 1⟩ := by
  -- induction on the characters: one escape at a time, as long as it fits
  induction s generalizing room with
  | nil =>
    refine ⟨0, Nat.zero_le _, ?_⟩
    rw [List.nil_append, urlEncodeLoop_zero]
    rfl
  | cons c s ih =>
    have hc : c ≠ 0 := hs c List.mem_cons_self
    have hrest : ∀ d ∈ s, d ≠ 0 := fun d hd => hs d (List.mem_cons_of_mem c hd)
    have hlen : (escape (c :: s)).length = (escapeChar c).length + (escape s).length := by
      rw [escape_cons, List.length_append]
    rw [List.cons_append, urlEncodeLoop_cons hc, hlen]
    by_cases hroom : (escapeChar c).length ≤ room
    · obtain ⟨k, hk, hloop⟩ := ih hrest (room - (escapeChar c).length)
      refine ⟨k + 1, ?_, ?_⟩
      · rw [List.take_succ_cons, escape_cons, List.length_append]
        omega
      · rw [if_pos hroom, hloop, List.take_succ_cons, escape_cons, List.length_append,
          List.append_assoc]
        unfold Filled.after
        dsimp only
        by_cases hfits : (escapeChar c).length + (escape s).length ≤ room
        · rw [if_pos hfits, if_pos (by omega)]
          rfl
        · rw [if_neg hfits, if_neg (by omega)]
          rfl
    · refine ⟨0, Nat.zero_le _, ?_⟩
      rw [if_neg hroom, if_neg (by omega)]
      rfl

/-! ## The decoder -/

/-- What a string decodes to, if there is room for all of it. -/
def unescape : List UInt8 → List UInt8
  | [] => []
  | [c] => [plainChar c]
  | [c, c0] => [plainChar c, plainChar c0]
  | c :: c0 :: c1 :: s =>
    if c = ascii '%' ∧ isEscapeCstr c0 c1 then
      ((hexDigitToInt c0 <<< 4) + hexDigitToInt c1) :: unescape s
    else plainChar c :: unescape (c0 :: c1 :: s)

/-- The character in front of `src` does not start an escape. -/
def Plain (c : UInt8) (src : List UInt8) : Prop :=
  ∀ src0 src1 rest, src = src0 :: src1 :: rest → ¬(c = ascii '%' ∧ isEscapeCstr src0 src1 = true)

section
variable {c : UInt8} {room : ℕ} {src : List UInt8}

theorem unescape_plain (hplain : Plain c src) : unescape (c :: src) = plainChar c :: unescape src := by
  match src with
  | [] => rfl
  | [src0] => rfl
  | src0 :: src1 :: src => rw [unescape, if_neg (hplain src0 src1 src rfl)]

theorem urlDecodeLoop_step (hc : c ≠ 0) (hplain : Plain c src) :
    urlDecodeLoop isEscapeCstr (room + 1) (c :: src) =
      (urlDecodeLoop isEscapeCstr room src).after [plainChar c] := by
  match src with
  | [] => simp [urlDecodeLoop, hc]
  | [src0] => rw [urlDecodeLoop.eq_3, if_neg hc, if_neg (Nat.succ_ne_zero room), Nat.add_sub_cancel]
  | src0 :: src1 :: src =>
    rw [urlDecodeLoop, if_neg hc, if_neg (Nat.succ_ne_zero room), if_neg (hplain src0 src1 src rfl),
      Nat.add_sub_cancel]

theorem urlDecodeLoop_full (hc : c ≠ 0) : urlDecodeLoop isEscapeCstr 0 (c :: src) = ⟨[0], 1⟩ := by
  match src with
  | [] => rw [urlDecodeLoop, if_neg hc, if_pos rfl]
  | [src0] => rw [urlDecodeLoop.eq_3, if_neg hc, if_pos rfl]
  | src0 :: src1 :: src => rw [urlDecodeLoop, if_neg hc, if_pos rfl]

theorem urlDecodeLoop_nul : urlDecodeLoop isEscapeCstr room (0 :: src) = ⟨[0], 0⟩ := by
  match src with
  | [] => rw [urlDecodeLoop, if_pos rfl]
  | [src0] => rw [urlDecodeLoop.eq_3, if_pos rfl]
  | src0 :: src1 :: src => rw [urlDecodeLoop, if_pos rfl]

end

/-- The terminator is no part of an escape. -/
theorem Plain.append {c : UInt8} {s : List UInt8} (h : Plain c s) (rest : List UInt8) :
    Plain c (s ++ 0 :: rest) := by
  intro src0 src1 rest' heq
  match s with
  | [] =>
    rw [List.nil_append, List.cons.injEq] at heq
    rw [← heq.1]
    simp [isEscapeCstr]
  | [c0] =>
    rw [List.cons_append, List.nil_append, List.cons.injEq, List.cons.injEq] at heq
    rw [← heq.2.1]
    simp [isEscapeCstr]
  | c0 :: c1 :: s =>
    rw [List.cons_append, List.cons_append, List.cons.injEq, List.cons.injEq] at heq
    rw [← heq.1, ← heq.2.1]
    exact h c0 c1 s rfl

theorem length_unescape_pos (c : UInt8) (s : List UInt8) : 0 < (unescape (c :: s)).length := by
  match s with
  | [] => exact Nat.one_pos
  | [c0] => exact Nat.two_pos
  | c0 :: c1 :: s =>
    rw [unescape]
    split_ifs
    · exact Nat.succ_pos _
    · exact Nat.succ_pos _

/-- What the decoder leaves when it has room for so many characters. -/
def decodedInto (room : ℕ) (decoded : List UInt8) : Filled :=
  ⟨decoded.take room ++ [0], if decoded.length ≤ room then decoded.length else room + 1⟩

theorem decodedInto_cons (room : ℕ) (c : UInt8) (decoded : List UInt8) :
    decodedInto (room + 1) (c :: decoded) = (decodedInto room decoded).after [c] := by
  unfold decodedInto Filled.after
  rw [List.take_succ_cons, List.length_cons]
  dsimp only
  by_cases hfits : decoded.length ≤ room
  · rw [if_pos hfits, if_pos (Nat.succ_le_succ hfits), List.length_singleton, Nat.add_comm]
    rfl
  · rw [if_neg hfits, if_neg (by omega), List.length_singleton, Nat.add_comm]
    rfl

/-- The decoder stores what there is room for, and one more is counted if that is not all. -/
theorem urlDecodeLoop_count {s : List UInt8} (rest : List UInt8) (hs : ∀ c ∈ s, c ≠ 0) (room : ℕ) :
    urlDecodeLoop isEscapeCstr room (s ++ 0 :: rest) = decodedInto room (unescape s) := by
  -- induction on the length: an escape of three characters is one step
  induction hlen : s.length using Nat.strong_induction_on generalizing s room with
  | _ n ih =>
    match s with
    | [] =>
      rw [List.nil_append, urlDecodeLoop_nul]
      simp [unescape, decodedInto]
    | c :: s =>
      have hc : c ≠ 0 := hs c List.mem_cons_self
      have hpos := length_unescape_pos c s
      rw [List.length_cons] at hlen
      match room with
      | 0 =>
        rw [List.cons_append, urlDecodeLoop_full hc, decodedInto, if_neg (by omega)]
        rfl
      | room + 1 =>
        by_cases hplain : Plain c s
        · have hrest := ih s.length (by omega) (fun d hd => hs d (List.mem_cons_of_mem c hd)) room rfl
          rw [List.cons_append, urlDecodeLoop_step hc (hplain.append rest), hrest,
            unescape_plain hplain, decodedInto_cons]
        · -- an escape
          unfold Plain at hplain
          push Not at hplain
          obtain ⟨c0, c1, s', rfl, hescape⟩ := hplain
          rw [List.length_cons, List.length_cons] at hlen
          have hrest := ih s'.length (by omega) (fun d hd => hs d (by simp [hd])) room rfl
          rw [List.cons_append, List.cons_append, List.cons_append, urlDecodeLoop, if_neg hc,
            if_neg (Nat.succ_ne_zero room), if_pos hescape, Nat.add_sub_cancel, hrest, unescape,
            if_pos hescape, decodedInto_cons]

/-! ## The count -/

section
variable {s : List UInt8} {maxSize : ℕ}

theorem urlEncodeCstr_counted_iff (rest : List UInt8) (hs : ∀ c ∈ s, c ≠ 0) (hsize : 1 ≤ maxSize) :
    (urlEncodeCstr (s ++ 0 :: rest) maxSize).Counted maxSize ↔ (escape s).length < maxSize := by
  obtain ⟨k, hk, hloop⟩ := urlEncodeLoop_count rest hs (maxSize - 1)
  have hstring : cString (escape (s.take k) ++ [0]) = escape (s.take k) :=
    cString_append_zero [] fun c hc => ne_zero_of_mem_escape hc
  unfold Filled.Counted
  rw [urlEncodeCstr, if_neg (by omega), hloop]
  dsimp only
  rw [hstring, List.length_append, List.length_singleton, and_iff_right (by omega)]
  split_ifs with hfits
  · exact iff_of_true rfl (by omega)
  · exact iff_of_false (by omega) (by omega)

theorem length_cString_append_zero_le (l : List UInt8) : (cString (l ++ [0])).length ≤ l.length := by
  have hprefix : cString (l ++ [0]) <+: l ++ [0] := List.takeWhile_prefix _
  have hle := hprefix.length_le
  rw [List.length_append, List.length_singleton] at hle
  by_contra hlong
  have hall : cString (l ++ [0]) = l ++ [0] :=
    hprefix.eq_of_length (by rw [List.length_append, List.length_singleton]; omega)
  have hzero : (0 : UInt8) ∈ cString (l ++ [0]) := by
    rw [hall]
    exact List.mem_append_right l (List.mem_singleton_self 0)
  exact ne_zero_of_mem_cString hzero rfl

/-- A `NUL` in front of the terminator ends the string. -/
theorem length_cString_append_zero (l : List UInt8) :
    (cString (l ++ [0])).length = l.length ↔ (0 : UInt8) ∉ l := by
  constructor
  · intro hlen hzero
    have hprefix : cString (l ++ [0]) <+: l ++ [0] := List.takeWhile_prefix _
    have heq : cString (l ++ [0]) = l := by
      rw [List.prefix_iff_eq_take.1 hprefix, hlen]
      simp
    rw [← heq] at hzero
    exact ne_zero_of_mem_cString hzero rfl
  · intro hzero
    rw [cString_append_zero [] fun c hc heq => hzero (heq ▸ hc)]

theorem urlDecodeCstr_counted_iff (rest : List UInt8) (hs : ∀ c ∈ s, c ≠ 0) (hsize : 1 ≤ maxSize) :
    (urlDecodeCstr (s ++ 0 :: rest) maxSize).Counted maxSize ↔
      (unescape s).length < maxSize ∧ 0 ∉ unescape s := by
  have hle := length_cString_append_zero_le ((unescape s).take (maxSize - 1))
  rw [List.length_take] at hle
  unfold Filled.Counted
  rw [urlDecodeCstr, if_neg (by omega), urlDecodeLoop_count rest hs]
  unfold decodedInto
  dsimp only
  rw [and_iff_right (by rw [List.length_append, List.length_take, List.length_singleton]; omega)]
  by_cases hfits : (unescape s).length ≤ maxSize - 1
  · rw [if_pos hfits, List.take_of_length_le hfits, and_iff_right (by omega), eq_comm,
      length_cString_append_zero]
  · rw [if_neg hfits]
    exact iff_of_false (by omega) (by omega)

/-- What the coders return, for every destination that is not empty: the encoder the length of the
string it leaves if all of it fits, the decoder if all of it fits and no escape stands for a `NUL`.
Behind the terminator of the source there may be anything. -/
theorem coders_count (source : CStr) (rest : List UInt8) (hsize : 1 ≤ maxSize) :
    ((urlEncodeCstr (source.bytes ++ 0 :: rest) maxSize).Counted maxSize ↔
        (escape source.bytes).length < maxSize) ∧
      ((urlDecodeCstr (source.bytes ++ 0 :: rest) maxSize).Counted maxSize ↔
        (unescape source.bytes).length < maxSize ∧ 0 ∉ unescape source.bytes) :=
  ⟨urlEncodeCstr_counted_iff rest source.noNul hsize,
    urlDecodeCstr_counted_iff rest source.noNul hsize⟩

end

/-- The escape `%zz` stands for a `NUL`. -/
def malformedEscape : CStr := ⟨asciiBytes "%zz", by decide +kernel⟩

theorem coders_count_malformed :
    ((urlEncodeCstr (malformedEscape.bytes ++ 0 :: []) 16).Counted 16 ↔
        (escape malformedEscape.bytes).length < 16) ∧
      ((urlDecodeCstr (malformedEscape.bytes ++ 0 :: []) 16).Counted 16 ↔
        (unescape malformedEscape.bytes).length < 16 ∧ 0 ∉ unescape malformedEscape.bytes) :=
  coders_count malformedEscape [] (by decide)

/-- The decoder counts one byte for it and leaves the empty string. -/
theorem coders_miscount :
    ¬∀ (source : CStr) (rest : List UInt8) (maxSize : ℕ), 1 ≤ maxSize →
      (urlEncodeCstr (source.bytes ++ 0 :: rest) maxSize).Counted maxSize ∧
        (urlDecodeCstr (source.bytes ++ 0 :: rest) maxSize).Counted maxSize := by
  intro hclaim
  obtain ⟨-, -, hret⟩ := hclaim malformedEscape [] 16 (by decide)
  exact absurd hret (by decide +kernel)

end Smcp
