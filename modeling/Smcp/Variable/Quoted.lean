import Smcp.Lib.CString
import Smcp.Variable.Basic

/-!
# Quoted strings

What `quoted_cstr` leaves, as the value of an attribute in link format.

* `readQuoted`: reading a quoted string, with a backslash in front of an escaped character;
* `plain_of_read`: only a string without anything to escape is read back;
* `quotedCstr_reads_iff`: when the text is a quoted string for the source.
-/

namespace Smcp

/-! ## Link format -/

/-- Read a quoted string behind its opening quote: the value, and what is behind the closing
quote. -/
def readQuoted : List UInt8 → Option (List UInt8 × List UInt8)
  | [] => none
  | c :: text =>
    if c = ascii '"' then some ([], text)
    else if c = ascii '\\' then
      match text with
      | [] => none
      | d :: text => (readQuoted text).map fun r => (d :: r.1, r.2)
    else (readQuoted text).map fun r => (c :: r.1, r.2)

/-- The quoted string for a value. -/
def quotedText (s : List UInt8) : List UInt8 :=
  ascii '"' :: s.flatMap (fun c => if c = ascii '"' ∨ c = ascii '\\' then [ascii '\\', c] else [c]) ++
    [ascii '"']

/-- The text is a quoted string for `s`, or for a prefix if that for `s` does not fit, with its
terminator, into `size` bytes. -/
def Quotes (text s : List UInt8) (size : ℕ) : Prop :=
  ∃ t v, text = ascii '"' :: t ∧ readQuoted t = some (v, []) ∧
    (v = s ∨ (size < (quotedText s).length + 1 ∧ v <+: s))

/-! ## Strings with nothing to escape -/

/-- None of the first `k` characters is a quote or a backslash, or a slash in front of a quote. -/
def Plainly (k : ℕ) (s : List UInt8) : Prop :=
  ∀ i < k, s[i]? ≠ some (ascii '"') ∧ s[i]? ≠ some (ascii '\\') ∧
    ¬(s[i]? = some (ascii '/') ∧ s[i + 1]? = some (ascii '"'))

section
variable {k room : ℕ} {c : UInt8} {s v : List UInt8}

theorem Plainly.zero (s : List UInt8) : Plainly 0 s := fun i hi => absurd hi (Nat.not_lt_zero i)

theorem plainly_cons : Plainly (k + 1) (c :: s) ↔
    (c ≠ ascii '"' ∧ c ≠ ascii '\\' ∧ ¬(c = ascii '/' ∧ s.head? = some (ascii '"'))) ∧
      Plainly k s := by
  constructor
  · intro h
    constructor
    · have hfirst := h 0 (Nat.succ_pos k)
      rw [List.getElem?_cons_succ, List.getElem?_cons_zero, ← List.head?_eq_getElem?] at hfirst
      simpa using hfirst
    · intro i hi
      have hnext := h (i + 1) (Nat.succ_lt_succ hi)
      rwa [List.getElem?_cons_succ, List.getElem?_cons_succ] at hnext
  · rintro ⟨hfirst, hrest⟩ i hi
    cases i with
    | zero =>
      rw [List.getElem?_cons_succ, List.getElem?_cons_zero, ← List.head?_eq_getElem?]
      simpa using hfirst
    | succ i =>
      rw [List.getElem?_cons_succ, List.getElem?_cons_succ]
      exact hrest i (Nat.lt_of_succ_lt_succ hi)

/-- One round of the loop of `quoted_cstr`. -/
theorem quotedLoop_cons (rest : List UInt8) (hc : c ≠ 0)
    (hslash : ¬(c = ascii '/' ∧ s.head? = some (ascii '"'))) :
    quotedLoop (room + 1) (c :: s ++ 0 :: rest) = c :: quotedLoop room (s ++ 0 :: rest) := by
  match s with
  | [] =>
    rw [List.cons_append, List.nil_append, quotedLoop, if_neg hc,
      if_neg fun h => absurd h.2 (by decide)]
  | d :: s =>
    rw [List.cons_append, List.cons_append, quotedLoop, if_neg hc,
      if_neg fun h => hslash ⟨h.1, congrArg some h.2⟩]

theorem quotedLoop_nul (rest : List UInt8) : quotedLoop room (0 :: rest) = [] := by
  match room, rest with
  | 0, _ => rfl
  | room + 1, [] => rw [quotedLoop, if_pos rfl]
  | room + 1, d :: rest => rw [quotedLoop, if_pos rfl]

theorem quotedLoop_slash (s : List UInt8) :
    quotedLoop (room + 1) (ascii '/' :: ascii '"' :: s) = ascii '"' :: quotedLoop room s := by
  rw [quotedLoop, if_neg (by decide), if_pos ⟨rfl, rfl⟩]

/-- Without a slash in front of a quote, the characters are copied. -/
theorem quotedLoop_eq_take (rest : List UInt8) (hs : ∀ c ∈ s, c ≠ 0)
    (hslash : ∀ i < room, ¬(s[i]? = some (ascii '/') ∧ s[i + 1]? = some (ascii '"'))) :
    quotedLoop room (s ++ 0 :: rest) = s.take room := by
  induction room generalizing s with
  | zero => rfl
  | succ room ih =>
    match s with
    | [] => exact quotedLoop_nul rest
    | c :: s =>
      have hfirst := hslash 0 (Nat.succ_pos room)
      rw [List.getElem?_cons_succ, List.getElem?_cons_zero, ← List.head?_eq_getElem?,
        Option.some.injEq] at hfirst
      have hrest : ∀ i < room, ¬(s[i]? = some (ascii '/') ∧ s[i + 1]? = some (ascii '"')) := by
        intro i hi
        have hnext := hslash (i + 1) (Nat.succ_lt_succ hi)
        rwa [List.getElem?_cons_succ, List.getElem?_cons_succ] at hnext
      rw [quotedLoop_cons rest (hs c List.mem_cons_self) hfirst,
        ih (fun d hd => hs d (List.mem_cons_of_mem c hd)) hrest, List.take_succ_cons]

/-! ## Reading it back -/

theorem readQuoted_cons (hquote : c ≠ ascii '"') (hslash : c ≠ ascii '\\') (text : List UInt8) :
    readQuoted (c :: text) = (readQuoted text).map fun r => (c :: r.1, r.2) := by
  rw [readQuoted.eq_def]
  dsimp only
  rw [if_neg hquote, if_neg hslash]

theorem readQuoted_escaped (text : List UInt8) :
    readQuoted (ascii '\\' :: c :: text) = (readQuoted text).map fun r => (c :: r.1, r.2) := by
  rw [readQuoted.eq_def]
  dsimp only
  rw [if_neg (by decide), if_pos rfl]

/-- Characters other than quotes and backslashes are read as they are, and a pair of backslashes as
one. -/
theorem readQuoted_copied (u : List UInt8) (hu : ∀ c ∈ u, c ≠ ascii '"' ∧ c ≠ ascii '\\') (j : ℕ) :
    readQuoted (u ++ List.replicate (2 * j) (ascii '\\') ++ [ascii '"']) =
      some (u ++ List.replicate j (ascii '\\'), []) := by
  induction u with
  | nil =>
    induction j with
    | zero => rfl
    | succ j ih =>
      have htwo : 2 * (j + 1) = 2 * j + 1 + 1 := by omega
      rw [List.nil_append, List.nil_append] at ih ⊢
      rw [htwo, List.replicate_succ, List.replicate_succ, List.cons_append, List.cons_append,
        readQuoted_escaped, ih]
      rfl
  | cons c u ih =>
    obtain ⟨hquote, hslash⟩ := hu c List.mem_cons_self
    rw [List.cons_append, List.cons_append, readQuoted_cons hquote hslash,
      ih fun d hd => hu d (List.mem_cons_of_mem c hd)]
    rfl

/-- A quote in the text ends the string too early. -/
theorem readQuoted_quote {text : List UInt8} :
    readQuoted (ascii '"' :: (text ++ [ascii '"'])) ≠ some (v, []) := by
  rw [readQuoted.eq_def]
  dsimp only
  rw [if_pos rfl]
  simp

/-- A backslash is read as one only if another one follows. -/
theorem read_backslash {l : List UInt8} (rest : List UInt8) (hs : ∀ c ∈ s, c ≠ 0)
    (hread : readQuoted (quotedLoop (room + 1) (ascii '\\' :: s ++ 0 :: rest) ++ [ascii '"']) =
      some (v, [])) (hstarts : v <+: ascii '\\' :: l) :
    ∃ room' s' v', room = room' + 1 ∧ s = ascii '\\' :: s' ∧ v = ascii '\\' :: v' ∧
      readQuoted (quotedLoop room' (s' ++ 0 :: rest) ++ [ascii '"']) = some (v', []) := by
  rw [quotedLoop_cons rest (by decide) fun h => absurd h.1 (by decide), List.cons_append] at hread
  -- what follows the backslash is taken as it is
  have hnext {d : UInt8} {text : List UInt8}
      (h : readQuoted (ascii '\\' :: d :: (text ++ [ascii '"'])) = some (v, [])) :
      d = ascii '\\' ∧ ∃ v', v = ascii '\\' :: v' ∧
        readQuoted (text ++ [ascii '"']) = some (v', []) := by
    rw [readQuoted_escaped, Option.map_eq_some_iff] at h
    obtain ⟨⟨v', rest'⟩, hv', heq⟩ := h
    rw [Prod.mk.injEq] at heq
    obtain ⟨rfl, rfl⟩ := heq
    have hd : d = ascii '\\' := (List.cons_prefix_cons.1 hstarts).1
    exact ⟨hd, v', by rw [hd], hv'⟩
  have hempty (h : quotedLoop room (s ++ 0 :: rest) = []) : False := by
    rw [h, List.nil_append, readQuoted_escaped] at hread
    exact absurd hread (by simp [readQuoted])
  match room, s with
  | 0, _ => exact (hempty rfl).elim
  | _ + 1, [] => exact (hempty (quotedLoop_nul rest)).elim
  | room' + 1, d :: s' =>
    by_cases hslash : d = ascii '/' ∧ s'.head? = some (ascii '"')
    · obtain ⟨rfl, hhead⟩ := hslash
      obtain ⟨s'', rfl⟩ := List.head?_eq_some_iff.1 hhead
      rw [List.cons_append, List.cons_append, quotedLoop_slash, List.cons_append] at hread
      exact absurd (hnext hread).1 (by decide)
    · rw [quotedLoop_cons rest (hs d List.mem_cons_self) hslash, List.cons_append] at hread
      obtain ⟨rfl, v', hv', hrest⟩ := hnext hread
      exact ⟨room', s', v', rfl, rfl, hv', hrest⟩

/-- Behind backslashes that are not read back there is nothing but pairs of them. -/
theorem backslashes_of_read (rest : List UInt8) (hs : ∀ c ∈ s, c ≠ 0)
    (hread : readQuoted (quotedLoop room (s ++ 0 :: rest) ++ [ascii '"']) = some (v, [])) (m : ℕ)
    (hstarts : v <+: List.replicate (m + 1) (ascii '\\') ++ s) :
    ∃ j, s.take room = List.replicate (2 * j) (ascii '\\') := by
  induction room using Nat.strong_induction_on generalizing s v m with
  | _ room ih =>
    rw [List.replicate_succ, List.cons_append] at hstarts
    match room, s with
    | 0, _ => exact ⟨0, rfl⟩
    | _ + 1, [] => exact ⟨0, rfl⟩
    | room + 1, c :: s =>
      by_cases hslash : c = ascii '/' ∧ s.head? = some (ascii '"')
      · obtain ⟨rfl, hhead⟩ := hslash
        obtain ⟨s', rfl⟩ := List.head?_eq_some_iff.1 hhead
        rw [List.cons_append, List.cons_append, quotedLoop_slash, List.cons_append] at hread
        exact absurd hread readQuoted_quote
      · by_cases hback : c = ascii '\\'
        · subst hback
          have hs' : ∀ d ∈ s, d ≠ 0 := fun d hd => hs d (List.mem_cons_of_mem _ hd)
          obtain ⟨room', s', v', rfl, rfl, rfl, hrest⟩ := read_backslash rest hs' hread hstarts
          -- two backslashes are gone from the source, and one from what is read
          have hstarts' : v' <+: List.replicate (m + 1 + 1) (ascii '\\') ++ s' := by
            have htail := (List.cons_prefix_cons.1 hstarts).2
            have hmove : List.replicate m (ascii '\\') ++ ascii '\\' :: ascii '\\' :: s' =
                List.replicate (m + 1 + 1) (ascii '\\') ++ s' := by
              rw [List.replicate_succ', List.replicate_succ']
              simp
            rwa [hmove] at htail
          obtain ⟨j, hj⟩ := ih room' (by omega) (fun d hd => hs' d (List.mem_cons_of_mem _ hd)) hrest
            (m + 1) hstarts'
          refine ⟨j + 1, ?_⟩
          rw [List.take_succ_cons, List.take_succ_cons, hj]
          rfl
        · rw [quotedLoop_cons rest (hs c List.mem_cons_self) hslash, List.cons_append] at hread
          by_cases hquote : c = ascii '"'
          · rw [hquote] at hread
            exact absurd hread readQuoted_quote
          · rw [readQuoted_cons hquote hback, Option.map_eq_some_iff] at hread
            obtain ⟨⟨v', rest'⟩, -, heq⟩ := hread
            rw [Prod.mk.injEq] at heq
            rw [← heq.1] at hstarts
            exact absurd (List.cons_prefix_cons.1 hstarts).1 hback

/-- What is read back was copied as it is, but for pairs of backslashes at the end. -/
theorem plainly_of_read (rest : List UInt8) (hs : ∀ c ∈ s, c ≠ 0)
    (hread : readQuoted (quotedLoop room (s ++ 0 :: rest) ++ [ascii '"']) = some (v, []))
    (hstarts : v <+: s) :
    ∃ k j, Plainly k s ∧ s.take room = s.take k ++ List.replicate (2 * j) (ascii '\\') := by
  -- induction on the room; a backslash takes two characters of it
  induction room generalizing s v with
  | zero => exact ⟨0, 0, .zero s, rfl⟩
  | succ room ih =>
    match s with
    | [] => exact ⟨0, 0, .zero [], rfl⟩
    | c :: s =>
      have hs' : ∀ d ∈ s, d ≠ 0 := fun d hd => hs d (List.mem_cons_of_mem _ hd)
      by_cases hslash : c = ascii '/' ∧ s.head? = some (ascii '"')
      · obtain ⟨rfl, hhead⟩ := hslash
        obtain ⟨s', rfl⟩ := List.head?_eq_some_iff.1 hhead
        rw [List.cons_append, List.cons_append, quotedLoop_slash, List.cons_append] at hread
        exact absurd hread readQuoted_quote
      · by_cases hback : c = ascii '\\'
        · subst hback
          obtain ⟨room', s', v', rfl, rfl, rfl, hrest⟩ := read_backslash rest hs' hread hstarts
          obtain ⟨j, hj⟩ := backslashes_of_read rest (fun d hd => hs' d (List.mem_cons_of_mem _ hd))
            hrest 0 (List.cons_prefix_cons.1 hstarts).2
          refine ⟨0, j + 1, .zero _, ?_⟩
          rw [List.take_succ_cons, List.take_succ_cons, hj]
          rfl
        · rw [quotedLoop_cons rest (hs c List.mem_cons_self) hslash, List.cons_append] at hread
          by_cases hquote : c = ascii '"'
          · rw [hquote] at hread
            exact absurd hread readQuoted_quote
          · rw [readQuoted_cons hquote hback, Option.map_eq_some_iff] at hread
            obtain ⟨⟨v', rest'⟩, hv', heq⟩ := hread
            rw [Prod.mk.injEq] at heq
            obtain ⟨rfl, rfl⟩ := heq
            obtain ⟨k, j, hplain, htake⟩ := ih hs' hv' (List.cons_prefix_cons.1 hstarts).2
            refine ⟨k + 1, j, plainly_cons.2 ⟨⟨hquote, hback, hslash⟩, hplain⟩, ?_⟩
            rw [List.take_succ_cons, List.take_succ_cons, htake, List.cons_append]

/-- What is copied as it is, but for backslashes, is read back so. -/
theorem read_of_plainly (rest : List UInt8) (hs : ∀ c ∈ s, c ≠ 0) {j : ℕ} (hplain : Plainly k s)
    (htake : s.take room = s.take k ++ List.replicate (2 * j) (ascii '\\')) :
    readQuoted (quotedLoop room (s ++ 0 :: rest) ++ [ascii '"']) =
        some (s.take k ++ List.replicate j (ascii '\\'), []) ∧
      s.take k ++ List.replicate j (ascii '\\') <+: s := by
  -- in front of the end there is nothing that the reader treats in another way
  have hcopied : ∀ c ∈ s.take k, c ≠ ascii '"' ∧ c ≠ ascii '\\' := by
    intro c hc
    obtain ⟨i, hi, hget⟩ := List.mem_take_iff_getElem.1 hc
    have hsome := List.getElem?_eq_getElem (lt_of_lt_of_le hi (Nat.min_le_right _ _))
    rw [hget] at hsome
    obtain ⟨hquote, hslash, -⟩ := hplain i (lt_of_lt_of_le hi (Nat.min_le_left _ _))
    rw [hsome, ne_eq, Option.some.injEq] at hquote hslash
    exact ⟨hquote, hslash⟩
  have hslash : ∀ i < room, ¬(s[i]? = some (ascii '/') ∧ s[i + 1]? = some (ascii '"')) := by
    intro i hi hboth
    by_cases hik : i < k
    · exact (hplain i hik).2.2 hboth
    · -- only backslashes are behind `k`
      have hget : (s.take room)[i]? = some (ascii '/') := by
        rw [List.getElem?_take_of_lt hi]
        exact hboth.1
      rw [htake, List.getElem?_append_right (by rw [List.length_take]; omega)] at hget
      exact absurd (List.eq_of_mem_replicate (List.mem_of_getElem? hget)) (by decide)
  -- the characters that were copied, and the pairs of backslashes behind them
  constructor
  · rw [quotedLoop_eq_take rest hs hslash, htake, readQuoted_copied _ hcopied]
  · have htwo : 2 * j = j + j := by omega
    have hstarts := List.take_prefix room s
    rw [htake, htwo, List.replicate_add, ← List.append_assoc] at hstarts
    exact (List.prefix_append _ _).trans hstarts

theorem length_quotedText (s : List UInt8) : s.length + 2 ≤ (quotedText s).length := by
  have hchars : s.length ≤
      (s.flatMap fun c => if c = ascii '"' ∨ c = ascii '\\' then [ascii '\\', c] else [c]).length := by
    induction s with
    | nil => exact Nat.zero_le _
    | cons c s ih =>
      rw [List.flatMap_cons, List.length_append, List.length_cons]
      split_ifs
      · rw [List.length_cons, List.length_singleton]
        omega
      · rw [List.length_singleton]
        omega
  unfold quotedText
  rw [List.length_append, List.length_cons, List.length_singleton]
  omega

end

/-- `quoted_cstr` leaves a quoted string for its source exactly when the characters that there is
room for hold no quote, no backslash, and no slash in front of a quote; or when these end with an
even number of backslashes, hold nothing else of that kind, and the source needs more room. -/
theorem quotedCstr_reads_iff (source : CStr) (rest : List UInt8) {size : ℕ} (hsize : 3 ≤ size) :
    (∃ text, (quotedCstr (source.bytes ++ 0 :: rest) size).stored = text ++ [0] ∧
        Quotes text source.bytes size) ↔
      Plainly (size - 3) source.bytes ∨
        (size < (quotedText source.bytes).length + 1 ∧ ∃ k j, Plainly k source.bytes ∧
          source.bytes.take (size - 3) =
            source.bytes.take k ++ List.replicate (2 * j) (ascii '\\')) := by
  have hlen := length_quotedText source.bytes
  have hstored : (quotedCstr (source.bytes ++ 0 :: rest) size).stored =
      ascii '"' :: (quotedLoop (size - 3) (source.bytes ++ 0 :: rest) ++ [ascii '"']) ++ [0] := by
    rw [quotedCstr, if_neg (by omega), if_neg (by omega), Filled.after_stored]
    rfl
  rw [hstored]
  constructor
  · rintro ⟨text, htext, t, v, rfl, hread, hv⟩
    rw [List.append_cancel_right_eq, List.cons.injEq] at htext
    rw [← htext.2] at hread
    have hstarts : v <+: source.bytes := by
      rcases hv with rfl | hv
      · exact List.prefix_rfl
      · exact hv.2
    obtain ⟨k, j, hplain, htake⟩ := plainly_of_read rest source.noNul hread hstarts
    rcases hv with rfl | hv
    · left
      have hback := (read_of_plainly rest source.noNul hplain htake).1
      rw [hback, Option.some.injEq, Prod.mk.injEq] at hread
      have hcount := congrArg List.length htake
      have hcount' := congrArg List.length hread.1
      rw [List.length_append, List.length_replicate, List.length_take] at hcount hcount'
      rw [List.length_take] at hcount
      -- no backslash is missing, and all of the source is there
      intro i hi
      by_cases hik : i < k
      · exact hplain i hik
      · have hnone : source.bytes[i]? = none := List.getElem?_eq_none (by omega)
        rw [hnone]
        exact ⟨by simp, by simp, by simp⟩
    · exact .inr ⟨hv.1, k, j, hplain, htake⟩
  · intro hplain
    suffices hv : ∃ v, readQuoted (quotedLoop (size - 3) (source.bytes ++ 0 :: rest) ++ [ascii '"']) =
        some (v, []) ∧ (v = source.bytes ∨
          (size < (quotedText source.bytes).length + 1 ∧ v <+: source.bytes)) by
      obtain ⟨v, hread, hv⟩ := hv
      exact ⟨_, rfl, _, v, rfl, hread, hv⟩
    rcases hplain with hplain | ⟨hfull, k, j, hplain, htake⟩
    · obtain ⟨hread, hstarts⟩ := @read_of_plainly _ (size - 3) _ rest source.noNul 0 hplain
        (List.append_nil _).symm
      refine ⟨_, hread, ?_⟩
      rw [List.replicate_zero, List.append_nil] at hstarts ⊢
      by_cases hfits : source.bytes.length ≤ size - 3
      · exact .inl (List.take_of_length_le hfits)
      · exact .inr ⟨by omega, hstarts⟩
    · obtain ⟨hread, hstarts⟩ := read_of_plainly rest source.noNul hplain htake
      exact ⟨_, hread, .inr ⟨hfull, hstarts⟩⟩

/-- A value with a quote in it. -/
def quotedInside : CStr := ⟨asciiBytes "a\"b", by decide +kernel⟩

theorem quotedCstr_reads_inside :
    (∃ text, (quotedCstr (quotedInside.bytes ++ 0 :: []) 16).stored = text ++ [0] ∧
        Quotes text quotedInside.bytes 16) ↔
      Plainly (16 - 3) quotedInside.bytes ∨
        (16 < (quotedText quotedInside.bytes).length + 1 ∧ ∃ k j, Plainly k quotedInside.bytes ∧
          quotedInside.bytes.take (16 - 3) =
            quotedInside.bytes.take k ++ List.replicate (2 * j) (ascii '\\')) :=
  quotedCstr_reads_iff quotedInside [] (by decide)

/-- The quote ends the string, and the rest of the value is behind it. -/
theorem quotedCstr_unescaped :
    ¬∀ (source : CStr) (rest : List UInt8) (size : ℕ), 3 ≤ size →
      ∃ text, (quotedCstr (source.bytes ++ 0 :: rest) size).stored = text ++ [0] ∧
        Quotes text source.bytes size := by
  intro hclaim
  obtain ⟨text, htext, t, v, rfl, hread, -⟩ := hclaim quotedInside [] 16 (by decide)
  have hstored : (quotedCstr (quotedInside.bytes ++ 0 :: []) 16).stored =
      ascii '"' :: asciiBytes "a\"b\"" ++ [0] := by decide +kernel
  rw [hstored, List.append_cancel_right_eq, List.cons.injEq] at htext
  rw [← htext.2] at hread
  have hearly : readQuoted (asciiBytes "a\"b\"") = some (asciiBytes "a", asciiBytes "b\"") := by
    decide +kernel
  rw [hearly, Option.some.injEq, Prod.mk.injEq] at hread
  exact absurd hread.2 (by decide +kernel)

end Smcp
