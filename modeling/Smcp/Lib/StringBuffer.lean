import Mathlib.Data.List.Basic
import Mathlib.Data.List.GetD
import Mathlib.Data.List.TakeWhile
import Mathlib.Data.Nat.Notation
import Mathlib.Order.Basic

/-!
# Strings in buffers

C strings where they are: a buffer is the list of its bytes, a string in it is given by the offset
where it begins, and everything behind the buffer is taken to be zero. A store behind the end of the
buffer makes the buffer longer.

* `textAt`, `findChar` and `strsep` read a string, `overwrite`, `strcpy`, `strcat` and `strlcatBuffer`
  store one;
* `textAt_eq` and `findChar_eq`: what is read, from what stands at the offset;
* `drop_overwrite` and `textAt_set`: what a store leaves alone;
* `strsep_advances`: how far `strsep` gets.
-/

namespace StringBuffer

/-! ## Reading -/

/-- The character at an offset; behind the content there is the terminator. -/
def charAt (buffer : List UInt8) (i : ℕ) : UInt8 := buffer.getD i 0

/-- The string at an offset. -/
def textAt (buffer : List UInt8) (i : ℕ) : List UInt8 :=
  (buffer.drop i).takeWhile fun c => c ≠ 0

/-- Where a character is found in the string at an offset: `strstr`, and what `strsep` looks for. -/
def findChar (buffer : List UInt8) (c : UInt8) (i : ℕ) : Option ℕ :=
  ((textAt buffer i).idxOf? c).map fun k => i + k

/-- `strsep(&p, c)`: the character behind the token becomes a terminator, and the pointer gets behind
it. The token is at the pointer as it was. -/
def strsep (buffer : List UInt8) (c : UInt8) (p : Option ℕ) : List UInt8 × Option ℕ :=
  match p with
  | none => (buffer, none)
  | some i =>
    match findChar buffer c i with
    | none => (buffer, none)
    | some q => (buffer.set q 0, some (q + 1))

/-! ## Storing -/

/-- Put bytes over those at an offset. -/
def overwrite (buffer : List UInt8) (i : ℕ) (bytes : List UInt8) : List UInt8 :=
  buffer.take i ++ bytes ++ buffer.drop (i + bytes.length)

/-- `strcpy` to the start of the buffer. -/
def strcpy (buffer src : List UInt8) : List UInt8 := overwrite buffer 0 (src ++ [0])

/-- `strcat` to the string at the start of the buffer. -/
def strcat (buffer src : List UInt8) : List UInt8 := strcpy buffer (textAt buffer 0 ++ src)

/-- `strlcat`, on strings. -/
def strlcat (dst src : List UInt8) (size : ℕ) : List UInt8 :=
  dst ++ src.take (size - 1 - dst.length)

/-- `strlcat` to the string at the start of the buffer. -/
def strlcatBuffer (buffer src : List UInt8) (size : ℕ) : List UInt8 :=
  strcpy buffer (strlcat (textAt buffer 0) src size)

/-! ## What is read -/

section
variable {buffer tail uri rest : List UInt8} {c v : UInt8} {i q k : ℕ}

theorem charAt_add (h : buffer.drop i = tail) (k : ℕ) : charAt buffer (i + k) = tail.getD k 0 := by
  unfold charAt
  rw [← h, List.getD_eq_getElem?_getD, List.getD_eq_getElem?_getD, List.getElem?_drop]

theorem drop_add (h : buffer.drop i = tail) (k : ℕ) : buffer.drop (i + k) = tail.drop k := by
  rw [← h, List.drop_drop]

/-- A byte that is put behind an offset. -/
theorem drop_set_add (h : buffer.drop i = tail) (k : ℕ) (v : UInt8) :
    (buffer.set (i + k) v).drop i = tail.set k v := by
  rw [List.drop_set, if_neg (by omega), h, Nat.add_sub_cancel_left]

theorem takeWhile_set {p : UInt8 → Bool} {l : List UInt8} (h : (l.takeWhile p).length < k) (v : UInt8) :
    (l.set k v).takeWhile p = l.takeWhile p := by
  induction l generalizing k with
  | nil => rfl
  | cons a l ih =>
    cases k with
    | zero => omega
    | succ k =>
      rw [List.set_cons_succ, List.takeWhile_cons, List.takeWhile_cons]
      by_cases ha : p a = true
      · rw [List.takeWhile_cons, if_pos ha, List.length_cons] at h
        rw [if_pos ha, if_pos ha, ih (by omega)]
      · rw [if_neg ha, if_neg ha]

/-- Another character stays. -/
theorem charAt_set_of_ne {buffer : List UInt8} {i k : ℕ} (h : i ≠ k) (v : UInt8) :
    charAt (buffer.set i v) k = charAt buffer k := by
  unfold charAt
  rw [List.getD_eq_getElem?_getD, List.getD_eq_getElem?_getD, List.getElem?_set_ne h]

/-- A terminator stays one. -/
theorem charAt_set_zero {buffer : List UInt8} {i k : ℕ} (h : i = k ∨ charAt buffer k = 0) :
    charAt (buffer.set i 0) k = 0 := by
  by_cases heq : i = k
  · unfold charAt
    rw [List.getD_eq_getElem?_getD, heq, List.getElem?_set_self']
    cases buffer[k]? with
    | none => rfl
    | some b => rfl
  · rw [charAt_set_of_ne heq]
    exact h.resolve_left heq

/-- A string stays when the bytes behind its terminator change. -/
theorem textAt_set (h : textAt buffer i = uri) (hk : i + uri.length < k) (v : UInt8) :
    textAt (buffer.set k v) i = uri := by
  have hlen : (textAt buffer i).length < k - i := by
    rw [h]
    omega
  unfold textAt at hlen
  rw [← h]
  unfold textAt
  rw [List.drop_set, if_neg (by omega), takeWhile_set hlen]

/-- A loop over the characters passes over those that it may, and stops at another one or at the end. -/
theorem takeWhile_stops (p : UInt8 → Bool) (buffer : List UInt8) (i : ℕ) :
    (∀ k, i ≤ k → k < i + ((buffer.drop i).takeWhile p).length → p (charAt buffer k) = true) ∧
      (p (charAt buffer (i + ((buffer.drop i).takeWhile p).length)) = false ∨
        buffer.length ≤ i + ((buffer.drop i).takeWhile p).length) := by
  -- the same of the list from there on
  have hlist (l : List UInt8) :
      (∀ k < (l.takeWhile p).length, p (l.getD k 0) = true) ∧
        (p (l.getD (l.takeWhile p).length 0) = false ∨ l.length ≤ (l.takeWhile p).length) := by
    induction l with
    | nil => exact ⟨fun k hk => absurd hk (Nat.not_lt_zero k), .inr (Nat.le_refl 0)⟩
    | cons b l ih =>
      by_cases hb : p b = true
      · rw [List.takeWhile_cons, if_pos hb]
        refine ⟨?_, ?_⟩
        · intro k hk
          cases k with
          | zero => exact hb
          | succ k => exact ih.1 k (Nat.lt_of_succ_lt_succ hk)
        · exact ih.2.imp id Nat.succ_le_succ
      · rw [List.takeWhile_cons, if_neg hb]
        exact ⟨fun k hk => absurd hk (Nat.not_lt_zero k), .inl (Bool.not_eq_true _ ▸ hb)⟩
  obtain ⟨hpass, hstop⟩ := hlist (buffer.drop i)
  refine ⟨?_, ?_⟩
  · intro k hi hk
    obtain ⟨n, rfl⟩ := Nat.exists_eq_add_of_le hi
    rw [charAt_add rfl]
    exact hpass n (by omega)
  · rw [charAt_add rfl]
    rw [List.length_drop] at hstop
    exact hstop.imp id fun hle => by omega

/-- Behind a string there is its terminator. -/
theorem charAt_textAt_length (buffer : List UInt8) (i : ℕ) :
    charAt buffer (i + (textAt buffer i).length) = 0 := by
  rcases (takeWhile_stops (fun c => c ≠ 0) buffer i).2 with hzero | hend
  · exact Decidable.not_not.1 (of_decide_eq_false hzero)
  · exact List.getD_eq_default _ _ hend

/-- A string ends where a terminator stands, or earlier. -/
theorem textAt_length_le_of_zero (h : charAt buffer k = 0) (hi : i ≤ k) :
    i + (textAt buffer i).length ≤ k := by
  by_contra hlt
  have hpass := (takeWhile_stops (fun c => c ≠ 0) buffer i).1 k hi (Nat.lt_of_not_le hlt)
  rw [h] at hpass
  exact absurd hpass (by decide)

theorem textAt_eq (h : buffer.drop i = uri ++ rest) (huri : ∀ b ∈ uri, b ≠ 0)
    (hrest : rest.headD 0 = 0) : textAt buffer i = uri := by
  unfold textAt
  rw [h, List.takeWhile_append_of_pos fun b hb => decide_eq_true (huri b hb)]
  cases rest with
  | nil => exact List.append_nil uri
  | cons r rest =>
    have hr : r = 0 := hrest
    rw [hr, List.takeWhile_cons_of_neg (by decide), List.append_nil]

/-- The first of the characters, behind others. -/
theorem findChar_eq (h : buffer.drop i = uri ++ c :: rest) (huri : ∀ b ∈ uri, b ≠ 0 ∧ b ≠ c)
    (hc : c ≠ 0) : findChar buffer c i = some (i + uri.length) := by
  have htext : textAt buffer i = uri ++ c :: rest.takeWhile fun b => b ≠ 0 := by
    unfold textAt
    rw [h, List.takeWhile_append_of_pos fun b hb => decide_eq_true (huri b hb).1,
      List.takeWhile_cons, if_pos (decide_eq_true hc)]
  have hidx (l : List UInt8) : (uri ++ c :: l).idxOf? c = some uri.length := by
    rw [List.idxOf?_eq_some_iff]
    have hlen : uri.length < (uri ++ c :: l).length := by
      rw [List.length_append, List.length_cons]
      omega
    refine ⟨hlen, by simp, ?_⟩
    intro j hj
    rw [List.getElem_append_left hj]
    simpa using (huri _ (List.getElem_mem hj)).2
  unfold findChar
  rw [htext, hidx, Option.map_some]

/-- What is found is the character, at the offset or behind it. -/
theorem charAt_findChar (h : findChar buffer c i = some q) : charAt buffer q = c ∧ i ≤ q := by
  unfold findChar at h
  obtain ⟨k, hk, rfl⟩ := Option.map_eq_some_iff.1 h
  obtain ⟨hlt, hget, -⟩ := List.idxOf?_eq_some_iff.1 hk
  have hprefix : textAt buffer i <+: buffer.drop i := List.takeWhile_prefix _
  have hdrop : (buffer.drop i)[k]? = some c := by
    rw [← hget]
    exact List.prefix_iff_getElem?.1 hprefix k hlt
  rw [List.getElem?_drop] at hdrop
  unfold charAt
  rw [List.getD_eq_getElem?_getD, hdrop]
  exact ⟨rfl, Nat.le_add_right i k⟩

theorem findChar_self (h : charAt buffer q = c) (hc : c ≠ 0) : findChar buffer c q = some q := by
  unfold charAt at h
  rw [List.getD_eq_getElem?_getD] at h
  by_cases hlt : q < buffer.length
  · rw [List.getElem?_eq_getElem hlt, Option.getD_some] at h
    have htext : textAt buffer q = c :: textAt buffer (q + 1) := by
      unfold textAt
      rw [List.drop_eq_getElem_cons hlt, h, List.takeWhile_cons, if_pos (decide_eq_true hc)]
    unfold findChar
    rw [htext, List.idxOf?_cons, if_pos (beq_self_eq_true c)]
    rfl
  · rw [List.getElem?_eq_none (Nat.le_of_not_lt hlt), Option.getD_none] at h
    exact absurd h.symm hc

theorem findChar_lt (h : findChar buffer c i = some q) (hc : c ≠ 0) : q < buffer.length := by
  by_contra hle
  have hchar := (charAt_findChar h).1
  unfold charAt at hchar
  rw [List.getD_eq_default _ _ (Nat.le_of_not_lt hle)] at hchar
  exact hc hchar.symm

/-- The string in front of the character that is found. -/
theorem findChar_split (h : findChar buffer c i = some q) :
    ∃ front, (∀ b ∈ front, b ≠ 0 ∧ b ≠ c) ∧ q = i + front.length ∧
      buffer.drop i = front ++ c :: buffer.drop (q + 1) := by
  unfold findChar at h
  -- the index that the search gives, and what stands in front of it
  obtain ⟨k, hk, rfl⟩ := Option.map_eq_some_iff.1 h
  obtain ⟨hlt, hget, hbefore⟩ := List.idxOf?_eq_some_iff.1 hk
  have hprefix : textAt buffer i <+: buffer.drop i := List.takeWhile_prefix _
  have hle : k < (buffer.drop i).length := Nat.lt_of_lt_of_le hlt hprefix.length_le
  -- in front of the terminator the string and the buffer are the same
  have htake : (buffer.drop i).take k = (textAt buffer i).take k := by
    obtain ⟨rest, hrest⟩ := hprefix
    rw [← hrest, List.take_append_of_le_length (Nat.le_of_lt hlt)]
  refine ⟨(textAt buffer i).take k, ?_, ?_, ?_⟩
  · intro b hb
    refine ⟨?_, ?_⟩
    · have hmem := List.mem_takeWhile_imp (List.mem_of_mem_take hb)
      simpa using hmem
    · obtain ⟨j, hj, rfl⟩ := List.getElem_of_mem hb
      rw [List.length_take] at hj
      rw [List.getElem_take]
      simpa using hbefore j (by omega)
  · rw [List.length_take]
    omega
  · have hget' : (buffer.drop i)[k] = c := by
      rw [← hget]
      exact (List.prefix_iff_getElem.1 hprefix).2 k hlt |>.symm
    have hrest : buffer.drop (i + k + 1) = (buffer.drop i).drop (k + 1) := by
      rw [List.drop_drop]
      congr 1
    rw [hrest, ← htake, ← hget']
    exact ((List.take_append_drop k _).symm.trans (by rw [List.drop_eq_getElem_cons hle]))

/-- A character in front of what is left. -/
theorem charAt_mem (h : buffer.drop i = uri ++ rest) (hi : i ≤ k) (hk : k < i + uri.length) :
    charAt buffer k ∈ uri := by
  obtain ⟨n, rfl⟩ := Nat.exists_eq_add_of_le hi
  have hn : n < uri.length := by omega
  rw [charAt_add h, List.getD_eq_getElem?_getD, List.getElem?_append_left hn,
    List.getElem?_eq_getElem hn, Option.getD_some]
  exact List.getElem_mem hn

/-- `findChar` passes over other characters. -/
theorem findChar_before (h : findChar buffer c i = some q) (hi : i ≤ k) (hk : k < q) :
    charAt buffer k ≠ 0 ∧ charAt buffer k ≠ c := by
  obtain ⟨front, hfront, hq, hdrop⟩ := findChar_split h
  exact hfront _ (charAt_mem hdrop hi (by omega))

/-- What is not found does not stand in front of the terminator. -/
theorem findChar_none (h : findChar buffer c i = none) :
    ∃ e, i ≤ e ∧ charAt buffer e = 0 ∧
      ∀ k, i ≤ k → k < e → charAt buffer k ≠ 0 ∧ charAt buffer k ≠ c := by
  unfold findChar at h
  rw [Option.map_eq_none_iff, List.idxOf?_eq_none_iff] at h
  have hdrop : buffer.drop i = textAt buffer i ++ (buffer.drop i).dropWhile fun c => c ≠ 0 :=
    List.takeWhile_append_dropWhile.symm
  refine ⟨i + (textAt buffer i).length, Nat.le_add_right _ _, ?_, ?_⟩
  · exact charAt_textAt_length buffer i
  · intro k hi hk
    have hmem := charAt_mem hdrop hi hk
    refine ⟨?_, fun heq => h (heq ▸ hmem)⟩
    simpa using List.mem_takeWhile_imp hmem

end

/-! ## What is stored -/

section
variable {buffer src : List UInt8} {c : UInt8} {i q k : ℕ} {p : Option ℕ}

theorem overwrite_self (buffer : List UInt8) (i : ℕ) :
    overwrite buffer i (buffer.drop i) = buffer := by
  unfold overwrite
  rw [List.take_append_drop, List.length_drop, List.drop_eq_nil_of_le (by omega), List.append_nil]

theorem length_overwrite {bytes : List UInt8} (h : i + bytes.length ≤ buffer.length) :
    (overwrite buffer i bytes).length = buffer.length := by
  unfold overwrite
  rw [List.length_append, List.length_append, List.length_take, List.length_drop]
  omega

theorem le_length_overwrite {bytes : List UInt8} (hi : i ≤ buffer.length) :
    buffer.length ≤ (overwrite buffer i bytes).length := by
  unfold overwrite
  rw [List.length_append, List.length_append, List.length_take, List.length_drop]
  omega

/-- What stands in the buffer after bytes have been put over others. -/
theorem charAt_overwrite {bytes : List UInt8} (hi : i ≤ buffer.length) (k : ℕ) :
    charAt (overwrite buffer i bytes) k =
      if i ≤ k ∧ k < i + bytes.length then charAt bytes (k - i) else charAt buffer k := by
  have htake : (buffer.take i).length = i := List.length_take_of_le hi
  have hboth : (buffer.take i ++ bytes).length = i + bytes.length := by
    rw [List.length_append, htake]
  unfold charAt overwrite
  rw [List.getD_eq_getElem?_getD, List.getD_eq_getElem?_getD, List.getD_eq_getElem?_getD]
  by_cases hbefore : k < i
  · rw [if_neg (by omega), List.getElem?_append_left (by omega),
      List.getElem?_append_left (by omega), List.getElem?_take_of_lt hbefore]
  · by_cases hinside : k < i + bytes.length
    · rw [if_pos ⟨Nat.le_of_not_lt hbefore, hinside⟩, List.getElem?_append_left (by omega),
        List.getElem?_append_right (by omega), htake]
    · rw [if_neg fun h => hinside h.2, List.getElem?_append_right (by omega), hboth,
        List.getElem?_drop]
      congr 2
      omega

/-- What is behind the bytes that are overwritten. -/
theorem drop_overwrite {bytes : List UInt8} (hi : i ≤ buffer.length) (hk : i + bytes.length ≤ k) :
    (overwrite buffer i bytes).drop k = buffer.drop k := by
  have hlen : (buffer.take i ++ bytes).length = i + bytes.length := by
    rw [List.length_append, List.length_take]
    omega
  unfold overwrite
  rw [List.drop_append, List.drop_eq_nil_of_le (by omega), List.nil_append, hlen, List.drop_drop]
  congr 1
  omega

theorem textAt_length_le (buffer : List UInt8) (i : ℕ) :
    (textAt buffer i).length ≤ buffer.length := by
  have hprefix := (List.takeWhile_prefix (l := buffer.drop i) fun c => decide (c ≠ 0)).length_le
  rw [List.length_drop] at hprefix
  exact Nat.le_trans hprefix (Nat.sub_le _ _)

theorem length_strcpy (buffer src : List UInt8) :
    (strcpy buffer src).length = max buffer.length (src.length + 1) := by
  unfold strcpy overwrite
  simp only [List.length_append, List.length_take, List.length_drop, List.length_singleton]
  omega

/-- The string that has been stored, up to a terminator in it. -/
theorem textAt_strcpy (buffer src : List UInt8) :
    textAt (strcpy buffer src) 0 = src.takeWhile fun c => c ≠ 0 := by
  have hstored : strcpy buffer src = src ++ 0 :: buffer.drop (src.length + 1) := by
    unfold strcpy overwrite
    rw [List.take_zero, List.nil_append, List.append_assoc, List.length_append,
      List.length_singleton, Nat.zero_add]
    rfl
  unfold textAt
  rw [List.drop_zero, hstored, List.takeWhile_append]
  split_ifs with hall
  · rw [List.takeWhile_cons_of_neg (by decide), List.append_nil]
    exact ((List.takeWhile_prefix _).eq_of_length hall).symm
  · rfl

theorem textAt_strcpy_le (buffer src : List UInt8) :
    (textAt (strcpy buffer src) 0).length ≤ src.length := by
  rw [textAt_strcpy]
  exact (List.takeWhile_prefix _).length_le

/-- `strlcat` does not make a string that fits too long. -/
theorem length_strlcat_le (dst src : List UInt8) (size : ℕ) :
    (strlcat dst src size).length ≤ max dst.length (size - 1) ∧
      (strlcat dst src size).length ≤ dst.length + src.length := by
  unfold strlcat
  rw [List.length_append, List.length_take]
  omega

/-- A terminator does not make the string at the start longer. -/
theorem textAt_set_zero_le (buffer : List UInt8) (q : ℕ) :
    (textAt (buffer.set q 0) 0).length ≤ (textAt buffer 0).length := by
  unfold textAt
  rw [List.drop_zero, List.drop_zero]
  induction buffer generalizing q with
  | nil => exact Nat.le_refl _
  | cons b buffer ih =>
    cases q with
    | zero => exact Nat.zero_le _
    | succ q =>
      rw [List.set_cons_succ, List.takeWhile_cons, List.takeWhile_cons]
      split_ifs
      · exact Nat.succ_le_succ (ih q)
      · exact Nat.le_refl _

/-- How many strings there can be between a pointer and an end behind it. -/
def room (stop : ℕ) (p : Option ℕ) : ℕ := p.elim 0 fun i => stop + 1 - i + 1

/-- `strsep` gets on, with a buffer of the same length and a string at the start that is not longer. -/
theorem strsep_advances (hc : c ≠ 0) (hp : p ≠ none) {stop : ℕ} (hstop : buffer.length ≤ stop) :
    room stop (strsep buffer c p).2 < room stop p ∧
      (strsep buffer c p).1.length = buffer.length ∧
      (textAt (strsep buffer c p).1 0).length ≤ (textAt buffer 0).length := by
  obtain ⟨i, rfl⟩ := Option.ne_none_iff_exists'.1 hp
  cases hfound : findChar buffer c i with
  | none =>
    have hlast : strsep buffer c (some i) = (buffer, none) := by simp only [strsep, hfound]
    rw [hlast]
    exact ⟨Nat.succ_pos _, rfl, Nat.le_refl _⟩
  | some q =>
    have hq := (charAt_findChar hfound).2
    have hlt := findChar_lt hfound hc
    have hnext : strsep buffer c (some i) = (buffer.set q 0, some (q + 1)) := by
      simp only [strsep, hfound]
    rw [hnext]
    refine ⟨?_, List.length_set, textAt_set_zero_le buffer q⟩
    show stop + 1 - (q + 1) + 1 < stop + 1 - i + 1
    omega

end

end StringBuffer
