import Mathlib.Data.List.Induction
import Mathlib.Data.List.Sort
import Mathlib.Tactic.Ring

/-!
# The delta/length option format

The option area of a CoAP message, as a format: a sequence of options, each a header byte
with a delta nibble and a length nibble, the extension bytes of the two fields, and a value.
A nibble below 13 is the field itself, 13 announces one extension byte (`13 + b`), 14
announces two (`269 + b₀ · 256 + b₁`), and 15 is reserved. The area ends with the packet or
with the marker byte `0xFF`, after which everything is payload.

* `Splits` is the grammar, with the reading of the length field as a parameter;
* `encode` writes a list of keyed options, each as the difference to the key before it;
* `splits_encode` says that what `encode` writes is in the grammar, with the same options.
-/

namespace OptionFormat

/-! ## Fields -/

/-- The nibble that announces the field value `n`. -/
def nibble (n : ℕ) : ℕ :=
  if n < 13 then n else if n < 269 then 13 else 14

/-- The extension bytes of the field value `n`. -/
def extension (n : ℕ) : List UInt8 :=
  if n < 13 then []
  else if n < 269 then [UInt8.ofNat (n - 13)]
  else [UInt8.ofNat ((n - 269) / 256), UInt8.ofNat ((n - 269) % 256)]

/-- How many extension bytes a nibble announces. -/
def extLen (nib : ℕ) : ℕ :=
  if nib = 13 then 1 else if nib = 14 then 2 else 0

/-- The value of a field with nibble `nib` and extension bytes `ext`. -/
def fieldValue (nib : ℕ) (ext : List UInt8) : ℕ :=
  if nib = 13 then 13 + (ext.getD 0 0).toNat
  else if nib = 14 then 269 + (ext.getD 0 0).toNat * 256 + (ext.getD 1 0).toNat
  else nib

/-- A nibble with an extension is less than 15. -/
theorem nibble_lt (n : ℕ) : nibble n < 15 := by
  unfold nibble
  split_ifs <;> omega

/-- The nibble tells how many bytes extend it. -/
@[simp] theorem length_extension (n : ℕ) : (extension n).length = extLen (nibble n) := by
  unfold extension nibble extLen
  split_ifs <;> first | rfl | omega

/-- There are two of them at most. -/
theorem extLen_le (nib : ℕ) : extLen nib ≤ 2 := by
  unfold extLen
  split_ifs <;> omega

/-- The extension of a field, in terms of the field value. -/
theorem extLen_nibble (n : ℕ) :
    extLen (nibble n) = (if 13 ≤ n then 1 else 0) + (if 269 ≤ n then 1 else 0) := by
  unfold extLen nibble
  split_ifs <;> omega

/-- A larger field never has fewer extension bytes. -/
theorem extLen_nibble_mono {a b : ℕ} (h : a ≤ b) : extLen (nibble a) ≤ extLen (nibble b) := by
  rw [extLen_nibble, extLen_nibble]
  split_ifs <;> omega

/-- Splitting a field in two costs at most one of its extension bytes. -/
theorem extLen_nibble_add_le (a b : ℕ) :
    extLen (nibble (a + b)) ≤ extLen (nibble a) + extLen (nibble b) + 1 := by
  rw [extLen_nibble, extLen_nibble, extLen_nibble]
  split_ifs <;> omega

/-- Reading a field back gives its value, up to the largest one that fits. -/
theorem fieldValue_nibble {n : ℕ} (h : n ≤ 65804) :
    fieldValue (nibble n) (extension n) = n := by
  unfold fieldValue nibble extension
  by_cases h13 : n < 13
  · simp only [h13, ↓reduceIte]
    rw [if_neg (by omega), if_neg (by omega)]
  · by_cases h269 : n < 269
    · simp only [h13, h269, ↓reduceIte, List.getD_cons_zero, UInt8.toNat_ofNat']
      omega
    · simp only [h13, h269, ↓reduceIte, List.getD_cons_zero, List.getD_cons_succ,
        UInt8.toNat_ofNat']
      rw [if_neg (by decide)]
      omega

/-- There is only one way to write a field. -/
theorem nibble_fieldValue {nib : ℕ} {ext : List UInt8} (hnib : nib < 15)
    (hext : ext.length = extLen nib) :
    nibble (fieldValue nib ext) = nib ∧ extension (fieldValue nib ext) = ext := by
  unfold extLen at hext
  unfold fieldValue
  split_ifs at hext ⊢ with h13 h14
  · -- one extension byte: 13 to 268
    obtain ⟨a, rfl⟩ := List.length_eq_one_iff.1 hext
    have ha := a.toNat_lt
    rw [List.getD_cons_zero]
    constructor
    · unfold nibble
      rw [if_neg (by omega), if_pos (by omega), h13]
    · unfold extension
      rw [if_neg (by omega), if_pos (by omega), Nat.add_sub_cancel_left, UInt8.ofNat_toNat]
  · -- two extension bytes: 269 and more
    obtain ⟨a, b, rfl⟩ := List.length_eq_two.1 hext
    have hb := b.toNat_lt
    rw [List.getD_cons_zero, List.getD_cons_succ, List.getD_cons_zero]
    constructor
    · unfold nibble
      rw [if_neg (by omega), if_neg (by omega), h14]
    · have hdiv : (269 + a.toNat * 256 + b.toNat - 269) / 256 = a.toNat := by omega
      have hmod : (269 + a.toNat * 256 + b.toNat - 269) % 256 = b.toNat := by omega
      unfold extension
      rw [if_neg (by omega), if_neg (by omega), hdiv, hmod, UInt8.ofNat_toNat, UInt8.ofNat_toNat]
  · -- the nibble is the field
    have hnil : ext = [] := List.eq_nil_of_length_eq_zero hext
    constructor
    · unfold nibble
      rw [if_pos (by omega)]
    · unfold extension
      rw [if_pos (by omega), hnil]

/-! ## The grammar -/

/-- `Splits len bytes opts payload`: the bytes split into the options `opts`, given as pairs
of delta and value, followed by the end (`payload = none`) or by the marker and `payload`.
`len` is how the reader takes the length field: as it stands, or reduced to a machine word. -/
inductive Splits (len : ℕ → ℕ) :
    List UInt8 → List (ℕ × List UInt8) → Option (List UInt8) → Prop
  | nil : Splits len [] [] none
  | marker (payload : List UInt8) : Splits len (0xFF :: payload) [] (some payload)
  | option (h : UInt8) (dext lext value rest : List UInt8) (opts : List (ℕ × List UInt8))
      (payload : Option (List UInt8))
      (hdelta : h.toNat / 16 ≠ 15) (hlength : h.toNat % 16 ≠ 15)
      (hdext : dext.length = extLen (h.toNat / 16))
      (hlext : lext.length = extLen (h.toNat % 16))
      (hvalue : value.length = len (fieldValue (h.toNat % 16) lext))
      (hrest : Splits len rest opts payload) :
      Splits len (h :: (dext ++ lext ++ value ++ rest))
        ((fieldValue (h.toNat / 16) dext, value) :: opts) payload

/-- The keys of a list of options: the running sums of the deltas. -/
def withKeys (prev : ℕ) : List (ℕ × List UInt8) → List (ℕ × List UInt8)
  | [] => []
  | (d, v) :: opts => (prev + d, v) :: withKeys (prev + d) opts

/-- Somewhere among the options, read with lengths taken by `len`, an option declares a
length of at least `limit`. -/
inductive HasLong (len : ℕ → ℕ) (limit : ℕ) : List UInt8 → Prop
  | here (h : UInt8) (dext lext rest : List UInt8)
      (hdelta : h.toNat / 16 ≠ 15) (hlength : h.toNat % 16 ≠ 15)
      (hdext : dext.length = extLen (h.toNat / 16))
      (hlext : lext.length = extLen (h.toNat % 16))
      (hlong : limit ≤ fieldValue (h.toNat % 16) lext) :
      HasLong len limit (h :: (dext ++ lext ++ rest))
  | there (h : UInt8) (dext lext value rest : List UInt8)
      (hdelta : h.toNat / 16 ≠ 15) (hlength : h.toNat % 16 ≠ 15)
      (hdext : dext.length = extLen (h.toNat / 16))
      (hlext : lext.length = extLen (h.toNat % 16))
      (hvalue : value.length = len (fieldValue (h.toNat % 16) lext))
      (hrest : HasLong len limit rest) :
      HasLong len limit (h :: (dext ++ lext ++ value ++ rest))

section
variable {len len' : ℕ → ℕ} {limit : ℕ} {bytes : List UInt8}
  {opts : List (ℕ × List UInt8)} {payload : Option (List UInt8)}

/-- Every option takes at least its header byte. -/
theorem Splits.length_le (hs : Splits len bytes opts payload) : opts.length ≤ bytes.length := by
  induction hs with
  | nil => exact le_refl _
  | marker payload => exact Nat.zero_le _
  | option h dext lext value rest opts payload _ _ _ _ _ _ ih =>
    simp only [List.length_cons, List.length_append]
    omega

/-- Two readers that agree below `limit` read an area without long options alike. -/
theorem Splits.change_len (hs : Splits len bytes opts payload)
    (hagree : ∀ n, n < limit → len n = len' n) (hlong : ¬HasLong len limit bytes) :
    Splits len' bytes opts payload := by
  induction hs with
  | nil => exact .nil
  | marker payload => exact .marker payload
  | option h dext lext value rest opts payload hdelta hlength hdext hlext hvalue hrest ih =>
    have hshort : fieldValue (h.toNat % 16) lext < limit := by
      by_contra hge
      refine hlong ?_
      rw [List.append_assoc (dext ++ lext)]
      exact .here h dext lext _ hdelta hlength hdext hlext (by omega)
    refine .option h dext lext value rest opts payload hdelta hlength hdext hlext
      (by rw [hvalue, hagree _ hshort]) (ih fun hr => hlong ?_)
    exact .there h dext lext value rest hdelta hlength hdext hlext hvalue hr

/-- An area that splits with the lengths taken as they stand, into values shorter than `limit`, has
no long option for any reader that agrees below `limit`. -/
theorem Splits.not_hasLong_of_values (hs : Splits id bytes opts payload)
    (hagree : ∀ n, n < limit → len n = n) (hshort : ∀ o ∈ opts, o.2.length < limit) :
    ¬HasLong len limit bytes := by
  -- induction on the splitting: each option is short, since its value is
  induction hs with
  | nil => rintro ⟨⟩
  | marker payload =>
    intro hl
    cases hl with
    | here h dext lext rest hdelta => exact hdelta (by decide)
    | there h dext lext value rest hdelta => exact hdelta (by decide)
  | option h dext lext value rest opts payload hdelta hlength hdext hlext hvalue hrest ih =>
    have hfield : fieldValue (h.toNat % 16) lext = value.length := hvalue.symm
    have hvalueshort : value.length < limit := hshort _ (List.mem_cons_self ..)
    intro hl
    generalize hb : h :: (dext ++ lext ++ value ++ rest) = b at hl
    cases hl with
    | here h' dext' lext' rest' hdelta' hlength' hdext' hlext' hlong =>
      simp only [List.cons.injEq, List.append_assoc] at hb
      obtain ⟨rfl, hb⟩ := hb
      obtain ⟨-, hb⟩ := List.append_inj hb (by omega)
      obtain ⟨hl, -⟩ := List.append_inj hb (by omega)
      rw [← hl] at hlong
      omega
    | there h' dext' lext' value' rest' hdelta' hlength' hdext' hlext' hvalue' hrest' =>
      simp only [List.cons.injEq, List.append_assoc] at hb
      obtain ⟨rfl, hb⟩ := hb
      obtain ⟨-, hb⟩ := List.append_inj hb (by omega)
      obtain ⟨hl, hb⟩ := List.append_inj hb (by omega)
      rw [← hl, hagree _ (by omega), hfield] at hvalue'
      obtain ⟨-, hr⟩ := List.append_inj hb (by omega)
      rw [← hr] at hrest'
      exact ih (fun o ho => hshort o (List.mem_cons_of_mem _ ho)) hrest'

/-- The values lie inside the area. -/
theorem Splits.length_value_le (hs : Splits len bytes opts payload) :
    ∀ o ∈ opts, o.2.length ≤ bytes.length := by
  induction hs with
  | nil => simp
  | marker payload => simp
  | option h dext lext value rest opts payload _ _ _ _ _ _ ih =>
    intro o ho
    simp only [List.length_cons, List.length_append]
    rcases List.mem_cons.1 ho with rfl | ho
    · dsimp only
      omega
    · have hle := ih o ho
      omega

/-- An area shorter than `limit` that splits with the lengths taken as they stand has no
long option for any reader that agrees below `limit`. -/
theorem Splits.not_hasLong (hs : Splits id bytes opts payload)
    (hagree : ∀ n, n < limit → len n = n) (hshort : bytes.length < limit) :
    ¬HasLong len limit bytes :=
  hs.not_hasLong_of_values hagree fun o ho => (hs.length_value_le o ho).trans_lt hshort

end

/-! ## Writing -/

/-- One option with the given delta and value. -/
def optionBytes (delta : ℕ) (value : List UInt8) : List UInt8 :=
  UInt8.ofNat (nibble delta * 16 + nibble value.length) ::
    (extension delta ++ extension value.length ++ value)

/-- A list of keyed options, each written as the difference to the key before it. -/
def encode (prev : ℕ) : List (ℕ × List UInt8) → List UInt8
  | [] => []
  | (k, v) :: opts => optionBytes (k - prev) v ++ encode k opts

/-- The deltas of a list of keyed options. -/
def deltas (prev : ℕ) : List (ℕ × List UInt8) → List (ℕ × List UInt8)
  | [] => []
  | (k, v) :: opts => (k - prev, v) :: deltas k opts

/-- An option takes its header, both extensions and its value. -/
theorem length_optionBytes (delta : ℕ) (value : List UInt8) :
    (optionBytes delta value).length =
      1 + extLen (nibble delta) + extLen (nibble value.length) + value.length := by
  simp [optionBytes]
  omega

/-- The key in front of what follows the options `l`, which themselves follow the key `prev`. -/
def lastKey (prev : ℕ) (l : List (ℕ × List UInt8)) : ℕ := (l.map Prod.fst).getLastD prev

/-- The largest key, or 0 if there are no options. -/
def largestKey (l : List (ℕ × List UInt8)) : ℕ := (l.map Prod.fst).foldr max 0

@[simp] theorem lastKey_nil (prev : ℕ) : lastKey prev [] = prev := rfl

@[simp] theorem lastKey_cons (prev k : ℕ) (v : List UInt8) (l : List (ℕ × List UInt8)) :
    lastKey prev ((k, v) :: l) = lastKey k l := by
  simp only [lastKey, List.map_cons, List.getLastD_cons]

/-- Options are encoded one by one, each from the key of the one in front. -/
theorem encode_append (prev : ℕ) (l r : List (ℕ × List UInt8)) :
    encode prev (l ++ r) = encode prev l ++ encode (lastKey prev l) r := by
  induction l generalizing prev with
  | nil => simp [encode]
  | cons o l ih =>
    obtain ⟨k, v⟩ := o
    simp only [List.cons_append, encode, ih, List.append_assoc, lastKey_cons]

/-- The options follow the key `prev` in the order of their keys, with keys up to `maxKey` and
values of up to `maxLen` bytes. -/
def Ordered (maxKey maxLen : ℕ) : ℕ → List (ℕ × List UInt8) → Prop
  | _, [] => True
  | prev, (k, v) :: opts =>
    prev ≤ k ∧ k ≤ maxKey ∧ v.length ≤ maxLen ∧ Ordered maxKey maxLen k opts

instance decidableOrdered (maxKey maxLen : ℕ) :
    (prev : ℕ) → (l : List (ℕ × List UInt8)) → Decidable (Ordered maxKey maxLen prev l)
  | _, [] => inferInstanceAs (Decidable True)
  | prev, (k, v) :: opts =>
    have := decidableOrdered maxKey maxLen k opts
    inferInstanceAs (Decidable (prev ≤ k ∧ k ≤ maxKey ∧ v.length ≤ maxLen ∧ _))

section
variable {maxKey maxLen prev : ℕ} {l r : List (ℕ × List UInt8)}

/-- They are in order if both parts are, the second one from the last key of the first. -/
theorem ordered_append :
    Ordered maxKey maxLen prev (l ++ r) ↔
      Ordered maxKey maxLen prev l ∧ Ordered maxKey maxLen (lastKey prev l) r := by
  induction l generalizing prev with
  | nil => simp [Ordered]
  | cons o l ih =>
    obtain ⟨k, v⟩ := o
    simp only [List.cons_append, Ordered, ih, lastKey_cons]
    tauto

/-- Keys do not get smaller. -/
theorem Ordered.le_lastKey (h : Ordered maxKey maxLen prev l) : prev ≤ lastKey prev l := by
  induction l generalizing prev with
  | nil => simp
  | cons o l ih =>
    obtain ⟨k, v⟩ := o
    rw [lastKey_cons]
    exact h.1.trans (ih h.2.2.2)

/-- The last key is as small as all of them are. -/
theorem lastKey_le {key : ℕ} (hprev : prev ≤ key) (h : ∀ o ∈ l, o.1 ≤ key) :
    lastKey prev l ≤ key := by
  induction l generalizing prev with
  | nil => exact hprev
  | cons o l ih =>
    obtain ⟨k, v⟩ := o
    rw [lastKey_cons]
    exact ih (h (k, v) (by simp)) fun o ho => h o (by simp [ho])

/-- The last key is the largest one. -/
theorem Ordered.lastKey_eq_max (h : Ordered maxKey maxLen prev l) :
    lastKey prev l = max prev (largestKey l) := by
  induction l generalizing prev with
  | nil => simp [largestKey]
  | cons o l ih =>
    obtain ⟨k, v⟩ := o
    have hrest := ih h.2.2.2
    have hfirst := h.1
    have hlargest : largestKey ((k, v) :: l) = max k (largestKey l) := rfl
    rw [lastKey_cons, hrest, hlargest]
    omega

/-- The keys of the written options are the running sums of what is read back. -/
theorem withKeys_deltas (h : Ordered maxKey maxLen prev l) :
    withKeys prev (deltas prev l) = l := by
  induction l generalizing prev with
  | nil => rfl
  | cons o l ih =>
    obtain ⟨k, v⟩ := o
    have hsum : prev + (k - prev) = k := by
      have := h.1
      omega
    rw [deltas, withKeys, hsum, ih h.2.2.2]

end

/-! ## Inserting an option -/

/-- Put an option behind all options whose key is not larger. -/
def insertByKey (o : ℕ × List UInt8) : List (ℕ × List UInt8) → List (ℕ × List UInt8)
  | [] => [o]
  | x :: l => if x.1 ≤ o.1 then x :: insertByKey o l else o :: x :: l

/-- Where the new option goes. -/
theorem insertByKey_split (o : ℕ × List UInt8) (l : List (ℕ × List UInt8)) :
    ∃ below above, l = below ++ above ∧ insertByKey o l = below ++ o :: above ∧
      (∀ x ∈ below, x.1 ≤ o.1) ∧ (∀ x above', above = x :: above' → o.1 < x.1) := by
  induction l with
  | nil => exact ⟨[], [], rfl, rfl, by simp, by simp⟩
  | cons x l ih =>
    obtain ⟨below, above, hl, hins, hbelow, habove⟩ := ih
    rw [insertByKey]
    split_ifs with hx
    · refine ⟨x :: below, above, by simp [hl], by simp [hins], ?_, habove⟩
      intro y hy
      rcases List.mem_cons.1 hy with rfl | hy
      · exact hx
      · exact hbelow y hy
    · refine ⟨[], x :: l, rfl, rfl, by simp, ?_⟩
      rintro y above' heq
      rw [List.cons.injEq] at heq
      rw [← heq.1]
      omega

/-- An option that is put in its place keeps the order. -/
theorem Ordered.insertByKey {maxKey maxLen prev key : ℕ} {v : List UInt8}
    {l : List (ℕ × List UInt8)} (h : Ordered maxKey maxLen prev l) (hprev : prev ≤ key)
    (hkey : key ≤ maxKey) (hv : v.length ≤ maxLen) :
    Ordered maxKey maxLen prev (insertByKey (key, v) l) := by
  induction l generalizing prev with
  | nil => exact ⟨hprev, hkey, hv, trivial⟩
  | cons x l ih =>
    obtain ⟨k, w⟩ := x
    obtain ⟨hk, hk', hw, hl⟩ := h
    rw [OptionFormat.insertByKey]
    split_ifs with hle
    · exact ⟨hk, hk', hw, ih hl hle⟩
    · exact ⟨hprev, hkey, hv, (not_le.1 hle).le, hk', hw, hl⟩

/-- The largest key after an insertion. -/
theorem lastKey_insertByKey {maxKey maxLen prev key : ℕ} {v : List UInt8}
    {l : List (ℕ × List UInt8)} (h : Ordered maxKey maxLen prev l) (hprev : prev ≤ key) :
    lastKey prev (OptionFormat.insertByKey (key, v) l) = max key (lastKey prev l) := by
  induction l generalizing prev with
  | nil => simp [OptionFormat.insertByKey, hprev]
  | cons x l ih =>
    obtain ⟨k, w⟩ := x
    obtain ⟨-, -, -, hl⟩ := h
    rw [OptionFormat.insertByKey]
    split_ifs with hle
    · rw [lastKey_cons, lastKey_cons, ih hl hle]
    · have := hl.le_lastKey
      rw [lastKey_cons, lastKey_cons, lastKey_cons]
      omega

/-- An option with a larger key goes to the end. -/
theorem insertByKey_of_lastKey_le {maxKey maxLen prev : ℕ} {o : ℕ × List UInt8}
    {l : List (ℕ × List UInt8)} (h : Ordered maxKey maxLen prev l) (hlast : lastKey prev l ≤ o.1) :
    OptionFormat.insertByKey o l = l ++ [o] := by
  induction l generalizing prev with
  | nil => rfl
  | cons x l ih =>
    obtain ⟨k, w⟩ := x
    obtain ⟨-, -, -, hl⟩ := h
    rw [lastKey_cons] at hlast
    have hk : k ≤ o.1 := hl.le_lastKey.trans hlast
    rw [OptionFormat.insertByKey, if_pos hk, ih hl hlast, List.cons_append]

/-- It makes no difference which of two options is put in its place first. -/
theorem orderedInsert_insertByKey (a o : ℕ × List UInt8) (l : List (ℕ × List UInt8)) :
    (insertByKey o l).orderedInsert (fun x y => x.1 ≤ y.1) a =
      insertByKey o (l.orderedInsert (fun x y => x.1 ≤ y.1) a) := by
  induction l with
  | nil => simp only [insertByKey, List.orderedInsert]
  | cons x l ih =>
    by_cases hax : a.1 ≤ x.1 <;> by_cases hxo : x.1 ≤ o.1
    · simp [insertByKey, hax, hxo, hax.trans hxo]
    · by_cases hao : a.1 ≤ o.1 <;> simp [insertByKey, hax, hxo, hao]
    · simp [insertByKey, hax, hxo, ih]
    · have hao : ¬a.1 ≤ o.1 := by omega
      simp [insertByKey, hax, hxo, hao]

/-- Inserting the options one by one sorts them by key and keeps the order of equal keys. -/
theorem foldl_insertByKey (opts : List (ℕ × List UInt8)) :
    opts.foldl (fun l o => insertByKey o l) [] = opts.insertionSort fun x y => x.1 ≤ y.1 := by
  have hsnoc (l : List (ℕ × List UInt8)) (o : ℕ × List UInt8) :
      (l ++ [o]).insertionSort (fun x y => x.1 ≤ y.1) =
        insertByKey o (l.insertionSort fun x y => x.1 ≤ y.1) := by
    induction l with
    | nil => rfl
    | cons a l ih =>
      rw [List.cons_append, List.insertionSort_cons, ih, orderedInsert_insertByKey,
        List.insertionSort_cons]
  induction opts using List.reverseRecOn with
  | nil => rfl
  | append_singleton opts o ih => rw [List.foldl_append, ih, hsnoc, List.foldl_cons, List.foldl_nil]

/-! ## The values of one option -/

/-- The values of the options with the key. -/
def values (key : ℕ) (l : List (ℕ × List UInt8)) : List (List UInt8) :=
  (l.filter fun o => o.1 = key).map Prod.snd

/-- The values of a key come in the order of the options. -/
theorem values_append (key : ℕ) (l r : List (ℕ × List UInt8)) :
    values key (l ++ r) = values key l ++ values key r := by
  rw [values, List.filter_append, List.map_append]
  rfl

/-- The first option has the key, or it does not count. -/
theorem values_cons (key : ℕ) (o : ℕ × List UInt8) (l : List (ℕ × List UInt8)) :
    values key (o :: l) = (if o.1 = key then [o.2] else []) ++ values key l := by
  rw [values, List.filter_cons]
  split_ifs with h h' h' <;> simp_all [values]

/-- Options with one key. -/
theorem values_map (key key' : ℕ) (l : List (List UInt8)) :
    values key (l.map fun v => (key', v)) = if key' = key then l else [] := by
  induction l with
  | nil => simp [values]
  | cons v l ih =>
    rw [List.map_cons, values_cons, ih]
    split_ifs <;> rfl

/-- No key is less than the one that the options begin with. -/
theorem Ordered.le_of_mem {maxKey maxLen prev : ℕ} {l : List (ℕ × List UInt8)}
    (h : Ordered maxKey maxLen prev l) {o : ℕ × List UInt8} (ho : o ∈ l) : prev ≤ o.1 := by
  induction l generalizing prev with
  | nil => cases ho
  | cons x l ih =>
    obtain ⟨k, v⟩ := x
    obtain ⟨hk, -, -, hl⟩ := h
    rcases List.mem_cons.1 ho with rfl | ho
    · exact hk
    · exact hk.trans (ih hl ho)

/-- A key that no option has has no values. -/
theorem values_eq_nil {key : ℕ} {l : List (ℕ × List UInt8)} (h : ∀ o ∈ l, o.1 ≠ key) :
    values key l = [] := by
  rw [values, List.map_eq_nil_iff, List.filter_eq_nil_iff]
  intro o ho
  simpa using h o ho

/-- An option that is put in its place comes after the others with its key. -/
theorem values_insertByKey {maxKey maxLen prev : ℕ} {l : List (ℕ × List UInt8)}
    (h : Ordered maxKey maxLen prev l) (key : ℕ) (o : ℕ × List UInt8) :
    values key (insertByKey o l) = values key l ++ if o.1 = key then [o.2] else [] := by
  -- induction on the list, up to the place of the new option
  induction l generalizing prev with
  | nil => rw [insertByKey, values_cons, values, List.filter_nil, List.map_nil, List.append_nil,
      List.nil_append]
  | cons x l ih =>
    obtain ⟨k, v⟩ := x
    obtain ⟨-, -, -, hl⟩ := h
    rw [insertByKey]
    by_cases hle : (k, v).1 ≤ o.1
    · rw [if_pos hle, values_cons, ih hl, values_cons, List.append_assoc]
    · rw [if_neg hle, values_cons]
      by_cases hkey : o.1 = key
      · -- no option with the key is left
        have hnone : values key ((k, v) :: l) = [] := by
          apply values_eq_nil
          intro y hy
          rcases List.mem_cons.1 hy with rfl | hy
          · omega
          · have hge := hl.le_of_mem hy
            simp only at hle
            omega
        rw [if_pos hkey, hnone]
        rfl
      · rw [if_neg hkey, List.nil_append, List.append_nil]

/-- The keys are sorted. -/
def Sorted (l : List (ℕ × List UInt8)) : Prop := l.Pairwise fun a b => a.1 ≤ b.1

/-- Keys that are summed up do not get smaller. -/
theorem withKeys_ge (prev : ℕ) (l : List (ℕ × List UInt8)) : ∀ o ∈ withKeys prev l, prev ≤ o.1 := by
  induction l generalizing prev with
  | nil => exact fun o ho => by cases ho
  | cons x l ih =>
    obtain ⟨d, v⟩ := x
    intro o ho
    rcases List.mem_cons.1 ho with rfl | ho
    · exact Nat.le_add_right _ _
    · have hle := ih (prev + d) o ho
      omega

/-- So they are sorted. -/
theorem sorted_withKeys (prev : ℕ) (l : List (ℕ × List UInt8)) : Sorted (withKeys prev l) := by
  induction l generalizing prev with
  | nil => exact List.Pairwise.nil
  | cons x l ih =>
    obtain ⟨d, v⟩ := x
    exact List.Pairwise.cons (fun o ho => withKeys_ge (prev + d) l o ho) (ih _)

/-- In a sorted list the options with a key are in one place. A search for it may stop early at a
larger key. -/
theorem values_eq_takeWhile {key stop : ℕ} {l : List (ℕ × List UInt8)} (h : Sorted l)
    (hstop : key < stop) :
    ((l.dropWhile fun o => decide (o.1 ≠ key ∧ o.1 ≠ stop)).takeWhile
      fun o => decide (o.1 = key)).map Prod.snd = values key l := by
  -- in a sorted list nothing behind a larger key has the key
  have hfront (l : List (ℕ × List UInt8)) (hl : Sorted l) (hge : ∀ o ∈ l, key ≤ o.1) :
      (l.takeWhile fun o => decide (o.1 = key)).map Prod.snd = values key l := by
    induction l with
    | nil => rfl
    | cons x l ih =>
      obtain ⟨hx, hl⟩ := List.pairwise_cons.1 hl
      rw [values_cons]
      by_cases heq : x.1 = key
      · rw [List.takeWhile_cons_of_pos (by simpa using heq), List.map_cons, if_pos heq,
          ih hl fun o ho => hge o (List.mem_cons_of_mem x ho), List.singleton_append]
      · have hnone : values key l = [] := by
          apply values_eq_nil
          intro o ho
          have hle := hx o ho
          have hkey := hge x List.mem_cons_self
          omega
        rw [List.takeWhile_cons_of_neg (by simpa using heq), List.map_nil, if_neg heq, hnone,
          List.append_nil]
  -- induction on the list, to the first option with the key
  induction l with
  | nil => rfl
  | cons x l ih =>
    obtain ⟨hx, hl⟩ := List.pairwise_cons.1 h
    by_cases hless : x.1 < key
    · have hskip : x.1 ≠ key ∧ x.1 ≠ stop := by omega
      rw [List.dropWhile_cons_of_pos (by simpa using hskip), ih hl, values_cons, if_neg hskip.1,
        List.nil_append]
    · have hge : ∀ o ∈ x :: l, key ≤ o.1 := by
        intro o ho
        rcases List.mem_cons.1 ho with rfl | ho
        · omega
        · have hle := hx o ho
          omega
      by_cases heq : x.1 = key
      · rw [List.dropWhile_cons_of_neg (by simp [heq])]
        exact hfront _ h hge
      · -- all keys are larger
        have hlarge : ∀ o ∈ x :: l, o.1 ≠ key := by
          intro o ho
          rcases List.mem_cons.1 ho with rfl | ho
          · exact heq
          · have hle := hx o ho
            omega
        have hrest := (List.dropWhile_suffix (l := x :: l) fun o =>
          decide (o.1 ≠ key ∧ o.1 ≠ stop)).subset
        rw [values_eq_nil hlarge, List.map_eq_nil_iff]
        cases hcases : (x :: l).dropWhile fun o => decide (o.1 ≠ key ∧ o.1 ≠ stop) with
        | nil => rfl
        | cons y rest =>
          rw [hcases] at hrest
          rw [List.takeWhile_cons_of_neg (by simpa using hlarge y (hrest List.mem_cons_self))]

/-! ## Reading back what was written -/

/-- The header byte of an option carries both nibbles. -/
theorem toNat_header (delta n : ℕ) :
    (UInt8.ofNat (nibble delta * 16 + nibble n)).toNat = nibble delta * 16 + nibble n := by
  have hd := nibble_lt delta
  have hn := nibble_lt n
  rw [UInt8.toNat_ofNat']
  omega

/-- The upper half of the header is the nibble of the delta. -/
theorem nibble_header_div (delta n : ℕ) :
    (UInt8.ofNat (nibble delta * 16 + nibble n)).toNat / 16 = nibble delta := by
  have hn := nibble_lt n
  rw [toNat_header]
  omega

/-- The lower half is that of the length. -/
theorem nibble_header_mod (delta n : ℕ) :
    (UInt8.ofNat (nibble delta * 16 + nibble n)).toNat % 16 = nibble n := by
  have hn := nibble_lt n
  rw [toNat_header]
  omega

/-- One written option in front of a split area is in the grammar. -/
theorem splits_optionBytes {len : ℕ → ℕ} {delta : ℕ} {value rest : List UInt8}
    {opts : List (ℕ × List UInt8)} {payload : Option (List UInt8)}
    (hdelta : delta ≤ 65804) (hvalue : value.length ≤ 65804) (hlen : len value.length = value.length)
    (hrest : Splits len rest opts payload) :
    Splits len (optionBytes delta value ++ rest) ((delta, value) :: opts) payload := by
  have hmk := @Splits.option len (UInt8.ofNat (nibble delta * 16 + nibble value.length))
    (extension delta) (extension value.length) value rest opts payload
    (by rw [nibble_header_div]; exact (nibble_lt delta).ne)
    (by rw [nibble_header_mod]; exact (nibble_lt value.length).ne)
    (by rw [nibble_header_div, length_extension])
    (by rw [nibble_header_mod, length_extension])
    (by rw [nibble_header_mod, fieldValue_nibble hvalue, hlen])
    hrest
  rw [nibble_header_div, fieldValue_nibble hdelta] at hmk
  simpa [optionBytes] using hmk

/-- What `encode` writes splits into the same options, whatever ends the area. -/
theorem splits_encode {len : ℕ → ℕ} {maxKey maxLen prev : ℕ} {opts : List (ℕ × List UInt8)}
    {rest : List UInt8} {payload : Option (List UInt8)} (h : Ordered maxKey maxLen prev opts)
    (hkey : maxKey ≤ 65804) (hlen : maxLen ≤ 65804) (hagree : ∀ n, n ≤ maxLen → len n = n)
    (hrest : Splits len rest [] payload) :
    Splits len (encode prev opts ++ rest) (deltas prev opts) payload := by
  induction opts generalizing prev with
  | nil => simpa [encode, deltas] using hrest
  | cons o opts ih =>
    obtain ⟨k, v⟩ := o
    obtain ⟨-, hk, hv, hopts⟩ := h
    rw [encode, deltas, List.append_assoc]
    exact splits_optionBytes (by omega) (by omega) (hagree _ hv) (ih hopts)

/-- Bytes are taken apart in one way only. -/
theorem Splits.unique {len : ℕ → ℕ} {bytes : List UInt8} {opts opts' : List (ℕ × List UInt8)}
    {payload payload' : Option (List UInt8)} (h : Splits len bytes opts payload)
    (h' : Splits len bytes opts' payload') : opts = opts' ∧ payload = payload' := by
  induction h generalizing opts' payload' with
  | nil =>
    cases h' with
    | nil => exact ⟨rfl, rfl⟩
  | marker payload =>
    cases h' with
    | marker => exact ⟨rfl, rfl⟩
    | option _ _ _ _ _ _ _ hdelta => exact absurd (by decide) hdelta
  | option h dext lext value rest opts payload hdelta hlength hdext hlext hvalue hrest ih =>
    generalize hbytes : h :: (dext ++ lext ++ value ++ rest) = bytes at h'
    cases h' with
    | nil => cases hbytes
    | marker =>
      obtain ⟨rfl, -⟩ := List.cons.inj hbytes
      exact absurd (by decide) hdelta
    | option h' dext' lext' value' rest' opts' payload' hdelta' hlength' hdext' hlext' hvalue'
        hrest' =>
      -- the pieces have the same lengths
      obtain ⟨rfl, htail⟩ := List.cons.inj hbytes
      simp only [List.append_assoc] at htail
      obtain ⟨hd, hltail⟩ := List.append_inj htail (hdext.trans hdext'.symm)
      obtain ⟨hl, hvtail⟩ := List.append_inj hltail (hlext.trans hlext'.symm)
      subst hd hl
      obtain ⟨rfl, rfl⟩ := List.append_inj hvtail (hvalue.trans hvalue'.symm)
      obtain ⟨rfl, rfl⟩ := ih hrest'
      exact ⟨rfl, rfl⟩

/-- The encoded options tell what the options are. -/
theorem encode_inj {maxKey maxLen prev : ℕ} {opts opts' : List (ℕ × List UInt8)}
    (h : Ordered maxKey maxLen prev opts) (h' : Ordered maxKey maxLen prev opts')
    (hkey : maxKey ≤ 65804) (hlen : maxLen ≤ 65804) (heq : encode prev opts = encode prev opts') :
    opts = opts' := by
  have hs : Splits id (encode prev opts ++ []) (deltas prev opts) none :=
    splits_encode h hkey hlen (fun n _ => rfl) Splits.nil
  have hs' : Splits id (encode prev opts' ++ []) (deltas prev opts') none :=
    splits_encode h' hkey hlen (fun n _ => rfl) Splits.nil
  rw [heq] at hs
  rw [← withKeys_deltas h, (hs.unique hs').1, withKeys_deltas h']

/-- A header byte is made of its nibbles. -/
theorem ofNat_nibbles (h : UInt8) : UInt8.ofNat (h.toNat / 16 * 16 + h.toNat % 16) = h := by
  rw [Nat.div_add_mod', UInt8.ofNat_toNat]

/-- Options that are read with their lengths as they stand were written by `encode`. -/
theorem encode_withKeys {bytes : List UInt8} {opts : List (ℕ × List UInt8)}
    {payload : Option (List UInt8)} (hs : Splits id bytes opts payload) (hend : payload = none)
    (prev : ℕ) : encode prev (withKeys prev opts) = bytes := by
  induction hs generalizing prev with
  | nil => rfl
  | marker payload => cases hend
  | option h dext lext value rest opts payload hdelta hlength hdext hlext hvalue hrest ih =>
    have hh := h.toNat_lt
    obtain ⟨hd, hdx⟩ := nibble_fieldValue (by omega : h.toNat / 16 < 15) hdext
    obtain ⟨hl, hlx⟩ := nibble_fieldValue (by omega : h.toNat % 16 < 15) hlext
    have hlen : value.length = fieldValue (h.toNat % 16) lext := hvalue
    rw [withKeys, encode, ih hend, Nat.add_sub_cancel_left, optionBytes, hlen, hd, hl, hdx, hlx,
      ofNat_nibbles, List.cons_append]

end OptionFormat
