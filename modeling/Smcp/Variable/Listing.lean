import Smcp.Variable.Basic

/-!
# Listing the keys of a variable node

The loop of `smcp_variable_node_request_handler` that writes the keys of a node where the content
of the answer is.

* `Listing.Inside`: a number of bytes is left, and nothing was written behind the end;
* `Inside.put`, `Inside.encode`, `Inside.quote`, `Inside.append` and `Inside.copy`: one call;
* `listKeys_inside`: the loop keeps the invariant;
* `listContent_behind`: what is in front of the content stays;
* `listContent_inside`: what was written, the sizes on the way, and the length of the content.
-/

namespace Smcp

open ByteMemory

/-! ## The encoders -/

section
variable (src : List UInt8) (size : ℕ)

/-- `url_encode_cstr` stays inside the size it is given, with what it stores and what it returns. -/
theorem urlEncodeCstr_inside :
    (urlEncodeCstr src size).stored.length ≤ size ∧ (urlEncodeCstr src size).ret ≤ size := by
  unfold urlEncodeCstr
  by_cases hsize : size = 0
  · rw [if_pos hsize]
    exact ⟨Nat.zero_le _, Nat.zero_le _⟩
  · rw [if_neg hsize]
    obtain ⟨hstored, hret, -⟩ := urlEncodeLoop_stored (size - 1) src
    constructor
    · omega
    · omega

theorem length_quotedLoop_le (room : ℕ) : (quotedLoop room src).length ≤ room := by
  fun_induction quotedLoop room src with
  | case1 => exact Nat.le_refl _
  | case2 => exact Nat.zero_le _
  | case3 => exact Nat.zero_le _
  | case4 room c hc ih =>
    rw [List.length_cons]
    omega
  | case5 => exact Nat.zero_le _
  | case6 room c next src hc hslash ih =>
    rw [List.length_cons]
    omega
  | case7 room c next src hc hslash ih =>
    rw [List.length_cons]
    omega

/-- `quoted_cstr` stores its terminator behind what it returns, inside the size it is given or in
one byte. -/
theorem quotedCstr_inside :
    (quotedCstr src size).stored.length ≤ max 1 size ∧ (quotedCstr src size).ret + 1 ≤ max 1 size := by
  unfold quotedCstr
  by_cases hone : size ≤ 1
  · rw [if_pos hone]
    exact ⟨Nat.le_max_left _ _, Nat.le_max_left _ _⟩
  · rw [if_neg hone]
    by_cases htwo : size = 2
    · rw [if_pos htwo, htwo]
      exact ⟨Nat.le_refl _, Nat.le_refl _⟩
    · rw [if_neg htwo]
      have hloop := length_quotedLoop_le src (size - 3)
      simp only [Filled.after_stored, Filled.after_ret, List.length_append, List.length_cons,
        List.length_nil]
      constructor
      · omega
      · omega

/-- `stpncpy` stores as many bytes as it is told to, and steps over no more. -/
theorem stpncpy_inside : (stpncpy src size).stored.length ≤ size ∧ (stpncpy src size).ret ≤ size := by
  constructor
  · show (src.take size ++ List.replicate (size - src.length) 0).length ≤ size
    rw [List.length_append, List.length_take, List.length_replicate]
    omega
  · exact Nat.min_le_left _ _

end

/-- A size that is not negative does not become larger. -/
theorem sizeT_le {n : ℤ} (h : 0 ≤ n) : (sizeT n : ℤ) ≤ n := by
  unfold sizeT
  omega

namespace Listing

/-! ## The invariant -/

/-- The pointer has not moved back from `first`, there are `k` bytes left in front of the end,
nothing was stored at the end or behind it, and no size was negative. -/
structure Inside (first contentEndPtr k : ℕ) (l : Listing) : Prop where
  first_le : first ≤ l.contentPtr
  room : l.contentPtr + k ≤ contentEndPtr
  top : l.out.top ≤ contentEndPtr
  sizes : ∀ size ∈ l.sizes, 0 ≤ size

section
variable {first contentEndPtr k : ℕ} {l : Listing}

theorem Inside.mono {j : ℕ} (h : l.Inside first contentEndPtr k) (hle : j ≤ k) :
    l.Inside first contentEndPtr j :=
  ⟨h.first_le, (Nat.add_le_add_left hle _).trans h.room, h.top, h.sizes⟩

/-- The room that a test of the loop has found. -/
theorem Inside.of_test (h : l.Inside first contentEndPtr k) {n : ℕ}
    (htest : ¬l.contentPtr + n ≥ contentEndPtr) : l.Inside first contentEndPtr (n + 1) := by
  refine ⟨h.first_le, ?_, h.top, h.sizes⟩
  omega

/-- One byte. -/
theorem Inside.put (h : l.Inside first contentEndPtr (k + 1)) (c : UInt8) :
    (l.put c).Inside first contentEndPtr k := by
  have hroom := h.room
  refine ⟨h.first_le.trans (Nat.le_succ _), ?_, ?_, h.sizes⟩
  · show l.contentPtr + 1 + k ≤ contentEndPtr
    omega
  · show max l.out.top (l.contentPtr + 1) ≤ contentEndPtr
    have htop := h.top
    omega

/-- A call that stores in front of the end, and returns so much that `j` bytes are left. -/
theorem Inside.fill {j : ℕ} (h : l.Inside first contentEndPtr k) {f : Filled}
    (hstored : l.contentPtr + f.stored.length ≤ contentEndPtr)
    (hret : l.contentPtr + f.ret + j ≤ contentEndPtr) : (l.fill f).Inside first contentEndPtr j :=
  ⟨h.first_le.trans (Nat.le_add_right _ _), hret, Buffer.top_copy_le h.top hstored, h.sizes⟩

/-- The space that is left is passed on. -/
theorem Inside.note (h : l.Inside first contentEndPtr k) {n : ℤ} (hn : 0 ≤ n) :
    ({ l with sizes := n :: l.sizes } : Listing).Inside first contentEndPtr k :=
  ⟨h.first_le, h.room, h.top, List.forall_mem_cons.2 ⟨hn, h.sizes⟩⟩

/-- With a byte left, the size is not negative. -/
theorem Inside.left_nonneg (h : l.Inside first contentEndPtr (k + 1)) :
    (k : ℤ) ≤ l.left contentEndPtr ∧ l.contentPtr + sizeT (l.left contentEndPtr) < contentEndPtr := by
  have hroom := h.room
  have hleft : (k : ℤ) ≤ l.left contentEndPtr := by
    unfold left
    omega
  have hsize := sizeT_le ((Int.natCast_nonneg k).trans hleft)
  unfold left at hsize ⊢
  constructor
  · omega
  · omega

/-- `url_encode_cstr` leaves a byte. -/
theorem Inside.encode (h : l.Inside first contentEndPtr 1) (src : List UInt8) :
    (l.encode contentEndPtr src).Inside first contentEndPtr 1 := by
  obtain ⟨hleft, hsize⟩ := h.left_nonneg
  obtain ⟨hstored, hret⟩ := urlEncodeCstr_inside src (sizeT (l.left contentEndPtr))
  have hfill : (l.fill (urlEncodeCstr src (sizeT (l.left contentEndPtr)))).Inside first contentEndPtr 1 := by
    apply h.fill
    · omega
    · omega
  exact hfill.note hleft

/-- `quoted_cstr` leaves two bytes. -/
theorem Inside.quote (h : l.Inside first contentEndPtr 2) (src : List UInt8) :
    (l.quote contentEndPtr src).Inside first contentEndPtr 2 := by
  have hroom := h.room
  obtain ⟨hleft, hsize⟩ := h.left_nonneg
  obtain ⟨hstored, hret⟩ := quotedCstr_inside src (sizeT (l.left contentEndPtr))
  have hfill : (l.fill (quotedCstr src (sizeT (l.left contentEndPtr)))).Inside first contentEndPtr 2 := by
    apply h.fill
    · omega
    · omega
  exact hfill.note ((Int.natCast_nonneg 1).trans hleft)

/-- `stpncpy` leaves a byte. -/
theorem Inside.append (h : l.Inside first contentEndPtr 1) (src : List UInt8) :
    (l.append contentEndPtr src).Inside first contentEndPtr 1 := by
  obtain ⟨hleft, -⟩ := h.left_nonneg
  have hmin : 0 ≤ min (src.length : ℤ) (l.left contentEndPtr) := by omega
  have hsize := sizeT_le hmin
  obtain ⟨hstored, hret⟩ :=
    stpncpy_inside src (sizeT (min (src.length : ℤ) (l.left contentEndPtr)))
  unfold left at hleft hsize
  apply h.fill
  · unfold left at hstored ⊢
    omega
  · unfold left at hret ⊢
    omega

/-- `strcpy` needs room for the terminator too. -/
theorem Inside.copy {src : List UInt8} (h : l.Inside first contentEndPtr (src.length + (k + 1))) :
    (l.copy src).Inside first contentEndPtr (k + 1) := by
  have hroom := h.room
  apply h.fill
  · rw [Filled.after_stored, List.length_append, List.length_singleton]
    omega
  · show l.contentPtr + (src.length + 0) + (k + 1) ≤ contentEndPtr
    omega

/-! ## An entry -/

/-- The link takes three bytes, and what it can get beyond that. -/
theorem Inside.link (h : l.Inside first contentEndPtr 3) (needsPrefix : Bool) (key : List UInt8) :
    (l.link contentEndPtr needsPrefix key).Inside first contentEndPtr 0 := by
  have hopen : (l.put (ascii '<')).Inside first contentEndPtr 2 := h.put _
  unfold Listing.link
  dsimp only
  by_cases hprefix : needsPrefix = true
  · rw [if_pos hprefix]
    have hslash := ((hopen.mono (Nat.le_succ 1)).encode []).append (asciiBytes "/")
    exact (hslash.encode key).put _
  · rw [if_neg hprefix]
    exact ((hopen.mono (Nat.le_succ 1)).encode key).put _

/-- An attribute leaves two bytes, if there was room for its name and two more. -/
theorem Inside.addAttribute (name : String) (h : l.Inside first contentEndPtr k)
    (hname : (asciiBytes name).length + 2 ≤ k) (reply : VarReply) :
    (l.addAttribute contentEndPtr name reply).Inside first contentEndPtr 2 := by
  unfold Listing.addAttribute
  by_cases hstatus : reply.status = 0
  · rw [if_pos hstatus]
    exact (h.mono hname).copy.quote _
  · rw [if_neg hstatus]
    exact h.mono ((Nat.le_add_left 2 _).trans hname)

end

end Listing

/-! ## The loop -/

section
variable {first contentEndPtr : ℕ}

/-- One entry after another, as long as there is room. -/
theorem listKeys_inside (node : VariableNode) (needsPrefix : Bool) (fuel keyIndex : ℕ)
    (calls : List VarCall) {l : Listing} (h : l.Inside first contentEndPtr 0) :
    (listKeys node contentEndPtr needsPrefix fuel keyIndex calls l).2.Inside first contentEndPtr 0 := by
  -- induction on the fuel: an entry is written, and the next key asked for
  induction fuel generalizing keyIndex calls l with
  | zero => exact h
  | succ fuel ih =>
    rw [listKeys]
    dsimp only
    generalize node.func calls ⟨.getKey, keyIndex, []⟩ = key
    -- no key any more, or no room for two bytes
    by_cases hfull : key.status ≠ 0 ∨ l.contentPtr + 2 ≥ contentEndPtr
    · rw [if_pos hfull]
      exact h
    · rw [if_neg hfull]
      have hlink := (h.of_test fun hge => hfull (.inr hge)).link needsPrefix key.value.str.bytes
      generalize l.link contentEndPtr needsPrefix key.value.str.bytes = linked at hlink ⊢
      by_cases hvalue : linked.contentPtr + 4 ≥ contentEndPtr
      · rw [if_pos hvalue]
        exact hlink
      · rw [if_neg hvalue]
        generalize node.func _ ⟨.getValue, keyIndex, []⟩ = value
        have hvalued := (hlink.of_test hvalue).addAttribute ";v=" (by decide) value
        generalize linked.addAttribute contentEndPtr ";v=" value = valued at hvalued ⊢
        by_cases htitle : valued.contentPtr + 8 ≥ contentEndPtr
        · rw [if_pos htitle]
          exact hvalued.mono (Nat.zero_le 2)
        · rw [if_neg htitle]
          generalize node.func _ ⟨.getLfTitle, keyIndex, []⟩ = title
          have htitled := (hvalued.of_test htitle).addAttribute ";title=" (by decide) title
          generalize valued.addAttribute contentEndPtr ";title=" title = titled at htitled ⊢
          have hone := htitled.mono (Nat.le_succ 1)
          generalize node.func _ ⟨.getObservable, keyIndex, []⟩ = observable
          apply ih
          by_cases hobservable : observable.status = 0
          · rw [if_pos hobservable]
            exact (hone.append _).put _
          · rw [if_neg hobservable]
            exact hone.put _

end

/-! ## In front of the content -/

/-- The pointer has not moved back from `first`, and in front of that nothing was written. -/
structure Listing.Behind (first : ℕ) (memory : ℕ → UInt8) (l : Listing) : Prop where
  first_le : first ≤ l.contentPtr
  byte_eq : ∀ j, j < first → l.out.byte j = memory j

namespace Listing

section
variable {first contentEndPtr : ℕ} {memory : ℕ → UInt8} {l : Listing}

theorem Behind.put (h : l.Behind first memory) (c : UInt8) : (l.put c).Behind first memory := by
  have hfirst := h.first_le
  refine ⟨hfirst.trans (Nat.le_succ _), ?_⟩
  intro j hj
  rw [← h.byte_eq j hj]
  exact Buffer.store_of_ne _ _ (by omega)

/-- Whatever is stored at the pointer. -/
theorem Behind.fill (h : l.Behind first memory) (f : Filled) : (l.fill f).Behind first memory := by
  have hfirst := h.first_le
  refine ⟨hfirst.trans (Nat.le_add_right _ _), ?_⟩
  intro j hj
  rw [← h.byte_eq j hj]
  exact Buffer.copy_of_outside _ _ (Or.inl (by omega))

theorem Behind.encode (h : l.Behind first memory) (src : List UInt8) :
    (l.encode contentEndPtr src).Behind first memory :=
  ⟨(h.fill _).first_le, (h.fill _).byte_eq⟩

theorem Behind.link (h : l.Behind first memory) (needsPrefix : Bool) (key : List UInt8) :
    (l.link contentEndPtr needsPrefix key).Behind first memory := by
  have hopen := h.put (ascii '<')
  unfold Listing.link
  dsimp only
  by_cases hprefix : needsPrefix = true
  · rw [if_pos hprefix]
    exact (((hopen.encode []).fill _).encode key).put _
  · rw [if_neg hprefix]
    exact (hopen.encode key).put _

theorem Behind.addAttribute (h : l.Behind first memory) (name : String) (reply : VarReply) :
    (l.addAttribute contentEndPtr name reply).Behind first memory := by
  unfold Listing.addAttribute
  by_cases hstatus : reply.status = 0
  · rw [if_pos hstatus]
    exact ⟨((h.fill _).fill _).first_le, ((h.fill _).fill _).byte_eq⟩
  · rw [if_neg hstatus]
    exact h

end

end Listing

/-- The loop writes nothing in front of the content. -/
theorem listKeys_behind {first contentEndPtr : ℕ} {memory : ℕ → UInt8} (node : VariableNode)
    (needsPrefix : Bool) (fuel keyIndex : ℕ) (calls : List VarCall) {l : Listing}
    (h : l.Behind first memory) :
    (listKeys node contentEndPtr needsPrefix fuel keyIndex calls l).2.Behind first memory := by
  induction fuel generalizing keyIndex calls l with
  | zero => exact h
  | succ fuel ih =>
    rw [listKeys]
    dsimp only
    have hlink : (l.link contentEndPtr needsPrefix
        (node.func calls ⟨.getKey, keyIndex, []⟩).value.str.bytes).Behind first memory :=
      h.link needsPrefix _
    split_ifs
    · exact h
    · exact hlink
    · exact hlink.addAttribute _ _
    · exact ih _ _ ((((hlink.addAttribute _ _).addAttribute _ _).fill _).put _)
    · exact ih _ _ (((hlink.addAttribute _ _).addAttribute _ _).put _)

theorem listContent_behind (node : VariableNode) (needsPrefix : Bool) (calls : List VarCall)
    (o : Outbound) : ∀ j, j < o.contentPtr →
      (listContent node needsPrefix calls o).2.1.out.byte j = o.packetBytes.byte j := by
  have hstart : o.listing.Behind o.contentPtr o.packetBytes.byte := ⟨Nat.le_refl _, fun _ _ => rfl⟩
  exact (listKeys_behind node needsPrefix badKeyIndex 0 calls hstart).byte_eq

/-! ## Up to the end of the content -/

/-- The listing stays in front of the end of the content. -/
theorem listContent_inside (node : VariableNode) (needsPrefix : Bool) (calls : List VarCall)
    (o : Outbound) :
    (listContent node needsPrefix calls o).2.1.out.top ≤ o.contentPtr + o.maxContentLen ∧
      (∀ size ∈ (listContent node needsPrefix calls o).2.1.sizes, 0 ≤ size) ∧
      0 ≤ (listContent node needsPrefix calls o).2.2 ∧
      (listContent node needsPrefix calls o).2.2 ≤ o.maxContentLen := by
  have hstart : o.listing.Inside o.contentPtr (o.contentPtr + o.maxContentLen) 0 := by
    refine ⟨Nat.le_refl _, Nat.le_add_right _ _, Nat.le_add_right _ _, ?_⟩
    intro size hsize
    exact absurd hsize List.not_mem_nil
  have hlisted := listKeys_inside node needsPrefix badKeyIndex 0 calls hstart
  have hfirst := hlisted.first_le
  have hroom := hlisted.room
  unfold listContent
  dsimp only
  refine ⟨hlisted.top, hlisted.sizes, ?_, ?_⟩
  · omega
  · omega

end Smcp
