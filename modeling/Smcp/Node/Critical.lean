import Smcp.Inbound.Duplicate
import Smcp.Inbound.Path
import Smcp.Node.Handle

/-!
# Critical options that nobody knows

A request with such an option, sent through the router to a list handler or a variable node.

* `nodeRouteLoop_passes` and `nodeRouteLoop_bails`: the options in front of the path;
* `scanListOptions_status` and `scanVarOptions_status`: the options behind it;
* `handleList_refuses` and `variableHandler_refuses`: when a handler gets to its options;
* `criticalOption_rejected_iff`: when the answer is 4.02.
-/

namespace Smcp

open ByteMemory OptionFormat CStr

/-! ## The router -/

/-- The options in front of the path that the router lets pass. -/
def routerPasses (key : ℕ) : Bool :=
  !coapOptionIsCritical key || key == coapOptionUriHost || key == coapOptionUriPort

/-- A option behind the path, in front of the end that the iterator sees. -/
def BehindPath (opts : List (ℕ × List UInt8)) : Prop :=
  ∃ o ∈ opts, coapOptionUriPath < o.1 ∧ o.1 < coapOptionInvalid

section
variable {opts : List (ℕ × List UInt8)} {k : ℕ} {v : List UInt8}

/-- The first option has no larger number. -/
theorem BehindPath.head_lt (h : BehindPath ((k, v) :: opts))
    (hsorted : ((k, v) :: opts).Pairwise fun a b => a.1 ≤ b.1) : k < coapOptionInvalid := by
  obtain ⟨o, ho, -, hlt⟩ := h
  rcases List.mem_cons.1 ho with rfl | hmem
  · exact hlt
  · exact ((List.pairwise_cons.1 hsorted).1 o hmem).trans_lt hlt

/-- Behind one more part of the path it is the same. -/
theorem BehindPath.tail (h : BehindPath ((k, v) :: opts)) (hk : k ≤ coapOptionUriPath) :
    BehindPath opts := by
  obtain ⟨o, ho, hgt, hlt⟩ := h
  rcases List.mem_cons.1 ho with rfl | hmem
  · exact absurd hk (Nat.not_le_of_lt hgt)
  · exact ⟨o, hmem, hgt, hlt⟩

/-- The router lets pass what it knows, and all that is elective. -/
theorem routerPasses_iff (key : ℕ) : routerPasses key = true ↔
    coapOptionIsCritical key = false ∨ key = coapOptionUriHost ∨ key = coapOptionUriPort := by
  unfold routerPasses
  rw [Bool.or_eq_true, Bool.or_eq_true, Bool.not_eq_true', beq_iff_eq, beq_iff_eq, or_assoc]

/-- The options that the router skips. -/
theorem routerSkips_iff {key : ℕ} (hkey : key < coapOptionUriPath) :
    ((key = coapOptionUriHost ∨ key = coapOptionUriPort ∨ key = coapOptionProxyUri ∨
        key = coapOptionContentType) ∨ coapOptionIsCritical key = false) ↔
      routerPasses key = true := by
  rw [routerPasses_iff]
  have hproxy : key ≠ coapOptionProxyUri := Nat.ne_of_lt (hkey.trans (by decide))
  have htype : key ≠ coapOptionContentType := Nat.ne_of_lt (hkey.trans (by decide))
  constructor
  · intro h
    rcases h with (hhost | hport | hpr | hct) | hnot
    · exact .inr (.inl hhost)
    · exact .inr (.inr hport)
    · exact absurd hpr hproxy
    · exact absurd hct htype
    · exact .inl hnot
  · intro h
    rcases h with hnot | hhost | hport
    · exact .inr hnot
    · exact .inl (.inl hhost)
    · exact .inl (.inr (.inl hport))

end

section
variable {i : Inbound} {opts : List (ℕ × List UInt8)} {payload : Option (List UInt8)}

/-- Up to the path there is nothing that the router does not let pass: a node is selected, and the
options behind the segments that lead to it are still ahead. -/
theorem nodeRouteLoop_passes (text : ℕ → CStr) (s : NodeStore) (packetAddr : ℕ) {fuel : ℕ}
    (node : ℕ) (h : i.Ahead opts payload)
    (hsorted : opts.Pairwise fun a b => a.1 ≤ b.1) (hbehind : BehindPath opts)
    (hpasses : ∀ o ∈ opts, o.1 < coapOptionUriPath → routerPasses o.1 = true)
    (hfuel : opts.length < fuel) :
    ∃ before rest node',
      (nodeRouteLoop text s packetAddr fuel node i.thisOption i.lastOptionKey i).2 = some node' ∧
      (nodeRouteLoop text s packetAddr fuel node i.thisOption i.lastOptionKey i).1.Ahead rest
        payload ∧
      opts = before ++ rest ∧ (∀ o ∈ before, o.1 ≤ coapOptionUriPath) ∧
      ∀ o ∈ rest, coapOptionUriPath ≤ o.1 := by
  induction opts generalizing i node fuel with
  | nil =>
    obtain ⟨o, ho, -⟩ := hbehind
    exact absurd ho List.not_mem_nil
  | cons o opts ih =>
    obtain ⟨k, v⟩ := o
    rw [List.length_cons] at hfuel
    obtain ⟨fuel, rfl⟩ : ∃ n, fuel = n + 1 := ⟨fuel - 1, by omega⟩
    obtain ⟨hkey, -, hrest⟩ := h.nextOption_cons
    have hback := h.restore i.sameMessage_nextOption
    have hk := hbehind.head_lt hsorted
    obtain ⟨hfirst, hsorted'⟩ := List.pairwise_cons.1 hsorted
    -- the loop stops in front of this option
    have hstop (hge : coapOptionUriPath ≤ k) : ∃ before rest node',
        some node = some node' ∧
        ({ i.nextOption.inbound with
          thisOption := i.thisOption
          lastOptionKey := i.lastOptionKey } : Inbound).Ahead rest payload ∧
        (k, v) :: opts = before ++ rest ∧ (∀ o ∈ before, o.1 ≤ coapOptionUriPath) ∧
        ∀ o ∈ rest, coapOptionUriPath ≤ o.1 := by
      refine ⟨[], (k, v) :: opts, node, rfl, hback, rfl, ?_, ?_⟩
      · exact fun o ho => absurd ho List.not_mem_nil
      · intro o ho
        rcases List.mem_cons.1 ho with rfl | hmem
        · exact hge
        · exact hge.trans (hfirst o hmem)
    -- the loop goes on behind it
    have hgoesOn (node : ℕ) (hle : k ≤ coapOptionUriPath) : ∃ before rest node',
        (nodeRouteLoop text s packetAddr fuel node i.nextOption.inbound.thisOption
          i.nextOption.inbound.lastOptionKey i.nextOption.inbound).2 = some node' ∧
        (nodeRouteLoop text s packetAddr fuel node i.nextOption.inbound.thisOption
          i.nextOption.inbound.lastOptionKey i.nextOption.inbound).1.Ahead rest payload ∧
        (k, v) :: opts = before ++ rest ∧ (∀ o ∈ before, o.1 ≤ coapOptionUriPath) ∧
        ∀ o ∈ rest, coapOptionUriPath ≤ o.1 := by
      obtain ⟨before, rest, node', hnode, hahead, hopts, hbefore, hge⟩ := ih node hrest hsorted'
        (hbehind.tail hle) (fun o ho => hpasses o (List.mem_cons_of_mem _ ho))
        (by omega : opts.length < fuel)
      refine ⟨(k, v) :: before, rest, node', hnode, hahead, ?_, ?_, hge⟩
      · rw [hopts, List.cons_append]
      · intro o ho
        rcases List.mem_cons.1 ho with rfl | hmem
        · exact hle
        · exact hbefore o hmem
    rw [nodeRouteLoop]
    dsimp only
    rw [hkey, if_neg (Nat.ne_of_lt hk)]
    by_cases hgt : k > coapOptionUriPath
    · rw [if_pos hgt]
      exact hstop (Nat.le_of_lt hgt)
    · rw [if_neg hgt]
      by_cases hpath : k = coapOptionUriPath
      · rw [if_pos hpath]
        cases smcpNodeFind text s node (some (packetAddr + (i.nextOption.value.getD (0, 0)).1))
            (i.nextOption.value.getD (0, 0)).2 with
        | none => exact hstop (Nat.le_of_eq hpath.symm)
        | some next => exact hgoesOn next (Nat.le_of_eq hpath)
      · have hlt : k < coapOptionUriPath := by omega
        rw [if_neg hpath, if_pos ((routerSkips_iff hlt).2 (hpasses (k, v) List.mem_cons_self hlt))]
        exact hgoesOn node (Nat.le_of_lt hlt)

/-- Something in front of the path that the router does not let pass. -/
theorem nodeRouteLoop_bails (text : ℕ → CStr) (s : NodeStore) (packetAddr : ℕ) {fuel : ℕ}
    (node : ℕ) (prev : Option ℕ) (prevKey : ℕ)
    (h : i.Ahead opts payload) (hsorted : opts.Pairwise fun a b => a.1 ≤ b.1)
    (hbad : ∃ o ∈ opts, o.1 < coapOptionUriPath ∧ routerPasses o.1 = false)
    (hfuel : opts.length < fuel) :
    (nodeRouteLoop text s packetAddr fuel node prev prevKey i).2 = none := by
  -- induction on the options that the router reads
  induction opts generalizing i prev prevKey fuel with
  | nil =>
    obtain ⟨o, ho, -⟩ := hbad
    exact absurd ho List.not_mem_nil
  | cons o opts ih =>
    obtain ⟨k, v⟩ := o
    rw [List.length_cons] at hfuel
    obtain ⟨fuel, rfl⟩ : ∃ n, fuel = n + 1 := ⟨fuel - 1, by omega⟩
    obtain ⟨hkey, -, hrest⟩ := h.nextOption_cons
    obtain ⟨hfirst, hsorted'⟩ := List.pairwise_cons.1 hsorted
    obtain ⟨o, ho, hlt, hstops⟩ := hbad
    have hk : k < coapOptionUriPath := by
      rcases List.mem_cons.1 ho with rfl | hmem
      · exact hlt
      · exact (hfirst o hmem).trans_lt hlt
    rw [nodeRouteLoop]
    dsimp only
    rw [hkey, if_neg (Nat.ne_of_lt (hk.trans (by decide))), if_neg (Nat.not_lt_of_lt hk),
      if_neg (Nat.ne_of_lt hk)]
    cases hpasses : routerPasses k with
    | false =>
      rw [if_neg]
      intro hskips
      rw [routerSkips_iff hk, hpasses] at hskips
      exact absurd hskips (by decide)
    | true =>
      rw [if_pos ((routerSkips_iff hk).2 hpasses)]
      apply ih _ _ hrest hsorted' _ (by omega : opts.length < fuel)
      rcases List.mem_cons.1 ho with rfl | hmem
      · rw [hpasses] at hstops
        exact absurd hstops (by decide)
      · exact ⟨o, hmem, hlt, hstops⟩

end

/-! ## The options behind the path -/

/-- The segments `left` of the path are ahead, then the options `opts`, all behind the path. -/
structure AtPath (i : Inbound) (left : List (List UInt8)) (opts : List (ℕ × List UInt8))
    (payload : Option (List UInt8)) : Prop where
  ahead : i.Ahead (left.map (Prod.mk coapOptionUriPath) ++ opts) payload
  sorted : opts.Pairwise fun a b => a.1 ≤ b.1
  behind : ∀ o ∈ opts, coapOptionUriPath < o.1

/-- The segments of the path that the iterator still gets to. -/
def Inbound.pathLeft (i : Inbound) : List (List UInt8) :=
  i.readValues coapOptionUriPath (i.packetLen + 1)

/-- A critical option that a handler does not know, in front of the end that the iterator sees. -/
def HasUnknown (knows : ℕ → Bool) (opts : List (ℕ × List UInt8)) : Prop :=
  ∃ o ∈ opts, o.1 < coapOptionInvalid ∧ coapOptionIsCritical o.1 = true ∧ knows o.1 = false

/-- The options that `smcp_handle_list` knows. -/
def listKnows (key : ℕ) : Bool := key == coapOptionUriQuery

/-- The options that `smcp_variable_node_request_handler` knows. -/
def variableKnows (key : ℕ) : Bool := key == coapOptionUriQuery || key == coapOptionAccept

section
variable {i : Inbound} {left : List (List UInt8)} {opts : List (ℕ × List UInt8)}
  {payload : Option (List UInt8)} {knows : ℕ → Bool} {k : ℕ} {v : List UInt8}

/-- In front of sorted options without a host the path is next. -/
theorem Inbound.Ahead.atPath (h : i.Ahead opts payload)
    (hsorted : opts.Pairwise fun a b => a.1 ≤ b.1) (hge : ∀ o ∈ opts, coapOptionUriPath ≤ o.1) :
    AtPath i i.pathLeft (opts.dropWhile fun o => decide (o.1 = coapOptionUriPath)) payload := by
  -- the options of the path are the first ones with its key
  have hread : i.pathLeft =
      (opts.takeWhile fun o => decide (o.1 = coapOptionUriPath)).map Prod.snd :=
    h.readValues (by decide) (Nat.lt_succ_of_le h.length_le)
  have hback : (opts.takeWhile fun o => decide (o.1 = coapOptionUriPath)).map
      (Prod.mk coapOptionUriPath ∘ Prod.snd) =
      opts.takeWhile fun o => decide (o.1 = coapOptionUriPath) := by
    refine (List.map_congr_left fun o ho => ?_).trans (List.map_id _)
    have hkey : o.1 = coapOptionUriPath := by simpa using List.mem_takeWhile_imp ho
    exact Prod.ext hkey.symm rfl
  -- what is behind them is sorted as well
  have hsuffix := List.dropWhile_suffix (l := opts) fun o => decide (o.1 = coapOptionUriPath)
  have hsorted' := hsorted.sublist hsuffix.sublist
  refine ⟨?_, hsorted', ?_⟩
  · rw [hread, List.map_map, hback, List.takeWhile_append_dropWhile]
    exact h
  · intro o ho
    cases hrest : opts.dropWhile fun o => decide (o.1 = coapOptionUriPath) with
    | nil =>
      rw [hrest] at ho
      exact absurd ho List.not_mem_nil
    | cons first rest =>
      rw [hrest] at ho hsorted'
      have hfirst : coapOptionUriPath < first.1 := by
        have hne : decide (first.1 = coapOptionUriPath) = false := by
          have hhead := List.head?_dropWhile_not (fun o => decide (o.1 = coapOptionUriPath)) opts
          rw [hrest] at hhead
          exact hhead
        have hmem : first ∈ opts := hsuffix.subset (by rw [hrest]; exact List.mem_cons_self)
        exact Nat.lt_of_le_of_ne (hge first hmem) fun heq => of_decide_eq_false hne heq.symm
      rcases List.mem_cons.1 ho with rfl | hmem
      · exact hfirst
      · exact hfirst.trans_le ((List.pairwise_cons.1 hsorted').1 o hmem)

/-- A segment is taken. -/
theorem AtPath.next (h : AtPath i (v :: left) opts payload) :
    i.nextOption.key = coapOptionUriPath ∧ AtPath i.nextOption.inbound left opts payload := by
  obtain ⟨hkey, -, hrest⟩ := h.ahead.nextOption_cons
  exact ⟨hkey, hrest, h.sorted, h.behind⟩

/-- The next part of the path is compared as a whole. -/
theorem AtPath.strequal_cons (h : AtPath i (v :: left) opts payload) (s : CStr) :
    i.optionStrequal coapOptionUriPath s = true ↔ v = s.bytes := by
  have hiff := (h.ahead.strequal_cons coapOptionUriPath s).1
  rw [hiff, and_iff_right rfl]

/-- Behind the path nothing compares as a segment, if there is an option. -/
theorem AtPath.strequal_nil (h : AtPath i [] opts payload) (hopts : opts ≠ []) (s : CStr) :
    i.optionStrequal coapOptionUriPath s = false := by
  cases opts with
  | nil => exact absurd rfl hopts
  | cons o opts =>
    obtain ⟨k, v⟩ := o
    have hiff := (h.ahead.strequal_cons coapOptionUriPath s).1
    have hk : coapOptionUriPath < k := h.behind (k, v) List.mem_cons_self
    rw [← Bool.not_eq_true, hiff]
    exact fun hand => Nat.ne_of_gt hk hand.1

/-- There is an option to refuse. -/
theorem HasUnknown.ne_nil (h : HasUnknown knows opts) : opts ≠ [] := by
  obtain ⟨o, ho, -⟩ := h
  exact List.ne_nil_of_mem ho

/-- The first option is one of those that are read, and a handler that goes on behind it meets the
unknown one later. -/
theorem HasUnknown.cons (h : HasUnknown knows ((k, v) :: opts))
    (hsorted : ((k, v) :: opts).Pairwise fun a b => a.1 ≤ b.1) :
    k < coapOptionInvalid ∧
      (¬(coapOptionIsCritical k = true ∧ knows k = false) → HasUnknown knows opts) := by
  obtain ⟨o, ho, hlt, hcritical, hunknown⟩ := h
  rcases List.mem_cons.1 ho with rfl | hmem
  · exact ⟨hlt, fun hnot => absurd ⟨hcritical, hunknown⟩ hnot⟩
  · exact ⟨((List.pairwise_cons.1 hsorted).1 o hmem).trans_lt hlt,
      fun _ => ⟨o, hmem, hlt, hcritical, hunknown⟩⟩

/-- Behind the first option that is no segment. -/
theorem AtPath.next_nil (h : AtPath i [] ((k, v) :: opts) payload) :
    i.nextOption.key = k ∧ coapOptionUriPath < k ∧ AtPath i.nextOption.inbound [] opts payload := by
  obtain ⟨hkey, -, hrest⟩ := h.ahead.nextOption_cons
  obtain ⟨-, hsorted⟩ := List.pairwise_cons.1 h.sorted
  exact ⟨hkey, h.behind (k, v) List.mem_cons_self, hrest, hsorted,
    fun o ho => h.behind o (List.mem_cons_of_mem _ ho)⟩

end

section
variable {i : Inbound} {left : List (List UInt8)} {opts : List (ℕ × List UInt8)}
  {payload : Option (List UInt8)} {fuel : ℕ}

/-- The list handler stops at the unknown option. -/
theorem scanListOptions_unknown (h : AtPath i [] opts payload)
    (hunknown : HasUnknown listKnows opts) (hfuel : opts.length < fuel) :
    (scanListOptions fuel i).2 = smcpStatusBadOption := by
  -- induction on the options, up to the one that is not known
  induction opts generalizing i fuel with
  | nil => exact absurd rfl hunknown.ne_nil
  | cons o opts ih =>
    obtain ⟨k, v⟩ := o
    rw [List.length_cons] at hfuel
    obtain ⟨fuel, rfl⟩ : ∃ n, fuel = n + 1 := ⟨fuel - 1, by omega⟩
    obtain ⟨hkey, hgt, hrest⟩ := h.next_nil
    obtain ⟨hlt, htail⟩ := hunknown.cons h.sorted
    have hgoesOn (hnot : ¬(coapOptionIsCritical k = true ∧ listKnows k = false)) :
        (scanListOptions fuel i.nextOption.inbound).2 = smcpStatusBadOption :=
      ih hrest (htail hnot) (by omega : opts.length < fuel)
    rw [scanListOptions]
    rw [hkey, if_neg (Nat.ne_of_lt hlt), if_neg (Nat.ne_of_gt hgt)]
    by_cases hquery : k = coapOptionUriQuery
    · rw [if_pos hquery]
      apply hgoesOn
      rw [hquery]
      decide
    · rw [if_neg hquery]
      by_cases hcritical : coapOptionIsCritical k = true
      · rw [if_pos hcritical]
      · rw [if_neg hcritical]
        exact hgoesOn fun hand => hcritical hand.1

/-- The list handler finds no such path, or stops at the unknown option. -/
theorem scanListOptions_status (h : AtPath i left opts payload)
    (hunknown : HasUnknown listKnows opts) :
    (scanListOptions (i.packetLen + 1) i).2 =
      if left = [] then smcpStatusBadOption else smcpStatusNotFound := by
  cases left with
  | nil =>
    rw [if_pos rfl]
    exact scanListOptions_unknown h hunknown (Nat.lt_succ_of_le h.ahead.length_le)
  | cons v left =>
    rw [if_neg (List.cons_ne_nil v left), scanListOptions]
    rw [h.next.1, if_neg (by decide), if_pos rfl]

/-- The list handler moves the option pointer only. -/
theorem sameMessage_scanListOptions (fuel : ℕ) (i : Inbound) :
    i.SameMessage (scanListOptions fuel i).1 := by
  induction fuel generalizing i with
  | zero => exact Inbound.SameMessage.refl i
  | succ fuel ih =>
    have hnext := i.sameMessage_nextOption
    rw [scanListOptions]
    split_ifs
    · exact hnext
    · exact hnext
    · exact hnext.trans (ih _)
    · exact hnext
    · exact hnext.trans (ih _)

/-- The variable handler stops at the unknown option. -/
theorem scanVarOptions_unknown {o : VarOptions} (method : ℕ) (h : AtPath o.inbound [] opts payload)
    (hunknown : HasUnknown variableKnows opts) (hfuel : opts.length < fuel) :
    (scanVarOptions method fuel o).2 = smcpStatusBadOption := by
  -- induction on the options, up to the one that is not known
  induction opts generalizing o fuel with
  | nil => exact absurd rfl hunknown.ne_nil
  | cons first opts ih =>
    obtain ⟨k, v⟩ := first
    rw [List.length_cons] at hfuel
    obtain ⟨fuel, rfl⟩ : ∃ n, fuel = n + 1 := ⟨fuel - 1, by omega⟩
    obtain ⟨hkey, hgt, hrest⟩ := h.next_nil
    obtain ⟨hlt, htail⟩ := hunknown.cons h.sorted
    have hgoesOn {o' : VarOptions} (hinbound : o'.inbound = o.inbound.nextOption.inbound)
        (hnot : ¬(coapOptionIsCritical k = true ∧ variableKnows k = false)) :
        (scanVarOptions method fuel o').2 = smcpStatusBadOption :=
      ih (by rw [hinbound]; exact hrest) (htail hnot) (by omega : opts.length < fuel)
    rw [scanVarOptions]
    dsimp only
    rw [hkey, if_neg (Nat.ne_of_lt hlt), if_neg (Nat.ne_of_gt hgt)]
    by_cases hquery : k = coapOptionUriQuery
    · have hknown : ¬(coapOptionIsCritical k = true ∧ variableKnows k = false) := by
        rw [hquery]
        decide
      rw [if_pos hquery]
      split_ifs
      · exact hgoesOn rfl hknown
      · exact hgoesOn rfl hknown
    · rw [if_neg hquery]
      by_cases haccept : k = coapOptionAccept
      · rw [if_pos haccept]
        refine hgoesOn rfl ?_
        rw [haccept]
        decide
      · rw [if_neg haccept]
        by_cases hcritical : coapOptionIsCritical k = true
        · rw [if_pos hcritical]
        · rw [if_neg hcritical]
          exact hgoesOn rfl fun hand => hcritical hand.1

/-- The variable handler gets to the option, unless the path sends it away before. -/
theorem scanVarOptions_status {o : VarOptions} (method : ℕ) (h : AtPath o.inbound left opts payload)
    (hunknown : HasUnknown variableKnows opts) :
    (scanVarOptions method (o.inbound.packetLen + 1) o).2 =
      if left = [] then smcpStatusBadOption else smcpStatusNotFound := by
  cases left with
  | nil =>
    rw [if_pos rfl]
    exact scanVarOptions_unknown method h hunknown (Nat.lt_succ_of_le h.ahead.length_le)
  | cons v left =>
    rw [if_neg (List.cons_ne_nil v left), scanVarOptions]
    dsimp only
    rw [h.next.1, if_neg (by decide), if_pos rfl]

/-- It moves the option pointer only. -/
theorem sameMessage_scanVarOptions (method fuel : ℕ) (o : VarOptions) :
    o.inbound.SameMessage (scanVarOptions method fuel o).1.inbound := by
  induction fuel generalizing o with
  | zero => exact Inbound.SameMessage.refl o.inbound
  | succ fuel ih =>
    have hnext := o.inbound.sameMessage_nextOption
    rw [scanVarOptions]
    dsimp only
    split_ifs
    · exact hnext
    · exact hnext
    · exact hnext.trans (ih _)
    · exact hnext.trans (ih _)
    · exact hnext.trans (ih _)
    · exact hnext.trans (ih _)
    · exact hnext
    · exact hnext.trans (ih _)

end

/-! ## The handlers -/

/-- What a handler leaves that refuses the request: the iterator has moved, nothing else has
happened, and the status is that of a bad option exactly when `reached` holds. -/
structure Refuses (u : Instance) (r : Instance × ℤ) (reached : Prop) : Prop where
  state : ∃ i f, u.inbound.SameMessage i ∧ r.1 = { u with inbound := i, fault := f }
  badOption_iff : r.2 = smcpStatusBadOption ↔ reached

/-- The segments with which `smcp_handle_list` gets to its options: none, or a trailing slash at a
node that has a name, or those of `/.well-known/core` at a node without a parent. -/
def ListsPath (n : SmcpNode) (left : List (List UInt8)) : Prop :=
  left = [] ∨ (left = [[]] ∧ n.name.isSome) ∨
    (n.parent = none ∧ (left = [asciiBytes ".well-known", asciiBytes "core"] ∨
      left = [asciiBytes ".well-known", asciiBytes "core", []]))

section
variable (text : ℕ → CStr) (s : NodeStore) (node : ℕ) {u : Instance} {left : List (List UInt8)}
  {opts : List (ℕ × List UInt8)} {payload : Option (List UInt8)} {i : Inbound}

/-- Behind the path the list handler gets to the option. -/
theorem listBehindPath_refuses (namePrefix : Option (List UInt8)) (hsame : u.inbound.SameMessage i)
    (h : AtPath i left opts payload) (hunknown : HasUnknown listKnows opts) :
    Refuses u (listBehindPath text s node namePrefix { u with inbound := i }) (left = []) := by
  have hstatus := scanListOptions_status h hunknown
  have hne : (scanListOptions (i.packetLen + 1) i).2 ≠ smcpStatusOk := by
    rw [hstatus]
    split_ifs
    · decide
    · decide
  unfold listBehindPath
  dsimp only
  rw [if_pos hne]
  refine ⟨⟨_, u.fault, hsame.trans (sameMessage_scanListOptions _ _), rfl⟩, ?_⟩
  show (scanListOptions (i.packetLen + 1) i).2 = smcpStatusBadOption ↔ left = []
  rw [hstatus]
  by_cases hnil : left = []
  · rw [if_pos hnil]
    exact iff_of_true rfl hnil
  · rw [if_neg hnil]
    exact iff_of_false (by decide) hnil

/-- When it is reached can be said in other words. -/
theorem Refuses.congr {r : Instance × ℤ} {reached reached' : Prop} (h : Refuses u r reached)
    (hiff : reached ↔ reached') : Refuses u r reached' :=
  ⟨h.state, h.badOption_iff.trans hiff⟩

/-- The list handler behind `/.well-known/core`, with `path` as what that leaves. -/
theorem handleList_path {path : ListPath}
    (hpath : listWellKnown (s.node node).parent.isSome
      ((s.node node).name.map fun name => (text name).bytes) u.inbound = path)
    (hok : path.status = smcpStatusOk) (hsame : u.inbound.SameMessage path.inbound)
    (h : AtPath path.inbound left opts payload) (hunknown : HasUnknown listKnows opts) :
    Refuses u (smcpHandleList text s node u)
      (left = [] ∨ (left = [[]] ∧ path.namePrefix.isSome)) := by
  unfold smcpHandleList
  dsimp only
  rw [hpath, if_neg (not_not.2 hok)]
  -- no segment is left, or the next one has to be empty
  cases left with
  | nil =>
    rw [h.strequal_nil hunknown.ne_nil, if_neg Bool.false_ne_true]
    exact (listBehindPath_refuses text s node _ hsame h hunknown).congr (iff_of_true rfl (.inl rfl))
  | cons v left =>
    have hequal := h.strequal_cons (stringAt [])
    have hnext := hsame.trans path.inbound.sameMessage_nextOption
    by_cases hslash : v = []
    · rw [if_pos (hequal.2 hslash)]
      cases hname : path.namePrefix with
      | none =>
        have hstatus : smcpStatusFailure ≠ smcpStatusBadOption := by decide
        refine ⟨⟨_, true, hnext, rfl⟩, iff_of_false hstatus ?_⟩
        simp
      | some namePrefix =>
        have hbehind (namePrefix : Option (List UInt8)) :=
          listBehindPath_refuses text s node namePrefix hnext h.next.2 hunknown
        have hiff : left = [] ↔
            v :: left = [] ∨ (v :: left = [[]] ∧ (some namePrefix).isSome = true) := by
          simp [hslash]
        cases namePrefix with
        | nil => exact (hbehind _).congr hiff
        | cons c namePrefix => exact (hbehind _).congr hiff
    · rw [if_neg (fun heq => hslash (hequal.1 heq))]
      refine (listBehindPath_refuses text s node _ hsame h hunknown).congr
        (iff_of_false (List.cons_ne_nil v left) ?_)
      simp [hslash]

/-- The list handler refuses a request with an option that it does not know. -/
theorem handleList_refuses (h : AtPath u.inbound left opts payload)
    (hunknown : HasUnknown listKnows opts) :
    Refuses u (smcpHandleList text s node u) (ListsPath (s.node node) left) := by
  set namePrefix := (s.node node).name.map fun name => (text name).bytes with hpre
  have hwell : (stringAt (asciiBytes ".well-known")).bytes = asciiBytes ".well-known" := by
    decide +kernel
  have hcore : (stringAt (asciiBytes "core")).bytes = asciiBytes "core" := by decide +kernel
  have hne : asciiBytes ".well-known" ≠ [] := by decide +kernel
  by_cases hfirst : (s.node node).parent.isSome = false ∧
      u.inbound.optionStrequal coapOptionUriPath (stringAt (asciiBytes ".well-known")) = true
  · have hparent : (s.node node).parent = none := by simpa using hfirst.1
    cases left with
    | nil =>
      rw [h.strequal_nil hunknown.ne_nil] at hfirst
      exact absurd hfirst.2 Bool.false_ne_true
    | cons v left =>
      have hv : v = asciiBytes ".well-known" := ((h.strequal_cons _).1 hfirst.2).trans hwell
      have hnext := h.next.2
      have hsame := u.inbound.sameMessage_nextOption
      by_cases hsecond : u.inbound.nextOption.inbound.optionStrequal coapOptionUriPath
          (stringAt (asciiBytes "core")) = true
      · cases left with
        | nil =>
          rw [hnext.strequal_nil hunknown.ne_nil] at hsecond
          exact absurd hsecond Bool.false_ne_true
        | cons w left =>
          have hw : w = asciiBytes "core" := ((hnext.strequal_cons _).1 hsecond).trans hcore
          have hpath : listWellKnown (s.node node).parent.isSome namePrefix u.inbound =
              ⟨u.inbound.nextOption.inbound.nextOption.inbound, some [], smcpStatusOk⟩ := by
            unfold listWellKnown
            dsimp only
            rw [if_pos hfirst, if_pos hsecond]
          refine (handleList_path text s node hpath rfl
            (hsame.trans (Inbound.sameMessage_nextOption _)) hnext.next.2 hunknown).congr ?_
          rw [ListsPath, hv, hw]
          simp [hparent]
      · -- `/.well-known` and then something else
        have hpath : listWellKnown (s.node node).parent.isSome namePrefix u.inbound =
            ⟨u.inbound.nextOption.inbound, namePrefix, smcpStatusNotAllowed⟩ := by
          unfold listWellKnown
          dsimp only
          rw [if_pos hfirst, if_neg hsecond]
        have hstatus : smcpStatusNotAllowed ≠ smcpStatusBadOption := by decide
        have hnot : ¬ListsPath (s.node node) (v :: left) := by
          intro hlists
          have hhead : left.head? = some (asciiBytes "core") := by
            rcases hlists with hnil | ⟨hslash, -⟩ | ⟨-, htwo | hthree⟩
            · exact absurd hnil (List.cons_ne_nil v left)
            · rw [List.cons.injEq, hv] at hslash
              exact absurd hslash.1 hne
            · rw [(List.cons.inj htwo).2]
              rfl
            · rw [(List.cons.inj hthree).2]
              rfl
          cases left with
          | nil => exact absurd hhead (by simp)
          | cons w left =>
            exact hsecond ((hnext.strequal_cons _).2 ((Option.some.inj hhead).trans hcore.symm))
        unfold smcpHandleList
        dsimp only
        rw [← hpre, hpath]
        exact ⟨⟨_, u.fault, hsame, rfl⟩, iff_of_false hstatus hnot⟩
  · have hpath : listWellKnown (s.node node).parent.isSome namePrefix u.inbound =
        ⟨u.inbound, namePrefix, smcpStatusOk⟩ := by
      unfold listWellKnown
      dsimp only
      rw [if_neg hfirst]
    refine (handleList_path text s node hpath rfl (Inbound.SameMessage.refl _) h hunknown).congr ?_
    have hsome : namePrefix.isSome = (s.node node).name.isSome := by
      rw [hpre, Option.isSome_map]
    -- the segments do not begin with `.well-known`, unless the node has a parent
    have hnot : ¬((s.node node).parent = none ∧
        (left = [asciiBytes ".well-known", asciiBytes "core"] ∨
          left = [asciiBytes ".well-known", asciiBytes "core", []])) := by
      rintro ⟨hparent, hleft⟩
      apply hfirst
      have hequal (left' : List (List UInt8)) (hcons : left = asciiBytes ".well-known" :: left') :
          u.inbound.optionStrequal coapOptionUriPath (stringAt (asciiBytes ".well-known")) =
            true := by
        rw [hcons] at h
        exact (h.strequal_cons _).2 hwell.symm
      refine ⟨by rw [hparent]; rfl, ?_⟩
      rcases hleft with htwo | hthree
      · exact hequal _ htwo
      · exact hequal _ hthree
    rw [ListsPath, hsome, or_iff_left hnot]

end

/-- The node function has a key of that name, among those that the handler asks for from `keyIndex`
on. -/
def VariableNode.hasKey (node : VariableNode) (name : List UInt8) :
    (fuel : ℕ) → (keyIndex : ℕ) → List VarCall → Bool
  | 0, _, _ => false
  | fuel + 1, keyIndex, calls =>
    let key := node.func calls ⟨.getKey, keyIndex, []⟩
    if key.status ≠ 0 then false
    else if key.value.str.bytes = name then true
    else hasKey node name fuel (keyIndex + 1) (⟨.getKey, keyIndex, []⟩ :: calls)

/-- The segments with which `smcp_variable_node_request_handler` gets to its options: none, or a
trailing slash, or the name of a key. -/
def VariableNode.HasPath (node : VariableNode) (calls : List VarCall) (left : List (List UInt8)) :
    Prop :=
  left = [] ∨ left = [[]] ∨ ∃ name, left = [name] ∧ node.hasKey name badKeyIndex 0 calls = true

/-- Only keys were asked for. -/
def AsksKeys (calls calls' : List VarCall) : Prop :=
  ∃ asked, calls' = asked ++ calls ∧ ∀ c ∈ asked, c.action = .getKey

section
variable {node : VariableNode} {v : VarState} {name : List UInt8} {left : List (List UInt8)}
  {opts : List (ℕ × List UInt8)} {payload : Option (List UInt8)} {calls calls' : List VarCall}

theorem AsksKeys.refl (calls : List VarCall) : AsksKeys calls calls :=
  ⟨[], rfl, fun _ hc => absurd hc List.not_mem_nil⟩

/-- One more key may be asked for in front. -/
theorem AsksKeys.of_cons {keyIndex : ℕ} (h : AsksKeys (⟨.getKey, keyIndex, []⟩ :: calls) calls') :
    AsksKeys calls calls' := by
  obtain ⟨asked, rfl, hasked⟩ := h
  refine ⟨asked ++ [⟨.getKey, keyIndex, []⟩], by rw [List.append_assoc]; rfl, ?_⟩
  intro c hc
  rcases List.mem_append.1 hc with hin | hlast
  · exact hasked c hin
  · rw [List.mem_singleton.1 hlast]

/-- The look-up moves the iterator and asks for keys. -/
theorem findKey_state (node : VariableNode) (fuel keyIndex : ℕ) (v : VarState) :
    ∃ i calls', v.state.inbound.SameMessage i ∧
      (findKey node fuel keyIndex v).after = ⟨{ v.state with inbound := i }, calls'⟩ ∧
      AsksKeys v.calls calls' := by
  induction fuel generalizing keyIndex v with
  | zero => exact ⟨_, _, Inbound.SameMessage.refl _, rfl, AsksKeys.refl _⟩
  | succ fuel ih =>
    have hasked : AsksKeys v.calls (⟨.getKey, keyIndex, []⟩ :: v.calls) :=
      AsksKeys.of_cons (AsksKeys.refl _)
    rw [findKey]
    dsimp only
    split_ifs
    · exact ⟨_, _, Inbound.SameMessage.refl _, rfl, hasked⟩
    · exact ⟨_, _, Inbound.sameMessage_nextOption _, rfl, hasked⟩
    · obtain ⟨i, calls', hsame, hafter, hcalls⟩ :=
        ih (keyIndex + 1) ⟨v.state, ⟨.getKey, keyIndex, []⟩ :: v.calls⟩
      exact ⟨i, calls', hsame, hafter, hcalls.of_cons⟩

/-- A key of that name is found, and the iterator is behind it. -/
theorem findKey_found {fuel keyIndex : ℕ} (h : AtPath v.state.inbound (name :: left) opts payload)
    (hkey : node.hasKey name fuel keyIndex v.calls = true) :
    (findKey node fuel keyIndex v).status = smcpStatusOk ∧
      AtPath (findKey node fuel keyIndex v).after.state.inbound left opts payload := by
  induction fuel generalizing keyIndex v with
  | zero => exact absurd hkey Bool.false_ne_true
  | succ fuel ih =>
    rw [VariableNode.hasKey] at hkey
    rw [findKey]
    dsimp only at hkey ⊢
    by_cases hstatus : (node.func v.calls ⟨.getKey, keyIndex, []⟩).status ≠ 0
    · rw [if_pos hstatus] at hkey
      exact absurd hkey Bool.false_ne_true
    · rw [if_neg hstatus] at hkey ⊢
      have hequal := h.strequal_cons (node.func v.calls ⟨.getKey, keyIndex, []⟩).value.str
      by_cases hname : (node.func v.calls ⟨.getKey, keyIndex, []⟩).value.str.bytes = name
      · rw [if_pos (hequal.2 hname.symm)]
        exact ⟨rfl, h.next.2⟩
      · rw [if_neg fun heq => hname (hequal.1 heq).symm]
        rw [if_neg hname] at hkey
        exact ih (v := ⟨v.state, ⟨.getKey, keyIndex, []⟩ :: v.calls⟩) h hkey

/-- Without such a key the handler gives up, or the segment is still ahead. -/
theorem findKey_missing {fuel keyIndex : ℕ} (h : AtPath v.state.inbound (name :: left) opts payload)
    (hkey : node.hasKey name fuel keyIndex v.calls = false) :
    (findKey node fuel keyIndex v).status = smcpStatusNotFound ∨
      ((findKey node fuel keyIndex v).status = smcpStatusOk ∧
        AtPath (findKey node fuel keyIndex v).after.state.inbound (name :: left) opts payload) := by
  induction fuel generalizing keyIndex v with
  | zero => exact .inr ⟨rfl, h⟩
  | succ fuel ih =>
    rw [VariableNode.hasKey] at hkey
    rw [findKey]
    dsimp only at hkey ⊢
    by_cases hstatus : (node.func v.calls ⟨.getKey, keyIndex, []⟩).status ≠ 0
    · rw [if_pos hstatus]
      exact .inl rfl
    · rw [if_neg hstatus] at hkey ⊢
      have hequal := h.strequal_cons (node.func v.calls ⟨.getKey, keyIndex, []⟩).value.str
      by_cases hname : (node.func v.calls ⟨.getKey, keyIndex, []⟩).value.str.bytes = name
      · rw [if_pos hname] at hkey
        exact absurd hkey.symm Bool.false_ne_true
      · rw [if_neg fun heq => hname (hequal.1 heq).symm]
        rw [if_neg hname] at hkey
        exact ih (v := ⟨v.state, ⟨.getKey, keyIndex, []⟩ :: v.calls⟩) h hkey

/-- The iterator has not gone further than to the options ahead. -/
theorem Inbound.Ahead.lastOptionKey_le {i : Inbound} (h : i.Ahead opts payload) :
    ∀ o ∈ opts, i.lastOptionKey ≤ o.1 := by
  obtain ⟨p, split, -, -, -, hkeys⟩ := h
  rw [hkeys]
  exact (withKeys_sorted i.lastOptionKey split).2

/-- The options have not ended yet. -/
theorem AtPath.lastOptionKey_lt {i : Inbound} {knows : ℕ → Bool} (h : AtPath i left opts payload)
    (hunknown : HasUnknown knows opts) : i.lastOptionKey < coapOptionInvalid := by
  obtain ⟨o, ho, hlt, -⟩ := hunknown
  exact (h.ahead.lastOptionKey_le o (List.mem_append_right _ ho)).trans_lt hlt

/-- Looking for the key reads the path and asks for keys. -/
theorem lookUpKey_state (node : VariableNode) (v : VarState) :
    ∃ i calls', v.state.inbound.SameMessage i ∧
      (lookUpKey node v).after = ⟨{ v.state with inbound := i }, calls'⟩ ∧
      AsksKeys v.calls calls' := by
  unfold lookUpKey
  dsimp only
  split_ifs
  · exact ⟨_, _, Inbound.sameMessage_nextOption _, rfl, AsksKeys.refl _⟩
  · exact findKey_state node badKeyIndex 0 v
  · exact ⟨_, _, Inbound.SameMessage.refl _, rfl, AsksKeys.refl _⟩

/-- With one of its paths, the handler gets behind the path. -/
theorem lookUpKey_found (node : VariableNode) {knows : ℕ → Bool}
    (h : AtPath v.state.inbound left opts payload)
    (hunknown : HasUnknown knows opts) (hpath : node.HasPath v.calls left) :
    (lookUpKey node v).status = smcpStatusOk ∧
      AtPath (lookUpKey node v).after.state.inbound [] opts payload := by
  -- nothing is left of the options of the path, since the next one is behind them
  have hpeek := Inbound.peekOption_eq_nextOption (Nat.ne_of_lt (h.lastOptionKey_lt hunknown))
  unfold lookUpKey
  dsimp only
  rw [hpeek]
  -- no segment is left, or the name of the variable
  cases left with
  | nil =>
    cases opts with
    | nil => exact absurd rfl hunknown.ne_nil
    | cons o opts =>
      obtain ⟨k, value⟩ := o
      obtain ⟨hkey, hgt, -⟩ := h.next_nil
      rw [if_neg (by rw [hkey]; exact Nat.ne_of_gt hgt)]
      exact ⟨rfl, h⟩
  | cons name left =>
    obtain ⟨hkey, hnext⟩ := h.next
    obtain ⟨-, ⟨p, hvalue, -⟩, -⟩ := h.ahead.nextOption_cons
    rw [if_pos hkey, hvalue, Option.getD_some]
    have hleft : left = [] := by
      rcases hpath with hnil | hslash | ⟨name', hone, -⟩
      · exact absurd hnil (List.cons_ne_nil name left)
      · exact (List.cons.inj hslash).2
      · exact (List.cons.inj hone).2
    rw [hleft] at h hnext
    by_cases hlen : name.length = 0
    · rw [if_pos hlen]
      exact ⟨rfl, hnext⟩
    · rw [if_neg hlen]
      apply findKey_found h
      rcases hpath with hnil | hslash | ⟨name', hone, hkey⟩
      · exact absurd hnil (List.cons_ne_nil name left)
      · rw [(List.cons.inj hslash).1] at hlen
        exact absurd rfl hlen
      · rw [(List.cons.inj hone).1]
        exact hkey

/-- With another path, the handler gives up, or there is a segment left. -/
theorem lookUpKey_missing (node : VariableNode) (h : AtPath v.state.inbound left opts payload)
    (hlast : v.state.inbound.lastOptionKey ≠ coapOptionInvalid)
    (hpath : ¬node.HasPath v.calls left) :
    (lookUpKey node v).status = smcpStatusNotFound ∨
      ((lookUpKey node v).status = smcpStatusOk ∧
        ∃ name left',
          AtPath (lookUpKey node v).after.state.inbound (name :: left') opts payload) := by
  have hpeek := Inbound.peekOption_eq_nextOption hlast
  unfold lookUpKey
  dsimp only
  rw [hpeek]
  -- without a segment the handler would get behind the path
  cases left with
  | nil => exact absurd (.inl rfl) hpath
  | cons name left =>
    obtain ⟨hkey, hnext⟩ := h.next
    obtain ⟨-, ⟨p, hvalue, -⟩, -⟩ := h.ahead.nextOption_cons
    rw [if_pos hkey, hvalue, Option.getD_some]
    by_cases hlen : name.length = 0
    · rw [if_pos hlen]
      cases left with
      | nil =>
        rw [List.length_eq_zero_iff.1 hlen] at hpath
        exact absurd (.inr (.inl rfl)) hpath
      | cons name' left => exact .inr ⟨rfl, name', left, hnext⟩
    · rw [if_neg hlen]
      cases hfound : node.hasKey name badKeyIndex 0 v.calls with
      | false =>
        rcases findKey_missing h hfound with hstatus | ⟨hstatus, hat⟩
        · exact .inl hstatus
        · exact .inr ⟨hstatus, name, left, hat⟩
      | true =>
        obtain ⟨hstatus, hat⟩ := findKey_found h hfound
        cases left with
        | nil => exact absurd (.inr (.inr ⟨name, rfl, hfound⟩)) hpath
        | cons name' left => exact .inr ⟨hstatus, name', left, hat⟩

/-- The variable handler refuses a request with an option that it does not know. -/
theorem variableHandler_refuses (hooks : Hooks) (node : VariableNode)
    (h : AtPath v.state.inbound left opts payload) (hunknown : HasUnknown variableKnows opts) :
    Refuses v.state ((smcpVariableNodeRequestHandler hooks node v).1.state,
        (smcpVariableNodeRequestHandler hooks node v).2) (node.HasPath v.calls left) ∧
      AsksKeys v.calls (smcpVariableNodeRequestHandler hooks node v).1.calls := by
  -- the lookup moves the iterator, and writes nothing
  obtain ⟨i, calls', hsame, hafter, hasks⟩ := lookUpKey_state node v
  have hmissing := lookUpKey_missing node h
    (Nat.ne_of_lt (h.lastOptionKey_lt hunknown))
  have hfound := lookUpKey_found node h hunknown
  unfold smcpVariableNodeRequestHandler
  dsimp only
  generalize lookUpKey node v = found at *
  -- a variable that is not found ends the request before any option is looked at
  by_cases hstatus : found.status = smcpStatusOk
  · -- the options are scanned, with the segments `left'` in front of them
    have hscan {left' : List (List UInt8)}
        (hat : AtPath found.after.state.inbound left' opts payload) :
        (found.after.scanned (headerCode v.state.inbound.bytes)).2 =
          if left' = [] then smcpStatusBadOption else smcpStatusNotFound :=
      scanVarOptions_status _ hat hunknown
    have hmoved := sameMessage_scanVarOptions (headerCode v.state.inbound.bytes)
      (found.after.state.inbound.packetLen + 1) found.after.state.inbound.varOptions
    have hiff : (found.after.scanned (headerCode v.state.inbound.bytes)).2 ≠ smcpStatusOk ∧
        ((found.after.scanned (headerCode v.state.inbound.bytes)).2 = smcpStatusBadOption ↔
          node.HasPath v.calls left) := by
      by_cases hpath : node.HasPath v.calls left
      · rw [hscan (hfound hpath).2, if_pos rfl]
        exact ⟨by decide, iff_of_true rfl hpath⟩
      · rcases hmissing hpath with hnot | ⟨-, name, left', hat⟩
        · rw [hnot] at hstatus
          exact absurd hstatus (by decide)
        · rw [hscan hat, if_neg (List.cons_ne_nil name left')]
          exact ⟨by decide, iff_of_false (by decide) hpath⟩
    rw [if_neg (not_not.2 hstatus), if_pos hiff.1, hafter]
    rw [hafter] at hiff hmoved
    exact ⟨⟨⟨_, v.state.fault, hsame.trans hmoved, rfl⟩, hiff.2⟩, hasks⟩
  · rw [if_pos hstatus, hafter]
    refine ⟨⟨⟨i, v.state.fault, hsame, rfl⟩, ?_⟩, hasks⟩
    by_cases hpath : node.HasPath v.calls left
    · exact absurd (hfound hpath).1 hstatus
    · rcases hmissing hpath with hnot | ⟨hok, -⟩
      · have hne : smcpStatusNotFound ≠ smcpStatusBadOption := by decide
        rw [hnot]
        exact iff_of_false hne hpath
      · exact absurd hok hstatus

end

/-! ## Through the router -/

/-- The options that `smcp_node_route` knows. -/
def routerKnows (key : ℕ) : Bool :=
  key == coapOptionUriPath || key == coapOptionUriHost || key == coapOptionUriPort ||
    key == coapOptionProxyUri || key == coapOptionContentType

/-- The options that the router or the handler it selects knows. -/
def targetKnows (target : Option (Option RequestHandler × ℕ)) (key : ℕ) : Bool :=
  routerKnows key ||
    match target with
    | some (some .smcpDefaultRequestHandler, _) => listKnows key
    | some (some (.other _), _) => variableKnows key
    | _ => false

/-- If the router selects a handler, it is the list handler or that of a variable node. -/
def NodeApp.SelectsOwn (app : NodeApp) (i : Inbound) : Prop :=
  ∀ handler context, (app.route i).target = some (handler, context) →
    handler = some .smcpDefaultRequestHandler ∨ handler = some (.other app.variableHandler)

/-- The selected handler gets to the options behind the path. -/
def NodeApp.GetsToOptions (app : NodeApp) (calls : List VarCall) (i : Inbound) : Prop :=
  let left := (app.route i).inbound.pathLeft
  match (app.route i).target with
  | some (some .smcpDefaultRequestHandler, context) =>
    headerCode i.bytes = coapMethodGet ∧ ListsPath (app.store.node context) left
  | some (some (.other _), context) => (app.variableNode context).HasPath calls left
  | _ => False

section
variable {app : NodeApp} {i : Inbound} {split : List (ℕ × List UInt8)}
  {payload : Option (List UInt8)}

/-- An unknown option is behind the path, or the router does not let it pass. -/
theorem behind_of_unknown {target : Option (Option RequestHandler × ℕ)} {o : ℕ × List UInt8}
    (hcritical : coapOptionIsCritical o.1 = true) (hunknown : targetKnows target o.1 = false)
    (hpasses : o.1 < coapOptionUriPath → routerPasses o.1 = true) : coapOptionUriPath < o.1 := by
  have hrouter : routerKnows o.1 = false := (Bool.or_eq_false_iff.1 hunknown).1
  unfold routerKnows at hrouter
  simp only [Bool.or_eq_false_iff, beq_eq_false_iff_ne] at hrouter
  obtain ⟨⟨⟨⟨hpath, hhost⟩, hport⟩, -⟩, -⟩ := hrouter
  by_contra hle
  have hlt : o.1 < coapOptionUriPath := by omega
  rcases (routerPasses_iff o.1).1 (hpasses hlt) with hnot | heq | heq
  · rw [hcritical] at hnot
    exact absurd hnot (by decide)
  · exact hhost heq
  · exact hport heq

/-- The router lets everything in front of the path pass: it selects a handler, which finds the
unknown option behind the segments that are left. -/
theorem route_passes (hv : coapVerifyPacket i.bytes i.packetLen = true) (hlen : i.packetLen < 65536)
    (hs : Splits word16 (optionArea (readBytes i.bytes 0 i.packetLen)) split payload)
    (hunknown : HasUnknown (targetKnows (app.route i).target) (withKeys 0 split))
    (hpasses : ∀ o ∈ withKeys 0 split, o.1 < coapOptionUriPath → routerPasses o.1 = true) :
    ∃ handler context opts, (app.route i).target = some (handler, context) ∧
      AtPath (app.route i).inbound (app.route i).inbound.pathLeft opts payload ∧
      HasUnknown (targetKnows (app.route i).target) opts := by
  -- the unknown option is behind everything that the router reads
  obtain ⟨o, ho, hlt, hcritical, hnot⟩ := hunknown
  have hgt := behind_of_unknown hcritical hnot (hpasses o ho)
  have hahead := ahead_resetNextOption hv hlen hs
  have hsorted := (withKeys_sorted 0 split).1
  -- the part of the path that leads to a node, and the rest for its handler
  obtain ⟨before, rest, node, hnode, hrest, hopts, hbefore, hge⟩ :=
    nodeRouteLoop_passes app.text app.store app.packetAddr app.root hahead hsorted
      ⟨o, ho, hgt, hlt⟩ hpasses (Nat.lt_succ_of_le hahead.length_le)
  have hroute : app.route i = ⟨(nodeRouteLoop app.text app.store app.packetAddr
      (i.resetNextOption.packetLen + 1) app.root i.resetNextOption.thisOption
      i.resetNextOption.lastOptionKey i.resetNextOption).1, smcpStatusOk,
      some ((app.store.node node).requestHandler, (app.store.node node).context.getD node)⟩ := by
    unfold NodeApp.route smcpNodeRoute
    dsimp only
    change (nodeRouteLoop app.text app.store app.packetAddr (i.resetNextOption.packetLen + 1)
      app.root i.resetNextOption.thisOption 0 i.resetNextOption).2 = some node at hnode
    rw [hnode]
    rfl
  have hinbound : (app.route i).inbound = (nodeRouteLoop app.text app.store app.packetAddr
      (i.resetNextOption.packetLen + 1) app.root i.resetNextOption.thisOption
      i.resetNextOption.lastOptionKey i.resetNextOption).1 := by rw [hroute]
  -- the handler gets the packet as the router leaves it
  rw [← hinbound] at hrest
  rw [hopts] at hsorted ho
  have hmem : o ∈ rest := by
    rcases List.mem_append.1 ho with hin | hin
    · exact absurd (hbefore o hin) (Nat.not_le_of_lt hgt)
    · exact hin
  have hat := hrest.atPath (List.pairwise_append.1 hsorted).2.1 hge
  refine ⟨_, _, _, by rw [hroute], hat, o, ?_, hlt, hcritical, hnot⟩
  have hsplit : (rest.takeWhile fun o => decide (o.1 = coapOptionUriPath)) ++
      (rest.dropWhile fun o => decide (o.1 = coapOptionUriPath)) = rest :=
    List.takeWhile_append_dropWhile
  rw [← hsplit] at hmem
  rcases List.mem_append.1 hmem with hin | hin
  · have hkey : o.1 = coapOptionUriPath := by simpa using List.mem_takeWhile_imp hin
    exact absurd hkey (Nat.ne_of_gt hgt)
  · exact hin

/-- Something in front of the path that the router does not let pass: it selects nothing. -/
theorem route_bails (hv : coapVerifyPacket i.bytes i.packetLen = true) (hlen : i.packetLen < 65536)
    (hs : Splits word16 (optionArea (readBytes i.bytes 0 i.packetLen)) split payload)
    (hbad : ∃ o ∈ withKeys 0 split, o.1 < coapOptionUriPath ∧ routerPasses o.1 = false) :
    (app.route i).target = none := by
  have hahead := ahead_resetNextOption hv hlen hs
  have hnone := nodeRouteLoop_bails app.text app.store app.packetAddr app.root
    i.resetNextOption.thisOption 0 hahead (withKeys_sorted 0 split).1 hbad
    (Nat.lt_succ_of_le hahead.length_le)
  unfold NodeApp.route smcpNodeRoute
  dsimp only
  rw [hnone]

/-- The router moves the option pointer only. -/
theorem sameMessage_nodeRouteLoop (app : NodeApp) (fuel node : ℕ) (prev : Option ℕ)
    (prevKey : ℕ) (i : Inbound) :
    i.SameMessage (nodeRouteLoop app.text app.store app.packetAddr fuel node prev prevKey i).1 := by
  induction fuel generalizing node prev prevKey i with
  | zero => exact Inbound.SameMessage.refl i
  | succ fuel ih =>
    have hnext := i.sameMessage_nextOption
    have hback : i.SameMessage
        { i.nextOption.inbound with thisOption := prev, lastOptionKey := prevKey } := by
      obtain ⟨key, option, heq⟩ := hnext
      rw [heq]
      exact ⟨_, _, rfl⟩
    rw [nodeRouteLoop]
    dsimp only
    split_ifs
    · exact hnext
    · exact hback
    · split
      · exact hnext.trans (ih _ _ _ _)
      · exact hback
    · exact hnext.trans (ih _ _ _ _)
    · exact hnext

/-- So does all that leads to the node. -/
theorem sameMessage_route (app : NodeApp) (i : Inbound) : i.SameMessage (app.route i).inbound := by
  have hloop := sameMessage_nodeRouteLoop app (i.resetNextOption.packetLen + 1) app.root
    i.resetNextOption.thisOption 0 i.resetNextOption
  unfold NodeApp.route smcpNodeRoute
  dsimp only
  split
  · exact i.sameMessage_resetNextOption.trans hloop
  · exact i.sameMessage_resetNextOption.trans hloop

/-- Where the option pointer stood makes no difference. -/
theorem Refuses.of_inbound {u : Instance} {r : Instance × ℤ} {reached : Prop}
    (h : Refuses { u with inbound := i } r reached) (hsame : u.inbound.SameMessage i) :
    Refuses u r reached := by
  obtain ⟨⟨i', f, hi', hr⟩, hiff⟩ := h
  exact ⟨⟨i', f, hsame.trans hi', hr⟩, hiff⟩

/-- A request with an unknown option is refused, and nothing is written. -/
theorem router_refuses (hooks : Hooks) {v : VarState}
    (hv : coapVerifyPacket v.state.inbound.bytes v.state.inbound.packetLen = true)
    (hlen : v.state.inbound.packetLen < 65536)
    (hs : Splits word16
      (optionArea (readBytes v.state.inbound.bytes 0 v.state.inbound.packetLen)) split payload)
    (hown : app.SelectsOwn v.state.inbound)
    (hunknown : HasUnknown (targetKnows (app.route v.state.inbound).target) (withKeys 0 split)) :
    Refuses v.state
        ((app.smcpNodeRouterHandler hooks v).1.state, (app.smcpNodeRouterHandler hooks v).2)
        ((∀ o ∈ withKeys 0 split, o.1 < coapOptionUriPath → routerPasses o.1 = true) ∧
          app.GetsToOptions v.calls v.state.inbound) ∧
      AsksKeys v.calls (app.smcpNodeRouterHandler hooks v).1.calls := by
  have hsame := sameMessage_route app v.state.inbound
  -- the router passes everything in front of the path, or stops at an option there
  by_cases hpasses : ∀ o ∈ withKeys 0 split, o.1 < coapOptionUriPath → routerPasses o.1 = true
  · obtain ⟨handler, context, opts, htarget, hat, hopts⟩ := route_passes hv hlen hs hunknown hpasses
    have hcode : headerCode (app.route v.state.inbound).inbound.bytes =
        headerCode v.state.inbound.bytes := by rw [hsame.bytes]
    rw [and_iff_right hpasses] at *
    unfold NodeApp.smcpNodeRouterHandler NodeApp.GetsToOptions
    dsimp only
    rw [htarget] at hopts ⊢
    rcases hown handler context htarget with rfl | rfl
    · -- the list handler
      have hlist : HasUnknown listKnows opts := by
        obtain ⟨o, ho, hlt, hcritical, hnot⟩ := hopts
        exact ⟨o, ho, hlt, hcritical, (Bool.or_eq_false_iff.1 hnot).2⟩
      unfold NodeApp.callHandler smcpDefaultRequestHandler
      dsimp only
      rw [hcode]
      by_cases hget : headerCode v.state.inbound.bytes = coapMethodGet
      · rw [if_pos hget, and_iff_right hget]
        have hrefuses := handleList_refuses app.text app.store context
          (u := { v.state with inbound := (app.route v.state.inbound).inbound }) hat hlist
        exact ⟨hrefuses.of_inbound hsame, AsksKeys.refl v.calls⟩
      · have hne : smcpStatusNotAllowed ≠ smcpStatusBadOption := by decide
        rw [if_neg hget]
        exact ⟨⟨⟨_, v.state.fault, hsame, rfl⟩, iff_of_false hne fun hand => hget hand.1⟩,
          AsksKeys.refl v.calls⟩
    · -- a variable node
      have hvariable : HasUnknown variableKnows opts := by
        obtain ⟨o, ho, hlt, hcritical, hnot⟩ := hopts
        exact ⟨o, ho, hlt, hcritical, (Bool.or_eq_false_iff.1 hnot).2⟩
      unfold NodeApp.callHandler
      dsimp only
      rw [if_pos rfl]
      obtain ⟨hrefuses, hasks⟩ := variableHandler_refuses hooks (app.variableNode context)
        (v := { v with state.inbound := (app.route v.state.inbound).inbound }) hat hvariable
      exact ⟨hrefuses.of_inbound hsame, hasks⟩
  · have hbad : ∃ o ∈ withKeys 0 split, o.1 < coapOptionUriPath ∧ routerPasses o.1 = false := by
      simpa using hpasses
    have hne : smcpStatusNotImplemented ≠ smcpStatusBadOption := by decide
    unfold NodeApp.smcpNodeRouterHandler
    dsimp only
    rw [route_bails hv hlen hs hbad]
    exact ⟨⟨⟨_, v.state.fault, hsame, rfl⟩, iff_of_false hne fun hand => hpasses hand.1⟩,
      AsksKeys.refl v.calls⟩

end

/-! ## The answer -/

/-- The code is that of a bad option for that status only, and not for a duplicate. -/
theorem automaticResultCode_badOption_iff (code : ℕ) (ret : ℤ) (isDupe : Bool) :
    automaticResultCode code ret isDupe = httpToCoapCode 402 ↔
      ret = smcpStatusBadOption ∧ (isDupe = true →
        code ∉ [coapMethodGet, coapMethodPost, coapMethodPut, coapMethodDelete]) := by
  -- one status only is converted to 4.02
  have hconvert : smcpConvertStatusToResultCode ret = httpToCoapCode 402 ↔
      ret = smcpStatusBadOption := by
    unfold smcpConvertStatusToResultCode
    split_ifs with h1 h2 h3 h4 h5 h6
    · rw [h1]
      decide
    · rw [h2]
      decide
    · rw [h3]
      decide
    · rw [h4]
      decide
    · rw [h5]
      decide
    · exact iff_of_true rfl h6
    · exact iff_of_false (by decide) h6
  -- a duplicate and a success have codes of their own
  by_cases hdone : isDupe = true ∨ ret = smcpStatusOk
  · unfold automaticResultCode
    rw [if_pos hdone]
    by_cases hknown : code ∈ [coapMethodGet, coapMethodPost, coapMethodPut, coapMethodDelete]
    · -- the reply to a success
      refine iff_of_false ?_ ?_
      · simp only [List.mem_cons, List.not_mem_nil, or_false] at hknown
        rcases hknown with rfl | rfl | rfl | rfl
        · show httpToCoapCode 205 ≠ httpToCoapCode 402
          decide
        · show httpToCoapCode 204 ≠ httpToCoapCode 402
          decide
        · show httpToCoapCode 204 ≠ httpToCoapCode 402
          decide
        · show httpToCoapCode 202 ≠ httpToCoapCode 402
          decide
      · rintro ⟨hret, hnot⟩
        rcases hdone with hdupe | hok
        · exact hnot hdupe hknown
        · rw [hret] at hok
          exact absurd hok (by decide)
    · simp only [List.mem_cons, List.not_mem_nil, or_false, not_or] at hknown
      obtain ⟨hget, hpost, hput, hdelete⟩ := hknown
      rw [if_neg hget, if_neg fun h => h.elim hpost hput, if_neg hdelete, hconvert]
      simp [hget, hpost, hput, hdelete]
  · unfold automaticResultCode
    rw [if_neg hdone, hconvert]
    have hdupe : ¬isDupe = true := fun h => hdone (.inl h)
    simp [hdupe]

section
variable {hooks : Hooks} {buffer : ℕ → UInt8} {n : ℕ} {source : SockAddr} {dest : Option SockAddr}
  {s : Instance}

/-- After a request was refused, there is only the automatic reply. -/
theorem finishPacket_refused {reached : Prop} {a : Instance} (hfake : a.inbound.isFake = false)
    (hprocessing : a.isProcessingMessage = true) (hresponded : a.didRespond = false)
    (hkept : ¬(a.inbound.wasSentToMulticast = true ∧
      headerTt a.inbound.bytes = coapTransTypeConfirmable))
    (hcode : coapCodeIsRequest (headerCode a.inbound.bytes) = true)
    (hrefuses : Refuses (preparePacket a) (smcpHandleRequest hooks (preparePacket a)) reached) :
    ∃ u : Instance,
      (smcpInboundFinishPacket hooks a).1.sent = (automaticReply a.inbound.bytes u
        (smcpHandleRequest hooks (preparePacket a)).2).1.sent ∧
      u.didRespond = false ∧ u.isProcessingMessage = true ∧ u.sent = a.sent ∧
      Inbound.SamePacket { a.inbound with isDupe := a.dupeInfo.knows a.inbound } u.inbound := by
  obtain ⟨i0, d0, l0, hprep⟩ := preparePacket_eq a
  have hmark := preparePacket_samePacket hfake
  obtain ⟨⟨i, f, hsame, hstate⟩, -⟩ := hrefuses
  rw [finishPacket_request hooks hprocessing hkept hcode]
  refine ⟨(smcpHandleRequest hooks (preparePacket a)).1, rfl, ?_, ?_, ?_, ?_⟩
  · rw [hstate, hprep]
    exact hresponded
  · rw [hstate, hprep]
    exact hprocessing
  · rw [hstate, hprep]
  · rw [hstate]
    exact hmark.trans hsame.samePacket

/-- The code of the packet is that of the message. -/
theorem arrived_code (hv : coapVerifyPacket buffer n = true) (s : Instance) (source : SockAddr)
    (dest : Option SockAddr) :
    headerCode (s.arrived buffer n source dest).inbound.bytes = headerCode buffer := by
  rw [headerCode, arrived_header hv s source dest 1 (by decide), headerCode]

/-- A refused request gets the automatic reply. -/
theorem processPacket_refused {reached : Prop} (hv : coapVerifyPacket buffer n = true)
    (hcode : coapCodeIsRequest (headerCode buffer) = true)
    (htt : headerTt buffer = coapTransTypeConfirmable)
    (hunicast : dest.any (fun dest => smcpIsAddrMulticast dest.addr) = false)
    (hfamily : source.family ≠ 0)
    (hrefuses : Refuses (preparePacket (s.arrived buffer n source dest))
      (smcpHandleRequest hooks (preparePacket (s.arrived buffer n source dest))) reached) :
    ∃ d : Datagram, (processPacket hooks s buffer n source dest).1.sent = s.sent ++ [d] ∧
      d.Answers (s.arrived buffer n source dest).inbound ∧
      headerCode d.memory = automaticResultCode (headerCode buffer)
        (smcpHandleRequest hooks (preparePacket (s.arrived buffer n source dest))).2
        (s.dupeInfo.knows (s.arrived buffer n source dest).inbound) := by
  have hcode' := arrived_code hv s source dest
  -- `a` is the state with the message in it
  set a := s.arrived buffer n source dest with ha
  have htt' : headerTt a.inbound.bytes = coapTransTypeConfirmable := by
    rw [headerTt, arrived_header hv s source dest 0 (by decide)]
    exact htt
  have hkept : ¬(a.inbound.wasSentToMulticast = true ∧
      headerTt a.inbound.bytes = coapTransTypeConfirmable) := by
    rintro ⟨hmulticast, -⟩
    exact Bool.false_ne_true (hunicast.symm.trans hmulticast)
  -- the message gets as far as the handler, which sends nothing
  obtain ⟨u, hsent, hdid, hprocessing, hnothing, hseen⟩ :=
    finishPacket_refused (a := a) rfl rfl rfl hkept (by rw [hcode']; exact hcode) hrefuses
  rw [automaticReply, if_pos ⟨hdid, htt'⟩, hcode', if_pos hcode] at hsent
  obtain ⟨d, hd, hanswers, hdcode⟩ := replyToRequest_sent (s := u) (by rw [hseen.packet]; rfl)
    hprocessing (by rw [hseen.bytes]; exact htt') (by rw [hseen.saddr]; exact hfamily)
    (headerCode buffer) (smcpHandleRequest hooks (preparePacket a)).2
  -- the datagram of the reply is the automatic one
  rw [hnothing] at hd
  rw [hseen.isDupe] at hdcode
  rw [processPacket_eq hooks hv, hsent]
  exact ⟨d, hd, hanswers.congr hseen.packet hseen.saddr, hdcode⟩

/-- No value was written. -/
def NotWritten (calls calls' : List VarCall) : Prop :=
  ∃ asked, calls' = asked ++ calls ∧ ∀ c ∈ asked, c.action ≠ .setValue

/-- A request with an unknown option is refused when it arrives. -/
theorem arrived_refuses (hooks : Hooks) {app : NodeApp} (calls : List VarCall)
    {split : List (ℕ × List UInt8)} {payload : Option (List UInt8)}
    (hv : coapVerifyPacket buffer n = true) (hn : n < 65536)
    (hs : Splits word16 (optionArea (readBytes buffer 0 n)) split payload)
    (hhandler : s.requestHandler.isSome)
    (hown : app.SelectsOwn (preparePacket (s.arrived buffer n source dest)).inbound)
    (hunknown : HasUnknown
      (targetKnows (app.route (preparePacket (s.arrived buffer n source dest)).inbound).target)
      (withKeys 0 split)) :
    Refuses (preparePacket (s.arrived buffer n source dest))
        (smcpHandleRequest (app.requestHooks hooks calls)
          (preparePacket (s.arrived buffer n source dest)))
        ((∀ o ∈ withKeys 0 split, o.1 < coapOptionUriPath → routerPasses o.1 = true) ∧
          app.GetsToOptions calls (preparePacket (s.arrived buffer n source dest)).inbound) ∧
      AsksKeys calls (app.smcpNodeRouterHandler hooks
        ⟨preparePacket (s.arrived buffer n source dest), calls⟩).1.calls := by
  -- the bytes that the router reads are those of the packet
  set a := s.arrived buffer n source dest with ha
  have hmark := preparePacket_samePacket (s := a) rfl
  obtain ⟨i0, d0, l0, hprep⟩ := preparePacket_eq a
  have hrequest : (preparePacket a).requestHandler.isSome := by
    rw [hprep]
    exact hhandler
  have hread (k : ℕ) (hk : k ≤ n) :
      readBytes (preparePacket a).inbound.bytes 0 k = readBytes buffer 0 k := by
    rw [preparePacket_bytes]
    exact readBytes_update_of_le ((Nat.zero_add k).le.trans hk) 0
  have hlen : (preparePacket a).inbound.packetLen = n := hmark.packetLen
  have hv' : coapVerifyPacket (preparePacket a).inbound.bytes (preparePacket a).inbound.packetLen =
      true := by
    rw [coapVerifyPacket_iff, hlen, hread (word16 n) (Nat.mod_le _ _), ← coapVerifyPacket_iff]
    exact hv
  -- the refusal is the handler's, and its calls are the ones that are noted
  obtain ⟨hrefuses, hasks⟩ := router_refuses (v := ⟨preparePacket a, calls⟩) hooks hv'
    (by rw [hlen]; exact hn) (by rw [hlen, hread n le_rfl]; exact hs) hown hunknown
  rw [← app.handleRequest_router hooks calls hrequest] at hrefuses
  exact ⟨hrefuses, hasks⟩

/-- A confirmable request with an unknown critical option is answered 4.02 and writes nothing,
exactly when the router lets everything in front of the path pass, the selected handler gets to its
options, and the request is not a duplicate with one of the known methods. -/
theorem criticalOption_rejected_iff {app : NodeApp} {calls : List VarCall}
    {split : List (ℕ × List UInt8)} {payload : Option (List UInt8)}
    (hv : coapVerifyPacket buffer n = true) (hn : n < 65536)
    (hs : Splits word16 (optionArea (readBytes buffer 0 n)) split payload)
    (hcode : coapCodeIsRequest (headerCode buffer) = true)
    (htt : headerTt buffer = coapTransTypeConfirmable)
    (hunicast : dest.any (fun dest => smcpIsAddrMulticast dest.addr) = false)
    (hfamily : source.family ≠ 0) (hhandler : s.requestHandler.isSome)
    (hown : app.SelectsOwn (preparePacket (s.arrived buffer n source dest)).inbound)
    (hunknown : HasUnknown
      (targetKnows (app.route (preparePacket (s.arrived buffer n source dest)).inbound).target)
      (withKeys 0 split)) :
    ((∃ d : Datagram, (processPacket (app.requestHooks hooks calls) s buffer n source dest).1.sent =
          s.sent ++ [d] ∧ d.Answers (s.arrived buffer n source dest).inbound ∧
          headerCode d.memory = httpToCoapCode 402) ∧
        NotWritten calls (app.smcpNodeRouterHandler hooks
          ⟨preparePacket (s.arrived buffer n source dest), calls⟩).1.calls) ↔
      (∀ o ∈ withKeys 0 split, o.1 < coapOptionUriPath → routerPasses o.1 = true) ∧
        app.GetsToOptions calls (preparePacket (s.arrived buffer n source dest)).inbound ∧
        (s.dupeInfo.knows (s.arrived buffer n source dest).inbound = true → headerCode buffer ∉
          [coapMethodGet, coapMethodPost, coapMethodPut, coapMethodDelete]) := by
  -- what the handler asks of the variables is no write
  obtain ⟨hrefuses, hasks⟩ := arrived_refuses hooks calls hv hn hs hhandler hown hunknown
  obtain ⟨d, hd, hanswers, hdcode⟩ :=
    processPacket_refused hv hcode htt hunicast hfamily hrefuses
  have hnot : NotWritten calls (app.smcpNodeRouterHandler hooks
      ⟨preparePacket (s.arrived buffer n source dest), calls⟩).1.calls := by
    obtain ⟨asked, heq, hkeys⟩ := hasks
    refine ⟨asked, heq, ?_⟩
    intro c hc hset
    rw [hkeys c hc] at hset
    exact absurd hset (by decide)
  rw [and_iff_left hnot, ← and_assoc, ← hrefuses.badOption_iff,
    ← automaticResultCode_badOption_iff, ← hdcode]
  -- both directions by the one reply that there is
  constructor
  · rintro ⟨d', hd', -, hcode'⟩
    rw [hd] at hd'
    rw [List.singleton_inj.1 (List.append_cancel_left hd')]
    exact hcode'
  · intro hcode'
    exact ⟨d, hd, hanswers, hcode'⟩

end

/-- A server with nothing but a root node. -/
def rootApp : NodeApp where
  text _ := stringAt []
  store := (smcpNodeInit (fun _ => stringAt []) .empty (some 0) none none none).1
  root := 0
  packetAddr := 100
  variableHandler := 0
  variableNode _ := ⟨fun _ _ => ⟨smcpStatusNotFound, ⟨stringAt [], by decide⟩⟩, 0⟩
  otherHandler _ _ v := (v, smcpStatusNotImplemented)

/-- A GET with the option 13, and one with If-Match. -/
def unknownGet : ℕ → UInt8 := ofList [0x40, 0x01, 0x12, 0x34, 0xD0, 0x00] fun _ => 0
def ifMatchGet : ℕ → UInt8 := ofList [0x40, 0x01, 0x12, 0x34, 0x10] fun _ => 0

/-- A GET of the root with an unknown critical option. -/
theorem criticalOption_rejected_root :
    ∃ d : Datagram, (processPacket (rootApp.requestHooks idleHooks []) servingRun unknownGet 6
        localPeer none).1.sent = servingRun.sent ++ [d] ∧
      headerCode d.memory = httpToCoapCode 402 := by
  -- the root is the target, and nothing is left of the path
  have htarget : (rootApp.route (preparePacket
      (servingRun.arrived unknownGet 6 localPeer none)).inbound).target =
      some (some .smcpDefaultRequestHandler, 0) := by decide +kernel
  have hleft : (rootApp.route (preparePacket
      (servingRun.arrived unknownGet 6 localPeer none)).inbound).inbound.pathLeft = [] := by
    decide +kernel
  have hget : headerCode (preparePacket
      (servingRun.arrived unknownGet 6 localPeer none)).inbound.bytes = coapMethodGet := by
    decide +kernel
  have hsplits : Splits word16 (optionArea (readBytes unknownGet 0 6)) [(13, [])] none :=
    .option 0xD0 [0x00] [] [] _ _ _ (by decide) (by decide) rfl rfl rfl .nil
  -- the general result, with the conditions at this packet
  have hiff := @criticalOption_rejected_iff idleHooks unknownGet 6 localPeer none servingRun
    rootApp [] _ none (by decide) (by decide) hsplits (by decide) (by decide) rfl (by decide)
    (by decide)
    (by
      intro handler context h
      rw [htarget, Option.some.injEq, Prod.mk.injEq] at h
      exact .inl h.1.symm)
    ⟨(13, []), List.mem_singleton.2 rfl, by decide, by decide, by rw [htarget]; decide⟩
  obtain ⟨⟨d, hd, -, hcode⟩, -⟩ := hiff.2 ⟨by decide, by
    unfold NodeApp.GetsToOptions
    dsimp only
    rw [htarget, hleft, hget]
    exact ⟨rfl, .inl rfl⟩, fun hknows => absurd hknows (by decide +kernel)⟩
  exact ⟨d, hd, hcode⟩

/-- A GET with If-Match is answered 5.01. -/
theorem criticalOption_ifMatch :
    ¬∀ (app : NodeApp) (hooks : Hooks) (calls : List VarCall) (s : Instance) (buffer : ℕ → UInt8)
      (n : ℕ) (source : SockAddr) (split : List (ℕ × List UInt8)) (payload : Option (List UInt8)),
      Reachable s → coapVerifyPacket buffer n = true →
      Splits word16 (optionArea (readBytes buffer 0 n)) split payload →
      coapCodeIsRequest (headerCode buffer) = true → headerTt buffer = coapTransTypeConfirmable →
      source.family ≠ 0 → s.requestHandler.isSome →
      app.SelectsOwn (preparePacket (s.arrived buffer n source none)).inbound →
      HasUnknown (targetKnows
        (app.route (preparePacket (s.arrived buffer n source none)).inbound).target)
        (withKeys 0 split) →
      ∃ d : Datagram, (processPacket (app.requestHooks hooks calls) s buffer n source none).1.sent =
        s.sent ++ [d] ∧ headerCode d.memory = httpToCoapCode 402 := by
  intro hall
  -- the router does not let If-Match pass, and selects no handler
  have htarget : (rootApp.route (preparePacket
      (servingRun.arrived ifMatchGet 5 localPeer none)).inbound).target = none := by decide +kernel
  have hsplits : Splits word16 (optionArea (readBytes ifMatchGet 0 5)) [(1, [])] none :=
    .option 0x10 [] [] [] _ _ _ (by decide) (by decide) rfl rfl rfl .nil
  obtain ⟨d, hd, hcode⟩ := hall rootApp idleHooks [] servingRun ifMatchGet 5 localPeer _ _
    (reachable_idleRun _ _) (by decide) hsplits (by decide) (by decide) (by decide) (by decide)
    (by
      intro handler context h
      rw [htarget] at h
      exact absurd h (by simp))
    ⟨(1, []), List.mem_singleton.2 rfl, by decide, by decide, by rw [htarget]; decide⟩
  have hsent : (processPacket (rootApp.requestHooks idleHooks []) servingRun ifMatchGet 5 localPeer
      none).1.sent = servingRun.sent ++ [⟨localPeer, [0x60, 0xA1, 0x12, 0x34]⟩] := by
    decide +kernel
  -- the one reply that was sent has the code 5.01
  rw [hsent] at hd
  rw [← List.singleton_inj.1 (List.append_cancel_left hd)] at hcode
  exact absurd hcode (by decide)

end Smcp
