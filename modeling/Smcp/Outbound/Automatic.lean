import Smcp.Outbound.Size

/-!
# Automatic options

The Observe and Block2 options that `smcp_outbound_add_options_up_to_key_` adds to the request of an
observing transaction, whatever options its author adds and in whatever order.

* `upToKey_block2`, `upToKey_observe` and `upToKey_none`: what one call of it does;
* `AutoState`: which of the two there are, by the keys that were added;
* `automaticOptions_iff`: both are there in the end exactly when the first key behind Observe is not
  behind Block2, and the one that is left for the end has room.
-/

namespace Smcp

open ByteMemory OptionFormat

/-! ## Composing a request -/

/-- `smcp_outbound_add_option` for one option after the other, as long as they are accepted. -/
def addAllOptions (s : Instance) : List (Fin 65536 × List UInt8) → Option Instance
  | [] => some s
  | c :: calls =>
    let r := smcpOutboundAddOption s c.1 c.2
    if r.2 = smcpStatusOk then addAllOptions r.1 calls else none

/-- The first key behind Observe. -/
def firstBehindObserve (keys : List ℕ) : Option ℕ := keys.find? fun k => coapOptionObserve < k

/-- When both automatic options get into the message, for the keys that were added and the room that
is left behind them. -/
def AutomaticFits (auto : AutoOptions) (keys : List ℕ) (space : ℕ) : Prop :=
  match firstBehindObserve keys with
  | none => auto.nextBlock2 = 0 ∧ 8 ≤ space
  | some k => auto.nextBlock2 = 0 ∨ k ≤ coapOptionBlock2 ∧
      ((∃ k ∈ keys, coapOptionBlock2 < k) ∨ (uintOptionValue auto.nextBlock2).length + 8 ≤ space)

/-! ## One call -/

section
variable {auto : AutoOptions} {o : Outbound} {opts : List (ℕ × List UInt8)} {key : ℕ}
  {value : List UInt8}

/-- An option that is accepted is put in its place. -/
theorem addOption_ok (hc : Composed o opts) (hb : Bounded o) (hkey : key ≤ coapOptionInvalid)
    (hok : (smcpOutboundAddOption_ o key value).2 = smcpStatusOk) :
    Composed (smcpOutboundAddOption_ o key value).1
        (insertByKey (key, value.take (word16 value.length)) opts) ∧
      Bounded (smcpOutboundAddOption_ o key value).1 ∧
      (smcpOutboundAddOption_ o key value).1.header = o.header := by
  have hspace : word16 value.length + 8 ≤ o.spaceRemaining := by
    by_contra hspace
    rw [addOption_tooBig hspace] at hok
    have hbad : smcpStatusMessageTooBig = smcpStatusOk := hok
    exact absurd hbad (by decide)
  obtain ⟨-, hc', hb', he⟩ := addOption_spec hc hb hkey hspace
  exact ⟨hc', hb', he.header_eq⟩

theorem word16_uintOptionValue (n : ℕ) :
    word16 (uintOptionValue n).length = (uintOptionValue n).length := by
  have hle := length_uintOptionValue_le n
  exact word16_of_lt (by omega)

/-- Nothing is due. -/
theorem upToKey_none (hblock : ¬(auto.nextBlock2 ≠ 0 ∧ o.lastOptionKey < coapOptionBlock2 ∧
      key > coapOptionBlock2))
    (hobserve : ¬(o.lastOptionKey < coapOptionObserve ∧ key > coapOptionObserve)) :
    smcpOutboundAddOptionsUpToKey_ auto o key = (o, smcpStatusOk) := by
  unfold smcpOutboundAddOptionsUpToKey_ addAutoBlock2
  rw [if_neg hblock]
  unfold addAutoObserve
  exact if_neg fun h => hobserve ⟨h.2.1, h.2.2.1⟩

/-- Only Observe is due. -/
theorem upToKey_observe (hauto : auto.observe = true)
    (hcode : o.header.code ≠ 0 ∧ o.header.code < coapResult100)
    (hblock : ¬(auto.nextBlock2 ≠ 0 ∧ o.lastOptionKey < coapOptionBlock2 ∧ key > coapOptionBlock2))
    (hobserve : o.lastOptionKey < coapOptionObserve ∧ key > coapOptionObserve) :
    smcpOutboundAddOptionsUpToKey_ auto o key = smcpOutboundAddOption_ o coapOptionObserve [] := by
  unfold smcpOutboundAddOptionsUpToKey_ addAutoBlock2
  rw [if_neg hblock]
  unfold addAutoObserve
  exact if_pos ⟨hauto, hobserve.1, hobserve.2, hcode⟩

/-- Block2 is due. Behind it, Observe is not due any more; without room for it, Observe may be. -/
theorem upToKey_block2 (hauto : auto.observe = true)
    (hcode : o.header.code ≠ 0 ∧ o.header.code < coapResult100) (hc : Composed o opts)
    (hb : Bounded o)
    (hblock : auto.nextBlock2 ≠ 0 ∧ o.lastOptionKey < coapOptionBlock2 ∧ key > coapOptionBlock2) :
    smcpOutboundAddOptionsUpToKey_ auto o key =
      if (uintOptionValue auto.nextBlock2).length + 8 ≤ o.spaceRemaining then
        smcpOutboundAddOption_ o coapOptionBlock2 (uintOptionValue auto.nextBlock2)
      else if o.lastOptionKey < coapOptionObserve then smcpOutboundAddOption_ o coapOptionObserve []
      else (o, smcpStatusMessageTooBig) := by
  have hword := word16_uintOptionValue auto.nextBlock2
  -- an option behind Observe, so that one is over
  have hbehind : key > coapOptionObserve := lt_trans (by decide) hblock.2.2
  unfold smcpOutboundAddOptionsUpToKey_ addAutoBlock2
  rw [if_pos hblock]
  -- there is room for Block2, or it is left out
  by_cases hspace : (uintOptionValue auto.nextBlock2).length + 8 ≤ o.spaceRemaining
  · rw [if_pos hspace]
    obtain ⟨-, hc', -⟩ := addOption_spec hc hb
      (show coapOptionBlock2 ≤ coapOptionInvalid by decide) (by rw [hword]; exact hspace)
    have hlast := hc'.lastKey_eq
    rw [lastKey_insertByKey hc.ordered (Nat.zero_le _)] at hlast
    unfold addAutoObserve
    apply if_neg
    rintro ⟨-, hlt, -⟩
    rw [hlast] at hlt
    exact absurd (lt_of_le_of_lt (le_max_left _ _) hlt) (by decide)
  · rw [if_neg hspace, addOption_tooBig (by rw [hword]; exact hspace)]
    unfold addAutoObserve
    by_cases hobserve : o.lastOptionKey < coapOptionObserve
    · rw [if_pos hobserve]
      exact if_pos ⟨hauto, hobserve, hbehind, hcode⟩
    · rw [if_neg hobserve]
      exact if_neg fun h => hobserve h.2.1

end

/-! ## What there is, by the keys that were added -/

/-- The automatic options in the list, behind calls for the keys. -/
def AutoState (auto : AutoOptions) (keys : List ℕ) (opts : List (ℕ × List UInt8)) : Prop :=
  match firstBehindObserve keys with
  | none => lastKey 0 opts < coapOptionObserve ∧ values coapOptionObserve opts = [] ∧
      values coapOptionBlock2 opts = []
  | some k =>
    if auto.nextBlock2 = 0 then
      coapOptionObserve ≤ lastKey 0 opts ∧ values coapOptionObserve opts = [[]]
    -- Block2 came first, or had no room
    else if coapOptionBlock2 < k then
      coapOptionBlock2 ≤ lastKey 0 opts ∧
        (values coapOptionObserve opts = [] ∨ values coapOptionBlock2 opts = [])
    else if ∃ k ∈ keys, coapOptionBlock2 < k then
      coapOptionBlock2 ≤ lastKey 0 opts ∧ values coapOptionObserve opts = [[]] ∧
        values coapOptionBlock2 opts = [uintOptionValue auto.nextBlock2]
    else
      (coapOptionObserve ≤ lastKey 0 opts ∧ lastKey 0 opts < coapOptionBlock2) ∧
        values coapOptionObserve opts = [[]] ∧ values coapOptionBlock2 opts = []

/-- A request of the transaction, with the options of the list. -/
structure Requesting (auto : AutoOptions) (o : Outbound) (opts : List (ℕ × List UInt8)) : Prop where
  composed : Composed o opts
  bounded : Bounded o
  observe : auto.observe = true
  code : o.header.code ≠ 0 ∧ o.header.code < coapResult100

section
variable {auto : AutoOptions} {o : Outbound} {opts : List (ℕ × List UInt8)} {key : ℕ}
  {value : List UInt8} {keys : List ℕ}

theorem Requesting.addOption (h : Requesting auto o opts) (hkey : key ≤ coapOptionInvalid)
    (hok : (smcpOutboundAddOption_ o key value).2 = smcpStatusOk) :
    Requesting auto (smcpOutboundAddOption_ o key value).1
      (insertByKey (key, value.take (word16 value.length)) opts) := by
  obtain ⟨hc, hb, hheader⟩ := addOption_ok h.composed h.bounded hkey hok
  exact ⟨hc, hb, h.observe, by rw [hheader]; exact h.code⟩

/-- An option in its place, as far as the automatic options are concerned. -/
theorem Requesting.insert_state (h : Requesting auto o opts) (key : ℕ) (v : List UInt8) :
    lastKey 0 (insertByKey (key, v) opts) = max key (lastKey 0 opts) ∧
      values coapOptionObserve (insertByKey (key, v) opts) =
        values coapOptionObserve opts ++ (if key = coapOptionObserve then [v] else []) ∧
      values coapOptionBlock2 (insertByKey (key, v) opts) =
        values coapOptionBlock2 opts ++ (if key = coapOptionBlock2 then [v] else []) :=
  ⟨lastKey_insertByKey h.composed.ordered (Nat.zero_le key),
    values_insertByKey h.composed.ordered _ (key, v), values_insertByKey h.composed.ordered _ (key, v)⟩

theorem firstBehindObserve_append (keys : List ℕ) (key : ℕ) :
    firstBehindObserve (keys ++ [key]) =
      (firstBehindObserve keys).or (if coapOptionObserve < key then some key else none) := by
  unfold firstBehindObserve
  rw [List.find?_append, List.find?_singleton]
  simp only [decide_eq_true_eq]

/-- `smcp_outbound_add_option` behind the automatic options. -/
theorem outboundAddOption_ok (hok : (outboundAddOption auto o key value).2 = smcpStatusOk) :
    (smcpOutboundAddOptionsUpToKey_ auto o key).2 = smcpStatusOk ∧
      if key = coapOptionBlock2 ∧ auto.nextBlock2 ≠ 0 then
        (outboundAddOption auto o key value).1 = (smcpOutboundAddOptionsUpToKey_ auto o key).1
      else
        (outboundAddOption auto o key value).1 =
            (smcpOutboundAddOption_ (smcpOutboundAddOptionsUpToKey_ auto o key).1 key value).1 ∧
          (smcpOutboundAddOption_ (smcpOutboundAddOptionsUpToKey_ auto o key).1 key value).2 =
            smcpStatusOk := by
  unfold outboundAddOption at hok ⊢
  dsimp only at hok ⊢
  by_cases hbefore : (smcpOutboundAddOptionsUpToKey_ auto o key).2 ≠ smcpStatusOk
  · rw [if_pos hbefore] at hok
    exact absurd hok hbefore
  · rw [if_neg hbefore] at hok ⊢
    rw [not_not] at hbefore
    refine ⟨hbefore, ?_⟩
    by_cases hskip : key = coapOptionBlock2 ∧ auto.nextBlock2 ≠ 0
    · rw [if_pos hskip, if_pos hskip]
    · rw [if_neg hskip] at hok ⊢
      rw [if_neg hskip]
      exact ⟨rfl, hok⟩

/-- The author's option, behind what was due before it. -/
theorem Requesting.own {o' : Outbound} {opts' : List (ℕ × List UInt8)}
    (h : Requesting auto o' opts') (hkey : key ≤ coapOptionInvalid)
    (hne : key ≠ coapOptionObserve)
    (hbefore : (smcpOutboundAddOptionsUpToKey_ auto o key).1 = o')
    (hok : (outboundAddOption auto o key value).2 = smcpStatusOk) :
    ∃ opts'', Requesting auto (outboundAddOption auto o key value).1 opts'' ∧
      values coapOptionObserve opts'' = values coapOptionObserve opts' ∧
      if key = coapOptionBlock2 ∧ auto.nextBlock2 ≠ 0 then opts'' = opts'
      else lastKey 0 opts'' = max key (lastKey 0 opts') ∧
        (key ≠ coapOptionBlock2 → values coapOptionBlock2 opts'' = values coapOptionBlock2 opts') := by
  obtain ⟨-, hown⟩ := outboundAddOption_ok hok
  rw [hbefore] at hown
  -- the author's own Block2 is left out where the automatic one is due
  by_cases hskip : key = coapOptionBlock2 ∧ auto.nextBlock2 ≠ 0
  · rw [if_pos hskip] at hown
    rw [hown]
    refine ⟨opts', h, rfl, ?_⟩
    rw [if_pos hskip]
  · rw [if_neg hskip] at hown
    rw [hown.1]
    obtain ⟨hlast, hobserve, hblock⟩ := h.insert_state key (value.take (word16 value.length))
    refine ⟨_, h.addOption hkey hown.2, ?_, ?_⟩
    · rw [hobserve, if_neg hne, List.append_nil]
    · rw [if_neg hskip]
      refine ⟨hlast, fun hother => ?_⟩
      rw [hblock, if_neg hother, List.append_nil]

/-- Observe in its place. -/
theorem Requesting.insertObserve (h : Requesting auto o opts)
    (hok : (smcpOutboundAddOption_ o coapOptionObserve []).2 = smcpStatusOk) :
    ∃ opts', Requesting auto (smcpOutboundAddOption_ o coapOptionObserve []).1 opts' ∧
      lastKey 0 opts' = max coapOptionObserve (lastKey 0 opts) ∧
      values coapOptionObserve opts' = values coapOptionObserve opts ++ [[]] ∧
      values coapOptionBlock2 opts' = values coapOptionBlock2 opts := by
  obtain ⟨hlast, hobserve, hblock⟩ := h.insert_state coapOptionObserve []
  refine ⟨_, h.addOption (by decide) hok, hlast, hobserve, ?_⟩
  exact hblock.trans (List.append_nil _)

/-- Observe takes eight bytes at most. -/
theorem Requesting.observe_fits_iff (h : Requesting auto o opts) :
    (smcpOutboundAddOption_ o coapOptionObserve []).2 = smcpStatusOk ↔ 8 ≤ o.spaceRemaining := by
  have hkey : coapOptionObserve ≤ coapOptionInvalid := by decide
  have hlen : word16 ([] : List UInt8).length + 8 = 8 := rfl
  constructor
  · intro hok
    by_contra hspace
    rw [addOption_tooBig (by rw [hlen]; exact hspace)] at hok
    have hbad : smcpStatusMessageTooBig = smcpStatusOk := hok
    exact absurd hbad (by decide)
  · intro hspace
    exact (addOption_spec h.composed h.bounded hkey (by rw [hlen]; exact hspace)).1

/-- Block2 in its place. -/
theorem Requesting.insertBlock2 (h : Requesting auto o opts)
    (hspace : (uintOptionValue auto.nextBlock2).length + 8 ≤ o.spaceRemaining) :
    ∃ opts', Requesting auto
        (smcpOutboundAddOption_ o coapOptionBlock2 (uintOptionValue auto.nextBlock2)).1 opts' ∧
      lastKey 0 opts' = max coapOptionBlock2 (lastKey 0 opts) ∧
      values coapOptionObserve opts' = values coapOptionObserve opts ∧
      values coapOptionBlock2 opts' =
        values coapOptionBlock2 opts ++ [uintOptionValue auto.nextBlock2] := by
  have hword := word16_uintOptionValue auto.nextBlock2
  have hkey : coapOptionBlock2 ≤ coapOptionInvalid := by decide
  obtain ⟨hok, -⟩ := addOption_spec h.composed h.bounded hkey (by rw [hword]; exact hspace)
  have h' := h.addOption hkey hok
  rw [hword, List.take_length] at h'
  obtain ⟨hlast, hobserve, hblock⟩ :=
    h.insert_state coapOptionBlock2 (uintOptionValue auto.nextBlock2)
  exact ⟨_, h', hlast, hobserve.trans (List.append_nil _), hblock⟩

/-- One more call, the first behind Observe. -/
theorem Requesting.call_first (h : Requesting auto o opts)
    (hstate : lastKey 0 opts < coapOptionObserve ∧ values coapOptionObserve opts = [] ∧
      values coapOptionBlock2 opts = []) (hfirst : firstBehindObserve keys = none)
    (hkey : key ≤ coapOptionInvalid) (hbehind : coapOptionObserve < key)
    (hok : (outboundAddOption auto o key value).2 = smcpStatusOk) :
    ∃ opts', Requesting auto (outboundAddOption auto o key value).1 opts' ∧
      AutoState auto (keys ++ [key]) opts' := by
  obtain ⟨hlt, hnoObserve, hnoBlock⟩ := hstate
  -- the first option behind Observe brings it out, if Block2 is not in between
  have hlastKey := h.composed.lastKey_eq
  have hbefore := (outboundAddOption_ok hok).1
  have hne := Nat.ne_of_gt hbehind
  have hobs : coapOptionObserve = 6 := rfl
  have hblk : coapOptionBlock2 = 23 := rfl
  unfold AutoState
  rw [firstBehindObserve_append, hfirst, Option.none_or, if_pos hbehind]
  dsimp only
  -- Block2 is due before this option, or it is not
  by_cases hdueBlock : auto.nextBlock2 ≠ 0 ∧ coapOptionBlock2 < key
  · have hdue := upToKey_block2 h.observe h.code h.composed h.bounded
      ⟨hdueBlock.1, by omega, hdueBlock.2⟩
    have hother := Nat.ne_of_gt hdueBlock.2
    by_cases hspace : (uintOptionValue auto.nextBlock2).length + 8 ≤ o.spaceRemaining
    · -- Block2 is the last option now, and Observe is not due any more
      rw [if_pos hspace] at hdue
      obtain ⟨opts1, h1, -, hobserve1, -⟩ := h.insertBlock2 hspace
      obtain ⟨opts', h', hobserve', hrest⟩ := h1.own hkey hne (congrArg Prod.fst hdue) hok
      rw [if_neg fun hskip => hother hskip.1] at hrest
      refine ⟨opts', h', ?_⟩
      rw [if_neg hdueBlock.1, if_pos hdueBlock.2, hobserve', hobserve1]
      exact ⟨by omega, .inl hnoObserve⟩
    · -- Block2 has no room, and is not due behind this option
      rw [if_neg hspace, if_pos (by rw [hlastKey]; exact hlt)] at hdue
      rw [hdue] at hbefore
      obtain ⟨opts1, h1, -, -, hblock1⟩ := h.insertObserve hbefore
      obtain ⟨opts', h', -, hrest⟩ := h1.own hkey hne (congrArg Prod.fst hdue) hok
      rw [if_neg fun hskip => hother hskip.1] at hrest
      refine ⟨opts', h', ?_⟩
      rw [if_neg hdueBlock.1, if_pos hdueBlock.2, hrest.2 hother, hblock1]
      exact ⟨by omega, .inr hnoBlock⟩
  · -- Observe goes in front of the option
    have hdue := upToKey_observe h.observe h.code (fun hall => hdueBlock ⟨hall.1, hall.2.2⟩)
      ⟨by rw [hlastKey]; exact hlt, hbehind⟩
    rw [hdue] at hbefore
    obtain ⟨opts1, h1, hlast1, hobserve1, hblock1⟩ := h.insertObserve hbefore
    obtain ⟨opts', h', hobserve', hrest⟩ := h1.own hkey hne (congrArg Prod.fst hdue) hok
    rw [hnoObserve, List.nil_append] at hobserve1
    refine ⟨opts', h', ?_⟩
    by_cases hnb : auto.nextBlock2 = 0
    · rw [if_neg fun hskip => hskip.2 hnb] at hrest
      rw [if_pos hnb, hobserve', hobserve1]
      exact ⟨by omega, rfl⟩
    · have hle : ¬coapOptionBlock2 < key := fun hlt' => hdueBlock ⟨hnb, hlt'⟩
      have hnone : ¬∃ k ∈ keys ++ [key], coapOptionBlock2 < k := by
        rintro ⟨k, hk, hlt'⟩
        rcases List.mem_append.1 hk with hk | hk
        · unfold firstBehindObserve at hfirst
          have hnot := List.find?_eq_none.1 hfirst k hk
          rw [decide_eq_true_eq] at hnot
          omega
        · rw [List.mem_singleton.1 hk] at hlt'
          exact hle hlt'
      rw [if_neg hnb, if_neg hle, if_neg hnone, hobserve', hobserve1]
      by_cases hskip : key = coapOptionBlock2
      · -- the author's own Block2 is left out
        rw [if_pos ⟨hskip, hnb⟩] at hrest
        rw [hrest, hblock1, hnoBlock]
        exact ⟨by omega, rfl, rfl⟩
      · rw [if_neg fun hall => hskip hall.1] at hrest
        rw [hrest.2 hskip, hblock1, hnoBlock]
        exact ⟨by omega, rfl, rfl⟩

/-- One more call keeps the state. -/
theorem Requesting.call (h : Requesting auto o opts) (hstate : AutoState auto keys opts)
    (hkey : key ≤ coapOptionInvalid) (hne : key ≠ coapOptionObserve)
    (hok : (outboundAddOption auto o key value).2 = smcpStatusOk) :
    ∃ opts', Requesting auto (outboundAddOption auto o key value).1 opts' ∧
      AutoState auto (keys ++ [key]) opts' := by
  have hlastKey := h.composed.lastKey_eq
  have hbefore := (outboundAddOption_ok hok).1
  have hobs : coapOptionObserve = 6 := rfl
  have hblk : coapOptionBlock2 = 23 := rfl
  -- nothing is due in front of the option
  have hplain (hblock : ¬(auto.nextBlock2 ≠ 0 ∧ o.lastOptionKey < coapOptionBlock2 ∧
      key > coapOptionBlock2)) (hobserve : ¬(o.lastOptionKey < coapOptionObserve ∧
      key > coapOptionObserve)) :=
    h.own hkey hne (congrArg Prod.fst (upToKey_none hblock hobserve)) hok
  unfold AutoState at hstate
  cases hfirst : firstBehindObserve keys with
  | none =>
    rw [hfirst] at hstate
    by_cases hbehind : coapOptionObserve < key
    · exact h.call_first hstate hfirst hkey hbehind hok
    · obtain ⟨hlt, hnoObserve, hnoBlock⟩ := hstate
      obtain ⟨opts', h', hobserve', hrest⟩ := hplain (by omega) (by omega)
      rw [if_neg (by omega)] at hrest
      refine ⟨opts', h', ?_⟩
      unfold AutoState
      rw [firstBehindObserve_append, hfirst, Option.none_or, if_neg hbehind]
      dsimp only
      rw [hobserve', hrest.2 (by omega)]
      exact ⟨by omega, hnoObserve, hnoBlock⟩
  | some k =>
    rw [hfirst] at hstate
    dsimp only at hstate
    have hkeep : firstBehindObserve (keys ++ [key]) = some k := by
      rw [firstBehindObserve_append, hfirst, Option.some_or]
    unfold AutoState
    rw [hkeep]
    dsimp only
    by_cases hnb : auto.nextBlock2 = 0
    · rw [if_pos hnb] at hstate
      obtain ⟨opts', h', hobserve', hrest⟩ := hplain (fun hall => hall.1 hnb) (by omega)
      rw [if_neg fun hskip => hskip.2 hnb] at hrest
      refine ⟨opts', h', ?_⟩
      rw [if_pos hnb, hobserve', hstate.2]
      exact ⟨by omega, rfl⟩
    · rw [if_neg hnb] at hstate
      by_cases hlate : coapOptionBlock2 < k
      · rw [if_pos hlate] at hstate
        obtain ⟨opts', h', hobserve', hrest⟩ := hplain (by omega) (by omega)
        refine ⟨opts', h', ?_⟩
        rw [if_neg hnb, if_pos hlate, hobserve']
        by_cases hskip : key = coapOptionBlock2
        · rw [if_pos ⟨hskip, hnb⟩] at hrest
          rw [hrest]
          exact hstate
        · rw [if_neg fun hall => hskip hall.1] at hrest
          rw [hrest.2 hskip]
          exact ⟨by omega, hstate.2⟩
      · rw [if_neg hlate] at hstate
        by_cases hpast : ∃ k ∈ keys, coapOptionBlock2 < k
        · -- both are there
          rw [if_pos hpast] at hstate
          obtain ⟨opts', h', hobserve', hrest⟩ := hplain (by omega) (by omega)
          have hpast' : ∃ k ∈ keys ++ [key], coapOptionBlock2 < k := by
            obtain ⟨k', hk', hlt'⟩ := hpast
            exact ⟨k', List.mem_append_left _ hk', hlt'⟩
          refine ⟨opts', h', ?_⟩
          rw [if_neg hnb, if_neg hlate, if_pos hpast', hobserve']
          by_cases hskip : key = coapOptionBlock2
          · rw [if_pos ⟨hskip, hnb⟩] at hrest
            rw [hrest]
            exact hstate
          · rw [if_neg fun hall => hskip hall.1] at hrest
            rw [hrest.2 hskip]
            exact ⟨by omega, hstate.2⟩
        · rw [if_neg hpast] at hstate
          obtain ⟨hrange, hobserve, hnoBlock⟩ := hstate
          by_cases hgt : coapOptionBlock2 < key
          · -- Block2 goes in front of the option
            have hdue := upToKey_block2 h.observe h.code h.composed h.bounded
              ⟨hnb, by omega, hgt⟩
            have hother := Nat.ne_of_gt hgt
            have hpast' : ∃ k ∈ keys ++ [key], coapOptionBlock2 < k :=
              ⟨key, List.mem_append_right _ (List.mem_singleton_self key), hgt⟩
            by_cases hspace : (uintOptionValue auto.nextBlock2).length + 8 ≤ o.spaceRemaining
            · rw [if_pos hspace] at hdue
              obtain ⟨opts1, h1, hlast1, hobserve1, hblock1⟩ := h.insertBlock2 hspace
              obtain ⟨opts', h', hobserve', hrest⟩ := h1.own hkey hne (congrArg Prod.fst hdue) hok
              rw [if_neg fun hskip => hother hskip.1] at hrest
              refine ⟨opts', h', ?_⟩
              rw [if_neg hnb, if_neg hlate, if_pos hpast', hobserve', hobserve1, hrest.2 hother,
                hblock1, hnoBlock]
              exact ⟨by omega, hobserve, rfl⟩
            · rw [if_neg hspace, if_neg (by omega)] at hdue
              rw [hdue] at hbefore
              have hbad : smcpStatusMessageTooBig = smcpStatusOk := hbefore
              exact absurd hbad (by decide)
          · obtain ⟨opts', h', hobserve', hrest⟩ := hplain (by omega) (by omega)
            have hpast' : ¬∃ k ∈ keys ++ [key], coapOptionBlock2 < k := by
              rintro ⟨k', hk', hlt'⟩
              rcases List.mem_append.1 hk' with hk' | hk'
              · exact hpast ⟨k', hk', hlt'⟩
              · rw [List.mem_singleton.1 hk'] at hlt'
                exact hgt hlt'
            refine ⟨opts', h', ?_⟩
            rw [if_neg hnb, if_neg hlate, if_neg hpast', hobserve']
            by_cases hskip : key = coapOptionBlock2
            · rw [if_pos ⟨hskip, hnb⟩] at hrest
              rw [hrest]
              exact ⟨hrange, hobserve, hnoBlock⟩
            · rw [if_neg fun hall => hskip hall.1] at hrest
              rw [hrest.2 hskip]
              exact ⟨by omega, hobserve, hnoBlock⟩

/-! ## The end of the options -/

/-- What `smcp_outbound_get_content_ptr` adds. -/
theorem Requesting.finish (h : Requesting auto o opts) (hstate : AutoState auto keys opts) :
    ∃ opts', Composed (outboundGetContentPtr auto o) opts' ∧
      ((values coapOptionObserve opts').length = 1 ∧
          (auto.nextBlock2 ≠ 0 →
            values coapOptionBlock2 opts' = [uintOptionValue auto.nextBlock2]) ↔
        AutomaticFits auto keys o.spaceRemaining) := by
  have hlastKey := h.composed.lastKey_eq
  have hobs : coapOptionObserve = 6 := rfl
  have hblk : coapOptionBlock2 = 23 := rfl
  have hinv : coapOptionInvalid = 65535 := rfl
  -- what is still due comes out here
  have hptr : outboundGetContentPtr auto o =
      (smcpOutboundAddOptionsUpToKey_ auto o coapOptionInvalid).1 := if_pos h.code.1
  rw [hptr]
  unfold AutoState at hstate
  unfold AutomaticFits
  -- Observe is still due if no option behind it has been added
  cases hfirst : firstBehindObserve keys with
  | none =>
    rw [hfirst] at hstate
    dsimp only at hstate ⊢
    obtain ⟨hlt, hnoObserve, hnoBlock⟩ := hstate
    by_cases hnb : auto.nextBlock2 = 0
    · rw [upToKey_observe h.observe h.code (fun hall => hall.1 hnb) (by omega)]
      by_cases hspace : 8 ≤ o.spaceRemaining
      · obtain ⟨opts', h', -, hobserve', -⟩ := h.insertObserve (h.observe_fits_iff.2 hspace)
        refine ⟨opts', h'.composed, iff_of_true ⟨?_, fun hne => absurd hnb hne⟩ ⟨hnb, hspace⟩⟩
        rw [hobserve', hnoObserve]
        rfl
      · have hspace' : ¬word16 ([] : List UInt8).length + 8 ≤ o.spaceRemaining := hspace
        rw [addOption_tooBig hspace']
        refine ⟨opts, h.composed, iff_of_false (fun hall => ?_) fun hall => hspace hall.2⟩
        rw [hnoObserve] at hall
        exact absurd hall.1 (by decide)
    · rw [upToKey_block2 h.observe h.code h.composed h.bounded ⟨hnb, by omega, by omega⟩]
      by_cases hspace : (uintOptionValue auto.nextBlock2).length + 8 ≤ o.spaceRemaining
      · obtain ⟨opts', h', -, hobserve', -⟩ := h.insertBlock2 hspace
        rw [if_pos hspace]
        refine ⟨opts', h'.composed, iff_of_false (fun hall => ?_) fun hall => hnb hall.1⟩
        rw [hobserve', hnoObserve] at hall
        exact absurd hall.1 (by decide)
      · rw [if_neg hspace, if_pos (by omega)]
        have hmissing {opts' : List (ℕ × List UInt8)} (hnone : values coapOptionBlock2 opts' = []) :
            ¬((values coapOptionObserve opts').length = 1 ∧
              (auto.nextBlock2 ≠ 0 →
                values coapOptionBlock2 opts' = [uintOptionValue auto.nextBlock2])) := by
          intro hall
          have hone := hall.2 hnb
          rw [hnone] at hone
          exact absurd hone (List.cons_ne_nil _ _).symm
        by_cases hroom : 8 ≤ o.spaceRemaining
        · obtain ⟨opts', h', -, -, hblock'⟩ := h.insertObserve (h.observe_fits_iff.2 hroom)
          exact ⟨opts', h'.composed,
            iff_of_false (hmissing (hblock'.trans hnoBlock)) fun hall => hnb hall.1⟩
        · have hroom' : ¬word16 ([] : List UInt8).length + 8 ≤ o.spaceRemaining := hroom
          rw [addOption_tooBig hroom']
          exact ⟨opts, h.composed, iff_of_false (hmissing hnoBlock) fun hall => hnb hall.1⟩
  | some k =>
    rw [hfirst] at hstate
    dsimp only at hstate ⊢
    have hplain (hblock : ¬(auto.nextBlock2 ≠ 0 ∧ o.lastOptionKey < coapOptionBlock2 ∧
        coapOptionInvalid > coapOptionBlock2)) (hbehind : coapOptionObserve ≤ lastKey 0 opts) :
        smcpOutboundAddOptionsUpToKey_ auto o coapOptionInvalid = (o, smcpStatusOk) :=
      upToKey_none hblock (by omega)
    by_cases hnb : auto.nextBlock2 = 0
    · rw [if_pos hnb] at hstate
      rw [hplain (fun hall => hall.1 hnb) hstate.1]
      refine ⟨opts, h.composed, iff_of_true ⟨?_, fun hne => absurd hnb hne⟩ (.inl hnb)⟩
      rw [hstate.2]
      rfl
    · rw [if_neg hnb] at hstate
      by_cases hlate : coapOptionBlock2 < k
      · rw [if_pos hlate] at hstate
        rw [hplain (by omega) (by omega)]
        refine ⟨opts, h.composed, iff_of_false (fun hall => ?_) fun hall => ?_⟩
        · rcases hstate.2 with hnone | hnone
          · rw [hnone] at hall
            exact absurd hall.1 (by decide)
          · have hone := hall.2 hnb
            rw [hnone] at hone
            exact absurd hone (List.cons_ne_nil _ _).symm
        · rcases hall with hzero | ⟨hle, -⟩
          · exact hnb hzero
          · omega
      · rw [if_neg hlate] at hstate
        by_cases hpast : ∃ k ∈ keys, coapOptionBlock2 < k
        · rw [if_pos hpast] at hstate
          rw [hplain (by omega) (by omega)]
          refine ⟨opts, h.composed, iff_of_true ⟨?_, fun _ => hstate.2.2⟩
            (.inr ⟨by omega, .inl hpast⟩)⟩
          rw [hstate.2.1]
          rfl
        · -- Block2 is left for the end
          rw [if_neg hpast] at hstate
          obtain ⟨hrange, hobserve, hnoBlock⟩ := hstate
          rw [upToKey_block2 h.observe h.code h.composed h.bounded ⟨hnb, by omega, by omega⟩]
          by_cases hspace : (uintOptionValue auto.nextBlock2).length + 8 ≤ o.spaceRemaining
          · obtain ⟨opts', h', -, hobserve', hblock'⟩ := h.insertBlock2 hspace
            rw [if_pos hspace]
            refine ⟨opts', h'.composed, iff_of_true ⟨?_, fun _ => ?_⟩
              (.inr ⟨by omega, .inr hspace⟩)⟩
            · rw [hobserve', hobserve]
              rfl
            · rw [hblock', hnoBlock]
              rfl
          · rw [if_neg hspace, if_neg (by omega)]
            refine ⟨opts, h.composed, iff_of_false (fun hall => ?_) fun hall => ?_⟩
            · have hone := hall.2 hnb
              rw [hnoBlock] at hone
              exact absurd hone (List.cons_ne_nil _ _).symm
            · rcases hall with hzero | ⟨-, hin | hfits⟩
              · exact hnb hzero
              · exact hpast hin
              · exact hspace hfits

end

/-! ## The whole request -/

/-- The calls, one after the other. -/
theorem Requesting.calls {auto : AutoOptions} {s s' : Instance} {opts : List (ℕ × List UInt8)}
    {keys : List ℕ} {calls : List (Fin 65536 × List UInt8)}
    (h : Requesting auto s.outbound opts) (hauto : s.autoOptions = auto)
    (hstate : AutoState auto keys opts) (hkeys : ∀ c ∈ calls, c.1.val ≠ coapOptionObserve)
    (hcalls : addAllOptions s calls = some s') :
    s'.autoOptions = auto ∧ ∃ opts', Requesting auto s'.outbound opts' ∧
      AutoState auto (keys ++ calls.map fun c => c.1.val) opts' := by
  -- induction on the calls, with the state of the automatic options as the invariant
  induction calls generalizing s opts keys with
  | nil =>
    rw [addAllOptions, Option.some.injEq] at hcalls
    rw [← hcalls, List.map_nil, List.append_nil]
    exact ⟨hauto, opts, h, hstate⟩
  | cons c calls ih =>
    rw [addAllOptions] at hcalls
    by_cases hok : (smcpOutboundAddOption s c.1 c.2).2 = smcpStatusOk
    · rw [if_pos hok] at hcalls
      have hok' : (outboundAddOption auto s.outbound c.1 c.2).2 = smcpStatusOk := by
        rw [← hauto]
        exact hok
      obtain ⟨opts1, h1, hstate1⟩ := h.call hstate (Nat.le_of_lt_succ c.1.isLt)
        (hkeys c List.mem_cons_self) hok'
      have hout : (smcpOutboundAddOption s c.1 c.2).1.outbound =
          (outboundAddOption auto s.outbound c.1 c.2).1 := by
        rw [← hauto]
        rfl
      rw [← hout] at h1
      have hrest := ih h1 hauto hstate1 (fun c' hc' => hkeys c' (List.mem_cons_of_mem c hc')) hcalls
      rw [List.append_assoc] at hrest
      exact hrest
    · rw [if_neg hok] at hcalls
      exact absurd hcalls (by simp)

/-- The automatic options of an observing transaction. -/
theorem autoOptions_eq {s : Instance} {h : TransactionPtr} (hcurrent : s.currentTransaction = some h) :
    s.autoOptions = ⟨(s.transaction h).nextBlock2,
      hasFlag (s.transaction h).flags smcpTransactionObserve⟩ := by
  unfold Instance.autoOptions
  rw [hcurrent]

/-- Its request, before it has options. -/
theorem requesting_begin {s : Instance} {h : TransactionPtr} {code : ℕ} (tt : ℕ)
    (hcurrent : s.currentTransaction = some h)
    (hobserve : hasFlag (s.transaction h).flags smcpTransactionObserve = true)
    (hcode : code % 256 ≠ 0 ∧ code % 256 < coapResult100) :
    Requesting s.autoOptions (smcpOutboundBegin s code tt).1.outbound [] ∧
      AutoState s.autoOptions [] [] := by
  obtain ⟨-, hw⟩ := composing_begin (Or.inr (Eq.refl s)) code tt
  refine ⟨⟨composed_begin s code tt, hw.bounded, ?_, hcode⟩, by decide, rfl, rfl⟩
  rw [autoOptions_eq hcurrent]
  exact hobserve

/-- The request of an observing transaction gets exactly one Observe option, and the Block2 option
that is due and no other, exactly when the first key behind Observe, if there is a Block2 option to
come, is not behind Block2, and the option that is left for the end has room there. -/
theorem automaticOptions_iff {s s' : Instance} {h : TransactionPtr} {code tt : ℕ}
    {calls : List (Fin 65536 × List UInt8)} (hcurrent : s.currentTransaction = some h)
    (hobserve : hasFlag (s.transaction h).flags smcpTransactionObserve = true)
    (hcode : code % 256 ≠ 0 ∧ code % 256 < coapResult100)
    (hkeys : ∀ c ∈ calls, c.1.val ≠ coapOptionObserve)
    (hcalls : addAllOptions (smcpOutboundBegin s code tt).1 calls = some s') :
    (∃ opts, Composed (smcpOutboundGetContentPtr s').outbound opts ∧
      (values coapOptionObserve opts).length = 1 ∧
      ((s.transaction h).nextBlock2 ≠ 0 →
        values coapOptionBlock2 opts = [uintOptionValue (s.transaction h).nextBlock2])) ↔
    AutomaticFits s.autoOptions (calls.map fun c => c.1.val) s'.outbound.spaceRemaining := by
  -- the request as it is begun
  obtain ⟨hrequest, hstate⟩ := requesting_begin tt hcurrent hobserve hcode
  have hauto : (smcpOutboundBegin s code tt).1.autoOptions = s.autoOptions := rfl
  -- the calls of the author, and then what is still due at the end
  obtain ⟨hauto', opts, hrequest', hstate'⟩ := hrequest.calls hauto hstate hkeys hcalls
  obtain ⟨opts', hc', hiff⟩ := hrequest'.finish hstate'
  have hnext : s.autoOptions.nextBlock2 = (s.transaction h).nextBlock2 := by
    rw [autoOptions_eq hcurrent]
  have hout : (smcpOutboundGetContentPtr s').outbound =
      outboundGetContentPtr s.autoOptions s'.outbound := by
    rw [← hauto']
    rfl
  rw [List.nil_append, hnext] at hiff
  rw [hout, ← hiff]
  constructor
  · rintro ⟨opts'', hc'', hall⟩
    rw [hc'.unique hc'']
    exact hall
  · intro hall
    exact ⟨opts', hc', hall⟩

/-- A transaction that observes, and asks for the block with the Block2 value 0x12. -/
def observingTransaction : Instance :=
  (({ smcpCreate default (fun _ => 0) (fun _ => 1) with currentTransaction := some (.user 0) } :
    Instance).setTransaction (.user 0) fun t =>
      { t with flags := smcpTransactionObserve, nextBlock2 := 0x12 })

/-- `/a` is put between the two: Observe, Uri-Path and Block2. -/
theorem automaticOptions_path :
    ∃ s', addAllOptions (smcpOutboundBegin observingTransaction coapMethodGet 0).1 [(11, [0x61])] =
        some s' ∧
      Composed (smcpOutboundGetContentPtr s').outbound [(6, []), (11, [0x61]), (23, [0x12])] := by
  generalize hcalls : addAllOptions (smcpOutboundBegin observingTransaction coapMethodGet 0).1
    [(11, [0x61])] = r
  cases r with
  | none =>
    have hsome : (addAllOptions (smcpOutboundBegin observingTransaction coapMethodGet 0).1
      [(11, [0x61])]).isSome = true := by decide +kernel
    rw [hcalls] at hsome
    exact absurd hsome (by decide)
  | some s' =>
    have hroom : s'.outbound.spaceRemaining = 1022 := by
      have heq : (addAllOptions (smcpOutboundBegin observingTransaction coapMethodGet 0).1
        [(11, [0x61])]).map (fun s => s.outbound.spaceRemaining) = some 1022 := by decide +kernel
      rw [hcalls] at heq
      exact Option.some.inj heq
    -- the bytes of the options, which only these options have
    have hbytes : readBytes (smcpOutboundGetContentPtr s').outbound.packetBytes.byte
        (smcpOutboundGetContentPtr s').outbound.optionsStart
        ((smcpOutboundGetContentPtr s').outbound.contentPtr - 1 -
          (smcpOutboundGetContentPtr s').outbound.optionsStart) =
        encode 0 [(6, []), (11, [0x61]), (23, [0x12])] := by
      have heq : (addAllOptions (smcpOutboundBegin observingTransaction coapMethodGet 0).1
        [(11, [0x61])]).map (fun s =>
          let o := (smcpOutboundGetContentPtr s).outbound
          readBytes o.packetBytes.byte o.optionsStart (o.contentPtr - 1 - o.optionsStart)) =
          some (encode 0 [(6, []), (11, [0x61]), (23, [0x12])]) := by decide +kernel
      rw [hcalls] at heq
      exact Option.some.inj heq
    have hordered : Ordered coapOptionInvalid coapMaxOptionValueSize 0
        [(6, []), (11, [0x61]), (23, [0x12])] := by decide
    obtain ⟨opts, hc, -, -⟩ := (automaticOptions_iff (h := .user 0) rfl (by decide)
      (by decide) (by decide) hcalls).2 (by rw [hroom]; exact Or.inr ⟨by decide, Or.inr (by decide)⟩)
    have hopts : opts = [(6, []), (11, [0x61]), (23, [0x12])] :=
      encode_inj hc.ordered hordered (by decide) (by decide) (hc.read.symm.trans hbytes)
    rw [hopts] at hc
    exact ⟨s', rfl, hc⟩

/-- Without any option of its own, the request has the Block2 option and does not observe. -/
theorem automaticOptions_none :
    ¬∀ (s s' : Instance) (h : TransactionPtr) (code tt : ℕ) (calls : List (Fin 65536 × List UInt8)),
      s.currentTransaction = some h →
      hasFlag (s.transaction h).flags smcpTransactionObserve = true →
      code % 256 ≠ 0 ∧ code % 256 < coapResult100 →
      (∀ c ∈ calls, c.1.val ≠ coapOptionObserve) →
      addAllOptions (smcpOutboundBegin s code tt).1 calls = some s' →
      ∃ opts, Composed (smcpOutboundGetContentPtr s').outbound opts ∧
        (values coapOptionObserve opts).length = 1 ∧
        ((s.transaction h).nextBlock2 ≠ 0 →
          values coapOptionBlock2 opts = [uintOptionValue (s.transaction h).nextBlock2]) := by
  intro hall
  have hcurrent : observingTransaction.currentTransaction = some (.user 0) := rfl
  have hobserve : hasFlag (observingTransaction.transaction (.user 0)).flags
      smcpTransactionObserve = true := by decide
  have hcode : coapMethodGet % 256 ≠ 0 ∧ coapMethodGet % 256 < coapResult100 := by decide
  obtain ⟨opts, hc, hone, hblock⟩ := hall observingTransaction _ (.user 0) coapMethodGet 0 []
    hcurrent hobserve hcode (by decide) rfl
  obtain ⟨hrequest, hstate⟩ := requesting_begin 0 hcurrent hobserve hcode
  obtain ⟨opts', hc', hiff⟩ := hrequest.finish hstate
  obtain rfl : opts = opts' := hc.unique hc'
  obtain ⟨hzero, -⟩ := hiff.1 ⟨hone, hblock⟩
  exact absurd hzero (by decide)

end Smcp
