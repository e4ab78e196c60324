import Smcp.Inbound.Iterator
import Smcp.Outbound.Uri

/-!
# The path of a request as text

`smcp_inbound_get_path` of `smcp-inbound.c`, and the way back through `smcp_outbound_set_uri`.

* `getPath_eq`: the text is that of the Uri-Path and Uri-Query options;
* `getPath_setUri`: exactly when the options come back.
-/

namespace Smcp

open ByteMemory OptionFormat

/-! ## The function -/

def smcpMaxUriLength : ℕ := 1024

/-! Flags of `smcp_inbound_get_path`. -/
def smcpGetPathRemaining : ℕ := 1 <<< 0
def smcpGetPathLeadingSlash : ℕ := 1 <<< 1
def smcpGetPathIncludeQuery : ℕ := 1 <<< 2

/-- `iter+=url_encode_cstr(iter, src, SMCP_MAX_URI_LENGTH-(iter-where))`. The text is what lies
between `where` and `iter`; the size is a `size_t`. -/
def appendEncoded (text src : List UInt8) : List UInt8 :=
  let size := (smcpMaxUriLength + 18446744073709551616 - text.length) % 18446744073709551616
  let f := urlEncodeCstr (src ++ [0]) size
  text ++ f.stored.take f.ret

/-- Skip the options up to the next one with the key. -/
def Inbound.skipTo (key : ℕ) : (fuel : ℕ) → Inbound → Inbound
  | 0, i => i
  | fuel + 1, i =>
    if i.peekOption.1 = key ∨ i.peekOption.1 = coapOptionInvalid then i
    else skipTo key fuel i.nextOption.inbound

/-- The values that `smcp_inbound_next_option` returns as long as it returns the key. -/
def Inbound.readValues (key : ℕ) : (fuel : ℕ) → Inbound → List (List UInt8)
  | 0, _ => []
  | fuel + 1, i =>
    let r := i.nextOption
    if r.key = key then
      let v := r.value.getD (0, 0)
      readBytes i.bytes v.1 v.2 :: readValues key fuel r.inbound
    else []

/-- The body of the loop over the path. -/
def appendSegment (flags : ℕ) (text segment : List UInt8) : List UInt8 :=
  let text :=
    if text ≠ [] ∨ hasFlag flags smcpGetPathLeadingSlash then text ++ [ascii '/'] else text
  appendEncoded text segment

/-- The body of the loop over the query. -/
def appendItem (text item : List UInt8) : List UInt8 :=
  let text := if text.getLast? ≠ some (ascii '?') then text ++ [ascii ';'] else text
  let key := splitItem (cString item)
  let text := appendEncoded text key.1
  match key.2 with
  | some value => appendEncoded (text ++ [ascii '=']) value
  | none => text

/-- `smcp_inbound_get_path`: the string at `where`. The iterator is put back, and so are the
terminators that are stored in the packet for a while. -/
def smcpInboundGetPath (i : Inbound) (flags : ℕ) : List UInt8 :=
  let fuel := i.packetLen + 1
  let first := if hasFlag flags smcpGetPathRemaining then i else i.resetNextOption
  let segments := (first.skipTo coapOptionUriPath fuel).readValues coapOptionUriPath fuel
  let text := segments.foldl (appendSegment flags) []
  if hasFlag flags smcpGetPathIncludeQuery then
    let j := i.resetNextOption.skipTo coapOptionUriQuery fuel
    if j.peekOption.1 = coapOptionUriQuery then
      cString ((j.readValues coapOptionUriQuery fuel).foldl appendItem (text ++ [ascii '?']))
    else cString text
  else cString text

/-! ## The iterator -/

section
variable {i : Inbound} {opts : List (ℕ × List UInt8)} {payload : Option (List UInt8)} {key : ℕ}

/-- Peeking tells what the next call returns. -/
theorem Inbound.peekOption_eq_nextOption (h : i.lastOptionKey ≠ coapOptionInvalid) :
    i.peekOption = (i.nextOption.key, i.nextOption.value) := by
  unfold Inbound.peekOption Inbound.nextOption
  cases i.thisOption with
  | none => rfl
  | some p =>
    dsimp only
    by_cases hp : p < i.packetLen ∧ i.bytes p ≠ 0xFF
    · rw [if_pos hp, if_pos ⟨h, hp⟩]
      cases coapDecodeOption i.bytes p i.lastOptionKey with
      | none => rfl
      | some d => rfl
    · rw [if_neg hp, if_neg fun hall => hp hall.2]

/-- The key that is seen is the one that comes. -/
theorem Inbound.peekOption_eq (h : i.lastOptionKey ≠ coapOptionInvalid) :
    i.peekOption.1 = i.nextOption.key := by
  rw [Inbound.peekOption_eq_nextOption h]

/-- An option that was read leaves its key. -/
theorem Inbound.nextOption_lastOptionKey :
    i.nextOption.inbound.lastOptionKey = i.nextOption.key := by
  unfold Inbound.nextOption
  cases i.thisOption with
  | none => rfl
  | some p =>
    dsimp only
    split_ifs
    · cases coapDecodeOption i.bytes p i.lastOptionKey with
      | none => rfl
      | some d => rfl
    · rfl

/-- Skipping options moves the option pointer. -/
theorem Inbound.sameMessage_skipTo (fuel : ℕ) : i.SameMessage (i.skipTo key fuel) := by
  induction fuel generalizing i with
  | zero => exact Inbound.SameMessage.refl i
  | succ fuel ih =>
    rw [Inbound.skipTo]
    split_ifs
    · exact Inbound.SameMessage.refl i
    · exact (Inbound.sameMessage_nextOption i).trans ih

/-- The options in front of the one with the key are skipped. -/
theorem Inbound.Ahead.skipTo (h : i.Ahead opts payload) (hlast : i.lastOptionKey ≠ coapOptionInvalid)
    {fuel : ℕ} (hfuel : opts.length < fuel) :
    (i.skipTo key fuel).Ahead
        (opts.dropWhile fun o => decide (o.1 ≠ key ∧ o.1 ≠ coapOptionInvalid)) payload ∧
      (i.skipTo key fuel).lastOptionKey ≠ coapOptionInvalid := by
  -- induction on the options: each one is skipped or stops the search
  induction opts generalizing i fuel with
  | nil =>
    cases fuel with
    | zero => exact absurd hfuel (by simp)
    | succ fuel =>
      obtain ⟨hnext, -⟩ := h.nextOption_nil
      rw [Inbound.skipTo, Inbound.peekOption_eq hlast, hnext, if_pos (.inr rfl)]
      exact ⟨h, hlast⟩
  | cons o opts ih =>
    obtain ⟨k, v⟩ := o
    cases fuel with
    | zero => exact absurd hfuel (by simp)
    | succ fuel =>
      obtain ⟨hkey, -, hrest⟩ := h.nextOption_cons
      rw [Inbound.skipTo, Inbound.peekOption_eq hlast, hkey]
      by_cases hstop : k = key ∨ k = coapOptionInvalid
      · rw [if_pos hstop, List.dropWhile_cons_of_neg (by simp only [decide_eq_true_eq]; tauto)]
        exact ⟨h, hlast⟩
      · rw [if_neg hstop, List.dropWhile_cons_of_pos (by simp only [decide_eq_true_eq]; tauto)]
        apply ih hrest
        · rw [Inbound.nextOption_lastOptionKey, hkey]
          exact fun heq => hstop (.inr heq)
        · simpa using hfuel

/-- The values of the options with the key that come next. -/
theorem Inbound.Ahead.readValues (h : i.Ahead opts payload) (hkey : key ≠ coapOptionInvalid)
    {fuel : ℕ} (hfuel : opts.length < fuel) :
    i.readValues key fuel = (opts.takeWhile fun o => decide (o.1 = key)).map Prod.snd := by
  induction opts generalizing i fuel with
  | nil =>
    cases fuel with
    | zero => exact absurd hfuel (by simp)
    | succ fuel =>
      obtain ⟨hnext, -⟩ := h.nextOption_nil
      rw [Inbound.readValues, hnext, if_neg hkey.symm]
      rfl
  | cons o opts ih =>
    obtain ⟨k, v⟩ := o
    cases fuel with
    | zero => exact absurd hfuel (by simp)
    | succ fuel =>
      obtain ⟨hk, ⟨p, hvalue, hbytes, -⟩, hrest⟩ := h.nextOption_cons
      rw [Inbound.readValues, hk, hvalue]
      dsimp only
      by_cases heq : k = key
      · rw [if_pos heq, List.takeWhile_cons_of_pos (by simpa using heq), List.map_cons,
          Option.getD_some, hbytes, ih hrest (by simpa using hfuel)]
      · rw [if_neg heq, List.takeWhile_cons_of_neg (by simpa using heq), List.map_nil]

/-- The values of an option among those ahead, as the two loops find them. -/
theorem Inbound.Ahead.readValues_skipTo (h : i.Ahead opts payload)
    (hlast : i.lastOptionKey ≠ coapOptionInvalid) (hsorted : Sorted opts)
    (hkey : key < coapOptionInvalid) :
    (i.skipTo key (i.packetLen + 1)).readValues key (i.packetLen + 1) = values key opts := by
  have hlen : opts.length < i.packetLen + 1 := Nat.lt_succ_of_le h.length_le
  obtain ⟨hskip, -⟩ := h.skipTo hlast hlen
  have hshort := (List.dropWhile_suffix (l := opts) fun o =>
    decide (o.1 ≠ key ∧ o.1 ≠ coapOptionInvalid)).length_le
  rw [hskip.readValues hkey.ne (by omega)]
  exact values_eq_takeWhile hsorted hkey

/-- The values of an option of a verified packet, as the two loops find them. -/
theorem readValues_skipTo (hahead : i.resetNextOption.Ahead opts payload) (hsorted : Sorted opts)
    (hkey : key < coapOptionInvalid) :
    (i.resetNextOption.skipTo key (i.packetLen + 1)).readValues key (i.packetLen + 1) =
      values key opts :=
  hahead.readValues_skipTo (show (0 : ℕ) ≠ coapOptionInvalid by decide) hsorted hkey

/-- Behind the first loop the key is found if there are values. -/
theorem peekOption_skipTo (hahead : i.resetNextOption.Ahead opts payload) (hsorted : Sorted opts)
    (hkey : key < coapOptionInvalid) :
    (i.resetNextOption.skipTo key (i.packetLen + 1)).peekOption.1 = key ↔ values key opts ≠ [] := by
  have hlen : opts.length < i.packetLen + 1 := Nat.lt_succ_of_le hahead.length_le
  obtain ⟨hskip, hlast⟩ := hahead.skipTo (show (0 : ℕ) ≠ coapOptionInvalid by decide) hlen
  rw [Inbound.peekOption_eq hlast, ← values_eq_takeWhile hsorted hkey]
  generalize (opts.dropWhile fun o => decide (o.1 ≠ key ∧ o.1 ≠ coapOptionInvalid)) = rest at hskip
  cases rest with
  | nil =>
    rw [hskip.nextOption_nil.1]
    exact iff_of_false hkey.ne' fun hne => hne rfl
  | cons o rest =>
    obtain ⟨k, v⟩ := o
    rw [hskip.nextOption_cons.1]
    by_cases heq : k = key
    · rw [List.takeWhile_cons_of_pos (by simpa using heq)]
      exact iff_of_true heq (by simp)
    · rw [List.takeWhile_cons_of_neg (by simpa using heq)]
      exact iff_of_false heq fun hne => hne rfl

end

/-! ## The text -/

section
variable {text src : List UInt8} {segments items : List (List UInt8)}

/-- With room for the terminator, the text gets longer by the escaped string. -/
theorem appendEncoded_eq (hsrc : ∀ c ∈ src, c ≠ 0)
    (hroom : text.length + (escape src).length < smcpMaxUriLength) :
    appendEncoded text src = text ++ escape src := by
  unfold smcpMaxUriLength at hroom
  have hsize : (smcpMaxUriLength + 18446744073709551616 - text.length) % 18446744073709551616 =
      1024 - text.length := by
    unfold smcpMaxUriLength
    omega
  unfold appendEncoded
  dsimp only
  rw [hsize, urlEncodeCstr_eq [] hsrc (by omega)]
  simp

/-- With enough room all segments are appended, each behind a slash. -/
theorem foldl_appendSegment {flags : ℕ} (hflags : hasFlag flags smcpGetPathLeadingSlash = true)
    (hsegments : ∀ s ∈ segments, ∀ c ∈ s, c ≠ 0)
    (hroom : text.length + (segments.flatMap fun s => ascii '/' :: escape s).length <
      smcpMaxUriLength) :
    segments.foldl (appendSegment flags) text =
      text ++ segments.flatMap fun s => ascii '/' :: escape s := by
  induction segments generalizing text with
  | nil => simp
  | cons s segments ih =>
    simp only [List.flatMap_cons, List.length_append, List.length_cons] at hroom
    have hstep : appendSegment flags text s = text ++ ascii '/' :: escape s := by
      unfold appendSegment
      rw [if_pos (.inr hflags), appendEncoded_eq (hsegments s List.mem_cons_self)
        (by rw [List.length_append, List.length_singleton]; omega), List.append_assoc,
        List.singleton_append]
    rw [List.foldl_cons, hstep, ih (fun s' hs' => hsegments s' (List.mem_cons_of_mem s hs'))
      (by rw [List.length_append, List.length_cons]; omega), List.flatMap_cons, List.append_assoc]

/-- An item is appended behind its separator, escaped. -/
theorem appendItem_eq {item : List UInt8} (hitem : ∀ c ∈ item, c ≠ 0)
    {front : List UInt8}
    (hfront : (if text.getLast? ≠ some (ascii '?') then text ++ [ascii ';'] else text) = front)
    (hroom : front.length + (escapeItem item).length < smcpMaxUriLength) :
    appendItem text item = front ++ escapeItem item := by
  unfold appendItem
  dsimp only
  -- the separator is in front already, and the item stands behind it
  rw [hfront]
  have hkey : ∀ c ∈ (splitItem item).1, c ≠ 0 := by
    intro c hc
    exact hitem c ((List.takeWhile_prefix _).subset hc)
  -- no zero in the item, so the string that is read is all of it
  rw [cString_eq_self hitem]
  unfold escapeItem at hroom ⊢
  rw [List.length_append] at hroom
  rw [appendEncoded_eq hkey (by omega)]
  -- an item without a value has no equals sign
  cases hvalue : (splitItem item).2 with
  | none =>
    dsimp only
    rw [List.append_nil]
  | some value =>
    rw [hvalue, List.length_cons] at hroom
    dsimp only
    rw [appendEncoded_eq (splitItem_chars hitem hvalue).1
      (by simp only [List.length_append, List.length_singleton]; omega)]
    simp only [List.append_assoc, List.singleton_append]

/-- The last character of an item is not a question mark. -/
theorem getLast?_escapeItem {item : List UInt8} (hitem : item ≠ []) :
    (text ++ escapeItem item).getLast? ≠ some (ascii '?') := by
  intro hlast
  rw [List.getLast?_append_of_ne_nil _ (escapeItem_ne_nil hitem), List.getLast?_eq_some_iff] at hlast
  obtain ⟨rest, hrest⟩ := hlast
  have hmem : ascii '?' ∈ queryText [item] := by
    show ascii '?' ∈ escapeItem item
    simp [hrest]
  exact absurd (isQueryChar_of_mem hmem) (by decide)

/-- With enough room all items are. -/
theorem foldl_appendItem (hitems : ∀ item ∈ items, item ≠ [] ∧ ∀ c ∈ item, c ≠ 0)
    (hlast : text.getLast? ≠ some (ascii '?'))
    (hroom : text.length + ((items.map escapeItem).flatMap fun p => ascii ';' :: p).length <
      smcpMaxUriLength) :
    items.foldl appendItem text =
      text ++ (items.map escapeItem).flatMap fun p => ascii ';' :: p := by
  induction items generalizing text with
  | nil => simp
  | cons item items ih =>
    simp only [List.map_cons, List.flatMap_cons, List.length_append, List.length_cons] at hroom
    obtain ⟨hne, hchars⟩ := hitems item List.mem_cons_self
    rw [List.foldl_cons, appendItem_eq hchars (if_pos hlast)
        (by rw [List.length_append, List.length_singleton]; omega), List.append_assoc,
      ih (fun item' h => hitems item' (List.mem_cons_of_mem item h)), List.map_cons,
      List.flatMap_cons]
    · simp only [List.append_assoc, List.singleton_append]
    · rw [← List.append_assoc]
      exact getLast?_escapeItem hne
    · simp only [List.length_append, List.length_singleton]
      omega

/-- The query behind the question mark. -/
theorem foldl_appendItem_first (hitems : ∀ item ∈ items, item ≠ [] ∧ ∀ c ∈ item, c ≠ 0)
    (hroom : text.length + 1 + (queryText items).length < smcpMaxUriLength) :
    items.foldl appendItem (text ++ [ascii '?']) = text ++ ascii '?' :: queryText items := by
  cases items with
  | nil => simp [queryText, joinWith]
  | cons item items =>
    obtain ⟨hne, hchars⟩ := hitems item List.mem_cons_self
    have htext : queryText (item :: items) =
        escapeItem item ++ (items.map escapeItem).flatMap fun p => ascii ';' :: p :=
      joinWith_cons _ _ _
    rw [htext, List.length_append] at hroom
    have hmark : ¬(text ++ [ascii '?']).getLast? ≠ some (ascii '?') := by simp
    rw [List.foldl_cons, appendItem_eq hchars (if_neg hmark)
        (by rw [List.length_append, List.length_singleton]; omega),
      foldl_appendItem (fun item' h => hitems item' (List.mem_cons_of_mem item h))
        (getLast?_escapeItem hne), htext]
    · simp only [List.append_assoc, List.cons_append, List.nil_append]
    · simp only [List.length_append, List.length_singleton]
      omega

end

/-! ## The round trip -/

section
variable {segments items : List (List UInt8)}

/-- The text has no terminator in it. -/
theorem uriText_ne_zero {c : UInt8} (h : c ∈ uriText segments items) : c ≠ 0 := by
  have hpath : ¬isPathChar 0 = true := by decide
  have hquery : ¬isQueryChar 0 = true := by decide
  unfold uriText at h
  rcases List.mem_append.1 h with hc | hc
  · rintro rfl
    exact hpath (isPathChar_of_mem hc)
  · by_cases hitems : items = []
    · rw [if_pos hitems] at hc
      cases hc
    · rw [if_neg hitems] at hc
      rcases List.mem_cons.1 hc with rfl | hc
      · decide
      · rintro rfl
        exact hquery (isQueryChar_of_mem hc)

/-- The text of the path and the query of a request, if it fits. -/
theorem getPath_eq {i : Inbound} {opts : List (ℕ × List UInt8)} {payload : Option (List UInt8)}
    (hahead : i.resetNextOption.Ahead opts payload) (hsorted : Sorted opts)
    (hpath : ∀ v ∈ values coapOptionUriPath opts, v ≠ [] ∧ ∀ c ∈ v, c ≠ 0)
    (hquery : ∀ v ∈ values coapOptionUriQuery opts, v ≠ [] ∧ ∀ c ∈ v, c ≠ 0)
    (hfits : (uriText (values coapOptionUriPath opts) (values coapOptionUriQuery opts)).length <
      smcpMaxUriLength) :
    smcpInboundGetPath i (smcpGetPathLeadingSlash ||| smcpGetPathIncludeQuery) =
      uriText (values coapOptionUriPath opts) (values coapOptionUriQuery opts) := by
  -- the two searches of the source, and the look that decides about the question mark
  have hsegments := readValues_skipTo hahead hsorted (show coapOptionUriPath < _ by decide)
  have hitems := readValues_skipTo hahead hsorted (show coapOptionUriQuery < _ by decide)
  have hpeek := peekOption_skipTo hahead hsorted (show coapOptionUriQuery < _ by decide)
  have hinclude : hasFlag (smcpGetPathLeadingSlash ||| smcpGetPathIncludeQuery)
      smcpGetPathIncludeQuery = true := by decide
  have hreset : ¬hasFlag (smcpGetPathLeadingSlash ||| smcpGetPathIncludeQuery)
      smcpGetPathRemaining = true := by decide
  unfold smcpInboundGetPath
  dsimp only
  -- the flags of this call: a slash in front, and the query
  rw [if_pos hinclude, if_neg hreset, hsegments, hitems]
  -- the values are all that the text depends on
  generalize values coapOptionUriPath opts = segments at hpath hfits
  generalize values coapOptionUriQuery opts = items at hquery hfits hpeek
  have htext : segments.foldl (appendSegment (smcpGetPathLeadingSlash ||| smcpGetPathIncludeQuery)) []
      = segments.flatMap fun s => ascii '/' :: escape s := by
    unfold uriText at hfits
    rw [List.length_append] at hfits
    rw [foldl_appendSegment (by decide) (fun s hs => (hpath s hs).2)
      (by rw [List.length_nil]; omega), List.nil_append]
  rw [htext]
  by_cases hnil : items = []
  · -- no query
    rw [if_neg fun h => hpeek.1 h hnil]
    have heq : segments.flatMap (fun s => ascii '/' :: escape s) = uriText segments items := by
      rw [uriText, if_pos hnil, List.append_nil]
    rw [heq]
    exact cString_eq_self fun c hc => uriText_ne_zero hc
  · rw [if_pos (hpeek.2 hnil)]
    have heq : segments.flatMap (fun s => ascii '/' :: escape s) ++ ascii '?' :: queryText items =
        uriText segments items := by
      rw [uriText, if_neg hnil]
    have hlen := hfits
    rw [← heq, List.length_append, List.length_cons] at hlen
    rw [foldl_appendItem_first hquery (by omega), heq]
    exact cString_eq_self fun c hc => uriText_ne_zero hc

variable (items) in
/-- A segment fits where the whole text does. -/
theorem length_escape_lt_uriText {s : List UInt8} (h : s ∈ segments) :
    (escape s).length < (uriText segments items).length := by
  obtain ⟨before, after, rfl⟩ := List.append_of_mem h
  simp only [uriText, List.flatMap_append, List.flatMap_cons, List.length_append, List.length_cons]
  omega

variable (segments) in
/-- So does an item. -/
theorem length_escapeItem_lt_uriText {item : List UInt8} (h : item ∈ items) :
    (escapeItem item).length < (uriText segments items).length := by
  have hne : items ≠ [] := List.ne_nil_of_mem h
  have hle : (escapeItem item).length ≤ (queryText items).length := by
    unfold queryText
    obtain ⟨before, after, rfl⟩ := List.append_of_mem h
    cases before with
    | nil =>
      rw [List.nil_append, List.map_cons, joinWith_cons, List.length_append]
      omega
    | cons first before =>
      simp only [List.cons_append, List.map_cons, joinWith_cons, List.map_append,
        List.flatMap_append, List.flatMap_cons, List.length_append, List.length_cons]
      omega
  rw [uriText, if_neg hne, List.length_append, List.length_cons]
  omega

/-- What is decoded is not longer. -/
theorem length_formItem_le (item : List UInt8) :
    (formItem item).length ≤ (escapeItem item).length := by
  unfold formItem escapeItem
  rw [List.length_append, List.length_append]
  cases (splitItem item).2 with
  | none => exact le_rfl
  | some value =>
    have hle := length_le_escape value
    simp only [List.length_cons, List.length_map]
    omega

theorem length_le_escapeItem (item : List UInt8) : item.length ≤ (escapeItem item).length := by
  have hkey := length_le_escape (splitItem item).1
  unfold escapeItem
  rw [List.length_append]
  cases hvalue : (splitItem item).2 with
  | none =>
    have hitem := congrArg List.length (splitItem_none hvalue)
    omega
  | some value =>
    have hitem := congrArg List.length (splitItem_some hvalue)
    have hle := length_le_escape value
    simp only [List.length_append, List.length_cons] at hitem ⊢
    omega

end

/-- The options of a request: the path, and then the query. -/
def requestOptions (segments items : List (List UInt8)) : List (ℕ × List UInt8) :=
  segments.map (fun v => (coapOptionUriPath, v)) ++ items.map fun v => (coapOptionUriQuery, v)

section
variable {segments items : List (List UInt8)}

/-- The first options have the first segments, and behind them the first items. -/
theorem values_requestOptions_take (n : ℕ) :
    values coapOptionUriPath ((requestOptions segments items).take n) = segments.take n ∧
      values coapOptionUriQuery ((requestOptions segments items).take n) =
        items.take (n - segments.length) := by
  unfold requestOptions
  rw [List.take_append, List.length_map, ← List.map_take, ← List.map_take, values_append,
    values_append, values_map, values_map, values_map, values_map]
  have hne : coapOptionUriPath ≠ coapOptionUriQuery := by decide
  rw [if_pos rfl, if_pos rfl, if_neg hne, if_neg hne.symm, List.append_nil, List.nil_append]
  exact ⟨rfl, rfl⟩

theorem decodedOptions_eq : decodedOptions segments items =
    requestOptions (segments.map (List.map plainChar)) (items.map formItem) := rfl

/-- An option of a text that fits is short. -/
theorem uriOption_decodedOptions (hfits : (uriText segments items).length < smcpMaxUriLength)
    {o : ℕ × List UInt8} (ho : o ∈ decodedOptions segments items) : UriOption o := by
  unfold smcpMaxUriLength at hfits
  unfold decodedOptions at ho
  rcases List.mem_append.1 ho with ho | ho
  · obtain ⟨v, hv, rfl⟩ := List.mem_map.1 ho
    obtain ⟨s, hs, rfl⟩ := List.mem_map.1 hv
    have hle := length_le_escape s
    have hlt := length_escape_lt_uriText items hs
    refine ⟨show coapOptionObserve < coapOptionUriPath by decide,
      show coapOptionUriPath < coapOptionBlock2 by decide, ?_⟩
    rw [List.length_map]
    omega
  · obtain ⟨v, hv, rfl⟩ := List.mem_map.1 ho
    obtain ⟨item, hitem, rfl⟩ := List.mem_map.1 hv
    have hle := length_formItem_le item
    have hlt := length_escapeItem_lt_uriText segments hitem
    refine ⟨show coapOptionObserve < coapOptionUriQuery by decide,
      show coapOptionUriQuery < coapOptionBlock2 by decide, ?_⟩
    show (formItem item).length < 65536
    omega

/-- A list stays if all of its members do. -/
theorem map_eq_self_iff {f : List UInt8 → List UInt8} {l : List (List UInt8)} :
    l.map f = l ↔ ∀ s ∈ l, f s = s := by
  have hid := List.map_inj_left (l := l) (f := f) (g := id)
  rwa [List.map_id] at hid

/-- Decoding changes none of the options only if there is nothing in them to decode. -/
theorem decodedOptions_same_iff :
    segments.map (List.map plainChar) = segments ∧ items.map formItem = items ↔
      (∀ s ∈ segments, ascii '+' ∉ s) ∧ ∀ item ∈ items,
        (∀ c ∈ (splitItem item).1, isurlchar c = true) ∧
          ∀ value, (splitItem item).2 = some value → ascii '+' ∉ value := by
  rw [map_eq_self_iff, map_eq_self_iff]
  exact and_congr (forall₂_congr fun s _ => map_plainChar_eq_iff)
    (forall₂_congr fun item _ => formItem_eq_self_iff)

/-- What is added has the values only if it is everything, and nothing is changed by decoding. -/
theorem values_decodedOptions_take_iff {n : ℕ} (hn : n ≤ (decodedOptions segments items).length) :
    (values coapOptionUriPath ((decodedOptions segments items).take n) = segments ∧
        values coapOptionUriQuery ((decodedOptions segments items).take n) = items) ↔
      (segments.map (List.map plainChar) = segments ∧ items.map formItem = items) ∧
        n = (decodedOptions segments items).length := by
  have hlength : (decodedOptions segments items).length = segments.length + items.length := by
    simp [decodedOptions]
  rw [hlength] at hn ⊢
  rw [decodedOptions_eq, (values_requestOptions_take n).1, (values_requestOptions_take n).2,
    List.length_map]
  constructor
  · rintro ⟨hpath, hquery⟩
    have hpathLen := congrArg List.length hpath
    have hqueryLen := congrArg List.length hquery
    rw [List.length_take, List.length_map] at hpathLen hqueryLen
    rw [List.take_of_length_le (by rw [List.length_map]; omega)] at hpath hquery
    exact ⟨⟨hpath, hquery⟩, by omega⟩
  · rintro ⟨⟨hpath, hquery⟩, rfl⟩
    rw [hpath, hquery, List.take_of_length_le (by omega), List.take_of_length_le (by omega)]
    exact ⟨rfl, rfl⟩

end

/-- A request's path and query as text, handed to `smcp_outbound_set_uri`: the options come back exactly
when there is room for them, no segment has a `+`, and the items are `key=value` with a key that needs
no escapes and a value without `+`. -/
theorem getPath_setUri {i : Inbound} {split : List (ℕ × List UInt8)} {payload : Option (List UInt8)}
    (hv : coapVerifyPacket i.bytes i.packetLen = true) (hlen : i.packetLen < 65536)
    (hs : Splits word16 (optionArea (readBytes i.bytes 0 i.packetLen)) split payload)
    (hpath : ∀ v ∈ values coapOptionUriPath (withKeys 0 split), v ≠ [] ∧ ∀ c ∈ v, c ≠ 0)
    (hquery : ∀ v ∈ values coapOptionUriQuery (withKeys 0 split), v ≠ [] ∧ ∀ c ∈ v, c ≠ 0)
    (hfits : (uriText (values coapOptionUriPath (withKeys 0 split))
      (values coapOptionUriQuery (withKeys 0 split))).length < smcpMaxUriLength)
    (env : UriEnv) {s : Instance} {opts : List (ℕ × List UInt8)} (hc : Composed s.outbound opts)
    (hb : Bounded s.outbound) :
    let segments := values coapOptionUriPath (withKeys 0 split)
    let items := values coapOptionUriQuery (withKeys 0 split)
    (∃ opts', Composed (smcpOutboundSetUri env s
          (smcpInboundGetPath i (smcpGetPathLeadingSlash ||| smcpGetPathIncludeQuery))
          (smcpMsgSkipAuthority ||| smcpMsgSkipDestaddr)).1.outbound opts' ∧
        values coapOptionUriPath opts' = values coapOptionUriPath opts ++ segments ∧
        values coapOptionUriQuery opts' = values coapOptionUriQuery opts ++ items) ↔
      ((∀ segment ∈ segments, ascii '+' ∉ segment) ∧
        ∀ item ∈ items, (∀ c ∈ (splitItem item).1, isurlchar c = true) ∧
          ∀ value, (splitItem item).2 = some value → ascii '+' ∉ value) ∧
      HasRoom s opts (requestOptions segments items) := by
  dsimp only
  -- the text of the request first, then what the other side makes of it
  have hget := getPath_eq (ahead_resetNextOption hv hlen hs) (sorted_withKeys 0 split) hpath hquery
    hfits
  generalize values coapOptionUriPath (withKeys 0 split) = segments at hpath hfits hget ⊢
  generalize values coapOptionUriQuery (withKeys 0 split) = items at hquery hfits hget ⊢
  -- a packet is too short for a value whose length would wrap
  have hshort : ∀ v ∈ segments ++ items, v.length < 18446744073709551615 := by
    unfold smcpMaxUriLength at hfits
    intro v hv
    rcases List.mem_append.1 hv with hv | hv
    · have hlt := length_escape_lt_uriText items hv
      have hle := length_le_escape v
      omega
    · have hlt := length_escapeItem_lt_uriText segments hv
      have hle := length_le_escapeItem v
      omega
  -- both directions come down to the same composed options
  rw [hget, setUri_uriText env s hpath hquery hshort, ← decodedOptions_same_iff]
  obtain ⟨n, hn, opts', hcomposed, hvalues, hall⟩ :=
    addOptions_values hc hb fun o => uriOption_decodedOptions hfits (o := o)
  -- the options are the same when both of their lists of values are
  have hpathValues := hvalues coapOptionUriPath (by decide)
  have hqueryValues := hvalues coapOptionUriQuery (by decide)
  constructor
  · rintro ⟨opts'', hcomposed', hpath', hquery'⟩
    obtain rfl := hcomposed'.unique hcomposed
    have hsame := (values_decodedOptions_take_iff hn).1
      ⟨List.append_cancel_left (hpathValues.symm.trans hpath'),
        List.append_cancel_left (hqueryValues.symm.trans hquery')⟩
    have hroom := hall.1 hsame.2
    rw [decodedOptions_eq, hsame.1.1, hsame.1.2] at hroom
    exact ⟨hsame.1, hroom⟩
  · rintro ⟨hsame, hroom⟩
    have heq : decodedOptions segments items = _ := decodedOptions_eq
    rw [hsame.1, hsame.2] at heq
    rw [← heq] at hroom
    obtain ⟨hpath', hquery'⟩ := (values_decodedOptions_take_iff hn).2 ⟨hsame, hall.2 hroom⟩
    exact ⟨opts', hcomposed, hpathValues.trans (congrArg _ hpath'),
      hqueryValues.trans (congrArg _ hquery')⟩

/-- A message that has just been begun. -/
def begunRequest : Instance :=
  (smcpOutboundBegin (smcpCreate default (fun _ => 0) fun _ => 1) coapMethodGet
    coapTransTypeConfirmable).1

/-- A request without options. -/
theorem composed_begunRequest : Composed begunRequest.outbound [] := by
  refine ⟨trivial, ?_, ?_, ?_, ?_, ?_⟩ <;> decide +kernel

/-- A received packet. -/
def receivedPacket (bytes : List UInt8) : Inbound :=
  { packet := some (ofList bytes fun _ => 0), packetLen := bytes.length }

/-- Surroundings without a proxy, users or host names. -/
def bareUriEnv : UriEnv where
  port := coapDefaultPort
  proxyUrl := none
  lookupHostname _ := .error smcpStatusFailure
  knowsUser _ := false

/-- The path and the query of a small request. -/
theorem getPath_setUri_akv :
    ∃ opts', Composed (smcpOutboundSetUri bareUriEnv begunRequest
        (smcpInboundGetPath (receivedPacket [0x40, 1, 0, 1, 0xB1, 0x61, 0x43, 0x6B, 0x3D, 0x76])
          (smcpGetPathLeadingSlash ||| smcpGetPathIncludeQuery))
        (smcpMsgSkipAuthority ||| smcpMsgSkipDestaddr)).1.outbound opts' ∧
      values coapOptionUriPath opts' = [] ++ [[0x61]] ∧
      values coapOptionUriQuery opts' = [] ++ [[0x6B, 0x3D, 0x76]] := by
  -- the packet as a value, so that nothing below computes its bytes again
  generalize hi : receivedPacket [0x40, 1, 0, 1, 0xB1, 0x61, 0x43, 0x6B, 0x3D, 0x76] = i
  have hverified : coapVerifyPacket i.bytes i.packetLen = true := by
    rw [← hi]
    decide +kernel
  -- the two options of the packet: the path and the query
  have hsplit : Splits word16 (optionArea (readBytes i.bytes 0 i.packetLen))
      [(11, [0x61]), (4, [0x6B, 0x3D, 0x76])] none := by
    have harea : optionArea (readBytes i.bytes 0 i.packetLen) =
        encode 0 [(11, [0x61]), (15, [0x6B, 0x3D, 0x76])] ++ [] := by
      rw [← hi]
      decide +kernel
    rw [harea]
    have hordered : Ordered 65535 1000 0 [(11, [0x61]), (15, [0x6B, 0x3D, 0x76])] := by decide
    exact splits_encode hordered (by decide) (by decide) (fun n hn => word16_of_lt (by omega))
      Splits.nil
  have hpath : values coapOptionUriPath (withKeys 0 [(11, [0x61]), (4, [0x6B, 0x3D, 0x76])]) =
      [[0x61]] := by decide
  have hquery : values coapOptionUriQuery (withKeys 0 [(11, [0x61]), (4, [0x6B, 0x3D, 0x76])]) =
      [[0x6B, 0x3D, 0x76]] := by decide
  -- the general result, with its side conditions on these bytes
  have h := getPath_setUri hverified (by rw [← hi]; decide) hsplit (by rw [hpath]; decide +kernel)
    (by rw [hquery]; decide +kernel) (by rw [hpath, hquery]; decide +kernel) bareUriEnv composed_begunRequest
    (show _ ≤ _ by decide +kernel)
  dsimp only at h
  rw [hpath, hquery] at h
  exact h.2 (by decide +kernel)

/-- `a+b` comes back as `a b`. -/
theorem getPath_setUri_plus :
    let i := receivedPacket [0x40, 1, 0, 1, 0xB3, 0x61, 0x2B, 0x62]
    let text := smcpInboundGetPath i (smcpGetPathLeadingSlash ||| smcpGetPathIncludeQuery)
    coapVerifyPacket i.bytes i.packetLen = true ∧
      i.resetNextOption.readOptions 9 = [(coapOptionUriPath, [0x61, 0x2B, 0x62])] ∧
      text = asciiBytes "/a+b" ∧
      ¬∃ opts', Composed (smcpOutboundSetUri bareUriEnv begunRequest text
          (smcpMsgSkipAuthority ||| smcpMsgSkipDestaddr)).1.outbound opts' ∧
        values coapOptionUriPath opts' = [[0x61, 0x2B, 0x62]] := by
  intro i text
  refine ⟨by decide +kernel, by decide +kernel, by decide +kernel, ?_⟩
  rintro ⟨opts', hcomposed, hvalues⟩
  have hspace : Composed (smcpOutboundSetUri bareUriEnv begunRequest text
      (smcpMsgSkipAuthority ||| smcpMsgSkipDestaddr)).1.outbound
      [(coapOptionUriPath, [0x61, 0x20, 0x62])] := by
    refine ⟨?_, ?_, ?_, ?_, ?_, ?_⟩ <;> decide +kernel
  rw [hcomposed.unique hspace] at hvalues
  exact absurd hvalues (by decide)

end Smcp
