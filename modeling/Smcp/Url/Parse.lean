import Smcp.Url.Escape

/-!
# Taking URLs apart

`url_parse`, `url_path_next_component` and `url_form_next_value` of `url-helpers.c`.

* `urlPathComponents_pathText`: a path of escaped segments has their decoded forms as components;
* `urlFormValues_queryText`: so has a query of escaped items, but the keys stay escaped;
* `urlParse_uriText`: a path and a query without an authority.

These functions cut a string into pieces by storing terminators in it, and decode the pieces where
they are. No piece is looked at again after a later one has been cut, so every piece is a list of
its own here.
-/

namespace Smcp

/-! ## The functions -/

def isalpha (c : UInt8) : Bool :=
  (ascii 'A' ≤ c && c ≤ ascii 'Z') || (ascii 'a' ≤ c && c ≤ ascii 'z')

/-- `url_decode_cstr_inplace`. The size is `(size_t)-1`. -/
def urlDecodeCstrInplace (str : List UInt8) : List UInt8 :=
  cString (urlDecodeCstr (str ++ [0]) 18446744073709551615).stored

/-- What `url_path_next_component` and `url_form_next_value` leave: the piece, the rest of the
string, and the number of bytes parsed. -/
structure UrlPiece where
  piece : Option (List UInt8)
  value : Option (List UInt8) := none
  rest : List UInt8
  bytesParsed : ℕ

def isSlash (c : UInt8) : Bool := c == ascii '/'

/-- `url_path_next_component`. -/
def urlPathNextComponent (pathString : List UInt8) : UrlPiece :=
  if pathString = [] then { piece := none, rest := [], bytesParsed := 0 }
  else
    let component := pathString.takeWhile fun c => !isSlash c
    match pathString.dropWhile fun c => !isSlash c with
    | [] =>
      { piece := some (urlDecodeCstrInplace component), rest := [], bytesParsed := component.length }
    | _ :: rest =>
      { piece := some (urlDecodeCstrInplace component), rest := rest
        bytesParsed := component.length + 1 }

/-- The end of an item of a form. -/
def isFormEnd (c : UInt8) : Bool := c == ascii ';' || c == ascii '&'

/-- The end of a key. -/
def isKeyEnd (c : UInt8) : Bool := c == ascii '=' || isFormEnd c

/-- `url_form_next_value`. Without a place for the value, the key goes on up to the end of the
decoded value. -/
def urlFormNextValue (formString : List UInt8) (wantsValue : Bool) : UrlPiece :=
  if formString = [] then { piece := none, rest := [], bytesParsed := 0 }
  else
    let key := formString.takeWhile fun c => !isKeyEnd c
    match formString.dropWhile fun c => !isKeyEnd c with
    | [] => { piece := some key, rest := [], bytesParsed := key.length }
    | c :: rest =>
      if c = ascii '=' then
        let raw := rest.takeWhile fun c => !isFormEnd c
        let v := urlDecodeCstrInplace raw
        let piece := if wantsValue then key else key ++ ascii '=' :: v
        match rest.dropWhile fun c => !isFormEnd c with
        | [] =>
          { piece := some piece, value := some v, rest := []
            bytesParsed := key.length + 1 + raw.length }
        | _ :: rest =>
          { piece := some piece, value := some v, rest := rest
            bytesParsed := key.length + 1 + raw.length + 1 }
      else { piece := some key, rest := rest, bytesParsed := key.length + 1 }

/-- `while(next(&string, &piece, ...))`: the pieces. -/
def urlPieces (next : List UInt8 → UrlPiece) : (fuel : ℕ) → List UInt8 → List (List UInt8)
  | 0, _ => []
  | fuel + 1, string =>
    let p := next string
    if p.bytesParsed = 0 then [] else p.piece.getD [] :: urlPieces next fuel p.rest

/-- All components of a path. -/
def urlPathComponents (path : List UInt8) : List (List UInt8) :=
  urlPieces urlPathNextComponent (path.length + 1) path

/-- All items of a form, without a place for the values. -/
def urlFormValues (form : List UInt8) : List (List UInt8) :=
  urlPieces (fun string => urlFormNextValue string false) (form.length + 1) form

/-- `struct url_components_s`. -/
structure UrlComponents where
  protocol : Option (List UInt8) := none
  username : Option (List UInt8) := none
  password : Option (List UInt8) := none
  host : Option (List UInt8) := none
  port : Option (List UInt8) := none
  path : Option (List UInt8) := none
  query : Option (List UInt8) := none

/-- `url_is_absolute`. -/
def urlIsAbsolute (uri : List UInt8) : Bool :=
  let isSchemeChar (c : UInt8) : Bool := isalpha c || c == ascii '-'
  uri.takeWhile isSchemeChar ≠ [] && (uri.dropWhile isSchemeChar).head? == some (ascii ':')

/-- `string_contains_colons`. -/
def stringContainsColons (str : List UInt8) : Bool := str.contains (ascii ':')

/-- The characters of an authority. -/
def isAuthorityChar (c : UInt8) : Bool :=
  isurlchar c || c == ascii '[' || c == ascii ']' || c == ascii ':' || c == ascii '%' ||
    c == ascii '@'

/-- The characters of a path. -/
def isPathChar (c : UInt8) : Bool :=
  isurlchar c || c == ascii '[' || c == ascii ']' || c == ascii ':' || c == ascii '/' ||
    c == ascii '=' || c == ascii '&' || c == ascii '%'

/-- The characters of a query. -/
def isQueryChar (c : UInt8) : Bool := isPathChar c || c == ascii ';'

/-- The loop from `addr_end` down to the `@`, the `[` or the beginning. `tail` is what is behind
`addr_end`, with the terminators that have been stored. The last component of the result is what is
left, from the `@` or the `[` down. -/
def parseHost : (addr : List UInt8) → (gotPort : Bool) → (port : Option (List UInt8)) →
    (tail : List UInt8) → List UInt8 × Option (List UInt8) × List UInt8
  | [], _, port, tail => (tail, port, [])
  | c :: addr, gotPort, port, tail =>
    if c = ascii '@' ∨ c = ascii '[' then (tail, port, c :: addr)
    else if c = ascii ']' then parseHost addr true port (0 :: tail)
    else if gotPort = false ∧ c = ascii ':' then parseHost addr true (some (cString tail)) (0 :: tail)
    else parseHost addr gotPort port (c :: tail)

/-- The loop from the `@` down to the slash in front of the authority. -/
def parseUser : (addr : List UInt8) → (password : Option (List UInt8)) → (tail : List UInt8) →
    List UInt8 × Option (List UInt8)
  | [], password, tail => (tail, password)
  | c :: addr, password, tail =>
    if c = ascii ':' then parseUser addr (some (cString tail)) (0 :: tail)
    else parseUser addr password (c :: tail)

/-- The authority of an absolute URL. -/
def parseAuthority (c : UrlComponents) (addr : List UInt8) : UrlComponents :=
  let h := parseHost addr.reverse false none []
  let c := { c with host := some (cString h.1), port := h.2.1 }
  if h.2.2.head? = some (ascii '@') then
    let u := parseUser h.2.2.tail none []
    { c with username := some (cString u.1), password := u.2 }
  else c

/-- `url_parse` from the path on. -/
def parsePath (c : UrlComponents) (uri : List UInt8) (bytesParsed : ℕ) : UrlComponents × ℕ :=
  let path := uri.takeWhile isPathChar
  let c := { c with path := some path }
  match uri.dropWhile isPathChar with
  | [] => (c, bytesParsed + path.length)
  | tmp :: rest =>
    if tmp = ascii '?' then
      let query := rest.takeWhile isQueryChar
      let ended := if rest.dropWhile isQueryChar = [] then 0 else 1
      ({ c with query := some query }, bytesParsed + path.length + 1 + query.length + ended)
    else (c, bytesParsed + path.length + 1)

/-- `url_parse`: the components, and the number of bytes parsed. -/
def urlParse (uri : List UInt8) : UrlComponents × ℕ :=
  if urlIsAbsolute uri = false then parsePath {} uri 0
  else
    let protocol := uri.takeWhile fun c => c != ascii ':'
    let rest := (uri.dropWhile fun c => c != ascii ':').tail
    let c : UrlComponents := { protocol := some protocol }
    if rest = [] then (c, protocol.length + 1)
    else if rest.take 2 = [ascii '/', ascii '/'] then
      let addr := (rest.drop 2).takeWhile isAuthorityChar
      let behind := (rest.drop 2).dropWhile isAuthorityChar
      let ended := if behind = [] then 0 else 1
      parsePath (parseAuthority c addr) behind.tail (protocol.length + 3 + addr.length + ended)
    else parsePath c rest (protocol.length + 1)

/-! ## Strings with a separator -/

section
variable {f : UInt8 → Bool} {p rest : List UInt8} {sep : UInt8}

variable (rest) in
/-- A part ends at its separator. -/
theorem takeWhile_sep (hp : ∀ c ∈ p, f c = true) (hsep : f sep = false) :
    (p ++ sep :: rest).takeWhile f = p ∧ (p ++ sep :: rest).dropWhile f = sep :: rest := by
  constructor
  · rw [List.takeWhile_append_of_pos hp, List.takeWhile_cons_of_neg (by simp [hsep]), List.append_nil]
  · rw [List.dropWhile_append_of_pos hp, List.dropWhile_cons_of_neg (by simp [hsep])]

/-- The last part ends with the text. -/
theorem takeWhile_all (hp : ∀ c ∈ p, f c = true) : p.takeWhile f = p ∧ p.dropWhile f = [] :=
  ⟨List.takeWhile_eq_self_iff.2 hp, List.dropWhile_eq_nil_iff.2 hp⟩

/-- The strings in a row, with the separator between them. -/
def joinWith (sep : UInt8) : List (List UInt8) → List UInt8
  | [] => []
  | [p] => p
  | p :: q :: ps => p ++ sep :: joinWith sep (q :: ps)

/-- The separator is put in front of each part but the first. -/
theorem joinWith_cons (sep : UInt8) (p : List UInt8) (ps : List (List UInt8)) :
    joinWith sep (p :: ps) = p ++ ps.flatMap fun q => sep :: q := by
  induction ps generalizing p with
  | nil => simp [joinWith]
  | cons q ps ih => rw [joinWith, ih, List.flatMap_cons, List.cons_append]

/-- The loop over the pieces of a string finds the pieces it is made of. -/
theorem urlPieces_joinWith {next : List UInt8 → UrlPiece} {text piece : List UInt8 → List UInt8}
    {ps : List (List UInt8)} (hend : (next []).bytesParsed = 0)
    (hlast : ∀ p ∈ ps, (next (text p)).bytesParsed ≠ 0 ∧ (next (text p)).piece = some (piece p) ∧
      (next (text p)).rest = [])
    (hnext : ∀ p ∈ ps, ∀ rest, (next (text p ++ sep :: rest)).bytesParsed ≠ 0 ∧
      (next (text p ++ sep :: rest)).piece = some (piece p) ∧
      (next (text p ++ sep :: rest)).rest = rest)
    {fuel : ℕ} (hfuel : ps.length < fuel) :
    urlPieces next fuel (joinWith sep (ps.map text)) = ps.map piece := by
  -- induction on the pieces: each of them ends at its separator
  induction ps generalizing fuel with
  | nil =>
    cases fuel with
    | zero => exact absurd hfuel (by simp)
    | succ fuel =>
      show urlPieces next (fuel + 1) [] = []
      rw [urlPieces, if_pos hend]
  | cons p ps ih =>
    have ih := @ih (fun q hq => hlast q (List.mem_cons_of_mem p hq))
      (fun q hq => hnext q (List.mem_cons_of_mem p hq))
    rw [List.length_cons] at hfuel
    cases fuel with
    | zero => omega
    | succ fuel =>
      cases ps with
      | nil =>
        obtain ⟨hne, hpiece, hrest⟩ := hlast p List.mem_cons_self
        show urlPieces next (fuel + 1) (text p) = [piece p]
        rw [urlPieces, if_neg hne, hpiece, hrest, Option.getD_some]
        cases fuel with
        | zero => exact absurd hfuel (by simp)
        | succ fuel => rw [urlPieces, if_pos hend]
      | cons q ps =>
        obtain ⟨hne, hpiece, hrest⟩ := hnext p List.mem_cons_self (joinWith sep ((q :: ps).map text))
        show urlPieces next (fuel + 1) (text p ++ sep :: joinWith sep ((q :: ps).map text)) = _
        rw [urlPieces, if_neg hne, hpiece, hrest, Option.getD_some, ih (by omega), List.map_cons,
          List.map_cons, List.map_cons]

end

/-! ## Escaped strings -/

/-- The characters that an escaped string may have do not end anything. -/
structure IsEscaped (c : UInt8) : Prop where
  notSlash : isSlash c = false
  notKeyEnd : isKeyEnd c = false
  notFormEnd : isFormEnd c = false
  path : isPathChar c = true

/-- What may stand in an escaped part is no separator. -/
theorem isEscaped_iff (c : UInt8) : IsEscaped c ↔
    isSlash c = false ∧ isKeyEnd c = false ∧ isFormEnd c = false ∧ isPathChar c = true :=
  ⟨fun h => ⟨h.notSlash, h.notKeyEnd, h.notFormEnd, h.path⟩, fun h => ⟨h.1, h.2.1, h.2.2.1, h.2.2.2⟩⟩

/-- Every character that is written as it is may stand there. -/
theorem isEscaped_of_isurlchar (c : UInt8) : isurlchar c = true → IsEscaped c := by
  rw [isEscaped_iff]
  revert c
  apply forall_byte
  decide +kernel

section
variable {s : List UInt8} {c : UInt8}

/-- So may all that is written for a part. -/
theorem isEscaped_escape (h : c ∈ escape s) : IsEscaped c := by
  rcases mem_escape h with hurl | rfl
  · exact isEscaped_of_isurlchar c hurl
  · rw [isEscaped_iff]
    decide

/-- A part does not vanish. -/
theorem escape_ne_nil (h : s ≠ []) : escape s ≠ [] := by
  cases s with
  | nil => exact absurd rfl h
  | cons c s =>
    rw [escape_cons]
    intro hnil
    have hpos := escapeChar_length_pos c
    rw [(List.append_eq_nil_iff.1 hnil).1] at hpos
    exact absurd hpos (by simp)

/-- A part does not get shorter. -/
theorem length_le_escape (s : List UInt8) : s.length ≤ (escape s).length := by
  induction s with
  | nil => simp
  | cons c s ih =>
    have hpos := escapeChar_length_pos c
    rw [escape_cons, List.length_append, List.length_cons]
    omega

/-- Only a string of characters that are left alone is its own escaped form. -/
theorem escape_eq_self_iff : escape s = s ↔ ∀ c ∈ s, isurlchar c = true := by
  induction s with
  | nil => simp
  | cons c s ih =>
    rw [escape_cons, List.forall_mem_cons, ← ih]
    by_cases hurl : isurlchar c = true
    · have hone : escapeChar c = [c] := if_pos hurl
      rw [hone, List.singleton_append, List.cons_inj_right]
      exact (and_iff_right hurl).symm
    · have hthree : (escapeChar c).length = 3 := by
        unfold escapeChar
        rw [if_neg hurl]
        rfl
      have hle := length_le_escape s
      constructor
      · intro heq
        have hlen := congrArg List.length heq
        rw [List.length_append, List.length_cons] at hlen
        omega
      · exact fun h => absurd h.1 hurl

/-- `url_decode_cstr_inplace` on an escaped string. -/
theorem urlDecodeCstrInplace_escape (hs : ∀ c ∈ s, c ≠ 0) (hlen : s.length < 18446744073709551615) :
    urlDecodeCstrInplace (escape s) = s.map plainChar :=
  urlDecodeCstr_escape [] hs hlen

end

/-! ## Paths -/

section
variable {segments : List (List UInt8)} {s rest : List UInt8}

/-- A component ends at the slash, which is passed over. -/
theorem urlPathNextComponent_sep (h : ∀ c ∈ s, isSlash c = false) :
    urlPathNextComponent (s ++ ascii '/' :: rest) =
      { piece := some (urlDecodeCstrInplace s), rest := rest, bytesParsed := s.length + 1 } := by
  obtain ⟨htake, hdrop⟩ := takeWhile_sep rest (f := fun c => !isSlash c)
    (fun c hc => by simp [h c hc]) (show (!isSlash (ascii '/')) = false by decide)
  unfold urlPathNextComponent
  rw [if_neg (by simp)]
  dsimp only
  rw [htake, hdrop]

/-- The last component ends with the path. -/
theorem urlPathNextComponent_last (h : ∀ c ∈ s, isSlash c = false) (hs : s ≠ []) :
    urlPathNextComponent s =
      { piece := some (urlDecodeCstrInplace s), rest := [], bytesParsed := s.length } := by
  obtain ⟨htake, hdrop⟩ := takeWhile_all (f := fun c => !isSlash c)
    (fun c hc => by simp [h c hc] : ∀ c ∈ s, (!isSlash c) = true)
  unfold urlPathNextComponent
  rw [if_neg hs]
  dsimp only
  rw [htake, hdrop]

/-- The text of a path, without the first slash. -/
def pathText (segments : List (List UInt8)) : List UInt8 :=
  joinWith (ascii '/') (segments.map escape)

/-- There are no more parts than characters. -/
theorem length_le_joinWith (sep : UInt8) {ps : List (List UInt8)} (h : ∀ p ∈ ps, p ≠ []) :
    ps.length ≤ (joinWith sep ps).length := by
  cases ps with
  | nil => simp
  | cons p ps =>
    have hp := List.length_pos_iff.2 (h p List.mem_cons_self)
    have hps : ps.length ≤ (ps.flatMap fun q => sep :: q).length := by
      clear h hp
      induction ps with
      | nil => simp
      | cons q ps ih =>
        simp only [List.flatMap_cons, List.length_append, List.length_cons]
        omega
    rw [joinWith_cons, List.length_append, List.length_cons]
    omega

/-- The components of a path of escaped segments. -/
theorem urlPathComponents_pathText (h : ∀ s ∈ segments, s ≠ [] ∧ ∀ c ∈ s, c ≠ 0)
    (hlen : ∀ s ∈ segments, s.length < 18446744073709551615) :
    urlPathComponents (pathText segments) = segments.map (List.map plainChar) := by
  have hslash {s : List UInt8} (c : UInt8) (hc : c ∈ escape s) : isSlash c = false :=
    (isEscaped_escape hc).notSlash
  apply urlPieces_joinWith
  · rfl
  · intro s hs
    have hne := escape_ne_nil (h s hs).1
    rw [urlPathNextComponent_last hslash hne,
      urlDecodeCstrInplace_escape (h s hs).2 (hlen s hs)]
    exact ⟨fun hzero => hne (List.length_eq_zero_iff.1 hzero), rfl, rfl⟩
  · intro s hs rest
    rw [urlPathNextComponent_sep hslash, urlDecodeCstrInplace_escape (h s hs).2 (hlen s hs)]
    exact ⟨Nat.succ_ne_zero _, rfl, rfl⟩
  · have hne : ∀ p ∈ segments.map escape, p ≠ [] := by
      intro p hp
      obtain ⟨s, hs, rfl⟩ := List.mem_map.1 hp
      exact escape_ne_nil (h s hs).1
    have hle := length_le_joinWith (ascii '/') hne
    rw [List.length_map] at hle
    unfold pathText
    omega

end

/-! ## Queries -/

/-- An item of a query: its key, and its value if it has one. -/
def splitItem (item : List UInt8) : List UInt8 × Option (List UInt8) :=
  (item.takeWhile fun c => c != ascii '=',
    match item.dropWhile fun c => c != ascii '=' with
    | [] => none
    | _ :: value => some value)

/-- The key and the value are escaped. -/
def escapeItem (item : List UInt8) : List UInt8 :=
  escape (splitItem item).1 ++
    match (splitItem item).2 with
    | some value => ascii '=' :: escape value
    | none => []

/-- What `url_form_next_value` makes of an escaped item: only the value is decoded. -/
def formItem (item : List UInt8) : List UInt8 :=
  escape (splitItem item).1 ++
    match (splitItem item).2 with
    | some value => ascii '=' :: value.map plainChar
    | none => []

/-- The text of a query. -/
def queryText (items : List (List UInt8)) : List UInt8 :=
  joinWith (ascii ';') (items.map escapeItem)

section
variable {items : List (List UInt8)} {item key value rest : List UInt8}

/-- An item without `=` is all key. -/
theorem splitItem_none (h : (splitItem item).2 = none) : item = (splitItem item).1 := by
  unfold splitItem at h ⊢
  have happend := List.takeWhile_append_dropWhile (p := fun c => c != ascii '=') (l := item)
  split at h
  · next hdrop =>
    rw [hdrop, List.append_nil] at happend
    exact happend.symm
  · cases h

/-- The value is behind the first `=`. -/
theorem splitItem_some (h : (splitItem item).2 = some value) :
    item = (splitItem item).1 ++ ascii '=' :: value := by
  unfold splitItem at h ⊢
  have happend := List.takeWhile_append_dropWhile (p := fun c => c != ascii '=') (l := item)
  split at h
  · cases h
  · next c v hdrop =>
    obtain rfl : v = value := Option.some.inj h
    have hc : c = ascii '=' := by
      have hhead := List.head?_dropWhile_not (fun c => c != ascii '=') item
      rw [hdrop, List.head?_cons] at hhead
      simpa using hhead
    rw [hdrop, hc] at happend
    exact happend.symm

/-- An item with a key that ends. -/
theorem urlFormNextValue_key (wantsValue : Bool) (h : ∀ c ∈ key, isKeyEnd c = false) {c : UInt8}
    (hc : isFormEnd c = true) :
    urlFormNextValue (key ++ c :: rest) wantsValue =
      { piece := some key, rest := rest, bytesParsed := key.length + 1 } := by
  obtain ⟨htake, hdrop⟩ := takeWhile_sep rest (f := fun c => !isKeyEnd c)
    (fun c hc => by simp [h c hc] : ∀ c ∈ key, (!isKeyEnd c) = true)
    (show (!isKeyEnd c) = false by simp [isKeyEnd, hc])
  have hne : c ≠ ascii '=' := by
    rintro rfl
    exact absurd hc (by decide)
  unfold urlFormNextValue
  rw [if_neg (by simp)]
  dsimp only
  rw [htake, hdrop]
  dsimp only
  rw [if_neg hne]

/-- A key alone, at the end. -/
theorem urlFormNextValue_lastKey (wantsValue : Bool) (h : ∀ c ∈ key, isKeyEnd c = false) (hkey : key ≠ []) :
    urlFormNextValue key wantsValue =
      { piece := some key, rest := [], bytesParsed := key.length } := by
  obtain ⟨htake, hdrop⟩ := takeWhile_all (f := fun c => !isKeyEnd c)
    (fun c hc => by simp [h c hc] : ∀ c ∈ key, (!isKeyEnd c) = true)
  unfold urlFormNextValue
  rw [if_neg hkey]
  dsimp only
  rw [htake, hdrop]

/-- An item with a value. -/
theorem urlFormNextValue_value (wantsValue : Bool) (h : ∀ c ∈ key, isKeyEnd c = false)
    (hvalue : ∀ c ∈ value, isFormEnd c = false) {c : UInt8} (hc : isFormEnd c = true) :
    urlFormNextValue (key ++ ascii '=' :: (value ++ c :: rest)) wantsValue =
      { piece := some (if wantsValue then key else key ++ ascii '=' :: urlDecodeCstrInplace value)
        value := some (urlDecodeCstrInplace value)
        rest := rest
        bytesParsed := key.length + 1 + value.length + 1 } := by
  obtain ⟨htake, hdrop⟩ := takeWhile_sep (value ++ c :: rest) (f := fun c => !isKeyEnd c)
    (fun c hc => by simp [h c hc] : ∀ c ∈ key, (!isKeyEnd c) = true)
    (show (!isKeyEnd (ascii '=')) = false by decide)
  obtain ⟨htake', hdrop'⟩ := takeWhile_sep rest (f := fun c => !isFormEnd c)
    (fun c hc => by simp [hvalue c hc] : ∀ c ∈ value, (!isFormEnd c) = true)
    (show (!isFormEnd c) = false by simp [hc])
  unfold urlFormNextValue
  rw [if_neg (by simp)]
  dsimp only
  rw [htake, hdrop]
  dsimp only
  rw [if_pos rfl, htake', hdrop']

/-- A key with its value, at the end. -/
theorem urlFormNextValue_lastValue (wantsValue : Bool) (h : ∀ c ∈ key, isKeyEnd c = false)
    (hvalue : ∀ c ∈ value, isFormEnd c = false) :
    urlFormNextValue (key ++ ascii '=' :: value) wantsValue =
      { piece := some (if wantsValue then key else key ++ ascii '=' :: urlDecodeCstrInplace value)
        value := some (urlDecodeCstrInplace value)
        rest := []
        bytesParsed := key.length + 1 + value.length } := by
  obtain ⟨htake, hdrop⟩ := takeWhile_sep value (f := fun c => !isKeyEnd c)
    (fun c hc => by simp [h c hc] : ∀ c ∈ key, (!isKeyEnd c) = true)
    (show (!isKeyEnd (ascii '=')) = false by decide)
  obtain ⟨htake', hdrop'⟩ := takeWhile_all (f := fun c => !isFormEnd c)
    (fun c hc => by simp [hvalue c hc] : ∀ c ∈ value, (!isFormEnd c) = true)
  unfold urlFormNextValue
  rw [if_neg (by simp)]
  dsimp only
  rw [htake, hdrop]
  dsimp only
  rw [if_pos rfl, htake', hdrop']

/-- A value is shorter than its item. -/
theorem splitItem_chars (hs : ∀ c ∈ item, c ≠ 0) (h : (splitItem item).2 = some value) :
    (∀ c ∈ value, c ≠ 0) ∧ value.length < item.length := by
  have hsplit := splitItem_some h
  constructor
  · intro c hc
    apply hs c
    rw [hsplit]
    simp [hc]
  · rw [hsplit, List.length_append, List.length_cons]
    omega

/-- The next item of a query of escaped items. -/
theorem urlFormNextValue_escapeItem (hs : ∀ c ∈ item, c ≠ 0) (hlen : item.length < 18446744073709551615) :
    (urlFormNextValue (escapeItem item ++ ascii ';' :: rest) false).bytesParsed ≠ 0 ∧
      (urlFormNextValue (escapeItem item ++ ascii ';' :: rest) false).piece = some (formItem item) ∧
      (urlFormNextValue (escapeItem item ++ ascii ';' :: rest) false).rest = rest := by
  have hkey : ∀ c ∈ escape (splitItem item).1, isKeyEnd c = false :=
    fun c hc => (isEscaped_escape hc).notKeyEnd
  unfold escapeItem formItem
  cases hvalue : (splitItem item).2 with
  | none =>
    dsimp only
    rw [List.append_nil, urlFormNextValue_key false hkey (by decide)]
    exact ⟨Nat.succ_ne_zero _, rfl, rfl⟩
  | some value =>
    obtain ⟨hne, hless⟩ := splitItem_chars hs hvalue
    dsimp only
    rw [List.append_assoc, List.cons_append,
      urlFormNextValue_value false hkey (fun c hc => (isEscaped_escape hc).notFormEnd) (by decide),
      urlDecodeCstrInplace_escape hne (by omega)]
    exact ⟨Nat.succ_ne_zero _, rfl, rfl⟩

/-- An escaped item is read to its end. -/
theorem urlFormNextValue_escapeItem_last (hitem : item ≠ []) (hs : ∀ c ∈ item, c ≠ 0)
    (hlen : item.length < 18446744073709551615) :
    (urlFormNextValue (escapeItem item) false).bytesParsed ≠ 0 ∧
      (urlFormNextValue (escapeItem item) false).piece = some (formItem item) ∧
      (urlFormNextValue (escapeItem item) false).rest = [] := by
  -- the key has no character at which the search for it would stop
  have hkey : ∀ c ∈ escape (splitItem item).1, isKeyEnd c = false :=
    fun c hc => (isEscaped_escape hc).notKeyEnd
  unfold escapeItem formItem
  -- a key alone, or a key with its value
  cases hvalue : (splitItem item).2 with
  | none =>
    have hne : escape (splitItem item).1 ≠ [] := by
      apply escape_ne_nil
      rw [← splitItem_none hvalue]
      exact hitem
    dsimp only
    rw [List.append_nil, urlFormNextValue_lastKey false hkey hne]
    exact ⟨fun hzero => hne (List.length_eq_zero_iff.1 hzero), rfl, rfl⟩
  | some value =>
    obtain ⟨hne, hless⟩ := splitItem_chars hs hvalue
    dsimp only
    rw [urlFormNextValue_lastValue false hkey fun c hc => (isEscaped_escape hc).notFormEnd,
      urlDecodeCstrInplace_escape hne (by omega)]
    refine ⟨?_, rfl, rfl⟩
    show _ + 1 + _ ≠ 0
    omega

/-- An item does not vanish. -/
theorem escapeItem_ne_nil (hitem : item ≠ []) : escapeItem item ≠ [] := by
  unfold escapeItem
  cases hvalue : (splitItem item).2 with
  | none =>
    dsimp only
    rw [List.append_nil]
    apply escape_ne_nil
    rw [← splitItem_none hvalue]
    exact hitem
  | some value => simp

/-- The items of a query of escaped items. -/
theorem urlFormValues_queryText (h : ∀ item ∈ items, item ≠ [] ∧ ∀ c ∈ item, c ≠ 0)
    (hlen : ∀ item ∈ items, item.length < 18446744073709551615) :
    urlFormValues (queryText items) = items.map formItem := by
  apply urlPieces_joinWith
  · rfl
  · intro item hitem
    exact urlFormNextValue_escapeItem_last (h item hitem).1 (h item hitem).2 (hlen item hitem)
  · intro item hitem rest
    exact urlFormNextValue_escapeItem (h item hitem).2 (hlen item hitem)
  · have hne : ∀ p ∈ items.map escapeItem, p ≠ [] := by
      intro p hp
      obtain ⟨item, hitem, rfl⟩ := List.mem_map.1 hp
      exact escapeItem_ne_nil (h item hitem).1
    have hle := length_le_joinWith (ascii ';') hne
    rw [List.length_map] at hle
    unfold queryText
    omega

/-- The item comes back exactly when its key needs no escapes and there is no `+` in its value. -/
theorem formItem_eq_self_iff : formItem item = item ↔
    (∀ c ∈ (splitItem item).1, isurlchar c = true) ∧
      ∀ value, (splitItem item).2 = some value → ascii '+' ∉ value := by
  rw [← escape_eq_self_iff]
  -- a key alone, or a key with its value
  cases hvalue : (splitItem item).2 with
  | none =>
    have hkey := splitItem_none hvalue
    unfold formItem
    rw [hvalue]
    dsimp only
    rw [List.append_nil]
    constructor
    · intro heq
      exact ⟨heq.trans hkey, fun value h => by cases h⟩
    · rintro ⟨heq, -⟩
      exact heq.trans hkey.symm
  | some value =>
    have hsplit := splitItem_some hvalue
    unfold formItem
    rw [hvalue]
    dsimp only
    generalize (splitItem item).1 = key at hsplit ⊢
    rw [hsplit]
    constructor
    · intro heq
      have hlen := congrArg List.length heq
      simp only [List.length_append, List.length_cons, List.length_map] at hlen
      obtain ⟨hkey, htail⟩ := List.append_inj heq (by omega)
      refine ⟨hkey, ?_⟩
      intro value' h
      obtain rfl : value = value' := Option.some.inj h
      exact map_plainChar_eq_iff.1 (List.cons.inj htail).2
    · rintro ⟨hkey, hplus⟩
      rw [hkey, map_plainChar_eq_iff.2 (hplus value rfl)]

end

/-! ## Relative URLs -/

/-- The text of a path and a query. -/
def uriText (segments items : List (List UInt8)) : List UInt8 :=
  segments.flatMap (fun s => ascii '/' :: escape s) ++
    if items = [] then [] else ascii '?' :: queryText items

section
variable {segments items : List (List UInt8)}

/-- The path is made of its own characters. -/
theorem isPathChar_of_mem {c : UInt8} (h : c ∈ segments.flatMap fun s => ascii '/' :: escape s) :
    isPathChar c = true := by
  obtain ⟨s, -, hc⟩ := List.mem_flatMap.1 h
  rcases List.mem_cons.1 hc with rfl | hc
  · decide
  · exact (isEscaped_escape hc).path

/-- So is the query. -/
theorem isQueryChar_of_mem {c : UInt8} (h : c ∈ queryText items) : isQueryChar c = true := by
  -- the escapes and the equals sign are characters of a query
  have hitem {item : List UInt8} (hc : c ∈ escapeItem item) : isQueryChar c = true := by
    have hescape {s : List UInt8} (hc : c ∈ escape s) : isQueryChar c = true := by
      rw [isQueryChar, (isEscaped_escape hc).path, Bool.true_or]
    unfold escapeItem at hc
    rcases List.mem_append.1 hc with hc | hc
    · exact hescape hc
    · cases hvalue : (splitItem item).2 with
      | none =>
        rw [hvalue] at hc
        cases hc
      | some value =>
        rw [hvalue] at hc
        rcases List.mem_cons.1 hc with rfl | hc
        · decide
        · exact hescape hc
  unfold queryText at h
  -- the items are joined with ampersands
  cases items with
  | nil => cases h
  | cons item items =>
    rw [List.map_cons, joinWith_cons] at h
    rcases List.mem_append.1 h with hc | hc
    · exact hitem hc
    · obtain ⟨p, hp, hc⟩ := List.mem_flatMap.1 hc
      obtain ⟨item', -, rfl⟩ := List.mem_map.1 hp
      rcases List.mem_cons.1 hc with rfl | hc
      · decide
      · exact hitem hc

/-- A path is no absolute URL. -/
theorem urlIsAbsolute_uriText : urlIsAbsolute (uriText segments items) = false := by
  unfold uriText
  cases segments with
  | nil =>
    by_cases hitems : items = []
    · rw [if_pos hitems]
      rfl
    · rw [if_neg hitems]
      rfl
  | cons s segments => rfl

/-- The text is taken apart into the path and the query. -/
theorem urlParse_uriText : ∃ n, urlParse (uriText segments items) =
    ({ path := some (segments.flatMap fun s => ascii '/' :: escape s)
       query := if items = [] then none else some (queryText items) }, n) ∧
      (n = 0 ↔ uriText segments items = []) := by
  unfold urlParse
  -- a slash in front: the text has no authority
  rw [if_pos urlIsAbsolute_uriText]
  unfold uriText parsePath
  dsimp only
  generalize hpath : segments.flatMap (fun s => ascii '/' :: escape s) = path
  -- the path ends at the first character that it may not have
  have hchars : ∀ c ∈ path, isPathChar c = true := by
    intro c hc
    rw [← hpath] at hc
    exact isPathChar_of_mem hc
  -- the query begins there, if there is one
  by_cases hitems : items = []
  · obtain ⟨htake, hdrop⟩ := takeWhile_all hchars
    rw [if_pos hitems, List.append_nil, htake, hdrop, if_pos hitems]
    dsimp only
    refine ⟨_, rfl, ?_⟩
    rw [Nat.zero_add, List.length_eq_zero_iff]
  · obtain ⟨htake, hdrop⟩ := takeWhile_sep (queryText items) hchars
      (show isPathChar (ascii '?') = false by decide)
    obtain ⟨hquery, -⟩ := takeWhile_all (f := isQueryChar) fun c hc => isQueryChar_of_mem hc
    rw [if_neg hitems, htake, hdrop, if_neg hitems]
    dsimp only
    rw [if_pos rfl, hquery]
    refine ⟨_, rfl, ?_⟩
    simp

end

end Smcp
