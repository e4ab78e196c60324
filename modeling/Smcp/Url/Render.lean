import Smcp.Url.Parse

/-!
# Rendered URLs

`url_parse` on the text of a URL with a scheme and an authority.

* `UrlParts`: the parts of a URL, made of characters that `url_parse` accepts where they stand;
* `parseHost_rest`, `parseUser_rest`: the loops over the authority, from its end down;
* `urlParse_render_iff`: the parts come back when there is a path, no user in front of a bracketed
  address, and no colon in the password.
-/

namespace Smcp

/-! ## The parts of a URL -/

def isSchemeChar (c : UInt8) : Bool := isalpha c || c == ascii '-'

/-- The characters of the name of a user. -/
def isUserChar (c : UInt8) : Bool := isAuthorityChar c && c != ascii ':'

/-- The characters of a registered name. -/
def isNameChar (c : UInt8) : Bool := isurlchar c || c == ascii '%'

/-- The characters of an address in brackets. -/
def isAddressChar (c : UInt8) : Bool := isNameChar c || c == ascii ':'

def isDigit (c : UInt8) : Bool := ascii '0' ≤ c && c ≤ ascii '9'

/-- A string of such characters. -/
structure StringOf (p : UInt8 → Bool) where
  val : List UInt8
  chars : ∀ c ∈ val, p c = true

def StringOf.ofAll {p : UInt8 → Bool} (s : List UInt8) (h : s.all p = true) : StringOf p :=
  ⟨s, List.all_eq_true.1 h⟩

/-- A host: a registered name, or an address in brackets. -/
inductive UrlHost where
  | name (s : StringOf isNameChar)
  | address (s : StringOf isAddressChar)

/-- The name of a user, and the password. -/
structure UrlUser where
  name : StringOf isUserChar
  password : Option (StringOf isAuthorityChar)

/-- The parts of a URL. -/
structure UrlParts where
  scheme : StringOf isSchemeChar
  scheme_ne_nil : scheme.val ≠ []
  user : Option UrlUser
  host : UrlHost
  port : Option (StringOf isDigit)
  path : Option (StringOf isPathChar)
  query : Option (StringOf isQueryChar)

def UrlHost.isAddress : UrlHost → Bool
  | .name _ => false
  | .address _ => true

/-! ## The text -/

/-- The string behind a separator, if there is one. -/
def behind (sep : UInt8) {p : UInt8 → Bool} : Option (StringOf p) → List UInt8
  | none => []
  | some s => sep :: s.val

def UrlUser.text (u : UrlUser) : List UInt8 := u.name.val ++ behind (ascii ':') u.password

def UrlHost.text : UrlHost → List UInt8
  | .name s => s.val
  | .address s => ascii '[' :: s.val ++ [ascii ']']

def userText : Option UrlUser → List UInt8
  | none => []
  | some u => u.text ++ [ascii '@']

namespace UrlParts

variable (u : UrlParts)

def authority : List UInt8 := userText u.user ++ u.host.text ++ behind (ascii ':') u.port

def rest : List UInt8 := behind (ascii '/') u.path ++ behind (ascii '?') u.query

/-- `scheme://[user[:password]@]host[:port][/path][?query]`. -/
def render : List UInt8 :=
  u.scheme.val ++ ascii ':' :: ascii '/' :: ascii '/' :: (u.authority ++ u.rest)

end UrlParts

/-- The host without its brackets. -/
def UrlHost.value : UrlHost → List UInt8
  | .name s => s.val
  | .address s => s.val

/-- The components of the URL. -/
def UrlParts.components (u : UrlParts) : UrlComponents where
  protocol := some u.scheme.val
  username := u.user.map fun user => user.name.val
  password := u.user.bind fun user => user.password.map StringOf.val
  host := some u.host.value
  port := u.port.map StringOf.val
  path := u.path.map StringOf.val
  query := u.query.map StringOf.val

/-! ## The loops over the authority -/

/-- A character that the loop down to the host leaves alone. -/
def isHostChar (gotPort : Bool) (c : UInt8) : Bool :=
  c != ascii '@' && c != ascii '[' && c != ascii ']' && (gotPort || c != ascii ':')

section
variable {l addr tail : List UInt8} {gotPort : Bool} {port : Option (List UInt8)}

/-- Characters that mean nothing are passed over. -/
theorem parseHost_plain (hl : ∀ c ∈ l, isHostChar gotPort c = true) :
    parseHost (l ++ addr) gotPort port tail = parseHost addr gotPort port (l.reverse ++ tail) := by
  induction l generalizing tail with
  | nil => rfl
  | cons c l ih =>
    have hc := hl c List.mem_cons_self
    simp only [isHostChar, Bool.and_eq_true, Bool.or_eq_true, bne_iff_ne] at hc
    obtain ⟨⟨⟨hat, hopen⟩, hclose⟩, hcolon⟩ := hc
    have hgo : ¬(gotPort = false ∧ c = ascii ':') := by
      intro h
      rcases hcolon with hgot | hne
      · rw [hgot] at h
        exact absurd h.1 (by decide)
      · exact hne h.2
    rw [List.cons_append, parseHost, if_neg (not_or.2 ⟨hat, hopen⟩), if_neg hclose, if_neg hgo,
      ih fun c' hc' => hl c' (List.mem_cons_of_mem c hc'), List.reverse_cons, List.append_assoc,
      List.singleton_append]

/-- The same for a part of the authority. -/
theorem parseHost_part (hl : ∀ c ∈ l, isHostChar gotPort c = true) :
    parseHost (l.reverse ++ addr) gotPort port tail = parseHost addr gotPort port (l ++ tail) := by
  have h : parseHost (l.reverse ++ addr) gotPort port tail =
      parseHost addr gotPort port (l.reverse.reverse ++ tail) :=
    parseHost_plain fun c hc => hl c (List.mem_reverse.1 hc)
  rwa [List.reverse_reverse] at h

/-- The terminators that are stored in a password with colons. -/
def cutAtColon (c : UInt8) : UInt8 := if c = ascii ':' then 0 else c

/-- A colon cuts, every other character is passed over. -/
theorem parseUser_plain (addr tail : List UInt8) (password : Option (List UInt8)) : ∃ password',
    parseUser (l ++ addr) password tail =
      parseUser addr password' (l.reverse.map cutAtColon ++ tail) ∧
    ((∀ c ∈ l, c ≠ ascii ':') → password' = password) := by
  induction l generalizing password tail with
  | nil => exact ⟨password, rfl, fun _ => rfl⟩
  | cons c l ih =>
    rw [List.cons_append, parseUser, List.reverse_cons, List.map_append, List.append_assoc]
    by_cases hc : c = ascii ':'
    · obtain ⟨password', heq, -⟩ := ih (0 :: tail) (some (cString tail))
      rw [if_pos hc, heq]
      refine ⟨password', ?_, fun h => absurd hc (h c List.mem_cons_self)⟩
      unfold cutAtColon
      rw [List.map_singleton, if_pos hc]
      rfl
    · obtain ⟨password', heq, hsame⟩ := ih (c :: tail) password
      rw [if_neg hc, heq]
      refine ⟨password', ?_, fun h => hsame fun c' hc' => h c' (List.mem_cons_of_mem c hc')⟩
      unfold cutAtColon
      rw [List.map_singleton, if_neg hc]
      rfl

/-- A text without a colon is kept as a string. -/
theorem cString_cutAtColon_iff (hl : ∀ c ∈ l, c ≠ 0) :
    cString (l.map cutAtColon) = l ↔ ascii ':' ∉ l := by
  constructor
  · intro heq hcolon
    have hall : cString (l.map cutAtColon) = l.map cutAtColon := by
      apply (List.takeWhile_prefix _).eq_of_length
      rw [List.length_map]
      exact congrArg List.length heq
    have hzero : cutAtColon (ascii ':') ∈ cString (l.map cutAtColon) := by
      rw [hall]
      exact List.mem_map_of_mem hcolon
    rw [heq] at hzero
    exact hl _ hzero rfl
  · intro hcolon
    have hid : l.map cutAtColon = l := by
      have hsame : ∀ c ∈ l, cutAtColon c = id c := by
        intro c hc
        apply if_neg
        intro heq
        rw [heq] at hc
        exact hcolon hc
      rw [List.map_congr_left hsame, List.map_id]
    rw [hid]
    exact cString_eq_self hl

end

/-! ## Characters -/

/-- Digits mean nothing in a host. -/
theorem isHostChar_of_isDigit (c : UInt8) : isDigit c = true → isHostChar false c = true := by
  revert c
  apply forall_byte
  decide +kernel

/-- The characters of a name mean nothing in a host. -/
theorem isHostChar_of_isNameChar (c : UInt8) : isNameChar c = true → isHostChar false c = true := by
  revert c
  apply forall_byte
  decide +kernel

/-- The characters of an address mean nothing between its brackets. -/
theorem isHostChar_of_isAddressChar (c : UInt8) :
    isAddressChar c = true → isHostChar true c = true := by
  revert c
  apply forall_byte
  decide +kernel

/-- Once there was a port, a colon means nothing more. -/
theorem isHostChar_true {c : UInt8} (h : isHostChar false c = true) : isHostChar true c = true := by
  simp only [isHostChar, Bool.and_eq_true] at h ⊢
  exact ⟨h.1, rfl⟩

/-- The characters of an authority are those of its parts and the separators. -/
theorem isAuthorityChar_of_part (c : UInt8) :
    (isUserChar c = true ∨ isAddressChar c = true ∨ isDigit c = true ∨ isNameChar c = true →
      isAuthorityChar c = true) ∧ (isAuthorityChar c = true → c ≠ 0 ∧ c ≠ ascii '/') := by
  revert c
  apply forall_byte
  decide +kernel

/-- No part of an authority has a terminator in it. -/
theorem ne_zero_of_chars {p : UInt8 → Bool} (hp : ∀ c, p c = true → isAuthorityChar c = true)
    (s : StringOf p) : ∀ c ∈ s.val, c ≠ 0 := fun c hc =>
  ((isAuthorityChar_of_part c).2 (hp c (s.chars c hc))).1

/-- A user is made of characters of an authority. -/
theorem isAuthorityChar_of_isUserChar (c : UInt8) (h : isUserChar c = true) :
    isAuthorityChar c = true := (isAuthorityChar_of_part c).1 (.inl h)

/-- An address is made of characters of an authority. -/
theorem isAuthorityChar_of_isAddressChar (c : UInt8) (h : isAddressChar c = true) :
    isAuthorityChar c = true := (isAuthorityChar_of_part c).1 (.inr (.inl h))

/-- A port is made of characters of an authority. -/
theorem isAuthorityChar_of_isDigit (c : UInt8) (h : isDigit c = true) : isAuthorityChar c = true :=
  (isAuthorityChar_of_part c).1 (.inr (.inr (.inl h)))

/-- A name is made of characters of an authority. -/
theorem isAuthorityChar_of_isNameChar (c : UInt8) (h : isNameChar c = true) :
    isAuthorityChar c = true := (isAuthorityChar_of_part c).1 (.inr (.inr (.inr h)))

/-! ## The authority -/

/-- What is stored behind the host. -/
def portTail : Option (StringOf isDigit) → List UInt8
  | none => []
  | some s => 0 :: s.val

section
variable {addr tail : List UInt8} {gotPort : Bool} {port : Option (List UInt8)}

/-- The host is read from the end: first comes the port, if there is one. -/
theorem parseHost_port (p : Option (StringOf isDigit)) :
    parseHost ((behind (ascii ':') p).reverse ++ addr) false none [] =
      parseHost addr p.isSome (p.map StringOf.val) (portTail p) := by
  cases p with
  | none => rfl
  | some s =>
    have hdigits : cString s.val = s.val :=
      cString_eq_self (ne_zero_of_chars isAuthorityChar_of_isDigit s)
    show parseHost ((ascii ':' :: s.val).reverse ++ addr) false none [] = _
    rw [List.reverse_cons, List.append_assoc,
      parseHost_part fun c hc => isHostChar_of_isDigit c (s.chars c hc), List.append_nil,
      List.singleton_append, parseHost, if_neg (by decide), if_neg (by decide), if_pos ⟨rfl, rfl⟩,
      hdigits]
    rfl

/-- The host ends where a user begins. -/
theorem parseHost_user (u : Option UrlUser) :
    parseHost (userText u).reverse gotPort port tail = (tail, port, (userText u).reverse) := by
  cases u with
  | none => rfl
  | some u =>
    have hrev : (userText (some u)).reverse = ascii '@' :: u.text.reverse := by
      unfold userText
      rw [List.reverse_append, List.reverse_singleton, List.singleton_append]
    rw [hrev, parseHost, if_pos (.inl rfl)]

/-- A name is found in front of the port. -/
theorem parseHost_name (s : StringOf isNameChar) (u : Option UrlUser) :
    parseHost (s.val.reverse ++ (userText u).reverse) gotPort port tail =
      (s.val ++ tail, port, (userText u).reverse) := by
  rw [parseHost_part, parseHost_user]
  intro c hc
  have hchar := isHostChar_of_isNameChar c (s.chars c hc)
  cases gotPort with
  | false => exact hchar
  | true => exact isHostChar_true hchar

/-- An address is found between its brackets. -/
theorem parseHost_address (s : StringOf isAddressChar) :
    parseHost ((UrlHost.address s).text.reverse ++ addr) gotPort port tail =
      (s.val ++ 0 :: tail, port, ascii '[' :: addr) := by
  have hrev : (UrlHost.address s).text.reverse ++ addr =
      ascii ']' :: (s.val.reverse ++ ascii '[' :: addr) := by
    simp [UrlHost.text]
  rw [hrev, parseHost, if_neg (by decide), if_pos rfl,
    parseHost_part fun c hc => isHostChar_of_isAddressChar c (s.chars c hc), parseHost,
    if_pos (.inr rfl)]

/-- The name and the password that are found, if the host is a registered name. -/
def UrlUser.found (u : UrlUser) : List UInt8 × Option (List UInt8) :=
  (u.name.val, u.password.map fun p => cString (p.val.map cutAtColon))

/-- User and password are found, but for what a colon cuts. -/
theorem parseUser_text (u : UrlUser) :
    cString (parseUser u.text.reverse none []).1 = u.found.1 ∧
      (parseUser u.text.reverse none []).2 = u.found.2 := by
  -- neither the end of the string nor a colon is in the name
  have hname := ne_zero_of_chars isAuthorityChar_of_isUserChar u.name
  have hcolon : ∀ c ∈ u.name.val, c ≠ ascii ':' := by
    intro c hc
    have hchar := u.name.chars c hc
    simp only [isUserChar, Bool.and_eq_true, bne_iff_ne] at hchar
    exact hchar.2
  have hplain {tail : List UInt8} (password : Option (List UInt8)) :
      parseUser u.name.val.reverse password tail = (u.name.val ++ tail, password) := by
    obtain ⟨password', heq, hsame⟩ := parseUser_plain (l := u.name.val.reverse) [] tail
      password
    have hid : u.name.val.map cutAtColon = u.name.val.map id :=
      List.map_congr_left fun c hc => if_neg (hcolon c hc)
    rw [List.append_nil, List.reverse_reverse, hid, List.map_id] at heq
    rw [heq, hsame fun c hc => hcolon c (List.mem_reverse.1 hc), parseUser]
  unfold UrlUser.text UrlUser.found
  -- a password stands behind a colon
  cases u.password with
  | none =>
    rw [behind, List.append_nil, hplain, List.append_nil]
    exact ⟨cString_eq_self hname, rfl⟩
  | some p =>
    obtain ⟨password', heq, -⟩ := parseUser_plain (l := p.val.reverse)
      (ascii ':' :: u.name.val.reverse) [] none
    rw [List.reverse_reverse, List.append_nil] at heq
    rw [behind, List.reverse_append, List.reverse_cons, List.append_assoc, List.singleton_append, heq,
      parseUser, if_pos rfl, hplain]
    exact ⟨cString_append_zero _ hname, rfl⟩

end

/-- The user that is found. It is not looked for in front of a bracketed address. -/
def UrlHost.foundUser (user : Option UrlUser) : UrlHost → Option (List UInt8 × Option (List UInt8))
  | .name _ => user.map UrlUser.found
  | .address _ => none

namespace UrlParts

variable (u : UrlParts)

/-- All parts of the authority are found. -/
theorem parseAuthority_authority (c : UrlComponents) (hname : c.username = none)
    (hpassword : c.password = none) :
    parseAuthority c u.authority =
      { c with
        host := some u.host.value
        port := u.port.map StringOf.val
        username := (u.host.foundUser u.user).map Prod.fst
        password := (u.host.foundUser u.user).bind Prod.snd } := by
  -- the port is found from the end, so the text is turned around
  have hrev : u.authority.reverse = (behind (ascii ':') u.port).reverse ++
      (u.host.text.reverse ++ (userText u.user).reverse) := by
    unfold authority
    rw [List.reverse_append, List.reverse_append]
  have htail {s : List UInt8} (hs : ∀ c ∈ s, c ≠ 0) : cString (s ++ portTail u.port) = s := by
    cases u.port with
    | none =>
      rw [portTail, List.append_nil]
      exact cString_eq_self hs
    | some p => exact cString_append_zero _ hs
  unfold parseAuthority
  rw [hrev, parseHost_port]
  -- a name, or an address in brackets
  cases u.host with
  | name s =>
    have hs := htail (ne_zero_of_chars isAuthorityChar_of_isNameChar s)
    rw [UrlHost.text, parseHost_name]
    dsimp only [UrlHost.foundUser, UrlHost.value]
    rw [hs]
    cases u.user with
    | none =>
      rw [if_neg (show (userText none).reverse.head? ≠ some (ascii '@') by decide), hname, hpassword]
      rfl
    | some user =>
      have hat : (userText (some user)).reverse = ascii '@' :: user.text.reverse := by
        unfold userText
        rw [List.reverse_append, List.reverse_singleton, List.singleton_append]
      obtain ⟨hfst, hsnd⟩ := parseUser_text user
      rw [hat, if_pos (List.head?_cons), List.tail_cons, hfst, hsnd]
      rfl
  | address s =>
    rw [parseHost_address]
    have hopen : (ascii '[' :: (userText u.user).reverse).head? ≠ some (ascii '@') := by
      rw [List.head?_cons]
      decide
    dsimp only [UrlHost.foundUser, UrlHost.value]
    rw [cString_append_zero _ (ne_zero_of_chars isAuthorityChar_of_isAddressChar s), if_neg hopen, hname,
      hpassword]
    rfl

/-- An authority has the characters that it may have. -/
theorem isAuthorityChar_of_mem {c : UInt8} (hc : c ∈ u.authority) : isAuthorityChar c = true := by
  unfold authority at hc
  -- the user, the host, or the port
  rcases List.mem_append.1 hc with hc | hc
  · rcases List.mem_append.1 hc with hc | hc
    · cases huser : u.user with
      | none =>
        rw [huser] at hc
        exact absurd hc List.not_mem_nil
      | some user =>
        rw [huser] at hc
        rcases List.mem_append.1 hc with hc | hc
        · rcases List.mem_append.1 hc with hc | hc
          · exact isAuthorityChar_of_isUserChar c (user.name.chars c hc)
          · cases hpassword : user.password with
            | none =>
              rw [hpassword] at hc
              exact absurd hc List.not_mem_nil
            | some p =>
              rw [hpassword] at hc
              rcases List.mem_cons.1 hc with rfl | hc
              · rfl
              · exact p.chars c hc
        · rw [List.mem_singleton.1 hc]
          rfl
    · cases hhost : u.host with
      | name s =>
        rw [hhost] at hc
        exact isAuthorityChar_of_isNameChar c (s.chars c hc)
      | address s =>
        rw [hhost] at hc
        rcases List.mem_append.1 hc with hc | hc
        · rcases List.mem_cons.1 hc with rfl | hc
          · rfl
          · exact isAuthorityChar_of_isAddressChar c (s.chars c hc)
        · rw [List.mem_singleton.1 hc]
          rfl
  · cases hport : u.port with
    | none =>
      rw [hport] at hc
      exact absurd hc List.not_mem_nil
    | some s =>
      rw [hport] at hc
      rcases List.mem_cons.1 hc with rfl | hc
      · rfl
      · exact isAuthorityChar_of_isDigit c (s.chars c hc)

/-- It ends where they end. -/
theorem takeWhile_authority : (u.authority ++ u.rest).takeWhile isAuthorityChar = u.authority ∧
    (u.authority ++ u.rest).dropWhile isAuthorityChar = u.rest := by
  have hchars : ∀ c ∈ u.authority, isAuthorityChar c = true := fun c hc => u.isAuthorityChar_of_mem hc
  unfold rest
  cases u.path with
  | some p => exact takeWhile_sep _ hchars (show isAuthorityChar (ascii '/') = false by decide)
  | none =>
    cases u.query with
    | some q => exact takeWhile_sep _ hchars (show isAuthorityChar (ascii '?') = false by decide)
    | none =>
      have hall := takeWhile_all hchars
      show (u.authority ++ []).takeWhile isAuthorityChar = u.authority ∧
        (u.authority ++ []).dropWhile isAuthorityChar = []
      rwa [List.append_nil]

/-- A scheme has no colon. -/
theorem isSchemeChar_spec (c : UInt8) : isSchemeChar c = true → c != ascii ':' := by
  revert c
  apply forall_byte
  decide +kernel

/-- The URL is taken apart into the scheme, the authority and what is behind its end. -/
theorem urlParse_render : ∃ n, urlParse u.render =
    parsePath (parseAuthority { protocol := some u.scheme.val } u.authority) u.rest.tail n := by
  -- the scheme ends at its colon
  obtain ⟨hscheme, hcolon⟩ := takeWhile_sep
    (ascii '/' :: ascii '/' :: (u.authority ++ u.rest)) u.scheme.chars
    (show isSchemeChar (ascii ':') = false by decide)
  obtain ⟨hprotocol, hbehind⟩ := takeWhile_sep
    (ascii '/' :: ascii '/' :: (u.authority ++ u.rest)) (f := fun c => c != ascii ':')
    (fun c hc => isSchemeChar_spec c (u.scheme.chars c hc)) (show (ascii ':' != ascii ':') = false by decide)
  -- the authority ends at the path or the query
  obtain ⟨hauthority, hrest⟩ := u.takeWhile_authority
  have hslashes : (ascii '/' :: ascii '/' :: (u.authority ++ u.rest)).take 2 =
      [ascii '/', ascii '/'] := rfl
  -- two slashes make it a whole URL
  have habsolute : urlIsAbsolute u.render = true := by
    show (u.render.takeWhile isSchemeChar ≠ [] &&
      (u.render.dropWhile isSchemeChar).head? == some (ascii ':')) = true
    unfold render
    rw [hscheme, hcolon, decide_eq_true u.scheme_ne_nil]
    rfl
  unfold urlParse
  rw [if_neg (by rw [habsolute]; decide)]
  unfold render
  dsimp only
  rw [hprotocol, hbehind, List.tail_cons, if_neg (List.cons_ne_nil _ _), if_pos hslashes]
  show ∃ n, parsePath (parseAuthority _ ((u.authority ++ u.rest).takeWhile isAuthorityChar))
    ((u.authority ++ u.rest).dropWhile isAuthorityChar).tail _ = _
  -- and what is behind the authority is the path with its query
  rw [hauthority, hrest]
  exact ⟨_, rfl⟩

end UrlParts

/-- The path and the query behind the slash. -/
theorem parsePath_rest (c : UrlComponents) (hquery : c.query = none) (p : StringOf isPathChar)
    (q : Option (StringOf isQueryChar)) (n : ℕ) :
    (parsePath c (p.val ++ behind (ascii '?') q) n).1 =
      { c with path := some p.val, query := q.map StringOf.val } := by
  unfold parsePath
  cases q with
  | none =>
    obtain ⟨htake, hdrop⟩ := takeWhile_all p.chars
    rw [behind, List.append_nil, htake, hdrop]
    show ({ c with path := some p.val } : UrlComponents) = _
    rw [Option.map_none, ← hquery]
  | some q =>
    obtain ⟨htake, hdrop⟩ := takeWhile_sep q.val p.chars
      (show isPathChar (ascii '?') = false by decide)
    rw [behind, htake, hdrop]
    dsimp only
    rw [if_pos rfl, (takeWhile_all q.chars).1]
    rfl

/-- There is always a path, though it may be empty. -/
theorem parsePath_path (c : UrlComponents) (uri : List UInt8) (n : ℕ) :
    (parsePath c uri n).1.path.isSome = true := by
  unfold parsePath
  dsimp only
  split
  · rfl
  · split_ifs <;> rfl

/-- The user comes back. -/
def UrlParts.UserKept (u : UrlParts) : Prop :=
  ∀ user ∈ u.user, u.host.isAddress = false ∧ ∀ p ∈ user.password, ascii ':' ∉ p.val

/-- The user is found as it was given exactly if the host leaves it alone. -/
theorem foundUser_iff (u : UrlParts) :
    ((u.host.foundUser u.user).map Prod.fst = u.user.map (fun user => user.name.val) ∧
      (u.host.foundUser u.user).bind Prod.snd =
        u.user.bind fun user => user.password.map StringOf.val) ↔ u.UserKept := by
  unfold UrlParts.UserKept
  cases u.user with
  | none =>
    have hnone : u.host.foundUser none = none := by
      cases u.host <;> rfl
    rw [hnone]
    exact ⟨fun _ user huser => absurd huser (by simp), fun _ => ⟨rfl, rfl⟩⟩
  | some user =>
    cases u.host with
    | address s =>
      refine ⟨fun h => absurd h.1 (by simp [UrlHost.foundUser]), fun h => ?_⟩
      exact absurd (h user rfl).1 (by simp [UrlHost.isAddress])
    | name s =>
      simp only [UrlHost.foundUser, UrlUser.found, UrlHost.isAddress, Option.map_some, Option.bind_some,
        Option.mem_def, Option.some.injEq, forall_eq', true_and]
      cases user.password with
      | none => simp
      | some p =>
        have hchars : ∀ c ∈ p.val, c ≠ 0 := ne_zero_of_chars (fun c hc => hc) p
        simpa using cString_cutAtColon_iff hchars

/-- The parts of a URL come back exactly when it has a path, and its user is not in front of a
bracketed address and has no colon in the password. -/
theorem urlParse_render_iff (u : UrlParts) :
    (urlParse u.render).1 = u.components ↔ u.path.isSome = true ∧ u.UserKept := by
  obtain ⟨n, hparse⟩ := u.urlParse_render
  -- what is left is the path, with its slash
  rw [hparse, u.parseAuthority_authority _ rfl rfl]
  cases hpath : u.path with
  | none =>
    refine ⟨fun h => ?_, fun h => absurd h.1 (by decide)⟩
    have hnone : u.components.path = none := by
      unfold UrlParts.components
      rw [hpath]
      rfl
    have hpathNone := (congrArg UrlComponents.path h).trans hnone
    have hsome : (none : Option (List UInt8)).isSome = true := by
      rw [← hpathNone]
      exact parsePath_path _ _ _
    exact absurd hsome (by decide)
  | some p =>
    have htail : u.rest.tail = p.val ++ behind (ascii '?') u.query := by
      unfold UrlParts.rest
      rw [hpath]
      rfl
    rw [htail, parsePath_rest _ rfl, ← foundUser_iff u]
    unfold UrlParts.components
    rw [hpath]
    simp

/-- A query behind the authority is taken for the path. -/
def queryUrl : UrlParts where
  scheme := .ofAll [ascii 'a'] rfl
  scheme_ne_nil := List.cons_ne_nil _ _
  user := none
  host := .name (.ofAll [ascii 'h'] rfl)
  port := none
  path := none
  query := some (.ofAll [ascii 'q'] rfl)

/-- A query behind the host is taken for the path as well. -/
theorem urlParse_queryUrl :
    queryUrl.render = asciiBytes "a://h?q" ∧ queryUrl.components.query = some (asciiBytes "q") ∧
      (urlParse queryUrl.render).1.path = some (asciiBytes "q") ∧
      ¬∀ u : UrlParts, (urlParse u.render).1 = u.components := by
  refine ⟨by decide, by decide, by decide, ?_⟩
  intro hall
  have hquery := congrArg UrlComponents.query (hall queryUrl)
  revert hquery
  decide

end Smcp
