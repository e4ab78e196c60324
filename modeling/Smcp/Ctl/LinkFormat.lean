import Smcp.Lib.Run
import Smcp.Url.Shorten

/-!
# Link format

`parse_link_format` of `smcpctl`, which shows a list of links as it reads it. Each iteration of one
of its loops is a step; the separators are overwritten in the buffer as the source does it. What it
prints is kept as a list, the columns are left out.

* `LinkParser.step_advances`: a step that does not meet an escaped quote gets on;
* `LinkParser.step_escaped`: one that does meets it again, so that the parser finishes if and only if
  none does (`LinkParser.halts_iff_never_escaped`).
-/

namespace Smcp

open Run StringBuffer

/-! ## The buffer -/

/-- The loop over the characters of a key. -/
def keyEnd (buffer : List UInt8) (i : ℕ) : ℕ :=
  i + ((textAt buffer i).takeWhile fun c => c ≠ ascii '=' ∧ c ≠ ascii ';' ∧ c ≠ ascii ',').length

/-- The loop over the characters of a value without quotes. -/
def valueEnd (buffer : List UInt8) (stop i : ℕ) : ℕ :=
  i + (((buffer.take stop).drop i).takeWhile fun c => c ≠ ascii ',' ∧ c ≠ ascii ';').length

/-- The loop that replaces the line feeds of a value. -/
def convertLineFeeds : List UInt8 → List UInt8
  | [] => []
  | c :: rest =>
    if c = 0 then c :: rest
    else
      (if c = 0x0A then (if rest.headD 0 ≠ 0 then ascii '|' else 0) else c) ::
        convertLineFeeds rest

/-! ## Links -/

/-- The attributes of a link, as offsets in the buffer; that of the type is the value `strtol` is
given. -/
structure Link where
  uri : ℕ := 0
  name : Option ℕ := none
  desc : Option ℕ := none
  v : Option ℕ := none
  shUrl : Option ℕ := none
  type : Option ℕ := none

def Link.setAttribute (l : Link) (key : List UInt8) (value : ℕ) : Link :=
  if key = asciiBytes "n" then { l with name := some value }
  else if l.name = none ∧ key = asciiBytes "rt" then { l with name := some value }
  else if key = asciiBytes "title" then { l with desc := some value }
  else if key = asciiBytes "v" then { l with v := some value }
  else if key = asciiBytes "ct" then { l with type := some value }
  else if key = asciiBytes "sh" then { l with shUrl := some value }
  else l

/-- What is printed for a link. -/
structure ShownLink where
  uri : List UInt8
  hasTrailingSlash : Bool
  name : Option (List UInt8)
  desc : Option (List UInt8)
  v : Option (List UInt8)
  shUrl : Option (List UInt8)
  type : Option (List UInt8)

/-- The loop that strips the trailing slashes of a reference without a query. -/
def stripSlashes (text : List UInt8) : List UInt8 :=
  if ascii '?' ∈ text then text else (text.reverse.dropWhile isSlash).reverse

/-- The same where the reference stands: the slashes become terminators. -/
def stripReference (bytes : List UInt8) : List UInt8 :=
  let text := bytes.takeWhile fun c => c ≠ 0
  let stripped := (stripSlashes text).length
  overwrite bytes stripped (List.replicate (text.length - stripped) 0)

/-- The variables of the program that `parse_link_format` reads. -/
structure ListSettings where
  originalUrl : List UInt8
  redirectUrl : List UInt8

/-! ## The parser -/

/-- The loop the parser is in. -/
inductive ListPhase
  | content
  | attributes
  | quoted (key value : ℕ)
  | finished
  deriving DecidableEq

structure LinkParser where
  phase : ListPhase := .content
  buffer : List UInt8
  stop : ℕ
  iter : Option ℕ := some 0
  link : Link := {}
  shown : List ShownLink := []

namespace LinkParser

/-- The rest of the iteration of the outer loop, behind the attributes. -/
def showLink (c : ListSettings) (p : LinkParser) : LinkParser :=
  let uri := textAt p.buffer p.link.uri
  let isAdjusted := c.redirectUrl ≠ [] ∧ urlIsAbsolute uri = false
  let reference := if isAdjusted then (urlChange c.redirectUrl uri).url else uri
  let bytes := urlShortenReference c.originalUrl reference
  let text := bytes.takeWhile fun c => c ≠ 0
  -- the adjusted reference is in a buffer of its own
  let buffer :=
    if isAdjusted then p.buffer else overwrite p.buffer p.link.uri (stripReference bytes)
  let shown : ShownLink :=
    { uri := stripSlashes text
      hasTrailingSlash := stripSlashes text ≠ text
      name := p.link.name.map (textAt buffer)
      desc := p.link.desc.map (textAt buffer)
      v := p.link.v.map (textAt buffer)
      shUrl := p.link.shUrl.map (textAt buffer)
      type := p.link.type.map (textAt buffer) }
  { p with phase := .content, buffer := buffer, shown := p.shown ++ [shown] }

/-- The rest of the iteration over the attributes, behind the value. -/
def takeValue (c : ListSettings) (key value : ℕ) (endchar : UInt8) (iter : ℕ) (p : LinkParser) :
    LinkParser :=
  let buffer := overwrite p.buffer value (convertLineFeeds (p.buffer.drop value))
  let link := p.link.setAttribute (textAt buffer key) value
  let p := { p with buffer := buffer, link := link, iter := some iter }
  if endchar = ascii ',' ∨ p.stop ≤ iter then p.showLink c
  else
    { p with phase := .attributes, iter := some (if endchar = ascii ';' then iter - 1 else iter) }

/-- One iteration of the loop that looks for the closing quote. -/
def quotedStep (c : ListSettings) (key value i : ℕ) (p : LinkParser) : LinkParser :=
  match findChar p.buffer (ascii '"') i with
  | none => { p with iter := none }.showLink c
  | some q =>
    if charAt p.buffer (q - 1) = ascii '\\' then { p with iter := some q }
    else
      { p with buffer := p.buffer.set q 0 }.takeValue c key value (charAt p.buffer (q + 1)) (q + 2)

/-- One iteration of the loop over the attributes. -/
def attributeStep (c : ListSettings) (i : ℕ) (p : LinkParser) : LinkParser :=
  let key := i + 1
  let e := keyEnd p.buffer key
  if charAt p.buffer e = ascii ';' then
    { p with buffer := p.buffer.set e 0, iter := some e }
  else if charAt p.buffer e = 0 ∨ charAt p.buffer e = ascii ',' then
    { p with iter := some e }.showLink c
  else
    let buffer := p.buffer.set e 0
    if charAt buffer (e + 1) = ascii '"' then
      { p with phase := .quoted key (e + 2), buffer := buffer, iter := some (e + 2) }
    else
      let r := valueEnd buffer p.stop (e + 1)
      { p with buffer := buffer.set r 0 }.takeValue c key (e + 1) (charAt buffer r) (r + 1)

/-- One iteration of the outer loop, up to the attributes. -/
def contentStep (c : ListSettings) (i : ℕ) (p : LinkParser) : LinkParser :=
  if charAt p.buffer i = ascii '<' then
    match findChar p.buffer (ascii '>') (i + 1) with
    | none => { p with phase := .finished, iter := none }
    | some j =>
      let p := { p with buffer := p.buffer.set j 0, iter := some (j + 1), link := { uri := i + 1 } }
      -- the attributes
      if charAt p.buffer (j + 1) = ascii ';' then { p with phase := .attributes } else p.showLink c
  else { p with iter := some (i + 1) }

/-- One iteration of the loop the parser is in. -/
def step (c : ListSettings) (p : LinkParser) : LinkParser :=
  match p.phase, p.iter with
  | .finished, _ => p
  | .content, none => { p with phase := .finished }
  | .content, some i => if i < p.stop then p.contentStep c i else { p with phase := .finished }
  | .attributes, none => p.showLink c
  | .attributes, some i => if i < p.stop then p.attributeStep c i else p.showLink c
  | .quoted _ _, none => p.showLink c
  | .quoted key value, some i => p.quotedStep c key value i

end LinkParser

/-- `parse_link_format` at its start. -/
def parseLinkFormat (content : List UInt8) : LinkParser :=
  { buffer := content, stop := content.length }

/-- `parse_link_format` returns. -/
def ParseReturns (c : ListSettings) (content : List UInt8) : Prop :=
  Halts (LinkParser.step c) (fun p => p.phase = .finished) (parseLinkFormat content)

/-- The parser looks for the closing quote of a value, and the first quote is behind a backslash. -/
def LinkParser.AtEscapedQuote (p : LinkParser) : Prop :=
  ∃ key value i q, p.phase = .quoted key value ∧ p.iter = some i ∧
    findChar p.buffer (ascii '"') i = some q ∧ charAt p.buffer (q - 1) = ascii '\\'

/-! ## The ends of keys and values -/

theorem le_keyEnd (buffer : List UInt8) (i : ℕ) : i ≤ keyEnd buffer i := Nat.le_add_right _ _

theorem le_valueEnd (buffer : List UInt8) (stop i : ℕ) : i ≤ valueEnd buffer stop i :=
  Nat.le_add_right _ _

/-! ## The reference -/

theorem stripSlashes_length_le (text : List UInt8) : (stripSlashes text).length ≤ text.length := by
  unfold stripSlashes
  by_cases hquery : ascii '?' ∈ text
  · rw [if_pos hquery]
  · rw [if_neg hquery]
    have hsuffix := (List.dropWhile_suffix (l := text.reverse) isSlash).length_le
    rw [List.length_reverse] at hsuffix ⊢
    exact hsuffix

/-- Nothing is stored behind what `url_shorten_reference` has stored. -/
theorem length_stripReference (bytes : List UInt8) :
    (stripReference bytes).length = bytes.length := by
  have htext : (bytes.takeWhile fun c => c ≠ 0).length ≤ bytes.length :=
    (List.takeWhile_prefix _).length_le
  have hstripped := stripSlashes_length_le (bytes.takeWhile fun c => c ≠ 0)
  unfold stripReference
  apply length_overwrite
  rw [List.length_replicate]
  omega

/-! ## Progress -/

/-- How far a loop is from the end of the function. -/
def ListPhase.depth : ListPhase → ℕ
  | .finished => 0
  | .content => 1
  | .attributes => 2
  | .quoted _ _ => 3

theorem depth_lt (phase : ListPhase) : phase.depth < 4 := by
  cases phase with
  | quoted _ _ => exact Nat.lt_succ_self 3
  | _ => exact Nat.lt_of_sub_pos (by decide)

namespace LinkParser

variable {c : ListSettings} {p p' : LinkParser}

/-- What there is behind the pointer, up to the end of the content. -/
def rest (p : LinkParser) : ℕ := p.iter.elim 0 fun i => p.stop + 1 - i

/-- What decreases with each step: first what is left of the content, then the depth of the loop. -/
def measure (p : LinkParser) : ℕ := 4 * p.rest + p.phase.depth

/-- The pointer has not moved back, and it has gone on unless the loop has been left. -/
def Advances (p p' : LinkParser) : Prop :=
  p'.rest < p.rest ∨ (p'.rest ≤ p.rest ∧ p'.phase.depth < p.phase.depth)

theorem Advances.measure_lt (h : Advances p p') : p'.measure < p.measure := by
  have := depth_lt p.phase
  have := depth_lt p'.phase
  unfold Advances at h
  unfold measure
  omega

theorem showLink_rest (c : ListSettings) (p : LinkParser) :
    (p.showLink c).rest = p.rest ∧ (p.showLink c).phase = .content := ⟨rfl, rfl⟩

/-- Behind a value the pointer is at `iter`, or one in front of it at a semicolon. -/
theorem takeValue_rest (c : ListSettings) (key value : ℕ) (endchar : UInt8) (iter : ℕ)
    (p : LinkParser) :
    (p.takeValue c key value endchar iter).rest ≤ p.stop + 1 - (iter - 1) ∧
      (p.takeValue c key value endchar iter).phase.depth ≤ 2 := by
  unfold takeValue
  dsimp only
  by_cases hlast : endchar = ascii ',' ∨ p.stop ≤ iter
  · rw [if_pos hlast, (showLink_rest c _).1, (showLink_rest c _).2]
    refine ⟨?_, by decide⟩
    show p.stop + 1 - iter ≤ p.stop + 1 - (iter - 1)
    omega
  · rw [if_neg hlast]
    refine ⟨?_, le_refl _⟩
    show p.stop + 1 - (if endchar = ascii ';' then iter - 1 else iter) ≤ p.stop + 1 - (iter - 1)
    by_cases hsemicolon : endchar = ascii ';'
    · rw [if_pos hsemicolon]
    · rw [if_neg hsemicolon]
      omega

theorem contentStep_advances {i : ℕ} (hiter : p.iter = some i) (hlt : i < p.stop) :
    Advances p (p.contentStep c i) := by
  -- what is left gets less when the iterator moves on
  have hrest : p.rest = p.stop + 1 - i := by
    unfold rest
    rw [hiter]
    rfl
  left
  unfold contentStep
  -- only an angle bracket begins an entry
  by_cases hopen : charAt p.buffer i = ascii '<'
  · rw [if_pos hopen]
    -- the reference ends at its closing bracket, if there is one
    cases hclose : findChar p.buffer (ascii '>') (i + 1) with
    | none =>
      show 0 < p.rest
      omega
    | some j =>
      have hj := (charAt_findChar hclose).2
      dsimp only
      have hbehind : p.stop + 1 - (j + 1) < p.rest := by omega
      by_cases hmore : charAt (p.buffer.set j 0) (j + 1) = ascii ';'
      · rw [if_pos hmore]
        exact hbehind
      · rw [if_neg hmore, (showLink_rest c _).1]
        exact hbehind
  · rw [if_neg hopen]
    show p.stop + 1 - (i + 1) < p.rest
    omega

theorem attributeStep_advances {i : ℕ} (hiter : p.iter = some i) (hlt : i < p.stop) :
    Advances p (p.attributeStep c i) := by
  -- what is left gets less when the iterator moves on
  have hrest : p.rest = p.stop + 1 - i := by
    unfold rest
    rw [hiter]
    rfl
  left
  unfold attributeStep
  dsimp only
  have he := le_keyEnd p.buffer (i + 1)
  generalize keyEnd p.buffer (i + 1) = e at he ⊢
  -- behind the key: the next attribute, its value, or the end of the entry
  by_cases hsemicolon : charAt p.buffer e = ascii ';'
  · rw [if_pos hsemicolon]
    show p.stop + 1 - e < p.rest
    omega
  · rw [if_neg hsemicolon]
    by_cases hlast : charAt p.buffer e = 0 ∨ charAt p.buffer e = ascii ','
    · rw [if_pos hlast, (showLink_rest c _).1]
      show p.stop + 1 - e < p.rest
      omega
    · rw [if_neg hlast]
      by_cases hquote : charAt (p.buffer.set e 0) (e + 1) = ascii '"'
      · rw [if_pos hquote]
        show p.stop + 1 - (e + 2) < p.rest
        omega
      · rw [if_neg hquote]
        have hr := le_valueEnd (p.buffer.set e 0) p.stop (e + 1)
        generalize valueEnd (p.buffer.set e 0) p.stop (e + 1) = r at hr ⊢
        have hvalue := (takeValue_rest c (i + 1) (e + 1) (charAt (p.buffer.set e 0) r) (r + 1)
          { p with buffer := (p.buffer.set e 0).set r 0 }).1
        exact Nat.lt_of_le_of_lt hvalue (by dsimp only; omega)

/-- The closing quote is found, unless it is behind a backslash. -/
theorem quotedStep_advances {key value i : ℕ} (hphase : p.phase = .quoted key value)
    (hiter : p.iter = some i) (hescaped : ¬p.AtEscapedQuote) :
    Advances p (p.quotedStep c key value i) := by
  -- what is left gets less, or the phase does
  have hrest : p.rest = p.stop + 1 - i := by
    unfold rest
    rw [hiter]
    rfl
  have hdepth : p.phase.depth = 3 := by rw [hphase]; rfl
  right
  rw [hdepth]
  unfold quotedStep
  -- the quote in the middle of an escape is the one that does not advance
  cases hquote : findChar p.buffer (ascii '"') i with
  | none =>
    dsimp only
    rw [(showLink_rest c _).1, (showLink_rest c _).2]
    exact ⟨Nat.zero_le _, by decide⟩
  | some q =>
    have hq := (charAt_findChar hquote).2
    dsimp only
    have hplain : charAt p.buffer (q - 1) ≠ ascii '\\' := fun hback =>
      hescaped ⟨key, value, i, q, hphase, hiter, hquote, hback⟩
    rw [if_neg hplain]
    obtain ⟨hle, htwo⟩ := takeValue_rest c key value (charAt p.buffer (q + 1)) (q + 2)
      { p with buffer := p.buffer.set q 0 }
    exact ⟨hle.trans (by dsimp only; omega), Nat.lt_of_le_of_lt htwo (by decide)⟩

theorem finish_advances (hphase : p.phase = .content) :
    Advances p { p with phase := .finished } := by
  refine .inr ⟨le_refl _, ?_⟩
  rw [hphase]
  exact Nat.zero_lt_one

theorem showLink_advances (hdepth : 1 < p.phase.depth) : Advances p (p.showLink c) :=
  .inr ⟨le_refl _, hdepth⟩

/-- The loop over the content. -/
theorem step_content (hphase : p.phase = .content) : Advances p (p.step c) := by
  cases hiter : p.iter with
  | none =>
    have hstep : p.step c = { p with phase := .finished } := by
      unfold step
      rw [hphase, hiter]
    rw [hstep]
    exact finish_advances hphase
  | some i =>
    have hstep : p.step c =
        if i < p.stop then p.contentStep c i else { p with phase := .finished } := by
      unfold step
      rw [hphase, hiter]
    rw [hstep]
    by_cases hlt : i < p.stop
    · rw [if_pos hlt]
      exact contentStep_advances hiter hlt
    · rw [if_neg hlt]
      exact finish_advances hphase

/-- The loop over the attributes. -/
theorem step_attributes (hphase : p.phase = .attributes) : Advances p (p.step c) := by
  have hdepth : 1 < p.phase.depth := by
    rw [hphase]
    exact Nat.one_lt_two
  cases hiter : p.iter with
  | none =>
    have hstep : p.step c = p.showLink c := by
      unfold step
      rw [hphase, hiter]
    rw [hstep]
    exact showLink_advances hdepth
  | some i =>
    have hstep : p.step c = if i < p.stop then p.attributeStep c i else p.showLink c := by
      unfold step
      rw [hphase, hiter]
    rw [hstep]
    by_cases hlt : i < p.stop
    · rw [if_pos hlt]
      exact attributeStep_advances hiter hlt
    · rw [if_neg hlt]
      exact showLink_advances hdepth

/-- A step that does not meet an escaped quote gets on. -/
theorem step_advances (hphase : p.phase ≠ .finished) (hescaped : ¬p.AtEscapedQuote) :
    Advances p (p.step c) := by
  cases hp : p.phase with
  | finished => exact absurd hp hphase
  | content => exact step_content hp
  | attributes => exact step_attributes hp
  | quoted key value =>
    cases hiter : p.iter with
    | none =>
      have hstep : p.step c = p.showLink c := by
        unfold step
        rw [hp, hiter]
      rw [hstep]
      apply showLink_advances
      rw [hp]
      exact Nat.lt_add_of_pos_left Nat.two_pos
    | some i =>
      have hstep : p.step c = p.quotedStep c key value i := by
        unfold step
        rw [hp, hiter]
      rw [hstep]
      exact quotedStep_advances hp hiter hescaped

/-- One that meets it finds the same quote again. -/
theorem step_escaped (h : p.AtEscapedQuote) : (p.step c).AtEscapedQuote := by
  obtain ⟨key, value, i, q, hphase, hiter, hquote, hback⟩ := h
  have hstep : p.step c = { p with iter := some q } := by
    have hquoted : p.step c = p.quotedStep c key value i := by
      unfold step
      rw [hphase, hiter]
    rw [hquoted]
    unfold quotedStep
    rw [hquote]
    dsimp only
    rw [if_pos hback]
  rw [hstep]
  exact ⟨key, value, q, q, hphase, rfl, findChar_self (charAt_findChar hquote).1 (by decide), hback⟩

theorem step_finished (h : p.phase = .finished) : p.step c = p := by
  unfold step
  rw [h]

theorem not_finished_of_escaped (h : p.AtEscapedQuote) : p.phase ≠ .finished := by
  obtain ⟨key, value, i, q, hphase, -⟩ := h
  rw [hphase]
  exact ListPhase.noConfusion

/-- The parser finishes exactly when it never stands in front of an escaped quote. -/
theorem halts_iff_never_escaped : Halts (step c) (fun p => p.phase = .finished) p ↔
    ∀ n, ¬((step c)^[n] p).AtEscapedQuote := by
  apply halts_iff_never_stuck measure
  · exact fun p hfinished => step_finished hfinished
  · exact fun p hescaped => step_escaped hescaped
  · exact fun p hescaped => not_finished_of_escaped hescaped
  · exact fun p hfinished hescaped => (step_advances hfinished hescaped).measure_lt

end LinkParser

end Smcp
