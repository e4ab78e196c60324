import Mathlib.Data.List.Basic
import Smcp.Url.Render

/-!
# Changing URLs

`url_change` of `url-helpers.c`: a reference is resolved against a URL.

* `normalize`: what the segments of a path come to;
* `urlChange_eq`: the path that is written, and the indices of the segment pointers on the way;
* `urlChange_resolves`: scheme, host and port are kept, and the path is the normal one;
* `urlChange_stores_iff`: the segment pointers stay in their array when no more than 14 segments
  are held at any time.
-/

namespace Smcp

/-! ## The function -/

def urlHelpersMaxUrlComponents : ℕ := 15
def maxUrlSize : ℕ := 256

/-- `strsep(&s, "/")`: the token, and what is left of the string. -/
def strsepSlash (s : List UInt8) : List UInt8 × Option (List UInt8) :=
  (s.takeWhile fun c => !isSlash c,
    match s.dropWhile fun c => !isSlash c with
    | [] => none
    | _ :: rest => some rest)

/-- `path_components`, `pp`, which is an index here, and `path_items`. The code does not compare `pp`
with the size of the array; `stores` has the indices at which it stored a pointer, newest first. -/
structure PathStack where
  pathComponents : ℕ → Option (List UInt8) := fun _ => none
  pp : ℕ := 0
  pathItems : ℕ := 0
  stores : List ℕ := []

namespace PathStack

/-- `*pp = s`. -/
def store (t : PathStack) (s : Option (List UInt8)) : PathStack :=
  { t with pathComponents := Function.update t.pathComponents t.pp s, stores := t.pp :: t.stores }

/-- One turn of the loops. -/
def turn (t : PathStack) (token : List UInt8) : PathStack :=
  let t := t.store (some token)
  if token = asciiBytes ".." then
    if t.pathItems ≠ 0 then { t with pp := t.pp - 1, pathItems := t.pathItems - 1 } else t
  else if token = asciiBytes "." then t
  else if token ≠ [] then { t with pp := t.pp + 1, pathItems := t.pathItems + 1 }
  else t

/-- `while((*pp = strsep(&path, "/")))`. -/
def loop : (fuel : ℕ) → PathStack → (path : Option (List UInt8)) → PathStack
  | 0, t, _ => t.store none
  | _ + 1, t, none => t.store none
  | fuel + 1, t, some path => loop fuel (t.turn (strsepSlash path).1) (strsepSlash path).2

/-- The segments that are held, each behind a slash. -/
def text (t : PathStack) : List UInt8 :=
  (List.range t.pathItems).flatMap fun i => ascii '/' :: (t.pathComponents i).getD []

end PathStack

/-- The URL up to the path. -/
def urlAuthority (c : UrlComponents) : List UInt8 :=
  match c.protocol, c.host with
  | some protocol, some host =>
    let user := match c.username with
      | some username =>
        username ++ (c.password.elim [] fun password => ascii ':' :: password) ++ [ascii '@']
      | none => []
    let host := if stringContainsColons host then ascii '[' :: host ++ [ascii ']'] else host
    protocol ++ asciiBytes "://" ++ user ++ host ++ c.port.elim [] fun port => ascii ':' :: port
  | _, _ => []

/-- What `url_change` leaves: the new URL, and the indices of the pointers it stored. -/
structure UrlChange where
  url : List UInt8
  stores : List ℕ

/-- The stack behind both loops. The segments of the URL come first, unless the reference begins with
a slash. -/
def changeStack (path : Option (List UInt8)) (newUrl : List UInt8) : PathStack :=
  let t : PathStack := {}
  let t :=
    if newUrl.head? ≠ some (ascii '/') then t.loop ((path.getD []).length + 1) path else t
  t.loop (newUrl.length + 1) (some newUrl)

/-- `url_change`. The working copy has no terminator when the URL does not fit in it; here it ends
there. The loop that looks for the base name has no effect and is left out. -/
def urlChange (url newUrl : List UInt8) : UrlChange :=
  if urlIsAbsolute newUrl then { url := newUrl, stores := [] }
  else
    let hasTrailingSlash := newUrl.getLast? = some (ascii '/')
    let components := (urlParse (url.take maxUrlSize)).1
    let t := changeStack components.path newUrl
    { url := urlAuthority components ++ t.text ++ if hasTrailingSlash then [ascii '/'] else []
      stores := t.stores }

/-! ## Normal paths -/

/-- One more segment. -/
def resolve (held : List (List UInt8)) (segment : List UInt8) : List (List UInt8) :=
  if segment = asciiBytes ".." then held.dropLast
  else if segment = asciiBytes "." ∨ segment = [] then held
  else held ++ [segment]

/-- What the segments come to, from the root. -/
def normalize (segments : List (List UInt8)) : List (List UInt8) := segments.foldl resolve []

theorem mem_resolve {held : List (List UInt8)} {segment s : List UInt8}
    (hs : s ∈ resolve held segment) :
    s ∈ held ∨ s = segment ∧ s ≠ [] ∧ s ≠ asciiBytes "." ∧ s ≠ asciiBytes ".." := by
  unfold resolve at hs
  split_ifs at hs with hup hskip
  · exact .inl (List.mem_of_mem_dropLast hs)
  · exact .inl hs
  · rcases List.mem_append.1 hs with hheld | hnew
    · exact .inl hheld
    · rw [List.mem_singleton.1 hnew]
      exact .inr ⟨rfl, fun h => hskip (.inr h), fun h => hskip (.inl h), hup⟩

/-- A normal path has only names of its segments. -/
theorem mem_normalize {segments : List (List UInt8)} {s : List UInt8} (hs : s ∈ normalize segments) :
    s ∈ segments ∧ s ≠ [] ∧ s ≠ asciiBytes "." ∧ s ≠ asciiBytes ".." := by
  induction segments using List.reverseRecOn with
  | nil => exact absurd hs List.not_mem_nil
  | append_singleton segments segment ih =>
    unfold normalize at hs
    rw [List.foldl_append] at hs
    rcases mem_resolve hs with hheld | ⟨heq, hname⟩
    · obtain ⟨hmem, hname⟩ := ih hheld
      exact ⟨List.mem_append_left _ hmem, hname⟩
    · rw [heq] at hname ⊢
      exact ⟨List.mem_append_right _ (List.mem_singleton_self segment), hname⟩

/-! ## The segments that are held -/

/-- The array has the segments that are held. -/
structure PathStack.Holds (t : PathStack) (held : List (List UInt8)) : Prop where
  pp : t.pp = held.length
  pathItems : t.pathItems = held.length
  components : ∀ i < held.length, t.pathComponents i = held[i]?

section
variable {t : PathStack} {held segments : List (List UInt8)} {segment path : List UInt8}

theorem PathStack.Holds.empty : PathStack.Holds {} [] :=
  ⟨rfl, rfl, fun _ hi => absurd hi (Nat.not_lt_zero _)⟩

/-- Behind the segments there is room. -/
theorem PathStack.Holds.store (h : t.Holds held) (s : Option (List UInt8)) :
    (t.store s).Holds held := by
  refine ⟨h.pp, h.pathItems, fun i hi => ?_⟩
  show Function.update t.pathComponents t.pp s i = held[i]?
  have hne : i ≠ t.pp := by
    rw [h.pp]
    omega
  rw [Function.update_of_ne hne, h.components i hi]

theorem PathStack.Holds.turn (h : t.Holds held) (segment : List UInt8) :
    (t.turn segment).Holds (resolve held segment) := by
  -- the segment is stored first, whatever it is
  have hstore := h.store (some segment)
  unfold PathStack.turn resolve
  dsimp only
  -- two dots take the last segment away, everything else adds one
  by_cases hup : segment = asciiBytes ".."
  · rw [if_pos hup, if_pos hup]
    by_cases hitems : (t.store (some segment)).pathItems ≠ 0
    · rw [if_pos hitems]
      constructor
      · show (t.store (some segment)).pp - 1 = held.dropLast.length
        rw [hstore.pp, List.length_dropLast]
      · show (t.store (some segment)).pathItems - 1 = held.dropLast.length
        rw [hstore.pathItems, List.length_dropLast]
      · intro i hi
        rw [List.length_dropLast] at hi
        show (t.store (some segment)).pathComponents i = held.dropLast[i]?
        rw [hstore.components i (by omega), List.getElem?_dropLast, if_pos hi]
    · rw [if_neg hitems]
      rw [hstore.pathItems, not_not, List.length_eq_zero_iff] at hitems
      rw [hitems] at hstore ⊢
      exact hstore
  · rw [if_neg hup, if_neg hup]
    by_cases hdot : segment = asciiBytes "."
    · rw [if_pos hdot, if_pos (.inl hdot)]
      exact hstore
    · rw [if_neg hdot]
      by_cases hempty : segment = []
      · rw [if_neg (not_not.2 hempty), if_pos (.inr hempty)]
        exact hstore
      · rw [if_pos hempty, if_neg (not_or.2 ⟨hdot, hempty⟩)]
        constructor
        · show (t.store (some segment)).pp + 1 = (held ++ [segment]).length
          rw [hstore.pp, List.length_append, List.length_singleton]
        · show (t.store (some segment)).pathItems + 1 = (held ++ [segment]).length
          rw [hstore.pathItems, List.length_append, List.length_singleton]
        · intro i hi
          rw [List.length_append, List.length_singleton] at hi
          show (t.store (some segment)).pathComponents i = (held ++ [segment])[i]?
          by_cases hlast : i < held.length
          · rw [hstore.components i hlast, List.getElem?_append_left hlast]
          · have heq : i = held.length := by omega
            rw [heq, List.getElem?_concat_length]
            show Function.update t.pathComponents t.pp (some segment) held.length = some segment
            rw [h.pp, Function.update_self]

theorem PathStack.turn_stores : (t.turn segment).stores = t.pp :: t.stores := by
  unfold PathStack.turn
  dsimp only
  split_ifs <;> rfl

/-- Turn after turn, and the `NULL` at the end: the segments that are held, and the indices of the
pointers that are stored. -/
theorem PathStack.Holds.turns (h : t.Holds held) (segments : List (List UInt8)) :
    ((segments.foldl PathStack.turn t).store none).Holds (segments.foldl resolve held) ∧
    ∀ n, n ∈ ((segments.foldl PathStack.turn t).store none).stores ↔
      n ∈ t.stores ∨ ∃ l, l <+: segments ∧ n = (l.foldl resolve held).length := by
  induction segments generalizing t held with
  | nil =>
    refine ⟨h.store none, fun n => ?_⟩
    show n ∈ t.pp :: t.stores ↔ _
    rw [List.mem_cons, h.pp, or_comm]
    simp only [List.prefix_nil, exists_eq_left, List.foldl_nil]
  | cons segment segments ih =>
    obtain ⟨hholds, hstores⟩ := ih (h.turn segment)
    refine ⟨hholds, fun n => ?_⟩
    rw [List.foldl_cons, hstores n, PathStack.turn_stores, List.mem_cons, h.pp]
    simp only [List.prefix_cons_iff]
    constructor
    · rintro ((hn | hn) | ⟨l, hl, hn⟩)
      · exact .inr ⟨[], .inl rfl, hn⟩
      · exact .inl hn
      · exact .inr ⟨segment :: l, .inr ⟨l, rfl, hl⟩, hn⟩
    · rintro (hn | ⟨l, rfl | ⟨l, rfl, hl⟩, hn⟩)
      · exact .inl (.inr hn)
      · exact .inl (.inl hn)
      · exact .inr ⟨l, hl, hn⟩

/-- The loop takes the segments of the path one after the other. -/
theorem PathStack.loop_eq {fuel : ℕ} (hfuel : path.length < fuel) :
    t.loop fuel (some path) = ((path.splitOnP isSlash).foldl PathStack.turn t).store none := by
  -- induction on the fuel: one segment is cut off, and the path gets shorter
  induction fuel generalizing t path with
  | zero => exact absurd hfuel (Nat.not_lt_zero _)
  | succ fuel ih =>
    have hsplit := List.takeWhile_append_dropWhile (p := fun c => !isSlash c) (l := path)
    have hplain : ∀ c ∈ path.takeWhile fun c => !isSlash c, isSlash c = false := by
      intro c hc
      simpa using List.mem_takeWhile_imp hc
    rw [PathStack.loop]
    unfold strsepSlash
    dsimp only
    cases hrest : path.dropWhile fun c => !isSlash c with
    | nil =>
      rw [hrest, List.append_nil] at hsplit
      have hone : path.splitOnP isSlash = [path] := by
        rw [← hsplit]
        exact List.splitOnP_eq_singleton hplain
      rw [hone, hsplit]
      cases fuel <;> rfl
    | cons c rest =>
      have hslash : isSlash c = true := by
        have hhead := List.head_dropWhile_not (fun c => !isSlash c) (l := path) (by simp [hrest])
        simpa [hrest] using hhead
      have hlen := congrArg List.length hsplit
      rw [hrest, List.length_append, List.length_cons] at hlen
      rw [hrest] at hsplit
      have hcons : path.splitOnP isSlash =
          (path.takeWhile fun c => !isSlash c) :: rest.splitOnP isSlash := by
        conv_lhs => rw [← hsplit]
        exact List.splitOnP_append_cons_of_forall_mem hplain c hslash rest
      dsimp only
      rw [ih (by omega), hcons]
      rfl

end

/-! ## References -/

/-- The segments that `url_change` looks at: those of the path, unless the reference begins with a
slash, and those of the reference. -/
def changeSegments (path : Option (List UInt8)) (newUrl : List UInt8) : List (List UInt8) :=
  (if newUrl.head? = some (ascii '/') then [] else path.elim [] (List.splitOnP isSlash)) ++
    newUrl.splitOnP isSlash

/-- The normal path, with a slash behind it if the reference has one. -/
def changedPath (path : Option (List UInt8)) (newUrl : List UInt8) : List UInt8 :=
  ((normalize (changeSegments path newUrl)).flatMap fun segment => ascii '/' :: segment) ++
    if newUrl.getLast? = some (ascii '/') then [ascii '/'] else []

theorem prefix_append_iff {α : Type*} {l a b : List α} :
    l <+: a ++ b ↔ l <+: a ∨ ∃ l', l' <+: b ∧ l = a ++ l' := by
  constructor
  · intro h
    rcases List.prefix_or_prefix_of_prefix h (List.prefix_append a b) with hshort | ⟨l', rfl⟩
    · exact .inl hshort
    · exact .inr ⟨l', (List.prefix_append_right_inj a).1 h, rfl⟩
  · rintro (h | ⟨l', h, rfl⟩)
    · exact List.prefix_append_of_prefix h
    · exact (List.prefix_append_right_inj a).2 h

section
variable {t : PathStack} {held : List (List UInt8)} {url newUrl : List UInt8}

theorem PathStack.Holds.text_eq (h : t.Holds held) :
    t.text = held.flatMap fun segment => ascii '/' :: segment := by
  unfold PathStack.text
  rw [h.pathItems, List.flatMap_def, List.flatMap_def]
  apply congrArg
  apply List.ext_getElem
  · rw [List.length_map, List.length_map, List.length_range]
  · intro i hi hi'
    rw [List.length_map] at hi'
    rw [List.getElem_map, List.getElem_map, List.getElem_range, h.components i hi',
      List.getElem?_eq_getElem hi', Option.getD_some]

/-- The stack behind the first loop, if it is needed. -/
theorem firstLoop_holds (path : Option (List UInt8)) :
    (PathStack.loop ((path.getD []).length + 1) {} path).Holds
        (normalize (path.elim [] (List.splitOnP isSlash))) ∧
      ∀ n, n ∈ (PathStack.loop ((path.getD []).length + 1) {} path).stores ↔
        ∃ l, l <+: path.elim [] (List.splitOnP isSlash) ∧ n = (normalize l).length := by
  cases path with
  | none =>
    obtain ⟨hholds, hstores⟩ := PathStack.Holds.empty.turns []
    refine ⟨hholds, fun n => (hstores n).trans ?_⟩
    exact or_iff_right List.not_mem_nil
  | some path =>
    obtain ⟨hholds, hstores⟩ := PathStack.Holds.empty.turns (path.splitOnP isSlash)
    have hloop := PathStack.loop_eq (t := {}) (Nat.lt_succ_self path.length)
    rw [Option.getD_some, hloop]
    refine ⟨hholds, fun n => (hstores n).trans ?_⟩
    exact or_iff_right List.not_mem_nil

theorem changeStack_holds (path : Option (List UInt8)) (newUrl : List UInt8) :
    (changeStack path newUrl).Holds (normalize (changeSegments path newUrl)) ∧
    ∀ n, n ∈ (changeStack path newUrl).stores ↔
      ∃ l, l <+: changeSegments path newUrl ∧ n = (normalize l).length := by
  -- the segments of the path before, and then those of the reference
  have hfoldl (base l : List (List UInt8)) :
      l.foldl resolve (normalize base) = normalize (base ++ l) := (List.foldl_append).symm
  unfold changeStack changeSegments
  dsimp only
  rw [PathStack.loop_eq (Nat.lt_succ_self newUrl.length)]
  -- a reference from the root forgets the path before
  by_cases hslash : newUrl.head? = some (ascii '/')
  · rw [if_neg (not_not.2 hslash), if_pos hslash]
    obtain ⟨hholds, hstores⟩ := PathStack.Holds.empty.turns (newUrl.splitOnP isSlash)
    exact ⟨hholds, fun n => (hstores n).trans (or_iff_right List.not_mem_nil)⟩
  · rw [if_pos hslash, if_neg hslash]
    obtain ⟨hfirst, hfirstStores⟩ := firstLoop_holds path
    generalize PathStack.loop ((path.getD []).length + 1) {} path = t at hfirst hfirstStores ⊢
    generalize path.elim [] (List.splitOnP isSlash) = base at hfirst hfirstStores ⊢
    obtain ⟨hholds, hstores⟩ := hfirst.turns (newUrl.splitOnP isSlash)
    rw [hfoldl] at hholds
    refine ⟨hholds, fun n => ?_⟩
    rw [hstores n, hfirstStores n]
    simp only [hfoldl, prefix_append_iff]
    constructor
    · rintro (⟨l, hl, hn⟩ | ⟨l, hl, hn⟩)
      · exact ⟨l, .inl hl, hn⟩
      · exact ⟨base ++ l, .inr ⟨l, hl, rfl⟩, hn⟩
    · rintro ⟨l, hl | ⟨l', hl', rfl⟩, hn⟩
      · exact .inl ⟨l, hl, hn⟩
      · exact .inr ⟨l', hl', hn⟩

/-- The new URL, and the indices of the pointers. -/
theorem urlChange_eq (hrelative : urlIsAbsolute newUrl = false) (hlen : url.length < maxUrlSize) :
    (urlChange url newUrl).url =
        urlAuthority (urlParse url).1 ++ changedPath (urlParse url).1.path newUrl ∧
      ∀ n, n ∈ (urlChange url newUrl).stores ↔
        ∃ l, l <+: changeSegments (urlParse url).1.path newUrl ∧ n = (normalize l).length := by
  have hcopy : url.take maxUrlSize = url := List.take_of_length_le (Nat.le_of_lt hlen)
  unfold urlChange changedPath
  rw [if_neg (by rw [hrelative]; decide)]
  dsimp only
  rw [hcopy]
  obtain ⟨hholds, hstores⟩ := changeStack_holds (urlParse url).1.path newUrl
  rw [hholds.text_eq, List.append_assoc]
  exact ⟨rfl, hstores⟩

/-- The segment pointers stay in their array exactly when no more than 14 segments are held at any
time, or the reference is a whole URL. -/
theorem urlChange_stores_iff (hlen : url.length < maxUrlSize) :
    (∀ n ∈ (urlChange url newUrl).stores, n < urlHelpersMaxUrlComponents) ↔
      urlIsAbsolute newUrl = true ∨
      ∀ l, l <+: changeSegments (urlParse url).1.path newUrl → (normalize l).length ≤ 14 := by
  -- a whole URL replaces the other one, so no segment is stored
  cases habsolute : urlIsAbsolute newUrl with
  | true =>
    refine ⟨fun _ => .inl rfl, fun _ n hn => ?_⟩
    unfold urlChange at hn
    rw [if_pos habsolute] at hn
    exact absurd hn List.not_mem_nil
  | false =>
    obtain ⟨-, hstores⟩ := urlChange_eq habsolute hlen
    unfold urlHelpersMaxUrlComponents
    constructor
    · intro h
      right
      intro l hl
      have hlt := h _ ((hstores _).2 ⟨l, hl, rfl⟩)
      omega
    · intro h n hn
      obtain ⟨l, hl, rfl⟩ := (hstores n).1 hn
      rcases h with hfalse | hheld
      · exact absurd hfalse (by decide)
      · have hle := hheld l hl
        omega

theorem urlChange_stores_short : urlIsAbsolute (asciiBytes "../z") = false ∧
    ∀ n ∈ (urlChange (asciiBytes "a://h/x/y") (asciiBytes "../z")).stores,
      n < urlHelpersMaxUrlComponents := by
  refine ⟨by decide, ?_⟩
  apply (urlChange_stores_iff (by decide)).2
  right
  intro l hl
  have hall : ∀ l ∈ (changeSegments (urlParse (asciiBytes "a://h/x/y")).1.path
      (asciiBytes "../z")).inits, (normalize l).length ≤ 14 := by
    decide
  exact hall l ((List.mem_inits _ _).2 hl)

/-- With fifteen segments the `NULL` behind them is stored outside the array. -/
theorem urlChange_stores_fifteen :
    15 ∈ (urlChange (asciiBytes "a://h/") (asciiBytes "1/2/3/4/5/6/7/8/9/a/b/c/d/e/f")).stores ∧
    ¬∀ url newUrl : List UInt8, url.length < maxUrlSize →
      ∀ n ∈ (urlChange url newUrl).stores, n < urlHelpersMaxUrlComponents := by
  have hstored :
      15 ∈ (urlChange (asciiBytes "a://h/") (asciiBytes "1/2/3/4/5/6/7/8/9/a/b/c/d/e/f")).stores := by
    decide +kernel
  refine ⟨hstored, fun hall => ?_⟩
  exact absurd (hall _ _ (by decide) 15 hstored) (by decide)

/-- The URL up to the path is kept. An address without a colon would lose its brackets. -/
theorem urlAuthority_components {u : UrlParts} (huser : u.user = none)
    (hhost : u.host.isAddress = true → ascii ':' ∈ u.host.value) :
    urlAuthority u.components =
      u.scheme.val ++ asciiBytes "://" ++ u.host.text ++ behind (ascii ':') u.port := by
  -- the port and the host are text again, as they were read
  have hport : ((u.port.map StringOf.val).elim [] fun port => ascii ':' :: port) =
      behind (ascii ':') u.port := by
    cases u.port <;> rfl
  have htext : (if stringContainsColons u.host.value then
      ascii '[' :: u.host.value ++ [ascii ']'] else u.host.value) = u.host.text := by
    -- only an address has colons, and those come with brackets
    cases h : u.host with
    | name s =>
      have hplain : stringContainsColons s.val = false := by
        unfold stringContainsColons
        rw [List.contains_eq_mem, decide_eq_false_iff_not]
        intro hmem
        exact absurd (s.chars _ hmem) (by decide)
      show (if stringContainsColons s.val then ascii '[' :: s.val ++ [ascii ']'] else s.val) = s.val
      rw [hplain]
      rfl
    | address s =>
      rw [h] at hhost
      have hcolons : stringContainsColons s.val = true := by
        unfold stringContainsColons
        rw [List.contains_eq_mem, decide_eq_true_eq]
        exact hhost rfl
      show (if stringContainsColons s.val then ascii '[' :: s.val ++ [ascii ']'] else s.val) =
        ascii '[' :: s.val ++ [ascii ']']
      rw [if_pos hcolons]
  unfold urlAuthority UrlParts.components
  rw [huser]
  dsimp only [Option.map_none]
  -- and the user stands in front of them
  rw [htext, hport, List.append_nil]

end

/-! ## The segments of the result -/

section
variable {segments : List (List UInt8)} {s path : List UInt8}

theorem isSlash_of_mem_splitOnP (hs : s ∈ path.splitOnP isSlash) : ∀ c ∈ s, isSlash c = false := by
  -- induction on the path: a slash begins another segment
  induction path generalizing s with
  | nil =>
    rw [List.splitOnP_nil, List.mem_singleton] at hs
    rw [hs]
    exact fun c hc => absurd hc List.not_mem_nil
  | cons c path ih =>
    rw [List.splitOnP_cons_eq_if_modifyHead] at hs
    cases hc : isSlash c with
    | true =>
      rw [if_pos hc] at hs
      rcases List.mem_cons.1 hs with rfl | hs
      · exact fun c hc => absurd hc List.not_mem_nil
      · exact ih hs
    | false =>
      rw [if_neg (by rw [hc]; decide)] at hs
      cases hsplit : path.splitOnP isSlash with
      | nil => exact absurd hsplit (List.splitOnP_ne_nil isSlash path)
      | cons first rest =>
        rw [hsplit] at hs ih
        rcases List.mem_cons.1 hs with rfl | hs
        · intro c' hc'
          rcases List.mem_cons.1 hc' with rfl | hc'
          · exact hc
          · exact ih List.mem_cons_self c' hc'
        · exact ih (List.mem_cons_of_mem first hs)

theorem splitOnP_joined (hs : ∀ c ∈ s, isSlash c = false)
    (hsegments : ∀ segment ∈ segments, ∀ c ∈ segment, isSlash c = false) :
    (s ++ segments.flatMap fun segment => ascii '/' :: segment).splitOnP isSlash = s :: segments := by
  induction segments generalizing s with
  | nil =>
    rw [List.flatMap_nil, List.append_nil]
    exact List.splitOnP_eq_singleton hs
  | cons segment segments ih =>
    rw [List.flatMap_cons, List.cons_append,
      List.splitOnP_append_cons_of_forall_mem hs (ascii '/') (by decide),
      ih (hsegments segment List.mem_cons_self)
        fun segment' h => hsegments segment' (List.mem_cons_of_mem segment h)]

/-- No segment of the new path is `.` or `..`. -/
theorem changedPath_segments {path : Option (List UInt8)} {newUrl : List UInt8}
    (hs : s ∈ (changedPath path newUrl).splitOnP isSlash) :
    s ≠ asciiBytes "." ∧ s ≠ asciiBytes ".." := by
  have hslash : ∀ segment ∈ changeSegments path newUrl, ∀ c ∈ segment, isSlash c = false := by
    intro segment hsegment
    rcases List.mem_append.1 hsegment with hbase | hnew
    · split_ifs at hbase
      · exact absurd hbase List.not_mem_nil
      · cases path with
        | none => exact absurd hbase List.not_mem_nil
        | some path => exact isSlash_of_mem_splitOnP hbase
    · exact isSlash_of_mem_splitOnP hnew
  -- a trailing slash is an empty segment more
  have hpath : changedPath path newUrl =
      [] ++ (normalize (changeSegments path newUrl) ++
        if newUrl.getLast? = some (ascii '/') then [[]] else []).flatMap
          fun segment => ascii '/' :: segment := by
    unfold changedPath
    rw [List.nil_append, List.flatMap_append]
    split_ifs <;> rfl
  have hempty : s = [] → s ≠ asciiBytes "." ∧ s ≠ asciiBytes ".." := by
    intro h
    rw [h]
    exact ⟨by decide, by decide⟩
  rw [hpath, splitOnP_joined (fun c hc => absurd hc List.not_mem_nil)] at hs
  · rcases List.mem_cons.1 hs with h | h
    · exact hempty h
    · rcases List.mem_append.1 h with h | h
      · exact (mem_normalize h).2.2
      · split_ifs at h
        · exact hempty (List.mem_singleton.1 h)
        · exact absurd h List.not_mem_nil
  · intro segment h
    rcases List.mem_append.1 h with h | h
    · exact hslash segment (mem_normalize h).1
    · split_ifs at h
      · rw [List.mem_singleton.1 h]
        exact fun c hc => absurd hc List.not_mem_nil
      · exact absurd h List.not_mem_nil

end

/-- A reference without a scheme: scheme, host and port of the URL are kept, and its path is the normal
form of the old path and the reference. -/
theorem urlChange_resolves {u : UrlParts} {p : StringOf isPathChar} (huser : u.user = none)
    (hhost : u.host.isAddress = true → ascii ':' ∈ u.host.value) (hpath : u.path = some p)
    (hlen : u.render.length ≤ 255) (newUrl : List UInt8)
    (hrelative : urlIsAbsolute newUrl = false)
    (hheld : ∀ l, l <+: changeSegments (some p.val) newUrl → (normalize l).length ≤ 14) :
    (urlChange u.render newUrl).url =
        u.scheme.val ++ asciiBytes "://" ++ u.host.text ++ behind (ascii ':') u.port ++
          changedPath (some p.val) newUrl ∧
      (∀ s ∈ (changedPath (some p.val) newUrl).splitOnP isSlash,
        s ≠ asciiBytes "." ∧ s ≠ asciiBytes "..") ∧
      ∀ n ∈ (urlChange u.render newUrl).stores, n < urlHelpersMaxUrlComponents := by
  -- the URL is taken apart into what it was put together from
  have hparse : (urlParse u.render).1 = u.components := by
    refine (urlParse_render_iff u).2 ⟨by rw [hpath]; rfl, ?_⟩
    intro user h
    rw [huser] at h
    cases h
  have hpathText : u.components.path = some p.val := by
    unfold UrlParts.components
    rw [hpath]
    rfl
  have hshort : u.render.length < maxUrlSize := Nat.lt_succ_of_le hlen
  -- the text of the result, its normal form, and that the pointers fit
  refine ⟨?_, fun s hs => changedPath_segments hs, ?_⟩
  · rw [(urlChange_eq hrelative hshort).1, hparse, hpathText, urlAuthority_components huser hhost]
  · apply (urlChange_stores_iff hshort).2
    right
    rw [hparse, hpathText]
    exact hheld

theorem length_normalize_le (segments : List (List UInt8)) :
    (normalize segments).length ≤ segments.length := by
  induction segments using List.reverseRecOn with
  | nil => exact Nat.le_refl _
  | append_singleton segments segment ih =>
    unfold normalize resolve at ih ⊢
    rw [List.foldl_append, List.length_append, List.length_singleton]
    dsimp only [List.foldl_cons, List.foldl_nil]
    split_ifs
    · rw [List.length_dropLast]
      omega
    · omega
    · rw [List.length_append, List.length_singleton]
      omega

/-- `a://[::1]/x/y`. -/
def addressUrl : UrlParts where
  scheme := .ofAll (asciiBytes "a") rfl
  scheme_ne_nil := List.cons_ne_nil _ _
  user := none
  host := .address (.ofAll (asciiBytes "::1") rfl)
  port := none
  path := some (.ofAll (asciiBytes "x/y") rfl)
  query := none

theorem urlChange_resolves_addressUrl :
    (urlChange addressUrl.render (asciiBytes "../z/./")).url = asciiBytes "a://[::1]/x/z/" := by
  have hpath : addressUrl.path = some (.ofAll (asciiBytes "x/y") rfl) := rfl
  have h := urlChange_resolves (u := addressUrl) rfl (fun _ => by decide) hpath (by decide)
    (asciiBytes "../z/./") (by decide) fun l hl => by
      have hle := length_normalize_le l
      have hall : l.length ≤ 6 := hl.length_le.trans (by decide)
      omega
  rw [h.1]
  decide

end Smcp
