import Smcp.Lib.StringBuffer
import Smcp.Url.Change

/-!
# Shortening references

`url_shorten_reference` of `url-helpers.c`: a reference is made shorter where it stands, if there is
a shorter one relative to the current URL. The function takes both paths apart in two scratch
buffers and composes the new reference at the start of the same buffers.

* `upLoop_ended` and `shortenLoop_fuel`: its loops come to an end;
* `length_urlShortenReference`: it stores nothing behind the terminator of a reference;
* `urlShortenReference_nil`: what it makes of the empty reference, for which there is no room.

The buffers of the source have no more than 256 bytes and no more than the current URL; a store behind
their end is kept here, apart from everything else.
-/

namespace Smcp

open StringBuffer

/-! ## The parts of a URL in a buffer -/

/-- Where `url_parse` finds the path. -/
def urlPathOffset (uri : List UInt8) : Option ℕ :=
  if urlIsAbsolute uri = false then some 0
  else
    let protocol := uri.takeWhile fun c => c != ascii ':'
    let rest := (uri.dropWhile fun c => c != ascii ':').tail
    if rest = [] then none
    else if rest.take 2 = [ascii '/', ascii '/'] then
      let addr := (rest.drop 2).takeWhile isAuthorityChar
      let behind := (rest.drop 2).dropWhile isAuthorityChar
      some (protocol.length + 3 + addr.length + if behind = [] then 0 else 1)
    else some (protocol.length + 1)

/-- What `url_parse` leaves of a URL, with the offsets of the path and the query. -/
structure ParsedBuffer where
  buffer : List UInt8
  path : Option ℕ
  query : Option ℕ

/-- `url_parse` in a buffer. The terminators that it stores in front of the path are left out: no
string begins there afterwards. -/
def urlParseBuffer (uri : List UInt8) : ParsedBuffer :=
  match urlPathOffset uri with
  | none => ⟨uri, none, none⟩
  | some path =>
    let pathEnd := path + ((uri.drop path).takeWhile isPathChar).length
    if charAt uri pathEnd = ascii '?' then
      let query := pathEnd + 1
      let queryEnd := query + ((uri.drop query).takeWhile isQueryChar).length
      ⟨(uri.set pathEnd 0).set queryEnd 0, some path, some query⟩
    else ⟨uri.set pathEnd 0, some path, none⟩

/-! ## The function -/

/-- The size of `temp`. -/
def sizeofTemp : ℕ := 256

/-- The scratch buffers: `new_path` and `new_query` point into `temp`, `curr_path` into `temp2`. -/
structure Scratch where
  temp : List UInt8
  temp2 : List UInt8
  newPath : Option ℕ
  newQuery : Option ℕ
  currPath : Option ℕ

namespace Scratch

/-- `strsep(&curr_path, "/")`. -/
def sepCurr (s : Scratch) : Scratch :=
  let r := strsep s.temp2 (ascii '/') s.currPath
  { s with temp2 := r.1, currPath := r.2 }

/-- `strsep(&new_path, "/")`. -/
def sepNew (s : Scratch) : Scratch :=
  let r := strsep s.temp (ascii '/') s.newPath
  { s with temp := r.1, newPath := r.2 }

/-- `(new_query ? 1 + strlen(new_query) : 0)`. -/
def queryLen (s : Scratch) : ℕ :=
  match s.newQuery with
  | none => 0
  | some q => 1 + (textAt s.temp q).length

/-- Replace the reference by the text and the query, if that is shorter. -/
def replaceWith (s : Scratch) (newUrl text : List UInt8) : List UInt8 :=
  if text.length + s.queryLen < (textAt newUrl 0).length then
    let newUrl := strcpy newUrl text
    match s.newQuery with
    | none => newUrl
    | some q =>
      strlcatBuffer (strlcatBuffer newUrl (asciiBytes "?") sizeofTemp) (textAt s.temp q) sizeofTemp
  else newUrl

/-- `while(strsep(&curr_path, "/"))`, with its body. -/
def upLoop (body : Scratch → Scratch) : (fuel : ℕ) → Scratch → Scratch
  | 0, s => s
  | fuel + 1, s => if s.currPath = none then s else upLoop body fuel (body s.sepCurr)

/-- The number of turns that `upLoop` has room for. -/
def upFuel (s : Scratch) : ℕ := max s.temp2.length sizeofTemp + 3

/-- One more step up in `temp2`. -/
def stepUp (s : Scratch) : Scratch :=
  { s with temp2 := strlcatBuffer s.temp2 (asciiBytes "/..") sizeofTemp }

/-- One more step up in `temp`. -/
def stepAcross (s : Scratch) : Scratch :=
  { s with temp := strcat s.temp (asciiBytes "/..") }

/-- The new path has ended: the way up to it is composed in `temp2`. -/
def composeUp (s : Scratch) : Scratch :=
  let s := { s with temp2 := strcpy s.temp2 (asciiBytes "..") }
  upLoop stepUp s.upFuel s

/-- A slash and the string at an offset of `temp`, behind what is composed there. -/
def appendItem (s : Scratch) (item : ℕ) : Scratch :=
  let temp := strlcatBuffer s.temp (asciiBytes "/") sizeofTemp
  { s with temp := strcat temp (textAt temp item) }

/-- The paths part: the way up and the rest of the new path, from `newItem` on, are composed in
`temp`, over the path they are taken from. -/
def composeAcross (s : Scratch) (newItem : ℕ) : Scratch :=
  let s := { s with temp := strcpy s.temp (asciiBytes "..") }
  let s := (upLoop stepAcross s.upFuel s).appendItem newItem
  match s.newPath with
  | none => s
  | some path => s.appendItem path

/-- The loop over the items of both paths. An item that is missing is one that is empty, here. -/
def shortenLoop : (fuel : ℕ) → Scratch → List UInt8 → List UInt8
  | 0, _, newUrl => newUrl
  | fuel + 1, s, newUrl =>
    let u := s.sepCurr
    let currItem := (s.currPath.map (textAt u.temp2)).getD []
    if currItem = [] then
      match u.newPath with
      | none => strcpy newUrl (asciiBytes ".")
      | some path => u.replaceWith newUrl (textAt u.temp path)
    else
      let v := u.sepNew
      let newItem := (u.newPath.map (textAt v.temp)).getD []
      if newItem = [] then v.composeUp.replaceWith newUrl (textAt v.composeUp.temp2 0)
      else if currItem = newItem then shortenLoop fuel v newUrl
      else
        let w := v.composeAcross (u.newPath.getD 0)
        w.replaceWith newUrl (textAt w.temp 0)

/-- The number of turns that `shortenLoop` has room for. -/
def shortenFuel (s : Scratch) : ℕ := s.temp2.length + 3

end Scratch

/-- `make_relative`. The copy of the current URL has no terminator when the URL does not fit in it;
here it ends there. -/
def makeRelative (currentUrl newUrl : List UInt8) : List UInt8 :=
  let changed := urlParseBuffer (urlChange (currentUrl.take sizeofTemp) (textAt newUrl 0)).url
  let current := urlParseBuffer currentUrl
  let s : Scratch :=
    { temp := changed.buffer, temp2 := current.buffer, newPath := changed.path
      newQuery := changed.query, currPath := current.path }
  s.shortenLoop s.shortenFuel newUrl

/-- How far two strings are the same, up to a slash. -/
def commonLength : List UInt8 → List UInt8 → ℕ
  | a :: s, b :: t => if a = b ∧ a ≠ ascii '/' ∧ a ≠ 0 then commonLength s t + 1 else 0
  | _, _ => 0

/-- `url_shorten_reference`: the bytes from the start of the reference on, as it leaves them. -/
def urlShortenReference (currentUrl newUrl : List UInt8) : List UInt8 :=
  let buffer := newUrl ++ [0]
  if urlIsAbsolute newUrl then
    if currentUrl.take 7 = newUrl.take 7 ∧ (currentUrl.drop 4).take 3 = asciiBytes "://" then
      let i := 7 + commonLength (currentUrl.drop 7) (newUrl.drop 7)
      if charAt currentUrl i = charAt newUrl i then
        if charAt currentUrl i = 0 then strcpy buffer (asciiBytes "/")
        else if charAt currentUrl i = ascii '/' then
          makeRelative currentUrl (strcpy buffer (newUrl.drop i))
        else buffer
      else buffer
    else buffer
  else makeRelative currentUrl buffer

/-! ## The loops end -/

namespace Scratch

variable {s : Scratch} {newUrl text : List UInt8}

theorem room_lt (stop : ℕ) (p : Option ℕ) : room stop p < stop + 3 := by
  unfold room
  cases p with
  | none => exact Nat.succ_pos _
  | some i =>
    show stop + 1 - i + 1 < stop + 3
    omega

/-- The next item of the current path leaves less room, and no longer strings. -/
theorem sepCurr_advances (hpath : s.currPath ≠ none) {stop : ℕ} (hstop : s.temp2.length ≤ stop) :
    room stop s.sepCurr.currPath < room stop s.currPath ∧
      s.sepCurr.temp2.length = s.temp2.length ∧
      (textAt s.sepCurr.temp2 0).length ≤ (textAt s.temp2 0).length :=
  strsep_advances (by decide) hpath hstop

/-- The loop ends with the current path, whatever its body stores within the bound. -/
theorem upLoop_ended (body : Scratch → Scratch) (stop : ℕ) (P : Scratch → Prop)
    (hstop : ∀ s, P s → s.temp2.length ≤ stop)
    (hsep : ∀ s, s.currPath ≠ none → P s → P s.sepCurr)
    (hbody : ∀ s, P s → P (body s) ∧ (body s).currPath = s.currPath) {fuel : ℕ}
    (hfuel : room stop s.currPath < fuel) (hs : P s) :
    (upLoop body fuel s).currPath = none := by
  induction fuel generalizing s with
  | zero => exact absurd hfuel (Nat.not_lt_zero _)
  | succ fuel ih =>
    unfold upLoop
    by_cases hpath : s.currPath = none
    · rw [if_pos hpath]
      exact hpath
    · rw [if_neg hpath]
      obtain ⟨hfits, hcurr⟩ := hbody s.sepCurr (hsep s hpath hs)
      have hless := (sepCurr_advances hpath (hstop s hs)).1
      apply ih _ hfits
      rw [hcurr]
      omega

/-- The way up is composed over the path that is read, but does not outgrow its bound. -/
theorem composeUp_ended (s : Scratch) : s.composeUp.currPath = none := by
  -- the loop appends one step up at a time, while its bound is not reached
  have hdots : (asciiBytes "..").length = 2 := by decide
  have hloop (start : Scratch) (hstart : (textAt start.temp2 0).length ≤ sizeofTemp - 1) :
      (upLoop stepUp start.upFuel start).currPath = none := by
    apply upLoop_ended _ (max start.temp2.length sizeofTemp) fun u =>
      u.temp2.length ≤ max start.temp2.length sizeofTemp ∧
        (textAt u.temp2 0).length ≤ sizeofTemp - 1
    · exact fun u hu => hu.1
    · intro u hpath hu
      obtain ⟨-, hsame, htext⟩ := sepCurr_advances hpath (Nat.le_refl _)
      rw [hsame]
      exact ⟨hu.1, htext.trans hu.2⟩
    · intro u hu
      have hcat := (length_strlcat_le (textAt u.temp2 0) (asciiBytes "/..") sizeofTemp).1
      have hstored :=
        textAt_strcpy_le u.temp2 (strlcat (textAt u.temp2 0) (asciiBytes "/..") sizeofTemp)
      have hlen : (stepUp u).temp2.length = _ := length_strcpy _ _
      have htext : textAt (stepUp u).temp2 0 = textAt (strcpy u.temp2 _) 0 := rfl
      have hpos : 1 ≤ sizeofTemp := by decide
      rw [hlen, htext]
      generalize sizeofTemp = size at *
      refine ⟨⟨?_, ?_⟩, rfl⟩
      · omega
      · omega
    · exact room_lt _ _
    · exact ⟨Nat.le_max_left _ _, hstart⟩
  apply hloop
  -- the first step is stored by `strcpy`, the others behind it
  have hstored := textAt_strcpy_le s.temp2 (asciiBytes "..")
  rw [hdots] at hstored
  exact hstored.trans (by decide)

/-- So does the loop that composes in the other buffer. -/
theorem composeAcross_ended (s : Scratch) (newItem : ℕ) :
    (s.composeAcross newItem).currPath = none := by
  have hloop (u : Scratch) : (upLoop stepAcross u.upFuel u).currPath = none := by
    apply upLoop_ended _ (max u.temp2.length sizeofTemp) fun v =>
      v.temp2.length ≤ max u.temp2.length sizeofTemp
    · exact fun v hv => hv
    · intro v hpath hv
      rw [(sepCurr_advances hpath (Nat.le_refl _)).2.1]
      exact hv
    · exact fun v hv => ⟨hv, rfl⟩
    · exact room_lt _ _
    · exact Nat.le_max_left _ _
  have happend (u : Scratch) (item : ℕ) : (u.appendItem item).currPath = u.currPath := rfl
  unfold composeAcross
  dsimp only
  split
  · rw [happend, hloop]
  · rw [happend, happend, hloop]

/-- The loop over the items does not use up its turns: more of them change nothing. -/
theorem shortenLoop_fuel {fuel fuel' : ℕ} (hfuel : room s.temp2.length s.currPath < fuel)
    (hfuel' : room s.temp2.length s.currPath < fuel') (newUrl : List UInt8) :
    s.shortenLoop fuel newUrl = s.shortenLoop fuel' newUrl := by
  -- induction on the fuel: both runs take the same turn
  induction fuel generalizing s fuel' with
  | zero => exact absurd hfuel (Nat.not_lt_zero _)
  | succ fuel ih =>
    cases fuel' with
    | zero => exact absurd hfuel' (Nat.not_lt_zero _)
    | succ fuel' =>
      unfold shortenLoop
      dsimp only
      by_cases hcurr : (s.currPath.map (textAt s.sepCurr.temp2)).getD [] = []
      · rw [if_pos hcurr, if_pos hcurr]
      · -- the current path has an item, and what is left of it is less
        have hpath : s.currPath ≠ none := by
          intro hnone
          rw [hnone] at hcurr
          exact hcurr rfl
        obtain ⟨hless, hsame, -⟩ := sepCurr_advances hpath (Nat.le_refl _)
        have hnext : room s.sepCurr.sepNew.temp2.length s.sepCurr.sepNew.currPath <
            room s.temp2.length s.currPath := by
          show room s.sepCurr.temp2.length s.sepCurr.currPath < _
          rw [hsame]
          exact hless
        rw [if_neg hcurr, if_neg hcurr, ih (by omega) (by omega : _ < fuel')]

/-! ## What is stored at the reference -/

/-- What replaces a string is shorter than it. -/
theorem length_replaceWith (s : Scratch) (newUrl text : List UInt8) :
    (s.replaceWith newUrl text).length = newUrl.length := by
  have htext := textAt_length_le newUrl 0
  unfold replaceWith
  by_cases hshorter : text.length + s.queryLen < (textAt newUrl 0).length
  · rw [if_pos hshorter]
    unfold queryLen at hshorter
    dsimp only
    cases hquery : s.newQuery with
    | none =>
      dsimp only
      rw [length_strcpy]
      omega
    | some q =>
      rw [hquery] at hshorter
      dsimp only at hshorter ⊢
      have hone : (asciiBytes "?").length = 1 := by decide
      -- the text, then the text and the mark, then the query behind both
      have hcopied := textAt_strcpy_le newUrl text
      have hmarked := (length_strlcat_le (textAt (strcpy newUrl text) 0) (asciiBytes "?")
        sizeofTemp).2
      rw [hone] at hmarked
      unfold strlcatBuffer
      generalize strlcat (textAt (strcpy newUrl text) 0) (asciiBytes "?") sizeofTemp = marked
        at hmarked ⊢
      have hstored := textAt_strcpy_le (strcpy newUrl text) marked
      have hwhole := (length_strlcat_le (textAt (strcpy (strcpy newUrl text) marked) 0)
        (textAt s.temp q) sizeofTemp).2
      rw [length_strcpy, length_strcpy, length_strcpy]
      omega
  · rw [if_neg hshorter]

theorem length_shortenLoop {fuel : ℕ} (hnewUrl : 2 ≤ newUrl.length) :
    (s.shortenLoop fuel newUrl).length = newUrl.length := by
  induction fuel generalizing s with
  | zero => rfl
  | succ fuel ih =>
    have hdot : (asciiBytes ".").length = 1 := by decide
    unfold shortenLoop
    dsimp only
    split_ifs
    · split
      · rw [length_strcpy, hdot]
        omega
      · exact length_replaceWith _ _ _
    · exact length_replaceWith _ _ _
    · exact ih
    · exact length_replaceWith _ _ _

/-- Nothing is shorter than the empty string. -/
theorem replaceWith_nil (s : Scratch) (text : List UInt8) : s.replaceWith [0] text = [0] :=
  if_neg (Nat.not_lt_zero _)

theorem shortenLoop_nil (fuel : ℕ) (s : Scratch) :
    s.shortenLoop fuel [0] = [0] ∨ s.shortenLoop fuel [0] = [ascii '.', 0] := by
  induction fuel generalizing s with
  | zero => exact .inl rfl
  | succ fuel ih =>
    unfold shortenLoop
    dsimp only
    split_ifs
    · split
      · exact .inr (by decide)
      · exact .inl (replaceWith_nil _ _)
    · exact .inl (replaceWith_nil _ _)
    · exact ih _
    · exact .inl (replaceWith_nil _ _)

end Scratch

/-- A reference that is not empty is overwritten up to its terminator, and not behind it. -/
theorem length_urlShortenReference (currentUrl : List UInt8) {newUrl : List UInt8}
    (hnewUrl : newUrl ≠ []) :
    (urlShortenReference currentUrl newUrl).length = newUrl.length + 1 := by
  have hpos := List.length_pos_iff.2 hnewUrl
  have hbuffer : (newUrl ++ [0]).length = newUrl.length + 1 := List.length_append
  have hrelative (buffer : List UInt8) (hlen : buffer.length = newUrl.length + 1) :
      (makeRelative currentUrl buffer).length = newUrl.length + 1 := by
    unfold makeRelative
    dsimp only
    rw [Scratch.length_shortenLoop (by omega), hlen]
  unfold urlShortenReference
  dsimp only
  split_ifs
  · have hslash : (asciiBytes "/").length = 1 := by decide
    rw [length_strcpy, hslash]
    omega
  · apply hrelative
    rw [length_strcpy, List.length_drop]
    omega
  · exact hbuffer
  · exact hbuffer
  · exact hbuffer
  · exact hrelative _ hbuffer

/-- The empty reference is left alone, or becomes a dot, whose terminator is stored behind it. -/
theorem urlShortenReference_nil (currentUrl : List UInt8) :
    urlShortenReference currentUrl [] = [0] ∨ urlShortenReference currentUrl [] = [ascii '.', 0] :=
  Scratch.shortenLoop_nil _ _

/-- The path of the reference goes on where that of the current URL ends. -/
example : textAt (urlShortenReference (asciiBytes "coap://h/a/b/") (asciiBytes "/a/b/c?d")) 0 =
    asciiBytes "c?d" := by
  decide +kernel

end Smcp
