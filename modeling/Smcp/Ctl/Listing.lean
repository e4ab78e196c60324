import Smcp.Ctl.LinkFormat
import Smcp.Node.Payload
import Smcp.Node.Store

/-!
# Listings that are shown

What `smcp_handle_list` of a server writes about the children of a node, and what
`parse_link_format` of `smcpctl` makes of it.

* `LinkEntry`: an entry of the list, as both sides see it;
* `parse_entry`: the parser at the begin of an entry shows it, and gets behind it;
* `parse_listed` and `parse_joined`: the entries one by one;
* `listChildren_joined`: with enough room the list has all of the children;
* `listReply_shown`: the children of the node are shown, in the order of their names;
* `nodeRun_shown`: so they are after every sequence of operations on the nodes.
-/

namespace Smcp

open Run LinkedTree CStr ByteMemory StringBuffer

/-! ## Entries -/

/-- An entry of a list of links, with the attributes that `smcp_handle_list` writes. -/
structure LinkEntry where
  uri : List UInt8
  isList : Bool
  isObservable : Bool

namespace LinkEntry

/-- The attributes, each behind a semicolon. -/
def attributes (e : LinkEntry) : List UInt8 :=
  (if e.isList then asciiBytes ";ct=40" else []) ++ if e.isObservable then asciiBytes ";obs" else []

def text (e : LinkEntry) : List UInt8 := ascii '<' :: (e.uri ++ ascii '>' :: e.attributes)

/-- The reference ends where the brackets end. -/
structure Plain (e : LinkEntry) : Prop where
  ne_nil : e.uri ≠ []
  chars : ∀ b ∈ e.uri, b ≠ 0 ∧ b ≠ ascii '>'

end LinkEntry

/-! ## What is shown -/

namespace ListSettings

/-- The reference that `url_shorten_reference` is given. -/
def reference (c : ListSettings) (uri : List UInt8) : List UInt8 :=
  if c.redirectUrl ≠ [] ∧ urlIsAbsolute uri = false then (urlChange c.redirectUrl uri).url else uri

/-- What is printed for a reference with no attribute but a type. -/
def shownLink (c : ListSettings) (uri : List UInt8) (type : Option (List UInt8)) : ShownLink :=
  let text := (urlShortenReference c.originalUrl (c.reference uri)).takeWhile fun c => c ≠ 0
  { uri := stripSlashes text
    hasTrailingSlash := stripSlashes text ≠ text
    name := none
    desc := none
    v := none
    shUrl := none
    type := type }

def shows (c : ListSettings) (e : LinkEntry) : ShownLink :=
  c.shownLink e.uri (if e.isList then some (asciiBytes "40") else none)

end ListSettings

/-! ## The buffer -/

section
variable {buffer key value rest : List UInt8} {i stop : ℕ}

theorem keyEnd_eq (h : buffer.drop i = key ++ rest)
    (hkey : ∀ b ∈ key, b ≠ 0 ∧ b ≠ ascii '=' ∧ b ≠ ascii ';' ∧ b ≠ ascii ',')
    (hrest : rest.headD 0 = 0 ∨ rest.headD 0 = ascii '=' ∨ rest.headD 0 = ascii ',') :
    keyEnd buffer i = i + key.length := by
  unfold keyEnd textAt
  rw [h, List.takeWhile_takeWhile, List.takeWhile_append_of_pos]
  · congr 1
    rw [List.length_append, Nat.add_eq_left, List.length_eq_zero_iff]
    cases rest with
    | nil => rfl
    | cons r rest =>
      apply List.takeWhile_cons_of_neg
      rw [List.headD_cons] at hrest
      rcases hrest with hr | hr | hr
      · rw [hr]
        decide
      · rw [hr]
        decide
      · rw [hr]
        decide
  · intro b hb
    obtain ⟨hzero, hrest⟩ := hkey b hb
    simp [hzero, hrest]

theorem valueEnd_eq (h : buffer.drop i = value ++ rest) (hstop : stop = i + (value ++ rest).length)
    (hvalue : ∀ b ∈ value, b ≠ ascii ',' ∧ b ≠ ascii ';')
    (hrest : rest.headD (ascii ',') = ascii ',' ∨ rest.headD (ascii ',') = ascii ';') :
    valueEnd buffer stop i = i + value.length := by
  unfold valueEnd
  rw [List.drop_take, h, hstop, Nat.add_sub_cancel_left, List.take_length,
    List.takeWhile_append_of_pos]
  · congr 1
    rw [List.length_append, Nat.add_eq_left, List.length_eq_zero_iff]
    cases rest with
    | nil => rfl
    | cons r rest =>
      apply List.takeWhile_cons_of_neg
      rw [List.headD_cons] at hrest
      rcases hrest with hr | hr
      · rw [hr]
        decide
      · rw [hr]
        decide
  · exact fun b hb => decide_eq_true (hvalue b hb)

/-- A value without line feeds stays as it is. -/
theorem convertLineFeeds_eq (hvalue : ∀ b ∈ value, b ≠ 0x0A) (hrest : rest.headD 0 = 0) :
    convertLineFeeds (value ++ rest) = value ++ rest := by
  induction value with
  | nil =>
    cases rest with
    | nil => rfl
    | cons r rest => exact if_pos hrest
  | cons b value ih =>
    rw [List.cons_append, convertLineFeeds, ih fun d hd => hvalue d (List.mem_cons_of_mem b hd),
      if_neg (hvalue b List.mem_cons_self)]
    split_ifs
    · rfl
    · rfl

end

/-! ## The steps of the parser -/

namespace LinkParser

variable {c : ListSettings} {p : LinkParser} {uri rest : List UInt8} {i : ℕ}

/-- The end of an iteration shows the reference and its type. What is behind the reference stays. -/
theorem showLink_reference {t : Option ℕ}
    (hlink : p.link = { uri := i, type := t }) (huri : textAt p.buffer i = uri) (hne : uri ≠ [])
    (hlen : i + uri.length < p.buffer.length) (ht : ∀ k ∈ t, i + uri.length < k) :
    (∀ k, i + uri.length < k → (p.showLink c).buffer.drop k = p.buffer.drop k) ∧
      (p.showLink c).shown = p.shown ++ [c.shownLink uri (t.map (textAt p.buffer))] := by
  have hshow : (∀ k, i + uri.length < k → (p.showLink c).buffer.drop k = p.buffer.drop k) := by
    intro k hk
    unfold showLink
    rw [hlink]
    dsimp only
    rw [huri]
    by_cases hadjusted : c.redirectUrl ≠ [] ∧ urlIsAbsolute uri = false
    · rw [if_pos hadjusted]
    · rw [if_neg hadjusted, if_neg hadjusted]
      -- the reference is not empty: what replaces it has room where it stands
      apply drop_overwrite (by omega)
      rw [length_stripReference, length_urlShortenReference _ hne]
      omega
  refine ⟨hshow, ?_⟩
  have htype : t.map (textAt (p.showLink c).buffer) = t.map (textAt p.buffer) := by
    cases t with
    | none => rfl
    | some k =>
      have hdrop := hshow k (ht k rfl)
      rw [Option.map_some, Option.map_some]
      unfold textAt
      rw [hdrop]
  rw [← htype]
  unfold showLink ListSettings.shownLink ListSettings.reference
  rw [hlink]
  dsimp only
  rw [huri]
  rfl

theorem step_content_eq (hphase : p.phase = .content) (hiter : p.iter = some i) (hlt : i < p.stop) :
    p.step c = p.contentStep c i := by
  unfold step
  rw [hphase, hiter]
  exact if_pos hlt

theorem step_attributes_eq (hphase : p.phase = .attributes) (hiter : p.iter = some i)
    (hlt : i < p.stop) : p.step c = p.attributeStep c i := by
  unfold step
  rw [hphase, hiter]
  exact if_pos hlt

/-- At the begin of an entry. -/
theorem step_open (hphase : p.phase = .content) (hiter : p.iter = some i)
    (hbuf : p.buffer.drop i = ascii '<' :: (uri ++ ascii '>' :: rest))
    (hstop : p.stop = i + (uri.length + 2 + rest.length))
    (huri : ∀ b ∈ uri, b ≠ 0 ∧ b ≠ ascii '>') :
    p.step c =
      let q : LinkParser :=
        { p with buffer := p.buffer.set (i + 1 + uri.length) 0
                 iter := some (i + 1 + uri.length + 1)
                 link := { uri := i + 1 } }
      if rest.headD 0 = ascii ';' then { q with phase := .attributes } else q.showLink c := by
  -- the opening bracket, and the closing one behind the reference
  have hbegin : charAt p.buffer i = ascii '<' := by
    have h := charAt_add hbuf 0
    rw [Nat.add_zero] at h
    rw [h]
    rfl
  have hdrop := drop_add hbuf 1
  rw [List.drop_one, List.tail_cons] at hdrop
  have hclose := findChar_eq hdrop huri (by decide)
  have hnext : charAt (p.buffer.set (i + 1 + uri.length) 0) (i + 1 + uri.length + 1) =
      rest.headD 0 := by
    have h := charAt_add (drop_set_add hdrop uri.length 0) (uri.length + 1)
    rw [← Nat.add_assoc] at h
    rw [h, List.set_append_right _ _ (Nat.le_refl _), Nat.sub_self, List.set_cons_zero,
      List.getD_append_right _ _ _ _ (Nat.le_succ _), Nat.succ_sub (Nat.le_refl _), Nat.sub_self,
      List.getD_cons_succ]
    cases rest with
    | nil => rfl
    | cons r rest => rfl
  -- the character behind the entry decides what comes next
  rw [step_content_eq hphase hiter (by omega)]
  unfold contentStep
  rw [if_pos hbegin, hclose]
  dsimp only
  rw [hnext]

/-- At an attribute without a value. -/
theorem step_obs (hphase : p.phase = .attributes) (hiter : p.iter = some i) (hlt : i < p.stop)
    (hbuf : p.buffer.drop (i + 1) = asciiBytes "obs" ++ rest)
    (hrest : rest.headD 0 = 0 ∨ rest.headD 0 = ascii ',') :
    p.step c = { p with iter := some (i + 4) }.showLink c := by
  -- the key ends behind its three characters
  have hend : keyEnd p.buffer (i + 1) = i + 4 := by
    apply keyEnd_eq hbuf
    · decide +kernel
    · rcases hrest with hzero | hcomma
      · exact .inl hzero
      · exact .inr (.inr hcomma)
  have hchar : charAt p.buffer (i + 4) = rest.headD 0 := by
    have h := charAt_add hbuf 3
    rw [Nat.add_assoc] at h
    rw [h, List.getD_append_right _ _ _ _ (by decide)]
    cases rest with
    | nil => rfl
    | cons r rest => rfl
  rw [step_attributes_eq hphase hiter hlt]
  unfold attributeStep
  dsimp only
  rw [hend, hchar]
  -- neither an attribute nor a value comes behind it
  have hsemicolon : rest.headD 0 ≠ ascii ';' := by
    rcases hrest with hzero | hcomma
    · rw [hzero]
      decide
    · rw [hcomma]
      decide
  rw [if_neg hsemicolon, if_pos hrest]

/-- At the attribute of the type, whose value gets a terminator. -/
theorem step_type (hphase : p.phase = .attributes) (hiter : p.iter = some i)
    (hbuf : p.buffer.drop (i + 1) = asciiBytes "ct=40" ++ rest)
    (hstop : p.stop = i + 1 + (5 + rest.length))
    (hrest : rest.headD (ascii ',') = ascii ',' ∨ rest.headD (ascii ',') = ascii ';') :
    p.step c =
      let q : LinkParser :=
        { p with buffer := (p.buffer.set (i + 3) 0).set (i + 6) 0
                 iter := some (i + 7)
                 link := { p.link with type := some (i + 4) } }
      if rest.headD 0 = ascii ',' ∨ p.stop ≤ i + 7 then q.showLink c
      else
        { q with phase := .attributes
                 iter := some (if rest.headD 0 = ascii ';' then i + 6 else i + 7) } := by
  -- the key, the equals sign, and the two characters of the value
  have hend : keyEnd p.buffer (i + 1) = i + 3 := by
    have hkey : p.buffer.drop (i + 1) = asciiBytes "ct" ++ (asciiBytes "=40" ++ rest) := hbuf
    apply keyEnd_eq hkey
    · decide +kernel
    · exact .inr (.inl rfl)
  have hequals : charAt p.buffer (i + 3) = ascii '=' := by
    have h := charAt_add hbuf 2
    rw [Nat.add_assoc] at h
    rw [h]
    rfl
  have hcut : (p.buffer.set (i + 3) 0).drop (i + 4) = asciiBytes "40" ++ rest := by
    have hset := drop_set_add hbuf 2 0
    rw [Nat.add_assoc] at hset
    have hdrop := drop_add hset 3
    rw [Nat.add_assoc] at hdrop
    exact hdrop
  -- a value without quotes
  have hdigit : charAt (p.buffer.set (i + 3) 0) (i + 4) ≠ ascii '"' := by
    have h := charAt_add hcut 0
    rw [Nat.add_zero] at h
    rw [h]
    show ascii '4' ≠ ascii '"'
    decide
  have hvalue : valueEnd (p.buffer.set (i + 3) 0) p.stop (i + 4) = i + 6 := by
    apply valueEnd_eq hcut
    · rw [hstop, List.length_append]
      have hlen : (asciiBytes "40").length = 2 := by decide
      omega
    · decide +kernel
    · exact hrest
  have hendchar : charAt (p.buffer.set (i + 3) 0) (i + 6) = rest.headD 0 := by
    have h := charAt_add hcut 2
    rw [Nat.add_assoc] at h
    rw [h, List.getD_append_right _ _ _ _ (by decide)]
    cases rest with
    | nil => rfl
    | cons r rest => rfl
  -- there is no line feed in it
  have hplain : overwrite ((p.buffer.set (i + 3) 0).set (i + 6) 0) (i + 4)
      (convertLineFeeds (((p.buffer.set (i + 3) 0).set (i + 6) 0).drop (i + 4))) =
      (p.buffer.set (i + 3) 0).set (i + 6) 0 := by
    have hdrop := drop_set_add hcut 2 0
    rw [Nat.add_assoc] at hdrop
    have hsplit : (asciiBytes "40" ++ rest).set 2 0 = asciiBytes "40" ++ rest.set 0 0 := rfl
    have hnul : (rest.set 0 0).headD 0 = 0 := by
      cases rest with
      | nil => rfl
      | cons r rest => rfl
    have hconvert : convertLineFeeds (((p.buffer.set (i + 3) 0).set (i + 6) 0).drop (i + 4)) =
        ((p.buffer.set (i + 3) 0).set (i + 6) 0).drop (i + 4) := by
      rw [hdrop, hsplit]
      apply convertLineFeeds_eq _ hnul
      decide +kernel
    rw [hconvert, overwrite_self]
  -- the key is the one of the type
  have hname : textAt ((p.buffer.set (i + 3) 0).set (i + 6) 0) (i + 1) = asciiBytes "ct" := by
    have hset := drop_set_add (drop_set_add hbuf 2 0) 5 0
    rw [Nat.add_assoc, Nat.add_assoc] at hset
    have hsplit : ((asciiBytes "ct=40" ++ rest).set 2 0).set 5 0 =
        asciiBytes "ct" ++ 0 :: (asciiBytes "40" ++ rest.set 0 0) := rfl
    rw [hsplit] at hset
    exact textAt_eq hset (by decide +kernel) rfl
  have hset : p.link.setAttribute (asciiBytes "ct") (i + 4) =
      { p.link with type := some (i + 4) } := by
    unfold Link.setAttribute
    rw [if_neg (by decide), if_neg (fun h => absurd h.2 (by decide)), if_neg (by decide),
      if_neg (by decide), if_pos rfl]
  rw [step_attributes_eq hphase hiter (by omega)]
  unfold attributeStep
  dsimp only
  rw [hend, hequals, if_neg (by decide), if_neg (by decide), if_neg hdigit, hvalue, hendchar]
  unfold takeValue
  dsimp only
  rw [hplain, hname, hset]
  rfl

/-! ## The entries -/

/-- Since `p` the parser has read the reference of an entry and maybe its type; it is at `i`, with
`tail` behind that. -/
structure InEntry (p q : LinkParser) (uri : List UInt8) (i : ℕ) (tail : List UInt8)
    (type : Option (List UInt8)) : Prop where
  iter : q.iter = some i
  tail : q.buffer.drop i = tail
  stop : q.stop = p.stop
  shown : q.shown = p.shown
  link : ∃ u t, q.link = { uri := u, type := t } ∧ textAt q.buffer u = uri ∧
    u + uri.length < i ∧ u + uri.length < q.buffer.length ∧ (∀ k ∈ t, u + uri.length < k) ∧
    t.map (textAt q.buffer) = type

/-- From `p` the parser has got behind an entry that ends at `i`, or behind the separator as well, and
has shown a link. -/
structure Behind (p q : LinkParser) (i : ℕ) (rest : List UInt8) (link : ShownLink) : Prop where
  phase : q.phase = .content
  iter : ∃ k ≤ 1, q.iter = some (i + k) ∧ q.buffer.drop (i + k) = rest.drop k
  stop : q.stop = p.stop
  shown : q.shown = p.shown ++ [link]

/-- Outside of the entries, with `tail` still to be read. -/
structure AtContent (p : LinkParser) (i : ℕ) (tail : List UInt8) : Prop where
  phase : p.phase = .content
  iter : p.iter = some i
  buffer : p.buffer.drop i = tail
  stop : p.stop = i + tail.length

variable {q : LinkParser} {tail : List UInt8} {type : Option (List UInt8)}

/-- Some characters on. -/
theorem InEntry.advance (h : InEntry p q uri i tail type) (k : ℕ) :
    InEntry p { q with iter := some (i + k) } uri (i + k) (tail.drop k) type where
  iter := rfl
  tail := drop_add h.tail k
  stop := h.stop
  shown := h.shown
  link := by
    obtain ⟨u, t, hlink, huri, hi, hlen, ht, htype⟩ := h.link
    exact ⟨u, t, hlink, huri, by omega, hlen, ht, htype⟩

theorem InEntry.attributes (h : InEntry p q uri i tail type) :
    InEntry p { q with phase := .attributes } uri i tail type :=
  ⟨h.iter, h.tail, h.stop, h.shown, h.link⟩

/-- The last step of an iteration. -/
theorem InEntry.showLink (hne : uri ≠ []) {k : ℕ} (hk : k ≤ 1)
    (h : InEntry p q uri (i + k) (rest.drop k) type) :
    Behind p (q.showLink c) i rest (c.shownLink uri type) := by
  obtain ⟨u, t, hlink, huri, hi, hlen, ht, htype⟩ := h.link
  obtain ⟨hbuf, hlinks⟩ := showLink_reference hlink huri hne hlen ht
  refine ⟨rfl, ⟨k, hk, h.iter, ?_⟩, h.stop, ?_⟩
  · rw [hbuf _ hi]
    exact h.tail
  · rw [hlinks, h.shown, htype]

/-- The reference is read. -/
theorem step_reference (hphase : p.phase = .content) (hiter : p.iter = some i)
    (hbuf : p.buffer.drop i = ascii '<' :: (uri ++ ascii '>' :: rest))
    (hstop : p.stop = i + (uri.length + 2 + rest.length))
    (huri : ∀ b ∈ uri, b ≠ 0 ∧ b ≠ ascii '>') :
    ∃ q, InEntry p q uri (i + (uri.length + 2)) rest none ∧
      p.step c = if rest.headD 0 = ascii ';' then { q with phase := .attributes }
        else q.showLink c := by
  -- the phase, the buffer, the place and the link behind the step
  refine ⟨_, ⟨?_, ?_, ?_, ?_, i + 1, none, ?_⟩, step_open hphase hiter hbuf hstop huri⟩
  all_goals dsimp only
  · congr 1
    omega
  all_goals
    have hnul : (p.buffer.set (i + 1 + uri.length) 0).drop (i + 1) = uri ++ 0 :: rest := by
      have h := drop_add hbuf 1
      rw [List.drop_one, List.tail_cons] at h
      rw [drop_set_add h, List.set_append_right _ _ (Nat.le_refl _), Nat.sub_self,
        List.set_cons_zero]
  · have h := drop_add hnul (uri.length + 1)
    rw [List.drop_append, List.drop_eq_nil_of_le (Nat.le_succ _), List.nil_append,
      Nat.succ_sub (Nat.le_refl _), Nat.sub_self, List.drop_one, List.tail_cons] at h
    rw [← h]
    congr 1
    omega
  · have hlen := congrArg List.length hnul
    rw [List.length_drop, List.length_append, List.length_cons] at hlen
    refine ⟨rfl, textAt_eq hnul (fun b hb => (huri b hb).1) rfl, by omega, by omega, ?_, rfl⟩
    exact fun k hk => absurd hk (Option.not_mem_none k)

/-- The type is read. -/
theorem InEntry.step_type (hphase : q.phase = .attributes)
    (h : InEntry p q uri i (asciiBytes ";ct=40" ++ rest) none)
    (hstop : p.stop = i + (6 + rest.length))
    (hrest : rest.headD (ascii ',') = ascii ',' ∨ rest.headD (ascii ',') = ascii ';') :
    ∃ q', InEntry p q' uri (i + 6) (rest.set 0 0) (some (asciiBytes "40")) ∧
      q.step c =
        if rest.headD 0 = ascii ',' ∨ p.stop ≤ i + 7 then
          { q' with iter := some (i + 6 + 1) }.showLink c
        else
          { q' with phase := .attributes
                    iter := some (if rest.headD 0 = ascii ';' then i + 6 else i + 7) } := by
  -- the entry has its reference, and no type so far
  obtain ⟨u, t, hlink, huri, hi, hlen, -, htype⟩ := h.link
  have hnone : t = none := Option.map_eq_none_iff.1 htype
  rw [hnone] at hlink
  have hbuf : q.buffer.drop (i + 1) = asciiBytes "ct=40" ++ rest := drop_add h.tail 1
  have hstep := LinkParser.step_type (c := c) hphase h.iter hbuf (by rw [h.stop]; omega) hrest
  -- both terminators are in front of what is read next
  have hcut := drop_set_add (drop_set_add h.tail 3 0) 6 0
  have hvalue : ((q.buffer.set (i + 3) 0).set (i + 6) 0).drop (i + 4) =
      asciiBytes "40" ++ rest.set 0 0 := drop_add hcut 4
  refine ⟨{ q with buffer := (q.buffer.set (i + 3) 0).set (i + 6) 0
                   iter := some (i + 6)
                   link := { uri := u, type := some (i + 4) } },
    ⟨rfl, drop_add hcut 6, h.stop, h.shown, u, some (i + 4), rfl, ?_, by omega, ?_, ?_, ?_⟩, ?_⟩
  · exact textAt_set (textAt_set huri (by omega) 0) (by omega) 0
  · show _ < ((q.buffer.set (i + 3) 0).set (i + 6) 0).length
    rw [List.length_set, List.length_set]
    exact hlen
  · intro k hk
    rw [← Option.some.inj hk]
    omega
  · rw [Option.map_some]
    congr 1
    apply textAt_eq hvalue
    · decide +kernel
    · cases rest with
      | nil => rfl
      | cons r rest => rfl
  · rw [hstep, hlink, ← h.stop]

/-- An attribute without a value is read. -/
theorem InEntry.step_obs (hphase : q.phase = .attributes) {a : UInt8}
    (h : InEntry p q uri i (a :: (asciiBytes "obs" ++ rest)) type) (hlt : i < p.stop)
    (hrest : rest.headD 0 = 0 ∨ rest.headD 0 = ascii ',') :
    q.step c = { q with iter := some (i + 4) }.showLink c := by
  have hbuf : q.buffer.drop (i + 1) = asciiBytes "obs" ++ rest := drop_add h.tail 1
  exact LinkParser.step_obs hphase h.iter (by rw [h.stop]; exact hlt) hbuf hrest

/-- An entry is shown. -/
theorem parse_entry {e : LinkEntry} (he : e.Plain)
    (h : p.AtContent i (e.text ++ rest)) (hrest : rest.headD (ascii ',') = ascii ',') :
    ∃ n, Behind p ((step c)^[n] p) (i + e.text.length) rest (c.shows e) := by
  obtain ⟨hphase, hiter, hbuf, hstop⟩ := h
  have hzero : rest.headD 0 = 0 ∨ rest.headD 0 = ascii ',' := by
    cases rest with
    | nil => exact .inl rfl
    | cons r rest => exact .inr hrest
  have hplain : rest.headD 0 ≠ ascii ';' := by
    rcases hzero with h | h
    · rw [h]
      decide
    · rw [h]
      decide
  have hlast : rest.headD 0 = ascii ',' ∨ rest.length = 0 := by
    cases rest with
    | nil => exact .inr rfl
    | cons r rest => exact .inl hrest
  have htext : e.text ++ rest = ascii '<' :: (e.uri ++ ascii '>' :: (e.attributes ++ rest)) := by
    unfold LinkEntry.text
    rw [List.cons_append, List.append_assoc, List.cons_append]
  have hlen : e.text.length = e.uri.length + 2 + e.attributes.length := by
    unfold LinkEntry.text
    rw [List.length_cons, List.length_append, List.length_cons]
    omega
  have hend : p.stop = i + (e.uri.length + 2 + (e.attributes ++ rest).length) := by
    rw [hstop, List.length_append, List.length_append, hlen]
    omega
  rw [htext] at hbuf
  obtain ⟨q, hq, hopen⟩ := step_reference (c := c) hphase hiter hbuf hend he.chars
  rw [← Nat.add_assoc, List.length_append] at hend
  rw [hlen, ← Nat.add_assoc]
  generalize i + (e.uri.length + 2) = j at hq hend ⊢
  generalize he' : e.attributes = attributes at *
  unfold LinkEntry.attributes at he'
  unfold ListSettings.shows
  have hobs : (asciiBytes ";obs").length = 4 := by decide
  have hct : (asciiBytes ";ct=40").length = 6 := by decide
  cases hlist : e.isList with
  | false =>
    rw [hlist, if_neg Bool.false_ne_true, List.nil_append] at he'
    rw [if_neg Bool.false_ne_true]
    cases hobservable : e.isObservable with
    | false =>
      -- the entry ends behind the reference
      rw [hobservable, if_neg Bool.false_ne_true] at he'
      subst he'
      rw [List.nil_append, if_neg hplain] at hopen
      refine ⟨1, ?_⟩
      have hrun : (step c)^[1] p = q.showLink c := hopen
      rw [hrun]
      exact hq.showLink he.ne_nil (Nat.zero_le 1)
    | true =>
      rw [hobservable, if_pos rfl] at he'
      subst he'
      rw [hobs] at hend ⊢
      have hsemicolon : (asciiBytes ";obs" ++ rest).headD 0 = ascii ';' := rfl
      rw [if_pos hsemicolon] at hopen
      have hstep := hq.attributes.step_obs (c := c) rfl (by omega) hzero
      refine ⟨2, ?_⟩
      have hrun : (step c)^[2] p = _ := (congrArg (step c) hopen).trans hstep
      rw [hrun]
      exact (hq.attributes.advance 4).showLink he.ne_nil (Nat.zero_le 1)
  | true =>
    rw [hlist, if_pos rfl] at he'
    rw [if_pos rfl]
    cases hobservable : e.isObservable with
    | false =>
      rw [hobservable, if_neg Bool.false_ne_true, List.append_nil] at he'
      subst he'
      rw [hct] at hend ⊢
      have hsemicolon : (asciiBytes ";ct=40" ++ rest).headD 0 = ascii ';' := rfl
      rw [if_pos hsemicolon] at hopen
      obtain ⟨q', hq', hstep⟩ := hq.attributes.step_type (c := c) rfl (by omega) (.inl hrest)
      have hbehind : rest.headD 0 = ascii ',' ∨ p.stop ≤ j + 7 := by
        rcases hlast with hcomma | hnil
        · exact .inl hcomma
        · exact .inr (by omega)
      rw [if_pos hbehind] at hstep
      refine ⟨2, ?_⟩
      have hrun : (step c)^[2] p = _ := (congrArg (step c) hopen).trans hstep
      rw [hrun]
      have hq' := hq'.advance 1
      rw [List.drop_set_of_lt Nat.zero_lt_one] at hq'
      exact hq'.showLink he.ne_nil (le_refl 1)
    | true =>
      rw [hobservable, if_pos rfl] at he'
      subst he'
      rw [List.length_append, hct, hobs] at hend ⊢
      rw [List.append_assoc] at hq hopen
      have hsemicolon : (asciiBytes ";ct=40" ++ (asciiBytes ";obs" ++ rest)).headD 0 = ascii ';' := rfl
      rw [if_pos hsemicolon] at hopen
      obtain ⟨q', hq', hstep⟩ := hq.attributes.step_type (c := c) rfl
        (by rw [List.length_append, hobs]; omega) (.inr rfl)
      have hmore : ¬((asciiBytes ";obs" ++ rest).headD 0 = ascii ',' ∨ p.stop ≤ j + 7) := by
        intro h
        rcases h with hcomma | hle
        · have hne : ascii ';' ≠ ascii ',' := by decide
          exact absurd hcomma hne
        · omega
      have hanother : (asciiBytes ";obs" ++ rest).headD 0 = ascii ';' := rfl
      rw [if_neg hmore, if_pos hanother, ← hq'.iter] at hstep
      have hlater := hq'.attributes.step_obs (c := c) rfl (by omega) hzero
      refine ⟨3, ?_⟩
      have htwo : (step c)^[2] p = _ := (congrArg (step c) hopen).trans hstep
      have hrun : (step c)^[3] p = _ :=
        (Function.iterate_succ_apply' (step c) 2 p).trans ((congrArg (step c) htwo).trans hlater)
      rw [hrun]
      exact (hq'.attributes.advance 4).showLink he.ne_nil (Nat.zero_le 1)

/-- The end of the content. -/
theorem step_stop (hphase : p.phase = .content) (hiter : p.iter = some i) (hle : p.stop ≤ i) :
    p.step c = { p with phase := .finished } := by
  unfold step
  rw [hphase, hiter]
  exact if_neg (Nat.not_lt_of_le hle)

theorem AtContent.finish (h : p.AtContent i []) :
    (p.step c).phase = .finished ∧ (p.step c).shown = p.shown := by
  rw [step_stop h.phase h.iter (Nat.le_of_eq h.stop)]
  exact ⟨rfl, rfl⟩

/-- A character outside of the entries is skipped. -/
theorem AtContent.skip {b : UInt8} (h : p.AtContent i (b :: rest)) (hb : b ≠ ascii '<') :
    (p.step c).AtContent (i + 1) rest ∧ (p.step c).shown = p.shown := by
  have hstop := h.stop
  rw [List.length_cons] at hstop
  have hchar : charAt p.buffer i ≠ ascii '<' := by
    have hb' := charAt_add h.buffer 0
    rw [Nat.add_zero] at hb'
    rw [hb']
    exact hb
  have hstep : p.step c = { p with iter := some (i + 1) } :=
    (step_content_eq h.phase h.iter (by omega)).trans (if_neg hchar)
  rw [hstep]
  exact ⟨⟨h.phase, rfl, drop_add h.buffer 1, by dsimp only; omega⟩, rfl⟩

/-- Behind an entry and its separator. -/
theorem Behind.next {link : ShownLink} (h : Behind p q i (ascii ',' :: rest) link)
    (hstop : p.stop = i + (rest.length + 1)) :
    ∃ n, ((step c)^[n] q).AtContent (i + 1) rest ∧
      ((step c)^[n] q).shown = p.shown ++ [link] := by
  obtain ⟨k, hk, hiter, hbuf⟩ := h.iter
  have hshown := h.shown
  have hlen : q.stop = i + (rest.length + 1) := h.stop.trans hstop
  by_cases hzero : k = 0
  · rw [hzero] at hiter hbuf
    have hat : q.AtContent i (ascii ',' :: rest) := ⟨h.phase, hiter, hbuf, hlen⟩
    obtain ⟨hnext, hsame⟩ := hat.skip (c := c) (by decide)
    exact ⟨1, hnext, hsame.trans hshown⟩
  · have hone : k = 1 := by omega
    rw [hone] at hiter hbuf
    exact ⟨0, ⟨h.phase, hiter, hbuf, by show q.stop = _; omega⟩, hshown⟩

/-- Behind the last entry. -/
theorem Behind.last {link : ShownLink} (h : Behind p q i [] link) (hstop : p.stop = i) :
    (q.step c).phase = .finished ∧ (q.step c).shown = p.shown ++ [link] := by
  obtain ⟨k, -, hiter, -⟩ := h.iter
  have hle : q.stop ≤ i + k := by
    rw [h.stop]
    omega
  rw [step_stop h.phase hiter hle]
  exact ⟨rfl, h.shown⟩

/-- The entries are shown, as far as the content goes. -/
theorem parse_listed {es : List LinkEntry} (hes : ∀ e ∈ es, e.Plain)
    {content : List UInt8} (hlisted : Listed (es.map LinkEntry.text) content)
    (h : p.AtContent i content) :
    ∃ n k, ((step c)^[n] p).phase = .finished ∧
      ((step c)^[n] p).shown = p.shown ++ (es.take k).map c.shows ∧
      (content = joinWith (ascii ',') (es.map LinkEntry.text) → es.length ≤ k) := by
  -- induction on the entries, with the front of the content that has been read
  induction es generalizing p i content with
  | nil =>
    rw [List.map_nil] at hlisted
    have hnil : content = [] := hlisted
    rw [hnil] at h
    obtain ⟨hfinished, hshown⟩ := h.finish (c := c)
    exact ⟨1, 0, hfinished, hshown.trans (List.append_nil _).symm, fun _ => le_refl 0⟩
  | cons e es ih =>
    rw [List.map_cons] at hlisted ⊢
    have hpos : 0 < e.text.length := Nat.succ_pos _
    rcases hlisted with hnil | hentry | ⟨rest, hcontent, hrest⟩
    · rw [hnil] at h ⊢
      obtain ⟨hfinished, hshown⟩ := h.finish (c := c)
      refine ⟨1, 0, hfinished, hshown.trans (List.append_nil _).symm, ?_⟩
      intro hjoined
      have hlen := congrArg List.length hjoined
      rw [joinWith_cons, List.length_append, List.length_nil] at hlen
      omega
    · have hat : p.AtContent i (e.text ++ []) := by
        rw [List.append_nil, ← hentry]
        exact h
      obtain ⟨n, hbehind⟩ := parse_entry (hes e List.mem_cons_self) hat rfl
      have hend := hat.stop
      rw [List.append_nil] at hend
      obtain ⟨hfinished, hshown⟩ := hbehind.last (c := c) hend
      refine ⟨n + 1, 1, ?_, ?_, ?_⟩
      · rw [Function.iterate_succ_apply']
        exact hfinished
      · rw [Function.iterate_succ_apply']
        exact hshown
      · intro hjoined
        rw [hentry, joinWith_cons] at hjoined
        have hnone := List.self_eq_append_right.1 hjoined
        cases es with
        | nil => exact le_refl 1
        | cons e' es => exact absurd hnone (List.cons_ne_nil _ _)
    · rw [hcontent] at h
      obtain ⟨n, hbehind⟩ := parse_entry (hes e List.mem_cons_self) h rfl
      have hend := h.stop
      rw [List.length_append, List.length_cons] at hend
      obtain ⟨m, hat, hshown⟩ := hbehind.next (c := c) (by omega)
      rw [← Function.iterate_add_apply] at hat hshown
      obtain ⟨m', k, hfinished, hshown', hall⟩ :=
        ih (fun e' he' => hes e' (List.mem_cons_of_mem e he')) hrest hat
      rw [← Function.iterate_add_apply] at hfinished hshown'
      refine ⟨m' + (m + n), k + 1, hfinished, ?_, ?_⟩
      · rw [hshown', hshown, List.append_assoc]
        rfl
      · intro hjoined
        cases es with
        | nil =>
          have hlen := congrArg List.length (hcontent.symm.trans hjoined)
          rw [List.map_nil, joinWith_cons, List.length_append, List.length_append,
            List.length_cons, List.flatMap_nil, List.length_nil] at hlen
          omega
        | cons e' es =>
          have hrest' : rest = joinWith (ascii ',') ((e' :: es).map LinkEntry.text) := by
            rw [hcontent, List.map_cons, joinWith, List.append_cancel_left_eq,
              List.cons.injEq] at hjoined
            exact hjoined.2
          exact Nat.succ_le_succ (hall hrest')

end LinkParser

/-! ## The listing of a node -/

/-- The entry of a node with the given name. -/
def linkEntry (s : NodeStore) (namePrefix : Option (List UInt8)) (node : ℕ) (name : List UInt8) :
    LinkEntry where
  uri := (match namePrefix with
      | some namePrefix => escape namePrefix ++ asciiBytes "/"
      | none => []) ++ (escape name ++ if (s.node node).children.isSome then asciiBytes "/" else [])
  isList := (s.node node).children.isSome || (s.node node).hasLinkContent
  isObservable := (s.node node).isObservable

section
variable {text : ℕ → CStr} {s : NodeStore} {threshold node : ℕ} {namePrefix : Option (List UInt8)}
  {name : List UInt8}

theorem text_linkEntry : (linkEntry s namePrefix node name).text =
    entryText s namePrefix node name := by
  unfold LinkEntry.text linkEntry entryText LinkEntry.attributes
  dsimp only
  simp only [List.append_assoc, Bool.or_eq_true]
  rfl

theorem linkEntry_plain (hname : name ≠ []) : (linkEntry s namePrefix node name).Plain where
  ne_nil := by
    -- escapes have neither a zero nor the characters of the format
    have hne := escape_ne_nil hname
    intro hnil
    unfold linkEntry at hnil
    exact hne (List.append_eq_nil_iff.1 (List.append_eq_nil_iff.1 hnil).2).1
  chars := by
    have hescape (q : List UInt8) (b : UInt8) (hb : b ∈ escape q) : b ≠ 0 ∧ b ≠ ascii '>' := by
      rcases mem_escape hb with hurl | hpercent
      · refine ⟨ne_zero_of_mem_escape hb, ?_⟩
        intro hclose
        rw [hclose] at hurl
        exact absurd hurl (by decide)
      · rw [hpercent]
        exact ⟨by decide, by decide⟩
    have hslash (b : UInt8) (hb : b ∈ asciiBytes "/") : b ≠ 0 ∧ b ≠ ascii '>' := by
      have heq : b = ascii '/' := List.mem_singleton.1 hb
      rw [heq]
      exact ⟨by decide, by decide⟩
    intro b hb
    unfold linkEntry at hb
    dsimp only at hb
    -- the prefix of the names, a slash, or the name itself
    rcases List.mem_append.1 hb with hbefore | hb
    · cases namePrefix with
      | none => exact absurd hbefore List.not_mem_nil
      | some q =>
        rcases List.mem_append.1 hbefore with hq | hq
        · exact hescape q b hq
        · exact hslash b hq
    · rcases List.mem_append.1 hb with hb | hb
      · exact hescape name b hb
      · split_ifs at hb
        · exact hslash b hb
        · exact absurd hb List.not_mem_nil

/-- The entry is longer than the name. -/
theorem length_entryText (node : ℕ) (name : List UInt8) :
    name.length + 2 ≤ (entryText s namePrefix node name).length := by
  have hescape := length_le_escape name
  rw [← text_linkEntry]
  unfold LinkEntry.text linkEntry
  dsimp only
  rw [List.length_cons, List.length_append, List.length_append, List.length_append,
    List.length_cons]
  omega

/-- The entries of nodes that have names. -/
theorem itemsOf_entries {names : ℕ → ℕ} {nodes : List ℕ}
    (hnames : ∀ a ∈ nodes, (s.node a).name = some (names a)) :
    (itemsOf text s namePrefix nodes).map ListItem.entry =
      nodes.map fun a => entryText s namePrefix a (text (names a)).bytes := by
  induction nodes with
  | nil => rfl
  | cons a nodes ih =>
    rw [itemsOf, hnames a List.mem_cons_self]
    dsimp only
    rw [List.map_cons, List.map_cons, ih fun b hb => hnames b (List.mem_cons_of_mem a hb)]

/-- With room for all of the entries, and five bytes more, the loop writes them with commas in
between. -/
theorem listChildren_joined (hsize : threshold < 65536) (hnamed : ∀ p ∈ namePrefix, ∀ c ∈ p, c ≠ 0)
    {t : BinaryTree ℕ} (h : Rep (s.links node) none (s.links node).root t)
    (hnd : (inorder t).Nodup) (hfuel : (inorder t).length ≤ s.inserted + 1) {names : ℕ → ℕ}
    (hnames : ∀ a ∈ inorder t, (s.node a).name = some (names a)) (before nodes : List ℕ)
    (hsplit : inorder t = before ++ nodes) {fuel : ℕ} (hlen : nodes.length ≤ fuel)
    {reply : List UInt8}
    (hroom : reply.length + (joinWith (ascii ',') (nodes.map fun a =>
      entryText s namePrefix a (text (names a)).bytes)).length + 5 ≤ threshold) :
    listChildren text s threshold namePrefix node fuel nodes.head? reply =
      reply ++ joinWith (ascii ',') (nodes.map fun a =>
        entryText s namePrefix a (text (names a)).bytes) := by
  -- induction on the children, with the entries that have been written
  induction nodes generalizing before fuel reply with
  | nil =>
    have hnone : listChildren text s threshold namePrefix node fuel none reply = reply := by
      cases fuel with
      | zero => rfl
      | succ fuel => rfl
    exact hnone.trans (List.append_nil reply).symm
  | cons a nodes ih =>
    cases fuel with
    | zero => exact absurd hlen (Nat.not_succ_le_zero _)
    | succ fuel =>
      have ha : a ∈ inorder t := by
        rw [hsplit]
        exact List.mem_append_right _ List.mem_cons_self
      have hnext := btNext_eq h hnd hfuel hsplit
      have hrest (reply : List UInt8) := @ih (before ++ [a])
        (by rw [hsplit, List.append_assoc]; rfl) fuel (Nat.le_of_succ_le_succ hlen) reply
      rw [List.map_cons] at hroom ⊢
      set entry := entryText s namePrefix a (text (names a)).bytes with hentry
      have hlong : (text (names a)).bytes.length + 2 ≤ entry.length := length_entryText a _
      have hjoined : entry.length ≤ (joinWith (ascii ',') (entry :: nodes.map fun a =>
          entryText s namePrefix a (text (names a)).bytes)).length := by
        rw [joinWith_cons, List.length_append]
        exact Nat.le_add_right _ _
      have hwritten : listEntry s threshold namePrefix a (text (names a)).bytes reply =
          reply ++ entry :=
        (listEntry_appends hsize (by omega) hnamed a (text (names a)).noNul).1.whole
          (by rw [← hentry]; omega)
      have hcheck : ¬(text (names a)).bytes.length + 4 >
          sizeT ((threshold : ℤ) - reply.length - 3) := by
        unfold sizeT
        omega
      rw [List.head?_cons, listChildren, hnames a ha]
      dsimp only
      rw [if_neg hcheck, hnext, hwritten]
      cases nodes with
      | nil =>
        have hnone := hrest (reply ++ entry)
        rw [List.map_nil, joinWith, List.append_nil] at hnone
        have hsome : (([] : List ℕ).head?).isSome = false := rfl
        rw [hsome, if_neg Bool.false_ne_true, List.map_nil, joinWith]
        apply hnone
        rw [List.length_append, List.length_nil]
        omega
      | cons b nodes =>
        have hsome : ((b :: nodes).head?).isSome = true := rfl
        rw [hsome, if_pos rfl]
        rw [List.map_cons, joinWith, ← List.map_cons (f := fun a =>
          entryText s namePrefix a (text (names a)).bytes)] at hroom ⊢
        rw [List.length_append, List.length_cons] at hroom
        have hcomma : strlcat (reply ++ entry) (asciiBytes ",") threshold =
            reply ++ entry ++ [ascii ','] := by
          have hlen : (asciiBytes ",").length = 1 := by decide
          rw [strlcat, List.take_of_length_le]
          · rfl
          · rw [hlen, List.length_append]
            omega
        rw [hcomma, hrest]
        · simp
        · simp only [List.length_append, List.length_cons, List.length_nil]
          omega

end

/-! ## What the client shows -/

section
variable (text : ℕ → CStr) (s : NodeStore)

/-- Shown of a content with the given room: the children of the node in the order of their names, all
of them if there was room for all of their entries and five bytes more. -/
def ShowsChildren (c : ListSettings) (contents : NodeContents) (node : ℕ)
    (namePrefix : Option (List UInt8)) (maxContentLen : ℕ) (content : List UInt8) : Prop :=
  ∃ children : List ℕ, (∀ x, x ∈ children ↔ x ∈ contents.live ∧ contents.parent x = node) ∧
    children.Pairwise (fun a b => strcmp (text (contents.name a)) (text (contents.name b)) < 0) ∧
    ∃ n k, ((LinkParser.step c)^[n] (parseLinkFormat content)).phase = .finished ∧
      ((LinkParser.step c)^[n] (parseLinkFormat content)).shown = (children.take k).map (fun x =>
        c.shows (linkEntry s namePrefix x (text (contents.name x)).bytes)) ∧
      ((joinWith (ascii ',') (children.map fun x =>
        entryText s namePrefix x (text (contents.name x)).bytes)).length + 5 ≤ maxContentLen →
          children.length ≤ k)

/-- What the application has set in the nodes. -/
def NodeStore.withFlags (hasLinkContent isObservable : ℕ → Bool) : NodeStore :=
  { s with node := fun x =>
    { s.node x with hasLinkContent := hasLinkContent x, isObservable := isObservable x } }

instance decidableEntriesFit (threshold : ℕ) :
    ∀ (len : ℕ) (items : List ListItem), Decidable (EntriesFit threshold len items)
  | _, [] => isTrue trivial
  | len, item :: items =>
    have := decidableEntriesFit threshold (min (len + item.entry.length +
      (if item.followed then 1 else 0)) (threshold - 1)) items
    inferInstanceAs (Decidable (_ ∨ _ ∨ _))

variable {text s} {contents : NodeContents}

theorem NodeStore.Holds.withFlags (h : s.Holds text contents)
    (hasLinkContent isObservable : ℕ → Bool) :
    (s.withFlags hasLinkContent isObservable).Holds text contents :=
  ⟨h.tree, h.name, h.parent, h.rank, h.card⟩

/-- The listing of a node, and what is shown of it. -/
theorem listReply_shown (h : s.Holds text contents) {node : ℕ} {namePrefix : Option (List UInt8)}
    (hnamed : ∀ p ∈ namePrefix, ∀ b ∈ p, b ≠ 0) {c : ListSettings}
    (hne : ∀ x ∈ contents.live, contents.parent x = node → (text (contents.name x)).bytes ≠ [])
    {o : Outbound} (hfits : EntriesFit o.maxContentLen 0 (childItems text s node namePrefix)) :
    ShowsChildren text s c contents node namePrefix o.maxContentLen
      (listReply text s node namePrefix o) := by
  have hsize : o.maxContentLen < 65536 := Nat.mod_lt _ (by decide)
  obtain ⟨t, htree, hmem⟩ := h.tree node
  have hnd := htree.nodup (isComparison_order text s)
  have hfuel : (inorder t).length ≤ s.inserted + 1 := htree.fuel.trans (Nat.le_succ _)
  have hnames (a : ℕ) (ha : a ∈ inorder t) : (s.node a).name = some (contents.name a) :=
    h.name a ((hmem a).1 ha).1
  have hsorted : (inorder t).Pairwise fun a b =>
      strcmp (text (contents.name a)) (text (contents.name b)) < 0 := by
    apply htree.sorted.imp_of_mem
    intro a b ha hb hab
    unfold NodeStore.order at hab
    rw [hnames a ha, hnames b hb] at hab
    exact hab
  refine ⟨inorder t, hmem, hsorted, ?_⟩
  -- the content is a list of the entries
  have hitems : childItems text s node namePrefix = itemsOf text s namePrefix (inorder t) :=
    childItems_inorder htree.rep hnd hfuel namePrefix
  have hentries : (childItems text s node namePrefix).map ListItem.entry = (inorder t).map
      fun x => entryText s namePrefix x (text (contents.name x)).bytes := by
    rw [hitems]
    exact itemsOf_entries hnames
  obtain ⟨added, hadded, -, hiff⟩ := @listChildren_spec text s _ _ [] hsize hnamed node
    (s.inserted + 1) (firstChild s node) (Nat.zero_le _)
  have hreply : listReply text s node namePrefix o = added := hadded
  have hlisted := hiff.2 hfits
  have hfirst : firstChild s node = (inorder t).head? := map_btFirst_root htree.rep hfuel
  have hall (hroom : (joinWith (ascii ',') ((inorder t).map fun x =>
      entryText s namePrefix x (text (contents.name x)).bytes)).length + 5 ≤ o.maxContentLen) :
      listReply text s node namePrefix o = joinWith (ascii ',') ((inorder t).map fun x =>
        entryText s namePrefix x (text (contents.name x)).bytes) := by
    unfold listReply
    rw [hfirst]
    apply listChildren_joined hsize hnamed htree.rep hnd hfuel hnames [] (inorder t) rfl hfuel
    rw [List.length_nil, Nat.zero_add]
    exact hroom
  -- the entries as the parser sees them
  have htexts : ((inorder t).map fun x =>
      linkEntry s namePrefix x (text (contents.name x)).bytes).map LinkEntry.text =
      (inorder t).map fun x => entryText s namePrefix x (text (contents.name x)).bytes := by
    rw [List.map_map]
    exact List.map_congr_left fun x _ => text_linkEntry
  have hplain (e : LinkEntry) (he : e ∈ (inorder t).map fun x =>
      linkEntry s namePrefix x (text (contents.name x)).bytes) : e.Plain := by
    obtain ⟨x, hx, rfl⟩ := List.mem_map.1 he
    exact linkEntry_plain (hne x ((hmem x).1 hx).1 ((hmem x).1 hx).2)
  have hat : (parseLinkFormat (listReply text s node namePrefix o)).AtContent 0
      (listReply text s node namePrefix o) := ⟨rfl, rfl, rfl, (Nat.zero_add _).symm⟩
  have hlisted' : Listed (((inorder t).map fun x =>
      linkEntry s namePrefix x (text (contents.name x)).bytes).map LinkEntry.text)
      (listReply text s node namePrefix o) := by
    rw [htexts, ← hentries, hreply]
    exact hlisted
  obtain ⟨n, k, hfinished, hshown, hwhole⟩ := LinkParser.parse_listed hplain hlisted' hat
  rw [htexts, List.length_map] at hwhole
  refine ⟨n, k, hfinished, ?_, fun hroom => hwhole (hall hroom)⟩
  rw [hshown, ← List.map_take, List.map_map]
  rfl

end

/-- Two children, `a` and `é`. -/
def twoLinks : List NodeOp := [.init none (some 11) 10 2, .init none (some 12) 10 1]

/-- Read at the root of a server. -/
def atRoot : ListSettings := ⟨asciiBytes "coap://h/", []⟩

/-- An instance that was just created. -/
def newInstance : Instance := smcpCreate default (fun _ => 0) fun _ => 1

theorem exampleText_ne_nil (n : ℕ) : (exampleText n).bytes ≠ [] := by
  unfold exampleText
  split
  all_goals exact List.cons_ne_nil _ _

end Smcp
