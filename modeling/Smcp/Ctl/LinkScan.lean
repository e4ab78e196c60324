import Smcp.Ctl.LinkFormat

/-!
# Escaped quotes in link format

From which contents `parse_link_format` returns. The content alone says it: it is scanned once, from
the left, and nothing is stored.

* `LinkPlace.next`: where the scan is behind one more character;
* `HasEscapedQuote`: a value in quotes whose first quote is escaped, and `hasEscapedQuote_iff`: the
  scan meets it;
* `LinkParser.step_scanned`: each step of the parser keeps what the scan of the rest will meet;
* `parseLinkFormat_returns_iff`: when the function returns.
-/

namespace Smcp

open Run StringBuffer

/-! ## The scan -/

/-- Where a character of the content stands. -/
inductive LinkPlace
  /-- between links -/
  | between
  /-- in the brackets -/
  | uri (empty : Bool)
  /-- behind the closing bracket; there may be a terminator instead of the character by then -/
  | behind (hidden : Bool)
  | key
  | valueBegin
  /-- in a value without quotes -/
  | value
  /-- in a value in quotes, behind a backslash or not -/
  | quoted (backslash : Bool)
  /-- behind the closing quote -/
  | closed
  /-- two behind the closing quote, where a character is skipped -/
  | skipped
  /-- behind the last link -/
  | done
  | escaped
  deriving DecidableEq

namespace LinkPlace

/-- The place behind a character. A dot is stored in empty brackets, if at all, with its
terminator behind them. -/
def next (dotted : Bool) (place : LinkPlace) (c : UInt8) : LinkPlace :=
  match place with
  | between => if c = ascii '<' then uri true else between
  | uri empty =>
    if c = ascii '>' then behind (empty && dotted) else if c = 0 then done else uri false
  | behind hidden =>
    if c = ascii ';' then key else if c = ascii '<' ∧ hidden = false then uri true else between
  | key =>
    if c = ascii '=' then valueBegin else if c = ascii ',' ∨ c = 0 then between else key
  | valueBegin =>
    if c = ascii '"' then quoted false
    else if c = ascii ',' then between else if c = ascii ';' then key else value
  | value => if c = ascii ',' then between else if c = ascii ';' then key else value
  | quoted backslash =>
    if c = ascii '"' then (if backslash then escaped else closed)
    else if c = 0 then done else quoted (c = ascii '\\')
  | closed => if c = ascii ',' then between else if c = ascii ';' then key else skipped
  | skipped => key
  | done => done
  | escaped => escaped

/-- The place behind a string. -/
def scan (dotted : Bool) (place : LinkPlace) (content : List UInt8) : LinkPlace :=
  content.foldl (next dotted) place

end LinkPlace

open LinkPlace

/-- The content has a value in quotes whose first quote, behind the opening one, has a backslash in
front of it. -/
def HasEscapedQuote (dotted : Bool) (content : List UInt8) : Prop :=
  ∃ front inner rest,
    content = front ++ ascii '"' :: (inner ++ ascii '\\' :: ascii '"' :: rest) ∧
      scan dotted between front = valueBegin ∧ ∀ c ∈ inner, c ≠ 0 ∧ c ≠ ascii '"'

/-- `url_shorten_reference` makes a dot of the empty reference of a link. -/
def ListSettings.makesDot (c : ListSettings) : Bool :=
  c.redirectUrl = [] ∧ urlShortenReference c.originalUrl [] ≠ [0]

/-! ## What the scan meets -/

namespace LinkPlace

variable {dotted : Bool} {place : LinkPlace} {c : UInt8} {content : List UInt8}

theorem scan_cons (dotted : Bool) (place : LinkPlace) (c : UInt8) (content : List UInt8) :
    scan dotted place (c :: content) = scan dotted (next dotted place c) content := rfl

/-- The scan of a text goes on behind its front. -/
theorem scan_append (dotted : Bool) (place : LinkPlace) (front content : List UInt8) :
    scan dotted place (front ++ content) = scan dotted (scan dotted place front) content :=
  List.foldl_append

/-- Behind an escaped quote nothing counts. -/
theorem scan_escaped (dotted : Bool) (content : List UInt8) :
    scan dotted escaped content = escaped := by
  induction content with
  | nil => rfl
  | cons c content ih => exact ih

/-- A quote is escaped in a value in quotes, behind a backslash. -/
theorem next_eq_escaped (h : next dotted place c = escaped) :
    place = escaped ∨ (place = quoted true ∧ c = ascii '"') := by
  unfold next at h
  cases place with
  | escaped => exact .inl rfl
  | quoted backslash =>
    dsimp only at h
    by_cases hquote : c = ascii '"'
    · rw [if_pos hquote] at h
      cases backslash with
      | true => exact .inr ⟨rfl, hquote⟩
      | false => exact absurd h nofun
    · rw [if_neg hquote] at h
      split_ifs at h
  | skipped => exact absurd h nofun
  | done => exact absurd h nofun
  | _ =>
    dsimp only at h
    split_ifs at h

/-- A value in quotes begins at its opening quote, and goes on up to the next one. -/
theorem next_eq_quoted {backslash : Bool} (h : next dotted place c = quoted backslash) :
    (place = valueBegin ∧ c = ascii '"' ∧ backslash = false) ∨
      ((∃ b, place = quoted b) ∧ (c ≠ 0 ∧ c ≠ ascii '"') ∧
        backslash = decide (c = ascii '\\')) := by
  unfold next at h
  -- only at the start of a value does a quote open it
  cases place with
  | valueBegin =>
    dsimp only at h
    by_cases hquote : c = ascii '"'
    · rw [if_pos hquote] at h
      exact .inl ⟨rfl, hquote, (LinkPlace.quoted.inj h).symm⟩
    · rw [if_neg hquote] at h
      split_ifs at h
  | quoted b =>
    dsimp only at h
    by_cases hquote : c = ascii '"'
    · rw [if_pos hquote] at h
      split_ifs at h
    · rw [if_neg hquote] at h
      by_cases hzero : c = 0
      · rw [if_pos hzero] at h
        exact absurd h nofun
      · rw [if_neg hzero] at h
        exact .inr ⟨⟨b, rfl⟩, ⟨hzero, hquote⟩, (LinkPlace.quoted.inj h).symm⟩
  | skipped => exact absurd h nofun
  | done => exact absurd h nofun
  | escaped => exact absurd h nofun
  | _ =>
    dsimp only at h
    split_ifs at h

/-- Behind the closing bracket a character that begins no attribute is read as between links, unless
it is hidden. -/
theorem next_behind (hidden : Bool) (hc : c ≠ ascii ';') :
    next dotted (behind hidden) c = next dotted between (if hidden = true then 0 else c) := by
  have hbehind : next dotted (behind hidden) c =
      if c = ascii '<' ∧ hidden = false then uri true else between := by
    unfold next
    exact if_neg hc
  rw [hbehind]
  cases hidden with
  | true => exact if_neg fun h => absurd h.2 nofun
  | false =>
    by_cases hopen : c = ascii '<'
    · rw [if_pos ⟨hopen, rfl⟩, if_neg nofun, hopen]
      rfl
    · rw [if_neg fun h => hopen h.1, if_neg nofun]
      unfold next
      exact (if_neg hopen).symm

/-- What the scan has met when it ends at an escaped quote: a value of the content, or the one that
it was in. -/
theorem scan_eq_escaped (h : scan dotted place content = escaped) (hplace : place ≠ escaped) :
    (∃ front inner rest,
      content = front ++ ascii '"' :: (inner ++ ascii '\\' :: ascii '"' :: rest) ∧
        scan dotted place front = valueBegin ∧ ∀ c ∈ inner, c ≠ 0 ∧ c ≠ ascii '"') ∨
    ∃ backslash, place = quoted backslash ∧
      ((backslash = true ∧ ∃ rest, content = ascii '"' :: rest) ∨
        ∃ inner rest, content = inner ++ ascii '\\' :: ascii '"' :: rest ∧
          ∀ c ∈ inner, c ≠ 0 ∧ c ≠ ascii '"') := by
  -- induction on the content; the places are those of the scan
  induction content generalizing place with
  | nil => exact absurd h hplace
  | cons c content ih =>
    rw [scan_cons] at h
    -- the place is reached with this character, or in the rest
    by_cases hmet : next dotted place c = escaped
    · rcases next_eq_escaped hmet with hbefore | ⟨hquoted, hc⟩
      · exact absurd hbefore hplace
      · exact .inr ⟨true, hquoted, .inl ⟨rfl, content, by rw [hc]⟩⟩
    · rcases ih h hmet with ⟨front, inner, rest, hcontent, hfront, hinner⟩ |
        ⟨backslash, hquoted, hquote⟩
      · exact .inl ⟨c :: front, inner, rest, by rw [hcontent]; rfl, hfront, hinner⟩
      · rcases next_eq_quoted hquoted with ⟨hstart, hc, hfalse⟩ | ⟨⟨b, hb⟩, hc, hback⟩
        · -- the character is the opening quote
          rcases hquote with ⟨htrue, -⟩ | ⟨inner, rest, hcontent, hinner⟩
          · exact absurd (hfalse.symm.trans htrue) nofun
          · exact .inl ⟨[], inner, rest, by rw [hc, hcontent]; rfl, hstart, hinner⟩
        · -- the character is one of the value
          rcases hquote with ⟨htrue, rest, hcontent⟩ | ⟨inner, rest, hcontent, hinner⟩
          · rw [htrue] at hback
            have hbackslash := of_decide_eq_true hback.symm
            exact .inr ⟨b, hb, .inr ⟨[], rest, by rw [hbackslash, hcontent]; rfl, nofun⟩⟩
          · refine .inr ⟨b, hb, .inr ⟨c :: inner, rest, by rw [hcontent]; rfl, ?_⟩⟩
            intro d hd
            rcases List.mem_cons.1 hd with rfl | hd
            · exact hc
            · exact hinner d hd

/-- The characters of a value in quotes. -/
theorem scan_inner {inner : List UInt8} (hinner : ∀ c ∈ inner, c ≠ 0 ∧ c ≠ ascii '"')
    (backslash : Bool) : ∃ b, scan dotted (quoted backslash) inner = quoted b := by
  induction inner generalizing backslash with
  | nil => exact ⟨backslash, rfl⟩
  | cons c inner ih =>
    obtain ⟨hzero, hquote⟩ := hinner c List.mem_cons_self
    have hnext : next dotted (quoted backslash) c = quoted (c = ascii '\\') := by
      unfold next
      dsimp only
      rw [if_neg hquote, if_neg hzero]
    rw [scan_cons, hnext]
    exact ih (fun d hd => hinner d (List.mem_cons_of_mem c hd)) _

end LinkPlace

/-- The scan meets an escaped quote exactly when there is one. -/
theorem hasEscapedQuote_iff (dotted : Bool) (content : List UInt8) :
    HasEscapedQuote dotted content ↔ scan dotted between content = escaped := by
  constructor
  · rintro ⟨front, inner, rest, rfl, hfront, hinner⟩
    obtain ⟨b, hb⟩ := @scan_inner dotted _ hinner false
    have hopen : next dotted valueBegin (ascii '"') = quoted false := by
      unfold next
      exact if_pos rfl
    have hback : next dotted (quoted b) (ascii '\\') = quoted true := by
      unfold next
      exact (if_neg (by decide)).trans (if_neg (by decide))
    have hmet : next dotted (quoted true) (ascii '"') = escaped := by
      unfold next
      exact if_pos rfl
    rw [scan_append, hfront, scan_cons, hopen, scan_append, hb, scan_cons, hback, scan_cons, hmet,
      scan_escaped]
  · intro h
    rcases scan_eq_escaped h nofun with hmet | ⟨b, hb, -⟩
    · exact hmet
    · exact absurd hb nofun

/-! ## The scan in a buffer -/

namespace LinkPlace

variable {dotted : Bool} {buffer buffer' : List UInt8} {place : LinkPlace} {i j : ℕ}

/-- The scan over the characters from an offset on. -/
def scanFrom (dotted : Bool) (buffer : List UInt8) : LinkPlace → ℕ → ℕ → LinkPlace
  | place, _, 0 => place
  | place, i, n + 1 => scanFrom dotted buffer (next dotted place (charAt buffer i)) (i + 1) n

/-- From the offset on, the scan meets an escaped quote. -/
def Meets (dotted : Bool) (buffer : List UInt8) (place : LinkPlace) (i : ℕ) : Prop :=
  ∃ n, scanFrom dotted buffer place i n = escaped

theorem meets_escaped (dotted : Bool) (buffer : List UInt8) (i : ℕ) :
    Meets dotted buffer escaped i := ⟨0, rfl⟩

/-- One character further. -/
theorem meets_next : Meets dotted buffer place i ↔
    Meets dotted buffer (next dotted place (charAt buffer i)) (i + 1) := by
  constructor
  · rintro ⟨n, hn⟩
    cases n with
    | zero =>
      have hplace : place = escaped := hn
      rw [hplace]
      exact meets_escaped dotted buffer (i + 1)
    | succ n => exact ⟨n, hn⟩
  · rintro ⟨n, hn⟩
    exact ⟨n + 1, hn⟩

/-- What the scan meets is in the characters from the offset on. -/
theorem meets_congr (h : ∀ k, i ≤ k → charAt buffer' k = charAt buffer k) :
    Meets dotted buffer' place i ↔ Meets dotted buffer place i := by
  have hscan (n : ℕ) : scanFrom dotted buffer' place i n = scanFrom dotted buffer place i n := by
    induction n generalizing place i with
    | zero => rfl
    | succ n ih =>
      unfold scanFrom
      rw [h i (le_refl i), ih fun k hk => h k (Nat.le_of_succ_le hk)]
  unfold Meets
  simp only [hscan]

/-- A terminator in front of the offset is not read. -/
theorem meets_set {buffer : List UInt8} {e k : ℕ} (hk : e < k) :
    Meets dotted (buffer.set e 0) place k ↔ Meets dotted buffer place k :=
  meets_congr fun n hn => charAt_set_of_ne (by omega) 0

/-- The scan passes over characters that leave it where it is. -/
theorem meets_pass (hij : i ≤ j)
    (h : ∀ k, i ≤ k → k < j → next dotted place (charAt buffer k) = place) :
    Meets dotted buffer place i ↔ Meets dotted buffer place j := by
  induction j, hij using Nat.le_induction with
  | base => rfl
  | succ j hij ih =>
    rw [ih fun k hk hlt => h k hk (Nat.lt_succ_of_lt hlt), meets_next,
      h j hij (Nat.lt_succ_self j)]

/-- A terminator does not lead to an escaped quote. -/
theorem next_zero (hplace : place ≠ escaped) : next dotted place 0 ≠ escaped := by
  intro hmet
  rcases next_eq_escaped hmet with hbefore | ⟨-, hquote⟩
  · exact hplace hbefore
  · exact absurd hquote (by decide)

/-- Behind the content there is nothing to meet. -/
theorem not_meets_end (hplace : place ≠ escaped) (h : ∀ k, i ≤ k → charAt buffer k = 0) :
    ¬Meets dotted buffer place i := by
  rintro ⟨n, hn⟩
  induction n generalizing place i with
  | zero => exact hplace hn
  | succ n ih =>
    unfold scanFrom at hn
    rw [h i (le_refl i)] at hn
    exact ih (next_zero hplace) (fun k hk => h k (Nat.le_of_succ_le hk)) hn

/-- Behind the last link there is nothing to meet. -/
theorem not_meets_done : ¬Meets dotted buffer done i := by
  rintro ⟨n, hn⟩
  induction n generalizing i with
  | zero => exact absurd hn nofun
  | succ n ih => exact ih hn

/-- Over the whole content it is the scan of the content. -/
theorem meets_iff_scan (dotted : Bool) {content : List UInt8} (h : buffer.drop i = content)
    (place : LinkPlace) :
    Meets dotted buffer place i ↔ scan dotted place content = escaped := by
  induction content generalizing place i with
  | nil =>
    have hend (k : ℕ) (hk : i ≤ k) : charAt buffer k = 0 := by
      have hlen := List.drop_eq_nil_iff.1 h
      exact List.getD_eq_default _ _ (hlen.trans hk)
    constructor
    · intro hmeets
      by_contra hplace
      exact not_meets_end hplace hend hmeets
    · intro hplace
      have hescaped : place = escaped := hplace
      rw [hescaped]
      exact meets_escaped dotted buffer i
  | cons c content ih =>
    have hc : charAt buffer i = c := charAt_add h 0
    rw [meets_next, hc, scan_cons]
    exact ih (drop_add h 1) _

/-- In a value in quotes the scan gets to the next quote, and knows what stands in front of it. -/
theorem meets_quoted (hij : i ≤ j)
    (h : ∀ k, i ≤ k → k < j → charAt buffer k ≠ 0 ∧ charAt buffer k ≠ ascii '"') :
    Meets dotted buffer (quoted (charAt buffer (i - 1) = ascii '\\')) i ↔
      Meets dotted buffer (quoted (charAt buffer (j - 1) = ascii '\\')) j := by
  induction j, hij using Nat.le_induction with
  | base => rfl
  | succ j hij ih =>
    obtain ⟨hzero, hquote⟩ := h j hij (Nat.lt_succ_self j)
    rw [ih fun k hk hlt => h k hk (Nat.lt_succ_of_lt hlt), meets_next]
    unfold next
    dsimp only
    rw [if_neg hquote, if_neg hzero, Nat.add_sub_cancel]

/-- In the brackets it gets to the closing one. -/
theorem meets_uri (hij : i ≤ j)
    (h : ∀ k, i ≤ k → k < j → charAt buffer k ≠ 0 ∧ charAt buffer k ≠ ascii '>') :
    Meets dotted buffer (uri true) i ↔ Meets dotted buffer (uri (j = i)) j := by
  have hnext (empty : Bool) (k : ℕ) (hk : i ≤ k) (hlt : k < j) :
      next dotted (uri empty) (charAt buffer k) = uri false := by
    unfold next
    dsimp only
    rw [if_neg (h k hk hlt).2, if_neg (h k hk hlt).1]
  rcases Nat.eq_or_lt_of_le hij with rfl | hlt
  · rw [decide_eq_true rfl]
  · rw [meets_next, hnext true i (le_refl i) hlt, decide_eq_false (Nat.ne_of_gt hlt)]
    exact meets_pass hlt fun k hk hkj => hnext false k (Nat.le_of_succ_le hk) hkj

/-- Behind the closing quote a comma ends the link, a semicolon begins an attribute, and two
characters are passed over otherwise. -/
theorem meets_closed : Meets dotted buffer closed i ↔
    if charAt buffer i = ascii ',' then Meets dotted buffer between (i + 1)
    else Meets dotted buffer key (if charAt buffer i = ascii ';' then i + 1 else i + 1 + 1) := by
  by_cases hcomma : charAt buffer i = ascii ','
  · have hnext : next dotted closed (charAt buffer i) = between := by
      unfold next
      exact if_pos hcomma
    rw [if_pos hcomma, meets_next, hnext]
  · rw [if_neg hcomma]
    by_cases hsemicolon : charAt buffer i = ascii ';'
    · have hnext : next dotted closed (charAt buffer i) = key := by
        unfold next
        exact (if_neg hcomma).trans (if_pos hsemicolon)
      rw [if_pos hsemicolon, meets_next, hnext]
    · have hnext : next dotted closed (charAt buffer i) = skipped := by
        unfold next
        exact (if_neg hcomma).trans (if_neg hsemicolon)
      have hskip : Meets dotted buffer skipped (i + 1) ↔ Meets dotted buffer key (i + 1 + 1) :=
        meets_next
      rw [if_neg hsemicolon, meets_next, hnext, hskip]

end LinkPlace

/-! ## What the parser stores -/

/-- Line feeds are replaced up to the terminator, and nothing behind it. -/
theorem getD_convertLineFeeds {l : List UInt8} {z k : ℕ} (hz : l.getD z 0 = 0) (hk : z ≤ k) :
    (convertLineFeeds l).getD k 0 = l.getD k 0 := by
  induction l generalizing z k with
  | nil => rfl
  | cons b l ih =>
    unfold convertLineFeeds
    by_cases hb : b = 0
    · rw [if_pos hb]
    · rw [if_neg hb]
      cases z with
      | zero => exact absurd hz hb
      | succ z =>
        obtain ⟨k, rfl⟩ := Nat.exists_eq_succ_of_ne_zero (Nat.ne_of_gt (Nat.lt_of_lt_of_le z.succ_pos hk))
        exact ih hz (Nat.le_of_succ_le_succ hk)

/-- The value of an attribute is converted where it stands. -/
theorem charAt_converted {buffer : List UInt8} {value z k : ℕ} (hz : charAt buffer z = 0)
    (hvalue : value ≤ z) (hk : k < value ∨ z ≤ k) :
    charAt (overwrite buffer value (convertLineFeeds (buffer.drop value))) k = charAt buffer k := by
  by_cases hle : value ≤ buffer.length
  · rw [charAt_overwrite hle]
    by_cases hinside : value ≤ k ∧ k < value + (convertLineFeeds (buffer.drop value)).length
    · obtain ⟨n, rfl⟩ := Nat.exists_eq_add_of_le hvalue
      obtain ⟨m, rfl⟩ := Nat.exists_eq_add_of_le hinside.1
      rw [charAt_add rfl] at hz
      rw [if_pos hinside, Nat.add_sub_cancel_left, charAt_add rfl]
      exact getD_convertLineFeeds hz (by omega)
    · rw [if_neg hinside]
  · -- there is no value in the buffer
    have hnil : buffer.drop value = [] := List.drop_eq_nil_of_le (Nat.le_of_not_le hle)
    have hsame := overwrite_self buffer value
    rw [hnil] at hsame ⊢
    rw [show convertLineFeeds [] = [] from rfl, hsame]

/-- The conversion of the line feeds of a value does not make the buffer shorter. -/
theorem le_length_converted (buffer : List UInt8) (value : ℕ) :
    buffer.length ≤ (overwrite buffer value (convertLineFeeds (buffer.drop value))).length := by
  by_cases hle : value ≤ buffer.length
  · exact le_length_overwrite hle
  · have hsame := overwrite_self buffer value
    rw [List.drop_eq_nil_of_le (Nat.le_of_not_le hle)] at hsame ⊢
    rw [show convertLineFeeds [] = [] from rfl, hsame]

namespace LinkParser

variable {c : ListSettings} {p : LinkParser} {i j k : ℕ}

/-- The buffer is at least as long as the content, and there is nothing but terminators behind it. -/
structure Ended (p : LinkParser) : Prop where
  stop_le : p.stop ≤ p.buffer.length
  zero : ∀ k, p.stop ≤ k → charAt p.buffer k = 0

/-- The reference of the link ends in front of the offset. -/
def LinkBefore (p : LinkParser) (i : ℕ) : Prop :=
  ∃ j, p.link.uri ≤ j ∧ j < p.stop ∧ charAt p.buffer j = 0 ∧ j < i

/-- While a link is read its reference stands in front of what is still to be read. -/
structure Ok (p : LinkParser) : Prop extends p.Ended where
  attributes : p.phase = .attributes → ∃ i, p.iter = some i ∧ p.LinkBefore i
  quoted : ∀ key value, p.phase = .quoted key value →
    ∃ i, p.iter = some i ∧ value ≤ i ∧ p.LinkBefore value

/-- What the scan will meet in the rest of the content, as it is by now. -/
def Meets (c : ListSettings) (p : LinkParser) : Prop :=
  match p.phase, p.iter with
  | .finished, _ => False
  | _, none => False
  | .content, some i => LinkPlace.Meets c.makesDot p.buffer between i
  | .attributes, some i => LinkPlace.Meets c.makesDot p.buffer key (i + 1)
  | .quoted _ _, some i =>
    LinkPlace.Meets c.makesDot p.buffer (quoted (charAt p.buffer (i - 1) = ascii '\\')) i

/-- Between links. -/
theorem meets_content (hphase : p.phase = .content) (hiter : p.iter = some i) :
    p.Meets c ↔ LinkPlace.Meets c.makesDot p.buffer between i := by
  unfold Meets
  rw [hphase, hiter]

/-- In front of an attribute, whose first character is passed over. -/
theorem meets_attributes (hphase : p.phase = .attributes) (hiter : p.iter = some i) :
    p.Meets c ↔ LinkPlace.Meets c.makesDot p.buffer LinkPlace.key (i + 1) := by
  unfold Meets
  rw [hphase, hiter]

/-- In a value in quotes. -/
theorem meets_inQuotes {key value : ℕ} (hphase : p.phase = .quoted key value)
    (hiter : p.iter = some i) :
    p.Meets c ↔ LinkPlace.Meets c.makesDot p.buffer
      (LinkPlace.quoted (charAt p.buffer (i - 1) = ascii '\\')) i := by
  unfold Meets
  rw [hphase, hiter]

/-- Without a pointer nothing is read any more. -/
theorem not_meets_none (hiter : p.iter = none) : ¬p.Meets c := by
  unfold Meets
  rw [hiter]
  cases p.phase with
  | _ => exact not_false

/-- A character that becomes a terminator. -/
theorem Ended.set (h : p.Ended) (i : ℕ) (phase : ListPhase) (iter : Option ℕ) (link : Link) :
    Ended { p with phase := phase, buffer := p.buffer.set i 0, iter := iter, link := link } where
  stop_le := by
    rw [List.length_set]
    exact h.stop_le
  zero k hk := charAt_set_zero (.inr (h.zero k hk))

/-- A character that is no terminator is one of the content. -/
theorem Ended.lt_stop (h : p.Ended) (hi : charAt p.buffer i ≠ 0) : i < p.stop := by
  by_contra hle
  exact hi (h.zero i (Nat.le_of_not_lt hle))

/-- Behind a reference that is shown the buffer stays as it is, but for the terminator of a dot. -/
theorem charAt_showLink (h : p.Ended) (huri : p.link.uri ≤ j) (hstop : j < p.stop)
    (hzero : charAt p.buffer j = 0) (hk : j < k) :
    charAt (p.showLink c).buffer k =
      if k = j + 1 ∧ p.link.uri = j ∧ c.makesDot = true then 0 else charAt p.buffer k := by
  have hbuffer : (p.showLink c).buffer =
      if c.redirectUrl ≠ [] ∧ urlIsAbsolute (textAt p.buffer p.link.uri) = false then p.buffer
      else overwrite p.buffer p.link.uri (stripReference (urlShortenReference c.originalUrl
        (if c.redirectUrl ≠ [] ∧ urlIsAbsolute (textAt p.buffer p.link.uri) = false then
          (urlChange c.redirectUrl (textAt p.buffer p.link.uri)).url
        else textAt p.buffer p.link.uri))) := rfl
  have hle : p.link.uri ≤ p.buffer.length := huri.trans (hstop.le.trans h.stop_le)
  have htext := textAt_length_le_of_zero hzero huri
  rw [hbuffer]
  -- a reference that is adjusted to the redirection is not shortened, so nothing is stored for it
  by_cases hadjusted : c.redirectUrl ≠ [] ∧ urlIsAbsolute (textAt p.buffer p.link.uri) = false
  · have hnodot : c.makesDot = false := decide_eq_false fun hdot => hadjusted.1 hdot.1
    rw [if_pos hadjusted, hnodot, if_neg fun hdot => absurd hdot.2.2 nofun]
  · rw [if_neg hadjusted, if_neg hadjusted, charAt_overwrite hle, length_stripReference]
    by_cases hempty : textAt p.buffer p.link.uri = []
    · -- there is one byte for the reference: where its terminator was
      have hredirect : c.redirectUrl = [] := by
        by_contra hne
        rw [hempty] at hadjusted
        exact hadjusted ⟨hne, rfl⟩
      rw [hempty]
      rcases urlShortenReference_nil c.originalUrl with hnone | hdot
      · have hnodot : c.makesDot = false := decide_eq_false fun hdot => hdot.2 hnone
        have hone : ([0] : List UInt8).length = 1 := rfl
        rw [hnone, hnodot, hone, if_neg (by omega), if_neg fun hdot => absurd hdot.2.2 nofun]
      · have hmakes : c.makesDot = true := by
          apply decide_eq_true
          rw [hdot]
          exact ⟨hredirect, by decide⟩
        have htwo : ([ascii '.', 0] : List UInt8).length = 2 := rfl
        rw [hdot, hmakes, htwo]
        by_cases hbehind : k = j + 1 ∧ p.link.uri = j
        · have hstripped : charAt (stripReference [ascii '.', 0]) 1 = 0 := by decide
          rw [if_pos (by omega), if_pos ⟨hbehind.1, hbehind.2, rfl⟩,
            show k - p.link.uri = 1 by omega, hstripped]
        · rw [if_neg (by omega), if_neg fun hdot => hbehind ⟨hdot.1, hdot.2.1⟩]
    · have hpos := List.length_pos_iff.2 hempty
      have hlen := length_urlShortenReference c.originalUrl hempty
      rw [hlen, if_neg (by omega), if_neg (by omega)]

/-- When a link is shown, the end of the content stays where it is. -/
theorem Ended.showLink (h : p.Ended) (hlink : p.LinkBefore i) : (p.showLink c).Ended := by
  obtain ⟨j, huri, hstop, hzero, -⟩ := hlink
  have hle : p.link.uri ≤ p.buffer.length := huri.trans (hstop.le.trans h.stop_le)
  have hlen : p.buffer.length ≤ (p.showLink c).buffer.length := by
    unfold LinkParser.showLink
    dsimp only
    split_ifs
    · exact le_refl _
    · exact le_length_overwrite hle
  refine ⟨h.stop_le.trans hlen, ?_⟩
  intro k hk
  have hk' : p.stop ≤ k := hk
  rw [charAt_showLink h huri hstop hzero (by omega), h.zero k hk']
  exact ite_self 0

/-- Behind a link the parser is in order. -/
theorem Ended.showLink_ok (h : p.Ended) (hlink : p.LinkBefore i) : (p.showLink c).Ok where
  toEnded := h.showLink hlink
  attributes := nofun
  quoted := nofun

/-- From the offset on, the buffer is what it was before the link was shown. -/
theorem meets_showLink (h : p.Ended) (hlink : p.LinkBefore j) (hj : j < i)
    (hiter : p.iter = some i) :
    (p.showLink c).Meets c ↔ LinkPlace.Meets c.makesDot p.buffer between i := by
  obtain ⟨e, huri, hstop, hzero, he⟩ := hlink
  rw [meets_content (showLink_rest c p).2 (show (p.showLink c).iter = some i from hiter)]
  apply meets_congr
  intro k hk
  rw [charAt_showLink h huri hstop hzero (by omega), if_neg (by omega)]

/-- An attribute is not the reference. -/
theorem setAttribute_uri (l : Link) (key : List UInt8) (value : ℕ) :
    (l.setAttribute key value).uri = l.uri := by
  unfold Link.setAttribute
  split_ifs
  all_goals rfl

/-- Behind a value, with `z` where its terminator has been stored: a comma ends the link, a
semicolon begins the next attribute, and everything else is skipped. -/
theorem takeValue_meets (h : p.Ended) (key : ℕ) {value z iter : ℕ} (endchar : UInt8)
    (hlink : p.LinkBefore value) (hvalue : value ≤ z) (hz : charAt p.buffer z = 0)
    (hiter : z < iter) :
    (p.takeValue c key value endchar iter).Ok ∧
      ((p.takeValue c key value endchar iter).Meets c ↔
        if endchar = ascii ',' then LinkPlace.Meets c.makesDot p.buffer between iter
        else LinkPlace.Meets c.makesDot p.buffer LinkPlace.key
          (if endchar = ascii ';' then iter else iter + 1)) := by
  -- the conversion of the line feeds keeps what is outside of the value
  have hkept (k : ℕ) (hk : k < value ∨ z ≤ k ∨ charAt p.buffer k = 0) :
      charAt (overwrite p.buffer value (convertLineFeeds (p.buffer.drop value))) k =
        charAt p.buffer k := by
    by_cases hbefore : k < value ∨ z ≤ k
    · exact charAt_converted hz hvalue hbefore
    · exact charAt_converted (by tauto) (by omega) (.inr (le_refl k))
  have hlen := le_length_converted p.buffer value
  unfold takeValue
  dsimp only
  -- the buffer with the line feeds of the value, and the link with its attribute
  generalize overwrite p.buffer value (convertLineFeeds (p.buffer.drop value)) = buffer
    at hkept hlen ⊢
  have huri := setAttribute_uri p.link (textAt buffer key) value
  generalize p.link.setAttribute (textAt buffer key) value = link at huri ⊢
  have hended (phase : ListPhase) (i : ℕ) :
      Ended { p with phase := phase, buffer := buffer, link := link, iter := some i } := by
    refine ⟨h.stop_le.trans hlen, ?_⟩
    intro k hk
    have hzero := h.zero k hk
    exact (hkept k (.inr (.inr hzero))).trans hzero
  have hbefore (phase : ListPhase) (i : ℕ) : LinkBefore
      { p with phase := phase, buffer := buffer, link := link, iter := some i } value := by
    obtain ⟨j, hj, hstop, hzero, hlt⟩ := hlink
    exact ⟨j, huri.trans_le hj, hstop, (hkept j (.inl hlt)).trans hzero, hlt⟩
  -- the scan reads the same characters, since those in front have been passed
  have hsame (place : LinkPlace) {i : ℕ} (hi : iter ≤ i) :
      LinkPlace.Meets c.makesDot buffer place i ↔ LinkPlace.Meets c.makesDot p.buffer place i :=
    meets_congr fun k hk => hkept k (.inr (.inl (by omega)))
  by_cases hlast : endchar = ascii ',' ∨ p.stop ≤ iter
  · rw [if_pos hlast]
    refine ⟨(hended _ _).showLink_ok (hbefore _ _), ?_⟩
    rw [meets_showLink (hended _ _) (hbefore _ _) (by omega) rfl, hsame between (le_refl iter)]
    by_cases hcomma : endchar = ascii ','
    · rw [if_pos hcomma]
    · -- the content has ended
      rw [if_neg hcomma]
      have hend (i : ℕ) (hi : iter ≤ i) (k : ℕ) (hk : i ≤ k) : charAt p.buffer k = 0 :=
        h.zero k ((hlast.resolve_left hcomma).trans (hi.trans hk))
      have hbetween : between ≠ escaped := nofun
      have hkey : LinkPlace.key ≠ escaped := nofun
      apply iff_of_false
      · exact not_meets_end hbetween (hend iter (le_refl iter))
      · apply not_meets_end hkey
        apply hend
        split_ifs
        · exact le_refl iter
        · exact Nat.le_succ iter
  · rw [if_neg hlast, if_neg fun hcomma => hlast (.inl hcomma)]
    obtain ⟨j, hj, hstop, hzero, hlt⟩ :=
      hbefore .attributes (if endchar = ascii ';' then iter - 1 else iter)
    refine ⟨⟨hended _ _, fun _ => ⟨_, rfl, j, hj, hstop, hzero, ?_⟩, nofun⟩, ?_⟩
    · split_ifs
      · omega
      · omega
    · show LinkPlace.Meets c.makesDot buffer LinkPlace.key
        ((if endchar = ascii ';' then iter - 1 else iter) + 1) ↔ _
      by_cases hsemicolon : endchar = ascii ';'
      · rw [if_pos hsemicolon, if_pos hsemicolon, Nat.sub_add_cancel (by omega)]
        exact hsame _ (le_refl iter)
      · rw [if_neg hsemicolon, if_neg hsemicolon]
        exact hsame _ (Nat.le_succ iter)

/-- A reference in front of an offset is in front of those behind. -/
theorem LinkBefore.mono (h : p.LinkBefore i) (hij : i ≤ j) : p.LinkBefore j := by
  obtain ⟨e, huri, hstop, hzero, hlt⟩ := h
  exact ⟨e, huri, hstop, hzero, Nat.lt_of_lt_of_le hlt hij⟩

/-- A terminator does no harm to it. -/
theorem LinkBefore.set (h : p.LinkBefore i) (e : ℕ) (phase : ListPhase) (iter : Option ℕ) :
    LinkBefore { p with phase := phase, buffer := p.buffer.set e 0, iter := iter } i := by
  obtain ⟨j, huri, hstop, hzero, hlt⟩ := h
  exact ⟨j, huri, hstop, charAt_set_zero (.inr hzero), hlt⟩

/-- Where the loop over a key stops. -/
theorem keyEnd_stops (buffer : List UInt8) (i : ℕ) :
    (∀ k, i ≤ k → k < keyEnd buffer i → charAt buffer k ≠ 0 ∧ charAt buffer k ≠ ascii '=' ∧
      charAt buffer k ≠ ascii ';' ∧ charAt buffer k ≠ ascii ',') ∧
    (charAt buffer (keyEnd buffer i) = 0 ∨ charAt buffer (keyEnd buffer i) = ascii '=' ∨
      charAt buffer (keyEnd buffer i) = ascii ';' ∨ charAt buffer (keyEnd buffer i) = ascii ',') := by
  unfold keyEnd textAt
  rw [List.takeWhile_takeWhile]
  obtain ⟨hpass, hstop⟩ := takeWhile_stops (fun a => (decide (a ≠ ascii '=' ∧ a ≠ ascii ';' ∧
    a ≠ ascii ',') = true ∧ decide (a ≠ 0) = true)) buffer i
  refine ⟨?_, ?_⟩
  · intro k hi hk
    have hchar := of_decide_eq_true (hpass k hi hk)
    exact ⟨of_decide_eq_true hchar.2, of_decide_eq_true hchar.1⟩
  · rcases hstop with hchar | hend
    · have hchar := of_decide_eq_false hchar
      rw [decide_eq_true_iff, decide_eq_true_iff] at hchar
      tauto
    · exact .inl (List.getD_eq_default _ _ hend)

/-- Where the loop over a value without quotes stops. -/
theorem valueEnd_stops {buffer : List UInt8} {stop : ℕ} (hle : stop ≤ buffer.length) (i : ℕ) :
    (∀ k, i ≤ k → k < valueEnd buffer stop i →
      charAt buffer k ≠ ascii ',' ∧ charAt buffer k ≠ ascii ';') ∧
    (charAt buffer (valueEnd buffer stop i) = ascii ',' ∨
      charAt buffer (valueEnd buffer stop i) = ascii ';' ∨ stop ≤ valueEnd buffer stop i) := by
  -- in front of the end of the content the characters are those of the buffer
  have htake (k : ℕ) (hk : k < stop) : charAt (buffer.take stop) k = charAt buffer k := by
    unfold charAt
    rw [List.getD_eq_getElem?_getD, List.getD_eq_getElem?_getD, List.getElem?_take_of_lt hk]
  -- the loop passes over what is neither comma nor semicolon
  obtain ⟨hpass, hstop⟩ := takeWhile_stops (fun a => a ≠ ascii ',' ∧ a ≠ ascii ';')
    (buffer.take stop) i
  have hlen : (((buffer.take stop).drop i).takeWhile fun a =>
      a ≠ ascii ',' ∧ a ≠ ascii ';').length ≤ stop - i := by
    refine (List.takeWhile_prefix _).length_le.trans ?_
    rw [List.length_drop, List.length_take]
    omega
  unfold valueEnd
  generalize (((buffer.take stop).drop i).takeWhile fun a =>
    a ≠ ascii ',' ∧ a ≠ ascii ';').length = n at *
  refine ⟨?_, ?_⟩
  · intro k hi hk
    have hchar := hpass k hi hk
    rw [htake k (by omega)] at hchar
    exact of_decide_eq_true hchar
  -- it stops at one of the two, or at the end of the content
  · by_cases hend : stop ≤ i + n
    · exact .inr (.inr hend)
    · rcases hstop with hchar | hlong
      · rw [htake _ (by omega)] at hchar
        have hchar := of_decide_eq_false hchar
        tauto
      · rw [List.length_take, Nat.min_eq_left hle] at hlong
        exact absurd hlong hend

/-- A value without quotes. -/
theorem meets_valueBegin (h : p.Ended) (dotted : Bool) {v : ℕ}
    (hquote : charAt p.buffer v ≠ ascii '"') :
    LinkPlace.Meets dotted p.buffer valueBegin v ↔
      if charAt p.buffer (valueEnd p.buffer p.stop v) = ascii ',' then
        LinkPlace.Meets dotted p.buffer between (valueEnd p.buffer p.stop v + 1)
      else LinkPlace.Meets dotted p.buffer LinkPlace.key
        (if charAt p.buffer (valueEnd p.buffer p.stop v) = ascii ';' then
          valueEnd p.buffer p.stop v + 1 else valueEnd p.buffer p.stop v + 1 + 1) := by
  -- where the value ends, and what stands there
  obtain ⟨hpass, hstop⟩ := valueEnd_stops h.stop_le v
  have hle := le_valueEnd p.buffer p.stop v
  have hstart : next dotted valueBegin (charAt p.buffer v) =
      next dotted LinkPlace.value (charAt p.buffer v) := by
    unfold next
    exact if_neg hquote
  -- no character of the value leads to another place
  have hvalue (k : ℕ) (hk : v ≤ k) (hlt : k < valueEnd p.buffer p.stop v) :
      next dotted LinkPlace.value (charAt p.buffer k) = LinkPlace.value := by
    unfold next
    dsimp only
    rw [if_neg (hpass k hk hlt).1, if_neg (hpass k hk hlt).2]
  rw [meets_next, hstart, ← meets_next, meets_pass hle hvalue]
  generalize valueEnd p.buffer p.stop v = r at hstop ⊢
  -- a comma, a semicolon, or the end of the content
  by_cases hcomma : charAt p.buffer r = ascii ','
  · have hnext : next dotted LinkPlace.value (charAt p.buffer r) = between := by
      unfold next
      exact if_pos hcomma
    rw [if_pos hcomma, meets_next, hnext]
  · by_cases hsemicolon : charAt p.buffer r = ascii ';'
    · have hnext : next dotted LinkPlace.value (charAt p.buffer r) = LinkPlace.key := by
        unfold next
        exact (if_neg hcomma).trans (if_pos hsemicolon)
      rw [if_neg hcomma, if_pos hsemicolon, meets_next, hnext]
    · -- the value goes on to the end of the content
      have hend := (hstop.resolve_left hcomma).resolve_left hsemicolon
      have hplaces : LinkPlace.value ≠ escaped ∧ LinkPlace.key ≠ escaped := ⟨nofun, nofun⟩
      rw [if_neg hcomma, if_neg hsemicolon]
      apply iff_of_false
      · exact not_meets_end hplaces.1 fun k hk => h.zero k (hend.trans hk)
      · exact not_meets_end hplaces.2 fun k hk => h.zero k (by omega)

/-- A value without quotes is taken, with a terminator behind it. -/
theorem takePlain_meets (h : p.Ended) (key : ℕ) {v : ℕ} (hlink : p.LinkBefore v)
    (hquote : charAt p.buffer v ≠ ascii '"') :
    (takeValue c key v (charAt p.buffer (valueEnd p.buffer p.stop v))
        (valueEnd p.buffer p.stop v + 1)
        { p with buffer := p.buffer.set (valueEnd p.buffer p.stop v) 0 }).Ok ∧
      ((takeValue c key v (charAt p.buffer (valueEnd p.buffer p.stop v))
          (valueEnd p.buffer p.stop v + 1)
          { p with buffer := p.buffer.set (valueEnd p.buffer p.stop v) 0 }).Meets c ↔
        LinkPlace.Meets c.makesDot p.buffer valueBegin v) := by
  have hvalue := meets_valueBegin h c.makesDot hquote
  have hr := le_valueEnd p.buffer p.stop v
  generalize valueEnd p.buffer p.stop v = r at hvalue hr ⊢
  have hended : Ended { p with buffer := p.buffer.set r 0 } := h.set r p.phase p.iter p.link
  obtain ⟨hok, hmeets⟩ := @takeValue_meets c _ hended key v r (r + 1) (charAt p.buffer r)
    (hlink.set r p.phase p.iter) hr (charAt_set_zero (.inl rfl)) (Nat.lt_succ_self r)
  refine ⟨hok, hmeets.trans ?_⟩
  rw [hvalue]
  dsimp only
  rw [meets_set (Nat.lt_succ_self r), meets_set]
  split_ifs
  · exact Nat.lt_succ_self r
  · omega

/-! ## The steps of the parser -/

/-- One attribute. -/
theorem attributeStep_meets (h : p.Ended) (hphase : p.phase = .attributes)
    (hlink : p.LinkBefore i) :
    (p.attributeStep c i).Ok ∧
      ((p.attributeStep c i).Meets c ↔
        LinkPlace.Meets c.makesDot p.buffer LinkPlace.key (i + 1)) := by
  -- where the key ends, and what stands there
  have he := le_keyEnd p.buffer (i + 1)
  obtain ⟨hpass, hstop⟩ := keyEnd_stops p.buffer (i + 1)
  have hkey (k : ℕ) (hk : i + 1 ≤ k) (hlt : k < keyEnd p.buffer (i + 1)) :
      next c.makesDot LinkPlace.key (charAt p.buffer k) = LinkPlace.key := by
    obtain ⟨hzero, hequals, -, hcomma⟩ := hpass k hk hlt
    unfold next
    dsimp only
    rw [if_neg hequals, if_neg (by tauto)]
  rw [meets_pass he hkey]
  unfold attributeStep
  dsimp only
  generalize keyEnd p.buffer (i + 1) = e at he hstop ⊢
  have hlink' : p.LinkBefore e := hlink.mono (by omega)
  -- the next attribute, a value, or the end of the link
  by_cases hsemicolon : charAt p.buffer e = ascii ';'
  · have hnext : next c.makesDot LinkPlace.key (charAt p.buffer e) = LinkPlace.key := by
      rw [hsemicolon]
      rfl
    rw [if_pos hsemicolon, meets_next, hnext]
    refine ⟨⟨h.set e _ _ _, fun _ => ⟨e, rfl, hlink'.set e _ _⟩, ?_⟩, ?_⟩
    · intro key value hquoted
      exact absurd (hphase.symm.trans hquoted) nofun
    · rw [@meets_attributes c { p with buffer := p.buffer.set e 0, iter := some e } e hphase rfl]
      exact meets_set (Nat.lt_succ_self e)
  · rw [if_neg hsemicolon]
    by_cases hlast : charAt p.buffer e = 0 ∨ charAt p.buffer e = ascii ','
    · -- the link ends with the key, and the character is read once more
      have hnext : next c.makesDot LinkPlace.key (charAt p.buffer e) = between ∧
          next c.makesDot between (charAt p.buffer e) = between := by
        rcases hlast with hzero | hcomma
        · rw [hzero]
          exact ⟨rfl, rfl⟩
        · rw [hcomma]
          exact ⟨rfl, rfl⟩
      have hread : LinkPlace.Meets c.makesDot p.buffer between e ↔
          LinkPlace.Meets c.makesDot p.buffer between (e + 1) := by
        rw [meets_next, hnext.2]
      have hended : Ended { p with iter := some e } := ⟨h.stop_le, h.zero⟩
      rw [if_pos hlast, meets_next, hnext.1, ← hread]
      exact ⟨hended.showLink_ok hlink, meets_showLink hended hlink (by omega) rfl⟩
    · have hequals : charAt p.buffer e = ascii '=' := by tauto
      have hnext : next c.makesDot LinkPlace.key (charAt p.buffer e) = valueBegin := by
        rw [hequals]
        rfl
      rw [if_neg hlast, meets_next, hnext, ← meets_set (Nat.lt_succ_self e)]
      have hended (phase : ListPhase) (iter : Option ℕ) :
          Ended { p with phase := phase, buffer := p.buffer.set e 0, iter := iter } :=
        h.set e phase iter p.link
      by_cases hquote : charAt (p.buffer.set e 0) (e + 1) = ascii '"'
      · have hopen : next c.makesDot valueBegin (charAt (p.buffer.set e 0) (e + 1)) =
            LinkPlace.quoted (charAt (p.buffer.set e 0) (e + 1) = ascii '\\') := by
          rw [hquote]
          rfl
        rw [if_pos hquote, meets_next, hopen]
        refine ⟨⟨hended _ _, nofun, ?_⟩, Iff.rfl⟩
        intro key value hquoted
        obtain ⟨-, rfl⟩ := ListPhase.quoted.inj hquoted
        exact ⟨_, rfl, le_refl _, (hlink'.mono (by omega)).set e _ _⟩
      · rw [if_neg hquote]
        exact takePlain_meets (hended p.phase p.iter) (i + 1)
          ((hlink'.mono (Nat.le_succ e)).set e p.phase p.iter) hquote

/-- One iteration of the loop that looks for the closing quote, which is not escaped. -/
theorem quotedStep_meets (h : p.Ended) {key value : ℕ} (hphase : p.phase = .quoted key value)
    (hiter : p.iter = some i) (hvalue : value ≤ i) (hlink : p.LinkBefore value)
    (hescaped : ¬p.AtEscapedQuote) :
    (p.quotedStep c key value i).Ok ∧ ((p.quotedStep c key value i).Meets c ↔ p.Meets c) := by
  rw [meets_inQuotes hphase hiter]
  unfold quotedStep
  cases hquote : findChar p.buffer (ascii '"') i with
  | none =>
    dsimp only
    have hended : Ended { p with iter := none } := ⟨h.stop_le, h.zero⟩
    have hbefore : LinkBefore { p with iter := none } value := hlink
    refine ⟨hended.showLink_ok hbefore, ?_⟩
    -- there is no quote in front of the terminator
    obtain ⟨e, hie, hzero, hpass⟩ := findChar_none hquote
    apply iff_of_false
    · exact not_meets_none rfl
    · rw [meets_quoted hie hpass, meets_next, hzero]
      exact not_meets_done
  | some q =>
    obtain ⟨hq, hiq⟩ := charAt_findChar hquote
    have hplain : charAt p.buffer (q - 1) ≠ ascii '\\' := fun hback =>
      hescaped ⟨key, value, i, q, hphase, hiter, hquote, hback⟩
    have hclose : next c.makesDot (LinkPlace.quoted (charAt p.buffer (q - 1) = ascii '\\'))
        (charAt p.buffer q) = closed := by
      rw [decide_eq_false hplain, hq]
      rfl
    dsimp only
    rw [if_neg hplain, meets_quoted hiq fun k hk hlt => findChar_before hquote hk hlt, meets_next,
      hclose]
    have hended : Ended { p with buffer := p.buffer.set q 0 } := h.set q p.phase p.iter p.link
    obtain ⟨hok, hmeets⟩ := @takeValue_meets c _ hended key value q (q + 2)
      (charAt p.buffer (q + 1)) (hlink.set q p.phase p.iter) (hvalue.trans hiq)
      (charAt_set_zero (.inl rfl)) (by omega)
    refine ⟨hok, hmeets.trans ?_⟩
    dsimp only
    rw [meets_set (show q < q + 2 by omega), meets_set]
    · exact meets_closed.symm
    · split_ifs
      · omega
      · omega

/-- One iteration of the outer loop. -/
theorem contentStep_meets (h : p.Ended) (hphase : p.phase = .content) :
    (p.contentStep c i).Ok ∧
      ((p.contentStep c i).Meets c ↔ LinkPlace.Meets c.makesDot p.buffer between i) := by
  rw [meets_next]
  unfold contentStep
  by_cases hopen : charAt p.buffer i = ascii '<'
  · have hnext : next c.makesDot between (charAt p.buffer i) = LinkPlace.uri true := by
      rw [hopen]
      rfl
    rw [if_pos hopen, hnext]
    cases hclose : findChar p.buffer (ascii '>') (i + 1) with
    | none =>
      obtain ⟨e, hie, hzero, hpass⟩ := findChar_none hclose
      refine ⟨⟨⟨h.stop_le, h.zero⟩, nofun, nofun⟩, ?_⟩
      apply iff_of_false
      · exact id
      · rw [meets_uri hie hpass, meets_next, hzero]
        exact not_meets_done
    | some j =>
      obtain ⟨hj, hij⟩ := charAt_findChar hclose
      have hstop : j < p.stop := by
        apply h.lt_stop
        rw [hj]
        decide
      have hbehind : next c.makesDot (LinkPlace.uri (j = i + 1)) (charAt p.buffer j) =
          LinkPlace.behind (decide (j = i + 1) && c.makesDot) := by
        rw [hj]
        rfl
      have hset (k : ℕ) (hk : j < k) : charAt (p.buffer.set j 0) k = charAt p.buffer k :=
        charAt_set_of_ne (Nat.ne_of_lt hk) 0
      have hzero : charAt (p.buffer.set j 0) j = 0 := charAt_set_zero (.inl rfl)
      have hended (phase : ListPhase) : Ended { p with
          phase := phase, buffer := p.buffer.set j 0, iter := some (j + 1),
          link := { uri := i + 1 } } := h.set j phase _ _
      rw [meets_uri hij fun k hk hlt => findChar_before hclose hk hlt, meets_next, hbehind,
        meets_next]
      dsimp only
      by_cases hmore : charAt (p.buffer.set j 0) (j + 1) = ascii ';'
      · have hkey : next c.makesDot (LinkPlace.behind (decide (j = i + 1) && c.makesDot))
            (charAt p.buffer (j + 1)) = LinkPlace.key := by
          rw [hset _ (Nat.lt_succ_self j)] at hmore
          unfold next
          exact if_pos hmore
        rw [if_pos hmore, hkey]
        refine ⟨⟨hended _, fun _ => ⟨_, rfl, j, hij, hstop, hzero, Nat.lt_succ_self j⟩, nofun⟩, ?_⟩
        rw [meets_attributes rfl rfl]
        exact meets_set (show j < j + 1 + 1 by omega)
      · rw [if_neg hmore]
        refine ⟨(hended _).showLink_ok ⟨j, hij, hstop, hzero, Nat.lt_succ_self j⟩, ?_⟩
        -- a dot in the brackets puts its terminator where the next character is read
        have hshown (k : ℕ) (hk : j < k) :=
          @charAt_showLink c _ j k (hended p.phase) hij hstop hzero hk
        dsimp only at hshown
        rw [hset _ (Nat.lt_succ_self j)] at hmore
        generalize hq : showLink c { p with
          buffer := p.buffer.set j 0, iter := some (j + 1), link := { uri := i + 1 } } = q at hshown ⊢
        have hphase' : q.phase = .content := by rw [← hq]; rfl
        have hiter' : q.iter = some (j + 1) := by rw [← hq]; rfl
        have hplace : next c.makesDot between (charAt q.buffer (j + 1)) =
            next c.makesDot (LinkPlace.behind (decide (j = i + 1) && c.makesDot))
              (charAt p.buffer (j + 1)) := by
          rw [next_behind _ hmore, hshown _ (Nat.lt_succ_self j), hset _ (Nat.lt_succ_self j)]
          congr 1
          apply if_congr _ rfl rfl
          rw [Bool.and_eq_true, decide_eq_true_iff]
          exact ⟨fun h => ⟨h.2.1.symm, h.2.2⟩, fun h => ⟨rfl, h.1.symm, h.2⟩⟩
        rw [meets_content hphase' hiter', meets_next, hplace]
        apply meets_congr
        intro k hk
        rw [hshown k (by omega), if_neg (by omega), hset k (by omega)]
  · have hnext : next c.makesDot between (charAt p.buffer i) = between := by
      unfold next
      exact if_neg hopen
    have hcontent : ({ p with iter := some (i + 1) } : LinkParser).phase = .content := hphase
    rw [if_neg hopen, hnext]
    refine ⟨⟨⟨h.stop_le, h.zero⟩, ?_, ?_⟩, meets_content hcontent rfl⟩
    · intro hattributes
      exact absurd (hcontent.symm.trans hattributes) nofun
    · intro key value hquoted
      exact absurd (hcontent.symm.trans hquoted) nofun

/-- A step of the parser keeps what the scan will meet. -/
theorem step_scanned (h : p.Ok) (hescaped : ¬p.AtEscapedQuote) :
    (p.step c).Ok ∧ ((p.step c).Meets c ↔ p.Meets c) := by
  cases hphase : p.phase with
  | finished =>
    rw [step_finished hphase]
    exact ⟨h, Iff.rfl⟩
  | content =>
    have hdone : Ok { p with phase := .finished } := ⟨⟨h.stop_le, h.zero⟩, nofun, nofun⟩
    cases hiter : p.iter with
    | none =>
      have hstep : p.step c = { p with phase := .finished } := by
        unfold step
        rw [hphase, hiter]
      rw [hstep]
      exact ⟨hdone, iff_of_false id (not_meets_none hiter)⟩
    | some i =>
      rw [meets_content hphase hiter]
      by_cases hlt : i < p.stop
      · have hstep : p.step c = p.contentStep c i := by
          unfold step
          rw [hphase, hiter]
          exact if_pos hlt
        rw [hstep]
        exact contentStep_meets h.toEnded hphase
      · have hstep : p.step c = { p with phase := .finished } := by
          unfold step
          rw [hphase, hiter]
          exact if_neg hlt
        have hbetween : between ≠ escaped := nofun
        rw [hstep]
        refine ⟨hdone, iff_of_false id (not_meets_end hbetween ?_)⟩
        exact fun k hk => h.zero k ((Nat.le_of_not_lt hlt).trans hk)
  | attributes =>
    obtain ⟨i, hiter, hlink⟩ := h.attributes hphase
    rw [meets_attributes hphase hiter]
    by_cases hlt : i < p.stop
    · have hstep : p.step c = p.attributeStep c i := by
        unfold step
        rw [hphase, hiter]
        exact if_pos hlt
      rw [hstep]
      exact attributeStep_meets h.toEnded hphase hlink
    · have hstep : p.step c = p.showLink c := by
        unfold step
        rw [hphase, hiter]
        exact if_neg hlt
      have hplaces : between ≠ escaped ∧ LinkPlace.key ≠ escaped := ⟨nofun, nofun⟩
      -- the content has ended
      have hshown : (p.showLink c).Ended := h.toEnded.showLink hlink
      have hend := Nat.le_of_not_lt hlt
      rw [hstep, meets_content (showLink_rest c p).2 (show (p.showLink c).iter = some i from hiter)]
      refine ⟨h.toEnded.showLink_ok hlink, iff_of_false ?_ ?_⟩
      · exact not_meets_end hplaces.1 fun k hk => hshown.zero k (hend.trans hk)
      · exact not_meets_end hplaces.2 fun k hk => h.zero k (by omega)
  | quoted key value =>
    obtain ⟨i, hiter, hvalue, hlink⟩ := h.quoted key value hphase
    have hstep : p.step c = p.quotedStep c key value i := by
      unfold step
      rw [hphase, hiter]
    rw [hstep]
    exact quotedStep_meets h.toEnded hphase hiter hvalue hlink hescaped

/-- Where the parser is stuck, the scan meets an escaped quote. -/
theorem AtEscapedQuote.meets (h : p.AtEscapedQuote) : p.Meets c := by
  obtain ⟨key, value, i, q, hphase, hiter, hquote, hback⟩ := h
  obtain ⟨hq, hiq⟩ := charAt_findChar hquote
  have hmet : next c.makesDot (LinkPlace.quoted (charAt p.buffer (q - 1) = ascii '\\'))
      (charAt p.buffer q) = escaped := by
    rw [decide_eq_true hback, hq]
    rfl
  rw [meets_inQuotes hphase hiter, meets_quoted hiq fun k hk hlt => findChar_before hquote hk hlt,
    meets_next, hmet]
  exact meets_escaped _ _ _

/-- The parser at its start. -/
theorem parseLinkFormat_ok (content : List UInt8) : (parseLinkFormat content).Ok where
  stop_le := le_refl content.length
  zero _ hk := List.getD_eq_default content 0 hk
  attributes := nofun
  quoted := nofun

/-- As long as the parser is not stuck, it has what the scan meets still in front of it. -/
theorem iterate_scanned (h : p.Ok) {n : ℕ} (hescaped : ∀ m < n, ¬((step c)^[m] p).AtEscapedQuote) :
    ((step c)^[n] p).Ok ∧ (((step c)^[n] p).Meets c ↔ p.Meets c) := by
  induction n with
  | zero => exact ⟨h, Iff.rfl⟩
  | succ n ih =>
    obtain ⟨hok, hmeets⟩ := ih fun m hm => hescaped m (Nat.lt_succ_of_lt hm)
    rw [Function.iterate_succ_apply']
    obtain ⟨hok', hmeets'⟩ := @step_scanned c _ hok (hescaped n (Nat.lt_succ_self n))
    exact ⟨hok', hmeets'.trans hmeets⟩

/-- The parser finishes exactly when the scan meets no escaped quote. -/
theorem halts_iff_not_meets (h : p.Ok) :
    Halts (step c) (fun p => p.phase = .finished) p ↔ ¬p.Meets c := by
  rw [halts_iff_never_escaped]
  constructor
  · intro hnever hmeets
    -- it finishes, with nothing in front of it
    obtain ⟨n, hfinished⟩ := halts_iff_never_escaped.2 hnever
    have hlast := (@iterate_scanned c p h n fun m _ => hnever m).2.2 hmeets
    unfold Meets at hlast
    rw [hfinished] at hlast
    exact hlast
  · intro hmeets n
    induction n using Nat.strong_induction_on with
    | h n ih =>
      intro hescaped
      exact hmeets ((iterate_scanned h ih).2.1 hescaped.meets)

end LinkParser

open LinkParser

/-- A server's list of one resource, with a quote in its name. -/
def escapedQuote : List UInt8 := asciiBytes "<a>;n=\"x\\\"y\""

end Smcp
