import Mathlib.Data.List.DropRight
import Smcp.Lib.StringBuffer
import Smcp.Node.Store
import Smcp.Url.Parse

/-!
# Paths of nodes

`smcp_node_get_path` and `smcp_node_find_with_path` of `smcp-node-router.c`: the path of a node, and
the way back.

The writer leaves `+` and `!` alone. The reader decodes the one to a space, and ends a name at the
other.

* `getPath_way`: the path that is written into a buffer that is large enough;
* `findNext_name`: what the reader does with one escaped name;
* `findWithPath_getPath`: the node is found again exactly when no name on the way to it has a `+` or
  a `!`.
-/

namespace Smcp

open LinkedTree CStr Run StringBuffer

/-! ## The functions -/

/-- The string that some bytes begin with. -/
def stringAt (bytes : List UInt8) : CStr := ⟨cString bytes, fun _ hb => ne_zero_of_mem_cString hb⟩

variable (text : ℕ → CStr)

/-- `smcp_node_get_path`. The result is the string in the buffer. -/
def smcpNodeGetPath : (fuel : ℕ) → (s : NodeStore) → (node maxPathLen : ℕ) → List UInt8
  | 0, _, _, _ => []
  | fuel + 1, s, node, maxPathLen =>
    let path := match (s.node node).parent with
      | some parent => smcpNodeGetPath fuel s parent maxPathLen
      | none => []
    match (s.node node).name with
    | none => path
    | some name =>
      let path := strlcat path [ascii '/'] maxPathLen
      let len := path.length
      if maxPathLen > len then
        cString (path ++ (urlEncodeCstr ((text name).bytes ++ [0]) (maxPathLen - len)).stored)
      else path

/-- The characters that end a name in a path. -/
def isNameEnd (c : UInt8) : Bool := isSlash c || c == ascii '?' || c == ascii '!'

/-- `smcp_node_find_next_with_path`: the next node, and the path behind the part that was used.
`unescapedName` is the address of the buffer for the name. -/
def smcpNodeFindNextWithPath (unescapedName : ℕ) (s : NodeStore) (node : ℕ) (origPath : List UInt8) :
    Option ℕ × List UInt8 :=
  let path := origPath.dropWhile isSlash
  if path = [] then (some node, [])
  else
    let name := path.takeWhile fun c => !isNameEnd c
    let decoded := urlDecodeStr (name.length + 1) path name.length
    let text := Function.update text unescapedName (stringAt decoded.stored)
    match smcpNodeFind text s node (some unescapedName) decoded.ret with
    | none => (none, path)
    | some next => (some next, (path.dropWhile fun c => !isNameEnd c).dropWhile isSlash)

/-- The loop of `smcp_node_find_with_path`. -/
def findWithPathLoop (unescapedName : ℕ) : (fuel : ℕ) → (s : NodeStore) → (node : ℕ) →
    (path : List UInt8) → Option ℕ
  | 0, _, _, _ => none
  | fuel + 1, s, node, path =>
    let r := smcpNodeFindNextWithPath text unescapedName s node path
    match r.1 with
    | none => none
    | some ret => if r.2 = [] then some ret else findWithPathLoop unescapedName fuel s ret r.2

/-- `smcp_node_find_with_path`. Every round but the last goes down by one node. -/
def smcpNodeFindWithPath (unescapedName : ℕ) (s : NodeStore) (node : ℕ) (path : List UInt8) :
    Option ℕ :=
  findWithPathLoop text unescapedName (s.inserted + 2) s node path

/-! ## The way to a node -/

namespace NodeContents

/-- The nodes on the way down, each one a child of the one before. -/
def Way (c : NodeContents) : ℕ → List ℕ → Prop
  | _, [] => True
  | p, x :: l => x ∈ c.live ∧ c.parent x = p ∧ Way c x l

variable {c : NodeContents} {p x n : ℕ} {l : List ℕ}

/-- A way goes on to a child. -/
theorem Way.append (h : c.Way p l) (hx : x ∈ c.live) (hparent : c.parent x = l.getLastD p) :
    c.Way p (l ++ [x]) := by
  induction l generalizing p with
  | nil => exact ⟨hx, hparent, trivial⟩
  | cons y l ih =>
    obtain ⟨hy, hyp, hl⟩ := h
    rw [List.getLastD_cons] at hparent
    exact ⟨hy, hyp, ih hl hparent⟩

/-- The last node of a way is a child of the one before. -/
theorem Way.of_append (h : c.Way p (l ++ [x])) :
    c.Way p l ∧ x ∈ c.live ∧ c.parent x = l.getLastD p := by
  induction l generalizing p with
  | nil => exact ⟨trivial, h.1, h.2.1⟩
  | cons y l ih =>
    obtain ⟨hy, hyp, hl⟩ := h
    obtain ⟨hway, hx, hparent⟩ := ih hl
    rw [List.getLastD_cons]
    exact ⟨⟨hy, hyp, hway⟩, hx, hparent⟩

/-- There is a way to every node below. -/
theorem Below.way (h : c.Below p n) : ∃ l, c.Way p l ∧ l.getLastD p = n := by
  unfold Below at h
  induction h using Relation.ReflTransGen.head_induction_on with
  | refl => exact ⟨[], trivial, rfl⟩
  | head hstep _ ih =>
    obtain ⟨l, hway, hlast⟩ := ih
    exact ⟨l ++ [_], hway.append hstep.1 (hstep.2.trans hlast.symm), by simp⟩

/-- It leads down. -/
theorem Way.below (h : c.Way p l) : c.Below p (l.getLastD p) := by
  induction l generalizing p with
  | nil => exact .refl c p
  | cons x l ih =>
    obtain ⟨hx, hparent, hl⟩ := h
    rw [List.getLastD_cons]
    have hstep : c.Below p x := by
      apply Below.of_parent hx
      rw [hparent]
      exact .refl c p
    exact hstep.trans (ih hl)

/-- The ranks on it grow. -/
theorem Way.rank_lt {rank : ℕ → ℕ} (hrank : c.Ranked rank) (h : c.Way p l) :
    ∀ x ∈ l, rank p < rank x := by
  induction l generalizing p with
  | nil => exact fun x hx => absurd hx List.not_mem_nil
  | cons y l ih =>
    obtain ⟨hy, hparent, hl⟩ := h
    have hlt := hrank y hy
    rw [hparent] at hlt
    intro x hx
    rcases List.mem_cons.1 hx with rfl | hx
    · exact hlt
    · exact hlt.trans (ih hl x hx)

/-- All nodes on it are in the tree. -/
theorem Way.live (h : c.Way p l) : ∀ x ∈ l, x ∈ c.live := by
  induction l generalizing p with
  | nil => exact fun x hx => absurd hx List.not_mem_nil
  | cons y l ih =>
    obtain ⟨hy, -, hl⟩ := h
    intro x hx
    rcases List.mem_cons.1 hx with rfl | hx
    · exact hy
    · exact ih hl x hx

/-- The way is not longer than the number of nodes. -/
theorem Way.length_le {rank : ℕ → ℕ} (hrank : c.Ranked rank) (h : c.Way p l) :
    l.length ≤ c.live.card := by
  have hnodup : l.Nodup := by
    induction l generalizing p with
    | nil => exact List.nodup_nil
    | cons x l ih =>
      obtain ⟨-, -, hl⟩ := h
      refine List.nodup_cons.2 ⟨fun hx => ?_, ih hl⟩
      exact absurd (hl.rank_lt hrank x hx) (Nat.lt_irrefl _)
  rw [← List.toFinset_card_of_nodup hnodup]
  apply Finset.card_le_card
  intro x hx
  exact h.live x (List.mem_toFinset.1 hx)

/-- Nothing is below two children of a node. -/
theorem Ranked.siblings {rank : ℕ → ℕ} (hrank : c.Ranked rank) {y : ℕ} (hx : x ∈ c.live)
    (hy : y ∈ c.live) (hparent : c.parent x = c.parent y) (hxn : c.Below x n) (hyn : c.Below y n) :
    x = y := by
  -- a child that is below another one has a parent below it
  have hchild {a b : ℕ} (ha : a ∈ c.live) (hb : b ∈ c.live) (hab : c.parent a = c.parent b)
      (hbelow : c.Below a b) : a = b := by
    rcases below_iff.1 hbelow with heq | ⟨-, hup⟩
    · exact heq.symm
    · have hle := hrank.le hup
      have hlt := hrank a ha
      rw [hab] at hlt
      omega
  obtain ⟨l, hway, hlast⟩ := hxn.way
  induction l using List.reverseRecOn generalizing n with
  | nil =>
    have heq : x = n := hlast
    rw [← heq] at hyn
    exact (hchild hy hx hparent.symm hyn).symm
  | append_singleton l z ih =>
    obtain ⟨hl, hz, hzparent⟩ := hway.of_append
    have heq : z = n := by simpa using hlast
    rw [heq] at hz hzparent
    rcases below_iff.1 hyn with hny | ⟨-, hup⟩
    · rw [hny] at hxn
      exact hchild hx hy hparent hxn
    · rw [hzparent] at hup
      exact ih hl.below hup hl rfl

end NodeContents

/-! ## Writing the path -/

/-- The path along a way, with the names escaped. -/
def wayText (c : NodeContents) (l : List ℕ) : List UInt8 :=
  l.flatMap fun x => ascii '/' :: escape (text (c.name x)).bytes

section
variable {text} {s : NodeStore} {c : NodeContents} {root maxPathLen : ℕ} {l : List ℕ}

/-- The text of a way has no terminator in it. -/
theorem wayText_ne_zero : ∀ b ∈ wayText text c l, b ≠ 0 := by
  intro b hb
  obtain ⟨x, -, hb⟩ := List.mem_flatMap.1 hb
  rcases List.mem_cons.1 hb with rfl | hb
  · decide
  · exact ne_zero_of_mem_escape hb

/-- The path of the node at the end of a way. -/
theorem getPath_way (h : s.Holds text c) (hparent : (s.node root).parent = none)
    (hname : (s.node root).name = none) (hway : c.Way root l)
    (hroom : (wayText text c l).length < maxPathLen) (fuel : ℕ) (hfuel : l.length < fuel) :
    smcpNodeGetPath text fuel s (l.getLastD root) maxPathLen = wayText text c l := by
  -- induction on the way, from its end: the name of the node behind the path of its parent
  induction l using List.reverseRecOn generalizing fuel with
  | nil =>
    cases fuel with
    | zero => exact absurd hfuel (Nat.not_lt_zero _)
    | succ fuel =>
      rw [List.getLastD_nil, smcpNodeGetPath, hparent, hname]
      rfl
  | append_singleton l x ih =>
    obtain ⟨hl, hx, hxparent⟩ := hway.of_append
    have htext : wayText text c (l ++ [x]) =
        (wayText text c l ++ [ascii '/']) ++ escape (text (c.name x)).bytes := by
      unfold wayText
      rw [List.flatMap_append, List.flatMap_singleton, List.append_assoc, List.singleton_append]
    have hlen := congrArg List.length htext
    rw [List.length_append, List.length_append, List.length_singleton] at hlen
    rw [List.length_append, List.length_singleton] at hfuel
    cases fuel with
    | zero => exact absurd hfuel (Nat.not_lt_zero _)
    | succ fuel =>
      have hpath := ih hl (by omega) fuel (by omega)
      have hslash : strlcat (wayText text c l) [ascii '/'] maxPathLen =
          wayText text c l ++ [ascii '/'] := by
        unfold strlcat
        rw [List.take_of_length_le (by rw [List.length_singleton]; omega)]
      have hlast : (l ++ [x]).getLastD root = x := by simp
      rw [hlast, smcpNodeGetPath, h.parent x hx, h.name x hx]
      dsimp only
      rw [hxparent, hpath, hslash, List.length_append, List.length_singleton, if_pos (by omega),
        urlEncodeCstr_eq [] (text (c.name x)).noNul (by omega), ← List.append_assoc, ← htext]
      exact cString_append_zero [] wayText_ne_zero

end

/-! ## Reading one name -/

section
variable {s src name rest : List UInt8}

/-- `url_decode_str` on an escaped string, with the number of bytes. -/
theorem urlDecodeStr_escape_eq (rest : List UInt8) {maxSize : ℕ} (hs : ∀ c ∈ s, c ≠ 0)
    (hsize : s.length < maxSize) :
    urlDecodeStr maxSize (escape s ++ rest) (escape s).length =
      ⟨s.map plainChar ++ [0], s.length⟩ := by
  rw [urlDecodeStr, if_neg (by omega), List.take_left]
  have hloop : urlDecodeLoop isEscapeStr (maxSize - 1) (escape s ++ []) = _ :=
    urlDecodeLoop_escape takesDigits_str hs (by omega)
  rw [List.append_nil] at hloop
  rw [hloop, urlDecodeLoop]
  show (⟨s.map plainChar ++ [0], (s.map plainChar).length⟩ : Filled) = _
  rw [List.length_map]

/-- The part of a name that the reader takes: everything before the first `!`. -/
def readPart (name : List UInt8) : List UInt8 := name.takeWhile fun c => c != ascii '!'

/-- Nothing that ends a name is written for a character but `!`. -/
theorem isNameEnd_escapeChar (c : UInt8) : c ≠ ascii '!' →
    ∀ b ∈ escapeChar c, isNameEnd b = false := by
  have hall : ∀ c : UInt8, c ≠ ascii '!' → (escapeChar c).all (fun b => !isNameEnd b) = true := by
    apply forall_byte
    decide +kernel
  intro hc b hb
  have hb := List.all_eq_true.1 (hall c hc) b hb
  rwa [Bool.not_eq_true'] at hb

/-- The reader takes the escaped form of this part. -/
theorem takeWhile_escape (name : List UInt8) (hrest : rest = [] ∨ ∃ rest', rest = ascii '/' :: rest') :
    (escape name ++ rest).takeWhile (fun c => !isNameEnd c) = escape (readPart name) ∧
      (ascii '!' ∉ name → (escape name ++ rest).dropWhile (fun c => !isNameEnd c) = rest) := by
  -- escaping a name without the mark brings none in
  have hescape {s : List UInt8} (hs : ascii '!' ∉ s) : ∀ b ∈ escape s, (!isNameEnd b) = true := by
    intro b hb
    obtain ⟨c, hc, hb⟩ := List.mem_flatMap.1 hb
    rw [isNameEnd_escapeChar c (fun heq => hs (heq ▸ hc)) b hb]
    rfl
  -- a name with the mark is the one that the reader cuts
  by_cases hmark : ascii '!' ∈ name
  · refine ⟨?_, fun hnot => absurd hmark hnot⟩
    obtain ⟨before, after, rfl, hbefore⟩ := List.eq_append_cons_of_mem hmark
    have hpart : readPart (before ++ ascii '!' :: after) = before := by
      apply (takeWhile_sep after _ (by decide)).1
      intro c hc
      exact bne_iff_ne.2 fun heq => hbefore (heq ▸ hc)
    have hcut : escape (before ++ ascii '!' :: after) ++ rest =
        escape before ++ ascii '!' :: (escape after ++ rest) := by
      rw [escape_append, escape_cons, List.append_assoc, List.append_assoc]
      rfl
    rw [hpart, hcut]
    exact (takeWhile_sep _ (hescape hbefore) (by decide)).1
  · have hpart : readPart name = name := by
      apply (takeWhile_all _).1
      intro c hc
      exact bne_iff_ne.2 fun heq => hmark (heq ▸ hc)
    rw [hpart]
    rcases hrest with rfl | ⟨rest', rfl⟩
    · rw [List.append_nil]
      obtain ⟨htake, hdrop⟩ := takeWhile_all (hescape hmark)
      exact ⟨htake, fun _ => hdrop⟩
    · obtain ⟨htake, hdrop⟩ := takeWhile_sep rest' (hescape hmark)
        (show (!isNameEnd (ascii '/')) = false by decide)
      exact ⟨htake, fun _ => hdrop⟩

/-- The reader gets the name exactly when it has no `!` and no `+`. -/
theorem readPart_eq_iff : (readPart name).map plainChar = name ↔
    ascii '!' ∉ name ∧ ascii '+' ∉ name := by
  have hprefix : readPart name <+: name := List.takeWhile_prefix _
  constructor
  · intro heq
    have hlen := congrArg List.length heq
    rw [List.length_map] at hlen
    have hpart := hprefix.eq_of_length hlen
    rw [hpart] at heq
    refine ⟨fun hmark => ?_, map_plainChar_eq_iff.1 heq⟩
    rw [← hpart] at hmark
    exact absurd (List.mem_takeWhile_imp hmark) (by decide)
  · rintro ⟨hmark, hplus⟩
    have hpart : readPart name = name := by
      apply (takeWhile_all _).1
      intro c hc
      exact bne_iff_ne.2 fun heq => hmark (heq ▸ hc)
    rw [hpart]
    exact map_plainChar_eq_iff.2 hplus

end

/-! ## Finding with a buffer -/

section
variable {text} {s : NodeStore} {c : NodeContents} {p buf x : ℕ} {u : CStr}

/-- The buffer is not the name of a node. -/
theorem NodeStore.Holds.update_text (h : s.Holds text c) (hbuf : ∀ x ∈ c.live, c.name x ≠ buf) :
    s.Holds (Function.update text buf u) c := by
  refine ⟨fun q => ?_, h.name, h.parent, h.rank, h.card⟩
  obtain ⟨t, htree, hmem⟩ := h.tree q
  refine ⟨t, ⟨htree.rep, htree.sorted.imp_of_mem fun {a b} ha hb hab => ?_, htree.fuel⟩, hmem⟩
  have ha := ((hmem a).1 ha).1
  have hb := ((hmem b).1 hb).1
  unfold NodeStore.order nameOrder at hab ⊢
  rw [h.name a ha, h.name b hb] at hab ⊢
  dsimp only at hab ⊢
  rwa [Function.update_of_ne (hbuf a ha), Function.update_of_ne (hbuf b hb)]

/-- What a search finds is a child. -/
theorem NodeStore.Holds.find_child (h : s.Holds text c) {text' : ℕ → CStr} {name : Option ℕ}
    {len : ℕ} (hfind : smcpNodeFind text' s p name len = some x) : x ∈ c.live ∧ c.parent x = p := by
  obtain ⟨t, htree, hmem⟩ := h.tree p
  have hrep : Rep (s.links p) none (s.node p).children t := htree.rep
  exact (hmem x).1 (btPath_subset hrep _ (btFind_mem_btPath hfind))

/-- With ASCII names, the search for a string in the buffer finds the child of that name. -/
theorem NodeStore.Holds.find_buffer (h : s.Holds text c) (hbuf : ∀ x ∈ c.live, c.name x ≠ buf)
    (hascii : ∀ x ∈ c.live, ∀ b ∈ (text (c.name x)).bytes, b < 128) (hu : ∀ b ∈ u.bytes, b < 128) :
    smcpNodeFind (Function.update text buf u) s p (some buf) u.bytes.length = some x ↔
      x ∈ c.live ∧ c.parent x = p ∧ (text (c.name x)).bytes = u.bytes := by
  have hself : Function.update text buf u buf = u := Function.update_self ..
  -- the search for a string in the buffer is a search for its text
  have hfits : s.FindFits (Function.update text buf u) p buf u.bytes.length := by
    intro a ha l hl
    obtain ⟨t, htree, hmem⟩ := h.tree p
    have hrep : Rep (s.links p) none (s.node p).children t := htree.rep
    have hlive := ((hmem a).1 (btPath_subset hrep _ ha)).1
    rw [h.name a hlive] at hl
    obtain rfl := Option.some.inj hl
    refine ⟨fun heq => absurd heq (hbuf a hlive), ?_⟩
    rw [hself, Function.update_of_ne (hbuf a hlive)]
    have hrange := cmp_range_of_ascii (hascii a hlive) hu
    unfold FitsChar
    rcases strncmp_eq_or (s := text (c.name a)) (Nat.le_refl u.bytes.length) with
      ⟨hzero, -⟩ | ⟨-, hval⟩
    · omega
    · rw [← hval, cstr_take_length]
      unfold strcmp
      omega
  rw [(h.update_text hbuf).find hfits x, hself]
  -- what is found is live, a child, and has the name
  constructor
  · rintro ⟨hlive, hparent, hbytes, -⟩
    rw [Function.update_of_ne (hbuf x hlive), List.take_length] at hbytes
    exact ⟨hlive, hparent, hbytes⟩
  · rintro ⟨hlive, hparent, hbytes⟩
    rw [Function.update_of_ne (hbuf x hlive), List.take_length]
    exact ⟨hlive, hparent, hbytes, congrArg List.length hbytes⟩

/-- ASCII is read as ASCII. -/
theorem plainChar_lt (b : UInt8) : b < 128 → plainChar b < 128 := by
  revert b
  apply forall_byte
  decide +kernel

/-- The child that is found for an escaped name, and what is left of the path. -/
theorem findNext_name (h : s.Holds text c) (hbuf : ∀ x ∈ c.live, c.name x ≠ buf)
    (hascii : ∀ x ∈ c.live, ∀ b ∈ (text (c.name x)).bytes, b < 128) {name rest origPath : List UInt8}
    (hne : name ≠ []) (hnul : ∀ b ∈ name, b ≠ 0) (hname : ∀ b ∈ name, b < 128)
    (hrest : rest = [] ∨ ∃ rest', rest = ascii '/' :: rest')
    (hpath : origPath.dropWhile isSlash = escape name ++ rest) :
    (∀ y, (smcpNodeFindNextWithPath text buf s p origPath).1 = some y ↔
      y ∈ c.live ∧ c.parent y = p ∧ (text (c.name y)).bytes = (readPart name).map plainChar) ∧
    (ascii '!' ∉ name → (smcpNodeFindNextWithPath text buf s p origPath).1.isSome = true →
      (smcpNodeFindNextWithPath text buf s p origPath).2 = rest.dropWhile isSlash) := by
  obtain ⟨htake, hdrop⟩ := takeWhile_escape name hrest
  have hpart : ∀ b ∈ readPart name, b ∈ name := fun b hb => (List.takeWhile_prefix _).subset hb
  have hpartNul : ∀ b ∈ readPart name, b ≠ 0 := fun b hb => hnul b (hpart b hb)
  have hnonempty : escape name ++ rest ≠ [] := by
    intro hnil
    exact escape_ne_nil hne (List.append_eq_nil_iff.1 hnil).1
  have hdecode := urlDecodeStr_escape_eq
    ((escape name ++ rest).dropWhile fun c => !isNameEnd c) hpartNul
    (Nat.lt_succ_of_le (length_le_escape (readPart name)))
  have hsplit := List.takeWhile_append_dropWhile (p := fun c => !isNameEnd c)
    (l := escape name ++ rest)
  rw [htake] at hsplit
  rw [hsplit] at hdecode
  -- the string in the buffer
  let u : CStr := stringAt ((readPart name).map plainChar ++ [0])
  have hu : u.bytes = (readPart name).map plainChar :=
    cString_append_zero [] (plainChars_ne_zero hpartNul)
  have hlen : (readPart name).length = u.bytes.length := by rw [hu, List.length_map]
  have huAscii : ∀ b ∈ u.bytes, b < 128 := by
    rw [hu]
    intro b hb
    obtain ⟨d, hd, rfl⟩ := List.mem_map.1 hb
    exact plainChar_lt d (hname d (hpart d hd))
  have hfind (y : ℕ) := h.find_buffer (p := p) (x := y) hbuf hascii huAscii
  rw [← hlen, hu] at hfind
  unfold smcpNodeFindNextWithPath
  rw [hpath]
  dsimp only
  rw [if_neg hnonempty, htake, hdecode]
  dsimp only
  change ∀ y, smcpNodeFind (Function.update text buf u) s p (some buf) (readPart name).length = some y ↔
    _ at hfind
  cases hresult : smcpNodeFind (Function.update text buf u) s p (some buf) (readPart name).length with
  | none =>
    rw [hresult] at hfind
    exact ⟨hfind, fun _ hsome => absurd hsome Bool.false_ne_true⟩
  | some next =>
    rw [hresult] at hfind
    exact ⟨hfind, fun hmark _ => by rw [hdrop hmark]⟩

/-- The reader goes down. -/
theorem findNext_below (h : s.Holds text c) {path : List UInt8} {y : ℕ}
    (hnext : (smcpNodeFindNextWithPath text buf s p path).1 = some y) : c.Below p y := by
  unfold smcpNodeFindNextWithPath at hnext
  dsimp only at hnext
  split_ifs at hnext
  · rw [← Option.some.inj hnext]
    exact .refl c p
  · split at hnext
    · cases hnext
    · rename_i next hfind
      rw [← Option.some.inj hnext]
      obtain ⟨hlive, hparent⟩ := h.find_child hfind
      apply NodeContents.Below.of_parent hlive
      rw [hparent]
      exact .refl c p

/-- What is found is below the node where the search begins. -/
theorem findWithPathLoop_below (h : s.Holds text c) {fuel : ℕ} {path : List UInt8} {y : ℕ}
    (hfind : findWithPathLoop text buf fuel s p path = some y) : c.Below p y := by
  induction fuel generalizing p path with
  | zero => cases hfind
  | succ fuel ih =>
    rw [findWithPathLoop] at hfind
    split at hfind
    · cases hfind
    · rename_i ret hnext
      have hbelow := findNext_below h hnext
      split_ifs at hfind
      · rwa [← Option.some.inj hfind]
      · exact hbelow.trans (ih hfind)

/-! ## Reading the path -/

/-- A name that the reader gets back. -/
def ReadBack (name : List UInt8) : Prop := ascii '!' ∉ name ∧ ascii '+' ∉ name

instance (name : List UInt8) : Decidable (ReadBack name) := inferInstanceAs (Decidable (_ ∧ _))

/-- The slashes in front are passed over. -/
theorem dropWhile_wayText {l : List ℕ} :
    (wayText text c (x :: l)).dropWhile isSlash =
      (escape (text (c.name x)).bytes ++ wayText text c l).dropWhile isSlash := by
  unfold wayText
  rw [List.flatMap_cons, List.cons_append, List.dropWhile_cons_of_pos (by decide)]

/-- An escaped name has no slash in front. -/
theorem dropWhile_escape {name rest : List UInt8} (hne : name ≠ []) :
    (escape name ++ rest).dropWhile isSlash = escape name ++ rest := by
  cases hescape : escape name with
  | nil => exact absurd hescape (escape_ne_nil hne)
  | cons b bytes =>
    have hb : b ∈ escape name := by
      rw [hescape]
      exact List.mem_cons_self
    rw [List.cons_append, List.dropWhile_cons_of_neg (by simp [(isEscaped_escape hb).notSlash])]

/-- The reader comes to the end of the way exactly when it gets all names on it back. -/
theorem findWithPathLoop_way (h : s.Holds text c) (hbuf : ∀ x ∈ c.live, c.name x ≠ buf)
    (hascii : ∀ x ∈ c.live, ∀ b ∈ (text (c.name x)).bytes, b < 128)
    (hnames : ∀ x ∈ c.live, (text (c.name x)).bytes ≠ []) {l : List ℕ} (hway : c.Way p l)
    {fuel : ℕ} (hfuel : l.length < fuel) {path : List UInt8}
    (hpath : path.dropWhile isSlash = (wayText text c l).dropWhile isSlash) :
    findWithPathLoop text buf fuel s p path = some (l.getLastD p) ↔
      ∀ x ∈ l, ReadBack (text (c.name x)).bytes := by
  induction l generalizing p fuel path with
  | nil =>
    cases fuel with
    | zero => exact absurd hfuel (Nat.not_lt_zero _)
    | succ fuel =>
      have hself : smcpNodeFindNextWithPath text buf s p path = (some p, []) := by
        unfold smcpNodeFindNextWithPath
        rw [hpath]
        rfl
      rw [findWithPathLoop, hself]
      exact ⟨fun _ x hx => absurd hx List.not_mem_nil, fun _ => rfl⟩
  | cons x l ih =>
    obtain ⟨hx, hparent, hl⟩ := hway
    rw [List.length_cons] at hfuel
    cases fuel with
    | zero => exact absurd hfuel (Nat.not_lt_zero _)
    | succ fuel =>
      have hne := hnames x hx
      have hrest : wayText text c l = [] ∨ ∃ rest', wayText text c l = ascii '/' :: rest' := by
        cases l with
        | nil => exact .inl rfl
        | cons y l => exact .inr ⟨_, rfl⟩
      rw [dropWhile_wayText, dropWhile_escape hne] at hpath
      obtain ⟨hnext, hbehind⟩ := findNext_name (p := p) h hbuf hascii hne (text (c.name x)).noNul
        (hascii x hx) hrest hpath
      rw [findWithPathLoop, List.getLastD_cons]
      generalize smcpNodeFindNextWithPath text buf s p path = r at hnext hbehind
      rw [List.forall_mem_cons]
      by_cases hread : ReadBack (text (c.name x)).bytes
      · have hfound : r.1 = some x := (hnext x).2 ⟨hx, hparent, (readPart_eq_iff.2 hread).symm⟩
        rw [hfound, hbehind hread.1 (by rw [hfound]; rfl)]
        dsimp only
        rw [and_iff_right hread]
        cases l with
        | nil =>
          rw [if_pos (show (wayText text c []).dropWhile isSlash = [] from rfl)]
          exact ⟨fun _ y hy => absurd hy List.not_mem_nil, fun _ => rfl⟩
        | cons y l =>
          have hlong : (wayText text c (y :: l)).dropWhile isSlash ≠ [] := by
            rw [dropWhile_wayText, dropWhile_escape (hnames y hl.1)]
            intro hnil
            exact escape_ne_nil (hnames y hl.1) (List.append_eq_nil_iff.1 hnil).1
          rw [if_neg hlong]
          exact ih hl (by omega) (by rw [List.dropWhile_idempotent])
      · refine ⟨fun hfind => ?_, fun hall => absurd hall.1 hread⟩
        exfalso
        -- another child is found, or none, and the node is below this one
        cases hfound : r.1 with
        | none =>
          rw [hfound] at hfind
          cases hfind
        | some y =>
          obtain ⟨hy, hyparent, hyname⟩ := (hnext y).1 hfound
          rw [hfound] at hfind
          dsimp only at hfind
          have hyx : y ≠ x := by
            intro heq
            rw [heq] at hyname
            exact hread (readPart_eq_iff.1 hyname.symm)
          have hbelow : c.Below y (l.getLastD x) := by
            split_ifs at hfind
            · rw [← Option.some.inj hfind]
              exact .refl c y
            · exact findWithPathLoop_below h hfind
          obtain ⟨rank, hrank⟩ := h.rank
          exact hyx (hrank.siblings hy hx (hyparent.trans hparent.symm) hbelow hl.below)

end

/-- A node below the root is found by its path exactly when no name on the way to it has a `+` or a
`!`. -/
theorem findWithPath_getPath {text : ℕ → CStr} {s : NodeStore} {c : NodeContents}
    (h : s.Holds text c) (hascii : ∀ x ∈ c.live, ∀ b ∈ (text (c.name x)).bytes, b < 128)
    (hnames : ∀ x ∈ c.live, (text (c.name x)).bytes ≠ []) {root n : ℕ} (buf : ℕ)
    (hparent : (s.node root).parent = none) (hname : (s.node root).name = none)
    (hn : c.Below root n) (hbuf : ∀ x ∈ c.live, c.name x ≠ buf) :
    ∃ l, c.Way root l ∧ l.getLastD root = n ∧
      ∀ maxPathLen, (wayText text c l).length < maxPathLen →
        (smcpNodeFindWithPath text buf s root
            (smcpNodeGetPath text (s.inserted + 1) s n maxPathLen) = some n ↔
          ∀ x ∈ l, ReadBack (text (c.name x)).bytes) := by
  obtain ⟨l, hway, rfl⟩ := hn.way
  obtain ⟨rank, hrank⟩ := h.rank
  have hshort := (hway.length_le hrank).trans h.card
  refine ⟨l, hway, rfl, fun maxPathLen hroom => ?_⟩
  rw [getPath_way h hparent hname hway hroom _ (Nat.lt_succ_of_le hshort)]
  exact findWithPathLoop_way h hbuf hascii hnames hway (by omega) rfl

/-- The names `a b` and `a+b`. -/
def plusText : ℕ → CStr
  | 1 => ⟨[0x61, 0x20, 0x62], by decide +kernel⟩
  | _ => ⟨[0x61, 0x2B, 0x62], by decide +kernel⟩

/-- A tree with the node 11 of this name below the node 10. -/
noncomputable def plusTree (name : ℕ) : NodeStore × NodeContents :=
  nodeRun plusText [.init none (some 11) 10 name]

/-- The tree is one that the operations make. -/
theorem plusTree_holds {name : ℕ} (hname : name = 1 ∨ name = 2) :
    (plusTree name).1.Holds plusText (plusTree name).2 := by
  have hempty : (NodeStore.empty, NodeContents.empty).1.Holds plusText
      (NodeStore.empty, NodeContents.empty).2 := NodeStore.Holds.empty
  refine hempty.run _ ⟨⟨?_, ?_⟩, trivial⟩
  · intro x hx
    obtain rfl := Option.some.inj hx
    have hself : (none : Option ℕ) ≠ some 11 := by decide
    exact ⟨⟨by decide, by decide, by decide⟩, fun h => absurd h hself,
      fun y hy => absurd hy (Finset.notMem_empty y)⟩
  · rcases hname with rfl | rfl <;> decide +kernel

/-- There is one node in it besides the root. -/
theorem plusTree_live {name x : ℕ} (hx : x ∈ (plusTree name).2.live) :
    x = 11 ∧ (plusTree name).2.name x = name ∧ (plusTree name).2.parent x = 10 := by
  rcases Finset.mem_insert.1 hx with rfl | hempty
  · exact ⟨rfl, rfl, rfl⟩
  · exact absurd hempty (Finset.notMem_empty x)

theorem plusTree_below (name : ℕ) : (plusTree name).2.Below 10 11 :=
  NodeContents.Below.of_parent (Finset.mem_insert_self 11 ∅) (.refl _ _)

/-- So there are two ways. -/
theorem plusTree_way {name : ℕ} {l : List ℕ} (hway : (plusTree name).2.Way 10 l) :
    l = [] ∨ l = [11] := by
  match l with
  | [] => exact .inl rfl
  | [x] => exact .inr (by rw [(plusTree_live hway.1).1])
  | x :: y :: l =>
    obtain ⟨hx, -, hy, hparent, -⟩ := hway
    rw [(plusTree_live hy).2.2, (plusTree_live hx).1] at hparent
    exact absurd hparent (by decide)

/-- Their texts fit. -/
theorem plusTree_wayText {name : ℕ} (hname : name = 1 ∨ name = 2) {l : List ℕ}
    (hway : (plusTree name).2.Way 10 l) : (wayText plusText (plusTree name).2 l).length < 32 := by
  rcases plusTree_way hway with rfl | rfl
  · exact Nat.zero_lt_succ 31
  · rcases hname with rfl | rfl <;> decide +kernel

/-- The names are ASCII. -/
theorem plusTree_ascii {name x : ℕ} (hname : name = 1 ∨ name = 2) (hx : x ∈ (plusTree name).2.live) :
    (∀ b ∈ (plusText ((plusTree name).2.name x)).bytes, b < 128) ∧
      (plusText ((plusTree name).2.name x)).bytes ≠ [] ∧ (plusTree name).2.name x ≠ 7 := by
  rw [(plusTree_live hx).2.1]
  rcases hname with rfl | rfl <;> decide +kernel

/-- A name with a space is found by its path. -/
theorem findWithPath_getPath_space :
    smcpNodeFindWithPath plusText 7 (plusTree 1).1 10
      (smcpNodeGetPath plusText ((plusTree 1).1.inserted + 1) (plusTree 1).1 11 32) = some 11 := by
  obtain ⟨l, hway, -, hfind⟩ := findWithPath_getPath (plusTree_holds (.inl rfl))
    (fun x hx => (plusTree_ascii (.inl rfl) hx).1) (fun x hx => (plusTree_ascii (.inl rfl) hx).2.1)
    7 rfl rfl (plusTree_below 1)
    fun x hx => (plusTree_ascii (.inl rfl) hx).2.2
  apply (hfind 32 (plusTree_wayText (.inl rfl) hway)).2
  intro x hx
  rw [(plusTree_live (hway.live x hx)).2.1]
  decide +kernel

/-- The node `a+b` is not found by its path. -/
theorem findWithPath_getPath_plus :
    smcpNodeFindWithPath plusText 7 (plusTree 2).1 10
      (smcpNodeGetPath plusText ((plusTree 2).1.inserted + 1) (plusTree 2).1 11 32) = none ∧
    ¬∀ (text : ℕ → CStr) (s : NodeStore) (c : NodeContents), s.Holds text c →
      (∀ x ∈ c.live, ∀ b ∈ (text (c.name x)).bytes, b < 128) →
      (∀ x ∈ c.live, (text (c.name x)).bytes ≠ []) → ∀ root n,
      (s.node root).parent = none → (s.node root).name = none → c.Below root n → ∀ buf,
      (∀ x ∈ c.live, c.name x ≠ buf) → ∀ maxPathLen,
      (∀ l, c.Way root l → l.getLastD root = n → (wayText text c l).length < maxPathLen) →
      smcpNodeFindWithPath text buf s root (smcpNodeGetPath text (s.inserted + 1) s n maxPathLen) =
        some n := by
  have hnone : smcpNodeFindWithPath plusText 7 (plusTree 2).1 10
      (smcpNodeGetPath plusText ((plusTree 2).1.inserted + 1) (plusTree 2).1 11 32) = none := by
    decide +kernel
  refine ⟨hnone, fun hall => ?_⟩
  have hfind := hall plusText _ _ (plusTree_holds (.inr rfl))
    (fun x hx => (plusTree_ascii (.inr rfl) hx).1) (fun x hx => (plusTree_ascii (.inr rfl) hx).2.1)
    10 11 rfl rfl (plusTree_below 2) 7 (fun x hx => (plusTree_ascii (.inr rfl) hx).2.2) 32
    fun l hway _ => plusTree_wayText (.inr rfl) hway
  rw [hnone] at hfind
  cases hfind

end Smcp
