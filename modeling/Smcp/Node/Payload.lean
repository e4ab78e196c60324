import Smcp.Btree.Store
import Smcp.Node.Handle
import Smcp.Url.Count

/-!
# What a listing holds

The content that `smcp_handle_list` writes, for any children and any room.

* `Appends`: text is appended, or as much of it as there is room for;
* `listEntry_appends`: the entry of one child;
* `listChildren_spec`: the loop over the children, with the entries that fit;
* `listChildren_listed_iff`: when the content is a list of whole entries;
* `listItems_inorder`: the loop meets the children in the order of the tree.
-/

namespace Smcp

open ByteMemory CStr LinkedTree StringBuffer

/-! ## Entries -/

/-- A child that the loop meets: its name, its whole entry, and whether another one follows. -/
structure ListItem where
  name : List UInt8
  entry : List UInt8
  followed : Bool

/-- The entry of a node in link format. -/
def entryText (s : NodeStore) (namePrefix : Option (List UInt8)) (node : ℕ) (name : List UInt8) :
    List UInt8 :=
  let n := s.node node
  asciiBytes "<" ++
    ((match namePrefix with
      | some namePrefix => escape namePrefix ++ asciiBytes "/"
      | none => []) ++
    (escape name ++ ((if n.children.isSome then asciiBytes "/" else []) ++ (asciiBytes ">" ++
      ((if n.children.isSome ∨ n.hasLinkContent then asciiBytes ";ct=40" else []) ++
        (if n.isObservable then asciiBytes ";obs" else []))))))

/-- The children of `parent` from `node` on, up to one without a name. -/
def listItems (text : ℕ → CStr) (s : NodeStore) (namePrefix : Option (List UInt8)) (parent : ℕ) :
    (fuel : ℕ) → (node : Option ℕ) → List ListItem
  | 0, _ => []
  | _ + 1, none => []
  | fuel + 1, some node =>
    match (s.node node).name with
    | none => []
    | some name =>
      let next := btNext (s.links parent) (s.inserted + 1) node
      ⟨(text name).bytes, entryText s namePrefix node (text name).bytes, next.isSome⟩ ::
        listItems text s namePrefix parent fuel next

/-- The content is made of the first entries, with commas in between and maybe one behind. -/
def Listed : List (List UInt8) → List UInt8 → Prop
  | [], content => content = []
  | entry :: entries, content =>
    content = [] ∨ content = entry ∨
      ∃ rest, content = entry ++ ascii ',' :: rest ∧ Listed entries rest

/-- Behind `len` bytes, each entry that the loop begins to write fits into the room of `threshold`
bytes, the terminator included: the loop ends in front of the entry, or not a single byte is free,
or there is room for all of it. -/
def EntriesFit (threshold : ℕ) : (len : ℕ) → List ListItem → Prop
  | _, [] => True
  | len, item :: items =>
    sizeT ((threshold : ℤ) - len - 3) < item.name.length + 4 ∨ threshold ≤ len + 1 ∨
      (len + item.entry.length + 1 ≤ threshold ∧
        EntriesFit threshold (min (len + item.entry.length + (if item.followed then 1 else 0))
          (threshold - 1)) items)

/-! ## Appending -/

/-- `reply'` is `reply` with `text` behind it, or with something else if there is no room for all of
it. -/
structure Appends (size : ℕ) (reply reply' text : List UInt8) : Prop where
  grows : reply <+: reply'
  length_le : reply'.length ≤ size - 1
  whole : reply.length + text.length ≤ size - 1 → reply' = reply ++ text

section
variable {size : ℕ} {reply reply' reply'' text text' : List UInt8}

theorem Appends.nil (h : reply.length ≤ size - 1) : Appends size reply reply [] :=
  ⟨List.prefix_rfl, h, fun _ => (List.append_nil reply).symm⟩

theorem Appends.trans (h : Appends size reply reply' text) (h' : Appends size reply' reply'' text') :
    Appends size reply reply'' (text ++ text') where
  grows := h.grows.trans h'.grows
  length_le := h'.length_le
  whole := by
    intro hroom
    rw [List.length_append] at hroom
    have hfirst := h.whole (by omega)
    have hsecond := h'.whole (by rw [hfirst, List.length_append]; omega)
    rw [hsecond, hfirst, List.append_assoc]

theorem strlcat_appends (h : reply.length ≤ size - 1) (src : List UInt8) :
    Appends size reply (strlcat reply src size) src where
  grows := List.prefix_append _ _
  length_le := by
    rw [strlcat, List.length_append, List.length_take]
    omega
  whole := by
    intro hroom
    rw [strlcat, List.take_of_length_le (by omega)]

/-- An unfinished source ends like a terminated one. -/
theorem urlEncodeLoop_terminated {s : List UInt8} (hs : ∀ c ∈ s, c ≠ 0) (room : ℕ) :
    urlEncodeLoop room s = urlEncodeLoop room (s ++ [0]) := by
  induction s generalizing room with
  | nil => rw [List.nil_append, urlEncodeLoop_zero, urlEncodeLoop]
  | cons c s ih =>
    have hc : c ≠ 0 := hs c List.mem_cons_self
    have hrest (room : ℕ) := ih (fun d hd => hs d (List.mem_cons_of_mem c hd)) room
    rw [List.cons_append, urlEncodeLoop_cons hc, urlEncodeLoop_cons hc, hrest]

theorem listEncode_appends (hsize : size < 65536) (h : reply.length ≤ size - 1) {src : List UInt8}
    (hsrc : ∀ c ∈ src, c ≠ 0) : Appends size reply (listEncode size reply src) (escape src) := by
  unfold listEncode
  by_cases hzero : size = 0
  · -- the size of the destination is 0 as well
    have hempty : reply = [] := List.eq_nil_of_length_eq_zero (by omega)
    have hlong : sizeT ((size : ℤ) - 1) > reply.length := by
      rw [hzero, hempty]
      decide
    have hnone : sizeT ((size : ℤ) - reply.length) = 0 := by
      rw [hzero, hempty]
      decide
    rw [if_pos hlong, hnone, urlEncodeCstr, if_pos rfl]
    refine ⟨List.prefix_append _ _, ?_, ?_⟩
    · rw [hempty]
      exact Nat.zero_le _
    · intro hroom
      have hnil : escape src = [] := List.eq_nil_of_length_eq_zero (by omega)
      rw [hnil]
      rfl
  · have hthreshold : sizeT ((size : ℤ) - 1) = size - 1 := by
      unfold sizeT
      omega
    rw [hthreshold]
    by_cases hfull : size - 1 > reply.length
    · have hleft : sizeT ((size : ℤ) - reply.length) = size - reply.length := by
        unfold sizeT
        omega
      obtain ⟨k, hk, hloop⟩ := urlEncodeLoop_count [] hsrc (size - reply.length - 1)
      have hstored : cString (urlEncodeCstr src (size - reply.length)).stored =
          escape (src.take k) := by
        rw [urlEncodeCstr, if_neg (by omega), urlEncodeLoop_terminated hsrc, hloop]
        exact cString_append_zero [] fun c hc => ne_zero_of_mem_escape hc
      rw [if_pos hfull, hleft]
      refine ⟨List.prefix_append _ _, ?_, ?_⟩
      · rw [hstored, List.length_append]
        omega
      · intro hroom
        have hall := @urlEncodeCstr_eq (size - reply.length) _ [] hsrc (by omega)
        rw [urlEncodeCstr, if_neg (by omega), ← urlEncodeLoop_terminated hsrc] at hall
        rw [urlEncodeCstr, if_neg (by omega), hall]
        congr 1
        exact cString_append_zero [] fun c hc => ne_zero_of_mem_escape hc
    · rw [if_neg hfull]
      refine ⟨List.prefix_rfl, h, ?_⟩
      intro hroom
      have hnil : escape src = [] := List.eq_nil_of_length_eq_zero (by omega)
      rw [hnil, List.append_nil]

end

/-! ## One child -/

section
variable {text : ℕ → CStr} {s : NodeStore} {threshold : ℕ} {namePrefix : Option (List UInt8)}
  {reply : List UInt8}

/-- The entry of a child is appended. If a byte is free, something is. -/
theorem listEntry_appends (hsize : threshold < 65536) (h : reply.length ≤ threshold - 1)
    (hnamed : ∀ p ∈ namePrefix, ∀ c ∈ p, c ≠ 0) (node : ℕ) {name : List UInt8}
    (hname : ∀ c ∈ name, c ≠ 0) :
    Appends threshold reply (listEntry s threshold namePrefix node name reply)
        (entryText s namePrefix node name) ∧
      (reply.length + 1 < threshold →
        reply.length < (listEntry s threshold namePrefix node name reply).length) := by
  have hcat {r : List UInt8} (hr : r.length ≤ threshold - 1) (src : String) :
      Appends threshold r (strlcat r (asciiBytes src) threshold) (asciiBytes src) :=
    strlcat_appends hr _
  have hif {r : List UInt8} (hr : r.length ≤ threshold - 1) {p : Prop} [Decidable p] (src : String) :
      Appends threshold r (if p then strlcat r (asciiBytes src) threshold else r)
        (if p then asciiBytes src else []) := by
    split_ifs
    · exact hcat hr src
    · exact .nil hr
  have hopen := hcat h "<"
  -- everything behind the `<`
  have hrest : ∃ rest, Appends threshold (strlcat reply (asciiBytes "<") threshold)
      (listEntry s threshold namePrefix node name reply) rest ∧
        entryText s namePrefix node name = asciiBytes "<" ++ rest := by
    refine ⟨_, ?_, rfl⟩
    unfold listEntry
    dsimp only
    generalize strlcat reply (asciiBytes "<") threshold = r at hopen ⊢
    have hbefore (q : Option (List UInt8)) : (∀ p ∈ q, ∀ c ∈ p, c ≠ 0) → Appends threshold r
        (match q with
          | some namePrefix =>
            strlcat (listEncode threshold r namePrefix) (asciiBytes "/") threshold
          | none => r)
        (match q with
          | some namePrefix => escape namePrefix ++ asciiBytes "/"
          | none => []) := by
      intro hq
      cases q with
      | none => exact .nil hopen.length_le
      | some p =>
        have hencoded := listEncode_appends hsize hopen.length_le (hq p rfl)
        exact hencoded.trans (hcat hencoded.length_le "/")
    have hfirst := hbefore namePrefix hnamed
    have hsecond := listEncode_appends hsize hfirst.length_le hname
    have hthird := hif hsecond.length_le (p := (s.node node).children.isSome = true) "/"
    have hclose := hcat hthird.length_le ">"
    have htype := hif hclose.length_le
      (p := (s.node node).children.isSome = true ∨ (s.node node).hasLinkContent = true) ";ct=40"
    have hobserve := hif htype.length_le (p := (s.node node).isObservable = true) ";obs"
    exact hfirst.trans (hsecond.trans (hthird.trans (hclose.trans (htype.trans hobserve))))
  obtain ⟨rest, hrest, htext⟩ := hrest
  rw [htext]
  refine ⟨hopen.trans hrest, ?_⟩
  intro hfree
  have hone : (asciiBytes "<").length = 1 := by decide
  have hbegun := hopen.whole (by omega)
  have hle := hrest.grows.length_le
  rw [hbegun, List.length_append, hone] at hle
  omega

theorem entryText_pos (node : ℕ) (name : List UInt8) :
    0 < (entryText s namePrefix node name).length := by
  have hone : (asciiBytes "<").length = 1 := by decide
  unfold entryText
  dsimp only
  rw [List.length_append, hone]
  omega

/-! ## The loop -/

/-- Nothing is written when no byte is free. -/
theorem Appends.full {reply' text : List UInt8} (h : Appends threshold reply reply' text)
    (hfull : threshold ≤ reply.length + 1) : reply' = reply := by
  have hle := h.length_le
  exact (h.grows.eq_of_length_le (by omega)).symm

theorem listed_nil (entries : List (List UInt8)) : Listed entries [] := by
  cases entries with
  | nil => rfl
  | cons entry entries => exact .inl rfl

theorem listed_cons_iff {entry rest : List UInt8} {entries : List (List UInt8)}
    (hpos : 0 < entry.length) :
    Listed (entry :: entries) (entry ++ ascii ',' :: rest) ↔ Listed entries rest := by
  constructor
  · intro hlisted
    rcases hlisted with hnil | hentry | ⟨rest', heq, hrest⟩
    · have hlen := congrArg List.length hnil
      rw [List.length_append, List.length_nil] at hlen
      omega
    · have hlen := congrArg List.length hentry
      rw [List.length_append, List.length_cons] at hlen
      omega
    · rw [List.append_cancel_left_eq, List.cons.injEq] at heq
      rw [heq.2]
      exact hrest
  · exact fun hrest => .inr (.inr ⟨rest, rfl, hrest⟩)

/-- Something that is shorter than the first entry is no list of entries. -/
theorem not_listed {entry content : List UInt8} {entries : List (List UInt8)}
    (hpos : 0 < content.length) (hlen : content.length < entry.length) :
    ¬Listed (entry :: entries) content := by
  intro hlisted
  rcases hlisted with hnil | hentry | ⟨rest, heq, -⟩
  · rw [hnil, List.length_nil] at hpos
    exact absurd hpos (Nat.lt_irrefl 0)
  · rw [hentry] at hlen
    exact absurd hlen (Nat.lt_irrefl _)
  · rw [heq, List.length_append] at hlen
    omega

/-- One round of the loop, behind the check: `behind` is the reply with the entry and the comma, and
`added` what the other children add. -/
theorem listed_round {written behind entry added : List UInt8} {followed : Bool}
    {items : List ListItem} (hpos : 0 < entry.length)
    (happends : Appends threshold reply written entry)
    (hgrows : reply.length + 1 < threshold → reply.length < written.length)
    (hcomma : Appends threshold written behind (if followed then asciiBytes "," else []))
    (hlen : behind.length + added.length ≤ threshold - 1)
    (hiff : Listed (items.map ListItem.entry) added ↔ EntriesFit threshold behind.length items)
    (hlast : followed = false → added = [] ∧ items = []) :
    ∃ added', behind ++ added = reply ++ added' ∧ reply.length + added'.length ≤ threshold - 1 ∧
      (Listed (entry :: items.map ListItem.entry) added' ↔ threshold ≤ reply.length + 1 ∨
        (reply.length + entry.length + 1 ≤ threshold ∧ EntriesFit threshold
          (min (reply.length + entry.length + (if followed then 1 else 0)) (threshold - 1)) items)) := by
  have hcommaLen : (asciiBytes ",").length = 1 := by decide
  -- no room for two bytes any more, or an entry is written
  by_cases hfull : threshold ≤ reply.length + 1
  · have hwritten : written = reply := happends.full hfull
    rw [hwritten] at hcomma
    have hbehind : behind = reply := hcomma.full hfull
    rw [hbehind] at hlen ⊢
    have hnone : added = [] := List.eq_nil_of_length_eq_zero (by omega)
    rw [hnone] at hlen ⊢
    exact ⟨[], rfl, hlen, iff_of_true (listed_nil _) (.inl hfull)⟩
  · rw [or_iff_right hfull]
    by_cases hfits : reply.length + entry.length + 1 ≤ threshold
    · have hwritten : written = reply ++ entry := happends.whole (by omega)
      have hwrittenLen : written.length = reply.length + entry.length := by
        rw [hwritten, List.length_append]
      rw [and_iff_right hfits, ← hwrittenLen]
      cases followed with
      | false =>
        obtain ⟨rfl, rfl⟩ := hlast rfl
        have hbehind : behind = written :=
          (hcomma.whole (by simpa using happends.length_le)).trans (List.append_nil written)
        refine ⟨entry, ?_, by omega, iff_of_true (.inr (.inl rfl)) trivial⟩
        rw [hbehind, hwritten, List.append_nil]
      | true =>
        simp only [if_true] at hcomma ⊢
        by_cases hroom : written.length + 1 ≤ threshold - 1
        · have hbehind := hcomma.whole (by rw [hcommaLen]; exact hroom)
          have hbehindLen : behind.length = written.length + 1 := by
            rw [hbehind, List.length_append, hcommaLen]
          rw [hbehindLen] at hlen hiff
          refine ⟨entry ++ ascii ',' :: added, ?_, ?_, ?_⟩
          · rw [hbehind, hwritten, List.append_assoc, List.append_assoc]
            rfl
          · rw [List.length_append, List.length_cons]
            omega
          · rw [Nat.min_eq_left hroom]
            exact (listed_cons_iff hpos).trans hiff
        · -- there is no room for the comma, nor for anything behind it
          have hle := happends.length_le
          have hbehind : behind = written := hcomma.full (by omega)
          have hmin : min (written.length + 1) (threshold - 1) = written.length := by omega
          rw [hbehind] at hlen hiff
          have hnone : added = [] := List.eq_nil_of_length_eq_zero (by omega)
          rw [hnone] at hiff
          rw [hbehind, hnone, hmin]
          refine ⟨entry, ?_, by omega, iff_of_true (.inr (.inl rfl)) (hiff.1 (listed_nil _))⟩
          rw [List.append_nil, hwritten]
    · -- the entry is cut
      have hfree := hgrows (by omega)
      obtain ⟨x, rfl⟩ := happends.grows.trans hcomma.grows
      have hlong := hcomma.grows.length_le
      rw [List.length_append] at hlong hlen
      refine ⟨x ++ added, List.append_assoc _ _ _, ?_, iff_of_false ?_ fun hand => hfits hand.1⟩
      · rw [List.length_append]
        omega
      · apply not_listed
        · rw [List.length_append]
          omega
        · rw [List.length_append]
          omega

/-- What the loop appends: whole entries, exactly when the entries fit. -/
theorem listChildren_spec (hsize : threshold < 65536) (hnamed : ∀ p ∈ namePrefix, ∀ c ∈ p, c ≠ 0)
    (parent fuel : ℕ) (node : Option ℕ) (h : reply.length ≤ threshold - 1) :
    ∃ added, listChildren text s threshold namePrefix parent fuel node reply = reply ++ added ∧
      reply.length + added.length ≤ threshold - 1 ∧
      (Listed ((listItems text s namePrefix parent fuel node).map ListItem.entry) added ↔
        EntriesFit threshold reply.length (listItems text s namePrefix parent fuel node)) := by
  have hstop {reply : List UInt8} (h : reply.length ≤ threshold - 1) {entries : List (List UInt8)}
      {q : Prop} (hq : q) :
      ∃ added, reply = reply ++ added ∧ reply.length + added.length ≤ threshold - 1 ∧
        (Listed entries added ↔ q) :=
    ⟨[], (List.append_nil reply).symm, h, iff_of_true (listed_nil entries) hq⟩
  induction fuel generalizing node reply with
  | zero => exact hstop h trivial
  | succ fuel ih =>
    cases node with
    | none => exact hstop h trivial
    | some node =>
      rw [listChildren, listItems]
      cases hname : (s.node node).name with
      | none => exact hstop h trivial
      | some name =>
        dsimp only
        rw [List.map_cons, EntriesFit]
        dsimp only
        by_cases hcheck : (text name).bytes.length + 4 > sizeT ((threshold : ℤ) - reply.length - 3)
        · rw [if_pos hcheck]
          exact hstop h (.inl hcheck)
        · rw [if_neg hcheck, or_iff_right hcheck]
          obtain ⟨happends, hgrows⟩ := listEntry_appends hsize h hnamed node (text name).noNul
          set written := listEntry s threshold namePrefix node (text name).bytes reply
          set next := btNext (s.links parent) (s.inserted + 1) node
          have hcomma : Appends threshold written
              (if next.isSome then strlcat written (asciiBytes ",") threshold else written)
              (if next.isSome then asciiBytes "," else []) := by
            split_ifs
            · exact strlcat_appends happends.length_le _
            · exact .nil happends.length_le
          obtain ⟨added, hadded, hlen, hiff⟩ := ih next hcomma.length_le
          rw [hadded]
          apply listed_round (entryText_pos node _) happends hgrows hcomma hlen hiff
          -- behind the last child there is nothing
          intro hnone
          rw [Option.isSome_eq_false_iff, Option.isNone_iff_eq_none] at hnone
          rw [hnone] at hadded ⊢
          cases fuel with
          | zero => exact ⟨List.self_eq_append_right.1 hadded, rfl⟩
          | succ fuel => exact ⟨List.self_eq_append_right.1 hadded, rfl⟩

end

/-! ## The content -/

section
variable (text : ℕ → CStr) (s : NodeStore) (node : ℕ)

/-- The first child of a node. -/
def firstChild : Option ℕ :=
  (s.node node).children.map fun root => btFirst (s.links node) (s.inserted + 1) root

/-- The content that `smcp_handle_list` writes into the message `o`. -/
def listReply (namePrefix : Option (List UInt8)) (o : Outbound) : List UInt8 :=
  listChildren text s o.maxContentLen namePrefix node (s.inserted + 1) (firstChild s node) []

/-- The children that it meets. -/
def childItems (namePrefix : Option (List UInt8)) : List ListItem :=
  listItems text s namePrefix node (s.inserted + 1) (firstChild s node)

variable {text s node}

/-- The answer before its content. -/
def listAnswer (u : Instance) : Instance :=
  smcpOutboundGetContentPtr (smcpOutboundAddOptionUint
    (smcpOutboundBeginResponse u (httpToCoapCode 205)).1 coapOptionContentType
    coapContentTypeApplicationLinkFormat).1

/-- What `smcp_handle_list` sends. -/
theorem sendList_content {namePrefix : Option (List UInt8)}
    (hnamed : ∀ p ∈ namePrefix, ∀ c ∈ p, c ≠ 0) {u : Instance}
    (hbegin : (smcpOutboundBeginResponse u (httpToCoapCode 205)).2 = smcpStatusOk)
    (hoption : (smcpOutboundAddOptionUint (smcpOutboundBeginResponse u (httpToCoapCode 205)).1
      coapOptionContentType coapContentTypeApplicationLinkFormat).2 = smcpStatusOk) :
    ∃ w, sendList text s node namePrefix u = smcpOutboundSend w ∧
      readBytes w.outbound.packetBytes.byte w.outbound.contentPtr w.outbound.contentLen =
        listReply text s node namePrefix (listAnswer u).outbound := by
  -- the buffer is what is left of the packet
  have hsize : (listAnswer u).outbound.maxContentLen < 65536 := Nat.mod_lt _ (by decide)
  obtain ⟨added, hadded, hlen, -⟩ := @listChildren_spec text s _ _ [] hsize
    hnamed node (s.inserted + 1) (firstChild s node) (Nat.zero_le _)
  have hreply : (listReply text s node namePrefix (listAnswer u).outbound).length < 65536 := by
    unfold listReply
    rw [hadded, List.nil_append]
    rw [List.length_nil] at hlen
    omega
  -- what was copied is read back
  have hcopy := (listAnswer u).outbound.packetBytes.readBytes_copy (listAnswer u).outbound.contentPtr
    (listReply text s node namePrefix (listAnswer u).outbound ++ [0])
  have hread := (readBytes_eq_append hcopy).1
  unfold sendList
  dsimp only
  -- neither the begin nor the option has failed
  rw [if_neg (not_not.2 hbegin), if_neg (not_not.2 hoption)]
  refine ⟨_, rfl, ?_⟩
  show readBytes _ (listAnswer u).outbound.contentPtr
    ((listReply text s node namePrefix (listAnswer u).outbound).length % 65536) = _
  rw [Nat.mod_eq_of_lt hreply]
  exact hread

/-- The nodes that are listed, up to one without a name. -/
def itemsOf (text : ℕ → CStr) (s : NodeStore) (namePrefix : Option (List UInt8)) :
    List ℕ → List ListItem
  | [] => []
  | node :: nodes =>
    match (s.node node).name with
    | none => []
    | some name =>
      ⟨(text name).bytes, entryText s namePrefix node (text name).bytes, nodes.head?.isSome⟩ ::
        itemsOf text s namePrefix nodes

/-- The loop meets the children in the order of the tree. -/
theorem childItems_inorder {t : BinaryTree ℕ} (h : Rep (s.links node) none (s.links node).root t)
    (hnd : (inorder t).Nodup) (hfuel : (inorder t).length ≤ s.inserted + 1)
    (namePrefix : Option (List UInt8)) :
    childItems text s node namePrefix = itemsOf text s namePrefix (inorder t) := by
  -- the loop walks through the nodes from the first one on
  have hwalk (before nodes : List ℕ) (hsplit : inorder t = before ++ nodes) (fuel : ℕ)
      (hlen : nodes.length ≤ fuel) :
      listItems text s namePrefix node fuel nodes.head? = itemsOf text s namePrefix nodes := by
    induction nodes generalizing before fuel with
    | nil =>
      cases fuel with
      | zero => rfl
      | succ fuel => rfl
    | cons a nodes ih =>
      cases fuel with
      | zero => exact absurd hlen (Nat.not_succ_le_zero _)
      | succ fuel =>
        have hnext := btNext_eq h hnd hfuel hsplit
        have hrest := ih (before ++ [a]) (by rw [hsplit, List.append_assoc]; rfl) fuel
          (Nat.le_of_succ_le_succ hlen)
        rw [List.head?_cons, listItems, itemsOf]
        cases (s.node a).name with
        | none => rfl
        | some name =>
          dsimp only
          rw [hnext, hrest]
  have hfirst : firstChild s node = (inorder t).head? := map_btFirst_root h hfuel
  unfold childItems
  rw [hfirst]
  exact hwalk [] (inorder t) rfl _ hfuel

end

/-- The content is a list of whole entries, for the first of the children, exactly when each entry
that the loop begins to write fits. -/
theorem listReply_listed_iff (text : ℕ → CStr) (s : NodeStore) (node : ℕ) (namePrefix : Option CStr)
    (o : Outbound) :
    Listed ((childItems text s node (namePrefix.map CStr.bytes)).map ListItem.entry)
        (listReply text s node (namePrefix.map CStr.bytes) o) ↔
      EntriesFit o.maxContentLen 0 (childItems text s node (namePrefix.map CStr.bytes)) := by
  have hsize : o.maxContentLen < 65536 := Nat.mod_lt _ (by decide)
  have hnamed : ∀ p ∈ namePrefix.map CStr.bytes, ∀ c ∈ p, c ≠ 0 := by
    intro p hp
    obtain ⟨q, -, rfl⟩ := Option.mem_map.1 hp
    exact q.noNul
  obtain ⟨added, hadded, -, hiff⟩ := @listChildren_spec text s _ _ [] hsize
    hnamed node (s.inserted + 1) (firstChild s node) (Nat.zero_le _)
  unfold listReply
  rw [hadded, List.nil_append]
  exact hiff

/-- A name of 400 spaces. -/
def spacesName : CStr := ⟨List.replicate 400 0x20, fun b hb => by
  rw [List.eq_of_mem_replicate hb]
  decide⟩

/-- A node with one child of that name. -/
def spacesStore : NodeStore :=
  let s := (smcpNodeInit (fun _ => spacesName) .empty (some 0) none none none).1
  (smcpNodeInit (fun _ => spacesName) s (some 1) none (some 0) (some 0)).1

/-- Its entry takes 1202 bytes, and is cut. -/
theorem listReply_cut :
    ¬∀ (text : ℕ → CStr) (s : NodeStore) (node : ℕ) (namePrefix : Option CStr) (o : Outbound),
      Listed ((childItems text s node (namePrefix.map CStr.bytes)).map ListItem.entry)
        (listReply text s node (namePrefix.map CStr.bytes) o) := by
  intro hclaim
  have hlisted := hclaim (fun _ => spacesName) spacesStore 0 none
    (smcpOutboundBegin (smcpCreate default (fun _ => 0) fun _ => 1) (httpToCoapCode 205)
      coapTransTypeAck).1.outbound
  rw [Option.map_none] at hlisted
  have hentries : (childItems (fun _ => spacesName) spacesStore 0 none).map
      (fun item => item.entry.length) = [1202] := by decide +kernel
  obtain ⟨item, items, hitems, hlen, -⟩ := List.map_eq_cons_iff.1 hentries
  rw [hitems, List.map_cons] at hlisted
  refine not_listed ?_ ?_ hlisted
  · decide +kernel
  · rw [hlen]
    decide +kernel

end Smcp
