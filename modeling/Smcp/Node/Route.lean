import Smcp.Inbound.Iterator
import Smcp.Node.Store

/-!
# Routing a request

`smcp_node_route` of `smcp-node-router.c`: from the root of a tree of nodes down to the node that
handles the request.

* `smcpNodeRoute_spec`: the node is reached by the longest part of the path that names children,
  and the option iterator stands behind that part;
* `lookupsCorrect_of_holds`: the trees of `Smcp.Node.Store` have the lookups that this needs.
-/

namespace Smcp

open ByteMemory OptionFormat CStr

/-- `COAP_OPTION_IS_CRITICAL`. -/
def coapOptionIsCritical (key : ℕ) : Bool := key % 2 = 1

variable (text : ℕ → CStr)

/-- The loop of `smcp_node_route`: the iterator and the node at its end, or no node after
`goto bail`. The packet is at the address `packetAddr`. -/
def nodeRouteLoop (s : NodeStore) (packetAddr : ℕ) : (fuel : ℕ) → (node : ℕ) →
    (prevOptionPtr : Option ℕ) → (prevKey : ℕ) → Inbound → Inbound × Option ℕ
  | 0, node, _, _, i => (i, some node)
  | fuel + 1, node, prevOptionPtr, prevKey, i =>
    let r := i.nextOption
    let value := r.value.getD (0, 0)
    let back : Inbound := { r.inbound with thisOption := prevOptionPtr, lastOptionKey := prevKey }
    if r.key = coapOptionInvalid then (r.inbound, some node)
    else if r.key > coapOptionUriPath then (back, some node)
    else if r.key = coapOptionUriPath then
      match smcpNodeFind text s node (some (packetAddr + value.1)) value.2 with
      | some next => nodeRouteLoop s packetAddr fuel next r.inbound.thisOption
          r.inbound.lastOptionKey r.inbound
      | none => (back, some node)
    else if (r.key = coapOptionUriHost ∨ r.key = coapOptionUriPort ∨ r.key = coapOptionProxyUri ∨
        r.key = coapOptionContentType) ∨ coapOptionIsCritical r.key = false then
      nodeRouteLoop s packetAddr fuel node r.inbound.thisOption r.inbound.lastOptionKey r.inbound
    -- an unrecognised critical option
    else (r.inbound, none)

/-- What `smcp_node_route` leaves: the iterator, the status, and the function and context that it
stores if it gets that far. -/
structure NodeRoute where
  inbound : Inbound
  status : ℤ
  target : Option (Option RequestHandler × ℕ)

/-- `smcp_node_route`. -/
def smcpNodeRoute (s : NodeStore) (packetAddr : ℕ) (i : Inbound) (node : ℕ) : NodeRoute :=
  let i := i.resetNextOption
  let r := nodeRouteLoop text s packetAddr (i.packetLen + 1) node i.thisOption 0 i
  match r.2 with
  | none => ⟨r.1, smcpStatusBadOption, none⟩
  | some node => ⟨r.1, smcpStatusOk, some ((s.node node).requestHandler,
      (s.node node).context.getD node)⟩

/-! ## Paths in the tree -/

/-- Following the names of children leads from one node to another. -/
inductive Follows (c : NodeContents) : ℕ → List (List UInt8) → ℕ → Prop
  | nil (n : ℕ) : Follows c n [] n
  | cons {n m x : ℕ} {names : List (List UInt8)} (hx : x ∈ c.live) (hparent : c.parent x = n)
      (h : Follows c x names m) : Follows c n ((text (c.name x)).bytes :: names) m

/-- The node has a child of that name. -/
def HasChild (c : NodeContents) (n : ℕ) (name : List UInt8) : Prop :=
  ∃ x ∈ c.live, c.parent x = n ∧ (text (c.name x)).bytes = name

/-- For every part of the packet, `smcp_node_find` finds exactly the child of that name. -/
def LookupsCorrect (s : NodeStore) (c : NodeContents) (packetAddr : ℕ) (i : Inbound) : Prop :=
  ∀ node value len, value + len ≤ i.packetLen → ∀ x,
    smcpNodeFind text s node (some (packetAddr + value)) len = some x ↔
      x ∈ c.live ∧ c.parent x = node ∧ (text (c.name x)).bytes = readBytes i.bytes value len

/-- A node was selected: the options are cut behind the path segments that lead to it, and the next
path segment, if there is one, names none of its children. -/
def Selected (c : NodeContents) (root node : ℕ) (opts before matched rest : List (ℕ × List UInt8)) :
    Prop :=
  opts = before ++ matched ++ rest ∧
    (∀ o ∈ before, o.1 < coapOptionUriPath) ∧ (∀ o ∈ matched, o.1 = coapOptionUriPath) ∧
    (∀ o ∈ rest.head?, coapOptionUriPath ≤ o.1 ∧
      (o.1 = coapOptionUriPath → ¬HasChild text c node o.2)) ∧
    Follows text c root (matched.map Prod.snd) node

section
variable {text} {s : NodeStore} {c : NodeContents} {packetAddr : ℕ} {i : Inbound}

/-- Running sums do not decrease. -/
theorem withKeys_sorted (prev : ℕ) (split : List (ℕ × List UInt8)) :
    (withKeys prev split).Pairwise (fun a b => a.1 ≤ b.1) ∧
      ∀ o ∈ withKeys prev split, prev ≤ o.1 := by
  induction split generalizing prev with
  | nil => exact ⟨List.Pairwise.nil, by simp [withKeys]⟩
  | cons o split ih =>
    obtain ⟨hsorted, hge⟩ := ih (prev + o.1)
    rw [withKeys]
    refine ⟨List.pairwise_cons.2 ⟨hge, hsorted⟩, List.forall_mem_cons.2 ⟨?_, fun o' ho' => ?_⟩⟩
    · exact Nat.le_add_right prev o.1
    · exact (Nat.le_add_right prev o.1).trans (hge o' ho')

theorem lookupsCorrect_congr {i' : Inbound} (h : LookupsCorrect text s c packetAddr i)
    (hsame : i.SameMessage i') : LookupsCorrect text s c packetAddr i' := by
  obtain ⟨key, option, rfl⟩ := hsame
  exact h

/-- The loop, with the options `opts` ahead. At the head of the loop the saved pointer and the saved
key are those of the iterator. -/
theorem nodeRouteLoop_spec {opts : List (ℕ × List UInt8)} {payload : Option (List UInt8)}
    {fuel : ℕ} (node : ℕ) (hlookup : LookupsCorrect text s c packetAddr i)
    (h : i.Ahead opts payload)
    (hsorted : opts.Pairwise fun a b => a.1 ≤ b.1) (hkeys : ∀ o ∈ opts, o.1 < coapOptionInvalid)
    (hcritical : ∀ o ∈ opts, o.1 < coapOptionUriPath → coapOptionIsCritical o.1 = true →
      o.1 = coapOptionUriHost ∨ o.1 = coapOptionUriPort) (hfuel : opts.length < fuel) :
    ∃ before matched rest node',
      (nodeRouteLoop text s packetAddr fuel node i.thisOption i.lastOptionKey i).2 = some node' ∧
      (nodeRouteLoop text s packetAddr fuel node i.thisOption i.lastOptionKey i).1.Ahead rest
        payload ∧
      Selected text c node node' opts before matched rest := by
  induction opts generalizing i node fuel with
  | nil =>
    obtain ⟨fuel, rfl⟩ : ∃ n, fuel = n + 1 := ⟨fuel - 1, by simp at hfuel; omega⟩
    obtain ⟨hnext, hrest⟩ := h.nextOption_nil
    have hkey : i.nextOption.key = coapOptionInvalid := by rw [hnext]
    rw [nodeRouteLoop]
    dsimp only
    rw [if_pos hkey]
    exact ⟨[], [], [], node, rfl, hrest, rfl, by simp, by simp, by simp, .nil node⟩
  | cons o opts ih =>
    obtain ⟨k, v⟩ := o
    obtain ⟨fuel, rfl⟩ : ∃ n, fuel = n + 1 := ⟨fuel - 1, by simp at hfuel; omega⟩
    obtain ⟨hkey, ⟨p, hvalue, hbytes, hinside⟩, hrest⟩ := h.nextOption_cons
    have hback := h.restore i.sameMessage_nextOption
    obtain ⟨hfirst, hsorted'⟩ := List.pairwise_cons.1 hsorted
    have hk : k < coapOptionInvalid := hkeys (k, v) List.mem_cons_self
    have hnext := lookupsCorrect_congr hlookup i.sameMessage_nextOption
    have hih (node : ℕ) := ih node hnext hrest hsorted'
      (fun o ho => hkeys o (List.mem_cons_of_mem _ ho))
      (fun o ho => hcritical o (List.mem_cons_of_mem _ ho)) (by simpa using hfuel : opts.length < fuel)
    rw [nodeRouteLoop]
    dsimp only
    rw [hkey, hvalue, Option.getD_some, if_neg (by omega)]
    by_cases hgt : k > coapOptionUriPath
    · -- behind the path: the option is put back
      rw [if_pos hgt]
      refine ⟨[], [], (k, v) :: opts, node, rfl, hback, rfl, by simp, by simp, ?_, .nil node⟩
      intro o ho
      obtain rfl := Option.some.inj ho
      exact ⟨Nat.le_of_lt hgt, fun heq => absurd heq (Nat.ne_of_gt hgt)⟩
    · rw [if_neg hgt]
      by_cases hpath : k = coapOptionUriPath
      · rw [if_pos hpath]
        have hfind := hlookup node p v.length hinside
        rw [hbytes] at hfind
        cases hfound : smcpNodeFind text s node (some (packetAddr + p)) v.length with
        | none =>
          -- no child of that name: the segment is put back
          refine ⟨[], [], (k, v) :: opts, node, rfl, hback, rfl, by simp, by simp, ?_, .nil node⟩
          intro o ho
          obtain rfl := Option.some.inj ho
          refine ⟨Nat.le_of_eq hpath.symm, ?_⟩
          rintro - ⟨x, hx, hparent, hname⟩
          have hsome := (hfind x).2 ⟨hx, hparent, hname⟩
          rw [hfound] at hsome
          exact absurd hsome (by simp)
        | some x =>
          obtain ⟨hx, hparent, hname⟩ := (hfind x).1 hfound
          obtain ⟨before, matched, rest, node', hnode, hahead, hopts, hbefore, hmatched, hhead,
            hfollows⟩ := hih x
          -- there is nothing in front of the path any more
          have hnil : before = [] := by
            cases before with
            | nil => rfl
            | cons o before =>
              have hmem : o ∈ opts := by
                rw [hopts]
                simp
              have hle : k ≤ o.1 := hfirst o hmem
              have hlt := hbefore o List.mem_cons_self
              omega
          subst hnil
          refine ⟨[], (k, v) :: matched, rest, node', hnode, hahead, ?_, by simp, ?_, hhead, ?_⟩
          · rw [hopts]
            rfl
          · exact List.forall_mem_cons.2 ⟨hpath, hmatched⟩
          · rw [List.map_cons, ← hname]
            exact .cons hx hparent hfollows
      · rw [if_neg hpath, if_pos]
        · obtain ⟨before, matched, rest, node', hnode, hahead, hopts, hbefore, hrestSel⟩ := hih node
          refine ⟨(k, v) :: before, matched, rest, node', hnode, hahead, ?_, ?_, hrestSel⟩
          · rw [hopts]
            rfl
          · refine List.forall_mem_cons.2 ⟨?_, hbefore⟩
            show k < coapOptionUriPath
            omega
        · -- an option in front of the path that is known or not critical
          cases hc : coapOptionIsCritical k with
          | false => exact .inr rfl
          | true =>
            have hknown := hcritical (k, v) List.mem_cons_self (by show k < _; omega) hc
            exact .inl (hknown.elim .inl fun hport => .inr (.inl hport))

/-- Routing: a verified request goes to the node that the longest part of its path leads to, and the
next calls of `smcp_inbound_next_option` return the options behind that part. -/
theorem smcpNodeRoute_spec {split : List (ℕ × List UInt8)} {payload : Option (List UInt8)}
    (hlookup : LookupsCorrect text s c packetAddr i)
    (hv : coapVerifyPacket i.bytes i.packetLen = true) (hlen : i.packetLen < 65536)
    (hs : Splits word16 (optionArea (readBytes i.bytes 0 i.packetLen)) split payload)
    (hkeys : ∀ o ∈ withKeys 0 split, o.1 < coapOptionInvalid)
    (hcritical : ∀ o ∈ withKeys 0 split, o.1 < coapOptionUriPath →
      coapOptionIsCritical o.1 = true → o.1 = coapOptionUriHost ∨ o.1 = coapOptionUriPort)
    (root : ℕ) :
    ∃ before matched rest node,
      Selected text c root node (withKeys 0 split) before matched rest ∧
      (smcpNodeRoute text s packetAddr i root).status = smcpStatusOk ∧
      (smcpNodeRoute text s packetAddr i root).target =
        some ((s.node node).requestHandler, (s.node node).context.getD node) ∧
      (smcpNodeRoute text s packetAddr i root).inbound.readOptions (i.packetLen + 1) = rest := by
  -- the iterator stands at the first option
  have hahead := ahead_resetNextOption hv hlen hs
  have hfuel := hahead.length_le
  have hreset := lookupsCorrect_congr hlookup i.sameMessage_resetNextOption
  -- the part of the path that leads to a node, the node, and the rest
  obtain ⟨before, matched, rest, node, hnode, hrest, hselected⟩ :=
    nodeRouteLoop_spec root hreset hahead
      (withKeys_sorted 0 split).1 hkeys hcritical (Nat.lt_succ_of_le hfuel)
  refine ⟨before, matched, rest, node, hselected, ?_⟩
  unfold smcpNodeRoute
  dsimp only
  change (nodeRouteLoop text s packetAddr (i.packetLen + 1) root i.resetNextOption.thisOption 0
    i.resetNextOption).2 = some node at hnode
  change (nodeRouteLoop text s packetAddr (i.packetLen + 1) root i.resetNextOption.thisOption 0
    i.resetNextOption).1.Ahead rest payload at hrest
  have hpacketLen : i.resetNextOption.packetLen = i.packetLen := rfl
  rw [hpacketLen, hnode]
  -- the node, its handler, and the options that are left
  refine ⟨rfl, rfl, ?_⟩
  have hsubset : ∀ o ∈ rest, o ∈ withKeys 0 split := by
    intro o ho
    rw [hselected.1]
    exact List.mem_append_right _ ho
  have hcount : rest.length ≤ (withKeys 0 split).length := by
    rw [hselected.1, List.length_append]
    omega
  refine hrest.readOptions (fun o ho => Nat.ne_of_lt (hkeys o (hsubset o ho))) ?_
  exact Nat.lt_succ_of_le (hcount.trans hfuel)

end

/-! ## The trees that have these lookups -/

section
variable {text} {s : NodeStore} {c : NodeContents} {packetAddr : ℕ} {i : Inbound}

/-- A tree of `smcp_node_init` and `smcp_node_delete` has correct lookups for a packet, if the
strings in memory are those of the packet and no comparison gets the wrong sign. -/
theorem lookupsCorrect_of_holds (h : s.Holds text c)
    (hfits : ∀ node value len, value + len ≤ i.packetLen →
      s.FindFits text node (packetAddr + value) len)
    (hmem : ∀ value len, value + len ≤ i.packetLen →
      (text (packetAddr + value)).bytes.take len =
        (readBytes i.bytes value len).takeWhile (· ≠ 0)) :
    LookupsCorrect text s c packetAddr i := by
  intro node value len hinside x
  rw [h.find (hfits node value len hinside), hmem value len hinside]
  refine and_congr_right fun _ => and_congr_right fun _ => ?_
  have hprefix := List.takeWhile_prefix (l := readBytes i.bytes value len)
    (fun b : UInt8 => decide (b ≠ 0))
  constructor
  · rintro ⟨hbytes, hlength⟩
    rw [hbytes] at hlength ⊢
    exact hprefix.eq_of_length (by rw [hlength, length_readBytes])
  · intro hbytes
    have hall : (readBytes i.bytes value len).takeWhile (· ≠ 0) = readBytes i.bytes value len := by
      refine List.takeWhile_eq_self_iff.2 fun b hb => ?_
      rw [← hbytes] at hb
      exact decide_eq_true ((text (c.name x)).noNul b hb)
    rw [hall, hbytes]
    exact ⟨rfl, length_readBytes _ _ _⟩

end

/-- A request for `/a/b`. -/
def routedPacket : List UInt8 := [0x40, 0x01, 0, 0, 0xB1, 0x61, 0x01, 0x62]

theorem ne_zero_of_mem_takeWhile {bytes : List UInt8} {b : UInt8}
    (hb : b ∈ bytes.takeWhile fun c => c != 0) : b ≠ 0 := by
  simpa using List.mem_takeWhile_imp hb

theorem single_ne_zero {b : UInt8} (hb : b ∈ [(0x61 : UInt8)]) : b ≠ 0 := by
  rw [List.mem_singleton] at hb
  rw [hb]
  decide

/-- The name `a`, and the strings in the packet at the address 100. -/
def routedText (n : ℕ) : CStr :=
  if n = 1 then ⟨[0x61], fun _ hb => single_ne_zero hb⟩
  else ⟨(readBytes (ofList routedPacket fun _ => 0) (n - 100) 8).takeWhile fun c => c != 0,
    fun _ hb => ne_zero_of_mem_takeWhile hb⟩

def routedInbound : Inbound := { packet := some (ofList routedPacket fun _ => 0), packetLen := 8 }

theorem routedLookups :
    LookupsCorrect routedText (nodeRun routedText [.init none (some 11) 10 1]).1
      (nodeRun routedText [.init none (some 11) 10 1]).2 100 routedInbound := by
  -- the store of the example, after its one call
  have hempty : (NodeStore.empty, NodeContents.empty).1.Holds routedText
      (NodeStore.empty, NodeContents.empty).2 := NodeStore.Holds.empty
  have hholds := hempty.run [.init none (some 11) 10 1] ⟨⟨?_, by decide⟩, trivial⟩
  · -- the packet has nine places and no longer parts
    have hfits : ∀ value < 9, ∀ len < 9,
        (nodeRun routedText [.init none (some 11) 10 1]).1.FindFits routedText 10 (100 + value)
          len := by
      decide +kernel
    have hmem : ∀ value < 9, ∀ len < 9, value + len ≤ 8 →
        (routedText (100 + value)).bytes.take len =
          (readBytes routedInbound.bytes value len).takeWhile (· ≠ 0) := by
      decide +kernel
    refine lookupsCorrect_of_holds hholds (fun node value len hinside => ?_)
      fun value len hinside => ?_
    · have hle : value + len ≤ 8 := hinside
      by_cases hnode : node = 10
      · rw [hnode]
        exact hfits value (by omega) len (by omega)
      · have hleaf : ∀ x ∈ (nodeRun routedText [.init none (some 11) 10 1]).2.live,
            (nodeRun routedText [.init none (some 11) 10 1]).2.parent x ≠ node := by
          intro x hx
          have hx11 : x = 11 := by
            rcases Finset.mem_insert.1 hx with heq | hempty
            · exact heq
            · exact absurd hempty (Finset.notMem_empty x)
          rw [hx11]
          exact fun heq => hnode heq.symm
        have hnone : ((nodeRun routedText [.init none (some 11) 10 1]).1.node node).children = none :=
          hholds.children_eq_none_iff.2 hleaf
        intro a ha
        rw [hnone] at ha
        exact absurd ha (List.not_mem_nil)
    · have hle : value + len ≤ 8 := hinside
      exact hmem value (by omega) len (by omega) hle
  · intro x hx
    obtain rfl := Option.some.inj hx
    decide

theorem smcpNodeRoute_ab : ∃ before matched rest node,
    Selected routedText (nodeRun routedText [.init none (some 11) 10 1]).2 10 node
      (withKeys 0 [(11, [0x61]), (0, [0x62])]) before matched rest ∧
    (smcpNodeRoute routedText (nodeRun routedText [.init none (some 11) 10 1]).1 100 routedInbound
      10).status = smcpStatusOk ∧
    (smcpNodeRoute routedText (nodeRun routedText [.init none (some 11) 10 1]).1 100 routedInbound
      10).target = some
        (((nodeRun routedText [.init none (some 11) 10 1]).1.node node).requestHandler,
          ((nodeRun routedText [.init none (some 11) 10 1]).1.node node).context.getD node) ∧
    (smcpNodeRoute routedText (nodeRun routedText [.init none (some 11) 10 1]).1 100 routedInbound
      10).inbound.readOptions (routedInbound.packetLen + 1) = rest := by
  have hsplits : Splits word16
      (optionArea (readBytes routedInbound.bytes 0 routedInbound.packetLen))
      [(11, [0x61]), (0, [0x62])] none :=
    .option 0xB1 [] [] [0x61] _ _ _ (by decide) (by decide) rfl rfl rfl
      (.option 0x01 [] [] [0x62] _ _ _ (by decide) (by decide) rfl rfl rfl .nil)
  exact smcpNodeRoute_spec routedLookups (by decide) (by decide) hsplits (by decide) (by decide) 10

end Smcp
