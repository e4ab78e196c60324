import Mathlib.Logic.Function.Basic
import Smcp.Btree.Store
import Smcp.Lib.CString

/-!
# Nodes

The node tree of `smcp-node-router.c`: the nodes in memory, the two comparison functions, and
`smcp_node_init`, `smcp_node_delete` and `smcp_node_find`.

The children of a node are a binary tree of `btree.c`, built with `smcp_node_compare` and searched
with `smcp_node_ncompare_cstr`. Names are pointers; the text behind a pointer does not change.
-/

namespace Smcp

open LinkedTree CStr

/-! ## The nodes in memory -/

/-- The function behind `request_handler`. -/
inductive RequestHandler where
  | smcpDefaultRequestHandler
  | other (func : ℕ)
deriving Repr, DecidableEq

/-- `struct smcp_node_s`. Whether the node has a `finalize` function is a flag; the function is that
of the application or `smcp_node_dealloc`. -/
structure SmcpNode where
  lhs : Option ℕ
  rhs : Option ℕ
  btParent : Option ℕ
  name : Option ℕ
  parent : Option ℕ
  children : Option ℕ
  hasLinkContent : Bool
  isObservable : Bool
  finalize : Bool
  requestHandler : Option RequestHandler
  context : Option ℕ
deriving Repr, DecidableEq

/-- A node of zero bytes. -/
def SmcpNode.zero : SmcpNode :=
  ⟨none, none, none, none, none, none, false, false, false, none, none⟩

/-- The memory of the nodes. -/
structure NodeStore where
  node : ℕ → SmcpNode
  /-- How often a node was inserted, which bounds the loops. -/
  inserted : ℕ
  /-- The nodes whose `finalize` function was called. -/
  finalized : List ℕ

namespace NodeStore

def empty : NodeStore := ⟨fun _ => .zero, 0, []⟩

/-- The pointers of the children of a node, as the functions of `btree.c` see them. -/
def links (s : NodeStore) (node : ℕ) : Links ℕ :=
  ⟨(s.node node).children, fun a => (s.node a).lhs, fun a => (s.node a).rhs,
    fun a => (s.node a).btParent⟩

def setLinks (s : NodeStore) (node : ℕ) (l : Links ℕ) : NodeStore :=
  { s with node := fun a => { s.node a with
      lhs := l.lhs a
      rhs := l.rhs a
      btParent := l.parent a
      children := if a = node then l.root else (s.node a).children } }

def setNode (s : NodeStore) (a : ℕ) (n : SmcpNode) : NodeStore :=
  { s with node := Function.update s.node a n }

@[simp] theorem links_setLinks (s : NodeStore) (p : ℕ) (l : Links ℕ) : (s.setLinks p l).links p = l := by
  simp [links, setLinks]

@[simp] theorem setLinks_name (s : NodeStore) (p : ℕ) (l : Links ℕ) (a : ℕ) :
    ((s.setLinks p l).node a).name = (s.node a).name := rfl

@[simp] theorem setLinks_parent (s : NodeStore) (p : ℕ) (l : Links ℕ) (a : ℕ) :
    ((s.setLinks p l).node a).parent = (s.node a).parent := rfl

@[simp] theorem setLinks_inserted (s : NodeStore) (p : ℕ) (l : Links ℕ) :
    (s.setLinks p l).inserted = s.inserted := rfl

theorem setNode_node (s : NodeStore) (a : ℕ) (n : SmcpNode) (b : ℕ) :
    (s.setNode a n).node b = if b = a then n else s.node b := Function.update_apply ..

end NodeStore

/-! ## Comparing names -/

/-- The value of an expression stored in a `bt_compare_result_t`, which is a `signed char`. -/
def btCompareResult (d : ℤ) : ℤ := d.bmod 256

variable (text : ℕ → CStr)

/-- `smcp_node_compare`, on the names of the two nodes. -/
def smcpNodeCompare (lhs rhs : Option ℕ) : ℤ :=
  if lhs = rhs then 0
  else
    match lhs, rhs with
    | none, _ => 1
    | some _, none => -1
    | some l, some r => btCompareResult (strcmp (text l) (text r))

/-- `smcp_node_ncompare_cstr`, on the name of the node. -/
def smcpNodeNcompareCstr (lhs rhs : Option ℕ) (len : ℕ) : ℤ :=
  if lhs = rhs then 0
  else
    match lhs, rhs with
    | none, _ => 1
    | some _, none => -1
    | some l, some r =>
      let ret := btCompareResult (strncmp (text l) (text r) len)
      if ret = 0 then
        if len < (text l).bytes.length then 1
        else if (text l).bytes.length < len then -1
        else ret
      else ret

/-! ## The functions -/

/-- The end of `smcp_node_delete`: the node is removed from the children of its parent and
`finalize` called on it. -/
def removeChild (s : NodeStore) (node parent : ℕ) : NodeStore :=
  let r := btRemove (s.links parent)
    (fun a => smcpNodeCompare text (s.node a).name (s.node node).name) (s.inserted + 1)
  let s' := s.setLinks parent r.1
  match r.2 with
  | none => s'
  | some item =>
    if (s.node node).finalize then { s' with finalized := item :: s'.finalized } else s'

/-- `smcp_node_delete`. While the node has children, a round of the loop deletes the first of
them. -/
def smcpNodeDelete : (fuel : ℕ) → NodeStore → ℕ → NodeStore
  | 0, s, _ => s
  | fuel + 1, s, node =>
    match (s.node node).children with
    | some child => smcpNodeDelete fuel (smcpNodeDelete fuel s child) node
    | none =>
      match (s.node node).parent with
      | none => s
      | some parent => removeChild text s node parent

/-- `smcp_node_alloc`, where `alloc` is what `calloc` returns. -/
def smcpNodeAlloc (s : NodeStore) (alloc : Option ℕ) : NodeStore × Option ℕ :=
  match alloc with
  | none => (s, none)
  | some ret => (s.setNode ret { SmcpNode.zero with finalize := true }, some ret)

/-- The insertion in `smcp_node_init`. A child of the same name is replaced and deleted. -/
def insertChild (s : NodeStore) (ret node : ℕ) : NodeStore :=
  let r := btInsert ret (fun a => smcpNodeCompare text (s.node a).name (s.node ret).name)
    (s.inserted + 1) (s.links node) .root 0
  let s' := { s.setLinks node r.links with inserted := s.inserted + 1 }
  match r.deleted with
  | none => s'
  | some location => smcpNodeDelete text (s'.inserted + 1) s' location

/-- `smcp_node_init`. -/
def smcpNodeInit (s : NodeStore) (self alloc node name : Option ℕ) : NodeStore × Option ℕ :=
  let (s, self) := match self with
    | some _ => (s, self)
    | none => smcpNodeAlloc s alloc
  match self with
  | none => (s, none)
  | some ret =>
    let s := s.setNode ret
      { s.node ret with requestHandler := some .smcpDefaultRequestHandler }
    match node, name with
    | some node, some name =>
      let s := s.setNode ret { s.node ret with name := some name }
      let s := insertChild text s ret node
      (s.setNode ret { s.node ret with parent := some node }, some ret)
    | _, _ => (s, some ret)

/-- `smcp_node_find`. -/
def smcpNodeFind (s : NodeStore) (node : ℕ) (name : Option ℕ) (nameLen : ℕ) : Option ℕ :=
  btFind (s.links node) (fun a => smcpNodeNcompareCstr text (s.node a).name name nameLen)
    (s.inserted + 1) (s.node node).children

/-! ## The order of the names -/

/-- The order that the comparison functions stand for: that of `strcmp`, with no name at the end. -/
def nameOrder (lhs rhs : Option ℕ) : ℤ :=
  match lhs, rhs with
  | none, none => 0
  | none, some _ => 1
  | some _, none => -1
  | some l, some r => strcmp (text l) (text r)

/-- A result that a `signed char` can hold. -/
def FitsChar (d : ℤ) : Prop := -128 ≤ d ∧ d ≤ 127

instance (d : ℤ) : Decidable (FitsChar d) := inferInstanceAs (Decidable (_ ∧ _))

theorem btCompareResult_of_fits {d : ℤ} (h : FitsChar d) : btCompareResult d = d := by
  obtain ⟨hlow, hhigh⟩ := h
  unfold btCompareResult
  exact Int.bmod_eq_of_le (by omega) (by omega)

section
variable {text}

/-- Where the result of `strcmp` fits, `smcp_node_compare` follows the order. -/
theorem smcpNodeCompare_eq {lhs rhs : Option ℕ}
    (h : ∀ l ∈ lhs, ∀ r ∈ rhs, FitsChar (strcmp (text l) (text r))) :
    smcpNodeCompare text lhs rhs = nameOrder text lhs rhs := by
  unfold smcpNodeCompare nameOrder
  cases lhs with
  | none => cases rhs <;> rfl
  | some l =>
    cases rhs with
    | none => rfl
    | some r =>
      dsimp only
      split_ifs with heq
      · rw [Option.some.inj heq, strcmp_self]
      · exact btCompareResult_of_fits (h l rfl r rfl)

theorem isComparison_nameOrder (name : ℕ → Option ℕ) :
    IsComparison fun a b => nameOrder text (name a) (name b) := by
  unfold nameOrder
  constructor
  · intro a
    cases name a with
    | none => rfl
    | some l => exact strcmp_self (text l)
  · intro a b
    cases name a <;> cases name b <;> dsimp only <;> try omega
    rename_i l r
    have hswap := strcmp_swap (text l) (text r)
    omega
  · intro a b c
    cases name a <;> cases name b <;> cases name c <;> dsimp only <;> try omega
    exact strcmp_trans

end

end Smcp
