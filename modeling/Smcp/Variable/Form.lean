import Smcp.Url.Render
import Smcp.Variable.Basic

/-!
# Writing a variable with a form

What `smcp_variable_node_request_handler` hands to the node function when the content of a request
is a form.

* `formText`: the text of a form, items with names and perhaps values;
* `urlFormNextValue_item`: `url_form_next_value` on one item;
* `formValue_formText`: the loop stops at the first item without a value;
* `formWrite_iff`: the value of the first `v=...` is written exactly when no item in front of it
  lacks a value, or when it is empty anyway.
-/

namespace Smcp

open ByteMemory

/-! ## Forms -/

/-- What is between two items. -/
inductive FormSep where
  | ampersand
  | semicolon
deriving DecidableEq

def FormSep.char : FormSep → UInt8
  | .ampersand => ascii '&'
  | .semicolon => ascii ';'

/-- The characters of a name. -/
def isFormNameChar (c : UInt8) : Bool := c != 0 && !isKeyEnd c

/-- The characters of a value. -/
def isFormValueChar (c : UInt8) : Bool := c != 0 && !isFormEnd c

/-- An item, and what is between it and the next one. -/
structure FormItem where
  name : StringOf isFormNameChar
  value : Option (StringOf isFormValueChar)
  sep : FormSep

namespace FormItem

/-- `name` or `name=value`. -/
def text (item : FormItem) : List UInt8 := item.name.val ++ behind (ascii '=') item.value

/-- The item has the name `v`, and a value. -/
def isVariable (item : FormItem) : Bool := item.name.val == asciiBytes "v" && item.value.isSome

end FormItem

/-- The text of a form. -/
def formText : List FormItem → List UInt8
  | [] => []
  | [item] => item.text
  | item :: next :: items => item.text ++ item.sep.char :: formText (next :: items)

/-- The items in front of the first `v=...`. -/
def formPrefix (items : List FormItem) : List FormItem := items.takeWhile fun item => !item.isVariable

section
variable {item : FormItem} {items : List FormItem}

theorem isFormEnd_sep (sep : FormSep) : isFormEnd sep.char = true := by
  cases sep with
  | ampersand => decide
  | semicolon => decide

theorem FormItem.name_chars (item : FormItem) : ∀ c ∈ item.name.val, isKeyEnd c = false := by
  intro c hc
  have hname := item.name.chars c hc
  unfold isFormNameChar at hname
  simpa using (Bool.and_eq_true_iff.1 hname).2

theorem FormItem.value_chars (value : StringOf isFormValueChar) :
    ∀ c ∈ value.val, isFormEnd c = false := by
  intro c hc
  have hvalue := value.chars c hc
  unfold isFormValueChar at hvalue
  simpa using (Bool.and_eq_true_iff.1 hvalue).2

/-- A form has no zeros. -/
theorem FormItem.text_ne_zero (item : FormItem) : ∀ c ∈ item.text, c ≠ 0 := by
  intro c hc
  unfold FormItem.text at hc
  rcases List.mem_append.1 hc with hname | hvalue
  · have h := item.name.chars c hname
    unfold isFormNameChar at h
    simpa using (Bool.and_eq_true_iff.1 h).1
  · cases hv : item.value with
    | none =>
      rw [hv] at hvalue
      exact absurd hvalue List.not_mem_nil
    | some value =>
      rw [hv] at hvalue
      rcases List.mem_cons.1 hvalue with rfl | hin
      · decide
      · have h := value.chars c hin
        unfold isFormValueChar at h
        simpa using (Bool.and_eq_true_iff.1 h).1

theorem formText_ne_zero (items : List FormItem) : ∀ c ∈ formText items, c ≠ 0 := by
  fun_induction formText items with
  | case1 => exact fun c hc => absurd hc List.not_mem_nil
  | case2 item => exact item.text_ne_zero
  | case3 item next items ih =>
    intro c hc
    rcases List.mem_append.1 hc with hitem | hrest
    · exact item.text_ne_zero c hitem
    · rcases List.mem_cons.1 hrest with rfl | hnext
      · cases item.sep with
        | ampersand => decide
        | semicolon => decide
      · exact ih c hnext

/-! ## The tokenizer -/

/-- `url_form_next_value` takes an item and what is behind it. -/
theorem urlFormNextValue_item (item : FormItem) (rest : List UInt8) :
    (urlFormNextValue (item.text ++ item.sep.char :: rest) true).piece = some item.name.val ∧
      (urlFormNextValue (item.text ++ item.sep.char :: rest) true).value =
        item.value.map (fun value => urlDecodeCstrInplace value.val) ∧
      (urlFormNextValue (item.text ++ item.sep.char :: rest) true).rest = rest ∧
      (urlFormNextValue (item.text ++ item.sep.char :: rest) true).bytesParsed ≠ 0 := by
  unfold FormItem.text
  cases item.value with
  | none =>
    rw [behind, List.append_nil, urlFormNextValue_key true item.name_chars (isFormEnd_sep item.sep)]
    exact ⟨rfl, rfl, rfl, Nat.succ_ne_zero _⟩
  | some value =>
    rw [behind, List.append_assoc, List.cons_append, urlFormNextValue_value true item.name_chars
      (FormItem.value_chars value) (isFormEnd_sep item.sep)]
    exact ⟨rfl, rfl, rfl, Nat.succ_ne_zero _⟩

/-- The last item, with a value. -/
theorem urlFormNextValue_last {value : StringOf isFormValueChar} (hvalue : item.value = some value) :
    (urlFormNextValue item.text true).piece = some item.name.val ∧
      (urlFormNextValue item.text true).value = some (urlDecodeCstrInplace value.val) ∧
      (urlFormNextValue item.text true).bytesParsed ≠ 0 := by
  unfold FormItem.text
  rw [hvalue, behind, urlFormNextValue_lastValue true item.name_chars (FormItem.value_chars value)]
  refine ⟨rfl, rfl, ?_⟩
  show item.name.val.length + 1 + value.val.length ≠ 0
  omega

/-! ## The loop -/

/-- The loop of the handler stops at an item without a value, and then nothing is written. -/
theorem formValue_formText {value : StringOf isFormValueChar} {fuel : ℕ}
    (hfirst : items.find? FormItem.isVariable = some item) (hvalue : item.value = some value)
    (hfuel : items.length ≤ fuel) :
    formValue fuel (formText items) =
      if ∀ x ∈ formPrefix items, x.value.isSome then urlDecodeCstrInplace value.val else [] := by
  -- induction on the items: the first one with the name of the value is taken
  induction items generalizing fuel with
  | nil => exact absurd hfirst (by simp)
  | cons x items ih =>
    rw [List.length_cons] at hfuel
    obtain ⟨fuel, rfl⟩ : ∃ n, fuel = n + 1 := ⟨fuel - 1, by omega⟩
    have hfuel : items.length ≤ fuel := by omega
    rw [formValue]
    by_cases hx : x.isVariable = true
    · -- this is the item
      obtain rfl : x = item := by simpa [hx] using hfirst
      have hname : x.name.val = asciiBytes "v" := by
        unfold FormItem.isVariable at hx
        simpa using (Bool.and_eq_true_iff.1 hx).1
      have hprefix : formPrefix (x :: items) = [] := List.takeWhile_cons_of_neg (by simp [hx])
      have hnext : (urlFormNextValue (formText (x :: items)) true).piece = some x.name.val ∧
          (urlFormNextValue (formText (x :: items)) true).value =
            some (urlDecodeCstrInplace value.val) ∧
          (urlFormNextValue (formText (x :: items)) true).bytesParsed ≠ 0 := by
        cases items with
        | nil => exact urlFormNextValue_last hvalue
        | cons next items =>
          obtain ⟨hpiece, hval, -, hparsed⟩ := urlFormNextValue_item x (formText (next :: items))
          rw [hvalue] at hval
          exact ⟨hpiece, hval, hparsed⟩
      obtain ⟨hpiece, hval, hparsed⟩ := hnext
      rw [if_neg hparsed, hpiece, hval, hprefix]
      dsimp only
      rw [if_pos hname, if_pos (fun y hy => absurd hy List.not_mem_nil)]
    · have hfirst' : items.find? FormItem.isVariable = some item := by simpa [hx] using hfirst
      have hprefix : formPrefix (x :: items) = x :: formPrefix items :=
        List.takeWhile_cons_of_pos (by simp [hx])
      cases items with
      | nil => exact absurd hfirst' (by simp)
      | cons next items =>
        obtain ⟨hpiece, hval, hrest, hparsed⟩ := urlFormNextValue_item x (formText (next :: items))
        have htext : formText (x :: next :: items) =
            x.text ++ x.sep.char :: formText (next :: items) := rfl
        rw [htext, if_neg hparsed, hpiece, hval, hrest, hprefix]
        cases hv : x.value with
        | none =>
          rw [if_neg]
          · rfl
          · intro hall
            have hsome := hall x List.mem_cons_self
            rw [hv] at hsome
            exact absurd hsome (by simp)
        | some other =>
          have hname : x.name.val ≠ asciiBytes "v" := by
            intro heq
            apply hx
            unfold FormItem.isVariable
            rw [heq, hv]
            rfl
          dsimp only [Option.map_some]
          rw [if_neg hname, ih hfirst' hfuel]
          have hiff : (∀ y ∈ x :: formPrefix (next :: items), y.value.isSome = true) ↔
              ∀ y ∈ formPrefix (next :: items), y.value.isSome = true := by
            rw [List.forall_mem_cons, hv]
            exact and_iff_right rfl
          simp only [hiff]

end

/-! ## The handler -/

section
variable {node : VariableNode} {v : VarState}

theorem findKey_sameMessage (node : VariableNode) (fuel keyIndex : ℕ) (v : VarState) :
    v.state.inbound.SameMessage (findKey node fuel keyIndex v).after.state.inbound := by
  induction fuel generalizing keyIndex v with
  | zero => exact .refl _
  | succ fuel ih =>
    rw [findKey]
    dsimp only
    split_ifs
    · exact .refl _
    · exact Inbound.sameMessage_nextOption _
    · exact ih (keyIndex + 1) _

/-- Looking up the key moves the iterator. -/
theorem lookUpKey_sameMessage (node : VariableNode) (v : VarState) :
    v.state.inbound.SameMessage (lookUpKey node v).after.state.inbound := by
  unfold lookUpKey
  dsimp only
  split_ifs
  · exact Inbound.sameMessage_nextOption _
  · exact findKey_sameMessage node badKeyIndex 0 v
  · exact .refl _

/-- The options move the iterator. The content is what it was, unless it is plain text from the
query. -/
theorem scanVarOptions_spec (method fuel : ℕ) (o : VarOptions) :
    o.inbound.SameMessage (scanVarOptions method fuel o).1.inbound ∧
      ((scanVarOptions method fuel o).1.contentType = coapContentTypeTextPlain ∨
        (scanVarOptions method fuel o).1.contentType = o.contentType ∧
          (scanVarOptions method fuel o).1.contentPtr = o.contentPtr) := by
  -- induction on the fuel: each option moves the iterator by one
  induction fuel generalizing o with
  | zero => exact ⟨.refl _, .inr ⟨rfl, rfl⟩⟩
  | succ fuel ih =>
    have hnext := o.inbound.sameMessage_nextOption
    have hgoesOn (o' : VarOptions) (hinbound : o'.inbound = o.inbound.nextOption.inbound)
        (hcontent : o'.contentType = coapContentTypeTextPlain ∨
          o'.contentType = o.contentType ∧ o'.contentPtr = o.contentPtr) :
        o.inbound.SameMessage (scanVarOptions method fuel o').1.inbound ∧
          ((scanVarOptions method fuel o').1.contentType = coapContentTypeTextPlain ∨
            (scanVarOptions method fuel o').1.contentType = o.contentType ∧
              (scanVarOptions method fuel o').1.contentPtr = o.contentPtr) := by
      obtain ⟨hsame, hscan⟩ := ih o'
      rw [hinbound] at hsame
      refine ⟨hnext.trans hsame, ?_⟩
      rcases hscan with hplain | ⟨htype, hptr⟩
      · exact .inl hplain
      · rw [htype, hptr]
        exact hcontent
    rw [scanVarOptions]
    dsimp only
    split_ifs
    · exact ⟨hnext, .inr ⟨rfl, rfl⟩⟩
    · exact ⟨hnext, .inr ⟨rfl, rfl⟩⟩
    · exact hgoesOn _ rfl (.inl rfl)
    · exact hgoesOn _ rfl (.inr ⟨rfl, rfl⟩)
    · exact hgoesOn _ rfl (.inr ⟨rfl, rfl⟩)
    · exact hgoesOn _ rfl (.inr ⟨rfl, rfl⟩)
    · exact ⟨hnext, .inr ⟨rfl, rfl⟩⟩
    · exact hgoesOn _ rfl (.inr ⟨rfl, rfl⟩)

/-- The options behind the key. -/
theorem scanned_spec (method : ℕ) (v : VarState) :
    v.state.inbound.SameMessage (v.scanned method).1.inbound ∧
      ((v.scanned method).1.contentType = coapContentTypeTextPlain ∨
        (v.scanned method).1.contentType = v.state.inbound.contentType ∧
          (v.scanned method).1.contentPtr = v.state.inbound.contentPtr) :=
  scanVarOptions_spec method _ v.state.inbound.varOptions

/-- A request that writes the form to a key of the node: it is not a duplicate, the node function
has the key, the options behind the key are in order and none of them has the value. -/
structure FormWrite (node : VariableNode) (v : VarState) (items : List FormItem) : Prop where
  method : headerCode v.state.inbound.bytes = coapMethodPost ∨
    headerCode v.state.inbound.bytes = coapMethodPut
  fresh : v.state.inbound.isDupe = false
  found : (lookUpKey node v).status = smcpStatusOk
  key : (lookUpKey node v).keyIndex ≠ badKeyIndex
  options : ((lookUpKey node v).after.scanned (headerCode v.state.inbound.bytes)).2 = smcpStatusOk
  form : ((lookUpKey node v).after.scanned (headerCode v.state.inbound.bytes)).1.contentType =
    smcpContentTypeApplicationFormUrlencoded
  content : readBytes v.state.inbound.bytes v.state.inbound.contentPtr v.state.inbound.contentLen =
    formText items
  behind : v.state.inbound.contentPtr + v.state.inbound.contentLen = v.state.inbound.packetLen
  zero : v.state.inbound.bytes v.state.inbound.packetLen = 0

/-- The form that is taken apart is the content. -/
theorem FormWrite.formString_eq {items : List FormItem} (h : FormWrite node v items) :
    ((lookUpKey node v).after.scanned (headerCode v.state.inbound.bytes)).1.formString =
      formText items := by
  have hform := h.form
  have hfound := lookUpKey_sameMessage node v
  obtain ⟨hscan, hcontent⟩ := scanned_spec (headerCode v.state.inbound.bytes) (lookUpKey node v).after
  generalize (lookUpKey node v).after.scanned (headerCode v.state.inbound.bytes) = scanned at *
  have hptr : scanned.1.contentPtr = v.state.inbound.contentPtr := by
    rcases hcontent with hplain | ⟨-, hptr⟩
    · exact absurd (hplain.symm.trans hform) (by decide)
    · exact hptr.trans hfound.contentPtr
  have hsame := hfound.trans hscan
  have hsize : v.state.inbound.packetLen + 1 - v.state.inbound.contentPtr =
      v.state.inbound.contentLen + 1 := by
    have hbehind := h.behind
    omega
  have hzero : readBytes v.state.inbound.bytes v.state.inbound.packetLen 1 = [0] := by
    rw [readBytes, readBytes, h.zero]
  unfold VarOptions.formString
  rw [hsame.bytes, hsame.packetLen, hptr, hsize, readBytes_add, h.content, h.behind, hzero]
  exact cString_append_zero [] (formText_ne_zero items)

/-- The node function is called once, with what was made of the form. -/
theorem FormWrite.calls_eq {items : List FormItem} (h : FormWrite node v items) (hooks : Hooks) :
    (smcpVariableNodeRequestHandler hooks node v).1.calls =
      ⟨.setValue, (lookUpKey node v).keyIndex,
        formValue ((formText items).length + 1) (formText items)⟩ ::
          (lookUpKey node v).after.calls := by
  have hstring := h.formString_eq
  have hform := h.form
  have hdupe : ((lookUpKey node v).after.scanned (headerCode v.state.inbound.bytes)).1.inbound.isDupe =
      false := by
    have hsame := (lookUpKey_sameMessage node v).trans
      (scanned_spec (headerCode v.state.inbound.bytes) (lookUpKey node v).after).1
    rw [hsame.isDupe]
    exact h.fresh
  unfold smcpVariableNodeRequestHandler
  dsimp only
  rw [if_neg (not_not.2 h.found), if_neg (not_not.2 h.options), if_pos h.method]
  generalize (lookUpKey node v).after.scanned (headerCode v.state.inbound.bytes) = scanned at *
  have hwritten : scanned.1.writtenValue = formValue ((formText items).length + 1) (formText items) := by
    unfold VarOptions.writtenValue
    rw [if_pos hform, hstring]
  unfold writeVariable
  dsimp only
  rw [if_neg (by rw [hdupe]; decide), if_neg h.key, hwritten]
  split_ifs <;> rfl

/-- The number of items is bounded by the text. -/
theorem length_le_formText (items : List FormItem) : items.length ≤ (formText items).length + 1 := by
  fun_induction formText items with
  | case1 => exact Nat.zero_le _
  | case2 item => exact Nat.le_add_left 1 _
  | case3 item next items ih =>
    simp only [List.length_append, List.length_cons] at ih ⊢
    omega

variable {items : List FormItem} {item : FormItem} {value : StringOf isFormValueChar}

/-- A form writes the decoded value of its first `v=...`, exactly when every item in front of that
has a value too, or when there is nothing to write. -/
theorem formWrite_iff (hooks : Hooks) (h : FormWrite node v items)
    (hfirst : items.find? FormItem.isVariable = some item) (hvalue : item.value = some value) :
    (smcpVariableNodeRequestHandler hooks node v).1.calls =
        ⟨.setValue, (lookUpKey node v).keyIndex, urlDecodeCstrInplace value.val⟩ ::
          (lookUpKey node v).after.calls ↔
      (∀ x ∈ formPrefix items, x.value.isSome) ∨ urlDecodeCstrInplace value.val = [] := by
  rw [h.calls_eq, formValue_formText hfirst hvalue (length_le_formText items), List.cons.injEq,
    VarCall.mk.injEq]
  by_cases hall : ∀ x ∈ formPrefix items, x.value.isSome
  · rw [if_pos hall]
    exact iff_of_true ⟨⟨rfl, rfl, rfl⟩, rfl⟩ (.inl hall)
  · rw [if_neg hall]
    constructor
    · exact fun hcall => .inr hcall.1.2.2.symm
    · intro hor
      exact ⟨⟨rfl, rfl, (hor.resolve_left hall).symm⟩, rfl⟩

end

/-! ## Two forms -/

/-- A string without zeros, in `buffer`. -/
def varText (s : List UInt8) (h : s.all (· ≠ 0) = true) (hlen : s.length ≤ smcpVariableMaxValueLength) :
    VarText :=
  ⟨⟨s, fun c hc => by simpa using List.all_eq_true.1 h c hc⟩, hlen⟩

/-- A node with one key `k`, which takes every value. -/
def keyNode : VariableNode where
  func _ call :=
    ⟨if call.i = 0 then smcpStatusOk else smcpStatusNotFound,
      varText (asciiBytes "k") (by decide) (by decide)⟩
  observable := 0

/-- A `POST` of a form to the key `k`, when it gets to the handler. -/
def formRequest (form : List UInt8) : VarState where
  state :=
    let packet := [0x40, 0x02, 0, 1, 0xB1, 0x6B, 0x12, 0xFD, 0xED, 0xFF] ++ form
    preparePacket ((smcpCreate default (fun _ => 0) fun _ => 1).arrived
      (ofList packet fun _ => 0) packet.length default none)
  calls := []

/-- The item `name=value`. -/
def namedItem (name value : List UInt8) (h : name.all isFormNameChar = true)
    (h' : value.all isFormValueChar = true) : FormItem :=
  ⟨.ofAll name h, some (.ofAll value h'), .ampersand⟩

/-- The item `v=1`. -/
def valueItem : FormItem := namedItem (asciiBytes "v") (asciiBytes "1") (by decide) (by decide)

/-- The item `a`. -/
def bareItem : FormItem := ⟨.ofAll (asciiBytes "a") (by decide), none, .ampersand⟩

/-- The hooks of an application that is not asked. -/
def noHooks : Hooks := fun _ s => (s, smcpStatusOk)

theorem formWrite_value : FormWrite keyNode (formRequest (formText [valueItem])) [valueItem] where
  method := by decide +kernel
  fresh := by decide +kernel
  found := by decide +kernel
  key := by decide +kernel
  options := by decide +kernel
  form := by decide +kernel
  content := by decide +kernel
  behind := by decide +kernel
  zero := by decide +kernel

theorem formWrite_iff_one :
    (smcpVariableNodeRequestHandler noHooks keyNode (formRequest (formText [valueItem]))).1.calls =
      [⟨.setValue, 0, asciiBytes "1"⟩, ⟨.getKey, 0, []⟩] := by
  have hkey : (lookUpKey keyNode (formRequest (formText [valueItem]))).keyIndex = 0 := by
    decide +kernel
  have hcalls : (lookUpKey keyNode (formRequest (formText [valueItem]))).after.calls =
      [⟨.getKey, 0, []⟩] := by decide +kernel
  have hdecode : urlDecodeCstrInplace (asciiBytes "1") = asciiBytes "1" := by decide +kernel
  have hwritten := (@formWrite_iff _ _ _ valueItem (.ofAll (asciiBytes "1") (by decide)) noHooks
    formWrite_value rfl rfl).2 (.inl (by decide))
  rw [hkey, hcalls] at hwritten
  exact hwritten.trans (congrArg (fun s => [(⟨.setValue, 0, s⟩ : VarCall), ⟨.getKey, 0, []⟩]) hdecode)

theorem formWrite_bareItem :
    FormWrite keyNode (formRequest (formText [bareItem, valueItem])) [bareItem, valueItem] where
  method := by decide +kernel
  fresh := by decide +kernel
  found := by decide +kernel
  key := by decide +kernel
  options := by decide +kernel
  form := by decide +kernel
  content := by decide +kernel
  behind := by decide +kernel
  zero := by decide +kernel

/-- The form `a&v=1` writes the empty string. -/
theorem formWrite_empty : ¬∀ (hooks : Hooks) (node : VariableNode) (v : VarState)
    (items : List FormItem) (item : FormItem) (value : StringOf isFormValueChar),
    FormWrite node v items → items.find? FormItem.isVariable = some item → item.value = some value →
      (smcpVariableNodeRequestHandler hooks node v).1.calls =
        ⟨.setValue, (lookUpKey node v).keyIndex, urlDecodeCstrInplace value.val⟩ ::
          (lookUpKey node v).after.calls := by
  intro hclaim
  have hcalls := hclaim noHooks keyNode _ _ valueItem (.ofAll (asciiBytes "1") (by decide))
    formWrite_bareItem rfl rfl
  rw [formWrite_bareItem.calls_eq, List.cons.injEq, VarCall.mk.injEq] at hcalls
  have hwritten := hcalls.1.2.2
  exact absurd hwritten (by decide +kernel)

end Smcp
