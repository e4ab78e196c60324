import Smcp.Inbound.Finish
import Smcp.Inbound.Strequal
import Smcp.Node.Route
import Smcp.Url.Parse

/-!
# Variable nodes

`smcp_variable_node_request_handler` of `smcp-variable_node.c`, and `quoted_cstr` of
`url-helpers.c`.

The node function is the application's. A call is known by its action, its index and, for
`SMCP_VAR_SET_VALUE`, the string it is given; what the function answers may depend on the calls
before.

A form is cut into pieces and decoded where it stands in the packet, behind the options. Nothing
reads it again, so the packet stays as it is here.
-/

namespace Smcp

open ByteMemory CStr

/-! ## The node function -/

/-- The actions of a `smcp_variable_node_func`. -/
inductive VarAction where
  | getKey
  | checkKey
  | setValue
  | getValue
  | getLfTitle
  | getMaxAge
  | getEtag
  | getObservable
deriving DecidableEq

def smcpVariableMaxValueLength : ℕ := 127

/-- A string in `buffer`. -/
structure VarText where
  str : CStr
  length_le : str.bytes.length ≤ smcpVariableMaxValueLength

/-- A call of the node function. -/
structure VarCall where
  action : VarAction
  i : ℕ
  value : List UInt8 := []
deriving DecidableEq

/-- What the node function returns, and the string it leaves in `buffer`. -/
structure VarReply where
  status : ℤ
  value : VarText

/-- `struct smcp_variable_node_s`: the function, with the calls so far as an argument, and the
observable. -/
structure VariableNode where
  func : List VarCall → VarCall → VarReply
  observable : ℕ

/-- The instance, and the calls of the node function, the last one first. -/
structure VarState where
  state : Instance
  calls : List VarCall

/-- `BAD_KEY_INDEX`. -/
def badKeyIndex : ℕ := 255

def coapOptionEtag : ℕ := 4
def coapContentTypeTextPlain : ℕ := 0
def coapContentTypeApplicationLinkFormat : ℕ := 40
def smcpContentTypeApplicationFormUrlencoded : ℕ := 65005

/-! ## Looking up the key -/

/-- What the look-up of the key leaves. -/
structure KeyLookup where
  after : VarState
  keyIndex : ℕ
  needsPrefix : Bool
  status : ℤ

/-- The loop over the keys, from `keyIndex` on. -/
def findKey (node : VariableNode) : (fuel : ℕ) → (keyIndex : ℕ) → VarState → KeyLookup
  | 0, keyIndex, v => ⟨v, keyIndex, true, smcpStatusOk⟩
  | fuel + 1, keyIndex, v =>
    let key := node.func v.calls ⟨.getKey, keyIndex, []⟩
    let v := { v with calls := ⟨.getKey, keyIndex, []⟩ :: v.calls }
    if key.status ≠ 0 then ⟨v, keyIndex, true, smcpStatusNotFound⟩
    else if v.state.inbound.optionStrequal coapOptionUriPath key.value.str then
      ⟨{ v with state.inbound := v.state.inbound.nextOption.inbound }, keyIndex, true, smcpStatusOk⟩
    else findKey node fuel (keyIndex + 1) v

/-- The first part of `smcp_variable_node_request_handler`. -/
def lookUpKey (node : VariableNode) (v : VarState) : KeyLookup :=
  let peek := v.state.inbound.peekOption
  if peek.1 = coapOptionUriPath then
    if (peek.2.getD (0, 0)).2 = 0 then
      ⟨{ v with state.inbound := v.state.inbound.nextOption.inbound }, badKeyIndex, false,
        smcpStatusOk⟩
    else findKey node badKeyIndex 0 v
  else ⟨v, badKeyIndex, true, smcpStatusOk⟩

/-! ## The options -/

/-- The variables of the handler that the options decide. -/
structure VarOptions where
  inbound : Inbound
  contentType : ℕ
  contentPtr : ℕ
  contentLen : ℕ
  replyContentType : ℕ

/-- The loop over the options behind the key. -/
def scanVarOptions (method : ℕ) : (fuel : ℕ) → VarOptions → VarOptions × ℤ
  | 0, o => (o, smcpStatusOk)
  | fuel + 1, o =>
    let r := o.inbound.nextOption
    let value := r.value.getD (0, 0)
    let o := { o with inbound := r.inbound }
    if r.key = coapOptionInvalid then (o, smcpStatusOk)
    else if r.key = coapOptionUriPath then (o, smcpStatusNotFound)
    else if r.key = coapOptionUriQuery then
      if method = coapMethodPost ∧ 2 ≤ value.2 ∧
          readBytes r.inbound.bytes value.1 2 = asciiBytes "v=" then
        -- the value is in the query
        scanVarOptions method fuel
          { o with
            contentType := coapContentTypeTextPlain
            contentPtr := value.1 + 2
            contentLen := value.2 - 2 }
      else scanVarOptions method fuel o
    else if r.key = coapOptionAccept then
      scanVarOptions method fuel
        { o with
          replyContentType := if value.2 = 1 then (r.inbound.bytes value.1).toNat else 0 }
    else if coapOptionIsCritical r.key then (o, smcpStatusBadOption)
    else scanVarOptions method fuel o

/-- The variables before the loop. -/
def Inbound.varOptions (i : Inbound) : VarOptions where
  inbound := i
  contentType := i.contentType
  contentPtr := i.contentPtr
  contentLen := i.contentLen
  replyContentType := smcpContentTypeApplicationFormUrlencoded

/-- The options behind the key. -/
def VarState.scanned (method : ℕ) (v : VarState) : VarOptions × ℤ :=
  scanVarOptions method (v.state.inbound.packetLen + 1) v.state.inbound.varOptions

/-! ## Writing a value -/

/-- The loop over the items of a form: the value of the item that it stops at for its name. Behind
the loop the content is empty otherwise. -/
def formValue : (fuel : ℕ) → (form : List UInt8) → List UInt8
  | 0, _ => []
  | fuel + 1, form =>
    let item := urlFormNextValue form true
    if item.bytesParsed = 0 then []
    else
      match item.piece, item.value with
      | some key, some value => if key = asciiBytes "v" then value else formValue fuel item.rest
      | _, _ => []

/-- The string that starts at the content pointer. There is a zero behind the packet. -/
def VarOptions.formString (o : VarOptions) : List UInt8 :=
  cString (readBytes o.inbound.bytes o.contentPtr (o.inbound.packetLen + 1 - o.contentPtr))

/-- The string that the node function is given. -/
def VarOptions.writtenValue (o : VarOptions) : List UInt8 :=
  if o.contentType = smcpContentTypeApplicationFormUrlencoded then
    formValue (o.formString.length + 1) o.formString
  else cString (readBytes o.inbound.bytes o.contentPtr o.contentLen)

/-- The branch of the handler for `POST` and `PUT`. -/
def writeVariable (node : VariableNode) (keyIndex : ℕ) (o : VarOptions) (v : VarState) :
    VarState × ℤ :=
  if v.state.inbound.isDupe then (v, smcpStatusOk)
  else if keyIndex = badKeyIndex then (v, smcpStatusNotAllowed)
  else
    let call : VarCall := ⟨.setValue, keyIndex, o.writtenValue⟩
    let reply := node.func v.calls call
    let v := { v with calls := call :: v.calls }
    if reply.status ≠ 0 then (v, reply.status)
    else
      let r := smcpOutboundBeginResponse v.state (httpToCoapCode 204)
      if r.2 ≠ smcpStatusOk then ({ v with state := r.1 }, r.2)
      else
        let sent := smcpOutboundSend r.1
        ({ v with state := sent.1 }, sent.2)

/-! ## Writing a string -/

/-- The loop of `quoted_cstr`, for `dest_max_size - 1` more characters. -/
def quotedLoop : (room : ℕ) → (src : List UInt8) → List UInt8
  | 0, _ => []
  | _ + 1, [] => []
  | room + 1, [srcChar] => if srcChar = 0 then [] else srcChar :: quotedLoop room []
  | room + 1, srcChar :: next :: src =>
    if srcChar = 0 then []
    else if srcChar = ascii '/' ∧ next = ascii '"' then next :: quotedLoop room src
    else srcChar :: quotedLoop room (next :: src)

/-- `quoted_cstr`. A destination of size `0` gets the terminator all the same. -/
def quotedCstr (src : List UInt8) (destMaxSize : ℕ) : Filled :=
  if destMaxSize ≤ 1 then ⟨[0], 0⟩
  else if destMaxSize = 2 then Filled.after [ascii '"'] ⟨[0], 0⟩
  else Filled.after (ascii '"' :: quotedLoop (destMaxSize - 3) src ++ [ascii '"']) ⟨[0], 0⟩

/-- `stpncpy`: the first `n` bytes of the string, with zeros behind a shorter one. The value is the
distance to the first zero that was stored, or to the end. -/
def stpncpy (src : List UInt8) (n : ℕ) : Filled :=
  ⟨src.take n ++ List.replicate (n - src.length) 0, min n src.length⟩

/-- An integer as a `size_t`. -/
def sizeT (n : ℤ) : ℕ := (n % 18446744073709551616).toNat

/-- The content that is being written. `sizes` is history: the sizes that `url_encode_cstr` and
`quoted_cstr` were given, before they became a `size_t`. -/
structure Listing where
  out : Buffer
  contentPtr : ℕ
  sizes : List ℤ

namespace Listing
variable (contentEndPtr : ℕ)

/-- `*content_ptr++ = c`. -/
def put (l : Listing) (c : UInt8) : Listing :=
  { l with out := l.out.store l.contentPtr c, contentPtr := l.contentPtr + 1 }

/-- `content_ptr += f(content_ptr, ...)`. -/
def fill (l : Listing) (f : Filled) : Listing :=
  { l with out := l.out.copy l.contentPtr f.stored, contentPtr := l.contentPtr + f.ret }

/-- `(content_end_ptr-content_ptr)-1`. -/
def left (l : Listing) : ℤ := (contentEndPtr : ℤ) - l.contentPtr - 1

/-- `url_encode_cstr` with the space that is left. -/
def encode (l : Listing) (src : List UInt8) : Listing :=
  { l.fill (urlEncodeCstr src (sizeT (l.left contentEndPtr))) with
    sizes := l.left contentEndPtr :: l.sizes }

/-- `quoted_cstr` with the space that is left. -/
def quote (l : Listing) (src : List UInt8) : Listing :=
  { l.fill (quotedCstr src (sizeT (l.left contentEndPtr))) with
    sizes := l.left contentEndPtr :: l.sizes }

/-- `stpncpy` with the smaller of the length and the space that is left. -/
def append (l : Listing) (src : List UInt8) : Listing :=
  l.fill (stpncpy src (sizeT (min (src.length : ℤ) (l.left contentEndPtr))))

/-- `strcpy`, and a step over what it wrote. -/
def copy (l : Listing) (src : List UInt8) : Listing := l.fill (Filled.after src ⟨[0], 0⟩)

/-- The link of an entry. -/
def link (needsPrefix : Bool) (key : List UInt8) (l : Listing) : Listing :=
  let l := l.put (ascii '<')
  let l := if needsPrefix then (l.encode contentEndPtr []).append contentEndPtr (asciiBytes "/")
    else l
  (l.encode contentEndPtr key).put (ascii '>')

/-- An attribute of an entry, if the node function had a value for it. -/
def addAttribute (name : String) (reply : VarReply) (l : Listing) : Listing :=
  if reply.status = 0 then (l.copy (asciiBytes name)).quote contentEndPtr reply.value.str.bytes
  else l

end Listing

/-! ## Reading -/

/-- The loop over the keys that lists them, from `keyIndex` on. -/
def listKeys (node : VariableNode) (contentEndPtr : ℕ) (needsPrefix : Bool) :
    (fuel : ℕ) → (keyIndex : ℕ) → List VarCall → Listing → List VarCall × Listing
  | 0, _, calls, l => (calls, l)
  | fuel + 1, keyIndex, calls, l =>
    let key := node.func calls ⟨.getKey, keyIndex, []⟩
    let calls := ⟨.getKey, keyIndex, []⟩ :: calls
    if key.status ≠ 0 ∨ l.contentPtr + 2 ≥ contentEndPtr then (calls, l)
    else
      let l := l.link contentEndPtr needsPrefix key.value.str.bytes
      let value := node.func calls ⟨.getValue, keyIndex, []⟩
      let calls := ⟨.getValue, keyIndex, []⟩ :: calls
      if l.contentPtr + 4 ≥ contentEndPtr then (calls, l)
      else
        let l := l.addAttribute contentEndPtr ";v=" value
        let title := node.func calls ⟨.getLfTitle, keyIndex, []⟩
        let calls := ⟨.getLfTitle, keyIndex, []⟩ :: calls
        if l.contentPtr + 8 ≥ contentEndPtr then (calls, l)
        else
          let l := l.addAttribute contentEndPtr ";title=" title
          let observable := node.func calls ⟨.getObservable, keyIndex, []⟩
          let calls := ⟨.getObservable, keyIndex, []⟩ :: calls
          let l := if observable.status = 0 then l.append contentEndPtr (asciiBytes ";obs") else l
          listKeys node contentEndPtr needsPrefix fuel (keyIndex + 1) calls (l.put (ascii ','))

/-- The number of bytes that `smcp_outbound_get_content_ptr` says there are for the content. -/
def Outbound.maxContentLen (o : Outbound) : ℕ := word16 (o.spaceRemaining + o.contentLen)

/-- The content before the first entry. -/
def Outbound.listing (o : Outbound) : Listing :=
  ⟨⟨o.packetBytes.byte, o.contentPtr⟩, o.contentPtr, []⟩

/-- The keys of the node, written where the content of the message is: the calls of the node
function, what was written, and the length that the content gets. -/
def listContent (node : VariableNode) (needsPrefix : Bool) (calls : List VarCall) (o : Outbound) :
    List VarCall × Listing × ℤ :=
  let contentEndPtr := o.contentPtr + o.maxContentLen
  let r := listKeys node contentEndPtr needsPrefix badKeyIndex 0 calls o.listing
  (r.1, r.2, o.maxContentLen - ((contentEndPtr : ℤ) - r.2.contentPtr))

section
variable (hooks : Hooks)

/-- The branch of the handler for `GET` without a key. -/
def listVariables (node : VariableNode) (needsPrefix : Bool) (v : VarState) : VarState × ℤ :=
  let r := smcpOutboundBeginResponse v.state (httpToCoapCode 205)
  if r.2 ≠ smcpStatusOk then ({ v with state := r.1 }, r.2)
  else
    let s := (smcpOutboundAddOptionUint r.1 coapOptionContentType
      coapContentTypeApplicationLinkFormat).1
    let s := (smcpObservableUpdate hooks s node.observable smcpObservableBroadcastKey).1
    let s := smcpOutboundGetContentPtr s
    let listed := listContent node needsPrefix v.calls s.outbound
    let s :=
      { s with
        outbound.packetBytes := ⟨listed.2.1.out.byte, max s.outbound.packetBytes.top listed.2.1.out.top⟩ }
    let sent := smcpOutboundSend (smcpOutboundSetContentLen s (sizeT listed.2.2))
    (⟨sent.1, listed.1⟩, sent.2)

/-- `isspace`. -/
def isspace (c : UInt8) : Bool := c == ascii ' ' || (9 ≤ c && c ≤ 13)

/-- The value of a digit or a letter. -/
def digitValue (c : UInt8) : ℕ :=
  if ascii '0' ≤ c ∧ c ≤ ascii '9' then (c - ascii '0').toNat
  else if ascii 'A' ≤ c ∧ c ≤ ascii 'Z' then (10 + c - ascii 'A').toNat
  else if ascii 'a' ≤ c ∧ c ≤ ascii 'z' then (10 + c - ascii 'a').toNat
  else 36

/-- The number at the front of a string. -/
def readDigits (base : ℕ) (str : List UInt8) : ℕ :=
  (str.takeWhile fun c => digitValue c < base).foldl (fun n c => n * base + digitValue c) 0

/-- The number at the front of a string, with the prefix of its base. -/
def readNumber : List UInt8 → ℕ
  | 0x30 :: x :: c :: str =>
    if (x = ascii 'x' ∨ x = ascii 'X') ∧ digitValue c < 16 then readDigits 16 (c :: str)
    else readDigits 8 (x :: c :: str)
  | 0x30 :: str => readDigits 8 str
  | str => readDigits 10 str

/-- `strtol` with base `0`. -/
def strtol (str : List UInt8) : ℤ :=
  let str := str.dropWhile isspace
  let n : ℤ := if str.head? = some (ascii '-') then -readNumber str.tail
    else if str.head? = some (ascii '+') then readNumber str.tail
    else readNumber str
  max (-9223372036854775808) (min 9223372036854775807 n)

/-- The content of the answer for one key as a form, and the number of bytes it counts for. The
string is encoded behind the `v=`. -/
def fillFormValue (s : Instance) (value : List UInt8) : Instance :=
  let s := smcpOutboundGetContentPtr s
  let o := s.outbound
  let encoded := urlEncodeCstr value (word16 (o.maxContentLen + 65536 - 2))
  let s := { s with
    outbound.packetBytes := o.packetBytes.copy o.contentPtr (asciiBytes "v=" ++ encoded.stored) }
  smcpOutboundSetContentLen s (word16 encoded.ret + 2)

/-- The Max-Age option of the answer for one key, if the node function has a value for it. -/
def addMaxAge (node : VariableNode) (keyIndex : ℕ) (v : VarState) : VarState :=
  let call : VarCall := ⟨.getMaxAge, keyIndex, []⟩
  let reply := node.func v.calls call
  ⟨if reply.status = 0 then
      (smcpOutboundAddOptionUint v.state coapOptionMaxAge
        (strtol reply.value.str.bytes % 16777216).toNat).1
    else v.state, call :: v.calls⟩

/-- The answer for one key, in the content type that was asked for. -/
def readValue (node : VariableNode) (keyIndex replyContentType : ℕ) (v : VarState) : VarState × ℤ :=
  let isForm := replyContentType = smcpContentTypeApplicationFormUrlencoded
  let v := if isForm then addMaxAge node keyIndex v else v
  let call : VarCall := ⟨.getValue, keyIndex, []⟩
  let reply := node.func v.calls call
  let calls := call :: v.calls
  let value := reply.value.str.bytes
  if reply.status ≠ 0 then (⟨v.state, calls⟩, reply.status)
  else if isForm then
    let etag := (fasthashFinish (fasthashFeed (fasthashStart 0) value)).toNat
    let s := (smcpOutboundAddOptionUint v.state coapOptionContentType
      smcpContentTypeApplicationFormUrlencoded).1
    let s := (smcpOutboundAddOptionUint s coapOptionEtag etag).1
    let sent := smcpOutboundSend (fillFormValue s value)
    (⟨sent.1, calls⟩, sent.2)
  else
    let r := smcpOutboundAppendContent v.state value
    if r.2 ≠ smcpStatusOk then (⟨r.1, calls⟩, r.2)
    else
      let sent := smcpOutboundSend r.1
      (⟨sent.1, calls⟩, sent.2)

/-- The branch of the handler for `GET` with a key. -/
def readVariable (node : VariableNode) (keyIndex replyContentType : ℕ) (v : VarState) :
    VarState × ℤ :=
  let r := smcpOutboundBeginResponse v.state (httpToCoapCode 205)
  if r.2 ≠ smcpStatusOk then ({ v with state := r.1 }, r.2)
  else
    let call : VarCall := ⟨.getObservable, keyIndex, []⟩
    let s := if (node.func v.calls call).status = 0 then
      (smcpObservableUpdate hooks r.1 node.observable keyIndex).1 else r.1
    readValue node keyIndex replyContentType ⟨s, call :: v.calls⟩

/-! ## The handler -/

/-- `smcp_variable_node_request_handler`. -/
def smcpVariableNodeRequestHandler (node : VariableNode) (v : VarState) : VarState × ℤ :=
  let method := headerCode v.state.inbound.bytes
  let found := lookUpKey node v
  if found.status ≠ smcpStatusOk then (found.after, found.status)
  else
    let scanned := found.after.scanned method
    let v := { found.after with state.inbound := scanned.1.inbound }
    if scanned.2 ≠ smcpStatusOk then (v, scanned.2)
    else if method = coapMethodPost ∨ method = coapMethodPut then
      writeVariable node found.keyIndex scanned.1 v
    else if method = coapMethodGet then
      if found.keyIndex = badKeyIndex then listVariables hooks node found.needsPrefix v
      else readVariable hooks node found.keyIndex scanned.1.replyContentType v
    -- `smcp_default_request_handler` lists the children of a node, and allows nothing else
    else (v, smcpStatusNotAllowed)

end

end Smcp
