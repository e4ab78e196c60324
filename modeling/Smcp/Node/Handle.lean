import Smcp.Node.Path
import Smcp.Variable.Basic

/-!
# Requests to nodes

`smcp_handle_list` of `smcp-list.c`, and `smcp_default_request_handler` and
`smcp_node_router_handler` of `smcp-node-router.c`.

The strings in the packet have addresses like the names of the nodes, as in `Smcp.Node.Route`.
Reading the name of a node that has none is a `fault`.
-/

namespace Smcp

open ByteMemory CStr StringBuffer

/-! ## The listing of the children -/

/-- `if(content_break_threshold-1>len) url_encode_cstr(replyContent+len, src, ...)`. -/
def listEncode (threshold : ℕ) (reply src : List UInt8) : List UInt8 :=
  if sizeT ((threshold : ℤ) - 1) > reply.length then
    reply ++ cString (urlEncodeCstr src (sizeT ((threshold : ℤ) - reply.length))).stored
  else reply

variable (text : ℕ → CStr)

/-- The entry of a node with the given name. -/
def listEntry (s : NodeStore) (threshold : ℕ) (namePrefix : Option (List UInt8)) (node : ℕ)
    (name : List UInt8) (reply : List UInt8) : List UInt8 :=
  let cat (reply : List UInt8) (src : String) : List UInt8 :=
    strlcat reply (asciiBytes src) threshold
  let reply := cat reply "<"
  let reply := match namePrefix with
    | some namePrefix => cat (listEncode threshold reply namePrefix) "/"
    | none => reply
  let reply := listEncode threshold reply name
  let n := s.node node
  let reply := if n.children.isSome then cat reply "/" else reply
  let reply := cat reply ">"
  let reply := if n.children.isSome ∨ n.hasLinkContent then cat reply ";ct=40" else reply
  if n.isObservable then cat reply ";obs" else reply

/-- The loop of `smcp_handle_list` over the children of `parent`, from `node` on. -/
def listChildren (s : NodeStore) (threshold : ℕ) (namePrefix : Option (List UInt8)) (parent : ℕ) :
    (fuel : ℕ) → (node : Option ℕ) → (reply : List UInt8) → List UInt8
  | 0, _, reply => reply
  | _ + 1, none, reply => reply
  | fuel + 1, some node, reply =>
    match (s.node node).name with
    | none => reply
    | some name =>
      let name := (text name).bytes
      if name.length + 4 > sizeT ((threshold : ℤ) - reply.length - 3) then reply
      else
        let next := btNext (s.links parent) (s.inserted + 1) node
        let reply := listEntry s threshold namePrefix node name reply
        listChildren s threshold namePrefix parent fuel next
          (if next.isSome then strlcat reply (asciiBytes ",") threshold else reply)

/-- The part of `smcp_handle_list` that composes the answer. -/
def sendList (s : NodeStore) (node : ℕ) (namePrefix : Option (List UInt8)) (u : Instance) :
    Instance × ℤ :=
  let r := smcpOutboundBeginResponse u (httpToCoapCode 205)
  if r.2 ≠ smcpStatusOk then r
  else
    let r := smcpOutboundAddOptionUint r.1 coapOptionContentType
      coapContentTypeApplicationLinkFormat
    if r.2 ≠ smcpStatusOk then r
    else
      let u := smcpOutboundGetContentPtr r.1
      let o := u.outbound
      let first := (s.node node).children.map fun root =>
        btFirst (s.links node) (s.inserted + 1) root
      let reply := listChildren text s o.maxContentLen namePrefix node (s.inserted + 1) first []
      let u := { u with outbound.packetBytes := o.packetBytes.copy o.contentPtr (reply ++ [0]) }
      smcpOutboundSend (smcpOutboundSetContentLen u reply.length)

/-! ## The list handler -/

/-- The loop of `smcp_handle_list` over the options. -/
def scanListOptions : (fuel : ℕ) → Inbound → Inbound × ℤ
  | 0, i => (i, smcpStatusOk)
  | fuel + 1, i =>
    let r := i.nextOption
    if r.key = coapOptionInvalid then (r.inbound, smcpStatusOk)
    else if r.key = coapOptionUriPath then (r.inbound, smcpStatusNotFound)
    else if r.key = coapOptionUriQuery then scanListOptions fuel r.inbound
    else if coapOptionIsCritical r.key then (r.inbound, smcpStatusBadOption)
    else scanListOptions fuel r.inbound

/-- What `smcp_handle_list` makes of the path that is left: the iterator, the prefix, and the
status. -/
structure ListPath where
  inbound : Inbound
  namePrefix : Option (List UInt8)
  status : ℤ

/-- `/.well-known/core` at a node without a parent. -/
def listWellKnown (hasParent : Bool) (namePrefix : Option (List UInt8)) (i : Inbound) : ListPath :=
  if hasParent = false ∧
      i.optionStrequal coapOptionUriPath (stringAt (asciiBytes ".well-known")) then
    let i := i.nextOption.inbound
    if i.optionStrequal coapOptionUriPath (stringAt (asciiBytes "core")) then
      ⟨i.nextOption.inbound, some [], smcpStatusOk⟩
    else ⟨i, namePrefix, smcpStatusNotAllowed⟩
  else ⟨i, namePrefix, smcpStatusOk⟩

/-- The part of `smcp_handle_list` behind the path. -/
def listBehindPath (s : NodeStore) (node : ℕ) (namePrefix : Option (List UInt8)) (u : Instance) :
    Instance × ℤ :=
  let scanned := scanListOptions (u.inbound.packetLen + 1) u.inbound
  let u := { u with inbound := scanned.1 }
  if scanned.2 ≠ smcpStatusOk then (u, scanned.2) else sendList text s node namePrefix u

/-- `smcp_handle_list`. -/
def smcpHandleList (s : NodeStore) (node : ℕ) (u : Instance) : Instance × ℤ :=
  let n := s.node node
  let path := listWellKnown n.parent.isSome (n.name.map fun name => (text name).bytes) u.inbound
  let u := { u with inbound := path.inbound }
  if path.status ≠ smcpStatusOk then (u, path.status)
  else if path.inbound.optionStrequal coapOptionUriPath (stringAt []) then
    -- a trailing slash
    let u := { u with inbound := path.inbound.nextOption.inbound }
    match path.namePrefix with
    | none => ({ u with fault := true }, smcpStatusFailure)
    | some [] => listBehindPath text s node (some []) u
    | some _ => listBehindPath text s node none u
  else listBehindPath text s node path.namePrefix u

/-- `smcp_default_request_handler`. -/
def smcpDefaultRequestHandler (s : NodeStore) (node : ℕ) (u : Instance) : Instance × ℤ :=
  if headerCode u.inbound.bytes = coapMethodGet then smcpHandleList text s node u
  else (u, smcpStatusNotAllowed)

/-! ## The router -/

/-- A tree of nodes, and what the handlers of its nodes use: the address of the inbound packet, the
number that stands for `smcp_variable_node_request_handler`, and the variable nodes. -/
structure NodeApp where
  text : ℕ → CStr
  store : NodeStore
  root : ℕ
  packetAddr : ℕ
  variableHandler : ℕ
  variableNode : ℕ → VariableNode
  /-- Other handlers, with their contexts. -/
  otherHandler : ℕ → ℕ → VarState → VarState × ℤ

namespace NodeApp
variable (hooks : Hooks) (app : NodeApp)

/-- The route of the request. -/
def route (i : Inbound) : NodeRoute := smcpNodeRoute app.text app.store app.packetAddr i app.root

/-- `(*handler)(context)`. -/
def callHandler (handler : RequestHandler) (context : ℕ) (v : VarState) : VarState × ℤ :=
  match handler with
  | .smcpDefaultRequestHandler =>
    let r := smcpDefaultRequestHandler app.text app.store context v.state
    ({ v with state := r.1 }, r.2)
  | .other func =>
    if func = app.variableHandler then
      smcpVariableNodeRequestHandler hooks (app.variableNode context) v
    else app.otherHandler func context v

/-- `smcp_node_router_handler`. It does not look at the status of `smcp_node_route`. -/
def smcpNodeRouterHandler (v : VarState) : VarState × ℤ :=
  let r := app.route v.state.inbound
  let v := { v with state.inbound := r.inbound }
  match r.target with
  | some (some handler, context) => app.callHandler hooks handler context v
  | _ => (v, smcpStatusNotImplemented)

/-- The application whose requests go to the router. `calls` are the calls of node functions so
far. -/
def requestHooks (calls : List VarCall) : Hooks
  | .request _, u => let r := app.smcpNodeRouterHandler hooks ⟨u, calls⟩; (r.1.state, r.2)
  | c, u => hooks c u

/-- The router starts with the first option, wherever the iterator is. -/
theorem smcpNodeRouterHandler_sameMessage {v : VarState} {i : Inbound}
    (h : v.state.inbound.SameMessage i) :
    app.smcpNodeRouterHandler hooks { v with state.inbound := i } =
      app.smcpNodeRouterHandler hooks v := by
  obtain ⟨key, option, rfl⟩ := h
  rfl

/-- `smcp_handle_request` with this application is the router. -/
theorem handleRequest_router {u : Instance} (calls : List VarCall) (h : u.requestHandler.isSome) :
    smcpHandleRequest (app.requestHooks hooks calls) u =
      ((app.smcpNodeRouterHandler hooks ⟨u, calls⟩).1.state,
        (app.smcpNodeRouterHandler hooks ⟨u, calls⟩).2) := by
  obtain ⟨i, k, hsame, hhandle⟩ := handleRequest_eq (app.requestHooks hooks calls) h
  have hrouter := app.smcpNodeRouterHandler_sameMessage hooks (v := ⟨u, calls⟩) hsame
  rw [hhandle, ← hrouter]
  rfl

end NodeApp

end Smcp
