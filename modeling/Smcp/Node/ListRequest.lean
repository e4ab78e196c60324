import Smcp.Node.Critical
import Smcp.Outbound.Bare

/-!
# Listing as the client asks for it

`resend_list_request` of `cmd_list.c`, the request with which `smcpctl` lists a node, and the list
handler that gets it.

* `resendListRequest_sent`: the request has an Accept option, whatever the URL is;
* `replyToRequest_noListing`: the automatic reply is no listing;
* `listRequest_not_listed`: the list handler refuses the request.
-/

namespace Smcp

open ByteMemory OptionFormat

/-! ## The client -/

/-- `resend_list_request`. -/
def resendListRequest (env : UriEnv) (s : Instance) (urlData : List UInt8) : Instance × ℤ :=
  onSuccess (smcpOutboundBegin s coapMethodGet coapTransTypeConfirmable) fun s =>
  onSuccess (smcpOutboundSetUri env s urlData 0) fun s =>
  onSuccess (smcpOutboundAddOptionUint s coapOptionAccept
    coapContentTypeApplicationLinkFormat) fun s =>
  smcpOutboundSend s

/-- A message without content and with the code is being composed; what was sent is `sent`. -/
structure Asking (code : ℕ) (sent : List Datagram) (s : Instance) : Prop where
  bare : ∃ opts, Bare s.outbound opts
  code_eq : s.outbound.header.code = code
  sent_eq : s.sent = sent

section
variable {code : ℕ} {sent : List Datagram} {s : Instance} {env : UriEnv}

theorem Asking.onSuccess {r : Instance × ℤ} {f : Instance → Instance × ℤ} (h : Asking code sent r.1)
    (hf : ∀ s, Asking code sent s → Asking code sent (f s).1) :
    Asking code sent (Smcp.onSuccess r f).1 := by
  unfold Smcp.onSuccess
  split_ifs
  · exact h
  · exact hf r.1 h

theorem Asking.addOption (h : Asking code sent s) {key : ℕ} (hkey : key ≤ coapOptionInvalid)
    (value : List UInt8) : Asking code sent (smcpOutboundAddOption s key value).1 := by
  obtain ⟨opts, hb⟩ := h.bare
  obtain ⟨opts', hb', -, he, -⟩ := hb.addOption s.autoOptions hkey value
  refine ⟨⟨opts', hb'⟩, ?_, h.sent_eq⟩
  rw [← h.code_eq]
  exact congrArg CoapHeader.code he.header_eq

theorem Asking.addOptions (h : Asking code sent s) {added : List (ℕ × List UInt8)}
    (hkeys : ∀ o ∈ added, o.1 ≤ coapOptionInvalid) :
    Asking code sent (Smcp.addOptions s added).1 := by
  induction added generalizing s with
  | nil => exact h
  | cons o added ih =>
    rw [Smcp.addOptions]
    apply (h.addOption (hkeys o List.mem_cons_self) o.2).onSuccess
    intro s hs
    exact ih hs fun o' ho' => hkeys o' (List.mem_cons_of_mem o ho')

/-- Another destination, or another type. -/
theorem Asking.of_header (h : Asking code sent s) {s' : Instance} {saddr : SockAddr} {tt : ℕ}
    (htt : tt < 4)
    (hout : s'.outbound = { s.outbound with saddr := saddr, header.tt := tt })
    (hsent : s'.sent = s.sent) : Asking code sent s' := by
  obtain ⟨opts, hc, hb, hlen, hversion, -, htoken⟩ := h.bare
  refine ⟨⟨opts, ?_⟩, ?_, hsent.trans h.sent_eq⟩
  · rw [hout]
    exact ⟨⟨hc.ordered, hc.read, hc.start_lt, hc.marker, hc.lastKey_eq, hc.max_eq⟩, hb, hlen,
      hversion, htt, htoken⟩
  · rw [hout]
    exact h.code_eq

theorem Asking.setDestaddr (h : Asking code sent s) (sockaddr : SockAddr) :
    Asking code sent (smcpOutboundSetDestaddr s sockaddr) := by
  obtain ⟨opts, hb⟩ := h.bare
  apply h.of_header hb.tt_lt (setDestaddr_outbound s sockaddr)
  unfold smcpOutboundSetDestaddr
  dsimp only
  split
  · rfl
  · rfl

theorem Asking.setTt (h : Asking code sent s) (tt : ℕ) :
    Asking code sent (smcpOutboundSetTt s tt) := by
  have hout : (smcpOutboundSetTt s tt).outbound =
      { s.outbound with saddr := s.outbound.saddr, header.tt := tt % 4 } := rfl
  exact h.of_header (Nat.mod_lt tt (by decide)) hout rfl

theorem Asking.setDestaddrFromHost (h : Asking code sent s) (addrStr : List UInt8) (toport : ℕ) :
    Asking code sent (smcpOutboundSetDestaddrFromHostAndPort env s addrStr toport).1 := by
  unfold smcpOutboundSetDestaddrFromHostAndPort
  dsimp only
  split
  · exact h
  · split_ifs
    · exact (h.setDestaddr _).setTt _
    · exact h.setDestaddr _

theorem uriAuthorityOptions_keys (c : UrlComponents) (toport : ℕ) :
    ∀ o ∈ uriAuthorityOptions c toport, o.1 ≤ coapOptionInvalid := by
  intro o ho
  unfold uriAuthorityOptions at ho
  rcases List.mem_append.1 ho with hin | hin
  · cases hhost : c.host with
    | none =>
      rw [hhost] at hin
      exact absurd hin List.not_mem_nil
    | some host =>
      rw [hhost] at hin
      dsimp only at hin
      split_ifs at hin
      · exact absurd hin List.not_mem_nil
      · rw [List.mem_singleton.1 hin]
        exact (by decide : coapOptionUriHost ≤ coapOptionInvalid)
  · cases hport : c.port with
    | none =>
      rw [hport] at hin
      exact absurd hin List.not_mem_nil
    | some port =>
      rw [hport] at hin
      rw [List.mem_singleton.1 hin]
      exact (by decide : coapOptionUriPort ≤ coapOptionInvalid)

theorem uriPathOptions_keys (path : List UInt8) :
    ∀ o ∈ uriPathOptions path, o.1 ≤ coapOptionInvalid := by
  intro o ho
  have hkey : o.1 = coapOptionUriPath := by
    unfold uriPathOptions at ho
    dsimp only at ho
    rcases List.mem_append.1 ho with hin | hin
    · obtain ⟨component, -, rfl⟩ := List.mem_map.1 hin
      rfl
    · split_ifs at hin
      · rw [List.mem_singleton.1 hin]
      · exact absurd hin List.not_mem_nil
  rw [hkey]
  decide

theorem uriQueryOptions_keys (query : List UInt8) :
    ∀ o ∈ uriQueryOptions query, o.1 ≤ coapOptionInvalid := by
  intro o ho
  obtain ⟨key, -, rfl⟩ := List.mem_map.1 ho
  exact (by decide : coapOptionUriQuery ≤ coapOptionInvalid)

theorem Asking.setComponents (h : Asking code sent s) (c : UrlComponents) (toport flags : ℕ) :
    Asking code sent (Smcp.setComponents env s c toport flags).1 := by
  unfold Smcp.setComponents
  dsimp only
  -- the options of the path and of the query have keys in front of the end mark
  have hpath : ∀ o ∈ (c.path.map uriPathOptions).getD [], o.1 ≤ coapOptionInvalid := by
    cases c.path with
    | none => exact fun o ho => absurd ho List.not_mem_nil
    | some path => exact uriPathOptions_keys path
  have hquery : ∀ o ∈ (c.query.map uriQueryOptions).getD [], o.1 ≤ coapOptionInvalid := by
    cases c.query with
    | none => exact fun o ho => absurd ho List.not_mem_nil
    | some query => exact uriQueryOptions_keys query
  apply Asking.onSuccess
  -- the path first, and then the query
  · split_ifs
    · exact h
    · exact h.addOptions (uriAuthorityOptions_keys c toport)
  · intro s hs
    apply Asking.onSuccess
    · split_ifs
      · exact hs.setDestaddrFromHost _ _
      · exact hs
    · intro s hs
      apply Asking.onSuccess
      · split
        · unfold smcpAuthOutboundSetCredentials
          split_ifs
          · exact hs
          · exact hs.addOption (by decide) []
        · exact hs
      · intro s hs
        exact (hs.addOptions hpath).onSuccess fun s hs => hs.addOptions hquery

theorem Asking.setUri (h : Asking code sent s) {proxy : Instance → Instance × ℤ}
    (hproxy : ∀ s, Asking code sent s → Asking code sent (proxy s).1) (uri : List UInt8)
    (flags : ℕ) : Asking code sent (Smcp.setUri env proxy s uri flags).1 := by
  unfold Smcp.setUri
  dsimp only
  split_ifs
  · exact h
  · exact h.setComponents _ _ _
  · split
    · split_ifs
      · exact h
      · exact hproxy s h
      · exact h.setComponents _ _ _
    · exact h.setComponents _ _ _

variable (env) in
theorem Asking.outboundSetUri (h : Asking code sent s) (uri : List UInt8) (flags : ℕ) :
    Asking code sent (smcpOutboundSetUri env s uri flags).1 := by
  unfold smcpOutboundSetUri
  dsimp only
  apply h.setUri
  intro s hs
  split
  · exact hs
  · exact (hs.addOption (by decide) uri).onSuccess fun s hs => hs.setUri (fun s hs => hs) _ _

/-- The request that is sent is a GET with an Accept option. -/
theorem resendListRequest_sent {urlData : List UInt8} {d : Datagram}
    (hsent : (resendListRequest env s urlData).1.sent = s.sent ++ [d]) :
    ∃ o opts, Bare o opts ∧ o.header.code = coapMethodGet ∧ d = ⟨o.saddr, o.bytes o.sendLength⟩ ∧
      (coapOptionAccept, [UInt8.ofNat coapContentTypeApplicationLinkFormat]) ∈ opts := by
  -- the request is begun with the method GET
  have hbegin : Asking coapMethodGet s.sent
      (smcpOutboundBegin s coapMethodGet coapTransTypeConfirmable).1 :=
    ⟨⟨[], bare_begin s _ _⟩, rfl, rfl⟩
  have huri := hbegin.outboundSetUri env urlData 0
  -- what sends nothing cannot have sent the datagram
  have hnothing {t : Instance} (ht : t.sent = s.sent) : t.sent ≠ s.sent ++ [d] := by
    rw [ht]
    simp
  unfold resendListRequest at hsent
  rw [onSuccess_ok _ rfl] at hsent
  generalize smcpOutboundSetUri env _ urlData 0 = r at huri hsent
  -- an URL that cannot be set sends nothing either
  by_cases hok : r.2 = smcpStatusOk
  · rw [onSuccess_ok _ hok] at hsent
    obtain ⟨opts, hb⟩ := huri.bare
    obtain ⟨opts', hb', -, he, hin⟩ := hb.addOption r.1.autoOptions
      (by decide : coapOptionAccept ≤ coapOptionInvalid)
      (uintOptionValue coapContentTypeApplicationLinkFormat)
    have hadded : (smcpOutboundAddOptionUint r.1 coapOptionAccept
        coapContentTypeApplicationLinkFormat).1.sent = s.sent := huri.sent_eq
    by_cases haccept : (smcpOutboundAddOptionUint r.1 coapOptionAccept
        coapContentTypeApplicationLinkFormat).2 = smcpStatusOk
    · rw [onSuccess_ok _ haccept] at hsent
      have hsend := Bare.send (s := (smcpOutboundAddOptionUint r.1 coapOptionAccept
        coapContentTypeApplicationLinkFormat).1) hb'
      rcases hsend with hnot | ⟨o, opts'', hout, hb'', hg, hheader⟩
      · exact absurd hsent (hnothing (hnot.trans hadded))
      · rw [hout, hadded] at hsent
        have hd := List.singleton_inj.1 (List.append_cancel_left hsent)
        refine ⟨o, opts'', hb'', ?_, hd.symm, hg.subset _ (hin haccept (by decide))⟩
        rw [hheader, ← huri.code_eq]
        exact congrArg CoapHeader.code he.header_eq
    · rw [onSuccess_error _ haccept] at hsent
      exact absurd hsent (hnothing hadded)
  · rw [onSuccess_error _ hok] at hsent
    exact absurd hsent (hnothing huri.sent_eq)

end

/-! ## The automatic reply -/

/-- An automatic reply with the code 2.05 has no Content-Type. -/
theorem replyToRequest_noContentType {s : Instance} (hpacket : s.inbound.packet.isSome)
    (hprocessing : s.isProcessingMessage = true)
    (htt : headerTt s.inbound.bytes = coapTransTypeConfirmable)
    (hfamily : s.inbound.saddr.family ≠ 0) {code : ℕ} {ret : ℤ} {d : Datagram}
    (hsent : (replyToRequest code s ret).1.sent = s.sent ++ [d])
    (hcode : headerCode d.memory = httpToCoapCode 205) (value : List UInt8) :
    ¬d.HasOption (coapOptionContentType, value) := by
  -- the reply is the automatic one, so its code is the one that was computed
  obtain ⟨d', hd', -, hdcode⟩ := replyToRequest_sent hpacket hprocessing htt hfamily code ret
  rw [hsent] at hd'
  rw [← List.singleton_inj.1 (List.append_cancel_left hd'), hcode] at hdcode
  unfold replyToRequest at hsent
  dsimp only at hsent
  rw [← hdcode, if_neg (by decide)] at hsent
  -- behind the begin the packet has no options
  have hbegun := @beginResponse_outbound (smcpOutboundReset s) (httpToCoapCode 205) hprocessing
    rfl rfl
  have hempty : (smcpOutboundBeginResponse (smcpOutboundReset s) (httpToCoapCode 205)).1.sent =
      s.sent := beginResponse_sent _ _
  generalize (smcpOutboundBeginResponse (smcpOutboundReset s) (httpToCoapCode 205)).1 = u at *
  have hbare : Bare u.outbound [] := by
    obtain ⟨hc, hb, hlen, hversion, htt, htoken⟩ :=
      bare_begin { smcpOutboundReset s with
        outbound.nextTid := smcpInboundGetMsgId (smcpOutboundReset s) } (httpToCoapCode 205)
        (responseTt (smcpOutboundReset s))
    rw [hbegun]
    exact ⟨⟨hc.ordered, hc.read, hc.start_lt, hc.marker, hc.lastKey_eq, hc.max_eq⟩, hb, hlen,
      hversion, htt, htoken⟩
  rcases hbare.send with hnot | ⟨o, opts, hout, hb, hg, -⟩
  · rw [hsent, hempty] at hnot
    exact absurd hnot (by simp)
  · rw [hsent, hempty] at hout
    rw [List.singleton_inj.1 (List.append_cancel_left hout), hb.hasOption_iff]
    intro hin
    rcases hg.new _ hin with hnil | hkey
    · exact absurd hnil List.not_mem_nil
    · have hother : coapOptionContentType ∉ [coapOptionObserve, coapOptionBlock2] := by decide
      exact absurd hkey hother

section
variable {hooks : Hooks} {buffer : ℕ → UInt8} {n : ℕ} {source : SockAddr} {dest : Option SockAddr}
  {s : Instance}

/-- A request that is refused gets no reply, or the automatic one. -/
theorem processPacket_refused_sent {reached : Prop} (hv : coapVerifyPacket buffer n = true)
    (hcode : coapCodeIsRequest (headerCode buffer) = true)
    (hrefuses : Refuses (preparePacket (s.arrived buffer n source dest))
      (smcpHandleRequest hooks (preparePacket (s.arrived buffer n source dest))) reached) :
    (processPacket hooks s buffer n source dest).1.sent = s.sent ∨
      ∃ (u : Instance) (ret : ℤ), (processPacket hooks s buffer n source dest).1.sent =
          (replyToRequest (headerCode buffer) u ret).1.sent ∧ u.sent = s.sent ∧
        u.inbound.packet.isSome ∧ u.isProcessingMessage = true ∧
        headerTt u.inbound.bytes = coapTransTypeConfirmable ∧ u.inbound.saddr = source := by
  -- `a` is the state with the message in it
  have hcode' := arrived_code hv s source dest
  set a := s.arrived buffer n source dest with ha
  have hrequest : coapCodeIsRequest (headerCode a.inbound.bytes) = true := by
    rw [hcode']
    exact hcode
  rw [processPacket_eq hooks hv]
  -- a confirmable message to a multicast address is dropped
  by_cases hdropped : a.inbound.wasSentToMulticast = true ∧
      headerTt a.inbound.bytes = coapTransTypeConfirmable
  · left
    have hprocessing : ¬a.isProcessingMessage = false := by rw [ha]; exact Bool.noConfusion
    unfold smcpInboundFinishPacket
    rw [if_neg hprocessing, if_pos hdropped]
    rfl
  · obtain ⟨u, hsent, hdid, hprocessing, hnothing, hseen⟩ :=
      finishPacket_refused (a := a) rfl rfl rfl hdropped hrequest hrefuses
    by_cases htt : headerTt a.inbound.bytes = coapTransTypeConfirmable
    · right
      rw [automaticReply, if_pos ⟨hdid, htt⟩, if_pos hrequest, hcode'] at hsent
      refine ⟨u, _, hsent, hnothing, ?_, hprocessing, ?_, ?_⟩
      · rw [hseen.packet]
        rfl
      · rw [hseen.bytes]
        exact htt
      · rw [hseen.saddr]
        rfl
    · left
      rw [automaticReply, if_neg fun hboth => htt hboth.2] at hsent
      exact hsent.trans hnothing

end

/-! ## The answer to the client -/

/-- Whatever the URL is, the list handler does not answer the request of the client with a
listing. -/
theorem listRequest_not_listed {env : UriEnv} {client : Instance} {urlData : List UInt8}
    {d : Datagram} {app : NodeApp} {hooks : Hooks} {calls : List VarCall} {s : Instance}
    {rest : ℕ → UInt8} {source : SockAddr} {dest : Option SockAddr} {context : ℕ}
    (hrequest : (resendListRequest env client urlData).1.sent = client.sent ++ [d])
    (hfamily : source.family ≠ 0) (hhandler : s.requestHandler.isSome)
    (htarget : (app.route (preparePacket (s.arrived (ofList d.bytes rest) d.bytes.length source
      dest)).inbound).target = some (some .smcpDefaultRequestHandler, context)) :
    ¬∃ reply : Datagram, (processPacket (app.requestHooks hooks calls) s (ofList d.bytes rest)
        d.bytes.length source dest).1.sent = s.sent ++ [reply] ∧
      headerCode reply.memory = httpToCoapCode 205 ∧
      reply.HasOption (coapOptionContentType,
        uintOptionValue coapContentTypeApplicationLinkFormat) := by
  rintro ⟨reply, hreply, hcode, hlisting⟩
  -- the request that is sent has the Accept option, and the handler does not know it
  obtain ⟨o, opts, hb, hget, rfl, haccept⟩ := resendListRequest_sent hrequest
  dsimp only at htarget hreply
  set l := o.bytes o.sendLength with hl
  have hnothing {t : Instance} (ht : t.sent = s.sent) : t.sent ≠ s.sent ++ [reply] := by
    rw [ht]
    simp
  -- a packet that is verified is refused, whatever its path leads to
  by_cases hv : coapVerifyPacket (ofList l rest) l.length = true
  · have hread : readBytes (ofList l rest) 0 l.length = l := readBytes_ofList l rest
    have hlen : l.length < 65536 := by
      have hptr := hb.composed.contentPtr_eq
      have hbound := hb.bounded
      have hmax := hb.composed.max_eq
      have hheader : o.header.bytes.length = 4 := rfl
      rw [hl, hb.bytes_eq, List.length_append, List.length_append, length_readBytes, hheader]
      unfold Bounded at hbound
      unfold smcpMaxPacketLength at hmax
      unfold Outbound.optionsStart at hptr
      omega
    have hmethod : headerCode (ofList l rest) = coapMethodGet := by
      rw [hl, hb.bytes_eq]
      show (UInt8.ofNat o.header.code).toNat = coapMethodGet
      rw [hget]
      rfl
    have hunknown : HasUnknown (targetKnows (app.route (preparePacket
        (s.arrived (ofList l rest) l.length source dest)).inbound).target)
        (withKeys 0 (deltas 0 opts)) := by
      rw [withKeys_deltas hb.composed.ordered, htarget]
      exact ⟨_, haccept, by decide, by decide, rfl⟩
    have hown : app.SelectsOwn (preparePacket
        (s.arrived (ofList l rest) l.length source dest)).inbound := by
      intro handler context' hselected
      rw [htarget, Option.some.injEq, Prod.mk.injEq] at hselected
      exact .inl hselected.1.symm
    obtain ⟨hrefuses, -⟩ := arrived_refuses hooks calls hv hlen
      (by rw [hread]; exact hb.splits) hhandler hown hunknown
    rcases processPacket_refused_sent hv (by rw [hmethod]; decide) hrefuses with hnot |
      ⟨u, ret, hsent, hu, hpacket, hprocessing, htt, hsaddr⟩
    · exact hnothing hnot hreply
    · rw [hreply, ← hu] at hsent
      exact replyToRequest_noContentType hpacket hprocessing htt (by rw [hsaddr]; exact hfamily)
        hsent.symm hcode _ hlisting
  · -- a packet that is not verified is dropped
    have hdropped : (processPacket (app.requestHooks hooks calls) s (ofList l rest) l.length source
        dest).1.sent = s.sent := by
      unfold processPacket smcpInboundStartPacket
      rw [if_neg hv]
      rfl
    exact hnothing hdropped hreply

/-- A host name that is found. -/
def namedUriEnv : UriEnv := { bareUriEnv with lookupHostname _ := .ok localPeer }

/-- The request for `coap://h`. -/
def listRequest : Datagram := ⟨localPeer, [0x40, 0x01, 0, 0, 0x31, 0x68, 0xD1, 0x01, 0x28]⟩

theorem listRequest_not_listed_root :
    ¬∃ reply : Datagram, (processPacket (rootApp.requestHooks idleHooks []) servingRun
        (ofList listRequest.bytes fun _ => 0) listRequest.bytes.length localPeer none).1.sent =
        servingRun.sent ++ [reply] ∧ headerCode reply.memory = httpToCoapCode 205 ∧
      reply.HasOption (coapOptionContentType,
        uintOptionValue coapContentTypeApplicationLinkFormat) := by
  have hrequest : (resendListRequest namedUriEnv servingRun (asciiBytes "coap://h")).1.sent =
      servingRun.sent ++ [listRequest] := by decide +kernel
  have htarget : (rootApp.route (preparePacket (servingRun.arrived
      (ofList listRequest.bytes fun _ => 0) listRequest.bytes.length localPeer
      none)).inbound).target = some (some .smcpDefaultRequestHandler, 0) := by decide +kernel
  exact listRequest_not_listed hrequest (by decide) (by decide) htarget

/-- The request for the list of the root is answered 4.02. -/
theorem listRequest_badOption :
    ¬∀ (env : UriEnv) (client : Instance) (urlData : List UInt8) (d : Datagram) (app : NodeApp)
      (hooks : Hooks) (s : Instance) (source : SockAddr) (context : ℕ), Reachable client →
      Reachable s → (resendListRequest env client urlData).1.sent = client.sent ++ [d] →
      source.family ≠ 0 → s.requestHandler.isSome →
      (app.route (preparePacket (s.arrived (ofList d.bytes fun _ => 0) d.bytes.length source
        none)).inbound).target = some (some .smcpDefaultRequestHandler, context) →
      ∃ reply : Datagram, (processPacket (app.requestHooks hooks []) s (ofList d.bytes fun _ => 0)
          d.bytes.length source none).1.sent = s.sent ++ [reply] ∧
        headerCode reply.memory = httpToCoapCode 205 ∧
        reply.HasOption (coapOptionContentType,
          uintOptionValue coapContentTypeApplicationLinkFormat) := by
  intro hall
  -- the request of the example, and where it is routed to
  have hrequest : (resendListRequest namedUriEnv servingRun (asciiBytes "coap://h")).1.sent =
      servingRun.sent ++ [listRequest] := by decide +kernel
  have htarget : (rootApp.route (preparePacket (servingRun.arrived
      (ofList listRequest.bytes fun _ => 0) listRequest.bytes.length localPeer
      none)).inbound).target = some (some .smcpDefaultRequestHandler, 0) := by decide +kernel
  obtain ⟨reply, hreply, hcode, -⟩ := hall namedUriEnv servingRun (asciiBytes "coap://h")
    listRequest rootApp idleHooks servingRun localPeer 0 (reachable_idleRun _ _)
    (reachable_idleRun _ _) hrequest (by decide) (by decide) htarget
  have hsent : (processPacket (rootApp.requestHooks idleHooks []) servingRun
      (ofList listRequest.bytes fun _ => 0) listRequest.bytes.length localPeer none).1.sent =
      servingRun.sent ++ [⟨localPeer, [0x60, 0x82, 0, 0]⟩] := by decide +kernel
  -- the one reply has the code 4.02
  rw [hsent] at hreply
  rw [← List.singleton_inj.1 (List.append_cancel_left hreply)] at hcode
  exact absurd hcode (by decide)

end Smcp
