import Smcp.Inbound.Respond
import Smcp.Outbound.Reply

/-!
# Retransmitted requests

A confirmable request whose handler sends nothing is answered by `smcp_inbound_finish_packet`
itself. When the request comes again, the duplicate table knows it, and the code of the reply is
chosen in another way.

* `processPacket_silent`: the automatic reply, for one reception;
* `knows_of_later`: the table knows a message until sixteen others were entered;
* `retransmission_code_eq_iff`: when the two replies have the same code.
-/

namespace Smcp

open Run ByteMemory OptionFormat

/-! ## The automatic reply -/

theorem Inbound.SameMessage.samePacket {i i' : Inbound} (h : i.SameMessage i') : i.SamePacket i' := by
  obtain ⟨key, option, rfl⟩ := h
  exact ⟨rfl, rfl, rfl, rfl, rfl⟩

theorem Inbound.SamePacket.bytes {i i' : Inbound} (h : i.SamePacket i') : i'.bytes = i.bytes := by
  rw [Inbound.bytes, h.packet, Inbound.bytes]

theorem Datagram.Answers.congr {i i' : Inbound} {d : Datagram} (h : d.Answers i')
    (hpacket : i'.packet = i.packet) (hsaddr : i'.saddr = i.saddr) : d.Answers i := by
  have hbytes : i'.bytes = i.bytes := by rw [Inbound.bytes, hpacket, Inbound.bytes]
  obtain ⟨hdest, htt, hid, hlen, htoken⟩ := h
  rw [hbytes] at hid hlen htoken
  exact ⟨hdest.trans hsaddr, htt, hid, hlen, htoken⟩

theorem convertStatusToResultCode_range (status : ℤ) :
    coapResult100 ≤ smcpConvertStatusToResultCode status ∧
      smcpConvertStatusToResultCode status < 256 := by
  unfold smcpConvertStatusToResultCode
  split_ifs <;> decide

theorem automaticResultCode_range (code : ℕ) (ret : ℤ) (isDupe : Bool) :
    coapResult100 ≤ automaticResultCode code ret isDupe ∧
      automaticResultCode code ret isDupe < 256 := by
  have hconvert := convertStatusToResultCode_range ret
  unfold automaticResultCode
  split_ifs
  all_goals first | exact hconvert | decide

theorem beginResponse_sent (s : Instance) (code : ℕ) :
    (smcpOutboundBeginResponse s code).1.sent = s.sent := by
  unfold smcpOutboundBeginResponse smcpOutboundSetDestaddr startResponse
  split_ifs
  · rfl
  · rfl
  · dsimp only
    split <;> rfl
  · rfl

/-- The automatic reply to a confirmable request is one datagram. -/
theorem replyToRequest_sent {s : Instance} (hpacket : s.inbound.packet.isSome)
    (hprocessing : s.isProcessingMessage = true)
    (htt : headerTt s.inbound.bytes = coapTransTypeConfirmable)
    (hfamily : s.inbound.saddr.family ≠ 0) (code : ℕ) (ret : ℤ) :
    ∃ d : Datagram, (replyToRequest code s ret).1.sent = s.sent ++ [d] ∧ d.Answers s.inbound ∧
      headerCode d.memory = automaticResultCode code ret s.inbound.isDupe := by
  obtain ⟨hge, hlt⟩ := automaticResultCode_range code ret s.inbound.isDupe
  unfold replyToRequest
  dsimp only
  -- the code is all that the status and the duplicate decide
  generalize automaticResultCode code ret s.inbound.isDupe = resultCode at *
  obtain ⟨hreply, h0⟩ := replying_beginResponse (s := smcpOutboundReset s) hpacket hprocessing rfl
    rfl htt hge
  obtain ⟨hcode, -⟩ := beginResponse_code (s := smcpOutboundReset s) resultCode rfl rfl
  have hsent : (smcpOutboundBeginResponse (smcpOutboundReset s) resultCode).1.sent = s.sent :=
    beginResponse_sent _ _
  -- from here on only the state behind the begin matters
  generalize (smcpOutboundBeginResponse (smcpOutboundReset s) resultCode).1 = u at *
  change Replying s.inbound u.outbound at hreply
  -- the code fits its byte, so it goes out as it was chosen
  rw [Nat.mod_eq_of_lt hlt] at hcode
  rw [← hsent]
  by_cases h500 : resultCode = httpToCoapCode 500
  · rw [if_pos h500]
    generalize (if s.inbound.isDupe then 0 else ret) = v
    obtain ⟨hreply', hcode'⟩ := replying_setVarContentInt hreply h0 v
    obtain ⟨d, hd, hanswers, hdcode⟩ := hreply'.send hfamily
    rw [hcode', hcode, Nat.mod_eq_of_lt hlt] at hdcode
    exact ⟨d, hd, hanswers, hdcode⟩
  · rw [if_neg h500]
    obtain ⟨d, hd, hanswers, hdcode⟩ := hreply.send hfamily
    rw [hcode, Nat.mod_eq_of_lt hlt] at hdcode
    exact ⟨d, hd, hanswers, hdcode⟩

/-! ## One reception -/

theorem dupeCheck_snd (s : Instance) : (smcpInboundDupeCheck s).2 = s.dupeInfo.knows s.inbound := by
  unfold smcpInboundDupeCheck DupeInfo.knows
  split_ifs with h
  · exact h.symm
  · exact (Bool.eq_false_iff.2 h).symm

theorem dupeCheck_dupeInfo {s : Instance} (h : s.dupeInfo.knows s.inbound = false) :
    (smcpInboundDupeCheck s).1.dupeInfo = s.dupeInfo.enter s.inbound.dupeEntry := by
  unfold DupeInfo.knows at h
  unfold smcpInboundDupeCheck
  rw [if_neg (Bool.eq_false_iff.1 h)]

/-- Before a message is handed on, it is marked when it is a duplicate. -/
theorem preparePacket_samePacket {s : Instance} (hfake : s.inbound.isFake = false) :
    Inbound.SamePacket { s.inbound with isDupe := s.dupeInfo.knows s.inbound }
      (preparePacket s).inbound := by
  unfold preparePacket
  dsimp only
  rw [if_neg (by simp [hfake]), dupeCheck_inbound, dupeCheck_snd]
  exact Inbound.samePacket_scan _

/-- The request handlers keep the message, send nothing, and return a status that depends on
nothing but the request and its sender. -/
structure Silent (hooks : Hooks) (status : List UInt8 → SockAddr → ℤ) : Prop where
  samePacket : ∀ k (s : Instance), s.inbound.SamePacket (hooks (.request k) s).1.inbound
  isProcessingMessage : ∀ k (s : Instance),
    (hooks (.request k) s).1.isProcessingMessage = s.isProcessingMessage
  didRespond : ∀ k (s : Instance), (hooks (.request k) s).1.didRespond = s.didRespond
  sent : ∀ k (s : Instance), (hooks (.request k) s).1.sent = s.sent
  status_eq : ∀ k (s : Instance), (hooks (.request k) s).2 =
    status (readBytes s.inbound.bytes 0 s.inbound.packetLen) s.inbound.saddr

section
variable {hooks : Hooks} {status : List UInt8 → SockAddr → ℤ} {buffer : ℕ → UInt8} {n : ℕ}
  {source : SockAddr} {dest : Option SockAddr} {s : Instance}

/-- The automatic reply to one reception of a request. -/
theorem processPacket_silent (hsilent : Silent hooks status)
    (hv : coapVerifyPacket buffer n = true) (hcode : coapCodeIsRequest (headerCode buffer) = true)
    (htt : headerTt buffer = coapTransTypeConfirmable)
    (hunicast : dest.any (fun dest => smcpIsAddrMulticast dest.addr) = false)
    (hfamily : source.family ≠ 0) (hhandler : s.requestHandler.isSome) :
    let i := (s.arrived buffer n source dest).inbound
    ∃ d : Datagram, (processPacket hooks s buffer n source dest).1.sent = s.sent ++ [d] ∧
      d.Answers i ∧ headerCode d.memory =
        automaticResultCode (headerCode buffer) (status (readBytes buffer 0 n) source)
          (s.dupeInfo.knows i) := by
  intro i
  have htt' : headerTt i.bytes = coapTransTypeConfirmable := by
    rw [headerTt, arrived_header hv s source dest 0 (by decide)]
    exact htt
  have hcode' : headerCode i.bytes = headerCode buffer := by
    rw [headerCode, arrived_header hv s source dest 1 (by decide), headerCode]
  -- the message as the handler sees it, and as it leaves it
  obtain ⟨i0, d0, l0, hprep⟩ := preparePacket_eq (s.arrived buffer n source dest)
  have hmark := preparePacket_samePacket (s := s.arrived buffer n source dest) rfl
  obtain ⟨i', k, hsame, hhandle⟩ := handleRequest_eq hooks
    (s := preparePacket (s.arrived buffer n source dest)) (by rw [hprep]; exact hhandler)
  have hseen := hmark.trans hsame.samePacket
  set u : Instance := { preparePacket (s.arrived buffer n source dest) with inbound := i' } with hu
  have hleft := hseen.trans (hsilent.samePacket k u)
  have hstatus : (hooks (.request k) u).2 = status (readBytes buffer 0 n) source := by
    rw [hsilent.status_eq]
    change status (readBytes i'.bytes 0 i'.packetLen) i'.saddr = _
    rw [hseen.bytes, hseen.packetLen, hseen.saddr]
    refine congrArg (fun l => status l source) ?_
    exact readBytes_update_of_le (Nat.zero_add n).le 0
  have hdid : (hooks (.request k) u).1.didRespond = false := by
    rw [hsilent.didRespond, hu, hprep]
    rfl
  have hprocessing : (hooks (.request k) u).1.isProcessingMessage = true := by
    rw [hsilent.isProcessingMessage, hu, hprep]
    rfl
  have hsent : (hooks (.request k) u).1.sent = s.sent := by
    rw [hsilent.sent, hu, hprep]
    rfl
  rw [processPacket_eq hooks hv, finishPacket_request hooks rfl, hhandle]
  · change ∃ d : Datagram, (finishPacketBail (automaticReply i.bytes (hooks (.request k) u).1
      (hooks (.request k) u).2).1).sent = _ ∧ _
    rw [automaticReply, if_pos ⟨hdid, htt'⟩, hcode', if_pos hcode, hstatus]
    have hfinal := replyToRequest_sent (s := (hooks (.request k) u).1)
      (by rw [hleft.packet]; rfl) hprocessing (by rw [hleft.bytes]; exact htt')
      (by rw [hleft.saddr]; exact hfamily) (headerCode buffer) (status (readBytes buffer 0 n) source)
    rw [hsent, hleft.isDupe] at hfinal
    obtain ⟨d, hd, hanswers, hdcode⟩ := hfinal
    exact ⟨d, hd, hanswers.congr hleft.packet hleft.saddr, hdcode⟩
  · rintro ⟨hmulticast, -⟩
    exact Bool.false_ne_true (hunicast.symm.trans hmulticast)
  · rw [hcode']
    exact hcode

/-! ## The second reception -/

theorem preparePacket_dupeInfo (hfake : s.inbound.isFake = false)
    (hfirst : s.dupeInfo.knows s.inbound = false) :
    (preparePacket s).dupeInfo = s.dupeInfo.enter s.inbound.dupeEntry := by
  unfold preparePacket
  dsimp only
  rw [if_neg (by simp [hfake])]
  exact dupeCheck_dupeInfo hfirst

theorem Acts.later {w w' : World} (h : Acts w w') : w.dupes.info.Later w'.dupes.info := by
  have hsteps := h.dupes
  generalize w'.dupes = d at hsteps ⊢
  induction hsteps with
  | refl => exact .refl _
  | tail _ hstep ih =>
    cases hstep with
    | known i hknows => exact ih
    | fresh i hknows => exact ih.trans (DupeInfo.later_enter _ _)

/-- The first reception enters the message, and then perhaps others, when the handler gets some. -/
theorem later_processPacket (hhooks : ∀ c u, Evolves u (hooks c u).1) (hs : CallbacksOk s)
    (hv : coapVerifyPacket buffer n = true)
    (hunicast : dest.any (fun dest => smcpIsAddrMulticast dest.addr) = false)
    (hfirst : s.dupeInfo.knows (s.arrived buffer n source dest).inbound = false) :
    (s.dupeInfo.enter (s.arrived buffer n source dest).inbound.dupeEntry).Later
      (processPacket hooks s buffer n source dest).1.dupeInfo := by
  have hs' : CallbacksOk (s.arrived buffer n source dest) := hs
  have hprep := preparePacket_dupeInfo (s := s.arrived buffer n source dest) rfl hfirst
  rw [processPacket_eq hooks hv, smcpInboundFinishPacket, if_neg (by simp [Instance.arrived]),
    if_neg (by rintro ⟨h, -⟩; exact Bool.false_ne_true (hunicast.symm.trans h))]
  have hok : CallbacksOk (preparePacket (s.arrived buffer n source dest)) :=
    (evolves_preparePacket _).callbacksOk hs'
  generalize preparePacket (s.arrived buffer n source dest) = p at hprep hok ⊢
  have hbail (u : Instance) : Same u (finishPacketBail u) := ⟨rfl⟩
  have hrest (packet : ℕ → UInt8) (ret : ℤ) : p.dupeInfo.Later
      (finishPacketBail (automaticReply packet (dispatchPacket hooks p).1 ret).1).dupeInfo :=
    ((evolves_dispatchPacket (s := p) hhooks).trans
      ((same_automaticReply _ packet ret).trans (hbail _)).evolves hok).later
  change DupeInfo.Later ((s.arrived buffer n source dest).dupeInfo.enter _) _
  rw [← hprep]
  exact hrest _ _

theorem dupeIndex_of_later {d d' : DupeInfo} (h : d.Later d')
    (hd : d.dupeIndex < smcpConfDupeBufferSize) : d'.dupeIndex < smcpConfDupeBufferSize := by
  obtain ⟨entries, rfl⟩ := h
  induction entries generalizing d with
  | nil => exact hd
  | cons entry entries ih => exact ih (d := d.enter entry) (Nat.mod_lt _ (by decide))

theorem Reachable.dupeIndex_lt (h : Reachable s) :
    s.dupeInfo.dupeIndex < smcpConfDupeBufferSize := by
  obtain ⟨now, random, sendResult, hacts⟩ := h.acts
  exact dupeIndex_of_later hacts.later (by decide : 0 < smcpConfDupeBufferSize)

/-- The table knows a message until sixteen others were entered. -/
theorem knows_of_later {d d' : DupeInfo} {i : Inbound}
    (hd : d.dupeIndex < smcpConfDupeBufferSize) (h : (d.enter i.dupeEntry).Later d')
    (hcount : d'.fresh < d.fresh + 1 + smcpConfDupeBufferSize) : d'.knows i = true := by
  obtain ⟨entries, rfl⟩ := h
  have hfresh : (d.enter i.dupeEntry).fresh = d.fresh + 1 := rfl
  have hindex : (d.enter i.dupeEntry).dupeIndex = (d.dupeIndex + 1) % smcpConfDupeBufferSize := rfl
  rw [fresh_foldl_enter, hfresh] at hcount
  have hkept := dupe_foldl_enter (d := d.enter i.dupeEntry) (Nat.mod_lt _ (by decide)) hd entries (by
    rw [hindex]
    unfold smcpConfDupeBufferSize at *
    omega)
  have hentry : (d.enter i.dupeEntry).dupe d.dupeIndex = i.dupeEntry := Function.update_self _ _ _
  refine List.any_eq_true.2 ⟨d.dupeIndex, List.mem_range.2 hd, ?_⟩
  rw [hkept, hentry]
  simp [DupeEntry.isFor, Inbound.dupeEntry]

/-- A duplicate is answered with another code, unless the handler succeeded or the method is none
of the four that are known. -/
theorem automaticResultCode_eq_iff (code : ℕ) (status : ℤ) :
    automaticResultCode code status true = automaticResultCode code status false ↔
      status = smcpStatusOk ∨
        code ∉ [coapMethodGet, coapMethodPost, coapMethodPut, coapMethodDelete] := by
  by_cases hok : status = smcpStatusOk
  · simp [automaticResultCode, hok]
  · have hconvert : httpToCoapCode 400 ≤ smcpConvertStatusToResultCode status := by
      unfold smcpConvertStatusToResultCode
      rw [if_neg hok]
      split_ifs <;> decide
    have h205 : httpToCoapCode 205 < httpToCoapCode 400 := by decide
    have h204 : httpToCoapCode 204 < httpToCoapCode 400 := by decide
    have h202 : httpToCoapCode 202 < httpToCoapCode 400 := by decide
    simp only [automaticResultCode, hok, List.mem_cons, List.not_mem_nil]
    split_ifs <;> simp_all <;> omega

/-- The identical request comes again from the same source, with fewer than sixteen other fresh
messages in between. Both times it gets an automatic reply; the codes are the same exactly when
the handler succeeds or the method is none of the four that are known. -/
theorem retransmission_code_eq_iff {t : Instance} {buffer' : ℕ → UInt8} {dest' : Option SockAddr}
    (hhooks : ∀ c u, Reaches Op.exec u (hooks c u).1) (hsilent : Silent hooks status)
    (hs : Reachable s) (hv : coapVerifyPacket buffer n = true)
    (hcode : coapCodeIsRequest (headerCode buffer) = true)
    (htt : headerTt buffer = coapTransTypeConfirmable) (hfamily : source.family ≠ 0)
    (hunicast : dest.any (fun dest => smcpIsAddrMulticast dest.addr) = false)
    (hunicast' : dest'.any (fun dest => smcpIsAddrMulticast dest.addr) = false)
    (hhandler : s.requestHandler.isSome) (hhandler' : t.requestHandler.isSome)
    (hfirst : s.dupeInfo.knows (s.arrived buffer n source dest).inbound = false)
    (hbetween : Reaches Op.exec (processPacket hooks s buffer n source dest).1 t)
    (hcount : t.dupeInfo.fresh < s.dupeInfo.fresh + 1 + smcpConfDupeBufferSize)
    (hsame : ∀ j < n, buffer' j = buffer j) :
    ∃ d d' : Datagram,
      (processPacket hooks s buffer n source dest).1.sent = s.sent ++ [d] ∧
      d.Answers (s.arrived buffer n source dest).inbound ∧
      (processPacket hooks t buffer' n source dest').1.sent = t.sent ++ [d'] ∧
      d'.Answers (t.arrived buffer' n source dest').inbound ∧
      (headerCode d'.memory = headerCode d.memory ↔
        status (readBytes buffer 0 n) source = smcpStatusOk ∨
          headerCode buffer ∉ [coapMethodGet, coapMethodPost, coapMethodPut, coapMethodDelete]) := by
  have hge := four_le_of_coapVerifyPacket hv
  have hread (k : ℕ) (hk : k ≤ n) : readBytes buffer' 0 k = readBytes buffer 0 k :=
    readBytes_congr fun j _ hj => hsame j (by omega)
  have hv' : coapVerifyPacket buffer' n = true := by
    rw [coapVerifyPacket_iff, hread (word16 n) (Nat.mod_le _ _), ← coapVerifyPacket_iff]
    exact hv
  have hcode' : headerCode buffer' = headerCode buffer := by
    rw [headerCode, hsame 1 (by omega), headerCode]
  have htt' : headerTt buffer' = headerTt buffer := by
    rw [headerTt, hsame 0 (by omega), headerTt]
  -- the second time, the table knows the message
  have hentry : (t.arrived buffer' n source dest').inbound.dupeEntry =
      (s.arrived buffer n source dest).inbound.dupeEntry := by
    have hheader (j : ℕ) (hj : j < 4) : (t.arrived buffer' n source dest').inbound.bytes j =
        (s.arrived buffer n source dest).inbound.bytes j := by
      rw [arrived_header hv' t source dest' j hj, arrived_header hv s source dest j hj]
      exact hsame j (by omega)
    have hid : readBytes (t.arrived buffer' n source dest').inbound.bytes 2 2 =
        readBytes (s.arrived buffer n source dest).inbound.bytes 2 2 :=
      readBytes_congr fun j _ hj => hheader j (by omega)
    simp only [Inbound.dupeEntry, Inbound.dupeHash, headerMsgId, hid, hheader 2 (by decide),
      hheader 3 (by decide)]
    rfl
  have hevolves (c : Call) (u : Instance) : Evolves u (hooks c u).1 := evolves_of_reaches (hhooks c u)
  have hlater := later_processPacket hevolves hs.callbacksOk hv hunicast hfirst
  have hok := (evolves_processPacket (s := s) hevolves buffer n source dest).callbacksOk hs.callbacksOk
  have hknows : t.dupeInfo.knows (t.arrived buffer' n source dest').inbound = true := by
    refine knows_of_later hs.dupeIndex_lt ?_ hcount
    rw [hentry]
    exact hlater.trans (evolves_of_reaches hbetween hok).later
  obtain ⟨d, hd, hanswers, hdcode⟩ :=
    processPacket_silent hsilent hv hcode htt hunicast hfamily hhandler
  obtain ⟨d', hd', hanswers', hdcode'⟩ :=
    processPacket_silent (s := t) hsilent hv' (by rw [hcode']; exact hcode) (htt'.trans htt)
      hunicast' hfamily hhandler'
  refine ⟨d, d', hd, hanswers, hd', hanswers', ?_⟩
  rw [hdcode, hdcode', hcode', hread n le_rfl, hknows, hfirst]
  exact automaticResultCode_eq_iff _ _

end

/-- A server whose handler always returns the status. -/
def statusHooks (status : ℤ) : Hooks := fun _ s => (s, status)

theorem silent_statusHooks (status : ℤ) : Silent (statusHooks status) fun _ _ => status where
  samePacket _ _ := ⟨rfl, rfl, rfl, rfl, rfl⟩
  isProcessingMessage _ _ := rfl
  didRespond _ _ := rfl
  sent _ _ := rfl
  status_eq _ _ := rfl

/-- An instance that serves requests. -/
def servingRun : Instance := idleRun (fun _ => 5) [.setDefaultRequestHandler (some 0)]

theorem retransmission_code_eq_ok :
    let s := servingRun
    let t := (processPacket (statusHooks smcpStatusOk) s plainGet 4 localPeer none).1
    ∃ d d' : Datagram, t.sent = s.sent ++ [d] ∧
      (processPacket (statusHooks smcpStatusOk) t plainGet 4 localPeer none).1.sent = t.sent ++ [d'] ∧
      headerCode d'.memory = headerCode d.memory := by
  intro s t
  have hverify : coapVerifyPacket plainGet 4 = true := by decide
  have hunicast :
      Option.any (fun dest : SockAddr => smcpIsAddrMulticast dest.addr) none = false := rfl
  have hfamily : localPeer.family ≠ 0 := by decide
  have hhooks (c : Call) (u : Instance) : Reaches Op.exec u (statusHooks smcpStatusOk c u).1 := .refl u
  obtain ⟨d, d', hd, -, hd', -, hiff⟩ := retransmission_code_eq_iff (s := s) (t := t) hhooks
    (silent_statusHooks smcpStatusOk) (reachable_idleRun _ _) hverify (by decide) (by decide) hfamily
    hunicast hunicast (by decide) (by decide +kernel) (by decide +kernel) (.refl _)
    (by decide +kernel) fun _ _ => rfl
  exact ⟨d, d', hd, hd', hiff.2 (Or.inl rfl)⟩

/-- A GET whose handler does not find the resource is answered 4.04, and 2.05 when it comes again. -/
theorem retransmission_code_ne :
    ¬∀ (hooks : Hooks) (status : List UInt8 → SockAddr → ℤ) (s t : Instance) (buffer : ℕ → UInt8)
      (n : ℕ) (source : SockAddr), (∀ c u, Reaches Op.exec u (hooks c u).1) → Silent hooks status →
      Reachable s → coapVerifyPacket buffer n = true →
      coapCodeIsRequest (headerCode buffer) = true → headerTt buffer = coapTransTypeConfirmable →
      source.family ≠ 0 → s.requestHandler.isSome → t.requestHandler.isSome →
      s.dupeInfo.knows (s.arrived buffer n source none).inbound = false →
      Reaches Op.exec (processPacket hooks s buffer n source none).1 t →
      t.dupeInfo.fresh < s.dupeInfo.fresh + 1 + smcpConfDupeBufferSize →
      ∀ d d' : Datagram, (processPacket hooks s buffer n source none).1.sent = s.sent ++ [d] →
        (processPacket hooks t buffer n source none).1.sent = t.sent ++ [d'] →
        headerCode d'.memory = headerCode d.memory := by
  intro hall
  set hooks := statusHooks smcpStatusNotFound with hhooks
  set t := (processPacket hooks servingRun plainGet 4 localPeer none).1 with ht
  have hcode := hall hooks _ servingRun t plainGet 4 localPeer (fun _ u => .refl u)
    (silent_statusHooks smcpStatusNotFound) (reachable_idleRun _ _) (by decide) (by decide)
    (by decide) (by decide) (by decide) (by decide +kernel) (by decide +kernel) (.refl _)
    (by decide +kernel) ⟨localPeer, [0x60, 0x84, 0x12, 0x34]⟩ ⟨localPeer, [0x60, 0x45, 0x12, 0x34]⟩
    (by decide +kernel) (by decide +kernel)
  revert hcode
  decide

end Smcp
