import Mathlib.Data.List.TakeWhile
import Smcp.Coap.Verify
import Smcp.Timer

/-!
# Reading an inbound message

The option iterator of `smcp-inbound.c`, `smcp_inbound_start_packet`, and the first scan of
`smcp_inbound_finish_packet` over all options, which also finds the content.

* `scanOptions_spec`: what the scan visits and where it stops, for an area that splits into options;
* `scan_complete_iff`: on a verified packet the scan sees all options, and the content is what
  follows the marker, exactly when no option has the number `COAP_OPTION_INVALID`.
-/

namespace Smcp

open ByteMemory OptionFormat

/-! ## The option iterator -/

/-- `coap_decode_uint32`. The length is passed as a `uint8_t`. -/
def coapDecodeUint32 (m : ℕ → UInt8) (value valueLen : ℕ) : ℕ :=
  (readBytes m value (valueLen % 256)).foldl (fun ret b => (ret * 256 + b.toNat) % 4294967296) 0

/-- `smcp_inbound_reset_next_option`. -/
def Inbound.resetNextOption (i : Inbound) : Inbound :=
  { i with lastOptionKey := 0, thisOption := some (4 + headerTokenLen i.bytes) }

/-- What `smcp_inbound_next_option` leaves: the iterator, the key it returns, and the value and
length it stores if it gets that far. -/
structure NextOption where
  inbound : Inbound
  key : ℕ
  value : Option (ℕ × ℕ)

/-- `smcp_inbound_next_option`. -/
def Inbound.nextOption (i : Inbound) : NextOption :=
  match i.thisOption with
  | none => ⟨{ i with lastOptionKey := coapOptionInvalid }, coapOptionInvalid, none⟩
  | some p =>
    if p < i.packetLen ∧ i.bytes p ≠ 0xFF then
      match coapDecodeOption i.bytes p i.lastOptionKey with
      | none =>
        ⟨{ i with lastOptionKey := coapOptionInvalid, thisOption := none }, coapOptionInvalid,
          some (0, 0)⟩
      | some d =>
        ⟨{ i with lastOptionKey := d.key, thisOption := some d.next }, d.key, some (d.value, d.len)⟩
    else ⟨{ i with lastOptionKey := coapOptionInvalid }, coapOptionInvalid, none⟩

/-- `smcp_inbound_peek_option`: the key, and the value and length when there is an option. -/
def Inbound.peekOption (i : Inbound) : ℕ × Option (ℕ × ℕ) :=
  match i.thisOption with
  | none => (coapOptionInvalid, none)
  | some p =>
    if i.lastOptionKey ≠ coapOptionInvalid ∧ p < i.packetLen ∧ i.bytes p ≠ 0xFF then
      match coapDecodeOption i.bytes p i.lastOptionKey with
      | none => (coapOptionInvalid, some (0, 0))
      | some d => (d.key, some (d.value, d.len))
    else (coapOptionInvalid, none)

/-! ## The first scan -/

/-- The body of the scan loop, for an option with the given key and value. -/
def Inbound.noteOption (i : Inbound) (key value len : ℕ) : Inbound :=
  if key = coapOptionContentType then
    { i with contentType := coapDecodeUint32 i.bytes value len % 65536 }
  else if key = coapOptionObserve then
    { i with observeValue := coapDecodeUint32 i.bytes value len, hasObserveOption := true }
  else if key = coapOptionMaxAge then
    let maxAge := int32 (int32 (coapDecodeUint32 i.bytes value len) + 1)
    { i with maxAge := if maxAge < 5 then 5 else maxAge }
  else if key = coapOptionBlock2 then
    { i with block2Value := coapDecodeUint32 i.bytes value len }
  else i

/-- The scan loop, with the options it visited. -/
def Inbound.scanOptions : (fuel : ℕ) → Inbound → Inbound × List (ℕ × List UInt8)
  | 0, i => (i, [])
  | fuel + 1, i =>
    let r := i.nextOption
    if r.key = coapOptionInvalid then (r.inbound, [])
    else
      let v := r.value.getD (0, 0)
      let rest := scanOptions fuel (r.inbound.noteOption r.key v.1 v.2)
      (rest.1, (r.key, readBytes i.bytes v.1 v.2) :: rest.2)

/-- Where the scan stopped is where the content starts, after the marker if there is one. -/
def Inbound.locateContent (i : Inbound) : Inbound :=
  let contentPtr := i.thisOption.getD 0
  let contentLen := word16 (i.packetLen + 65536 - word16 contentPtr)
  if contentLen ≠ 0 then { i with contentPtr := contentPtr + 1, contentLen := contentLen - 1 }
  else { i with contentPtr := contentPtr, contentLen := contentLen }

/-- The scan of `smcp_inbound_finish_packet`. An option has at least one byte. -/
def Inbound.scan (i : Inbound) : Inbound × List (ℕ × List UInt8) :=
  let r := i.resetNextOption.scanOptions (i.packetLen + 1)
  (r.1.locateContent.resetNextOption, r.2)

/-! ## Starting a packet -/

/-- `smcp_inbound_start_packet`: the packet is verified, and gets a zero behind it. -/
def smcpInboundStartPacket (s : Instance) (buffer : ℕ → UInt8) (packetLength : ℕ) : Instance × ℤ :=
  if coapVerifyPacket buffer packetLength then
    ({ s with
        inbound :=
          { packet := some (Function.update buffer packetLength 0)
            packetLen := packetLength
            contentType := coapContentTypeUnknown }
        isProcessingMessage := true
        didRespond := false }, smcpStatusOk)
  else (s, smcpStatusBadPacket)

/-- `smcp_inbound_set_srcaddr`. -/
def smcpInboundSetSrcaddr (s : Instance) (sockaddr : SockAddr) : Instance × ℤ :=
  if s.isProcessingMessage then ({ s with inbound.saddr := sockaddr }, smcpStatusOk)
  else (s, smcpStatusFailure)

/-- `smcp_inbound_set_destaddr`. -/
def smcpInboundSetDestaddr (s : Instance) (sockaddr : SockAddr) : Instance × ℤ :=
  if s.isProcessingMessage then
    ({ s with inbound.wasSentToMulticast := smcpIsAddrMulticast sockaddr.addr }, smcpStatusOk)
  else (s, smcpStatusFailure)

/-! ## What the scan sees -/

section
variable {i : Inbound} {key value len : ℕ}

@[simp] theorem noteOption_packet : (i.noteOption key value len).packet = i.packet := by
  unfold Inbound.noteOption
  split_ifs <;> rfl

@[simp] theorem noteOption_packetLen : (i.noteOption key value len).packetLen = i.packetLen := by
  unfold Inbound.noteOption
  split_ifs <;> rfl

@[simp] theorem noteOption_thisOption : (i.noteOption key value len).thisOption = i.thisOption := by
  unfold Inbound.noteOption
  split_ifs <;> rfl

@[simp] theorem noteOption_lastOptionKey :
    (i.noteOption key value len).lastOptionKey = i.lastOptionKey := by
  unfold Inbound.noteOption
  split_ifs <;> rfl

@[simp] theorem noteOption_bytes : (i.noteOption key value len).bytes = i.bytes := by
  rw [Inbound.bytes, noteOption_packet, Inbound.bytes]

end

/-- `i'` is the same packet from the same sender, whatever was read from it. -/
structure Inbound.SamePacket (i i' : Inbound) : Prop where
  packet : i'.packet = i.packet
  packetLen : i'.packetLen = i.packetLen
  saddr : i'.saddr = i.saddr
  isFake : i'.isFake = i.isFake
  isDupe : i'.isDupe = i.isDupe

/-- The content that a message with the given payload has. -/
def contentOf (payload : Option (List UInt8)) : List UInt8 := payload.getD []

/-- The iterator has stopped in front of the content `content`, or at the end of the packet. -/
def StopsBefore (i : Inbound) (payload : Option (List UInt8)) : Prop :=
  ∃ q, i.thisOption = some q ∧ q ≤ i.packetLen ∧
    match payload with
    | none => q = i.packetLen
    | some content => q < i.packetLen ∧ readBytes i.bytes (q + 1) (i.packetLen - (q + 1)) = content

section
variable {i : Inbound} {fuel p : ℕ} {opts : List (ℕ × List UInt8)} {payload : Option (List UInt8)}

theorem Inbound.SamePacket.trans {i' i'' : Inbound} (h : i.SamePacket i') (h' : i'.SamePacket i'') :
    i.SamePacket i'' :=
  ⟨h'.packet.trans h.packet, h'.packetLen.trans h.packetLen, h'.saddr.trans h.saddr,
    h'.isFake.trans h.isFake, h'.isDupe.trans h.isDupe⟩

theorem Inbound.samePacket_nextOption (i : Inbound) : i.SamePacket i.nextOption.inbound := by
  unfold Inbound.nextOption
  split
  · exact ⟨rfl, rfl, rfl, rfl, rfl⟩
  · split_ifs
    · split <;> exact ⟨rfl, rfl, rfl, rfl, rfl⟩
    · exact ⟨rfl, rfl, rfl, rfl, rfl⟩

theorem Inbound.samePacket_noteOption (i : Inbound) (key value len : ℕ) :
    i.SamePacket (i.noteOption key value len) := by
  unfold Inbound.noteOption
  split_ifs <;> exact ⟨rfl, rfl, rfl, rfl, rfl⟩

theorem Inbound.samePacket_scanOptions (fuel : ℕ) (i : Inbound) :
    i.SamePacket (i.scanOptions fuel).1 := by
  induction fuel generalizing i with
  | zero => exact ⟨rfl, rfl, rfl, rfl, rfl⟩
  | succ fuel ih =>
    have hnext := i.samePacket_nextOption
    rw [Inbound.scanOptions]
    split_ifs
    · exact hnext
    · exact (hnext.trans (Inbound.samePacket_noteOption _ _ _ _)).trans (ih _)

theorem Inbound.samePacket_locateContent (i : Inbound) : i.SamePacket i.locateContent := by
  unfold Inbound.locateContent
  dsimp only
  split_ifs <;> exact ⟨rfl, rfl, rfl, rfl, rfl⟩

/-- The scan leaves the packet alone. -/
theorem Inbound.samePacket_scan (i : Inbound) : i.SamePacket i.scan.1 := by
  have hreset (i : Inbound) : i.SamePacket i.resetNextOption := ⟨rfl, rfl, rfl, rfl, rfl⟩
  have hscan := (hreset i).trans (Inbound.samePacket_scanOptions (i.packetLen + 1) _)
  exact (hscan.trans (Inbound.samePacket_locateContent _)).trans (hreset _)

/-- One round of the scan, on an area that starts with an option. -/
theorem scanOptions_step {d : DecodedOption} (hp : i.thisOption = some p) (hlt : p < i.packetLen)
    (hmark : i.bytes p ≠ 0xFF) (hd : coapDecodeOption i.bytes p i.lastOptionKey = some d)
    (hkey : d.key ≠ coapOptionInvalid) :
    i.scanOptions (fuel + 1) =
      let i' := ({ i with lastOptionKey := d.key, thisOption := some d.next } : Inbound).noteOption
        d.key d.value d.len
      ((i'.scanOptions fuel).1, (d.key, readBytes i.bytes d.value d.len) ::
        (i'.scanOptions fuel).2) := by
  have hnext : i.nextOption =
      ⟨{ i with lastOptionKey := d.key, thisOption := some d.next }, d.key, some (d.value, d.len)⟩ := by
    unfold Inbound.nextOption
    rw [hp]
    simp only
    rw [if_pos ⟨hlt, hmark⟩, hd]
  rw [Inbound.scanOptions, hnext]
  simp only [hkey, ↓reduceIte, Option.getD_some]

/-- The key that ends the loop. -/
theorem scanOptions_stop (h : i.nextOption.key = coapOptionInvalid) :
    i.scanOptions (fuel + 1) = (i.nextOption.inbound, []) := by
  rw [Inbound.scanOptions]
  simp only [h, ↓reduceIte]

/-- On an area that splits into options, the scan visits the options up to the first one numbered
`COAP_OPTION_INVALID`; without such an option it stops in front of the content. -/
theorem scanOptions_spec (hp : i.thisOption = some p) (hle : p ≤ i.packetLen)
    (hfuel : opts.length < fuel)
    (hs : Splits word16 (readBytes i.bytes p (i.packetLen - p)) opts payload) :
    (i.scanOptions fuel).2 =
        (withKeys i.lastOptionKey opts).takeWhile (fun o => o.1 ≠ coapOptionInvalid) ∧
      ((∀ o ∈ withKeys i.lastOptionKey opts, o.1 ≠ coapOptionInvalid) →
        StopsBefore (i.scanOptions fuel).1 payload) := by
  induction opts generalizing i p fuel with
  | nil =>
    obtain ⟨fuel, rfl⟩ : ∃ n, fuel = n + 1 := ⟨fuel - 1, by simp at hfuel; omega⟩
    -- at the end of the packet or at the marker
    have hstop : ¬(p < i.packetLen ∧ i.bytes p ≠ 0xFF) := by
      rintro ⟨hlt, hmark⟩
      obtain ⟨d, -, -, opts', h, -⟩ := (splits_readBytes_option i.lastOptionKey hlt hmark).1 hs
      simp at h
    have hnext : i.nextOption =
        ⟨{ i with lastOptionKey := coapOptionInvalid }, coapOptionInvalid, none⟩ := by
      unfold Inbound.nextOption
      rw [hp]
      simp only
      rw [if_neg hstop]
    rw [scanOptions_stop (by rw [hnext]), hnext]
    refine ⟨rfl, fun _ => ⟨p, hp, hle, ?_⟩⟩
    by_cases hlt : p < i.packetLen
    · have hmark : i.bytes p = 0xFF := by
        by_contra hne
        exact hstop ⟨hlt, hne⟩
      obtain ⟨-, rfl⟩ := (splits_readBytes_marker hlt hmark).1 hs
      exact ⟨hlt, rfl⟩
    · have hend : p = i.packetLen := by omega
      rw [hend] at hs
      obtain ⟨-, rfl⟩ := splits_readBytes_end.1 hs
      exact hend
  | cons o opts ih =>
    simp only [List.length_cons] at hfuel
    obtain ⟨fuel, rfl⟩ : ∃ n, fuel = n + 1 := ⟨fuel - 1, by omega⟩
    have hlt : p < i.packetLen := by
      by_contra hge
      have hend : p = i.packetLen := by omega
      rw [hend] at hs
      exact absurd (splits_readBytes_end.1 hs).1 (by simp)
    have hmark : i.bytes p ≠ 0xFF := by
      intro hm
      exact absurd ((splits_readBytes_marker hlt hm).1 hs).1 (by simp)
    obtain ⟨d, hd, hnext, opts', hopts, hs'⟩ :=
      (splits_readBytes_option i.lastOptionKey hlt hmark).1 hs
    rw [List.cons.injEq] at hopts
    obtain ⟨rfl, rfl⟩ := hopts
    have hdkey : d.key = i.lastOptionKey + declaredDelta i.bytes p := by
      rw [coapDecodeOption_eq] at hd
      split_ifs at hd
      rw [Option.some.injEq] at hd
      rw [← hd]
    rw [withKeys, ← hdkey]
    by_cases hinv : d.key = coapOptionInvalid
    · have hkey : i.nextOption.key = coapOptionInvalid := by
        unfold Inbound.nextOption
        rw [hp]
        simp only
        rw [if_pos ⟨hlt, hmark⟩, hd]
        exact hinv
      rw [scanOptions_stop hkey]
      refine ⟨by simp [hinv], fun hall => absurd hinv ?_⟩
      exact hall (d.key, readBytes i.bytes d.value d.len) (by simp)
    · rw [scanOptions_step hp hlt hmark hd hinv]
      have hih := ih (i := ({ i with lastOptionKey := d.key, thisOption := some d.next } :
          Inbound).noteOption d.key d.value d.len) (p := d.next)
        (by simp) (by simpa using hnext) (by omega : opts.length < fuel)
        (by rw [noteOption_bytes, noteOption_packetLen]; exact hs')
      simp only [noteOption_lastOptionKey] at hih
      refine ⟨?_, fun hall => hih.2 fun o ho => hall o (by simp [ho])⟩
      simp only [hih.1]
      rw [List.takeWhile_cons_of_pos (by simpa using hinv)]

/-- The scan stopped where the content starts: the content is what follows, less the marker. -/
theorem locateContent_spec (h : StopsBefore i payload) (hlen : i.packetLen < 65536) :
    i.locateContent.contentPtr + i.locateContent.contentLen = i.packetLen ∧
      readBytes i.bytes i.locateContent.contentPtr i.locateContent.contentLen =
        contentOf payload := by
  obtain ⟨q, hq, hle, h⟩ := h
  have hcount : word16 (i.packetLen + 65536 - word16 q) = i.packetLen - q := by
    unfold word16
    omega
  unfold Inbound.locateContent
  simp only [hq, Option.getD_some, hcount]
  cases payload with
  | none =>
    have hend : q = i.packetLen := h
    rw [if_neg (by omega)]
    refine ⟨by simp only; omega, ?_⟩
    simp only [hend, Nat.sub_self]
    rfl
  | some content =>
    obtain ⟨hlt, rfl⟩ := h
    rw [if_pos (by omega)]
    refine ⟨by simp only; omega, ?_⟩
    rw [Nat.sub_sub]
    rfl

end

theorem scan_bytes (i : Inbound) : i.scan.1.bytes = i.bytes := by
  rw [Inbound.bytes, i.samePacket_scan.packet, Inbound.bytes]

/-! ## The scan on a verified packet -/

/-- The scan visited the options `opts`, and the content it found is the payload, up to the last
byte of the packet. -/
def ScanComplete (i : Inbound) (visited opts : List (ℕ × List UInt8))
    (payload : Option (List UInt8)) : Prop :=
  visited = withKeys 0 opts ∧ i.contentPtr + i.contentLen = i.packetLen ∧
    readBytes i.bytes i.contentPtr i.contentLen = contentOf payload

/-- The inbound state that `smcp_inbound_start_packet` leaves for a verified packet. -/
theorem startPacket_inbound {buffer : ℕ → UInt8} {n : ℕ} (s : Instance)
    (hv : coapVerifyPacket buffer n = true) :
    (smcpInboundStartPacket s buffer n).1.inbound =
      { packet := some (Function.update buffer n 0), packetLen := n
        contentType := coapContentTypeUnknown } := by
  unfold smcpInboundStartPacket
  rw [if_pos hv]

/-- The zero behind the packet is not part of it. -/
theorem readBytes_update_of_le {m : ℕ → UInt8} {p k n : ℕ} (h : p + k ≤ n) (b : UInt8) :
    readBytes (Function.update m n b) p k = readBytes m p k := by
  refine readBytes_congr fun j hj hjk => ?_
  rw [Function.update_of_ne (by omega)]

/-- What the scan of a started packet does, in terms of the split of the packet into options. -/
theorem scan_spec {buffer : ℕ → UInt8} {n : ℕ} {opts : List (ℕ × List UInt8)}
    {payload : Option (List UInt8)} (s : Instance) (hn : n < 65536)
    (hv : coapVerifyPacket buffer n = true)
    (hs : Splits word16 (optionArea (readBytes buffer 0 n)) opts payload) :
    let r := (smcpInboundStartPacket s buffer n).1.inbound.scan
    r.2 = (withKeys 0 opts).takeWhile (fun o => o.1 ≠ coapOptionInvalid) ∧
      ((∀ o ∈ withKeys 0 opts, o.1 ≠ coapOptionInvalid) → ScanComplete r.1 r.2 opts payload) := by
  have hwf := (coapVerifyPacket_iff buffer n).1 hv
  rw [word16_of_lt hn] at hwf
  have hinside := hwf.token_inside
  have hge := hwf.size_ge
  rw [length_readBytes] at hinside hge
  have hm0 : (Function.update buffer n 0 : ℕ → UInt8) 0 = buffer 0 :=
    Function.update_of_ne (by omega) _ _
  have htok : tokenLength (readBytes buffer 0 n) = headerTokenLen (Function.update buffer n 0) := by
    rw [tokenLength, getD_readBytes (by omega), headerTokenLen, hm0]
  rw [startPacket_inbound s hv]
  set i : Inbound := { packet := some (Function.update buffer n 0), packetLen := n
                       contentType := coapContentTypeUnknown } with hi
  -- the area the scan walks over is the one that was split
  have harea : Splits word16 (readBytes i.resetNextOption.bytes (4 + headerTokenLen i.bytes)
      (i.resetNextOption.packetLen - (4 + headerTokenLen i.bytes))) opts payload := by
    change Splits word16 (readBytes (Function.update buffer n 0)
      (4 + headerTokenLen (Function.update buffer n 0))
      (n - (4 + headerTokenLen (Function.update buffer n 0)))) opts payload
    rw [htok] at hinside
    rw [readBytes_update_of_le (by omega), ← drop_readBytes, ← htok]
    exact hs
  have hfuel : opts.length < i.packetLen + 1 := by
    have := hs.length_le
    rw [optionArea, List.length_drop, length_readBytes] at this
    change opts.length < n + 1
    omega
  obtain ⟨hvisited, hstops⟩ := scanOptions_spec (i := i.resetNextOption) rfl
    (by change 4 + headerTokenLen (Function.update buffer n 0) ≤ n; rw [← htok]; exact hinside)
    hfuel harea
  have hplen := (Inbound.samePacket_scanOptions (i.packetLen + 1) i.resetNextOption).packetLen
  refine ⟨hvisited, fun hall => ?_⟩
  have hlen : (i.resetNextOption.scanOptions (i.packetLen + 1)).1.packetLen < 65536 := by
    rw [hplen]
    exact hn
  obtain ⟨hend, hbytes⟩ := locateContent_spec (hstops hall) hlen
  refine ⟨?_, ?_, ?_⟩
  · change (i.resetNextOption.scanOptions (i.packetLen + 1)).2 = _
    rw [hvisited]
    exact List.takeWhile_eq_self_iff.2 fun o ho => by simpa using hall o ho
  · refine hend.trans ?_
    exact (Inbound.samePacket_locateContent _).packetLen.symm
  · rw [← hbytes]
    have hpacket := (Inbound.samePacket_locateContent
      (i.resetNextOption.scanOptions (i.packetLen + 1)).1).packet
    unfold Inbound.scan Inbound.bytes Inbound.resetNextOption at *
    rw [hpacket]

/-- On a verified packet, the scan sees every option and finds the content exactly when no option
of the packet has the number that `smcp_inbound_next_option` returns at the end. -/
theorem scan_complete_iff {buffer : ℕ → UInt8} {n : ℕ} {opts : List (ℕ × List UInt8)}
    {payload : Option (List UInt8)} (s : Instance) (hn : n < 65536)
    (hv : coapVerifyPacket buffer n = true)
    (hs : Splits word16 (optionArea (readBytes buffer 0 n)) opts payload) :
    let r := (smcpInboundStartPacket s buffer n).1.inbound.scan
    ScanComplete r.1 r.2 opts payload ↔ ∀ o ∈ withKeys 0 opts, o.1 ≠ coapOptionInvalid := by
  obtain ⟨hvisited, hcomplete⟩ := scan_spec s hn hv hs
  refine ⟨fun hc o ho => ?_, hcomplete⟩
  have hall := List.takeWhile_eq_self_iff.1 (hvisited.symm.trans hc.1)
  simpa using hall o ho

/-- A request with a path, a query and content. -/
def scannedPacket : List UInt8 := [0x40, 0x01, 0, 0, 0xB1, 0x61, 0x42, 0x78, 0x79, 0xFF, 0x7A]

theorem scannedPacket_splits :
    Splits word16 (optionArea (readBytes (ofList scannedPacket fun _ => 0) 0 11))
      [(11, [0x61]), (4, [0x78, 0x79])] (some [0x7A]) := by
  have hfirst : Splits word16 [0xB1, 0x61, 0x42, 0x78, 0x79, 0xFF, 0x7A]
      [(11, [0x61]), (4, [0x78, 0x79])] (some [0x7A]) :=
    .option 0xB1 [] [] [0x61] _ _ _ (by decide) (by decide) rfl rfl rfl
      (.option 0x42 [] [] [0x78, 0x79] _ _ _ (by decide) (by decide) rfl rfl rfl (.marker [0x7A]))
  exact hfirst

theorem scan_complete_scannedPacket :
    let s := smcpCreate default (fun _ => 0) fun _ => 0
    let r := (smcpInboundStartPacket s (ofList scannedPacket fun _ => 0) 11).1.inbound.scan
    ScanComplete r.1 r.2 [(11, [0x61]), (4, [0x78, 0x79])] (some [0x7A]) :=
  (scan_complete_iff (smcpCreate default (fun _ => 0) fun _ => 0) (by decide) (by decide)
    scannedPacket_splits).2 (by decide)

/-- Two options numbered 65535 with one byte of value each, and content. -/
def markerKeyPacket : List UInt8 :=
  [0x40, 0x01, 0, 0, 0xE1, 0xFE, 0xF2, 0x61, 0x01, 0x62, 0xFF, 0x7A]

/-- The scan stops behind the first of them. It has visited no option, and takes the value of the
second one, the marker and the content for the content. -/
theorem scan_incomplete_markerKeyPacket :
    let s := smcpCreate default (fun _ => 0) fun _ => 0
    let m := ofList markerKeyPacket fun _ => 0
    let r := (smcpInboundStartPacket s m 12).1.inbound.scan
    coapVerifyPacket m 12 = true ∧
      Splits word16 (optionArea (readBytes m 0 12)) [(65535, [0x61]), (0, [0x62])] (some [0x7A]) ∧
      r.2 = [] ∧ readBytes r.1.bytes r.1.contentPtr r.1.contentLen = [0x62, 0xFF, 0x7A] ∧
      ¬ScanComplete r.1 r.2 [(65535, [0x61]), (0, [0x62])] (some [0x7A]) := by
  have hsplits : Splits word16 [0xE1, 0xFE, 0xF2, 0x61, 0x01, 0x62, 0xFF, 0x7A]
      [(65535, [0x61]), (0, [0x62])] (some [0x7A]) :=
    .option 0xE1 [0xFE, 0xF2] [] [0x61] _ _ _ (by decide) (by decide) rfl rfl rfl
      (.option 0x01 [] [] [0x62] _ _ _ (by decide) (by decide) rfl rfl rfl (.marker [0x7A]))
  refine ⟨by decide, hsplits, by decide, by decide, fun h => ?_⟩
  have hvisited := h.1
  revert hvisited
  decide

end Smcp
