import Mathlib.Data.List.Find
import Smcp.Inbound.Iterator
import Smcp.Url.Escape

/-!
# Virtual hosts

`smcp_vhost_add` and `smcp_vhost_route` of `smcp.c`, as `smcp_handle_request` uses them.

The comparison of `smcp_vhost_route` is the wrong way round: it takes a virtual host whose name
differs from the one in the request.

* `Vhost.selects_iff`: which names pass the comparison;
* `handleRequest_vhost`: the handler that is called;
* `vhost_routing_iff`: when this is the handler of the virtual host that the request names.
-/

namespace Smcp

open ByteMemory OptionFormat

/-! ## The comparison of names -/

theorem cString_cons (b : UInt8) (bytes : List UInt8) :
    cString (b :: bytes) = if b = 0 then [] else b :: cString bytes := by
  unfold cString
  rw [List.takeWhile_cons]
  by_cases hb : b = 0 <;> simp [hb]

theorem strncmp_eq_zero_iff (a b : ℕ → UInt8) (i j n : ℕ) :
    strncmp a b i j n = 0 ↔ cString (readBytes a i n) = cString (readBytes b j n) := by
  induction n generalizing i j with
  | zero => exact ⟨fun _ => rfl, fun _ => rfl⟩
  | succ n ih =>
    rw [strncmp, readBytes, readBytes, cString_cons, cString_cons]
    by_cases hdiffer : a i = b j
    · rw [if_neg (not_not.2 hdiffer), ← hdiffer]
      by_cases hend : a i = 0
      · rw [if_pos hend, if_pos hend, if_pos hend]
        exact ⟨fun _ => rfl, fun _ => rfl⟩
      · rw [if_neg hend, if_neg hend, if_neg hend, ih, List.cons.injEq]
        exact ⟨fun heq => ⟨rfl, heq⟩, And.right⟩
    · rw [if_pos hdiffer]
      have hbytes : (a i).toNat ≠ (b j).toNat := fun heq => hdiffer (UInt8.toNat_inj.1 heq)
      have hleft : ((a i).toNat : ℤ) - (b j).toNat ≠ 0 := by omega
      refine ⟨fun heq => absurd heq hleft, fun heq => ?_⟩
      split_ifs at heq with ha hb hb
      · exact absurd (ha.trans hb.symm) hdiffer
      · exact absurd (List.cons.inj heq).1 hdiffer

section
variable {name : List UInt8} {len : ℕ}

theorem name_ends_iff (hname : ∀ c ∈ name, c ≠ 0) :
    ofList name (fun _ => 0) len = 0 ↔ name.length ≤ len := by
  unfold ofList
  rw [List.getD_eq_getElem?_getD]
  by_cases hlen : len < name.length
  · rw [List.getElem?_eq_getElem hlen, Option.getD_some]
    have hbyte := hname _ (List.getElem_mem hlen)
    exact ⟨fun heq => absurd heq hbyte, fun hle => absurd hle (by omega)⟩
  · rw [List.getElem?_eq_none (by omega), Option.getD_none]
    exact ⟨fun _ => by omega, fun _ => rfl⟩

/-- The string in a field that holds a name. -/
theorem cString_name (hname : ∀ c ∈ name, c ≠ 0) (hlen : name.length ≤ len) :
    cString (readBytes (ofList name fun _ => 0) 0 len) = name := by
  obtain ⟨k, rfl⟩ := Nat.exists_eq_add_of_le hlen
  have hrest : cString (readBytes (ofList name fun _ => 0) name.length k) = [] := by
    cases k with
    | zero => rfl
    | succ k =>
      rw [readBytes, cString_cons]
      exact if_pos ((name_ends_iff hname).2 (Nat.le_refl _))
  rw [readBytes_add, Nat.zero_add, readBytes_ofList]
  unfold cString at hrest ⊢
  rw [List.takeWhile_append_of_pos (by simpa using hname), hrest, List.append_nil]

end

/-- The name is not longer than the host, and another one. -/
def Vhost.isOther (v : Vhost) (host : List UInt8) : Bool :=
  v.name.length ≤ host.length && v.name != cString host

/-- A name as `smcp_vhost_add` stores it. -/
structure Vhost.Named (v : Vhost) : Prop where
  length_pos : 0 < v.name.length
  length_le : v.name.length ≤ vhostNameSize
  noNul : ∀ c ∈ v.name, c ≠ 0

theorem Vhost.selects_iff {v : Vhost} (hv : v.Named) (m : ℕ → UInt8) (value len : ℕ) :
    v.selects m value len = v.isOther (readBytes m value len) := by
  unfold Vhost.selects Vhost.isOther
  rw [length_readBytes]
  by_cases hlen : v.name.length ≤ len
  · have hend := (name_ends_iff hv.noNul).2 hlen
    have hcompare := strncmp_eq_zero_iff (ofList v.name fun _ => 0) m 0 value len
    rw [cString_name hv.noNul hlen] at hcompare
    rw [hend, decide_eq_true hlen, beq_self_eq_true, Bool.and_true, Bool.true_and]
    by_cases hsame : v.name = cString (readBytes m value len)
    · rw [hcompare.2 hsame, ← hsame]
      simp
    · have hdiffer : strncmp (ofList v.name fun _ => 0) m 0 value len ≠ 0 :=
        fun heq => hsame (hcompare.1 heq)
      rw [decide_eq_true hdiffer]
      simpa using hsame
  · have hend : ofList v.name (fun _ => 0) len ≠ 0 :=
      fun heq => hlen ((name_ends_iff hv.noNul).1 heq)
    rw [decide_eq_false hlen, beq_eq_false_iff_ne.2 hend, Bool.and_false, Bool.false_and]

/-! ## The scan for the option -/

/-- The Uri-Host option of a request. -/
def uriHost (opts : List (ℕ × List UInt8)) : Option (List UInt8) :=
  (values coapOptionUriHost opts).head?

section
variable {i : Inbound} {opts : List (ℕ × List UInt8)} {payload : Option (List UInt8)}

theorem uriHost_eq (hsorted : Sorted opts) :
    uriHost opts = match opts.find? fun o => coapOptionUriHost ≤ o.1 with
      | some o => if o.1 = coapOptionUriHost then some o.2 else none
      | none => none := by
  -- induction on the options; the order makes the first of the larger ones the last to look at
  induction opts with
  | nil => rfl
  | cons o opts ih =>
    obtain ⟨hhead, htail⟩ := List.pairwise_cons.1 hsorted
    unfold uriHost values at ih ⊢
    -- an option below Uri-Host is passed over by both of the searches
    by_cases hlt : o.1 < coapOptionUriHost
    · rw [List.filter_cons_of_neg (by simp; omega), List.find?_cons_of_neg (by simp; omega)]
      exact ih htail
    · rw [List.find?_cons_of_pos (by simp; omega)]
      by_cases heq : o.1 = coapOptionUriHost
      · rw [List.filter_cons_of_pos (by simpa using heq)]
        dsimp only
        rw [if_pos heq]
        rfl
      · -- the options behind it have numbers that are not smaller
        have hnone : (opts.filter fun o => o.1 = coapOptionUriHost) = [] := by
          apply List.filter_eq_nil_iff.2
          intro o' ho'
          have hle := hhead o' ho'
          simp
          omega
        rw [List.filter_cons_of_neg (by simpa using heq), hnone]
        dsimp only
        rw [if_neg heq]
        rfl

/-- The scan ends with the first option that is not smaller than Uri-Host. -/
theorem vhostScan_spec (h : i.Ahead opts payload) {fuel : ℕ} (hfuel : opts.length < fuel)
    (value : ℕ × ℕ) :
    match opts.find? fun o => coapOptionUriHost ≤ o.1 with
      | some o => (vhostScan fuel i value).2.1 = o.1 ∧
          (vhostScan fuel i value).2.2.2 = o.2.length ∧
          readBytes i.bytes (vhostScan fuel i value).2.2.1 o.2.length = o.2
      | none => (vhostScan fuel i value).2.1 = coapOptionInvalid := by
  -- induction on the options, as the source's loop reads them
  induction opts generalizing i fuel value with
  | nil =>
    cases fuel with
    | zero => exact absurd hfuel (by simp)
    | succ fuel =>
      obtain ⟨hnext, -⟩ := h.nextOption_nil
      rw [vhostScan, hnext]
      rfl
  | cons o opts ih =>
    obtain ⟨k, v⟩ := o
    cases fuel with
    | zero => exact absurd hfuel (by simp)
    | succ fuel =>
      obtain ⟨hkey, ⟨p, hvalue, hbytes, -⟩, hrest⟩ := h.nextOption_cons
      rw [vhostScan, hkey, hvalue]
      by_cases hge : coapOptionUriHost ≤ k
      · rw [List.find?_cons_of_pos (by simpa using hge), if_pos (.inr hge)]
        exact ⟨rfl, rfl, hbytes⟩
      · have hgo : ¬(k = coapOptionInvalid ∨ k ≥ coapOptionUriHost) := by
          unfold coapOptionInvalid coapOptionUriHost at *
          omega
        have hscan := ih hrest (by simpa using hfuel) (p, v.length)
        rw [i.sameMessage_nextOption.bytes] at hscan
        rw [List.find?_cons_of_neg (by simpa using hge), if_neg hgo]
        exact hscan

end

/-! ## The handler that is called -/

/-- Add virtual hosts, with their names and handlers. -/
def vhostAddRun (s : Instance) (adds : List (List UInt8 × ℕ)) : Instance :=
  adds.foldl (fun s a => (smcpVhostAdd s a.1 a.2).1) s

theorem vhostAdd_named {s : Instance} {name : List UInt8} {func : ℕ} (hs : ∀ v ∈ s.vhosts, v.Named)
    (hname : ∀ c ∈ name, c ≠ 0) : ∀ v ∈ (smcpVhostAdd s name func).1.vhosts, v.Named := by
  unfold smcpVhostAdd
  split_ifs with hempty
  · exact hs
  · intro v hv
    rcases List.mem_append.1 hv with hv | hv
    · exact hs v hv
    · obtain rfl := List.mem_singleton.1 hv
      have hlen := List.length_pos_iff.2 hempty
      refine ⟨?_, ?_, fun c hc => hname c (List.mem_of_mem_take hc)⟩
      · show 0 < (name.take vhostNameSize).length
        rw [List.length_take]
        unfold vhostNameSize
        omega
      · show (name.take vhostNameSize).length ≤ vhostNameSize
        rw [List.length_take]
        omega
  · exact hs

theorem vhostAddRun_named {s : Instance} {adds : List (List UInt8 × ℕ)}
    (hs : ∀ v ∈ s.vhosts, v.Named) (hadds : ∀ a ∈ adds, ∀ c ∈ a.1, c ≠ 0) :
    ∀ v ∈ (vhostAddRun s adds).vhosts, v.Named := by
  induction adds generalizing s with
  | nil => exact hs
  | cons a adds ih =>
    exact ih (vhostAdd_named hs (hadds a List.mem_cons_self)) fun a' ha' =>
      hadds a' (List.mem_cons_of_mem a ha')

/-- The handler of the virtual host with the name in the request, or else the default handler. -/
def namedHandler (vhosts : List Vhost) (func : Option ℕ) (host : Option (List UInt8)) : Option ℕ :=
  ((host.bind fun h => vhosts.find? fun v => v.name == h).map Vhost.func).or func

/-- The handler of the first virtual host that has another name, which is not longer than the one in
the request. -/
def otherHandler (vhosts : List Vhost) (func : Option ℕ) (host : List UInt8) : Option ℕ :=
  ((vhosts.find? fun v => v.isOther host).map Vhost.func).or func

/-- `smcp_handle_request` calls the handler. -/
def Instance.UsesHandler (s : Instance) (hooks : Hooks) (handler : Option ℕ) : Prop :=
  ∃ i, s.inbound.SameMessage i ∧
    smcpHandleRequest hooks s = match handler with
      | none => ({ s with inbound := i }, smcpStatusNotImplemented)
      | some k => hooks (.request k) { s with inbound := i }

/-- An application that returns the number of the handler. -/
def handlerNumber : Hooks
  | .request k, s => (s, k)
  | _, s => (s, 0)

theorem Instance.UsesHandler.unique {s : Instance} {handler handler' : Option ℕ}
    (h : ∀ hooks, s.UsesHandler hooks handler) (h' : ∀ hooks, s.UsesHandler hooks handler') :
    handler = handler' := by
  obtain ⟨i, -, heq⟩ := h handlerNumber
  obtain ⟨i', -, heq'⟩ := h' handlerNumber
  have hstatus := congrArg Prod.snd (heq.symm.trans heq')
  cases handler with
  | none =>
    cases handler' with
    | none => rfl
    | some k' =>
      have hneg : smcpStatusNotImplemented = (k' : ℤ) := hstatus
      unfold smcpStatusNotImplemented at hneg
      omega
  | some k =>
    cases handler' with
    | none =>
      have hneg : (k : ℤ) = smcpStatusNotImplemented := hstatus
      unfold smcpStatusNotImplemented at hneg
      omega
    | some k' =>
      have hsame : (k : ℤ) = k' := hstatus
      exact congrArg some (by omega)

section
variable {s : Instance} {split : List (ℕ × List UInt8)} {payload : Option (List UInt8)}

/-- The handler that `smcp_vhost_route` chooses. -/
def routedHandler (vhosts : List Vhost) (func : Option ℕ) : Option (List UInt8) → Option ℕ
  | some host => if host.length ≤ vhostNameSize then otherHandler vhosts func host else func
  | none => func

theorem routedHandler_nil (func : Option ℕ) (host : Option (List UInt8)) :
    routedHandler [] func host = func := by
  cases host with
  | none => rfl
  | some host =>
    unfold routedHandler otherHandler
    dsimp only
    split_ifs <;> rfl

theorem find?_selects (hnamed : ∀ v ∈ s.vhosts, v.Named) {m : ℕ → UInt8} {value : ℕ}
    {host : List UInt8} (hhost : readBytes m value host.length = host) :
    (s.vhosts.find? fun v => v.selects m value host.length) =
      s.vhosts.find? fun v => v.isOther host := by
  apply List.find?_congr
  intro v hv
  rw [Vhost.selects_iff (hnamed v hv), hhost]

theorem vhostRoute_handler (hnamed : ∀ v ∈ s.vhosts, v.Named) (func : Option ℕ)
    (hv : coapVerifyPacket s.inbound.bytes s.inbound.packetLen = true)
    (hlen : s.inbound.packetLen < 65536)
    (hs : Splits word16 (optionArea (readBytes s.inbound.bytes 0 s.inbound.packetLen)) split payload) :
    ∃ i, s.inbound.SameMessage i ∧ smcpVhostRoute s func =
      ({ s with inbound := i }, routedHandler s.vhosts func (uriHost (withKeys 0 split))) := by
  -- the loop of the source starts from the first option, with no value yet
  have hahead := ahead_resetNextOption hv hlen hs
  have hfuel := hahead.length_le
  have hscan := vhostScan_spec hahead (Nat.lt_succ_of_le hfuel) (0, 0)
  have hsame := s.inbound.sameMessage_resetNextOption.trans
    (sameMessage_vhostScan (s.inbound.packetLen + 1) s.inbound.resetNextOption (0, 0))
  have hreset : s.inbound.resetNextOption.packetLen = s.inbound.packetLen := rfl
  rw [hreset, s.inbound.sameMessage_resetNextOption.bytes] at hscan
  rw [uriHost_eq (sorted_withKeys 0 split)]
  unfold smcpVhostRoute
  -- without virtual hosts the loop is not run at all
  by_cases hempty : s.vhosts = []
  · rw [if_pos hempty]
    refine ⟨s.inbound, .refl _, congrArg (Prod.mk s) ?_⟩
    rw [hempty, routedHandler_nil]
  · rw [if_neg hempty]
    dsimp only
    generalize vhostScan (s.inbound.packetLen + 1) s.inbound.resetNextOption (0, 0) = r
      at hscan hsame ⊢
    refine ⟨r.1, hsame, ?_⟩
    rw [hsame.bytes]
    cases hfind : (withKeys 0 split).find? fun o => coapOptionUriHost ≤ o.1 with
    | none =>
      rw [hfind] at hscan
      have hkey : r.2.1 ≠ coapOptionUriHost := by
        rw [hscan]
        decide
      rw [if_pos (.inr hkey)]
      rfl
    | some o =>
      rw [hfind] at hscan
      obtain ⟨hkey, hvalueLen, hvalue⟩ := hscan
      dsimp only
      rw [hkey, hvalueLen]
      by_cases hhost : o.1 = coapOptionUriHost
      · rw [if_pos hhost]
        unfold routedHandler
        dsimp only
        by_cases hle : o.2.length ≤ vhostNameSize
        · rw [if_neg (by omega), if_pos hle, find?_selects hnamed hvalue]
          unfold otherHandler
          cases s.vhosts.find? fun v => v.isOther o.2 <;> rfl
        · rw [if_pos (.inl (by omega)), if_neg hle]
      · rw [if_neg hhost, if_pos (.inr hhost)]
        rfl

/-- The handler that `smcp_handle_request` calls. -/
theorem handleRequest_vhost (hnamed : ∀ v ∈ s.vhosts, v.Named)
    (hv : coapVerifyPacket s.inbound.bytes s.inbound.packetLen = true)
    (hlen : s.inbound.packetLen < 65536)
    (hs : Splits word16 (optionArea (readBytes s.inbound.bytes 0 s.inbound.packetLen)) split payload)
    (hooks : Hooks) :
    s.UsesHandler hooks (routedHandler s.vhosts s.requestHandler (uriHost (withKeys 0 split))) := by
  obtain ⟨i, hi, hauth⟩ := authInboundInit_eq s
  rw [← hi.bytes, ← hi.packetLen] at hv hs
  rw [← hi.packetLen] at hlen
  obtain ⟨i', hi', hroute⟩ := vhostRoute_handler (s := { s with inbound := i }) hnamed
    s.requestHandler hv hlen hs
  unfold Instance.UsesHandler smcpHandleRequest
  rw [hauth, hroute]
  dsimp only
  cases routedHandler s.vhosts s.requestHandler (uriHost (withKeys 0 split)) with
  | none => exact ⟨i', hi.trans hi', rfl⟩
  | some k => exact ⟨_, (hi.trans hi').trans i'.sameMessage_resetNextOption, rfl⟩

/-- The handler of the virtual host that is named in the request is called exactly when the request
names none, or a name that is too long for a virtual host, or when the first virtual host with another
name that is not longer has the same handler. -/
theorem vhost_routing_iff (s₀ : Instance) (adds : List (List UInt8 × ℕ)) (hempty : s₀.vhosts = [])
    (hadds : ∀ a ∈ adds, a.1 ≠ [] ∧ a.1.length ≤ vhostNameSize ∧ ∀ c ∈ a.1, c ≠ 0)
    (hbuilt : s.vhosts = (vhostAddRun s₀ adds).vhosts)
    (hv : coapVerifyPacket s.inbound.bytes s.inbound.packetLen = true)
    (hlen : s.inbound.packetLen < 65536)
    (hs : Splits word16 (optionArea (readBytes s.inbound.bytes 0 s.inbound.packetLen)) split payload) :
    (∀ hooks, s.UsesHandler hooks
      (namedHandler s.vhosts s.requestHandler (uriHost (withKeys 0 split)))) ↔
    ∀ host, uriHost (withKeys 0 split) = some host → host.length ≤ vhostNameSize →
      otherHandler s.vhosts s.requestHandler host =
        namedHandler s.vhosts s.requestHandler (some host) := by
  -- every name is a string inside its array of 64 bytes
  have hnamed : ∀ v ∈ s.vhosts, v.Named := by
    rw [hbuilt]
    apply vhostAddRun_named _ fun a ha => (hadds a ha).2.2
    rw [hempty]
    exact fun v hv => absurd hv List.not_mem_nil
  -- only one handler is used: the one that the name selects, as far as it fits into the array
  have hused := handleRequest_vhost hnamed hv hlen hs
  generalize uriHost (withKeys 0 split) = host at hused ⊢
  constructor
  · intro h host' hhost hle
    have heq := Instance.UsesHandler.unique hused h
    rw [hhost] at heq
    unfold routedHandler at heq
    dsimp only at heq
    rwa [if_pos hle] at heq
  · intro h
    cases host with
    | none => exact hused
    | some host =>
      have hrouted : routedHandler s.vhosts s.requestHandler (some host) =
          namedHandler s.vhosts s.requestHandler (some host) := by
        unfold routedHandler
        dsimp only
        by_cases hle : host.length ≤ vhostNameSize
        · rw [if_pos hle, h host rfl hle]
        · rw [if_neg hle]
          have hnone : (s.vhosts.find? fun v => v.name == host) = none := by
            apply List.find?_eq_none.2
            intro v hv heq
            have hsame : v.name = host := by simpa using heq
            have hshort := (hnamed v hv).length_le
            rw [hsame] at hshort
            exact hle hshort
          unfold namedHandler
          rw [Option.bind_some, hnone]
          rfl
      rw [← hrouted]
      exact hused

end

/-- An instance with one virtual host, and a GET with a Uri-Host option of one character. -/
def hostInstance (name : List UInt8) (host : UInt8) : Instance :=
  { vhostAddRun (smcpCreate default (fun _ => 0) fun _ => 1) [(name, 7)] with
    requestHandler := some 0
    inbound := { packet := some (ofList [0x40, 1, 0, 1, 0x31, host] fun _ => 0), packetLen := 6 } }

theorem vhost_routing_longer_name : namedHandler [⟨[0x61, 0x62], 7⟩] (some 0) (some [0x61]) = some 0 ∧
    ∀ hooks, (hostInstance [0x61, 0x62] 0x61).UsesHandler hooks
      (namedHandler [⟨[0x61, 0x62], 7⟩] (some 0) (some [0x61])) := by
  -- the instance as a value: its packet is not computed again
  generalize hi : (hostInstance [0x61, 0x62] 0x61).inbound = i
  have harea : optionArea (readBytes i.bytes 0 i.packetLen) = encode 0 [(3, [0x61])] ++ [] := by
    rw [← hi]
    decide +kernel
  -- one option: Uri-Host with its value `a`
  have hsplit : Splits word16 (optionArea (readBytes i.bytes 0 i.packetLen)) [(3, [0x61])] none := by
    rw [harea]
    have hordered : Ordered 65535 1000 0 [(3, [0x61])] := by decide
    exact splits_encode hordered (by decide) (by decide) (fun n hn => word16_of_lt (by omega))
      Splits.nil
  have hverified : coapVerifyPacket i.bytes i.packetLen = true := by
    rw [← hi]
    decide +kernel
  rw [← hi] at hsplit hverified
  -- the general result, with its side conditions on these bytes
  have h := vhost_routing_iff (s := hostInstance [0x61, 0x62] 0x61)
    (smcpCreate default (fun _ => 0) fun _ => 1) [([0x61, 0x62], 7)] rfl
    (by decide +kernel) rfl hverified (by decide) hsplit
  refine ⟨by decide +kernel, ?_⟩
  apply h.2
  intro host hhost _
  have heq : host = [0x61] := (Option.some.inj hhost).symm
  rw [heq]
  decide +kernel

/-- The virtual host `a` is not found. -/
theorem vhost_routing_same_name :
    let s := hostInstance [0x61] 0x61
    coapVerifyPacket s.inbound.bytes s.inbound.packetLen = true ∧
      s.inbound.resetNextOption.readOptions 7 = [(coapOptionUriHost, [0x61])] ∧
      s.vhosts = [⟨[0x61], 7⟩] ∧ ¬∀ hooks, s.UsesHandler hooks (some 7) := by
  intro s
  refine ⟨by decide +kernel, by decide +kernel, by decide +kernel, ?_⟩
  intro h
  obtain ⟨i, -, heq⟩ := h handlerNumber
  have hcalled : (smcpHandleRequest handlerNumber s).2 = 0 := by decide +kernel
  have hstatus : (smcpHandleRequest handlerNumber s).2 = 7 := congrArg Prod.snd heq
  rw [hcalled] at hstatus
  exact absurd hstatus (by decide)

end Smcp
