import Smcp.Outbound.RoundTrip
import Smcp.Url.Parse

/-!
# The options of a URL

`smcp_outbound_set_uri` of `smcp-outbound.c`.

* `addOptions_values`: a list of options is added to the message as far as there is room, and
  `HasRoom` says when that is all of it;
* `setUri_uriText`: which options a path and a query without an authority add.
-/

namespace Smcp

open ByteMemory OptionFormat

/-! ## The functions -/

def coapDefaultPort : ℕ := 5683

/-! Flags of `smcp_outbound_set_uri`. -/
def smcpMsgSkipDestaddr : ℕ := 1 <<< 0
def smcpMsgSkipAuthority : ℕ := 1 <<< 1

/-- What `smcp_outbound_set_uri` asks its surroundings. -/
structure UriEnv where
  /-- `smcp_get_port`. -/
  port : ℕ
  proxyUrl : Option (List UInt8)
  /-- `smcp_internal_lookup_hostname`: an address, or an error. -/
  lookupHostname : List UInt8 → Except ℤ SockAddr
  /-- Whether `smcp_auth_get_remote_user` knows the user. -/
  knowsUser : List UInt8 → Bool

def isdigit (c : UInt8) : Bool := ascii '0' ≤ c && c ≤ ascii '9'

/-- The digits at the front of a string. -/
def digitsValue (str : List UInt8) : ℕ :=
  (str.takeWhile isdigit).foldl (fun n c => n * 10 + (c - ascii '0').toNat) 0

/-- `atoi`, for strings without white space. -/
def atoi (str : List UInt8) : ℤ :=
  match str with
  | [] => 0
  | c :: rest =>
    if c = ascii '-' then -digitsValue rest
    else if c = ascii '+' then digitsValue rest
    else digitsValue str

def tolower (c : UInt8) : UInt8 := if ascii 'A' ≤ c ∧ c ≤ ascii 'Z' then c + 32 else c

/-- `require_noerr(ret, bail)`. -/
def onSuccess (r : Instance × ℤ) (f : Instance → Instance × ℤ) : Instance × ℤ :=
  if r.2 ≠ smcpStatusOk then r else f r.1

/-- Add options one after the other, up to the first that fails. -/
def addOptions (s : Instance) : List (ℕ × List UInt8) → Instance × ℤ
  | [] => (s, smcpStatusOk)
  | o :: opts => onSuccess (smcpOutboundAddOption s o.1 o.2) fun s => addOptions s opts

/-- `smcp_outbound_set_destaddr_from_host_and_port`. A multicast request cannot be confirmable. -/
def smcpOutboundSetDestaddrFromHostAndPort (env : UriEnv) (s : Instance) (addrStr : List UInt8)
    (toport : ℕ) : Instance × ℤ :=
  let addrStr :=
    if addrStr.map tolower = asciiBytes "coap-alldevices" then asciiBytes "FF02::FD" else addrStr
  match env.lookupHostname addrStr with
  | .error ret => (s, ret)
  | .ok saddr =>
    let saddr := { saddr with port := toport }
    let s := smcpOutboundSetDestaddr s saddr
    if smcpIsAddrMulticast saddr.addr ∧ s.outbound.header.tt = coapTransTypeConfirmable then
      (smcpOutboundSetTt s coapTransTypeNonconfirmable, smcpStatusOk)
    else (s, smcpStatusOk)

/-- `smcp_auth_outbound_set_credentials`. -/
def smcpAuthOutboundSetCredentials (env : UriEnv) (s : Instance) (username : List UInt8) :
    Instance × ℤ :=
  if env.knowsUser username then (s, smcpStatusOk)
  else smcpOutboundAddOption s coapOptionAuthenticate []

/-- The options for an authority. -/
def uriAuthorityOptions (c : UrlComponents) (toport : ℕ) : List (ℕ × List UInt8) :=
  (match c.host with
    | some host => if stringContainsColons host then [] else [(coapOptionUriHost, host)]
    | none => []) ++
  match c.port with
  | some _ => [(coapOptionUriPort, uintOptionValue toport)]
  | none => []

/-- The options for a path. -/
def uriPathOptions (path : List UInt8) : List (ℕ × List UInt8) :=
  let hasTrailingSlash := path.getLast? = some (ascii '/')
  (urlPathComponents (path.dropWhile isSlash)).map (fun component => (coapOptionUriPath, component)) ++
    if hasTrailingSlash then [(coapOptionUriPath, [])] else []

/-- The options for a query. -/
def uriQueryOptions (query : List UInt8) : List (ℕ × List UInt8) :=
  ((urlFormValues query).filter (· ≠ [])).map fun key => (coapOptionUriQuery, key)

/-- The part of `smcp_outbound_set_uri` after the protocol has been looked at. -/
def setComponents (env : UriEnv) (s : Instance) (c : UrlComponents) (toport flags : ℕ) :
    Instance × ℤ :=
  let authority :=
    if hasFlag flags smcpMsgSkipAuthority then (s, smcpStatusOk)
    else addOptions s (uriAuthorityOptions c toport)
  onSuccess authority fun s =>
  let host := c.host.getD []
  let destaddr :=
    if hasFlag flags smcpMsgSkipDestaddr = false ∧ host ≠ [] then
      smcpOutboundSetDestaddrFromHostAndPort env s host toport
    else (s, smcpStatusOk)
  onSuccess destaddr fun s =>
  let credentials :=
    match c.username with
    | some username => smcpAuthOutboundSetCredentials env s username
    | none => (s, smcpStatusOk)
  onSuccess credentials fun s =>
  onSuccess (addOptions s ((c.path.map uriPathOptions).getD [])) fun s =>
  addOptions s ((c.query.map uriQueryOptions).getD [])

/-- `smcp_outbound_set_uri`, with what it does about the URL of another protocol. -/
def setUri (env : UriEnv) (proxy : Instance → Instance × ℤ) (s : Instance) (uri : List UInt8)
    (flags : ℕ) : Instance × ℤ :=
  let parsed := urlParse uri
  let c := parsed.1
  if parsed.2 = 0 then (s, smcpStatusUriParseFailure)
  -- talking to ourself
  else if c.protocol = none ∧ c.host = none then
    setComponents env s { c with protocol := some (asciiBytes "coap"), host := some (asciiBytes "::1") }
      env.port (flags ||| smcpMsgSkipAuthority)
  else
    let toport :=
      match c.port with
      | some port => (atoi port % 65536).toNat
      | none => coapDefaultPort
    match c.protocol with
    | some protocol =>
      if protocol = asciiBytes "coaps" then (s, smcpStatusNotImplemented)
      else if protocol ≠ asciiBytes "coap" then proxy s
      else setComponents env s c toport flags
    | none => setComponents env s c toport flags

/-- `smcp_outbound_set_uri`. The URL of the proxy is not sent to a proxy itself. -/
def smcpOutboundSetUri (env : UriEnv) (s : Instance) (uri : List UInt8) (flags : ℕ) :
    Instance × ℤ :=
  let proxy (s : Instance) : Instance × ℤ :=
    match env.proxyUrl with
    | none => (s, smcpStatusInvalidArgument)
    | some url =>
      onSuccess (smcpOutboundAddOption s coapOptionProxyUri uri) fun s =>
      setUri env (fun s => (s, smcpStatusInvalidArgument)) s url flags
  setUri env proxy s uri flags

/-! ## Adding options as far as there is room -/

/-- How many bytes of options the message can have. -/
def Outbound.optionRoom (o : Outbound) : ℕ :=
  o.maxPacketLen - (o.optionsStart + 1 + o.contentLen)

/-- There is room for more options, one after the other. An option has to leave eight bytes. -/
def RoomFor (limit : ℕ) : List (ℕ × List UInt8) → List (ℕ × List UInt8) → Prop
  | _, [] => True
  | opts, o :: added =>
    (encode 0 opts).length + o.2.length + 8 ≤ limit ∧ RoomFor limit (insertByKey o opts) added

instance decidableRoomFor (limit : ℕ) :
    (opts added : List (ℕ × List UInt8)) → Decidable (RoomFor limit opts added)
  | _, [] => inferInstanceAs (Decidable True)
  | opts, o :: added =>
    have := decidableRoomFor limit (insertByKey o opts) added
    inferInstanceAs (Decidable (_ ∧ RoomFor limit (insertByKey o opts) added))

/-- The next option brings the Observe option of the current transaction with it. -/
def ObserveDue (s : Instance) : Prop :=
  s.autoOptions.observe = true ∧ s.outbound.lastOptionKey < coapOptionObserve ∧
    s.outbound.header.code ≠ 0 ∧ s.outbound.header.code < coapResult100

instance (s : Instance) : Decidable (ObserveDue s) := inferInstanceAs (Decidable (_ ∧ _ ∧ _ ∧ _))

/-- There is room in the message for all these options, and for the Observe option before them. -/
def HasRoom (s : Instance) (opts added : List (ℕ × List UInt8)) : Prop :=
  added ≠ [] → RoomFor s.outbound.optionRoom opts
    ((if ObserveDue s then [(coapOptionObserve, [])] else []) ++ added)

instance (s : Instance) (opts added : List (ℕ × List UInt8)) : Decidable (HasRoom s opts added) :=
  inferInstanceAs (Decidable (_ → RoomFor _ _ _))

section
variable {s : Instance} {o : Outbound} {opts added : List (ℕ × List UInt8)} {key : ℕ}
  {value : List UInt8}

theorem onSuccess_ok {r : Instance × ℤ} (f : Instance → Instance × ℤ) (h : r.2 = smcpStatusOk) :
    onSuccess r f = f r.1 := if_neg fun hne => hne h

theorem onSuccess_error {r : Instance × ℤ} (f : Instance → Instance × ℤ) (h : r.2 ≠ smcpStatusOk) :
    onSuccess r f = r := if_pos h

/-- The status of an option is the only one that matters. -/
theorem addOptions_append (s : Instance) (a b : List (ℕ × List UInt8)) :
    addOptions s (a ++ b) = onSuccess (addOptions s a) fun s => addOptions s b := by
  induction a generalizing s with
  | nil => exact (onSuccess_ok (r := (s, smcpStatusOk)) (fun s => addOptions s b) rfl).symm
  | cons o a ih =>
    rw [List.cons_append, addOptions, addOptions]
    by_cases hok : (smcpOutboundAddOption s o.1 o.2).2 = smcpStatusOk
    · rw [onSuccess_ok _ hok, onSuccess_ok _ hok]
      exact ih _
    · rw [onSuccess_error _ hok, onSuccess_error _ hok, onSuccess_error _ hok]

/-- An option is accepted if there is room for it, and else changes nothing. -/
theorem addOption_room (hc : Composed o opts) (hb : Bounded o) (hkey : key ≤ coapOptionInvalid)
    (hlen : value.length < 65536) :
    ((encode 0 opts).length + value.length + 8 ≤ o.optionRoom ∧
        (smcpOutboundAddOption_ o key value).2 = smcpStatusOk ∧
        Composed (smcpOutboundAddOption_ o key value).1 (insertByKey (key, value) opts) ∧
        Bounded (smcpOutboundAddOption_ o key value).1 ∧
        Extends o (smcpOutboundAddOption_ o key value).1) ∨
      (¬(encode 0 opts).length + value.length + 8 ≤ o.optionRoom ∧
        smcpOutboundAddOption_ o key value = (o, smcpStatusMessageTooBig)) := by
  have hword : word16 value.length = value.length := word16_of_lt hlen
  have hspace : (encode 0 opts).length + value.length + 8 ≤ o.optionRoom ↔
      word16 value.length + 8 ≤ o.spaceRemaining := by
    have hptr := hc.contentPtr_eq
    have hle := hb
    unfold Bounded at hle
    rw [hword, hb.spaceRemaining_eq hc, Outbound.optionRoom]
    omega
  by_cases hroom : (encode 0 opts).length + value.length + 8 ≤ o.optionRoom
  · left
    have hadd := addOption_spec hc hb hkey (hspace.1 hroom)
    rw [hword, List.take_length] at hadd
    exact ⟨hroom, hadd⟩
  · right
    exact ⟨hroom, addOption_tooBig fun h => hroom (hspace.2 h)⟩

theorem Extends.optionRoom_eq {o' : Outbound} (h : Extends o o') : o'.optionRoom = o.optionRoom := by
  unfold Outbound.optionRoom
  rw [h.max_eq, h.optionsStart_eq, h.contentLen_eq]

/-- The options of a request that comes with a URL lie between Observe and Block2. -/
structure UriOption (o : ℕ × List UInt8) : Prop where
  observe_lt : coapOptionObserve < o.1
  lt_block2 : o.1 < coapOptionBlock2
  length_lt : o.2.length < 65536

theorem outboundAddOption_notDue {s : Instance} (hdue : ¬ObserveDue s) (hblock2 : key < coapOptionBlock2) :
    outboundAddOption s.autoOptions s.outbound key value =
      smcpOutboundAddOption_ s.outbound key value := by
  have hup : smcpOutboundAddOptionsUpToKey_ s.autoOptions s.outbound key =
      (s.outbound, smcpStatusOk) := by
    have hauto : addAutoBlock2 s.autoOptions s.outbound key = (s.outbound, smcpStatusOk) :=
      if_neg fun h => absurd h.2.2 (by omega)
    unfold smcpOutboundAddOptionsUpToKey_
    rw [hauto]
    exact if_neg fun h => hdue ⟨h.1, h.2.1, h.2.2.2⟩
  unfold outboundAddOption
  rw [hup]
  dsimp only
  rw [if_neg (by simp), if_neg (by omega)]

/-- Without an Observe option to come first, as many options are added as there is room for. -/
theorem addOptions_notDue (hc : Composed s.outbound opts) (hb : Bounded s.outbound)
    (hdue : ¬ObserveDue s) (hadded : ∀ o ∈ added, UriOption o) :
    ∃ n ≤ added.length, ∃ opts', Composed (addOptions s added).1.outbound opts' ∧
      (∀ key, values key opts' = values key opts ++ values key (added.take n)) ∧
      (n = added.length ↔ RoomFor s.outbound.optionRoom opts added) := by
  induction added generalizing s opts with
  | nil => exact ⟨0, le_rfl, opts, hc, fun key => (List.append_nil _).symm, iff_of_true rfl trivial⟩
  | cons o added ih =>
    obtain ⟨hobserve, hblock2, hlen⟩ := hadded o List.mem_cons_self
    have hadd : smcpOutboundAddOption s o.1 o.2 =
        ({ s with outbound := (smcpOutboundAddOption_ s.outbound o.1 o.2).1 },
          (smcpOutboundAddOption_ s.outbound o.1 o.2).2) := by
      unfold smcpOutboundAddOption
      rw [outboundAddOption_notDue hdue hblock2]
    have hkey : o.1 ≤ coapOptionInvalid := hblock2.le.trans (by decide)
    rw [addOptions, hadd]
    rcases addOption_room hc hb hkey hlen with
      ⟨hroom, hok, hc', hb', hextends⟩ | ⟨hroom, htooBig⟩
    · rw [onSuccess_ok _ hok]
      have hdue' : ¬ObserveDue
          { s with outbound := (smcpOutboundAddOption_ s.outbound o.1 o.2).1 } := by
        -- the key is behind Observe
        rintro ⟨-, hlast, -⟩
        rw [hc'.lastKey_eq, lastKey_insertByKey hc.ordered (Nat.zero_le _)] at hlast
        omega
      obtain ⟨n, hn, opts', hcomposed, hvalues, hall⟩ := ih hc' hb' hdue'
        fun o' ho' => hadded o' (List.mem_cons_of_mem o ho')
      refine ⟨n + 1, Nat.succ_le_succ hn, opts', hcomposed, ?_, ?_⟩
      · intro key
        rw [hvalues, values_insertByKey hc.ordered, List.take_succ_cons, values_cons,
          List.append_assoc]
      · rw [List.length_cons, Nat.succ_inj, hall, RoomFor, ← hextends.optionRoom_eq]
        rw [← hextends.optionRoom_eq] at hroom
        exact (and_iff_right hroom).symm
    · rw [htooBig]
      refine ⟨0, Nat.zero_le _, opts, hc, fun key => (List.append_nil _).symm, ?_⟩
      rw [List.length_cons, RoomFor]
      exact iff_of_false (by omega) fun h => hroom h.1

/-- When the Observe option is due, it is added by itself first. -/
theorem outboundAddOption_due {s : Instance} (hdue : ObserveDue s) (hobserve : coapOptionObserve < key)
    (hblock2 : key < coapOptionBlock2) :
    outboundAddOption s.autoOptions s.outbound key value =
      if (smcpOutboundAddOption_ s.outbound coapOptionObserve []).2 ≠ smcpStatusOk then
        smcpOutboundAddOption_ s.outbound coapOptionObserve []
      else
        smcpOutboundAddOption_ (smcpOutboundAddOption_ s.outbound coapOptionObserve []).1 key
          value := by
  have hauto : addAutoBlock2 s.autoOptions s.outbound key = (s.outbound, smcpStatusOk) :=
    if_neg fun h => absurd h.2.2 (by omega)
  have hup : smcpOutboundAddOptionsUpToKey_ s.autoOptions s.outbound key =
      smcpOutboundAddOption_ s.outbound coapOptionObserve [] := by
    unfold smcpOutboundAddOptionsUpToKey_
    rw [hauto]
    exact if_pos ⟨hdue.1, hdue.2.1, hobserve, hdue.2.2⟩
  unfold outboundAddOption
  rw [hup]
  dsimp only
  rw [if_neg (show ¬(key = coapOptionBlock2 ∧ _) by omega)]

/-- As many options are added as there is room for. -/
theorem addOptions_values (hc : Composed s.outbound opts) (hb : Bounded s.outbound)
    (hadded : ∀ o ∈ added, UriOption o) :
    ∃ n ≤ added.length, ∃ opts', Composed (addOptions s added).1.outbound opts' ∧
      (∀ key, coapOptionObserve < key →
        values key opts' = values key opts ++ values key (added.take n)) ∧
      (n = added.length ↔ HasRoom s opts added) := by
  -- Observe is due before the first option that comes, or it is not due at all
  by_cases hdue : ObserveDue s
  · cases hcons : added with
    | nil => exact ⟨0, le_rfl, opts, hc, fun key _ => (List.append_nil _).symm,
        iff_of_true rfl fun hne => absurd rfl hne⟩
    | cons a rest =>
      rw [← hcons]
      have hne : added ≠ [] := by simp [hcons]
      have hroom_iff : HasRoom s opts added ↔
          RoomFor s.outbound.optionRoom opts ((coapOptionObserve, []) :: added) := by
        unfold HasRoom
        rw [if_pos hdue]
        exact forall_prop_of_true hne
      obtain ⟨hobserve, hblock2, -⟩ := hadded a (by simp [hcons])
      have hadd : smcpOutboundAddOption s a.1 a.2 =
          ({ s with outbound := (outboundAddOption s.autoOptions s.outbound a.1 a.2).1 },
            (outboundAddOption s.autoOptions s.outbound a.1 a.2).2) := rfl
      rw [outboundAddOption_due hdue hobserve hblock2] at hadd
      rcases addOption_room hc hb (show coapOptionObserve ≤ coapOptionInvalid by decide)
          (show ([] : List UInt8).length < 65536 by decide) with
        ⟨hroom, hok, hc', hb', hextends⟩ | ⟨hroom, htooBig⟩
      · -- go on behind the Observe option
        set s' : Instance :=
          { s with outbound := (smcpOutboundAddOption_ s.outbound coapOptionObserve []).1 } with hs'
        have hdue' : ¬ObserveDue s' := by
          rintro ⟨-, hlast, -⟩
          rw [hc'.lastKey_eq, lastKey_insertByKey hc.ordered (Nat.zero_le _)] at hlast
          omega
        have hsame : addOptions s added = addOptions s' added := by
          have hadd' : smcpOutboundAddOption s' a.1 a.2 =
              ({ s' with outbound := (outboundAddOption s'.autoOptions s'.outbound a.1 a.2).1 },
                (outboundAddOption s'.autoOptions s'.outbound a.1 a.2).2) := rfl
          rw [outboundAddOption_notDue hdue' hblock2] at hadd'
          rw [if_neg (fun h => h hok)] at hadd
          rw [hcons, addOptions, addOptions, hadd, hadd']
        obtain ⟨n, hn, opts', hcomposed, hvalues, hall⟩ := addOptions_notDue hc' hb' hdue' hadded
        rw [hsame]
        refine ⟨n, hn, opts', hcomposed, ?_, ?_⟩
        · intro key hkey
          rw [hvalues, values_insertByKey hc.ordered, if_neg (by simp only; omega), List.append_nil]
        · rw [hall, hroom_iff, RoomFor, ← hextends.optionRoom_eq]
          rw [← hextends.optionRoom_eq] at hroom
          exact (and_iff_right hroom).symm
      · rw [htooBig, if_pos (show smcpStatusMessageTooBig ≠ smcpStatusOk by decide)] at hadd
        refine ⟨0, Nat.zero_le _, opts, ?_, fun key _ => (List.append_nil _).symm, ?_⟩
        · rw [hcons, addOptions, hadd]
          exact hc
        · rw [hroom_iff, RoomFor, hcons]
          exact iff_of_false (by simp) fun h => hroom h.1
  · obtain ⟨n, hn, opts', hcomposed, hvalues, hall⟩ := addOptions_notDue hc hb hdue hadded
    refine ⟨n, hn, opts', hcomposed, fun key _ => hvalues key, hall.trans ?_⟩
    unfold HasRoom
    rw [if_neg hdue, List.nil_append]
    constructor
    · exact fun h _ => h
    · intro h
      cases added with
      | nil => trivial
      | cons a rest => exact h (List.cons_ne_nil a rest)

end

/-! ## A path and a query -/

section
variable {segments items : List (List UInt8)}

/-- What a path and a query add: the segments decoded, and of the items only the values. -/
def decodedOptions (segments items : List (List UInt8)) : List (ℕ × List UInt8) :=
  (segments.map (List.map plainChar)).map (fun v => (coapOptionUriPath, v)) ++
    (items.map formItem).map fun v => (coapOptionUriQuery, v)

theorem uriPathOptions_escape (h : ∀ s ∈ segments, s ≠ [] ∧ ∀ c ∈ s, c ≠ 0)
    (hlen : ∀ s ∈ segments, s.length < 18446744073709551615) :
    uriPathOptions (segments.flatMap fun s => ascii '/' :: escape s) =
      (segments.map (List.map plainChar)).map fun v => (coapOptionUriPath, v) := by
  -- the slash in front is the one that the parser takes off
  have htext : (segments.flatMap fun s => ascii '/' :: escape s).dropWhile isSlash =
      pathText segments := by
    cases segments with
    | nil => rfl
    | cons s segments =>
      rw [List.flatMap_cons, List.cons_append, List.dropWhile_cons_of_pos (by decide), pathText,
        List.map_cons, joinWith_cons, List.flatMap_map]
      have hs := (h s List.mem_cons_self).1
      cases hescape : escape s with
      | nil => exact absurd hescape (escape_ne_nil hs)
      | cons c rest =>
        have hc : isSlash c = false :=
          (isEscaped_escape (s := s) (c := c) (by simp [hescape])).notSlash
        rw [List.cons_append, List.dropWhile_cons_of_neg (by simp [hc])]
  -- the last byte is part of the last segment
  have hslash : (segments.flatMap fun s => ascii '/' :: escape s).getLast? ≠ some (ascii '/') := by
    intro hlast
    induction segments using List.reverseRecOn with
    | nil => cases hlast
    | append_singleton segments s _ =>
      have hs : escape s ≠ [] := escape_ne_nil (h s (by simp)).1
      rw [List.flatMap_append, List.flatMap_singleton, List.getLast?_append_of_ne_nil _ (by simp),
        List.getLast?_cons_of_ne_nil hs, List.getLast?_eq_some_iff] at hlast
      obtain ⟨rest, hrest⟩ := hlast
      have hmem : ascii '/' ∈ escape s := by simp [hrest]
      exact absurd (isEscaped_escape hmem).notSlash (by decide)
  unfold uriPathOptions
  dsimp only
  rw [htext, if_neg hslash, List.append_nil, urlPathComponents_pathText h hlen]

theorem formItem_ne_nil {item : List UInt8} (h : item ≠ []) : formItem item ≠ [] := by
  unfold formItem
  cases hvalue : (splitItem item).2 with
  | none =>
    dsimp only
    rw [List.append_nil]
    apply escape_ne_nil
    rw [← splitItem_none hvalue]
    exact h
  | some value => simp

theorem uriQueryOptions_queryText (h : ∀ item ∈ items, item ≠ [] ∧ ∀ c ∈ item, c ≠ 0)
    (hlen : ∀ item ∈ items, item.length < 18446744073709551615) :
    uriQueryOptions (queryText items) =
      (items.map formItem).map fun v => (coapOptionUriQuery, v) := by
  have hfilter : (items.map formItem).filter (· ≠ []) = items.map formItem := by
    rw [List.filter_eq_self]
    intro v hv
    obtain ⟨item, hitem, rfl⟩ := List.mem_map.1 hv
    simpa using formItem_ne_nil (h item hitem).1
  unfold uriQueryOptions
  rw [urlFormValues_queryText h hlen, hfilter]

/-- What `smcp_outbound_set_uri` does with a path and a query, and no authority. -/
theorem setUri_uriText (env : UriEnv) (s : Instance)
    (hsegments : ∀ s ∈ segments, s ≠ [] ∧ ∀ c ∈ s, c ≠ 0)
    (hitems : ∀ item ∈ items, item ≠ [] ∧ ∀ c ∈ item, c ≠ 0)
    (hlen : ∀ v ∈ segments ++ items, v.length < 18446744073709551615) :
    (smcpOutboundSetUri env s (uriText segments items)
        (smcpMsgSkipAuthority ||| smcpMsgSkipDestaddr)).1 =
      (addOptions s (decodedOptions segments items)).1 := by
  -- the parser finds no authority, and the components of the path and the query
  obtain ⟨n, hparse, hn⟩ := urlParse_uriText
  unfold smcpOutboundSetUri setUri
  rw [hparse]
  dsimp only
  -- a text of nothing has no component
  by_cases hzero : n = 0
  · -- no path and no query
    have hnone := hn.1 hzero
    rw [if_pos hzero]
    cases hcases : segments with
    | cons a rest => simp [uriText, hcases] at hnone
    | nil =>
      cases hcases' : items with
      | cons a rest => simp [uriText, hcases'] at hnone
      | nil => rfl
  · rw [if_neg hzero, if_pos ⟨rfl, rfl⟩]
    have hpath := uriPathOptions_escape hsegments fun v hv => hlen v (List.mem_append_left _ hv)
    have hquery : ((if items = [] then none else some (queryText items)).map
        uriQueryOptions).getD [] = (items.map formItem).map fun v => (coapOptionUriQuery, v) := by
      by_cases hnil : items = []
      · rw [if_pos hnil, hnil]
        rfl
      · rw [if_neg hnil]
        exact uriQueryOptions_queryText hitems fun v hv => hlen v (List.mem_append_right _ hv)
    unfold setComponents
    dsimp only
    rw [if_pos (by decide), onSuccess_ok _ rfl]
    rw [if_neg (by decide), onSuccess_ok _ rfl, onSuccess_ok _ rfl, hquery, Option.map_some,
      Option.getD_some, hpath, ← addOptions_append, decodedOptions]

end

end Smcp
