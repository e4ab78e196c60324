import Smcp.Inbound.Iterator
import Smcp.Lib.CString

/-!
# Comparing the next option with a string

`smcp_inbound_option_strequal`, against `smcp_inbound_peek_option`. Both decode the option at the
iterator, but only the second looks whether there is one.

* `Inbound.Positions`: where the iterator can get in a packet;
* `Inbound.phantom`: the option that is decoded there although none is left;
* `optionStrequal_iff_peeks_iff`: the two agree on everything but that option.
-/

namespace Smcp

open ByteMemory OptionFormat

/-! ## The function -/

/-- The loop of `smcp_inbound_option_strequal`, and the test behind it. The string is given without
its terminator. -/
def strequalLoop (m : ℕ → UInt8) : (valueLen : ℕ) → (value : ℕ) → (cstr : List UInt8) → Bool
  | 0, _, cstr => cstr == []
  | _ + 1, _, [] => false
  | valueLen + 1, value, c :: cstr =>
    if m value ≠ c then false else strequalLoop m valueLen (value + 1) cstr

/-- `smcp_inbound_option_strequal`. -/
def Inbound.optionStrequal (i : Inbound) (key : ℕ) (cstr : CStr) : Bool :=
  match i.thisOption with
  | none => false
  | some p =>
    match coapDecodeOption i.bytes p i.lastOptionKey with
    -- no option: the key is that of the end, and the value is empty
    | none => if coapOptionInvalid ≠ key then false else strequalLoop i.bytes 0 0 cstr.bytes
    | some d => if d.key ≠ key then false else strequalLoop i.bytes d.len d.value cstr.bytes

/-- `smcp_inbound_peek_option` reports the key, with this value. -/
def Inbound.Peeks (i : Inbound) (key : ℕ) (s : List UInt8) : Prop :=
  ∃ value len, i.peekOption = (key, some (value, len)) ∧ readBytes i.bytes value len = s

/-- The positions of the iterator in a message. -/
inductive Inbound.Positions (i : Inbound) : Inbound → Prop
  | reset : Positions i i.resetNextOption
  | again {j : Inbound} (h : Positions i j) : Positions i j.resetNextOption
  | next {j : Inbound} (h : Positions i j) : Positions i j.nextOption.inbound

/-- What `smcp_inbound_option_strequal` finds where `smcp_inbound_peek_option` finds nothing, with
the options and the payload that lie ahead. -/
def Inbound.phantom (i : Inbound) :
    List (ℕ × List UInt8) → Option (List UInt8) → Option (ℕ × List UInt8)
  -- the zero behind the packet
  | [], none => some (i.lastOptionKey, [])
  -- the marker in front of the payload
  | [], some _ => some (coapOptionInvalid, [])
  -- an option whose predecessor looks like the end
  | o :: _, _ => if i.lastOptionKey = coapOptionInvalid then some o else none

/-! ## Agreement -/

theorem strequalLoop_iff (m : ℕ → UInt8) (valueLen value : ℕ) (cstr : List UInt8) :
    strequalLoop m valueLen value cstr = true ↔ readBytes m value valueLen = cstr := by
  induction valueLen generalizing value cstr with
  | zero =>
    rw [strequalLoop, readBytes, beq_iff_eq]
    exact eq_comm
  | succ valueLen ih =>
    rw [readBytes]
    cases cstr with
    | nil => simp [strequalLoop]
    | cons c cstr =>
      rw [strequalLoop, List.cons.injEq]
      by_cases hc : m value = c
      · rw [if_neg (not_not.2 hc), ih, and_iff_right hc]
      · rw [if_pos hc]
        simp [hc]

section
variable {i j : Inbound} {key : ℕ} {s : CStr} {opts : List (ℕ × List UInt8)}
  {payload : Option (List UInt8)}

/-- An option ahead is decoded. -/
theorem Inbound.Ahead.decode_cons {k : ℕ} {v : List UInt8} (h : i.Ahead ((k, v) :: opts) payload) :
    ∃ p d, i.thisOption = some p ∧ (p < i.packetLen ∧ i.bytes p ≠ 0xFF) ∧
      coapDecodeOption i.bytes p i.lastOptionKey = some d ∧ d.key = k ∧
      readBytes i.bytes d.value d.len = v := by
  obtain ⟨hkey, ⟨q, hvalue, hbytes, -⟩, p', split', hnext, -⟩ := h.nextOption_cons
  obtain ⟨p, -, hp, -⟩ := h
  unfold Inbound.nextOption at hkey hvalue hnext
  rw [hp] at hkey hvalue hnext
  dsimp only at hkey hvalue hnext
  by_cases hopt : p < i.packetLen ∧ i.bytes p ≠ 0xFF
  · rw [if_pos hopt] at hkey hvalue hnext
    cases hd : coapDecodeOption i.bytes p i.lastOptionKey with
    | none =>
      rw [hd] at hnext
      exact absurd hnext (by simp)
    | some d =>
      rw [hd] at hkey hvalue
      dsimp only at hkey hvalue
      rw [Option.some.injEq, Prod.mk.injEq] at hvalue
      rw [← hvalue.1, ← hvalue.2] at hbytes
      exact ⟨p, d, hp, hopt, hd, hkey, hbytes⟩
  · rw [if_neg hopt] at hvalue
    exact absurd hvalue (by simp)

/-- With an option ahead, that one is compared; it is reported unless its predecessor looks like the
end. -/
theorem Inbound.Ahead.strequal_cons {k : ℕ} {v : List UInt8}
    (h : i.Ahead ((k, v) :: opts) payload) (key : ℕ) (s : CStr) :
    (i.optionStrequal key s = true ↔ k = key ∧ v = s.bytes) ∧
      (i.Peeks key s.bytes ↔ i.lastOptionKey ≠ coapOptionInvalid ∧ k = key ∧ v = s.bytes) := by
  obtain ⟨p, d, hp, hopt, hd, hkey, hbytes⟩ := h.decode_cons
  -- the comparison itself, and then what tells the caller about an option in its place
  constructor
  · unfold Inbound.optionStrequal
    rw [hp]
    dsimp only
    rw [hd]
    dsimp only
    rw [hkey]
    by_cases hk : k = key
    · rw [if_neg (not_not.2 hk), strequalLoop_iff, hbytes, and_iff_right hk]
    · rw [if_pos hk]
      simp [hk]
  · unfold Inbound.Peeks Inbound.peekOption
    rw [hp]
    dsimp only
    by_cases hlast : i.lastOptionKey = coapOptionInvalid
    · rw [if_neg fun hall => hall.1 hlast]
      simp [hlast]
    · rw [if_pos ⟨hlast, hopt⟩, hd]
      dsimp only
      rw [hkey]
      constructor
      · rintro ⟨value, len, heq, hread⟩
        rw [Prod.mk.injEq, Option.some.injEq, Prod.mk.injEq] at heq
        obtain ⟨rfl, rfl, rfl⟩ := heq
        exact ⟨hlast, rfl, hbytes.symm.trans hread⟩
      · rintro ⟨-, rfl, rfl⟩
        exact ⟨d.value, d.len, rfl, hbytes⟩

/-- Without an option ahead nothing is reported. -/
theorem Inbound.Ahead.peeks_nil (h : i.Ahead [] payload) : ¬i.Peeks key s.bytes := by
  obtain ⟨hnext, -⟩ := h.nextOption_nil
  obtain ⟨p, -, hp, -⟩ := h
  have hnone : i.nextOption.value = none := by rw [hnext]
  unfold Inbound.nextOption at hnone
  unfold Inbound.Peeks Inbound.peekOption
  rw [hp] at hnone ⊢
  dsimp only at hnone ⊢
  rintro ⟨value, len, heq, -⟩
  by_cases hopt : p < i.packetLen ∧ i.bytes p ≠ 0xFF
  · rw [if_pos hopt] at hnone
    split at hnone <;> exact absurd hnone (by simp)
  · rw [if_neg fun hall => hopt hall.2] at heq
    exact absurd heq (by simp)

/-- Where a verified packet has no more options, there is the marker, or the zero behind it. -/
theorem Inbound.Ahead.place_nil (h : i.Ahead [] payload) :
    ∃ p, i.thisOption = some p ∧
      (payload = none ∧ p = i.packetLen ∨ payload.isSome ∧ i.bytes p = 0xFF) := by
  obtain ⟨p, split, hp, hle, hs, hkeys⟩ := h
  cases split with
  | cons o split => exact absurd hkeys (by simp [withKeys])
  | nil =>
    refine ⟨p, hp, ?_⟩
    by_cases hend : p = i.packetLen
    · rw [hend] at hs
      exact .inl ⟨(splits_readBytes_end.1 hs).2, hend⟩
    · have hlt : p < i.packetLen := by omega
      by_cases hmark : i.bytes p = 0xFF
      · rw [((splits_readBytes_marker hlt hmark).1 hs).2]
        exact .inr ⟨rfl, hmark⟩
      · obtain ⟨d, -, -, opts', hopts, -⟩ := (splits_readBytes_option 0 hlt hmark).1 hs
        exact absurd hopts (by simp)

/-- Without an option ahead, the phantom is compared. -/
theorem Inbound.Ahead.strequal_nil (h : i.Ahead [] payload) (hzero : i.bytes i.packetLen = 0) :
    i.optionStrequal key s = true ↔ i.phantom [] payload = some (key, s.bytes) := by
  obtain ⟨p, hp, hplace⟩ := h.place_nil
  unfold Inbound.optionStrequal
  rw [hp]
  dsimp only
  -- behind the last option there is the end of the packet, or the payload marker
  rcases hplace with ⟨rfl, rfl⟩ | ⟨hsome, hmark⟩
  -- at the end the byte behind the packet is read, and it passes for an option
  · have hnib : ¬((i.bytes i.packetLen).toNat / 16 = 15 ∨ (i.bytes i.packetLen).toNat % 16 = 15) := by
      rw [hzero]
      decide
    have hdelta : declaredDelta i.bytes i.packetLen = 0 := by
      unfold declaredDelta
      rw [hzero]
      rfl
    have hlength : word16 (declaredLength i.bytes i.packetLen) = 0 := by
      unfold declaredLength
      rw [hzero]
      rfl
    rw [coapDecodeOption_eq, if_neg hnib, hdelta, hlength]
    dsimp only
    rw [Nat.add_zero]
    unfold Inbound.phantom
    rw [Option.some.injEq, Prod.mk.injEq]
    by_cases hk : i.lastOptionKey = key
    · rw [if_neg (not_not.2 hk), strequalLoop_iff, and_iff_right hk]
      rfl
    · rw [if_pos hk]
      simp [hk]
  · obtain ⟨rest, rfl⟩ := Option.isSome_iff_exists.1 hsome
    have hnib : (i.bytes p).toNat / 16 = 15 ∨ (i.bytes p).toNat % 16 = 15 := by
      rw [hmark]
      decide
    rw [coapDecodeOption_eq, if_pos hnib]
    dsimp only
    unfold Inbound.phantom
    rw [Option.some.injEq, Prod.mk.injEq]
    by_cases hk : coapOptionInvalid = key
    · rw [if_neg (not_not.2 hk), strequalLoop_iff, and_iff_right hk]
      rfl
    · rw [if_pos hk]
      simp [hk]

/-- At any place with options or payload ahead, and a zero behind the packet. -/
theorem Inbound.Ahead.agree_iff (h : i.Ahead opts payload) (hzero : i.bytes i.packetLen = 0) :
    (i.optionStrequal key s = true ↔ i.Peeks key s.bytes) ↔
      i.phantom opts payload ≠ some (key, s.bytes) := by
  cases opts with
  | nil =>
    rw [h.strequal_nil hzero, iff_false_right h.peeks_nil]
  | cons o opts =>
    obtain ⟨k, v⟩ := o
    obtain ⟨hstrequal, hpeeks⟩ := h.strequal_cons key s
    rw [hstrequal, hpeeks]
    unfold Inbound.phantom
    dsimp only
    by_cases hlast : i.lastOptionKey = coapOptionInvalid
    · have hsome : some (k, v) ≠ some (key, s.bytes) ↔ ¬(k = key ∧ v = s.bytes) := by simp
      rw [if_pos hlast, hsome]
      constructor
      · intro hiff heq
        exact (hiff.1 heq).1 hlast
      · intro hne
        exact iff_of_false hne fun hall => hne hall.2
    · rw [if_neg hlast]
      simp [hlast]

/-! ## All positions -/

/-- Wherever the iterator gets, the message is the same and the rest of it lies ahead. -/
theorem Inbound.Positions.ahead (hv : coapVerifyPacket i.bytes i.packetLen = true)
    (hlen : i.packetLen < 65536) (h : i.Positions j) :
    i.SameMessage j ∧ ∃ opts payload, j.Ahead opts payload := by
  have hwf := (coapVerifyPacket_iff i.bytes i.packetLen).1 hv
  rw [word16_of_lt hlen] at hwf
  obtain ⟨split, payload, hs⟩ := hwf.options
  induction h with
  | reset => exact ⟨i.sameMessage_resetNextOption, _, _, ahead_resetNextOption hv hlen hs⟩
  | again h ih =>
    obtain ⟨⟨key, option, rfl⟩, -⟩ := ih
    exact ⟨⟨_, _, rfl⟩, _, _, ahead_resetNextOption hv hlen hs⟩
  | next h ih =>
    obtain ⟨hsame, opts, payload, hahead⟩ := ih
    refine ⟨hsame.trans (Inbound.sameMessage_nextOption _), ?_⟩
    cases opts with
    | nil => exact ⟨[], payload, hahead.nextOption_nil.2⟩
    | cons o opts =>
      obtain ⟨k, v⟩ := o
      exact ⟨opts, payload, hahead.nextOption_cons.2.2⟩

end

/-- At every position in a packet that was verified and got its zero, `smcp_inbound_option_strequal`
and `smcp_inbound_peek_option` agree about a key and a string exactly when these are not the option
that is decoded where none is left. -/
theorem optionStrequal_iff_peeks_iff {buffer : ℕ → UInt8} {n : ℕ} (s : Instance) {j : Inbound}
    (hv : coapVerifyPacket buffer n = true) (hn : n < 65536)
    (hj : (smcpInboundStartPacket s buffer n).1.inbound.Positions j) :
    ∃ opts payload, j.Ahead opts payload ∧ ∀ (key : ℕ) (cstr : CStr),
      (j.optionStrequal key cstr = true ↔ j.Peeks key cstr.bytes) ↔
        j.phantom opts payload ≠ some (key, cstr.bytes) := by
  unfold smcpInboundStartPacket at hj
  rw [if_pos hv] at hj
  dsimp only at hj
  generalize hi : Inbound.mk (some (Function.update buffer n 0)) n 0 none 0 0 coapContentTypeUnknown
    false false false false 0 0 0 default = i at hj
  have hbytes : i.bytes = Function.update buffer n 0 := by rw [← hi]; rfl
  have hlen : i.packetLen = n := by rw [← hi]
  have hsame : ∀ k < n, Function.update buffer n 0 k = buffer k := fun k hk =>
    Function.update_of_ne (Nat.ne_of_lt hk) _ _
  have hv' : coapVerifyPacket i.bytes i.packetLen = true := by
    rw [hbytes, hlen, coapVerifyPacket_congr hsame]
    exact hv
  obtain ⟨⟨key, option, rfl⟩, opts, payload, hahead⟩ := hj.ahead hv' (by rw [hlen]; exact hn)
  refine ⟨opts, payload, hahead, fun key cstr => hahead.agree_iff ?_⟩
  show i.bytes i.packetLen = 0
  rw [hbytes, hlen]
  exact Function.update_self _ _ _

/-- A GET of `/a` without content: behind its option nothing is left. -/
def pathPacket : ℕ → UInt8 := ofList [0x40, 0x01, 0, 0, 0xB1, 0x61] fun _ => 0

/-- The message in `pathPacket`. -/
def pathInbound : Inbound :=
  (smcpInboundStartPacket (smcpCreate default (fun _ => 0) fun _ => 1) pathPacket 6).1.inbound

/-- The empty string. -/
def emptyCStr : CStr := ⟨[], fun _ hb => absurd hb List.not_mem_nil⟩

theorem optionStrequal_iff_peeks_iff_first :
    coapVerifyPacket pathPacket 6 = true ∧ ∃ opts payload,
      pathInbound.resetNextOption.Ahead opts payload ∧ ∀ (key : ℕ) (cstr : CStr),
        (pathInbound.resetNextOption.optionStrequal key cstr = true ↔
          pathInbound.resetNextOption.Peeks key cstr.bytes) ↔
            pathInbound.resetNextOption.phantom opts payload ≠ some (key, cstr.bytes) :=
  have hv : coapVerifyPacket pathPacket 6 = true := by decide
  ⟨hv, optionStrequal_iff_peeks_iff _ hv (by decide) .reset⟩

/-- Behind the path the empty segment is found once more. -/
theorem optionStrequal_finds_phantom :
    ¬∀ (buffer : ℕ → UInt8) (n : ℕ) (s : Instance) (j : Inbound) (key : ℕ) (cstr : CStr),
      coapVerifyPacket buffer n = true → n < 65536 →
      (smcpInboundStartPacket s buffer n).1.inbound.Positions j →
      (j.optionStrequal key cstr = true ↔ j.Peeks key cstr.bytes) := by
  intro h
  have hiff := h pathPacket 6 (smcpCreate default (fun _ => 0) fun _ => 1)
    pathInbound.resetNextOption.nextOption.inbound coapOptionUriPath emptyCStr (by decide) (by decide)
    (.next .reset)
  have htrue : pathInbound.resetNextOption.nextOption.inbound.optionStrequal coapOptionUriPath
      emptyCStr = true := by decide +kernel
  obtain ⟨value, len, hpeek, -⟩ := hiff.1 htrue
  have hnone : pathInbound.resetNextOption.nextOption.inbound.peekOption =
      (coapOptionInvalid, none) := by decide +kernel
  rw [hnone] at hpeek
  exact absurd hpeek (by simp)

end Smcp
