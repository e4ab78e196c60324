import Smcp.Inbound.Request

/-!
# What lies ahead of the option iterator

`smcp_inbound_next_option` as an iterator over a list of options.

* `Inbound.Ahead`: the options between the iterator and the payload;
* `Ahead.nextOption_cons` and `Ahead.nextOption_nil`: one call;
* `ahead_resetNextOption`: after a reset all options of a verified packet lie ahead;
* `Ahead.readOptions`: the calls up to `COAP_OPTION_INVALID` return them.
-/

namespace Smcp

open ByteMemory OptionFormat

/-- The options `opts` lie ahead of the iterator, with their keys, and then the payload. -/
def Inbound.Ahead (i : Inbound) (opts : List (ℕ × List UInt8)) (payload : Option (List UInt8)) :
    Prop :=
  ∃ p split, i.thisOption = some p ∧ p ≤ i.packetLen ∧
    Splits word16 (readBytes i.bytes p (i.packetLen - p)) split payload ∧
    opts = withKeys i.lastOptionKey split

/-- `while((key = smcp_inbound_next_option(&value, &len)) != COAP_OPTION_INVALID)`: the options that
the calls return. -/
def Inbound.readOptions : (fuel : ℕ) → Inbound → List (ℕ × List UInt8)
  | 0, _ => []
  | fuel + 1, i =>
    let r := i.nextOption
    if r.key = coapOptionInvalid then []
    else
      let v := r.value.getD (0, 0)
      (r.key, readBytes i.bytes v.1 v.2) :: readOptions fuel r.inbound

section
variable {i : Inbound} {k : ℕ} {v : List UInt8} {opts : List (ℕ × List UInt8)}
  {payload : Option (List UInt8)}

/-- A call with an option ahead returns it. -/
theorem Inbound.Ahead.nextOption_cons (h : i.Ahead ((k, v) :: opts) payload) :
    i.nextOption.key = k ∧
      (∃ p, i.nextOption.value = some (p, v.length) ∧ readBytes i.bytes p v.length = v ∧
        p + v.length ≤ i.packetLen) ∧
      i.nextOption.inbound.Ahead opts payload := by
  obtain ⟨p, split, hp, hle, hs, hkeys⟩ := h
  -- a split that is empty has no option ahead
  cases split with
  | nil => exact absurd hkeys (by simp [withKeys])
  | cons o split =>
    have hlt : p < i.packetLen := by
      by_contra hge
      have hend : p = i.packetLen := by omega
      rw [hend] at hs
      exact absurd (splits_readBytes_end.1 hs).1 (by simp)
    have hmark : i.bytes p ≠ 0xFF := by
      intro hm
      exact absurd ((splits_readBytes_marker hlt hm).1 hs).1 (by simp)
    obtain ⟨d, hd, hnext, opts', hopts, hs'⟩ :=
      (splits_readBytes_option i.lastOptionKey hlt hmark).1 hs
    rw [List.cons.injEq] at hopts
    obtain ⟨rfl, rfl⟩ := hopts
    rw [withKeys, List.cons.injEq, Prod.mk.injEq] at hkeys
    obtain ⟨⟨rfl, rfl⟩, rfl⟩ := hkeys
    have hstep : i.nextOption = ⟨{ i with lastOptionKey := d.key, thisOption := some d.next },
        d.key, some (d.value, d.len)⟩ := by
      unfold Inbound.nextOption
      rw [hp]
      dsimp only
      rw [if_pos ⟨hlt, hmark⟩, hd]
    rw [coapDecodeOption_eq] at hd
    split_ifs at hd
    have hd := Option.some.inj hd
    have hkey : d.key = i.lastOptionKey + declaredDelta i.bytes p := by rw [← hd]
    have hend : d.next = d.value + d.len := by rw [← hd]
    rw [hstep]
    refine ⟨hkey, ⟨d.value, ?_, ?_, ?_⟩, d.next, _, rfl, hnext, hs', ?_⟩
    · rw [length_readBytes]
    · rw [length_readBytes]
    · rw [length_readBytes]
      omega
    · rw [hkey]

/-- A call without an option ahead returns `COAP_OPTION_INVALID`, and stays where it is. -/
theorem Inbound.Ahead.nextOption_nil (h : i.Ahead [] payload) :
    i.nextOption = ⟨{ i with lastOptionKey := coapOptionInvalid }, coapOptionInvalid, none⟩ ∧
      i.nextOption.inbound.Ahead [] payload := by
  obtain ⟨p, split, hp, hle, hs, hkeys⟩ := h
  cases split with
  | cons o split => exact absurd hkeys (by simp [withKeys])
  | nil =>
    have hstop : ¬(p < i.packetLen ∧ i.bytes p ≠ 0xFF) := by
      rintro ⟨hlt, hmark⟩
      obtain ⟨d, -, -, opts', h, -⟩ := (splits_readBytes_option i.lastOptionKey hlt hmark).1 hs
      simp at h
    have hnext : i.nextOption =
        ⟨{ i with lastOptionKey := coapOptionInvalid }, coapOptionInvalid, none⟩ := by
      unfold Inbound.nextOption
      rw [hp]
      dsimp only
      rw [if_neg hstop]
    rw [hnext]
    exact ⟨rfl, p, [], hp, hle, hs, rfl⟩

/-- The iterator can be put back in front of what it has returned. -/
theorem Inbound.Ahead.restore {i' : Inbound} (h : i.Ahead opts payload) (hsame : i.SameMessage i') :
    ({ i' with thisOption := i.thisOption, lastOptionKey := i.lastOptionKey } : Inbound).Ahead opts
      payload := by
  obtain ⟨key, option, rfl⟩ := hsame
  exact h

/-- The number of options ahead is bounded by the packet. -/
theorem Inbound.Ahead.length_le (h : i.Ahead opts payload) : opts.length ≤ i.packetLen := by
  obtain ⟨p, split, -, -, hs, rfl⟩ := h
  have hlen := hs.length_le
  rw [length_readBytes] at hlen
  have hkeys (prev : ℕ) : (withKeys prev split).length = split.length := by
    clear hs hlen
    induction split generalizing prev with
    | nil => rfl
    | cons o split ih => rw [withKeys, List.length_cons, ih, List.length_cons]
  rw [hkeys]
  omega

/-- The calls up to `COAP_OPTION_INVALID` return the options ahead. -/
theorem Inbound.Ahead.readOptions (h : i.Ahead opts payload)
    (hkeys : ∀ o ∈ opts, o.1 ≠ coapOptionInvalid) {fuel : ℕ} (hfuel : opts.length < fuel) :
    i.readOptions fuel = opts := by
  induction opts generalizing i fuel with
  | nil =>
    cases fuel with
    | zero => exact absurd hfuel (by simp)
    | succ fuel =>
      obtain ⟨hnext, -⟩ := h.nextOption_nil
      rw [Inbound.readOptions, hnext]
      rfl
  | cons o opts ih =>
    obtain ⟨k, v⟩ := o
    cases fuel with
    | zero => exact absurd hfuel (by simp)
    | succ fuel =>
      obtain ⟨hkey, ⟨p, hvalue, hbytes, -⟩, hrest⟩ := h.nextOption_cons
      have hk : k ≠ coapOptionInvalid := hkeys (k, v) List.mem_cons_self
      have hread := ih hrest (fun o ho => hkeys o (List.mem_cons_of_mem (k, v) ho))
        (by simpa using hfuel)
      rw [Inbound.readOptions, hkey, hvalue]
      dsimp only
      rw [if_neg hk, Option.getD_some, hbytes, hread]

end

/-- After a reset all options of a verified packet lie ahead. -/
theorem ahead_resetNextOption {i : Inbound} {split : List (ℕ × List UInt8)}
    {payload : Option (List UInt8)} (hv : coapVerifyPacket i.bytes i.packetLen = true)
    (hlen : i.packetLen < 65536)
    (hs : Splits word16 (optionArea (readBytes i.bytes 0 i.packetLen)) split payload) :
    i.resetNextOption.Ahead (withKeys 0 split) payload := by
  have hwf := (coapVerifyPacket_iff i.bytes i.packetLen).1 hv
  rw [word16_of_lt hlen] at hwf
  have hinside := hwf.token_inside
  have hge := hwf.size_ge
  rw [length_readBytes] at hinside hge
  have htok : tokenLength (readBytes i.bytes 0 i.packetLen) = headerTokenLen i.bytes := by
    rw [tokenLength, getD_readBytes (by omega), headerTokenLen]
  rw [htok] at hinside
  refine ⟨4 + headerTokenLen i.bytes, split, rfl, hinside, ?_, rfl⟩
  rw [optionArea, htok, drop_readBytes] at hs
  exact hs

end Smcp
