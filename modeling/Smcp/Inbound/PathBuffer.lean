import Smcp.Inbound.Path

/-!
# The buffer of the path

`smcp_inbound_get_path` with its stores: those to the buffer of `SMCP_MAX_URI_LENGTH + 1` bytes, and
the terminators that it puts into the packet for a while.

* `getPath_text`: the string in the buffer is that of `smcpInboundGetPath`;
* `getPath_stores_iff`: exactly when it stays within the buffer.
-/

namespace Smcp

open ByteMemory OptionFormat

/-! ## The function -/

/-- The inbound part of the instance, the bytes at `where`, and `iter` as an offset from there. -/
structure GetPath where
  inbound : Inbound
  out : Buffer
  iter : ℕ

namespace GetPath

/-- `*iter++ = c` -/
def put (g : GetPath) (c : UInt8) : GetPath :=
  { g with out := g.out.store g.iter c, iter := g.iter + 1 }

/-- A byte of the packet is overwritten. -/
def setPacket (g : GetPath) (p : ℕ) (c : UInt8) : GetPath :=
  { g with inbound := { g.inbound with
      packet := g.inbound.packet.map fun bytes => Function.update bytes p c } }

/-- A function has filled the destination `iter`, and what it returns is added to it. -/
def fill (g : GetPath) (f : Filled) : GetPath :=
  { g with out := g.out.copy g.iter f.stored, iter := g.iter + f.ret }

/-- `SMCP_MAX_URI_LENGTH-(iter-where)`, as a `size_t`. -/
def room (iter : ℕ) : ℕ := (smcpMaxUriLength + 18446744073709551616 - iter) % 18446744073709551616

/-- `iter+=url_encode_cstr(iter, src, SMCP_MAX_URI_LENGTH-(iter-where))`, for a string in the packet
with its terminator not behind `src[len]`. -/
def encode (g : GetPath) (src len : ℕ) : GetPath :=
  g.fill (urlEncodeCstr (readBytes g.inbound.bytes src (len + 1)) (room g.iter))

/-- The body of the loop over the path, for the option value of `len` bytes at `filename`. -/
def segment (flags : ℕ) (g : GetPath) (filename len : ℕ) : GetPath :=
  let oldEnd := g.inbound.bytes (filename + len)
  let g := if g.iter ≠ 0 ∨ hasFlag flags smcpGetPathLeadingSlash then g.put (ascii '/') else g
  ((g.setPacket (filename + len) 0).encode filename len).setPacket (filename + len) oldEnd

/-- `strchr(filename,'=')`, as an offset in the string. -/
def equalSign (g : GetPath) (filename len : ℕ) : Option ℕ :=
  let s := cString (readBytes g.inbound.bytes filename (len + 1))
  if ascii '=' ∈ s then some (s.idxOf (ascii '=')) else none

/-- The key and the value of an item, with the terminators in place. -/
def encodeItem (g : GetPath) (filename len : ℕ) : GetPath :=
  match g.equalSign filename len with
  | none => g.encode filename len
  | some n =>
    let g := ((g.setPacket (filename + n) 0).encode filename len).put (ascii '=')
    (g.encode (filename + n + 1) (len - (n + 1))).setPacket (filename + n) (ascii '=')

/-- The body of the loop over the query. -/
def item (g : GetPath) (filename len : ℕ) : GetPath :=
  let oldEnd := g.inbound.bytes (filename + len)
  let g := if g.out.byte (g.iter - 1) ≠ ascii '?' then g.put (ascii ';') else g
  ((g.setPacket (filename + len) 0).encodeItem filename len).setPacket (filename + len) oldEnd

/-- `while(smcp_inbound_next_option(&filename, &filename_len)==key)` -/
def loop (key : ℕ) (body : GetPath → ℕ → ℕ → GetPath) : (fuel : ℕ) → GetPath → GetPath
  | 0, g => g
  | fuel + 1, g =>
    let r := g.inbound.nextOption
    let g := { g with inbound := r.inbound }
    if r.key = key then
      let v := r.value.getD (0, 0)
      loop key body fuel (body g v.1 v.2)
    else g

/-- The part behind the path. -/
def query (flags : ℕ) (fuel : ℕ) (g : GetPath) : GetPath :=
  if hasFlag flags smcpGetPathIncludeQuery then
    let g := { g with inbound := g.inbound.resetNextOption.skipTo coapOptionUriQuery fuel }
    if g.inbound.peekOption.1 = coapOptionUriQuery then
      loop coapOptionUriQuery item fuel (g.put (ascii '?'))
    else g
  else g

/-- All of it, up to the terminator of the text. -/
def run (i : Inbound) (out : Buffer) (flags : ℕ) : GetPath :=
  let fuel := i.packetLen + 1
  let first := if hasFlag flags smcpGetPathRemaining then i else i.resetNextOption
  (loop coapOptionUriPath (segment flags) fuel ⟨first.skipTo coapOptionUriPath fuel, out, 0⟩).query
    flags fuel

end GetPath

/-- `smcp_inbound_get_path` with a buffer: that of the caller, or the one that `calloc` returns. -/
def smcpInboundGetPathInto (i : Inbound) (output alloc : Option Buffer) (flags : ℕ) :
    Inbound × Option Buffer :=
  match output.or alloc with
  | none => (i, none)
  | some out =>
    let g := GetPath.run i out flags
    ({ g.inbound with lastOptionKey := i.lastOptionKey, thisOption := i.thisOption },
      some (g.out.store g.iter 0))

/-! ## When it fits -/

/-- What an escaped string takes of `room` bytes and a terminator: when it does not fit, what fits
and one byte more. -/
def escapedLength : (room : ℕ) → List UInt8 → ℕ
  | _, [] => 0
  | room, c :: src =>
    if (escapeChar c).length ≤ room then
      (escapeChar c).length + escapedLength (room - (escapeChar c).length) src
    else 1

/-- The position behind an escaped string. -/
def behindEscaped (pos : ℕ) (src : List UInt8) : ℕ :=
  if pos < smcpMaxUriLength then pos + escapedLength (smcpMaxUriLength - 1 - pos) src else pos

/-- The position behind a separator, if there is room for it. -/
def behindSeparator (pos : ℕ) : Option ℕ := if pos < smcpMaxUriLength then some (pos + 1) else none

/-- The position behind a segment of the path. -/
def behindSegment (flags pos : ℕ) (segment : List UInt8) : Option ℕ :=
  (if pos ≠ 0 ∨ hasFlag flags smcpGetPathLeadingSlash then behindSeparator pos else some pos).map
    fun pos => behindEscaped pos (cString segment)

/-- The position behind an item of a query whose text begins at `start`. -/
def behindItem (start pos : ℕ) (item : List UInt8) : Option ℕ :=
  let key := splitItem (cString item)
  let behindKey := (if pos ≠ start then behindSeparator pos else some pos).map
    fun pos => behindEscaped pos key.1
  match key.2 with
  | none => behindKey
  | some value => (behindKey.bind behindSeparator).map fun pos => behindEscaped pos value

/-- The position behind the whole text, if there is room for all of its separators. -/
def behindText (flags : ℕ) (segments items : List (List UInt8)) : Option ℕ :=
  let behindPath := segments.foldlM (behindSegment flags) 0
  if hasFlag flags smcpGetPathIncludeQuery ∧ items ≠ [] then
    (behindPath.bind behindSeparator).bind fun start => items.foldlM (behindItem start) start
  else behindPath

/-! ## The encoder -/

section
variable {room : ℕ} {src rest : List UInt8} {c : UInt8}

/-- What is counted. -/
theorem urlEncodeLoop_ret (room : ℕ) (rest : List UInt8) (hsrc : ∀ c ∈ src, c ≠ 0) :
    (urlEncodeLoop room (src ++ 0 :: rest)).ret = escapedLength room src := by
  induction src generalizing room with
  | nil =>
    rw [List.nil_append, urlEncodeLoop_zero]
    rfl
  | cons c src ih =>
    have hrest (room' : ℕ) := ih room' fun c' hc' => hsrc c' (List.mem_cons_of_mem c hc')
    rw [List.cons_append, urlEncodeLoop_cons (hsrc c List.mem_cons_self), escapedLength]
    by_cases hroom : (escapeChar c).length ≤ room
    · rw [if_pos hroom, if_pos hroom, Filled.after_ret, hrest]
    · rw [if_neg hroom, if_neg hroom]

/-- The encoder stops at the terminator. -/
theorem urlEncodeLoop_append_zero (src rest : List UInt8) :
    urlEncodeLoop room (src ++ 0 :: rest) = urlEncodeLoop room (src ++ [0]) := by
  induction src generalizing room with
  | nil => rw [List.nil_append, List.nil_append, urlEncodeLoop_zero, urlEncodeLoop_zero]
  | cons c src ih =>
    by_cases hc : c = 0
    · rw [hc, List.cons_append, List.cons_append, urlEncodeLoop_zero, urlEncodeLoop_zero]
    · rw [List.cons_append, List.cons_append, urlEncodeLoop_cons hc, urlEncodeLoop_cons hc, ih]

end

/-! ## Positions -/

namespace GetPath

/-- The stores so far and the terminator at `iter` are inside the buffer. -/
def Inside (g : GetPath) : Prop := g.out.top ≤ smcpMaxUriLength + 1 ∧ g.iter ≤ smcpMaxUriLength

instance (g : GetPath) : Decidable g.Inside := inferInstanceAs (Decidable (_ ∧ _))

/-- `iter`, as long as the stores are inside the buffer. -/
def position (g : GetPath) : Option ℕ := if g.Inside then some g.iter else none

section
variable {g : GetPath} {src len : ℕ}

theorem position_put (g : GetPath) (c : UInt8) :
    (g.put c).position = g.position.bind behindSeparator := by
  have hinside : (g.put c).Inside ↔ g.Inside ∧ g.iter < smcpMaxUriLength := by
    show max g.out.top (g.iter + 1) ≤ smcpMaxUriLength + 1 ∧ g.iter + 1 ≤ smcpMaxUriLength ↔
      (g.out.top ≤ smcpMaxUriLength + 1 ∧ g.iter ≤ smcpMaxUriLength) ∧ g.iter < smcpMaxUriLength
    omega
  unfold position
  by_cases hg : g.Inside
  · rw [if_pos hg, Option.bind_some, behindSeparator]
    by_cases hroom : g.iter < smcpMaxUriLength
    · rw [if_pos (hinside.2 ⟨hg, hroom⟩), if_pos hroom]
      rfl
    · rw [if_neg fun h => hroom (hinside.1 h).2, if_neg hroom]
  · rw [if_neg fun h => hg (hinside.1 h).1, if_neg hg, Option.bind_none]

/-- A separator that is there at some positions only. -/
theorem position_separator (g : GetPath) (P : ℕ → Prop) [DecidablePred P] (c : UInt8) :
    (if P g.iter then g.put c else g).position =
      g.position.bind fun pos => if P pos then behindSeparator pos else some pos := by
  have hput := g.position_put c
  by_cases hP : P g.iter
  · rw [if_pos hP, hput]
    unfold position
    split_ifs
    · rw [Option.bind_some, Option.bind_some, if_pos hP]
    · rfl
  · rw [if_neg hP]
    unfold position
    split_ifs
    · rw [Option.bind_some, if_neg hP]
    · rfl

theorem room_of_le {iter : ℕ} (h : iter ≤ smcpMaxUriLength) : room iter = smcpMaxUriLength - iter := by
  unfold room
  unfold smcpMaxUriLength at h ⊢
  omega

/-- The encoder stays inside the buffer unless it starts outside. -/
theorem position_encode {s rest : List UInt8}
    (hmem : readBytes g.inbound.bytes src (len + 1) = s ++ 0 :: rest) (hs : ∀ c ∈ s, c ≠ 0) :
    (g.encode src len).position = g.position.map fun pos => behindEscaped pos s := by
  rw [encode, hmem]
  generalize hf : urlEncodeCstr (s ++ 0 :: rest) (room g.iter) = f
  unfold position
  -- a position outside is not moved, and nothing is stored there
  by_cases hg : g.Inside
  · have hiter : g.iter ≤ smcpMaxUriLength := hg.2
    rw [room_of_le hiter] at hf
    rw [if_pos hg, Option.map_some, behindEscaped]
    unfold urlEncodeCstr at hf
    by_cases hlt : g.iter < smcpMaxUriLength
    · rw [if_neg (by omega)] at hf
      obtain ⟨hlen, hret, -⟩ := urlEncodeLoop_stored (smcpMaxUriLength - g.iter - 1) (s ++ 0 :: rest)
      have hcount := urlEncodeLoop_ret (smcpMaxUriLength - g.iter - 1) rest hs
      rw [hf] at hlen hret hcount
      have htop : (g.out.copy g.iter f.stored).top ≤ smcpMaxUriLength + 1 :=
        Buffer.top_copy_le hg.1 (by omega)
      have hiter' : g.iter + f.ret ≤ smcpMaxUriLength := by omega
      have hinside : (g.fill f).Inside := ⟨htop, hiter'⟩
      rw [if_pos hlt, if_pos hinside, Nat.sub_right_comm, ← hcount]
      rfl
    · rw [if_pos (by omega)] at hf
      have hsame : g.fill f = g := by
        rw [← hf, fill, Buffer.copy_nil]
        rfl
      rw [hsame, if_neg hlt, if_pos hg]
  · rw [if_neg hg, Option.map_none, if_neg]
    rintro ⟨htop, hiter⟩
    apply hg
    constructor
    · have hle : g.out.top ≤ (g.out.copy g.iter f.stored).top := by
        unfold Buffer.copy
        dsimp only
        split_ifs
        · exact le_rfl
        · exact le_max_left _ _
      exact hle.trans htop
    · exact (Nat.le_add_right _ _).trans hiter

end

/-! ## The text -/

/-- The text is what has been written in front of `iter`. -/
def Wrote (g : GetPath) (text : List UInt8) : Prop :=
  g.iter = text.length ∧ readBytes g.out.byte 0 g.iter = text

section
variable {g : GetPath} {text : List UInt8} {p src len : ℕ}

theorem Wrote.fill {f : Filled} (h : g.Wrote text) (hret : f.ret ≤ f.stored.length) :
    (g.fill f).Wrote (text ++ f.stored.take f.ret) := by
  obtain ⟨hiter, hbytes⟩ := h
  constructor
  · rw [List.length_append, List.length_take, Nat.min_eq_left hret, ← hiter]
    rfl
  · show readBytes (g.out.copy g.iter f.stored).byte 0 (g.iter + f.ret) = _
    rw [readBytes_add, Nat.zero_add]
    have hfront : readBytes (g.out.copy g.iter f.stored).byte 0 g.iter = text := by
      rw [← hbytes]
      exact readBytes_congr fun j _ hj => Buffer.copy_of_outside _ _ (.inl (by omega))
    have hback := Buffer.readBytes_copy g.out g.iter f.stored
    have hsplit : f.stored.length = f.ret + (f.stored.length - f.ret) := by omega
    rw [hsplit, readBytes_add] at hback
    have htake := congrArg (List.take f.ret) hback
    rw [List.take_left' (length_readBytes _ _ _)] at htake
    rw [hfront, htake]

theorem Wrote.put (h : g.Wrote text) (c : UInt8) : (g.put c).Wrote (text ++ [c]) := by
  have hput : g.put c = g.fill ⟨[c], 1⟩ := by
    rw [GetPath.put, Buffer.store_eq_copy]
    rfl
  rw [hput]
  exact h.fill (f := ⟨[c], 1⟩) (by simp)

theorem Wrote.encode {s rest : List UInt8} (h : g.Wrote text)
    (hmem : readBytes g.inbound.bytes src (len + 1) = s ++ 0 :: rest) :
    (g.encode src len).Wrote (appendEncoded text s) := by
  rw [GetPath.encode, hmem, appendEncoded, ← h.1]
  have hstop : urlEncodeCstr (s ++ 0 :: rest) (room g.iter) =
      urlEncodeCstr (s ++ [0]) (room g.iter) := by
    unfold urlEncodeCstr
    rw [urlEncodeLoop_append_zero]
  rw [hstop]
  apply h.fill
  unfold urlEncodeCstr
  split_ifs
  · simp
  · exact (urlEncodeLoop_stored _ _).2.1

/-! ## The packet -/

@[simp] theorem setPacket_inbound (g : GetPath) (p : ℕ) (c : UInt8) :
    (g.setPacket p c).inbound = { g.inbound with
      packet := g.inbound.packet.map fun bytes => Function.update bytes p c } := rfl

/-- A terminator in the packet. -/
theorem setPacket_zero_bytes (g : GetPath) (p : ℕ) :
    (g.setPacket p 0).inbound.bytes = Function.update g.inbound.bytes p 0 := by
  unfold Inbound.bytes
  rw [setPacket_inbound]
  cases g.inbound.packet with
  | some bytes => rfl
  | none =>
    have hsame : Function.update (fun _ => (0 : UInt8)) p 0 = fun _ => 0 :=
      Function.update_eq_self p fun _ => (0 : UInt8)
    exact hsame.symm

/-- What was overwritten is put back. -/
theorem restore_inbound {g' : GetPath} (p : ℕ) (hg' : g'.inbound = (g.setPacket p 0).inbound) :
    (g'.setPacket p (g.inbound.bytes p)).inbound = g.inbound := by
  rw [setPacket_inbound, hg', setPacket_inbound]
  have hpacket : (g.inbound.packet.map fun bytes => Function.update bytes p 0).map
      (fun bytes => Function.update bytes p (g.inbound.bytes p)) = g.inbound.packet := by
    unfold Inbound.bytes
    cases g.inbound.packet with
    | none => rfl
    | some bytes =>
      have hback : Function.update (Function.update bytes p 0) p (bytes p) = bytes := by
        rw [Function.update_idem, Function.update_eq_self]
      exact congrArg some hback
  dsimp only
  rw [hpacket]

theorem readBytes_update_append {m : ℕ → UInt8} {a n : ℕ} {l r : List UInt8} {b : UInt8}
    (h : readBytes m a n = l ++ b :: r) (c : UInt8) :
    readBytes (Function.update m (a + l.length) c) a n = l ++ c :: r := by
  have hlen : n = l.length + (1 + r.length) := by
    have hlength := congrArg List.length h
    rw [length_readBytes, List.length_append, List.length_cons] at hlength
    omega
  obtain ⟨hfront, hback⟩ := readBytes_eq_append h
  have hrest := (readBytes_eq_cons hback).2
  rw [hlen, readBytes_add, readBytes_add, readBytes_update_of_le (Nat.le_refl _), hfront]
  have hkept : readBytes (Function.update m (a + l.length) c) (a + l.length + 1) r.length = r := by
    rw [← hrest]
    simp only [length_readBytes]
    exact readBytes_congr fun j hj _ => Function.update_of_ne (by omega) _ _
  rw [hkept]
  show l ++ (Function.update m _ c _ :: r) = _
  rw [Function.update_self]

/-- The value of an option with a terminator behind it. -/
theorem readBytes_terminated (g : GetPath) (p len : ℕ) :
    readBytes (g.setPacket (p + len) 0).inbound.bytes p (len + 1) =
      readBytes g.inbound.bytes p len ++ [0] := by
  rw [setPacket_zero_bytes, readBytes_add, readBytes_update_of_le (Nat.le_refl _)]
  congr 1
  show [Function.update _ _ _ _] = _
  rw [Function.update_self]

theorem append_zero_eq_cString (s : List UInt8) :
    ∃ rest, s ++ [0] = cString s ++ 0 :: rest := by
  unfold cString
  have happend := List.takeWhile_append_dropWhile (p := fun c : UInt8 => decide (c ≠ 0)) (l := s)
  cases hdrop : s.dropWhile fun c : UInt8 => decide (c ≠ 0) with
  | nil =>
    rw [hdrop, List.append_nil] at happend
    exact ⟨[], by rw [happend]⟩
  | cons c rest =>
    have hc := List.head?_dropWhile_not (fun c : UInt8 => decide (c ≠ 0)) s
    rw [hdrop] at hc
    have hzero : c = 0 := by simpa using hc
    rw [hdrop, hzero] at happend
    refine ⟨rest ++ [0], ?_⟩
    rw [← List.cons_append, ← List.append_assoc, happend]

/-! ## One option -/

/-- One round of the loop over the path. -/
theorem segment_spec (flags p len : ℕ) (h : g.Wrote text) :
    (segment flags g p len).inbound = g.inbound ∧
      (segment flags g p len).Wrote (appendSegment flags text (readBytes g.inbound.bytes p len)) ∧
      (segment flags g p len).position =
        g.position.bind (behindSegment flags · (readBytes g.inbound.bytes p len)) := by
  generalize hv : readBytes g.inbound.bytes p len = v
  -- in front of the separator
  obtain ⟨g1, hg1⟩ : ∃ g1, g1 =
      if g.iter ≠ 0 ∨ hasFlag flags smcpGetPathLeadingSlash then g.put (ascii '/') else g := ⟨_, rfl⟩
  have hsegment : segment flags g p len =
      ((g1.setPacket (p + len) 0).encode p len).setPacket (p + len) (g.inbound.bytes (p + len)) := by
    rw [hg1]
    rfl
  have hinbound : g1.inbound = g.inbound := by
    rw [hg1]
    split_ifs <;> rfl
  have hmem : readBytes (g1.setPacket (p + len) 0).inbound.bytes p (len + 1) = v ++ [0] := by
    rw [readBytes_terminated, hinbound, hv]
  have hnil : g.iter ≠ 0 ↔ text ≠ [] := by
    rw [h.1, ← List.length_pos_iff, Nat.pos_iff_ne_zero]
  have hwrote : g1.Wrote (if text ≠ [] ∨ hasFlag flags smcpGetPathLeadingSlash then
      text ++ [ascii '/'] else text) := by
    rw [hg1]
    simp only [hnil]
    split_ifs
    · exact h.put _
    · exact h
  have hposition := position_separator g (fun pos => pos ≠ 0 ∨ hasFlag flags smcpGetPathLeadingSlash)
    (ascii '/')
  rw [← hg1] at hposition
  rw [hsegment]
  have hwrote' : (g1.setPacket (p + len) 0).Wrote _ := hwrote
  refine ⟨?_, hwrote'.encode hmem, ?_⟩
  · rw [← hinbound]
    exact restore_inbound (p + len) rfl
  · obtain ⟨rest, hrest⟩ := append_zero_eq_cString v
    have hencode := position_encode (hmem.trans hrest) fun c hc => ne_zero_of_mem_cString hc
    show ((g1.setPacket (p + len) 0).encode p len).position = _
    have hpos : (g1.setPacket (p + len) 0).position = g1.position := rfl
    rw [hencode, hpos, hposition, Option.map_bind]
    rfl

/-- The key and the value of an item, where the terminator is in place. -/
theorem encodeItem_spec {v : List UInt8} (h : g.Wrote text)
    (hmem : readBytes g.inbound.bytes p (len + 1) = v ++ [0]) :
    (g.encodeItem p len).inbound = g.inbound ∧
      (g.encodeItem p len).Wrote (match (splitItem (cString v)).2 with
        | none => appendEncoded text (splitItem (cString v)).1
        | some value =>
          appendEncoded (appendEncoded text (splitItem (cString v)).1 ++ [ascii '=']) value) ∧
      (g.encodeItem p len).position = match (splitItem (cString v)).2 with
        | none => g.position.map fun pos => behindEscaped pos (splitItem (cString v)).1
        | some value => ((g.position.map fun pos => behindEscaped pos (splitItem (cString v)).1).bind
            behindSeparator).map fun pos => behindEscaped pos value := by
  obtain ⟨rest, hrest⟩ := append_zero_eq_cString v
  have hs : ∀ c ∈ cString v, c ≠ 0 := fun c hc => ne_zero_of_mem_cString hc
  have hkey : ascii '=' ∉ (splitItem (cString v)).1 := by
    intro hin
    have hne := List.mem_takeWhile_imp hin
    simp at hne
  have hstring : cString (readBytes g.inbound.bytes p (len + 1)) = cString v := by
    rw [hmem, hrest]
    exact cString_append_zero rest hs
  generalize cString v = s at *
  cases hvalue : (splitItem s).2 with
  | none =>
    have hall := splitItem_none hvalue
    rw [← hall] at hkey ⊢
    have hnone : g.equalSign p len = none := by
      unfold equalSign
      rw [hstring]
      exact if_neg hkey
    unfold encodeItem
    rw [hnone]
    exact ⟨rfl, h.encode (hmem.trans hrest), position_encode (hmem.trans hrest) hs⟩
  | some value =>
    have hall := splitItem_some hvalue
    generalize (splitItem s).1 = key at *
    have hsome : g.equalSign p len = some key.length := by
      unfold equalSign
      rw [hstring, hall]
      dsimp only
      rw [if_pos (by simp), List.idxOf_append_of_notMem hkey, List.idxOf_cons_self, Nat.add_zero]
    have hfull : readBytes g.inbound.bytes p (len + 1) = key ++ ascii '=' :: (value ++ 0 :: rest) := by
      rw [hmem, hrest, hall, List.append_assoc, List.cons_append]
    have hsign : g.inbound.bytes (p + key.length) = ascii '=' :=
      (readBytes_eq_cons (readBytes_eq_append hfull).2).1
    -- the key ends where the sign was
    have hcut := readBytes_update_append hfull 0
    rw [← setPacket_zero_bytes] at hcut
    have hvalueMem : readBytes (g.setPacket (p + key.length) 0).inbound.bytes (p + key.length + 1)
        (len - (key.length + 1) + 1) = value ++ 0 :: rest := by
      have hlength := congrArg List.length hcut
      have hread := (readBytes_eq_cons (readBytes_eq_append hcut).2).2
      rw [length_readBytes, List.length_append, List.length_cons, List.length_append,
        List.length_cons] at hlength
      rw [List.length_append, List.length_cons] at hread
      rw [← hread]
      congr 1
      omega
    have hchars : (∀ c ∈ key, c ≠ 0) ∧ ∀ c ∈ value, c ≠ 0 := by
      rw [hall] at hs
      exact ⟨fun c hc => hs c (by simp [hc]), fun c hc => hs c (by simp [hc])⟩
    have hcutWrote : (g.setPacket (p + key.length) 0).Wrote text := h
    unfold encodeItem
    rw [hsome]
    dsimp only
    refine ⟨?_, ((hcutWrote.encode hcut).put _).encode hvalueMem, ?_⟩
    · rw [← hsign]
      exact restore_inbound (p + key.length) rfl
    · have hkeyPos := position_encode hcut hchars.1
      have hvaluePos := position_encode
        (g := ((g.setPacket (p + key.length) 0).encode p len).put (ascii '=')) hvalueMem hchars.2
      rw [position_put, hkeyPos] at hvaluePos
      exact hvaluePos

/-- What the encoder appends has no question mark. -/
theorem exists_appendEncoded (text src : List UInt8) :
    ∃ added, appendEncoded text src = text ++ added ∧ ascii '?' ∉ added := by
  refine ⟨_, rfl, fun hin => ?_⟩
  have hstored := List.mem_of_mem_take hin
  unfold urlEncodeCstr at hstored
  split_ifs at hstored
  · exact absurd hstored List.not_mem_nil
  · exact (urlEncodeLoop_stored _ _).2.2 hstored

/-- Where there is a text, `iter[-1]` is its last character. -/
theorem Wrote.getLast? (h : g.Wrote text) (hne : text ≠ []) :
    text.getLast? = some (g.out.byte (g.iter - 1)) := by
  obtain ⟨hiter, hbytes⟩ := h
  have hpos := List.length_pos_iff.2 hne
  have hlast := getElem?_readBytes (m := g.out.byte) (a := 0) (n := g.iter) (i := g.iter - 1) (by omega)
  rw [hbytes, Nat.zero_add] at hlast
  rw [List.getLast?_eq_getElem?, ← hiter, hlast]

/-- The text of a query ends with the question mark as long as nothing is written behind it. -/
theorem getLast?_query {front added : List UInt8} (hfront : front.getLast? = some (ascii '?'))
    (hadded : ascii '?' ∉ added) : (front ++ added).getLast? ≠ some (ascii '?') ↔ added ≠ [] := by
  rw [List.getLast?_append]
  cases hlast : added.getLast? with
  | none =>
    rw [List.getLast?_eq_none_iff] at hlast
    exact iff_of_false (fun hne => hne hfront) fun hne => hne hlast
  | some c =>
    have hmem := List.mem_of_getLast? hlast
    refine iff_of_true (fun heq => hadded ?_) fun hnil => ?_
    · rw [← Option.some.inj heq]
      exact hmem
    · rw [hnil] at hmem
      exact absurd hmem List.not_mem_nil

/-- One round of the loop over the query, behind the front that ends with the question mark. -/
theorem item_spec {front added : List UInt8} (p len : ℕ)
    (hfront : front.getLast? = some (ascii '?')) (hadded : ascii '?' ∉ added)
    (h : g.Wrote (front ++ added)) :
    (item g p len).inbound = g.inbound ∧
      (item g p len).Wrote (appendItem (front ++ added) (readBytes g.inbound.bytes p len)) ∧
      (∃ added', appendItem (front ++ added) (readBytes g.inbound.bytes p len) = front ++ added' ∧
        ascii '?' ∉ added') ∧
      (item g p len).position =
        g.position.bind (behindItem front.length · (readBytes g.inbound.bytes p len)) := by
  generalize hv : readBytes g.inbound.bytes p len = v
  have hne : front ++ added ≠ [] := by
    intro hnil
    rw [(List.append_eq_nil_iff.1 hnil).1] at hfront
    exact absurd hfront (by simp)
  have hlast := getLast?_query hfront hadded
  have hbyte := h.getLast? hne
  have hsign : g.out.byte (g.iter - 1) ≠ ascii '?' ↔ g.iter ≠ front.length := by
    rw [hbyte, ne_eq, Option.some.injEq] at hlast
    rw [ne_eq, hlast, h.1, List.length_append, ← List.length_pos_iff]
    omega
  -- in front of the separator
  obtain ⟨g1, hg1⟩ : ∃ g1, g1 = if g.iter ≠ front.length then g.put (ascii ';') else g := ⟨_, rfl⟩
  have hitem : item g p len =
      ((g1.setPacket (p + len) 0).encodeItem p len).setPacket (p + len)
        (g.inbound.bytes (p + len)) := by
    rw [hg1]
    unfold item
    simp only [hsign]
  have hinbound : g1.inbound = g.inbound := by
    rw [hg1]
    split_ifs <;> rfl
  have hmem : readBytes (g1.setPacket (p + len) 0).inbound.bytes p (len + 1) = v ++ [0] := by
    rw [readBytes_terminated, hinbound, hv]
  obtain ⟨sep, hsep, htext, hwrote⟩ : ∃ sep, ascii '?' ∉ sep ∧
      (if (front ++ added).getLast? ≠ some (ascii '?') then front ++ added ++ [ascii ';']
        else front ++ added) = front ++ (added ++ sep) ∧ g1.Wrote (front ++ (added ++ sep)) := by
    have hcond : (front ++ added).getLast? ≠ some (ascii '?') ↔ g.iter ≠ front.length := by
      rw [hbyte, ne_eq, Option.some.injEq, ← hsign]
    rw [hg1]
    by_cases hiter : g.iter ≠ front.length
    · rw [if_pos (hcond.2 hiter), if_pos hiter]
      refine ⟨[ascii ';'], by decide, List.append_assoc _ _ _, ?_⟩
      rw [← List.append_assoc]
      exact h.put _
    · rw [if_neg (mt hcond.1 hiter), if_neg hiter]
      refine ⟨[], List.not_mem_nil, ?_, ?_⟩
      · rw [List.append_nil]
      · rw [List.append_nil]
        exact h
  have hposition := position_separator g (fun pos => pos ≠ front.length) (ascii ';')
  rw [← hg1] at hposition
  have hwrote' : (g1.setPacket (p + len) 0).Wrote (front ++ (added ++ sep)) := hwrote
  obtain ⟨hinbound', hencoded, hpos⟩ := encodeItem_spec hwrote' hmem
  have happend : appendItem (front ++ added) v = match (splitItem (cString v)).2 with
      | none => appendEncoded (front ++ (added ++ sep)) (splitItem (cString v)).1
      | some value => appendEncoded
          (appendEncoded (front ++ (added ++ sep)) (splitItem (cString v)).1 ++ [ascii '=']) value := by
    unfold appendItem
    dsimp only
    rw [htext]
    cases (splitItem (cString v)).2 <;> rfl
  rw [← happend] at hencoded
  rw [hitem]
  refine ⟨?_, hencoded, ?_, ?_⟩
  · rw [← hinbound]
    exact restore_inbound (p + len) hinbound'
  · have hclean : ascii '?' ∉ added ++ sep := by
      rw [List.mem_append]
      rintro (hin | hin)
      · exact hadded hin
      · exact hsep hin
    obtain ⟨key, hkey, hkeyMark⟩ :=
      exists_appendEncoded (front ++ (added ++ sep)) (splitItem (cString v)).1
    rw [happend, hkey]
    cases (splitItem (cString v)).2 with
    | none =>
      refine ⟨added ++ sep ++ key, List.append_assoc _ _ _, ?_⟩
      rw [List.mem_append]
      rintro (hin | hin)
      · exact hclean hin
      · exact hkeyMark hin
    | some value =>
      obtain ⟨last, hlastText, hlastMark⟩ :=
        exists_appendEncoded (front ++ (added ++ sep) ++ key ++ [ascii '=']) value
      refine ⟨added ++ sep ++ key ++ [ascii '='] ++ last, ?_, ?_⟩
      · dsimp only
        rw [hlastText]
        simp only [List.append_assoc]
      · simp only [List.mem_append, List.mem_singleton] at hclean ⊢
        rintro ((((hin | hin) | hin) | hin) | hin)
        · exact hadded hin
        · exact hsep hin
        · exact hkeyMark hin
        · exact absurd hin (by decide)
        · exact hlastMark hin
  · show ((g1.setPacket (p + len) 0).encodeItem p len).position = _
    have hkept : (g1.setPacket (p + len) 0).position = g1.position := rfl
    rw [hpos, hkept, hposition]
    unfold behindItem
    dsimp only
    cases (splitItem (cString v)).2 with
    | none =>
      dsimp only
      rw [Option.map_bind]
      rfl
    | some value =>
      cases g.position <;> rfl

/-! ## The loops -/

/-- A loop whose body appends to the text with `f`, while the position goes on with `behind`. -/
theorem loop_spec (key : ℕ) {body : GetPath → ℕ → ℕ → GetPath}
    {f : List UInt8 → List UInt8 → List UInt8} {behind : ℕ → List UInt8 → Option ℕ}
    (P : List UInt8 → Prop)
    (hbody : ∀ (g : GetPath) (text : List UInt8) (p len : ℕ), P text → g.Wrote text →
      (body g p len).inbound = g.inbound ∧
        (body g p len).Wrote (f text (readBytes g.inbound.bytes p len)) ∧
        P (f text (readBytes g.inbound.bytes p len)) ∧
        (body g p len).position =
          g.position.bind (behind · (readBytes g.inbound.bytes p len)))
    (fuel : ℕ) (hP : P text) (h : g.Wrote text) :
    g.inbound.SameMessage (loop key body fuel g).inbound ∧
      (loop key body fuel g).Wrote ((g.inbound.readValues key fuel).foldl f text) ∧
      (loop key body fuel g).position =
        g.position.bind fun pos => (g.inbound.readValues key fuel).foldlM behind pos := by
  -- induction on the fuel: one turn appends one value and moves the position by it
  induction fuel generalizing g text with
  | zero => exact ⟨Inbound.SameMessage.refl _, h, (Option.bind_fun_some _).symm⟩
  | succ fuel ih =>
    have hsame := Inbound.sameMessage_nextOption g.inbound
    have hbytes : g.inbound.nextOption.inbound.bytes = g.inbound.bytes := by
      obtain ⟨key', option, heq⟩ := hsame
      rw [heq]
      rfl
    rw [loop, Inbound.readValues]
    dsimp only
    by_cases hkey : g.inbound.nextOption.key = key
    · rw [if_pos hkey, if_pos hkey]
      have hstart : ({ g with inbound := g.inbound.nextOption.inbound } : GetPath).Wrote text := h
      obtain ⟨hinbound, hwrote, hP', hposition⟩ := hbody _ text
        (g.inbound.nextOption.value.getD (0, 0)).1 (g.inbound.nextOption.value.getD (0, 0)).2 hP hstart
      obtain ⟨hrest, htext, hpos⟩ := ih hP' hwrote
      rw [hinbound] at hrest htext hpos
      rw [hposition] at hpos
      dsimp only at hrest htext hpos
      rw [hbytes] at htext hpos
      refine ⟨hsame.trans hrest, htext, ?_⟩
      rw [hpos, Option.bind_assoc]
      rfl
    · rw [if_neg hkey, if_neg hkey]
      exact ⟨hsame, h, (Option.bind_fun_some _).symm⟩

end

/-- The part behind the path, which puts the iterator somewhere else. -/
theorem query_spec {g : GetPath} {text : List UInt8} (flags fuel : ℕ) (h : g.Wrote text) :
    g.inbound.SameMessage (g.query flags fuel).inbound ∧
      let j := g.inbound.resetNextOption.skipTo coapOptionUriQuery fuel
      let items := j.readValues coapOptionUriQuery fuel
      let asks := hasFlag flags smcpGetPathIncludeQuery ∧ j.peekOption.1 = coapOptionUriQuery
      (g.query flags fuel).Wrote
          (if asks then items.foldl appendItem (text ++ [ascii '?']) else text) ∧
        (g.query flags fuel).position =
          if asks then (g.position.bind behindSeparator).bind fun start =>
            items.foldlM (behindItem start) start
          else g.position := by
  have hsame : g.inbound.SameMessage (g.inbound.resetNextOption.skipTo coapOptionUriQuery fuel) :=
    (Inbound.sameMessage_resetNextOption g.inbound).trans (Inbound.sameMessage_skipTo fuel)
  unfold query
  generalize g.inbound.resetNextOption.skipTo coapOptionUriQuery fuel = j at hsame ⊢
  dsimp only
  by_cases hinclude : hasFlag flags smcpGetPathIncludeQuery = true
  · rw [if_pos hinclude]
    by_cases hpeek : j.peekOption.1 = coapOptionUriQuery
    · rw [if_pos hpeek, if_pos ⟨hinclude, hpeek⟩, if_pos ⟨hinclude, hpeek⟩]
      have hstart : ({ g with inbound := j } : GetPath).Wrote text := h
      have hfront : (text ++ [ascii '?']).getLast? = some (ascii '?') := by simp
      -- nothing behind the question mark is one
      obtain ⟨hend, hwrote, hpos⟩ := loop_spec coapOptionUriQuery
        (fun t => ∃ added, t = text ++ [ascii '?'] ++ added ∧ ascii '?' ∉ added)
        (fun g' text' p len hP hg' => by
          obtain ⟨added, rfl, hadded⟩ := hP
          exact item_spec p len hfront hadded hg')
        fuel ⟨[], by rw [List.append_nil], List.not_mem_nil⟩ (hstart.put (ascii '?'))
      refine ⟨hsame.trans hend, hwrote, hpos.trans ?_⟩
      rw [position_put]
      have hposition : ({ g with inbound := j } : GetPath).position = g.position := rfl
      rw [hposition]
      -- the position behind the question mark is that of the text
      unfold position
      split_ifs
      · rw [Option.bind_some, behindSeparator, h.1, List.length_append, List.length_singleton]
        split_ifs <;> rfl
      · rfl
    · rw [if_neg hpeek, if_neg fun hboth => hpeek hboth.2, if_neg fun hboth => hpeek hboth.2]
      exact ⟨hsame, h, rfl⟩
  · rw [if_neg hinclude, if_neg fun hboth => hinclude hboth.1, if_neg fun hboth => hinclude hboth.1]
    exact ⟨Inbound.SameMessage.refl _, h, rfl⟩

/-- All of it: the iterator moves, the text is that of `smcpInboundGetPath`, and the position goes on
with the segments and the items that the loops read. -/
theorem run_spec (i : Inbound) (out : Buffer) (flags : ℕ) :
    i.SameMessage (run i out flags).inbound ∧
      (∃ text, (run i out flags).Wrote text ∧ cString text = smcpInboundGetPath i flags) ∧
      let fuel := i.packetLen + 1
      let first := if hasFlag flags smcpGetPathRemaining then i else i.resetNextOption
      let segments := (first.skipTo coapOptionUriPath fuel).readValues coapOptionUriPath fuel
      let j := i.resetNextOption.skipTo coapOptionUriQuery fuel
      let items := j.readValues coapOptionUriQuery fuel
      let behindPath := (if out.top ≤ smcpMaxUriLength + 1 then some 0 else none).bind fun pos =>
        segments.foldlM (behindSegment flags) pos
      (run i out flags).position =
        if hasFlag flags smcpGetPathIncludeQuery ∧ j.peekOption.1 = coapOptionUriQuery then
          (behindPath.bind behindSeparator).bind fun start => items.foldlM (behindItem start) start
        else behindPath := by
  unfold run smcpInboundGetPath
  dsimp only
  -- the flag decides where the reading starts, and either place reads the same message
  have hfirst : i.SameMessage (if hasFlag flags smcpGetPathRemaining then i else i.resetNextOption) := by
    split_ifs
    · exact Inbound.SameMessage.refl i
    · exact Inbound.sameMessage_resetNextOption i
  -- the four parts of the source in their order: the skip, the path, the question mark, the query
  generalize (if hasFlag flags smcpGetPathRemaining then i else i.resetNextOption) = first at hfirst ⊢
  have hskip : i.SameMessage (first.skipTo coapOptionUriPath (i.packetLen + 1)) :=
    hfirst.trans (Inbound.sameMessage_skipTo (i.packetLen + 1))
  generalize first.skipTo coapOptionUriPath (i.packetLen + 1) = i1 at hskip ⊢
  -- nothing is written at the start
  have hempty : (⟨i1, out, 0⟩ : GetPath).Wrote [] := ⟨rfl, rfl⟩
  obtain ⟨hpathSame, hpathWrote, hpathPos⟩ := loop_spec coapOptionUriPath (fun _ => True)
    (fun g text p len _ hg => by
      obtain ⟨hinbound, hwrote, hpos⟩ := segment_spec flags p len hg
      exact ⟨hinbound, hwrote, trivial, hpos⟩)
    (i.packetLen + 1) trivial hempty
  -- the position that the path's loop begins with
  have hstart : (⟨i1, out, 0⟩ : GetPath).position =
      if out.top ≤ smcpMaxUriLength + 1 then some 0 else none := by
    unfold position
    exact if_congr (and_iff_left (Nat.zero_le _)) rfl rfl
  rw [hstart] at hpathPos
  generalize loop coapOptionUriPath (segment flags) (i.packetLen + 1) ⟨i1, out, 0⟩ = g at *
  obtain ⟨hquerySame, hqueryWrote, hqueryPos⟩ := query_spec flags (i.packetLen + 1) hpathWrote
  have hsame : i.SameMessage g.inbound := hskip.trans hpathSame
  have hreset : g.inbound.resetNextOption = i.resetNextOption := by
    obtain ⟨key, option, heq⟩ := hsame
    rw [heq]
    rfl
  rw [hreset] at hqueryWrote hqueryPos
  rw [hpathPos] at hqueryPos
  refine ⟨hsame.trans hquerySame, ⟨_, hqueryWrote, ?_⟩, hqueryPos⟩
  by_cases hinclude : hasFlag flags smcpGetPathIncludeQuery = true
  · simp only [hinclude, true_and, if_true]
    split_ifs <;> rfl
  · simp only [hinclude]
    exact congrArg cString (if_neg fun hboth => Bool.false_ne_true hboth.1)

end GetPath

/-! ## The result -/

section
variable {i : Inbound} {split : List (ℕ × List UInt8)} {rest : List (ℕ × List UInt8)}
  {payload payload' : Option (List UInt8)} {output alloc : Option Buffer} {w : Buffer}

/-- The packet and the iterator are put back, and the string in the buffer is that of
`smcpInboundGetPath`. -/
theorem getPathInto_eq (hbuffer : output.or alloc = some w) (flags : ℕ) :
    smcpInboundGetPathInto i output alloc flags =
        (i, some ((GetPath.run i w flags).out.store (GetPath.run i w flags).iter 0)) ∧
      cString (readBytes ((GetPath.run i w flags).out.store (GetPath.run i w flags).iter 0).byte 0
        ((GetPath.run i w flags).iter + 1)) = smcpInboundGetPath i flags := by
  -- the run as a whole, and the text that it has written
  obtain ⟨hsame, ⟨text, hwrote, htext⟩, -⟩ := GetPath.run_spec i w flags
  -- the packet is put back as it was, by the source's own last lines
  have hrestored : ({ (GetPath.run i w flags).inbound with
      lastOptionKey := i.lastOptionKey, thisOption := i.thisOption } : Inbound) = i := by
    obtain ⟨key, option, heq⟩ := hsame
    rw [heq]
  constructor
  · unfold smcpInboundGetPathInto
    rw [hbuffer]
    dsimp only
    rw [hrestored]
  -- the string that is stored ends with the zero that `put` writes
  · have hstored := (hwrote.put 0).2
    have hend := htext
    show cString (readBytes ((GetPath.run i w flags).put 0).out.byte 0 _) = _
    rw [← htext]
    have hiter : ((GetPath.run i w flags).put 0).iter = (GetPath.run i w flags).iter + 1 := rfl
    rw [hiter] at hstored
    rw [hstored]
    obtain ⟨rest, hrest⟩ := GetPath.append_zero_eq_cString text
    rw [hrest]
    exact cString_append_zero rest fun c hc => ne_zero_of_mem_cString hc

/-- The values of an option ahead of the iterator, wherever it is. -/
theorem readValues_ahead {key : ℕ} (h : i.Ahead rest payload')
    (hlast : i.lastOptionKey = coapOptionInvalid → rest = []) (hkey : key < coapOptionInvalid) :
    (i.skipTo key (i.packetLen + 1)).readValues key (i.packetLen + 1) = values key rest := by
  by_cases hinvalid : i.lastOptionKey = coapOptionInvalid
  · have hpeek : i.peekOption.1 = coapOptionInvalid := by
      unfold Inbound.peekOption
      cases i.thisOption with
      | none => rfl
      | some p =>
        dsimp only
        rw [if_neg fun hall => hall.1 hinvalid]
    rw [hlast hinvalid] at h ⊢
    rw [Inbound.skipTo, if_pos (.inr hpeek), h.readValues hkey.ne (by simp)]
    rfl
  · obtain ⟨p, split', -, -, -, hrest⟩ := id h
    apply h.readValues_skipTo hinvalid _ hkey
    rw [hrest]
    exact sorted_withKeys i.lastOptionKey split'

/-- `smcp_inbound_get_path` stays inside its buffer, and leaves the packet and the iterator as they
were, exactly when there is room for all separators: those of the path, of the path ahead of the
iterator if only that is asked for, and those of the query. -/
theorem getPath_stores_iff (hv : coapVerifyPacket i.bytes i.packetLen = true)
    (hlen : i.packetLen < 65536)
    (hs : Splits word16 (optionArea (readBytes i.bytes 0 i.packetLen)) split payload)
    (hahead : i.Ahead rest payload') (hlast : i.lastOptionKey = coapOptionInvalid → rest = [])
    (hbuffer : output.or alloc = some w) (hw : w.top ≤ smcpMaxUriLength + 1) (flags : ℕ) :
    ((∀ out ∈ (smcpInboundGetPathInto i output alloc flags).2, out.top ≤ smcpMaxUriLength + 1) ∧
        (smcpInboundGetPathInto i output alloc flags).1 = i) ↔
      behindText flags
        (values coapOptionUriPath
          (if hasFlag flags smcpGetPathRemaining then rest else withKeys 0 split))
        (values coapOptionUriQuery (withKeys 0 split)) ≠ none := by
  -- the options that are ahead, from which all of the text comes
  have hreset := ahead_resetNextOption hv hlen hs
  have hsorted := sorted_withKeys 0 split
  have hitems := readValues_skipTo hreset hsorted (show coapOptionUriQuery < _ by decide)
  have hpeek := peekOption_skipTo hreset hsorted (show coapOptionUriQuery < _ by decide)
  -- with or without the flag, the segments are the same, since the iterator is at the start
  have hsegments : ((if hasFlag flags smcpGetPathRemaining then i
      else i.resetNextOption).skipTo coapOptionUriPath (i.packetLen + 1)).readValues
        coapOptionUriPath (i.packetLen + 1) = values coapOptionUriPath
          (if hasFlag flags smcpGetPathRemaining then rest else withKeys 0 split) := by
    split_ifs
    · exact readValues_ahead hahead hlast (by decide)
    · exact readValues_skipTo hreset hsorted (by decide)
  -- the position at the end counts all that was to be written
  have hpos := (GetPath.run_spec i w flags).2.2
  dsimp only at hpos
  rw [hsegments, hitems, if_pos hw, Option.bind_some] at hpos
  -- it is inside the buffer when the text with its separators fits
  have hposition : (GetPath.run i w flags).position = behindText flags
      (values coapOptionUriPath
        (if hasFlag flags smcpGetPathRemaining then rest else withKeys 0 split))
      (values coapOptionUriQuery (withKeys 0 split)) := by
    rw [hpos, behindText]
    exact if_congr (and_congr_right fun _ => hpeek) rfl rfl
  rw [(getPathInto_eq hbuffer flags).1, ← hposition]
  have htop : ((GetPath.run i w flags).out.store (GetPath.run i w flags).iter 0).top ≤
      smcpMaxUriLength + 1 ↔ (GetPath.run i w flags).Inside := by
    show max _ _ ≤ _ ↔ _ ∧ _
    omega
  simp only [Option.mem_def, Option.some.injEq, forall_eq', htop, and_true]
  unfold GetPath.position
  split_ifs with hinside
  · exact iff_of_true hinside (by simp)
  · exact iff_of_false hinside (by simp)

end

/-- A buffer that nothing has been stored to. -/
def freshBuffer : Buffer := ⟨fun _ => 0, 0⟩

/-- The packet of a GET for `/a`, with the iterator in front of its options. -/
def shortPath : Inbound := (receivedPacket [0x40, 1, 0, 1, 0xB1, 0x61]).resetNextOption

theorem splits_shortPath :
    Splits word16 (optionArea (readBytes shortPath.bytes 0 shortPath.packetLen)) [(11, [0x61])] none := by
  have harea : optionArea (readBytes shortPath.bytes 0 shortPath.packetLen) =
      encode 0 [(11, [0x61])] ++ [] := by
    decide +kernel
  have hordered : Ordered 65535 1000 0 [(11, [0x61])] := by decide
  rw [harea]
  exact splits_encode hordered (by decide) (by decide) (fun n hn => word16_of_lt (by omega)) Splits.nil

theorem getPath_stores_short :
    (∀ out ∈ (smcpInboundGetPathInto shortPath none (some freshBuffer) smcpGetPathRemaining).2,
        out.top ≤ smcpMaxUriLength + 1) ∧
      (smcpInboundGetPathInto shortPath none (some freshBuffer) smcpGetPathRemaining).1 = shortPath :=
  (getPath_stores_iff (by decide +kernel) (by decide) splits_shortPath
    (ahead_resetNextOption (by decide +kernel) (by decide) splits_shortPath)
    (fun h => absurd h (by decide)) rfl (by decide) smcpGetPathRemaining).2 (by decide +kernel)

/-- A path of three segments, of which the first is escaped to 1023 bytes: the packet of a GET. -/
def longPath : Inbound :=
  (receivedPacket ([0x40, 1, 0, 1, 0xBE, 0x00, 0x48] ++ List.replicate 341 0x20 ++
    [0x00, 0x00])).resetNextOption

/-- The third separator comes at offset 1024, and the terminator behind it. -/
theorem getPath_stores_outside : ¬∀ (i : Inbound) (output alloc : Option Buffer) (flags : ℕ),
    coapVerifyPacket i.bytes i.packetLen = true → i.packetLen ≤ 1032 → i.resetNextOption = i →
    (∀ w, output.or alloc = some w → w.top ≤ smcpMaxUriLength + 1) →
    (∀ out ∈ (smcpInboundGetPathInto i output alloc flags).2, out.top ≤ smcpMaxUriLength + 1) ∧
      (smcpInboundGetPathInto i output alloc flags).1 = i := by
  intro h
  have hinside := (h longPath none (some freshBuffer) 0 (by decide +kernel) (by decide +kernel) rfl
    (fun w hw => by
      rw [← Option.some.inj hw]
      decide)).1
  revert hinside
  decide +kernel

end Smcp
