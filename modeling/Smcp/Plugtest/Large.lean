import Mathlib.Tactic.IntervalCases
import Smcp.Cgi.Node
import Smcp.Variable.Basic

/-!
# The large resource of the test server

`plugtest_large_handler` of `plugtest-server.c`, and `coap_decode_block` of `coap.c`.

* `coapDecodeBlock_mod`: where a block starts, and how long it is;
* `selectBlock_loops`: a block that ends at 2 ^ 32 is tried again for ever;
* `selectBlock_returns`: for any other one the loop comes to an end;
* `largeBlock_iff` and `plugtestLargeHandler_returns_iff`: when the handler does.

A loop that does not end gives `none` for any fuel.
-/

namespace Smcp

open ByteMemory

/-! ## The handler -/

/-- `struct coap_block_info_s`. -/
structure CoapBlockInfo where
  blockOffset : ℕ
  blockSize : ℕ
  blockM : Bool

/-- `coap_decode_block`. -/
def coapDecodeBlock (block : ℕ) : CoapBlockInfo :=
  let blockSize := (1 <<< ((block &&& 0x7) + 4)) % 65536
  { blockSize := blockSize
    blockOffset := ((block >>> 4) * blockSize) % 4294967296
    blockM := block &&& (1 <<< 3) ≠ 0 }

/-- The loop over the options of the request, which starts with `block_option`. The loop over the
bytes of a value is that of `cgi_node_request_handler`. -/
def largeBlockOption : List (ℕ × List UInt8) → ℕ → Option ℕ
  | [], blockOption => some blockOption
  | o :: opts, blockOption =>
    if o.1 = coapOptionBlock2 then (blockOptionValue o.2).bind (largeBlockOption opts)
    else largeBlockOption opts blockOption

/-- The block that is sent. -/
structure LargeBlock where
  blockOption : ℕ
  blockStart : ℕ
  blockStop : ℕ

/-- The loop that adjusts the block option. -/
def selectBlock (maxLen : ℕ) : (fuel : ℕ) → (blockOption : ℕ) → Option LargeBlock
  | 0, _ => none
  | fuel + 1, blockOption =>
    let info := coapDecodeBlock blockOption
    let blockStart := info.blockOffset
    let blockStop := (info.blockOffset + info.blockSize) % 4294967296
    if maxLen < (blockStop + 4294967296 - blockStart) % 4294967296 ∧ blockOption ≠ 0 ∧
        info.blockOffset = 0 then
      -- `block_stop` becomes 0
      selectBlock maxLen fuel (blockOption - 1)
    else if blockStop = 0 then selectBlock maxLen fuel blockOption
    else some ⟨blockOption, blockStart, blockStop⟩

def resourceLength : ℕ := 2000

/-- The content of the block. -/
def largeContent (blockStart blockStop : ℕ) : List UInt8 :=
  (List.range' blockStart (blockStop - blockStart)).map fun i =>
    if (i + 1) % 64 = 0 then 0x0A else UInt8.ofNat (48 + i % 10)

/-- What `plugtest_large_handler` sends before it selects the block. -/
def largeBegin (s : Instance) : Instance × ℤ :=
  let r := smcpOutboundBeginResponse s (httpToCoapCode 205)
  if r.2 ≠ smcpStatusOk then r
  else
    let r := smcpOutboundAddOptionUint r.1 coapOptionContentType coapContentTypeTextPlain
    if r.2 ≠ smcpStatusOk then r
    else smcpOutboundAddOptionUint r.1 coapOptionMaxAge (60 * 60)

/-- What it does with the block. -/
def sendLargeBlock (b : LargeBlock) (s : Instance) : Instance × ℤ :=
  if resourceLength ≤ b.blockStart then (s, smcpStatusInvalidArgument)
  else
    let blockOption :=
      if resourceLength ≤ b.blockStop then b.blockOption &&& 0xFFFFFFF7
      else b.blockOption ||| (1 <<< 3)
    let r := smcpOutboundAddOptionUint s coapOptionBlock2 blockOption
    if r.2 ≠ smcpStatusOk then r
    else
      let s := smcpOutboundGetContentPtr r.1
      let o := s.outbound
      if o.maxContentLen ≤ b.blockStop - b.blockStart then (s, smcpStatusMessageTooBig)
      else
        let content := largeContent b.blockStart b.blockStop
        let s := { s with outbound.packetBytes := o.packetBytes.copy o.contentPtr content }
        smcpOutboundSend (smcpOutboundSetContentLen s
          (min (b.blockStop - b.blockStart) (resourceLength - b.blockStart)))

/-- `plugtest_large_handler`. -/
def plugtestLargeHandler (fuel : ℕ) (s : Instance) : Option (Instance × ℤ) :=
  if headerCode s.inbound.bytes ≠ coapMethodGet then some (s, smcpStatusNotAllowed)
  else
    let scanFuel := s.inbound.packetLen + 1
    (largeBlockOption (s.inbound.readOptions scanFuel) 0x03).bind fun blockOption =>
      let r := largeBegin { s with inbound := s.inbound.skipOptions scanFuel }
      if r.2 ≠ smcpStatusOk then some r
      else
        (selectBlock ((r.1.outbound.spaceRemaining + 65534) % 65536) fuel blockOption).map fun b =>
          sendLargeBlock b r.1

/-- The loop over the bytes of the option and the loop that selects the block. -/
def largeBlock (value : List UInt8) (maxLen fuel : ℕ) : Option LargeBlock :=
  (blockOptionValue value).bind (selectBlock maxLen fuel)

/-! ## The loop -/

/-- The block ends at 2 ^ 32, or at a multiple of it. -/
def EndsAtLimit (blockOption : ℕ) : Prop :=
  (blockOption / 16 + 1) * 2 ^ (blockOption % 8 + 4) % 4294967296 = 0

section
variable {blockOption maxLen : ℕ}

/-- The size is one of eight. -/
theorem coapDecodeBlock_mod (blockOption : ℕ) :
    (coapDecodeBlock blockOption).blockSize = 2 ^ (blockOption % 8 + 4) ∧
      (coapDecodeBlock blockOption).blockOffset =
        blockOption / 16 * 2 ^ (blockOption % 8 + 4) % 4294967296 := by
  have hmask : blockOption &&& 0x7 = blockOption % 8 := Nat.and_two_pow_sub_one_eq_mod blockOption 3
  have hshift : blockOption >>> 4 = blockOption / 16 := Nat.shiftRight_eq_div_pow blockOption 4
  have hpow : 2 ^ (blockOption % 8 + 4) < 65536 := by
    calc 2 ^ (blockOption % 8 + 4) < 2 ^ 16 := Nat.pow_lt_pow_right (by decide) (by omega)
      _ = 65536 := by norm_num
  have hsize : (1 <<< ((blockOption &&& 0x7) + 4)) % 65536 = 2 ^ (blockOption % 8 + 4) := by
    rw [hmask, Nat.one_shiftLeft, Nat.mod_eq_of_lt hpow]
  unfold coapDecodeBlock
  dsimp only
  rw [hsize, hshift]
  exact ⟨rfl, rfl⟩

/-- The size of a block, as a number. -/
theorem blockSize_cases (blockOption : ℕ) :
    ∃ k < 8, blockOption % 8 = k ∧ 2 ^ (blockOption % 8 + 4) = 16 * 2 ^ k := by
  refine ⟨blockOption % 8, Nat.mod_lt _ (by decide), rfl, ?_⟩
  rw [Nat.pow_add, Nat.mul_comm]

/-- The offset of a block is a multiple of its size, and so the block ends at the limit or in front
of it. -/
theorem blockStop_le (blockOption : ℕ) :
    let size := 2 ^ (blockOption % 8 + 4)
    let offset := blockOption / 16 * size % 4294967296
    16 ≤ size ∧ offset + size ≤ 4294967296 ∧
      (EndsAtLimit blockOption ↔ offset + size = 4294967296) := by
  obtain ⟨k, hk, -, hsize⟩ := blockSize_cases blockOption
  unfold EndsAtLimit
  dsimp only
  rw [hsize]
  refine ⟨Nat.le_mul_of_pos_right 16 (Nat.two_pow_pos k), ?_, ?_⟩
  · interval_cases k <;> omega
  · constructor
    · intro hzero
      interval_cases k <;> omega
    · intro hend
      interval_cases k <;> omega

/-- The first block is followed by none that ends at the limit, for a smaller option. -/
theorem not_endsAtLimit_pred (hlt : blockOption < 4294967296) (hne : blockOption ≠ 0)
    (hoffset : blockOption / 16 * 2 ^ (blockOption % 8 + 4) % 4294967296 = 0) :
    ¬EndsAtLimit (blockOption - 1) := by
  obtain ⟨k, hk, hmod, hsize⟩ := blockSize_cases blockOption
  obtain ⟨k', hk', hmod', hsize'⟩ := blockSize_cases (blockOption - 1)
  rw [hsize] at hoffset
  unfold EndsAtLimit
  rw [hsize']
  -- the exponent goes down by one, or from 0 to 7
  have hstep : k = k' + 1 ∨ k = 0 ∧ k' = 7 := by omega
  intro hzero
  interval_cases k' <;> rcases hstep with rfl | ⟨rfl, hseven⟩ <;> omega

/-- One round of the loop. -/
theorem selectBlock_succ (fuel : ℕ) (blockOption : ℕ) :
    let size := 2 ^ (blockOption % 8 + 4)
    let offset := blockOption / 16 * size % 4294967296
    selectBlock maxLen (fuel + 1) blockOption =
      if maxLen < size ∧ blockOption ≠ 0 ∧ offset = 0 then selectBlock maxLen fuel (blockOption - 1)
      else if offset + size = 4294967296 then selectBlock maxLen fuel blockOption
      else some ⟨blockOption, offset, offset + size⟩ := by
  intro size offset
  obtain ⟨hsize, hoffset⟩ := coapDecodeBlock_mod blockOption
  obtain ⟨hpos, hle, -⟩ := blockStop_le blockOption
  change 16 ≤ size at hpos
  change offset + size ≤ 4294967296 at hle
  change _ = size at hsize
  change _ = offset at hoffset
  have hbound : size ≤ 2048 := by
    have hpow := Nat.pow_le_pow_right (by decide : 0 < 2) (by omega : blockOption % 8 + 4 ≤ 11)
    exact hpow
  rw [selectBlock, hsize, hoffset]
  have hlength : ((offset + size) % 4294967296 + 4294967296 - offset) % 4294967296 = size := by omega
  have hzero : (offset + size) % 4294967296 = 0 ↔ offset + size = 4294967296 := by omega
  rw [hlength]
  by_cases hlimit : offset + size = 4294967296
  · rw [if_pos (hzero.2 hlimit), if_pos hlimit]
  · rw [if_neg (fun h => hlimit (hzero.1 h)), if_neg hlimit, Nat.mod_eq_of_lt (by omega)]

/-- A block that ends at the limit is tried again for ever. -/
theorem selectBlock_loops (hlimit : EndsAtLimit blockOption) (fuel : ℕ) :
    selectBlock maxLen fuel blockOption = none := by
  obtain ⟨hpos, -, hiff⟩ := blockStop_le blockOption
  have hend := hiff.1 hlimit
  induction fuel with
  | zero => rfl
  | succ fuel ih =>
    have hbound := Nat.pow_le_pow_right (by decide : 0 < 2) (by omega : blockOption % 8 + 4 ≤ 11)
    rw [selectBlock_succ, if_neg (by omega), if_pos hend, ih]

/-- For any other one the loop comes to an end. -/
theorem selectBlock_returns (hlt : blockOption < 4294967296) (hlimit : ¬EndsAtLimit blockOption) :
    ∃ b, selectBlock maxLen (blockOption + 1) blockOption = some b := by
  induction blockOption with
  | zero =>
    obtain ⟨-, -, hiff⟩ := blockStop_le 0
    rw [selectBlock_succ, if_neg (by omega), if_neg fun h => hlimit (hiff.2 h)]
    exact ⟨_, rfl⟩
  | succ n ih =>
    obtain ⟨-, -, hiff⟩ := blockStop_le (n + 1)
    rw [selectBlock_succ]
    split_ifs with hsmaller
    · have hpred := not_endsAtLimit_pred hlt hsmaller.2.1 hsmaller.2.2
      exact ih (by omega) hpred
    · next hend => exact absurd (hiff.2 hend) hlimit
    · exact ⟨_, rfl⟩

/-- A block that is found is not empty. -/
theorem selectBlock_start_lt (fuel : ℕ) {b : LargeBlock}
    (h : selectBlock maxLen fuel blockOption = some b) : b.blockStart < b.blockStop := by
  induction fuel generalizing blockOption with
  | zero => exact absurd h (by rw [selectBlock]; exact Option.some_ne_none b |>.symm)
  | succ fuel ih =>
    obtain ⟨hpos, -, -⟩ := blockStop_le blockOption
    rw [selectBlock_succ] at h
    split_ifs at h
    · exact ih h
    · exact ih h
    · rw [← Option.some.inj h]
      dsimp only
      omega

/-- Any fuel from some point on gives the same. -/
theorem selectBlock_some_iff (hlt : blockOption < 4294967296) :
    (∃ fuel, (selectBlock maxLen fuel blockOption).isSome) ↔ ¬EndsAtLimit blockOption := by
  constructor
  · rintro ⟨fuel, hsome⟩ hlimit
    rw [selectBlock_loops hlimit fuel] at hsome
    exact absurd hsome (by decide)
  · intro hlimit
    obtain ⟨b, hb⟩ := @selectBlock_returns _ maxLen hlt hlimit
    exact ⟨blockOption + 1, by rw [hb]; rfl⟩

end

/-! ## The values of the option -/

/-- The number that the bytes of an option stand for, modulo 2 ^ 32. -/
def decodeBlock (value : List UInt8) : ℕ :=
  value.foldl (fun b v => (b * 256 + v.toNat) % 4294967296) 0

theorem decodeBlock_lt (value : List UInt8) : decodeBlock value < 4294967296 := by
  unfold decodeBlock
  induction value using List.reverseRecOn with
  | nil => decide
  | append_singleton value v ih =>
    rw [List.foldl_append]
    exact Nat.mod_lt _ (by decide)

/-- For every value of the option and every room in the packet: the loops come to an end, and the
block is not empty, exactly when the value has less than 256 bytes and its block does not end at
2 ^ 32. -/
theorem largeBlock_iff (value : List UInt8) (maxLen : ℕ) :
    ((∃ fuel, (largeBlock value maxLen fuel).isSome) ∧
        ∀ fuel b, largeBlock value maxLen fuel = some b → b.blockStart < b.blockStop) ↔
      value.length < 256 ∧ ¬EndsAtLimit (decodeBlock value) := by
  have hstart : ∀ fuel b, largeBlock value maxLen fuel = some b → b.blockStart < b.blockStop := by
    intro fuel b hb
    obtain ⟨blockOption, -, hselect⟩ := Option.bind_eq_some_iff.1 hb
    exact selectBlock_start_lt fuel hselect
  rw [and_iff_left hstart]
  unfold largeBlock blockOptionValue
  by_cases hlen : value.length < 256
  · rw [if_pos hlen, and_iff_right hlen]
    exact selectBlock_some_iff (decodeBlock_lt value)
  · rw [if_neg hlen]
    apply iff_of_false
    · rintro ⟨fuel, hsome⟩
      exact absurd hsome (by simp)
    · exact fun h => hlen h.1

/-- The value `FF FF FF FF` asks for the last block of 2048 bytes. -/
theorem largeBlock_loops :
    ¬∀ (value : List UInt8) (maxLen : ℕ),
      (∃ fuel, (largeBlock value maxLen fuel).isSome) ∧
        ∀ fuel b, largeBlock value maxLen fuel = some b → b.blockStart < b.blockStop := by
  intro hclaim
  obtain ⟨⟨fuel, hsome⟩, -⟩ := hclaim [0xFF, 0xFF, 0xFF, 0xFF] 1000
  have hvalue : blockOptionValue [0xFF, 0xFF, 0xFF, 0xFF] = some 4294967295 := by decide
  have hlimit : EndsAtLimit 4294967295 := by
    unfold EndsAtLimit
    norm_num
  unfold largeBlock at hsome
  rw [hvalue, Option.bind_some, selectBlock_loops hlimit fuel] at hsome
  exact absurd hsome (by decide)

/-- The handler returns for a GET that it begins to answer exactly when its loop ends. -/
theorem plugtestLargeHandler_returns_iff {s : Instance} {blockOption : ℕ}
    (hget : headerCode s.inbound.bytes = coapMethodGet)
    (hoptions : largeBlockOption (s.inbound.readOptions (s.inbound.packetLen + 1)) 0x03 =
      some blockOption) (hlt : blockOption < 4294967296)
    (hbegin : (largeBegin
      { s with inbound := s.inbound.skipOptions (s.inbound.packetLen + 1) }).2 = smcpStatusOk) :
    (∃ fuel, (plugtestLargeHandler fuel s).isSome) ↔ ¬EndsAtLimit blockOption := by
  unfold plugtestLargeHandler
  dsimp only
  rw [hoptions]
  simp only [hget, ne_eq, not_true_eq_false, if_false, Option.bind_some, hbegin, Option.isSome_map]
  exact selectBlock_some_iff hlt

end Smcp
