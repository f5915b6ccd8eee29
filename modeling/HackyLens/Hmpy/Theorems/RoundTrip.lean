import HackyLens.Lib.Cobs
import HackyLens.Hmpy.Codec

namespace Hmpy

open LittleEndian

namespace CobsEncoder

-- The encoder after it has finished the packet bytes `done` and put `block` into the open block.
def inBlock (done block : List UInt8) : CobsEncoder where
  output    := done ++ 0 :: block
  codeIndex := done.length
  code      := Cobs.code block

theorem start_eq : start = inBlock [] [] :=
  rfl

theorem close_inBlock (done block : List UInt8) :
    (inBlock done block).close = done ++ Cobs.code block :: block := by
  simp [close, inBlock, List.set_append_right]

theorem output_length (done block : List UInt8) :
    (inBlock done block).output.length = done.length + block.length + 1 := by
  simp [inBlock, Nat.add_assoc]

theorem finishBlock_inBlock (done block : List UInt8) (capacity : Nat) :
    (inBlock done block).finishBlock capacity =
      if done.length + block.length + 1 < capacity
      then .ok (inBlock (done ++ Cobs.code block :: block) [])
      else .error .outputTooSmall := by
  simp only [finishBlock, close_inBlock]
  by_cases hc : done.length + block.length + 1 < capacity
  case pos =>
    have : ¬ capacity ≤ done.length + (block.length + 1) := by omega
    simp [inBlock, Cobs.code, hc, this]
  case neg =>
    have : capacity ≤ done.length + (block.length + 1) := by omega
    simp [hc, this]

theorem push_inBlock (done block : List UInt8) (b : UInt8) :
    { inBlock done block with
      output := (inBlock done block).output ++ [b], code := (inBlock done block).code + 1 } =
      inBlock done (block ++ [b]) := by
  simp [inBlock, Cobs.code]

theorem code_full_iff {done block : List UInt8} (h : block.length < Cobs.maxRun) :
    (inBlock done block).code + 1 = 0xFF ↔ block.length + 1 = Cobs.maxRun := by
  have hc := @Cobs.code_eq_full_iff (block ++ [0]) (by simpa using h)
  simpa [inBlock, Cobs.code] using hc

end CobsEncoder

open CobsEncoder in
-- By induction on the input. The index arithmetic of the encoder only ever touches the open block,
-- so it computes the block-wise packet, or reports that the buffer is too small for it.
theorem foldlM_cobsEncodeByte {done block : List UInt8} {capacity : Nat} (input : List UInt8)
    (h : block.length < Cobs.maxRun) (hc : done.length + block.length < capacity) :
    close <$> input.foldlM (cobsEncodeByte capacity) (inBlock done block) =
      if done.length + (Cobs.encodeFrom block input).length ≤ capacity
      then .ok (done ++ Cobs.encodeFrom block input)
      else .error .outputTooSmall := by
  induction input generalizing done block
  case nil =>
    have : done.length + (block.length + 1) ≤ capacity := by omega
    simp [Cobs.encodeFrom, this, pure, Except.pure, Functor.map, Except.map, close_inBlock]
  case cons b bs hi =>
    have hn := @Cobs.length_lt_encodeFrom [] bs
    have finish (block' : List UInt8) :
        ((inBlock done block').finishBlock capacity >>= fun e =>
          close <$> bs.foldlM (cobsEncodeByte capacity) e) =
        if done.length + (Cobs.code block' :: block' ++ Cobs.encodeFrom [] bs).length ≤ capacity
        then .ok (done ++ (Cobs.code block' :: block' ++ Cobs.encodeFrom [] bs))
        else .error .outputTooSmall := by
      rw [finishBlock_inBlock]
      split
      case isTrue hf =>
        have := @hi (done ++ Cobs.code block' :: block') [] (by simp [Cobs.maxRun])
          (by simp; omega)
        simpa [bind, Except.bind, Nat.add_assoc, Nat.add_comm 1] using this
      case isFalse hf =>
        rw [if_neg (by simp at hn ⊢; omega)]
        rfl
    simp only [List.foldlM_cons, map_bind, Cobs.encodeFrom, cobsEncodeByte, push_inBlock,
      output_length, code_full_iff h]
    split
    case isTrue => exact finish block
    case isFalse hb =>
      have hl := @Cobs.length_lt_encodeFrom (block ++ [b]) bs
      split
      case isTrue hf =>
        rw [if_neg]
        · rfl
        · split <;> simp at hl hn ⊢ <;> omega
      case isFalse hf =>
        split
        case isTrue => exact finish (block ++ [b])
        case isFalse hfull =>
          exact hi (by simp; omega) (by simp; omega)

theorem cobsEncode_eq (input : List UInt8) (capacity : Nat) :
    cobsEncode input capacity =
      if (Cobs.encode input).length ≤ capacity then .ok (Cobs.encode input)
      else .error .outputTooSmall := by
  by_cases hc : capacity = 0
  case pos =>
    have hl := @Cobs.length_lt_encodeFrom [] input
    rw [if_neg (by simp only [Cobs.encode, List.length_nil] at hl ⊢; omega)]
    simp [cobsEncode, hc]
  case neg =>
    have := @foldlM_cobsEncodeByte [] [] capacity input
      (by simp [Cobs.maxRun]) (by simp; omega)
    rw [cobsEncode, if_neg hc, CobsEncoder.start_eq, this, List.nil_append, List.length_nil,
      Nat.zero_add, Cobs.encode]

-- One round of the decoder, on a block for which there is room.
theorem cobsDecodeLoop_block {block rest output : List UInt8} {capacity : Nat}
    (hb : block.length ≤ Cobs.maxRun) (h : output.length + block.length ≤ capacity) :
    cobsDecodeLoop capacity (Cobs.code block :: block ++ rest) output =
      if block.length ≠ Cobs.maxRun ∧ rest ≠ [] then
        if output.length + block.length ≥ capacity then .error .outputTooSmall
        else cobsDecodeLoop capacity rest (output ++ block ++ [0])
      else cobsDecodeLoop capacity rest (output ++ block) := by
  have hroom : ¬ capacity - output.length < block.length := by omega
  rw [List.cons_append, cobsDecodeLoop]
  simp [Cobs.code_ne_zero hb, Cobs.code_toNat hb, Cobs.code_eq_full_iff hb, hroom]

-- By induction on the blocks: each round of the decoder consumes one.
theorem cobsDecodeLoop_of_decodes {packet data output : List UInt8} {capacity : Nat}
    (d : Cobs.Decodes packet data) (h : output.length + data.length ≤ capacity) :
    cobsDecodeLoop capacity packet output = .ok (output ++ data) := by
  induction d generalizing output
  case last block hb =>
    have := @cobsDecodeLoop_block _ [] _ _ hb h
    simpa [cobsDecodeLoop] using this
  case full block packet data hb d hi =>
    simp only [List.length_append] at h
    rw [cobsDecodeLoop_block hb.le (by omega), if_neg (by simp [hb]), hi (by simp; omega)]
    simp
  case stop block packet data hb d hi =>
    simp only [List.length_append, List.length_cons] at h
    rw [cobsDecodeLoop_block hb.le (by omega), if_pos ⟨hb.ne, d.ne_nil⟩, if_neg (by omega),
      hi (by simp; omega)]
    simp

theorem cobsDecode_encode {data : List UInt8} {capacity : Nat} (h : data.length ≤ capacity) :
    cobsDecode (Cobs.encode data) capacity = .ok data := by
  have hd := Cobs.decodes_encode data
  have hl := @cobsDecodeLoop_of_decodes _ _ [] _ hd (by simpa)
  simp [cobsDecode, hd.ne_nil, Cobs.zero_not_mem_encode, hl]

-- A frame the envelope rules and the payload limit allow.
structure Frame.Valid (f : Frame) : Prop where
  envelope : validateEnvelope f.type f.flags f.requestId = .ok
  payload  : f.payload.length ≤ maxPayloadSize

variable {f : Frame}

@[simp]
theorem rawHeader_length (f : Frame) : (rawHeader f).length = headerSize := by
  simp [rawHeader, headerSize]

theorem rawFrame_length (f : Frame) : (rawFrame f).length = rawOverhead + f.payload.length := by
  simp [rawFrame, rawOverhead, crcSize]
  omega

theorem encode_rawFrame_length_le (h : f.Valid) :
    (Cobs.encode (rawFrame f)).length ≤ maxEncodedPacket := by
  have hl := Cobs.encode_length_le (rawFrame f)
  have hp := h.payload
  simp [rawFrame_length, maxEncodedPacket, maxRawFrame, rawOverhead, headerSize, crcSize,
    maxPayloadSize, Cobs.maxRun] at hl hp ⊢
  omega

theorem frameEncode_eq {capacity : Nat} (h : f.Valid) (hc : maxWireFrame ≤ capacity) :
    frameEncode f capacity = .ok (Cobs.encode (rawFrame f) ++ [0]) := by
  have hl := encode_rawFrame_length_le h
  have hp := h.payload
  have h₁ : ¬ maxPayloadSize < f.payload.length := by omega
  have h₂ : capacity ≠ 0 := by simp [maxWireFrame] at hc; omega
  have h₃ : (Cobs.encode (rawFrame f)).length ≤ capacity - 1 := by simp [maxWireFrame] at hc; omega
  have h₄ : ¬ capacity ≤ (Cobs.encode (rawFrame f)).length := by omega
  simp [frameEncode, h₁, h.envelope, h₂, cobsEncode_eq, h₃, h₄, bind, Except.bind]

theorem frameEncode_valid {wire : List UInt8} (h : frameEncode f maxWireFrame = .ok wire) :
    f.Valid ∧ wire = Cobs.encode (rawFrame f) ++ [0] := by
  have hv : f.Valid := by
    simp only [frameEncode] at h
    split_ifs at h with hp he
    exact ⟨Decidable.not_not.mp he, not_lt.mp hp⟩
  rw [frameEncode_eq hv le_rfl] at h
  exact ⟨hv, (Except.ok.inj h).symm⟩

theorem payload_length_toNat (h : f.payload.length ≤ maxPayloadSize) :
    (UInt32.ofNat f.payload.length).toNat = f.payload.length := by
  simp only [maxPayloadSize] at h
  simp
  omega

-- Each field is read back from the place it was written to.
theorem frameDecodeRaw_rawFrame (h : f.Valid) : frameDecodeRaw (rawFrame f) = .ok f := by
  let magic : List UInt8 := [0x48, 0x4D, 0x50, 0x59, protocolVersion, f.type]
  let crc := bytes32 (crc32 (rawHeader f ++ f.payload))
  have hflags : u16 (at' (rawFrame f) 6) = f.flags := by
    have := u16_bytes16 magic f.flags
      (bytes32 f.requestId ++ bytes32 (UInt32.ofNat f.payload.length) ++ f.payload ++ crc)
    simpa [magic, crc, rawFrame, rawHeader] using this
  have hid : u32 (at' (rawFrame f) 8) = f.requestId := by
    have := u32_bytes32 (magic ++ bytes16 f.flags) f.requestId
      (bytes32 (UInt32.ofNat f.payload.length) ++ f.payload ++ crc)
    simpa [magic, crc, rawFrame, rawHeader] using this
  have hlength : (u32 (at' (rawFrame f) 12)).toNat = f.payload.length := by
    have := u32_bytes32 (magic ++ bytes16 f.flags ++ bytes32 f.requestId)
      (UInt32.ofNat f.payload.length) (f.payload ++ crc)
    rw [← payload_length_toNat h.payload, ← this]
    simp [magic, crc, rawFrame, rawHeader]
  have hcrc : u32 (at' (rawFrame f) (headerSize + f.payload.length)) =
      crc32 (rawHeader f ++ f.payload) := by
    have := u32_bytes32 (rawHeader f ++ f.payload) (crc32 (rawHeader f ++ f.payload)) []
    simpa [rawFrame] using this
  have htake : (rawFrame f).take (headerSize + f.payload.length) = rawHeader f ++ f.payload := by
    simp [rawFrame, List.take_append]
  have hpayload : ((rawFrame f).drop headerSize).take f.payload.length = f.payload := by
    simp [rawFrame]
  have hp := h.payload
  have hmagic : (rawFrame f).take 4 = [0x48, 0x4D, 0x50, 0x59] := rfl
  have hversion : (rawFrame f).getD 4 0 = protocolVersion := rfl
  have htype : (rawFrame f).getD 5 0 = f.type := rfl
  have hlimit : ¬ maxPayloadSize < f.payload.length := by omega
  simp only [frameDecodeRaw, hmagic, hversion, htype, hlength, hflags, hid,
    rawFrame_length, h.envelope, htake, hcrc, hpayload]
  simp [hlimit]

theorem frameDecodePacket_encode {capacity : Nat} (h : f.Valid)
    (hc : (rawFrame f).length ≤ capacity) :
    frameDecodePacket (Cobs.encode (rawFrame f)) capacity = .ok f := by
  have hp := h.payload
  have hpacket : ¬ maxEncodedPacket < (Cobs.encode (rawFrame f)).length := by
    have := encode_rawFrame_length_le h
    omega
  have hraw : ¬ maxRawFrame < (rawFrame f).length := by
    rw [rawFrame_length, maxRawFrame]
    omega
  simp [frameDecodePacket, hpacket, cobsDecode_encode hc, hraw, frameDecodeRaw_rawFrame h]

-- What the checks of the decoder leave of a raw frame.
theorem frameDecodeRaw_valid {raw : List UInt8} (h : frameDecodeRaw raw = .ok f) :
    f.Valid ∧ raw.length = (rawFrame f).length := by
  simp only [frameDecodeRaw] at h
  split_ifs at h with _ _ _ hpayload hlength henvelope
  simp only [Except.ok.injEq] at h
  subst h
  simp only [Decidable.not_not, ne_eq, not_lt, gt_iff_lt] at hpayload hlength henvelope
  have hp : ((raw.drop headerSize).take (u32 (at' raw 12)).toNat).length =
      (u32 (at' raw 12)).toNat := by
    simp [hlength, rawOverhead]
    omega
  refine ⟨⟨henvelope, ?_⟩, ?_⟩
  · rw [hp]; exact hpayload
  · rw [rawFrame_length, hp, hlength]

-- By induction on the rounds of the decoder: each one checks the room it needs.
theorem cobsDecodeLoop_length_le {input output data : List UInt8} {capacity : Nat}
    (ho : output.length ≤ capacity) (h : cobsDecodeLoop capacity input output = .ok data) :
    data.length ≤ capacity := by
  fun_induction cobsDecodeLoop capacity input output
  case case1 => cases h; exact ho
  case case6 hlength hroom output' hzero hfull hi => exact hi (by simp at hfull ⊢; omega) h
  case case7 hlength hroom output' hzero hi => exact hi (by simp [output'] at hroom ⊢; omega) h
  all_goals cases h

theorem frameDecodePacket_valid {packet : List UInt8} {capacity : Nat}
    (h : frameDecodePacket packet capacity = .ok f) :
    f.Valid ∧ (rawFrame f).length ≤ capacity := by
  simp only [frameDecodePacket] at h
  split at h
  case isTrue => cases h
  case isFalse =>
    split at h
    case h_1 => split at h <;> cases h
    case h_2 => cases h
    case h_3 raw hraw =>
      split at h
      case isTrue => cases h
      case isFalse =>
        obtain ⟨hv, hl⟩ := frameDecodeRaw_valid h
        simp only [cobsDecode] at hraw
        split_ifs at hraw
        exact ⟨hv, hl ▸ cobsDecodeLoop_length_le (by simp) hraw⟩

theorem wire_dropLast (f : Frame) :
    (Cobs.encode (rawFrame f) ++ [0]).dropLast = Cobs.encode (rawFrame f) := by
  simp

-- Encoding a frame the envelope rules and the payload limit allow gives a wire frame with its only
-- zero at the end, from which the decoder recovers the frame; and what the decoder accepts is such
-- a frame.
theorem frame_round_trip :
    (∀ (f : Frame) (rawCapacity : Nat),
      validateEnvelope f.type f.flags f.requestId = .ok → f.payload.length ≤ maxPayloadSize →
      maxRawFrame ≤ rawCapacity →
      ∃ wire, frameEncode f maxWireFrame = .ok wire ∧ wire.length ≤ maxWireFrame ∧
        wire.count 0 = 1 ∧ wire.getLast? = some 0 ∧
        frameDecodePacket wire.dropLast rawCapacity = .ok f) ∧
    (∀ (packet : List UInt8) (rawCapacity : Nat) (f : Frame),
      frameDecodePacket packet rawCapacity = .ok f →
      ∃ wire, frameEncode f maxWireFrame = .ok wire ∧
        frameDecodePacket wire.dropLast rawCapacity = .ok f) := by
  constructor
  case left =>
    intro f rawCapacity henvelope hpayload hc
    have h : f.Valid := ⟨henvelope, hpayload⟩
    have hl := encode_rawFrame_length_le h
    have hraw : (rawFrame f).length ≤ rawCapacity := by
      simp only [rawFrame_length, maxRawFrame] at hc ⊢
      omega
    refine ⟨_, frameEncode_eq h le_rfl, ?_, ?_, by simp, ?_⟩
    · simp only [List.length_append, List.length_singleton, maxWireFrame]; omega
    · simp [List.count_eq_zero.mpr (Cobs.zero_not_mem_encode _)]
    · rw [wire_dropLast, frameDecodePacket_encode h hraw]
  case right =>
    intro packet rawCapacity f hf
    obtain ⟨h, hraw⟩ := frameDecodePacket_valid hf
    exact ⟨_, frameEncode_eq h le_rfl, by rw [wire_dropLast, frameDecodePacket_encode h hraw]⟩

def pingFrame : Frame where
  type      := MessageType.ping.value
  flags     := 0
  requestId := 7
  payload   := [0, 255]

theorem frame_round_trip_ping :
    ∃ wire, frameEncode pingFrame maxWireFrame = .ok wire ∧ wire.length ≤ maxWireFrame ∧
      wire.count 0 = 1 ∧ wire.getLast? = some 0 ∧
      frameDecodePacket wire.dropLast maxRawFrame = .ok pingFrame :=
  frame_round_trip.left pingFrame maxRawFrame (by decide) (by decide) le_rfl

example : maxRawFrame = 1044 ∧ maxEncodedPacket = 1049 ∧ maxWireFrame = 1050 := by decide

end Hmpy
