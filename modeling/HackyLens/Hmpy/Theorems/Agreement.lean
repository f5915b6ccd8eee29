import HackyLens.Hmpy.Host
import HackyLens.Hmpy.Theorems.Stream

-- The firmware codec and the host codec are one codec.
namespace Hmpy

open LittleEndian

def Frame.toHost (f : Frame) : Host.Frame where
  type      := f.type.toNat
  flags     := f.flags.toNat
  requestId := f.requestId.toNat
  payload   := f.payload

def FeedResult.toEvent : FeedResult → Option Host.StreamEvent
  | incomplete       => none
  | frameReady frame => some (.ok frame.toHost)
  | error status     => some (.error status)

theorem typeIsKnown_iff (type : UInt8) : typeIsKnown type ↔ (type.toNat : Int) ∈ Host.messageTypes := by
  simp [typeIsKnown, MessageType.all, MessageType.value, Host.messageTypes, ← UInt8.toNat_inj]
  omega

theorem typeIsEvent_iff (type : UInt8) : typeIsEvent type ↔
    Host.messageStdout ≤ (type.toNat : Int) ∧ (type.toNat : Int) ≤ Host.messageDropped := by
  simp [typeIsEvent, MessageType.value, Host.messageStdout, Host.messageDropped,
    UInt8.le_iff_toNat_le]

theorem validateEnvelope_agrees (type : UInt8) (flags : UInt16) (requestId : UInt32) :
    Host.validateEnvelope type.toNat flags.toNat requestId.toNat =
      if validateEnvelope type flags requestId = .ok then .ok ((type.toNat : Int), flags)
      else .error (validateEnvelope type flags requestId) := by
  have hid : ¬ ((requestId.toNat : Int) < 0 ∨ (requestId.toNat : Int) > 0xFFFFFFFF) := by
    have := requestId.toNat_lt
    omega
  have hflags : ¬ ((flags.toNat : Int) < 0 ∨ (flags.toNat : Int) > 0xFFFF) := by
    have := flags.toNat_lt
    omega
  have hzero : (requestId.toNat : Int) = 0 ↔ requestId = 0 := by
    rw [← UInt32.toNat_inj]
    simp
  simp only [Host.validateEnvelope, Host.coerceType, Host.coerceFlags, ← typeIsKnown_iff, if_neg hid, if_neg hflags, hzero, Int.toNat_natCast, UInt16.ofNat_toNat,
    show Host.frameFlagMask = flagMask from rfl, show Host.flagResponse = flagResponse from rfl,
    show Host.flagError = flagError from rfl, show Host.flagMore = flagMore from rfl, ne_eq]
  by_cases hk : typeIsKnown type
  case neg => simp [validateEnvelope, hk, bind, Except.bind]
  case pos =>
    by_cases hm : flags &&& ~~~flagMask = 0
    case neg => simp [validateEnvelope, hk, hm, bind, Except.bind]
    case pos =>
      simp only [validateEnvelope, hk, hm, bind, Except.bind, if_true, not_true, if_false,
        ← typeIsEvent_iff]
      clear hid hflags hzero hk hm
      cases typeIsEvent type <;> by_cases hr : requestId = 0 <;> simp only [hr] <;> split_ifs <;>
        simp_all

theorem crc32_agrees (data : List UInt8) : Host.crc32 data = (crc32 data).toBitVec := by
  have hfold (crc : UInt32) : data.foldl
      (fun crc b => Crc.tabular Core.crc32Poly crc b.toBitVec) crc.toBitVec =
      (data.foldl Core.crc32Byte crc).toBitVec := by
    induction data generalizing crc
    case nil => rfl
    case cons b data hi =>
      rw [List.foldl_cons, List.foldl_cons, ← Crc.serial_eq_tabular (by decide),
        ← Core.crc32Byte_toBitVec, hi]
  rw [Host.crc32, crc32, UInt32.toBitVec_not, ← hfold]
  rfl

-- The firmware runs out of its raw buffer exactly where the host finds the output too large.
def hostStatus : CodecStatus → CodecStatus
  | .outputTooSmall => .encodedTooLarge
  | status          => status

-- By induction on the rounds of the firmware's decoder.
theorem cobsDecodeLoop_agrees {source output : List UInt8} (h : output.length ≤ maxRawFrame) :
    Host.cobsDecodeLoop source output =
      (cobsDecodeLoop maxRawFrame source output).mapError hostStatus := by
  have hmax : Host.maxRawFrame = maxRawFrame := rfl
  fun_induction cobsDecodeLoop maxRawFrame source output <;> rw [Host.cobsDecodeLoop]
  case case1 => rfl
  case case2 => rfl
  case case3 hz hl => rw [if_neg hz, if_pos hl]; rfl
  case case4 hz hl hr =>
    rw [if_neg hz, if_neg hl, if_pos]
    case hc => split <;> simp <;> omega
    rfl
  case case5 hz hl hr output' he hf =>
    rw [if_neg hz, if_neg hl, if_pos]
    case hc => rw [if_pos he]; simp [output'] at hf ⊢; omega
    rfl
  case case6 hz hl hr output' he hf hi =>
    have ho : (output' ++ [0]).length ≤ maxRawFrame := by simp at hf ⊢; omega
    rw [if_neg hz, if_neg hl, if_neg, ← hi ho]
    case hnc => rw [if_pos he]; exact not_lt_of_ge ho
    exact congrArg _ (if_pos he)
  case case7 hz hl hr output' he hi =>
    have ho : output'.length ≤ maxRawFrame := by simp [output']; omega
    rw [if_neg hz, if_neg hl, if_neg, ← hi ho]
    case hnc => rw [if_neg he]; exact not_lt_of_ge ho
    exact congrArg _ (if_neg he)

theorem cobsDecode_agrees (packet : List UInt8) :
    Host.cobsDecode packet = (cobsDecode packet maxRawFrame).mapError hostStatus := by
  by_cases he : packet = []
  case pos => simp [Host.cobsDecode, cobsDecode, he, Except.mapError, hostStatus]
  case neg =>
    by_cases hz : 0 ∈ packet
    case pos => simp [Host.cobsDecode, cobsDecode, he, hz, Except.mapError, hostStatus]
    case neg => simpa [Host.cobsDecode, cobsDecode, he, hz] using cobsDecodeLoop_agrees (by simp)

-- The checks come in the same order on both sides, so the first one to fail is the same.
theorem decodeRaw_agrees (source : List UInt8) :
    Host.decodeRaw source = Frame.toHost <$> frameDecodeRaw source := by
  simp only [Host.decodeRaw, frameDecodeRaw, validateEnvelope_agrees, crc32_agrees, ne_eq,
    apply_ite (Functor.map Frame.toHost)]
  iterate 5 refine if_congr Iff.rfl rfl ?_
  by_cases hs : validateEnvelope (source.getD 5 0) (u16 (at' source 6)) (u32 (at' source 8)) = .ok
  case neg => rw [if_neg hs, if_pos hs]; rfl
  case pos =>
    rw [if_pos hs, if_neg (not_not_intro hs)]
    refine if_congr (not_congr UInt32.toBitVec_inj) rfl ?_
    simp [Functor.map, Except.map, Frame.toHost, List.drop_take, Host.headerSize, headerSize]

theorem decodePacket_agrees (packet : List UInt8) :
    Host.decodePacket packet = Frame.toHost <$> frameDecodePacket packet maxRawFrame := by
  rw [Host.decodePacket, frameDecodePacket, cobsDecode_agrees,
    apply_ite (Functor.map Frame.toHost)]
  refine if_congr Iff.rfl rfl ?_
  cases h : cobsDecode packet maxRawFrame with
  | error status => cases status <;> rfl
  | ok raw =>
    have hl : ¬ maxRawFrame < raw.length := by
      simp only [cobsDecode] at h
      split_ifs at h
      exact not_lt_of_ge (cobsDecodeLoop_length_le (by simp) h)
    simp only [gt_iff_lt, if_neg hl, ← decodeRaw_agrees]
    rfl

namespace StreamDecoder

-- The two decoders hold the same unterminated rest.
structure Agrees (d : StreamDecoder) (h : Host.StreamDecoder) : Prop where
  buffer     : h.buffer = d.encoded
  discarding : h.discarding = d.discarding

theorem Agrees.feed {d : StreamDecoder} {h : Host.StreamDecoder} (a : Agrees d h) (byte : UInt8) :
    Agrees (d.feed byte).2 (h.feedByte byte).2 ∧
    (h.feedByte byte).1 = (d.feed byte).1.toEvent := by
  have hmax : Host.maxEncodedPacket = maxEncodedPacket := rfl
  have hb := a.1
  have hd := a.2
  simp only [StreamDecoder.feed, Host.StreamDecoder.feedByte, hb, hd, hmax]
  by_cases hz : byte = 0
  case neg =>
    by_cases hdisc : d.discarding
    case pos => simpa [hz, hdisc, FeedResult.toEvent] using a
    case neg =>
      by_cases hl : maxEncodedPacket ≤ d.encoded.length
      case pos => simpa [hz, hdisc, hl, FeedResult.toEvent] using ⟨rfl, rfl⟩
      case neg => simpa [hz, hdisc, hl, FeedResult.toEvent] using ⟨rfl, by simp⟩
  case pos =>
    by_cases hdisc : d.discarding
    case pos => simpa [hz, hdisc] using ⟨⟨rfl, rfl⟩, rfl⟩
    case neg =>
      by_cases he : d.encoded = []
      case pos => simpa [hz, hdisc, he, FeedResult.toEvent] using a
      case neg =>
        rw [decodePacket_agrees]
        cases hp : frameDecodePacket d.encoded maxRawFrame
        all_goals
          have hf : d.discarding = false := by simpa using hdisc
          simpa [hz, hdisc, he, hp] using ⟨⟨rfl, hf.symm⟩, rfl⟩

-- By induction on the stream.
theorem Agrees.feedAll {d : StreamDecoder} {h : Host.StreamDecoder} (a : Agrees d h)
    (stream : List UInt8) :
    Agrees (d.feedAll stream).2 (h.feed stream).2 ∧
    (h.feed stream).1 = (d.feedAll stream).1.filterMap (·.toEvent) := by
  induction stream generalizing d h
  case nil => exact ⟨a, rfl⟩
  case cons byte stream hi =>
    obtain ⟨a₁, he⟩ := a.feed byte
    obtain ⟨a₂, hs⟩ := hi a₁
    refine ⟨a₂, ?_⟩
    simp only [Host.StreamDecoder.feed, StreamDecoder.feedAll, List.filterMap_cons, hs, he]
    cases (d.feed byte).1.toEvent <;> rfl

theorem Agrees.reset (d : StreamDecoder) (h : Host.StreamDecoder) : Agrees d.reset h.reset :=
  ⟨rfl, rfl⟩

theorem feedAll_append (d : StreamDecoder) (stream₁ stream₂ : List UInt8) :
    d.feedAll (stream₁ ++ stream₂) =
      ((d.feedAll stream₁).1 ++ ((d.feedAll stream₁).2.feedAll stream₂).1,
        ((d.feedAll stream₁).2.feedAll stream₂).2) := by
  induction stream₁ generalizing d
  case nil => rfl
  case cons byte stream₁ hi => simp [feedAll, hi]

-- By induction on the chunks.
theorem Agrees.feedChunks {d : StreamDecoder} {h : Host.StreamDecoder} (a : Agrees d h)
    (chunks : List (List UInt8)) :
    (h.feedChunks chunks).1 = (d.feedAll chunks.flatten).1.filterMap (·.toEvent) := by
  induction chunks generalizing d h
  case nil => rfl
  case cons chunk chunks hi =>
    obtain ⟨a₁, he⟩ := a.feedAll chunk
    rw [List.flatten_cons, feedAll_append, List.filterMap_append, ← he, ← hi a₁]
    rfl

end StreamDecoder

-- The host's encoder after the packet bytes `done`, with `block` in the open block.
def hostInBlock (done block : List UInt8) : Host.CobsEncoder where
  output    := done ++ 0 :: block
  codeIndex := done.length
  code      := Cobs.code block

theorem hostInBlock_close (done block : List UInt8) :
    (hostInBlock done block).close = done ++ Cobs.code block :: block := by
  simp [Host.CobsEncoder.close, hostInBlock, List.set_append_right]

theorem hostInBlock_finishBlock (done block : List UInt8) :
    (hostInBlock done block).finishBlock = hostInBlock (done ++ Cobs.code block :: block) [] := by
  rw [Host.CobsEncoder.finishBlock, hostInBlock_close]
  simp [hostInBlock, Cobs.code]

theorem hostInBlock_push (done block : List UInt8) (b : UInt8) :
    { hostInBlock done block with
      output := (hostInBlock done block).output ++ [b], code := (hostInBlock done block).code + 1 } =
      hostInBlock done (block ++ [b]) := by
  simp [hostInBlock, Cobs.code]

-- By induction on the data, as for the firmware's encoder, but with no buffer to run out of.
theorem foldl_hostCobsEncodeByte {done block : List UInt8} (data : List UInt8)
    (h : block.length < Cobs.maxRun) :
    (data.foldl Host.cobsEncodeByte (hostInBlock done block)).close =
      done ++ Cobs.encodeFrom block data := by
  induction data generalizing done block
  case nil => exact hostInBlock_close done block
  case cons b bs hi =>
    have hfull : (hostInBlock done block).code + 1 = 0xFF ↔ block.length + 1 = Cobs.maxRun := by
      have hc := @Cobs.code_eq_full_iff (block ++ [b]) (by simpa using h)
      simpa [hostInBlock, Cobs.code] using hc
    simp only [List.foldl_cons, Host.cobsEncodeByte, Cobs.encodeFrom, hostInBlock_push]
    split
    case isTrue => rw [hostInBlock_finishBlock, hi (by simp [Cobs.maxRun])]; simp
    case isFalse =>
      by_cases hf : block.length + 1 = Cobs.maxRun
      case pos =>
        rw [if_pos (hfull.mpr hf), if_pos hf, hostInBlock_finishBlock, hi (by simp [Cobs.maxRun])]
        simp
      case neg =>
        rw [if_neg (hfull.not.mpr hf), if_neg hf, hi (by simp; omega)]

theorem hostCobsEncode_eq (data : List UInt8) : Host.cobsEncode data = Cobs.encode data := by
  exact @foldl_hostCobsEncodeByte [] [] data (by simp [Cobs.maxRun])

theorem encodeRaw_agrees {f : Frame} (h : validateEnvelope f.type f.flags f.requestId = .ok) :
    Host.encodeRaw f.toHost =
      if f.payload.length > maxPayloadSize then .error .payloadTooLarge else .ok (rawFrame f) := by
  have he := validateEnvelope_agrees f.type f.flags f.requestId
  rw [if_pos h] at he
  have hp : Host.packHeader f.type.toNat f.flags f.requestId.toNat f.payload =
      rawHeader f ++ f.payload := by
    simp [Host.packHeader, rawHeader, protocolVersion]
  simp only [Host.encodeRaw, Frame.toHost, he, bind, Except.bind, hp, crc32_agrees]
  rfl

theorem encodeFrame_agrees {f : Frame} (h : validateEnvelope f.type f.flags f.requestId = .ok) :
    Host.encodeFrame f.toHost = frameEncode f maxWireFrame := by
  rw [Host.encodeFrame, encodeRaw_agrees h]
  by_cases hp : f.payload.length > maxPayloadSize
  case pos => rw [if_pos hp, frameEncode, if_pos hp]; rfl
  case neg =>
    have hv : f.Valid := ⟨h, not_lt.mp hp⟩
    have hl : ¬ (Cobs.encode (rawFrame f)).length > Host.maxEncodedPacket :=
      not_lt_of_ge (encode_rawFrame_length_le hv)
    rw [if_neg hp, frameEncode_eq hv le_rfl]
    simp only [bind, Except.bind, hostCobsEncode_eq, if_neg hl]

-- However the stream is cut into chunks, the host sees the events of the firmware; and a frame that
-- both envelope checks accept goes out as the same bytes.
theorem host_agrees :
    (∀ (d : StreamDecoder) (h : Host.StreamDecoder) (chunks : List (List UInt8)),
      (h.reset.feedChunks chunks).1 = (d.reset.completed chunks.flatten).filterMap (·.toEvent)) ∧
    (∀ (f : Frame) (accepted : Int × UInt16),
      validateEnvelope f.type f.flags f.requestId = .ok →
      Host.validateEnvelope f.toHost.type f.toHost.flags f.toHost.requestId = .ok accepted →
      Host.encodeFrame f.toHost = frameEncode f maxWireFrame) := by
  constructor
  case left =>
    intro d h chunks
    rw [(StreamDecoder.Agrees.reset d h).feedChunks, StreamDecoder.completed, List.filterMap_filter]
    congr 1
    funext result
    cases result <;> rfl
  case right =>
    intro f _ h _
    exact encodeFrame_agrees h

theorem host_agrees_ping :
    Host.encodeFrame pingFrame.toHost = frameEncode pingFrame maxWireFrame :=
  host_agrees.right pingFrame (0x40, 0) (by decide) (by rfl)

end Hmpy
