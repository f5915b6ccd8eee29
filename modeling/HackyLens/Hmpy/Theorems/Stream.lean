import HackyLens.Lib.Delimited
import HackyLens.Hmpy.Theorems.RoundTrip

namespace Hmpy

-- What one packet between two delimiters is answered with.
def decodeSegment (segment : List UInt8) : FeedResult :=
  if segment.length > maxEncodedPacket then .error .encodedTooLarge
  else
    match frameDecodePacket segment maxRawFrame with
    | .error status => .error status
    | .ok frame     => .frameReady frame

namespace FeedResult

def completes : FeedResult → Bool
  | incomplete => false
  | _          => true

def rejects : FeedResult → Bool
  | error _ => true
  | _       => false

end FeedResult

namespace StreamDecoder

def feedAll (d : StreamDecoder) : List UInt8 → List FeedResult × StreamDecoder
  | [] => ([], d)
  | byte :: stream =>
    let (result, d₁) := d.feed byte
    let (results, d₂) := d₁.feedAll stream
    (result :: results, d₂)

-- The results the caller acts on.
def completed (d : StreamDecoder) (stream : List UInt8) : List FeedResult :=
  (d.feedAll stream).1.filter (·.completes)

def machine (d : StreamDecoder) : Delimited.Machine UInt8 where
  buffer     := d.encoded
  discarding := d.discarding

def ofOutcome : Delimited.Outcome UInt8 → FeedResult
  | .oversized      => .error .encodedTooLarge
  | .packet segment => decodeSegment segment

theorem completes_decodeSegment (segment : List UInt8) : (decodeSegment segment).completes := by
  simp only [decodeSegment]
  split
  case isTrue  => rfl
  case isFalse => split <;> rfl

theorem completes_ofOutcome : (o : Delimited.Outcome UInt8) → (ofOutcome o).completes
  | .oversized      => rfl
  | .packet segment => completes_decodeSegment segment

theorem ofOutcome_outcome (segment : List UInt8) :
    ofOutcome (Delimited.outcome maxEncodedPacket segment) = decodeSegment segment := by
  by_cases h : segment.length ≤ maxEncodedPacket
  case pos => simp [Delimited.outcome, h, ofOutcome]
  case neg => simp [Delimited.outcome, h, ofOutcome, decodeSegment, Nat.lt_of_not_le h]

-- One byte: the decoder keeps to the splitting machine, and counts the packets it rejects.
theorem feed_refines (d : StreamDecoder) (byte : UInt8) :
    (d.feed byte).2.machine = (d.machine.feed 0 maxEncodedPacket byte).2 ∧
    [(d.feed byte).1].filter (·.completes) =
      (d.machine.feed 0 maxEncodedPacket byte).1.toList.map ofOutcome ∧
    (d.feed byte).2.errorCount =
      d.errorCount + UInt32.ofNat ([(d.feed byte).1].countP (·.rejects)) := by
  by_cases hb : byte = 0
  case neg =>
    by_cases hd : d.discarding
    case pos => simp [feed, Delimited.Machine.feed, machine, hb, hd, FeedResult.completes, FeedResult.rejects]
    case neg =>
      by_cases hl : maxEncodedPacket ≤ d.encoded.length
      all_goals simp [feed, Delimited.Machine.feed, machine, clearPacket, hb, hd, hl,
        FeedResult.completes, FeedResult.rejects]
  case pos =>
    by_cases hd : d.discarding
    case pos => simp [feed, Delimited.Machine.feed, Delimited.Machine.reset, machine, clearPacket,
        streamError, hb, hd, ofOutcome, FeedResult.completes, FeedResult.rejects]
    case neg =>
      by_cases he : d.encoded = []
      case pos => simp [feed, Delimited.Machine.feed, Delimited.Machine.reset, machine, hb, hd, he,
        FeedResult.completes, FeedResult.rejects]
      case neg =>
        have hl : ¬ d.encoded.length > maxEncodedPacket := not_lt_of_ge d.bounded
        cases hp : frameDecodePacket d.encoded maxRawFrame
        all_goals simp [feed, Delimited.Machine.feed, Delimited.Machine.reset, machine, clearPacket,
          streamError, hb, hd, he, hp, hl, ofOutcome, decodeSegment, FeedResult.completes,
          FeedResult.rejects]

-- By induction on the stream.
theorem feedAll_refines (d : StreamDecoder) (stream : List UInt8) :
    d.completed stream = (d.machine.run 0 maxEncodedPacket stream).1.map ofOutcome ∧
    (d.feedAll stream).2.errorCount =
      d.errorCount + UInt32.ofNat ((d.completed stream).countP (·.rejects)) := by
  induction stream generalizing d
  case nil => simp [completed, feedAll, Delimited.Machine.run]
  case cons byte stream hi =>
    obtain ⟨hm, hr, hc⟩ := d.feed_refines byte
    obtain ⟨hir, hic⟩ := hi (d.feed byte).2
    have hcons : d.completed (byte :: stream) =
        [(d.feed byte).1].filter (·.completes) ++ (d.feed byte).2.completed stream := by
      simp only [completed, feedAll, ← List.filter_append, List.singleton_append]
    have hcount : ([(d.feed byte).1].filter (·.completes)).countP (·.rejects) =
        [(d.feed byte).1].countP (·.rejects) := by
      cases (d.feed byte).1 <;> rfl
    constructor
    case left => rw [hcons, hr, hir, hm, Delimited.Machine.run, List.map_append]
    case right =>
      rw [feedAll, hic, hc, hcons, List.countP_append, hcount, UInt32.ofNat_add, UInt32.add_assoc]

theorem completed_reset (d : StreamDecoder) (stream : List UInt8) :
    d.reset.completed stream = (Delimited.segments 0 stream).map decodeSegment := by
  have hm : d.reset.machine = Delimited.Machine.reset := rfl
  rw [(feedAll_refines d.reset stream).left, hm, Delimited.Machine.run_reset, List.map_map]
  exact List.map_congr_left fun s _ => ofOutcome_outcome s

theorem decodeSegment_encode {f : Frame} (h : f.Valid) :
    decodeSegment (Cobs.encode (rawFrame f)) = .frameReady f := by
  have hl := encode_rawFrame_length_le h
  have hr : (rawFrame f).length ≤ maxRawFrame := by
    have := h.payload
    simp only [rawFrame_length, maxRawFrame]
    omega
  simp [decodeSegment, not_lt_of_ge hl, frameDecodePacket_encode h hr]

theorem segments_wire {f : Frame} (rest : List UInt8) :
    Delimited.segments 0 ((Cobs.encode (rawFrame f) ++ [0]) ++ rest) =
      Cobs.encode (rawFrame f) :: Delimited.segments 0 rest := by
  have hne := (Cobs.decodes_encode (rawFrame f)).ne_nil
  rw [List.append_assoc, List.singleton_append,
    Delimited.segments_append_cons (Cobs.zero_not_mem_encode _), if_neg hne, List.singleton_append]

-- From any reset state the decoder answers a stream packet by packet; a delimiter makes it forget
-- what came before, and each valid frame after it is delivered once.
theorem feedAll_spec (d : StreamDecoder) (stream : List UInt8) :
    d.reset.completed stream = (Delimited.segments 0 stream).map decodeSegment ∧
    (d.reset.feedAll stream).2.errorCount = d.reset.errorCount +
      UInt32.ofNat ((Delimited.segments 0 stream).countP fun s => (decodeSegment s).rejects) ∧
    (∀ rest, d.reset.completed (stream ++ 0 :: rest) =
      d.reset.completed (stream ++ [0]) ++ d.reset.completed rest) ∧
    (∀ f wire rest, frameEncode f maxWireFrame = .ok wire →
      d.reset.completed (wire ++ rest) = .frameReady f :: d.reset.completed rest) := by
  refine ⟨d.completed_reset stream, ?count, ?resync, ?deliver⟩
  case count =>
    rw [(feedAll_refines d.reset stream).right, completed_reset, List.countP_map]
    rfl
  case resync =>
    intro rest
    simp only [completed_reset, Delimited.segments_append_delim stream rest, List.map_append]
  case deliver =>
    intro f wire rest h
    obtain ⟨hv, hw⟩ := frameEncode_valid h
    rw [hw, completed_reset, completed_reset, segments_wire, List.map_cons, decodeSegment_encode hv]

theorem feedAll_spec_ping :
    init.reset.completed ((Cobs.encode (rawFrame pingFrame) ++ [0]) ++ [1, 2]) =
      .frameReady pingFrame :: init.reset.completed [1, 2] :=
  (feedAll_spec init []).right.right.right pingFrame _ [1, 2]
    (frameEncode_eq ⟨by decide, by decide⟩ le_rfl)

end StreamDecoder
end Hmpy
