import HackyLens.Hmpy.System
import HackyLens.Hmpy.Theorems.RoundTrip
import HackyLens.Lib.Observer

-- What someone who listens to the line learns about the session: which requests still wait for
-- their final response, and whether all frames of the device had a reason.

open Prog
open Userfs (nameMax Result)
open Lfs (CString ascii)
open LittleEndian

namespace Hmpy.Session

structure Request where
  type : UInt8
  id : UInt32
  deriving DecidableEq

def requestOf (frame : Frame) : Request :=
  ⟨frame.type, frame.requestId⟩

def Request.isRead (q : Request) : Bool :=
  q.type == MessageType.read.value

-- The latest request comes first. `abandoned` are the requests that were pending when their session
-- ended.
structure Line where
  decoder : StreamDecoder
  pending : List Request
  abandoned : List Request
  orderly : Bool

namespace Line

def start : Line :=
  ⟨.init, [], [], true⟩

-- The device takes a byte from the host.
def take (l : Line) (byte : UInt8) : Line :=
  let (result, decoder) := l.decoder.feed byte
  let pending := match result with
    | .frameReady frame => if frame.requestId = 0 then l.pending else requestOf frame :: l.pending
    | _                 => l.pending
  { l with decoder, pending }

-- A frame of the device is an event, or a response to a request that is pending. Only those to LIST
-- and READ come in parts.
def hear (l : Line) (frame : Frame) : Line :=
  if frame.flags &&& flagResponse = 0 then
    { l with orderly := l.orderly && typeIsEvent frame.type }
  else if requestOf frame ∉ l.pending then
    { l with orderly := false }
  else if frame.flags &&& flagMore = 0 then
    { l with pending := l.pending.erase (requestOf frame) }
  else
    { l with orderly := l.orderly &&
        (frame.type == MessageType.list.value || frame.type == MessageType.read.value) }

def wire (l : Line) (data : List UInt8) : Line :=
  if data.getLast? ≠ some 0 then
    { l with orderly := false }
  else
    match frameDecodePacket data.dropLast maxRawFrame with
    | .error _  => { l with orderly := false }
    | .ok frame => l.hear frame

-- When the device asks for more, only a file that is being read may be owed to the host.
def ask (l : Line) : Line :=
  { l with orderly := l.orderly && l.pending.length ≤ 1 && l.pending.all (·.isRead) }

-- A session begins or ends.
def reset (l : Line) : Line :=
  { l with decoder := .init, pending := [], abandoned := l.pending ++ l.abandoned }

def step (l : Line) : (c : Userfs.Call ⊕ Call) → Sum.elim Userfs.Call.Reply Call.Reply c → Line
  | .inr .receive,           some byte => l.ask.take byte
  | .inr .receive,           none      => l.ask
  | .inr (.writeWire data),  _         => l.wire data
  | .inr (.setFramedMode _), _         => l.reset
  | _,                       _         => l

-- Nothing was sent without a reason, and no session ended with an open request other than a READ.
structure Fair (l : Line) : Prop where
  orderly : l.orderly
  abandoned : ∀ q ∈ l.abandoned, q.isRead

end Line

abbrev watching : Env (Userfs.Call ⊕ Call) (Sum.elim Userfs.Call.Reply Call.Reply) Line
    ((c : Userfs.Call ⊕ Call) → Sum.elim Userfs.Call.Reply Call.Reply c) :=
  .observing Line.step Line.Fair

variable {α : Type} {g g₀ : Globals} {l : Line} {frame : Frame} {rest : List Request}

-- What happens behind the session's back.
def Unseen (g : Globals) (l : Line) (g' : Globals) (l' : Line) : Prop :=
  l' = l ∧ g'.session = g.session

theorem wp_userfs {p : Userfs.Task α} (hi : l.Fair) :
    wp watching (userfs p) (fun _ => Unseen g l) g l := by
  refine wp_mono (Ensures.top.unnoticed (fun _ _ _ _ => rfl) hi) ?_
  rintro _ _ _ ⟨rfl, s, -, rfl⟩
  exact ⟨rfl, rfl⟩

theorem decode_wire (h : frame.Valid) :
    frameDecodePacket (Cobs.encode (rawFrame frame) ++ [0]).dropLast maxRawFrame = .ok frame := by
  have hr : (rawFrame frame).length ≤ maxRawFrame := by
    have := h.payload
    rw [rawFrame_length, maxRawFrame]
    omega
  rw [wire_dropLast, frameDecodePacket_encode h hr]

theorem wire_eq (h : frame.Valid) :
    l.wire (Cobs.encode (rawFrame frame) ++ [0]) = l.hear frame := by
  rw [Line.wire, decode_wire h, if_neg]
  simp

theorem wp_send (h : frame.Valid) (hi : l.Fair) :
    wp watching (send frame) (fun _ g' l' => g' = g ∧ l' = l.hear frame) g l := by
  rw [send, frameEncode_eq h le_rfl]
  dsimp only
  rw [wp_bind]
  exact wp_observed hi fun _ => ⟨rfl, wire_eq h⟩

-- The types that the device uses for what it reports on its own.
def events : List MessageType :=
  [.stdout, .stderr, .state, .fileChanged, .dropped]

theorem wp_event {type : MessageType} {payload : List UInt8} (ht : type ∈ events)
    (hp : payload.length ≤ maxPayloadSize) (hi : l.Fair) :
    wp watching (send ⟨type.value, 0, 0, payload⟩) (fun _ g' l' => g' = g ∧ l' = l) g l := by
  have hv : validateEnvelope type.value 0 0 = .ok ∧ typeIsEvent type.value := by
    revert type
    decide
  refine wp_mono (wp_send ⟨hv.left, hp⟩ hi) ?_
  rintro _ _ _ ⟨rfl, rfl⟩
  refine ⟨rfl, ?_⟩
  rw [Line.hear, if_pos (show (0 : UInt16) &&& flagResponse = 0 by decide), hv.right, Bool.and_true]

-- A frame that the device takes for a request.
structure Asked (frame : Frame) : Prop where
  known : typeIsKnown frame.type
  host : ¬typeIsEvent frame.type
  id : frame.requestId ≠ 0
  bounded : frame.payload.length ≤ maxPayloadSize

-- The part of the session that decides which request is being answered.
structure Same (g g' : Globals) : Prop where
  active : g'.session.active = g.session.active
  readActive : g'.session.readActive = g.session.readActive
  readRequestId : g'.session.readRequestId = g.session.readRequestId
  decoder : g'.session.decoder = g.session.decoder

theorem Same.refl (g : Globals) : Same g g :=
  ⟨rfl, rfl, rfl, rfl⟩

theorem Same.trans {g₁ g₂ g₃ : Globals} (h : Same g₁ g₂) (h' : Same g₂ g₃) : Same g₁ g₃ where
  active        := h'.active.trans h.active
  readActive    := h'.readActive.trans h.readActive
  readRequestId := h'.readRequestId.trans h.readRequestId
  decoder       := h'.decoder.trans h.decoder

theorem Same.of_session {g g' : Globals} (h : g'.session = g.session) : Same g g' := by
  constructor <;> rw [h]

-- The request was answered.
structure Settled (g : Globals) (l : Line) (rest : List Request) (g' : Globals) (l' : Line) :
    Prop where
  same : Same g g'
  line_eq : l' = { l with pending := rest }

theorem Asked.response_valid {flags : UInt16} {payload : List UInt8} (h : Asked frame)
    (hf : flags ∈ [flagResponse, flagResponse ||| flagMore, flagResponse ||| flagError])
    (hp : payload.length ≤ maxPayloadSize) :
    Frame.Valid ⟨frame.type, flags, frame.requestId, payload⟩ := by
  have hflags : flags &&& ~~~flagMask = 0 ∧ (flags &&& flagResponse = 0 ↔ False) := by
    simp only [List.mem_cons, List.not_mem_nil, or_false] at hf
    obtain rfl | rfl | rfl := hf <;> decide
  refine ⟨?_, hp⟩
  simp [validateEnvelope, h.known, h.host, h.id, hflags]

-- The last response to a request, which may be an error.
theorem wp_last {flags : UInt16} {payload : List UInt8} (ha : Asked frame)
    (hf : flags = flagResponse ∨ flags = flagResponse ||| flagError)
    (hp : payload.length ≤ maxPayloadSize) (hl : l.pending = requestOf frame :: rest)
    (hi : l.Fair) (hs : Same g₀ g) :
    wp watching (send ⟨frame.type, flags, frame.requestId, payload⟩)
      (fun _ => Settled g₀ l rest) g l := by
  have hflags : flags ∈ [flagResponse, flagResponse ||| flagMore, flagResponse ||| flagError] ∧
      flags &&& flagResponse ≠ 0 ∧ flags &&& flagMore = 0 := by
    obtain rfl | rfl := hf <;> decide
  refine wp_mono (wp_send (ha.response_valid hflags.left hp) hi) ?_
  rintro _ _ _ ⟨rfl, rfl⟩
  refine ⟨hs, ?_⟩
  rw [Line.hear, if_neg hflags.right.left, if_neg, if_pos hflags.right.right, hl,
    show requestOf ⟨frame.type, flags, frame.requestId, payload⟩ = requestOf frame from rfl,
    List.erase_cons_head]
  rw [not_not, hl]
  exact List.mem_cons_self

theorem errorPayload_length_le {code : ErrorCode} {detail : CString} :
    (errorPayload code detail).length ≤ maxPayloadSize := by
  simp [errorPayload, maxPayloadSize]
  omega

theorem wp_emitFileChanged {operation : UInt8} {name : CString} (hi : l.Fair) :
    wp watching (emitFileChanged operation name) (fun _ g' l' => g' = g ∧ l' = l) g l := by
  rw [emitFileChanged, wp_bind]
  refine wp_event (by decide) ?_ hi
  simp [maxPayloadSize, nameMax]
  omega

theorem wp_runFile {fuel : Nat} {name : CString} {timeLimitMs : UInt32} (hi : l.Fair) :
    wp watching (Program.runFile fuel name timeLimitMs) (fun _ => Unseen g l) g l := by
  rw [Program.runFile, wp_ite]
  split
  case isTrue => exact ⟨rfl, rfl⟩
  refine wp_seq (wp_userfs hi) ?_
  rintro mounted g₁ l ⟨rfl, h₁⟩
  rw [wp_ite]
  split
  case isTrue => exact ⟨rfl, h₁⟩
  refine wp_seq (wp_userfs hi) ?_
  rintro ⟨result, size⟩ g₂ l ⟨rfl, h₂⟩
  dsimp only
  rw [wp_ite]
  split
  case isTrue => exact ⟨rfl, h₂.trans h₁⟩
  rw [wp_ite]
  split
  case isTrue => exact ⟨rfl, h₂.trans h₁⟩
  refine wp_seq (wp_userfs hi) ?_
  rintro ⟨result, source⟩ g₃ l ⟨rfl, h₃⟩
  have h₃ : Unseen g l g₃ l := ⟨rfl, h₃.trans (h₂.trans h₁)⟩
  dsimp only
  rw [wp_ite]
  split
  case isTrue => exact h₃
  rw [wp_ite]
  split
  case isTrue => exact h₃
  rw [wp_bind]
  refine wp_observed hi fun started => ?_
  rw [wp_ite]
  split
  case isTrue => exact h₃
  rw [wp_bind]
  exact wp_observed hi fun status => h₃

theorem wp_runStartup {fuel : Nat} {timeLimitMs : UInt32} (hi : l.Fair) :
    wp watching (Program.runStartup fuel timeLimitMs) (fun _ => Unseen g l) g l := by
  rw [Program.runStartup]
  refine wp_seq (wp_userfs hi) ?_
  rintro mounted g₁ l ⟨rfl, h₁⟩
  rw [wp_ite]
  split
  case isTrue => exact ⟨rfl, h₁⟩
  refine wp_seq (wp_userfs hi) ?_
  rintro ⟨result, name⟩ g₂ l ⟨rfl, h₂⟩
  dsimp only
  rw [wp_ite]
  split
  case isTrue => exact ⟨rfl, h₂.trans h₁⟩
  refine wp_mono (wp_runFile hi) ?_
  rintro _ g₃ l ⟨rfl, h₃⟩
  exact ⟨rfl, h₃.trans (h₂.trans h₁)⟩

theorem wp_runProgram {fuel : Nat} {name : CString} {timeLimitMs : UInt32} (hi : l.Fair) :
    wp watching (runProgram fuel name timeLimitMs) (fun _ => Unseen g l) g l := by
  rw [runProgram]
  split
  case isTrue  => exact wp_runFile hi
  case isFalse => exact wp_runStartup hi

theorem wp_userfsList {fuel : Nat} {callback : CString → UInt32 → Task Bool} (hi : l.Fair)
    (hc : ∀ name size g, wp watching (callback name size) (fun _ => Unseen g l) g l) :
    wp watching (userfsList fuel callback) (fun _ => Unseen g l) g l := by
  rw [userfsList, wp_bind, wp_get]
  dsimp only
  rw [wp_ite]
  split
  case isTrue => exact wp_userfs hi
  rw [wp_ite]
  split
  case isTrue => exact wp_userfs hi
  refine wp_seq (wp_userfs hi) ?_
  rintro opened g₁ l ⟨rfl, h₁⟩
  cases opened
  case error e =>
    refine wp_mono (wp_userfs hi) ?_
    rintro _ g₂ l ⟨rfl, h₂⟩
    exact ⟨rfl, h₂.trans h₁⟩
  refine wp_seq (wp_loop (Q := fun _ => Unseen g l) (fun _ => Unseen g l) ?_ ?_ ⟨rfl, h₁⟩) ?_
  case refine_1 =>
    rintro _ _ _ ⟨rfl, -⟩
    exact hi
  case refine_2 =>
    rintro _ g₂ l ⟨rfl, h₂⟩
    refine wp_seq (wp_userfs hi) ?_
    rintro entry g₃ l ⟨rfl, h₃⟩
    have h₃ : Unseen g l g₃ l := ⟨rfl, h₃.trans h₂⟩
    split
    case h_1 => exact h₃
    case h_2 => exact h₃
    case h_3 info =>
      rw [wp_ite]
      split
      case isTrue => exact h₃
      refine wp_seq (hc info.name info.size g₃) ?_
      rintro more g₄ l ⟨rfl, h₄⟩
      have h₄ : Unseen g l g₄ l := ⟨rfl, h₄.trans h₃.right⟩
      cases more <;> exact h₄
  case refine_3 =>
    rintro result g₂ l ⟨rfl, h₂⟩
    refine wp_seq (wp_userfs hi) ?_
    rintro _ g₃ l ⟨rfl, h₃⟩
    refine wp_mono (wp_userfs hi) ?_
    rintro _ g₄ l ⟨rfl, h₄⟩
    exact ⟨rfl, h₄.trans (h₃.trans h₂)⟩

-- A response with more to come changes nothing.
theorem hear_more {type : UInt8} {requestId : UInt32} {payload : List UInt8}
    (ht : type = MessageType.list.value ∨ type = MessageType.read.value)
    (hl : ⟨type, requestId⟩ ∈ l.pending) :
    l.hear ⟨type, flagResponse ||| flagMore, requestId, payload⟩ = l := by
  have hm : requestOf ⟨type, flagResponse ||| flagMore, requestId, payload⟩ ∈ l.pending := hl
  rw [Line.hear, if_neg (show (flagResponse ||| flagMore) &&& flagResponse ≠ 0 by decide),
    if_neg (not_not.mpr hm), if_neg (show (flagResponse ||| flagMore) &&& flagMore ≠ 0 by decide)]
  obtain rfl | rfl := ht <;> simp

theorem wp_listItem {requestId : UInt32} {name : CString} {size : UInt32}
    (hl : ⟨MessageType.list.value, requestId⟩ ∈ l.pending) (hi : l.Fair) :
    wp watching (listItem requestId name size) (fun _ => Unseen g l) g l := by
  let item : Frame := ⟨MessageType.list.value, flagResponse ||| flagMore, requestId,
    name.length.toUInt8 :: name ++ bytes32 size⟩
  show wp watching (send item) (fun _ => Unseen g l) g l
  cases he : frameEncode item maxWireFrame
  case error status =>
    rw [send, he]
    exact ⟨rfl, rfl⟩
  case ok data =>
    refine wp_mono (wp_send (frameEncode_valid he).left hi) ?_
    rintro _ _ _ ⟨rfl, rfl⟩
    exact ⟨hear_more (.inl rfl) hl, rfl⟩

section Asked

variable (ha : Asked frame) (hl : l.pending = requestOf frame :: rest) (hi : l.Fair)
include ha hl hi

theorem wp_refuse {code : ErrorCode} {detail : CString} (hs : Same g₀ g) :
    wp watching (refuse frame code detail) (fun _ => Settled g₀ l rest) g l := by
  rw [refuse, error, wp_bind]
  exact wp_last ha (.inr rfl) errorPayload_length_le hl hi hs

theorem wp_response {payload : List UInt8} (hp : payload.length ≤ maxPayloadSize)
    (hs : Same g₀ g) :
    wp watching (response frame.type frame.requestId payload false) (fun _ => Settled g₀ l rest)
      g l :=
  wp_last ha (.inl rfl) hp hl hi hs

theorem wp_refuseResult {result : Result} (hs : Same g₀ g) :
    wp watching (refuseResult frame result) (fun _ => Settled g₀ l rest) g l :=
  wp_refuse ha hl hi hs

theorem wp_handleHello {build : Build} {fuel : Nat} :
    wp watching (handleHello build fuel frame) (fun _ => Settled g l rest) g l := by
  rw [handleHello, wp_ite]
  split
  case isTrue => exact wp_refuse ha hl hi (.refl g)
  refine wp_seq (wp_userfs hi) ?_
  rintro _ g₁ _ ⟨rfl, h₁⟩
  refine wp_seq (wp_userfs hi) ?_
  rintro filesystem g₂ _ ⟨rfl, h₂⟩
  rw [wp_bind]
  refine wp_observed hi fun runtime => ?_
  rw [wp_bind]
  refine wp_observed hi fun recovered => ?_
  rw [wp_bind]
  refine wp_response ha hl hi ?_ (.of_session (h₂.trans h₁))
  have hv := build.versionBound
  have hb := build.boardBound
  simp [maxPayloadSize]
  omega

theorem wp_handleStat : wp watching (handleStat frame) (fun _ => Settled g l rest) g l := by
  rw [handleStat]
  split
  case h_2 => exact wp_refuse ha hl hi (.refl g)
  refine wp_seq (wp_userfs hi) ?_
  rintro ⟨result, size⟩ g₁ _ ⟨rfl, h₁⟩
  dsimp only
  rw [wp_ite]
  split
  case isTrue => exact wp_refuseResult ha hl hi (.of_session h₁)
  refine wp_seq (wp_userfs hi) ?_
  rintro ⟨_, startup⟩ g₂ _ ⟨rfl, h₂⟩
  dsimp only
  rw [wp_bind]
  exact wp_response ha hl hi (by simp [maxPayloadSize]) (.of_session (h₂.trans h₁))

theorem wp_handleUploadBegin :
    wp watching (handleUploadBegin frame) (fun _ => Settled g l rest) g l := by
  rw [handleUploadBegin]
  split
  case h_2 => exact wp_refuse ha hl hi (.refl g)
  rw [wp_ite]
  split
  case isTrue => exact wp_refuse ha hl hi (.refl g)
  refine wp_seq (wp_userfs hi) ?_
  rintro ⟨result, uploadId⟩ g₁ _ ⟨rfl, h₁⟩
  dsimp only
  rw [wp_ite]
  split
  case isTrue => exact wp_refuseResult ha hl hi (.of_session h₁)
  have hs := Same.of_session h₁
  simp only [modifySession, wp_bind, wp_modify]
  exact wp_response ha hl hi (by simp [maxPayloadSize])
    ⟨hs.active, hs.readActive, hs.readRequestId, hs.decoder⟩

theorem wp_acceptChunk {uploadId next : UInt32} (hs : Same g₀ g) :
    wp watching (acceptChunk frame uploadId next) (fun _ => Settled g₀ l rest) g l := by
  rw [acceptChunk, wp_bind]
  exact wp_response ha hl hi (by simp [maxPayloadSize]) hs

theorem wp_handleUploadChunk :
    wp watching (handleUploadChunk frame) (fun _ => Settled g l rest) g l := by
  rw [handleUploadChunk, wp_ite]
  split
  case isTrue => exact wp_refuse ha hl hi (.refl g)
  rw [wp_bind, wp_get]
  dsimp only
  rw [wp_ite]
  split
  case isTrue => exact wp_refuse ha hl hi (.refl g)
  rw [wp_ite]
  split
  case isTrue => exact wp_refuse ha hl hi (.refl g)
  rw [wp_ite]
  split
  case isTrue => exact wp_acceptChunk ha hl hi (.refl g)
  refine wp_seq (wp_userfs hi) ?_
  rintro result g₁ _ ⟨rfl, h₁⟩
  rw [wp_ite]
  split
  case isTrue => exact wp_refuseResult ha hl hi (.of_session h₁)
  have hs := Same.of_session h₁
  simp only [modifySession, wp_bind, wp_modify]
  exact wp_acceptChunk ha hl hi ⟨hs.active, hs.readActive, hs.readRequestId, hs.decoder⟩

theorem wp_handleStop : wp watching (handleStop frame) (fun _ => Settled g l rest) g l := by
  rw [handleStop, wp_ite]
  split
  case isTrue => exact wp_refuse ha hl hi (.refl g)
  rw [wp_bind]
  refine wp_observed hi fun stopped => ?_
  rw [wp_ite]
  split
  case isTrue => exact wp_refuse ha hl hi (.refl g)
  rw [wp_bind]
  exact wp_response ha hl hi (Nat.zero_le _) (.refl g)

theorem wp_handleStatus : wp watching (handleStatus frame) (fun _ => Settled g l rest) g l := by
  rw [handleStatus, wp_ite]
  split
  case isTrue => exact wp_refuse ha hl hi (.refl g)
  rw [statusPayload, wp_bind, wp_bind]
  refine wp_observed hi fun runtime => ?_
  refine wp_seq (wp_userfs hi) ?_
  rintro filesystem g₁ _ ⟨rfl, h₁⟩
  rw [wp_pure, wp_bind]
  exact wp_response ha hl hi (by simp [bytes64, maxPayloadSize]) (.of_session h₁)

theorem wp_handlePing : wp watching (handlePing frame) (fun _ => Settled g l rest) g l := by
  rw [handlePing, wp_bind]
  exact wp_response ha hl hi ha.bounded (.refl g)

-- The last response may be followed by the news that a file changed.
theorem wp_response_changed {payload : List UInt8} {operation : UInt8} {name : CString}
    (hp : payload.length ≤ maxPayloadSize) (hs : Same g₀ g) :
    wp watching (do
        let _ ← response frame.type frame.requestId payload false
        emitFileChanged operation name) (fun _ => Settled g₀ l rest) g l := by
  refine wp_seq (wp_response ha hl hi hp (.refl g)) ?_
  rintro _ g₁ _ ⟨h₁, rfl⟩
  refine wp_mono (wp_emitFileChanged ⟨hi.orderly, hi.abandoned⟩) ?_
  rintro _ _ _ ⟨rfl, rfl⟩
  exact ⟨hs.trans h₁, rfl⟩

theorem wp_handleDelete : wp watching (handleDelete frame) (fun _ => Settled g l rest) g l := by
  rw [handleDelete]
  split
  case h_2 => exact wp_refuse ha hl hi (.refl g)
  refine wp_seq (wp_userfs hi) ?_
  rintro result g₁ _ ⟨rfl, h₁⟩
  rw [wp_ite]
  split
  case isTrue => exact wp_refuseResult ha hl hi (.of_session h₁)
  exact wp_response_changed ha hl hi (Nat.zero_le _) (.of_session h₁)

theorem wp_handleSetStartup :
    wp watching (handleSetStartup frame) (fun _ => Settled g l rest) g l := by
  rw [handleSetStartup]
  split
  case h_2 => exact wp_refuse ha hl hi (.refl g)
  refine wp_seq (wp_userfs hi) ?_
  rintro result g₁ _ ⟨rfl, h₁⟩
  rw [wp_ite]
  split
  case isTrue => exact wp_refuseResult ha hl hi (.of_session h₁)
  exact wp_response_changed ha hl hi (Nat.zero_le _) (.of_session h₁)

theorem wp_handleFormat {fuel : Nat} :
    wp watching (handleFormat fuel frame) (fun _ => Settled g l rest) g l := by
  rw [handleFormat, wp_bind, wp_get]
  dsimp only
  rw [wp_ite]
  split
  case isTrue => exact wp_refuse ha hl hi (.refl g)
  rw [wp_ite]
  split
  case isTrue => exact wp_refuse ha hl hi (.refl g)
  refine wp_seq (wp_userfs hi) ?_
  rintro result g₁ _ ⟨rfl, h₁⟩
  rw [wp_ite]
  split
  case isTrue => exact wp_refuseResult ha hl hi (.of_session h₁)
  exact wp_response_changed ha hl hi (Nat.zero_le _) (.of_session h₁)

theorem wp_handleUploadFinish {fuel : Nat} {abort : Bool} :
    wp watching (handleUploadFinish fuel frame abort) (fun _ => Settled g l rest) g l := by
  rw [handleUploadFinish, wp_ite]
  split
  case isTrue => exact wp_refuse ha hl hi (.refl g)
  rw [wp_bind, wp_get]
  dsimp only
  rw [wp_ite]
  split
  case isTrue => exact wp_refuse ha hl hi (.refl g)
  refine wp_seq (wp_userfs hi) ?_
  rintro result g₁ _ ⟨rfl, h₁⟩
  rw [wp_ite]
  split
  case isTrue => exact wp_refuseResult ha hl hi (.of_session h₁)
  cases abort
  case true =>
    refine wp_seq (wp_response ha hl hi (Nat.zero_le _) (.of_session h₁)) ?_
    rintro _ g₂ _ ⟨h₂, rfl⟩
    exact ⟨⟨h₂.active, h₂.readActive, h₂.readRequestId, h₂.decoder⟩, rfl⟩
  case false =>
    refine wp_seq (wp_response ha hl hi (Nat.zero_le _) (.of_session h₁)) ?_
    rintro _ g₂ _ ⟨h₂, rfl⟩
    rw [if_pos (show (!false) = true from rfl), wp_bind, wp_get]
    dsimp only
    refine wp_seq (wp_emitFileChanged ⟨hi.orderly, hi.abandoned⟩) ?_
    rintro _ _ _ ⟨rfl, rfl⟩
    exact ⟨⟨h₂.active, h₂.readActive, h₂.readRequestId, h₂.decoder⟩, rfl⟩

theorem wp_handleRun {fuel : Nat} :
    wp watching (handleRun fuel frame) (fun _ => Settled g l rest) g l := by
  rw [handleRun]
  split
  case h_2 => exact wp_refuse ha hl hi (.refl g)
  rw [wp_ite]
  split
  case isTrue => exact wp_refuse ha hl hi (.refl g)
  rw [wp_ite]
  split
  case isTrue => exact wp_refuse ha hl hi (.refl g)
  refine wp_seq (wp_runProgram hi) ?_
  rintro ⟨result, runId⟩ g₁ l ⟨rfl, h₁⟩
  dsimp only
  rw [wp_ite]
  split
  case isTrue => exact wp_refuse ha hl hi (.of_session h₁)
  rw [wp_bind]
  exact wp_response ha hl hi (by simp [maxPayloadSize]) (.of_session h₁)

theorem wp_handleList {fuel : Nat} (ht : frame.type = MessageType.list.value) :
    wp watching (handleList fuel frame) (fun _ => Settled g l rest) g l := by
  rw [handleList, wp_ite]
  split
  case isTrue => exact wp_refuse ha hl hi (.refl g)
  have hm : ⟨MessageType.list.value, frame.requestId⟩ ∈ l.pending := by
    rw [hl, requestOf, ht]
    exact List.mem_cons_self
  refine wp_seq (wp_userfsList hi fun _ _ _ => wp_listItem hm hi) ?_
  rintro result g₁ l ⟨rfl, h₁⟩
  rw [wp_ite]
  split
  case isTrue => exact wp_refuseResult ha hl hi (.of_session h₁)
  rw [wp_bind]
  exact wp_response ha hl hi (Nat.zero_le _) (.of_session h₁)

-- A READ is answered later, unless it is refused.
theorem wp_handleRead :
    wp watching (handleRead frame) (fun _ g' l' => Settled g l rest g' l' ∨
      l' = l ∧ g'.session.active = g.session.active ∧ g'.session.decoder = g.session.decoder ∧
        g'.session.readActive ∧ g'.session.readRequestId = frame.requestId) g l := by
  rw [handleRead, wp_bind, wp_get]
  dsimp only
  rw [wp_ite]
  split
  case isTrue => exact wp_mono (wp_refuse ha hl hi (.refl g)) fun _ _ _ => .inl
  split
  case h_2 => exact wp_mono (wp_refuse ha hl hi (.refl g)) fun _ _ _ => .inl
  rw [wp_ite]
  split
  case isTrue => exact wp_mono (wp_refuse ha hl hi (.refl g)) fun _ _ _ => .inl
  refine wp_seq (wp_userfs hi) ?_
  rintro ⟨result, size⟩ g₁ l ⟨rfl, h₁⟩
  dsimp only
  rw [wp_ite]
  split
  case isTrue => exact wp_mono (wp_refuseResult ha hl hi (.of_session h₁)) fun _ _ _ => .inl
  rw [wp_ite]
  split
  case isTrue => exact wp_mono (wp_refuse ha hl hi (.of_session h₁)) fun _ _ _ => .inl
  rw [modifySession, wp_modify]
  have hs := Same.of_session h₁
  exact .inr ⟨rfl, hs.active, hs.decoder, rfl, rfl⟩

end Asked

-- What is owed to the host between two requests.
def owed (s : State) : List Request :=
  if s.active && s.readActive then [⟨MessageType.read.value, s.readRequestId⟩] else []

-- What the listener has concluded fits the state of the session.
structure Tracked (g : Globals) (l : Line) : Prop where
  fair : l.Fair
  decoder : g.session.active → l.decoder = g.session.decoder
  pending : l.pending = owed g.session
  ids : ∀ q ∈ owed g.session, q.id ≠ 0

theorem owed_isRead {s : State} : ∀ q ∈ owed s, q.isRead := by
  rw [owed]
  split
  case isTrue =>
    intro q hq
    rw [List.mem_singleton.mp hq]
    rfl
  case isFalse => exact fun q hq => nomatch hq

theorem owed_length_le {s : State} : (owed s).length ≤ 1 := by
  rw [owed]
  split
  case isTrue  => exact le_rfl
  case isFalse => exact Nat.zero_le 1

theorem Same.owed_eq {g' : Globals} (hs : Same g g') : owed g'.session = owed g.session := by
  rw [owed, owed, hs.active, hs.readActive, hs.readRequestId]

theorem Tracked.of_same {g' : Globals} (h : Tracked g l) (hs : Same g g') : Tracked g' l where
  fair      := h.fair
  decoder a := (h.decoder <| hs.active ▸ a).trans hs.decoder.symm
  pending   := h.pending.trans hs.owed_eq.symm
  ids       := hs.owed_eq ▸ h.ids

theorem Tracked.idle (hi : l.Fair) (ha : g.session.active = false) (hl : l.pending = []) :
    Tracked g l := by
  have ho : owed g.session = [] := by
    rw [owed, ha]
    rfl
  exact ⟨hi, fun a => absurd a (ha ▸ by decide), hl.trans ho.symm, fun q hq => nomatch ho ▸ hq⟩

theorem Tracked.fair_reset (h : Tracked g l) : l.reset.Fair where
  orderly   := h.fair.orderly
  abandoned := by
    rw [Line.reset, h.pending]
    exact List.forall_mem_append.mpr ⟨owed_isRead, h.fair.abandoned⟩

theorem wp_sessionFinish (h : Tracked g l) :
    wp watching sessionFinish (fun _ => Tracked) g l := by
  have finished {g₁ : Globals} (ha : g₁.session.active = false) :
      wp watching (ask (.setFramedMode false)) (fun _ => Tracked) g₁ l := by
    exact wp_observed h.fair fun _ => .idle h.fair_reset ha rfl
  rw [sessionFinish, wp_bind, wp_get]
  dsimp only
  split
  case isTrue =>
    refine wp_seq (wp_userfs h.fair) ?_
    rintro _ g₁ l ⟨rfl, -⟩
    rw [modifySession, wp_bind, wp_modify]
    exact finished rfl
  case isFalse =>
    rw [modifySession, wp_bind, wp_modify]
    exact finished rfl

-- What is owed after a request that was not read as a READ.
theorem Settled.tracked {g' : Globals} {l' : Line} (hd : l.decoder = g.session.decoder)
    (ho : ∀ q ∈ owed g.session, q.id ≠ 0) (hi : l.Fair)
    (h : Settled g l (owed g.session) g' l') : Tracked g' l' := by
  have ht : Tracked g { l with pending := owed g.session } :=
    ⟨⟨hi.orderly, hi.abandoned⟩, fun _ => hd, rfl, ho⟩
  exact h.line_eq ▸ ht.of_same h.same

theorem ofValue_eq {type : UInt8} {t : MessageType} (h : MessageType.ofValue type = some t) :
    type = t.value := by
  have hf := List.find?_some (p := fun t : MessageType => t.value == type) h
  exact (beq_iff_eq.mp hf).symm

section Frame

variable (hd : l.decoder = g.session.decoder) (ho : ∀ q ∈ owed g.session, q.id ≠ 0) (hi : l.Fair)
include hd ho hi

theorem wp_handleSessionClose (ha : Asked frame)
    (hl : l.pending = requestOf frame :: owed g.session) :
    wp watching (handleSessionClose frame) (fun _ => Tracked) g l := by
  rw [handleSessionClose, wp_ite]
  split
  case isTrue =>
    exact wp_mono (wp_refuse ha hl hi (.refl g)) fun _ _ _ h => h.tracked hd ho hi
  refine wp_seq (wp_response ha hl hi (Nat.zero_le _) (.refl g)) ?_
  exact fun _ _ _ h => wp_sessionFinish (h.tracked hd ho hi)

theorem wp_request {build : Build} {fuel : Nat} (ha : Asked frame) (hact : g.session.active)
    (hl : l.pending = requestOf frame :: owed g.session) :
    wp watching (handleFrame build fuel frame) (fun _ => Tracked) g l := by
  have settled {p : Task Unit} (hp : wp watching p (fun _ => Settled g l (owed g.session)) g l) :
      wp watching p (fun _ => Tracked) g l :=
    wp_mono hp fun _ _ _ h => h.tracked hd ho hi
  rw [handleFrame, wp_ite]
  split
  case isTrue =>
    rw [wp_ite, if_pos ha.id]
    exact settled <| wp_refuse ha hl hi (.refl g)
  rw [wp_bind, wp_get]
  dsimp only
  rw [wp_ite]
  split
  case isTrue => exact settled <| wp_refuse ha hl hi (.refl g)
  case isFalse hr =>
  split
  case h_1  => exact settled <| wp_handleHello ha hl hi
  case h_2 ht => exact settled <| wp_handleList ha hl hi (ofValue_eq ht)
  case h_3  => exact settled <| wp_handleStat ha hl hi
  case h_4 ht =>
    -- No other file is being read.
    have hn : owed g.session = [] := by
      rw [ht] at hr
      rw [owed, if_neg]
      simpa [duringRead] using fun _ => hr
    refine wp_mono (wp_handleRead ha hl hi) ?_
    rintro _ g' l' (h | ⟨rfl, hg, hg', hra, hid⟩)
    · exact h.tracked hd ho hi
    · have hq : owed g'.session = [requestOf frame] := by
        rw [owed, hg, hact, hra, hid, requestOf, ofValue_eq ht]
        rfl
      refine ⟨hi, fun _ => hd.trans hg'.symm, by rw [hl, hn, hq], ?_⟩
      rw [hq]
      exact List.forall_mem_singleton.mpr ha.id
  case h_5  => exact settled <| wp_handleUploadBegin ha hl hi
  case h_6  => exact settled <| wp_handleUploadChunk ha hl hi
  case h_7  => exact settled <| wp_handleUploadFinish ha hl hi
  case h_8  => exact settled <| wp_handleUploadFinish ha hl hi
  case h_9  => exact settled <| wp_handleDelete ha hl hi
  case h_10 => exact settled <| wp_handleSetStartup ha hl hi
  case h_11 => exact settled <| wp_handleFormat ha hl hi
  case h_12 => exact settled <| wp_handleRun ha hl hi
  case h_13 => exact settled <| wp_handleStop ha hl hi
  case h_14 => exact settled <| wp_handleStatus ha hl hi
  case h_15 => exact settled <| wp_handlePing ha hl hi
  case h_16 => exact wp_handleSessionClose hd ho hi ha hl
  case h_17 => exact settled <| wp_refuse ha hl hi (.refl g)

theorem wp_handleFrame {build : Build} {fuel : Nat} (hv : frame.Valid) (hact : g.session.active)
    (hl : l.pending = if frame.requestId = 0 then owed g.session
      else requestOf frame :: owed g.session) :
    wp watching (handleFrame build fuel frame) (fun _ => Tracked) g l := by
  by_cases h₀ : frame.requestId = 0
  case pos =>
    rw [if_pos h₀] at hl
    rw [handleFrame, wp_ite, if_pos (.inr <| .inl h₀), wp_ite, if_neg (not_not.mpr h₀)]
    exact ⟨hi, fun _ => hd, hl, ho⟩
  case neg =>
    rw [if_neg h₀] at hl
    refine wp_request hd ho hi ?_ hact hl
    have he := hv.envelope
    simp only [validateEnvelope] at he
    split_ifs at he with hk _ ht hf
    all_goals first
      | exact absurd (not_or.mp hf).right (not_not.mpr h₀)
      | exact ⟨by simpa using hk, ht, h₀, hv.payload⟩

end Frame

theorem wp_more {payload : List UInt8} (ha : Asked frame) (hp : payload.length ≤ maxPayloadSize)
    (ht : frame.type = MessageType.list.value ∨ frame.type = MessageType.read.value)
    (hm : requestOf frame ∈ l.pending) (hi : l.Fair) :
    wp watching (response frame.type frame.requestId payload true)
      (fun _ g' l' => g' = g ∧ l' = l) g l := by
  refine wp_mono (wp_send (ha.response_valid (by decide) hp) hi) ?_
  rintro _ _ _ ⟨rfl, rfl⟩
  exact ⟨rfl, hear_more ht hm⟩

theorem readChunk_le {remaining : UInt32} : (readChunk remaining).toNat ≤ 512 := by
  rw [readChunk]
  split
  case isTrue     => exact le_rfl
  case isFalse hr => exact UInt32.le_iff_toNat_le.mp (UInt32.not_lt.mp hr)

theorem wp_pumpRead (h : Tracked g l) (hact : g.session.active) :
    wp watching pumpRead (fun _ => Tracked) g l := by
  rw [pumpRead, wp_bind, wp_get]
  dsimp only
  rw [wp_ite]
  split
  case isTrue => exact h
  case isFalse hr =>
  have hr : g.session.readActive := by simpa using hr
  let asked : Frame := ⟨MessageType.read.value, 0, g.session.readRequestId, []⟩
  have hq : owed g.session = [requestOf asked] := by
    rw [owed, hact, hr]
    rfl
  have hl : l.pending = [requestOf asked] := h.pending.trans hq
  have ha : Asked asked := ⟨rfl, (nomatch ·), h.ids (requestOf asked) (by simp [hq]), Nat.zero_le _⟩
  -- The last response ends the READ.
  have ended {g' : Globals} {l' : Line} (hs : Settled g l [] g' l') :
      Tracked { g' with session := { g'.session with readActive := false } } l' := by
    have hn : owed { g'.session with readActive := false } = [] := by
      rw [owed, Bool.and_false]
      rfl
    rw [hs.line_eq]
    exact ⟨⟨h.fair.orderly, h.fair.abandoned⟩, fun _ => (h.decoder hact).trans hs.same.decoder.symm,
      hn.symm, fun q hq => nomatch hn ▸ hq⟩
  refine wp_seq (wp_userfs h.fair) ?_
  rintro ⟨result, data⟩ g₁ l ⟨rfl, h₁⟩
  have hs := Same.of_session h₁
  dsimp only
  rw [wp_ite]
  split
  case isTrue =>
    refine wp_seq (wp_refuse ha hl h.fair hs) ?_
    exact fun _ _ _ => ended
  case isFalse hok =>
  have hp : (bytes32 g.session.readOffset ++ bytes32 g.session.readSize ++ data).length ≤
      maxPayloadSize := by
    rw [not_or, not_not, not_not] at hok
    have hc := hok.right ▸ readChunk_le
    simp [maxPayloadSize]
    omega
  simp only [modifySession, wp_bind, wp_modify]
  by_cases hm : g.session.readOffset + data.length.toUInt32 < g.session.readEnd
  case pos =>
    rw [decide_eq_true hm]
    refine wp_mono (wp_more ha hp (.inr rfl) (hl ▸ List.mem_cons_self) h.fair) ?_
    rintro _ g₂ l ⟨rfl, rfl⟩
    refine wp_observed h.fair fun now => ?_
    rw [wp_ite, if_neg (UInt32.not_le.mpr hm)]
    exact h.of_same ⟨hs.active, hs.readActive, hs.readRequestId, hs.decoder⟩
  case neg =>
    rw [decide_eq_false hm]
    refine wp_mono (wp_response ha hl h.fair hp
      ⟨hs.active, hs.readActive, hs.readRequestId, hs.decoder⟩) ?_
    rintro _ g₂ l' ⟨h₂, rfl⟩
    refine wp_observed ⟨h.fair.orderly, h.fair.abandoned⟩ fun now => ?_
    rw [wp_ite, if_pos (UInt32.not_lt.mp hm)]
    exact ended ⟨⟨h₂.active, h₂.readActive, h₂.readRequestId, h₂.decoder⟩, rfl⟩

theorem wp_reportLost {stream : UInt8} {runId lost : UInt32} (hi : l.Fair) :
    wp watching (reportLost stream runId lost) (fun _ g' l' => g' = g ∧ l' = l) g l := by
  rw [reportLost]
  split
  case isTrue =>
    rw [emitDropped, wp_bind]
    exact wp_event (by decide) (by simp [maxPayloadSize]) hi
  case isFalse => exact ⟨rfl, rfl⟩

theorem wp_sendDrained {capacity : Nat} {type : MessageType} {stream : UInt8} {runId : UInt32}
    {drained : Drained capacity} (ht : type ∈ events) (hc : capacity ≤ eventDataMax)
    (hi : l.Fair) :
    wp watching (sendDrained type stream runId drained) (fun _ g' l' => g' = g ∧ l' = l) g l := by
  refine wp_seq (wp_reportLost hi) ?_
  rintro _ g l ⟨rfl, rfl⟩
  rw [wp_ite]
  split
  case isTrue => exact ⟨rfl, rfl⟩
  rw [wp_bind]
  refine wp_event ht ?_ hi
  have hb := drained.bounded
  rw [eventDataMax] at hc
  split <;> simp [maxPayloadSize] <;> omega

theorem wp_pumpRuntimeState (h : Tracked g l) :
    wp watching pumpRuntimeState (fun _ => Tracked) g l := by
  rw [pumpRuntimeState, wp_bind]
  refine wp_observed h.fair fun _ => ?_
  rw [wp_bind]
  refine wp_observed h.fair fun runtime => ?_
  rw [wp_bind, wp_get]
  dsimp only
  rw [wp_ite]
  split
  case isTrue => exact h
  simp only [modifySession, wp_bind, wp_modify]
  refine wp_mono (wp_event (by decide) (by simp [bytes64, maxPayloadSize]) h.fair) ?_
  rintro _ _ l ⟨rfl, rfl⟩
  exact h.of_same ⟨rfl, rfl, rfl, rfl⟩

theorem wp_pumpRuntimeOutput (h : Tracked g l) :
    wp watching pumpRuntimeOutput (fun _ => Tracked) g l := by
  rw [pumpRuntimeOutput, wp_bind]
  refine wp_observed h.fair fun runtime => ?_
  rw [wp_bind, wp_get]
  dsimp only
  rw [wp_bind]
  refine wp_observed h.fair fun drained => ?_
  rw [modifySession, wp_bind, wp_modify]
  refine wp_mono (wp_sendDrained (by decide) le_rfl h.fair) ?_
  rintro _ _ l ⟨rfl, rfl⟩
  exact h.of_same ⟨rfl, rfl, rfl, rfl⟩

theorem wp_pumpDiagnostics (h : Tracked g l) :
    wp watching pumpDiagnostics (fun _ => Tracked) g l := by
  rw [pumpDiagnostics, wp_bind]
  refine wp_observed h.fair fun runtime => ?_
  rw [wp_bind, wp_get]
  dsimp only
  rw [wp_bind]
  refine wp_observed h.fair fun drained => ?_
  rw [modifySession, wp_bind, wp_modify]
  refine wp_mono (wp_sendDrained (by decide) le_rfl h.fair) ?_
  rintro _ _ l ⟨rfl, rfl⟩
  exact h.of_same ⟨rfl, rfl, rfl, rfl⟩

theorem wp_pump (h : Tracked g l) : wp watching pump (fun _ => Tracked) g l := by
  rw [pump, wp_bind, wp_get]
  dsimp only
  rw [wp_ite]
  split
  case isTrue => exact h
  case isFalse hact =>
  rw [wp_ite]
  split
  case isTrue => exact wp_pumpRead h (by simpa using hact)
  refine wp_seq (wp_pumpRuntimeState h) ?_
  intro changed g l h
  rw [wp_ite]
  split
  case isTrue => exact h
  exact wp_seq (wp_pumpRuntimeOutput h) fun _ _ _ h => wp_pumpDiagnostics h

theorem wp_touch (hi : l.Fair) :
    wp watching touch (fun _ g' l' => l' = l ∧ ∃ now,
      g' = { g with session := { g.session with lastReceiveUs := now } }) g l := by
  rw [touch, wp_bind]
  exact wp_observed hi fun now => ⟨rfl, now, rfl⟩

theorem wp_sessionBegin {fuel : Nat} (h : Tracked g l) :
    wp watching (sessionBegin fuel) (fun _ => Tracked) g l := by
  rw [sessionBegin, wp_bind, wp_get]
  dsimp only
  rw [wp_ite]
  split
  case isTrue => exact h
  simp only [modifySession, wp_bind, wp_modify]
  refine wp_observed h.fair fun now => ?_
  refine wp_observed h.fair fun cursor => ?_
  refine wp_observed h.fair fun _ => ?_
  refine wp_observed h.fair fun _ => ?_
  have started : Tracked { g with session := { State.zero with
      active := true, lastState := 0xFF, lastExit := 0xFF, lastReceiveUs := now,
      diagnosticCursor := cursor } } l.reset :=
    ⟨h.fair_reset, fun _ => rfl, rfl, fun q hq => nomatch hq⟩
  refine wp_mono (wp_userfs h.fair_reset) ?_
  rintro _ g' l' ⟨rfl, h'⟩
  exact started.of_same (.of_session h')

theorem feed_valid {d : StreamDecoder} {byte : UInt8} (h : (d.feed byte).1 = .frameReady frame) :
    frame.Valid := by
  rw [StreamDecoder.feed] at h
  split_ifs at h
  all_goals try cases h
  split at h
  case h_1 => cases h
  case h_2 hp =>
    cases h
    exact (frameDecodePacket_valid hp).left

theorem wp_receiveByte {build : Build} {fuel : Nat} (h : Tracked g l) :
    wp watching (receiveByte build fuel) (fun _ => Tracked) g l := by
  have hasks : l.ask = l := by
    rw [Line.ask, h.pending, decide_eq_true owed_length_le, Bool.and_true,
      List.all_eq_true.mpr owed_isRead, Bool.and_true, ← h.pending]
  rw [receiveByte, wp_bind, wp_get]
  dsimp only
  rw [wp_ite]
  split
  case isTrue => exact h
  case isFalse hact =>
  have hact : g.session.active := by simpa using hact
  rw [wp_bind]
  refine wp_observed h.fair fun byte => ?_
  cases byte
  case none =>
    show Tracked g l.ask
    rw [hasks]
    exact h
  case some byte =>
    show wp watching _ _ g (l.ask.take byte)
    rw [hasks, Line.take, h.decoder hact]
    cases hf : g.session.decoder.feed byte
    case mk result decoder =>
    dsimp only
    rw [wp_bind, wp_get]
    dsimp only
    rw [hf]
    dsimp only
    have taken {pending : List Request} (hp : pending = owed g.session) :
        Tracked { g with session := { g.session with decoder } } { l with decoder, pending } :=
      ⟨⟨h.fair.orderly, h.fair.abandoned⟩, fun _ => rfl, hp, h.ids⟩
    rw [modifySession, wp_bind, wp_modify]
    cases result
    case incomplete => exact taken h.pending
    case error      => exact taken h.pending
    case frameReady frame =>
      have hv : frame.Valid := feed_valid (congrArg Prod.fst hf)
      refine wp_seq (wp_touch ⟨h.fair.orderly, h.fair.abandoned⟩) ?_
      rintro _ _ _ ⟨rfl, now, rfl⟩
      refine wp_seq (P := fun _ => Tracked) (wp_handleFrame ?_ ?_ ?_ hv hact ?_) ?_
      · rfl
      · exact h.ids
      · exact ⟨h.fair.orderly, h.fair.abandoned⟩
      · dsimp only
        rw [h.pending]
        rfl
      intro _ g₁ l₁ h₁
      rw [wp_bind, wp_get]
      dsimp only
      split
      case isFalse => exact h₁
      refine wp_seq (wp_touch h₁.fair) ?_
      rintro _ _ l₁ ⟨rfl, now, rfl⟩
      exact h₁.of_same ⟨rfl, rfl, rfl, rfl⟩

theorem wp_sessionTick {build : Build} {fuel : Nat} (h : Tracked g l) :
    wp watching (sessionTick build fuel) (fun _ => Tracked) g l := by
  rw [sessionTick, wp_bind, wp_get]
  dsimp only
  rw [wp_ite]
  split
  case isTrue => exact h
  rw [wp_bind]
  refine wp_observed h.fair fun now => ?_
  rw [wp_bind, wp_get]
  dsimp only
  rw [wp_ite]
  split
  case isTrue => exact wp_sessionFinish h
  refine wp_seq (wp_loop (Q := fun _ => Tracked) (fun _ => Tracked) ?_ ?_ h) fun _ _ _ => wp_pump
  case refine_1 => exact fun _ _ _ h => h.fair
  case refine_2 =>
    intro _ g l h
    refine wp_mono (wp_receiveByte h) ?_
    rintro (_ | _) _ _ h <;> exact h

-- The shutdown says nothing on the line.
theorem wp_expired {deadline : App.Deadline} (hi : l.Fair) :
    wp watching (expired deadline) (fun _ => Unseen g l) g l := by
  rw [expired, wp_ite]
  split
  case isTrue => exact ⟨rfl, rfl⟩
  rw [wp_bind]
  exact wp_observed hi fun now => ⟨rfl, rfl⟩

theorem Unseen.trans {g' : Globals} {l' l'' : Line} (h : Unseen g l g' l') {g'' : Globals}
    (h' : Unseen g' l' g'' l'') : Unseen g l g'' l'' :=
  ⟨h'.left.trans h.left, h'.right.trans h.right⟩

theorem wp_shutdownRestore {fuel : Nat} (hi : l.Fair) :
    wp watching (shutdownRestore fuel) (fun _ => Unseen g l) g l := by
  rw [shutdownRestore, wp_bind, wp_get]
  dsimp only
  split
  case isTrue =>
    refine wp_seq (wp_userfs hi) ?_
    exact fun _ _ _ h => h
  case isFalse => exact ⟨rfl, rfl⟩

theorem wp_abortUpload {uploadId : UInt32} (hi : l.Fair) :
    wp watching (abortUpload uploadId) (fun _ => Unseen g l) g l := by
  rw [abortUpload, wp_ite]
  split
  case isTrue  => exact ⟨rfl, rfl⟩
  case isFalse => exact wp_userfs hi

theorem wp_unmountFiles {state : Userfs.State} (hi : l.Fair) :
    wp watching (unmountFiles state) (fun _ => Unseen g l) g l := by
  rw [unmountFiles, wp_ite]
  split
  case isTrue => exact ⟨rfl, rfl⟩
  refine wp_seq (wp_userfs hi) ?_
  intro result g₁ l₁ h
  split <;> exact h

theorem wp_shutdownPrepare {fuel : Nat} {deadline : App.Deadline} (hi : l.Fair) :
    wp watching (shutdownPrepare fuel deadline) (fun _ => Unseen g l) g l := by
  refine wp_seq (wp_expired hi) ?_
  rintro late g₁ l ⟨rfl, h₁⟩
  rw [wp_ite]
  split
  case isTrue => exact ⟨rfl, h₁⟩
  rw [wp_bind]
  refine wp_observed hi fun runtime => ?_
  rw [wp_ite]
  split
  case isTrue =>
    rw [wp_bind]
    exact wp_observed hi fun _ => ⟨rfl, h₁⟩
  rw [wp_bind]
  refine wp_observed hi fun flushed => ?_
  rw [wp_ite]
  split
  case isTrue => exact ⟨rfl, h₁⟩
  refine wp_seq (wp_userfs hi) ?_
  rintro filesystem g₂ l ⟨rfl, h₂⟩
  refine wp_seq (wp_abortUpload hi) ?_
  rintro aborted g₃ l ⟨rfl, h₃⟩
  have h₃ := h₃.trans (h₂.trans h₁)
  rw [wp_ite]
  split
  case isTrue => exact ⟨rfl, h₃⟩
  refine wp_seq (wp_unmountFiles hi) ?_
  rintro unmounted g₄ l ⟨rfl, h₄⟩
  rw [wp_ite]
  split
  case isTrue => exact ⟨rfl, h₄.trans h₃⟩
  refine wp_seq (wp_expired hi) ?_
  rintro late g₅ l ⟨rfl, h₅⟩
  have h₅ := h₅.trans (h₄.trans h₃)
  rw [wp_ite]
  split
  case isFalse => exact ⟨rfl, h₅⟩
  refine wp_seq (wp_shutdownRestore hi) ?_
  rintro _ g₆ l ⟨rfl, h₆⟩
  exact ⟨rfl, h₆.trans h₅⟩

theorem Tracked.unseen {g' : Globals} {l' : Line} (h : Tracked g l) (hu : Unseen g l g' l') :
    Tracked g' l' :=
  hu.left ▸ h.of_same (.of_session hu.right)

theorem wp_perform {build : Build} {fuel : Nat} {op : Op} (h : Tracked g l) :
    wp watching (op.perform build fuel) (fun _ => Tracked) g l := by
  cases op
  case sessionBegin    => exact wp_sessionBegin h
  case sessionTick     => exact wp_sessionTick h
  case shutdownRestore => exact wp_mono (wp_shutdownRestore h.fair) fun _ _ _ => h.unseen
  all_goals rw [Op.perform, wp_map]
  case shutdownPrepare => exact wp_mono (wp_shutdownPrepare h.fair) fun _ _ _ => h.unseen
  case files           => exact wp_mono (wp_userfs h.fair) fun _ _ _ => h.unseen

-- Whatever bytes arrive and however they are spread over the ticks, and whatever else happens to the
-- files, a frame of the device either is an event or answers a request that was received and is
-- still open, and the request with the last part of its answer is closed. When the device asks for
-- the next byte and between the operations, only a READ may be open, and only a READ can be left
-- without an answer when its session ends.
theorem requests_answered {build : Build} {fuel : Nat} {es : List (Op × Option Unit)}
    (r : Run (observing Line.step) (Op.perform build fuel) none (fun _ _ _ _ => True) .zero
      .start es g l) :
    l.orderly ∧ (∀ q ∈ l.abandoned, q.isRead) ∧ l.pending.length ≤ 1 ∧
      (∀ q ∈ l.pending, q.isRead) ∧ ∀ (op : Op) answers,
        ((op.perform build fuel).run (observing Line.step) g answers l).world.Fair := by
  have h : Tracked g l := by
    refine r.observed Line.Fair Tracked ?_ fun _ _ _ _ _ h => wp_perform h
    exact .idle ⟨rfl, fun q hq => nomatch hq⟩ rfl rfl
  refine ⟨h.fair.orderly, h.fair.abandoned, h.pending ▸ owed_length_le, h.pending ▸ owed_isRead, ?_⟩
  intro op answers
  exact observed_world (wp_perform h) fun _ _ _ h => h.fair

-- Answers with which all calls succeed, where the host sends `byte` if it sends anything.
def answer (byte : Option UInt8) :
    (c : Userfs.Call ⊕ Call) → Sum.elim Userfs.Call.Reply Call.Reply c
  | .inl c                              => Userfs.succeed c
  | .inr .timeUs                        => (0 : UInt64)
  | .inr .receive                       => byte
  | .inr (.writeWire _)                 => ()
  | .inr (.writeText _)                 => ()
  | .inr (.setFramedMode _)             => ()
  | .inr .diagnosticCursor              => (0 : UInt32)
  | .inr (.readDiagnosticsSince c n)    => (⟨c, [], 0, Nat.zero_le n⟩ : Drained n)
  | .inr .watchdogResetDetected         => false
  | .inr .runtimePoll                   => ()
  | .inr .runtimeStatus                 =>
    (⟨⟨.stopped, .none, 0, 0⟩, 0, 0, 0, 0, 0⟩ : Micropython.RuntimeStatus)
  | .inr (.readOutputSince c n)         => (⟨c, [], 0, Nat.zero_le n⟩ : Drained n)
  | .inr (.runtimeStart _ _)            => true
  | .inr .requestStop                   => true
  | .inr .settingsFlush                 => true

def Build.test : Build :=
  ⟨ascii "0.3.0", ascii "test", by decide, by decide⟩

-- The host sends a frame, and the device makes some more calls before it asks for the next byte.
def transfer (frame : Frame) (calls : Nat) :
    List ((c : Userfs.Call ⊕ Call) → Sum.elim Userfs.Call.Reply Call.Reply c) :=
  (Cobs.encode (rawFrame frame) ++ [0]).map (answer <| some ·) ++ .replicate calls (answer none)

theorem requests_answered_ping :
    ∃ es g l, Run (observing Line.step) (Op.perform .test 99) none (fun _ _ _ _ => True) .zero
        .start es g l ∧ es.length = 2 ∧ g.session.active ∧ l.orderly ∧ l.pending.length ≤ 1 :=
  have ⟨es, g, l, r, hl, ha⟩ := exists_run
    (P := fun es g _ => es.length = 2 ∧ g.session.active) [
      (.sessionBegin, .replicate 10 (answer none)),
      (.sessionTick, answer none :: transfer pingFrame 3 ++ .replicate 4 (answer none))
    ] (by decide +kernel)
  have h := requests_answered r
  ⟨es, g, l, r, hl, ha, h.left, h.right.right.left⟩

end Hmpy.Session
