import HackyLens.Hmpy.Theorems.Traffic
import HackyLens.Storage.Theorems.Invariant

-- The two records of an upload, the session's and that of the user file system, and what the
-- responses to the chunks promise.

open Prog
open Userfs (nameMax fileMax Result Ram)
open Lfs (CString ascii)
open LittleEndian

namespace Hmpy.Session

-- What is learned from the line and from the calls to littlefs. `content` is what was written to
-- the last file that was created, and `before` what it was when `request` came.
structure Ledger where
  decoder : StreamDecoder
  request : Option Hmpy.Frame
  before : List UInt8
  content : List UInt8
  honest : Bool

namespace Ledger

def start : Ledger :=
  ⟨.init, none, [], [], true⟩

def take (l : Ledger) (byte : UInt8) : Ledger :=
  let (result, decoder) := l.decoder.feed byte
  match result with
  | .frameReady frame => { l with decoder, request := some frame, before := l.content }
  | _                 => { l with decoder }

-- A chunk that is refused leaves the content alone. One that is accepted is answered with the offset
-- of the next one; unless it is empty, the content ends there, with the bytes of the chunk.
def fair (l : Ledger) (request response : Hmpy.Frame) : Bool :=
  if response.flags &&& flagError ≠ 0 then
    l.content = l.before
  else
    let offset := u32 (at' request.payload 4)
    let data := request.payload.drop 8
    let next := u32 (at' response.payload 4)
    u32 (at' response.payload 0) = u32 (at' request.payload 0) ∧
      next = offset + data.length.toUInt32 ∧
      (data = [] ∨ next.toNat = l.content.length ∧ l.content.drop offset.toNat = data)

def hear (l : Ledger) (response : Hmpy.Frame) : Ledger :=
  if response.type = MessageType.uploadChunk.value then
    { l with honest := l.honest && l.request.any fun request => l.fair request response }
  else
    l

def wire (l : Ledger) (data : List UInt8) : Ledger :=
  match frameDecodePacket data.dropLast maxRawFrame with
  | .error _  => { l with honest := false }
  | .ok frame => l.hear frame

def store (l : Ledger) (buffer : List UInt8) (written : Nat) : Ledger :=
  if written = buffer.length then { l with content := l.content ++ buffer } else l

def step (l : Ledger) : (c : Userfs.Call ⊕ Call) → Sum.elim Userfs.Call.Reply Call.Reply c → Ledger
  | .inl (.lfs (.fileOpencfg _ .wronlyCreatExcl)), .ok _       => { l with content := [] }
  | .inl (.lfs (.fileWrite _ buffer)),             .ok written => l.store buffer written
  | .inr .receive,                                 some byte   => l.take byte
  | .inr (.writeWire data),                        _           => l.wire data
  | .inr (.setFramedMode _),                       _           => { l with decoder := .init }
  | _,                                             _           => l

end Ledger

-- The calls that have no effect on the content.
def Quiet : Userfs.Call → Prop
  | .lfs (.fileOpencfg _ .wronlyCreatExcl) => False
  | .lfs (.fileWrite _ _)                  => False
  | _                                      => True

variable {α β : Type} {calm : Bool} {g : Globals} {l : Ledger} {f : Hmpy.Frame}

theorem step_quiet {c : Userfs.Call} {r : Sum.elim Userfs.Call.Reply Call.Reply (.inl c)}
    (hc : Quiet c) : l.step (.inl c) r = l := by
  cases c
  case flash => rfl
  case lfs c =>
    cases c
    case fileOpencfg path flags =>
      cases flags
      case rdonly          => rfl
      case wronlyCreatExcl => exact hc.elim
    case fileWrite => exact hc.elim
    all_goals rfl

-- The two records of the upload agree. While all is `calm`, no shutdown has taken an upload away from
-- the session.
structure Owned (calm : Bool) (g : Globals) (l : Ledger) : Prop where
  honest : calm → l.honest
  ok : g.userfs.Ok
  owner : g.userfs.upload.active →
    g.session.active ∧ g.session.uploadId = g.userfs.upload.id ∧ g.userfs.upload.id ≠ 0
  complete : calm → g.session.active → g.session.uploadId ≠ 0 → g.userfs.upload.active
  offset : g.userfs.upload.active → l.content.length = g.userfs.upload.offset.toNat ∧
    g.userfs.upload.offset ≤ g.userfs.upload.expectedSize ∧ g.userfs.upload.expectedSize ≤ fileMax
  last : g.userfs.upload.active → g.session.uploadLastLength ≠ 0 →
    g.session.uploadLastOffset.toNat + g.session.uploadLastLength.toNat = l.content.length ∧
      l.content.drop g.session.uploadLastOffset.toNat =
        g.session.uploadLastData.take g.session.uploadLastLength.toNat
  decoder : g.session.active → l.decoder = g.session.decoder

abbrev keeping (calm : Bool) : Env (Userfs.Call ⊕ Call) (Sum.elim Userfs.Call.Reply Call.Reply)
    Ledger ((c : Userfs.Call ⊕ Call) → Sum.elim Userfs.Call.Reply Call.Reply c) :=
  .observing Ledger.step fun l => calm → l.honest

namespace Owned

theorem framed {ram : Ram} (h : Owned calm g l) (hf : Userfs.Frame g.userfs ram) :
    Owned calm { g with userfs := ram } l := by
  obtain ⟨e, rfl⟩ := hf
  exact ⟨h.honest, h.ok.frame ⟨_, rfl⟩, h.owner, h.complete, h.offset, h.last, h.decoder⟩

-- Only the fields of the session that are about uploads matter.
theorem of_session {s : State} (h : Owned calm g l) (ha : s.active = g.session.active)
    (hi : s.uploadId = g.session.uploadId)
    (ho : s.uploadLastOffset = g.session.uploadLastOffset)
    (hl : s.uploadLastLength = g.session.uploadLastLength)
    (hd : s.uploadLastData = g.session.uploadLastData) (hs : s.decoder = g.session.decoder) :
    Owned calm { g with session := s } l := by
  constructor
  case honest   => exact h.honest
  case ok       => exact h.ok
  case owner    => rw [ha, hi]; exact h.owner
  case complete => rw [ha, hi]; exact h.complete
  case offset   => exact h.offset
  case last     => rw [ho, hl, hd]; exact h.last
  case decoder  => rw [ha, hs]; exact h.decoder

-- Without an upload on either side there is little to be said.
theorem of_inactive (hh : calm → l.honest) (ha : g.userfs.upload.active = false)
    (hc : calm → g.session.active → g.session.uploadId = 0)
    (hd : g.session.active → l.decoder = g.session.decoder) : Owned calm g l := by
  have no {P : Prop} (a : g.userfs.upload.active) : P := absurd a (ha ▸ by decide)
  exact ⟨hh, .of_inactive ha, no, fun c a hi => absurd (hc c a) hi, no, fun a => no a, hd⟩

theorem id_eq_zero (h : Owned calm g l) (ha : g.userfs.upload.active = false) :
    calm → g.session.active → g.session.uploadId = 0 := by
  intro c a
  by_contra hi
  exact absurd (h.complete c a hi) (ha ▸ by decide)

theorem inactive (h : Owned calm g l) (hi : g.session.uploadId = 0 ∨ g.session.active = false) :
    g.userfs.upload.active = false := by
  by_contra ha
  obtain ⟨hact, he, hn⟩ := h.owner (by simpa using ha)
  obtain hi | hi := hi
  · exact hn (he ▸ hi)
  · exact absurd hact (hi ▸ by decide)

theorem disturbed (h : Owned calm g l) : Owned false g l :=
  ⟨(nomatch ·), h.ok, h.owner, (nomatch ·), h.offset, h.last, h.decoder⟩

end Owned

theorem keeps_quiet {p : Userfs.Task α} {Q : α → Ram → Prop} {ok : Userfs.Call → Prop}
    (hq : ∀ c, ok c → Quiet c) (hp : Prog.Ensures ok p Q g.userfs) (h : Owned calm g l) :
    wp (keeping calm) (userfs p) (fun a g' l' => l' = l ∧ ∃ ram, Q a ram ∧
      g' = { g with userfs := ram }) g l :=
  hp.unnoticed (fun _ _ _ hc => step_quiet (hq _ hc)) h.honest

theorem keeps_frame {p : Userfs.Task α} {ok : Userfs.Call → Prop} (hq : ∀ c, ok c → Quiet c)
    (hp : ∀ ram, Prog.Ensures ok p (fun _ => Userfs.Frame ram) ram) :
    Keeps (keeping calm) (Owned calm) (userfs p) := by
  intro g l h
  refine wp_mono (keeps_quiet hq (hp g.userfs) h) ?_
  rintro _ _ _ ⟨rfl, ram, hf, rfl⟩
  exact h.framed hf

theorem stat_quiet {name : Option CString} {c : Userfs.Call} : Userfs.StatCalls name c → Quiet c
  | .stat _ => trivial

theorem read_quiet {name : Option CString} {c : Userfs.Call} : Userfs.ReadCalls name c → Quiet c
  | .open _ | .seek | .read | .close => trivial

theorem getStartup_quiet {c : Userfs.Call} : Userfs.GetStartupCalls c → Quiet c
  | .open | .read | .close => trivial

theorem remove_quiet {name : Option CString} {c : Userfs.Call} : Userfs.RemoveCalls name c → Quiet c
  | .startup hc              => getStartup_quiet hc
  | .deselect _ | .remove _  => trivial

theorem tidy_quiet {c : Userfs.Call} (hc : Userfs.Tidy c) : Quiet c := by
  cases c
  case flash => trivial
  case lfs c => cases c <;> trivial

theorem abort_quiet {upload : Userfs.Upload} {c : Userfs.Call} :
    Userfs.AbortCalls upload c → Quiet c
  | .close _ | .remove _ => trivial

theorem unmount_quiet {upload : Userfs.Upload} {c : Userfs.Call} :
    Userfs.UnmountCalls upload c → Quiet c
  | .abort hc => abort_quiet hc
  | .unmount  => trivial

theorem format_quiet {c : Userfs.Call} : Userfs.FormatCalls c → Quiet c
  | .tidy hc => tidy_quiet hc
  | .format  => trivial

theorem keeps_mount {fuel : Nat} :
    Keeps (keeping calm) (Owned calm) (userfs (Userfs.mount fuel)) := by
  intro g l h
  by_cases hs : g.userfs.state = .mounted
  case pos =>
    refine wp_mono (keeps_quiet (fun _ => False.elim) (Userfs.mount_mounted hs) h) ?_
    rintro _ _ _ ⟨rfl, ram, hf, rfl⟩
    exact h.framed hf
  case neg =>
    have ha := h.ok.inactive hs
    refine wp_mono (keeps_quiet (fun _ => tidy_quiet) (Userfs.mount_tidy hs) h) ?_
    rintro _ _ _ ⟨rfl, ram, ⟨hu, -⟩, rfl⟩
    refine .of_inactive h.honest ?_ (h.id_eq_zero ha) h.decoder
    obtain hu | hu := hu
    · exact hu ▸ ha
    · exact hu ▸ rfl

theorem owned_formatExplicit {fuel : Nat} (h : Owned calm g l)
    (hi : g.session.uploadId = 0 ∨ g.session.active = false) :
    wp (keeping calm) (userfs (Userfs.formatExplicit fuel)) (fun _ g' l' => Owned calm g' l' ∧
      g'.session = g.session) g l := by
  refine wp_mono (keeps_quiet ?_ h.ok.formatExplicit h) ?_
  · rintro c (hc | hc)
    · exact unmount_quiet hc
    · exact format_quiet hc
  · rintro _ _ _ ⟨rfl, ram, ha, rfl⟩
    exact ⟨.of_inactive h.honest ha (h.id_eq_zero (h.inactive hi)) h.decoder, rfl⟩

section Send

-- A frame that is not about a chunk promises nothing.
theorem wp_send_other (hh : calm → l.honest) (ht : f.type ≠ MessageType.uploadChunk.value) :
    wp (keeping calm) (send f) (fun _ g' l' => g' = g ∧ l' = l) g l := by
  cases he : frameEncode f maxWireFrame
  case error status =>
    rw [send, he]
    exact ⟨rfl, rfl⟩
  case ok data =>
    obtain ⟨hv, rfl⟩ := frameEncode_valid he
    rw [send, he]
    dsimp only
    rw [wp_bind]
    refine wp_observed hh fun _ => ⟨rfl, ?_⟩
    show l.wire _ = l
    rw [Ledger.wire, decode_wire hv]
    exact if_neg ht

theorem keeps_send (ht : f.type ≠ MessageType.uploadChunk.value) :
    Keeps (keeping calm) (Owned calm) (send f) := by
  intro g l h
  refine wp_mono (wp_send_other h.honest ht) ?_
  rintro _ _ _ ⟨rfl, rfl⟩
  exact h

theorem keeps_ask {c : Call} (hc : ∀ l r, Ledger.step l (.inr c) r = l) :
    Keeps (keeping calm) (Owned calm) (ask c) :=
  .observed (fun _ _ h => h.honest) fun _ _ _ h => (hc _ _).symm ▸ h

variable (ht : f.type ≠ MessageType.uploadChunk.value)
include ht

theorem keeps_response {payload : List UInt8} {more : Bool} :
    Keeps (keeping calm) (Owned calm) (response f.type f.requestId payload more) :=
  keeps_send ht

theorem keeps_refuse {code : ErrorCode} {detail : CString} :
    Keeps (keeping calm) (Owned calm) (refuse f code detail) :=
  .bind (keeps_send ht) fun _ => .pure

theorem keeps_refuseResult {result : Result} :
    Keeps (keeping calm) (Owned calm) (refuseResult f result) :=
  keeps_refuse ht

end Send

theorem keeps_emitFileChanged {operation : UInt8} {name : CString} :
    Keeps (keeping calm) (Owned calm) (emitFileChanged operation name) :=
  .bind (keeps_send (show MessageType.fileChanged.value ≠ _ by decide)) fun _ => .pure

theorem keeps_modify {m : State → State} (ha : ∀ s, (m s).active = s.active)
    (hi : ∀ s, (m s).uploadId = s.uploadId)
    (ho : ∀ s, (m s).uploadLastOffset = s.uploadLastOffset)
    (hl : ∀ s, (m s).uploadLastLength = s.uploadLastLength)
    (hd : ∀ s, (m s).uploadLastData = s.uploadLastData) (hs : ∀ s, (m s).decoder = s.decoder) :
    Keeps (keeping calm) (Owned calm) (modifySession m) :=
  .modify fun _ _ h => h.of_session (ha _) (hi _) (ho _) (hl _) (hd _) (hs _)

theorem keeps_getStatus : Keeps (keeping calm) (Owned calm) (userfs Userfs.getStatus) :=
  keeps_frame (fun _ => tidy_quiet) fun ram =>
    Userfs.getStatus_tidy.mono fun _ _ h => h ▸ Userfs.Frame.refl ram

theorem keeps_lfs {c : Lfs.Call} (hc : Quiet (.lfs c)) :
    Keeps (keeping calm) (Owned calm) (userfs (Userfs.lfs c)) :=
  keeps_frame (fun c' (h : c' = .lfs c) => h.symm ▸ hc) fun ram =>
    Prog.Ensures.call rfl fun _ => Userfs.Frame.refl ram

theorem keeps_remember {result : Result} :
    Keeps (keeping calm) (Owned calm) (userfs (Userfs.remember result)) :=
  keeps_frame (fun _ h => False.elim h) fun _ => ⟨_, rfl⟩

theorem keeps_stat {name : Option CString} :
    Keeps (keeping calm) (Owned calm) (userfs (Userfs.stat name true)) :=
  keeps_frame (fun _ => stat_quiet) fun _ => Userfs.stat_frame

theorem keeps_getStartup {capacity : Nat} :
    Keeps (keeping calm) (Owned calm) (userfs (Userfs.getStartup true capacity)) :=
  keeps_frame (fun _ => getStartup_quiet) fun _ => Userfs.getStartup_frame

theorem keeps_read {name : Option CString} {offset : UInt32} {capacity : Nat} :
    Keeps (keeping calm) (Owned calm) (userfs (Userfs.read name offset true capacity true)) :=
  keeps_frame (fun _ => read_quiet) fun _ => Userfs.read_frame

theorem keeps_runFile {fuel : Nat} {name : CString} {timeLimitMs : UInt32} :
    Keeps (keeping calm) (Owned calm) (Program.runFile fuel name timeLimitMs) := by
  refine .ite (fun _ => .pure) fun _ => .bind keeps_mount fun mounted => ?_
  refine .ite (fun _ => .pure) fun _ => .bind keeps_stat ?_
  rintro ⟨result, size⟩
  refine .ite (fun _ => .pure) fun _ => .ite (fun _ => .pure) fun _ => .bind keeps_read ?_
  rintro ⟨result, source⟩
  refine .ite (fun _ => .pure) fun _ => .ite (fun _ => .pure) fun _ => ?_
  refine .bind (keeps_ask fun _ _ => rfl) fun started => .ite (fun _ => .pure) fun _ => ?_
  exact .bind (keeps_ask fun _ _ => rfl) fun _ => .pure

theorem keeps_runProgram {fuel : Nat} {name : CString} {timeLimitMs : UInt32} :
    Keeps (keeping calm) (Owned calm) (runProgram fuel name timeLimitMs) := by
  refine .ite (fun _ => keeps_runFile) fun _ => .bind keeps_mount fun mounted => ?_
  refine .ite (fun _ => .pure) fun _ => .bind keeps_getStartup ?_
  rintro ⟨result, name⟩
  exact .ite (fun _ => .pure) fun _ => keeps_runFile

theorem keeps_userfsList {fuel : Nat} {callback : CString → UInt32 → Task Bool}
    (hc : ∀ name size, Keeps (keeping calm) (Owned calm) (callback name size)) :
    Keeps (keeping calm) (Owned calm) (userfsList fuel callback) := by
  refine .get fun g => .ite (fun _ => keeps_remember) fun _ =>
    .ite (fun _ => keeps_remember) fun _ => ?_
  refine .bind (keeps_lfs trivial) fun opened => ?_
  cases opened
  case error => exact keeps_remember
  case ok    =>
    refine .bind (.loop (fun _ _ h => h.honest) fun _ => ?_) fun result => ?_
    · refine .bind (keeps_lfs trivial) fun entry => ?_
      split
      case h_1 => exact .pure
      case h_2 => exact .pure
      case h_3 => exact .ite (fun _ => .pure) fun _ => .bind (hc _ _) fun _ => .pure
    · exact .bind (keeps_lfs trivial) fun _ => keeps_remember

theorem step_files {c : Userfs.Call} {r : Sum.elim Userfs.Call.Reply Call.Reply (.inl c)} :
    ∃ content, l.step (.inl c) r = { l with content } := by
  by_cases hc : Quiet c
  case pos => exact ⟨l.content, step_quiet hc⟩
  case neg =>
    cases c
    case flash => exact absurd trivial hc
    case lfs c =>
      cases c
      case fileOpencfg path flags =>
        cases flags
        case rdonly          => exact absurd trivial hc
        case wronlyCreatExcl => cases r <;> exact ⟨_, rfl⟩
      case fileWrite file buffer =>
        cases r
        case error      => exact ⟨_, rfl⟩
        case ok written =>
          show ∃ content, l.store buffer written = _
          rw [Ledger.store]
          split <;> exact ⟨_, rfl⟩
      all_goals exact absurd trivial hc

-- Without an upload, other files may be written.
theorem keeps_setStartup {name : Option CString} :
    Keeps (keeping calm) (Owned calm) (userfs (Userfs.setStartup name)) := by
  intro g l h
  by_cases ha : g.userfs.upload.active
  case pos =>
    have busy : Prog.Ensures (fun _ => False) (Userfs.setStartup name)
        (fun _ => Userfs.Frame g.userfs) g.userfs := by
      simp only [Prog.Ensures, Userfs.setStartup, Userfs.remember, wp_bind, wp_get]
      rw [if_neg (not_not.mpr (h.ok.mounted ha)), if_pos ha]
      exact ⟨_, rfl⟩
    refine wp_mono (keeps_quiet (fun _ => False.elim) busy h) ?_
    rintro _ _ _ ⟨rfl, ram, hf, rfl⟩
    exact h.framed hf
  case neg =>
    have ha : g.userfs.upload.active = false := by simpa using ha
    refine wp_focus.mpr (wp_mono (Userfs.setStartup_frame.keeps
      (fun l' => ∃ content, l' = { l with content }) ?_ ?_ ⟨l.content, rfl⟩) ?_)
    · rintro c _ - ⟨content, rfl⟩
      refine ⟨h.honest, fun answer _ => ?_⟩
      obtain ⟨content', he⟩ := step_files (l := { l with content }) (r := answer (.inl c))
      exact ⟨content', he⟩
    · rintro _ ⟨content, rfl⟩
      exact h.honest
    · rintro _ ram _ ⟨hf, content, rfl⟩
      exact .of_inactive h.honest (hf.upload_eq ▸ ha) (h.id_eq_zero ha) h.decoder

theorem nextId_ne_zero {ram : Ram} : ram.nextId ≠ 0 := by
  rw [Ram.nextId]
  split
  case isTrue     => decide
  case isFalse hn => exact hn

theorem owned_uploadBegin {name : Option CString} {size crc : UInt32} {ram : Ram}
    (hh : calm → l.honest) :
    wp (keeping calm).left (Userfs.uploadBegin name size crc true) (fun r _ l' =>
      (r.fst = .ok → l' = { l with content := [] }) ∧ (r.fst ≠ .ok → l' = l)) ram l := by
  simp only [Userfs.uploadBegin, Userfs.remember, Userfs.clearUpload, Userfs.fileOpen, Userfs.lfs,
    wp_bind, wp_get, wp_ite, wp_pure, wp_modify]
  split
  · exact ⟨(by intros; contradiction), fun _ => rfl⟩
  split
  · exact ⟨(by intros; contradiction), fun _ => rfl⟩
  split
  · exact ⟨(by intros; contradiction), fun _ => rfl⟩
  refine wp_observed_left hh fun _ => ?_
  refine wp_observed_left hh fun r => ?_
  cases r
  case error e => exact ⟨fun h => absurd h (Userfs.fromError_ne_ok e), fun _ => rfl⟩
  case ok file => exact ⟨fun _ => rfl, fun h => absurd rfl h⟩

section Neutral

variable (ht : f.type ≠ MessageType.uploadChunk.value)
include ht

theorem keeps_handleHello {build : Build} {fuel : Nat} :
    Keeps (keeping calm) (Owned calm) (handleHello build fuel f) := by
  refine .ite (fun _ => keeps_refuse ht) fun _ => .bind keeps_mount fun mounted => ?_
  refine .bind keeps_getStatus fun filesystem => .bind (keeps_ask fun _ _ => rfl) fun runtime => ?_
  refine .bind (keeps_ask fun _ _ => rfl) fun recovered => ?_
  exact .bind (keeps_response ht) fun _ => .pure

theorem keeps_handleStat : Keeps (keeping calm) (Owned calm) (handleStat f) := by
  rw [handleStat]
  split
  case h_2 => exact keeps_refuse ht
  refine .bind keeps_stat ?_
  rintro ⟨result, size⟩
  refine .ite (fun _ => keeps_refuseResult ht) fun _ => .bind keeps_getStartup ?_
  rintro ⟨_, startup⟩
  exact .bind (keeps_response ht) fun _ => .pure

theorem keeps_handleList {fuel : Nat} :
    Keeps (keeping calm) (Owned calm) (handleList fuel f) := by
  refine .ite (fun _ => keeps_refuse ht) fun _ =>
    .bind (keeps_userfsList fun _ _ => ?_) fun result => ?_
  · exact keeps_send (show MessageType.list.value ≠ _ by decide)
  · exact .ite (fun _ => keeps_refuseResult ht) fun _ => .bind (keeps_response ht) fun _ => .pure

theorem keeps_handleRead : Keeps (keeping calm) (Owned calm) (handleRead f) := by
  refine .get fun g => .ite (fun _ => keeps_refuse ht) fun _ => ?_
  split
  case h_2 => exact keeps_refuse ht
  refine .ite (fun _ => keeps_refuse ht) fun _ => .bind keeps_stat ?_
  rintro ⟨result, size⟩
  refine .ite (fun _ => keeps_refuseResult ht) fun _ => .ite (fun _ => keeps_refuse ht) fun _ => ?_
  apply keeps_modify <;> exact fun _ => rfl

theorem keeps_handleStop : Keeps (keeping calm) (Owned calm) (handleStop f) := by
  refine .ite (fun _ => keeps_refuse ht) fun _ => .bind (keeps_ask fun _ _ => rfl) fun stopped => ?_
  exact .ite (fun _ => keeps_refuse ht) fun _ => .bind (keeps_response ht) fun _ => .pure

theorem keeps_handleStatus : Keeps (keeping calm) (Owned calm) (handleStatus f) := by
  refine .ite (fun _ => keeps_refuse ht) fun _ => .bind ?_ fun payload => ?_
  · exact .bind (keeps_ask fun _ _ => rfl) fun runtime => .bind keeps_getStatus fun _ => .pure
  · exact .bind (keeps_response ht) fun _ => .pure

theorem keeps_handlePing : Keeps (keeping calm) (Owned calm) (handlePing f) :=
  .bind (keeps_response ht) fun _ => .pure

theorem keeps_handleRun {fuel : Nat} : Keeps (keeping calm) (Owned calm) (handleRun fuel f) := by
  rw [handleRun]
  split
  case h_2 => exact keeps_refuse ht
  refine .ite (fun _ => keeps_refuse ht) fun _ => .ite (fun _ => keeps_refuse ht) fun _ => ?_
  refine .bind keeps_runProgram ?_
  rintro ⟨result, runId⟩
  exact .ite (fun _ => keeps_refuse ht) fun _ => .bind (keeps_response ht) fun _ => .pure

theorem keeps_handleDelete : Keeps (keeping calm) (Owned calm) (handleDelete f) := by
  rw [handleDelete]
  split
  case h_2 => exact keeps_refuse ht
  refine .bind (keeps_frame (fun _ => remove_quiet) fun _ => Userfs.remove_frame) fun result => ?_
  refine .ite (fun _ => keeps_refuseResult ht) fun _ => ?_
  exact .bind (keeps_response ht) fun _ => keeps_emitFileChanged

theorem keeps_handleFormat {fuel : Nat} :
    Keeps (keeping calm) (Owned calm) (handleFormat fuel f) := by
  refine .inspect fun g l h => ?_
  rw [wp_ite]
  split
  case isTrue => exact keeps_refuse ht g l h
  case isFalse hi =>
  rw [wp_ite]
  split
  case isTrue => exact keeps_refuse ht g l h
  refine wp_seq (owned_formatExplicit h (.inl (not_not.mp hi))) ?_
  rintro result g₁ l₁ ⟨h₁, -⟩
  refine Keeps.ite (fun _ => keeps_refuseResult ht) (fun _ => ?_) g₁ l₁ h₁
  exact .bind (keeps_response ht) fun _ => keeps_emitFileChanged

theorem keeps_handleSetStartup : Keeps (keeping calm) (Owned calm) (handleSetStartup f) := by
  rw [handleSetStartup]
  split
  case h_2 => exact keeps_refuse ht
  refine .bind keeps_setStartup fun result => .ite (fun _ => keeps_refuseResult ht) fun _ => ?_
  exact .bind (keeps_response ht) fun _ => keeps_emitFileChanged

theorem owned_handleUploadBegin (h : Owned calm g l) (hact : g.session.active) :
    wp (keeping calm) (handleUploadBegin f) (fun _ => Owned calm) g l := by
  rw [handleUploadBegin]
  split
  case h_2 => exact keeps_refuse ht g l h
  rw [wp_ite]
  split
  case isTrue => exact keeps_refuse ht g l h
  refine wp_seq (wp_focused (Userfs.uploadBegin_spec.and_wp (owned_uploadBegin h.honest))) ?_
  rintro ⟨result, uploadId⟩ _ l₁ ⟨ram, ⟨⟨hok, hno⟩, hl, hl'⟩, rfl⟩
  dsimp only at hok hno hl hl' ⊢
  rw [wp_ite]
  split
  case isTrue hr =>
    refine keeps_refuseResult ht _ _ ?_
    rw [hl' hr]
    by_cases ha : g.userfs.upload.active
    case pos => exact h.framed ((hno hr).frame ha)
    case neg =>
      have ha : g.userfs.upload.active = false := by simpa using ha
      refine .of_inactive h.honest ?_ (h.id_eq_zero ha) h.decoder
      obtain hu | hu := (hno hr).upload
      · exact hu ▸ ha
      · exact hu ▸ rfl
  case isFalse hr =>
    obtain ⟨ha, rfl, hb⟩ := hok (not_not.mp hr)
    obtain ⟨file, hu⟩ := hb.upload
    rw [modifySession, wp_bind, wp_modify]
    refine Keeps.bind (keeps_response ht) (fun _ => .pure) _ _ ?_
    rw [hl (not_not.mp hr)]
    constructor
    case honest   => exact h.honest
    case ok       => exact .begun hb
    case owner    => exact fun _ => ⟨hact, by rw [hu]; rfl, by rw [hu]; exact nextId_ne_zero⟩
    case complete => exact fun _ _ _ => by rw [hu]
    case offset   =>
      rw [hu]
      exact fun _ => ⟨rfl, Nat.zero_le _, hb.size_le⟩
    case last     => exact fun _ hn => absurd rfl hn
    case decoder  => exact h.decoder

end Neutral

-- The frame is the request that is being handled.
structure Fresh (f : Hmpy.Frame) (l : Ledger) : Prop where
  request : l.request = some f
  before : l.before = l.content

theorem Owned.hears {honest : Bool} (h : Owned calm g l) (hh : calm → honest) :
    Owned calm g { l with honest } :=
  ⟨hh, h.ok, h.owner, h.complete, h.offset, h.last, h.decoder⟩

-- What is sent about the request that is being handled.
theorem owned_answer {response : Hmpy.Frame} (h : Owned calm g l) (hr : l.request = some f)
    (hf : response.type = MessageType.uploadChunk.value → calm → l.fair f response) :
    wp (keeping calm) (send response) (fun _ => Owned calm) g l := by
  cases he : frameEncode response maxWireFrame
  case error status =>
    rw [send, he]
    exact h
  case ok data =>
    obtain ⟨hv, rfl⟩ := frameEncode_valid he
    rw [send, he]
    dsimp only
    rw [wp_bind]
    refine wp_observed h.honest fun _ => ?_
    show Owned calm g (l.wire _)
    rw [Ledger.wire, decode_wire hv]
    dsimp only
    rw [Ledger.hear]
    split
    case isTrue ht =>
      refine h.hears fun c => ?_
      rw [h.honest c, hr, Option.any_some, hf ht c]
      rfl
    case isFalse => exact h

theorem owned_refuse {code : ErrorCode} {detail : CString} (h : Owned calm g l) (hf : Fresh f l) :
    wp (keeping calm) (refuse f code detail) (fun _ => Owned calm) g l := by
  rw [refuse, error, wp_bind]
  refine owned_answer h hf.request fun _ _ => ?_
  rw [Ledger.fair, if_pos (show (flagResponse ||| flagError) &&& flagError ≠ 0 by decide)]
  exact decide_eq_true hf.before.symm

theorem owned_acceptChunk {uploadId next : UInt32} (h : Owned calm g l) (hr : l.request = some f)
    (hi : uploadId = u32 (at' f.payload 0))
    (hn : next = u32 (at' f.payload 4) + (f.payload.drop 8).length.toUInt32)
    (hf : calm → f.payload.drop 8 = [] ∨ next.toNat = l.content.length ∧
      l.content.drop (u32 (at' f.payload 4)).toNat = f.payload.drop 8) :
    wp (keeping calm) (acceptChunk f uploadId next) (fun _ => Owned calm) g l := by
  rw [acceptChunk, wp_bind]
  show wp _ (send ⟨f.type, flagResponse, f.requestId, bytes32 uploadId ++ bytes32 next⟩) _ _ _
  refine owned_answer h hr fun _ c => ?_
  have h₀ := u32_bytes32 [] uploadId (bytes32 next)
  have h₄ := u32_bytes32 (bytes32 uploadId) next []
  rw [List.append_nil, bytes32_length] at h₄
  rw [List.nil_append, List.length_nil] at h₀
  rw [Ledger.fair, if_neg (show ¬(flagResponse &&& flagError ≠ 0) by decide)]
  dsimp only
  rw [h₀, h₄]
  exact decide_eq_true ⟨hi, hn, hf c⟩

theorem owned_uploadWrite {id offset : UInt32} {data : List UInt8} {ram : Ram}
    (hh : calm → l.honest) :
    wp (keeping calm).left (Userfs.uploadWrite id offset (.bytes data)) (fun r _ l' =>
      (r = .ok → l' = { l with content := l.content ++ data }) ∧ (r ≠ .ok → l' = l)) ram l := by
  simp only [Userfs.uploadWrite, Userfs.remember, Userfs.lfs, wp_bind, wp_get, wp_ite, wp_pure,
    wp_modify]
  split
  · exact ⟨(by intros; contradiction), fun _ => rfl⟩
  split
  · exact ⟨(by intros; contradiction), fun _ => rfl⟩
  split
  · exact ⟨(by intros; contradiction), fun _ => rfl⟩
  refine wp_observed_left hh fun r => ?_
  obtain e | written := r
  · cases e <;> exact ⟨(by intros; contradiction), fun _ => rfl⟩
  · show wp _ _ _ _ (l.store data written)
    rw [Ledger.store]
    dsimp only
    rw [wp_ite]
    split
    case isTrue hw =>
      rw [if_neg (show ¬written = data.length from hw)]
      exact ⟨(by intros; contradiction), fun _ => rfl⟩
    case isFalse hw =>
      rw [if_pos (show written = data.length from not_not.mp hw)]
      exact ⟨fun _ => rfl, fun h => absurd rfl h⟩

theorem length_toNat {n : Nat} (h : n < 2 ^ 32) : n.toUInt32.toNat = n :=
  Nat.mod_eq_of_lt h

theorem offset_add {offset : UInt32} {n : Nat} (h : offset.toNat + n < 2 ^ 32) :
    (offset + n.toUInt32).toNat = offset.toNat + n := by
  rw [UInt32.toNat_add, length_toNat (by omega), Nat.mod_eq_of_lt h]

theorem owned_handleUploadChunk (h : Owned calm g l) (hact : g.session.active) (hf : Fresh f l) :
    wp (keeping calm) (handleUploadChunk f) (fun _ => Owned calm) g l := by
  rw [handleUploadChunk, wp_ite]
  split
  case isTrue => exact owned_refuse h hf
  rw [wp_bind, wp_get]
  dsimp only
  rw [wp_ite]
  split
  case isTrue => exact owned_refuse h hf
  case isFalse hi =>
  obtain ⟨hi, hn⟩ := not_or.mp hi
  rw [wp_ite]
  split
  case isTrue => exact owned_refuse h hf
  case isFalse hlen =>
  rw [wp_ite]
  split
  case isTrue hd =>
    -- The chunk was accepted before.
    obtain ⟨hl, ho, hd⟩ := hd
    refine owned_acceptChunk h hf.request rfl rfl fun c => ?_
    by_cases he : f.payload.drop 8 = []
    case pos => exact .inl he
    case neg =>
      have ha := h.complete c hact (not_not.mp hi ▸ hn)
      have hlt : (f.payload.drop 8).length < 2 ^ 32 := by
        rw [uploadDataMax, maxPayloadSize] at hlen
        omega
      have hl : g.session.uploadLastLength.toNat = (f.payload.drop 8).length := by
        rw [hl, length_toNat hlt]
      have hne : g.session.uploadLastLength ≠ 0 := by
        rintro h₀
        rw [h₀] at hl
        exact he (List.length_eq_zero_iff.mp hl.symm)
      obtain ⟨hs, ht⟩ := h.last ha hne
      rw [ho, hl] at hs ht
      have hc := (h.offset ha).left
      have hu := g.userfs.upload.offset.toNat_lt
      exact .inr ⟨by rw [offset_add (by omega), hs], ht.trans hd⟩
  case isFalse =>
  refine wp_seq (wp_focused (Userfs.uploadWrite_spec.and_wp (owned_uploadWrite h.honest))) ?_
  rintro result _ l₁ ⟨ram, ⟨⟨hok, hno⟩, hl, hl'⟩, rfl⟩
  rw [wp_ite]
  split
  case isTrue hr =>
    rw [hl' hr]
    exact owned_refuse (h.framed (hno hr)) hf
  case isFalse hr =>
    obtain ⟨hu, e, hram⟩ := hok (not_not.mp hr)
    rw [hl (not_not.mp hr), modifySession, wp_bind, wp_modify]
    obtain ⟨ha, hid, hoff, -, -, hroom⟩ := hu
    obtain ⟨hc, hle, hmax⟩ := h.offset ha
    subst hram
    have hroom : (f.payload.drop 8).length ≤
        g.userfs.upload.expectedSize.toNat - g.userfs.upload.offset.toNat := by
      rw [← UInt32.toNat_sub_of_le _ _ hle]
      exact hroom
    have hle : g.userfs.upload.offset.toNat ≤ g.userfs.upload.expectedSize.toNat := hle
    have hmax : g.userfs.upload.expectedSize.toNat ≤ 262144 := hmax
    have hnext : (g.userfs.upload.offset + (f.payload.drop 8).length.toUInt32).toNat =
        g.userfs.upload.offset.toNat + (f.payload.drop 8).length := offset_add (by omega)
    have hlen : (l.content ++ f.payload.drop 8).length =
        g.userfs.upload.offset.toNat + (f.payload.drop 8).length := by
      rw [List.length_append, hc]
    have hdrop : (l.content ++ f.payload.drop 8).drop g.userfs.upload.offset.toNat =
        f.payload.drop 8 := by
      rw [← hc, List.drop_left]
    refine owned_acceptChunk ?_ hf.request rfl rfl fun _ => .inr ⟨?_, ?_⟩
    case refine_2 => rw [hoff, hnext, hlen]
    case refine_3 => rw [hoff, hdrop]
    have hn : (f.payload.drop 8).length.toUInt32.toNat = (f.payload.drop 8).length :=
      length_toNat (by omega)
    constructor
    case honest   => exact h.honest
    case ok       => exact ⟨h.ok.mounted, h.ok.temporary, h.ok.target⟩
    case owner    => exact h.owner
    case complete => exact h.complete
    case offset   =>
      refine fun _ => ⟨hlen.trans hnext.symm, UInt32.le_iff_toNat_le.mpr ?_, hmax⟩
      show (g.userfs.upload.offset + (f.payload.drop 8).length.toUInt32).toNat ≤
        g.userfs.upload.expectedSize.toNat
      rw [hnext]
      omega
    case last     =>
      intro _ _
      dsimp only
      rw [hoff, hn, hlen, hdrop, List.take_left]
      exact ⟨rfl, rfl⟩
    case decoder  => exact h.decoder

theorem verifyUpload_quiet {fuel : Nat} {ram : Ram} :
    Prog.Ensures Quiet (Userfs.verifyUpload fuel) (fun _ => (· = ram)) ram := by
  simp only [Prog.Ensures, Userfs.verifyUpload, Userfs.fileOpen, Userfs.lfs, wp_bind, wp_get]
  refine Prog.Ensures.call trivial fun r => ?_
  split
  case h_1 => rfl
  refine Prog.Ensures.seq (P := fun _ => (· = ram)) (Prog.Ensures.loop_eq fun x => ?_) ?_
  case refine_1 =>
    rw [Prog.Ensures, wp_bind]
    refine Prog.Ensures.call trivial fun r => ?_
    split
    case h_1 => rfl
    case h_2 => split <;> rfl
  case refine_2 =>
    rintro ⟨count, crc, total⟩ _ rfl
    rw [Prog.Ensures, wp_bind]
    refine Prog.Ensures.call trivial fun _ => ?_
    repeat' first
      | rfl
      | split

theorem commit_quiet {fuel : Nat} {id : UInt32} {ram : Ram} :
    Prog.Ensures Quiet (Userfs.uploadCommit fuel id) (fun _ _ => True) ram := by
  have close_quiet {file : Lfs.File} {c : Userfs.Call} : Userfs.CloseCalls file c → Quiet c
    | .sync | .close => trivial
  simp only [Prog.Ensures, Userfs.uploadCommit, Userfs.remember, Userfs.clearUpload, Userfs.lfs,
    wp_bind, wp_get, wp_ite, wp_pure, wp_modify]
  split
  · trivial
  split
  · trivial
  refine wp_mono (Userfs.syncClose_eq.weaken fun _ => close_quiet) ?_
  rintro result ram _ rfl
  split
  · trivial
  refine wp_mono verifyUpload_quiet ?_
  rintro verify _ _ rfl
  split
  · trivial
  refine Prog.Ensures.call trivial fun r => ?_
  split <;> trivial

theorem Owned.uncommitted {ram : Ram} (h : Owned calm g l) (hu : Userfs.Uncommitted g.userfs ram) :
    Owned calm { g with userfs := ram } l := by
  obtain hf | ⟨ha, ho, e, rfl⟩ := hu
  · exact h.framed hf
  · exact ⟨h.honest, ⟨h.ok.mounted, h.ok.temporary, h.ok.target⟩, h.owner, h.complete, h.offset,
      h.last, h.decoder⟩

theorem owned_uploadFinish {fuel : Nat} {id : UInt32} {abort : Bool} (h : Owned calm g l) :
    wp (keeping calm)
      (userfs <| if abort then Userfs.uploadAbort id else Userfs.uploadCommit fuel id)
      (fun r g' l' => l' = l ∧ ∃ ram, g' = { g with userfs := ram } ∧
        (r = .ok → ram.upload = .zero) ∧ (r ≠ .ok → Owned calm g' l)) g l := by
  cases abort
  case true =>
    refine wp_mono (keeps_quiet (fun _ => abort_quiet) Userfs.uploadAbort_spec h) ?_
    rintro result _ _ ⟨rfl, ram, ⟨hok, hno⟩, rfl⟩
    exact ⟨rfl, ram, rfl, fun hr => (hok hr).upload, fun hr => h.framed (hno hr).right⟩
  case false =>
    refine wp_mono (keeps_quiet (fun _ hc => hc)
      (Userfs.uploadCommit_spec.and_wp commit_quiet) h) ?_
    rintro result _ _ ⟨rfl, ram, ⟨⟨hok, hno⟩, -⟩, rfl⟩
    exact ⟨rfl, ram, rfl, fun hr => (hok hr).left.upload, fun hr => h.uncommitted (hno hr)⟩

theorem owned_handleUploadFinish {fuel : Nat} {abort : Bool} (h : Owned calm g l)
    (ht : f.type ≠ MessageType.uploadChunk.value) :
    wp (keeping calm) (handleUploadFinish fuel f abort) (fun _ => Owned calm) g l := by
  rw [handleUploadFinish, wp_ite]
  split
  case isTrue => exact keeps_refuse ht g l h
  rw [wp_bind, wp_get]
  dsimp only
  rw [wp_ite]
  split
  case isTrue => exact keeps_refuse ht g l h
  refine wp_seq (owned_uploadFinish h) ?_
  rintro result _ l ⟨rfl, ram, rfl, hok, hno⟩
  rw [wp_ite]
  split
  case isTrue hr => exact keeps_refuseResult ht _ _ (hno hr)
  case isFalse hr =>
    have hz := hok (not_not.mp hr)
    refine wp_seq (wp_send_other h.honest ht) ?_
    rintro _ _ l ⟨rfl, rfl⟩
    have done : Owned calm { userfs := ram, remount := g.remount, session := { g.session with
        uploadId := 0, uploadLastLength := 0, uploadName := [] } } l :=
      .of_inactive h.honest (by rw [hz]; rfl) (fun _ _ => rfl) h.decoder
    cases abort
    case true  => exact done
    case false =>
      rw [if_pos (show (!false) = true from rfl), wp_bind, wp_get]
      dsimp only
      rw [emitFileChanged, bind_assoc]
      refine wp_seq (wp_send_other h.honest (show MessageType.fileChanged.value ≠ _ by decide)) ?_
      rintro _ _ _ ⟨rfl, rfl⟩
      exact done

theorem owned_sessionFinish (h : Owned calm g l) :
    wp (keeping calm) sessionFinish (fun _ => Owned calm) g l := by
  have finished {g₁ : Globals} (ha : g₁.userfs.upload.active = false)
      (hs : g₁.session.active = false) :
      wp (keeping calm) (ask (.setFramedMode false)) (fun _ => Owned calm) g₁ l := by
    refine wp_observed h.honest fun _ => ?_
    refine .of_inactive h.honest ha (fun _ a => ?_) fun a => ?_
    all_goals exact absurd a (hs ▸ by decide)
  rw [sessionFinish, wp_bind, wp_get]
  dsimp only
  split
  case isTrue hi =>
    refine wp_seq (keeps_quiet (fun _ => abort_quiet) Userfs.uploadAbort_spec h) ?_
    rintro result _ l ⟨rfl, ram, ⟨hok, hno⟩, rfl⟩
    rw [modifySession, wp_bind, wp_modify]
    refine finished ?_ rfl
    by_cases hr : result = .ok
    case pos => exact (hok hr).upload ▸ rfl
    case neg =>
      -- An upload that does not belong to the session is none.
      obtain ⟨hn, hf⟩ := hno hr
      rw [hf.upload_eq]
      by_contra ha
      have ha : g.userfs.upload.active := by simpa using ha
      exact hn ⟨ha, (h.owner ha).right.left⟩
  case isFalse hi =>
    rw [modifySession, wp_bind, wp_modify]
    exact finished (h.inactive (.inl (not_not.mp hi))) rfl

theorem owned_handleSessionClose (h : Owned calm g l)
    (ht : f.type ≠ MessageType.uploadChunk.value) :
    wp (keeping calm) (handleSessionClose f) (fun _ => Owned calm) g l := by
  rw [handleSessionClose, wp_ite]
  split
  case isTrue => exact keeps_refuse ht g l h
  exact wp_seq (keeps_response ht g l h) fun _ _ _ h => owned_sessionFinish h

theorem owned_handleFrame {build : Build} {fuel : Nat} (h : Owned calm g l)
    (hact : g.session.active) (hf : Fresh f l) :
    wp (keeping calm) (handleFrame build fuel f) (fun _ => Owned calm) g l := by
  have other {t : MessageType} (hv : MessageType.ofValue f.type = some t)
      (ht : t.value ≠ MessageType.uploadChunk.value) : f.type ≠ MessageType.uploadChunk.value :=
    ofValue_eq hv ▸ ht
  rw [handleFrame, wp_ite]
  split
  case isTrue =>
    rw [wp_ite]
    split
    case isTrue  => exact owned_refuse h hf
    case isFalse => exact h
  rw [wp_bind, wp_get]
  dsimp only
  rw [wp_ite]
  split
  case isTrue => exact owned_refuse h hf
  split
  case h_1 ht  => exact keeps_handleHello (other ht (by decide)) g l h
  case h_2 ht  => exact keeps_handleList (other ht (by decide)) g l h
  case h_3 ht  => exact keeps_handleStat (other ht (by decide)) g l h
  case h_4 ht  => exact keeps_handleRead (other ht (by decide)) g l h
  case h_5 ht  => exact owned_handleUploadBegin (other ht (by decide)) h hact
  case h_6     => exact owned_handleUploadChunk h hact hf
  case h_7 ht  => exact owned_handleUploadFinish h (other ht (by decide))
  case h_8 ht  => exact owned_handleUploadFinish h (other ht (by decide))
  case h_9 ht  => exact keeps_handleDelete (other ht (by decide)) g l h
  case h_10 ht => exact keeps_handleSetStartup (other ht (by decide)) g l h
  case h_11 ht => exact keeps_handleFormat (other ht (by decide)) g l h
  case h_12 ht => exact keeps_handleRun (other ht (by decide)) g l h
  case h_13 ht => exact keeps_handleStop (other ht (by decide)) g l h
  case h_14 ht => exact keeps_handleStatus (other ht (by decide)) g l h
  case h_15 ht => exact keeps_handlePing (other ht (by decide)) g l h
  case h_16 ht => exact owned_handleSessionClose h (other ht (by decide))
  case h_17    => exact owned_refuse h hf

theorem keeps_touch : Keeps (keeping calm) (Owned calm) touch := by
  refine .bind (keeps_ask fun _ _ => rfl) fun now => ?_
  apply keeps_modify <;> exact fun _ => rfl

theorem keeps_pumpRead : Keeps (keeping calm) (Owned calm) pumpRead := by
  refine .get fun g => .ite (fun _ => .pure) fun _ => .bind keeps_read ?_
  have hr : MessageType.read.value ≠ MessageType.uploadChunk.value := by decide
  rintro ⟨result, data⟩
  refine .ite (fun _ => ?_) fun _ => ?_
  · refine .bind (.bind (keeps_send hr) fun _ => .pure) fun _ => ?_
    apply keeps_modify <;> exact fun _ => rfl
  · refine .bind ?_ fun _ => .bind (keeps_send hr) fun _ =>
      .bind (keeps_ask fun _ _ => rfl) fun now => ?_
    · apply keeps_modify <;> exact fun _ => rfl
    · refine .bind ?_ fun _ => .ite (fun _ => ?_) fun _ => .pure
      all_goals apply keeps_modify <;> exact fun _ => rfl

theorem keeps_sendDrained {capacity : Nat} {type : MessageType} {stream : UInt8} {runId : UInt32}
    {drained : Drained capacity} (ht : type.value ≠ MessageType.uploadChunk.value) :
    Keeps (keeping calm) (Owned calm) (sendDrained type stream runId drained) := by
  have hd : MessageType.dropped.value ≠ MessageType.uploadChunk.value := by decide
  refine .bind (.ite (fun _ => .bind (keeps_send hd) fun _ => .pure) fun _ => .pure) fun _ => ?_
  exact .ite (fun _ => .pure) fun _ => .bind (keeps_send ht) fun _ => .pure

theorem keeps_pump : Keeps (keeping calm) (Owned calm) pump := by
  have hs : MessageType.state.value ≠ MessageType.uploadChunk.value := by decide
  refine .get fun g => .ite (fun _ => .pure) fun _ => .ite (fun _ => keeps_pumpRead) fun _ => ?_
  refine .bind ?_ fun changed => .ite (fun _ => .pure) fun _ => .bind ?_ fun _ => ?_
  · refine .bind (keeps_ask fun _ _ => rfl) fun _ =>
      .bind (keeps_ask fun _ _ => rfl) fun runtime => ?_
    refine .get fun g => .ite (fun _ => .pure) fun _ => .bind ?_ fun _ => ?_
    · apply keeps_modify <;> exact fun _ => rfl
    · exact .bind (keeps_send hs) fun _ => .pure
  · refine .bind (keeps_ask fun _ _ => rfl) fun runtime => .get fun g => ?_
    refine .bind (keeps_ask fun _ _ => rfl) fun drained =>
      .bind ?_ fun _ => keeps_sendDrained (by decide)
    apply keeps_modify <;> exact fun _ => rfl
  · refine .bind (keeps_ask fun _ _ => rfl) fun runtime => .get fun g => ?_
    refine .bind (keeps_ask fun _ _ => rfl) fun drained =>
      .bind ?_ fun _ => keeps_sendDrained (by decide)
    apply keeps_modify <;> exact fun _ => rfl

theorem owned_receiveByte {build : Build} {fuel : Nat} (h : Owned calm g l) :
    wp (keeping calm) (receiveByte build fuel) (fun _ => Owned calm) g l := by
  rw [receiveByte, wp_bind, wp_get]
  dsimp only
  rw [wp_ite]
  split
  case isTrue => exact h
  case isFalse hact =>
  have hact : g.session.active := by simpa using hact
  rw [wp_bind]
  refine wp_observed h.honest fun byte => ?_
  cases byte
  case none => exact h
  case some byte =>
    show wp _ _ _ g (l.take byte)
    rw [Ledger.take, h.decoder hact]
    cases hf : g.session.decoder.feed byte
    case mk result decoder =>
    dsimp only
    rw [wp_bind, wp_get]
    dsimp only
    rw [hf]
    dsimp only
    rw [modifySession, wp_bind, wp_modify]
    have taken {request : Option Hmpy.Frame} {before : List UInt8} :
        Owned calm { g with session := { g.session with decoder } }
          { l with decoder, request, before } :=
      ⟨h.honest, h.ok, h.owner, h.complete, h.offset, h.last, fun _ => rfl⟩
    cases result
    case incomplete => exact taken
    case error      => exact taken
    case frameReady frame =>
      dsimp only
      rw [touch, bind_assoc, wp_bind]
      refine wp_observed h.honest fun now => ?_
      rw [modifySession, wp_bind, wp_modify]
      refine wp_seq (P := fun _ => Owned calm) (owned_handleFrame ?_ hact ⟨rfl, rfl⟩) ?_
      · exact taken.of_session rfl rfl rfl rfl rfl rfl
      intro _ g₁ l₁ h₁
      rw [wp_bind, wp_get]
      dsimp only
      split
      case isTrue  => exact Keeps.bind keeps_touch (fun _ => .pure) g₁ l₁ h₁
      case isFalse => exact h₁

theorem owned_sessionTick {build : Build} {fuel : Nat} (h : Owned calm g l) :
    wp (keeping calm) (sessionTick build fuel) (fun _ => Owned calm) g l := by
  rw [sessionTick, wp_bind, wp_get]
  dsimp only
  rw [wp_ite]
  split
  case isTrue => exact h
  rw [wp_bind]
  refine wp_observed h.honest fun now => ?_
  rw [wp_bind, wp_get]
  dsimp only
  rw [wp_ite]
  split
  case isTrue => exact owned_sessionFinish h
  refine Keeps.bind (.loop (fun _ _ h => h.honest) fun _ _ _ => owned_receiveByte)
    (fun _ => ?_) g l h
  exact keeps_pump

theorem owned_sessionBegin {fuel : Nat} (h : Owned calm g l) :
    wp (keeping calm) (sessionBegin fuel) (fun _ => Owned calm) g l := by
  rw [sessionBegin, wp_bind, wp_get]
  dsimp only
  rw [wp_ite]
  split
  case isTrue => exact h
  case isFalse hact =>
  have ha := h.inactive (.inr (by simpa using hact))
  simp only [modifySession, wp_bind, wp_modify]
  refine wp_observed h.honest fun now => ?_
  refine wp_observed h.honest fun cursor => ?_
  refine wp_observed h.honest fun _ => ?_
  refine wp_observed h.honest fun _ => ?_
  exact keeps_mount _ _ (.of_inactive h.honest ha (fun _ _ => rfl) fun _ => rfl)

theorem Owned.remounted {remount : Bool} (h : Owned calm g l) : Owned calm { g with remount } l :=
  ⟨h.honest, h.ok, h.owner, h.complete, h.offset, h.last, h.decoder⟩

theorem keeps_shutdownRestore {fuel : Nat} :
    Keeps (keeping calm) (Owned calm) (shutdownRestore fuel) := by
  refine .get fun g => ?_
  split
  case isTrue  => exact .bind keeps_mount fun _ => .modify fun _ _ h => h.remounted
  case isFalse => exact .modify fun _ _ h => h.remounted

theorem keeps_expired {deadline : App.Deadline} :
    Keeps (keeping calm) (Owned calm) (expired deadline) :=
  .ite (fun _ => .pure) fun _ => .bind (keeps_ask fun _ _ => rfl) fun _ => .pure

-- A shutdown may end the upload of a session.
theorem keeps_shutdownPrepare {fuel : Nat} {deadline : App.Deadline} :
    Keeps (keeping false) (Owned false) (shutdownPrepare fuel deadline) := by
  have abort {id : UInt32} : Keeps (keeping false) (Owned false) (abortUpload id) := by
    refine .ite (fun _ => .pure) fun _ g l h => ?_
    refine wp_mono (keeps_quiet (fun _ => abort_quiet) Userfs.uploadAbort_spec h) ?_
    rintro result _ l ⟨rfl, ram, ⟨hok, hno⟩, rfl⟩
    by_cases hr : result = .ok
    case pos =>
      exact .of_inactive h.honest (by rw [(hok hr).upload]; rfl) (fun c => nomatch c) h.decoder
    case neg => exact h.framed (hno hr).right
  have unmount {state : Userfs.State} :
      Keeps (keeping false) (Owned false) (unmountFiles state) := by
    refine .ite (fun _ => .pure) fun _ => .bind (fun g l h => ?_) fun result => ?_
    · refine wp_mono (keeps_quiet (fun _ => unmount_quiet) h.ok.unmount h) ?_
      rintro _ _ l ⟨rfl, ram, ha, rfl⟩
      exact .of_inactive h.honest ha (fun c => nomatch c) h.decoder
    · split
      case isTrue  => exact .bind (.modify fun _ _ h => h.remounted) fun _ => .pure
      case isFalse => exact .pure
  refine .bind keeps_expired fun late => .ite (fun _ => .pure) fun _ => ?_
  refine .bind (keeps_ask fun _ _ => rfl) fun runtime => .ite (fun _ => ?_) fun _ => ?_
  · exact .bind (keeps_ask fun _ _ => rfl) fun _ => .pure
  refine .bind (keeps_ask fun _ _ => rfl) fun flushed => .ite (fun _ => .pure) fun _ => ?_
  refine .bind keeps_getStatus fun filesystem => .bind abort fun aborted => ?_
  refine .ite (fun _ => .pure) fun _ => .bind unmount fun unmounted =>
    .ite (fun _ => .pure) fun _ => ?_
  refine .bind keeps_expired fun late => .ite (fun _ => ?_) fun _ => .pure
  exact .bind keeps_shutdownRestore fun _ => .pure

theorem keeps_files {p : Userfs.Task (α × β)} {ok : Userfs.Call → Prop} (hq : ∀ c, ok c → Quiet c)
    (hp : ∀ ram, Prog.Ensures ok p (fun _ => Userfs.Frame ram) ram) :
    Keeps (keeping calm) (Owned calm) (userfs (Prod.fst <$> p)) :=
  keeps_frame hq fun ram => by
    rw [Prog.Ensures, wp_map]
    exact hp ram

theorem owned_files {fuel : Nat} {op : Userfs.Op} (h : Owned calm g l)
    (ho : (Op.files op).Admitted g) :
    wp (keeping calm) (userfs (op.perform fuel)) (fun _ => Owned calm) g l := by
  cases op
  case mount          => exact keeps_mount g l h
  case formatExplicit =>
    exact wp_mono (owned_formatExplicit h (.inr ho)) fun _ _ _ h => h.left
  case getStatus      =>
    refine keeps_frame (fun _ => tidy_quiet) (fun ram => ?_) g l h
    rw [Userfs.Op.perform, Prog.Ensures, wp_map]
    exact Userfs.getStatus_tidy.mono fun _ _ h => h ▸ Userfs.Frame.refl ram
  case list           => exact keeps_files (fun _ => tidy_quiet) (fun _ => Userfs.list_tidy) g l h
  case stat           => exact keeps_files (fun _ => stat_quiet) (fun _ => Userfs.stat_frame) g l h
  case read           => exact keeps_files (fun _ => read_quiet) (fun _ => Userfs.read_frame) g l h
  case getStartup     =>
    exact keeps_files (fun _ => getStartup_quiet) (fun _ => Userfs.getStartup_frame) g l h
  case remove         =>
    exact keeps_frame (fun _ => remove_quiet) (fun _ => Userfs.remove_frame) g l h
  case setStartup     => exact keeps_setStartup g l h
  all_goals exact ho.elim

def Op.isShutdown : Op → Bool
  | shutdownPrepare _ => true
  | _                 => false

theorem owned_perform (build : Build) (fuel : Nat) {op : Op} (h : Owned calm g l)
    (ho : op.Admitted g) :
    wp (keeping (calm && !op.isShutdown)) (op.perform build fuel)
      (fun _ => Owned (calm && !op.isShutdown)) g l := by
  cases op
  case shutdownPrepare =>
    rw [Op.isShutdown, Bool.not_true, Bool.and_false, Op.perform, wp_map]
    exact keeps_shutdownPrepare g l h.disturbed
  all_goals simp only [Op.isShutdown, Bool.not_false, Bool.and_true]
  case sessionBegin    => exact owned_sessionBegin h
  case sessionTick     => exact owned_sessionTick h
  case shutdownRestore => exact keeps_shutdownRestore g l h
  case files op        =>
    rw [Op.perform, wp_map]
    exact owned_files h ho

-- Whether no shutdown was tried.
def calmIn (es : List (Op × Option Unit)) : Bool :=
  es.all fun e => !e.fst.isShutdown

theorem owned_of_run {build : Build} {fuel : Nat} {es : List (Op × Option Unit)}
    (r : Run (observing Ledger.step) (Op.perform build fuel) none (fun op _ g _ => op.Admitted g)
      .zero .start es g l) : Owned (calmIn es) g l := by
  refine r.invariant (fun es g l => Owned (calmIn es) g l) ?_ ?_
  · exact .of_inactive (fun _ => rfl) rfl (fun _ _ => rfl) fun _ => rfl
  · intro es g l op answers ho h
    have hm := run_meets (fun d (_ : d ∈ answers) => trivial) (owned_perform build fuel h ho)
    revert hm
    show Outcome.Meets _ _ ((op.perform build fuel).run (observing Ledger.step) g answers l) → _
    cases (op.perform build fuel).run (observing Ledger.step) g answers l
    case done a l =>
      intro hm
      show Owned (calmIn ((op, some a.fst) :: es)) a.snd l
      rw [calmIn, List.all_cons, Bool.and_comm]
      exact hm
    all_goals exact fun _ _ h => nomatch h

-- Whatever frames arrive and whatever littlefs answers, an upload of the user file system belongs to
-- the session: it is the one whose number the session has, and it does not outlive the session. As
-- long as no shutdown was tried, the session has no number of an upload that is no more.
theorem upload_has_owner {build : Build} {fuel : Nat} {es : List (Op × Option Unit)}
    (r : Run (observing Ledger.step) (Op.perform build fuel) none (fun op _ g _ => op.Admitted g)
      .zero .start es g l) :
    (g.userfs.upload.active → g.session.active ∧ g.session.uploadId = g.userfs.upload.id ∧
      g.userfs.upload.id ≠ 0) ∧
    (calmIn es → (g.userfs.upload.active ↔ g.session.active ∧ g.session.uploadId ≠ 0)) := by
  have h := owned_of_run r
  refine ⟨h.owner, fun c => ⟨fun ha => ?_, fun hs => h.complete c hs.left hs.right⟩⟩
  obtain ⟨hact, hi, hn⟩ := h.owner ha
  exact ⟨hact, hi ▸ hn⟩

instance (g : Globals) : (op : Op) → Decidable (op.Admitted g)
  | .files (.uploadBegin _ _ _ _) | .files (.uploadWrite _ _ _) => .isFalse id
  | .files (.uploadCommit _) | .files (.uploadAbort _)          => .isFalse id
  | .files .unmount                                             => .isFalse id
  | .files .formatExplicit                                      =>
    inferInstanceAs (Decidable (g.session.active = false))
  | .files .mount | .files .getStatus | .files (.list _) | .files (.stat _ _)
  | .files (.read _ _ _ _ _) | .files (.remove _) | .files (.setStartup _)
  | .files (.getStartup _ _) | .sessionBegin | .sessionTick | .shutdownPrepare _
  | .shutdownRestore                                            => .isTrue trivial

-- A session in which two bytes are uploaded.
def uploading :
    List (Op × List ((c : Userfs.Call ⊕ Call) → Sum.elim Userfs.Call.Reply Call.Reply c)) :=
  let first : Hmpy.Frame :=
    ⟨MessageType.uploadBegin.value, 0, 1, [1, 97] ++ bytes32 2 ++ bytes32 0⟩
  let second : Hmpy.Frame :=
    ⟨MessageType.uploadChunk.value, 0, 2, bytes32 1 ++ bytes32 0 ++ [5, 6]⟩
  [(.sessionBegin, .replicate 10 (answer none)),
    (.sessionTick,
      answer none :: transfer first 5 ++ transfer second 4 ++ .replicate 4 (answer none))]

theorem upload_has_owner_uploading :
    ∃ es g l, Run (observing Ledger.step) (Op.perform .test 99) none (fun op _ g _ => op.Admitted g)
        .zero .start es g l ∧ g.userfs.upload.offset = 2 ∧
      g.session.active ∧ g.session.uploadId = g.userfs.upload.id :=
  have ⟨es, g, l, r, ho, ha⟩ := exists_run
    (P := fun _ g _ => g.userfs.upload.offset = 2 ∧ g.userfs.upload.active) uploading
    (by decide +kernel)
  have h := (upload_has_owner r).left ha
  ⟨es, g, l, r, ho, h.left, h.right.left⟩

end Hmpy.Session
