import Mathlib.Data.List.TakeWhile
import HackyLens.Link.DebugController

-- What becomes of the bytes that are received over the debug console.

namespace Debug

open Core Hmpy

-- What has been received of a line, or by a session.
inductive Mode
  | line (pending : List UInt8)
  | session (bytes : List UInt8)

inductive Input
  | byte (b : UInt8)
  | closed
  deriving DecidableEq

def Event.input : Event → Option Input
  | read raw   => some (.byte raw)
  | executed _ => none
  | fed byte   => some (.byte byte)
  | closed     => some .closed

def inputs (log : List Event) : List Input :=
  log.filterMap Event.input

def Input.received : Input → Option UInt8
  | byte b => some b
  | closed => none

def opens (cmd : List UInt8) : Bool :=
  !appPrefix.isPrefixOf cmd && strEqCi cmd lineHandshake

section

-- What is executed for a line.
variable (exec : List UInt8 → Option (List UInt8))

def Mode.next : Mode → Input → Mode
  | line pending, .byte b  =>
    if b = 0x0D ∨ b = 0x0A then
      if (exec pending).any opens then session [] else line []
    else
      line (pending ++ [b])
  | line pending, .closed  => line pending
  | session bytes, .byte b => session (bytes ++ [b])
  | session _, .closed     => line []

def Mode.events : Mode → Input → List Event
  | line pending, .byte b =>
    .read b :: if b = 0x0D ∨ b = 0x0A then (exec pending).toList.map .executed else []
  | line _, .closed       => []
  | session _, .byte b    => [.fed b]
  | session _, .closed    => [.closed]

def Mode.after (mode : Mode) (ins : List Input) : Mode :=
  ins.foldl (Mode.next exec) mode

def Mode.history : Mode → List Input → List Event
  | _, []         => []
  | mode, i :: is => mode.events exec i ++ (mode.next exec i).history is

-- The lines that are terminated.
def Mode.finished : Mode → List Input → List (List UInt8)
  | _, []                         => []
  | line pending, .byte b :: is   =>
    (if b = 0x0D ∨ b = 0x0A then [pending] else []) ++
      ((line pending).next exec (.byte b)).finished is
  | mode, i :: is                 => (mode.next exec i).finished is

end

-- A line is a command, unless it is empty or does not fit into the buffer.
def command (line : List UInt8) : Option (List UInt8) :=
  if line ≠ [] ∧ line.length < debugCmdMax then some line else none

-- What is left in the buffer of a line.
def remainder (line : List UInt8) : List UInt8 :=
  line.drop (debugCmdMax * (line.length / debugCmdMax))

-- What is executed of it.
def executes (line : List UInt8) : Option (List UInt8) :=
  if remainder line ≠ [] then some ((remainder line).takeWhile (· ≠ 0)) else none

-- What a session has, or the lines, of what has been received.
def Controller.Has (c : Controller) : Mode → Prop
  | .line pending  => c.session = none ∧ (pending.length < debugCmdMax → c.cmd.bytes = pending)
  | .session bytes => c.cmd.bytes = [] ∧
    ∃ session, c.session = some session ∧
      session.decoder = bytes.foldl (fun decoder byte => (decoder.feed byte).2) .init

-- All bytes have been read in their order, except for the ones that are still kept by the driver;
-- the lines in it have been executed, and the sessions have got all that comes after the lines that
-- have opened them.
structure Controller.Serves (bytes : List UInt8) (c : Controller) : Prop where
  received : (inputs c.log).filterMap Input.received ++ c.console = bytes
  history  : c.log = (Mode.line []).history command (inputs c.log)
  state    : c.Has ((Mode.line []).after command (inputs c.log))

-- It fits and has no zero in it, or it fills the buffer over and over.
def Plain (line : List UInt8) : Prop :=
  line.length < debugCmdMax ∧ 0 ∉ line ∨ debugCmdMax ∣ line.length

theorem remainder_of_lt {line : List UInt8} (h : line.length < debugCmdMax) :
    remainder line = line := by
  rw [remainder, Nat.div_eq_of_lt h, Nat.mul_zero, List.drop_zero]

theorem remainder_length {line : List UInt8} :
    (remainder line).length = line.length % debugCmdMax := by
  rw [remainder, List.length_drop, Nat.mod_eq_sub]

theorem remainder_eq_nil {line : List UInt8} : remainder line = [] ↔ debugCmdMax ∣ line.length := by
  rw [← List.length_eq_zero_iff, remainder_length, Nat.dvd_iff_mod_eq_zero]

theorem command_eq_executes_iff {line : List UInt8} :
    command line = executes line ↔ Plain line := by
  rw [command, executes]
  by_cases hlt : line.length < debugCmdMax
  case neg =>
    rw [if_neg fun h => hlt h.right]
    constructor
    · intro h
      split at h
      case isTrue          => cases h
      case isFalse hremain => exact .inr (remainder_eq_nil.mp (of_not_not hremain))
    · rintro (⟨h, _⟩ | h)
      · exact absurd h hlt
      · rw [if_neg (not_not_intro (remainder_eq_nil.mpr h))]
  case pos =>
    rw [remainder_of_lt hlt]
    by_cases hnil : line = []
    case pos =>
      rw [hnil]
      exact iff_of_true rfl (.inr ⟨0, rfl⟩)
    case neg =>
      rw [if_pos ⟨hnil, hlt⟩, if_pos hnil, Option.some_inj, eq_comm, List.takeWhile_eq_self_iff]
      constructor
      · intro h
        exact .inl ⟨hlt, fun hz => of_decide_eq_true (h 0 hz) rfl⟩
      · rintro (⟨_, h⟩ | ⟨k, hk⟩) b hb
        · exact decide_eq_true fun hz => h (hz ▸ hb)
        · rw [hk] at hlt
          have hz : k = 0 := by simp only [debugCmdMax] at hlt; omega
          rw [hz, Nat.mul_zero, List.length_eq_zero_iff] at hk
          exact absurd hk hnil

-- A byte more is a byte more of what is left, until the buffer is full.
theorem push_bytes {cmd : Cmd} {pending : List UInt8} (h : cmd.bytes = remainder pending)
    (raw : UInt8) : (cmd.push raw).bytes = remainder (pending ++ [raw]) := by
  have hlen : cmd.bytes.length = pending.length % debugCmdMax := by rw [h, remainder_length]
  rw [Cmd.push]
  split
  case isTrue hroom =>
    have hd : (pending ++ [raw]).length / debugCmdMax = pending.length / debugCmdMax := by
      rw [List.length_append, List.length_singleton]
      simp only [debugCmdMax] at *
      omega
    rw [remainder, hd, List.drop_append_of_le_length (Nat.mul_div_le ..)]
    exact congrArg (· ++ [raw]) h
  case isFalse hfull =>
    refine (remainder_eq_nil.mpr ?_).symm
    rw [List.length_append, List.length_singleton]
    simp only [debugCmdMax] at *
    omega

section

variable {exec : List UInt8 → Option (List UInt8)} {mode : Mode} {ins : List Input} {i : Input}

theorem Mode.after_concat : mode.after exec (ins ++ [i]) = (mode.after exec ins).next exec i :=
  List.foldl_concat ..

theorem Mode.history_concat :
    mode.history exec (ins ++ [i]) =
      mode.history exec ins ++ (mode.after exec ins).events exec i := by
  induction ins generalizing mode with
  | nil            => exact List.append_nil _
  | cons j ins ih =>
    rw [List.cons_append, history, history, ih, List.append_assoc]
    rfl

theorem inputs_append {log log' : List Event} : inputs (log ++ log') = inputs log ++ inputs log' :=
  List.filterMap_append

theorem inputs_events {b : UInt8} : inputs (mode.events exec (.byte b)) = [.byte b] := by
  cases mode with
  | session bytes => rfl
  | line pending  =>
    rw [Mode.events]
    split
    case isFalse => rfl
    case isTrue  => cases exec pending <;> rfl

-- What is executed is executed when a line has been read.
theorem Mode.history_ne {cmd : List UInt8} {log : List Event} :
    mode.history exec ins ≠ .executed cmd :: log := by
  induction ins generalizing mode with
  | nil => exact (List.cons_ne_nil _ _).symm
  | cons i ins ih =>
    cases mode with
    | line pending  =>
      cases i with
      | byte b => exact fun h => Event.noConfusion (List.head_eq_of_cons_eq h)
      | closed => exact ih
    | session bytes =>
      cases i with
      | byte b => exact fun h => Event.noConfusion (List.head_eq_of_cons_eq h)
      | closed => exact fun h => Event.noConfusion (List.head_eq_of_cons_eq h)

theorem Mode.history_byte {pending : List UInt8} {b : UInt8} :
    (line pending).history exec (.byte b :: ins) =
      .read b :: ((if b = 0x0D ∨ b = 0x0A then (exec pending).toList.map .executed else []) ++
        ((line pending).next exec (.byte b)).history exec ins) :=
  rfl

theorem Mode.finished_byte {pending : List UInt8} {b : UInt8} :
    (line pending).finished exec (.byte b :: ins) =
      (if b = 0x0D ∨ b = 0x0A then [pending] else []) ++
        ((line pending).next exec (.byte b)).finished exec ins :=
  rfl

end

-- As long as no line opens a session, the commands are the lines that fit.
def isEnd (b : UInt8) : Bool :=
  b = 0x0D ∨ b = 0x0A

def Event.cmd : Event → Option (List UInt8)
  | executed cmd => some cmd
  | _            => none

theorem command_opens {line : List UInt8} (h : opens line = false) :
    (command line).any opens = false := by
  rw [command]
  split
  case isTrue  => exact h
  case isFalse => rfl

theorem Mode.history_pending {pending bytes : List UInt8}
    (h : ∀ line ∈ (List.splitOnPPrepend isEnd bytes pending.reverse).dropLast, opens line = false) :
    ((line pending).history command (bytes.map .byte)).filterMap Event.cmd =
      (List.splitOnPPrepend isEnd bytes pending.reverse).dropLast.filterMap command := by
  induction bytes generalizing pending with
  | nil           => rfl
  | cons b bytes ih =>
    rw [List.map_cons, history_byte]
    by_cases hb : b = 0x0D ∨ b = 0x0A
    case pos =>
      have hend : isEnd b = true := decide_eq_true hb
      have hne : List.splitOnPPrepend isEnd bytes [] ≠ [] := List.splitOnPPrepend_ne_nil _ _ _
      rw [List.splitOnPPrepend_cons_pos hend, List.reverse_reverse,
        ← List.splitOnPPrepend_nil_right, List.dropLast_cons_of_ne_nil hne] at h ⊢
      obtain ⟨hline, hrest⟩ := List.forall_mem_cons.mp h
      rw [if_pos hb, Mode.next, if_pos hb, command_opens hline]
      have hcommand : ((command pending).toList.map Event.executed).filterMap Event.cmd =
          (command pending).toList := by
        cases command pending <;> rfl
      rw [List.filterMap_cons_none rfl, List.filterMap_append, hcommand]
      refine (congrArg _ (@ih [] hrest)).trans ?_
      rw [List.filterMap_cons]
      cases command pending <;> rfl
    case neg =>
      have hend : isEnd b = false := decide_eq_false hb
      rw [List.splitOnPPrepend_cons_neg hend, ← List.reverse_concat] at h ⊢
      rw [if_neg hb, Mode.next, if_neg hb]
      exact ih h

theorem Mode.history_lines {bytes : List UInt8}
    (h : ∀ line ∈ (bytes.splitOnP isEnd).dropLast, opens line = false) :
    ((line []).history command (bytes.map .byte)).filterMap Event.cmd =
      (bytes.splitOnP isEnd).dropLast.filterMap command :=
  history_pending h

-- The first line for which something else is executed makes the difference.
theorem Mode.history_eq_iff {mode : Mode} {ins : List Input} :
    mode.history executes ins = mode.history command ins ↔
      ∀ line ∈ mode.finished command ins, command line = executes line := by
  induction ins generalizing mode with
  | nil =>
    cases mode <;> exact iff_of_true rfl (List.forall_mem_nil _)
  | cons i ins ih =>
    cases mode with
    | session bytes =>
      cases i with
      | byte b => exact (List.cons_inj_right _).trans ih
      | closed => exact (List.cons_inj_right _).trans ih
    | line pending =>
      cases i with
      | closed => exact ih
      | byte b =>
        rw [history_byte, history_byte, finished_byte, next, next, List.cons_inj_right]
        by_cases hb : b = 0x0D ∨ b = 0x0A
        case neg =>
          simp only [if_neg hb, List.nil_append]
          exact ih
        case pos =>
          simp only [if_pos hb, List.singleton_append, List.forall_mem_cons]
          by_cases heq : command pending = executes pending
          case pos =>
            rw [← heq, List.append_cancel_left_eq]
            exact ih.trans (and_iff_right rfl).symm
          case neg =>
            refine iff_of_false (fun h => ?_) fun h => heq h.left
            cases hc : command pending with
            | none =>
              cases hx : executes pending with
              | none   => exact heq (hc.trans hx.symm)
              | some _ =>
                rw [hc, hx] at h
                exact history_ne h.symm
            | some _ =>
              cases hx : executes pending with
              | none =>
                rw [hc, hx] at h
                exact history_ne h
              | some _ =>
                rw [hc, hx] at h
                injection (List.cons.inj h).left with h
                exact heq (by rw [hc, hx, h])

-- What comes after the lines that are executed in the same way.
theorem Mode.after_eq {mode : Mode} {ins : List Input}
    (h : ∀ line ∈ mode.finished command ins, command line = executes line) :
    mode.after executes ins = mode.after command ins := by
  induction ins generalizing mode with
  | nil           => rfl
  | cons i ins ih =>
    cases mode with
    | session bytes => cases i <;> exact ih h
    | line pending  =>
      cases i with
      | closed => exact ih h
      | byte b =>
        rw [finished_byte] at h
        have hnext : (line pending).next executes (.byte b) =
            (line pending).next command (.byte b) := by
          rw [next, next]
          split
          case isFalse    => rfl
          case isTrue hb =>
            rw [if_pos hb] at h
            rw [h pending (List.mem_append_left _ (List.mem_singleton_self _))]
        rw [after, List.foldl_cons, hnext]
        exact ih fun line hl => h line (List.mem_append_right _ hl)

section

variable {bytes rest pending : List UInt8} {log : List Event} {mode : Mode} {c : Controller}

-- What the log is, as the code writes it.
structure Logged (bytes rest : List UInt8) (log : List Event) (mode : Mode) : Prop where
  received : (inputs log).filterMap Input.received ++ rest = bytes
  history : log = (Mode.line []).history executes (inputs log)
  after : (Mode.line []).after executes (inputs log) = mode

theorem Logged.event {i : Input} {rest' : List UInt8} (h : Logged bytes rest log mode)
    (hi : inputs (mode.events executes i) = [i]) (hr : i.received.toList ++ rest' = rest) :
    Logged bytes rest' (log ++ mode.events executes i) (mode.next executes i) where
  received := by
    rw [inputs_append, hi, List.filterMap_append, List.append_assoc, ← h.received, ← hr]
    cases i <;> rfl
  history := by
    rw [inputs_append, hi, Mode.history_concat, h.after, ← h.history]
  after := by
    rw [inputs_append, hi, Mode.after_concat, h.after]

theorem Logged.byte {b : UInt8} (h : Logged bytes (b :: rest) log mode) :
    Logged bytes rest (log ++ mode.events executes (.byte b)) (mode.next executes (.byte b)) :=
  h.event inputs_events rfl

theorem Logged.closed {fed : List UInt8} (h : Logged bytes rest log (.session fed)) :
    Logged bytes rest (log ++ [.closed]) (.line []) :=
  Logged.event (i := .closed) h rfl rfl

namespace Controller

-- The same, but for what there is in the buffer of a line that does not fit.
def Holds (c : Controller) : Mode → Prop
  | .line pending  => c.session = none ∧ c.cmd.bytes = remainder pending
  | .session bytes => c.cmd.bytes = [] ∧
    ∃ session, c.session = some session ∧
      session.decoder = bytes.foldl (fun decoder byte => (decoder.feed byte).2) .init

theorem Holds.has (h : c.Holds mode) : c.Has mode := by
  cases mode with
  | session bytes => exact h
  | line pending  => exact ⟨h.left, fun hlt => h.right.trans (remainder_of_lt hlt)⟩

def Tracks (bytes rest : List UInt8) (c : Controller) : Prop :=
  ∃ mode, Logged bytes rest c.log mode ∧ c.Holds mode

variable {clock : Nat → UInt64} {session : Session}

theorem Tracks.feed {byte : UInt8} (h : c.Tracks bytes (byte :: rest))
    (hs : c.session = some session) :
    ((c.note (.fed byte)).feed clock session byte).Tracks bytes rest := by
  obtain ⟨mode, hlog, hc⟩ := h
  cases mode with
  | line pending =>
    have hnone := hc.left
    rw [hs] at hnone
    cases hnone
  | session fed =>
    obtain ⟨hcmd, session', hs', hd⟩ := hc
    rw [hs] at hs'
    obtain rfl := Option.some.inj hs'
    have hd' : (session.decoder.feed byte).2 =
        (fed ++ [byte]).foldl (fun decoder byte => (decoder.feed byte).2) .init := by
      rw [List.foldl_concat, hd]
    rw [Controller.feed]
    split
    case h_1 frame decoder hframe =>
      rw [hframe] at hd'
      split
      case isTrue  => exact ⟨.line [], hlog.byte.closed, rfl, hcmd⟩
      case isFalse => exact ⟨.session (fed ++ [byte]), hlog.byte, hcmd, _, rfl, hd'⟩
    case h_2 result decoder _ hresult =>
      rw [hresult] at hd'
      exact ⟨.session (fed ++ [byte]), hlog.byte, hcmd, _, rfl, hd'⟩

theorem Tracks.feedLoop (h : c.Tracks bytes rest) :
    (feedLoop clock rest c).Tracks bytes (feedLoop clock rest c).console := by
  induction rest generalizing c with
  | nil            => exact h
  | cons byte rest ih =>
    rw [Controller.feedLoop]
    split
    case h_1            => exact h
    case h_2 session hs => exact ih (h.feed hs)

theorem Tracks.sessionTick (h : c.Tracks bytes c.console) :
    (c.sessionTick clock).Tracks bytes (c.sessionTick clock).console := by
  rw [Controller.sessionTick]
  split
  case h_1            => exact h
  case h_2 session hs =>
    dsimp only
    split
    case isFalse => exact Tracks.feedLoop (c := { c with readings := c.readings + 1 }) h
    case isTrue  =>
      obtain ⟨mode, hlog, hc⟩ := h
      cases mode with
      | session fed  => exact ⟨.line [], hlog.closed, rfl, hc.left⟩
      | line pending =>
        have hnone := hc.left
        rw [hs] at hnone
        cases hnone

-- A command opens a session, or nothing happens.
theorem handleCommand_session (clock : Nat → UInt64) (hs : c.session = none) (cmd : List UInt8) :
    (c.handleCommand clock cmd).session =
      if opens cmd then some ⟨.init, clock c.readings⟩ else none := by
  rw [handleCommand, opens]
  split
  case isTrue happ =>
    rw [happ]
    exact hs
  case isFalse happ =>
    rw [Bool.not_eq_true] at happ
    rw [happ, Bool.not_false, Bool.true_and]
    split
    case isTrue  => rw [sessionBegin, hs]
    case isFalse => exact hs

theorem handleCommand_log (cmd : List UInt8) : (c.handleCommand clock cmd).log = c.log := by
  rw [handleCommand]
  split
  case isTrue  => rfl
  case isFalse =>
    split
    case isFalse => rfl
    case isTrue  =>
      rw [sessionBegin]
      split <;> rfl

theorem executes_of_bytes {pending : List UInt8} (h : c.cmd.bytes = remainder pending) :
    executes pending = if c.cmd.bytes.length ≠ 0 then some c.cmd.text else none := by
  rw [executes, ← h, Cmd.text]
  simp only [ne_eq, List.length_eq_zero_iff]

theorem Tracks.executed (clock : Nat → UInt64) {raw : UInt8} {cmd : List UInt8}
    (hs : c.session = none) (h : Logged bytes rest (c.log ++ [.read raw, .executed cmd])
      (if opens cmd then .session [] else .line [])) :
    Tracks bytes rest { ((c.note (.read raw)).note (.executed cmd)).handleCommand clock cmd with
      cmd := .empty } := by
  have hlog : (((c.note (.read raw)).note (.executed cmd)).handleCommand clock cmd).log =
      c.log ++ [.read raw, .executed cmd] := by
    rw [handleCommand_log]
    exact List.append_assoc ..
  have hsession := handleCommand_session clock
    (c := (c.note (.read raw)).note (.executed cmd)) hs cmd
  rw [← hlog] at h
  split at h
  case isTrue hopen =>
    rw [if_pos hopen] at hsession
    exact ⟨.session [], h, rfl, _, hsession, rfl⟩
  case isFalse hopen =>
    rw [if_neg hopen] at hsession
    exact ⟨.line [], h, hsession, rfl⟩

theorem Tracks.readLoop (h : c.Tracks bytes rest) (hs : c.session = none) :
    (readLoop clock rest c).Tracks bytes (readLoop clock rest c).console := by
  induction rest generalizing c with
  | nil           => exact h
  | cons raw rest ih =>
    obtain ⟨mode, hlog, hc⟩ := h
    cases mode with
    | session fed =>
      obtain ⟨_, session, hsome, _⟩ := hc
      rw [hs] at hsome
      cases hsome
    | line pending =>
      obtain ⟨_, hcmd⟩ := hc
      have hlog := hlog.byte
      have hexec := executes_of_bytes hcmd
      rw [Mode.events, Mode.next] at hlog
      rw [Controller.readLoop]
      dsimp only
      split
      case isFalse hb =>
        rw [if_neg hb, if_neg hb] at hlog
        exact ih ⟨_, hlog, hs, push_bytes hcmd raw⟩ hs
      case isTrue hb =>
        rw [if_pos hb, if_pos hb] at hlog
        split
        case isFalse hlen =>
          have hlen : ¬c.cmd.bytes.length ≠ 0 := hlen
          rw [hexec, if_neg hlen] at hlog
          exact ih ⟨_, hlog, hs, List.length_eq_zero_iff.mp (of_not_not hlen)⟩ hs
        case isTrue hlen =>
          have hlen : c.cmd.bytes.length ≠ 0 := hlen
          rw [hexec, if_pos hlen] at hlog
          have h := Tracks.executed clock hs hlog
          split
          case isTrue            => exact Tracks.sessionTick h
          case isFalse hsession  => exact ih h (Option.not_isSome_iff_eq_none.mp hsession)

theorem Tracks.uartTick (h : c.Tracks bytes c.console) :
    (c.uartTick clock).Tracks bytes (c.uartTick clock).console := by
  rw [Controller.uartTick]
  split
  case isTrue     => exact h.sessionTick
  case isFalse hs => exact h.readLoop (Option.not_isSome_iff_eq_none.mp hs)

theorem Tracks.step (h : c.Tracks bytes c.console) (step : Step) :
    (c.step clock step).Tracks (bytes ++ step.bytes) (c.step clock step).console := by
  cases step with
  | tick =>
    rw [Step.bytes, List.append_nil]
    exact h.uartTick
  | receive bytes' =>
    obtain ⟨mode, hlog, hc⟩ := h
    refine ⟨mode, ⟨?_, hlog.history, hlog.after⟩, hc⟩
    rw [← hlog.received, List.append_assoc]
    rfl

end Controller

end

theorem run_tracks (clock : Nat → UInt64) (steps : List Step) :
    (run clock steps).Tracks (received steps) (run clock steps).console := by
  induction steps using List.reverseRecOn with
  | nil => exact ⟨.line [], ⟨rfl, rfl, rfl⟩, rfl, rfl⟩
  | append_singleton steps step ih =>
    rw [run, List.foldl_concat, received, List.flatMap_append, List.flatMap_singleton]
    exact ih.step step

-- The bytes are served as they should be if there is nothing left of the lines that do not fit, and
-- no zero in the others.
theorem serves_iff_plain (clock : Nat → UInt64) (steps : List Step) :
    (run clock steps).Serves (received steps) ↔
      ∀ line ∈ (Mode.line []).finished command (inputs (run clock steps).log), Plain line := by
  obtain ⟨mode, hlog, hc⟩ := run_tracks clock steps
  have hiff := @Mode.history_eq_iff (.line []) (inputs (run clock steps).log)
  simp only [← command_eq_executes_iff]
  constructor
  · intro h
    exact hiff.mp (hlog.history.symm.trans h.history)
  · intro h
    refine ⟨hlog.received, hlog.history.trans (hiff.mpr h), ?_⟩
    rw [← Mode.after_eq h, hlog.after]
    exact hc.has

-- 32 bytes that do not fit, and then a command that is executed although it is the end of their
-- line.
def overlongSteps : List Step :=
  [.receive (List.replicate 32 0x41 ++ [0x48, 0x4B, 0x50, 0x49, 0x4E, 0x47, 0x0A]), .tick]

theorem serves_not_overlong :
    .executed [0x48, 0x4B, 0x50, 0x49, 0x4E, 0x47] ∈ (run (fun _ => 0) overlongSteps).log ∧
    ¬(run (fun _ => 0) overlongSteps).Serves (received overlongSteps) := by
  refine ⟨by decide +kernel, fun h => ?_⟩
  have hne : (run (fun _ => 0) overlongSteps).log ≠
      (Mode.line []).history command (inputs (run (fun _ => 0) overlongSteps).log) := by
    decide +kernel
  exact hne h.history

end Debug
