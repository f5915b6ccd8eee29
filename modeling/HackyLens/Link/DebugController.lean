import HackyLens.Core.Text
import HackyLens.Hmpy.Codec

-- The debug console. It is read line by line, until one of the lines opens a session, which then
-- gets what is received until it is closed.

namespace Debug

open Core Hmpy

def debugCmdMax : Nat := 32
def sessionLeaseUs : UInt64 := 10000000

-- "HKAPP "
def appPrefix : List UInt8 :=
  [0x48, 0x4B, 0x41, 0x50, 0x50, 0x20]

-- "HKMPROTO 1"
def lineHandshake : List UInt8 :=
  [0x48, 0x4B, 0x4D, 0x50, 0x52, 0x4F, 0x54, 0x4F, 0x20, 0x31]

-- The first `g_debug_cmd_len` bytes of `g_debug_cmd`. There is always room for a zero behind them.
structure Cmd where
  bytes : List UInt8
  bounded : bytes.length < debugCmdMax

namespace Cmd

def empty : Cmd where
  bytes   := []
  bounded := by simp [debugCmdMax]

def push (cmd : Cmd) (c : UInt8) : Cmd :=
  if h : cmd.bytes.length + 1 < debugCmdMax then
    ⟨cmd.bytes ++ [c], by simpa using h⟩
  else
    empty

-- What a string is that starts with these bytes and a zero.
def text (cmd : Cmd) : List UInt8 :=
  cmd.bytes.takeWhile (· ≠ 0)

end Cmd

structure Session where
  decoder : StreamDecoder
  lastReceiveUs : UInt64

-- What happens to the bytes that are received.
inductive Event
  | read (raw : UInt8)
  | executed (cmd : List UInt8)
  | fed (byte : UInt8)
  | closed
  deriving DecidableEq

-- There is a session while `g_session.active` is set. What has been received and not been read is
-- kept by the driver of the console. The clock has been read `readings` times.
structure Controller where
  console : List UInt8
  cmd : Cmd
  session : Option Session
  readings : Nat
  log : List Event

def Controller.boot : Controller :=
  ⟨[], .empty, none, 0, []⟩

-- Whether `hmpy_handle_frame` ends the session. All other requests leave it open.
def closes (frame : Frame) : Bool :=
  if frame.flags ≠ 0 ∨ frame.requestId = 0 ∨ typeIsEvent frame.type then
    false
  else
    frame.type = MessageType.sessionClose.value ∧ frame.payload.length = 0

namespace Controller

variable (clock : Nat → UInt64)

def note (c : Controller) (event : Event) : Controller :=
  { c with log := c.log ++ [event] }

-- `hmpy_session_begin`
def sessionBegin (c : Controller) : Controller :=
  match c.session with
  | some _ => c
  | none   => { c with session := some ⟨.init, clock c.readings⟩, readings := c.readings + 1 }

-- `hmpy_session_finish`
def sessionFinish (c : Controller) : Controller :=
  { c with session := none }.note .closed

-- What `debug_uart_handle_command` does to the console. The other commands do nothing to it.
def handleCommand (c : Controller) (cmd : List UInt8) : Controller :=
  if appPrefix.isPrefixOf cmd then
    c
  else if strEqCi cmd lineHandshake then
    c.sessionBegin clock
  else
    c

-- A frame is a sign of life when it arrives, and again when it has been handled.
def feed (c : Controller) (session : Session) (byte : UInt8) : Controller :=
  match session.decoder.feed byte with
  | (.frameReady frame, decoder) =>
    if closes frame then
      { c with readings := c.readings + 1 }.sessionFinish
    else
      { c with
        session  := some ⟨decoder, clock (c.readings + 1)⟩
        readings := c.readings + 2 }
  | (_, decoder) => { c with session := some { session with decoder } }

-- The loop of `hmpy_session_tick`.
def feedLoop : List UInt8 → Controller → Controller
  | [], c           => { c with console := [] }
  | byte :: rest, c =>
    match c.session with
    | none         => { c with console := byte :: rest }
    | some session => feedLoop rest ((c.note (.fed byte)).feed clock session byte)

-- `hmpy_session_tick`, without what it sends.
def sessionTick (c : Controller) : Controller :=
  match c.session with
  | none         => c
  | some session =>
    let now := clock c.readings
    let c := { c with readings := c.readings + 1 }
    if now - session.lastReceiveUs ≥ sessionLeaseUs then
      c.sessionFinish
    else
      feedLoop clock c.console c

-- The loop of `debug_uart_tick`.
def readLoop : List UInt8 → Controller → Controller
  | [], c          => { c with console := [] }
  | raw :: rest, c =>
    let c := c.note (.read raw)
    if raw = 0x0D ∨ raw = 0x0A then
      if c.cmd.bytes.length ≠ 0 then
        let cmd := c.cmd.text
        let c := { (c.note (.executed cmd)).handleCommand clock cmd with cmd := .empty }
        if c.session.isSome then
          { c with console := rest }.sessionTick clock
        else
          readLoop rest c
      else
        readLoop rest c
    else
      readLoop rest { c with cmd := c.cmd.push raw }

-- `debug_uart_tick`
def uartTick (c : Controller) : Controller :=
  if c.session.isSome then c.sessionTick clock else readLoop clock c.console c

end Controller

-- What is received during a tick is as well received before it, or before the next one.
inductive Step
  | receive (bytes : List UInt8)
  | tick

def Step.bytes : Step → List UInt8
  | receive bytes => bytes
  | tick          => []

def Controller.step (clock : Nat → UInt64) (c : Controller) : Step → Controller
  | .receive bytes => { c with console := c.console ++ bytes }
  | .tick          => c.uartTick clock

def run (clock : Nat → UInt64) (steps : List Step) : Controller :=
  steps.foldl (Controller.step clock) .boot

def received (steps : List Step) : List UInt8 :=
  steps.flatMap Step.bytes

end Debug
