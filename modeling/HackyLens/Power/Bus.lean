import HackyLens.Lib.Wp
import Mathlib.Logic.Function.Basic

-- `power_bus_clear` of `hal_power.c`, which borrows two channels of the GPIOHS block to clock a
-- stuck I2C device by hand. The registers, the pins and the interrupt flag are the outside world.
-- The memory barriers and the console line are left out, but for the numbers that the line shows.

namespace Power

open Prog

-- The registers of `gpiohs_raw_t` that are written. There is a bit for each channel.
inductive Field
  | inputEn | outputEn | outputVal | outputXor | iofEn | iofSel | pullupEn | drive
  | riseIe | fallIe | highIe | lowIe
  | riseIp | fallIp | highIp | lowIp
  deriving DecidableEq

def Field.pending : Field → Bool
  | riseIp | fallIp | highIp | lowIp => true
  | _                                => false

-- `fpioa_io_config_t` without the level of the pad. The bits that are only copied are in `rest`.
structure Pin where
  chSel : Nat
  oeEn : Bool
  oeInv : Bool
  doSel : Bool
  doInv : Bool
  ieEn : Bool
  ieInv : Bool
  diInv : Bool
  pu : Bool
  pd : Bool
  rest : Nat

-- The numbers of the pins and of their functions: those of the channels follow each other and fit
-- into the eight bits of `ch_sel`, and those of the I2C controller are none of them.
structure Board where
  numIo : Nat
  gpiohs0 : Nat
  pmicScl : Nat
  pmicSda : Nat
  sclFunction : Nat
  sdaFunction : Nat
  channels_lt : gpiohs0 + 31 < 256
  pmicScl_lt : pmicScl < numIo
  pmicSda_lt : pmicSda < numIo
  scl_ne_sda : pmicScl ≠ pmicSda
  sclFunction_not_channel : sclFunction < gpiohs0 ∨ gpiohs0 + 31 < sclFunction
  sdaFunction_not_channel : sdaFunction < gpiohs0 ∨ gpiohs0 + 31 < sdaFunction

-- The pins are those of the routes in `board.toml`, the other numbers are the SDK's.
def Board.sipeedMaixCube : Board where
  numIo       := 48
  gpiohs0     := 24
  pmicScl     := 30
  pmicSda     := 31
  sclFunction := 128
  sdaFunction := 129
  channels_lt             := by decide
  pmicScl_lt              := by decide
  pmicSda_lt              := by decide
  scl_ne_sda              := by decide
  sclFunction_not_channel := by decide
  sdaFunction_not_channel := by decide

inductive Call
  | getIo (pin : Nat)
  | setIo (pin : Nat) (cfg : Pin)
  | timeUs
  | read (field : Field)
  | inputVal
  | write (field : Field) (value : BitVec 32)
  | irqSave
  | irqRestore (state : Bool)

-- The configuration of a pin comes with the level of its pad, and with nothing on failure.
abbrev Call.Reply : Call → Type
  | getIo _           => Option (Pin × Bool)
  | setIo _ _         => Bool
  | timeUs            => UInt64
  | read _ | inputVal => BitVec 32
  | irqSave           => Bool
  | write _ _ | irqRestore _ => Unit

abbrev Hal := Prog Call Call.Reply Unit

inductive FailureStage
  | busClear
  | gpioCollision
  deriving DecidableEq

-- With the pulses and the channels that the console line shows.
structure Result where
  success : Bool
  failureStage : FailureStage
  report : Option (Nat × Nat × Nat)

def getIo (pin : Nat) : Hal (Option (Pin × Bool)) := call (Call.getIo pin)
def setIo (pin : Nat) (cfg : Pin) : Hal Bool := call (Call.setIo pin cfg)
def timeUs : Hal UInt64 := call Call.timeUs
def read (field : Field) : Hal (BitVec 32) := call (Call.read field)
def inputVal : Hal (BitVec 32) := call Call.inputVal
def write (field : Field) (value : BitVec 32) : Hal Unit := call (Call.write field value)
def irqSave : Hal Bool := call Call.irqSave
def irqRestore (state : Bool) : Hal Unit := call (Call.irqRestore state)

def bit (channel : Nat) : BitVec 32 :=
  1#32 <<< channel

def signalMask (b : Board) (chSel : Nat) : BitVec 32 :=
  if b.gpiohs0 ≤ chSel ∧ chSel ≤ b.gpiohs0 + 31 then bit (chSel - b.gpiohs0) else 0

def setBits (field : Field) (mask : BitVec 32) : Hal Unit := do
  let value ← read field
  write field (value ||| mask)

def maskOff (mask : BitVec 32) (field : Field) : Hal Unit := do
  let value ← read field
  write field (value &&& ~~~mask)

def restore (saved : Field → BitVec 32) (mask : BitVec 32) (field : Field) : Hal Unit := do
  let value ← read field
  write field ((value &&& ~~~mask) ||| (saved field &&& mask))

def clearNew (saved : Field → BitVec 32) (mask : BitVec 32) (field : Field) : Hal Unit := do
  let value ← read field
  write field (value &&& ~~~(saved field) &&& mask)

def save : List Field → (Field → BitVec 32) → Hal (Field → BitVec 32)
  | [],              saved => pure saved
  | field :: fields, saved => do
    let value ← read field
    save fields (Function.update saved field value)

def savedFields : List Field :=
  [.inputEn, .outputEn, .outputVal, .outputXor, .iofEn, .iofSel, .pullupEn, .drive,
   .riseIe, .fallIe, .highIe, .lowIe, .riseIp, .fallIp, .highIp, .lowIp]

section Wait

variable (fuel : Nat) (deadline : UInt64)

def delayRound (until' : UInt64) (_ : Unit) : Hal (Bool ⊕ Unit) := do
  let now ← timeUs
  if deadline ≤ now then pure (.inl false)
  else if until' ≤ now then pure (.inl true)
  else pure (.inr ())

def clearDelay : Hal Bool := do
  let now ← timeUs
  loop (delayRound deadline (now + 5)) fuel ()

def sclRound (sclMask : BitVec 32) (_ : Unit) : Hal (Bool ⊕ Unit) := do
  let level ← inputVal
  if level &&& sclMask ≠ 0 then pure (.inl true)
  else
    let now ← timeUs
    if deadline ≤ now then pure (.inl false) else pure (.inr ())

def clearSclHigh (sclMask : BitVec 32) : Hal Bool := do
  let high ← loop (sclRound deadline sclMask) fuel ()
  if high then clearDelay fuel deadline else pure false

-- The pulses that are left, up to the first one that finds the data line released. The result is
-- how many there were, and nothing where the time is over.
def pulse (sclMask sdaMask : BitVec 32) : Nat → Nat → Hal (Option Nat)
  | 0,        pulses => pure (some pulses)
  | left + 1, pulses => do
    let level ← inputVal
    if level &&& sdaMask ≠ 0 then pure (some pulses)
    else
      setBits .outputEn sclMask
      let ok ← clearDelay fuel deadline
      if ok then
        maskOff (sclMask ||| sdaMask) .outputEn
        let ok ← clearSclHigh fuel deadline sclMask
        if ok then pulse sclMask sdaMask left (pulses + 1) else pure none
      else pure none

-- SDA goes low while SCL is low, then SCL is released before SDA.
def stopCondition (sclMask sdaMask : BitVec 32) : Hal Bool := do
  setBits .outputEn sclMask
  let ok ← clearDelay fuel deadline
  if ok then
    setBits .outputEn sdaMask
    let ok ← clearDelay fuel deadline
    if ok then
      maskOff sclMask .outputEn
      let ok ← clearSclHigh fuel deadline sclMask
      if ok then
        maskOff (sclMask ||| sdaMask) .outputEn
        let ok ← clearDelay fuel deadline
        if ok then
          let level ← inputVal
          pure (level &&& (sclMask ||| sdaMask) = sclMask ||| sdaMask)
        else pure false
      else pure false
    else pure false
  else pure false

end Wait

-- Both lines get the configuration of SCL, but for the channel.
def lentPin (b : Board) (scl : Pin) (channel : Nat) : Pin :=
  { scl with
    chSel := (b.gpiohs0 + channel) % 256
    oeEn  := true
    oeInv := false
    doSel := false
    doInv := false
    ieEn  := true
    ieInv := false
    diInv := false
    pu    := true
    pd    := false }

-- What comes before the label `restore`, from the first change of a pin on.
def session (b : Board) (fuel : Nat) (deadline : UInt64) (scl : Pin)
    (sclChannel sdaChannel : Nat) : Hal (Option Nat) := do
  let failed ← setIo b.pmicScl (lentPin b scl sclChannel)
  if failed then pure none
  else
    let failed ← setIo b.pmicSda (lentPin b scl sdaChannel)
    if failed then pure none
    else
      let ok ← clearSclHigh fuel deadline (bit sclChannel)
      if ok then
        match ← pulse fuel deadline (bit sclChannel) (bit sdaChannel) 9 0 with
        | none        => pure none
        | some pulses =>
          let ok ← stopCondition fuel deadline (bit sclChannel) (bit sdaChannel)
          pure (if ok then some pulses else none)
      else pure none

-- The part with changes to the registers.
def borrow (b : Board) (fuel : Nat) (deadline : UInt64) (scl sda : Pin)
    (sclChannel sdaChannel : Nat) : Hal (Option Nat) := do
  let mask := bit sclChannel ||| bit sdaChannel
  let saved ← save savedFields fun _ => 0
  [.riseIe, .fallIe, .highIe, .lowIe, .outputEn, .outputVal, .outputXor, .iofEn].forM
    (maskOff mask)
  setBits .inputEn mask
  let pulses ← session b fuel deadline scl sclChannel sdaChannel
  maskOff mask .outputEn
  let _ ← setIo b.pmicScl scl
  let _ ← setIo b.pmicSda sda
  [.outputVal, .outputXor, .iofEn, .iofSel, .pullupEn, .drive, .inputEn, .outputEn].forM
    (restore saved mask)
  [.riseIp, .fallIp, .highIp, .lowIp].forM (clearNew saved mask)
  [.riseIe, .fallIe, .highIe, .lowIe].forM (restore saved mask)
  pure pulses

-- The channels of the pins, and nothing where a pin cannot be read.
def scan (b : Board) : List Nat → BitVec 32 → Hal (Option (BitVec 32))
  | [],          used => pure (some used)
  | pin :: pins, used => do
    match ← getIo pin with
    | none          => pure none
    | some (cfg, _) => scan b pins (used ||| signalMask b cfg.chSel)

def reserved : BitVec 32 :=
  bit 2 ||| bit 3 ||| bit 4 ||| bit 6 ||| bit 14 ||| bit 15

-- Channels 30 and 31 come first, then the others from 29 down.
def candidate (i : Nat) : Nat :=
  if i < 2 then 30 + i else 31 - i

-- The registers, the pins, and whether interrupts are enabled.
structure Device where
  regs : Field → BitVec 32
  pins : Nat → Pin
  mie : Bool

namespace Device

variable (b : Board)

-- The channels that are at a pin.
def routed (w : Device) : BitVec 32 :=
  (List.range b.numIo).foldl (fun used pin => used ||| signalMask b (w.pins pin).chSel) 0

-- Pending bits of some channels are set.
def notice (events : Field → BitVec 32) (channels : BitVec 32) (w : Device) : Device :=
  { w with regs := fun f => if f.pending then w.regs f ||| (events f &&& channels) else w.regs f }

-- What is written to a pending register is cleared in it.
def write (field : Field) (value : BitVec 32) (w : Device) : Device :=
  let value := if field.pending then w.regs field &&& ~~~value else value
  { w with regs := Function.update w.regs field value }

def setPin (pin : Nat) (cfg : Pin) (w : Device) : Device :=
  { w with pins := Function.update w.pins pin cfg }

-- Whether a pin is at a channel, and driven to the high level by it.
def drivenHigh (w : Device) (pin : Nat) : Bool :=
  let cfg    := w.pins pin
  let signal := signalMask b cfg.chSel
  let enable := decide (w.regs .outputEn &&& signal ≠ 0)
  let value  := decide ((w.regs .outputVal ^^^ w.regs .outputXor) &&& signal ≠ 0)
  signal ≠ 0 && cfg.oeEn && (enable ^^ cfg.oeInv) &&
    ((if cfg.doSel then enable else value) ^^ cfg.doInv)

end Device

-- With the number of times that the clock has been read.
structure World extends Device where
  reads : Nat

-- What is left open in a call: whether it fails, if it is one to the FPIOA; whether it does when it
-- is to change a pin that is at a channel; the level of a pad; the levels of the channels; and the
-- events that come along.
structure Decision where
  fails : Bool
  sticks : Bool
  padDi : Bool
  level : BitVec 32
  events : Field → BitVec 32

namespace World

variable (b : Board) (clock : Nat → UInt64)

def perform (d : Decision) : (c : Call) → World → c.Reply × World
  | .getIo pin, w         => (if d.fails then none else some (w.pins pin, d.padDi), w)
  | .setIo pin cfg, w     =>
    let failed := if signalMask b (w.pins pin).chSel = 0 then d.fails else d.sticks
    (failed, if failed then w else { w with toDevice := w.setPin pin cfg })
  | .timeUs, w            => (clock w.reads, { w with reads := w.reads + 1 })
  | .read field, w        => (w.regs field, w)
  | .inputVal, w          => (d.level, w)
  | .write field value, w => ((), { w with toDevice := w.toDevice.write field value })
  | .irqSave, w           => (w.mie, { w with mie := false })
  | .irqRestore state, w  => ((), { w with mie := state || w.mie })

-- With each call there may be events of the channels that are at a pin before or after it.
def handler : Handler Call Call.Reply World Decision :=
  fun d c w =>
    let next := w.perform b clock d c
    let events := next.snd.notice d.events (w.routed b ||| next.snd.routed b)
    (next.fst, { next.snd with toDevice := events })

end World
end Power
