import HackyLens.Storage.Littlefs

-- The lines that a script has printed, as `micropython_app.c` keeps them.

namespace Micropython

open Lfs (CString ascii)

def logHistoryLines : Nat := 48
def logVisibleLines : Nat := 9
def logColumns : Nat := 25

-- The lines are in order, the oldest one first. There is always one that is being written.
structure Log where
  lines : List CString
  follow : Bool
  top : Nat
  liveDirty : Bool

namespace Log

-- `log_reset`
def reset : Log where
  lines     := [[]]
  follow    := true
  top       := 0
  liveDirty := true

def last (log : Log) : CString :=
  log.lines.getLastD []

-- `log_new_line`, which drops the oldest line if there are too many.
def newLine (log : Log) : Log :=
  if log.lines.length < logHistoryLines then
    { log with lines := log.lines ++ [[]] }
  else
    { log with
      lines := log.lines.tail ++ [[]]
      top   := if !log.follow ∧ log.top ≠ 0 then log.top - 1 else log.top }

def append (log : Log) (c : UInt8) : Log :=
  { log with lines := log.lines.dropLast ++ [log.last ++ [c]] }

-- A round of the loop of `log_bytes`.
def put (log : Log) (c : UInt8) : Log :=
  if c = 0x0D then
    log
  else if c = 0x0A then
    log.newLine
  else
    let log := if log.last.length ≥ logColumns then log.newLine else log
    log.append (if c ≥ 0x20 ∧ c < 0x7F then c else 0x3F)

-- `log_bytes`
def bytes (log : Log) (data : List UInt8) : Log :=
  { data.foldl put log with liveDirty := true }

-- `log_message`
def message (log : Log) (text : CString) : Log :=
  let log := if log.last ≠ [] then log.newLine else log
  (log.bytes text).newLine

-- `log_effective_count`
def effectiveCount (log : Log) : Nat :=
  if log.lines.length = 1 ∧ log.last = [] then
    0
  else if log.lines.length > 1 ∧ log.last = [] then
    log.lines.length - 1
  else
    log.lines.length

def maximumTop (log : Log) : Nat :=
  log.effectiveCount - logVisibleLines

-- `prepare_log_view`, apart from the lines.
def prepare (log : Log) : Log :=
  { log with top := if log.follow then log.maximumTop else min log.top log.maximumTop }

-- The lines that `prepare_log_view` puts into the view.
def shown (log : Log) : List CString :=
  (log.lines.drop log.top).take (min (log.effectiveCount - log.top) logVisibleLines)

-- The left button of `handle_console_buttons`.
def pageUp (log : Log) : Log :=
  { log with follow := false, top := log.top - logVisibleLines }

-- The right button.
def pageDown (log : Log) : Log :=
  if log.top + logVisibleLines ≥ log.maximumTop then
    { log with top := log.maximumTop, follow := true }
  else
    { log with top := log.top + logVisibleLines }

end Log
end Micropython
