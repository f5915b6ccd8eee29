import HackyLens.Link.Adapter
import HackyLens.Lib.Run

-- What the callers of the external connector may rely on. It is told from the replies alone, and
-- nothing of the adapter's state is used.

namespace ExternalLink

open App (Result)

-- The latest operation that was begun. `tx` and `rx` are what was last reported of it, and `outcome`
-- is the reply that it has ended with.
@[ext]
structure Entry where
  token : Token
  txSize : UInt32
  rxSize : UInt32
  tx : UInt32
  rx : UInt32
  outcome : Option (Result × Progress)

namespace Entry

def report (entry : Entry) (result : Result) (progress : Progress) : Entry :=
  { entry with
    tx      := progress.txCompletedBytes
    rx      := progress.rxCompletedBytes
    outcome := if progress.terminal then some (result, progress) else entry.outcome }

-- The progress may be reported when at most `budget` bytes have been moved since the last time.
structure Allows (entry : Entry) (budget : Nat) (result : Result) (progress : Progress) : Prop where
  tx : entry.tx ≤ progress.txCompletedBytes ∧ progress.txCompletedBytes ≤ entry.txSize
  rx : entry.rx ≤ progress.rxCompletedBytes ∧ progress.rxCompletedBytes ≤ entry.rxSize
  moved : progress.txCompletedBytes.toNat + progress.rxCompletedBytes.toNat ≤
    entry.tx.toNat + entry.rx.toNat + budget
  terminal : progress.terminal = true ↔ result ≠ .pending
  outcome : ∀ o ∈ entry.outcome, o = (result, progress)

end Entry

-- The generations that were handed out, the latest first.
@[ext]
structure Ledger where
  issued : List UInt32
  session : Nat
  latest : Option Entry

namespace Ledger

def empty : Ledger :=
  ⟨[], 0, none⟩

def forget (ledger : Ledger) : Ledger :=
  { ledger with latest := none }

def begun (ledger : Ledger) (txSize rxSize : UInt32) : Reply → Ledger
  | .begun .pending (some token) =>
    { ledger with
      issued := token.generation :: ledger.issued
      latest := some ⟨token, txSize, rxSize, 0, 0, none⟩ }
  | _ => ledger

def polled (ledger : Ledger) : Reply → Ledger
  | .polled result (some progress) =>
    { ledger with latest := ledger.latest.map fun entry => entry.report result progress }
  | _ => ledger

def step (ledger : Ledger) : Op → Reply → Ledger
  | .open session _, reply =>
    if reply = .result .ok then ⟨ledger.issued, session, none⟩ else ledger
  | .close _ _, reply =>
    if reply = .result .ok then ⟨ledger.issued, 0, none⟩ else ledger
  | .retire session, _ =>
    if ledger.session = session then ⟨ledger.issued, 0, none⟩ else ledger
  | .configureUart _ _, reply | .configureI2cController _ _, reply
  | .configureI2cTarget _ _, reply =>
    if reply = .result .ok then ledger.forget else ledger
  | .uartWriteBegin _ _ txSize _ _, reply              => ledger.begun txSize 0 reply
  | .i2cTransferBegin _ _ _ txSize _ rxSize _ _, reply => ledger.begun txSize rxSize reply
  | .poll _ _, reply | .cancel _ _, reply              => ledger.polled reply

def of : List (Op × Option Reply) → Ledger
  | []                      => empty
  | (op, some reply) :: es  => (of es).step op reply
  | (_, none) :: es         => of es

-- An accepted operation has a new generation, and the one before it has ended.
def AllowsBegun (ledger : Ledger) : Reply → Prop
  | .begun result token =>
    if result = .pending then
      (∃ g, token = some ⟨operationSlot, g⟩ ∧ g ≠ 0 ∧ g ∉ ledger.issued) ∧
        ledger.issued.length < 0xFFFFFFFF ∧ ∀ entry ∈ ledger.latest, entry.outcome ≠ none
    else
      token = none ∨ token = some .none
  | _ => False

-- Only the session's token of the latest operation is accepted, and that always.
def AllowsPolled (ledger : Ledger) (budget session : Nat) (token : Option Token) : Reply → Prop
  | .polled result (some progress) =>
    ∃ entry ∈ ledger.latest, session = ledger.session ∧ token = some entry.token ∧
      entry.Allows budget result progress
  | .polled result none =>
    (result = .internal ∨ result = .staleHandle) ∧
      ∀ entry ∈ ledger.latest, session = ledger.session → token ≠ some entry.token
  | _ => False

def Allows (ledger : Ledger) : Op → Reply → Prop
  | .uartWriteBegin _ _ _ _ _, reply | .i2cTransferBegin _ _ _ _ _ _ _ _, reply =>
    ledger.AllowsBegun reply
  | .poll session token, reply   => ledger.AllowsPolled pollBytes.toNat session token reply
  | .cancel session token, reply => ledger.AllowsPolled 0 session token reply
  | .retire _, reply             => reply = .retired
  | _, reply                     => ∃ result, reply = .result result

end Ledger

-- The operation is refused because another one is in flight.
def Reply.Busy : Reply → Prop
  | .result r  => r = .busy
  | .begun r _ => r = .busy
  | _          => False

end ExternalLink
