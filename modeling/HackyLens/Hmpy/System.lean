import HackyLens.Hmpy.Session

-- The session among the other functions of the firmware that use the user file system:
-- `power_shutdown.c` and the app of `micropython_app.c`.

open Userfs (Result)

namespace Hmpy.Session

def shutdownRestore (fuel : Nat) : Task Unit := do
  if (← get).remount then
    let _ ← userfs (Userfs.mount fuel)
  modify fun g => { g with remount := false }

-- Whether there is a deadline and it has passed.
def expired (deadline : App.Deadline) : Task Bool := do
  if deadline = 0 then
    return false
  return (← ask .timeUs) ≥ deadline

def abortUpload (uploadId : UInt32) : Task Result := do
  if uploadId = 0 then
    return .ok
  userfs (Userfs.uploadAbort uploadId)

def unmountFiles (state : Userfs.State) : Task Result := do
  if state ≠ .mounted then
    return .ok
  let result ← userfs Userfs.unmount
  if result = .ok then
    modify fun g => { g with remount := true }
  return result

def shutdownPrepare (fuel : Nat) (deadline : App.Deadline) : Task App.Result := do
  if ← expired deadline then
    return App.Result.deadlineExceeded
  let runtime ← ask .runtimeStatus
  if runtime.state.active then
    let _ ← ask .requestStop
    return App.Result.pending
  if !(← ask .settingsFlush) then
    return App.Result.io
  let filesystem ← userfs Userfs.getStatus
  if (← abortUpload filesystem.uploadId) ≠ .ok then
    return App.Result.io
  if (← unmountFiles filesystem.state) ≠ .ok then
    return App.Result.io
  if ← expired deadline then
    shutdownRestore fuel
    return App.Result.deadlineExceeded
  return App.Result.ok

-- What can happen between the steps of the session. `files` is a use of the user file system by the
-- app or by the program loader.
inductive Op
  | sessionBegin
  | sessionTick
  | shutdownPrepare (deadline : App.Deadline)
  | shutdownRestore
  | files (op : Userfs.Op)

def Op.perform (build : Build) (fuel : Nat) : Op → Task Unit
  | sessionBegin             => Session.sessionBegin fuel
  | sessionTick              => Session.sessionTick build fuel
  | shutdownPrepare deadline => (fun _ => ()) <$> Session.shutdownPrepare fuel deadline
  | shutdownRestore          => Session.shutdownRestore fuel
  | files op                 => (fun _ => ()) <$> userfs (op.perform fuel)

-- Only the session uploads, and only the shutdown unmounts. The command that formats is a line of
-- text, and those are not read while there is a session.
def Op.Admitted (g : Globals) : Op → Prop
  | files (.uploadBegin _ _ _ _) | files (.uploadWrite _ _ _) => False
  | files (.uploadCommit _) | files (.uploadAbort _)          => False
  | files .unmount                                            => False
  | files .formatExplicit                                     => g.session.active = false
  | _                                                         => True

end Hmpy.Session
