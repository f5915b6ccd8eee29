import HackyLens.Core.Binary
import HackyLens.Storage.Littlefs

namespace Userfs

open Lfs (CString ascii)

def nameMax : Nat := 63
def fileMax : UInt32 := 256 * 1024
def uploadChunkMax : Nat := 1024

def blockSize : UInt32 := 4096
def cacheSize : Nat := 256
def startupFile : CString := ascii ".startup"
def metaTemp : CString := ascii ".meta-upload"
def uploadPrefix : CString := ascii ".upload-"

inductive State
  | uninitialized | unsupportedFlash | unformatted | corrupt | ioError | mounted
  deriving DecidableEq

inductive Result
  | ok
  | errorInvalidArgument | errorNotMounted | errorUnsupportedFlash | errorUnformatted
  | errorCorrupt | errorIo | errorNotFound | errorExists | errorNoSpace | errorBusy
  | errorOutOfOrder | errorSize | errorCrc
  deriving DecidableEq

-- `userfs_upload_t`
structure Upload where
  active : Bool
  fileOpen : Bool
  id : UInt32
  expectedSize : UInt32
  expectedCrc : UInt32
  offset : UInt32
  target : CString
  temporary : CString
  file : Lfs.File
  deriving DecidableEq

def Upload.zero : Upload :=
  ⟨false, false, 0, 0, 0, 0, [], [], ⟨0⟩⟩

-- The static variables, apart from the ones that littlefs works on.
structure Ram where
  blockCount : UInt32
  blockSize : UInt32
  upload : Upload
  state : State
  lastError : Result
  nextUploadId : UInt32
  deriving DecidableEq

-- The number that the next upload gets.
def Ram.nextId (ram : Ram) : UInt32 :=
  if ram.nextUploadId + 1 = 0 then 1 else ram.nextUploadId + 1

-- After a reset.
def Ram.zero : Ram :=
  ⟨0, 0, .zero, .uninitialized, .ok, 0⟩

inductive Call
  | lfs (c : Lfs.Call)
  | flash (c : InternalFlash.Call)

abbrev Call.Reply : Call → Type
  | lfs c   => c.Reply
  | flash c => c.Reply

-- A function of the user file system.
abbrev Task := Prog Call Call.Reply Ram

def lfs (c : Lfs.Call) : Task c.Reply :=
  Prog.call (Call.lfs c)

def flash (c : InternalFlash.Call) : Task c.Reply :=
  Prog.call (Call.flash c)

def remember (result : Result) : Task Result := do
  modify fun ram => { ram with lastError := result }
  return result

def setState (state : State) : Task Unit :=
  modify fun ram => { ram with state }

-- `memset(&g_config, ...)` and what `userfs_get_status` reads of the rest.
def configure (partitionSize : UInt32) : Task Unit :=
  modify fun ram => { ram with blockCount := partitionSize / blockSize, blockSize }

def fromError : Lfs.Error → Result
  | .noent                => .errorNotFound
  | .exist                => .errorExists
  | .nospc                => .errorNoSpace
  | .inval | .nametoolong => .errorInvalidArgument
  | .corrupt              => .errorCorrupt
  | _                     => .errorIo

def fromLfs {α : Type} : Except Lfs.Error α → Result
  | .ok _    => .ok
  | .error e => fromError e

def nameChar (c : UInt8) : Bool :=
  (c ≥ 97 && c ≤ 122) || (c ≥ 65 && c ≤ 90) || (c ≥ 48 && c ≤ 57) || c == 45 || c == 95 || c == 46

-- `name` is `NULL` where it is `none`.
def normalName (name : CString) : CString :=
  if name.head? = some 47 then name.tail else name

def validName (name : Option CString) (allowHidden : Bool) : Bool :=
  match name with
  | none      => false
  | some name =>
    let name := normalName name
    if name.length = 0 || name.length > nameMax || (!allowHidden && name.head? == some 46) then
      false
    else
      name.all nameChar && name != ascii "." && name != ascii ".."

-- The offsets that are read of the first two blocks.
def blankOffsets : List UInt32 :=
  [0, blockSize].flatMap fun block =>
    (List.range (blockSize.toNat / cacheSize)).map fun i => block + (i * cacheSize).toUInt32

def blankMedia : Task Bool :=
  blankOffsets.allM fun offset => do
    match ← flash (.read offset cacheSize) with
    | none      => return false
    | some data => return data.all (· == 0xFF)

def clearUpload : Task Unit :=
  modify fun ram => { ram with upload := .zero }

-- The name of the next entry that a mount has to remove.
def findStale (fuel : Nat) : Task CString :=
  .loop (fun _ => do
    match ← lfs .dirRead with
    | .ok (some info) =>
      if uploadPrefix <+: info.name ∨ info.name = metaTemp then
        return .inl (info.name.take nameMax)
      else
        return .inr ()
    | .ok none | .error _ => return .inl []) fuel ()

def cleanupUploads (fuel : Nat) : Task Unit :=
  .loop (fun _ => do
    match ← lfs (.dirOpen (ascii "/")) with
    | .error _ => return .inl ()
    | .ok _    =>
      let stale ← findStale fuel
      let _ ← lfs .dirClose
      if stale = [] then
        return .inl ()
      match ← lfs (.remove stale) with
      | .error _ => return .inl ()
      | .ok _    => return .inr ()) fuel ()

-- How `userfs_mount` and `userfs_format_explicit` start. Only the mount asks for the information
-- again after it initialised the driver.
def readyFlash (again : Bool) : Task (Option InternalFlash.Info) := do
  let info ← flash .getInfo
  if info.initialized then
    return some info
  if !(← flash (.init 10000000)) then
    return none
  if again then
    return some (← flash .getInfo)
  return some info

def mount (fuel : Nat) : Task Result := do
  if (← get).state = .mounted then
    return ← remember .ok
  let some info ← readyFlash true
    | setState .ioError
      return ← remember .errorIo
  let some partition ← flash .partitionInfo
    | setState .unsupportedFlash
      return ← remember .errorUnsupportedFlash
  if !partition.available || info.capacity != partition.requiredCapacity then
    setState .unsupportedFlash
    return ← remember .errorUnsupportedFlash
  configure partition.size
  match ← lfs .mount with
  | .ok _ =>
    setState .mounted
    clearUpload
    cleanupUploads fuel
    remember .ok
  | .error .corrupt =>
    if ← blankMedia then
      setState .unformatted
      remember .errorUnformatted
    else
      setState .corrupt
      remember .errorCorrupt
  | .error _ =>
    setState .ioError
    remember .errorIo

def fileOpen (name : CString) (flags : Lfs.OpenFlags) : Task (Except Lfs.Error Lfs.File) :=
  lfs (.fileOpencfg name flags)

def uploadAbort (uploadId : UInt32) : Task Result := do
  let upload := (← get).upload
  if !upload.active || uploadId != upload.id then
    return ← remember .errorInvalidArgument
  if upload.fileOpen then
    let _ ← lfs (.fileClose upload.file)
  let _ ← lfs (.remove upload.temporary)
  clearUpload
  remember .ok

def unmount : Task Result := do
  let ram ← get
  if ram.state ≠ .mounted then
    return ← remember .errorNotMounted
  if ram.upload.active then
    let _ ← uploadAbort ram.upload.id
  let result ← lfs .unmount
  setState (if result.isOk then .uninitialized else .ioError)
  remember (fromLfs result)

-- The part of `userfs_format_explicit` after the file system is unmounted.
def formatUnmounted (fuel : Nat) : Task Result := do
  let some _ ← readyFlash false
    | setState .ioError
      return ← remember .errorIo
  let some partition ← flash .partitionInfo
    | setState .unsupportedFlash
      return ← remember .errorUnsupportedFlash
  if !partition.available then
    setState .unsupportedFlash
    return ← remember .errorUnsupportedFlash
  configure partition.size
  match ← lfs .format with
  | .error e =>
    setState .ioError
    remember (fromError e)
  | .ok _ =>
    setState .uninitialized
    mount fuel

def formatExplicit (fuel : Nat) : Task Result := do
  if (← get).state = .mounted then
    let _ ← unmount
  formatUnmounted fuel

-- `userfs_status_t`
structure Status where
  state : State
  lastError : Result
  totalBytes : UInt32
  usedBytes : UInt32
  uploadId : UInt32
  uploadOffset : UInt32
  uploadSize : UInt32

def getStatus : Task Status := do
  let ram ← get
  let blocks ← if ram.state = .mounted then lfs .fsSize else pure (.ok 0)
  let upload := if ram.upload.active then ram.upload else .zero
  return {
    state        := ram.state
    lastError    := ram.lastError
    totalBytes   := ram.blockCount * ram.blockSize
    usedBytes    := match blocks with
      | .ok blocks => blocks.toUInt32 * ram.blockSize
      | .error _   => 0
    uploadId     := upload.id
    uploadOffset := upload.offset
    uploadSize   := upload.expectedSize
  }

-- The callback keeps what it knows in a context of type `κ`.
abbrev ListCallback (κ : Type) := CString → UInt32 → κ → Bool × κ

def list {κ : Type} (fuel : Nat) (callback : Option (ListCallback κ)) (context : κ) :
    Task (Result × κ) := do
  let ram ← get
  if ram.state ≠ .mounted then
    return (← remember .errorNotMounted, context)
  if ram.upload.active then
    return (← remember .errorBusy, context)
  let some callback := callback
    | return (← remember .errorInvalidArgument, context)
  match ← lfs (.dirOpen (ascii "/")) with
  | .error e => return (← remember (fromError e), context)
  | .ok _    =>
    let (result, context) ← .loop (fun context => do
      match ← lfs .dirRead with
      | .error e        => return .inl (fromError e, context)
      | .ok none        => return .inl (.ok, context)
      | .ok (some info) =>
        if info.type ≠ .reg || info.name.head? == some 46 then
          return .inr context
        let (more, context) := callback info.name info.size context
        return if more then .inr context else .inl (.ok, context)) fuel context
    let _ ← lfs .dirClose
    return (← remember result, context)

-- The second component is what `*size` is set to. Here and below a flag tells whether a pointer
-- that the function only writes through is other than `NULL`.
def stat (name : Option CString) (size : Bool) : Task (Result × Option UInt32) := do
  if (← get).state ≠ .mounted then
    return (← remember .errorNotMounted, none)
  if !size || !validName name false then
    return (← remember .errorInvalidArgument, none)
  match ← lfs (.stat (normalName (name.getD []))) with
  | .error e => return (← remember (fromError e), none)
  | .ok info =>
    if info.type ≠ .reg then
      return (← remember .errorNotFound, none)
    return (← remember .ok, some info.size)

-- The second component is what is written to `data`, with its length in `*read_size`.
def read (name : Option CString) (offset : UInt32) (data : Bool) (capacity : Nat)
    (readSize : Bool) : Task (Result × List UInt8) := do
  let ram ← get
  if ram.state ≠ .mounted then
    return (← remember .errorNotMounted, [])
  if ram.upload.active then
    return (← remember .errorBusy, [])
  if !readSize || (capacity ≠ 0 && !data) || !validName name false then
    return (← remember .errorInvalidArgument, [])
  match ← fileOpen (normalName (name.getD [])) .rdonly with
  | .error e => return (← remember (fromError e), [])
  | .ok file =>
    match ← lfs (.fileSeek file offset) with
    | .error e =>
      let _ ← lfs (.fileClose file)
      return (← remember (fromError e), [])
    | .ok _ =>
      let count ← if capacity ≠ 0 then lfs (.fileRead file capacity) else pure (.ok ⟨[], by simp⟩)
      let _ ← lfs (.fileClose file)
      match count with
      | .error e => return (← remember (fromError e), [])
      | .ok data => return (← remember .ok, data)

-- The string that a buffer starts with.
def cString (buffer : List UInt8) : CString :=
  buffer.takeWhile (· ≠ 0)

-- The second component is the string written to `name`, if there is one.
def getStartup (name : Bool) (capacity : Nat) : Task (Result × Option CString) := do
  if (← get).state ≠ .mounted then
    return (← remember .errorNotMounted, none)
  if !name || capacity < 2 then
    return (← remember .errorInvalidArgument, none)
  match ← fileOpen startupFile .rdonly with
  | .error e => return (← remember (fromError e), none)
  | .ok file =>
    let count ← lfs (.fileRead file (capacity - 1))
    let _ ← lfs (.fileClose file)
    match count with
    | .error e => return (← remember (fromError e), none)
    | .ok data =>
      let name := cString data
      if !validName name false then
        return (← remember .errorCorrupt, some name)
      return (← remember .ok, some name)

def remove (name : Option CString) : Task Result := do
  let ram ← get
  if ram.state ≠ .mounted then
    return ← remember .errorNotMounted
  if ram.upload.active then
    return ← remember .errorBusy
  if !validName name false then
    return ← remember .errorInvalidArgument
  let name := normalName (name.getD [])
  let (startupResult, startup) ← getStartup true (nameMax + 1)
  if startupResult = .ok ∧ name = startup.getD [] then
    match ← lfs (.remove startupFile) with
    | .ok _ | .error .noent => pure ()
    | .error e              => return ← remember (fromError e)
  remember (fromLfs (← lfs (.remove name)))

def hexDigit (nibble : UInt32) : UInt8 :=
  (ascii "0123456789abcdef").getD nibble.toNat 0

-- The name of an upload's temporary file.
def temporaryName (id : UInt32) : CString :=
  uploadPrefix ++ (List.range 8).map fun i => hexDigit ((id >>> ((7 - i) * 4).toUInt32) &&& 0x0F)

-- The second component is what `*upload_id` is set to.
def uploadBegin (name : Option CString) (size crc32 : UInt32) (uploadId : Bool) :
    Task (Result × Option UInt32) := do
  let ram ← get
  if ram.state ≠ .mounted then
    return (← remember .errorNotMounted, none)
  if ram.upload.active then
    return (← remember .errorBusy, none)
  if !uploadId || !validName name false || size > fileMax then
    return (← remember .errorInvalidArgument, none)
  let id := ram.nextId
  modify fun ram => { ram with
    nextUploadId := id
    upload := { Upload.zero with
      id
      expectedSize := size
      expectedCrc  := crc32
      target       := (normalName (name.getD [])).take nameMax
      temporary    := temporaryName id
    }
  }
  let _ ← lfs (.remove (temporaryName id))
  match ← fileOpen (temporaryName id) .wronlyCreatExcl with
  | .error e =>
    clearUpload
    return (← remember (fromError e), none)
  | .ok file =>
    modify fun ram => { ram with upload := { ram.upload with file, fileOpen := true, active := true } }
    return (← remember .ok, some id)

-- A pointer to `const` data and a length.
inductive Buffer
  | null (length : Nat)
  | bytes (data : List UInt8)

def Buffer.data : Buffer → List UInt8
  | null _     => []
  | bytes data => data

def Buffer.length : Buffer → Nat
  | null length => length
  | bytes data  => data.length

-- A null pointer with a length other than zero.
def Buffer.missing : Buffer → Bool
  | null length => length ≠ 0
  | bytes _     => false

def uploadWrite (uploadId offset : UInt32) (buffer : Buffer) : Task Result := do
  let upload := (← get).upload
  if !upload.active || uploadId != upload.id then
    return ← remember .errorInvalidArgument
  if offset ≠ upload.offset then
    return ← remember .errorOutOfOrder
  if buffer.missing || buffer.length > uploadChunkMax ||
      buffer.length > (upload.expectedSize - upload.offset).toNat then
    return ← remember .errorSize
  match ← lfs (.fileWrite upload.file buffer.data) with
  | .error .nospc => remember .errorNoSpace
  | .error _      => remember .errorIo
  | .ok written   =>
    if written ≠ buffer.length then
      return ← remember .errorIo
    modify fun ram => { ram with
      upload := { ram.upload with offset := ram.upload.offset + buffer.length.toUInt32 }
    }
    remember .ok

def verifyUpload (fuel : Nat) : Task Result := do
  let upload := (← get).upload
  match ← fileOpen upload.temporary .rdonly with
  | .error e => return fromError e
  | .ok file =>
    let (count, crc, total) ← .loop (fun (crc, total) => do
      match ← lfs (.fileRead file cacheSize) with
      | .error e => return .inl (fromError e, crc, total)
      | .ok data =>
        if data.val.length = 0 then
          return .inl (.ok, crc, total)
        return .inr (Core.crc32Update crc data, total + data.val.length.toUInt32))
      fuel ((0, 0) : UInt32 × UInt32)
    let _ ← lfs (.fileClose file)
    if count ≠ .ok then
      return count
    if total ≠ upload.expectedSize then
      return .errorSize
    return if crc = upload.expectedCrc then .ok else .errorCrc

-- `lfs_file_sync` and then `lfs_file_close`, and the result of the first that fails.
def syncClose (file : Lfs.File) : Task (Except Lfs.Error Unit) := do
  let result ← lfs (.fileSync file)
  let closeResult ← lfs (.fileClose file)
  return if result.isOk then closeResult else result

def uploadCommit (fuel : Nat) (uploadId : UInt32) : Task Result := do
  let upload := (← get).upload
  if !upload.active || uploadId != upload.id then
    return ← remember .errorInvalidArgument
  if upload.offset ≠ upload.expectedSize then
    return ← remember .errorSize
  let result ← syncClose upload.file
  modify fun ram => { ram with upload := { ram.upload with fileOpen := false } }
  if !result.isOk then
    return ← remember (fromLfs result)
  let verify ← verifyUpload fuel
  if verify ≠ .ok then
    return ← remember verify
  match ← lfs (.rename upload.temporary upload.target) with
  | .error e => remember (fromError e)
  | .ok _ =>
    clearUpload
    remember .ok

def atomicMetadata (data : List UInt8) : Task Result := do
  let _ ← lfs (.remove metaTemp)
  match ← fileOpen metaTemp .wronlyCreatExcl with
  | .error e => return fromError e
  | .ok file =>
    let written ← lfs (.fileWrite file data)
    if written.toOption ≠ some data.length then
      let _ ← lfs (.fileClose file)
      let _ ← lfs (.remove metaTemp)
      return if written matches .error .nospc then .errorNoSpace else .errorIo
    let result ← syncClose file
    if result.isOk then
      return fromLfs (← lfs (.rename metaTemp startupFile))
    return fromLfs result

def setStartup (name : Option CString) : Task Result := do
  let ram ← get
  if ram.state ≠ .mounted then
    return ← remember .errorNotMounted
  if ram.upload.active then
    return ← remember .errorBusy
  if name.getD [] = [] then
    match ← lfs (.remove startupFile) with
    | .ok _ | .error .noent => remember .ok
    | .error e              => remember (fromError e)
  else if !validName name false then
    remember .errorInvalidArgument
  else
    let normal := normalName (name.getD [])
    match ← lfs (.stat normal) with
    | .error _ => remember .errorNotFound
    | .ok info =>
      if info.type ≠ .reg then
        remember .errorNotFound
      else
        remember (← atomicMetadata normal)

-- The public operations and their arguments.
inductive Op
  | mount
  | unmount
  | formatExplicit
  | getStatus
  -- The callback is told which entries it has been called with, the latest first.
  | list (callback : Option (List (CString × UInt32) → Bool))
  | stat (name : Option CString) (size : Bool)
  | read (name : Option CString) (offset : UInt32) (data : Bool) (capacity : Nat) (readSize : Bool)
  | remove (name : Option CString)
  | uploadBegin (name : Option CString) (size crc32 : UInt32) (uploadId : Bool)
  | uploadWrite (uploadId offset : UInt32) (buffer : Buffer)
  | uploadCommit (uploadId : UInt32)
  | uploadAbort (uploadId : UInt32)
  | setStartup (name : Option CString)
  | getStartup (name : Bool) (capacity : Nat)

def Op.perform (fuel : Nat) : Op → Task Result
  | mount                                    => Userfs.mount fuel
  | unmount                                  => Userfs.unmount
  | formatExplicit                           => Userfs.formatExplicit fuel
  | getStatus                                => Status.lastError <$> Userfs.getStatus
  | list callback                            =>
    let callback := callback.map fun f name size seen => (f ((name, size) :: seen), (name, size) :: seen)
    Prod.fst <$> Userfs.list fuel callback []
  | stat name size                           => Prod.fst <$> Userfs.stat name size
  | read name offset data capacity readSize  =>
    Prod.fst <$> Userfs.read name offset data capacity readSize
  | remove name                              => Userfs.remove name
  | uploadBegin name size crc32 uploadId     => Prod.fst <$> Userfs.uploadBegin name size crc32 uploadId
  | uploadWrite uploadId offset buffer       => Userfs.uploadWrite uploadId offset buffer
  | uploadCommit uploadId                    => Userfs.uploadCommit fuel uploadId
  | uploadAbort uploadId                     => Userfs.uploadAbort uploadId
  | setStartup name                          => Userfs.setStartup name
  | getStartup name capacity                 => Prod.fst <$> Userfs.getStartup name capacity

def resultName : Result → String
  | .ok                    => "ok"
  | .errorInvalidArgument  => "invalid-argument"
  | .errorNotMounted       => "not-mounted"
  | .errorUnsupportedFlash => "unsupported-flash"
  | .errorUnformatted      => "unformatted"
  | .errorCorrupt          => "corrupt"
  | .errorIo               => "io"
  | .errorNotFound         => "not-found"
  | .errorExists           => "exists"
  | .errorNoSpace          => "no-space"
  | .errorBusy             => "busy"
  | .errorOutOfOrder       => "out-of-order"
  | .errorSize             => "size"
  | .errorCrc              => "crc"

-- Answers with which all calls succeed.
def succeed : (c : Call) → c.Reply
  | .flash .getInfo                    => ⟨0, true⟩
  | .flash (.init _)                   => true
  | .flash .partitionInfo              => some ⟨0, 0, true⟩
  | .flash (.read _ _)                 => some []
  | .lfs .mount | .lfs .unmount        => .ok ()
  | .lfs .format | .lfs .dirClose      => .ok ()
  | .lfs .fsSize                       => .ok 0
  | .lfs (.dirOpen _)                  => .ok ()
  | .lfs .dirRead                      => .ok none
  | .lfs (.stat path)                  => .ok ⟨.reg, 0, path⟩
  | .lfs (.remove _)                   => .ok ()
  | .lfs (.rename _ _)                 => .ok ()
  | .lfs (.fileOpencfg _ _)            => .ok ⟨1⟩
  | .lfs (.fileSeek _ off)             => .ok off.toNat
  | .lfs (.fileRead _ _)               => .ok ⟨[], Nat.zero_le _⟩
  | .lfs (.fileWrite _ buffer)         => .ok buffer.length
  | .lfs (.fileSync _)                 => .ok ()
  | .lfs (.fileClose _)                => .ok ()

end Userfs
