import HackyLens.Core.Text
import HackyLens.Storage.FatDirectory

-- `file_dir_scan.c`: the entries of a directory, with the names that they are listed under.

namespace Fat32

open Core

def fileNameMax : Nat := 96
def fileLfnMaxUnits : Nat := 96

-- `fat_file_entry_t`
structure FileEntry where
  name : List UInt8
  attr : UInt8
  cluster : UInt32
  size : UInt32
  modified : UInt32
  dirOrdinal : UInt32
  lfnCount : UInt8
  deriving DecidableEq

-- The 32 bytes of an entry of a sector.
def rawEntry (sectorData : Memory) (entry : Nat) : Memory := fun i =>
  if i < 32 then sectorData (entry * 32 + i) else 0

def sectorEntries (sectorData : Memory) : List Memory :=
  (List.range 16).map (rawEntry sectorData)

-- What is copied of a field of a short name, which ends at the first space.
def nameField (raw : Memory) (first len : Nat) : List UInt8 :=
  (raw.read first len).takeWhile (· ≠ 0x20)

-- What `%s` prints of a string.
def printed (string : List UInt8) : List UInt8 :=
  string.takeWhile (· ≠ 0)

-- `file_dir_short_name`
def shortName (raw : Memory) : List UInt8 :=
  let base := nameField raw 0 8
  let ext := nameField raw 8 3
  if ext.headD 0 ≠ 0 then printed base ++ 0x2E :: printed ext else printed base

abbrev Units := Nat → UInt16

def lfnPositions : List Nat := [1, 3, 5, 7, 9, 14, 16, 18, 20, 22, 24, 28, 30]

-- The loop over the characters of an entry, from one of them on.
def lfnStoreFrom (raw : Memory) : (positions : List Nat) → (unit : Nat) → Units → Units
  | [],                    _,    lfn => lfn
  | position :: positions, unit, lfn =>
    if unit + 1 < fileLfnMaxUnits then
      let character := read16 raw position
      if character = 0x0000 ∨ character = 0xFFFF then
        Function.update lfn unit 0
      else
        lfnStoreFrom raw positions (unit + 1) (Function.update lfn unit character)
    else
      lfn

-- `file_dir_lfn_store`
def lfnStore (raw : Memory) (lfn : Units) : Units :=
  let sequence := raw 0 &&& 0x1F
  let lfn := if raw 0 &&& 0x40 ≠ 0 then fun _ => 0 else lfn
  if sequence = 0 then
    lfn
  else
    lfnStoreFrom raw lfnPositions ((sequence.toNat - 1) * 13) lfn

-- What the scan keeps from one entry to the next.
structure ScanState where
  lfn : Units
  ordinal : UInt32
  lfnCount : UInt8

def ScanState.start : ScanState :=
  ⟨fun _ => 0, 0, 0⟩

-- After all entries but those of long names.
def ScanState.forget (state : ScanState) : ScanState :=
  ⟨Function.update state.lfn 0 0, state.ordinal + 1, 0⟩

def fileEntry (raw : Memory) (state : ScanState) : FileEntry where
  name :=
    if state.lfn 0 ≠ 0 then utf16ToUtf8 state.lfn fileLfnMaxUnits fileNameMax else shortName raw
  attr       := raw 11
  cluster    := (read16 raw 20).toUInt32 <<< 16 ||| (read16 raw 26).toUInt32
  size       := read32 raw 28
  modified   := (read16 raw 24).toUInt32 <<< 16 ||| (read16 raw 22).toUInt32
  dirOrdinal := state.ordinal
  lfnCount   := state.lfnCount

-- The body of the loop over the entries of a sector, which returns nothing at the end of the directory.
def scanEntry (raw : Memory) (state : ScanState) : Option (Option FileEntry × ScanState) :=
  if raw 0 = 0x00 then
    none
  else if raw 0 = 0xE5 then
    some (none, state.forget)
  else if raw 11 = 0x0F then
    let lfnCount := if state.lfnCount < 20 then state.lfnCount + 1 else state.lfnCount
    some (none, ⟨lfnStore raw state.lfn, state.ordinal + 1, lfnCount⟩)
  else if raw 11 &&& 0x08 ≠ 0 ∨ raw 0 = 0x2E then
    some (none, state.forget)
  else
    some (some (fileEntry raw state), state.forget)

section Visitor

-- A visitor may stop the scan, and has a context of its own.
variable {γ : Type} (visitor : FileEntry → γ → Bool × γ)

-- The loop over the entries of a sector. It returns whether the scan goes on.
def scanEntries : List Memory → ScanState × γ → Bool × (ScanState × γ)
  | [],          scanned          => (true, scanned)
  | raw :: raws, (state, context) =>
    match scanEntry raw state with
    | none                => (false, (state, context))
    | some (none, state') => scanEntries raws (state', context)
    | some (some file, state') =>
      let (stop, context') := visitor file context
      if stop then (false, (state', context')) else scanEntries raws (state', context')

-- The loop over the sectors of a cluster, of which `left` are left from `s` on.
def scanSectors (base : UInt32) :
    (left s : Nat) → ScanState × γ → Task (Option Bool × (ScanState × γ))
  | 0,        _, scanned => return (some true, scanned)
  | left + 1, s, scanned => do
    if ← readBlock (base + .ofNat s) then
      let driver ← get
      let (more, scanned) := scanEntries visitor (sectorEntries driver.sectorData) scanned
      if more then
        scanSectors base left (s + 1) scanned
      else
        return (some false, scanned)
    else
      return (none, scanned)

namespace Layout

variable (g : Layout)

def scanRound :
    UInt32 × (ScanState × γ) → Task ((Bool × γ) ⊕ UInt32 × (ScanState × γ))
  | (current, scanned) =>
    if inChain current then do
      match ← scanSectors visitor (g.clusterLba current) g.sectorsPerCluster.toNat 0 scanned with
      | (none,       _, context) => return .inl (false, context)
      | (some false, _, context) => return .inl (true, context)
      | (some true,  scanned)    =>
        let next ← g.nextCluster current
        return .inr (next, scanned)
    else
      return .inl (true, scanned.snd)

-- `file_dir_scan`, with the context as the visitor has left it.
def scan (directoryCluster : UInt32) (context : γ) : Task (Bool × γ) :=
  Prog.loop (g.scanRound visitor) UInt32.size (directoryCluster, (.start, context))

end Layout
end Visitor

namespace Layout

variable (g : Layout)

-- A scan whose visitor takes all that there is.
def listFiles (directoryCluster : UInt32) : Task (Bool × List FileEntry) :=
  g.scan (fun file files => (false, files ++ [file])) directoryCluster []

end Layout

-- `files_add_entry`, with the list of `file_browser_state.c`
def filesMaxEntries : Nat := 64

def filesAddEntry (file : FileEntry) (files : List FileEntry) : List FileEntry :=
  if file.name = [] ∨ files.length ≥ filesMaxEntries then files else files ++ [file]

-- `files_parse_dir_sector` is the loop over the entries of a sector once more.
def filesParseDirSector (sectorData : Memory) :
    ScanState × List FileEntry → Bool × (ScanState × List FileEntry) :=
  scanEntries (fun file files => (false, filesAddEntry file files)) (sectorEntries sectorData)

-- The loop of `files_load_dir` over the sectors of a cluster, which ends when the list is full.
def loadSectors (base : UInt32) : (left s : Nat) → ScanState × List FileEntry →
    Task (Option Bool × (ScanState × List FileEntry))
  | 0,        _, scanned => return (some true, scanned)
  | left + 1, s, scanned => do
    if ← readBlock (base + .ofNat s) then
      let driver ← get
      let (keepGoing, scanned) := filesParseDirSector driver.sectorData scanned
      if !keepGoing || scanned.snd.length ≥ filesMaxEntries then
        return (some false, scanned)
      else
        loadSectors base left (s + 1) scanned
    else
      return (none, scanned)

namespace Layout

variable (g : Layout)

def loadRound : UInt32 × (ScanState × List FileEntry) →
    Task ((Bool × List FileEntry) ⊕ UInt32 × (ScanState × List FileEntry))
  | (current, scanned) =>
    if inChain current then do
      match ← loadSectors (g.clusterLba current) g.sectorsPerCluster.toNat 0 scanned with
      | (none,       _, files) => return .inl (false, files)
      | (some false, _, files) => return .inl (true, files)
      | (some true,  scanned)  =>
        let next ← g.nextCluster current
        return .inr (next, scanned)
    else
      return .inl (true, scanned.snd)

-- `files_load_dir`, with the list before it is sorted.
def loadDir (cluster : UInt32) : Task (Bool × List FileEntry) :=
  Prog.loop g.loadRound UInt32.size (cluster, (.start, []))

end Layout
end Fat32
