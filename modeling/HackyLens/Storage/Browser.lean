import HackyLens.Storage.FileScan

-- `file_browser_state.c`, `file_delete.c` and what `files_actions.c` does while the list is shown.
-- The volume is mounted.

namespace Fat32

open Core

def filesStackMax : Nat := 8
def filesRows : Nat := 7

-- The stack begins with the cluster that was pushed last.
structure Browser where
  cluster : UInt32
  stack : List UInt32
  files : List FileEntry
  index : Nat
  top : Nat

def FileEntry.isDir (file : FileEntry) : Prop :=
  file.attr &&& 0x10 ≠ 0

instance {file : FileEntry} : Decidable file.isDir :=
  inferInstanceAs (Decidable (_ ≠ _))

-- The inner loop of `files_sort_newest_first`, over the files in front of the key, the last one
-- first.
def insertNewest (key : FileEntry) : List FileEntry → List FileEntry
  | []              => [key]
  | file :: before =>
    if file.modified < key.modified ∨
        file.modified = key.modified ∧ file.dirOrdinal < key.dirOrdinal then
      file :: insertNewest key before
    else
      key :: file :: before

def sortNewestFirst (files : List FileEntry) : List FileEntry :=
  (files.foldl (fun sorted key => insertNewest key sorted) []).reverse

namespace Browser

variable (b : Browser)

def selectedEntry : Option FileEntry :=
  b.files[b.index]?

def ensureVisible : Browser :=
  let b := if b.index < b.top then { b with top := b.index } else b
  if b.index ≥ b.top + filesRows then { b with top := b.index - filesRows + 1 } else b

-- Whether there was room on the stack, and the stack afterwards.
def pushCurrentCluster : Bool × Browser :=
  if b.stack.length ≥ filesStackMax then
    (false, b)
  else
    (true, { b with stack := b.cluster :: b.stack })

def selectDelta (delta : Int) : Browser :=
  if b.files.length = 0 then
    b
  else
    let index :=
      if delta < 0 then
        if b.index = 0 then b.files.length - 1 else b.index - 1
      else if delta > 0 then
        (b.index + 1) % b.files.length
      else
        b.index
    if b.index ≠ index then { b with index }.ensureVisible else b

end Browser

-- How the loop over the entries of a directory that is deleted ends.
inductive Emptied
  | failed
  | done
  | more (ordinal : UInt32) (lfnCount : UInt8)

namespace Layout

variable (g : Layout)

def freeRound (cluster : UInt32) : Task (Bool ⊕ UInt32) :=
  if inChain cluster then do
    let next ← g.nextCluster cluster
    if ← g.writeEntry cluster 0 then
      return if next ≥ eoc ∨ next < 2 then .inl true else .inr next
    else
      return .inl false
  else
    return .inl true

-- `fat_free_chain`
def freeChain (firstCluster : UInt32) : Task Bool := do
  if ← Prog.loop g.freeRound UInt32.size firstCluster then
    modify fun driver =>
      if firstCluster ≥ 2 ∧ firstCluster < driver.allocHint then
        { driver with allocHint := firstCluster }
      else
        driver
    return true
  else
    return false

section Contents

-- What deletes the contents of a directory in this one.
variable (deleteContents : UInt32 → Task Bool) (dirCluster : UInt32)

-- A file or directory is deleted, after its contents.
def deleteEntry (raw : Memory) (ordinal : UInt32) (lfnCount : UInt8) : Task Bool := do
  let cluster := (read16 raw 20).toUInt32 <<< 16 ||| (read16 raw 26).toUInt32
  if ← if raw 11 &&& 0x10 ≠ 0 ∧ cluster ≥ 2 then deleteContents cluster else pure true then
    if ← g.markDeleted dirCluster ordinal lfnCount then
      if cluster ≥ 2 then g.freeChain cluster else return true
    else
      return false
  else
    return false

-- Each entry is read when its turn comes, from the scratch memory that the deletions before it have
-- used as well.
def deleteEntries : (left entry : Nat) → (ordinal : UInt32) → (lfnCount : UInt8) → Task Emptied
  | 0,        _,     ordinal, lfnCount => return .more ordinal lfnCount
  | left + 1, entry, ordinal, lfnCount => do
    let driver ← get
    let raw := rawEntry driver.sectorData entry
    let counted := if lfnCount < 20 then lfnCount + 1 else lfnCount
    if raw 0 = 0x00 then
      return .done
    else if raw 0 = 0xE5 then
      deleteEntries left (entry + 1) (ordinal + 1) 0
    else if raw 11 = 0x0F then
      deleteEntries left (entry + 1) (ordinal + 1) counted
    else if raw 11 &&& 0x08 ≠ 0 ∨ raw 0 = 0x2E then
      deleteEntries left (entry + 1) (ordinal + 1) 0
    else if ← g.deleteEntry deleteContents dirCluster raw ordinal lfnCount then
      deleteEntries left (entry + 1) (ordinal + 1) 0
    else
      return .failed

def deleteSectors (base : UInt32) :
    (left s : Nat) → (ordinal : UInt32) → (lfnCount : UInt8) → Task Emptied
  | 0,        _, ordinal, lfnCount => return .more ordinal lfnCount
  | left + 1, s, ordinal, lfnCount => do
    if ← readBlock (base + .ofNat s) then
      match ← g.deleteEntries deleteContents dirCluster 16 0 ordinal lfnCount with
      | .failed                => return .failed
      | .done                  => return .done
      | .more ordinal lfnCount => deleteSectors base left (s + 1) ordinal lfnCount
    else
      return .failed

def deleteRound :
    UInt32 × UInt32 × UInt8 → Task (Bool ⊕ UInt32 × UInt32 × UInt8)
  | (current, ordinal, lfnCount) =>
    if inChain current then do
      match ← g.deleteSectors deleteContents dirCluster (g.clusterLba current)
        g.sectorsPerCluster.toNat 0 ordinal lfnCount with
      | .failed                => return .inl false
      | .done                  => return .inl true
      | .more ordinal lfnCount =>
        let next ← g.nextCluster current
        return .inr (next, ordinal, lfnCount)
    else
      return .inl true

end Contents

-- `files_delete_dir_contents`, up to a depth.
def deleteDirContents : (depth : Nat) → UInt32 → Task Bool
  | 0,         _          => Prog.hang
  | depth + 1, dirCluster =>
    Prog.loop (g.deleteRound (deleteDirContents depth) dirCluster) UInt32.size (dirCluster, 0, 0)

-- `files_load_dir`, for the current cluster.
def loadCurrent (b : Browser) : Task (Bool × Browser) := do
  let (ok, files) ← g.loadDir b.cluster
  return (ok, { b with files := if ok then sortNewestFirst files else files, index := 0, top := 0 })

-- What the card is asked to delete of a file.
def deleteFile (b : Browser) (entry : FileEntry) : Task Bool := do
  if ← if entry.isDir then g.deleteDirContents UInt32.size entry.cluster else pure true then
    if ← g.markDeleted b.cluster entry.dirOrdinal entry.lfnCount then
      if entry.cluster ≥ 2 then g.freeChain entry.cluster else return true
    else
      return false
  else
    return false

-- `files_delete_selected`
def deleteSelected (b : Browser) : Task (FileResult × Browser) :=
  match b.selectedEntry with
  | none       => return (.notFound, b)
  | some entry =>
    if entry.isDir ∧ entry.cluster < 2 then
      return (.deleteFailed, b)
    else do
      if ← g.deleteFile b entry then
        let (ok, b') ← g.loadCurrent b
        if !ok then
          return (.readError, b')
        else if b'.files.length = 0 then
          return (.ok, b')
        else
          let index := if b.index ≥ b'.files.length then b'.files.length - 1 else b.index
          return (.ok, { b' with index }.ensureVisible)
      else
        return (.deleteFailed, b)

-- `files_open_selected`, with a file that is left to the viewers.
def openSelected (b : Browser) : Task (Option FileEntry × Browser) :=
  match b.selectedEntry with
  | none       => return (none, b)
  | some entry =>
    if entry.isDir then
      if entry.cluster < 2 then
        return (none, b)
      else do
        let (_, b) := b.pushCurrentCluster
        let (_, b) ← g.loadCurrent { b with cluster := entry.cluster }
        return (none, b)
    else
      return (some entry, b)

-- `files_back_from_list` returns whether the browser is left.
def backFromList (b : Browser) : Task (Bool × Browser) :=
  match b.stack with
  | []               => return (true, b)
  | cluster :: stack => do
    let (_, b) ← g.loadCurrent { b with cluster, stack }
    return (false, b)

-- What `files_backend_enter` does when the volume is mounted.
def enter (rootCluster : UInt32) : Task (Bool × Browser) :=
  g.loadCurrent ⟨rootCluster, [], [], 0, 0⟩

end Layout

end Fat32
