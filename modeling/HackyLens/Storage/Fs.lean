import Mathlib.Data.List.AList
import HackyLens.Storage.Userfs

-- What littlefs is assumed to do: a call takes effect at once, or it fails and has no effect, except
-- that a write may store a part of its data. What is written to a file shows when the file is synced
-- or closed.
namespace Lfs

inductive Entry
  | reg (data : List UInt8)
  | dir
  deriving DecidableEq

def Entry.info (name : CString) : Entry → Info
  | reg data => ⟨.reg, data.length.toUInt32, name⟩
  | dir      => ⟨.dir, 0, name⟩

structure OpenFile where
  name : CString
  writable : Bool
  data : List UInt8
  position : Nat

-- The root directory, the files that are open, and what the open directory has still to yield.
structure Fs where
  entries : AList fun _ : CString => Entry
  opened : File → Option OpenFile
  nextNumber : Nat
  listing : List Info

namespace Fs

def find (fs : Fs) (name : CString) : Option Entry :=
  fs.entries.lookup name

def infos (fs : Fs) : List Info :=
  [⟨.dir, 0, ascii "."⟩, ⟨.dir, 0, ascii ".."⟩] ++ fs.entries.entries.map fun e => e.2.info e.1

-- A mount or an unmount forgets all that was open.
def forget (fs : Fs) : Fs :=
  { fs with opened := fun _ => none, listing := [] }

def update (fs : Fs) (file : File) (o : Option OpenFile) : Fs :=
  { fs with opened := Function.update fs.opened file o }

-- The data of a file that was written to become its content.
def publish (fs : Fs) (o : OpenFile) : Fs :=
  if o.writable then { fs with entries := fs.entries.insert o.name (.reg o.data) } else fs

-- `LFS_ERR_FBIG` is returned for larger files, and `LFS_ERR_NAMETOOLONG` for names that are longer
-- than `g_config.name_max`.
def fileMax : Nat := Userfs.fileMax.toNat

-- The effect of a call that does not fail for want of the device. What littlefs does with a file
-- that is not open is not known: any reply is possible, but nothing happens to the named files.
def perform (fs : Fs) : (c : Call) → c.Reply → c.Reply × Fs
  | .mount,                  _ => (.ok (), fs.forget)
  | .unmount,                _ => (.ok (), fs.forget)
  | .format,                 _ => (.ok (), { fs.forget with entries := ∅ })
  | .fsSize,                 r => (r, fs)
  | .dirOpen _,              _ => (.ok (), { fs with listing := fs.infos })
  | .dirRead,                _ => (.ok fs.listing.head?, { fs with listing := fs.listing.tail })
  | .dirClose,               _ => (.ok (), { fs with listing := [] })
  | .stat path,              _ => (((fs.find path).map (Entry.info path)).elim (.error .noent) .ok, fs)
  | .remove path,            _ =>
    match fs.find path with
    | some _ => (.ok (), { fs with entries := fs.entries.erase path })
    | none   => (.error .noent, fs)
  | .rename oldpath newpath, _ =>
    if newpath.length > Userfs.nameMax then
      (.error .nametoolong, fs)
    else
      match fs.find oldpath, fs.find newpath with
      | none,          _               => (.error .noent, fs)
      | some (.reg _), some .dir       => (.error .isdir, fs)
      | some .dir,     some (.reg _)   => (.error .notdir, fs)
      | some entry,    _               =>
        (.ok (), { fs with entries := (fs.entries.erase oldpath).insert newpath entry })
  | .fileOpencfg path flags, _ =>
    let file : File := ⟨fs.nextNumber + 1⟩
    let fs' := { fs with nextNumber := fs.nextNumber + 1 }
    match flags, fs.find path with
    | .rdonly,          none             => (.error .noent, fs)
    | .rdonly,          some .dir        => (.error .isdir, fs)
    | .rdonly,          some (.reg data) => (.ok file, fs'.update file <| some ⟨path, false, data, 0⟩)
    | .wronlyCreatExcl, some _           => (.error .exist, fs)
    | .wronlyCreatExcl, none             =>
      if path.length > Userfs.nameMax then
        (.error .nametoolong, fs)
      else
        (.ok file, { fs'.update file <| some ⟨path, true, [], 0⟩ with
          entries := fs.entries.insert path (.reg [])
        })
  | .fileSeek file off,      r =>
    match fs.opened file with
    | none   => (r, fs)
    | some o => (.ok off.toNat, fs.update file <| some { o with position := off.toNat })
  | .fileRead file size,     r =>
    match fs.opened file with
    | none   => (r, fs)
    | some o =>
      let data := (o.data.drop o.position).take size
      (.ok ⟨data, List.length_take_le _ _⟩,
        fs.update file <| some { o with position := o.position + data.length })
  -- The files that are written are not sought in, so that all is written to their end.
  | .fileWrite file buffer,  r =>
    match fs.opened file with
    | none   => (r, fs)
    | some o =>
      if o.data.length + buffer.length > fileMax then
        (.error .fbig, fs)
      else
        (.ok buffer.length, fs.update file <| some { o with data := o.data ++ buffer })
  | .fileSync file,          r =>
    match fs.opened file with
    | none   => (r, fs)
    | some o => (.ok (), fs.publish o)
  | .fileClose file,         r =>
    match fs.opened file with
    | none   => (r, fs)
    | some o => (.ok (), (fs.publish o).update file none)

-- The effect of a write that only stores `kept` bytes, and of other calls that fail.
def fail (fs : Fs) (kept : Nat) : Call → Fs
  | .fileWrite file buffer =>
    match fs.opened file with
    | none   => fs
    | some o =>
      if o.data.length + buffer.length > fileMax then
        fs
      else
        fs.update file <| some { o with data := o.data ++ buffer.take kept }
  | .fileClose file        => fs.update file none
  | _                      => fs

-- The effect of a call where a write returns that it stored only `kept` bytes.
def short (fs : Fs) (kept : Nat) : (c : Call) → c.Reply → c.Reply × Fs
  | .fileWrite file buffer, r =>
    if kept < buffer.length then
      (.ok kept, fs.fail kept (.fileWrite file buffer))
    else
      fs.perform (.fileWrite file buffer) r
  | c,                      r => fs.perform c r

end Fs

-- What can go wrong with a call at any time. A file that is there is always found.
inductive Fault
  | error (e : Error) (kept : Nat) (ne : e ≠ .noent)
  | short (kept : Nat)

-- For each call it is decided what goes wrong. The answers of the flash driver are arbitrary.
structure Decision where
  fault : Option Fault
  answer : (c : Userfs.Call) → c.Reply

def Decision.fails (d : Decision) : Bool :=
  match d.fault with
  | some (.error ..)      => true
  | some (.short _) | none => false

def Fs.answer (fs : Fs) (d : Decision) (c : Call) : c.Reply × Fs :=
  match d.fault with
  | none                   => fs.perform c (d.answer (.lfs c))
  | some (.error e kept _) => (.error e, fs.fail kept c)
  | some (.short kept)     => fs.short kept c (d.answer (.lfs c))

def handler : Prog.Handler Userfs.Call Userfs.Call.Reply Fs Decision
  | d, .flash c, fs => (d.answer (.flash c), fs)
  | d, .lfs c,   fs => fs.answer d c

-- A call that goes well, and one that fails.
def Decision.passes : Decision :=
  ⟨none, Userfs.succeed⟩

def Decision.breaks : Decision :=
  ⟨some <| .error .io 0 nofun, Userfs.succeed⟩

def Fs.empty : Fs :=
  ⟨∅, fun _ => none, 0, []⟩

end Lfs
