import HackyLens.Lib.Wp

-- The part of the littlefs interface that the user file system calls.
namespace Lfs

-- A C string without its terminator.
abbrev CString := List UInt8

def ascii (s : String) : CString :=
  s.toList.map fun c => c.toNat.toUInt8

inductive Error
  | io | corrupt | noent | exist | notdir | isdir | notempty | badf | fbig | inval | nospc | nomem
  | noattr | nametoolong
  deriving DecidableEq

inductive FileType
  | reg | dir
  deriving DecidableEq

-- `struct lfs_info`
structure Info where
  type : FileType
  size : UInt32
  name : CString
  deriving DecidableEq

-- What identifies an open file in an `lfs_file_t`. A zeroed `lfs_file_t` has the number 0, which
-- `lfs_file_opencfg` never gives out.
structure File where
  number : Nat
  deriving DecidableEq

inductive OpenFlags
  -- `LFS_O_RDONLY`
  | rdonly
  -- `LFS_O_WRONLY | LFS_O_CREAT | LFS_O_EXCL`
  | wronlyCreatExcl
  deriving DecidableEq

inductive Call
  | mount
  | unmount
  | format
  | fsSize
  | dirOpen (path : CString)
  | dirRead
  | dirClose
  | stat (path : CString)
  | remove (path : CString)
  | rename (oldpath newpath : CString)
  | fileOpencfg (path : CString) (flags : OpenFlags)
  | fileSeek (file : File) (off : UInt32)
  | fileRead (file : File) (size : Nat)
  | fileWrite (file : File) (buffer : List UInt8)
  | fileSync (file : File)
  | fileClose (file : File)
  deriving DecidableEq

-- What a call returns besides a negative error code.
abbrev Call.Value : Call → Type
  | mount | unmount | format => Unit
  | fsSize                   => Nat
  | dirOpen _ | dirClose     => Unit
  -- The end of the directory is `none`.
  | dirRead                  => Option Info
  | stat _                   => Info
  | remove _ | rename _ _    => Unit
  | fileOpencfg _ _          => File
  | fileSeek _ _             => Nat
  | fileRead _ size          => { data : List UInt8 // data.length ≤ size }
  | fileWrite _ _            => Nat
  | fileSync _ | fileClose _ => Unit

abbrev Call.Reply (c : Call) : Type :=
  Except Error c.Value

-- The file that a call reads, writes, syncs or closes.
def Call.file? : Call → Option File
  | fileSeek f _ | fileRead f _ | fileWrite f _ | fileSync f | fileClose f => some f
  | _                                                                      => none

end Lfs

namespace InternalFlash

-- `internal_flash_info_t`
structure Info where
  capacity : UInt32
  initialized : Bool

-- `internal_flash_partition_info_t`
structure PartitionInfo where
  size : UInt32
  requiredCapacity : UInt32
  available : Bool

-- The driver functions that are used, on the user file system's partition. Their results are only
-- ever compared with `INTERNAL_FLASH_OK`.
inductive Call
  | getInfo
  | init (hz : UInt32)
  | partitionInfo
  | read (offset : UInt32) (len : Nat)

abbrev Call.Reply : Call → Type
  | getInfo       => Info
  | init _        => Bool
  | partitionInfo => Option PartitionInfo
  | read _ _      => Option (List UInt8)

end InternalFlash
