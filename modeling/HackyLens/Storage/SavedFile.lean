import HackyLens.Photo.Encode
import HackyLens.Storage.FileScan

-- The files that are saved to the card: `camera_photo_path.c` and `camera_photo_writer.c`,
-- `screenshot_path.c` and `screenshot_writer.c`, `qr_text_path.c` and `qr_text_writer.c`. They differ
-- in the names of the files and in what is written to them.

namespace Fat32

open Core

def fatAttrDir : UInt8 := 0x10
def fatAttrArchive : UInt8 := 0x20

-- The loop over the digits of a name.
def parseDigits : List UInt8 → UInt32 → Option UInt32
  | [],          value => some value
  | c :: digits, value =>
    if c < 0x30 ∨ 0x39 < c then none else parseDigits digits (value * 10 + (c - 0x30).toUInt32)

-- What the parsers of indices share: letters, five digits, a dot, and an extension of three letters,
-- which one of them does not look at.
def parseIndex (letters : List UInt8) (ext : Option (List UInt8)) (name : List UInt8) :
    Option UInt32 :=
  if name.length ≠ letters.length + 9 then
    none
  else if (name.take letters.length).map asciiLower ≠ letters then
    none
  else if name.getD (letters.length + 5) 0 ≠ 0x2E then
    none
  else if ext.any ((name.drop (letters.length + 6)).map asciiLower ≠ ·) then
    none
  else
    (parseDigits ((name.drop letters.length).take 5) 0).filter (· > 0)

-- `photo_parse_index`, `screenshot_parse_index` and `qr_text_parse_index`
def photoParseIndex : List UInt8 → Option UInt32 :=
  parseIndex [0x69, 0x6D, 0x67] none

def screenshotParseIndex : List UInt8 → Option UInt32 :=
  parseIndex [0x73, 0x63, 0x72] (some [0x62, 0x6D, 0x70])

def qrTextParseIndex : List UInt8 → Option UInt32 :=
  parseIndex [0x71, 0x72] (some [0x74, 0x78, 0x74])

-- `file_dir_max_visitor`
def maxVisitor (parser : List UInt8 → Option UInt32) (maximum : UInt32) (file : FileEntry) :
    UInt32 :=
  if file.attr &&& fatAttrDir ≠ 0 then
    maximum
  else
    match parser file.name with
    | some index => if index > maximum then index else maximum
    | none       => maximum

-- What `%05u` prints.
def printed05 (n : UInt32) : List UInt8 :=
  .replicate (5 - (Photo.decimal n.toNat).length) 0x30 ++ Photo.decimal n.toNat

-- `photo_format_ext`
def photoFormatExt : PhotoFormat → List UInt8
  | .raw565        => [0x52, 0x41, 0x57]
  | .ppm           => [0x50, 0x50, 0x4D]
  | .bmp24 | .bmp565 => [0x42, 0x4D, 0x50]

namespace Layout

variable (g : Layout)

-- `file_dir_find_max_file_index`
def findMaxFileIndex (parser : List UInt8 → Option UInt32) (dirCluster : UInt32) :
    Task (Option UInt32) := do
  match ← g.scan (fun file maximum => (false, maxVisitor parser maximum file)) dirCluster 0 with
  | (true,  maximum) => return some maximum
  | (false, _)       => return none

-- What the writers' functions for the next name share. The buffer for the name that is displayed has
-- the size `displaySize`.
def nextName (parser : List UInt8 → Option UInt32) (letters ext : List UInt8)
    (dirCluster : UInt32) (displaySize : Nat) : Task (Option (List UInt8 × List UInt8)) := do
  match ← g.findMaxFileIndex parser dirCluster with
  | none          => return none
  | some maxIndex =>
    if maxIndex ≥ 99999 then
      return none
    else
      let display := (letters ++ printed05 (maxIndex + 1) ++ 0x2E :: ext).take (displaySize - 1)
      return some (makeShortName display ext, display)

-- `photo_next_name`, `screenshot_next_name` and `qr_text_next_name`
def photoNextName (format : PhotoFormat) :
    UInt32 → Nat → Task (Option (List UInt8 × List UInt8)) :=
  g.nextName photoParseIndex [0x49, 0x4D, 0x47] (photoFormatExt format)

def screenshotNextName : UInt32 → Nat → Task (Option (List UInt8 × List UInt8)) :=
  g.nextName screenshotParseIndex [0x53, 0x43, 0x52] [0x42, 0x4D, 0x50]

def qrTextNextName : UInt32 → Nat → Task (Option (List UInt8 × List UInt8)) :=
  g.nextName qrTextParseIndex [0x51, 0x52] [0x54, 0x58, 0x54]

end Layout

inductive Writer
  | photo (format : PhotoFormat)
  | screenshot
  | qrText
  deriving DecidableEq

def Writer.parseIndex : Writer → List UInt8 → Option UInt32
  | photo _    => photoParseIndex
  | screenshot => screenshotParseIndex
  | qrText     => qrTextParseIndex

def Writer.nextName (g : Layout) :
    Writer → UInt32 → Nat → Task (Option (List UInt8 × List UInt8))
  | photo format => g.photoNextName format
  | screenshot   => g.screenshotNextName
  | qrText       => g.qrTextNextName

-- What a writer puts into a sector for a part of the file, from an offset on.
abbrev Fill := UInt32 → Nat → Memory

-- The loop of `*_write_file_chain` over the sectors of a cluster, of which `left` are left from `s`
-- on. It returns what remains of the file, and the offset.
def writeSectors (fill : Fill) (base : UInt32) :
    (left s : Nat) → (remaining offset : UInt32) → Task (Option (UInt32 × UInt32))
  | 0,        _, remaining, offset => return some (remaining, offset)
  | left + 1, s, remaining, offset => do
    if remaining = 0 then
      return some (remaining, offset)
    else
      let take := if remaining > 512 then 512 else remaining
      modify fun driver => { driver with
        sectorData := fun i => if i < take.toNat then fill offset take.toNat i else 0 }
      if ← writeBlock (base + .ofNat s) then
        writeSectors fill base left (s + 1) (remaining - take) (offset + take)
      else
        return none

namespace Layout

variable (g : Layout)

def writeRound (fill : Fill) :
    UInt32 × UInt32 × UInt32 → Task (Bool ⊕ UInt32 × UInt32 × UInt32)
  | (cluster, remaining, offset) =>
    if remaining ≠ 0 ∧ inChain cluster then do
      match ← writeSectors fill (g.clusterLba cluster) g.sectorsPerCluster.toNat 0 remaining offset with
      | none                     => return .inl false
      | some (remaining, offset) =>
        if remaining ≠ 0 then
          let next ← g.nextCluster cluster
          return .inr (next, remaining, offset)
        else
          return .inr (cluster, remaining, offset)
    else
      return .inl (remaining = 0)

-- `*_write_file_chain`. Each round writes at least one byte.
def writeFileChain (fill : Fill) (firstCluster fileSize : UInt32) : Task Bool :=
  Prog.loop (g.writeRound fill) UInt32.size (firstCluster, fileSize, 0)

-- `*_path_add_file_entry`
def addFileEntry (dirCluster : UInt32) (shortName : List UInt8) (firstCluster fileSize : UInt32) :
    Task Bool := do
  match ← g.findSlots dirCluster 1 with
  | none      => return false
  | some slot =>
    g.writeSlots slot (makeShortEntry shortName fatAttrArchive firstCluster fileSize) 1

-- `photo_save_frame`, `screenshot_save_current_screen` and `qr_text_save_payload_text` on a volume
-- that is mounted and that has the directory, with the name that is displayed where they succeed.
def save (writer : Writer) (dirCluster : UInt32) (displaySize : Nat) (fileSize : UInt32)
    (fill : Fill) : Task (Option (List UInt8)) := do
  match ← writer.nextName g dirCluster displaySize with
  | none                  => return none
  | some (short, display) =>
    let clusterSize := g.clusterSize
    if clusterSize = 0 then
      return none
    else
      let clusterCount := (fileSize + clusterSize - 1) / clusterSize
      match ← g.allocChain clusterCount with
      | none              => return none
      | some firstCluster =>
        if ← g.writeFileChain fill firstCluster fileSize then
          if ← g.addFileEntry dirCluster short firstCluster fileSize then
            return some display
          else
            return none
        else
          return none

end Layout
end Fat32
