import Bindery.Files.Content

/-!
# `Bindery.Files.Archive` — archives as bytes

An archive is kept as the list of its entries. Outside, it is a ZIP file: a record for each entry with
its data, then a directory that repeats the records with the places where they start, then the place
and size of that directory.

Deflated data may consist of blocks that are kept as they are. Only such blocks are written, which every
reader accepts.

**Contents.** `Archive.crc32`, the checksum of data; `Archive.deflate`; `Archive.toBytes`;
`Content.toBytes`, the bytes of any content.
-/

namespace Bindery.Files

namespace Archive

/-- A number in `width` bytes, the lowest first. -/
def little : (width : Nat) → Nat → List UInt8
  | 0, _ => []
  | width + 1, n => n.toUInt8 :: little width (n / 256)

/-- Shifts the remainder of a checksum by one bit. -/
def crcShift (crc : UInt32) : UInt32 :=
  if crc &&& 1 = 1 then (crc >>> 1) ^^^ 0xEDB88320 else crc >>> 1

/-- Takes a byte into the remainder of a checksum. -/
def crcByte (crc : UInt32) (byte : UInt8) : UInt32 :=
  Nat.repeat crcShift 8 (crc ^^^ byte.toUInt32)

/-- The checksum of data. -/
def crc32 (data : ByteArray) : UInt32 :=
  data.foldl crcByte 0xFFFFFFFF ^^^ 0xFFFFFFFF

/-- The size of the largest block that is kept as it is. -/
def blockSize : Nat := 65535

/-- A block: whether it is the last one, its size twice, the second time with all bits turned over, and
its data. -/
def block (isLast : Bool) (data : ByteArray) : ByteArray :=
  let head := (if isLast then 1 else 0) :: (little 2 data.size ++ little 2 (blockSize - data.size))
  ⟨head.toArray⟩ ++ data

/-- The blocks of data, of which `blocks` are full. -/
def deflateFrom : (blocks : Nat) → ByteArray → ByteArray
  | 0, data => block true data
  | blocks + 1, data =>
    block false (data.extract 0 blockSize) ++ deflateFrom blocks (data.extract blockSize data.size)

/-- Deflated data, in blocks that are kept as they are. -/
def deflate (data : ByteArray) : ByteArray :=
  deflateFrom ((data.size - 1) / blockSize) data

/-- What the record of an entry and the directory share: versions, flags and method, a date, the
checksum, both sizes and the length of the name. -/
def description (entry : Packed) (kept : ByteArray) : List UInt8 :=
  little 2 20 ++ little 2 0x0800 ++ little 2 (if entry.stored then 0 else 8)
    ++ little 2 0 ++ little 2 0x0021
    ++ little 4 (crc32 entry.data).toNat ++ little 4 kept.size ++ little 4 entry.data.size
    ++ little 2 entry.name.utf8ByteSize

/-- The data of an entry as the archive keeps it. -/
def kept (entry : Packed) : ByteArray :=
  if entry.stored then entry.data else deflate entry.data

/-- The record of an entry, with its data. -/
def record (entry : Packed) : ByteArray :=
  let head := little 4 0x04034b50 ++ description entry (kept entry) ++ little 2 0
  ⟨head.toArray⟩ ++ entry.name.toUTF8 ++ kept entry

/-- An entry in the directory, with the place where its record starts. -/
def listing (entry : Packed) (start : Nat) : ByteArray :=
  let head := little 4 0x02014b50 ++ little 2 20 ++ description entry (kept entry)
    ++ little 2 0 ++ little 2 0 ++ little 2 0 ++ little 2 0 ++ little 4 0 ++ little 4 start
  ⟨head.toArray⟩ ++ entry.name.toUTF8

/-- The bytes of an archive. -/
def toBytes (entries : List Packed) : ByteArray :=
  let (records, listings) := entries.foldl
    (fun (records, listings) entry =>
      (records ++ record entry, listings ++ listing entry records.size))
    (ByteArray.empty, ByteArray.empty)
  let tail := little 4 0x06054b50 ++ little 2 0 ++ little 2 0 ++ little 2 entries.length
    ++ little 2 entries.length ++ little 4 listings.size ++ little 4 records.size ++ little 2 0
  records ++ listings ++ ⟨tail.toArray⟩

end Archive

/-- The bytes of a content. -/
def Content.toBytes : Content → ByteArray
  | .bytes data => data
  | .archive entries => Archive.toBytes entries

end Bindery.Files
