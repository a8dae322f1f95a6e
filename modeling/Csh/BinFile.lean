import Csh.Lib.CString
import Csh.Walkdir
import Mathlib.Algebra.Order.Ring.Int

namespace Csh.Spaceboot

open Libc Walkdir

/-!
# Firmware files

`image_get` reads a file to memory, and `is_valid_binary` looks in it for an
IDENT structure at the end or for an entry point inside the selected slot.
The search runs backwards from the end and forwards over strings, so that what
lies around the buffer belongs to the image.
-/

/--
What opening and reading a file gives: the size that `fstat` reports, the bytes
that `fread` delivers, at most so many, and the memory around the buffer.
-/
structure FileRead where
  size : Int
  data : List UInt8
  before : Nat → UInt8
  behind : List UInt8
  length_le : data.length ≤ size.toNat

/-- A file in memory, with the memory in front of it and behind it. -/
structure Image where
  data : List UInt8
  before : Nat → UInt8
  behind : List UInt8

/-- The second half of `image_get`, with its bounds on the reported size. -/
def FileRead.image? (file : FileRead) : Option Image :=
  if 2 ^ 31 - 1 < file.size ∨ file.size < 4 then
    none
  else
    some {
      data := file.data
      before := file.before
      behind := file.behind
    }

namespace Image

/-- `len`. -/
def len (image : Image) : Nat :=
  image.data.length

/-- The memory from an index on, which may lie in front of the data. -/
def memoryFrom (image : Image) (index : Int) : List UInt8 :=
  if index < 0 then
    let back := (-index).toNat
    (List.range back).map (fun offset => image.before (back - 1 - offset)) ++
      image.data ++ image.behind
  else
    (image.data ++ image.behind).drop index.toNat

/-- One byte; beyond the known memory there are zeros. -/
def byte (image : Image) (index : Int) : UInt8 :=
  (image.memoryFrom index).headD 0

/-- The string at an index, without its NUL. -/
def text (image : Image) (index : Int) : List UInt8 :=
  (image.memoryFrom index).takeWhile (· != 0)

/-- `memcmp` with a marker of four bytes finds no difference. -/
def hasMarker (image : Image) (index : Int) (marker : List UInt8) : Bool :=
  ((List.range 4).map fun offset : Nat => image.byte (index + offset)) == marker

/-- A little-endian `uint32_t`. -/
def word (image : Image) (index : Int) : Nat :=
  (image.byte index).toNat + 2 ^ 8 * (image.byte (index + 1)).toNat +
    2 ^ 16 * (image.byte (index + 2)).toNat +
      2 ^ 24 * (image.byte (index + 3)).toNat

end Image

/-- `bin_file_ident_t`, with the bytes of its three arrays of 33. -/
structure BinFileIdent where
  valid : Bool
  hostname : List UInt8
  model : List UInt8
  versionString : List UInt8
  stext : Nat
  deriving Repr, DecidableEq

/-- `bin_info_t`: the slot, the number of files found and the two tables. -/
structure BinInfo where
  addrMin : Nat
  addrMax : Nat
  count : Nat
  idents : Nat → BinFileIdent
  files : Nat → List Char

/-- `bin_info` when the program starts. -/
def BinInfo.zero : BinInfo where
  addrMin := 0
  addrMax := 0
  count := 0
  idents _ :=
    ⟨false, List.replicate 33 0, List.replicate 33 0, List.replicate 33 0, 0⟩
  files _ := List.replicate walkdirMaxPathSize nul

/-- The marker at the end of a file with an IDENT structure. -/
def endMarker : List UInt8 :=
  [0xC0, 0xDE, 0xBA, 0xD0]

/-- The marker at the beginning of the IDENT structure. -/
def beginMarker : List UInt8 :=
  [0xBA, 0xD0, 0xFA, 0xCE]

/-- `entry_offsets`. -/
def entryOffsets : List Nat :=
  [4, 0x2c4]

/-- The backward search for the beginning, from `idx = -9` to `idx = -257`. -/
def findIdentBegin (image : Image) : Option Int :=
  ((List.range 249).map fun step : Nat => (image.len : Int) - 9 - step).find?
      (image.hasMarker · beginMarker) |>.map (· + 4)

/-- `strncpy(ident_str[ident_id], ident_iter, 32)`. -/
def BinFileIdent.setString
    (ident : BinFileIdent)
    (identId : Nat)
    (source : List UInt8) :
    BinFileIdent :=
  match identId with
  | 0 => { ident with hostname := strncpy 0 32 ident.hostname source }
  | 1 => { ident with model := strncpy 0 32 ident.model source }
  | _ =>
      { ident with versionString := strncpy 0 32 ident.versionString source }

/-- The loop over the IDENT strings, with the number of strings to go. -/
def identStrings
    (image : Image) :
    Nat → Int → BinFileIdent → BinFileIdent
  | 0, _, ident => ident
  | toGo + 1, identIter, ident =>
      if identIter < image.len - 4 then
        let text := image.text identIter
        let ident := ident.setString (3 - (toGo + 1)) text
        identStrings image toGo (identIter + text.length + 1)
          { ident with valid := true }
      else
        ident

/-- The address lies in the slot. -/
def BinInfo.inSlot (binf : BinInfo) (addr : Nat) : Bool :=
  binf.addrMin ≤ addr && addr ≤ binf.addrMax

/-- The size test, an addition of `uint32_t`. -/
def BinInfo.fits (binf : BinInfo) (len : Nat) : Bool :=
  (binf.addrMin + len) % 2 ^ 32 ≤ binf.addrMax

/-- The word at one of the entry offsets is an address in the slot. -/
def BinInfo.hasEntry (binf : BinInfo) (image : Image) : Bool :=
  binf.fits image.len &&
    entryOffsets.any fun offset => binf.inSlot (image.word offset)

/-- The part of `is_valid_binary` behind the reading of the file. -/
def isValidImage
    (binf : BinInfo)
    (image : Image)
    (uninitialised : BinFileIdent) :
    Bool × BinFileIdent :=
  let ident := { uninitialised with valid := false }
  if image.hasMarker (image.len - 4) endMarker then
    let ident := { ident with stext := image.word (image.len - 8) }
    if binf.inSlot ident.stext && binf.fits image.len then
      match findIdentBegin image with
      | some identBegin =>
          if identBegin < image.len - 4 then
            (true, identStrings image 3 identBegin ident)
          else
            (binf.hasEntry image, ident)
      | none => (binf.hasEntry image, ident)
    else
      (false, ident)
  else
    (binf.hasEntry image, ident)

/-- `path` has the extension `.bin`. -/
def hasBinExtension (path : CString) : Bool :=
  4 < path.length && path.drop (path.length - 4) == ['.', 'b', 'i', 'n']

/-- The body of `file_callback`: a valid file is entered if there is room. -/
def BinInfo.enter
    (binf : BinInfo)
    (path : CString)
    (ident : BinFileIdent) :
    BinInfo :=
  if binf.count < walkdirMaxEntries then
    { binf with
      idents := fun index =>
        if index = binf.count then ident else binf.idents index
      files := fun index =>
        if index = binf.count then
          strncpy nul walkdirMaxPathSize (binf.files index) path
        else
          binf.files index
      count := binf.count + 1 }
  else
    binf

end Csh.Spaceboot
