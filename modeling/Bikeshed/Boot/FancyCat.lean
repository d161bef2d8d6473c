import Bikeshed.Lib.Word

/-!
# The boot image

`FancyCat` writes one record for each file: a header of two 32-bit values, the file, and
padding up to the next sector. A header whose location is `0xFFFFFFFF` ends the image. The boot
loader reads it back sector by sector; `load_module` takes the length of a module from the
header alone.
-/

namespace Bikeshed.Boot

open Lib

/-- `SECTOR_SIZE` -/
def sectorSize : ℕ := 512

/-- `sizeof(struct file_header)` -/
def headerSize : ℕ := 8

structure FileHeader where
  location : BitVec 32
  size : BitVec 32

/-- A 32-bit value as it lies in memory. -/
def le32 (x : BitVec 32) : List Byte :=
  [x.extractLsb' 0 8, x.extractLsb' 8 8, x.extractLsb' 16 8, x.extractLsb' 24 8]

/-- The 32-bit value at offset `k`. -/
def load32 (bs : List Byte) (k : ℕ) : BitVec 32 :=
  bs.getD (k + 3) 0 ++ bs.getD (k + 2) 0 ++ bs.getD (k + 1) 0 ++ bs.getD k 0

def FileHeader.bytes (h : FileHeader) : List Byte := le32 h.location ++ le32 h.size

/-! ## FancyCat -/

/-- What `main` gets from outside: `sscanf` with the format `%x`, and what is in the files that
can be opened. An input with the name `image.dat` is left out: `main` has cut that file to nothing
before it opens the first input, and would read what it has just written. -/
structure Env where
  sscanf : String → Option (BitVec 32)
  fopen : String → Option (List Byte)

/-- `number_of_sectors`: computed in 64 bits, kept in an `int`. -/
def numberOfSectors (fileSize : Word) : BitVec 32 :=
  ((fileSize + 8 + (512 - (fileSize + 8) % 512)).setWidth 32).sdiv 512

/-- The padding that is written after the file. -/
def padding (fileSize : Word) : List Byte :=
  if (fileSize + 8) % 512 ≠ 0 then List.replicate (512 - (fileSize + 8) % 512).toNat 0x22 else []

/-- A file, and the location that was computed for it. -/
structure Placed where
  location : BitVec 32
  contents : List Byte

def Placed.fileSize (m : Placed) : Word := BitVec.ofNat 64 m.contents.length

def Placed.header (m : Placed) : FileHeader := ⟨m.location, numberOfSectors m.fileSize⟩

/-- What one round of the loop writes. -/
def Placed.record (m : Placed) : List Byte := m.header.bytes ++ m.contents ++ padding m.fileSize

/-- The marker that is put at the end. -/
def endMarker : List Byte := List.replicate 8 0xFF ++ List.replicate (sectorSize - 8) 0

/-- The loop over the arguments, with the return values of `main` as errors: the file named by the
first argument is placed at `loadLocation`; the argument after it may be a location. -/
def catLoop (E : Env) : BitVec 32 → List String → Except ℕ (List Placed)
  | _, [] => .ok []
  | loadLocation, file :: args =>
    match E.fopen file with
    | none => .error 4
    | some contents =>
      -- `ftell` cannot represent the size
      if 2 ^ 63 ≤ contents.length then .error 6
      else
        let m : Placed := ⟨loadLocation, contents⟩
        match args with
        | [] => .ok [m]
        | arg :: rest =>
          match E.sscanf arg with
          | none => (catLoop E (loadLocation + m.fileSize.setWidth 32) (arg :: rest)).map (m :: ·)
          | some newLocation => (catLoop E newLocation rest).map (m :: ·)

/-- The files that `main` writes a record for. -/
def placements (E : Env) : List String → Except ℕ (List Placed)
  | _ :: first :: file :: args =>
    match E.sscanf first with
    | none => .error 2
    | some loadLocation => catLoop E loadLocation (file :: args)
  | _ => .error 1

/-- The bytes of `image.dat`. -/
def image (ms : List Placed) : List Byte := ms.flatMap Placed.record ++ endMarker

/-- `main`, with the image that is written if it returns 0. -/
def fancyCat (E : Env) (argv : List String) : Except ℕ (List Byte) := (placements E argv).map image

/-! ## The boot loader -/

/-- `BUFFER_SECTORS` -/
def bufferSectors : ℕ := 100

/-- `read_sectors`, which halts where the disk ends. The disk here is as long as the image; the
limit of 80 tracks at which it halts on a floppy disk, and the retries, are left out. -/
def readSectors (disk : List Byte) (sector n : ℕ) : Option (List Byte) :=
  if sectorSize * (sector + n) ≤ disk.length then
    some ((disk.drop (sectorSize * sector)).take (sectorSize * n))
  else none

/-- `lm_loop`: the sectors that remain, a buffer at a time. The numbers are natural ones: left out
is that `BUFFER_SECTORS` is compared as a signed number and that the count goes to `read_sectors`
in AX, which only differs when `2 ^ 31` sectors or more remain. -/
def loadRest (disk : List Byte) : ℕ → ℕ → ℕ → Option (List Byte)
  | _, _, 0 => some []
  | 0, _, _ + 1 => none
  | fuel + 1, sector, remaining + 1 => do
    let n := min (remaining + 1) bufferSectors
    let buffer ← readSectors disk sector n
    let rest ← loadRest disk fuel (sector + n) (remaining + 1 - n)
    pure (buffer ++ rest)

structure Module where
  header : FileHeader
  /-- What follows the header in its sectors. -/
  payload : List Byte

/-- `load_module`: the module whose header is in the next sector, or that there is none. The
size counts the sector of the header, so it cannot be 0. -/
def loadModule (disk : List Byte) (sector : ℕ) : Option (Option Module) := do
  let first ← readSectors disk sector 1
  let header : FileHeader := ⟨load32 first 0, load32 first 4⟩
  if header.location = 0xFFFFFFFF then pure none
  else if header.size = 0 then none
  else do
    let remaining := header.size.toNat - 1
    let rest ← loadRest disk remaining (sector + 1) remaining
    pure (some ⟨header, first.drop headerSize ++ rest⟩)

/-- The calls of `load_module` from a sector on, with the sector of the header that ended them. -/
def loadModules (disk : List Byte) : ℕ → ℕ → Option (List Module × ℕ)
  | 0, _ => none
  | fuel + 1, sector => do
    match ← loadModule disk sector with
    | none => pure ([], sector)
    | some m =>
      let (ms, stop) ← loadModules disk fuel (sector + m.header.size.toNat)
      pure (m :: ms, stop)

/-- Each module takes at least one sector. -/
def readImage (disk : List Byte) : Option (List Module × ℕ) := loadModules disk (disk.length + 1) 0

end Bikeshed.Boot
