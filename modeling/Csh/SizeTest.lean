import Csh.ImageReads
import Csh.SlotBounds

namespace Csh.Spaceboot

open Libc Interaction

/-!
# The size test of the validation

The last address of a slot is inclusive, and `is_valid_binary` adds the length
of the file to the first one in 32 bits.  A file that fills its slot is refused
unless the sum wraps, and a file that is too long passes when it does.
-/

/-- The four bytes of a little-endian `uint32_t`. -/
def wordBytes (value : Nat) : List UInt8 :=
  [UInt8.ofNat value, UInt8.ofNat (value / 2 ^ 8),
    UInt8.ofNat (value / 2 ^ 16), UInt8.ofNat (value / 2 ^ 24)]

/--
A complete IDENT trailer: the begin marker, three strings with their NULs, the
address of the entry point and the end marker.
-/
structure IdentTrailer where
  hostname : List UInt8
  model : List UInt8
  versionString : List UInt8
  padding : List UInt8
  stext : Nat
  noNul : 0 ∉ hostname ++ model ++ versionString
  stext_lt : stext < 2 ^ 32

/-- The trailer behind its begin marker. -/
def IdentTrailer.body (trailer : IdentTrailer) : List UInt8 :=
  trailer.hostname ++ 0 :: (trailer.model ++ 0 ::
    (trailer.versionString ++ 0 :: trailer.padding))

/-- The bytes of a trailer. -/
def IdentTrailer.bytes (trailer : IdentTrailer) : List UInt8 :=
  beginMarker ++ trailer.body ++ wordBytes trailer.stext ++ endMarker

/-- The image that is read from the file. -/
def FileRead.image (file : FileRead) : Image :=
  ⟨file.data, file.before, file.behind⟩

/-- One of the entry words is an address in the slot. -/
def BinInfo.EntryWord (binf : BinInfo) (image : Image) : Prop :=
  ∃ offset ∈ entryOffsets, binf.inSlot (image.word offset) = true

/--
The file names an entry point in the slot: in front of its end marker, with a
begin marker or an entry word, or without an end marker in an entry word.
-/
def BinInfo.NamesEntry (binf : BinInfo) (image : Image) : Prop :=
  if image.EndsWithMarker then
    binf.inSlot (image.word (image.len - 8)) = true ∧
      (findIdentBegin image ≠ none ∨ binf.EntryWord image)
  else
    binf.EntryWord image

section Acceptance

variable {binf : BinInfo}
variable {image : Image}

theorem hasEntry_iff :
    binf.hasEntry image = true ↔
      binf.fits image.len = true ∧ binf.EntryWord image := by
  rw [BinInfo.hasEntry, Bool.and_eq_true, List.any_eq_true]
  rfl

/-- A file is accepted if it fits and names an entry point in the slot. -/
theorem isValidImage_iff
    (ident : BinFileIdent) :
    (isValidImage binf image ident).1 = true ↔
      binf.fits image.len = true ∧ binf.NamesEntry image := by
  unfold isValidImage BinInfo.NamesEntry Image.EndsWithMarker
  dsimp only
  by_cases isEnd : image.hasMarker (image.len - 4) endMarker = true
  · simp only [isEnd, ↓reduceIte]
    by_cases suits :
        (binf.inSlot (image.word (image.len - 8)) &&
          binf.fits image.len) = true
    · obtain ⟨inSlot, fits⟩ := Bool.and_eq_true_iff.mp suits
      rw [if_pos suits]
      cases found : findIdentBegin image with
      | none =>
          simp only [hasEntry_iff, inSlot, fits, true_and, ne_eq,
            not_true_eq_false, false_or]
      | some identBegin =>
          dsimp only
          rw [if_pos (findIdentBegin_lt found)]
          simp [inSlot, fits]
    · rw [if_neg suits]
      simp only [Bool.and_eq_true] at suits
      simp only [Bool.false_eq_true, false_iff]
      rintro ⟨fits, inSlot, _⟩
      exact suits ⟨inSlot, fits⟩
  · simp only [isEnd, Bool.false_eq_true, ↓reduceIte, hasEntry_iff]

end Acceptance

section Trailers

variable {image : Image}

theorem byte_of_data
    {leading later : List UInt8}
    {byte : UInt8}
    (shape : image.data = leading ++ byte :: later) :
    image.byte leading.length = byte := by
  have notBefore : ¬ (leading.length : Int) < 0 := by omega
  rw [Image.byte, Image.memoryFrom, if_neg notBefore, Int.toNat_natCast,
    shape, List.append_assoc, List.drop_left]
  rfl

/-- Four bytes of the file, one by one. -/
theorem bytes_of_data
    {leading later : List UInt8}
    {first second third fourth : UInt8}
    (shape :
      image.data = leading ++ ([first, second, third, fourth] ++ later)) :
    image.byte leading.length = first ∧
      image.byte (leading.length + 1) = second ∧
      image.byte (leading.length + 2) = third ∧
      image.byte (leading.length + 3) = fourth := by
  refine ⟨byte_of_data shape, ?_, ?_, ?_⟩
  · have behind :=
      @byte_of_data image (leading ++ [first])
        ([third, fourth] ++ later) second (by simp [shape])
    simpa using behind
  · have behind :=
      @byte_of_data image (leading ++ [first, second])
        ([fourth] ++ later) third (by simp [shape])
    simpa using behind
  · have behind :=
      @byte_of_data image (leading ++ [first, second, third])
        later fourth (by simp [shape])
    simpa using behind

theorem hasMarker_of_data
    {leading later : List UInt8}
    {first second third fourth : UInt8}
    (shape :
      image.data = leading ++ ([first, second, third, fourth] ++ later)) :
    image.hasMarker leading.length [first, second, third, fourth] = true := by
  obtain ⟨isFirst, isSecond, isThird, isFourth⟩ := bytes_of_data shape
  have four : List.range 4 = [0, 1, 2, 3] := rfl
  simp [Image.hasMarker, four, isFirst, isSecond, isThird, isFourth]

theorem word_of_data
    {leading later : List UInt8}
    {value : Nat}
    (shape : image.data = leading ++ (wordBytes value ++ later))
    (inRange : value < 2 ^ 32) :
    image.word leading.length = value := by
  obtain ⟨isFirst, isSecond, isThird, isFourth⟩ := bytes_of_data shape
  rw [Image.word, isFirst, isSecond, isThird, isFourth]
  simp only [UInt8.toNat_ofNat']
  omega

theorem IdentTrailer.length_bytes
    (trailer : IdentTrailer) :
    trailer.bytes.length = trailer.body.length + 12 := by
  simp only [bytes, List.length_append, beginMarker, endMarker, wordBytes,
    List.length_cons, List.length_nil]
  omega

theorem length_of_trailer
    {leading : List UInt8}
    {trailer : IdentTrailer}
    (shape : image.data = leading ++ trailer.bytes) :
    image.len = leading.length + trailer.body.length + 12 := by
  rw [Image.len, shape, List.length_append, trailer.length_bytes,
    Nat.add_assoc]

theorem endsWithMarker_of_trailer
    {leading : List UInt8}
    {trailer : IdentTrailer}
    (shape : image.data = leading ++ trailer.bytes) :
    image.EndsWithMarker := by
  have length := length_of_trailer shape
  have marked :
      image.hasMarker
          (leading ++ beginMarker ++ trailer.body ++
            wordBytes trailer.stext).length
          endMarker =
        true :=
    @hasMarker_of_data image _ [] 0xC0 0xDE 0xBA 0xD0 (by
      rw [shape, IdentTrailer.bytes, endMarker]
      simp only [List.append_assoc, List.append_nil])
  have index :
      ((leading ++ beginMarker ++ trailer.body ++
          wordBytes trailer.stext).length : Int) =
        image.len - 4 := by
    simp only [List.length_append, beginMarker, wordBytes,
      List.length_cons, List.length_nil]
    omega
  rwa [index] at marked

theorem word_of_trailer
    {leading : List UInt8}
    {trailer : IdentTrailer}
    (shape : image.data = leading ++ trailer.bytes) :
    image.word (image.len - 8) = trailer.stext := by
  have length := length_of_trailer shape
  have word :=
    @word_of_data image (leading ++ beginMarker ++ trailer.body)
      endMarker trailer.stext
      (by
        rw [shape, IdentTrailer.bytes]
        simp only [List.append_assoc])
      trailer.stext_lt
  have index :
      ((leading ++ beginMarker ++ trailer.body).length : Int) =
        image.len - 8 := by
    simp only [List.length_append, beginMarker, List.length_cons,
      List.length_nil]
    omega
  rwa [index] at word

/-- The begin marker of a trailer is found if it is in reach of the search. -/
theorem findIdentBegin_of_trailer
    {leading : List UInt8}
    {trailer : IdentTrailer}
    (shape : image.data = leading ++ trailer.bytes)
    (reached : trailer.bytes.length ≤ 257) :
    findIdentBegin image ≠ none := by
  intro nothing
  have length := length_of_trailer shape
  rw [trailer.length_bytes] at reached
  have marked : image.hasMarker leading.length beginMarker = true :=
    @hasMarker_of_data image leading
      (trailer.body ++ wordBytes trailer.stext ++ endMarker)
      0xBA 0xD0 0xFA 0xCE (by
        rw [shape, IdentTrailer.bytes, beginMarker]
        simp only [List.append_assoc])
  have none :=
    @hasMarker_eq_false_of_findIdentBegin image nothing leading.length
      (by omega) (by omega)
  rw [marked] at none
  cases none

end Trailers

/-- A file with a complete trailer for an entry point in the slot. -/
def VmemArea.HasTrailer (area : VmemArea) (file : FileRead) : Prop :=
  ∃ (leading : List UInt8) (trailer : IdentTrailer),
    file.data = leading ++ trailer.bytes ∧
      area.vaddr ≤ trailer.stext ∧ trailer.stext < area.vaddr + area.size

/-- The verdict on a file agrees with its size and its trailer. -/
structure VmemArea.Judges
    (area : VmemArea)
    (file : FileRead)
    (accepted : Bool) :
    Prop where
  small : accepted = true → file.data.length ≤ area.size
  accepts :
    area.HasTrailer file → file.data.length ≤ area.size → accepted = true

/--
The files that are misjudged: one with a trailer that fills a slot below the
end of the address space, is too large for an `int`, or has its begin marker
out of reach and no entry word; and one that is too long but makes the sum
wrap, and names an entry point.
-/
inductive VmemArea.Misjudged (area : VmemArea) (file : FileRead) : Prop where
  | exactFit
      (trailer : area.HasTrailer file)
      (fills : file.data.length = area.size)
      (belowEnd : area.vaddr + area.size < 2 ^ 32)
  | tooLarge
      (trailer : area.HasTrailer file)
      (large : 2 ^ 31 ≤ file.data.length)
      (inSlot : file.data.length ≤ area.size)
  | outOfReach
      (trailer : area.HasTrailer file)
      (inSlot : file.data.length ≤ area.size)
      (noBegin : findIdentBegin file.image = none)
      (noWord : ¬ (BinInfo.zero.searching area).EntryWord file.image)
  | wraps
      (readable : 4 ≤ file.data.length ∧ file.data.length < 2 ^ 31)
      (long : area.size < file.data.length)
      (small :
        (area.vaddr + file.data.length) % 2 ^ 32 < area.vaddr + area.size)
      (names : (BinInfo.zero.searching area).NamesEntry file.image)

section Verdict

variable {area : VmemArea}
variable {binf : BinInfo}
variable {path : CString}
variable {file : FileRead}
variable {ident : BinFileIdent}
variable {result : Bool × BinFileIdent}

theorem fits_searching_iff
    (size : 0 < area.size)
    (inside : area.vaddr + area.size ≤ 2 ^ 32)
    (len : Nat) :
    (binf.searching area).fits len = true ↔
      (area.vaddr + len) % 2 ^ 32 < area.vaddr + area.size := by
  have last : area.addrMax = area.vaddr + area.size - 1 := by
    unfold VmemArea.addrMax
    omega
  rw [BinInfo.fits, decide_eq_true_iff]
  simp only [BinInfo.searching, last]
  omega

theorem inSlot_searching_iff
    (size : 0 < area.size)
    (inside : area.vaddr + area.size ≤ 2 ^ 32)
    (addr : Nat) :
    (binf.searching area).inSlot addr = true ↔
      area.vaddr ≤ addr ∧ addr < area.vaddr + area.size := by
  have last : area.addrMax = area.vaddr + area.size - 1 := by
    unfold VmemArea.addrMax
    omega
  rw [BinInfo.inSlot, Bool.and_eq_true, decide_eq_true_iff,
    decide_eq_true_iff]
  simp only [BinInfo.searching, last]
  omega

/-- What a run of the validation finds out about a whole file. -/
theorem accepted_iff
    (isBin : hasBinExtension path = true)
    (whole : file.size = file.data.length)
    (run :
      Runs (isValidBinary path (binf.searching area) ident)
        [⟨.readFile path, some file⟩] result) :
    result.1 = true ↔
      (4 ≤ file.data.length ∧ file.data.length < 2 ^ 31) ∧
        (binf.searching area).fits file.data.length = true ∧
        (BinInfo.zero.searching area).NamesEntry file.image := by
  unfold isValidBinary at run
  rw [if_neg (by simp [isBin])] at run
  obtain ⟨reading, opened, behind, shape, reads, checks⟩ :=
    runs_bind_iff.mp run
  obtain ⟨read, rfl, rfl⟩ := runs_imageGet_iff.mp reads
  have sameRead : read = some file := by
    simpa using (List.cons.inj shape).1.symm
  subst sameRead
  rw [Option.bind_some, FileRead.image?, whole] at checks
  by_cases unreadable :
      (2 ^ 31 - 1 : Int) < file.data.length ∨ (file.data.length : Int) < 4
  · rw [if_pos unreadable] at checks
    obtain ⟨_, rfl⟩ := runs_pure_iff.mp checks
    refine iff_of_false (by simp) fun readable => ?_
    omega
  · rw [if_neg unreadable] at checks
    obtain ⟨_, rfl⟩ := runs_pure_iff.mp checks
    have readable :
        4 ≤ file.data.length ∧ file.data.length < 2 ^ 31 := by
      omega
    rw [and_iff_right readable]
    exact isValidImage_iff ident

/-- A complete trailer names its entry point, if its begin is found. -/
theorem namesEntry_iff_of_hasTrailer
    (size : 0 < area.size)
    (inside : area.vaddr + area.size ≤ 2 ^ 32)
    (trailer : area.HasTrailer file) :
    4 ≤ file.data.length ∧
      ((BinInfo.zero.searching area).NamesEntry file.image ↔
        findIdentBegin file.image ≠ none ∨
          (BinInfo.zero.searching area).EntryWord file.image) := by
  obtain ⟨leading, trailer, shape, inSlot⟩ := trailer
  have length :
      file.data.length = leading.length + trailer.body.length + 12 :=
    @length_of_trailer file.image leading trailer shape
  have isEnd := @endsWithMarker_of_trailer file.image leading trailer shape
  have word := @word_of_trailer file.image leading trailer shape
  refine ⟨by omega, ?_⟩
  rw [BinInfo.NamesEntry, if_pos isEnd, word,
    inSlot_searching_iff size inside, and_iff_right inSlot]

/--
The verdict on a whole file agrees with its size and its trailer exactly when
the file is not one of those that are misjudged.
-/
theorem isValidBinary_judges_iff
    (size : 0 < area.size)
    (inside : area.vaddr + area.size ≤ 2 ^ 32)
    (isBin : hasBinExtension path = true)
    (whole : file.size = file.data.length)
    (run :
      Runs (isValidBinary path (binf.searching area) ident)
        [⟨.readFile path, some file⟩] result) :
    area.Judges file result.1 ↔ ¬ area.Misjudged file := by
  have accepted := accepted_iff isBin whole run
  rw [fits_searching_iff size inside] at accepted
  constructor
  · rintro ⟨small, accepts⟩ misjudged
    cases misjudged with
    | exactFit trailer fills belowEnd =>
        have fits := (accepted.mp (accepts trailer fills.le)).2.1
        rw [fills, Nat.mod_eq_of_lt belowEnd] at fits
        exact Nat.lt_irrefl _ fits
    | tooLarge trailer large inSlot =>
        have readable := (accepted.mp (accepts trailer inSlot)).1
        omega
    | outOfReach trailer inSlot noBegin noWord =>
        have names := (accepted.mp (accepts trailer inSlot)).2.2
        rw [(namesEntry_iff_of_hasTrailer size inside trailer).2] at names
        rcases names with found | word
        · exact found noBegin
        · exact noWord word
    | wraps readable long fits names =>
        have short := small (accepted.mpr ⟨readable, fits, names⟩)
        omega
  · intro judged
    refine ⟨fun valid => ?_, fun trailer inSlot => ?_⟩
    · obtain ⟨readable, fits, names⟩ := accepted.mp valid
      by_contra long
      exact judged (.wraps readable (by omega) fits names)
    · obtain ⟨long, named⟩ :=
        namesEntry_iff_of_hasTrailer size inside trailer
      have names : (BinInfo.zero.searching area).NamesEntry file.image := by
        by_contra unnamed
        rw [named, not_or, not_not] at unnamed
        exact judged (.outOfReach trailer inSlot unnamed.1 unnamed.2)
      have readable : file.data.length < 2 ^ 31 := by
        by_contra large
        exact judged (.tooLarge trailer (by omega) inSlot)
      refine accepted.mpr ⟨⟨long, readable⟩, ?_, names⟩
      by_cases fills : file.data.length = area.size
      · -- A file that fills the slot passes only where the sum wraps to zero.
        have atEnd : area.vaddr + area.size = 2 ^ 32 := by
          by_contra notAtEnd
          exact judged (.exactFit trailer fills (by omega))
        rw [fills, atEnd]
        decide
      · omega

/-- The validation of a file that can be read. -/
theorem runs_isValidBinary_read
    (isBin : hasBinExtension path = true)
    (binf : BinInfo)
    (file : FileRead)
    (ident : BinFileIdent) :
    ∃ result,
      Runs (isValidBinary path binf ident) [⟨.readFile path, some file⟩]
        result := by
  unfold isValidBinary
  rw [if_neg (by simp [isBin])]
  cases loaded : file.image? with
  | none =>
      refine
        ⟨_, runs_bind_iff.mpr ⟨_, none, [], rfl,
          runs_imageGet_iff.mpr ⟨some file, rfl, loaded.symm⟩,
          runs_pure_iff.mpr ⟨rfl, rfl⟩⟩⟩
  | some image =>
      exact
        ⟨_, runs_bind_iff.mpr ⟨_, some image, [], rfl,
          runs_imageGet_iff.mpr ⟨some file, rfl, loaded.symm⟩,
          runs_pure_iff.mpr ⟨rfl, rfl⟩⟩⟩

end Verdict

/-- Eight zeros are judged rightly for a slot of 256 bytes. -/
theorem eightBytes_judged :
    ∃ result,
      Runs
          (isValidBinary "a.bin".toList
            (BinInfo.zero.searching (slotOfSize 256 (by decide)))
            (BinInfo.zero.idents 0))
          [⟨.readFile "a.bin".toList, some eightBytes⟩] result ∧
        (slotOfSize 256 (by decide)).Judges eightBytes result.1 := by
  have isBin : hasBinExtension "a.bin".toList = true := by decide
  obtain ⟨result, run⟩ :=
    runs_isValidBinary_read isBin
      (BinInfo.zero.searching (slotOfSize 256 (by decide))) eightBytes
      (BinInfo.zero.idents 0)
  refine
    ⟨result, run,
      (isValidBinary_judges_iff (by decide) (by decide) isBin rfl run).mpr ?_⟩
  intro misjudged
  cases misjudged with
  | exactFit _ fills _ =>
      exact absurd fills (by decide)
  | tooLarge _ large _ =>
      exact absurd large (by decide)
  | outOfReach trailer _ _ _ =>
      obtain ⟨leading, trailer, shape, _⟩ := trailer
      have length := congrArg List.length shape
      rw [List.length_append, trailer.length_bytes] at length
      have short : eightBytes.data.length = 8 := rfl
      omega
  | wraps _ long _ _ =>
      exact absurd long (by decide)

theorem zero_not_mem_letters :
    (0 : UInt8) ∉ [97] ++ [98] ++ [49] := by
  decide

/-- A trailer for an entry point at address 0, and nothing else. -/
def smallTrailer : IdentTrailer where
  hostname := [97]
  model := [98]
  versionString := [49]
  padding := []
  stext := 0
  noNul := zero_not_mem_letters
  stext_lt := Nat.two_pow_pos 32

def smallFile : FileRead :=
  ⟨18, smallTrailer.bytes, fun _ => 0, [], by decide⟩

/-- A file of 18 bytes with a trailer is refused for a slot of 18 bytes. -/
theorem smallFile_misjudged :
    ¬ ∀ (area : VmemArea) (binf : BinInfo) (path : CString)
        (file : FileRead) (ident : BinFileIdent)
        (result : Bool × BinFileIdent),
      0 < area.size →
        area.vaddr + area.size ≤ 2 ^ 32 →
          hasBinExtension path = true →
            file.size = file.data.length →
              Runs (isValidBinary path (binf.searching area) ident)
                  [⟨.readFile path, some file⟩] result →
                area.Judges file result.1 := by
  intro judges
  have isBin : hasBinExtension "a.bin".toList = true := by decide
  obtain ⟨result, run⟩ :=
    runs_isValidBinary_read isBin
      (BinInfo.zero.searching (slotOfSize 18 (by decide))) smallFile
      (BinInfo.zero.idents 0)
  have judged :=
    judges _ _ _ _ _ _ (by decide) (by decide) isBin rfl run
  have trailer : (slotOfSize 18 (by decide)).HasTrailer smallFile :=
    ⟨[], smallTrailer, rfl, by decide, by decide⟩
  have valid := judged.accepts trailer (by decide)
  have fits := ((accepted_iff isBin rfl run).mp valid).2.1
  exact absurd fits (by decide)

end Csh.Spaceboot
