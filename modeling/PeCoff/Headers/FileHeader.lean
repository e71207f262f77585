import PeCoff.Bytes.Reader
import PeCoff.CodeTable
import PeCoff.FlagTable

/-!
# The file header

Twenty bytes that every image and object starts its headers with. The section
count is stored as a signed number; a negative count is refused before the rest
of the header is read.
-/

namespace PeCoff

structure Machine where
  code : UInt16
  deriving DecidableEq, Ord

def Machine.names : CodeTable := [
  (0x0000, "Unknown"),
  (0x0184, "AlphaAxp"),
  (0x0284, "Alpha64"),
  (0x01D3, "MatsushitaAm33"),
  (0x8664, "Amd64"),
  (0x01C0, "Arm"),
  (0xAA64, "Arm64"),
  (0x01C4, "ArmThumb2"),
  (0x0EBC, "EfiByteCode"),
  (0x014C, "I386"),
  (0x0200, "Itanium"),
  (0x6232, "LoongArch32"),
  (0x6264, "LoongArch64"),
  (0x9041, "MitsubishiM32r"),
  (0x0266, "Mips16"),
  (0x0366, "MipsWithFpu"),
  (0x0466, "Mips16WithFpu"),
  (0x01F0, "PowerPc"),
  (0x01F1, "PowerPcWithFpu"),
  (0x0160, "MipsR3kBigEndian"),
  (0x0162, "MipsR3kLittleEndian"),
  (0x0166, "MipsR4k"),
  (0x0168, "MipsR10k"),
  (0x5032, "RiscV32"),
  (0x5064, "RiscV64"),
  (0x5128, "RiscV128"),
  (0x01A2, "HitachiSh3"),
  (0x01A3, "HitachiSh3Dsp"),
  (0x01A6, "HitachiSh4"),
  (0x01A8, "HitachiSh5"),
  (0x01C2, "ArmThumb"),
  (0x0169, "WceMipsV2")]

structure Characteristics where
  bits : UInt16
  deriving DecidableEq

def Characteristics.table : FlagTable where
  title := "Characteristics"
  flags := [
    ("RELOCS_STRIPPED", 0),
    ("EXECUTABLE_IMAGE", 1),
    ("LINE_NUMS_STRIPPED", 2),
    ("LOCAL_SYMS_STRIPPED", 3),
    ("AGGRESSIVE_WS_TRIM", 4),
    ("LARGE_ADDRESS_AWARE", 5),
    ("BYTES_REVERSED_LO", 7),
    ("IS_32BIT_MACHINE", 8),
    ("DEBUG_STRIPPED", 9),
    ("REMOVABLE_RUN_FROM_SWAP", 10),
    ("NET_RUN_FROM_SWAP", 11),
    ("SYSTEM", 12),
    ("DLL", 13),
    ("UP_SYSTEM_ONLY", 14),
    ("BYTES_REVERSED_HI", 15)]

structure FileHeader where
  machine : Machine
  numberOfSections : UInt16
  timeDateStamp : UInt32
  pointerToSymbolTable : UInt32
  numberOfSymbols : UInt32
  sizeOfOptionalHeader : UInt16
  characteristics : Characteristics
  deriving DecidableEq

namespace FileHeader

def length : Nat := 20

open Reader in
def read : Reader FileHeader := do
  let machine ← u16
  let sectionCount ← i16
  require (0 ≤ sectionCount) (.negativeSectionCount sectionCount)
  let timeDateStamp ← u32
  let pointerToSymbolTable ← u32
  let numberOfSymbols ← u32
  let sizeOfOptionalHeader ← u16
  let characteristics ← u16
  pure {
    machine := ⟨machine⟩
    numberOfSections := sectionCount.toUInt16
    timeDateStamp, pointerToSymbolTable, numberOfSymbols, sizeOfOptionalHeader
    characteristics := ⟨characteristics⟩ }

end FileHeader

end PeCoff
