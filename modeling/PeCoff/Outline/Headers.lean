import PeCoff.Headers
import PeCoff.Outline

/-!
# Outlines of the headers
-/

namespace PeCoff

open Outline

def Machine.outline (machine : Machine) : Outline := .code Machine.names machine.code.toNat

def OptionalMagic.outline (magic : OptionalMagic) : Outline :=
  .code OptionalMagic.names magic.code.toNat

def Subsystem.outline (subsystem : Subsystem) : Outline :=
  .code Subsystem.names subsystem.code.toNat

def Characteristics.outline (flags : Characteristics) : Outline :=
  .flags Characteristics.table flags.bits.toNat

def DllCharacteristics.outline (flags : DllCharacteristics) : Outline :=
  .flags DllCharacteristics.table flags.bits.toNat

def SectionCharacteristics.outline (flags : SectionCharacteristics) : Outline :=
  .flags SectionCharacteristics.table flags.bits.toNat

def DataDirectory.outline (directory : DataDirectory) : Outline :=
  .record "ImageDataDirectory" [("rva", u32 directory.rva), ("size", u32 directory.size)]

def FileHeader.outline (header : FileHeader) : Outline :=
  .record "ImageFileHeader" [
    ("machine", header.machine.outline),
    ("number_of_sections", u16 header.numberOfSections),
    ("time_date_stamp", u32 header.timeDateStamp),
    ("pointer_to_symbol_table", u32 header.pointerToSymbolTable),
    ("number_of_symbols", u32 header.numberOfSymbols),
    ("size_of_optional_header", u16 header.sizeOfOptionalHeader),
    ("characteristics", header.characteristics.outline)]

def OptionalHeader.outline (header : OptionalHeader) : Outline :=
  .record "ImageOptionalHeader" [
    ("magic", header.magic.outline),
    ("major_linker_version", u8 header.majorLinkerVersion),
    ("minor_linker_version", u8 header.minorLinkerVersion),
    ("size_of_code", u32 header.sizeOfCode),
    ("size_of_initialized_data", u32 header.sizeOfInitializedData),
    ("size_of_uninitialized_data", u32 header.sizeOfUninitializedData),
    ("address_of_entry_point", u32 header.addressOfEntryPoint),
    ("base_of_code", u32 header.baseOfCode),
    ("base_of_data", ofOption u32 header.baseOfData),
    ("image_base", u64 header.imageBase),
    ("section_alignment", u32 header.sectionAlignment),
    ("file_alignment", u32 header.fileAlignment),
    ("major_operating_system_version", u16 header.majorOperatingSystemVersion),
    ("minor_operating_system_version", u16 header.minorOperatingSystemVersion),
    ("major_image_version", u16 header.majorImageVersion),
    ("minor_image_version", u16 header.minorImageVersion),
    ("major_subsystem_version", u16 header.majorSubsystemVersion),
    ("minor_subsystem_version", u16 header.minorSubsystemVersion),
    ("win32_version_value", u32 header.win32VersionValue),
    ("size_of_image", u32 header.sizeOfImage),
    ("size_of_headers", u32 header.sizeOfHeaders),
    ("checksum", u32 header.checksum),
    ("subsystem", header.subsystem.outline),
    ("dll_characteristics", header.dllCharacteristics.outline),
    ("size_of_stack_reserve", u64 header.sizeOfStackReserve),
    ("size_of_stack_commit", u64 header.sizeOfStackCommit),
    ("size_of_heap_reserve", u64 header.sizeOfHeapReserve),
    ("size_of_heap_commit", u64 header.sizeOfHeapCommit),
    ("loader_flags", u32 header.loaderFlags),
    ("number_of_rva_and_sizes", u32 header.numberOfRvaAndSizes),
    ("data_directories", ofList DataDirectory.outline header.dataDirectories)]

def SectionHeader.outline (header : SectionHeader) : Outline :=
  .record "ImageSectionHeader" [
    ("name", bytes header.name),
    ("virtual_size", u32 header.virtualSize),
    ("virtual_address", u32 header.virtualAddress),
    ("size_of_raw_data", u32 header.sizeOfRawData),
    ("pointer_to_raw_data", u32 header.pointerToRawData),
    ("pointer_to_relocations", u32 header.pointerToRelocations),
    ("pointer_to_line_numbers", u32 header.pointerToLineNumbers),
    ("number_of_relocations", u16 header.numberOfRelocations),
    ("number_of_line_numbers", u16 header.numberOfLineNumbers),
    ("characteristics", header.characteristics.outline)]

def Headers.outline (headers : Headers) : Outline :=
  .record "Headers" [
    ("is_loaded_image", .bool headers.loaded),
    ("nt_header_offset", ofOption u32 headers.ntOffset),
    ("file_header", headers.file.outline),
    ("optional_header", ofOption OptionalHeader.outline headers.optional),
    ("section_headers", ofList SectionHeader.outline headers.sections)]

end PeCoff
