import PeCoff.Outline
import PeCoff.Resource.Summary
import PeCoff.Resource.Table

/-!
# Outlines of resources and version records
-/

namespace PeCoff

open Outline

namespace Version

def FileFlags.outline (flags : FileFlags) : Outline := .flags FileFlags.table flags.bits.toNat

def FixedInfo.outline (info : FixedInfo) : Outline :=
  .record "VsFixedFileInfo" [
    ("signature", u32 info.signature),
    ("struc_version", u32 info.structureVersion),
    ("file_version_minor", u16 info.fileMinor),
    ("file_version_major", u16 info.fileMajor),
    ("file_version_revision", u16 info.fileRevision),
    ("file_version_build", u16 info.fileBuild),
    ("product_version_minor", u16 info.productMinor),
    ("product_version_major", u16 info.productMajor),
    ("product_version_revision", u16 info.productRevision),
    ("product_version_build", u16 info.productBuild),
    ("file_flags_mask", u32 info.fileFlagsMask),
    ("file_flags", info.fileFlags.outline),
    ("file_os", u32 info.fileOs),
    ("file_type", u32 info.fileType),
    ("file_subtype", u32 info.fileSubtype),
    ("file_date_ms", u32 info.fileDateHigh),
    ("file_date_ls", u32 info.fileDateLow)]

def Record.outline (record : Record) : Outline :=
  .record "VersionRecord" [
    ("length", u16 record.length),
    ("value_length", u16 record.valueLength),
    ("value_type", u16 record.valueType),
    ("key", .text record.key),
    ("fixed_file_info", record.fixedInfo.outline)]

end Version

namespace Resource

def Key.outline : Key → Outline
  | .name offset => .alternative "Name" (u32 offset)
  | .id value => .alternative "Id" (u16 value)

def Link.outline : Link → Outline
  | .directory offset => .alternative "Directory" (u32 offset)
  | .data offset => .alternative "Data" (u32 offset)

def Label.outline (label : Label) : Outline :=
  .record "Label" [("length", u16 label.length), ("value", .text label.text)]

def DataEntry.outline (entry : DataEntry) : Outline :=
  .record "DataEntry" [
    ("offset_to_data", u32 entry.rva),
    ("size", u32 entry.size),
    ("code_page", u32 entry.codePage),
    ("reserved", u32 entry.reserved),
    ("data_offset", ofOption nat entry.offset)]

def Entry.outline (entry : Entry σ) (child : Outline) : Outline :=
  .record "Entry" [
    ("name_or_id", entry.key.outline),
    ("child_offset", entry.link.outline),
    ("name", ofOption Label.outline entry.label),
    ("child", child)]

def LevelHeader.outline (header : LevelHeader) (entries : List Outline) : Outline :=
  .record "Level" [
    ("characteristics", u32 header.characteristics),
    ("time_date_stamp", u32 header.timeDateStamp),
    ("major_version", u16 header.majorVersion),
    ("minor_version", u16 header.minorVersion),
    ("number_of_named_entries", u16 header.numberOfNamedEntries),
    ("number_of_id_entries", u16 header.numberOfIdEntries),
    ("entries", .sequence entries)]

def Level.outline (level : Level) : Outline :=
  level.header.outline <| level.entries.attach.map fun ⟨entry, _hm⟩ =>
    entry.outline <|
      match _hc : entry.child with
      | .directory below => .alternative "Directory" below.outline
      | .data data => .alternative "Data" data.outline
termination_by sizeOf level
decreasing_by exact Level.sizeOf_below _hm _hc

def Table.outline (table : Table) : Outline :=
  .record "Resources" [
    ("root_offset", ofOption nat table.rootOffset),
    ("root", table.root.outline),
    ("version_info", ofOption Version.Record.outline table.version)]

end Resource

end PeCoff
