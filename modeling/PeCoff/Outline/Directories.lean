import PeCoff.Debug
import PeCoff.Export
import PeCoff.Import
import PeCoff.Managed
import PeCoff.Outline.Headers

/-!
# Outlines of exports, imports, debug records and the managed header
-/

namespace PeCoff

open Outline

def Guid.outline (guid : Guid) : Outline :=
  .record "Guid" [
    ("data1", u32 guid.data1),
    ("data2", u16 guid.data2),
    ("data3", u16 guid.data3),
    ("data4", bytes guid.data4)]

def ExportHeader.outline (header : ExportHeader) : Outline :=
  .record "ExportHeader" [
    ("characteristics", u32 header.characteristics),
    ("time_date_stamp", u32 header.timeDateStamp),
    ("major_version", u16 header.majorVersion),
    ("minor_version", u16 header.minorVersion),
    ("name", u32 header.name),
    ("base", u32 header.base),
    ("number_of_functions", u32 header.numberOfFunctions),
    ("number_of_names", u32 header.numberOfNames),
    ("address_of_functions", u32 header.addressOfFunctions),
    ("address_of_names", u32 header.addressOfNames),
    ("address_of_name_ordinals", u32 header.addressOfNameOrdinals)]

def Export.outline (item : Export) : Outline :=
  let place := [
    ("name", Outline.text item.name), ("index", u32 item.index), ("ordinal", u32 item.ordinal)]
  match item.target with
  | .code address => .alternative "Code" (.record "Code" (place ++ [("address", u64 address)]))
  | .forwarded function =>
    .alternative "Forwarded" (.record "Forwarded" (place ++ [("target_function", .text function)]))

def ExportTable.outline (table : ExportTable) : Outline :=
  .record "ExportTable" [
    ("directory", table.header.outline),
    ("module_name", ofOption .text table.moduleName),
    ("exports", ofList Export.outline table.exports)]

def ImportDescriptor.outline (descriptor : ImportDescriptor) : Outline :=
  .record "ImportDescriptor" [
    ("original_first_thunk", u32 descriptor.originalFirstThunk),
    ("time_date_stamp", u32 descriptor.timeDateStamp),
    ("forwarder_chain", u32 descriptor.forwarderChain),
    ("name", u32 descriptor.name),
    ("first_thunk", u32 descriptor.firstThunk)]

def ImportedModule.outline (item : ImportedModule) : Outline :=
  .record "ImportedModule" [
    ("descriptor", item.descriptor.outline), ("name", ofOption .text item.name)]

def DebugKind.outline (kind : DebugKind) : Outline := .code DebugKind.names kind.code.toNat

def DebugEntry.outline (entry : DebugEntry) : Outline :=
  .record "ImageDebugDirectory" [
    ("characteristics", u32 entry.characteristics),
    ("time_date_stamp", u32 entry.timeDateStamp),
    ("major_version", u16 entry.majorVersion),
    ("minor_version", u16 entry.minorVersion),
    ("debug_type", entry.kind.outline),
    ("size_of_data", u32 entry.sizeOfData),
    ("address_of_raw_data", u32 entry.addressOfRawData),
    ("pointer_to_raw_data", u32 entry.pointerToRawData)]

def CodeView.outline (record : CodeView) : Outline :=
  .record "CodeView" [
    ("signature", record.signature.outline),
    ("age", .number record.age.toInt),
    ("path", .text record.path)]

def DebugRecord.outline (record : DebugRecord) : Outline :=
  .record "DebugRecord" [
    ("directory", record.entry.outline),
    ("code_view", ofOption CodeView.outline record.codeView)]

def ManagedFlags.outline (flags : ManagedFlags) : Outline :=
  .flags ManagedFlags.table flags.bits.toNat

def ManagedHeader.outline (header : ManagedHeader) : Outline :=
  .record "ImageCor20Header" [
    ("cb", u32 header.statedSize),
    ("major_runtime_version", u16 header.majorRuntimeVersion),
    ("minor_runtime_version", u16 header.minorRuntimeVersion),
    ("metadata", header.metadata.outline),
    ("flags", header.flags.outline),
    ("entry_point_token_or_rva", u32 header.entryPoint),
    ("resources", header.resources.outline),
    ("strong_name_signature", header.strongNameSignature.outline),
    ("code_manager_table", header.codeManagerTable.outline),
    ("vtable_fixups", header.vtableFixups.outline),
    ("export_address_table_jumps", header.exportAddressTableJumps.outline),
    ("managed_native_header", header.managedNativeHeader.outline)]

end PeCoff
