import PeCoff.Debug
import PeCoff.Export
import PeCoff.Import
import PeCoff.Managed
import PeCoff.Resource.Table

/-!
# Images

Everything that is read of an image. The first failure among the headers, the
managed header, exports, imports and debug directory, in this order, is the
failure of the whole; resources never fail.
-/

namespace PeCoff

structure Image where
  headers : Headers
  exports : Option ExportTable
  imports : List ImportedModule
  debug : List DebugRecord
  resources : Resource.Table
  managed : Option ManagedHeader

namespace Image

def reader (loaded : Bool) : Reader Image := do
  let headers ← Headers.read loaded
  let managed ← ManagedHeader.find headers
  let exports ← ExportTable.read headers
  let imports ← ImportedModule.readAll headers
  let debug ← DebugRecord.readAll headers
  let resources ← Resource.Table.read headers
  pure { headers, exports, imports, debug, resources, managed }

/-- Reads an image, laid out as a file or as the loader maps it. -/
def read (bytes : ByteArray) (loaded : Bool) : Except ReadError Image :=
  (reader loaded).value bytes 0

/-- The program database named by the first debug entry that names one. -/
def database? (image : Image) : Option CodeView :=
  image.debug.findSome? DebugRecord.codeView

end Image

end PeCoff
