import PeCoff.Image
import PeCoff.Outline.Directories
import PeCoff.Outline.Resource

/-!
# The outline of an image
-/

namespace PeCoff

open Outline

def Image.outline (image : Image) : Outline :=
  .record "Image" [
    ("headers", image.headers.outline),
    ("export_directory", ofOption ExportTable.outline image.exports),
    ("import_descriptors", ofList ImportedModule.outline image.imports),
    ("debug_directory", ofList DebugRecord.outline image.debug),
    ("resource_directory", image.resources.outline),
    ("cor20_header", ofOption ManagedHeader.outline image.managed)]

end PeCoff
