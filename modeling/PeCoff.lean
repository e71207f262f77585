import PeCoff.Main
import PeCoff.Proofs.Image.Extension
import PeCoff.Proofs.Gate
import PeCoff.Proofs.Export.Forwarders
import PeCoff.Proofs.Report
import PeCoff.Proofs.Image.Mapped
import PeCoff.Proofs.Resource.Unfolding
import PeCoff.Proofs.Bytes.Decoding
import PeCoff.Proofs.Image.Independence
import PeCoff.Proofs.Encodings
import PeCoff.Proofs.Resource.Defects
import PeCoff.Proofs.Image.Degradation
import PeCoff.Proofs.Arithmetic.Evaluation
import PeCoff.Proofs.Arithmetic.Headers
import PeCoff.Proofs.Arithmetic.Directories
import PeCoff.Proofs.Arithmetic.Image
import PeCoff.Proofs.Headers.Outcome
import PeCoff.Proofs.Debug.Directory
import PeCoff.Proofs.Resource.VersionRecord
import PeCoff.Proofs.Import
import PeCoff.Proofs.Export.Aliases
import PeCoff.Proofs.Headers.Containment
import PeCoff.Proofs.Report.Resources
import PeCoff.Proofs.RvaText
import PeCoff.Proofs.Bytes.Units
import PeCoff.Proofs.Bytes.FirstZero
import PeCoff.Proofs.Outline.Flags
import PeCoff.Proofs.Guid
import PeCoff.Proofs.Resource.Data
import PeCoff.Proofs.Headers.SectionName
