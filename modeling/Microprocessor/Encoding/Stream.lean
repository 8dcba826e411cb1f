import Microprocessor.Encoding.ByteSource
import Microprocessor.Encoding.Decoded

/-! # Streams of instructions

    Instructions stand one after another: each begins where the one before it
    ends. -/

namespace Microprocessor

/-- Up to `count` instructions from `start` on.  The first that the bytes do
    not hold is the last that is tried. -/
def decodeStream {ι : Type} [Decoded ι] (decode : Nat → Except EndOfStream ι) :
    Nat → Nat → List (Except EndOfStream ι)
  | 0, _ => []
  | count + 1, start =>
    match decode start with
    | .ok instruction =>
      .ok instruction :: decodeStream decode count (start + Decoded.length instruction)
    | .error failure => [.error failure]

end Microprocessor
