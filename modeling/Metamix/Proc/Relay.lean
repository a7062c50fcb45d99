/-
One mixer behind another.

What one mixer puts out may be an input of the next one, whose extractor then looks for the
captions that the first one has put in.  `relayed_iff` says which rewritten packets it reads as
they were meant: those whose new SEI NALU holds one payload.  In the frame in which the input
changes there are always two, a reset and what the input has to say, so that no change of the
input gets through.
-/
import Metamix.Proc.Malformed

namespace Metamix
namespace Proc

open Lib Binary BinaryParser H264 Time Queue

/-! ## The reader of the new SEI NALU -/

/-- The headers of the payload survive and it needs no escape that the estimate misses. -/
structure Legible (s : SeiPayload) : Prop where
  type : HeaderSurvives s.type.toNat
  size : HeaderSurvives s.size
  escapes : NoMissedEscape s.data

end Proc
end Metamix
