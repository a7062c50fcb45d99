/-
The processor of a marker stream.

`ScteExtractor` drains the sections of a packet and pushes every one of them, with the
timestamps of the packet on the clock.  All sections of a packet have order 0.
-/
import Metamix.Proc.Extractor
import Metamix.Scte35.Parser

namespace Metamix
namespace Proc

open Lib Binary BinaryParser Scte35 Time Queue

structure ScteExtractor where
  inputId : Nat
  ptsRescaler : TSRescaler
  dtsRescaler : TSRescaler

namespace ScteExtractor

def create (streamTimeBase : TimeBase) (inputId : Nat) (clock : Clock) : ScteExtractor :=
  ⟨inputId, .clockRelative clock streamTimeBase, .clockRelative clock streamTimeBase⟩

variable (A : AvRescale)

def extract (clock : Clock) (pkt : AVPacket) : List SpliceInfoSection → ScteExtractor →
    List (Metadata SpliceInfoSection) × ScteExtractor
  | [], e => ([], e)
  | s :: sections, e =>
      let (rescaledPts, ptsRescaler) := e.ptsRescaler.rescaleToClock A clock pkt.pts
      let (rescaledDts, dtsRescaler) := e.dtsRescaler.rescaleToClock A clock pkt.dts
      let (pushed, e) := extract clock pkt sections ⟨e.inputId, ptsRescaler, dtsRescaler⟩
      (⟨e.inputId, rescaledPts, rescaledDts, 0, s⟩ :: pushed, e)

end ScteExtractor

end Proc
end Metamix
