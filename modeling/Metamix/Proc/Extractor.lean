/-
The processor of an input stream.

`SeiExtractor` goes over the SEI payloads of a packet and pushes every closed caption, with
the timestamps of the packet on the clock.  The rescalers only see packets that carry a
caption: their zero point is the first of those.
-/
import Metamix.Proc.Injector

namespace Metamix
namespace Proc

open Lib Binary BinaryParser H264 Time Queue

/-! ## Payloads of a packet -/

/-- The payloads of the valid SEI NALUs, and the exception that ends the loops. -/
def scanNalus : List Nalu → List SeiPayload × Option Fault
  | [] => ([], none)
  | n :: nalus =>
      if n.isValid && n.type == .sei then
        match copyEbspToSodb n.data with
        | .error f => ([], some f)
        | .ok sodb =>
            match drain seiParser (sodb.drop 1) with
            | (seis, some f) => (seis, some f)
            | (seis, none) =>
                let (rest, fault) := scanNalus nalus
                (seis ++ rest, fault)
      else scanNalus nalus

/-- A packet that does not parse to its end gives what comes before the error. -/
def scan (data : Bytes) : List SeiPayload × Option Fault :=
  let (nalus, fault) := drain avPacketNaluParser data
  let (seis, fault') := scanNalus nalus
  (seis, fault' <|> fault)

def captions (data : Bytes) : List SeiPayload := (scan data).1.filter isCc

/-! ## The extractor -/

structure SeiExtractor where
  inputId : Nat
  ptsRescaler : TSRescaler
  dtsRescaler : TSRescaler

namespace SeiExtractor

def create (streamTimeBase : TimeBase) (inputId : Nat) (clock : Clock) : SeiExtractor :=
  ⟨inputId, .clockRelative clock streamTimeBase, .clockRelative clock streamTimeBase⟩

variable (A : AvRescale) (H : Heap SeiPayload)

def extract (clock : Clock) (pkt : AVPacket) :
    Int → List SeiPayload → SeiExtractor → List (Metadata SeiPayload) × SeiExtractor
  | _, [], e => ([], e)
  | order, sei :: seis, e =>
      let (rescaledPts, ptsRescaler) := e.ptsRescaler.rescaleToClock A clock pkt.pts
      let (rescaledDts, dtsRescaler) := e.dtsRescaler.rescaleToClock A clock pkt.dts
      let (pushed, e) := extract clock pkt (order + 1) seis ⟨e.inputId, ptsRescaler, dtsRescaler⟩
      (⟨e.inputId, rescaledPts, rescaledDts, order, sei⟩ :: pushed, e)

/-- The entries pushed, and the state after it.  A parse error is logged, any other exception
ends the extractor. -/
def process (e : SeiExtractor) (clock : Clock) (pkt : AVPacket) (q : MetadataQueue SeiPayload) :
    Except Fault (List (Metadata SeiPayload) × SeiExtractor × MetadataQueue SeiPayload) :=
  let (pushed, e) := extract A clock pkt 0 (captions pkt.data) e
  let q := pushed.foldl (fun q value => q.push H value) q
  match (scan pkt.data).2 with
  | none => .ok (pushed, e, q)
  | some (.parse _) => .ok (pushed, e, q)
  | some f => .error f

end SeiExtractor
end Proc
end Metamix
