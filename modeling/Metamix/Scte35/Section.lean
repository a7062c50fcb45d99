/-
SCTE-35 splice info sections.

These are the values the emitter writes and the parser returns.  An optional field of the
wire format is an `Option`; the flags that announce it are fields of their own only where
the source keeps them apart.
-/
import Metamix.Binary.Parser

namespace Metamix
namespace Scte35

structure SpliceTime where
  ptsTime : Option UInt64
deriving DecidableEq, Repr

structure BreakDuration where
  autoReturn : Bool
  duration : UInt64
deriving DecidableEq, Repr

/-! ## Commands -/

namespace SpliceSchedule

structure ProgramSpliceOn where
  utcSpliceTime : UInt32
deriving DecidableEq, Repr

namespace ProgramSpliceOff

structure Component where
  componentTag : UInt8
  utcSpliceTime : UInt32
deriving DecidableEq, Repr

end ProgramSpliceOff

structure ProgramSpliceOff where
  components : List ProgramSpliceOff.Component
deriving DecidableEq, Repr

/-- The variant in `CancelOff::splice`. -/
inductive Splice where
  | on (splice : ProgramSpliceOn)
  | off (splice : ProgramSpliceOff)
deriving DecidableEq, Repr

structure CancelOff where
  outOfNetwork : Bool
  splice : Splice
  breakDuration : Option BreakDuration
  uniqueProgramId : UInt16
  availNum : UInt8
  availsExpected : UInt8
deriving DecidableEq, Repr

def CancelOff.programSplice (more : CancelOff) : Bool :=
  match more.splice with
  | .on _ => true
  | .off _ => false

def CancelOff.duration (more : CancelOff) : Bool := more.breakDuration.isSome

structure Event where
  id : UInt32
  more : Option CancelOff
deriving DecidableEq, Repr

end SpliceSchedule

structure SpliceSchedule where
  events : List SpliceSchedule.Event
deriving DecidableEq, Repr

namespace SpliceInsert

namespace CancelOff

structure Component where
  componentTag : UInt8
  spliceTime : Option SpliceTime
deriving DecidableEq, Repr

end CancelOff

structure CancelOff where
  outOfNetwork : Bool
  programSplice : Bool
  spliceImmediate : Bool
  spliceTime : Option SpliceTime
  components : Option (List CancelOff.Component)
  breakDuration : Option BreakDuration
  uniqueProgramId : UInt16
  availNum : UInt8
  availsExpected : UInt8
deriving DecidableEq, Repr

def CancelOff.duration (more : CancelOff) : Bool := more.breakDuration.isSome

end SpliceInsert

structure SpliceInsert where
  id : UInt32
  more : Option SpliceInsert.CancelOff
deriving DecidableEq, Repr

structure TimeSignal where
  spliceTime : SpliceTime
deriving DecidableEq, Repr

structure PrivateCommand where
  identifier : UInt32
  bytes : Bytes
deriving DecidableEq, Repr

inductive Command where
  | spliceNull
  | spliceSchedule (command : SpliceSchedule)
  | spliceInsert (command : SpliceInsert)
  | timeSignal (command : TimeSignal)
  | bandwidthReservation
  | privateCommand (command : PrivateCommand)
deriving DecidableEq, Repr

namespace CommandType

def spliceNull : UInt8 := 0x00
def spliceSchedule : UInt8 := 0x04
def spliceInsert : UInt8 := 0x05
def timeSignal : UInt8 := 0x06
def bandwidthReservation : UInt8 := 0x07
def privateCommand : UInt8 := 0xff

end CommandType

def Command.type : Command → UInt8
  | .spliceNull => CommandType.spliceNull
  | .spliceSchedule _ => CommandType.spliceSchedule
  | .spliceInsert _ => CommandType.spliceInsert
  | .timeSignal _ => CommandType.timeSignal
  | .bandwidthReservation => CommandType.bandwidthReservation
  | .privateCommand _ => CommandType.privateCommand

/-! ## Descriptors -/

/-- `CUEI`, the identifier of every descriptor. -/
def descriptorIdentifier : UInt32 := 0x43554549

structure AvailDescriptor where
  providerAvailId : UInt32
deriving DecidableEq, Repr

structure DtmfDescriptor where
  preroll : UInt8
  dtmfChars : Bytes
deriving DecidableEq, Repr

structure SegmentationDescriptor where
  data : Bytes
deriving DecidableEq, Repr

structure TimeDescriptor where
  taiSeconds : UInt64
  taiNanoseconds : UInt32
  utcOffset : UInt16
deriving DecidableEq, Repr

def AvailDescriptor.tag : UInt8 := 0x00
def AvailDescriptor.length : UInt8 := 8
def DtmfDescriptor.tag : UInt8 := 0x01
def SegmentationDescriptor.tag : UInt8 := 0x02
def TimeDescriptor.tag : UInt8 := 0x03
def TimeDescriptor.length : UInt8 := 16

inductive Descriptor where
  | avail (descriptor : AvailDescriptor)
  | dtmf (descriptor : DtmfDescriptor)
  | segmentation (descriptor : SegmentationDescriptor)
  | time (descriptor : TimeDescriptor)
deriving DecidableEq, Repr

/-! ## The section -/

structure SpliceInfoSection where
  encryptedPacket : Bool
  encryptionAlgorithm : UInt8
  ptsAdjustment : UInt64
  cwIndex : UInt8
  tier : UInt16
  command : Command
  descriptors : List Descriptor
deriving DecidableEq, Repr

namespace SpliceInfoSection

def tableId : UInt8 := 0xfc
def sectionSyntaxIndicator : Bool := false
def privateIndicator : Bool := false
def protocolVersion : UInt8 := 0

end SpliceInfoSection
end Scte35
end Metamix
