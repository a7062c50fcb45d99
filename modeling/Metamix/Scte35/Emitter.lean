/-
The SCTE-35 emitter.

Every `emit` returns the bytes it sends through the output iterator, and every `emitSizeHint`
is the size the source announces for them.  The two are the same for everything but a
schedule: `CancelOff.emit_length` says by how much the hint of one of its events is too
small.
-/
import Metamix.Scte35.Section
import Metamix.Scte35.Crc32

namespace Metamix
namespace Scte35

open Lib Binary

/-! ## Size hints -/

/-- `if (x) sum += emit_size_hint(*x)`. -/
def hintOptional {α : Type} (hint : α → Nat) : Option α → Nat
  | some x => hint x
  | none => 0

def SpliceTime.emitSizeHint (s : SpliceTime) : Nat := if s.ptsTime.isSome then 5 else 1

def BreakDuration.emitSizeHint (_ : BreakDuration) : Nat := 5

namespace SpliceSchedule

def ProgramSpliceOn.emitSizeHint (_ : ProgramSpliceOn) : Nat := 4

def ProgramSpliceOff.emitSizeHint (splice : ProgramSpliceOff) : Nat :=
  splice.components.length * 5

def Splice.emitSizeHint : Splice → Nat
  | .on splice => splice.emitSizeHint
  | .off splice => splice.emitSizeHint

/-- The hint of the splice is computed by the visitor and not added. -/
def CancelOff.emitSizeHint (more : CancelOff) : Nat :=
  let sum := 1 + 4
  let _ := more.splice.emitSizeHint
  sum + hintOptional BreakDuration.emitSizeHint more.breakDuration

def Event.emitSizeHint (event : Event) : Nat :=
  5 + hintOptional CancelOff.emitSizeHint event.more

end SpliceSchedule

def SpliceSchedule.emitSizeHint (command : SpliceSchedule) : Nat :=
  1 + (command.events.map SpliceSchedule.Event.emitSizeHint).sum

namespace SpliceInsert

def CancelOff.Component.emitSizeHint (component : CancelOff.Component) : Nat :=
  1 + hintOptional SpliceTime.emitSizeHint component.spliceTime

def CancelOff.componentsSizeHint (components : List CancelOff.Component) : Nat :=
  1 + (components.map CancelOff.Component.emitSizeHint).sum

def CancelOff.emitSizeHint (more : CancelOff) : Nat :=
  1 + 4 + hintOptional SpliceTime.emitSizeHint more.spliceTime +
    hintOptional CancelOff.componentsSizeHint more.components +
    hintOptional BreakDuration.emitSizeHint more.breakDuration

end SpliceInsert

def SpliceInsert.emitSizeHint (command : SpliceInsert) : Nat :=
  5 + hintOptional SpliceInsert.CancelOff.emitSizeHint command.more

def TimeSignal.emitSizeHint (command : TimeSignal) : Nat := command.spliceTime.emitSizeHint

def PrivateCommand.emitSizeHint (command : PrivateCommand) : Nat := 4 + command.bytes.length

def Command.emitSizeHint : Command → Nat
  | .spliceNull => 0
  | .spliceSchedule command => command.emitSizeHint
  | .spliceInsert command => command.emitSizeHint
  | .timeSignal command => command.emitSizeHint
  | .bandwidthReservation => 0
  | .privateCommand command => command.emitSizeHint

def AvailDescriptor.emitSizeHint (_ : AvailDescriptor) : Nat := 2 + AvailDescriptor.length.toNat

def DtmfDescriptor.emitSizeHint (descriptor : DtmfDescriptor) : Nat :=
  8 + descriptor.dtmfChars.length

def SegmentationDescriptor.emitSizeHint (descriptor : SegmentationDescriptor) : Nat :=
  6 + descriptor.data.length

def TimeDescriptor.emitSizeHint (_ : TimeDescriptor) : Nat := 2 + TimeDescriptor.length.toNat

def Descriptor.emitSizeHint : Descriptor → Nat
  | .avail descriptor => descriptor.emitSizeHint
  | .dtmf descriptor => descriptor.emitSizeHint
  | .segmentation descriptor => descriptor.emitSizeHint
  | .time descriptor => descriptor.emitSizeHint

def descriptorsSizeHint (descriptors : List Descriptor) : Nat :=
  (descriptors.map Descriptor.emitSizeHint).sum

namespace SpliceInfoSection

def computeSectionLength (s : SpliceInfoSection) : Nat :=
  17 + s.command.emitSizeHint + descriptorsSizeHint s.descriptors

def emitSizeHint (s : SpliceInfoSection) : Nat := 3 + s.computeSectionLength

end SpliceInfoSection

/-! ## Bytes -/

/-- `if (x) out = emit(*x, out)`. -/
def emitOptional {α : Type} (emit : α → Bytes) : Option α → Bytes
  | some x => emit x
  | none => []

def SpliceTime.emit (s : SpliceTime) : Bytes :=
  match s.ptsTime with
  | some pts => write33Prefix 0xff pts
  | none => write8 0x7f

def BreakDuration.emit (b : BreakDuration) : Bytes :=
  write33Prefix (b.autoReturn.toUInt8 <<< 7) b.duration

namespace SpliceSchedule

def ProgramSpliceOn.emit (splice : ProgramSpliceOn) : Bytes := write32 splice.utcSpliceTime

def ProgramSpliceOff.Component.emit (component : ProgramSpliceOff.Component) : Bytes :=
  write8 component.componentTag ++ write32 component.utcSpliceTime

def ProgramSpliceOff.emit (splice : ProgramSpliceOff) : Bytes :=
  write8 (UInt8.ofNat splice.components.length) ++
    splice.components.flatMap ProgramSpliceOff.Component.emit

def Splice.emit : Splice → Bytes
  | .on splice => splice.emit
  | .off splice => splice.emit

def CancelOff.emit (more : CancelOff) : Bytes :=
  write8 ((more.outOfNetwork.toUInt8 <<< 7) ||| (more.programSplice.toUInt8 <<< 6) |||
      (more.duration.toUInt8 <<< 5) ||| 0x1f) ++
    (more.splice.emit ++ (emitOptional BreakDuration.emit more.breakDuration ++
      (write16 more.uniqueProgramId ++ (write8 more.availNum ++ write8 more.availsExpected))))

def Event.emit (event : Event) : Bytes :=
  write32 event.id ++ match event.more with
    | some more => write8 0x7f ++ more.emit
    | none => write8 0xff

end SpliceSchedule

def SpliceSchedule.emit (command : SpliceSchedule) : Bytes :=
  write8 (UInt8.ofNat command.events.length) ++ command.events.flatMap SpliceSchedule.Event.emit

namespace SpliceInsert

def CancelOff.Component.emit (component : CancelOff.Component) : Bytes :=
  write8 component.componentTag ++ emitOptional SpliceTime.emit component.spliceTime

def CancelOff.emitComponents (components : List CancelOff.Component) : Bytes :=
  write8 (UInt8.ofNat components.length) ++ components.flatMap CancelOff.Component.emit

def CancelOff.emit (more : CancelOff) : Bytes :=
  write8 ((more.outOfNetwork.toUInt8 <<< 7) ||| (more.programSplice.toUInt8 <<< 6) |||
      (more.duration.toUInt8 <<< 5) ||| (more.spliceImmediate.toUInt8 <<< 4) ||| 0x0f) ++
    (emitOptional SpliceTime.emit more.spliceTime ++
      (emitOptional CancelOff.emitComponents more.components ++
        (emitOptional BreakDuration.emit more.breakDuration ++
          (write16 more.uniqueProgramId ++ (write8 more.availNum ++ write8 more.availsExpected)))))

end SpliceInsert

def SpliceInsert.emit (command : SpliceInsert) : Bytes :=
  write32 command.id ++ match command.more with
    | some more => write8 0x7f ++ more.emit
    | none => write8 0xff

def TimeSignal.emit (command : TimeSignal) : Bytes := command.spliceTime.emit

def PrivateCommand.emit (command : PrivateCommand) : Bytes :=
  write32 command.identifier ++ command.bytes.flatMap write8

def Command.emit : Command → Bytes
  | .spliceNull => []
  | .spliceSchedule command => command.emit
  | .spliceInsert command => command.emit
  | .timeSignal command => command.emit
  | .bandwidthReservation => []
  | .privateCommand command => command.emit

def AvailDescriptor.emit (descriptor : AvailDescriptor) : Bytes :=
  write8 AvailDescriptor.tag ++ (write8 AvailDescriptor.length ++
    (write32 descriptorIdentifier ++ write32 descriptor.providerAvailId))

def DtmfDescriptor.emit (descriptor : DtmfDescriptor) : Bytes :=
  write8 DtmfDescriptor.tag ++ (write8 (UInt8.ofNat (descriptor.emitSizeHint - 2)) ++
    (write32 descriptorIdentifier ++ (write8 descriptor.preroll ++
      (write8 (UInt8.ofNat (descriptor.dtmfChars.length <<< 5)) ++
        descriptor.dtmfChars.flatMap write8))))

def SegmentationDescriptor.emit (descriptor : SegmentationDescriptor) : Bytes :=
  write8 SegmentationDescriptor.tag ++ (write8 (UInt8.ofNat (descriptor.emitSizeHint - 2)) ++
    (write32 descriptorIdentifier ++ descriptor.data.flatMap write8))

def TimeDescriptor.emit (descriptor : TimeDescriptor) : Bytes :=
  write8 TimeDescriptor.tag ++ (write8 TimeDescriptor.length ++ (write32 descriptorIdentifier ++
    (write48 descriptor.taiSeconds ++ (write32 descriptor.taiNanoseconds ++
      write16 descriptor.utcOffset))))

def Descriptor.emit : Descriptor → Bytes
  | .avail descriptor => descriptor.emit
  | .dtmf descriptor => descriptor.emit
  | .segmentation descriptor => descriptor.emit
  | .time descriptor => descriptor.emit

namespace SpliceInfoSection

def emitBody (s : SpliceInfoSection) : Bytes :=
  write8 tableId ++ (write12Prefix ((sectionSyntaxIndicator.toUInt8 <<< 3) |||
      (privateIndicator.toUInt8 <<< 2) ||| 0x03) (UInt16.ofNat s.computeSectionLength) ++
    (write8 protocolVersion ++ (write33Prefix ((s.encryptedPacket.toUInt8 <<< 7) |||
        ((s.encryptionAlgorithm <<< 1) &&& 0x7e)) s.ptsAdjustment ++
      (write8 s.cwIndex ++ (write12Pair s.tier (UInt16.ofNat s.command.emitSizeHint) ++
        (write8 s.command.type ++ (s.command.emit ++
          (write16 (UInt16.ofNat (descriptorsSizeHint s.descriptors)) ++
            s.descriptors.flatMap Descriptor.emit))))))))

/-- Every byte of the body goes through the checksum on its way out. -/
def emit (s : SpliceInfoSection) : Bytes :=
  s.emitBody ++ write32 (CRC32.compute s.emitBody).value

end SpliceInfoSection

/-! ## Lengths -/

theorem flatMap_write8 (bytes : Bytes) : bytes.flatMap write8 = bytes := by
  induction bytes with
  | nil => rfl
  | cons b bytes ih => rw [List.flatMap_cons, ih, write8, List.singleton_append]

theorem emitOptional_length {α : Type} {emit : α → Bytes} {hint : α → Nat}
    (h : ∀ x, (emit x).length = hint x) (o : Option α) :
    (emitOptional emit o).length = hintOptional hint o := by
  cases o with
  | none => rfl
  | some x => exact h x

theorem SpliceTime.emit_length (s : SpliceTime) : s.emit.length = s.emitSizeHint := by
  unfold SpliceTime.emit SpliceTime.emitSizeHint
  cases s.ptsTime <;> rfl

theorem BreakDuration.emit_length (b : BreakDuration) : b.emit.length = b.emitSizeHint := rfl

namespace SpliceSchedule

theorem ProgramSpliceOff.components_length (components : List ProgramSpliceOff.Component) :
    (components.flatMap ProgramSpliceOff.Component.emit).length = components.length * 5 := by
  induction components with
  | nil => rfl
  | cons c components ih =>
      rw [List.flatMap_cons, List.length_append, ih, List.length_cons]
      show 5 + _ = _
      omega

/-- The bytes of the splice that the hint of an event leaves out. -/
def Splice.unannounced (splice : Splice) : Nat := splice.emit.length

theorem Splice.unannounced_pos (splice : Splice) : 0 < splice.unannounced := by
  cases splice with
  | on splice => exact Nat.succ_pos _
  | off splice => exact Nat.succ_pos _

theorem CancelOff.emit_length (more : CancelOff) :
    more.emit.length = more.emitSizeHint + more.splice.unannounced := by
  unfold CancelOff.emit CancelOff.emitSizeHint Splice.unannounced
  simp only [List.length_append, write8_length, write16_length,
    emitOptional_length BreakDuration.emit_length]
  show _ = 1 + 4 + hintOptional BreakDuration.emitSizeHint more.breakDuration + _
  omega

def Event.unannounced (event : Event) : Nat :=
  match event.more with
  | some more => more.splice.unannounced
  | none => 0

theorem Event.emit_length (event : Event) :
    event.emit.length = event.emitSizeHint + event.unannounced := by
  unfold Event.emit Event.emitSizeHint Event.unannounced
  cases event.more with
  | none => rfl
  | some more =>
      simp only [List.length_append, write32_length, write8_length, more.emit_length,
        hintOptional]
      omega

end SpliceSchedule

def SpliceSchedule.unannounced (command : SpliceSchedule) : Nat :=
  (command.events.map SpliceSchedule.Event.unannounced).sum

theorem SpliceSchedule.emit_length (command : SpliceSchedule) :
    command.emit.length = command.emitSizeHint + command.unannounced := by
  have hevents : ∀ events : List Event, (events.flatMap Event.emit).length =
      (events.map Event.emitSizeHint).sum + (events.map Event.unannounced).sum := by
    intro events
    induction events with
    | nil => rfl
    | cons event events ih =>
        simp only [List.flatMap_cons, List.length_append, List.map_cons, List.sum_cons, ih,
          event.emit_length]
        omega
  unfold SpliceSchedule.emit SpliceSchedule.emitSizeHint SpliceSchedule.unannounced
  rw [List.length_append, write8_length, hevents]
  omega

namespace SpliceInsert

theorem CancelOff.components_length (components : List CancelOff.Component) :
    (CancelOff.emitComponents components).length = CancelOff.componentsSizeHint components := by
  have hall : (components.flatMap CancelOff.Component.emit).length =
      (components.map CancelOff.Component.emitSizeHint).sum := by
    rw [List.length_flatMap]
    congr 1
    refine List.map_congr_left fun c _ => ?_
    unfold CancelOff.Component.emit CancelOff.Component.emitSizeHint
    rw [List.length_append, write8_length, emitOptional_length SpliceTime.emit_length]
  unfold CancelOff.emitComponents CancelOff.componentsSizeHint
  rw [List.length_append, write8_length, hall]

theorem CancelOff.emit_length (more : CancelOff) : more.emit.length = more.emitSizeHint := by
  unfold CancelOff.emit CancelOff.emitSizeHint
  simp only [List.length_append, write8_length, write16_length,
    emitOptional_length SpliceTime.emit_length, emitOptional_length CancelOff.components_length,
    emitOptional_length BreakDuration.emit_length]
  omega

end SpliceInsert

theorem SpliceInsert.emit_length (command : SpliceInsert) :
    command.emit.length = command.emitSizeHint := by
  unfold SpliceInsert.emit SpliceInsert.emitSizeHint
  cases command.more with
  | none => rfl
  | some more =>
      simp only [List.length_append, write32_length, write8_length, more.emit_length,
        hintOptional]
      omega

theorem PrivateCommand.emit_length (command : PrivateCommand) :
    command.emit.length = command.emitSizeHint := by
  rw [PrivateCommand.emit, flatMap_write8, List.length_append, write32_length]
  rfl

/-- What the hint of a command leaves out: the splices of a schedule. -/
def Command.unannounced : Command → Nat
  | .spliceSchedule command => command.unannounced
  | _ => 0

theorem Command.emit_length (command : Command) :
    command.emit.length = command.emitSizeHint + command.unannounced := by
  cases command with
  | spliceNull => rfl
  | spliceSchedule command => exact command.emit_length
  | spliceInsert command => exact command.emit_length
  | timeSignal command => exact command.spliceTime.emit_length
  | bandwidthReservation => rfl
  | privateCommand command => exact command.emit_length

theorem Descriptor.emit_length (descriptor : Descriptor) :
    descriptor.emit.length = descriptor.emitSizeHint := by
  cases descriptor with
  | avail descriptor => rfl
  | dtmf descriptor =>
      rw [Descriptor.emit, DtmfDescriptor.emit, flatMap_write8]
      simp only [List.length_append, write8_length, write32_length]
      show _ = 8 + descriptor.dtmfChars.length
      omega
  | segmentation descriptor =>
      rw [Descriptor.emit, SegmentationDescriptor.emit, flatMap_write8]
      simp only [List.length_append, write8_length, write32_length]
      show _ = 6 + descriptor.data.length
      omega
  | time descriptor => rfl

theorem descriptors_length (descriptors : List Descriptor) :
    (descriptors.flatMap Descriptor.emit).length = descriptorsSizeHint descriptors := by
  rw [List.length_flatMap]
  congr 1
  exact List.map_congr_left fun d _ => d.emit_length

theorem SpliceInfoSection.emit_length (s : SpliceInfoSection) :
    s.emit.length = s.emitSizeHint + s.command.unannounced := by
  unfold SpliceInfoSection.emit SpliceInfoSection.emitBody SpliceInfoSection.emitSizeHint
    SpliceInfoSection.computeSectionLength
  simp only [List.length_append, write8_length, write12Prefix_length, write33Prefix_length,
    write12Pair_length, write16_length, write32_length, s.command.emit_length, descriptors_length]
  omega

end Scte35
end Metamix
