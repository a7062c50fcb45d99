/-
The SCTE-35 parser.

The reader holds the bytes up to the end pointer; where the source narrows that pointer to
the end of the descriptor loop, so does `within`.  Two expressions of the source call
functions that move the cursor in an order the language leaves open: `EvalOrder` is what a
compiler makes of them.
-/
import Metamix.Scte35.Section
import Metamix.Scte35.Crc32
import Metamix.Binary.ParserUtil

namespace Metamix
namespace Scte35

open Lib Lib.Reader Binary

/-- All fields up to `splice_command_type`, `descriptor_loop_length` and `CRC_32`. -/
def minSisLength : Nat := 1 + 2 + 1 + 1 + 4 + 1 + 3 + 1 + 2 + 4

/-! ## Checks -/

/-- A byte is formatted as the character it stands for. -/
def showByte (b : UInt8) : String := String.singleton (Char.ofNat b.toNat)

def showBool (b : Bool) : String := if b then "1" else "0"

def testConst (c : Prop) [Decidable c] (lhs op rhs lval rval : String) : Reader Unit := fun s =>
  if c then .ok ((), s)
  else .error (parseError ("condition '" ++ lhs ++ " " ++ op ++ " " ++ rhs ++ "' failed, " ++
    lhs ++ "=" ++ lval ++ " " ++ rhs ++ "=" ++ rval))

def assert_ (c : Prop) [Decidable c] : Reader Unit := fun s =>
  if c then .ok ((), s) else .error .assertion

def throw_ {α : Type} (what : String) : Reader α := fun _ => .error (parseError what)

/-- Read `count` bytes further than the end pointer, and throw. -/
def overread {α : Type} (count : Nat) (what : String) : Reader α := fun _ =>
  .error (.overread count ⟨what, 0, 0⟩)

/-- `std::vector(ptr + first, ptr + last)` of a range that ends in front of the end pointer. -/
def copyRange (first last : Int) : Reader Bytes := fun s =>
  if last < first then .error .lengthError
  else if last ≤ s.length then .ok ((s.take last.toNat).drop first.toNat, s)
  else .error .outOfBounds

/-- Run a reader with the end pointer `n` bytes ahead of the cursor. -/
def within {α : Type} (n : Nat) (p : Reader α) : Reader α := fun s =>
  match p.run (s.take n) with
  | .error f => .error f
  | .ok (a, t) => .ok (a, t ++ s.drop n)

theorem within_apply {α : Type} (n : Nat) (p : Reader α) (s : Bytes) :
    (within n p).run s = (match p.run (s.take n) with
      | .error f => .error f
      | .ok (a, t) => .ok (a, t ++ s.drop n)) := rfl

/-! ## Commands -/

def parseSpliceTime : Reader SpliceTime := do
  let timeSpecifiedFlag ← scanFlag 0b10000000
  if timeSpecifiedFlag then do
    let ptsTime ← read33
    return ⟨some ptsTime⟩
  else do
    let _ ← read8 0xff
    return ⟨none⟩

def parseBreakDuration : Reader BreakDuration := do
  let autoReturn ← scanFlag 0b10000000
  let duration ← read33
  return ⟨autoReturn, duration⟩

def parseOptional {α : Type} (flag : Bool) (p : Reader α) : Reader (Option α) :=
  if flag then do
    let a ← p
    return some a
  else return none

/-- The number of components, which must not be zero, and the components. -/
def parseComponents {α : Type} (p : Reader α) : Reader (List α) := do
  let componentCount ← read8 0xff
  testConst (1 ≤ componentCount.toNat) "component_count" ">=" "1" (showByte componentCount) "1"
  times p componentCount.toNat

def parseScheduleComponent : Reader SpliceSchedule.ProgramSpliceOff.Component := do
  let componentTag ← read8 0xff
  let utcSpliceTime ← read32
  return ⟨componentTag, utcSpliceTime⟩

def parseSpliceScheduleEventProgramSplice (programSpliceFlag : Bool) :
    Reader SpliceSchedule.Splice :=
  if programSpliceFlag then do
    let utcSpliceTime ← read32
    return .on ⟨utcSpliceTime⟩
  else do
    let components ← parseComponents parseScheduleComponent
    return .off ⟨components⟩

def parseScheduleCancelOff : Reader SpliceSchedule.CancelOff := do
  let outOfNetworkIndicator ← scanFlag 0b10000000
  let programSpliceFlag ← scanFlag 0b01000000
  let durationFlag ← scanFlag 0b00100000
  let _ ← read8 0xff
  let programSplice ← parseSpliceScheduleEventProgramSplice programSpliceFlag
  let breakDuration ← parseOptional durationFlag parseBreakDuration
  let uniqueProgramId ← read16
  let availNum ← read8 0xff
  let availsExpected ← read8 0xff
  return ⟨outOfNetworkIndicator, programSplice, breakDuration, uniqueProgramId, availNum,
    availsExpected⟩

def parseSpliceScheduleEvent : Reader SpliceSchedule.Event := do
  let spliceEventId ← read32
  let spliceEventCancelIndicator ← scanFlag 0b10000000
  let _ ← read8 0xff
  let more ← parseOptional (!spliceEventCancelIndicator) parseScheduleCancelOff
  return ⟨spliceEventId, more⟩

def parseSpliceSchedule : Reader SpliceSchedule := do
  let spliceCount ← read8 0xff
  let events ← times parseSpliceScheduleEvent spliceCount.toNat
  return ⟨events⟩

def parseInsertComponent (spliceImmediateFlag : Bool) :
    Reader SpliceInsert.CancelOff.Component := do
  let componentTag ← read8 0xff
  let spliceTime ← parseOptional (!spliceImmediateFlag) parseSpliceTime
  return ⟨componentTag, spliceTime⟩

def parseInsertCancelOff : Reader SpliceInsert.CancelOff := do
  let outOfNetworkIndicator ← scanFlag 0b10000000
  let programSpliceFlag ← scanFlag 0b01000000
  let durationFlag ← scanFlag 0b00100000
  let spliceImmediateFlag ← scanFlag 0b00010000
  let _ ← read8 0xff
  let spliceTime ← parseOptional (programSpliceFlag && !spliceImmediateFlag) parseSpliceTime
  let components ← parseOptional (!programSpliceFlag)
    (parseComponents (parseInsertComponent spliceImmediateFlag))
  let breakDuration ← parseOptional durationFlag parseBreakDuration
  let uniqueProgramId ← read16
  let availNum ← read8 0xff
  let availsExpected ← read8 0xff
  return ⟨outOfNetworkIndicator, programSpliceFlag, spliceImmediateFlag, spliceTime, components,
    breakDuration, uniqueProgramId, availNum, availsExpected⟩

def parseSpliceInsert : Reader SpliceInsert := do
  let spliceEventId ← read32
  let spliceEventCancelIndicator ← scanFlag 0b10000000
  let _ ← read8 0xff
  let more ← parseOptional (!spliceEventCancelIndicator) parseInsertCancelOff
  return ⟨spliceEventId, more⟩

def parseTimeSignal : Reader TimeSignal := do
  let spliceTime ← parseSpliceTime
  return ⟨spliceTime⟩

def commandLengthDiffers (len commandLength : Nat) : String :=
  "consumed command length: " ++ toString len ++ " differs from splice_command_length: " ++
    toString commandLength

/-- The identifier has been read when the bytes are copied, yet they are taken four bytes
further on, and the cursor moves by the length of the whole command.  No check keeps the copy
in front of the end pointer.  If it goes on behind it, the next thing that looks at the cursor
is the check of the command's length, and that fails. -/
def parsePrivateCommand (spliceCommandLength : Nat) : Reader PrivateCommand := do
  testConst (spliceCommandLength > 4) "splice_command_length" ">" "4"
    (toString spliceCommandLength) "4"
  testConst (spliceCommandLength < 0xfff) "splice_command_length" "<" "0xfff"
    (toString spliceCommandLength) "4095"
  let identifier ← read32
  let availableLength ← available
  if availableLength < spliceCommandLength then
    overread (spliceCommandLength - availableLength)
      (commandLengthDiffers (4 + spliceCommandLength) spliceCommandLength)
  else do
    let bytes ← copyRange 4 spliceCommandLength
    advance spliceCommandLength
    return ⟨identifier, bytes⟩

/-- `%1$x`. -/
def showHex (b : UInt8) : String := String.ofList (Nat.toDigits 16 b.toNat)

def parseCommand (spliceCommandType : UInt8) (spliceCommandLength : Nat) : Reader Command :=
  if spliceCommandType = CommandType.spliceNull then return .spliceNull
  else if spliceCommandType = CommandType.spliceSchedule then
    Command.spliceSchedule <$> parseSpliceSchedule
  else if spliceCommandType = CommandType.spliceInsert then
    Command.spliceInsert <$> parseSpliceInsert
  else if spliceCommandType = CommandType.timeSignal then Command.timeSignal <$> parseTimeSignal
  else if spliceCommandType = CommandType.bandwidthReservation then return .bandwidthReservation
  else if spliceCommandType = CommandType.privateCommand then
    Command.privateCommand <$> parsePrivateCommand spliceCommandLength
  else throw_ ("unsupported splice command type: 0x" ++ showHex spliceCommandType)

/-! ## Descriptors -/

/-- The order in which the three arguments of the `TimeDescriptor` constructor are read. -/
inductive ArgOrder where
  | abc | acb | bac | bca | cab | cba
deriving DecidableEq, Repr

structure EvalOrder where
  args : ArgOrder
  sum : SumOrder
deriving DecidableEq, Repr

def parseAvailDescriptor (tag descriptorLength : UInt8) (identifier : UInt32) :
    Reader AvailDescriptor := do
  testConst (tag = AvailDescriptor.tag) "splice_descriptor_tag" "==" "AvailDescriptor::tag"
    (showByte tag) (showByte AvailDescriptor.tag)
  testConst (descriptorLength = AvailDescriptor.length) "descriptor_length" "=="
    "AvailDescriptor::length" (showByte descriptorLength) (showByte AvailDescriptor.length)
  testConst (identifier = descriptorIdentifier) "identifier" "==" "AvailDescriptor::identifier"
    (toString identifier) (toString descriptorIdentifier)
  let providerAvailId ← read32
  return ⟨providerAvailId⟩

def parseDtmfDescriptor (tag descriptorLength : UInt8) (identifier : UInt32) :
    Reader DtmfDescriptor := do
  testConst (tag = DtmfDescriptor.tag) "splice_descriptor_tag" "==" "DtmfDescriptor::tag"
    (showByte tag) (showByte DtmfDescriptor.tag)
  testConst (identifier = descriptorIdentifier) "identifier" "==" "DtmfDescriptor::identifier"
    (toString identifier) (toString descriptorIdentifier)
  let preroll ← read8 0xff
  let countByte ← scan8 0b11100000
  let dtmfCount := (countByte >>> 5).toNat
  let _ ← read8 0xff
  testConst (descriptorLength.toNat = 4 + 1 + dtmfCount) "descriptor_length" "=="
    "4 + 1 + dtmf_count" (showByte descriptorLength) (toString (4 + 1 + dtmfCount))
  let availableLength ← available
  testConst (dtmfCount ≤ availableLength) "dtmf_count" "<=" "available_length"
    (toString dtmfCount) (toString availableLength)
  let dtmfChars ← copyRange 0 dtmfCount
  advance dtmfCount
  return ⟨preroll, dtmfChars⟩

/-- The end of the data is found before the start: the identifier is part of the length.
The failed check would print two pointers. -/
def parseSegmentationDescriptor (tag descriptorLength : UInt8) (identifier : UInt32) :
    Reader SegmentationDescriptor := do
  testConst (tag = SegmentationDescriptor.tag) "splice_descriptor_tag" "=="
    "SegmentationDescriptor::tag" (showByte tag) (showByte SegmentationDescriptor.tag)
  testConst (identifier = descriptorIdentifier) "identifier" "=="
    "SegmentationDescriptor::identifier" (toString identifier) (toString descriptorIdentifier)
  let endOffset : Int := descriptorLength.toNat - 4
  let availableLength ← available
  testConst (endOffset ≤ availableLength) "endptr" "<=" "real_endptr" "" ""
  let data ← copyRange 0 endOffset
  advance endOffset.toNat
  return ⟨data⟩

def parseTimeDescriptor (order : EvalOrder) (tag descriptorLength : UInt8) (identifier : UInt32) :
    Reader TimeDescriptor := do
  testConst (tag = TimeDescriptor.tag) "splice_descriptor_tag" "==" "TimeDescriptor::tag"
    (showByte tag) (showByte TimeDescriptor.tag)
  testConst (descriptorLength = TimeDescriptor.length) "descriptor_length" "=="
    "TimeDescriptor::length" (showByte descriptorLength) (showByte TimeDescriptor.length)
  testConst (identifier = descriptorIdentifier) "identifier" "==" "TimeDescriptor::identifier"
    (toString identifier) (toString descriptorIdentifier)
  match order.args with
  | .abc => do
      let taiSeconds ← read48 order.sum
      let taiNanoseconds ← read32
      let utcOffset ← read16
      return ⟨taiSeconds, taiNanoseconds, utcOffset⟩
  | .acb => do
      let taiSeconds ← read48 order.sum
      let utcOffset ← read16
      let taiNanoseconds ← read32
      return ⟨taiSeconds, taiNanoseconds, utcOffset⟩
  | .bac => do
      let taiNanoseconds ← read32
      let taiSeconds ← read48 order.sum
      let utcOffset ← read16
      return ⟨taiSeconds, taiNanoseconds, utcOffset⟩
  | .bca => do
      let taiNanoseconds ← read32
      let utcOffset ← read16
      let taiSeconds ← read48 order.sum
      return ⟨taiSeconds, taiNanoseconds, utcOffset⟩
  | .cab => do
      let utcOffset ← read16
      let taiSeconds ← read48 order.sum
      let taiNanoseconds ← read32
      return ⟨taiSeconds, taiNanoseconds, utcOffset⟩
  | .cba => do
      let utcOffset ← read16
      let taiNanoseconds ← read32
      let taiSeconds ← read48 order.sum
      return ⟨taiSeconds, taiNanoseconds, utcOffset⟩

def parseDescriptorBody (order : EvalOrder) (tag descriptorLength : UInt8) (identifier : UInt32) :
    Reader Descriptor :=
  if tag = AvailDescriptor.tag then
    Descriptor.avail <$> parseAvailDescriptor tag descriptorLength identifier
  else if tag = DtmfDescriptor.tag then
    Descriptor.dtmf <$> parseDtmfDescriptor tag descriptorLength identifier
  else if tag = SegmentationDescriptor.tag then
    Descriptor.segmentation <$> parseSegmentationDescriptor tag descriptorLength identifier
  else if tag = TimeDescriptor.tag then
    Descriptor.time <$> parseTimeDescriptor order tag descriptorLength identifier
  else throw_ ("unknown splice descriptor tag: " ++ toString tag.toNat)

def parseDescriptor (order : EvalOrder) : Reader Descriptor := do
  let tag ← read8 0xff
  let descriptorLength ← read8 0xff
  let availableLength ← available
  testConst (descriptorLength.toNat ≤ availableLength) "descriptor_length" "<="
    "available_length" (showByte descriptorLength) (toString availableLength)
  let identifier ← read32
  parseDescriptorBody order tag descriptorLength identifier

/-- `while (ptr < endptr)`.  Every round takes bytes, so as many rounds as there are bytes are
enough. -/
def parseDescriptorsLoop (order : EvalOrder) : Nat → Reader (List Descriptor)
  | 0 => return []
  | n + 1 => do
      let left ← available
      if left = 0 then return []
      else do
        let descriptor ← parseDescriptor order
        let descriptors ← parseDescriptorsLoop order n
        return descriptor :: descriptors

def parseDescriptors (order : EvalOrder) (loopLength : Nat) : Reader (List Descriptor) := do
  let availableLength ← available
  testConst (loopLength < availableLength) "endptr" "<" "real_endptr" "" ""
  within loopLength (parseDescriptorsLoop order loopLength)

/-! ## The section -/

def readBehindPointer (startLength : Nat) (choppedPrefix : Bool) : Reader (Nat × Bool) := do
  let tableId ← read8 0xff
  testConst (tableId = SpliceInfoSection.tableId) "table_id" "==" "SpliceInfoSection::TABLE_ID"
    (showByte tableId) (showByte SpliceInfoSection.tableId)
  let sectionSyntaxIndicator ← scanFlag 0b10000000
  testConst (sectionSyntaxIndicator = SpliceInfoSection.sectionSyntaxIndicator)
    "section_syntax_indicator" "==" "SpliceInfoSection::SECTION_SYNTAX_INDICATOR"
    (showBool sectionSyntaxIndicator) (showBool SpliceInfoSection.sectionSyntaxIndicator)
  let privateIndicator ← scanFlag 0b01000000
  testConst (privateIndicator = SpliceInfoSection.privateIndicator) "private_indicator" "=="
    "SpliceInfoSection::PRIVATE_INDICATOR" (showBool privateIndicator)
    (showBool SpliceInfoSection.privateIndicator)
  let word ← read12Low
  let sectionLength := word.toNat
  let availableLength ← available
  let headerLength := startLength - availableLength
  assert_ (headerLength = 3 ∨ headerLength = 4)
  testConst (sectionLength ≥ minSisLength - headerLength) "section_length" ">="
    "MIN_SIS_LENGTH - header_length" (toString sectionLength)
    (toString (minSisLength - headerLength))
  testConst (sectionLength ≤ 4093) "section_length" "<=" "4093" (toString sectionLength) "4093"
  testConst (sectionLength ≤ availableLength) "section_length" "<=" "available_length"
    (toString sectionLength) (toString availableLength)
  return (sectionLength, choppedPrefix)

/-- The section length, and whether there was a pointer field in front of the section. -/
def readSpliceInfoSectionUntilLength : Reader (Nat × Bool) := do
  let startLength ← available
  testConst (startLength ≥ minSisLength) "endptr - ptr" ">=" "MIN_SIS_LENGTH"
    (toString startLength) (toString minSisLength)
  let pointerField ← scan8 0xff
  let choppedPrefix := pointerField == 0x00
  if choppedPrefix then do
    let _ ← read8 0xff
    pure ()
  readBehindPointer startLength choppedPrefix

def scte35ParserNext (data : Bytes) : Except Fault (Option BinaryParserBounds) :=
  if data.length < minSisLength then .ok none
  else do
    let ((sectionLength, choppedPrefix), rest) ← readSpliceInfoSectionUntilLength.run data
    let start := if choppedPrefix then 1 else 0
    let headerLength := data.length - rest.length - start
    return some ⟨start, headerLength + sectionLength⟩

def parseCommandChecked (commandType : UInt8) (commandLength : Nat) : Reader Command := do
  let startLength ← available
  if commandLength ≠ 0xfff then
    testConst (commandLength < startLength) "splice_command_length" "<" "endptr - ptr"
      (toString commandLength) (toString startLength)
  let command ← parseCommand commandType commandLength
  let endLength ← available
  let len := (startLength - endLength) % 2 ^ 16
  if commandLength ≠ 0xfff ∧ len ≠ commandLength then
    throw_ (commandLengthDiffers len commandLength)
  else return command

def parseDescriptorLoop (order : EvalOrder) : Reader (List Descriptor) := do
  let word ← read16
  let descriptorLoopLength := word.toNat
  if descriptorLoopLength > 0 then do
    let availableLength ← available
    testConst (descriptorLoopLength < availableLength) "descriptor_loop_length" "<"
      "available_length" (toString descriptorLoopLength) (toString availableLength)
    parseDescriptors order descriptorLoopLength
  else return []

/-- What stands between the section length and the command. -/
structure SectionHeader where
  encryptionAlgorithm : UInt8
  ptsAdjustment : UInt64
  cwIndex : UInt8
  tier : UInt16
  commandLength : Nat
  commandType : UInt8

def parseSectionHeader : Reader SectionHeader := do
  let protocolVersion ← read8 0xff
  testConst (protocolVersion = SpliceInfoSection.protocolVersion) "protocol_version" "=="
    "SpliceInfoSection::PROTOCOL_VERSION" (showByte protocolVersion)
    (showByte SpliceInfoSection.protocolVersion)
  let encryptedPacket ← scanFlag 0b10000000
  let algorithmByte ← scan8 0b01111110
  if encryptedPacket then throw_ "encrypted SCTE-35 packets are not supported"
  else do
    let ptsAdjustment ← read33
    assert_ (ptsAdjustment.toNat ≤ 2 ^ 33)
    let cwIndex ← read8 0xff
    let tier ← scan12High
    assert_ (tier.toNat ≤ 0xfff)
    let _ ← read8 0xff
    let word ← read12Low
    let commandLength := word.toNat
    assert_ (commandLength ≤ 0xfff)
    let commandType ← read8 0xff
    return ⟨algorithmByte >>> 1, ptsAdjustment, cwIndex, tier, commandLength, commandType⟩

/-- The body of `scte35_parser_pack`.  A section that is encrypted does not get past its header,
so there is no encrypted checksum to skip. -/
def parseSection (order : EvalOrder) (bytes : Bytes) : Reader SpliceInfoSection := do
  let (sectionLength, choppedPrefix) ← readSpliceInfoSectionUntilLength
  let availableLength ← available
  assert_ (sectionLength = availableLength)
  let header ← parseSectionHeader
  let command ← parseCommandChecked header.commandType header.commandLength
  let descriptors ← parseDescriptorLoop order
  let _ ← read32
  let crc32 := CRC32.compute (if choppedPrefix then bytes.drop 1 else bytes)
  if crc32.value ≠ 0 then throw_ "CRC32 checksum did not match"
  else do
    let left ← available
    assert_ (left = 0)
    return ⟨false, header.encryptionAlgorithm, header.ptsAdjustment, header.cwIndex, header.tier,
      command, descriptors⟩

def scte35ParserPack (order : EvalOrder) (_ : BinaryParserBounds) (bytes : Bytes) :
    Except Fault SpliceInfoSection :=
  if bytes.length ≥ minSisLength then
    match (parseSection order bytes).run bytes with
    | .error f => .error f
    | .ok (s, _) => .ok s
  else .error .assertion

def scte35Parser (order : EvalOrder) : Format BinaryParserBounds SpliceInfoSection where
  toBounds := id
  Next := scte35ParserNext
  Pack := scte35ParserPack order

end Scte35
end Metamix
