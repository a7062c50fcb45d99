/-
The size hints against the bytes.

The lengths inside a section are computed from the hints before anything is written.  The hint of
a command leaves out the splices of a schedule and nothing else (`Command.emit_length`), so the
hints are true exactly if no event of a schedule has a splice to it.  What stands on the wire is
less than that: `write12Pair` drops the four high bits of the command's length, and the section's
has twelve bits.  The conditions speak of the sizes that the standard's tables give to the parts.
-/
import Metamix.Scte35.Emitter
import Metamix.Binary.Codecs
import Mathlib.Algebra.Order.BigOperators.Group.List

namespace Metamix
namespace Scte35

open Lib Binary

/-! ## Sizes by the standard's tables -/

def SpliceTime.size (s : SpliceTime) : Nat :=
  match s.ptsTime with
  | some _ => 5
  | none => 1

namespace SpliceSchedule

def Splice.size : Splice → Nat
  | .on _ => 4
  | .off splice => 1 + 5 * splice.components.length

def Event.size (event : Event) : Nat :=
  match event.more with
  | some more => 10 + more.splice.size + (if more.breakDuration.isSome then 5 else 0)
  | none => 5

end SpliceSchedule

namespace SpliceInsert

def CancelOff.Component.size (component : CancelOff.Component) : Nat :=
  match component.spliceTime with
  | some time => 1 + time.size
  | none => 1

def CancelOff.size (more : CancelOff) : Nat :=
  5 + (more.spliceTime.elim 0 SpliceTime.size +
    more.components.elim 0 (fun components => 1 + (components.map CancelOff.Component.size).sum) +
    (if more.breakDuration.isSome then 5 else 0))

end SpliceInsert

def Command.size : Command → Nat
  | .spliceNull => 0
  | .spliceSchedule command => 1 + (command.events.map SpliceSchedule.Event.size).sum
  | .spliceInsert command => 5 + command.more.elim 0 SpliceInsert.CancelOff.size
  | .timeSignal command => command.spliceTime.size
  | .bandwidthReservation => 0
  | .privateCommand command => 4 + command.bytes.length

def Descriptor.size : Descriptor → Nat
  | .avail _ => 10
  | .dtmf descriptor => 8 + descriptor.dtmfChars.length
  | .segmentation descriptor => 6 + descriptor.data.length
  | .time _ => 18

theorem hintOptional_eq {α : Type} {hint size : α → Nat} (h : ∀ x, hint x = size x)
    (o : Option α) : hintOptional hint o = o.elim 0 size := by
  cases o with
  | none => rfl
  | some x => exact h x

theorem SpliceTime.emitSizeHint_eq (s : SpliceTime) : s.emitSizeHint = s.size := by
  unfold SpliceTime.emitSizeHint SpliceTime.size
  cases s.ptsTime <;> rfl

theorem hint_breakDuration (o : Option BreakDuration) :
    hintOptional BreakDuration.emitSizeHint o = if o.isSome then 5 else 0 := by
  cases o <;> rfl

namespace SpliceSchedule

theorem Splice.unannounced_eq (splice : Splice) : splice.unannounced = splice.size := by
  cases splice with
  | on splice => rfl
  | off splice =>
      show (ProgramSpliceOff.emit splice).length = 1 + 5 * splice.components.length
      rw [ProgramSpliceOff.emit, List.length_append, write8_length,
        ProgramSpliceOff.components_length]
      omega

theorem Event.size_eq (event : Event) : event.size = event.emitSizeHint + event.unannounced := by
  unfold Event.size Event.emitSizeHint Event.unannounced
  cases event.more with
  | none => rfl
  | some more =>
      show 10 + more.splice.size + (if more.breakDuration.isSome then 5 else 0) =
        5 + (1 + 4 + hintOptional BreakDuration.emitSizeHint more.breakDuration) +
          more.splice.unannounced
      rw [hint_breakDuration, more.splice.unannounced_eq]
      omega

end SpliceSchedule

namespace SpliceInsert

theorem CancelOff.Component.emitSizeHint_eq (component : CancelOff.Component) :
    component.emitSizeHint = component.size := by
  unfold CancelOff.Component.emitSizeHint CancelOff.Component.size
  cases component.spliceTime with
  | none => rfl
  | some time => exact congrArg (1 + ·) time.emitSizeHint_eq

theorem CancelOff.emitSizeHint_eq (more : CancelOff) : more.emitSizeHint = more.size := by
  have hcomponents : ∀ components, CancelOff.componentsSizeHint components =
      1 + (components.map CancelOff.Component.size).sum := by
    intro components
    unfold CancelOff.componentsSizeHint
    rw [List.map_congr_left fun c _ => c.emitSizeHint_eq]
  unfold CancelOff.emitSizeHint CancelOff.size
  rw [hintOptional_eq SpliceTime.emitSizeHint_eq, hintOptional_eq hcomponents,
    hint_breakDuration]
  omega

end SpliceInsert

/-- The hint of a command and what it leaves out are its size. -/
theorem Command.size_eq (command : Command) :
    command.size = command.emitSizeHint + command.unannounced := by
  cases command with
  | spliceNull => rfl
  | spliceSchedule command =>
      have hsum : ∀ events : List SpliceSchedule.Event,
          (events.map SpliceSchedule.Event.size).sum =
            (events.map SpliceSchedule.Event.emitSizeHint).sum +
              (events.map SpliceSchedule.Event.unannounced).sum := by
        intro events
        induction events with
        | nil => rfl
        | cons event events ih =>
            simp only [List.map_cons, List.sum_cons, ih, event.size_eq]
            omega
      have := hsum command.events
      show 1 + (command.events.map SpliceSchedule.Event.size).sum =
        1 + (command.events.map SpliceSchedule.Event.emitSizeHint).sum +
          (command.events.map SpliceSchedule.Event.unannounced).sum
      omega
  | spliceInsert command =>
      exact congrArg (5 + ·) (hintOptional_eq SpliceInsert.CancelOff.emitSizeHint_eq _).symm
  | timeSignal command => exact command.spliceTime.emitSizeHint_eq.symm
  | bandwidthReservation => rfl
  | privateCommand command => rfl

theorem Descriptor.size_eq (descriptor : Descriptor) :
    descriptor.size = descriptor.emitSizeHint := by
  cases descriptor <;> rfl

theorem descriptors_size (descriptors : List Descriptor) :
    (descriptors.map Descriptor.size).sum = descriptorsSizeHint descriptors := by
  unfold descriptorsSizeHint
  rw [List.map_congr_left fun d _ => d.size_eq]

/-! ## The lengths on the wire -/

/-- The number in two bytes of `bytes`, the first of them at place `i`. -/
def wordAt (bytes : Bytes) (i : Nat) : Nat := beNat ((bytes.drop i).take 2)

theorem wordAt_append {pre word post : Bytes} (hword : word.length = 2) :
    wordAt (pre ++ (word ++ post)) pre.length = beNat word := by
  unfold wordAt
  rw [List.drop_left, ← hword, List.take_left]

theorem beNat_pair (b0 b1 : UInt8) : beNat [b0, b1] = b0.toNat * 256 + b1.toNat := by
  simp [beNat]

theorem beNat_write12Prefix (p : UInt8) (v : UInt16) :
    beNat (write12Prefix p v) % 4096 = v.toNat % 4096 := by
  obtain ⟨b0, b1, hbytes, _, hb0, hb1⟩ := write12Prefix_bytes p v
  rw [hbytes, beNat_pair, hb0, hb1]
  omega

theorem beNat_write12Pair (high low : UInt16) :
    beNat ((write12Pair high low).drop 1) % 4096 = low.toNat % 256 := by
  obtain ⟨b0, b1, b2, hbytes, _, hb1, hb2⟩ := write12Pair_bytes high low
  rw [hbytes]
  show beNat [b1, b2] % 4096 = _
  rw [beNat_pair, hb1, hb2]
  omega

/-! ## The hints -/

/-- What the hint of a command leaves out is nothing exactly when no event of a schedule has
more to it than its identifier. -/
theorem Command.unannounced_eq_zero {command : Command} :
    command.unannounced = 0 ↔
      ∀ c, command = .spliceSchedule c → ∀ event ∈ c.events, event.more = none := by
  have hevent : ∀ event : SpliceSchedule.Event, event.unannounced = 0 ↔ event.more = none := by
    intro event
    unfold SpliceSchedule.Event.unannounced
    cases event.more with
    | none => simp
    | some more =>
        have := more.splice.unannounced_pos
        simp only [reduceCtorEq, iff_false]
        omega
  have hsum : ∀ events : List SpliceSchedule.Event,
      (events.map SpliceSchedule.Event.unannounced).sum = 0 ↔
        ∀ event ∈ events, event.more = none := by
    intro events
    simp only [List.sum_eq_zero_iff_forall_eq_nat, List.mem_map, forall_exists_index, and_imp,
      forall_apply_eq_imp_iff₂, hevent]
  cases command with
  | spliceSchedule c =>
      constructor
      · intro h c' hc'
        cases hc'
        exact (hsum c.events).mp h
      · intro h
        exact (hsum c.events).mpr (h c rfl)
  | _ => simp [Command.unannounced]

namespace SpliceInfoSection

def sectionLengthAt (bytes : Bytes) : Nat := wordAt bytes 1 % 4096

def commandLengthAt (bytes : Bytes) : Nat := wordAt bytes 11 % 4096

/-- What `descriptor_loop_length` says, behind a command of so many bytes. -/
def loopLengthAt (bytes : Bytes) (command : Nat) : Nat := wordAt bytes (14 + command)

/-- The three hints are the numbers of bytes they stand for, and so are the three lengths that
are written from them: of what is behind the section's, of the command and of the descriptors. -/
structure HintsExact (s : SpliceInfoSection) : Prop where
  whole : s.emitSizeHint = s.emit.length
  command : s.command.emitSizeHint = s.command.emit.length
  descriptors : descriptorsSizeHint s.descriptors = (s.descriptors.flatMap Descriptor.emit).length
  sectionLength : sectionLengthAt s.emit = (s.emit.drop 3).length
  commandLength : commandLengthAt s.emit = s.command.emit.length
  loopLength : loopLengthAt s.emit s.command.emit.length =
    (s.descriptors.flatMap Descriptor.emit).length

theorem sectionLengthAt_emit (s : SpliceInfoSection) :
    sectionLengthAt s.emit = s.computeSectionLength % 4096 := by
  unfold sectionLengthAt emit emitBody
  simp only [List.append_assoc]
  rw [show 1 = (write8 tableId).length from rfl, wordAt_append (write12Prefix_length _ _),
    beNat_write12Prefix, UInt16.toNat_ofNat']
  omega

theorem commandLengthAt_emit (s : SpliceInfoSection) :
    commandLengthAt s.emit = s.command.emitSizeHint % 256 := by
  have hpair := beNat_write12Pair s.tier (UInt16.ofNat s.command.emitSizeHint)
  rw [UInt16.toNat_ofNat'] at hpair
  unfold commandLengthAt emit emitBody
  show beNat ((write12Pair s.tier (UInt16.ofNat s.command.emitSizeHint)).drop 1) % 4096 = _
  omega

theorem loopLengthAt_emit (s : SpliceInfoSection) :
    loopLengthAt s.emit s.command.emit.length = descriptorsSizeHint s.descriptors % 65536 := by
  obtain ⟨front, hfront, hemit⟩ : ∃ front : Bytes, front.length = 14 ∧ s.emit =
      (front ++ s.command.emit) ++ (write16 (UInt16.ofNat (descriptorsSizeHint s.descriptors)) ++
        (s.descriptors.flatMap Descriptor.emit ++ write32 (CRC32.compute s.emitBody).value)) := by
    refine ⟨s.emitBody.take 14, ?_, ?_⟩
    · rw [List.length_take, emitBody]
      simp only [List.length_append, write8_length, write12Prefix_length, write33Prefix_length,
        write12Pair_length]
      omega
    · rw [emit]
      nth_rewrite 1 [emitBody]
      simp only [List.append_assoc]
      rfl
  unfold loopLengthAt
  rw [hemit, ← hfront, ← List.length_append, wordAt_append (write16_length _), write16_eq,
    beNat_beBytes, UInt16.toNat_ofNat']
  omega

/-- The hints of a section and the lengths it writes from them are exact if and only if its
command is no schedule with an event that is not cancelled, the command takes less than 256
bytes, and the section behind its length less than 4096. -/
theorem hintsExact_iff (s : SpliceInfoSection) : s.HintsExact ↔
    (∀ c, s.command = .spliceSchedule c → ∀ event ∈ c.events, event.more = none) ∧
      s.command.size < 256 ∧ 17 + s.command.size +
        (s.descriptors.map Descriptor.size).sum < 4096 := by
  have hwhole := s.emit_length
  have hcommand := s.command.emit_length
  have hsize := s.command.size_eq
  have hsection := s.sectionLengthAt_emit
  have hlength : s.emitSizeHint = 3 + s.computeSectionLength := rfl
  have hcompute : s.computeSectionLength =
    17 + s.command.emitSizeHint + descriptorsSizeHint s.descriptors := rfl
  rw [← Command.unannounced_eq_zero, descriptors_size]
  constructor
  · intro h
    have hexact := h.command
    have hshort := h.commandLength
    have hrest := h.sectionLength
    rw [commandLengthAt_emit] at hshort
    rw [List.length_drop] at hrest
    refine ⟨?_, ?_, ?_⟩ <;> omega
  · intro h
    obtain ⟨hun, hshort, hlong⟩ := h
    refine ⟨by omega, by omega, (descriptors_length s.descriptors).symm, ?_, ?_, ?_⟩
    · rw [List.length_drop]
      omega
    · rw [commandLengthAt_emit]
      omega
    · rw [loopLengthAt_emit, descriptors_length]
      omega

/-- A schedule of one splice is announced as 11 bytes and written as 15. -/
theorem hints_schedule :
    let s : SpliceInfoSection := ⟨false, 0, 0, 0xff, 0xfff,
      .spliceSchedule ⟨[⟨1, some ⟨true, .on ⟨0⟩, none, 1, 0, 0⟩⟩]⟩, []⟩
    s.command.emitSizeHint = 11 ∧ s.command.emit.length = 15 ∧ ¬s.HintsExact := by
  refine ⟨rfl, rfl, fun h => ?_⟩
  exact absurd h.command (by decide)

end SpliceInfoSection
end Scte35
end Metamix
