/-
What the parser reads back of what the emitter wrote, part by part.

Every command but the private one and every descriptor but the DTMF one is read back as it was
written, up to the order in which the fields of a time descriptor are read.  What goes wrong
goes wrong between the parts: in the lengths and in the packed fields of the section.
-/
import Metamix.Scte35.Emitter
import Metamix.Scte35.Bounds

namespace Metamix
namespace Scte35

open Lib Lib.Reader Binary

/-! ## Values that fit the wire -/

def SpliceTime.Fits (s : SpliceTime) : Prop := ∀ pts, s.ptsTime = some pts → pts.toNat < 2 ^ 33

def BreakDuration.Fits (b : BreakDuration) : Prop := b.duration.toNat < 2 ^ 33

/-- A component count takes one byte and is not zero. -/
def CountFits {α : Type} (xs : List α) : Prop := 1 ≤ xs.length ∧ xs.length ≤ 255

namespace SpliceSchedule

def Splice.Fits : Splice → Prop
  | .on _ => True
  | .off splice => CountFits splice.components

structure CancelOff.Fits (more : CancelOff) : Prop where
  splice : more.splice.Fits
  breakDuration : ∀ b, more.breakDuration = some b → b.Fits

def Event.Fits (event : Event) : Prop := ∀ more, event.more = some more → more.Fits

end SpliceSchedule

structure SpliceSchedule.Fits (command : SpliceSchedule) : Prop where
  count : command.events.length ≤ 255
  events : ∀ event ∈ command.events, event.Fits

namespace SpliceInsert

/-- A component has a time exactly if the splice is not immediate. -/
structure CancelOff.Component.Fits (spliceImmediate : Bool) (component : Component) : Prop where
  isSome : component.spliceTime.isSome = !spliceImmediate
  spliceTime : ∀ time, component.spliceTime = some time → time.Fits

/-- The optional fields are there exactly when the flags say so. -/
structure CancelOff.Fits (more : CancelOff) : Prop where
  spliceTime_isSome : more.spliceTime.isSome = (more.programSplice && !more.spliceImmediate)
  components_isSome : more.components.isSome = !more.programSplice
  spliceTime : ∀ time, more.spliceTime = some time → time.Fits
  count : ∀ components, more.components = some components → CountFits components
  components : ∀ components, more.components = some components →
    ∀ component ∈ components, component.Fits more.spliceImmediate
  breakDuration : ∀ b, more.breakDuration = some b → b.Fits

end SpliceInsert

def SpliceInsert.Fits (command : SpliceInsert) : Prop :=
  ∀ more, command.more = some more → more.Fits

def Command.Fits : Command → Prop
  | .spliceNull => True
  | .spliceSchedule command => command.Fits
  | .spliceInsert command => command.Fits
  | .timeSignal command => command.spliceTime.Fits
  | .bandwidthReservation => True
  | .privateCommand _ => True

def Descriptor.Fits : Descriptor → Prop
  | .avail _ => True
  | .dtmf descriptor => descriptor.dtmfChars.length ≤ 7
  | .segmentation descriptor => descriptor.data.length ≤ 251
  | .time descriptor => descriptor.taiSeconds.toNat < 2 ^ 48

/-! ## Steps of a reader -/

section Steps

variable {α : Type} {w : Bytes} {a : α}

/-- A flag in front of the reader that takes its byte. -/
theorem reads_flag {f m : UInt8} {b : Bool} {k : Bool → Reader α} (hb : (f &&& m != 0) = b)
    (h : Reads (k b) (write8 f ++ w) a) : Reads (scanFlag m >>= k) (write8 f ++ w) a := by
  refine Reads.peek (fun t => ?_) h
  show (scanFlag m).run (f :: (w ++ t)) = _
  rw [scanFlag_run, hb]
  rfl

theorem reads_skip {f : UInt8} {k : UInt8 → Reader α} (h : Reads (k f) w a) :
    Reads (read8 0xff >>= k) (write8 f ++ w) a :=
  (read8_reads f).bind h

theorem reads_testConst {c : Prop} [Decidable c] {lhs op rhs lval rval : String}
    {k : Unit → Reader α} (hc : c) (h : Reads (k ()) w a) :
    Reads (testConst c lhs op rhs lval rval >>= k) w a :=
  Reads.peek (fun _ => testConst_run lhs op rhs lval rval hc) h

end Steps

/-! ## Times -/

theorem scanFlag_run_write33Prefix {p m : UInt8} (v : UInt64) (t : Bytes) (hm : m &&& 1 = 0) :
    (scanFlag m).run (write33Prefix p v ++ t) = .ok (p &&& m != 0, write33Prefix p v ++ t) := by
  rw [scanFlag, run_bind_of_ok (scan8_run_write33Prefix p m v t hm)]
  rfl

theorem SpliceTime.reads {s : SpliceTime} (h : s.Fits) : Reads parseSpliceTime s.emit s := by
  unfold parseSpliceTime SpliceTime.emit
  cases s with
  | mk ptsTime =>
      cases ptsTime with
      | none =>
          have hskip : Reads (read8 0xff >>= fun _ => pure (⟨none⟩ : SpliceTime)) (write8 0x7f)
              ⟨none⟩ := (read8_reads 0x7f).last _
          rw [← List.append_nil (write8 0x7f)] at hskip ⊢
          exact reads_flag rfl hskip
      | some pts =>
          exact Reads.peek (fun t => scanFlag_run_write33Prefix pts t rfl)
            ((read33_reads (h pts rfl)).last _)

theorem BreakDuration.reads {b : BreakDuration} (h : b.Fits) :
    Reads parseBreakDuration b.emit b := by
  have hflag : ∀ r : Bool, ((r.toUInt8 <<< 7) &&& 0b10000000 != 0) = r := by decide
  unfold parseBreakDuration BreakDuration.emit
  refine Reads.peek (fun t => ?_) ((read33_reads h).last _)
  rw [scanFlag_run_write33Prefix _ _ rfl, hflag]

theorem reads_optional {α : Type} {p : Reader α} {emit : α → Bytes} {o : Option α} {flag : Bool}
    (hflag : o.isSome = flag) (h : ∀ x, o = some x → Reads p (emit x) x) :
    Reads (parseOptional flag p) (emitOptional emit o) o := by
  cases o with
  | none =>
      rw [← hflag]
      exact Reads.pure none
  | some x =>
      rw [← hflag]
      exact (h x rfl).last some

theorem reads_components {α : Type} {p : Reader α} {emit : α → Bytes} {xs : List α}
    (hcount : CountFits xs) (h : ∀ x ∈ xs, Reads p (emit x) x) :
    Reads (parseComponents p) (write8 (UInt8.ofNat xs.length) ++ xs.flatMap emit) xs := by
  obtain ⟨hpos, hle⟩ := hcount
  have hn : (UInt8.ofNat xs.length).toNat = xs.length := by
    rw [UInt8.toNat_ofNat', Nat.mod_eq_of_lt (by omega)]
  unfold parseComponents
  refine reads_skip (reads_testConst (by omega) ?_)
  rw [hn]
  exact Reads.times emit xs h

/-! ## Commands -/

namespace SpliceSchedule

theorem ProgramSpliceOff.Component.reads (component : ProgramSpliceOff.Component) :
    Reads parseScheduleComponent component.emit component :=
  reads_skip ((read32_reads component.utcSpliceTime).last _)

theorem Splice.reads {more : CancelOff} (h : more.splice.Fits) :
    Reads (parseSpliceScheduleEventProgramSplice more.programSplice) more.splice.emit
      more.splice := by
  unfold CancelOff.programSplice
  cases hs : more.splice with
  | on splice => exact (read32_reads splice.utcSpliceTime).last _
  | off splice =>
      rw [hs] at h
      exact (reads_components h fun c _ => c.reads).last _

theorem CancelOff.reads {more : CancelOff} (h : more.Fits) :
    Reads parseScheduleCancelOff more.emit more := by
  have hflags : ∀ o p d : Bool,
      let f := (o.toUInt8 <<< 7) ||| (p.toUInt8 <<< 6) ||| (d.toUInt8 <<< 5) ||| 0x1f
      (f &&& 0b10000000 != 0) = o ∧ (f &&& 0b01000000 != 0) = p ∧ (f &&& 0b00100000 != 0) = d := by
    decide
  obtain ⟨hout, hprogram, hduration⟩ := hflags more.outOfNetwork more.programSplice more.duration
  unfold parseScheduleCancelOff CancelOff.emit
  refine reads_flag hout (reads_flag hprogram (reads_flag hduration (reads_skip ?_)))
  refine (Splice.reads h.splice).bind ?_
  refine (reads_optional rfl fun b hb => BreakDuration.reads (h.breakDuration b hb)).bind ?_
  refine (read16_reads more.uniqueProgramId).bind ?_
  exact reads_skip ((read8_reads more.availsExpected).last _)

theorem Event.reads {event : Event} (h : event.Fits) :
    Reads parseSpliceScheduleEvent event.emit event := by
  unfold parseSpliceScheduleEvent Event.emit
  refine (read32_reads event.id).bind ?_
  cases event with
  | mk id more =>
      cases more with
      | none =>
          rw [← List.append_nil (write8 0xff)]
          exact reads_flag rfl (reads_skip ((Reads.pure none).last _))
      | some more =>
          exact reads_flag rfl (reads_skip
            (((CancelOff.reads (h more rfl)).last some).last fun o => (⟨id, o⟩ : Event)))

end SpliceSchedule

theorem SpliceSchedule.reads {command : SpliceSchedule} (h : command.Fits) :
    Reads parseSpliceSchedule command.emit command := by
  have hn : (UInt8.ofNat command.events.length).toNat = command.events.length := by
    have := h.count
    rw [UInt8.toNat_ofNat', Nat.mod_eq_of_lt (by omega)]
  unfold parseSpliceSchedule SpliceSchedule.emit
  refine reads_skip ?_
  rw [hn]
  exact (Reads.times _ _ fun e he => Event.reads (h.events e he)).last _

namespace SpliceInsert

theorem CancelOff.Component.reads {immediate : Bool} {component : CancelOff.Component}
    (h : component.Fits immediate) :
    Reads (parseInsertComponent immediate) component.emit component :=
  reads_skip ((reads_optional h.isSome fun t ht => SpliceTime.reads (h.spliceTime t ht)).last _)

theorem CancelOff.reads {more : CancelOff} (h : more.Fits) :
    Reads parseInsertCancelOff more.emit more := by
  have hflags : ∀ o p d i : Bool,
      let f := (o.toUInt8 <<< 7) ||| (p.toUInt8 <<< 6) ||| (d.toUInt8 <<< 5) |||
        (i.toUInt8 <<< 4) ||| 0x0f
      (f &&& 0b10000000 != 0) = o ∧ (f &&& 0b01000000 != 0) = p ∧ (f &&& 0b00100000 != 0) = d ∧
        (f &&& 0b00010000 != 0) = i := by
    decide
  obtain ⟨hout, hprogram, hduration, himmediate⟩ :=
    hflags more.outOfNetwork more.programSplice more.duration more.spliceImmediate
  unfold parseInsertCancelOff CancelOff.emit
  refine reads_flag hout (reads_flag hprogram (reads_flag hduration
    (reads_flag himmediate (reads_skip ?_))))
  refine (reads_optional h.spliceTime_isSome
    fun t ht => SpliceTime.reads (h.spliceTime t ht)).bind ?_
  refine (reads_optional h.components_isSome fun cs hcs =>
    reads_components (h.count cs hcs) fun c hc =>
      Component.reads (h.components cs hcs c hc)).bind ?_
  refine (reads_optional rfl fun b hb => BreakDuration.reads (h.breakDuration b hb)).bind ?_
  refine (read16_reads more.uniqueProgramId).bind ?_
  exact reads_skip ((read8_reads more.availsExpected).last _)

end SpliceInsert

theorem SpliceInsert.reads {command : SpliceInsert} (h : command.Fits) :
    Reads parseSpliceInsert command.emit command := by
  unfold parseSpliceInsert SpliceInsert.emit
  refine (read32_reads command.id).bind ?_
  cases command with
  | mk id more =>
      cases more with
      | none =>
          rw [← List.append_nil (write8 0xff)]
          exact reads_flag rfl (reads_skip ((Reads.pure none).last _))
      | some more =>
          exact reads_flag rfl (reads_skip
            (((CancelOff.reads (h more rfl)).last some).last fun o => (⟨id, o⟩ : SpliceInsert)))

/-- Every command but the private one is read back as it was written, whatever its length is
said to be. -/
theorem Command.reads {command : Command} (h : command.Fits) (length : Nat)
    (hprivate : ∀ c, command ≠ .privateCommand c) :
    Reads (parseCommand command.type length) command.emit command := by
  cases command with
  | spliceNull => exact Reads.pure _
  | spliceSchedule command => exact (SpliceSchedule.reads h).map Command.spliceSchedule
  | spliceInsert command => exact (SpliceInsert.reads h).map Command.spliceInsert
  | timeSignal command =>
      have htime : Reads parseTimeSignal command.emit command := (SpliceTime.reads h).last _
      exact htime.map Command.timeSignal
  | bandwidthReservation => exact Reads.pure _
  | privateCommand command => exact absurd rfl (hprivate command)

/-! ## Descriptors -/

namespace TimeDescriptor

/-- The six 16-bit words behind the identifier. -/
def word (d : TimeDescriptor) : Nat → Nat
  | 0 => d.taiSeconds.toNat / 2 ^ 32
  | 1 => d.taiSeconds.toNat / 2 ^ 16 % 2 ^ 16
  | 2 => d.taiSeconds.toNat % 2 ^ 16
  | 3 => d.taiNanoseconds.toNat / 2 ^ 16
  | 4 => d.taiNanoseconds.toNat % 2 ^ 16
  | _ => d.utcOffset.toNat

end TimeDescriptor

/-- The words at which the seconds, the nanoseconds and the offset are looked for. -/
def ArgOrder.starts : ArgOrder → Nat × Nat × Nat
  | .abc => (0, 3, 5)
  | .acb => (0, 4, 3)
  | .bac => (2, 0, 5)
  | .bca => (3, 0, 2)
  | .cab => (1, 4, 0)
  | .cba => (3, 1, 0)

namespace TimeDescriptor

def ReadsBack (order : EvalOrder) (d : TimeDescriptor) : Prop :=
  let (seconds, nanoseconds, offset) := order.args.starts
  let low := seconds + order.sum.lowOffset
  d.word seconds = d.word 0 ∧ d.word low = d.word 1 ∧ d.word (low + 1) = d.word 2 ∧
    d.word nanoseconds = d.word 3 ∧ d.word (nanoseconds + 1) = d.word 4 ∧
    d.word offset = d.word 5

def reread (order : EvalOrder) (d : TimeDescriptor) : TimeDescriptor :=
  let (seconds, nanoseconds, offset) := order.args.starts
  let low := seconds + order.sum.lowOffset
  ⟨UInt64.ofNat (d.word seconds * 2 ^ 32 + d.word low * 2 ^ 16 + d.word (low + 1)),
    UInt32.ofNat (d.word nanoseconds * 2 ^ 16 + d.word (nanoseconds + 1)),
    UInt16.ofNat (d.word offset)⟩

theorem word_lt {d : TimeDescriptor} (h : d.taiSeconds.toNat < 2 ^ 48) (i : Nat) :
    d.word i < 2 ^ 16 := by
  have hn := d.taiNanoseconds.toNat_lt
  have hu := d.utcOffset.toNat_lt
  unfold word
  split <;> omega

theorem ofNat_words_eq {a b c : Nat} {v : UInt64} (ha : a < 2 ^ 16) (hb : b < 2 ^ 16)
    (hc : c < 2 ^ 16) : UInt64.ofNat (a * 2 ^ 32 + b * 2 ^ 16 + c) = v ↔
      a = v.toNat / 2 ^ 32 ∧ b = v.toNat / 2 ^ 16 % 2 ^ 16 ∧ c = v.toNat % 2 ^ 16 := by
  rw [← UInt64.toNat_inj, UInt64.toNat_ofNat', Nat.mod_eq_of_lt (by omega)]
  omega

theorem ofNat_pair_eq {a b : Nat} {v : UInt32} (ha : a < 2 ^ 16) (hb : b < 2 ^ 16) :
    UInt32.ofNat (a * 2 ^ 16 + b) = v ↔ a = v.toNat / 2 ^ 16 ∧ b = v.toNat % 2 ^ 16 := by
  rw [← UInt32.toNat_inj, UInt32.toNat_ofNat', Nat.mod_eq_of_lt (by omega)]
  omega

theorem reread_eq_self {order : EvalOrder} {d : TimeDescriptor} (h : d.taiSeconds.toNat < 2 ^ 48) :
    d.reread order = d ↔ d.ReadsBack order := by
  have hw := word_lt h
  obtain ⟨seconds, nanoseconds, offset⟩ := d
  have hoff : ∀ a < 2 ^ 16, UInt16.ofNat a = offset ↔ a = offset.toNat := by
    intro a ha
    rw [← UInt16.toNat_inj, UInt16.toNat_ofNat', Nat.mod_eq_of_lt ha]
  unfold reread ReadsBack
  simp only [TimeDescriptor.mk.injEq, ofNat_words_eq (hw _) (hw _) (hw _),
    ofNat_pair_eq (hw _) (hw _), hoff _ (hw _), and_assoc]
  rfl

theorem write_words (d : TimeDescriptor) :
    write48 d.taiSeconds ++ (write32 d.taiNanoseconds ++ write16 d.utcOffset) =
      beBytes 2 (d.word 0) ++ (beBytes 2 (d.word 1) ++ (beBytes 2 (d.word 2) ++
        (beBytes 2 (d.word 3) ++ (beBytes 2 (d.word 4) ++ beBytes 2 (d.word 5))))) := by
  have hmod : ∀ n, beBytes 2 (n % 65536) = beBytes 2 n := fun n => beBytes_mod 2 2 n (by omega)
  have hsec : write48 d.taiSeconds = beBytes 2 (d.word 0) ++ (beBytes 2 (d.word 1) ++
      beBytes 2 (d.word 2)) := by
    rw [write48_eq, beBytes_add 2 4, beBytes_add 2 2 d.taiSeconds.toNat]
    simp only [word, hmod, Nat.reducePow]
  have hnano : write32 d.taiNanoseconds = beBytes 2 (d.word 3) ++ beBytes 2 (d.word 4) := by
    rw [write32_eq, beBytes_add 2 2]
    simp only [word, hmod, Nat.reducePow]
  rw [hsec, hnano, write16_eq]
  simp only [List.append_assoc]
  rfl

theorem parse_run {order : EvalOrder} {d : TimeDescriptor} (h : d.taiSeconds.toNat < 2 ^ 48)
    (t : Bytes) :
    (parseTimeDescriptor order TimeDescriptor.tag TimeDescriptor.length descriptorIdentifier).run
        (write48 d.taiSeconds ++ (write32 d.taiNanoseconds ++ write16 d.utcOffset) ++ t) =
      .ok (d.reread order, t) := by
  have hw := word_lt h
  obtain ⟨args, sum⟩ := order
  rw [write_words]
  simp only [List.append_assoc]
  unfold parseTimeDescriptor
  rw [run_bind_of_ok (testConst_run _ _ _ _ _ rfl), run_bind_of_ok (testConst_run _ _ _ _ _ rfl),
    run_bind_of_ok (testConst_run _ _ _ _ _ rfl)]
  cases args <;> cases sum <;>
    simp only [StateT.run_bind, read48_run_leftFirst (hw _) (hw _) (hw _),
      read48_run_rightFirst (hw _) (hw _), read32_run_words (hw _), read16_run_beBytes, ok_bind] <;>
    rfl

end TimeDescriptor

theorem copyRange_natCast {first n : Nat} {s : Bytes} (h : first ≤ n) :
    (copyRange first n).run s =
      if n ≤ s.length then .ok ((s.take n).drop first, s) else .error .outOfBounds := by
  show (if (n : Int) < first then Except.error Fault.lengthError
    else if (n : Int) ≤ s.length then .ok ((s.take (n : Int).toNat).drop (first : Int).toNat, s)
    else .error .outOfBounds) = _
  rw [if_neg (by omega)]
  simp only [Int.ofNat_le]
  rfl

theorem copyRange_run {n : Nat} {s : Bytes} (h : n ≤ s.length) :
    (copyRange 0 n).run s = .ok (s.take n, s) :=
  (copyRange_natCast (Nat.zero_le n)).trans (if_pos h)

theorem parseDescriptor_run (order : EvalOrder) {tag length : UInt8} {body t : Bytes}
    (h : length.toNat ≤ 4 + body.length) :
    (parseDescriptor order).run
        (write8 tag ++ (write8 length ++ (write32 descriptorIdentifier ++ body)) ++ t) =
      (parseDescriptorBody order tag length descriptorIdentifier).run (body ++ t) := by
  have hfit : length.toNat ≤ (write32 descriptorIdentifier ++ (body ++ t)).length := by
    simp only [List.length_append, write32_length]
    omega
  simp only [List.append_assoc]
  rw [parseDescriptor, run_bind_of_ok (read8_reads tag _), run_bind_of_ok (read8_reads length _),
    run_bind_of_ok (available_run _), run_bind_of_ok (testConst_run _ _ _ _ _ hfit),
    run_bind_of_ok (read32_reads descriptorIdentifier _)]

section Body

variable (order : EvalOrder) (length : UInt8) (id : UInt32)

theorem parseDescriptorBody_dtmf : parseDescriptorBody order DtmfDescriptor.tag length id =
    Descriptor.dtmf <$> parseDtmfDescriptor DtmfDescriptor.tag length id := rfl

theorem parseDescriptorBody_segmentation :
    parseDescriptorBody order SegmentationDescriptor.tag length id =
      Descriptor.segmentation <$>
        parseSegmentationDescriptor SegmentationDescriptor.tag length id := rfl

theorem parseDescriptorBody_time : parseDescriptorBody order TimeDescriptor.tag length id =
    Descriptor.time <$> parseTimeDescriptor order TimeDescriptor.tag length id := rfl

end Body

def Descriptor.ReadsBack (order : EvalOrder) : Descriptor → Prop
  | .avail _ => True
  | .dtmf _ => False
  | .segmentation _ => True
  | .time descriptor => descriptor.ReadsBack order

theorem SegmentationDescriptor.parse_run {d : SegmentationDescriptor} (h : d.data.length ≤ 251)
    (t : Bytes) :
    (parseSegmentationDescriptor SegmentationDescriptor.tag (UInt8.ofNat (d.emitSizeHint - 2))
        descriptorIdentifier).run (d.data ++ t) = .ok (d, t) := by
  have hn : ((UInt8.ofNat (d.emitSizeHint - 2)).toNat : Int) - 4 = (d.data.length : Nat) := by
    rw [UInt8.toNat_ofNat', SegmentationDescriptor.emitSizeHint, Nat.mod_eq_of_lt (by omega)]
    omega
  have hfit : ((d.data.length : Nat) : Int) ≤ (d.data ++ t).length := by
    rw [List.length_append]
    omega
  unfold parseSegmentationDescriptor
  rw [run_bind_of_ok (testConst_run _ _ _ _ _ rfl), run_bind_of_ok (testConst_run _ _ _ _ _ rfl),
    hn, run_bind_of_ok (available_run _), run_bind_of_ok (testConst_run _ _ _ _ _ hfit),
    run_bind_of_ok (copyRange_run (by rw [List.length_append]; omega)),
    run_bind_of_ok (advance_run _ _), List.take_left]
  show Except.ok (_, (d.data ++ t).drop d.data.length) = _
  rw [List.drop_left]

/-- The length of a DTMF descriptor is never the one the parser asks for. -/
theorem DtmfDescriptor.parse_run {d : DtmfDescriptor} (h : d.dtmfChars.length ≤ 7) (t : Bytes)
    (r : DtmfDescriptor × Bytes) :
    (parseDtmfDescriptor DtmfDescriptor.tag (UInt8.ofNat (d.emitSizeHint - 2))
        descriptorIdentifier).run (write8 d.preroll ++
          (write8 (UInt8.ofNat (d.dtmfChars.length <<< 5)) ++ d.dtmfChars.flatMap write8) ++ t) ≠
      .ok r := by
  have hlen : (UInt8.ofNat (d.emitSizeHint - 2)).toNat = 6 + d.dtmfChars.length := by
    rw [UInt8.toNat_ofNat', DtmfDescriptor.emitSizeHint, Nat.mod_eq_of_lt (by omega)]
    omega
  have hcount : ((UInt8.ofNat (d.dtmfChars.length <<< 5) &&& 0b11100000) >>> 5).toNat =
      d.dtmfChars.length := by
    have hall : ∀ n < 8, ((UInt8.ofNat (n <<< 5) &&& 0b11100000) >>> 5).toNat = n := by decide
    exact hall _ (by omega)
  intro hok
  unfold parseDtmfDescriptor at hok
  rw [run_bind_of_ok (testConst_run _ _ _ _ _ rfl), run_bind_of_ok (testConst_run _ _ _ _ _ rfl),
    List.append_assoc, run_bind_of_ok (read8_reads d.preroll _)] at hok
  simp only [write8, List.cons_append] at hok
  rw [run_bind_of_ok (scan8_run ..), run_bind_of_ok (read8_run ..), testConst_bind_eq_ok, hlen,
    hcount] at hok
  omega

theorem descriptor_identifier (d : Descriptor) : ∃ tag length body,
    d.emit = write8 tag ++ (write8 length ++ (write32 descriptorIdentifier ++ body)) := by
  cases d <;> exact ⟨_, _, _, rfl⟩

theorem Descriptor.emit_pos (d : Descriptor) : 0 < d.emit.length := by
  obtain ⟨tag, length, body, hemit⟩ := descriptor_identifier d
  rw [hemit]
  exact Nat.succ_pos _

theorem Descriptor.reads {order : EvalOrder} {d : Descriptor} (h : d.Fits)
    (hback : d.ReadsBack order) : Reads (parseDescriptor order) d.emit d := by
  intro t
  cases d with
  | avail d =>
      rw [Descriptor.emit, AvailDescriptor.emit, parseDescriptor_run order (Nat.le_of_eq rfl)]
      have hread : Reads (parseAvailDescriptor AvailDescriptor.tag AvailDescriptor.length
          descriptorIdentifier) (write32 d.providerAvailId) d :=
        reads_testConst rfl (reads_testConst rfl (reads_testConst rfl
          ((read32_reads d.providerAvailId).last _)))
      exact hread.map Descriptor.avail t
  | dtmf d => exact absurd hback id
  | segmentation d =>
      have hlen : (UInt8.ofNat (d.emitSizeHint - 2)).toNat ≤
        4 + (d.data.flatMap write8).length := by
        have hle : d.data.length ≤ 251 := h
        rw [flatMap_write8, UInt8.toNat_ofNat', SegmentationDescriptor.emitSizeHint,
          Nat.mod_eq_of_lt (by omega)]
        omega
      rw [Descriptor.emit, SegmentationDescriptor.emit, parseDescriptor_run order hlen,
        flatMap_write8, parseDescriptorBody_segmentation, StateT.run_map,
        SegmentationDescriptor.parse_run h]
      rfl
  | time d =>
      rw [Descriptor.emit, TimeDescriptor.emit, parseDescriptor_run order (Nat.le_of_eq rfl),
        parseDescriptorBody_time, StateT.run_map, TimeDescriptor.parse_run h,
        (TimeDescriptor.reread_eq_self h).mpr hback]
      rfl

theorem Descriptor.readsBack_of_run {order : EvalOrder} {d : Descriptor} {t u : Bytes} (h : d.Fits)
    (hrun : (parseDescriptor order).run (d.emit ++ t) = .ok (d, u)) : d.ReadsBack order := by
  cases d with
  | avail d => trivial
  | dtmf d =>
      have hle : d.dtmfChars.length ≤ 7 := h
      have hlen : (UInt8.ofNat (d.emitSizeHint - 2)).toNat ≤ 4 + (write8 d.preroll ++
          (write8 (UInt8.ofNat (d.dtmfChars.length <<< 5)) ++
            d.dtmfChars.flatMap write8)).length := by
        rw [flatMap_write8, UInt8.toNat_ofNat', DtmfDescriptor.emitSizeHint,
          Nat.mod_eq_of_lt (by omega)]
        simp only [List.length_append, write8_length]
        omega
      rw [Descriptor.emit, DtmfDescriptor.emit, parseDescriptor_run order hlen,
        parseDescriptorBody_dtmf, StateT.run_map] at hrun
      cases hparse : (parseDtmfDescriptor DtmfDescriptor.tag (UInt8.ofNat (d.emitSizeHint - 2))
          descriptorIdentifier).run (write8 d.preroll ++
            (write8 (UInt8.ofNat (d.dtmfChars.length <<< 5)) ++
              d.dtmfChars.flatMap write8) ++ t) with
      | error f =>
          rw [hparse] at hrun
          cases hrun
      | ok r => exact absurd hparse (DtmfDescriptor.parse_run h t r)
  | segmentation d => trivial
  | time d =>
      rw [Descriptor.emit, TimeDescriptor.emit, parseDescriptor_run order (Nat.le_of_eq rfl),
        parseDescriptorBody_time, StateT.run_map, TimeDescriptor.parse_run h] at hrun
      have hd : d.reread order = d := by
        have hpair := Prod.mk.inj (Except.ok.inj hrun)
        exact Descriptor.time.inj hpair.1
      exact (TimeDescriptor.reread_eq_self h).mp hd

/-- The loop gets a list of descriptors back exactly when each of them comes back. -/
theorem parseDescriptorsLoop_eq_ok (order : EvalOrder) {n : Nat} {ds : List Descriptor}
    {u : Bytes} (hfits : ∀ d ∈ ds, d.Fits) (hn : (ds.flatMap Descriptor.emit).length ≤ n) :
    (parseDescriptorsLoop order n).run (ds.flatMap Descriptor.emit) = .ok (ds, u) ↔
      (∀ d ∈ ds, d.ReadsBack order) ∧ u = [] := by
  induction ds generalizing n u with
  | nil =>
      have hrun : (parseDescriptorsLoop order n).run [] = .ok ([], []) := by
        cases n <;> rfl
      rw [List.flatMap_nil, hrun]
      constructor
      · intro h
        cases h
        exact ⟨fun d hd => absurd hd List.not_mem_nil, rfl⟩
      · intro h
        rw [h.2]
  | cons d ds ih =>
      have hpos := d.emit_pos
      rw [List.flatMap_cons, List.length_append] at hn
      obtain ⟨k, rfl⟩ : ∃ k, n = k + 1 := ⟨n - 1, by omega⟩
      have hne : ¬(d.emit ++ ds.flatMap Descriptor.emit).length = 0 := by
        rw [List.length_append]
        omega
      have hih : ∀ {u}, (parseDescriptorsLoop order k).run (ds.flatMap Descriptor.emit) =
          .ok (ds, u) ↔ _ := ih (fun e he => hfits e (List.mem_cons_of_mem _ he)) (by omega)
      rw [List.flatMap_cons, parseDescriptorsLoop, run_bind_of_ok (available_run _), if_neg hne]
      constructor
      · intro h
        obtain ⟨d', t, hhead, htail⟩ := run_bind_eq_ok h
        obtain ⟨ds', t', hloop, hpure⟩ := run_bind_eq_ok htail
        obtain ⟨⟨rfl, rfl⟩, rfl⟩ : (d' = d ∧ ds' = ds) ∧ t' = u := by
          have hpair := Prod.mk.inj (Except.ok.inj hpure)
          exact ⟨List.cons.inj hpair.1, hpair.2⟩
        have hback := Descriptor.readsBack_of_run (hfits d' (List.mem_cons_self ..)) hhead
        have hread := Descriptor.reads (hfits d' (List.mem_cons_self ..)) hback
          (ds'.flatMap Descriptor.emit)
        obtain rfl : ds'.flatMap Descriptor.emit = t :=
          (Prod.mk.inj (Except.ok.inj (hread.symm.trans hhead))).2
        obtain ⟨hall, hu⟩ := hih.mp hloop
        refine ⟨fun e he => ?_, hu⟩
        rcases List.mem_cons.mp he with rfl | he
        · exact hback
        · exact hall e he
      · intro h
        obtain ⟨hall, rfl⟩ := h
        have hhead := Descriptor.reads (hfits d (List.mem_cons_self ..))
          (hall d (List.mem_cons_self ..))
        have htail := hih.mpr ⟨fun e he => hall e (List.mem_cons_of_mem _ he), rfl⟩
        rw [run_bind_of_ok (hhead _), run_bind_of_ok htail]
        rfl

end Scte35
end Metamix
