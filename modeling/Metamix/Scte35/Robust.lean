/-
How commands and descriptors fail.

Every check of the SCTE-35 parser throws a `BinaryParseError`, so what fails otherwise is what
no check covers.  In commands that is one thing, a private command that reaches over the end
of its section; in descriptors it is another, a segmentation descriptor that is shorter than
its identifier.  The rules of `FailsFrom` take the parsers apart down to these two.  The loop
over the descriptors ends because every descriptor takes at least its tag.
-/
import Metamix.Scte35.RoundTrip

namespace Metamix
namespace Scte35

open Lib Lib.Reader Binary

section Rules

variable {α : Type} {E : Fault → Prop} (hE : Absorbs E)
include hE

/-! ## Checks -/

section Checks

variable {c : Prop} [Decidable c] {lhs op rhs lval rval : String} {s : Bytes}

theorem failsFrom_testConst_iff {f : Unit → Reader α} :
    FailsFrom E (testConst c lhs op rhs lval rval >>= f) s ↔ (c → FailsFrom E (f ()) s) := by
  by_cases h : c
  · rw [failsFrom_bind_of_ok (testConst_run lhs op rhs lval rval h), forall_prop_of_true h]
  · have herr : (testConst c lhs op rhs lval rval).run s = .error (parseError _) := if_neg h
    rw [failsFrom_error_iff (run_bind_of_error herr)]
    exact iff_of_true (hE.parseError _) fun hc => absurd hc h

theorem failsWith_testConst : FailsWith E (testConst c lhs op rhs lval rval) := by
  intro s
  by_cases h : c
  · exact failsFrom_of_ok (testConst_run lhs op rhs lval rval h)
  · have herr : (testConst c lhs op rhs lval rval).run s = .error (parseError _) := if_neg h
    exact (failsFrom_error_iff herr).mpr (hE.parseError _)

theorem failsFrom_assert_iff {f : Unit → Reader α} :
    FailsFrom E (assert_ c >>= f) s ↔ c ∧ FailsFrom E (f ()) s := by
  by_cases h : c
  · rw [failsFrom_bind_of_ok (assert_run h), and_iff_right h]
  · have herr : (assert_ c).run s = .error .assertion := if_neg h
    rw [failsFrom_error_iff (run_bind_of_error herr)]
    exact iff_of_false hE.assertion fun hc => h hc.1

theorem failsWith_throw (what : String) : FailsWith E (throw_ what : Reader α) := fun _ =>
  (failsFrom_error_iff (e := parseError what) rfl).mpr (hE.parseError what)

omit hE in
theorem failsFrom_within_iff {n : Nat} {p : Reader α} :
    FailsFrom E (within n p) s ↔ FailsFrom E p (s.take n) := by
  cases h : p.run (s.take n) with
  | error f =>
      have herr : (within n p).run s = .error f := by
        rw [within_apply, h]
      rw [failsFrom_error_iff h, failsFrom_error_iff herr]
  | ok r =>
      have hok : (within n p).run s = .ok (r.1, r.2 ++ s.drop n) := by
        rw [within_apply, h]
      exact iff_of_true (failsFrom_of_ok hok) (failsFrom_of_ok h)

end Checks

/-! ## Commands -/

theorem failsWith_parseSpliceTime : FailsWith E parseSpliceTime := by
  refine (failsWith_scanFlag hE.parseError _).bind fun timeSpecifiedFlag => ?_
  cases timeSpecifiedFlag with
  | true => exact (failsWith_read33 hE.parseError).bind fun _ => .pure _
  | false => exact (failsWith_read8 hE.parseError _).bind fun _ => .pure _

theorem failsWith_parseBreakDuration : FailsWith E parseBreakDuration :=
  (failsWith_scanFlag hE.parseError _).bind fun _ =>
    (failsWith_read33 hE.parseError).bind fun _ => .pure _

omit hE in
theorem failsWith_parseOptional {p : Reader α} (hp : FailsWith E p) (flag : Bool) :
    FailsWith E (parseOptional flag p) := by
  cases flag with
  | true => exact hp.bind fun _ => .pure _
  | false => exact .pure none

theorem failsWith_parseComponents {p : Reader α} (hp : FailsWith E p) :
    FailsWith E (parseComponents p) := by
  refine (failsWith_read8 hE.parseError _).bind fun componentCount => ?_
  exact (failsWith_testConst hE).bind fun _ => hp.times _

theorem failsWith_parseSpliceScheduleEventProgramSplice (flag : Bool) :
    FailsWith E (parseSpliceScheduleEventProgramSplice flag) := by
  have hcomponent : FailsWith E parseScheduleComponent :=
    (failsWith_read8 hE.parseError _).bind fun _ =>
      (failsWith_read32 hE.parseError).bind fun _ => .pure _
  cases flag with
  | true => exact (failsWith_read32 hE.parseError).bind fun _ => .pure _
  | false => exact (failsWith_parseComponents hE hcomponent).bind fun _ => .pure _

/-- Both kinds of event end with a break duration, a program and a count of avails. -/
theorem failsWith_avails {f : Option BreakDuration → UInt16 → UInt8 → UInt8 → α} (flag : Bool) :
    FailsWith E (do
      let breakDuration ← parseOptional flag parseBreakDuration
      let uniqueProgramId ← read16
      let availNum ← read8 0xff
      let availsExpected ← read8 0xff
      return f breakDuration uniqueProgramId availNum availsExpected) := by
  refine (failsWith_parseOptional (failsWith_parseBreakDuration hE) flag).bind fun _ => ?_
  refine (failsWith_read16 hE.parseError).bind fun _ => ?_
  refine (failsWith_read8 hE.parseError _).bind fun _ => ?_
  exact (failsWith_read8 hE.parseError _).bind fun _ => .pure _

theorem failsWith_parseScheduleCancelOff : FailsWith E parseScheduleCancelOff := by
  refine (failsWith_scanFlag hE.parseError _).bind fun _ => ?_
  refine (failsWith_scanFlag hE.parseError _).bind fun programSpliceFlag => ?_
  refine (failsWith_scanFlag hE.parseError _).bind fun durationFlag => ?_
  refine (failsWith_read8 hE.parseError _).bind fun _ => ?_
  refine (failsWith_parseSpliceScheduleEventProgramSplice hE programSpliceFlag).bind fun _ => ?_
  exact failsWith_avails hE durationFlag

theorem failsWith_parseSpliceSchedule : FailsWith E parseSpliceSchedule := by
  have hevent : FailsWith E parseSpliceScheduleEvent := by
    refine (failsWith_read32 hE.parseError).bind fun _ => ?_
    refine (failsWith_scanFlag hE.parseError _).bind fun cancel => ?_
    refine (failsWith_read8 hE.parseError _).bind fun _ => ?_
    exact (failsWith_parseOptional (failsWith_parseScheduleCancelOff hE) _).bind fun _ => .pure _
  refine (failsWith_read8 hE.parseError _).bind fun spliceCount => ?_
  exact (hevent.times _).bind fun _ => .pure _

theorem failsWith_parseInsertCancelOff : FailsWith E parseInsertCancelOff := by
  refine (failsWith_scanFlag hE.parseError _).bind fun _ => ?_
  refine (failsWith_scanFlag hE.parseError _).bind fun programSpliceFlag => ?_
  refine (failsWith_scanFlag hE.parseError _).bind fun durationFlag => ?_
  refine (failsWith_scanFlag hE.parseError _).bind fun spliceImmediateFlag => ?_
  refine (failsWith_read8 hE.parseError _).bind fun _ => ?_
  have htime : FailsWith E parseSpliceTime := failsWith_parseSpliceTime hE
  have hcomponent : FailsWith E (parseInsertComponent spliceImmediateFlag) :=
    (failsWith_read8 hE.parseError _).bind fun _ =>
      (failsWith_parseOptional htime _).bind fun _ => .pure _
  refine (failsWith_parseOptional htime _).bind fun _ => ?_
  refine (failsWith_parseOptional (failsWith_parseComponents hE hcomponent) _).bind fun _ => ?_
  exact failsWith_avails hE durationFlag

theorem failsWith_parseSpliceInsert : FailsWith E parseSpliceInsert := by
  refine (failsWith_read32 hE.parseError).bind fun _ => ?_
  refine (failsWith_scanFlag hE.parseError _).bind fun cancel => ?_
  refine (failsWith_read8 hE.parseError _).bind fun _ => ?_
  exact (failsWith_parseOptional (failsWith_parseInsertCancelOff hE) _).bind fun _ => .pure _

theorem failsWith_parseCommand {type : UInt8} (htype : type ≠ CommandType.privateCommand)
    (n : Nat) :
    FailsWith E (parseCommand type n) := by
  unfold parseCommand
  split_ifs with h1 h2 h3 h4 h5
  · exact .pure _
  · exact (failsWith_parseSpliceSchedule hE).map _
  · exact (failsWith_parseSpliceInsert hE).map _
  · exact ((failsWith_parseSpliceTime hE).bind fun _ => .pure _).map _
  · exact .pure _
  · exact failsWith_throw hE _

end Rules

/-! ## The loop ends -/

section Progress

variable {α : Type}

theorem leavesSuffix_testConst {c : Prop} [Decidable c] {lhs op rhs lval rval : String} :
    LeavesSuffix (testConst c lhs op rhs lval rval) := by
  intro s a t h
  by_cases hc : c
  · rw [testConst_run _ _ _ _ _ hc] at h
    cases h
    exact List.suffix_rfl
  · have herr : (testConst c lhs op rhs lval rval).run s = .error _ := if_neg hc
    rw [herr] at h
    cases h

theorem leavesSuffix_copyRange (first last : Int) : LeavesSuffix (copyRange first last) := by
  intro s bytes t h
  change (if last < first then Except.error Fault.lengthError
    else if last ≤ s.length then .ok ((s.take last.toNat).drop first.toNat, s)
    else .error .outOfBounds) = _ at h
  split_ifs at h
  cases h
  exact List.suffix_rfl

theorem leavesSuffix_parseAvailDescriptor (tag length : UInt8) (id : UInt32) :
    LeavesSuffix (parseAvailDescriptor tag length id) :=
  leavesSuffix_testConst.bind fun _ => leavesSuffix_testConst.bind fun _ =>
    leavesSuffix_testConst.bind fun _ => leavesSuffix_read32.bind fun _ => .pure _

theorem leavesSuffix_parseDtmfDescriptor (tag length : UInt8) (id : UInt32) :
    LeavesSuffix (parseDtmfDescriptor tag length id) := by
  refine leavesSuffix_testConst.bind fun _ => leavesSuffix_testConst.bind fun _ => ?_
  refine (leavesSuffix_read8 _).bind fun _ => (leavesSuffix_scan8 _).bind fun _ => ?_
  refine (leavesSuffix_read8 _).bind fun _ => leavesSuffix_testConst.bind fun _ => ?_
  refine leavesSuffix_available.bind fun _ => leavesSuffix_testConst.bind fun _ => ?_
  exact (leavesSuffix_copyRange _ _).bind fun _ => (leavesSuffix_advance _).bind fun _ => .pure _

theorem leavesSuffix_parseSegmentationDescriptor (tag length : UInt8) (id : UInt32) :
    LeavesSuffix (parseSegmentationDescriptor tag length id) := by
  refine leavesSuffix_testConst.bind fun _ => leavesSuffix_testConst.bind fun _ => ?_
  refine leavesSuffix_available.bind fun _ => leavesSuffix_testConst.bind fun _ => ?_
  exact (leavesSuffix_copyRange _ _).bind fun _ => (leavesSuffix_advance _).bind fun _ => .pure _

theorem leavesSuffix_parseTimeDescriptor (order : EvalOrder) (tag length : UInt8) (id : UInt32) :
    LeavesSuffix (parseTimeDescriptor order tag length id) := by
  have h48 := leavesSuffix_read48 order.sum
  have h32 := leavesSuffix_read32
  have h16 := leavesSuffix_read16
  refine leavesSuffix_testConst.bind fun _ => leavesSuffix_testConst.bind fun _ => ?_
  refine leavesSuffix_testConst.bind fun _ => ?_
  cases order.args with
  | abc => exact h48.bind fun _ => h32.bind fun _ => h16.bind fun _ => .pure _
  | acb => exact h48.bind fun _ => h16.bind fun _ => h32.bind fun _ => .pure _
  | bac => exact h32.bind fun _ => h48.bind fun _ => h16.bind fun _ => .pure _
  | bca => exact h32.bind fun _ => h16.bind fun _ => h48.bind fun _ => .pure _
  | cab => exact h16.bind fun _ => h48.bind fun _ => h32.bind fun _ => .pure _
  | cba => exact h16.bind fun _ => h32.bind fun _ => h48.bind fun _ => .pure _

theorem leavesSuffix_parseDescriptorBody (order : EvalOrder) (tag length : UInt8) (id : UInt32) :
    LeavesSuffix (parseDescriptorBody order tag length id) := by
  unfold parseDescriptorBody
  split_ifs with h1 h2 h3 h4
  · exact LeavesSuffix.map _ (leavesSuffix_parseAvailDescriptor tag length id)
  · exact LeavesSuffix.map _ (leavesSuffix_parseDtmfDescriptor tag length id)
  · exact LeavesSuffix.map _ (leavesSuffix_parseSegmentationDescriptor tag length id)
  · exact LeavesSuffix.map _ (leavesSuffix_parseTimeDescriptor order tag length id)
  · intro s a t h
    cases h

theorem parseDescriptor_shorter {order : EvalOrder} {s t : Bytes} {d : Descriptor}
    (h : (parseDescriptor order).run s = .ok (d, t)) : t.length < s.length := by
  cases s with
  | nil => cases h
  | cons tag s =>
      rw [parseDescriptor, run_bind_of_ok (read8_run ..)] at h
      have hrest := ((leavesSuffix_read8 0xff).bind fun length =>
        leavesSuffix_available.bind fun _ =>
        leavesSuffix_testConst.bind fun _ => leavesSuffix_read32.bind fun identifier =>
          leavesSuffix_parseDescriptorBody order (tag &&& 0xff) length identifier).length_le h
      rw [List.length_cons]
      omega

/-- More rounds than there are bytes make no difference. -/
theorem parseDescriptorsLoop_rounds {order : EvalOrder} {n : Nat} {s : Bytes} (h : s.length ≤ n) :
    (parseDescriptorsLoop order n).run s = (parseDescriptorsLoop order s.length).run s := by
  induction n using Nat.strong_induction_on generalizing s with
  | _ n ih =>
      cases hs : s.length with
      | zero =>
          rw [List.length_eq_zero_iff.mp hs]
          cases n <;> rfl
      | succ m =>
          obtain ⟨k, rfl⟩ : ∃ k, n = k + 1 := ⟨n - 1, by omega⟩
          have hne : ¬s.length = 0 := by omega
          simp only [parseDescriptorsLoop]
          rw [run_bind_of_ok (available_run _), run_bind_of_ok (available_run _), if_neg hne,
            if_neg hne]
          cases hd : (parseDescriptor order).run s with
          | error f => rw [run_bind_of_error hd, run_bind_of_error hd]
          | ok r =>
              obtain ⟨d, t⟩ := r
              have hlt := parseDescriptor_shorter hd
              have htail : (parseDescriptorsLoop order k).run t =
                  (parseDescriptorsLoop order m).run t := by
                rw [ih k (by omega) (by omega), ih m (by omega) (by omega)]
              rw [run_bind_of_ok hd, run_bind_of_ok hd, StateT.run_bind, StateT.run_bind, htail]

end Progress

/-! ## What no check covers -/

/-- A private command of `n` bytes that reaches over the end of the section, of which `c` is what
follows the command's type.  The bytes are looked for four bytes too far on. -/
def Overruns (type : UInt8) (n : Nat) (c : Bytes) : Prop :=
  type = CommandType.privateCommand ∧ 4 < n ∧ n < 0xfff ∧ n < c.length ∧ c.length < 4 + n

/-- A segmentation descriptor that is shorter than the identifier it starts with. -/
def Reversed (s : Bytes) : Prop :=
  ∃ length rest, s = SegmentationDescriptor.tag :: length ::
    (write32 descriptorIdentifier ++ rest) ∧ length.toNat < 4

/-- The loop over the descriptors in `s` gets as far as `u`. -/
inductive Reaches (order : EvalOrder) : Bytes → Bytes → Prop where
  | here (s : Bytes) : Reaches order s s
  | behind {s t u : Bytes} {d : Descriptor} (hparse : (parseDescriptor order).run s = .ok (d, t))
      (hrest : Reaches order t u) : Reaches order s u

/-- The descriptor loop that `u` starts with gets to a reversed descriptor. -/
def LoopReverses (order : EvalOrder) (u : Bytes) : Prop :=
  ∃ loopLength v s, u = write16 loopLength ++ v ∧ loopLength.toNat < v.length ∧
    Reaches order (v.take loopLength.toNat) s ∧ Reversed s

/-- How it ends: the copy reads on, and the length of the command is checked. -/
def overrunFault (n : Nat) (c : Bytes) : Fault :=
  .overread (4 + n - c.length) ⟨commandLengthDiffers (4 + n) n, 0, 0⟩

/-- What is made of a private command of which the identifier has been read. -/
theorem parsePrivateCommand_run {n : Nat} {c t : Bytes} {identifier : UInt32} (hgt : 4 < n)
    (hlt : n < 0xfff) (hread : read32.run c = .ok (identifier, t)) :
    (parsePrivateCommand n).run c =
      if n ≤ t.length then .ok (⟨identifier, (t.take n).drop 4⟩, t.drop n)
      else .error (overrunFault n c) := by
  have htail := read32_takes hread
  rw [parsePrivateCommand, run_bind_of_ok (testConst_run _ _ _ _ _ hgt),
    run_bind_of_ok (testConst_run _ _ _ _ _ hlt), run_bind_of_ok hread,
    run_bind_of_ok (available_run t)]
  by_cases hle : n ≤ t.length
  · have hcopy : (copyRange 4 n).run t = .ok ((t.take n).drop 4, t) :=
      (copyRange_natCast (Nat.le_of_lt hgt)).trans (if_pos hle)
    rw [if_pos hle, if_neg (Nat.not_lt.mpr hle), run_bind_of_ok hcopy]
    rfl
  · have hcount : n - t.length = 4 + n - c.length := by omega
    rw [if_neg hle, if_pos (Nat.lt_of_not_le hle), hcount]
    rfl

section Exact

variable {E : Fault → Prop} (hE : Absorbs E)
include hE

theorem failsFrom_parsePrivateCommand_iff {n : Nat} {c : Bytes} (hn : n < 0xfff → n < c.length) :
    FailsFrom E (parsePrivateCommand n) c ↔
      (4 < n → n < 0xfff → c.length < 4 + n → E (overrunFault n c)) := by
  by_cases hchecks : 4 < n ∧ n < 0xfff
  · obtain ⟨hgt, hlt⟩ := hchecks
    have hlong := hn hlt
    obtain ⟨identifier, t, hread⟩ := exists_read32 (s := c) (by omega)
    have hlen := read32_takes hread
    have hrun := parsePrivateCommand_run hgt hlt hread
    rw [forall_prop_of_true hgt, forall_prop_of_true hlt]
    by_cases hle : n ≤ t.length
    · rw [if_pos hle] at hrun
      exact iff_of_true (failsFrom_of_ok hrun) fun hshort => absurd hshort (by omega)
    · rw [if_neg hle] at hrun
      rw [failsFrom_error_iff hrun, forall_prop_of_true (by omega)]
  · refine iff_of_true ?_ fun hgt hlt => absurd ⟨hgt, hlt⟩ hchecks
    rw [parsePrivateCommand, failsFrom_testConst_iff hE]
    intro hgt
    rw [failsFrom_testConst_iff hE]
    exact fun hlt => absurd ⟨hgt, hlt⟩ hchecks

theorem failsFrom_parseCommand_iff {type : UInt8} {n : Nat} {c : Bytes}
    (hn : n < 0xfff → n < c.length) :
    FailsFrom E (parseCommand type n) c ↔ (Overruns type n c → E (overrunFault n c)) := by
  by_cases htype : type = CommandType.privateCommand
  · have hcommand : parseCommand type n = Command.privateCommand <$> parsePrivateCommand n := by
      rw [htype]
      rfl
    have hmap : FailsFrom E (Command.privateCommand <$> parsePrivateCommand n) c ↔
        FailsFrom E (parsePrivateCommand n) c := by
      rw [map_eq_pure_bind, failsFrom_bind_iff]
      exact and_iff_left fun command t _ => FailsWith.pure _ t
    rw [hcommand, hmap, failsFrom_parsePrivateCommand_iff hE hn]
    constructor
    · rintro h ⟨_, hgt, hlt, _, hshort⟩
      exact h hgt hlt hshort
    · intro h hgt hlt hshort
      exact h ⟨htype, hgt, hlt, hn hlt, hshort⟩
  · exact iff_of_true (failsWith_parseCommand hE htype n c) fun hover => absurd hover.1 htype

theorem failsFrom_parseCommandChecked_iff {type : UInt8} {n : Nat} {c : Bytes} :
    FailsFrom E (parseCommandChecked type n) c ↔ (Overruns type n c → E (overrunFault n c)) := by
  -- what the command is followed by fails with parse errors alone
  have hrest : ∀ start, FailsFrom E (do
      let command ← parseCommand type n
      let endLength ← available
      let len := (start - endLength) % 2 ^ 16
      if n ≠ 0xfff ∧ len ≠ n then throw_ (commandLengthDiffers len n)
      else return command) c ↔ FailsFrom E (parseCommand type n) c := by
    intro start
    rw [failsFrom_bind_iff]
    refine and_iff_left fun command t _ => ?_
    refine failsWith_available.bind (fun endLength => ?_) t
    dsimp only
    split_ifs
    · exact failsWith_throw hE _
    · exact .pure _
  rw [parseCommandChecked, failsFrom_bind_of_ok (available_run _)]
  by_cases hmax : n = 0xfff
  · simp only [hmax, ne_eq, not_true_eq_false, if_false] at hrest ⊢
    rw [hrest, failsFrom_parseCommand_iff hE (fun h => absurd h (Nat.lt_irrefl _))]
  · simp only [hmax, ne_eq, not_false_eq_true, if_true] at hrest ⊢
    rw [failsFrom_testConst_iff hE, hrest]
    constructor
    · intro h hover
      have hlt := hover.2.2.2.1
      exact (failsFrom_parseCommand_iff hE fun _ => hlt).mp (h hlt) hover
    · intro hover hlt
      exact (failsFrom_parseCommand_iff hE fun _ => hlt).mpr hover

theorem failsWith_parseAvailDescriptor (tag length : UInt8) (id : UInt32) :
    FailsWith E (parseAvailDescriptor tag length id) := by
  refine (failsWith_testConst hE).bind fun _ => (failsWith_testConst hE).bind fun _ => ?_
  exact (failsWith_testConst hE).bind fun _ =>
    (failsWith_read32 hE.parseError).bind fun _ => .pure _

theorem failsWith_parseDtmfDescriptor (tag length : UInt8) (id : UInt32) :
    FailsWith E (parseDtmfDescriptor tag length id) := by
  refine (failsWith_testConst hE).bind fun _ => (failsWith_testConst hE).bind fun _ => ?_
  refine (failsWith_read8 hE.parseError _).bind fun _ =>
    (failsWith_scan8 hE.parseError _).bind fun _ => ?_
  refine (failsWith_read8 hE.parseError _).bind fun _ => (failsWith_testConst hE).bind fun _ => ?_
  intro s
  rw [failsFrom_bind_of_ok (available_run _), failsFrom_testConst_iff hE]
  intro hfit
  rw [failsFrom_bind_of_ok (copyRange_run hfit)]
  exact (failsWith_advance _).bind (fun _ => .pure _) s

theorem failsWith_parseTimeDescriptor (order : EvalOrder) (tag length : UInt8) (id : UInt32) :
    FailsWith E (parseTimeDescriptor order tag length id) := by
  have h48 := failsWith_read48 hE.parseError order.sum
  have h32 := failsWith_read32 hE.parseError
  have h16 := failsWith_read16 hE.parseError
  refine (failsWith_testConst hE).bind fun _ => (failsWith_testConst hE).bind fun _ => ?_
  refine (failsWith_testConst hE).bind fun _ => ?_
  cases order.args with
  | abc => exact h48.bind fun _ => h32.bind fun _ => h16.bind fun _ => .pure _
  | acb => exact h48.bind fun _ => h16.bind fun _ => h32.bind fun _ => .pure _
  | bac => exact h32.bind fun _ => h48.bind fun _ => h16.bind fun _ => .pure _
  | bca => exact h32.bind fun _ => h16.bind fun _ => h48.bind fun _ => .pure _
  | cab => exact h16.bind fun _ => h48.bind fun _ => h32.bind fun _ => .pure _
  | cba => exact h16.bind fun _ => h32.bind fun _ => h48.bind fun _ => .pure _

/-- The range to copy is reversed when the length leaves no room for the identifier. -/
theorem failsFrom_parseSegmentationDescriptor_iff {tag length : UInt8} {id : UInt32} {s : Bytes} :
    FailsFrom E (parseSegmentationDescriptor tag length id) s ↔
      (tag = SegmentationDescriptor.tag → id = descriptorIdentifier → length.toNat < 4 →
        E .lengthError) := by
  rw [parseSegmentationDescriptor, failsFrom_testConst_iff hE]
  refine imp_congr_right fun _ => ?_
  rw [failsFrom_testConst_iff hE]
  refine imp_congr_right fun _ => ?_
  rw [failsFrom_bind_of_ok (available_run _), failsFrom_testConst_iff hE]
  rcases Nat.lt_or_ge length.toNat 4 with hlt | hge
  · have herr : (copyRange 0 ((length.toNat : Int) - 4)).run s = .error .lengthError :=
      if_pos (by omega)
    rw [failsFrom_error_iff (run_bind_of_error herr)]
    exact ⟨fun h _ => h (by omega), fun h _ => h hlt⟩
  · have hnat : (length.toNat : Int) - 4 = (length.toNat - 4 : Nat) := by omega
    refine iff_of_true (fun hfit => ?_) fun hlt => absurd hlt (by omega)
    rw [hnat] at hfit ⊢
    rw [failsFrom_bind_of_ok (copyRange_run (by omega))]
    exact (failsWith_advance _).bind (fun _ => .pure _) s

theorem failsFrom_parseDescriptorBody_iff {order : EvalOrder} {tag length : UInt8} {id : UInt32}
    {s : Bytes} : FailsFrom E (parseDescriptorBody order tag length id) s ↔
      (tag = SegmentationDescriptor.tag → id = descriptorIdentifier → length.toNat < 4 →
        E .lengthError) := by
  unfold parseDescriptorBody
  split_ifs with havail hdtmf hseg htime
  · refine iff_of_true ((failsWith_parseAvailDescriptor hE _ _ _).map _ s) fun htag => ?_
    exact absurd (havail.symm.trans htag) (by decide)
  · refine iff_of_true ((failsWith_parseDtmfDescriptor hE _ _ _).map _ s) fun htag => ?_
    exact absurd (hdtmf.symm.trans htag) (by decide)
  · rw [map_eq_pure_bind, failsFrom_bind_iff, failsFrom_parseSegmentationDescriptor_iff hE]
    exact and_iff_left fun d t _ => FailsWith.pure _ t
  · exact iff_of_true ((failsWith_parseTimeDescriptor hE _ _ _ _).map _ s) fun htag =>
      absurd htag hseg
  · exact iff_of_true (failsWith_throw hE _ s) fun htag => absurd htag hseg

theorem failsFrom_parseDescriptor_iff {order : EvalOrder} {s : Bytes} :
    FailsFrom E (parseDescriptor order) s ↔ (Reversed s → E .lengthError) := by
  constructor
  · rintro h ⟨length, rest, rfl, hlt⟩
    have hrun := @parseDescriptor_run order SegmentationDescriptor.tag length rest [] (by omega)
    have hbody : FailsFrom E (parseDescriptorBody order SegmentationDescriptor.tag length
        descriptorIdentifier) (rest ++ []) := by
      intro e he
      rw [← hrun, List.append_nil] at he
      exact h e he
    exact (failsFrom_parseDescriptorBody_iff hE).mp hbody rfl rfl hlt
  · intro h
    refine (failsWith_read8 hE.parseError _).bind_iff.mpr fun tag s1 htag => ?_
    refine (failsWith_read8 hE.parseError _).bind_iff.mpr fun length s2 hlength => ?_
    rw [failsFrom_bind_of_ok (available_run _), failsFrom_testConst_iff hE]
    intro _
    refine (failsWith_read32 hE.parseError).bind_iff.mpr fun id s3 hid => ?_
    refine (failsFrom_parseDescriptorBody_iff hE).mpr fun hseg hcuei hlt => ?_
    match s, s1, htag, hlength with
    | a :: b :: t, _, htag, hlength =>
        rw [read8_run, and_full] at htag
        obtain ⟨rfl, rfl⟩ := Prod.mk.inj (Except.ok.inj htag)
        rw [read8_run, and_full] at hlength
        obtain ⟨rfl, rfl⟩ := Prod.mk.inj (Except.ok.inj hlength)
        refine h ⟨b, s3, ?_, hlt⟩
        rw [← hcuei, ← read32_eq_ok.mp hid, hseg]

/-- The loop fails otherwise exactly when it gets to a reversed descriptor. -/
theorem failsFrom_parseDescriptorsLoop_iff {order : EvalOrder} {n : Nat} {s : Bytes}
    (hn : s.length ≤ n) : FailsFrom E (parseDescriptorsLoop order n) s ↔
      ∀ u, Reaches order s u → Reversed u → E .lengthError := by
  have hempty : ∀ u, Reaches order [] u → Reversed u → E .lengthError := by
    intro u hreach hrev
    cases hreach with
    | here =>
        obtain ⟨length, rest, heq, _⟩ := hrev
        cases heq
    | behind hparse _ => cases hparse
  induction n generalizing s with
  | zero =>
      obtain rfl : s = [] := List.length_eq_zero_iff.mp (by omega)
      exact iff_of_true (FailsWith.pure [] []) hempty
  | succ n ih =>
      rw [parseDescriptorsLoop, failsFrom_bind_of_ok (available_run _)]
      by_cases hs : s.length = 0
      · obtain rfl : s = [] := List.length_eq_zero_iff.mp hs
        exact iff_of_true (FailsWith.pure [] []) hempty
      · rw [if_neg hs, failsFrom_bind_iff, failsFrom_parseDescriptor_iff hE]
        have htail : ∀ d t, (parseDescriptor order).run s = .ok (d, t) →
            (FailsFrom E (parseDescriptorsLoop order n >>= fun ds => pure (d :: ds)) t ↔
              ∀ u, Reaches order t u → Reversed u → E .lengthError) := by
          intro d t hparse
          have hlt := parseDescriptor_shorter hparse
          rw [failsFrom_bind_iff]
          refine Iff.trans ?_ (ih (by omega))
          exact and_iff_left fun ds t' _ => FailsWith.pure _ t'
        constructor
        · rintro ⟨hhere, hbehind⟩ u hreach hrev
          cases hreach with
          | here => exact hhere hrev
          | behind hparse hrest => exact (htail _ _ hparse).mp (hbehind _ _ hparse) u hrest hrev
        · intro h
          refine ⟨fun hrev => h s (.here s) hrev, fun d t hparse => ?_⟩
          exact (htail d t hparse).mpr fun u hrest hrev => h u (.behind hparse hrest) hrev

theorem failsFrom_parseDescriptorLoop_iff {order : EvalOrder} {u : Bytes} :
    FailsFrom E (parseDescriptorLoop order) u ↔ (LoopReverses order u → E .lengthError) := by
  have hloop : ∀ loopLength : UInt16, ∀ v, loopLength.toNat < v.length →
      (FailsFrom E (parseDescriptors order loopLength.toNat) v ↔
        ∀ s, Reaches order (v.take loopLength.toNat) s → Reversed s → E .lengthError) := by
    intro loopLength v hlt
    unfold parseDescriptors
    rw [failsFrom_bind_of_ok (available_run _),
      failsFrom_bind_of_ok (testConst_run _ _ _ _ _ hlt), failsFrom_within_iff,
      failsFrom_parseDescriptorsLoop_iff hE (by rw [List.length_take]; omega)]
  unfold parseDescriptorLoop
  constructor
  · rintro h ⟨loopLength, v, s, rfl, hlt, hreach, hrev⟩
    rw [failsFrom_bind_of_ok (read16_reads loopLength v)] at h
    by_cases hpos : loopLength.toNat > 0
    · simp only [hpos, if_true] at h
      rw [failsFrom_bind_of_ok (available_run _),
        failsFrom_bind_of_ok (testConst_run _ _ _ _ _ hlt), hloop loopLength v hlt] at h
      exact h s hreach hrev
    · have hzero : loopLength.toNat = 0 := by omega
      rw [hzero, List.take_zero] at hreach
      cases hreach with
      | here =>
          obtain ⟨length, rest, heq, _⟩ := hrev
          cases heq
      | behind hparse _ => cases hparse
  · intro h
    refine (failsWith_read16 hE.parseError).bind_iff.mpr fun loopLength v hread => ?_
    dsimp only
    split_ifs with hpos
    · rw [failsFrom_bind_of_ok (available_run _), failsFrom_testConst_iff hE]
      intro hlt
      refine (hloop loopLength v hlt).mpr fun s hreach hrev => h ?_
      exact ⟨loopLength, v, s, read16_eq_ok.mp hread, hlt, hreach, hrev⟩
    · exact FailsWith.pure [] v

end Exact

end Scte35
end Metamix
