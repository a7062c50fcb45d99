/-
What the parser accepts.

The reader takes the value of a field and never more than the field holds, checks every count and
gets nothing past the length of a private command.  So a section that a call returns is one that
the emitter was written for, and it is written in as many bytes as were taken for it, the pointer
field apart.  `accepted_relays` puts this together with the exact condition for a section to
survive being written: a relay of markers loses exactly the sections that do not meet it.
-/
import Metamix.Scte35.Accounted
import Metamix.Scte35.Framing
import Metamix.Scte35.SectionRoundTrip

namespace Metamix
namespace Scte35

open Lib Lib.Reader Binary BinaryParser

/-- What is returned fits the wire and takes as many bytes as it is written in. -/
def Accepts {α : Type} (p : Reader α) (emit : α → Bytes) (Fits : α → Prop) : Prop :=
  Returns p fun a n => n = (emit a).length ∧ Fits a

/-! ## Checks -/

theorem returns_testConst {c : Prop} [Decidable c] {lhs op rhs lval rval : String} :
    Returns (testConst c lhs op rhs lval rval) fun _ n => n = 0 ∧ c := by
  intro s a t h
  change (if c then Except.ok ((), s) else _) = _ at h
  split_ifs at h with hc
  cases h
  exact ⟨0, (Nat.zero_add _).symm, rfl, hc⟩

theorem returns_assert {c : Prop} [Decidable c] : Returns (assert_ c) fun _ n => n = 0 ∧ c := by
  intro s a t h
  change (if c then Except.ok ((), s) else _) = _ at h
  split_ifs at h with hc
  cases h
  exact ⟨0, (Nat.zero_add _).symm, rfl, hc⟩

/-! ## Parts of commands -/

theorem SpliceTime.accepts : Accepts parseSpliceTime SpliceTime.emit SpliceTime.Fits := by
  refine (returns_scanFlag _).bind fun flag n hn => ?_
  subst hn
  cases flag with
  | true =>
      refine returns_read33.bind fun pts n h => .pure ?_
      obtain ⟨rfl, hpts⟩ := h
      refine ⟨rfl, fun pts' hpts' => ?_⟩
      cases hpts'
      exact hpts
  | false =>
      refine (returns_read8 _).bind fun b n hn => .pure ?_
      subst hn
      exact ⟨rfl, fun pts hpts => by cases hpts⟩

theorem BreakDuration.accepts :
    Accepts parseBreakDuration BreakDuration.emit BreakDuration.Fits := by
  refine (returns_scanFlag _).bind fun autoReturn n hn => returns_read33.bind fun d m h => .pure ?_
  subst hn
  obtain ⟨rfl, hd⟩ := h
  exact ⟨rfl, hd⟩

section Parts

variable {α : Type} {p : Reader α} {emit : α → Bytes} {Fits : α → Prop}

theorem returns_parseOptional (hp : Accepts p emit Fits) (flag : Bool) :
    Returns (parseOptional flag p) fun o n =>
      n = (emitOptional emit o).length ∧ o.isSome = flag ∧ ∀ a, o = some a → Fits a := by
  cases flag with
  | true =>
      refine hp.bind fun a n h => .pure ?_
      obtain ⟨rfl, ha⟩ := h
      refine ⟨rfl, rfl, fun b hb => ?_⟩
      cases hb
      exact ha
  | false => exact .pure ⟨rfl, rfl, fun a ha => by cases ha⟩

theorem returns_times (hp : Accepts p emit Fits) (count : UInt8) :
    Returns (times p count.toNat) fun xs n =>
      n = (xs.flatMap emit).length ∧ xs.length = count.toNat ∧ ∀ x ∈ xs, Fits x := by
  refine (Returns.times hp count.toNat).mono fun xs n h => ?_
  obtain ⟨hcount, rfl, hall⟩ := h
  exact ⟨List.length_flatMap.symm, hcount, hall⟩

theorem returns_parseComponents (hp : Accepts p emit Fits) :
    Returns (parseComponents p) fun xs n =>
      n = 1 + (xs.flatMap emit).length ∧ CountFits xs ∧ ∀ x ∈ xs, Fits x := by
  refine (returns_read8 _).bind fun count n hn => returns_testConst.bind fun _ m hm => ?_
  refine (returns_times hp count).mono fun xs k hk => ?_
  obtain ⟨rfl, hpos⟩ := hm
  obtain ⟨rfl, hcount, hall⟩ := hk
  have hlt := count.toNat_lt
  exact ⟨by omega, ⟨by omega, by omega⟩, hall⟩

end Parts

/-! ## Commands -/

namespace SpliceSchedule

theorem ProgramSpliceOff.Component.accepts : Accepts parseScheduleComponent
    ProgramSpliceOff.Component.emit fun _ => True := by
  refine (returns_read8 _).bind fun tag n hn => returns_read32.bind fun time m hm => .pure ?_
  subst hn hm
  exact ⟨rfl, trivial⟩

theorem Splice.accepts (flag : Bool) :
    Accepts (parseSpliceScheduleEventProgramSplice flag) Splice.emit Splice.Fits := by
  cases flag with
  | true =>
      refine returns_read32.bind fun time n hn => .pure ?_
      subst hn
      exact ⟨rfl, trivial⟩
  | false =>
      refine (returns_parseComponents ProgramSpliceOff.Component.accepts).bind fun xs n h =>
        .pure ?_
      obtain ⟨rfl, hcount, -⟩ := h
      refine ⟨?_, hcount⟩
      show _ = (write8 _ ++ _).length
      rw [List.length_append, write8_length, Nat.add_zero]

theorem CancelOff.accepts : Accepts parseScheduleCancelOff CancelOff.emit CancelOff.Fits := by
  refine (returns_scanFlag _).bind fun outOfNetwork n0 h0 => ?_
  refine (returns_scanFlag _).bind fun programSplice n1 h1 => ?_
  refine (returns_scanFlag _).bind fun duration n2 h2 => ?_
  refine (returns_read8 _).bind fun _ n3 h3 => ?_
  refine (Splice.accepts programSplice).bind fun splice n4 h4 => ?_
  refine (returns_parseOptional BreakDuration.accepts duration).bind fun breakDuration n5 h5 => ?_
  refine returns_read16.bind fun uniqueProgramId n6 h6 => ?_
  refine (returns_read8 _).bind fun availNum n7 h7 => ?_
  refine (returns_read8 _).bind fun availsExpected n8 h8 => .pure ?_
  obtain ⟨h4, hsplice⟩ := h4
  obtain ⟨h5, -, hbreak⟩ := h5
  refine ⟨?_, hsplice, hbreak⟩
  simp only [CancelOff.emit, List.length_append, write8_length, write16_length]
  omega

theorem Event.accepts : Accepts parseSpliceScheduleEvent Event.emit Event.Fits := by
  refine returns_read32.bind fun id n0 h0 => (returns_scanFlag _).bind fun cancel n1 h1 => ?_
  refine (returns_read8 _).bind fun _ n2 h2 => ?_
  refine (returns_parseOptional CancelOff.accepts (!cancel)).bind fun more n3 h3 => .pure ?_
  obtain ⟨h3, -, hmore⟩ := h3
  refine ⟨?_, hmore⟩
  cases more <;>
    · simp only [Event.emit, List.length_append, write32_length, write8_length]
      simp only [emitOptional, List.length_nil] at h3
      omega

end SpliceSchedule

theorem SpliceSchedule.accepts :
    Accepts parseSpliceSchedule SpliceSchedule.emit SpliceSchedule.Fits := by
  refine (returns_read8 _).bind fun count n hn => ?_
  refine (returns_times Event.accepts count).bind fun events m hm => .pure ?_
  obtain ⟨hm, hcount, hall⟩ := hm
  have hlt := count.toNat_lt
  refine ⟨?_, (show events.length ≤ 255 by omega), hall⟩
  rw [SpliceSchedule.emit, List.length_append, write8_length]
  show _ = 1 + (events.flatMap Event.emit).length
  omega

namespace SpliceInsert

theorem CancelOff.Component.accepts (immediate : Bool) :
    Accepts (parseInsertComponent immediate) CancelOff.Component.emit
      (CancelOff.Component.Fits immediate) := by
  refine (returns_read8 _).bind fun tag n hn => ?_
  refine (returns_parseOptional SpliceTime.accepts (!immediate)).bind fun time m hm => .pure ?_
  obtain ⟨hm, hsome, htime⟩ := hm
  refine ⟨?_, hsome, htime⟩
  rw [CancelOff.Component.emit, List.length_append, write8_length]
  show _ = 1 + (emitOptional SpliceTime.emit time).length
  omega

theorem CancelOff.accepts : Accepts parseInsertCancelOff CancelOff.emit CancelOff.Fits := by
  refine (returns_scanFlag _).bind fun outOfNetwork n0 h0 => ?_
  refine (returns_scanFlag _).bind fun programSplice n1 h1 => ?_
  refine (returns_scanFlag _).bind fun duration n2 h2 => ?_
  refine (returns_scanFlag _).bind fun immediate n3 h3 => ?_
  refine (returns_read8 _).bind fun _ n4 h4 => ?_
  refine (returns_parseOptional SpliceTime.accepts _).bind fun spliceTime n5 h5 => ?_
  have hcomponents : Accepts (parseComponents (parseInsertComponent immediate))
      CancelOff.emitComponents fun xs => CountFits xs ∧ ∀ x ∈ xs, x.Fits immediate := by
    refine (returns_parseComponents (CancelOff.Component.accepts immediate)).mono fun xs n h => ?_
    obtain ⟨rfl, hcount, hall⟩ := h
    exact ⟨by rw [CancelOff.emitComponents, List.length_append, write8_length], hcount, hall⟩
  refine (returns_parseOptional hcomponents _).bind fun components n6 h6 => ?_
  refine (returns_parseOptional BreakDuration.accepts duration).bind fun breakDuration n7 h7 => ?_
  refine returns_read16.bind fun uniqueProgramId n8 h8 => ?_
  refine (returns_read8 _).bind fun availNum n9 h9 => ?_
  refine (returns_read8 _).bind fun availsExpected n10 h10 => .pure ?_
  obtain ⟨rfl, htimeSome, htime⟩ := h5
  obtain ⟨rfl, hcomponentsSome, hall⟩ := h6
  obtain ⟨rfl, -, hbreak⟩ := h7
  subst h0 h1 h2 h3 h4 h8 h9 h10
  refine ⟨?_, htimeSome, hcomponentsSome, htime, fun xs hxs => (hall xs hxs).1,
    fun xs hxs => (hall xs hxs).2, hbreak⟩
  simp only [CancelOff.emit, List.length_append, write8_length, write16_length]
  omega

end SpliceInsert

theorem SpliceInsert.accepts : Accepts parseSpliceInsert SpliceInsert.emit SpliceInsert.Fits := by
  refine returns_read32.bind fun id n0 h0 => (returns_scanFlag _).bind fun cancel n1 h1 => ?_
  refine (returns_read8 _).bind fun _ n2 h2 => ?_
  refine (returns_parseOptional CancelOff.accepts (!cancel)).bind fun more n3 h3 => .pure ?_
  obtain ⟨h3, -, hmore⟩ := h3
  refine ⟨?_, hmore⟩
  cases more <;>
    · simp only [SpliceInsert.emit, List.length_append, write32_length, write8_length]
      simp only [emitOptional, List.length_nil] at h3
      omega

theorem Command.accepts {type : UInt8} (n : Nat) (htype : type ≠ CommandType.privateCommand) :
    Returns (parseCommand type n) fun command k =>
      (k = command.emit.length ∧ command.Fits) ∧ ∀ c, command ≠ .privateCommand c := by
  unfold parseCommand
  split_ifs
  · exact .pure ⟨⟨rfl, trivial⟩, fun c hc => by cases hc⟩
  · exact SpliceSchedule.accepts.map fun command k h => ⟨h, fun c hc => by cases hc⟩
  · exact SpliceInsert.accepts.map fun command k h => ⟨h, fun c hc => by cases hc⟩
  · refine Returns.map ?_ fun command k h => ⟨h, fun c hc => by cases hc⟩
    exact SpliceTime.accepts.bind fun time k h => .pure h
  · exact .pure ⟨⟨rfl, trivial⟩, fun c hc => by cases hc⟩
  · intro s a t h
    cases h

/-! ## Descriptors -/

/-- A copy and a move over the bytes that were copied. -/
theorem returns_copyRange {α : Type} (last : Int) (f : Bytes → α) :
    Returns (copyRange 0 last >>= fun bytes => advance last.toNat >>= fun _ => pure (f bytes))
      fun a n => ∃ bytes, a = f bytes ∧ n = bytes.length ∧ (bytes.length : Int) = last := by
  intro s a t h
  obtain ⟨bytes, s', hcopy, h⟩ := run_bind_eq_ok h
  change (if last < 0 then Except.error Fault.lengthError
    else if last ≤ s.length then .ok ((s.take last.toNat).drop 0, s)
    else .error .outOfBounds) = _ at hcopy
  split_ifs at hcopy with hneg hfit
  cases hcopy
  rw [run_bind_of_ok (advance_run ..)] at h
  cases h
  have hlen : ((s.take last.toNat).drop 0).length = last.toNat := by
    rw [List.drop_zero, List.length_take]
    omega
  exact ⟨last.toNat, by rw [List.length_drop]; omega, _, rfl, hlen.symm, by omega⟩

theorem AvailDescriptor.accepts (tag length : UInt8) (id : UInt32) :
    Returns (parseAvailDescriptor tag length id) fun d n => n + 6 = d.emit.length := by
  refine returns_testConst.bind fun _ n0 h0 => returns_testConst.bind fun _ n1 h1 => ?_
  refine returns_testConst.bind fun _ n2 h2 => returns_read32.bind fun avail n3 h3 => .pure ?_
  show _ = 10
  omega

theorem DtmfDescriptor.accepts (tag length : UInt8) (id : UInt32) :
    Returns (parseDtmfDescriptor tag length id) fun d n =>
      n + 6 = d.emit.length ∧ d.dtmfChars.length ≤ 7 := by
  have hcount : ∀ b : UInt8, ((b &&& 0b11100000) >>> 5).toNat ≤ 7 := by decide
  refine returns_testConst.bind fun _ n0 h0 => returns_testConst.bind fun _ n1 h1 => ?_
  refine (returns_read8 _).bind fun preroll n2 h2 => ?_
  refine (looks_scan8 _).returns.bind fun countByte n3 h3 =>
    (returns_read8 _).bind fun _ n4 h4 => ?_
  refine returns_testConst.bind fun _ n5 h5 => returns_available.bind fun _ n6 h6 => ?_
  refine returns_testConst.bind fun _ n7 h7 => ?_
  refine (returns_copyRange _ fun chars => DtmfDescriptor.mk preroll chars).mono fun d n8 h8 => ?_
  obtain ⟨h3, b, rfl⟩ := h3
  obtain ⟨chars, rfl, rfl, hchars⟩ := h8
  have hle := hcount b
  have hlen := Descriptor.emit_length (.dtmf ⟨preroll, chars⟩)
  change _ = 8 + chars.length at hlen
  refine ⟨?_, (show chars.length ≤ 7 by omega)⟩
  change _ = (Descriptor.emit (.dtmf ⟨preroll, chars⟩)).length
  omega

theorem SegmentationDescriptor.accepts (tag length : UInt8) (id : UInt32) :
    Returns (parseSegmentationDescriptor tag length id) fun d n =>
      n + 6 = d.emit.length ∧ d.data.length ≤ 251 := by
  refine returns_testConst.bind fun _ n0 h0 => returns_testConst.bind fun _ n1 h1 => ?_
  refine returns_available.bind fun _ n2 h2 => returns_testConst.bind fun _ n3 h3 => ?_
  refine (returns_copyRange _ SegmentationDescriptor.mk).mono fun d n4 h4 => ?_
  obtain ⟨data, rfl, rfl, hdata⟩ := h4
  have hlt := length.toNat_lt
  have hlen := Descriptor.emit_length (.segmentation ⟨data⟩)
  change _ = 6 + data.length at hlen
  refine ⟨?_, (show data.length ≤ 251 by omega)⟩
  change _ = (Descriptor.emit (.segmentation ⟨data⟩)).length
  omega

theorem TimeDescriptor.accepts (order : EvalOrder) (tag length : UInt8) (id : UInt32) :
    Returns (parseTimeDescriptor order tag length id) fun d n =>
      n + 6 = d.emit.length ∧ d.taiSeconds.toNat < 2 ^ 48 := by
  have hseconds := returns_read48 order.sum
  refine returns_testConst.bind fun _ n0 h0 => returns_testConst.bind fun _ n1 h1 => ?_
  refine returns_testConst.bind fun _ n2 h2 => ?_
  have hall (d : TimeDescriptor) (hd : d.taiSeconds.toNat < 2 ^ 48) {m : Nat} (hm : m = 12) :
      n0 + (n1 + (n2 + m)) + 6 = d.emit.length ∧ d.taiSeconds.toNat < 2 ^ 48 := by
    refine ⟨?_, hd⟩
    show _ = 18
    omega
  cases order.args with
  | abc =>
      exact hseconds.bind fun a _ ha => returns_read32.bind fun b _ hb => returns_read16.bind
        fun c _ hc => .pure (hall ⟨a, b, c⟩ ha.2 (by omega))
  | acb =>
      exact hseconds.bind fun a _ ha => returns_read16.bind fun c _ hc => returns_read32.bind
        fun b _ hb => .pure (hall ⟨a, b, c⟩ ha.2 (by omega))
  | bac =>
      exact returns_read32.bind fun b _ hb => hseconds.bind fun a _ ha => returns_read16.bind
        fun c _ hc => .pure (hall ⟨a, b, c⟩ ha.2 (by omega))
  | bca =>
      exact returns_read32.bind fun b _ hb => returns_read16.bind fun c _ hc => hseconds.bind
        fun a _ ha => .pure (hall ⟨a, b, c⟩ ha.2 (by omega))
  | cab =>
      exact returns_read16.bind fun c _ hc => hseconds.bind fun a _ ha => returns_read32.bind
        fun b _ hb => .pure (hall ⟨a, b, c⟩ ha.2 (by omega))
  | cba =>
      exact returns_read16.bind fun c _ hc => returns_read32.bind fun b _ hb => hseconds.bind
        fun a _ ha => .pure (hall ⟨a, b, c⟩ ha.2 (by omega))

theorem Descriptor.accepts (order : EvalOrder) :
    Accepts (parseDescriptor order) Descriptor.emit Descriptor.Fits := by
  refine (returns_read8 _).bind fun tag n0 h0 => (returns_read8 _).bind fun length n1 h1 => ?_
  refine returns_available.bind fun _ n2 h2 => returns_testConst.bind fun _ n3 h3 => ?_
  refine returns_read32.bind fun id n4 h4 => ?_
  have hall {d : Descriptor} {m : Nat} (hm : m + 6 = d.emit.length) :
      n0 + (n1 + (n2 + (n3 + (n4 + m)))) = d.emit.length := by omega
  unfold parseDescriptorBody
  split_ifs
  · exact (AvailDescriptor.accepts tag length id).map fun d m h => ⟨hall h, trivial⟩
  · exact (DtmfDescriptor.accepts tag length id).map fun d m h => ⟨hall h.1, h.2⟩
  · exact (SegmentationDescriptor.accepts tag length id).map fun d m h => ⟨hall h.1, h.2⟩
  · exact (TimeDescriptor.accepts order tag length id).map fun d m h => ⟨hall h.1, h.2⟩
  · intro s a t h
    cases h

theorem descriptorsLoop_accepts (order : EvalOrder) (n : Nat) :
    Accepts (parseDescriptorsLoop order n) (fun ds => ds.flatMap Descriptor.emit)
      fun ds => ∀ d ∈ ds, d.Fits := by
  induction n with
  | zero => exact .pure ⟨rfl, fun d hd => absurd hd List.not_mem_nil⟩
  | succ n ih =>
      refine returns_available.bind fun left m hm => ?_
      subst hm
      split_ifs with hempty
      · exact .pure ⟨rfl, fun d hd => absurd hd List.not_mem_nil⟩
      · refine (Descriptor.accepts order).bind fun d k hd => ih.bind fun ds l hds => .pure ?_
        obtain ⟨rfl, hd⟩ := hd
        obtain ⟨rfl, hds⟩ := hds
        refine ⟨?_, List.forall_mem_cons.mpr ⟨hd, hds⟩⟩
        show _ = ((d :: ds).flatMap Descriptor.emit).length
        rw [List.flatMap_cons, List.length_append, Nat.zero_add, Nat.add_zero]

/-! ## The section -/

theorem parseSectionHeader_accepts : Returns parseSectionHeader fun header n =>
    n = 11 ∧ header.encryptionAlgorithm.toNat < 2 ^ 6 ∧ header.ptsAdjustment.toNat < 2 ^ 33 ∧
      header.tier.toNat < 2 ^ 12 := by
  have halgorithm : ∀ b : UInt8, ((b &&& 0b01111110) >>> 1).toNat < 2 ^ 6 := by decide
  refine (returns_read8 _).bind fun version n0 h0 => returns_testConst.bind fun _ n1 h1 => ?_
  refine (returns_scanFlag _).bind fun encrypted n2 h2 => ?_
  refine (looks_scan8 _).returns.bind fun algorithmByte n3 h3 => ?_
  split_ifs
  · intro s a t h
    cases h
  · refine returns_read33.bind fun ptsAdjustment n4 h4 => returns_assert.bind fun _ n5 h5 => ?_
    refine (returns_read8 _).bind fun cwIndex n6 h6 => ?_
    refine looks_scan12High.returns.bind fun tier n7 h7 => returns_assert.bind fun _ n8 h8 => ?_
    refine (returns_read8 _).bind fun _ n9 h9 => returns_read12Low.bind fun word n10 h10 => ?_
    refine returns_assert.bind fun _ n11 h11 => (returns_read8 _).bind fun type n12 h12 => .pure ?_
    obtain ⟨rfl, -⟩ := h1
    obtain ⟨rfl, b, rfl⟩ := h3
    obtain ⟨rfl, hpts⟩ := h4
    obtain ⟨rfl, -⟩ := h5
    obtain ⟨rfl, -⟩ := h7
    obtain ⟨rfl, htier⟩ := h8
    obtain ⟨rfl, -⟩ := h11
    subst h0 h2 h6 h9 h10 h12
    exact ⟨rfl, halgorithm b, hpts, Nat.lt_succ_of_le htier⟩

/-- A command that is accepted is not private: no length that a private command may have agrees
with what is taken for it. -/
theorem parseCommandChecked_accepts {type : UInt8} {n : Nat} {c u : Bytes} {command : Command}
    (hc : c.length < 2 ^ 16) (h : (parseCommandChecked type n).run c = .ok (command, u)) :
    c.length = command.emit.length + u.length ∧ command.Fits ∧
      ∀ c, command ≠ .privateCommand c := by
  have hread := ((parseCommandChecked_eq_ok hc).mp h).1
  have htype : type ≠ CommandType.privateCommand := by
    intro htype
    rw [htype] at h hread
    have hlt : n < 0xfff := by
      have hreturns : Returns (parsePrivateCommand n) fun _ _ => n < 0xfff := by
        intro s a t hrun
        obtain ⟨hlt, hlen⟩ := parsePrivateCommand_takes hrun
        exact ⟨4 + n, by omega, hlt⟩
      obtain ⟨_, -, hlt⟩ := (hreturns.map (g := Command.privateCommand) (R := fun _ _ => n < 0xfff)
        fun _ _ h => h) c command u hread
      exact hlt
    exact parseCommandChecked_private hlt _ h
  obtain ⟨k, hk, ⟨rfl, hfits⟩, hprivate⟩ := Command.accepts n htype c command u hread
  exact ⟨hk, hfits, hprivate⟩

theorem parseDescriptorLoop_accepts {order : EvalOrder} {u v : Bytes} {ds : List Descriptor}
    (h : (parseDescriptorLoop order).run u = .ok (ds, v)) :
    u.length = 2 + (ds.flatMap Descriptor.emit).length + v.length ∧ ∀ d ∈ ds, d.Fits := by
  obtain ⟨loopLength, w, rfl, hfit, hrun, rfl⟩ := parseDescriptorLoop_eq_ok.mp h
  obtain ⟨k, hk, rfl, hds⟩ := descriptorsLoop_accepts order _ _ _ _ hrun
  refine ⟨?_, hds⟩
  rw [List.length_take, List.length_nil] at hk
  rw [List.length_append, write16_length, List.length_drop]
  show _ = 2 + (ds.flatMap Descriptor.emit).length + _
  change _ = (ds.flatMap Descriptor.emit).length + 0 at hk
  omega

/-- A section that is packed fits the wire and is written in as many bytes as it has. -/
theorem parseSectionBody_accepts {order : EvalOrder} {bytes body t : Bytes} {s : SpliceInfoSection}
    (hle : body.length ≤ 4093) (h : (parseSectionBody order bytes).run body = .ok (s, t)) :
    s.Fits ∧ s.emit.length = 3 + body.length ∧ ∀ c, s.command ≠ .privateCommand c := by
  unfold parseSectionBody at h
  obtain ⟨header, c, hheader, h⟩ := run_bind_eq_ok h
  obtain ⟨command, u, hcommand, h⟩ := run_bind_eq_ok h
  obtain ⟨descriptors, v, hdescriptors, h⟩ := run_bind_eq_ok h
  obtain ⟨crc, w, hcrc, h⟩ := run_bind_eq_ok h
  obtain ⟨n, hn, rfl, halgorithm, hpts, htier⟩ := parseSectionHeader_accepts _ _ _ hheader
  obtain ⟨hclen, hfits, hprivate⟩ := parseCommandChecked_accepts (by omega) hcommand
  obtain ⟨hulen, hds⟩ := parseDescriptorLoop_accepts hdescriptors
  have hvlen := read32_takes hcrc
  dsimp only at h
  split_ifs at h with hvalue
  · cases h
  · rw [run_bind_of_ok (available_run _), assert_bind_eq_ok] at h
    obtain ⟨hend, h⟩ := h
    cases h
    let s : SpliceInfoSection := ⟨false, header.encryptionAlgorithm, header.ptsAdjustment,
      header.cwIndex, header.tier, command, descriptors⟩
    have hemit : s.emit.length =
        3 + (17 + command.emitSizeHint + descriptorsSizeHint descriptors) + command.unannounced :=
      s.emit_length
    have hcommandLen := command.emit_length
    have hdescriptorsLen := descriptors_length descriptors
    have hsection : s.computeSectionLength ≤ 4093 := by
      show 17 + command.emitSizeHint + descriptorsSizeHint descriptors ≤ 4093
      omega
    refine ⟨⟨rfl, halgorithm, hpts, htier, hfits, hds, hsection⟩, ?_, hprivate⟩
    rw [hemit]
    omega

theorem pack_accepts {order : EvalOrder} {bytes body : Bytes} {flags low : UInt8}
    {s : SpliceInfoSection} (b : BinaryParserBounds)
    (hbytes : bytes = SpliceInfoSection.tableId :: flags :: low :: body)
    (hann : Announces flags low body.length) (hle : body.length ≤ 4093)
    (h : scte35ParserPack order b bytes = .ok s) :
    s.Fits ∧ s.emit.length = 3 + body.length ∧ ∀ c, s.command ≠ .privateCommand c := by
  unfold scte35ParserPack at h
  split_ifs at h with hlong
  have hge : 17 ≤ body.length := by
    have hlen : bytes.length = 3 + body.length := by
      rw [hbytes]
      simp only [List.length_cons]
      omega
    change 20 ≤ bytes.length at hlong
    omega
  rw [parseSection_run hbytes hann hge hle] at h
  cases hrun : (parseSectionBody order bytes).run body with
  | error f =>
      rw [hrun] at h
      cases h
  | ok r =>
      rw [hrun] at h
      cases h
      exact parseSectionBody_accepts hle hrun

theorem next_accepts {order : EvalOrder} {p q : BinaryParser} {s : SpliceInfoSection}
    (h : p.next (scte35Parser order) = (.ok (some s), q)) :
    s.Fits ∧ (∀ c, s.command ≠ .privateCommand c) ∧
      ∃ pointer, q.consumed = p.consumed + ((pointerField pointer).length + s.emit.length) := by
  obtain ⟨bounds, hnext, -, -, hpack, rfl⟩ := (next_eq_some _).mp h
  obtain ⟨-, -, c, body, hframes⟩ := exists_frames hnext
  obtain ⟨hbounds, hbytes⟩ := hframes.next
  obtain rfl : bounds = ⟨(pointerField c).length, 3 + body.length⟩ :=
    Option.some.inj (Except.ok.inj (hnext.symm.trans hbounds))
  have hle := hframes.length_le
  obtain ⟨flags, low, rest, -, hsection, hann, -, -⟩ := hframes
  obtain ⟨hfits, hlen, hprivate⟩ := pack_accepts ⟨0, 0⟩ hsection hann hle hpack
  refine ⟨hfits, hprivate, c, ?_⟩
  rw [hlen]
  rfl

/-- A section survives exactly if all its bytes are announced and they are packed into it. -/
theorem survives_iff_pack {order : EvalOrder} {s : SpliceInfoSection} (h : s.Fits) :
    s.Survives order ↔ s.command.unannounced = 0 ∧
      scte35ParserPack order ⟨0, 3 + s.computeSectionLength⟩ s.emit = .ok s := by
  constructor
  · intro hsurvives
    obtain ⟨hun, hprivate⟩ := commandAnnounced_iff.mp hsurvives.command
    refine ⟨hun, (SpliceInfoSection.pack_emit h hun _).mpr ⟨hprivate, hsurvives.length, ?_,
      hsurvives.descriptors⟩⟩
    exact readTier_eq_self.mpr hsurvives.tier
  · intro hpacks
    obtain ⟨hun, hpack⟩ := hpacks
    obtain ⟨hprivate, hshort, htier, hback⟩ := (SpliceInfoSection.pack_emit h hun _).mp hpack
    exact ⟨commandAnnounced_iff.mpr ⟨hun, hprivate⟩, hshort, readTier_eq_self.mp htier, hback⟩

/-- Every section that a call returns fits the wire, has no private command and is written in as
many bytes as the call has taken, but for a pointer field.  It is read back as it is, by whatever
compiler's order, exactly if it survives. -/
theorem accepted_relays {order : EvalOrder} {p q : BinaryParser} {s : SpliceInfoSection}
    (h : p.next (scte35Parser order) = (.ok (some s), q)) :
    s.Fits ∧ (∀ c, s.command ≠ .privateCommand c) ∧
      (∃ pointer, q.consumed = p.consumed + ((pointerField pointer).length + s.emit.length)) ∧
      ∀ order', s.RoundTrip order' ↔ s.Survives order' := by
  obtain ⟨hfits, hprivate, hconsumed⟩ := next_accepts h
  refine ⟨hfits, hprivate, hconsumed, fun order' => ?_⟩
  rw [SpliceInfoSection.roundTrip_iff_pack hfits, survives_iff_pack hfits]

def nullBytes : Bytes :=
  [252, 48, 17, 0, 0, 0, 0, 0, 0, 255, 255, 240, 0, 0, 0, 0, 118, 29, 211, 182]

def nullSection : SpliceInfoSection := ⟨false, 0, 0, 0xff, 0xfff, .spliceNull, []⟩

/-- The bytes of a splice insert with an avail and a segmentation descriptor. -/
def breakBytes : Bytes :=
  [252, 48, 55, 0, 0, 0, 0, 0, 0, 255, 255, 240, 20, 5, 0, 0, 0, 7, 127, 239, 254, 0, 13, 187, 160,
    128, 0, 41, 50, 224, 0, 1, 1, 2, 0, 18, 0, 8, 67, 85, 69, 73, 0, 0, 0, 7, 2, 6, 67, 85, 69, 73,
    1, 2, 247, 150, 59, 155]

def breakSection : SpliceInfoSection :=
  ⟨false, 0, 0, 0xff, 0xfff, .spliceInsert ⟨7, some ⟨true, true, false, some ⟨some 900000⟩, none,
    some ⟨true, 2700000⟩, 1, 1, 2⟩⟩, [.avail ⟨7⟩, .segmentation ⟨[1, 2]⟩]⟩

/-- A splice insert behind a pointer field is relayed. -/
theorem accepted_relays_break : breakSection.Fits ∧ breakSection.emit.length = 58 ∧
    (breakSection.RoundTrip ⟨.cba, .rightFirst⟩ ↔ breakSection.Survives ⟨.cba, .rightFirst⟩) := by
  have hnext : (create (0 :: breakBytes)).next (scte35Parser ⟨.abc, .leftFirst⟩) =
      (.ok (some breakSection), ⟨59, []⟩) := by decide +kernel
  exact ⟨(accepted_relays hnext).1, by decide, (accepted_relays hnext).2.2.2 _⟩

/-! ## Whole packets -/

/-- A section in front of other bytes is read back exactly if it survives: where too few bytes are
announced for it, what is read is shorter than what was written. -/
theorem emit_append_splits_iff {order : EvalOrder} {s : SpliceInfoSection} (hs : s.Fits)
    {ss : List SpliceInfoSection} {rest : Bytes} :
    Splits (scte35Parser order) (s :: ss) (s.emit ++ rest) ↔
      s.Survives order ∧ Splits (scte35Parser order) ss rest := by
  obtain ⟨flags, low, hann, hemit⟩ := SpliceInfoSection.emit_eq hs.length
  have hlen := s.emit_length_eq
  have htail : (s.emitRest ++ write32 (CRC32.compute s.emitBody).value).length =
      s.computeSectionLength + s.command.unannounced := by
    rw [List.length_append, write32_length, s.emitRest_length]
  generalize s.emitRest ++ write32 (CRC32.compute s.emitBody).value = tail at hemit htail
  have hbytes : s.emit ++ rest = SpliceInfoSection.tableId :: flags :: low :: (tail ++ rest) := by
    rw [hemit]
    rfl
  have hnext : scte35ParserNext (s.emit ++ rest) =
      .ok (some ⟨0, 3 + s.computeSectionLength⟩) := by
    refine scte35ParserNext_eq_some.mpr ⟨false, flags, low, tail ++ rest, _, hbytes, hann, ?_,
      hs.length, ?_, rfl⟩
    · unfold SpliceInfoSection.computeSectionLength
      omega
    · rw [List.length_append]
      omega
  have hwhole : s.command.unannounced = 0 →
      (s.emit ++ rest).take (3 + s.computeSectionLength) = s.emit ∧
        (s.emit ++ rest).drop (3 + s.computeSectionLength) = rest := by
    intro hun
    exact ⟨List.take_left' (by omega), List.drop_left' (by omega)⟩
  rw [survives_iff_pack hs]
  constructor
  · intro h
    obtain ⟨bounds, hb, -, -, hpack, hrest⟩ := h
    obtain rfl : ⟨0, 3 + s.computeSectionLength⟩ = bounds :=
      Option.some.inj (Except.ok.inj (hnext.symm.trans hb))
    change scte35ParserPack order ⟨0, 3 + s.computeSectionLength⟩
      ((s.emit ++ rest).take (3 + s.computeSectionLength)) = .ok s at hpack
    change Splits _ ss ((s.emit ++ rest).drop (0 + (3 + s.computeSectionLength))) at hrest
    have hun : s.command.unannounced = 0 := by
      have hcut : ((tail ++ rest).take s.computeSectionLength).length = s.computeSectionLength := by
        rw [List.length_take, List.length_append]
        omega
      have hsection : (s.emit ++ rest).take (3 + s.computeSectionLength) =
          SpliceInfoSection.tableId :: flags :: low ::
            (tail ++ rest).take s.computeSectionLength := by
        rw [hbytes, Nat.add_comm]
        rfl
      obtain ⟨-, hwritten, -⟩ := pack_accepts _ hsection (by rw [hcut]; exact hann)
        (by rw [hcut]; exact hs.length) hpack
      omega
    obtain ⟨htake, hdrop⟩ := hwhole hun
    rw [htake] at hpack
    rw [Nat.zero_add, hdrop] at hrest
    exact ⟨⟨hun, hpack⟩, hrest⟩
  · intro h
    obtain ⟨⟨hun, hpack⟩, hrest⟩ := h
    obtain ⟨htake, hdrop⟩ := hwhole hun
    refine ⟨⟨0, 3 + s.computeSectionLength⟩, hnext, ?_, Nat.lt_of_lt_of_le (by decide)
      (Nat.le_add_right 3 _), ?_, ?_⟩
    · show 0 + (3 + s.computeSectionLength) ≤ (s.emit ++ rest).length
      rw [List.length_append]
      omega
    · show scte35ParserPack order ⟨0, 3 + s.computeSectionLength⟩
        ((s.emit ++ rest).take (3 + s.computeSectionLength)) = .ok s
      rw [htake]
      exact hpack
    · show Splits _ ss ((s.emit ++ rest).drop (0 + (3 + s.computeSectionLength)))
      rw [Nat.zero_add, hdrop]
      exact hrest

theorem fits_of_splits {order : EvalOrder} {ss : List SpliceInfoSection} {data : Bytes}
    (h : Splits (scte35Parser order) ss data) : ∀ s ∈ ss, s.Fits := by
  induction ss generalizing data with
  | nil => exact fun s hs => absurd hs List.not_mem_nil
  | cons s ss ih =>
      obtain ⟨bounds, hnext, hle, hpos, hpack, hrest⟩ := h
      have hcall : (create data).next (scte35Parser order) = (.ok (some s), _) :=
        (next_eq_some _).mpr ⟨bounds, hnext, hle, hpos, hpack, rfl⟩
      exact List.forall_mem_cons.mpr ⟨(next_accepts hcall).1, ih hrest⟩

/-- A packet that is drained into sections, written again and drained once more, by whatever
compiler's order, gives the same sections exactly if every one of them survives. -/
theorem relay_drained_iff {order : EvalOrder} {data : Bytes} {ss : List SpliceInfoSection}
    (h : drain (scte35Parser order) data = (ss, none)) (order' : EvalOrder) :
    drain (scte35Parser order') (ss.flatMap SpliceInfoSection.emit) = (ss, none) ↔
      ∀ s ∈ ss, s.Survives order' := by
  have hfits := fits_of_splits ((drain_eq_none _).mp h)
  clear h
  rw [drain_eq_none]
  induction ss with
  | nil => exact iff_of_true rfl fun s hs => absurd hs List.not_mem_nil
  | cons s ss ih =>
      obtain ⟨hs, hss⟩ := List.forall_mem_cons.mp hfits
      rw [List.flatMap_cons, emit_append_splits_iff hs, List.forall_mem_cons]
      exact and_congr_right fun _ => ih hss

/-- A packet that holds a splice insert behind a pointer field, and a splice null. -/
theorem relay_drained_break :
    drain (scte35Parser ⟨.abc, .leftFirst⟩)
        ([breakSection, nullSection].flatMap SpliceInfoSection.emit) =
        ([breakSection, nullSection], none) ↔
      ∀ s ∈ [breakSection, nullSection], s.Survives ⟨.abc, .leftFirst⟩ :=
  relay_drained_iff (show drain (scte35Parser ⟨.abc, .leftFirst⟩) (0 :: breakBytes ++ nullBytes) =
    ([breakSection, nullSection], none) by decide +kernel) _

end Scte35
end Metamix
