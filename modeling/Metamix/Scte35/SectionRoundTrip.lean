/-
A whole section, written and read back.

`roundTrip_iff` is the exact condition for a section to survive the way through `emit` and
`Scte35Parser`: the command's length is announced in full and in one byte, the tier is not
overwritten by it, and every part comes back.
-/
import Metamix.Scte35.Hints
import Metamix.Scte35.DescriptorLoop

namespace Metamix
namespace Scte35

open Lib Lib.Reader Binary BinaryParser

namespace SpliceInfoSection

structure Fits (s : SpliceInfoSection) : Prop where
  unencrypted : s.encryptedPacket = false
  encryptionAlgorithm : s.encryptionAlgorithm.toNat < 2 ^ 6
  ptsAdjustment : s.ptsAdjustment.toNat < 2 ^ 33
  tier : s.tier.toNat < 2 ^ 12
  command : s.command.Fits
  descriptors : ∀ d ∈ s.descriptors, d.Fits
  length : s.computeSectionLength ≤ 4093

def RoundTrip (order : EvalOrder) (s : SpliceInfoSection) : Prop :=
  (create s.emit).next (scte35Parser order) = (.ok (some s), ⟨s.emit.length, []⟩)

/-- The command is one that is read back, and its length is announced in full. -/
def CommandAnnounced : Command → Prop
  | .spliceSchedule command => ∀ event ∈ command.events, event.more = none
  | .privateCommand _ => False
  | _ => True

structure Survives (order : EvalOrder) (s : SpliceInfoSection) : Prop where
  command : CommandAnnounced s.command
  length : s.command.emitSizeHint < 256
  tier : s.tier.toNat % 16 ||| s.command.emitSizeHint / 16 % 16 = s.tier.toNat % 16
  descriptors : ∀ d ∈ s.descriptors, d.ReadsBack order

end SpliceInfoSection

/-! ## The packed fields -/

theorem announces_write12Prefix {n : Nat} (h : n ≤ 4093) : ∃ flags low,
    write12Prefix ((SpliceInfoSection.sectionSyntaxIndicator.toUInt8 <<< 3) |||
      (SpliceInfoSection.privateIndicator.toUInt8 <<< 2) ||| 0x03) (UInt16.ofNat n) =
      [flags, low] ∧ Announces flags low n := by
  have hclear : ∀ f : UInt8, f.toNat < 64 → f &&& 0b10000000 = 0 ∧ f &&& 0b01000000 = 0 := by decide
  have hword : (UInt16.ofNat n).toNat = n := by
    rw [UInt16.toNat_ofNat', Nat.mod_eq_of_lt (by omega)]
  obtain ⟨flags, low, hbytes, _, hflags, hlow⟩ := write12Prefix_bytes
    ((SpliceInfoSection.sectionSyntaxIndicator.toUInt8 <<< 3) |||
      (SpliceInfoSection.privateIndicator.toUInt8 <<< 2) ||| 0x03) (UInt16.ofNat n)
  rw [hword] at hflags hlow
  have hnum : flags.toNat = 48 + n / 256 % 16 := hflags
  obtain ⟨h1, h2⟩ := hclear flags (by omega)
  refine ⟨flags, low, hbytes, h1, h2, ?_⟩
  rw [hnum, hlow]
  omega

/-- The tier that is read back: its low digit is mixed with one of the command length. -/
def readTier (tier hint : Nat) : Nat := tier / 16 * 16 + (tier % 16 ||| hint / 16 % 16)

theorem readTier_eq_self {tier hint : Nat} :
    readTier tier hint = tier ↔ tier % 16 ||| hint / 16 % 16 = tier % 16 := by
  have hlt : (tier % 16 ||| hint / 16 % 16) < 2 ^ 4 := Nat.or_lt_two_pow (by omega) (by omega)
  unfold readTier
  omega

/-! ## The header -/

namespace SpliceInfoSection

def emitRest (s : SpliceInfoSection) : Bytes :=
  write8 protocolVersion ++ (write33Prefix ((s.encryptedPacket.toUInt8 <<< 7) |||
      ((s.encryptionAlgorithm <<< 1) &&& 0x7e)) s.ptsAdjustment ++
    (write8 s.cwIndex ++ (write12Pair s.tier (UInt16.ofNat s.command.emitSizeHint) ++
      (write8 s.command.type ++ (s.command.emit ++
        (write16 (UInt16.ofNat (descriptorsSizeHint s.descriptors)) ++
          s.descriptors.flatMap Descriptor.emit))))))

/-- A section is its header, as the parser looks for it, and the rest. -/
theorem emit_eq {s : SpliceInfoSection} (h : s.computeSectionLength ≤ 4093) :
    ∃ flags low, Announces flags low s.computeSectionLength ∧
      s.emit = tableId :: flags :: low :: (s.emitRest ++
        write32 (CRC32.compute s.emitBody).value) := by
  obtain ⟨flags, low, hbytes, hann⟩ := announces_write12Prefix h
  have hbody : s.emitBody = tableId :: flags :: low :: s.emitRest := by
    rw [emitBody, hbytes]
    rfl
  refine ⟨flags, low, hann, ?_⟩
  rw [emit]
  generalize write32 (CRC32.compute s.emitBody).value = crc
  rw [hbody]
  rfl

theorem emitRest_length (s : SpliceInfoSection) :
    s.emitRest.length + 4 = s.computeSectionLength + s.command.unannounced := by
  unfold emitRest computeSectionLength
  simp only [List.length_append, write8_length, write33Prefix_length, write12Pair_length,
    write16_length, s.command.emit_length, descriptors_length]
  omega

theorem emit_length_eq (s : SpliceInfoSection) :
    s.emit.length = 3 + s.computeSectionLength + s.command.unannounced := s.emit_length

/-- The bounds that are found for a section do not see what its length leaves out. -/
theorem next_emit {s : SpliceInfoSection} (h : s.computeSectionLength ≤ 4093) :
    scte35ParserNext s.emit = .ok (some ⟨0, 3 + s.computeSectionLength⟩) := by
  obtain ⟨flags, low, hann, hemit⟩ := emit_eq h
  have hlen := s.emitRest_length
  refine scte35ParserNext_eq_some.mpr ⟨false, flags, low, _, _, hemit, hann, ?_, h, ?_, rfl⟩
  · simp only [computeSectionLength]
    omega
  · rw [List.length_append, write32_length]
    omega

end SpliceInfoSection

/-- What the parser makes of the fields in front of the command. -/
theorem parseSectionHeader_emit {s : SpliceInfoSection} (h : s.Fits) (t : Bytes) :
    ∃ header, parseSectionHeader.run (write8 SpliceInfoSection.protocolVersion ++
        (write33Prefix ((s.encryptedPacket.toUInt8 <<< 7) |||
          ((s.encryptionAlgorithm <<< 1) &&& 0x7e)) s.ptsAdjustment ++
        (write8 s.cwIndex ++ (write12Pair s.tier (UInt16.ofNat s.command.emitSizeHint) ++
          (write8 s.command.type ++ t))))) = .ok (header, t) ∧
      header.encryptionAlgorithm = s.encryptionAlgorithm ∧
      header.ptsAdjustment = s.ptsAdjustment ∧ header.cwIndex = s.cwIndex ∧
      header.tier.toNat = readTier s.tier.toNat s.command.emitSizeHint ∧
      header.commandLength = s.command.emitSizeHint % 256 ∧
      header.commandType = s.command.type := by
  have hhint : (UInt16.ofNat s.command.emitSizeHint).toNat = s.command.emitSizeHint := by
    have hlen := h.length
    unfold SpliceInfoSection.computeSectionLength at hlen
    rw [UInt16.toNat_ofNat', Nat.mod_eq_of_lt (by omega)]
  have hprefix : ∀ a : UInt8, a.toNat < 2 ^ 6 →
      ((false.toUInt8 <<< 7) ||| ((a <<< 1) &&& 0x7e)) &&& 0b10000000 = 0 ∧
        (((false.toUInt8 <<< 7) ||| ((a <<< 1) &&& 0x7e)) &&& 0b01111110) >>> 1 = a := by decide
  obtain ⟨hclear, halgorithm⟩ := hprefix _ h.encryptionAlgorithm
  obtain ⟨b0, b1, b2, hpair, hb0, hb1, hb2⟩ :=
    write12Pair_bytes s.tier (UInt16.ofNat s.command.emitSizeHint)
  have hor : (s.tier.toNat % 16 ||| s.command.emitSizeHint / 16 % 16) < 2 ^ 4 :=
    Nat.or_lt_two_pow (by omega) (by omega)
  rw [hhint] at hb1 hb2
  have htier : ((b0.toUInt16 <<< 4) + ((b1 &&& 0xf0) >>> 4).toUInt16).toNat =
      readTier s.tier.toNat s.command.emitSizeHint := by
    have := h.tier
    rw [toNat_high12, hb0, hb1, readTier]
    omega
  have hlength : (((b1.toUInt16 &&& 0x0f) <<< 8) + b2.toUInt16).toNat =
      s.command.emitSizeHint % 256 := by
    rw [toNat_low12, hb1, hb2]
    omega
  have htierLt : ((b0.toUInt16 <<< 4) + ((b1 &&& 0xf0) >>> 4).toUInt16).toNat ≤ 0xfff := by
    have := h.tier
    rw [htier, readTier]
    omega
  rw [hpair, h.unencrypted]
  unfold parseSectionHeader
  rw [run_bind_of_ok (read8_reads _ _), run_bind_of_ok (testConst_run _ _ _ _ _ rfl),
    run_bind_of_ok (scanFlag_run_write33Prefix _ _ rfl),
    run_bind_of_ok (scan8_run_write33Prefix _ _ _ _ rfl), hclear, halgorithm]
  simp only [bne_self_eq_false, Bool.false_eq_true, if_false]
  rw [run_bind_of_ok (read33_reads h.ptsAdjustment _),
    run_bind_of_ok (assert_run (Nat.le_of_lt h.ptsAdjustment)),
    run_bind_of_ok (read8_reads _ _)]
  simp only [List.cons_append, List.nil_append]
  rw [run_bind_of_ok (scan12High_run ..), run_bind_of_ok (assert_run htierLt),
    run_bind_of_ok (read8_run ..), run_bind_of_ok (read12Low_run ..),
    run_bind_of_ok (assert_run (by rw [hlength]; omega)), run_bind_of_ok (read8_reads _ _)]
  exact ⟨_, rfl, rfl, rfl, rfl, htier, hlength, rfl⟩

/-! ## The command -/

theorem copyRange_eq_ok {first last : Int} {s t : Bytes} {bytes : Bytes}
    (h : (copyRange first last).run s = .ok (bytes, t)) : t = s ∧ last ≤ s.length := by
  change (if last < first then Except.error Fault.lengthError
    else if last ≤ s.length then .ok ((s.take last.toNat).drop first.toNat, s)
    else .error .outOfBounds) = _ at h
  split at h
  · cases h
  · split at h
    · rename_i hle
      exact ⟨(Prod.mk.inj (Except.ok.inj h)).2.symm, hle⟩
    · cases h

/-- A private command that is parsed takes four bytes more than its length. -/
theorem parsePrivateCommand_takes {n : Nat} {s t : Bytes} {command : PrivateCommand}
    (h : (parsePrivateCommand n).run s = .ok (command, t)) :
    n < 0xfff ∧ s.length = t.length + (4 + n) := by
  rw [parsePrivateCommand, testConst_bind_eq_ok, testConst_bind_eq_ok] at h
  obtain ⟨_, hlt, hread⟩ := h
  obtain ⟨identifier, s1, hid, hrest⟩ := run_bind_eq_ok hread
  rw [run_bind_of_ok (available_run s1)] at hrest
  split_ifs at hrest with hover
  · cases hrest
  obtain ⟨bytes, s2, hcopy, hlast⟩ := run_bind_eq_ok hrest
  obtain ⟨rfl, hle⟩ := copyRange_eq_ok hcopy
  have hlen := read32_takes hid
  have hdrop : s2.drop n = t := by
    rw [run_bind_of_ok (advance_run n s2)] at hlast
    exact (Prod.mk.inj (Except.ok.inj hlast)).2
  rw [← hdrop, List.length_drop]
  exact ⟨hlt, by omega⟩

/-- What is left of `parseCommandChecked` once the command has been parsed. -/
theorem parseCommandChecked_of_run {type : UInt8} {n : Nat} {s t : Bytes} {command : Command}
    (hn : n < 0xfff) (hlt : n < s.length)
    (hrun : (parseCommand type n).run s = .ok (command, t)) (r : Command × Bytes) :
    (parseCommandChecked type n).run s = .ok r ↔
      (s.length - t.length) % 2 ^ 16 = n ∧ r = (command, t) := by
  have hne : n ≠ 0xfff := Nat.ne_of_lt hn
  rw [parseCommandChecked, run_bind_of_ok (available_run _)]
  simp only [hne, ne_eq, not_false_eq_true, if_true, true_and]
  rw [run_bind_of_ok (testConst_run _ _ _ _ _ hlt), run_bind_of_ok hrun,
    run_bind_of_ok (available_run _)]
  by_cases hlen : (s.length - t.length) % 2 ^ 16 = n
  · rw [if_neg (not_not_intro hlen), and_iff_right hlen]
    exact ⟨fun h => (Except.ok.inj h).symm, fun h => congrArg Except.ok h.symm⟩
  · rw [if_pos hlen, iff_false_intro hlen, false_and]
    refine iff_of_false (fun h => ?_) id
    cases h

/-- No private command gets past the check of its length. -/
theorem parseCommandChecked_private {n : Nat} {s : Bytes} (hn : n < 0xfff)
    (r : Command × Bytes) :
    (parseCommandChecked CommandType.privateCommand n).run s ≠ .ok r := by
  intro h
  have hne : n ≠ 0xfff := Nat.ne_of_lt hn
  have hall := h
  rw [parseCommandChecked, run_bind_of_ok (available_run _)] at h
  simp only [hne, ne_eq, not_false_eq_true, if_true] at h
  rw [testConst_bind_eq_ok] at h
  obtain ⟨hlt, h⟩ := h
  obtain ⟨command, t, hrun, _⟩ := run_bind_eq_ok h
  have hprivate : ∃ c, (parsePrivateCommand n).run s = .ok (c, t) := by
    have hmap : parseCommand CommandType.privateCommand n =
        Command.privateCommand <$> parsePrivateCommand n := rfl
    rw [hmap, StateT.run_map] at hrun
    cases hp : (parsePrivateCommand n).run s with
    | error f =>
        rw [hp] at hrun
        cases hrun
    | ok r =>
        rw [hp] at hrun
        exact ⟨r.1, by rw [← (Prod.mk.inj (Except.ok.inj hrun)).2]⟩
  obtain ⟨c, hc⟩ := hprivate
  have htakes := (parsePrivateCommand_takes hc).2
  have hlen := ((parseCommandChecked_of_run hn hlt hrun r).mp hall).1
  omega

theorem commandAnnounced_iff {command : Command} :
    SpliceInfoSection.CommandAnnounced command ↔
      command.unannounced = 0 ∧ ∀ c, command ≠ .privateCommand c := by
  rw [Command.unannounced_eq_zero]
  cases command <;> simp [SpliceInfoSection.CommandAnnounced]

/-- The command of a section comes back exactly when it is not private and its length is
announced in one byte. -/
theorem parseCommandChecked_emit {command : Command} (h : command.Fits) {t u : Bytes}
    (hun : command.unannounced = 0) (hhint : command.emitSizeHint ≤ 4093) (ht : 0 < t.length) :
    (parseCommandChecked command.type (command.emitSizeHint % 256)).run (command.emit ++ t) =
        .ok (command, u) ↔
      (∀ c, command ≠ .privateCommand c) ∧ command.emitSizeHint < 256 ∧ u = t := by
  have hlen := command.emit_length
  by_cases hprivate : ∃ c, command = .privateCommand c
  · obtain ⟨c, rfl⟩ := hprivate
    refine iff_of_false (parseCommandChecked_private (by omega) _) fun h => ?_
    exact h.1 c rfl
  · have hnot : ∀ c, command ≠ .privateCommand c := fun c hc => hprivate ⟨c, hc⟩
    have hread := Command.reads h (command.emitSizeHint % 256) hnot t
    have hlt : command.emitSizeHint % 256 < (command.emit ++ t).length := by
      rw [List.length_append]
      omega
    rw [parseCommandChecked_of_run (by omega) hlt hread, and_iff_right hnot, Prod.mk.injEq,
      and_iff_right rfl, List.length_append]
    refine and_congr_left fun _ => ?_
    omega

/-! ## The descriptors -/

/-- The descriptor loop gives the descriptors exactly when each of them comes back. -/
theorem parseDescriptorLoop_emit (order : EvalOrder) {ds : List Descriptor} {t u : Bytes}
    (hfits : ∀ d ∈ ds, d.Fits) (hhint : descriptorsSizeHint ds ≤ 4093) (ht : 0 < t.length) :
    (parseDescriptorLoop order).run (write16 (UInt16.ofNat (descriptorsSizeHint ds)) ++
        (ds.flatMap Descriptor.emit ++ t)) = .ok (ds, u) ↔
      (∀ d ∈ ds, d.ReadsBack order) ∧ u = t := by
  have hword : (UInt16.ofNat (descriptorsSizeHint ds)).toNat = descriptorsSizeHint ds := by
    rw [UInt16.toNat_ofNat', Nat.mod_eq_of_lt (by omega)]
  have hlen := descriptors_length ds
  rw [parseDescriptorLoop, run_bind_of_ok (read16_reads _ _), hword]
  cases ds with
  | nil =>
      rw [if_neg (by decide)]
      constructor
      · intro h
        exact ⟨fun d hd => absurd hd List.not_mem_nil,
          (Prod.mk.inj (Except.ok.inj h)).2.symm⟩
      · intro h
        rw [h.2]
        rfl
  | cons d ds =>
      have hpos : 0 < descriptorsSizeHint (d :: ds) := by
        have := d.emit_pos
        rw [← hlen, List.flatMap_cons, List.length_append]
        omega
      have hlt : descriptorsSizeHint (d :: ds) <
          ((d :: ds).flatMap Descriptor.emit ++ t).length := by
        rw [List.length_append, hlen]
        omega
      rw [if_pos hpos, run_bind_of_ok (available_run _),
        run_bind_of_ok (testConst_run _ _ _ _ _ hlt), ← hlen]
      exact parseDescriptors_eq_ok order hfits ht

/-! ## The section -/

theorem section_eq_iff {s : SpliceInfoSection} {header : SectionHeader}
    (hencrypted : s.encryptedPacket = false)
    (halgorithm : header.encryptionAlgorithm = s.encryptionAlgorithm)
    (hpts : header.ptsAdjustment = s.ptsAdjustment) (hcw : header.cwIndex = s.cwIndex) :
    (⟨false, header.encryptionAlgorithm, header.ptsAdjustment, header.cwIndex, header.tier,
      s.command, s.descriptors⟩ : SpliceInfoSection) = s ↔ header.tier = s.tier := by
  rw [halgorithm, hpts, hcw, ← hencrypted]
  constructor
  · intro h
    exact congrArg SpliceInfoSection.tier h
  · intro h
    rw [h]

/-- Once the lengths are right, what is left is the tier and the parts. -/
theorem parseSectionBody_emit {order : EvalOrder} {s : SpliceInfoSection} (h : s.Fits)
    (hun : s.command.unannounced = 0) {bytes crc : Bytes} (hcrc : crc.length = 4)
    (hvalue : (CRC32.compute bytes).value = 0) :
    (∃ u, (parseSectionBody order bytes).run (s.emitRest ++ crc) = .ok (s, u)) ↔
      (∀ c, s.command ≠ .privateCommand c) ∧ s.command.emitSizeHint < 256 ∧
        readTier s.tier.toNat s.command.emitSizeHint = s.tier.toNat ∧
        ∀ d ∈ s.descriptors, d.ReadsBack order := by
  have hlen := h.length
  unfold SpliceInfoSection.computeSectionLength at hlen
  obtain ⟨header, hheader, halgorithm, hpts, hcw, htier, hlength, htype⟩ :=
    parseSectionHeader_emit h (s.command.emit ++
      (write16 (UInt16.ofNat (descriptorsSizeHint s.descriptors)) ++
        (s.descriptors.flatMap Descriptor.emit ++ crc)))
  have hcommand := fun u => parseCommandChecked_emit (u := u) (t :=
      write16 (UInt16.ofNat (descriptorsSizeHint s.descriptors)) ++
        (s.descriptors.flatMap Descriptor.emit ++ crc)) h.command hun (by omega)
      (by rw [List.length_append, write16_length]; omega)
  have hloop := fun u => parseDescriptorLoop_emit order (u := u) (t := crc) h.descriptors
    (by omega) (by omega)
  have hsection := section_eq_iff h.unencrypted halgorithm hpts hcw
  unfold parseSectionBody SpliceInfoSection.emitRest
  simp only [List.append_assoc]
  rw [run_bind_of_ok hheader, htype, hlength]
  constructor
  · intro hok
    obtain ⟨u, hok⟩ := hok
    obtain ⟨command, t1, hrun1, hok⟩ := run_bind_eq_ok hok
    obtain ⟨descriptors, t2, hrun2, hok⟩ := run_bind_eq_ok hok
    obtain ⟨v, t3, hrun3, hok⟩ := run_bind_eq_ok hok
    rw [if_neg (not_not_intro hvalue), run_bind_of_ok (available_run _), assert_bind_eq_ok] at hok
    have hs := (Prod.mk.inj (Except.ok.inj hok.2)).1
    have hc : command = s.command := congrArg SpliceInfoSection.command hs
    have hd : descriptors = s.descriptors := congrArg SpliceInfoSection.descriptors hs
    rw [hc] at hrun1 hs
    rw [hd] at hrun2 hs
    obtain ⟨hprivate, hshort, rfl⟩ := (hcommand t1).mp hrun1
    obtain ⟨hall, rfl⟩ := (hloop t2).mp hrun2
    exact ⟨hprivate, hshort, by rw [← htier, hsection.mp hs], hall⟩
  · intro hall
    obtain ⟨hprivate, hshort, htiers, hback⟩ := hall
    have htier' : header.tier = s.tier := UInt16.toNat_inj.mp (htier.trans htiers)
    obtain ⟨v, t, hread⟩ := exists_read32 (Nat.le_of_eq hcrc.symm)
    have hend : t.length = 0 := by
      have htake := read32_takes hread
      omega
    rw [run_bind_of_ok ((hcommand _).mpr ⟨hprivate, hshort, rfl⟩),
      run_bind_of_ok ((hloop _).mpr ⟨hback, rfl⟩), run_bind_of_ok hread,
      if_neg (not_not_intro hvalue), run_bind_of_ok (available_run _)]
    exact ⟨t, assert_bind_eq_ok.mpr
      ⟨hend, congrArg (fun s => Except.ok (s, t)) (hsection.mpr htier')⟩⟩

namespace SpliceInfoSection

/-- Once every byte is announced, the parser sees the whole section. -/
theorem pack_emit {order : EvalOrder} {s : SpliceInfoSection} (h : s.Fits)
    (hun : s.command.unannounced = 0) (b : BinaryParserBounds) :
    scte35ParserPack order b s.emit = .ok s ↔
      (∀ c, s.command ≠ .privateCommand c) ∧ s.command.emitSizeHint < 256 ∧
        readTier s.tier.toNat s.command.emitSizeHint = s.tier.toNat ∧
        ∀ d ∈ s.descriptors, d.ReadsBack order := by
  obtain ⟨flags, low, hann, hemit⟩ := emit_eq h.length
  have hcrc : (CRC32.compute s.emit).value = 0 := CRC32.compute_append_write32 s.emitBody
  have hlen := s.emit_length_eq
  have hrest := s.emitRest_length
  have hge : 17 ≤ s.computeSectionLength := by
    unfold computeSectionLength
    omega
  generalize hbytes : write32 (CRC32.compute s.emitBody).value = crc at hemit
  have hfour : crc.length = 4 := by
    rw [← hbytes]
    rfl
  generalize s.emit = data at *
  have hbody : (s.emitRest ++ crc).length = s.computeSectionLength := by
    rw [List.length_append]
    omega
  have hmin : minSisLength = 20 := rfl
  have hle := h.length
  rw [← hbody] at hann hge hle
  rw [← parseSectionBody_emit h hun hfour hcrc, ← parseSection_run hemit hann hge hle]
  rw [scte35ParserPack, if_pos (by omega)]
  constructor
  · intro hok
    split at hok
    · cases hok
    · rename_i s' u hrun
      cases hok
      exact ⟨u, hrun⟩
  · intro hok
    obtain ⟨u, hrun⟩ := hok
    rw [hrun]

/-- All bytes are taken exactly when all of them are announced. -/
theorem roundTrip_iff_pack {order : EvalOrder} {s : SpliceInfoSection} (h : s.Fits) :
    s.RoundTrip order ↔ s.command.unannounced = 0 ∧
      scte35ParserPack order ⟨0, 3 + s.computeSectionLength⟩ s.emit = .ok s := by
  have hlen := s.emit_length_eq
  have hnext := next_emit h.length
  have hwhole : s.command.unannounced = 0 →
      (s.emit.drop 0).take (3 + s.computeSectionLength) = s.emit := by
    intro hun
    exact List.take_of_length_le (by rw [List.drop_zero]; omega)
  rw [RoundTrip, next_eq_some]
  constructor
  · intro hrun
    obtain ⟨bounds, hbounds, _, _, hpack, hstate⟩ := hrun
    obtain rfl : ⟨0, 3 + s.computeSectionLength⟩ = bounds :=
      Option.some.inj (Except.ok.inj (hnext.symm.trans hbounds))
    have hconsumed : s.emit.length = 0 + (0 + (3 + s.computeSectionLength)) :=
      congrArg BinaryParser.consumed hstate
    have hun : s.command.unannounced = 0 := by omega
    change scte35ParserPack order ⟨0, 3 + s.computeSectionLength⟩
      ((s.emit.drop 0).take (3 + s.computeSectionLength)) = .ok s at hpack
    rw [hwhole hun] at hpack
    exact ⟨hun, hpack⟩
  · intro hall
    obtain ⟨hun, hpack⟩ := hall
    refine ⟨⟨0, 3 + s.computeSectionLength⟩, hnext, ?_, ?_, ?_, ?_⟩
    · show 0 + (3 + s.computeSectionLength) ≤ s.emit.length
      omega
    · show 0 < 3 + s.computeSectionLength
      omega
    · show scte35ParserPack order ⟨0, 3 + s.computeSectionLength⟩
        ((s.emit.drop 0).take (3 + s.computeSectionLength)) = .ok s
      rw [hwhole hun, hpack]
    · show _ = (⟨0 + (0 + (3 + s.computeSectionLength)),
        s.emit.drop (0 + (3 + s.computeSectionLength))⟩ : BinaryParser)
      rw [List.drop_of_length_le (by omega)]
      congr 1
      omega

/-- A section survives being written and read back exactly when its command is announced in
full and in one byte, its tier is not overwritten, and its parts come back. -/
theorem roundTrip_iff (order : EvalOrder) {s : SpliceInfoSection} (h : s.Fits) :
    s.RoundTrip order ↔ s.Survives order := by
  rw [roundTrip_iff_pack h]
  constructor
  · intro hrun
    obtain ⟨hun, hpack⟩ := hrun
    obtain ⟨hprivate, hshort, htier, hback⟩ := (pack_emit h hun _).mp hpack
    exact ⟨commandAnnounced_iff.mpr ⟨hun, hprivate⟩, hshort, readTier_eq_self.mp htier, hback⟩
  · intro hsurvives
    obtain ⟨hun, hprivate⟩ := commandAnnounced_iff.mp hsurvives.command
    exact ⟨hun, (pack_emit h hun _).mpr ⟨hprivate, hsurvives.length,
      readTier_eq_self.mpr hsurvives.tier, hsurvives.descriptors⟩⟩

/-- A time signal with a segmentation descriptor, on every tier. -/
theorem roundTrip_timeSignal :
    RoundTrip ⟨.abc, .leftFirst⟩ ⟨false, 0, 0, 0xff, 0xfff, .timeSignal ⟨⟨some 0x072bd0050⟩⟩,
      [.segmentation ⟨[0x48, 0x00, 0x00, 0x8e]⟩]⟩ := by
  have hcommand : Command.Fits (.timeSignal ⟨⟨some 0x072bd0050⟩⟩) := by
    intro pts hpts
    cases hpts
    decide
  have hdescriptors : ∀ d ∈ [Descriptor.segmentation ⟨[0x48, 0x00, 0x00, 0x8e]⟩], d.Fits := by
    intro d hd
    rw [List.mem_singleton.mp hd]
    show [0x48, 0x00, 0x00, 0x8e].length ≤ 251
    decide
  have hback : ∀ d ∈ [Descriptor.segmentation ⟨[0x48, 0x00, 0x00, 0x8e]⟩],
      d.ReadsBack ⟨.abc, .leftFirst⟩ := by
    intro d hd
    rw [List.mem_singleton.mp hd]
    trivial
  exact (roundTrip_iff ⟨.abc, .leftFirst⟩
    ⟨rfl, by decide, by decide, by decide, hcommand, hdescriptors, by decide⟩).mpr
      ⟨trivial, by decide, by decide, hback⟩

/-- A splice insert of twenty bytes: its length is written over the tier. -/
theorem roundTrip_tier :
    ¬RoundTrip ⟨.abc, .leftFirst⟩ ⟨false, 0, 0, 0xff, 0, .spliceInsert ⟨1, some ⟨true, true, false,
      some ⟨some 0⟩, none, some ⟨true, 0⟩, 1, 0, 0⟩⟩, []⟩ := by
  have hcommand : Command.Fits (.spliceInsert ⟨1, some ⟨true, true, false, some ⟨some 0⟩, none,
      some ⟨true, 0⟩, 1, 0, 0⟩⟩) := by
    intro more hmore
    cases hmore
    refine ⟨rfl, rfl, ?_, ?_, ?_, ?_⟩
    · intro time htime pts hpts
      cases htime
      cases hpts
      decide
    · exact fun _ hcomponents => by cases hcomponents
    · exact fun _ hcomponents => by cases hcomponents
    · intro b hb
      cases hb
      show (0 : UInt64).toNat < 2 ^ 33
      decide
  intro h
  have hpack := ((roundTrip_iff_pack ⟨rfl, by decide, by decide, by decide, hcommand,
    fun d hd => absurd hd List.not_mem_nil, by decide⟩).mp h).2
  have htier := ((pack_emit ⟨rfl, by decide, by decide, by decide, hcommand,
    fun d hd => absurd hd List.not_mem_nil, by decide⟩ rfl _).mp hpack).2.2.1
  exact absurd htier (by decide)

end SpliceInfoSection

end Scte35
end Metamix
