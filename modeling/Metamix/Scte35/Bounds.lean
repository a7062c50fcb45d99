/-
Where a section lies.

The code reads everything up to the section length twice: once to find the bounds and once
more when it packs the bytes inside them.  `readSpliceInfoSectionUntilLength_eq_ok` says what
it accepts, and with it `scte35ParserNext_eq_some` gives the bounds it finds.
-/
import Metamix.Binary.Codecs
import Metamix.Scte35.Parser

namespace Metamix
namespace Scte35

open Lib Lib.Reader Binary

/-! ## Checks -/

section Checks

variable {α : Type} {c : Prop} [Decidable c] (lhs op rhs lval rval : String) {s : Bytes}

theorem testConst_run (h : c) : (testConst c lhs op rhs lval rval).run s = .ok ((), s) := if_pos h

theorem testConst_bind_eq_ok {f : Unit → Reader α} {r : α × Bytes} :
    (testConst c lhs op rhs lval rval >>= f).run s = .ok r ↔ c ∧ (f ()).run s = .ok r := by
  by_cases h : c
  · rw [run_bind_of_ok (testConst_run lhs op rhs lval rval h), and_iff_right h]
  · refine iff_of_false (fun hok => ?_) (fun hok => h hok.1)
    obtain ⟨_, _, hrun, _⟩ := run_bind_eq_ok hok
    have herr : (testConst c lhs op rhs lval rval).run s = .error _ := if_neg h
    rw [herr] at hrun
    cases hrun

theorem assert_run (h : c) : (assert_ c).run s = .ok ((), s) := if_pos h

theorem assert_bind_eq_ok {f : Unit → Reader α} {r : α × Bytes} :
    (assert_ c >>= f).run s = .ok r ↔ c ∧ (f ()).run s = .ok r := by
  by_cases h : c
  · rw [run_bind_of_ok (assert_run h), and_iff_right h]
  · refine iff_of_false (fun hok => ?_) (fun hok => h hok.1)
    obtain ⟨_, _, hrun, _⟩ := run_bind_eq_ok hok
    have herr : (assert_ c).run s = .error .assertion := if_neg h
    rw [herr] at hrun
    cases hrun

end Checks

/-! ## The header -/

/-- The byte a multiplexer may put in front of a section. -/
def pointerField (present : Bool) : Bytes := if present then [0x00] else []

/-- The two bytes behind the table identifier of a section of which `n` bytes follow. -/
def Announces (flags low : UInt8) (n : Nat) : Prop :=
  flags &&& 0b10000000 = 0 ∧ flags &&& 0b01000000 = 0 ∧ n = flags.toNat % 16 * 256 + low.toNat

theorem readBehindPointer_eq_ok {c c' : Bool} {id flags low : UInt8} {rest t : Bytes} {n : Nat} :
    (readBehindPointer ((pointerField c).length + 3 + rest.length) c).run
        (id :: flags :: low :: rest) = .ok ((n, c'), t) ↔
      id = SpliceInfoSection.tableId ∧ Announces flags low n ∧
        17 ≤ (pointerField c).length + n ∧ n ≤ 4093 ∧ n ≤ rest.length ∧ c' = c ∧ t = rest := by
  have hflag : ∀ m : UInt8, ((flags &&& m != 0) = false) ↔ flags &&& m = 0 := by simp
  have hheader : (pointerField c).length + 3 + rest.length - rest.length = 3 ∨
      (pointerField c).length + 3 + rest.length - rest.length = 4 := by
    cases c <;> simp [pointerField]
  have hmin : minSisLength - ((pointerField c).length + 3 + rest.length - rest.length) =
      17 - (pointerField c).length := by
    simp only [minSisLength]
    omega
  have hpure : ∀ m, StateT.run (pure (m, c) : Reader (Nat × Bool)) rest = .ok ((n, c'), t) ↔
      n = m ∧ c' = c ∧ t = rest := by
    intro m
    show Except.ok ((m, c), rest) = .ok ((n, c'), t) ↔ _
    simp only [Except.ok.injEq, Prod.mk.injEq, and_assoc, eq_comm]
  unfold readBehindPointer Announces
  rw [run_bind_of_ok (read8_run ..), testConst_bind_eq_ok, run_bind_of_ok (scanFlag_run ..),
    testConst_bind_eq_ok, run_bind_of_ok (scanFlag_run ..), testConst_bind_eq_ok,
    run_bind_of_ok (read12Low_run ..), run_bind_of_ok (available_run _)]
  simp only [assert_bind_eq_ok, testConst_bind_eq_ok, hmin, toNat_low12, and_full, hpure,
    SpliceInfoSection.sectionSyntaxIndicator, SpliceInfoSection.privateIndicator, hflag]
  constructor
  · intro h
    obtain ⟨hid, hindicator, hprivate, _, hge, hle, hfit, rfl, hc, ht⟩ := h
    exact ⟨hid, ⟨hindicator, hprivate, rfl⟩, by omega, hle, hfit, hc, ht⟩
  · intro h
    obtain ⟨hid, ⟨hindicator, hprivate, rfl⟩, hge, hle, hfit, hc, ht⟩ := h
    exact ⟨hid, hindicator, hprivate, hheader, by omega, hle, hfit, rfl, hc, ht⟩

theorem length_of_readUntilLength {data : Bytes} {r : (Nat × Bool) × Bytes}
    (h : readSpliceInfoSectionUntilLength.run data = .ok r) : 20 ≤ data.length := by
  rw [readSpliceInfoSectionUntilLength, run_bind_of_ok (available_run _), testConst_bind_eq_ok] at h
  exact h.1

theorem readUntilLength_zero_run {t : Bytes} (h : ((0 : UInt8) :: t).length ≥ minSisLength) :
    readSpliceInfoSectionUntilLength.run (0 :: t) =
      (readBehindPointer ((0 : UInt8) :: t).length true).run t := by
  unfold readSpliceInfoSectionUntilLength
  rw [run_bind_of_ok (available_run _), run_bind_of_ok (testConst_run _ _ _ _ _ h),
    run_bind_of_ok (scan8_run ..)]
  rfl

theorem readUntilLength_cons_run {a : UInt8} {t : Bytes} (ha : a ≠ 0)
    (h : (a :: t).length ≥ minSisLength) :
    readSpliceInfoSectionUntilLength.run (a :: t) =
      (readBehindPointer (a :: t).length false).run (a :: t) := by
  have hbeq : (a == 0x00) = false := by simpa using ha
  unfold readSpliceInfoSectionUntilLength
  rw [run_bind_of_ok (available_run _), run_bind_of_ok (testConst_run _ _ _ _ _ h),
    run_bind_of_ok (scan8_run ..), and_full, hbeq]
  rfl

theorem readUntilLength_pointer_run {c : Bool} {id : UInt8} {t : Bytes} (hid : c = false → id ≠ 0)
    (h : 20 ≤ (pointerField c ++ id :: t).length) :
    readSpliceInfoSectionUntilLength.run (pointerField c ++ id :: t) =
      (readBehindPointer (pointerField c ++ id :: t).length c).run (id :: t) := by
  cases c with
  | true => exact readUntilLength_zero_run h
  | false => exact readUntilLength_cons_run (hid rfl) h

/-- Every buffer that is long enough is one with a pointer field or without one. -/
theorem exists_pointer {data : Bytes} (h : 20 ≤ data.length) :
    ∃ c id flags low tail, (c = false → id ≠ 0) ∧
      data = pointerField c ++ id :: flags :: low :: tail := by
  match data, h with
  | a :: b :: c :: d :: t, _ =>
      by_cases ha : a = 0
      · exact ⟨true, b, c, d, t, fun h => Bool.noConfusion h, by rw [ha]; rfl⟩
      · exact ⟨false, a, b, c, d :: t, fun _ => ha, rfl⟩

theorem length_pointer (c : Bool) (id flags low : UInt8) (tail : Bytes) :
    (pointerField c ++ id :: flags :: low :: tail).length =
      (pointerField c).length + 3 + tail.length := by
  simp only [List.length_append, List.length_cons]
  omega

/-- What is read is the pointer field, if there is one, the table identifier and a section
length that is in range. -/
theorem readSpliceInfoSectionUntilLength_eq_ok {data rest : Bytes} {n : Nat} {c : Bool} :
    readSpliceInfoSectionUntilLength.run data = .ok ((n, c), rest) ↔
      ∃ flags low, data = pointerField c ++ SpliceInfoSection.tableId :: flags :: low :: rest ∧
        Announces flags low n ∧ 17 ≤ (pointerField c).length + n ∧ n ≤ 4093 ∧
        n ≤ rest.length := by
  constructor
  · intro h
    have hlen := length_of_readUntilLength h
    obtain ⟨c', id, flags, low, tail, hid, rfl⟩ := exists_pointer hlen
    rw [readUntilLength_pointer_run hid hlen, length_pointer] at h
    obtain ⟨rfl, hann, hge, hle, hfit, rfl, rfl⟩ := readBehindPointer_eq_ok.mp h
    exact ⟨flags, low, rfl, hann, hge, hle, hfit⟩
  · intro h
    obtain ⟨flags, low, rfl, hann, hge, hle, hfit⟩ := h
    have hid : SpliceInfoSection.tableId ≠ 0 := by decide
    have hlen := length_pointer c SpliceInfoSection.tableId flags low rest
    rw [readUntilLength_pointer_run (fun _ => hid) (by omega), hlen]
    exact readBehindPointer_eq_ok.mpr ⟨rfl, hann, hge, hle, hfit, rfl, rfl⟩

/-! ## The bounds -/

/-- The parser finds bounds behind a pointer field, or at once, and they are as long as the
section says. -/
theorem scte35ParserNext_eq_some {data : Bytes} {b : BinaryParserBounds} :
    scte35ParserNext data = .ok (some b) ↔
      ∃ c flags low rest n,
        data = pointerField c ++ SpliceInfoSection.tableId :: flags :: low :: rest ∧
        Announces flags low n ∧ 17 ≤ (pointerField c).length + n ∧ n ≤ 4093 ∧
        n ≤ rest.length ∧ b = ⟨(pointerField c).length, 3 + n⟩ := by
  have hstart : ∀ c, (if c then 1 else 0) = (pointerField c).length := by decide
  have hbounds : ∀ {n c rest}, readSpliceInfoSectionUntilLength.run data = .ok ((n, c), rest) →
      data.length - rest.length - (pointerField c).length = 3 := by
    intro n c rest hrun
    obtain ⟨flags, low, hdata, _⟩ := readSpliceInfoSectionUntilLength_eq_ok.mp hrun
    have := length_pointer c SpliceInfoSection.tableId flags low rest
    rw [← hdata] at this
    omega
  unfold scte35ParserNext
  constructor
  · intro h
    by_cases hlen : data.length < minSisLength
    · rw [if_pos hlen] at h
      cases h
    · rw [if_neg hlen] at h
      obtain ⟨⟨⟨n, c⟩, rest⟩, hrun, h⟩ := of_bind_eq_ok h
      have hb : (⟨if c then 1 else 0, data.length - rest.length - (if c then 1 else 0) + n⟩ :
          BinaryParserBounds) = b := Option.some.inj (Except.ok.inj h)
      rw [hstart, hbounds hrun] at hb
      obtain ⟨flags, low, hdata, hann, hge, hle, hfit⟩ :=
        readSpliceInfoSectionUntilLength_eq_ok.mp hrun
      exact ⟨c, flags, low, rest, n, hdata, hann, hge, hle, hfit, hb.symm⟩
  · intro h
    obtain ⟨c, flags, low, rest, n, hdata, hann, hge, hle, hfit, rfl⟩ := h
    have hrun := readSpliceInfoSectionUntilLength_eq_ok.mpr
      ⟨flags, low, hdata, hann, hge, hle, hfit⟩
    have hlen := length_of_readUntilLength hrun
    have hmin : minSisLength = 20 := rfl
    rw [if_neg (by omega), hrun, ok_bind]
    show Except.ok (some (⟨if c then 1 else 0,
      data.length - rest.length - (if c then 1 else 0) + n⟩ : BinaryParserBounds)) = _
    rw [hstart, hbounds hrun]

theorem section_bytes (c : Bool) (id flags low : UInt8) (rest : Bytes) (n : Nat) :
    ((pointerField c ++ id :: flags :: low :: rest).drop (pointerField c).length).take (3 + n) =
      id :: flags :: low :: rest.take n := by
  rw [List.drop_left, Nat.add_comm]
  rfl

/-! ## Behind the section length -/

/-- What `parseSection` does behind the section length of a section without a pointer field. -/
def parseSectionBody (order : EvalOrder) (bytes : Bytes) : Reader SpliceInfoSection := do
  let header ← parseSectionHeader
  let command ← parseCommandChecked header.commandType header.commandLength
  let descriptors ← parseDescriptorLoop order
  let _ ← read32
  let crc32 := CRC32.compute bytes
  if crc32.value ≠ 0 then throw_ "CRC32 checksum did not match"
  else do
    let left ← available
    assert_ (left = 0)
    return ⟨false, header.encryptionAlgorithm, header.ptsAdjustment, header.cwIndex, header.tier,
      command, descriptors⟩

theorem parseSection_run {order : EvalOrder} {bytes data body : Bytes} {flags low : UInt8}
    (hdata : data = SpliceInfoSection.tableId :: flags :: low :: body)
    (hann : Announces flags low body.length) (hge : 17 ≤ body.length) (hle : body.length ≤ 4093) :
    (parseSection order bytes).run data = (parseSectionBody order bytes).run body := by
  have hrun := readSpliceInfoSectionUntilLength_eq_ok.mpr ⟨flags, low, hdata, hann,
    (by simpa [pointerField] using hge : 17 ≤ (pointerField false).length + body.length), hle,
    Nat.le_refl _⟩
  unfold parseSection
  rw [run_bind_of_ok hrun, run_bind_of_ok (available_run _), run_bind_of_ok (assert_run rfl)]
  rfl

end Scte35
end Metamix
