/-
The fields that share a byte, and all fields together.

A field with a prefix keeps the prefix and is read back.  Of two twelve-bit fields that share their
middle byte, the low one loses its four high bits, and the bits 4 to 7 of it are mixed into the four
low bits of the high one.  So the pair is read back only if there is nothing to lose and nothing
that is not there already.
-/
import Metamix.Binary.ParserUtil

namespace Metamix
namespace Binary

open Lib Lib.Reader

/-! ## Twelve bits -/

theorem toNat_low12 (b0 b1 : UInt8) :
    (((b0.toUInt16 &&& 0x0f) <<< 8) + b1.toUInt16).toNat = b0.toNat % 16 * 256 + b1.toNat := by
  have h0 := b0.toNat_lt
  have h1 := b1.toNat_lt
  have hand := Nat.and_two_pow_sub_one_eq_mod b0.toNat 4
  simp only [UInt16.toNat_add, UInt16.toNat_shiftLeft, UInt16.toNat_and, UInt8.toNat_toUInt16,
    UInt16.reduceToNat, Nat.reduceMod, Nat.shiftLeft_eq]
  rw [show 15 = 2 ^ 4 - 1 from rfl, hand]
  omega

theorem toNat_high12 (b0 b1 : UInt8) :
    ((b0.toUInt16 <<< 4) + ((b1 &&& 0xf0) >>> 4).toUInt16).toNat =
      b0.toNat * 16 + b1.toNat / 16 := by
  have h0 := b0.toNat_lt
  have hdigit : ∀ b : UInt8, ((b &&& 0xf0) >>> 4).toNat = b.toNat / 16 := by decide
  have h1 := hdigit b1
  have hlt := b1.toNat_lt
  simp only [UInt16.toNat_add, UInt16.toNat_shiftLeft, UInt8.toNat_toUInt16, UInt16.reduceToNat,
    Nat.reduceMod, Nat.shiftLeft_eq]
  rw [h1]
  omega

theorem toNat_lowByte (v : UInt16) : (v &&& 0x00ff).toUInt8.toNat = v.toNat % 256 := by
  have hand := Nat.and_two_pow_sub_one_eq_mod v.toNat 8
  simp only [UInt16.toNat_toUInt8, UInt16.toNat_and, UInt16.reduceToNat]
  rw [show 255 = 2 ^ 8 - 1 from rfl, hand]
  omega

theorem write12Prefix_bytes (p : UInt8) (v : UInt16) : ∃ b0 b1 : UInt8,
    write12Prefix p v = [b0, b1] ∧ b0 &&& (0xf0 : UInt8) = ((p &&& 0x0f) <<< 4 : UInt8) ∧
      b0.toNat = p.toNat % 16 * 16 + v.toNat / 256 % 16 ∧ b1.toNat = v.toNat % 256 := by
  have hdigit : ((v &&& 0x0f00) >>> 8).toUInt8 = UInt8.ofNat (v.toNat / 256 % 16) := by
    apply UInt8.toNat_inj.mp
    simp only [UInt16.toNat_toUInt8, UInt16.toNat_shiftRight, UInt16.toNat_and,
      UInt16.reduceToNat, Nat.reduceMod, UInt8.toNat_ofNat', Nat.shiftRight_eq_div_pow]
    rw [show 3840 = (2 ^ 4 - 1) <<< 8 from rfl, and_mask]
    omega
  have hpfx : ∀ p : UInt8, (p &&& 0x0f) <<< 4 = UInt8.ofNat (p.toNat % 16 * 16) := by decide
  have hbyte : ∀ a < 16, ∀ k < 16,
      (UInt8.ofNat (a * 16) ||| UInt8.ofNat k) &&& 0xf0 = UInt8.ofNat (a * 16) ∧
        (UInt8.ofNat (a * 16) ||| UInt8.ofNat k).toNat = a * 16 + k := by decide
  obtain ⟨hkept, hnum⟩ := hbyte (p.toNat % 16) (by omega) (v.toNat / 256 % 16) (by omega)
  refine ⟨_, _, rfl, ?_, ?_, toNat_lowByte v⟩
  · rw [hpfx, hdigit, hkept]
  · rw [hpfx, hdigit, hnum]

theorem write12Pair_bytes (high low : UInt16) : ∃ b0 b1 b2,
    write12Pair high low = [b0, b1, b2] ∧ b0.toNat = high.toNat / 16 % 256 ∧
      b1.toNat = (high.toNat % 16 ||| low.toNat / 16 % 16) * 16 ∧ b2.toNat = low.toNat % 256 := by
  have hb0 : ((high &&& 0x0ff0) >>> 4).toUInt8.toNat = high.toNat / 16 % 256 := by
    simp only [UInt16.toNat_toUInt8, UInt16.toNat_shiftRight, UInt16.toNat_and,
      UInt16.reduceToNat, Nat.reduceMod, Nat.shiftRight_eq_div_pow]
    rw [show 4080 = (2 ^ 8 - 1) <<< 4 from rfl, and_mask]
    omega
  have hhigh : ((high &&& 0x000f) <<< 4).toUInt8 = UInt8.ofNat (high.toNat % 16 * 16) := by
    have hand := Nat.and_two_pow_sub_one_eq_mod high.toNat 4
    apply UInt8.toNat_inj.mp
    simp only [UInt16.toNat_toUInt8, UInt16.toNat_shiftLeft, UInt16.toNat_and,
      UInt16.reduceToNat, Nat.reduceMod, UInt8.toNat_ofNat', Nat.shiftLeft_eq]
    rw [show 15 = 2 ^ 4 - 1 from rfl, hand]
    omega
  have hlow : (low &&& ((0x0f00 : UInt16) >>> 4)).toUInt8 =
      UInt8.ofNat (low.toNat / 16 % 16 * 16) := by
    apply UInt8.toNat_inj.mp
    simp only [UInt16.toNat_toUInt8, UInt16.toNat_and, UInt16.reduceToNat, Nat.reduceMod,
      UInt8.toNat_ofNat', UInt16.toNat_shiftRight, Nat.reduceShiftRight]
    rw [show 240 = (2 ^ 4 - 1) <<< 4 from rfl, and_mask]
    omega
  have hb1 : ∀ a < 16, ∀ b < 16,
      (UInt8.ofNat (a * 16) ||| UInt8.ofNat (b * 16)).toNat = (a ||| b) * 16 := by decide
  have hmix := hb1 (high.toNat % 16) (by omega) (low.toNat / 16 % 16) (by omega)
  refine ⟨_, _, _, rfl, hb0, ?_, toNat_lowByte low⟩
  rw [hhigh, hlow, hmix]

theorem read12Low_reads {p : UInt8} {v : UInt16} (h : v.toNat < 2 ^ 12) :
    Reads read12Low (write12Prefix p v) v := by
  intro t
  obtain ⟨b0, b1, hbytes, _, hb0, hb1⟩ := write12Prefix_bytes p v
  rw [hbytes, List.cons_append, List.cons_append, List.nil_append, read12Low_run]
  congr 2
  apply UInt16.toNat_inj.mp
  rw [toNat_low12, hb0, hb1]
  omega

theorem scan8_run_write12Prefix (p : UInt8) (v : UInt16) (t : Bytes) :
    (scan8 0xf0).run (write12Prefix p v ++ t) =
      .ok ((p &&& 0x0f) <<< 4, write12Prefix p v ++ t) := by
  obtain ⟨b0, b1, hbytes, hkept, _⟩ := write12Prefix_bytes p v
  rw [hbytes, List.cons_append, scan8_run, hkept]

/-- Only the eight low bits of the second field are read back. -/
theorem read12Low_run_write12Pair (high low : UInt16) (t : Bytes) :
    read12Low.run ((write12Pair high low ++ t).drop 1) =
      .ok (UInt16.ofNat (low.toNat % 256), t) := by
  obtain ⟨b0, b1, b2, hbytes, _, hb1, hb2⟩ := write12Pair_bytes high low
  rw [hbytes]
  show read12Low.run (b1 :: b2 :: t) = _
  rw [read12Low_run]
  congr 2
  apply UInt16.toNat_inj.mp
  rw [toNat_low12, hb1, hb2, UInt16.toNat_ofNat']
  omega

/-- The first field is read back with bits of the second one mixed in. -/
theorem scan12High_run_write12Pair {high low : UInt16} (h : high.toNat < 2 ^ 12) (t : Bytes) :
    scan12High.run (write12Pair high low ++ t) =
      .ok (UInt16.ofNat (high.toNat / 16 * 16 + (high.toNat % 16 ||| low.toNat / 16 % 16)),
        write12Pair high low ++ t) := by
  obtain ⟨b0, b1, b2, hbytes, hb0, hb1, _⟩ := write12Pair_bytes high low
  have hlt : (high.toNat % 16 ||| low.toNat / 16 % 16) < 2 ^ 4 :=
    Nat.or_lt_two_pow (by omega) (by omega)
  rw [hbytes]
  show scan12High.run (b0 :: b1 :: b2 :: t) = _
  rw [scan12High_run]
  congr 2
  apply UInt16.toNat_inj.mp
  rw [toNat_high12, hb0, hb1, UInt16.toNat_ofNat']
  omega

/-! ## All fields -/

theorem read48_reads {v : UInt64} (h : v.toNat < 2 ^ 48) :
    Reads (read48 .leftFirst) (write48 v) v := by
  intro t
  have hsplit : write48 v = beBytes 2 (v.toNat / 2 ^ 32) ++
      (beBytes 2 (v.toNat / 2 ^ 16 % 2 ^ 16) ++ beBytes 2 (v.toNat % 2 ^ 16)) := by
    rw [write48_eq, beBytes_add 2 4, beBytes_add 2 2,
      ← beBytes_mod 2 2 (v.toNat / 256 ^ 2) (Nat.le_refl 2),
      ← beBytes_mod 2 2 v.toNat (Nat.le_refl 2), show 256 ^ 4 = 2 ^ 32 from rfl,
      show 256 ^ 2 = 2 ^ 16 from rfl]
  have hsum : v.toNat / 2 ^ 32 * 2 ^ 32 + v.toNat / 2 ^ 16 % 2 ^ 16 * 2 ^ 16 + v.toNat % 2 ^ 16 =
      v.toNat := by omega
  rw [hsplit, List.append_assoc, List.append_assoc,
    read48_run_leftFirst (by omega) (Nat.mod_lt _ (by decide)) (Nat.mod_lt _ (by decide)), hsum,
    UInt64.ofNat_toNat]

/-- Each field is read back, the cursor stands behind it, and what shares a byte with it is kept. -/
structure FieldsReadBack (v16 : UInt16) (v32 : UInt32) (v33 v48 : UInt64) (pfx : UInt8)
    (v12 : UInt16) (t : Bytes) : Prop where
  word16 : read16.run (write16 v16 ++ t) = .ok (v16, t)
  word32 : read32.run (write32 v32 ++ t) = .ok (v32, t)
  look33 : scan33.run (write33Prefix pfx v33 ++ t) = .ok (v33, write33Prefix pfx v33 ++ t)
  word33 : read33.run (write33Prefix pfx v33 ++ t) = .ok (v33, t)
  prefix33 : (scan8 0xfe).run (write33Prefix pfx v33 ++ t) =
    .ok (pfx &&& 0xfe, write33Prefix pfx v33 ++ t)
  word48 : (read48 .leftFirst).run (write48 v48 ++ t) = .ok (v48, t)
  word12 : read12Low.run (write12Prefix pfx v12 ++ t) = .ok (v12, t)
  prefix12 : (scan8 0xf0).run (write12Prefix pfx v12 ++ t) =
    .ok ((pfx &&& 0x0f) <<< 4, write12Prefix pfx v12 ++ t)

/-- Both fields of a pair are read back, the high one from the first byte and the low one from the
second. -/
structure PairReadsBack (high low : UInt16) (t : Bytes) : Prop where
  first : scan12High.run (write12Pair high low ++ t) = .ok (high, write12Pair high low ++ t)
  second : read12Low.run ((write12Pair high low ++ t).drop 1) = .ok (low, t)

theorem fieldsReadBack (v16 : UInt16) (v32 : UInt32) {v33 v48 : UInt64} (pfx : UInt8)
    {v12 : UInt16} (t : Bytes) (h33 : v33.toNat < 2 ^ 33) (h48 : v48.toNat < 2 ^ 48)
    (h12 : v12.toNat < 2 ^ 12) : FieldsReadBack v16 v32 v33 v48 pfx v12 t where
  word16 := read16_reads v16 t
  word32 := read32_reads v32 t
  look33 := scan33_run_write33Prefix h33 t
  word33 := read33_reads h33 t
  prefix33 := scan8_run_write33Prefix pfx 0xfe v33 t rfl
  word48 := read48_reads h48 t
  word12 := read12Low_reads h12 t
  prefix12 := scan8_run_write12Prefix pfx v12 t

theorem ofNat_eq_iff {n : Nat} {v : UInt16} (h : n < 2 ^ 16) :
    UInt16.ofNat n = v ↔ n = v.toNat := by
  rw [← UInt16.toNat_inj, UInt16.toNat_ofNat', Nat.mod_eq_of_lt h]

theorem pairReadsBack_iff {high low : UInt16} {t : Bytes} (hhigh : high.toNat < 2 ^ 12)
    (hlow : low.toNat < 2 ^ 12) : PairReadsBack high low t ↔
      low.toNat < 256 ∧ high.toNat % 16 ||| low.toNat / 16 = high.toNat % 16 := by
  have hor : (high.toNat % 16 ||| low.toNat / 16 % 16) < 2 ^ 4 :=
    Nat.or_lt_two_pow (by omega) (by omega)
  have hfirst : scan12High.run (write12Pair high low ++ t) = .ok (high, write12Pair high low ++ t) ↔
      high.toNat % 16 ||| low.toNat / 16 % 16 = high.toNat % 16 := by
    rw [scan12High_run_write12Pair hhigh, Except.ok.injEq, Prod.mk.injEq, and_iff_left rfl,
      ofNat_eq_iff (by omega)]
    omega
  have hsecond : read12Low.run ((write12Pair high low ++ t).drop 1) = .ok (low, t) ↔
      low.toNat < 256 := by
    rw [read12Low_run_write12Pair high low, Except.ok.injEq, Prod.mk.injEq, and_iff_left rfl,
      ofNat_eq_iff (by omega)]
    omega
  constructor
  · rintro ⟨h1, h2⟩
    have hlt := hsecond.mp h2
    have hdigit : low.toNat / 16 % 16 = low.toNat / 16 := by omega
    exact ⟨hlt, hdigit ▸ hfirst.mp h1⟩
  · rintro ⟨hlt, hmix⟩
    have hdigit : low.toNat / 16 % 16 = low.toNat / 16 := by omega
    exact ⟨hfirst.mpr (hdigit.symm ▸ hmix), hsecond.mpr hlt⟩

/-- All fields are read back, whatever their values and whatever is behind them, but for a pair:
it is read back exactly if its low half fits eight bits, the four high ones of which its high half
has at its own low end. -/
theorem codecs_agree {v16 : UInt16} {v32 : UInt32} {v33 v48 : UInt64} {pfx : UInt8}
    {v12 high low : UInt16} {t : Bytes} (h33 : v33.toNat < 2 ^ 33) (h48 : v48.toNat < 2 ^ 48)
    (h12 : v12.toNat < 2 ^ 12) (hhigh : high.toNat < 2 ^ 12) (hlow : low.toNat < 2 ^ 12) :
    FieldsReadBack v16 v32 v33 v48 pfx v12 t ∧
      (PairReadsBack high low t ↔
        low.toNat < 256 ∧ high.toNat % 16 ||| low.toNat / 16 = high.toNat % 16) :=
  ⟨fieldsReadBack v16 v32 pfx t h33 h48 h12, pairReadsBack_iff hhigh hlow⟩

/-- A tier with all bits set hides what the command length puts in the byte they share. -/
theorem codecs_agree_filled : FieldsReadBack 0xabcd 0x89abcdef 0x123456789 0xfedcba987654 0xff
      0xabc [7] ∧ (PairReadsBack 0xfff 0x0ff [7] ↔ 0xff < 256 ∧ 0xf ||| 0xf = 0xf) :=
  @codecs_agree 0xabcd 0x89abcdef 0x123456789 0xfedcba987654 0xff 0xabc 0xfff 0x0ff [7]
    (by decide) (by decide) (by decide) (by decide) (by decide)

/-- A low half of 0x110 is read back as 0x10. -/
theorem pair_not_readBack : ¬PairReadsBack 0 0x110 [] := by
  intro h
  have hlow := h.second
  rw [read12Low_run_write12Pair] at hlow
  exact absurd (Prod.mk.inj (Except.ok.inj hlow)).1 (by decide)

end Binary
end Metamix
