/-
The table is that of the polynomial.

The entry of a byte is the remainder of its eight bits, for each of the 256 bytes, so the low half
of the register is the remainder that feeding the bits one at a time leaves.
-/
import Metamix.Lib.BitCrc
import Metamix.Scte35.Corruption
import Metamix.Scte35.Emitter

namespace Metamix
namespace Scte35

open Lib Binary

namespace CRC32

def polynomial : BitVec 32 := 0x04C11DB7

def initialValue : BitVec 32 := 0xFFFFFFFF

/-- CRC-32/MPEG-2: the highest bit of each byte first, nothing reflected, nothing added at the
end. -/
def mpeg2 (bytes : Bytes) : UInt32 :=
  ⟨BitCrc.serial polynomial initialValue (bytes.flatMap BitCrc.byteBits)⟩

theorem crcTable_eq : crcTable.map UInt32.toBitVec = (List.range 256).map fun i =>
    BitCrc.serial polynomial 0#32 (BitCrc.byteBits (UInt8.ofNat i)) := by
  decide +kernel

theorem entry_toBitVec (i : UInt8) :
    (entry i).toBitVec = BitCrc.serial polynomial 0#32 (BitCrc.byteBits i) := by
  have hi : i.toNat < 256 := i.toNat_lt
  have hget := congrArg (fun l => l[i.toNat]?) crcTable_eq
  simp only [List.getElem?_map, List.getElem?_range hi, Option.map_some] at hget
  obtain ⟨t, ht, htable⟩ := Option.map_eq_some_iff.mp hget
  have hentry : entry i = t := by
    rw [entry, List.getD_eq_getElem?_getD, ht]
    rfl
  rw [hentry, htable, UInt8.ofNat_toNat]

theorem compute_value (bytes : Bytes) : (compute bytes).value = mpeg2 bytes := by
  apply UInt32.toBitVec_inj.mp
  rw [compute, value_updateRange, BitCrc.run_toBitVec entry_toBitVec]
  rfl

theorem compute_emit (s : SpliceInfoSection) : (compute s.emit).value = 0 :=
  compute_append_write32 s.emitBody

/-- The checksum is CRC-32/MPEG-2, a string with its checksum behind it has checksum zero, and so
has every section that is emitted. -/
theorem compute_mpeg2 :
    (∀ bytes, (compute bytes).value = mpeg2 bytes ∧
      (compute (bytes ++ write32 (compute bytes).value)).value = 0) ∧
    ∀ s : SpliceInfoSection, (compute s.emit).value = 0 :=
  ⟨fun bytes => ⟨compute_value bytes, compute_append_write32 bytes⟩, compute_emit⟩

/-- The check value of the catalogued algorithm. -/
example : mpeg2 [0x31, 0x32, 0x33, 0x34, 0x35, 0x36, 0x37, 0x38, 0x39] = 0x0376E6E7 := by
  decide +kernel

end CRC32

end Scte35
end Metamix
