/-
Checksum registers that are fed one bit at a time.

The register holds the remainder of the bits fed so far.  Its topmost bit leaves it, and when that
bit is not the one that comes in, the polynomial is added.  Feeding is linear in the register and
the bits together, and a register that is fed its own topmost bits only moves up.  So eight bits
from any register are the register moved up and the remainder of a single byte, and a table of the
256 remainders gives the same register as the bits do.
-/
import Metamix.Lib.TableCrc

namespace Metamix
namespace Lib
namespace BitCrc

variable {w : Nat} (P : BitVec w)

def feed (v : BitVec w) (bit : Bool) : BitVec w :=
  if v.msb = bit then v <<< 1 else (v <<< 1) ^^^ P

def serial (v : BitVec w) (bits : List Bool) : BitVec w := bits.foldl (feed P) v

/-- The `n` topmost bits, the highest first. -/
def topBits (n : Nat) (v : BitVec w) : List Bool := (List.range n).map v.getMsbD

def byteBits (b : UInt8) : List Bool := topBits 8 b.toBitVec

theorem serial_append (v : BitVec w) (as bs : List Bool) :
    serial P v (as ++ bs) = serial P (serial P v as) bs := List.foldl_append

theorem topBits_length (n : Nat) (v : BitVec w) : (topBits n v).length = n := by
  rw [topBits, List.length_map, List.length_range]

/-! ## Linearity -/

theorem xor_xor_cancel (a b p : BitVec w) : (a ^^^ p) ^^^ (b ^^^ p) = a ^^^ b := by
  rw [BitVec.xor_assoc, BitVec.xor_comm b p, ← BitVec.xor_assoc p, BitVec.xor_self,
    BitVec.zero_xor]

theorem feed_xor (v u : BitVec w) (a b : Bool) :
    feed P (v ^^^ u) (a ^^ b) = feed P v a ^^^ feed P u b := by
  have hshift : (v ^^^ u) <<< 1 = (v <<< 1) ^^^ (u <<< 1) := BitVec.shiftLeft_xor_distrib v u 1
  have hmsb : (v ^^^ u).msb = (v.msb ^^ u.msb) := BitVec.msb_xor
  unfold feed
  rw [hshift, hmsb]
  by_cases hv : v.msb = a
  · by_cases hu : u.msb = b
    · rw [if_pos hv, if_pos hu, if_pos (by rw [hv, hu])]
    · have hne : ¬(v.msb ^^ u.msb) = (a ^^ b) := by
        rw [hv]
        exact fun h => hu (Bool.xor_right_inj.mp h)
      rw [if_pos hv, if_neg hu, if_neg hne, BitVec.xor_assoc]
  · by_cases hu : u.msb = b
    · have hne : ¬(v.msb ^^ u.msb) = (a ^^ b) := by
        rw [hu]
        exact fun h => hv (Bool.xor_left_inj.mp h)
      rw [if_neg hv, if_pos hu, if_neg hne, BitVec.xor_assoc, BitVec.xor_comm (u <<< 1) P,
        ← BitVec.xor_assoc]
    · have heq : (v.msb ^^ u.msb) = (a ^^ b) := by
        rw [Bool.eq_not_of_ne hv, Bool.eq_not_of_ne hu, Bool.not_xor_not]
      rw [if_neg hv, if_neg hu, if_pos heq, xor_xor_cancel]

theorem serial_xor {as bs : List Bool} (v u : BitVec w) (hlen : as.length = bs.length) :
    serial P (v ^^^ u) (List.zipWith xor as bs) = serial P v as ^^^ serial P u bs := by
  induction as generalizing bs v u with
  | nil =>
      rw [List.length_eq_zero_iff.mp hlen.symm]
      rfl
  | cons a as ih =>
      cases bs with
      | nil => cases hlen
      | cons b bs =>
          show serial P (feed P (v ^^^ u) (a ^^ b)) (List.zipWith xor as bs) = _
          rw [feed_xor, ih _ _ (Nat.succ.inj hlen)]
          rfl

theorem topBits_xor (n : Nat) (v u : BitVec w) :
    topBits n (v ^^^ u) = List.zipWith xor (topBits n v) (topBits n u) := by
  unfold topBits
  rw [List.zipWith_map, List.zipWith_self]
  exact List.map_congr_left fun i _ => BitVec.getMsbD_xor

/-- A register that is fed its own topmost bits never meets the polynomial. -/
theorem serial_topBits (n : Nat) (v : BitVec w) : serial P v (topBits n v) = v <<< n := by
  induction n with
  | zero => exact (BitVec.shiftLeft_zero v).symm
  | succ n ih =>
      have hlast : topBits (n + 1) v = topBits n v ++ [v.getMsbD n] := by
        unfold topBits
        rw [List.range_succ, List.map_append]
        rfl
      rw [hlast, serial_append, ih]
      show feed P (v <<< n) (v.getMsbD n) = _
      rw [feed, if_pos BitVec.msb_shiftLeft, BitVec.shiftLeft_add]

/-! ## Tables -/

section

variable {T : UInt8 → UInt32} {P : BitVec 32}

theorem byteBits_xor (a b : UInt8) :
    byteBits (a ^^^ b) = List.zipWith xor (byteBits a) (byteBits b) := by
  unfold byteBits
  rw [UInt8.toBitVec_xor, topBits_xor]

theorem byteBits_top (v : UInt32) : byteBits (v >>> 24).toUInt8 = topBits 8 v.toBitVec := by
  have hbits : ∀ i < 8, (v >>> 24).toUInt8.toBitVec.getMsbD i = v.toBitVec.getMsbD i := by
    intro i hi
    rw [BitVec.getMsbD_eq_getLsbD, BitVec.getMsbD_eq_getLsbD, UInt32.toBitVec_toUInt8,
      UInt32.toBitVec_shiftRight]
    simp only [BitVec.getLsbD_setWidth, UInt32.toBitVec_ofNat, BitVec.ushiftRight_eq',
      BitVec.getLsbD_ushiftRight]
    have h8 : 8 - 1 - i < 8 := by omega
    have h32 : i < 32 := by omega
    have hpos : 24 + (8 - 1 - i) = 32 - 1 - i := by omega
    simp [hi, h8, h32, ← hpos]
  exact List.map_congr_left fun i hi => hbits i (List.mem_range.mp hi)

/-- Eight bits at once: the register moved up, and the remainder of the byte that its own top byte
and the incoming one make. -/
theorem serial_byte (v : UInt32) (b : UInt8) :
    serial P v.toBitVec (byteBits b) =
      (v.toBitVec <<< 8) ^^^ serial P 0#32 (byteBits (TableCrc.index v b)) := by
  have hsplit : byteBits b =
      List.zipWith xor (topBits 8 v.toBitVec) (byteBits (TableCrc.index v b)) := by
    rw [← byteBits_top, ← byteBits_xor, TableCrc.index, ← UInt8.xor_assoc, UInt8.xor_self,
      UInt8.zero_xor]
  have hlen : (topBits 8 v.toBitVec).length = (byteBits (TableCrc.index v b)).length := by
    rw [byteBits, topBits_length, topBits_length]
  calc serial P v.toBitVec (byteBits b)
      = serial P (v.toBitVec ^^^ 0#32)
          (List.zipWith xor (topBits 8 v.toBitVec) (byteBits (TableCrc.index v b))) := by
        rw [BitVec.xor_zero, ← hsplit]
    _ = (v.toBitVec <<< 8) ^^^ serial P 0#32 (byteBits (TableCrc.index v b)) := by
        rw [serial_xor P _ _ hlen, serial_topBits]

theorem step_toBitVec (hT : ∀ i, (T i).toBitVec = serial P 0#32 (byteBits i)) (v : UInt32)
    (b : UInt8) : (TableCrc.step T v b).toBitVec = serial P v.toBitVec (byteBits b) := by
  rw [serial_byte, TableCrc.step, UInt32.toBitVec_xor, hT, UInt32.toBitVec_shiftLeft]
  rfl

/-- A table of remainders gives the register that the bits give. -/
theorem run_toBitVec (hT : ∀ i, (T i).toBitVec = serial P 0#32 (byteBits i)) (v : UInt32)
    (bytes : List UInt8) :
    (TableCrc.run T v bytes).toBitVec = serial P v.toBitVec (bytes.flatMap byteBits) := by
  induction bytes generalizing v with
  | nil => rfl
  | cons b bytes ih =>
      show (TableCrc.run T (TableCrc.step T v b) bytes).toBitVec = _
      rw [ih, List.flatMap_cons, serial_append, step_toBitVec hT]

end

end BitCrc
end Lib
end Metamix
