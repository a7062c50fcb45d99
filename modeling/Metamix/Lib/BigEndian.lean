/-
Big-endian byte strings and the numbers they stand for.

`beBytes k n` is the `k`-byte big-endian string of `n`, with everything above
`256 ^ k` cut off, and `beNat` reads a string back.  The two are inverse to each
other on strings of a fixed length, and both respect concatenation, which is what
a proof about a field written next to another field uses.
-/
import Mathlib.Data.Nat.Bitwise
import Mathlib.Tactic.Ring

namespace Metamix
namespace Lib

/-- A quantifier over one byte is a finite check. -/
instance decidableForallUInt8 {p : UInt8 → Prop} [DecidablePred p] :
    Decidable (∀ b, p b) :=
  decidable_of_iff (∀ v : BitVec 8, p (.ofBitVec v))
    ⟨fun h b => by simpa using h b.toBitVec, fun h v => h _⟩

def beBytes : Nat → Nat → List UInt8
  | 0, _ => []
  | k + 1, n => UInt8.ofNat (n / 256 ^ k) :: beBytes k n

def beNat : List UInt8 → Nat
  | [] => 0
  | b :: bs => b.toNat * 256 ^ bs.length + beNat bs

@[simp] theorem beBytes_length (k n : Nat) : (beBytes k n).length = k := by
  induction k with
  | zero => rfl
  | succ k ih => simp [beBytes, ih]

theorem beNat_lt (bs : List UInt8) : beNat bs < 256 ^ bs.length := by
  induction bs with
  | nil => simp [beNat]
  | cons b bs ih =>
      have hb := b.toNat_lt
      calc
        b.toNat * 256 ^ bs.length + beNat bs
            < b.toNat * 256 ^ bs.length + 256 ^ bs.length := by omega
        _ = (b.toNat + 1) * 256 ^ bs.length := by ring
        _ ≤ 256 * 256 ^ bs.length := Nat.mul_le_mul_right _ (by omega)
        _ = 256 ^ (bs.length + 1) := by ring

theorem beNat_beBytes (k n : Nat) : beNat (beBytes k n) = n % 256 ^ k := by
  induction k with
  | zero => simp [beBytes, beNat, Nat.mod_one]
  | succ k ih =>
      have hbyte : (UInt8.ofNat (n / 256 ^ k)).toNat = n / 256 ^ k % 256 := by simp
      rw [beBytes, beNat, ih, beBytes_length, hbyte, pow_succ, Nat.mod_mul]
      ring

/-- Reading back a number that fits the field returns it. -/
theorem beNat_beBytes_of_lt {k n : Nat} (h : n < 256 ^ k) :
    beNat (beBytes k n) = n := by
  rw [beNat_beBytes, Nat.mod_eq_of_lt h]

theorem beBytes_add (k l n : Nat) :
    beBytes (k + l) n = beBytes k (n / 256 ^ l) ++ beBytes l n := by
  induction k with
  | zero => simp [beBytes]
  | succ k ih =>
      rw [Nat.add_right_comm, beBytes, ih, beBytes, Nat.div_div_eq_div_mul,
        Nat.pow_add, Nat.mul_comm (256 ^ k), List.cons_append]

/-- Only the part of the number that fits the field is written. -/
theorem beBytes_mod (k l n : Nat) (h : k ≤ l) :
    beBytes k (n % 256 ^ l) = beBytes k n := by
  induction k with
  | zero => rfl
  | succ k ih =>
      rw [beBytes, beBytes, ih (by omega)]
      congr 1
      apply UInt8.toNat_inj.mp
      obtain ⟨d, rfl⟩ : ∃ d, l = k + 1 + d := ⟨l - (k + 1), by omega⟩
      rw [UInt8.toNat_ofNat', UInt8.toNat_ofNat', pow_add, pow_succ,
        Nat.mul_assoc, Nat.mod_mul_right_div_self, Nat.mod_mul_right_mod]

/-- Two numbers below the field's bound with the same bytes are the same. -/
theorem beBytes_inj {k m n : Nat} (hm : m < 256 ^ k) (hn : n < 256 ^ k)
    (h : beBytes k m = beBytes k n) : m = n := by
  rw [← beNat_beBytes_of_lt hm, ← beNat_beBytes_of_lt hn, h]

theorem beNat_inj {as bs : List UInt8} (hl : as.length = bs.length)
    (h : beNat as = beNat bs) : as = bs := by
  induction as generalizing bs with
  | nil => exact (List.length_eq_zero_iff.mp hl.symm).symm
  | cons a as ih =>
      cases bs with
      | nil => cases hl
      | cons b bs =>
          have hl' : as.length = bs.length := Nat.succ.inj hl
          have ha := beNat_lt as
          have hb := beNat_lt bs
          simp only [beNat, hl'] at h ha
          have hpos : 0 < 256 ^ bs.length := Nat.pow_pos (by decide)
          have hdiv : a.toNat = b.toNat := by
            have h1 := Nat.mul_add_div hpos a.toNat (beNat as)
            have h2 := Nat.mul_add_div hpos b.toNat (beNat bs)
            rw [Nat.div_eq_of_lt ha, Nat.mul_comm, Nat.add_zero] at h1
            rw [Nat.div_eq_of_lt hb, Nat.mul_comm, Nat.add_zero] at h2
            rw [← h1, ← h2, h]
          have htail : beNat as = beNat bs := by
            rw [hdiv] at h
            omega
          rw [UInt8.toNat_inj.mp hdiv, ih hl' htail]

/-- A string is the encoding of the number it stands for. -/
theorem beBytes_beNat (bs : List UInt8) : beBytes bs.length (beNat bs) = bs :=
  beNat_inj (beBytes_length _ _) (beNat_beBytes_of_lt (beNat_lt bs))

/-- Masking one byte out of a word and shifting it down is a division. -/
theorem and_byte_shiftRight (n k : Nat) :
    ((n &&& (255 <<< k)) >>> k) % 256 = n / 2 ^ k % 256 := by
  rw [Nat.shiftRight_and_distrib, Nat.shiftLeft_shiftRight,
    Nat.shiftRight_eq_div_pow, show 255 = 2 ^ 8 - 1 from rfl,
    Nat.and_two_pow_sub_one_eq_mod, Nat.mod_mod]

theorem mod_byte_and (n : Nat) : n % 256 &&& 255 = n % 256 := by
  rw [show 255 = 2 ^ 8 - 1 from rfl, Nat.and_two_pow_sub_one_eq_mod, Nat.mod_mod]

theorem and_mask (n k j : Nat) : n &&& ((2 ^ k - 1) <<< j) = n / 2 ^ j % 2 ^ k * 2 ^ j := by
  apply Nat.eq_of_testBit_eq
  intro i
  rw [← Nat.shiftLeft_eq, Nat.testBit_and, Nat.testBit_shiftLeft, Nat.testBit_shiftLeft,
    Nat.testBit_two_pow_sub_one, Nat.testBit_mod_two_pow, Nat.testBit_div_two_pow]
  by_cases h : j ≤ i
  · have hplace : j + (i - j) = i := by omega
    simp [h, Bool.and_comm, Nat.add_comm, hplace]
  · simp [h]

end Lib
end Metamix
