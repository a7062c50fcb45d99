/-
Checksum registers driven by a table.

A step shifts the register up by one byte and adds the table entry that its top byte and the
input byte select.  If no two entries have the same low byte, a step can be undone, and a
register shows which of the last bytes have changed: two runs from one state over different
strings of at most four bytes end in different states.
-/
import Mathlib.Data.Nat.Bitwise
import Mathlib.Data.List.Nodup

namespace Metamix
namespace Lib
namespace TableCrc

def index (v : UInt32) (b : UInt8) : UInt8 := (v >>> 24).toUInt8 ^^^ b

variable (T : UInt8 → UInt32)

def step (v : UInt32) (b : UInt8) : UInt32 := (v <<< 8) ^^^ T (index v b)

def run (v : UInt32) (bytes : List UInt8) : UInt32 := bytes.foldl (step T) v

/-- The registers agree on their `j` low bytes. -/
def AgreeLow (j : Nat) (v w : UInt32) : Prop := v.toNat % 2 ^ (8 * j) = w.toNat % 2 ^ (8 * j)

theorem agreeLow_mono {j k : Nat} (hjk : j ≤ k) {v w : UInt32} (h : AgreeLow k v w) :
    AgreeLow j v w := by
  have hdvd : 2 ^ (8 * j) ∣ 2 ^ (8 * k) := Nat.pow_dvd_pow 2 (by omega)
  unfold AgreeLow at *
  rw [← Nat.mod_mod_of_dvd v.toNat hdvd, h, Nat.mod_mod_of_dvd w.toNat hdvd]

theorem step_toNat (v : UInt32) (b : UInt8) :
    (step T v b).toNat = v.toNat * 2 ^ 8 % 2 ^ 32 ^^^ (T (index v b)).toNat := by
  rw [step, UInt32.toNat_xor, UInt32.toNat_shiftLeft]
  rw [show (8 : UInt32).toNat % 32 = 8 from rfl, Nat.shiftLeft_eq]

variable {T}

/-- The low byte of the register tells the entry that was added last. -/
theorem index_eq_of_agreeLow (hT : Function.Injective fun i => (T i).toUInt8) {v w : UInt32}
    {b c : UInt8} {j : Nat} (h : AgreeLow (j + 1) (step T v b) (step T w c)) :
    index v b = index w c := by
  have hlow : ∀ (v : UInt32) (b : UInt8),
      (step T v b).toNat % 2 ^ 8 = (T (index v b)).toNat % 2 ^ 8 := by
    intro v b
    have hzero : v.toNat * 2 ^ 8 % 2 ^ 32 % 2 ^ 8 = 0 := by omega
    rw [step_toNat, Nat.xor_mod_two_pow, hzero, Nat.zero_xor]
  have hone := agreeLow_mono (Nat.le_add_left 1 j) h
  rw [AgreeLow, Nat.mul_one, hlow, hlow] at hone
  apply hT
  apply UInt8.toNat_inj.mp
  show (T (index v b)).toUInt8.toNat = (T (index w c)).toUInt8.toNat
  rw [UInt32.toNat_toUInt8, UInt32.toNat_toUInt8, hone]

theorem xor_left_cancel {a b t : Nat} (h : a ^^^ t = b ^^^ t) : a = b := by
  have hcancel := congrArg (· ^^^ t) h
  simpa only [Nat.xor_assoc, Nat.xor_self, Nat.xor_zero] using hcancel

/-- One step back loses one byte of what is known of the registers. -/
theorem agreeLow_of_step (hT : Function.Injective fun i => (T i).toUInt8) {v w : UInt32}
    {b c : UInt8} {j : Nat} (hj : j < 4) (h : AgreeLow (j + 1) (step T v b) (step T w c)) :
    AgreeLow j v w := by
  have hindex := index_eq_of_agreeLow hT h
  unfold AgreeLow at *
  rw [step_toNat, step_toNat, hindex, Nat.xor_mod_two_pow, Nat.xor_mod_two_pow] at h
  have hshift := xor_left_cancel h
  have hle : 2 ^ (8 * (j + 1)) ∣ 2 ^ 32 := Nat.pow_dvd_pow 2 (by omega)
  rw [Nat.mod_mod_of_dvd _ hle, Nat.mod_mod_of_dvd _ hle, show 8 * (j + 1) = 8 * j + 8 by omega,
    Nat.pow_add, Nat.mul_mod_mul_right, Nat.mul_mod_mul_right] at hshift
  exact Nat.eq_of_mul_eq_mul_right (by decide) hshift

theorem agreeLow_of_run (hT : Function.Injective fun i => (T i).toUInt8) {bs cs : List UInt8}
    {v w : UInt32} {j : Nat} (hlen : bs.length = cs.length) (hj : bs.length + j ≤ 4)
    (h : AgreeLow (bs.length + j) (run T v bs) (run T w cs)) : AgreeLow j v w := by
  induction bs generalizing cs v w j with
  | nil =>
      rw [List.length_eq_zero_iff.mp hlen.symm] at h
      rwa [List.length_nil, Nat.zero_add] at h
  | cons b bs ih =>
      cases cs with
      | nil => cases hlen
      | cons c cs =>
          rw [List.length_cons] at hj h
          have hstep := ih (j := j + 1) (Nat.succ.inj hlen) (by omega)
            (by rwa [Nat.add_assoc, Nat.add_comm 1 j] at h)
          exact agreeLow_of_step hT (by omega) hstep

/-- From one state no two strings of at most four bytes lead to the same state. -/
theorem run_short_injective (hT : Function.Injective fun i => (T i).toUInt8) {bs cs : List UInt8}
    {v : UInt32} (hlen : bs.length = cs.length) (hle : bs.length ≤ 4)
    (h : run T v bs = run T v cs) : bs = cs := by
  induction bs generalizing cs v with
  | nil => exact (List.length_eq_zero_iff.mp hlen.symm).symm
  | cons b bs ih =>
      cases cs with
      | nil => cases hlen
      | cons c cs =>
          rw [List.length_cons] at hle
          have hlen' : bs.length = cs.length := Nat.succ.inj hlen
          have hone : AgreeLow 1 (step T v b) (step T v c) := by
            refine agreeLow_of_run hT hlen' (by omega) ?_
            have heq : run T (step T v b) bs = run T (step T v c) cs := h
            rw [heq]
            rfl
          have hindex : index v b = index v c := index_eq_of_agreeLow (j := 0) hT hone
          obtain rfl : b = c := by
            unfold index at hindex
            exact (UInt8.xor_right_inj _).mp hindex
          rw [ih hlen' (by omega) h]

theorem step_injective (hT : Function.Injective fun i => (T i).toUInt8) {b : UInt8}
    {v w : UInt32} (h : step T v b = step T w b) : v = w := by
  have hall : AgreeLow (3 + 1) (step T v b) (step T w b) := by
    rw [h]
    rfl
  have hlow := agreeLow_of_step hT (by omega) hall
  have hindex := index_eq_of_agreeLow hT hall
  have htop : (v >>> 24).toUInt8.toNat = (w >>> 24).toUInt8.toNat := by
    unfold index at hindex
    rw [(UInt8.xor_left_inj _).mp hindex]
  have hv := v.toNat_lt
  have hw := w.toNat_lt
  unfold AgreeLow at hlow
  simp only [UInt32.toNat_toUInt8, UInt32.toNat_shiftRight, UInt32.reduceToNat, Nat.reduceMod,
    Nat.shiftRight_eq_div_pow] at htop
  apply UInt32.toNat_inj.mp
  omega

theorem run_injective (hT : Function.Injective fun i => (T i).toUInt8) {bytes : List UInt8}
    {v w : UInt32} (h : run T v bytes = run T w bytes) : v = w := by
  induction bytes generalizing v w with
  | nil => exact h
  | cons b bytes ih => exact step_injective hT (ih h)

theorem run_append (v : UInt32) (as bs : List UInt8) :
    run T v (as ++ bs) = run T (run T v as) bs := List.foldl_append

/-- Two strings that differ in at most four bytes in a row have different checksums. -/
theorem run_burst (hT : Function.Injective fun i => (T i).toUInt8) {v : UInt32}
    {front w w' back : List UInt8} (hlen : w.length = w'.length) (hle : w.length ≤ 4)
    (h : run T v (front ++ (w ++ back)) = run T v (front ++ (w' ++ back))) : w = w' := by
  rw [run_append, run_append, run_append, run_append] at h
  exact run_short_injective hT hlen hle (run_injective hT h)

/-! ## Distinct entries -/

/-- No entry occurs twice, nor is it in the set whose members are the bits of `seen`. -/
def distinct (seen : Nat) : List Nat → Bool
  | [] => true
  | n :: ns => !seen.testBit n && distinct (seen ||| 1 <<< n) ns

theorem nodup_of_distinct {seen : Nat} {ns : List Nat} (h : distinct seen ns = true) :
    ns.Nodup ∧ ∀ n ∈ ns, seen.testBit n = false := by
  induction ns generalizing seen with
  | nil => exact ⟨List.nodup_nil, fun n hn => absurd hn List.not_mem_nil⟩
  | cons n ns ih =>
      simp only [distinct, Bool.and_eq_true, Bool.not_eq_true'] at h
      obtain ⟨hhead, htail⟩ := h
      obtain ⟨hnodup, hall⟩ := ih htail
      have hrest : ∀ m ∈ ns, seen.testBit m = false ∧ (1 <<< n).testBit m = false := by
        intro m hm
        have hor := hall m hm
        rw [Nat.testBit_or, Bool.or_eq_false_iff] at hor
        exact hor
      refine ⟨List.nodup_cons.mpr ⟨fun hmem => ?_, hnodup⟩, fun m hm => ?_⟩
      · have hbit := (hrest n hmem).2
        rw [Nat.one_shiftLeft, Nat.testBit_two_pow_self] at hbit
        cases hbit
      · rcases List.mem_cons.mp hm with rfl | hm
        · exact hhead
        · exact (hrest m hm).1

end TableCrc
end Lib
end Metamix
