/-
Writing NALUs.

`emit_sei_payloads_to_avcc_nalu` writes the length of the NALU first, from an
estimate, and only then the payloads.  The lemmas here say what the parts of a
payload look like and by how much the estimate can be off: a header of three bytes
or more is shorter than its estimate, and an escape before `00`, `01` or `02` is
not in it.
-/
import Metamix.H264.Rbsp
import Metamix.H264.NaluParser
import Metamix.H264.SeiParser
import Mathlib.Data.Nat.Log

namespace Metamix
namespace H264

open Lib Binary

/-! ## The emitter -/

def seiNaluTypeByte : UInt8 := 6

def variadicLengthIntSize (num : UInt32) : UInt32 := num / 255 + 1

/-- The loop of `emit_variadic_length_int`, which divides by 255 where the format asks
to take 255 off.  The first argument bounds the rounds. -/
def emitVariadicLengthIntLoop : Nat → Nat → Bytes
  | 0, _ => []
  | fuel + 1, num =>
      if num ≥ 255 then 0xff :: emitVariadicLengthIntLoop fuel (num / 255)
      else [UInt8.ofNat (num % 255)]

/-- Five divisions bring any `unsigned int` below 255. -/
def emitVariadicLengthInt (num : UInt32) : Bytes := emitVariadicLengthIntLoop 5 num.toNat

def emitNaluLength (naluLength : UInt32) : Except Fault Bytes :=
  if naluLength.toNat < Nalu.maxLength then .ok (beBytes 4 naluLength.toNat)
  else .error .assertion

/-- The sum in the first step is taken in `size_t` and cut to 32 bits. -/
def seiPayloadSizeHint (sei : SeiPayload) : UInt32 :=
  UInt32.ofNat (sei.size + countEmulationPreventionBytes sei.data + 1) +
    variadicLengthIntSize (UInt32.ofNat sei.size) + variadicLengthIntSize sei.type

def emitSeiPayload (sei : SeiPayload) : Bytes :=
  emitVariadicLengthInt sei.type ++ (emitVariadicLengthInt (UInt32.ofNat sei.size) ++
    copySodbToEbsp sei.data)

def sizeHint (seis : List SeiPayload) : UInt32 :=
  seis.foldl (fun x sei => x + seiPayloadSizeHint sei) 1

def emitSeiPayloadsToAvccNalu (seis : List SeiPayload) : Except Fault Bytes := do
  let length ← emitNaluLength (sizeHint seis)
  return length ++ (seiNaluTypeByte :: seis.flatMap emitSeiPayload)

def emitAvccNalu (nalu : Nalu) : Except Fault Bytes := do
  let length ← emitNaluLength (UInt32.ofNat nalu.size)
  return length ++ nalu.data

/-! ## Header integers as written -/

/-- The number a written header integer reads back as. -/
def writtenValue : Nat → Nat → Nat
  | 0, _ => 0
  | fuel + 1, num => if num ≥ 255 then 255 + writtenValue fuel (num / 255) else num

theorem emitVariadicLengthIntLoop_header {fuel num : Nat} (h : num < 255 ^ (fuel + 1)) :
    Header (emitVariadicLengthIntLoop (fuel + 1) num)
      (UInt32.ofNat (writtenValue (fuel + 1) num)) := by
  induction fuel generalizing num with
  | zero =>
      have hlt : ¬num ≥ 255 := by omega
      have hb : UInt8.ofNat (num % 255) ≠ 0xff := by
        intro hb
        have hb' := congrArg UInt8.toNat hb
        rw [UInt8.toNat_ofNat', show (0xff : UInt8).toNat = 255 from rfl] at hb'
        omega
      have hnum : (UInt8.ofNat (num % 255)).toUInt32 = UInt32.ofNat num := by
        apply UInt32.toNat_inj.mp
        rw [UInt8.toNat_toUInt32, UInt8.toNat_ofNat', UInt32.toNat_ofNat']
        omega
      rw [emitVariadicLengthIntLoop, writtenValue, if_neg hlt, if_neg hlt, ← hnum]
      exact .last hb
  | succ fuel ih =>
      unfold emitVariadicLengthIntLoop writtenValue
      by_cases hnum : num ≥ 255
      · have hdiv : num / 255 < 255 ^ (fuel + 1) := by
          rw [pow_succ] at h
          exact Nat.div_lt_of_lt_mul (by rwa [Nat.mul_comm] at h)
        rw [if_pos hnum, if_pos hnum, UInt32.ofNat_add]
        exact (ih hdiv).more
      · have hshort : num < 255 ^ (fuel + 1) := by
          have := Nat.one_le_pow fuel 255 (by decide)
          rw [pow_succ]
          omega
        have hlast := ih hshort
        unfold emitVariadicLengthIntLoop writtenValue at hlast
        rw [if_neg hnum, if_neg hnum] at hlast
        rwa [if_neg hnum, if_neg hnum]

theorem emitVariadicLengthInt_header (num : UInt32) :
    Header (emitVariadicLengthInt num) (UInt32.ofNat (writtenValue 5 num.toNat)) := by
  have h := num.toNat_lt
  exact emitVariadicLengthIntLoop_header (by omega)

theorem writtenValue_le (fuel num : Nat) : writtenValue fuel num ≤ num + 1 := by
  induction fuel generalizing num with
  | zero => exact Nat.zero_le _
  | succ fuel ih =>
      have htail := ih (num / 255)
      have hshort : num / 255 < 255 → writtenValue fuel (num / 255) ≤ num / 255 := by
        intro h
        cases fuel with
        | zero => exact Nat.zero_le _
        | succ fuel => rw [writtenValue, if_neg (by omega)]
      unfold writtenValue
      by_cases hnum : num ≥ 255
      · rw [if_pos hnum]
        rcases (by omega : num / 255 < 255 ∨ 255 ≤ num / 255) with h | h
        · have := hshort h
          omega
        · omega
      · rw [if_neg hnum]
        exact Nat.le_succ num

/-- A header integer survives only below 255, and at 256. -/
theorem writtenValue_eq_self (fuel : Nat) {num : Nat} :
    writtenValue (fuel + 2) num = num ↔ num < 255 ∨ num = 256 := by
  unfold writtenValue
  by_cases hnum : num ≥ 255
  · have htail := writtenValue_le (fuel + 1) (num / 255)
    have hone : num / 255 = 1 → writtenValue (fuel + 1) (num / 255) = 1 := by
      intro h
      rw [h]
      rfl
    rw [if_pos hnum]
    omega
  · rw [if_neg hnum]
    omega

/-- What a written header integer reads back as is the integer itself exactly when
dividing by 255 and subtracting 255 come to the same. -/
theorem ofNat_writtenValue {num : UInt32} :
    UInt32.ofNat (writtenValue 5 num.toNat) = num ↔ num.toNat < 255 ∨ num.toNat = 256 := by
  have hlt := num.toNat_lt
  have hle := writtenValue_le 5 num.toNat
  rw [← writtenValue_eq_self 3, ← UInt32.toNat_inj, UInt32.toNat_ofNat']
  constructor
  · intro h
    rcases (by omega : writtenValue 5 num.toNat < 2 ^ 32 ∨
        num.toNat = 2 ^ 32 - 1) with hsmall | hbig
    · rwa [Nat.mod_eq_of_lt hsmall] at h
    · rw [hbig] at h
      exact absurd h (by decide)
  · intro h
    rw [h, Nat.mod_eq_of_lt hlt]

theorem emitVariadicLengthIntLoop_length {fuel num : Nat} (h : num < 255 ^ (fuel + 1)) :
    (emitVariadicLengthIntLoop (fuel + 1) num).length = Nat.log 255 num + 1 := by
  induction fuel generalizing num with
  | zero =>
      have hlt : num < 255 := by omega
      rw [emitVariadicLengthIntLoop, if_neg (by omega), Nat.log_of_lt hlt]
      rfl
  | succ fuel ih =>
      unfold emitVariadicLengthIntLoop
      by_cases hnum : num ≥ 255
      · have hdiv : num / 255 < 255 ^ (fuel + 1) := by
          rw [pow_succ] at h
          exact Nat.div_lt_of_lt_mul (by rwa [Nat.mul_comm] at h)
        rw [if_pos hnum, List.length_cons, ih hdiv, Nat.log_of_one_lt_of_le (by decide) hnum]
      · rw [if_neg hnum, Nat.log_of_lt (by omega)]
        rfl

/-- A header integer has a byte for each base-255 digit. -/
theorem emitVariadicLengthInt_length (num : UInt32) :
    (emitVariadicLengthInt num).length = Nat.log 255 num.toNat + 1 := by
  have h := num.toNat_lt
  exact emitVariadicLengthIntLoop_length (by omega)

theorem variadicLengthIntSize_toNat (num : UInt32) :
    (variadicLengthIntSize num).toNat = num.toNat / 255 + 1 := by
  have hlt := num.toNat_lt
  rw [variadicLengthIntSize, UInt32.toNat_add, UInt32.toNat_div,
    show (255 : UInt32).toNat = 255 from rfl, show (1 : UInt32).toNat = 1 from rfl,
    Nat.mod_eq_of_lt (by omega)]

theorem log_le_div (num : Nat) : Nat.log 255 num ≤ num / 255 := by
  by_cases hnum : num < 255
  · rw [Nat.log_of_lt hnum]
    exact Nat.zero_le _
  · rw [Nat.log_of_one_lt_of_le (by decide) (by omega)]
    exact Nat.log_lt_self 255 (by omega)

theorem emitVariadicLengthIntLoop_ne_zero {fuel num : Nat} (h : 0 < num) :
    ∀ b ∈ emitVariadicLengthIntLoop fuel num, b ≠ 0 := by
  induction fuel generalizing num with
  | zero => exact fun b hb => absurd hb List.not_mem_nil
  | succ fuel ih =>
      intro b hb
      unfold emitVariadicLengthIntLoop at hb
      split at hb
      · rcases List.mem_cons.mp hb with rfl | hb
        · decide
        · exact ih (by omega) b hb
      · rw [List.mem_singleton] at hb
        rw [hb]
        intro h0
        have h0' := congrArg UInt8.toNat h0
        rw [UInt8.toNat_ofNat', UInt8.toNat_zero] at h0'
        omega

theorem emitVariadicLengthInt_zero : emitVariadicLengthInt 0 = [0] := rfl

theorem emitVariadicLengthInt_ne_zero {num : UInt32} (h : num ≠ 0) :
    ∀ b ∈ emitVariadicLengthInt num, b ≠ 0 :=
  emitVariadicLengthIntLoop_ne_zero (Nat.pos_of_ne_zero fun h0 => h (UInt32.toNat_inj.mp h0))

/-- The two headers of a payload leave a clean window: only a type of 0 is a zero, and the size
behind it is not. -/
theorem headers_sparse (ty : UInt32) {size : UInt32} (hsize : size ≠ 0) :
    Sparse (emitVariadicLengthInt ty ++ emitVariadicLengthInt size) := by
  have hs := emitVariadicLengthInt_ne_zero hsize
  by_cases hty : ty = 0
  · have hne := (emitVariadicLengthInt_header size).ne_nil
    rw [hty, emitVariadicLengthInt_zero]
    cases hw : emitVariadicLengthInt size with
    | nil => exact absurd hw hne
    | cons b w =>
        rw [hw] at hs
        exact .zero (hs b (List.mem_cons_self ..))
          (.of_ne_zero fun c hc => hs c (List.mem_cons_of_mem _ hc))
  · exact (Sparse.of_ne_zero (emitVariadicLengthInt_ne_zero hty)).append (.of_ne_zero hs)

/-! ## The estimate -/

/-- What the estimate counts for one payload. -/
def estimate (sei : SeiPayload) : Nat :=
  (sei.size + countEmulationPreventionBytes sei.data + 1) +
    (sei.size % 2 ^ 32 / 255 + 1) + (sei.type.toNat / 255 + 1)

/-- The bytes it counts for the two headers that are not written. -/
def headerSurplus (sei : SeiPayload) : Nat :=
  (sei.type.toNat / 255 - Nat.log 255 sei.type.toNat) + (sei.size / 255 - Nat.log 255 sei.size)

/-- The bytes a payload takes: its headers, its bytes, the escapes among them and the stop
bit. -/
def payloadBytes (sei : SeiPayload) : Nat :=
  (Nat.log 255 sei.type.toNat + 1) + (Nat.log 255 sei.size + 1) +
    (sei.size + countEmulationPreventionBytes sei.data + missedEscapes sei.data + 1)

theorem copySodbToEbsp_length {data : Bytes} (h : data ≠ []) :
    (copySodbToEbsp data).length =
      data.length + countEmulationPreventionBytes data + missedEscapes data + 1 := by
  rw [copySodbToEbsp, copyToEbspImpl, if_neg (by simpa using h), if_pos rfl,
    List.length_append, escape_length]
  rfl

theorem emitSeiPayload_length {sei : SeiPayload} (h : sei.data ≠ [])
    (hsize : sei.size < 2 ^ 32) : (emitSeiPayload sei).length = payloadBytes sei := by
  rw [emitSeiPayload, List.length_append, List.length_append, emitVariadicLengthInt_length,
    emitVariadicLengthInt_length, copySodbToEbsp_length h, UInt32.toNat_ofNat',
    Nat.mod_eq_of_lt hsize, payloadBytes, ← SeiPayload.size]
  omega

/-- The estimate is off by the escapes it misses and the header bytes it makes up. -/
theorem estimate_add_missed {sei : SeiPayload} (hsize : sei.size < 2 ^ 32) :
    estimate sei + missedEscapes sei.data = payloadBytes sei + headerSurplus sei := by
  have htype := log_le_div sei.type.toNat
  have hlen := log_le_div sei.size
  rw [estimate, payloadBytes, headerSurplus, Nat.mod_eq_of_lt hsize]
  omega

theorem seiPayloadSizeHint_eq (sei : SeiPayload) :
    seiPayloadSizeHint sei = UInt32.ofNat (estimate sei) := by
  have hdiv : ∀ n : UInt32, variadicLengthIntSize n = UInt32.ofNat (n.toNat / 255 + 1) := by
    intro n
    rw [← variadicLengthIntSize_toNat, UInt32.ofNat_toNat]
  rw [seiPayloadSizeHint, hdiv, hdiv, UInt32.toNat_ofNat', estimate]
  simp only [UInt32.ofNat_add]

theorem sizeHint_eq (seis : List SeiPayload) :
    sizeHint seis = UInt32.ofNat (1 + (seis.map estimate).sum) := by
  have hfold : ∀ n : Nat, seis.foldl (fun x sei => x + seiPayloadSizeHint sei) (UInt32.ofNat n) =
      UInt32.ofNat (n + (seis.map estimate).sum) := by
    induction seis with
    | nil => exact fun n => rfl
    | cons sei seis ih =>
        intro n
        rw [List.foldl_cons, seiPayloadSizeHint_eq, ← UInt32.ofNat_add, ih, List.map_cons,
          List.sum_cons, Nat.add_assoc]
  exact hfold 1

end H264
end Metamix
