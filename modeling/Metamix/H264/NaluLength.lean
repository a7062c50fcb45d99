/-
The length in front of a written SEI NALU.

It is an estimate made before the payloads are written.  `emitLength_exact_iff` says when it is
the number of bytes that follow, for every list of payloads: what the estimate makes up (header
bytes, a stop bit behind an empty payload) has to be as much as what it misses (escapes).
-/
import Metamix.H264.SeiNalu
import Mathlib.Data.Nat.ModEq

namespace Metamix
namespace H264

open Lib Binary

/-- An empty payload is written without a stop bit. -/
def stopBits (sei : SeiPayload) : Nat := if sei.data.isEmpty then 0 else 1

/-- The bytes a payload takes: its headers, its bytes, the escapes among them and the stop bit. -/
def writtenBytes (sei : SeiPayload) : Nat :=
  (Nat.log 255 sei.type.toNat + 1) + (Nat.log 255 sei.size + 1) +
    (sei.size + countEmulationPreventionBytes sei.data + missedEscapes sei.data + stopBits sei)

/-- The bytes the estimate counts and the emitter does not write. -/
def madeUp (sei : SeiPayload) : Nat := headerSurplus sei + (1 - stopBits sei)

/-- Over all payloads the escapes the estimate misses make up for the bytes it invents, as far as
32 bits tell, and the NALU is not too long. -/
def LengthRight (seis : List SeiPayload) : Prop :=
  (seis.map fun s => missedEscapes s.data).sum ≡ (seis.map madeUp).sum [MOD 2 ^ 32] ∧
    1 + (seis.map writtenBytes).sum < Nalu.maxLength

/-- What is written is a length of four bytes and as many bytes as it says. -/
def LengthExact (seis : List SeiPayload) : Prop :=
  ∃ length nalu, emitSeiPayloadsToAvccNalu seis = .ok (length ++ nalu) ∧ length.length = 4 ∧
    beNat length = nalu.length

/-! ## One payload -/

theorem stopBits_of_ne_nil {sei : SeiPayload} (h : sei.data ≠ []) : stopBits sei = 1 :=
  if_neg (by simpa using h)

theorem copySodbToEbsp_length_eq (sei : SeiPayload) :
    (copySodbToEbsp sei.data).length = sei.size + countEmulationPreventionBytes sei.data +
      missedEscapes sei.data + stopBits sei := by
  by_cases h : sei.data = []
  · rw [SeiPayload.size, stopBits, h]
    rfl
  · rw [copySodbToEbsp_length h, stopBits_of_ne_nil h]
    rfl

theorem emitSeiPayload_length_eq {sei : SeiPayload} (hsize : sei.size < 2 ^ 32) :
    (emitSeiPayload sei).length = writtenBytes sei := by
  rw [emitSeiPayload, List.length_append, List.length_append, emitVariadicLengthInt_length,
    emitVariadicLengthInt_length, copySodbToEbsp_length_eq, UInt32.toNat_ofNat',
    Nat.mod_eq_of_lt hsize, writtenBytes]
  omega

theorem size_le_emitSeiPayload_length (sei : SeiPayload) :
    sei.size ≤ (emitSeiPayload sei).length := by
  have hbytes := copySodbToEbsp_length_eq sei
  rw [emitSeiPayload, List.length_append, List.length_append]
  omega

theorem estimate_add_missed_eq {sei : SeiPayload} (hsize : sei.size < 2 ^ 32) :
    estimate sei + missedEscapes sei.data = writtenBytes sei + madeUp sei := by
  have hest := estimate_add_missed hsize
  have hstop : stopBits sei ≤ 1 := by
    unfold stopBits
    split <;> omega
  unfold payloadBytes at hest
  unfold writtenBytes madeUp
  omega

/-! ## All payloads -/

section Sums

variable {seis : List SeiPayload}

theorem size_le_seiNalu_length {s : SeiPayload} (h : s ∈ seis) :
    s.size ≤ (seiNalu seis).length := by
  have hsum := List.le_sum_of_mem (List.mem_map_of_mem (f := fun s => (emitSeiPayload s).length) h)
  have hle := size_le_emitSeiPayload_length s
  rw [seiNalu_length, List.length_flatMap]
  omega

theorem size_le_sum_writtenBytes {s : SeiPayload} (h : s ∈ seis) :
    s.size ≤ (seis.map writtenBytes).sum := by
  have hsum := List.le_sum_of_mem (List.mem_map_of_mem (f := writtenBytes) h)
  have hsize : s.size ≤ writtenBytes s := by
    unfold writtenBytes
    omega
  omega

theorem seiNalu_length_eq (hsize : ∀ s ∈ seis, s.size < 2 ^ 32) :
    (seiNalu seis).length = 1 + (seis.map writtenBytes).sum := by
  have hmap : seis.map (fun s => (emitSeiPayload s).length) = seis.map writtenBytes :=
    List.map_congr_left fun s hs => emitSeiPayload_length_eq (hsize s hs)
  rw [seiNalu_length, List.length_flatMap, hmap]

theorem sum_estimate (hsize : ∀ s ∈ seis, s.size < 2 ^ 32) :
    (seis.map estimate).sum + (seis.map fun s => missedEscapes s.data).sum =
      (seis.map writtenBytes).sum + (seis.map madeUp).sum := by
  induction seis with
  | nil => rfl
  | cons s seis ih =>
      have hhead := estimate_add_missed_eq (hsize s (List.mem_cons_self ..))
      have htail := ih fun t ht => hsize t (List.mem_cons_of_mem _ ht)
      simp only [List.map_cons, List.sum_cons]
      omega

/-- The estimate is the length, and small enough to be written, exactly under the condition on
the payloads. -/
theorem sizeHint_eq_seiNalu_length_iff :
    ((sizeHint seis).toNat = (seiNalu seis).length ∧ (seiNalu seis).length < Nalu.maxLength) ↔
      LengthRight seis := by
  have hmax : Nalu.maxLength < 2 ^ 32 := by decide
  have hword : (sizeHint seis).toNat = (1 + (seis.map estimate).sum) % 2 ^ 32 := by
    rw [sizeHint_eq, UInt32.toNat_ofNat']
  unfold LengthRight Nat.ModEq
  constructor
  · intro h
    obtain ⟨hhint, hlt⟩ := h
    have hsize : ∀ s ∈ seis, s.size < 2 ^ 32 := by
      intro s hs
      have := size_le_seiNalu_length hs
      omega
    have hlen := seiNalu_length_eq hsize
    have hsum := sum_estimate hsize
    omega
  · intro h
    obtain ⟨hmod, hlt⟩ := h
    have hsize : ∀ s ∈ seis, s.size < 2 ^ 32 := by
      intro s hs
      have := size_le_sum_writtenBytes hs
      omega
    have hlen := seiNalu_length_eq hsize
    have hsum := sum_estimate hsize
    omega

end Sums

theorem lengthExact_iff {seis : List SeiPayload} :
    LengthExact seis ↔ (sizeHint seis).toNat = (seiNalu seis).length ∧
      (seiNalu seis).length < Nalu.maxLength := by
  have hword : beNat (beBytes 4 (sizeHint seis).toNat) = (sizeHint seis).toNat := by
    rw [beNat_beBytes]
    exact Nat.mod_eq_of_lt (sizeHint seis).toNat_lt
  by_cases hlt : (sizeHint seis).toNat < Nalu.maxLength
  · have hemit := emitSeiPayloadsToAvccNalu_of_lt hlt
    constructor
    · intro h
      obtain ⟨length, nalu, hok, hfour, hexact⟩ := h
      rw [hemit, Except.ok.injEq] at hok
      obtain ⟨rfl, rfl⟩ := List.append_inj hok (by rw [beBytes_length, hfour])
      rw [hword] at hexact
      exact ⟨hexact, hexact ▸ hlt⟩
    · intro h
      exact ⟨_, _, hemit, beBytes_length 4 _, hword.trans h.1⟩
  · refine iff_of_false (fun h => ?_) fun h => hlt (h.1 ▸ h.2)
    obtain ⟨length, nalu, hok, -, -⟩ := h
    rw [emitSeiPayloadsToAvccNalu_of_not_lt hlt] at hok
    exact nomatch hok

/-- The length in front of a SEI NALU is the number of bytes behind it exactly if the estimate
makes up as much as it misses. -/
theorem emitLength_exact_iff (seis : List SeiPayload) : LengthExact seis ↔ LengthRight seis := by
  rw [lengthExact_iff, sizeHint_eq_seiNalu_length_iff]

/-- Three zeros are escaped and the escape is not counted: eight bytes stand behind a length of
seven. -/
theorem emitLength_zeros :
    emitSeiPayloadsToAvccNalu [⟨4, [0, 0, 0]⟩] =
        .ok ([0, 0, 0, 7] ++ [6, 4, 3, 0, 0, 3, 0, 0x80]) ∧
      ¬LengthExact [⟨4, [0, 0, 0]⟩] := by
  refine ⟨by decide, fun h => ?_⟩
  have hlen := (lengthExact_iff.mp h).1
  exact absurd hlen (by decide)

end H264
end Metamix
