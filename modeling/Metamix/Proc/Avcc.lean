/-
AVCC framing there and back.

`emitNalus` writes what `avPacketNaluParser` reads, and the parser accepts one length the
emitter does not: a NALU of exactly `Nalu.maxLength` bytes is parsed and cannot be emitted
again.
-/
import Metamix.Proc.Remux

namespace Metamix
namespace Proc

open Lib Binary BinaryParser H264

def BelowMax (nalus : List Nalu) : Prop := ∀ n ∈ nalus, n.size ≠ Nalu.maxLength

/-- No way to cut the packet into frames gives a NALU as long as the parser accepts. -/
def FramesBelowMax (data : Bytes) : Prop :=
  ∀ nalus, data = nalus.flatMap frame → (∀ n ∈ nalus, n.size ≤ Nalu.maxLength) → BelowMax nalus

theorem emitAvccNalu_of_not_lt {n : Nalu} (h : n.size = Nalu.maxLength) :
    emitAvccNalu n = .error .assertion := by
  have hmax : Nalu.maxLength < 2 ^ 32 := by decide
  have hword : (UInt32.ofNat n.size).toNat = n.size := by
    rw [UInt32.toNat_ofNat', Nat.mod_eq_of_lt (by omega)]
  rw [emitAvccNalu, emitNaluLength, hword, if_neg (by omega)]
  rfl

theorem emitNalus_eq_ok_iff {nalus : List Nalu} {data : Bytes}
    (h : ∀ n ∈ nalus, n.size ≤ Nalu.maxLength) :
    emitNalus nalus = .ok data ↔ data = nalus.flatMap frame ∧ BelowMax nalus := by
  by_cases hbelow : BelowMax nalus
  · have hlt : ∀ n ∈ nalus, n.size < Nalu.maxLength := by
      intro n hn
      have := h n hn
      have := hbelow n hn
      omega
    rw [emitNalus_of_lt hlt, and_iff_left hbelow, Except.ok.injEq, eq_comm]
  · rw [iff_false_intro hbelow, and_false, iff_false]
    induction nalus generalizing data with
    | nil => exact absurd (fun n hn => absurd hn List.not_mem_nil) hbelow
    | cons n nalus ih =>
        by_cases hn : n.size = Nalu.maxLength
        · rw [emitNalus, emitAvccNalu_of_not_lt hn]
          exact fun hok => by cases hok
        · have hhead := h n (List.mem_cons_self ..)
          have htail : ¬BelowMax nalus := by
            intro ht
            refine hbelow fun m hm => ?_
            rcases List.mem_cons.mp hm with rfl | hm
            · exact hn
            · exact ht m hm
          rw [emitNalus, emitAvccNalu_of_lt (by omega), ok_bind]
          intro hok
          obtain ⟨rest, hrest, -⟩ := of_bind_eq_ok hok
          exact ih (fun m hm => h m (List.mem_cons_of_mem _ hm)) htail hrest

def EmitsBack (nalus : List Nalu) : Prop :=
  ∃ data, emitNalus nalus = .ok data ∧ drain avPacketNaluParser data = (nalus, none)

theorem emitsBack_iff {nalus : List Nalu} (h : ∀ n ∈ nalus, n.size ≤ Nalu.maxLength) :
    EmitsBack nalus ↔ BelowMax nalus := by
  constructor
  · intro hback
    obtain ⟨data, hemit, _⟩ := hback
    exact ((emitNalus_eq_ok_iff h).mp hemit).2
  · intro hbelow
    exact ⟨nalus.flatMap frame, (emitNalus_eq_ok_iff h).mpr ⟨rfl, hbelow⟩,
      (drain_eq_none _).mpr (splits_iff_frames.mpr ⟨rfl, h⟩)⟩

theorem emitNalus_drained_iff {data : Bytes} {nalus : List Nalu}
    (h : drain avPacketNaluParser data = (nalus, none)) :
    emitNalus nalus = .ok data ↔ FramesBelowMax data := by
  obtain ⟨hdata, hmax⟩ := splits_iff_frames.mp ((drain_eq_none _).mp h)
  rw [emitNalus_eq_ok_iff hmax, and_iff_right hdata]
  constructor
  · intro hbelow nalus' hdata' hmax'
    have hdrain' := (drain_eq_none _).mpr (splits_iff_frames.mpr ⟨hdata', hmax'⟩)
    rw [h] at hdrain'
    cases hdrain'
    exact hbelow
  · intro hframes
    exact hframes nalus hdata hmax

/-- Framing is lossless both ways exactly below the longest length the parser accepts. -/
theorem avcc_lossless_iff (nalus : List Nalu) (data : Bytes) :
    ((∀ n ∈ nalus, n.size ≤ Nalu.maxLength) → (EmitsBack nalus ↔ BelowMax nalus)) ∧
    (drain avPacketNaluParser data = (nalus, none) →
      (emitNalus nalus = .ok data ↔ FramesBelowMax data)) :=
  ⟨emitsBack_iff, emitNalus_drained_iff⟩

theorem framesBelowMax_of_length {data : Bytes} (h : data.length < Nalu.maxLength) :
    FramesBelowMax data := by
  intro nalus hdata _ n hn
  have hsum := List.le_sum_of_mem (List.mem_map_of_mem (f := fun n => (frame n).length) hn)
  rw [← List.length_flatMap, ← hdata, frame, List.length_append] at hsum
  have hsize : n.size = n.data.length := rfl
  omega

/-- A delimiter and a slice. -/
theorem avcc_lossless_slice :
    EmitsBack [⟨[9, 16], by decide⟩, ⟨[101, 7], by decide⟩] ∧
      emitNalus [⟨[9, 16], by decide⟩, ⟨[101, 7], by decide⟩] =
        .ok [0, 0, 0, 2, 9, 16, 0, 0, 0, 2, 101, 7] :=
  have hlossless := avcc_lossless_iff [⟨[9, 16], by decide⟩, ⟨[101, 7], by decide⟩]
    [0, 0, 0, 2, 9, 16, 0, 0, 0, 2, 101, 7]
  ⟨(hlossless.1 (by decide)).mpr (by unfold BelowMax; decide),
    (hlossless.2 (by decide)).mpr (framesBelowMax_of_length (by decide))⟩

/-- A NALU of the longest length is accepted by the parser and trips the emitter's assertion. -/
theorem emitNalus_longest :
    ∃ n : Nalu, n.size ≤ Nalu.maxLength ∧ emitNalus [n] = .error .assertion ∧
      ∃ data, drain avPacketNaluParser data = ([n], none) := by
  have hsize : Nalu.size ⟨List.replicate Nalu.maxLength 0, by
      rw [Ne, List.replicate_eq_nil_iff]
      decide⟩ = Nalu.maxLength := List.length_replicate
  refine ⟨⟨List.replicate Nalu.maxLength 0, _⟩, Nat.le_of_eq hsize, ?_, _,
    (drain_eq_none _).mpr (splits_iff_frames.mpr ⟨rfl, ?_⟩)⟩
  · rw [emitNalus, emitAvccNalu_of_not_lt hsize]
    rfl
  · intro n hn
    rw [List.mem_singleton.mp hn]
    exact Nat.le_of_eq hsize

end Proc
end Metamix
