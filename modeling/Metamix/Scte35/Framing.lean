/-
Sections one after the other.

A section is parsed the same way whatever follows it, and a pointer field in front of it only
moves its bounds.  So a buffer that is made of sections drains into them.
-/
import Metamix.Scte35.Bounds

namespace Metamix
namespace Scte35

open Lib Lib.Reader Binary BinaryParser

variable (order : EvalOrder)

/-- The bytes are those of one section, without a pointer field. -/
structure IsSection (bytes : Bytes) (s : SpliceInfoSection) : Prop where
  starts : bytes.head? = some SpliceInfoSection.tableId
  parses : (create bytes).next (scte35Parser order) = (.ok (some s), ⟨bytes.length, []⟩)

variable {order}

theorem IsSection.spec {bytes : Bytes} {s : SpliceInfoSection} (h : IsSection order bytes s) :
    ∃ flags low rest, bytes = SpliceInfoSection.tableId :: flags :: low :: rest ∧
      Announces flags low rest.length ∧ 17 ≤ rest.length ∧ rest.length ≤ 4093 ∧
      ∀ b, scte35ParserPack order b bytes = .ok s := by
  obtain ⟨bounds, hnext, _, _, hpack, hstate⟩ := (next_eq_some _).mp h.parses
  obtain ⟨c, flags, low, rest, n, hbytes, hann, hge, hle, hfit, rfl⟩ :=
    scte35ParserNext_eq_some.mp hnext
  change bytes = _ at hbytes
  obtain rfl : c = false := by
    cases c with
    | false => rfl
    | true =>
        have hstart := h.starts
        rw [hbytes] at hstart
        exact absurd (Option.some.inj hstart) (by decide)
  have hconsumed : bytes.length = 0 + (0 + (3 + n)) := congrArg BinaryParser.consumed hstate
  have hlen : bytes.length = 3 + rest.length := by
    rw [hbytes, List.length_append]
    simp only [List.length_cons, pointerField, Bool.false_eq_true, if_false, List.length_nil]
    omega
  obtain rfl : n = rest.length := by omega
  have hwhole : (bytes.drop 0).take (3 + rest.length) = bytes :=
    List.take_of_length_le (by rw [List.drop_zero]; omega)
  change scte35ParserPack order ⟨0, 3 + rest.length⟩ ((bytes.drop 0).take (3 + rest.length)) =
    .ok s at hpack
  rw [hwhole] at hpack
  have hge' : 17 ≤ 0 + rest.length := hge
  exact ⟨flags, low, rest, hbytes, hann, by omega, hle, fun _ => hpack⟩

/-- One section of a buffer: whether there is a pointer field, its bytes and its value. -/
structure Item where
  pointer : Bool
  bytes : Bytes
  value : SpliceInfoSection

def Item.emit (i : Item) : Bytes := pointerField i.pointer ++ i.bytes

theorem splits_sections {items : List Item} (h : ∀ i ∈ items, IsSection order i.bytes i.value) :
    Splits (scte35Parser order) (items.map Item.value) (items.flatMap Item.emit) := by
  induction items with
  | nil => rfl
  | cons i items ih =>
      obtain ⟨flags, low, rest, hbytes, hann, hge, hle, hpack⟩ :=
        (h i (List.mem_cons_self ..)).spec
      have htail := ih fun j hj => h j (List.mem_cons_of_mem _ hj)
      have hlen : i.bytes.length = 3 + rest.length := by
        rw [hbytes]
        simp only [List.length_cons]
        omega
      have hdata : (i :: items).flatMap Item.emit =
          pointerField i.pointer ++ (i.bytes ++ items.flatMap Item.emit) := by
        rw [List.flatMap_cons, Item.emit, List.append_assoc]
      have hnext : scte35ParserNext ((i :: items).flatMap Item.emit) =
          .ok (some ⟨(pointerField i.pointer).length, 3 + rest.length⟩) := by
        refine scte35ParserNext_eq_some.mpr ⟨i.pointer, flags, low, rest ++ items.flatMap Item.emit,
          rest.length, ?_, hann, by omega, hle, ?_, rfl⟩
        · rw [hdata, hbytes]
          rfl
        · rw [List.length_append]
          omega
      refine ⟨⟨(pointerField i.pointer).length, 3 + rest.length⟩, hnext, ?_, ?_, ?_, ?_⟩
      · show (pointerField i.pointer).length + (3 + rest.length) ≤ _
        rw [hdata, List.length_append, List.length_append]
        omega
      · show 0 < 3 + rest.length
        omega
      · show scte35ParserPack order ⟨(pointerField i.pointer).length, 3 + rest.length⟩
          ((((i :: items).flatMap Item.emit).drop (pointerField i.pointer).length).take
            (3 + rest.length)) = .ok i.value
        rw [hdata, List.drop_left, List.take_left' hlen, hpack]
      · show Splits _ (items.map Item.value) (((i :: items).flatMap Item.emit).drop
          ((pointerField i.pointer).length + (3 + rest.length)))
        rw [hdata, ← List.drop_drop, List.drop_left, List.drop_left' hlen]
        exact htail

/-- Draining a buffer of sections gives exactly the sections, and nothing is left. -/
theorem drain_sections {items : List Item} (h : ∀ i ∈ items, IsSection order i.bytes i.value) :
    drain (scte35Parser order) (items.flatMap Item.emit) = (items.map Item.value, none) ∧
      ∃ p, Calls (scte35Parser order) (create (items.flatMap Item.emit))
        (items.map Item.value) p ∧ p.hasNext = false ∧
          p.consumed = (items.flatMap Item.emit).length := by
  have hsplits := splits_sections h
  have hcalls := Splits.calls (scte35Parser order)
    (p := create (items.flatMap Item.emit)) hsplits
  exact ⟨(drain_eq_none _).mpr hsplits, _, hcalls, rfl, Nat.zero_add _⟩

/-- Two empty sections, the second behind a pointer field. -/
theorem drain_sections_two :
    drain (scte35Parser ⟨.abc, .leftFirst⟩) ([
      ⟨false, [252, 48, 17, 0, 0, 0, 0, 0, 0, 255, 255, 240, 0, 0, 0, 0, 118, 29, 211, 182],
        ⟨false, 0, 0, 0xff, 0xfff, .spliceNull, []⟩⟩,
      ⟨true, [252, 48, 17, 0, 0, 0, 0, 0, 0, 255, 255, 240, 0, 0, 0, 0, 118, 29, 211, 182],
        ⟨false, 0, 0, 0xff, 0xfff, .spliceNull, []⟩⟩].flatMap Item.emit) =
      ([⟨false, 0, 0, 0xff, 0xfff, .spliceNull, []⟩,
        ⟨false, 0, 0, 0xff, 0xfff, .spliceNull, []⟩], none) := by
  have hone : IsSection ⟨.abc, .leftFirst⟩ [252, 48, 17, 0, 0, 0, 0, 0, 0, 255, 255, 240, 0, 0, 0,
      0, 118, 29, 211, 182] ⟨false, 0, 0, 0xff, 0xfff, .spliceNull, []⟩ :=
    ⟨rfl, by decide +kernel⟩
  refine (drain_sections fun i hi => ?_).1
  rcases List.mem_cons.mp hi with rfl | hi
  · exact hone
  · rw [List.mem_singleton.mp hi]
    exact hone

end Scte35
end Metamix
