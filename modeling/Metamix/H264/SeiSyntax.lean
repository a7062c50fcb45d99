/-
The parser and the syntax of the standard.

The standard writes a number as bytes `FF`, each worth 255, and a last byte below `FF`, and the
parser reads it so: messages written by the standard come out as they went in.  The emitter divides
where the standard subtracts, and agrees with the parser on few numbers.  What the parser does not
look for is the end of the buffer behind a type, and a payload of no bytes.
-/
import Metamix.H264.Emitter

namespace Metamix
namespace H264

open Lib Binary BinaryParser

/-! ## Header integers of the emitter -/

theorem emitVariadicLengthInt_parses {num : UInt32} {t : Bytes} :
    parseVariadicLengthInt (emitVariadicLengthInt num ++ t) = .ok (num, t) ↔
      num.toNat < 255 ∨ num.toNat = 256 := by
  have hread : parseVariadicLengthInt (emitVariadicLengthInt num ++ t) =
      .ok (UInt32.ofNat (writtenValue 5 num.toNat), t) :=
    parseVariadicLengthInt_eq_ok.mpr ⟨_, emitVariadicLengthInt_header num, rfl⟩
  rw [hread, Except.ok.injEq, Prod.mk.injEq, and_iff_left rfl, ofNat_writtenValue]

/-- Counting digits and dividing once come to the same below two times 255. -/
theorem log_eq_div_iff {num : Nat} : Nat.log 255 num = num / 255 ↔ num < 510 := by
  by_cases hnum : num < 255
  · rw [Nat.log_of_lt hnum]
    omega
  · rw [Nat.log_of_one_lt_of_le (by decide) (by omega)]
    have hle := log_le_div (num / 255)
    have hone : num / 255 < 255 → Nat.log 255 (num / 255) = 0 := Nat.log_of_lt
    omega

theorem emitVariadicLengthInt_sized {num : UInt32} :
    (emitVariadicLengthInt num).length = (variadicLengthIntSize num).toNat ↔
      num.toNat < 510 := by
  rw [emitVariadicLengthInt_length, variadicLengthIntSize_toNat, Nat.succ_inj, log_eq_div_iff]

/-- A header integer that is written comes back, and takes the bytes that are counted for it,
exactly below 255 and at 256. -/
theorem headerInt_roundTrip_iff (num : UInt32) (t : Bytes) :
    (parseVariadicLengthInt (emitVariadicLengthInt num ++ t) = .ok (num, t) ∧
      (emitVariadicLengthInt num).length = (variadicLengthIntSize num).toNat) ↔
      num.toNat < 255 ∨ num.toNat = 256 := by
  rw [emitVariadicLengthInt_parses, emitVariadicLengthInt_sized]
  omega

/-- 255 is written as `FF 01`, and that is 256; 510 takes two bytes, and three are counted. -/
theorem headerInt_not_roundTrip :
    parseVariadicLengthInt (emitVariadicLengthInt 255 ++ []) ≠ .ok (255, []) ∧
      (emitVariadicLengthInt 510).length ≠ (variadicLengthIntSize 510).toNat := by
  decide

/-! ## Messages as the standard writes them -/

def encodeInt (n : Nat) : Bytes := List.replicate (n / 255) 0xff ++ [UInt8.ofNat (n % 255)]

structure SeiMessage where
  type : Nat
  payload : Bytes
  nonempty : payload ≠ []

namespace SeiMessage

def encode (m : SeiMessage) : Bytes :=
  encodeInt m.type ++ (encodeInt m.payload.length ++ m.payload)

def packed (m : SeiMessage) : SeiPayload := ⟨UInt32.ofNat m.type, m.payload⟩

end SeiMessage

theorem header_replicate (q : Nat) {b : UInt8} (hb : b ≠ 0xff) :
    Header (List.replicate q 0xff ++ [b]) (UInt32.ofNat (255 * q + b.toNat)) := by
  induction q with
  | zero =>
      rw [Nat.mul_zero, Nat.zero_add, ← UInt8.toNat_toUInt32, UInt32.ofNat_toNat]
      exact .last hb
  | succ q ih =>
      rw [show 255 * (q + 1) + b.toNat = 255 + (255 * q + b.toNat) by omega, UInt32.ofNat_add]
      exact ih.more

theorem encodeInt_header (n : Nat) : Header (encodeInt n) (UInt32.ofNat n) := by
  have hbyte : (UInt8.ofNat (n % 255)).toNat = n % 255 := by
    rw [UInt8.toNat_ofNat']
    omega
  have hne : UInt8.ofNat (n % 255) ≠ 0xff := by
    intro h
    rw [h, show (0xff : UInt8).toNat = 255 from rfl] at hbyte
    omega
  have h := header_replicate (n / 255) hne
  rwa [hbyte, Nat.div_add_mod] at h

theorem encodeInt_length (n : Nat) : (encodeInt n).length = n / 255 + 1 := by
  rw [encodeInt, List.length_append, List.length_replicate, List.length_singleton]

namespace SeiMessage

theorem encode_length (m : SeiMessage) :
    m.encode.length = m.type / 255 + 1 + (m.payload.length / 255 + 1 + m.payload.length) := by
  simp only [encode, List.length_append, encodeInt_length]

theorem spells {m : SeiMessage} (h : m.payload.length < 2 ^ 32) : Spells m.encode m.packed := by
  have hsize : (UInt32.ofNat m.payload.length).toNat = m.payload.length := by
    rw [UInt32.toNat_ofNat', Nat.mod_eq_of_lt h]
  exact ⟨_, _, _, encodeInt_header _, encodeInt_header _, hsize,
    List.length_pos_iff.mpr m.nonempty, rfl⟩

/-- The parser takes the messages one after the other. -/
theorem splits {ms : List SeiMessage} (h : (ms.flatMap encode).length < 2 ^ 32) :
    Splits seiParser (ms.map packed) (ms.flatMap encode) := by
  induction ms with
  | nil => rfl
  | cons m ms ih =>
      rw [List.flatMap_cons, List.length_append, encode_length] at h
      have hfit : m.packed.size ≤ (m.packed.size + (ms.flatMap encode).length) % 2 ^ 32 := by
        show m.payload.length ≤ (m.payload.length + (ms.flatMap encode).length) % 2 ^ 32
        omega
      exact splits_cons.mpr ⟨m.encode, ms.flatMap encode, spells (by omega), rfl, hfit,
        ih (by omega)⟩

theorem type_lt {ms : List SeiMessage} (h : (ms.flatMap encode).length ≤ Nalu.maxLength)
    {m : SeiMessage} (hm : m ∈ ms) : m.type < 2 ^ 32 := by
  obtain ⟨front, back, rfl⟩ := List.append_of_mem hm
  rw [List.flatMap_append, List.flatMap_cons, List.length_append, List.length_append,
    encode_length] at h
  have hmax : Nalu.maxLength < 2 ^ 24 := by decide
  omega

/-- Draining the messages' bytes returns the messages, each by a call of its own, and leaves
nothing. -/
theorem drain_encode (ms : List SeiMessage)
    (h : (ms.flatMap encode).length ≤ Nalu.maxLength) : ∃ seis,
    drain seiParser (ms.flatMap encode) = (seis, none) ∧
      Calls seiParser (create (ms.flatMap encode)) seis ⟨(ms.flatMap encode).length, []⟩ ∧
      seis.map (fun s => (s.type.toNat, s.data)) = ms.map (fun m => (m.type, m.payload)) := by
  have hmax : Nalu.maxLength < 2 ^ 32 := by decide
  have hsplits := splits (Nat.lt_of_le_of_lt h hmax)
  have hcalls := Splits.calls seiParser (p := create (ms.flatMap encode)) hsplits
  rw [show (create (ms.flatMap encode)).consumed + (create (ms.flatMap encode)).left.length =
    (ms.flatMap encode).length from Nat.zero_add _] at hcalls
  refine ⟨ms.map packed, (drain_eq_none _).mpr hsplits, hcalls, ?_⟩
  rw [List.map_map]
  refine List.map_congr_left fun m hm => ?_
  show ((UInt32.ofNat m.type).toNat, m.payload) = _
  rw [UInt32.toNat_ofNat', Nat.mod_eq_of_lt (type_lt h hm)]

/-- Type 300 takes two bytes, and the payloads begin like headers. -/
theorem drain_encode_two : ∃ seis,
    drain seiParser [0xff, 45, 2, 0xff, 1, 4, 1, 0] = (seis, none) ∧
      Calls seiParser (create [0xff, 45, 2, 0xff, 1, 4, 1, 0]) seis ⟨8, []⟩ ∧
      seis.map (fun s => (s.type.toNat, s.data)) = [(300, [0xff, 1]), (4, [0])] := by
  have hbytes : List.flatMap encode [⟨300, [0xff, 1], List.cons_ne_nil _ _⟩,
      ⟨4, [0], List.cons_ne_nil _ _⟩] = [0xff, 45, 2, 0xff, 1, 4, 1, 0] := by decide
  have h := drain_encode [⟨300, [0xff, 1], List.cons_ne_nil _ _⟩, ⟨4, [0], List.cons_ne_nil _ _⟩]
    (by rw [hbytes]; decide)
  rw [hbytes] at h
  exact h

end SeiMessage

/-! ## Buffers that end anywhere -/

/-- A call on whatever is left ends with a payload, a parse error or at the end of the buffer, and
a payload is one that the buffer starts with. -/
structure StaysInside (p : BinaryParser) : Prop where
  contained : Contained (p.next seiParser).1
  reported : (p.next seiParser).1 = .ok none → p.left = []
  inside : ∀ s q, p.next seiParser = (.ok (some s), q) → ∃ w, Spells w s ∧ p.left = w ++ q.left

theorem next_spells {p q : BinaryParser} {s : SeiPayload}
    (h : p.next seiParser = (.ok (some s), q)) : ∃ w, Spells w s ∧ p.left = w ++ q.left := by
  obtain ⟨b, hnext, _, hpos, hpack, rfl⟩ := (next_eq_some seiParser).mp h
  obtain ⟨w, hspells, hdata, _⟩ := spells_of_pack hnext hpos hpack
  exact ⟨w, hspells, hdata⟩

theorem next_ne_none {p : BinaryParser} (h : (p.next seiParser).1 = .ok none) : p.left = [] := by
  by_contra hne
  have hp : p.hasNext = true := by simpa [hasNext] using hne
  have hsome := seiParserNext_ne_none hne
  rw [next, if_pos hp] at h
  split at h
  · cases h
  · rename_i hnext
    exact hsome hnext
  · dsimp only at h
    split_ifs at h
    split at h <;> cases h

theorem staysInside_iff {p : BinaryParser} : StaysInside p ↔ SeiAdvances p.left := by
  have hcall : StaysInside p ↔ Contained (p.next seiParser).1 :=
    ⟨fun h => h.contained, fun h => ⟨h, next_ne_none, fun _ _ => next_spells⟩⟩
  rw [hcall, contained_iff]
  by_cases hp : p.hasNext = true
  · exact seiParser_fails_iff absorbs_isParse hp
  · have hleft : p.left = [] := by simpa [hasNext] using hp
    refine iff_of_true (fun e he => ?_) fun w type hw => ?_
    · rw [next, if_neg hp] at he
      cases he
    · rw [hleft]
      refine ⟨hw.ne_nil.symm, fun z t _ h => hw.ne_nil ?_⟩
      exact (List.append_eq_nil_iff.mp h.symm).1

/-- Whatever the buffer and whichever call, the call stays inside the buffer exactly if what is
left does not end behind a type, and does not begin with a payload of no bytes. -/
theorem after_staysInside_iff (data : Bytes) (k : Nat) :
    StaysInside (after seiParser k (create data)) ↔
      SeiAdvances (after seiParser k (create data)).left :=
  staysInside_iff

/-- A type with nothing behind it, and a payload of no bytes. -/
theorem not_staysInside : (create [5]).next seiParser = (.error .outOfBounds, create [5]) ∧
    (create [5, 0]).next seiParser = (.error .assertion, create [5, 0]) ∧
    ¬StaysInside (create [5]) ∧ ¬StaysInside (create [5, 0]) := by
  have hend : (create [5]).next seiParser = (.error .outOfBounds, create [5]) := by decide
  have hzero : (create [5, 0]).next seiParser = (.error .assertion, create [5, 0]) := by decide
  refine ⟨hend, hzero, fun h => ?_, fun h => ?_⟩
  · have hcontained := h.contained
    rw [hend] at hcontained
    exact hcontained
  · have hcontained := h.contained
    rw [hzero] at hcontained
    exact hcontained

end H264
end Metamix
