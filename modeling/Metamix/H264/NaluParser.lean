/-
NALUs and the parser that frames them.

A NALU in an AVCC buffer is its length in four big-endian bytes and then its bytes.
`Frames` is the relation the parser decides: a buffer that drains without a fault is
the frames of the NALUs it drains into, and nothing else.
-/
import Metamix.Lib.BigEndian
import Metamix.Binary.Progress

namespace Metamix
namespace H264

open Lib Binary

inductive NaluType where
  | unspecified | slice | dpa | dpb | dpc | idrSlice | sei | sps | pps | aud | endSequence
  | endStream | fillerData | spsExt | pfx | subSps | dps | reserved17 | reserved18
  | auxiliarySlice | extenSlice | depthExtenSlice | reserved22 | reserved23 | unspecified24
  | unspecified25 | unspecified26 | unspecified27 | unspecified28 | unspecified29
  | unspecified30 | unspecified31
deriving DecidableEq, Repr

def NaluType.all : List NaluType :=
  [.unspecified, .slice, .dpa, .dpb, .dpc, .idrSlice, .sei, .sps, .pps, .aud, .endSequence,
    .endStream, .fillerData, .spsExt, .pfx, .subSps, .dps, .reserved17, .reserved18,
    .auxiliarySlice, .extenSlice, .depthExtenSlice, .reserved22, .reserved23, .unspecified24,
    .unspecified25, .unspecified26, .unspecified27, .unspecified28, .unspecified29,
    .unspecified30, .unspecified31]

/-- `static_cast<NaluType>`; the callers mask the value to five bits. -/
def NaluType.ofByte (b : UInt8) : NaluType := NaluType.all.getD b.toNat .unspecified

/-- A NALU that came out of the parser, which never hands out an empty one. -/
structure Nalu where
  data : Bytes
  nonempty : data ≠ []
deriving DecidableEq, Repr

namespace Nalu

/-- `4 * 1024 * 2014`; the last factor is the source's. -/
def maxLength : Nat := 4 * 1024 * 2014

def size (n : Nalu) : Nat := n.data.length

def front (n : Nalu) : UInt8 := n.data.head n.nonempty

def isValid (n : Nalu) : Bool := (n.front &&& 0b10000000) == 0

def type (n : Nalu) : NaluType := .ofByte (n.front &&& 0b00011111)

theorem size_pos (n : Nalu) : 0 < n.size := List.length_pos_iff.mpr n.nonempty

end Nalu

/-! ## The parser -/

/-- `parse_avcc_nalu_length`, with its assertion on the size of the length. -/
def parseAvccNaluLength (naluLengthSize : Nat) (data : Bytes) : Except Fault Nat :=
  if 0 < naluLengthSize ∧ naluLengthSize ≤ 4 then .ok (beNat (data.take naluLengthSize))
  else .error .assertion

def nextAvccBounds (naluLengthSizeMinusOne : Nat) (data : Bytes) :
    Except Fault (Option BinaryParserBounds) :=
  if data.length = 0 then .ok none
  else
    let naluLengthSize := naluLengthSizeMinusOne + 1
    if naluLengthSize > data.length then
      .error (parseError ("next NALU length size is larger than buffer space available: " ++
        toString naluLengthSize ++ " > " ++ toString data.length))
    else
      match parseAvccNaluLength naluLengthSize data with
      | .error f => .error f
      | .ok naluLength =>
          if naluLength = 0 then .error (parseError "0-sized NALU")
          else if naluLength > Nalu.maxLength then
            .error (parseError ("NALU length is larger than maximum: " ++ toString naluLength))
          else if naluLengthSize + naluLength > data.length then
            .error (parseError ("next NALU is larger than buffer space available: " ++
              toString (naluLengthSize + naluLength) ++ " > " ++ toString data.length))
          else .ok (some ⟨naluLengthSize, naluLength⟩)

def naluParserNext : Bytes → Except Fault (Option BinaryParserBounds) := nextAvccBounds 3

def avPacketNaluParserPack (_ : BinaryParserBounds) (bytes : Bytes) : Except Fault Nalu :=
  if h : bytes = [] then .error .assertion else .ok ⟨bytes, h⟩

def avPacketNaluParser : Format BinaryParserBounds Nalu where
  toBounds := id
  Next := naluParserNext
  Pack := avPacketNaluParserPack

theorem avPacketNaluParser_next : avPacketNaluParser.Next = naluParserNext := rfl

/-- Four bytes of length are what the parser asks for. -/
theorem parseAvccNaluLength_four (data : Bytes) :
    parseAvccNaluLength (3 + 1) data = .ok (beNat (data.take 4)) := if_pos (by decide)

/-! ## Frames -/

/-- A NALU behind its length. -/
def frame (n : Nalu) : Bytes := beBytes 4 n.size ++ n.data

theorem naluParserNext_eq_some_iff_length {data : Bytes} {b : BinaryParserBounds} :
    naluParserNext data = .ok (some b) ↔ 4 ≤ data.length ∧ 0 < beNat (data.take 4) ∧
      beNat (data.take 4) ≤ Nalu.maxLength ∧ 4 + beNat (data.take 4) ≤ data.length ∧
        b = ⟨4, beNat (data.take 4)⟩ := by
  unfold naluParserNext nextAvccBounds
  dsimp only
  rw [parseAvccNaluLength_four]
  dsimp only
  constructor
  · intro h
    split_ifs at h with hempty hshort hzero hmax hfit
    · cases h
    · have hb := Option.some.inj (Except.ok.inj h)
      exact ⟨by omega, by omega, by omega, by omega, hb.symm⟩
  · intro h
    obtain ⟨hlen, hpos, hmax, hfit, rfl⟩ := h
    rw [if_neg (by omega), if_neg (by omega), if_neg (by omega), if_neg (by omega),
      if_neg (by omega)]

/-- The parser finds bounds exactly at a length that is in range and followed by
that many bytes. -/
theorem naluParserNext_eq_some {data : Bytes} {b : BinaryParserBounds} :
    naluParserNext data = .ok (some b) ↔
      ∃ bytes t, data = beBytes 4 bytes.length ++ bytes ++ t ∧ b = ⟨4, bytes.length⟩ ∧
        0 < bytes.length ∧ bytes.length ≤ Nalu.maxLength := by
  have hmax : Nalu.maxLength < 256 ^ 4 := by decide
  rw [naluParserNext_eq_some_iff_length]
  constructor
  · intro h
    obtain ⟨hlen, hpos, hle, hfit, rfl⟩ := h
    have htake : (data.take 4).length = 4 := by
      rw [List.length_take]
      omega
    have hhead := beBytes_beNat (data.take 4)
    rw [htake] at hhead
    generalize beNat (data.take 4) = len at *
    have hlen' : ((data.drop 4).take len).length = len := by
      rw [List.length_take, List.length_drop]
      omega
    refine ⟨(data.drop 4).take len, (data.drop 4).drop len, ?_, ?_, ?_, ?_⟩
    · rw [hlen', hhead, List.append_assoc, List.take_append_drop, List.take_append_drop]
    · rw [hlen']
    · omega
    · omega
  · intro h
    obtain ⟨bytes, t, rfl, rfl, hpos, hle⟩ := h
    have htake : (beBytes 4 bytes.length ++ bytes ++ t).take 4 = beBytes 4 bytes.length := by
      rw [List.append_assoc, List.take_left' (beBytes_length 4 _)]
    have hnum : beNat (beBytes 4 bytes.length) = bytes.length :=
      beNat_beBytes_of_lt (by omega)
    rw [htake, hnum, List.length_append, List.length_append, beBytes_length]
    exact ⟨by omega, hpos, hle, by omega, rfl⟩

/-- Draining into NALUs is being made of their frames. -/
theorem splits_iff_frames {data : Bytes} {nalus : List Nalu} :
    BinaryParser.Splits avPacketNaluParser nalus data ↔
      data = nalus.flatMap frame ∧ ∀ n ∈ nalus, n.size ≤ Nalu.maxLength := by
  induction nalus generalizing data with
  | nil => simp [BinaryParser.Splits]
  | cons n nalus ih =>
      have hhead : ∀ t, (beBytes 4 n.size ++ n.data ++ t).drop 4 = n.data ++ t := by
        intro t
        rw [List.append_assoc, List.drop_left' (by simp)]
      constructor
      · rintro ⟨b, hnext, _, _, hpack, htail⟩
        obtain ⟨bytes, t, rfl, rfl, hpos, hle⟩ := naluParserNext_eq_some.mp hnext
        have hdrop : (beBytes 4 bytes.length ++ bytes ++ t).drop 4 = bytes ++ t := by
          rw [List.append_assoc, List.drop_left' (by simp)]
        have hn : n.data = bytes := by
          simp only [avPacketNaluParser, id, avPacketNaluParserPack, hdrop,
            List.take_left] at hpack
          split at hpack
          · cases hpack
          · cases hpack
            rfl
        have hrest : (beBytes 4 bytes.length ++ bytes ++ t).drop (4 + bytes.length) = t := by
          rw [← List.drop_drop, hdrop, List.drop_left]
        simp only [avPacketNaluParser, id] at htail
        rw [hrest] at htail
        obtain ⟨ht, hall⟩ := ih.mp htail
        refine ⟨?_, ?_⟩
        · rw [List.flatMap_cons, ← ht, frame, Nalu.size, hn]
        · intro m hm
          rcases List.mem_cons.mp hm with rfl | hm
          · rw [Nalu.size, hn]
            exact hle
          · exact hall m hm
      · rintro ⟨rfl, hall⟩
        rw [List.flatMap_cons, frame]
        have hpos := n.size_pos
        refine ⟨⟨4, n.size⟩, ?_, ?_, hpos, ?_, ?_⟩
        · rw [avPacketNaluParser_next]
          exact naluParserNext_eq_some.mpr
            ⟨n.data, _, rfl, rfl, hpos, hall n (List.mem_cons_self ..)⟩
        · simp [avPacketNaluParser, Nalu.size]
        · have htake : ((beBytes 4 n.size ++ n.data ++ nalus.flatMap frame).drop 4).take n.size =
              n.data := by
            rw [hhead, Nalu.size, List.take_left]
          show avPacketNaluParserPack ⟨4, n.size⟩ (((beBytes 4 n.size ++ n.data ++
            nalus.flatMap frame).drop 4).take n.size) = .ok n
          rw [htake, avPacketNaluParserPack, dif_neg n.nonempty]
        · have hrest : (beBytes 4 n.size ++ n.data ++ nalus.flatMap frame).drop (4 + n.size) =
              nalus.flatMap frame := by
            rw [← List.drop_drop, hhead, Nalu.size, List.drop_left]
          simp only [avPacketNaluParser, id, hrest]
          exact ih.mpr ⟨rfl, fun m hm => hall m (List.mem_cons_of_mem _ hm)⟩

theorem naluParserNext_ne_none {data : Bytes} (hne : data ≠ []) :
    naluParserNext data ≠ .ok none := by
  intro h
  unfold naluParserNext nextAvccBounds at h
  rw [if_neg (by simpa using hne)] at h
  dsimp only at h
  rw [parseAvccNaluLength_four] at h
  dsimp only at h
  split_ifs at h
  cases h

theorem avPacketNaluParser_fails {E : Fault → Prop} (hE : Absorbs E) {p : BinaryParser} {e : Fault}
    (h : (p.next avPacketNaluParser).1 = .error e) : E e := by
  by_cases hp : p.hasNext = true
  · refine (BinaryParser.next_fails_iff _ hE.assertion hp).mpr ⟨fun f hf => ?_, fun b hb => ?_⟩ e h
    · change nextAvccBounds 3 p.left = .error f at hf
      unfold nextAvccBounds at hf
      dsimp only at hf
      rw [parseAvccNaluLength_four] at hf
      dsimp only at hf
      split_ifs at hf <;>
        · cases hf
          exact (BinaryParser.absorbs_locate hE p).parseError _
    · obtain ⟨bytes, t, hleft, rfl, hpos, _⟩ := naluParserNext_eq_some.mp hb
      have hlen : p.left.length = 4 + bytes.length + t.length := by
        rw [hleft]
        simp only [List.length_append, beBytes_length]
      refine ⟨?_, hpos, fun f hf => ?_⟩
      · show 4 + bytes.length ≤ p.left.length
        omega
      · have hslice : (p.left.drop 4).take bytes.length ≠ [] := by
          intro hnil
          have := congrArg List.length hnil
          rw [List.length_take, List.length_drop, List.length_nil] at this
          omega
        change avPacketNaluParserPack ⟨4, bytes.length⟩ ((p.left.drop 4).take bytes.length) =
          .error f at hf
        rw [avPacketNaluParserPack, dif_neg hslice] at hf
        cases hf
  · unfold BinaryParser.next at h
    rw [if_neg hp] at h
    cases h

theorem avPacketNaluParser_drainsWhen {E : Fault → Prop} (hE : Absorbs E) :
    BinaryParser.DrainsWhen E avPacketNaluParser fun _ => True := by
  refine BinaryParser.drainsWhen _ hE fun p hp => ?_
  have hsome : avPacketNaluParser.Next p.left ≠ .ok none :=
    naluParserNext_ne_none (by simpa [BinaryParser.hasNext] using hp)
  rw [BinaryParser.progress_iff _ hp]
  exact iff_of_true ⟨hsome, fun e => avPacketNaluParser_fails hE⟩ trivial

end H264
end Metamix
