/-
The drain loops of the packet processors.

Each processor drains a packet, or a NALU of it, with one of three parsers.  The NALU parser
may be drained over any bytes.  The SEI parser may not where a payload has no size or the
size zero, and the SCTE-35 parser may not where fewer bytes are left than the least a section
can be: `has_next` still holds and `next` returns nothing.
-/
import Metamix.Binary.Progress
import Metamix.H264.NaluParser
import Metamix.H264.SeiParser
import Metamix.Scte35.Containment

namespace Metamix

open Lib Binary BinaryParser H264 Scte35

namespace Scte35

/-- There are enough bytes for a section, and the one that is announced is long enough, has no
private command that reaches over the end of the buffer and ends with its checksum. -/
def SectionAdvances (order : EvalOrder) (left : Bytes) : Prop :=
  20 ≤ left.length ∧ ∀ c bytes body, Frames left c bytes body →
    17 ≤ body.length ∧
    (∀ type n cmd, Opens body type n cmd → Overruns type n cmd →
      (pointerField c).length + bytes.length + (4 + n - cmd.length) ≤ left.length) ∧
    ¬Trails order bytes body

/-- A command that reaches over the end of its section only is answered with a parse error. -/
theorem throws_behind_iff {p : BinaryParser} {c : Bool} {bytes body : Bytes}
    (h : Frames p.left c bytes body) (n : Nat) (cmd : Bytes) :
    Throws ((behind p c body).locate (overrunFault n cmd)) ↔
      (pointerField c).length + bytes.length + (4 + n - cmd.length) ≤ p.left.length := by
  obtain ⟨flags, low, rest, hleft, hbytes, _⟩ := h
  have hlen : bytes.length = 3 + body.length := by
    rw [hbytes, List.length_cons, List.length_cons, List.length_cons]
    omega
  have htotal : p.left.length = (pointerField c).length + (bytes.length + rest.length) := by
    rw [hleft, List.length_append, List.length_append]
  have hbehind : (behind p c body).left.length = rest.length := by
    rw [behind, shift, List.length_drop]
    omega
  unfold overrunFault locate
  dsimp only
  rw [hbehind]
  by_cases hfit : 4 + n - cmd.length ≤ rest.length
  · rw [if_pos hfit]
    exact iff_of_true trivial (by omega)
  · rw [if_neg hfit]
    exact iff_of_false id (by omega)

theorem scte35ParserNext_eq_none {data : Bytes} :
    scte35ParserNext data = .ok none ↔ data.length < 20 := by
  unfold scte35ParserNext
  by_cases hshort : data.length < minSisLength
  · rw [if_pos hshort]
    exact iff_of_true rfl hshort
  · rw [if_neg hshort]
    refine iff_of_false (fun h => ?_) hshort
    cases hrun : readSpliceInfoSectionUntilLength.run data with
    | error f =>
        rw [hrun] at h
        cases h
    | ok r =>
        rw [hrun] at h
        cases h

end Scte35

namespace Proc

/-- The condition under which each of the three loops is sound. -/
theorem parsers_drainWhen (order : EvalOrder) :
    DrainsWhen Throws (scte35Parser order) (SectionAdvances order) ∧
      DrainsWhen Throws seiParser SeiAdvances ∧
      DrainsWhen Throws avPacketNaluParser fun _ => True := by
  refine ⟨drainsWhen _ absorbs_throws fun p hp => ?_, seiParser_drainsWhen absorbs_throws,
    avPacketNaluParser_drainsWhen absorbs_throws⟩
  have hnone : (scte35Parser order).Next p.left = .ok none ↔ p.left.length < 20 :=
    scte35ParserNext_eq_none
  have hlength : ∀ P : Prop, (P → Throws .lengthError) ↔ True :=
    fun P => iff_true_intro fun _ => trivial
  rw [progress_iff _ hp, scte35_fails_iff absorbs_throws, Ne, hnone, Nat.not_lt]
  simp only [hlength, true_and]
  refine and_congr_right fun _ => forall_congr' fun c => forall_congr' fun bytes => ?_
  refine forall_congr' fun body => forall_congr' fun hframes => ?_
  simp only [OverrunFails, throws_behind_iff hframes]

/-- A byte behind the last section, a payload without a size and one of size zero. -/
theorem parsers_not_drain :
    (drain (scte35Parser ⟨.abc, .leftFirst⟩) [0x47]).2 = some .emptyOptional ∧
      (drain seiParser [4]).2 = some .outOfBounds ∧
      (drain seiParser [4, 0]).2 = some .assertion := by
  decide +kernel

end Proc
end Metamix
