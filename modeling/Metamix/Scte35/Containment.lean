/-
What a call of the SCTE-35 parser makes of bytes that are not a section.

Four things are not covered by a check: a section behind a pointer field that is one byte
short of the minimum, a private command that reaches over the end of the section, a
segmentation descriptor shorter than its identifier, and bytes between the checksum and the
end of the section.  `next_contained_iff` says that any other buffer is answered with a
section, with nothing or with a `BinaryParseError`.
-/
import Metamix.Scte35.Robust

namespace Metamix
namespace Scte35

open Lib Lib.Reader Binary BinaryParser

/-! ## The header -/

/-- The bytes behind the section length hold a header without encryption, with the command's
type and its length, and `c` is what follows. -/
def Opens (body : Bytes) (type : UInt8) (n : Nat) (c : Bytes) : Prop :=
  ∃ flags p1 p2 p3 p4 cw t0 t1 low, body = SpliceInfoSection.protocolVersion :: flags :: p1 ::
      p2 :: p3 :: p4 :: cw :: t0 :: t1 :: low :: type :: c ∧
    flags &&& 0b10000000 = 0 ∧ n = t1.toNat % 16 * 256 + low.toNat

theorem toNat_be33_le (b0 b1 b2 b3 b4 : UInt8) : (((b0 &&& 1).toUInt64 <<< 32) +
    (b1.toUInt64 <<< 24) + (b2.toUInt64 <<< 16) + (b3.toUInt64 <<< 8) + b4.toUInt64).toNat ≤
      2 ^ 33 := by
  have hbit : ∀ b : UInt8, (b &&& 1).toNat < 2 := by decide
  have hlow : beNat [b1, b2, b3, b4] < 256 ^ 4 := beNat_lt [b1, b2, b3, b4]
  have h0 := hbit b0
  rw [toNat_be33 h0]
  omega

theorem toNat_high12_le (b0 b1 : UInt8) :
    ((b0.toUInt16 <<< 4) + ((b1 &&& 0xf0) >>> 4).toUInt16).toNat ≤ 0xfff := by
  have hdigit : ∀ b : UInt8, ((b &&& 0xf0) >>> 4).toNat < 16 := by decide
  have h0 := b0.toNat_lt
  have h1 := hdigit b1
  simp only [UInt16.toNat_add, UInt16.toNat_shiftLeft, UInt8.toNat_toUInt16, UInt16.reduceToNat,
    Nat.reduceMod, Nat.shiftLeft_eq]
  omega

theorem toNat_low12_le (b0 b1 : UInt8) :
    (((b0.toUInt16 &&& 0x0f) <<< 8) + b1.toUInt16).toNat ≤ 0xfff := by
  have h1 := b1.toNat_lt
  rw [toNat_low12]
  omega

theorem parseSectionHeader_run (flags p1 p2 p3 p4 cw t0 t1 low type : UInt8) (c : Bytes)
    (hflags : flags &&& 0b10000000 = 0) : ∃ header,
      parseSectionHeader.run (SpliceInfoSection.protocolVersion :: flags :: p1 :: p2 :: p3 :: p4 ::
        cw :: t0 :: t1 :: low :: type :: c) = .ok (header, c) ∧ header.commandType = type ∧
      header.commandLength = t1.toNat % 16 * 256 + low.toNat := by
  have hclear : ¬(flags &&& 0b10000000 != 0) = true := by
    rw [hflags]
    decide
  have hversion : SpliceInfoSection.protocolVersion &&& 0xff = SpliceInfoSection.protocolVersion :=
    rfl
  unfold parseSectionHeader
  rw [run_bind_of_ok (read8_run ..), run_bind_of_ok (testConst_run _ _ _ _ _ hversion),
    run_bind_of_ok (scanFlag_run ..), run_bind_of_ok (scan8_run ..), if_neg hclear,
    run_bind_of_ok (read33_run ..), run_bind_of_ok (assert_run (toNat_be33_le ..)),
    run_bind_of_ok (read8_run ..), run_bind_of_ok (scan12High_run ..),
    run_bind_of_ok (assert_run (toNat_high12_le ..)), run_bind_of_ok (read8_run ..),
    run_bind_of_ok (read12Low_run ..), run_bind_of_ok (assert_run (toNat_low12_le ..)),
    run_bind_of_ok (read8_run ..)]
  exact ⟨_, rfl, and_full type, toNat_low12 t1 low⟩

theorem parseSectionHeader_checks {pv flags : UInt8} {rest : Bytes} {r : SectionHeader × Bytes}
    (h : parseSectionHeader.run (pv :: flags :: rest) = .ok r) :
    pv = SpliceInfoSection.protocolVersion ∧ flags &&& 0b10000000 = 0 := by
  unfold parseSectionHeader at h
  rw [run_bind_of_ok (read8_run ..), testConst_bind_eq_ok, run_bind_of_ok (scanFlag_run ..),
    run_bind_of_ok (scan8_run ..), and_full] at h
  obtain ⟨hversion, h⟩ := h
  split_ifs at h with hencrypted
  · cases h
  · exact ⟨hversion, by simpa using hencrypted⟩

theorem parseSectionHeader_eq_ok {body c : Bytes} {type : UInt8} {n : Nat}
    (h : 11 ≤ body.length) :
    (∃ header, parseSectionHeader.run body = .ok (header, c) ∧ header.commandType = type ∧
      header.commandLength = n) ↔ Opens body type n c := by
  constructor
  · rintro ⟨header, hrun, rfl, rfl⟩
    match body, h, hrun with
    | pv :: flags :: p1 :: p2 :: p3 :: p4 :: cw :: t0 :: t1 :: low :: type :: c', _, hrun =>
        obtain ⟨rfl, hflags⟩ := parseSectionHeader_checks hrun
        obtain ⟨header', hrun', htype, hlength⟩ :=
          parseSectionHeader_run flags p1 p2 p3 p4 cw t0 t1 low type c' hflags
        obtain ⟨rfl, rfl⟩ := Prod.mk.inj (Except.ok.inj (hrun'.symm.trans hrun))
        exact ⟨flags, p1, p2, p3, p4, cw, t0, t1, low, by rw [htype], hflags, hlength⟩
  · rintro ⟨flags, p1, p2, p3, p4, cw, t0, t1, low, rfl, hflags, rfl⟩
    exact parseSectionHeader_run flags p1 p2 p3 p4 cw t0 t1 low type c hflags

section Section

variable {E : Fault → Prop} (hE : Absorbs E)
include hE

theorem failsFrom_parseSectionHeader {body : Bytes} (h : 11 ≤ body.length) :
    FailsFrom E parseSectionHeader body := by
  match body, h with
  | pv :: flags :: p1 :: p2 :: p3 :: p4 :: cw :: t0 :: t1 :: low :: type :: c, _ =>
      by_cases hflags : flags &&& 0b10000000 = 0
      · by_cases hpv : pv = SpliceInfoSection.protocolVersion
        · obtain ⟨header, hrun, _⟩ :=
            parseSectionHeader_run flags p1 p2 p3 p4 cw t0 t1 low type c hflags
          rw [hpv]
          exact failsFrom_of_ok hrun
        · unfold parseSectionHeader
          rw [failsFrom_bind_of_ok (read8_run ..), failsFrom_testConst_iff hE]
          intro hversion
          exact absurd ((and_full pv).symm.trans hversion) hpv
      · unfold parseSectionHeader
        rw [failsFrom_bind_of_ok (read8_run ..), failsFrom_testConst_iff hE]
        intro _
        rw [failsFrom_bind_of_ok (scanFlag_run ..), failsFrom_bind_of_ok (scan8_run ..)]
        have hset : (flags &&& 0b10000000 != 0) = true := by simpa using hflags
        rw [if_pos hset]
        exact failsWith_throw hE _ _

def CommandEnds (body u : Bytes) : Prop :=
  ∃ type n c command, Opens body type n c ∧
    (parseCommandChecked type n).run c = .ok (command, u)

/-- The section holds a private command that reaches over its end. -/
def Overrun (body : Bytes) : Prop := ∃ type n c, Opens body type n c ∧ Overruns type n c

/-- What a failure like that of such a command is has to be allowed. -/
def OverrunFails (E : Fault → Prop) (body : Bytes) : Prop :=
  ∀ type n c, Opens body type n c → Overruns type n c → E (overrunFault n c)

/-- The section holds a descriptor that is shorter than its identifier. -/
def Reverses (order : EvalOrder) (body : Bytes) : Prop :=
  ∃ u, CommandEnds body u ∧ LoopReverses order u

/-- The checksum of the section is right, but does not stand at its end. -/
def Trails (order : EvalOrder) (bytes body : Bytes) : Prop :=
  ∃ u descriptors v, CommandEnds body u ∧
    (parseDescriptorLoop order).run u = .ok (descriptors, v) ∧ 4 < v.length ∧
    (CRC32.compute bytes).value = 0

/-- What is left of the section behind the descriptors is the checksum, or the checksum is
wrong. -/
theorem failsFrom_checksum_iff {α : Type} (a : α) (bytes v : Bytes) :
    FailsFrom E (do
        let _ ← read32
        let crc32 := CRC32.compute bytes
        if crc32.value ≠ 0 then throw_ "CRC32 checksum did not match"
        else do
          let left ← available
          assert_ (left = 0)
          return a) v ↔
      ((CRC32.compute bytes).value = 0 → v.length ≤ 4) := by
  rw [(failsWith_read32 hE.parseError).bind_iff]
  dsimp only
  by_cases hcrc : (CRC32.compute bytes).value = 0
  · simp only [hcrc, ne_eq, not_true_eq_false, if_false, true_implies]
    have htail : ∀ t, FailsFrom E (do
        let left ← available
        assert_ (left = 0)
        return a) t ↔ t.length = 0 := by
      intro t
      rw [failsFrom_bind_of_ok (available_run _), failsFrom_assert_iff hE]
      exact and_iff_left (FailsWith.pure a t)
    constructor
    · intro h
      by_contra hlong
      obtain ⟨w, t, hread⟩ := exists_read32 (s := v) (by omega)
      have hzero := (htail t).mp (h w t hread)
      have hlen := read32_takes hread
      omega
    · intro hle w t hread
      have hlen := read32_takes hread
      exact (htail t).mpr (by omega)
  · simp only [hcrc, ne_eq, not_false_eq_true, if_true]
    exact iff_of_true (fun _ t _ => failsWith_throw hE _ t) False.elim

theorem failsFrom_parseSectionBody_steps {order : EvalOrder} {bytes body : Bytes}
    (h : 11 ≤ body.length) : FailsFrom E (parseSectionBody order bytes) body ↔
      ∀ header c, parseSectionHeader.run body = .ok (header, c) →
        (Overruns header.commandType header.commandLength c →
          E (overrunFault header.commandLength c)) ∧
        ∀ command u, (parseCommandChecked header.commandType header.commandLength).run c =
            .ok (command, u) →
          (LoopReverses order u → E .lengthError) ∧
          ∀ descriptors v, (parseDescriptorLoop order).run u = .ok (descriptors, v) →
            (CRC32.compute bytes).value = 0 → v.length ≤ 4 := by
  rw [parseSectionBody, failsFrom_bind_iff, and_iff_right (failsFrom_parseSectionHeader hE h)]
  refine forall_congr' fun header => forall_congr' fun c => imp_congr_right fun _ => ?_
  rw [failsFrom_bind_iff, failsFrom_parseCommandChecked_iff hE]
  refine and_congr_right fun _ => forall_congr' fun command => forall_congr' fun u => ?_
  refine imp_congr_right fun _ => ?_
  rw [failsFrom_bind_iff, failsFrom_parseDescriptorLoop_iff hE]
  refine and_congr_right fun _ => forall_congr' fun ds => forall_congr' fun v => ?_
  exact imp_congr_right fun _ => failsFrom_checksum_iff hE _ bytes v

theorem failsFrom_parseSectionBody_iff {order : EvalOrder} {bytes body : Bytes}
    (h : 11 ≤ body.length) : FailsFrom E (parseSectionBody order bytes) body ↔
      OverrunFails E body ∧ (Reverses order body → E .lengthError) ∧
        ¬Trails order bytes body := by
  rw [failsFrom_parseSectionBody_steps hE h]
  constructor
  · intro hsteps
    have hcommand : ∀ u, CommandEnds body u → (LoopReverses order u → E .lengthError) ∧
        ∀ descriptors v, (parseDescriptorLoop order).run u = .ok (descriptors, v) →
          (CRC32.compute bytes).value = 0 → v.length ≤ 4 := by
      rintro u ⟨type, n, c, command, hopens, hrun⟩
      obtain ⟨header, hheader, rfl, rfl⟩ := (parseSectionHeader_eq_ok h).mpr hopens
      exact (hsteps header c hheader).2 command u hrun
    refine ⟨?_, ?_, ?_⟩
    · intro type n c hopens hover
      obtain ⟨header, hheader, rfl, rfl⟩ := (parseSectionHeader_eq_ok h).mpr hopens
      exact (hsteps header c hheader).1 hover
    · rintro ⟨u, hends, hrev⟩
      exact (hcommand u hends).1 hrev
    · rintro ⟨u, descriptors, v, hends, hloop, hlong, hcrc⟩
      have := (hcommand u hends).2 descriptors v hloop hcrc
      omega
  · rintro ⟨hover, hrev, htrails⟩ header c hheader
    have hopens := (parseSectionHeader_eq_ok h).mp ⟨header, hheader, rfl, rfl⟩
    refine ⟨fun hbad => hover _ _ c hopens hbad, fun command u hrun => ?_⟩
    have hends : CommandEnds body u := ⟨_, _, c, command, hopens, hrun⟩
    refine ⟨fun hbad => hrev ⟨u, hends, hbad⟩, fun descriptors v hloop hcrc => ?_⟩
    by_contra hlong
    exact htrails ⟨u, descriptors, v, hends, hloop, by omega, hcrc⟩

/-! ## The call -/

theorem failsFrom_readUntilLength {data : Bytes} (h : 20 ≤ data.length) :
    FailsFrom E readSpliceInfoSectionUntilLength data := by
  obtain ⟨c, id, flags, low, tail, hid, rfl⟩ := exists_pointer h
  have hheader : (pointerField c).length + 3 + tail.length - tail.length = 3 ∨
      (pointerField c).length + 3 + tail.length - tail.length = 4 := by
    cases c <;> simp [pointerField]
  have hrest :
    FailsFrom E (readBehindPointer (pointerField c ++ id :: flags :: low :: tail).length c)
      (id :: flags :: low :: tail) := by
    unfold readBehindPointer
    rw [length_pointer, failsFrom_bind_of_ok (read8_run ..), failsFrom_testConst_iff hE]
    intro _
    rw [failsFrom_bind_of_ok (scanFlag_run ..), failsFrom_testConst_iff hE]
    intro _
    rw [failsFrom_bind_of_ok (scanFlag_run ..), failsFrom_testConst_iff hE]
    intro _
    rw [failsFrom_bind_of_ok (read12Low_run ..), failsFrom_bind_of_ok (available_run _)]
    dsimp only
    rw [failsFrom_bind_of_ok (assert_run hheader), failsFrom_testConst_iff hE]
    intro _
    rw [failsFrom_testConst_iff hE]
    intro _
    rw [failsFrom_testConst_iff hE]
    exact fun _ => FailsWith.pure _ tail
  intro e he
  rw [readUntilLength_pointer_run hid h] at he
  exact hrest e he

theorem scte35ParserNext_fails {data : Bytes} {e : Fault} (h : scte35ParserNext data = .error e) :
    E e := by
  unfold scte35ParserNext at h
  split_ifs at h with hshort
  have hlen : 20 ≤ data.length := Nat.le_of_not_lt hshort
  cases hrun : readSpliceInfoSectionUntilLength.run data with
  | error f =>
      rw [hrun] at h
      cases h
      exact failsFrom_readUntilLength hE hlen e hrun
  | ok r =>
      rw [hrun] at h
      cases h

end Section

/-- A section is announced at the front of the buffer, behind a pointer field or at once, and
lies inside it.  `bytes` are the section's, `body` those behind its length. -/
def Frames (left : Bytes) (c : Bool) (bytes body : Bytes) : Prop :=
  ∃ flags low rest, left = pointerField c ++ (bytes ++ rest) ∧
    bytes = SpliceInfoSection.tableId :: flags :: low :: body ∧
    Announces flags low body.length ∧ 17 ≤ (pointerField c).length + body.length ∧
    body.length ≤ 4093

theorem Frames.length_le {left : Bytes} {c : Bool} {bytes body : Bytes}
    (h : Frames left c bytes body) : body.length ≤ 4093 := by
  obtain ⟨_, _, _, _, _, _, _, hle⟩ := h
  exact hle

/-- The bounds that are found for it are those of its bytes. -/
theorem Frames.next {left : Bytes} {c : Bool} {bytes body : Bytes} (h : Frames left c bytes body) :
    scte35ParserNext left = .ok (some ⟨(pointerField c).length, 3 + body.length⟩) ∧
      (left.drop (pointerField c).length).take (3 + body.length) = bytes := by
  obtain ⟨flags, low, rest, rfl, rfl, hann, hge, hle⟩ := h
  constructor
  · refine scte35ParserNext_eq_some.mpr ⟨c, flags, low, body ++ rest, body.length, rfl, hann, hge,
      hle, ?_, rfl⟩
    rw [List.length_append]
    exact Nat.le_add_right _ _
  · have hbytes := section_bytes c SpliceInfoSection.tableId flags low (body ++ rest) body.length
    rw [List.take_left] at hbytes
    exact hbytes

theorem exists_frames {left : Bytes} {b : BinaryParserBounds}
    (h : scte35ParserNext left = .ok (some b)) : b.start + b.length ≤ left.length ∧ 0 < b.length ∧
      ∃ c body, Frames left c ((left.drop b.start).take b.length) body := by
  obtain ⟨c, flags, low, rest, n, rfl, hann, hge, hle, hfit, rfl⟩ := scte35ParserNext_eq_some.mp h
  have hlen : (rest.take n).length = n := by
    rw [List.length_take]
    omega
  refine ⟨?_, by dsimp only; omega, c, rest.take n, flags, low, rest.drop n, ?_⟩
  · rw [length_pointer]
    dsimp only
    omega
  · rw [section_bytes, hlen]
    refine ⟨?_, rfl, hann, hge, hle⟩
    rw [List.cons_append, List.cons_append, List.cons_append, List.take_append_drop]

def behind (p : BinaryParser) (c : Bool) (body : Bytes) : BinaryParser :=
  p.shift ((pointerField c).length + (3 + body.length))

/-- A call fails as packing the announced section does. -/
theorem scte35_fails_iff_pack {E : Fault → Prop} {order : EvalOrder} {p : BinaryParser}
    (hassert : ¬E .assertion)
    (hnext : ∀ data e, scte35ParserNext data = .error e → E (p.locate e)) :
    (∀ e, (p.next (scte35Parser order)).1 = .error e → E e) ↔
      ∀ c bytes body, Frames p.left c bytes body → ∀ b e,
        scte35ParserPack order b bytes = .error e → E ((behind p c body).locate e) := by
  by_cases hp : p.hasNext = true
  · rw [next_fails_iff _ hassert hp]
    constructor
    · intro h c bytes body hframes b
      obtain ⟨hbounds, hbytes⟩ := hframes.next
      have hpack := (h.2 _ hbounds).2.2
      change ∀ e, scte35ParserPack order b
        ((p.left.drop (pointerField c).length).take (3 + body.length)) = .error e →
          E ((behind p c body).locate e) at hpack
      rwa [hbytes] at hpack
    · intro h
      refine ⟨fun e he => hnext p.left e he, fun b hbounds => ?_⟩
      obtain ⟨hfit, hpos, c, body, hframes⟩ := exists_frames hbounds
      obtain rfl := Option.some.inj (Except.ok.inj (hframes.next.1.symm.trans hbounds))
      exact ⟨hfit, hpos, h c _ body hframes ⟨0, 0⟩⟩
  · have hnil : p.left = [] := by simpa [hasNext] using hp
    have hnone : (p.next (scte35Parser order)).1 = .ok none := by
      rw [next, if_neg hp]
    rw [hnone]
    refine iff_of_true (fun e he => ?_) fun c bytes body hframes => ?_
    · cases he
    · obtain ⟨flags, low, rest, hleft, rfl, _⟩ := hframes
      rw [hnil] at hleft
      have := congrArg List.length hleft
      simp at this

section Call

variable {E : Fault → Prop} (hE : Absorbs E)
include hE

/-- A section is packed unless it is shorter than the least a section can be. -/
theorem pack_fails_iff {order : EvalOrder} {left : Bytes} {c : Bool} {bytes body : Bytes}
    (h : Frames left c bytes body) (b : BinaryParserBounds) :
    (∀ e, scte35ParserPack order b bytes = .error e → E e) ↔
      17 ≤ body.length ∧ OverrunFails E body ∧ (Reverses order body → E .lengthError) ∧
        ¬Trails order bytes body := by
  obtain ⟨flags, low, rest, _, hbytes, hann, _, hle⟩ := h
  have hlen : bytes.length = 3 + body.length := by
    rw [hbytes]
    simp only [List.length_cons]
    omega
  unfold scte35ParserPack
  by_cases hshort : bytes.length ≥ minSisLength
  · have hge : 17 ≤ body.length := by
      change 20 ≤ bytes.length at hshort
      omega
    rw [if_pos hshort, and_iff_right hge, ← failsFrom_parseSectionBody_iff hE (by omega),
      parseSection_run hbytes hann hge hle]
    cases hrun : (parseSectionBody order bytes).run body with
    | error f => simp [failsFrom_error_iff hrun]
    | ok r =>
        refine iff_of_true (fun e he => ?_) (failsFrom_of_ok hrun)
        cases he
  · have hlt : ¬17 ≤ body.length := by
      change ¬20 ≤ bytes.length at hshort
      omega
    rw [if_neg hshort]
    exact iff_of_false (fun hfail => hE.assertion (hfail _ rfl)) fun hsafe => hlt hsafe.1

theorem scte35_fails_iff {order : EvalOrder} {p : BinaryParser} :
    (∀ e, (p.next (scte35Parser order)).1 = .error e → E e) ↔
      ∀ c bytes body, Frames p.left c bytes body →
        17 ≤ body.length ∧ OverrunFails (fun f => E ((behind p c body).locate f)) body ∧
          (Reverses order body → E .lengthError) ∧ ¬Trails order bytes body := by
  rw [scte35_fails_iff_pack hE.assertion fun data e => scte35ParserNext_fails (absorbs_locate hE p)]
  refine forall_congr' fun c => forall_congr' fun bytes => forall_congr' fun body => ?_
  refine forall_congr' fun hframes => ?_
  have hlocated := absorbs_locate hE (behind p c body)
  constructor
  · exact fun h => (pack_fails_iff hlocated hframes ⟨0, 0⟩).mp (h ⟨0, 0⟩)
  · exact fun h b => (pack_fails_iff hlocated hframes b).mpr h

end Call

/-- The section at the front of the buffer, if one is announced, is long enough, keeps its
private command inside it, has no descriptor shorter than the identifier and ends with its
checksum. -/
def Harmless (order : EvalOrder) (left : Bytes) : Prop :=
  ∀ c bytes body, Frames left c bytes body → 17 ≤ body.length ∧ ¬Overrun body ∧
    ¬Reverses order body ∧ ¬Trails order bytes body

/-- Whatever calls came before, a call ends with a section, with nothing or with a
`BinaryParseError` exactly when the section it comes to is harmless.  Every loop of the parser
ends: more rounds than there are bytes make no difference. -/
theorem next_contained_iff (order : EvalOrder) (data : Bytes) :
    (∀ k, Contained ((after (scte35Parser order) k (create data)).next (scte35Parser order)).1 ↔
      Harmless order (after (scte35Parser order) k (create data)).left) ∧
    ∀ n s, s.length ≤ n →
      (parseDescriptorsLoop order n).run s = (parseDescriptorsLoop order s.length).run s := by
  refine ⟨fun k => ?_, fun n s hn => parseDescriptorsLoop_rounds hn⟩
  have hreversed : ∀ P : Prop, (P → IsParse .lengthError) ↔ ¬P := by simp [IsParse]
  have hover : ∀ (q : BinaryParser) body, OverrunFails (fun f => IsParse (q.locate f)) body ↔
      ¬Overrun body := by
    intro q body
    have hnot : ∀ n c, ¬IsParse (q.locate (overrunFault n c)) := by
      rintro n c ⟨err, herr⟩
      simp only [locate, overrunFault] at herr
      split_ifs at herr
    constructor
    · intro h hbad
      obtain ⟨type, n, c, hopens, hbad⟩ := hbad
      exact hnot n c (h type n c hopens hbad)
    · exact fun h type n c hopens hbad => absurd ⟨type, n, c, hopens, hbad⟩ h
  rw [contained_iff, scte35_fails_iff absorbs_isParse]
  simp only [hreversed, hover]
  rfl

/-- A section of 19 bytes behind a pointer field, a private command that reaches over the end, a
segmentation descriptor of length 0, and a byte between the descriptors and the checksum. -/
theorem next_not_contained :
    ((create [0, 0xfc, 0, 16, 0, 0, 0, 0, 0, 0, 0, 0xff, 0xf0, 0, 0, 0, 0, 0, 0, 0]).next
      (scte35Parser ⟨.abc, .leftFirst⟩)).1 = .error .assertion ∧
    ((create [0xfc, 0, 17, 0, 0, 0, 0, 0, 0, 0, 0xff, 0xf0, 5, 0xff, 1, 2, 3, 4, 5, 6]).next
      (scte35Parser ⟨.abc, .leftFirst⟩)).1 = .error .outOfBounds ∧
    ((create [0xfc, 0, 23, 0, 0, 0, 0, 0, 0, 0, 0xff, 0xf0, 0, 0, 0, 6, 2, 0, 0x43, 0x55, 0x45,
      0x49, 0, 0, 0, 0]).next (scte35Parser ⟨.abc, .leftFirst⟩)).1 = .error .lengthError ∧
    ((create [0xfc, 0, 18, 0, 0, 0, 0, 0, 0, 0, 0xff, 0xf0, 0, 0, 0, 0, 0, 0xf0, 0x9b, 0x4e,
      0xf5]).next (scte35Parser ⟨.abc, .leftFirst⟩)).1 = .error .assertion := by
  decide +kernel

end Scte35
end Metamix
