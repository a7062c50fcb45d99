/-
What is left over of a section that is accepted.

The length of the section, that of the command and that of the descriptors come from three places,
and nothing compares their sum with the whole.  A section with a right checksum may have bytes
between its descriptors and its checksum, and one behind a pointer field may be a byte short of the
least a section can be; both are found by an `assert` alone.  `accounted_iff` says that no other
section is.
-/
import Metamix.Binary.Progress
import Metamix.Scte35.Containment
import Metamix.Scte35.DescriptorLoop

namespace Metamix
namespace Scte35

open Lib Lib.Reader Binary BinaryParser

/-! ## Where the parts end -/

theorem parseCommandChecked_eq_ok {type : UInt8} {n : Nat} {c u : Bytes} {command : Command}
    (hc : c.length < 2 ^ 16) : (parseCommandChecked type n).run c = .ok (command, u) ↔
      (parseCommand type n).run c = .ok (command, u) ∧
        (n ≠ 0xfff → n < c.length ∧ c.length - u.length = n) := by
  have hcheck : ∀ t : Bytes, (c.length - t.length) % 2 ^ 16 = c.length - t.length :=
    fun t => Nat.mod_eq_of_lt (by omega)
  rw [parseCommandChecked, run_bind_of_ok (available_run _)]
  by_cases hmax : n = 0xfff
  · simp only [hmax, ne_eq, not_true_eq_false, if_false, false_implies, and_true, false_and]
    cases hrun : (parseCommand type 0xfff).run c with
    | error f => rw [run_bind_of_error hrun]
    | ok r =>
        rw [run_bind_of_ok hrun, run_bind_of_ok (available_run _)]
        rfl
  · simp only [hmax, ne_eq, not_false_eq_true, if_true, true_and, true_implies]
    rw [testConst_bind_eq_ok]
    cases hrun : (parseCommand type n).run c with
    | error f =>
        rw [run_bind_of_error hrun]
        refine iff_of_false (fun h => ?_) fun h => ?_
        · cases h.2
        · cases h.1
    | ok r =>
        obtain ⟨command', t⟩ := r
        rw [run_bind_of_ok hrun, run_bind_of_ok (available_run _)]
        simp only [hcheck]
        by_cases hlen : c.length - t.length = n
        · rw [if_neg (not_not.mpr hlen)]
          constructor
          · rintro ⟨hlt, hok⟩
            cases hok
            exact ⟨rfl, hlt, hlen⟩
          · rintro ⟨hok, hlt, _⟩
            cases hok
            exact ⟨hlt, rfl⟩
        · rw [if_pos hlen]
          refine iff_of_false (fun h => ?_) ?_
          · cases h.2
          · rintro ⟨hok, _, hu⟩
            cases hok
            exact hlen hu

/-- A loop over descriptors that ends has taken everything. -/
theorem parseDescriptorsLoop_takes {order : EvalOrder} {n : Nat} {s t : Bytes}
    {ds : List Descriptor} (hn : s.length ≤ n)
    (h : (parseDescriptorsLoop order n).run s = .ok (ds, t)) : t = [] := by
  induction n generalizing s ds with
  | zero =>
      cases h
      exact List.length_eq_zero_iff.mp (Nat.le_zero.mp hn)
  | succ n ih =>
      rw [parseDescriptorsLoop, run_bind_of_ok (available_run _)] at h
      split_ifs at h with hempty
      · cases h
        exact List.length_eq_zero_iff.mp hempty
      · obtain ⟨d, s', hd, h⟩ := run_bind_eq_ok h
        obtain ⟨ds', t', hloop, h⟩ := run_bind_eq_ok h
        have hshorter := parseDescriptor_shorter hd
        cases h
        exact ih (by omega) hloop

/-- The descriptors of a loop length take exactly that many bytes. -/
theorem parseDescriptors_takes_iff {order : EvalOrder} {n : Nat} {w v : Bytes}
    {ds : List Descriptor} (hlt : n < w.length) :
    (parseDescriptors order n).run w = .ok (ds, v) ↔
      (parseDescriptorsLoop order n).run (w.take n) = .ok (ds, []) ∧ v = w.drop n := by
  have htake : (w.take n).length = n := by
    rw [List.length_take]
    omega
  rw [parseDescriptors, run_bind_of_ok (available_run _),
    run_bind_of_ok (testConst_run _ _ _ _ _ hlt), within_apply]
  constructor
  · intro h
    cases hrun : (parseDescriptorsLoop order n).run (w.take n) with
    | error f =>
        rw [hrun] at h
        cases h
    | ok r =>
        rw [hrun] at h
        have hend := parseDescriptorsLoop_takes (Nat.le_of_eq htake) hrun
        obtain ⟨ds', t⟩ := r
        obtain rfl : t = [] := hend
        obtain ⟨rfl, rfl⟩ := Prod.mk.inj (Except.ok.inj h)
        exact ⟨rfl, rfl⟩
  · rintro ⟨hrun, rfl⟩
    rw [hrun]
    rfl

theorem parseDescriptorLoop_eq_ok {order : EvalOrder} {u v : Bytes} {ds : List Descriptor} :
    (parseDescriptorLoop order).run u = .ok (ds, v) ↔
      ∃ loopLength w, u = write16 loopLength ++ w ∧
        (0 < loopLength.toNat → loopLength.toNat < w.length) ∧
        (parseDescriptorsLoop order loopLength.toNat).run (w.take loopLength.toNat) =
          .ok (ds, []) ∧ v = w.drop loopLength.toNat := by
  have hloop : ∀ loopLength : UInt16, ∀ w : Bytes,
      (if loopLength.toNat > 0 then do
          let availableLength ← available
          testConst (loopLength.toNat < availableLength) "descriptor_loop_length" "<"
            "available_length" (toString loopLength.toNat) (toString availableLength)
          parseDescriptors order loopLength.toNat
        else return [] : Reader (List Descriptor)).run w = .ok (ds, v) ↔
        (0 < loopLength.toNat → loopLength.toNat < w.length) ∧
        (parseDescriptorsLoop order loopLength.toNat).run (w.take loopLength.toNat) =
          .ok (ds, []) ∧ v = w.drop loopLength.toNat := by
    intro loopLength w
    by_cases hpos : loopLength.toNat > 0
    · rw [if_pos hpos, run_bind_of_ok (available_run _), testConst_bind_eq_ok,
        forall_prop_of_true hpos]
      exact and_congr_right fun hlt => parseDescriptors_takes_iff hlt
    · have hzero : loopLength.toNat = 0 := Nat.eq_zero_of_not_pos hpos
      rw [if_neg hpos, hzero]
      constructor
      · intro h
        cases h
        exact ⟨fun h => absurd h (Nat.lt_irrefl 0), rfl, rfl⟩
      · rintro ⟨_, hrun, rfl⟩
        cases hrun
        rfl
  unfold parseDescriptorLoop
  constructor
  · intro h
    obtain ⟨loopLength, w, hread, h⟩ := run_bind_eq_ok h
    exact ⟨loopLength, w, read16_eq_ok.mp hread, (hloop loopLength w).mp h⟩
  · rintro ⟨loopLength, w, rfl, h⟩
    rw [run_bind_of_ok (read16_reads loopLength w)]
    exact (hloop loopLength w).mpr h

/-- The checksum of the section is right, and its command and its descriptors are read, but together
with the checksum they do not fill the section. -/
def Overlong (order : EvalOrder) (bytes body : Bytes) : Prop :=
  ∃ type n c command loopLength w descriptors, Opens body type n c ∧
    (parseCommand type n).run c = .ok (command, write16 loopLength ++ w) ∧
    (n ≠ 0xfff → n < c.length ∧ c.length - (2 + w.length) = n) ∧
    (parseDescriptorsLoop order loopLength.toNat).run (w.take loopLength.toNat) =
      .ok (descriptors, []) ∧
    loopLength.toNat + 4 < w.length ∧ (CRC32.compute bytes).value = 0

theorem Opens.length_lt {body c : Bytes} {type : UInt8} {n : Nat} (h : Opens body type n c) :
    c.length + 11 = body.length := by
  obtain ⟨flags, p1, p2, p3, p4, cw, t0, t1, low, rfl, _⟩ := h
  rfl

theorem trails_iff {order : EvalOrder} {bytes body : Bytes} (hle : body.length ≤ 4093) :
    Trails order bytes body ↔ Overlong order bytes body := by
  have hword : ∀ (loopLength : UInt16) (w : Bytes),
      (write16 loopLength ++ w).length = 2 + w.length :=
    fun loopLength w => List.length_append
  constructor
  · rintro ⟨u, descriptors, v, ⟨type, n, c, command, hopens, hcommand⟩, hloop, hlong, hcrc⟩
    have hc := hopens.length_lt
    obtain ⟨loopLength, w, rfl, _, hrun, rfl⟩ := parseDescriptorLoop_eq_ok.mp hloop
    obtain ⟨hread, hlen⟩ := (parseCommandChecked_eq_ok (by omega)).mp hcommand
    rw [hword] at hlen
    rw [List.length_drop] at hlong
    exact ⟨type, n, c, command, loopLength, w, descriptors, hopens, hread, hlen,
      hrun, by omega, hcrc⟩
  · rintro ⟨type, n, c, command, loopLength, w, descriptors, hopens, hread, hlen, hrun, hlong, hcrc⟩
    have hc := hopens.length_lt
    rw [← hword loopLength] at hlen
    have hcommand := (parseCommandChecked_eq_ok (by omega)).mpr ⟨hread, hlen⟩
    have hloop : (parseDescriptorLoop order).run (write16 loopLength ++ w) =
        .ok (descriptors, w.drop loopLength.toNat) :=
      parseDescriptorLoop_eq_ok.mpr ⟨loopLength, w, rfl, fun _ => by omega, hrun, rfl⟩
    refine ⟨_, descriptors, _, ⟨type, n, c, command, hopens, hcommand⟩, hloop, ?_, hcrc⟩
    rw [List.length_drop]
    omega

/-! ## The asserts -/

theorem CommandEnds.header {body u : Bytes} (h : CommandEnds body u) : ∃ header c command,
    parseSectionHeader.run body = .ok (header, c) ∧
      (parseCommandChecked header.commandType header.commandLength).run c = .ok (command, u) := by
  obtain ⟨type, n, c, command, hopens, hrun⟩ := h
  have hlen := hopens.length_lt
  obtain ⟨header, hheader, rfl, rfl⟩ := (parseSectionHeader_eq_ok (by omega)).mpr hopens
  exact ⟨header, c, command, hheader, hrun⟩

/-- The last assert finds the bytes between the descriptors and the checksum. -/
theorem parseSectionBody_trails {order : EvalOrder} {bytes body : Bytes}
    (h : Trails order bytes body) :
    (parseSectionBody order bytes).run body = .error .assertion := by
  obtain ⟨u, descriptors, v, hends, hloop, hlong, hcrc⟩ := h
  obtain ⟨header, c, command, hheader, hcommand⟩ := hends.header
  obtain ⟨w, t, hread⟩ := exists_read32 (s := v) (by omega)
  have hlen := read32_takes hread
  have hassert : (assert_ (t.length = 0)).run t = .error .assertion := if_neg (by omega)
  rw [parseSectionBody, run_bind_of_ok hheader, run_bind_of_ok hcommand, run_bind_of_ok hloop,
    run_bind_of_ok hread]
  simp only [hcrc, ne_eq, not_true_eq_false, if_false]
  rw [run_bind_of_ok (available_run t)]
  exact run_bind_of_error hassert

/-- A private command that reaches over the end of the section ends the call before any assert. -/
theorem parseSectionBody_overrun {order : EvalOrder} {bytes body : Bytes} (h : Overrun body) :
    ∃ n c, (parseSectionBody order bytes).run body = .error (overrunFault n c) := by
  obtain ⟨type, n, c, hopens, htype, hgt, hlt, hn, hover⟩ := h
  have hlen := hopens.length_lt
  obtain ⟨header, hheader, rfl, rfl⟩ := (parseSectionHeader_eq_ok (by omega)).mpr hopens
  obtain ⟨identifier, t, hread⟩ := exists_read32 (s := c) (by omega)
  have htail := read32_takes hread
  have hprivate : (parsePrivateCommand header.commandLength).run c =
      .error (overrunFault header.commandLength c) := by
    rw [parsePrivateCommand_run hgt hlt hread, if_neg (by omega)]
  have hcommand : (parseCommand header.commandType header.commandLength).run c =
      .error (overrunFault header.commandLength c) := by
    rw [htype]
    show (Command.privateCommand <$> parsePrivateCommand header.commandLength).run c = _
    rw [StateT.run_map, hprivate]
    rfl
  have hchecked : (parseCommandChecked header.commandType header.commandLength).run c =
      .error (overrunFault header.commandLength c) := by
    rw [parseCommandChecked, run_bind_of_ok (available_run _), if_pos (by omega),
      run_bind_of_ok (testConst_run _ _ _ _ _ hn)]
    exact run_bind_of_error hcommand
  refine ⟨header.commandLength, c, ?_⟩
  rw [parseSectionBody, run_bind_of_ok hheader]
  exact run_bind_of_error hchecked

theorem pack_ne_assertion_iff {order : EvalOrder} {left : Bytes} {c : Bool} {bytes body : Bytes}
    (h : Frames left c bytes body) (b : BinaryParserBounds) :
    (∀ e, scte35ParserPack order b bytes = .error e → e ≠ .assertion) ↔
      17 ≤ body.length ∧ ¬Trails order bytes body := by
  have hframes := h
  obtain ⟨flags, low, rest, _, hbytes, hann, _, hle⟩ := h
  have hlen : bytes.length = 3 + body.length := by
    rw [hbytes, List.length_cons, List.length_cons, List.length_cons]
    omega
  have hmin : minSisLength = 20 := rfl
  by_cases hge : 17 ≤ body.length
  · have hpack : ∀ f, (parseSectionBody order bytes).run body = .error f →
        scte35ParserPack order b bytes = .error f := by
      intro f hf
      rw [scte35ParserPack, if_pos (by omega), parseSection_run hbytes hann hge hle, hf]
    rw [and_iff_right hge]
    constructor
    · exact fun hnot htrails => hnot _ (hpack _ (parseSectionBody_trails htrails)) rfl
    · intro htrails e he
      by_cases hover : Overrun body
      · obtain ⟨n, c, hrun⟩ := @parseSectionBody_overrun order bytes body hover
        rw [hpack _ hrun] at he
        cases he
        exact Fault.noConfusion
      · have hthrows := (pack_fails_iff absorbs_throws hframes b).mpr
          ⟨hge, fun _ n c hopens hbad => absurd ⟨_, n, c, hopens, hbad⟩ hover, fun _ => trivial,
            htrails⟩
        rintro rfl
        exact hthrows _ he
  · have hassert : scte35ParserPack order b bytes = .error .assertion := if_neg (by omega)
    exact iff_of_false (fun hnot => hnot _ hassert rfl) fun hok => hge hok.1

/-- No assert fails in the call, the bounds that are found are long enough for a section, and where
the checksum has been read and is right nothing is left of the section. -/
structure Accounted (order : EvalOrder) (p : BinaryParser) : Prop where
  asserts : (p.next (scte35Parser order)).1 ≠ .error .assertion
  bounds : ∀ b, scte35ParserNext p.left = .ok (some b) → minSisLength ≤ b.length
  tiles : ∀ c bytes body u descriptors v w t, Frames p.left c bytes body → CommandEnds body u →
    (parseDescriptorLoop order).run u = .ok (descriptors, v) → read32.run v = .ok (w, t) →
    (CRC32.compute bytes).value = 0 → t = []

/-- The announced section is not short, and what is in it fills it. -/
def Filled (order : EvalOrder) (left : Bytes) : Prop :=
  ∀ c bytes body, Frames left c bytes body → 17 ≤ body.length ∧ ¬Overlong order bytes body

theorem asserts_iff {order : EvalOrder} {p : BinaryParser} :
    (p.next (scte35Parser order)).1 ≠ .error .assertion ↔ Filled order p.left := by
  have hall : (p.next (scte35Parser order)).1 ≠ .error .assertion ↔
      ∀ e, (p.next (scte35Parser order)).1 = .error e → e ≠ .assertion := by
    constructor
    · rintro hne e he rfl
      exact hne he
    · exact fun hall he => hall _ he rfl
  have hlocate : ∀ (q : BinaryParser) f, q.locate f ≠ .assertion ↔ f ≠ .assertion := by
    intro q f
    cases f with
    | overread count err =>
        unfold locate
        dsimp only
        split_ifs <;> simp
    | _ => simp [locate]
  have hnext : ∀ data e, scte35ParserNext data = .error e → p.locate e ≠ .assertion := by
    intro data e he
    refine (hlocate p e).mpr ?_
    rintro rfl
    exact scte35ParserNext_fails absorbs_throws he
  rw [hall, scte35_fails_iff_pack (E := (· ≠ .assertion)) (fun h => h rfl) hnext]
  refine forall_congr' fun c => forall_congr' fun bytes => forall_congr' fun body => ?_
  refine forall_congr' fun hframes => ?_
  simp only [hlocate]
  rw [← trails_iff hframes.length_le]
  constructor
  · exact fun h => (pack_ne_assertion_iff hframes ⟨0, 0⟩).mp (h ⟨0, 0⟩)
  · exact fun h b => (pack_ne_assertion_iff hframes b).mpr h

theorem Filled.accounted {order : EvalOrder} {p : BinaryParser} (h : Filled order p.left) :
    Accounted order p where
  asserts := asserts_iff.mpr h
  bounds := by
    intro b hb
    obtain ⟨_, _, c, body, hframes⟩ := exists_frames hb
    have hmin : minSisLength = 20 := rfl
    have hge := (h c _ body hframes).1
    have hbounds := Option.some.inj (Except.ok.inj (hframes.next.1.symm.trans hb))
    rw [← hbounds, hmin]
    show 20 ≤ 3 + body.length
    omega
  tiles := by
    intro c bytes body u descriptors v w t hframes hends hloop hread hcrc
    have hnot := (h c bytes body hframes).2
    rw [← trails_iff hframes.length_le] at hnot
    have hlen := read32_takes hread
    by_contra hne
    have hpos := List.length_pos_iff.mpr hne
    exact hnot ⟨u, descriptors, v, hends, hloop, by omega, hcrc⟩

/-- Whatever the buffer and whichever call: no assert fails and all of an accepted section is
accounted for exactly if the section that is announced has twenty bytes, and its command, its
descriptors and a right checksum fill it. -/
theorem accounted_iff (order : EvalOrder) (data : Bytes) (k : Nat) :
    Accounted order (after (scte35Parser order) k (create data)) ↔
      Filled order (after (scte35Parser order) k (create data)).left :=
  ⟨fun h => asserts_iff.mp h.asserts, Filled.accounted⟩

/-- A section of 19 bytes behind a pointer field, and one with a byte between the descriptors and
the checksum. -/
theorem not_accounted :
    ¬Accounted ⟨.abc, .leftFirst⟩ (create [0, 0xfc, 0, 16, 0, 0, 0, 0, 0, 0, 0, 0xff, 0xf0, 0, 0, 0,
      0, 0, 0, 0]) ∧
    ¬Accounted ⟨.abc, .leftFirst⟩ (create [0xfc, 0, 18, 0, 0, 0, 0, 0, 0, 0, 0xff, 0xf0, 0, 0, 0, 0,
      0, 0xf0, 0x9b, 0x4e, 0xf5]) := by
  have hshort : ((create [0, 0xfc, 0, 16, 0, 0, 0, 0, 0, 0, 0, 0xff, 0xf0, 0, 0, 0, 0, 0, 0,
      0]).next (scte35Parser ⟨.abc, .leftFirst⟩)).1 = .error .assertion := by decide +kernel
  have hlong : ((create [0xfc, 0, 18, 0, 0, 0, 0, 0, 0, 0, 0xff, 0xf0, 0, 0, 0, 0, 0, 0xf0, 0x9b,
      0x4e, 0xf5]).next (scte35Parser ⟨.abc, .leftFirst⟩)).1 = .error .assertion := by
    decide +kernel
  exact ⟨fun h => h.asserts hshort, fun h => h.asserts hlong⟩

end Scte35
end Metamix
