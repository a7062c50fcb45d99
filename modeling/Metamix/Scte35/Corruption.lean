/-
The checksum catches short bursts.

The bounds of a section are settled by the bytes up to its length, and no section gets out of
the parser without its checksum being zero.  So a change behind the length that leaves the
checksum alone would be needed, and `TableCrc.run_burst` says that no change of at most four
bytes in a row does.
-/
import Metamix.Lib.TableCrc
import Metamix.Scte35.Bounds

namespace Metamix
namespace Scte35

open Lib Lib.Reader Binary BinaryParser

/-! ## The register as a table-driven one -/

namespace CRC32

def entry (i : UInt8) : UInt32 := crcTable.getD i.toNat 0

theorem entry_low_injective : Function.Injective fun i => (entry i).toUInt8 := by
  have hcheck : TableCrc.distinct 0 (crcTable.map fun t => t.toNat % 256) = true := by
    decide +kernel
  have hnodup := (TableCrc.nodup_of_distinct hcheck).1
  have hlen : (crcTable.map fun t => t.toNat % 256).length = 256 := by
    rw [List.length_map]
    decide +kernel
  intro i j hij
  have hi := i.toNat_lt
  have hj := j.toNat_lt
  have hget : ∀ k < 256, (crcTable.map fun t => t.toNat % 256)[k]? =
      some ((crcTable.getD k 0).toNat % 256) := by
    intro k hk
    rw [List.length_map] at hlen
    rw [List.getElem?_map, List.getD_eq_getElem?_getD, List.getElem?_eq_getElem (by omega)]
    rfl
  have hlow : (entry i).toNat % 256 = (entry j).toNat % 256 := by
    have hnat := congrArg UInt8.toNat hij
    simp only [UInt32.toNat_toUInt8] at hnat
    exact hnat
  apply UInt8.toNat_inj.mp
  have hlt : i.toNat < (crcTable.map fun t => t.toNat % 256).length := by
    rw [hlen]
    exact hi
  refine (List.getElem?_inj hlt hnodup).mp ?_
  rw [hget _ hi, hget _ hj]
  exact congrArg some hlow

theorem value_eq (crc : CRC32) : crc.value = crc.mValue.toUInt32 := by
  apply UInt32.toNat_inj.mp
  rw [value_toNat, UInt64.toNat_toUInt32]

theorem value_update (crc : CRC32) (b : UInt8) :
    (crc.update b).value = TableCrc.step entry crc.value b := by
  have hindex : ((((crc.mValue >>> 24) &&& 0x00ff) ^^^ b.toUInt64) &&& 0x00ff).toNat =
      (TableCrc.index crc.value b).toNat := by
    have hb := b.toNat_lt
    have hmask := fun n => Nat.and_two_pow_sub_one_eq_mod n 8
    simp only [TableCrc.index, UInt64.toNat_and, UInt64.toNat_xor, UInt64.toNat_shiftRight,
      UInt8.toNat_toUInt64, UInt64.reduceToNat, UInt8.toNat_xor, UInt32.toNat_toUInt8,
      UInt32.toNat_shiftRight, UInt32.reduceToNat, value_toNat, Nat.reduceMod,
      Nat.shiftRight_eq_div_pow]
    rw [show 255 = 2 ^ 8 - 1 from rfl, hmask, hmask, Nat.xor_mod_two_pow, Nat.mod_mod,
      Nat.mod_eq_of_lt hb]
    congr 1
    omega
  rw [value_eq, update, hindex, TableCrc.step, value_eq]
  have hshift : (crc.mValue <<< 8).toUInt32 = crc.mValue.toUInt32 <<< 8 :=
    UInt64.toUInt32_shiftLeft _ _ (by decide)
  rw [UInt64.toUInt32_xor, hshift, UInt32.toUInt32_toUInt64]
  rfl

theorem value_updateRange (crc : CRC32) (bytes : Bytes) :
    (crc.updateRange bytes).value = TableCrc.run entry crc.value bytes := by
  induction bytes generalizing crc with
  | nil => rfl
  | cons b bytes ih =>
      show ((crc.update b).updateRange bytes).value = _
      rw [ih, value_update]
      rfl

/-- Two strings with one checksum that differ in at most four bytes in a row are the same. -/
theorem compute_burst {front w w' back : Bytes} (hlen : w.length = w'.length) (hle : w.length ≤ 4)
    (h : (compute (front ++ (w ++ back))).value = (compute (front ++ (w' ++ back))).value) :
    w = w' := by
  have hrun := h
  unfold compute at hrun
  rw [value_updateRange, value_updateRange] at hrun
  exact TableCrc.run_burst entry_low_injective hlen hle hrun

end CRC32

/-! ## No section without its checksum -/

theorem parseSection_value {order : EvalOrder} {bytes t : Bytes} {s : SpliceInfoSection}
    (hstart : bytes.head? = some SpliceInfoSection.tableId)
    (h : (parseSection order bytes).run bytes = .ok (s, t)) : (CRC32.compute bytes).value = 0 := by
  unfold parseSection at h
  obtain ⟨⟨n, c⟩, t1, hbounds, h1⟩ := run_bind_eq_ok h
  obtain ⟨flags, low, hbytes, _⟩ := readSpliceInfoSectionUntilLength_eq_ok.mp hbounds
  obtain rfl : c = false := by
    cases c with
    | false => rfl
    | true =>
        rw [hbytes] at hstart
        exact absurd (Option.some.inj hstart) (by decide)
  obtain ⟨_, t2, _, h2⟩ := run_bind_eq_ok h1
  obtain ⟨_, t3, _, h3⟩ := run_bind_eq_ok h2
  obtain ⟨_, t4, _, h4⟩ := run_bind_eq_ok h3
  obtain ⟨_, t5, _, h5⟩ := run_bind_eq_ok h4
  obtain ⟨_, t6, _, h6⟩ := run_bind_eq_ok h5
  obtain ⟨_, t7, _, h7⟩ := run_bind_eq_ok h6
  by_cases hzero : (CRC32.compute bytes).value = 0
  · exact hzero
  · change (if (CRC32.compute bytes).value ≠ 0 then throw_ "CRC32 checksum did not match"
      else _ : Reader SpliceInfoSection).run t7 = _ at h7
    rw [if_pos hzero] at h7
    cases h7

theorem pack_value {order : EvalOrder} {b : BinaryParserBounds} {bytes : Bytes}
    {s : SpliceInfoSection} (hstart : bytes.head? = some SpliceInfoSection.tableId)
    (h : scte35ParserPack order b bytes = .ok s) : (CRC32.compute bytes).value = 0 := by
  unfold scte35ParserPack at h
  split at h
  · split at h
    · cases h
    · rename_i s' t hrun
      exact parseSection_value hstart hrun
  · cases h

/-! ## Bursts -/

/-- `b'` differs from `b`, and only inside a window of at most four bytes that lies between
`first` and `last`. -/
structure Burst (b b' : Bytes) (first last : Nat) : Prop where
  length : b'.length = b.length
  differs : b' ≠ b
  window : ∃ i k, k ≤ 4 ∧ first ≤ i ∧ i + k ≤ last ∧ ∀ j, j < i ∨ i + k ≤ j → b'[j]? = b[j]?

/-- A burst replaces a window by one of the same length. -/
theorem Burst.split {b b' : Bytes} {first last : Nat} (h : Burst b b' first last)
    (hlast : last ≤ b.length) : ∃ front w w' back, b = front ++ (w ++ back) ∧
      b' = front ++ (w' ++ back) ∧ w.length = w'.length ∧ w.length ≤ 4 ∧ w ≠ w' ∧
      first ≤ front.length ∧ front.length + w.length ≤ last := by
  obtain ⟨i, k, hk, hfirst, hle, hsame⟩ := h.window
  have hlen := h.length
  have hfront : b'.take i = b.take i := by
    apply List.ext_getElem?
    intro j
    rw [List.getElem?_take, List.getElem?_take]
    by_cases hj : j < i
    · rw [if_pos hj, if_pos hj, hsame j (.inl hj)]
    · rw [if_neg hj, if_neg hj]
  have hback : b'.drop (i + k) = b.drop (i + k) := by
    apply List.ext_getElem?
    intro j
    rw [List.getElem?_drop, List.getElem?_drop, hsame _ (.inr (Nat.le_add_right ..))]
  have hcut : ∀ l : Bytes, l = l.take i ++ ((l.drop i).take k ++ l.drop (i + k)) := by
    intro l
    rw [← List.drop_drop, List.take_append_drop, List.take_append_drop]
  refine ⟨b.take i, (b.drop i).take k, (b'.drop i).take k, b.drop (i + k), hcut b, ?_, ?_, ?_, ?_,
    ?_, ?_⟩
  · rw [← hfront, ← hback]
    exact hcut b'
  · simp only [List.length_take, List.length_drop, hlen]
  · simp only [List.length_take, List.length_drop]
    omega
  · intro hw
    apply h.differs
    rw [hcut b', hcut b, hfront, hback, hw]
  · simp only [List.length_take]
    omega
  · simp only [List.length_take, List.length_drop]
    omega

/-- A burst behind the length of a section leaves what is in front of it. -/
theorem Burst.behind_length {b' rest : Bytes} {c : Bool} {flags low : UInt8} {last : Nat}
    (h : Burst (pointerField c ++ SpliceInfoSection.tableId :: flags :: low :: rest) b'
      ((pointerField c).length + 3) last)
    (hlast : last ≤ (pointerField c).length + 3 + rest.length) :
    ∃ front w w' back, rest = front ++ (w ++ back) ∧
      b' = pointerField c ++ SpliceInfoSection.tableId :: flags :: low :: (front ++ (w' ++ back)) ∧
      w.length = w'.length ∧ w.length ≤ 4 ∧ w ≠ w' ∧
      (pointerField c).length + 3 + front.length + w.length ≤ last := by
  have hfit : last ≤
      (pointerField c ++ SpliceInfoSection.tableId :: flags :: low :: rest).length := by
    simp only [List.length_append, List.length_cons]
    omega
  obtain ⟨front, w, w', back, hsplit, rfl, hlen, hfour, hne, hfirst, hlast'⟩ := h.split hfit
  have happ : (pointerField c ++ [SpliceInfoSection.tableId, flags, low]) ++ rest =
      front ++ (w ++ back) := by
    rw [← hsplit, List.append_assoc]
    rfl
  obtain ⟨front', rfl, hrest⟩ : ∃ front',
      front = pointerField c ++ [SpliceInfoSection.tableId, flags, low] ++ front' ∧
        rest = front' ++ (w ++ back) := by
    rcases List.append_eq_append_iff.mp happ with ⟨f, hf, hr⟩ | ⟨f, hf, hr⟩
    · exact ⟨f, hf, hr⟩
    · have hlength := congrArg List.length hf
      simp only [List.length_append, List.length_cons, List.length_nil] at hlength
      obtain rfl : f = [] := List.length_eq_zero_iff.mp (by omega)
      rw [List.append_nil] at hf
      exact ⟨[], by rw [← hf, List.append_nil], hr.symm⟩
  simp only [List.length_append, List.length_cons, List.length_nil] at hlast'
  refine ⟨front', w, w', back, hrest, ?_, hlen, hfour, hne, by omega⟩
  rw [List.append_assoc, List.append_assoc]
  rfl

/-- A buffer with a burst behind the section length of a section gives no section. -/
theorem next_burst (order : EvalOrder) {b b' : Bytes} {o n : Nat} {s : SpliceInfoSection}
    {p : BinaryParser} (h : (create b).next (scte35Parser order) = (.ok (some s), p))
    (hbounds : scte35ParserNext b = .ok (some ⟨o, n⟩)) (hburst : Burst b b' (o + 3) (o + n)) :
    ¬∃ s' p', (create b').next (scte35Parser order) = (.ok (some s'), p') := by
  intro h'
  obtain ⟨s', p', h'⟩ := h'
  obtain ⟨b1, hb1, hfit, _, hpack, _⟩ := (next_eq_some _).mp h
  obtain rfl : ⟨o, n⟩ = b1 := Option.some.inj (Except.ok.inj (hbounds.symm.trans hb1))
  change o + n ≤ b.length at hfit
  change scte35ParserPack order ⟨o, n⟩ ((b.drop o).take n) = .ok s at hpack
  obtain ⟨c, flags, low, rest, m, hb, hann, hge, hle, hrest, hon⟩ :=
    scte35ParserNext_eq_some.mp hbounds
  obtain ⟨rfl, rfl⟩ : o = (pointerField c).length ∧ n = 3 + m := by
    simpa only [BinaryParserBounds.mk.injEq] using hon
  rw [hb] at hburst
  obtain ⟨front', w, w', back, hrest', hb', hlen, hfour, hne, hlast⟩ :=
    hburst.behind_length (by omega)
  have hcut : ∀ v : Bytes, v.length = w.length → (front' ++ (v ++ back)).take m =
      front' ++ (v ++ back.take (m - front'.length - w.length)) := by
    intro v hv
    rw [List.take_append, List.take_of_length_le (by omega), List.take_append,
      List.take_of_length_le (by omega), hv]
  have hrlen : (front' ++ (w' ++ back)).length = rest.length := by
    rw [hrest']
    simp only [List.length_append, hlen]
  have hnext' : scte35ParserNext b' = .ok (some ⟨(pointerField c).length, 3 + m⟩) :=
    scte35ParserNext_eq_some.mpr ⟨c, flags, low, _, m, hb', hann, hge, hle, by omega, rfl⟩
  obtain ⟨b2, hb2, _, _, hpack', _⟩ := (next_eq_some _).mp h'
  obtain rfl : ⟨(pointerField c).length, 3 + m⟩ = b2 :=
    Option.some.inj (Except.ok.inj (hnext'.symm.trans hb2))
  change scte35ParserPack order ⟨(pointerField c).length, 3 + m⟩
    ((b'.drop (pointerField c).length).take (3 + m)) = .ok s' at hpack'
  rw [hb, section_bytes, hrest', hcut w rfl] at hpack
  rw [hb', section_bytes, hcut w' hlen.symm] at hpack'
  have hvalue := (pack_value rfl hpack).trans (pack_value rfl hpack').symm
  exact hne (@CRC32.compute_burst (SpliceInfoSection.tableId :: flags :: low :: front') _ _ _
    hlen hfour hvalue)

/-- An empty section, and two of its bytes changed. -/
theorem next_burst_null :
    ¬∃ s' p', (create [252, 48, 17, 0, 0, 0, 7, 9, 0, 255, 255, 240, 0, 0, 0, 0, 118, 29, 211,
      182]).next (scte35Parser ⟨.abc, .leftFirst⟩) = (.ok (some s'), p') := by
  have hrun : (create [252, 48, 17, 0, 0, 0, 0, 0, 0, 255, 255, 240, 0, 0, 0, 0, 118, 29, 211,
      182]).next (scte35Parser ⟨.abc, .leftFirst⟩) =
        (.ok (some ⟨false, 0, 0, 0xff, 0xfff, .spliceNull, []⟩), ⟨20, []⟩) := by decide +kernel
  have hbounds : scte35ParserNext [252, 48, 17, 0, 0, 0, 0, 0, 0, 255, 255, 240, 0, 0, 0, 0, 118,
      29, 211, 182] = .ok (some ⟨0, 20⟩) := by decide +kernel
  refine next_burst ⟨.abc, .leftFirst⟩ hrun hbounds
    ⟨rfl, by decide, 6, 2, by decide, by decide, by decide, fun j hj => ?_⟩
  rcases hj with hj | hj
  · match j, hj with
    | 0, _ | 1, _ | 2, _ | 3, _ | 4, _ | 5, _ => rfl
  · obtain ⟨k, rfl⟩ := Nat.exists_eq_add_of_le hj
    rw [Nat.add_comm]
    rfl

end Scte35
end Metamix
