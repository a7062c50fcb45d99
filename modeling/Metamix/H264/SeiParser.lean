/-
SEI payloads and the parser that takes them out of an unescaped SEI NALU.

A payload is its type, its size and its bytes; type and size are runs of `FF`, each
worth 255, closed by a byte below `FF`.  `Header` is that format and `headerInt` is the
parser of it.
-/
import Metamix.Lib.BigEndian
import Metamix.Binary.Progress

namespace Metamix
namespace H264

open Lib Binary

/-- An enumeration over `unsigned int`: every value of it can be held. -/
abbrev SeiType := UInt32

def SeiType.userDataRegistered : SeiType := 4

structure SeiPayload where
  type : SeiType
  data : Bytes
deriving DecidableEq, Repr

def SeiPayload.size (s : SeiPayload) : Nat := s.data.length

/-- The loop of `parse_variadic_length_int`.  Only the bytes after an `FF` are checked
against the end, so a header that starts at the end is read past it. -/
def parseVariadicLengthIntLoop (x : UInt32) : Bytes → Except Fault (UInt32 × Bytes)
  | [] => .error .outOfBounds
  | b :: bs =>
      if b = 0xff then
        if bs.isEmpty then .error (parseError "malformed SEI")
        else parseVariadicLengthIntLoop (x + 255) bs
      else .ok (x + b.toUInt32, bs)

def parseVariadicLengthInt : Bytes → Except Fault (UInt32 × Bytes) :=
  parseVariadicLengthIntLoop 0

structure SeiParserBounds extends BinaryParserBounds where
  payloadType : UInt32
deriving DecidableEq, Repr

/-- The distance to the end is cut to an `unsigned int` before it is compared. -/
def seiParserNext (data : Bytes) : Except Fault (Option SeiParserBounds) :=
  if data.length = 0 then .ok none
  else do
    let (payloadType, afterType) ← parseVariadicLengthInt data
    let (payloadSize, rest) ← parseVariadicLengthInt afterType
    if payloadSize > UInt32.ofNat rest.length then .error (parseError "malformed SEI")
    else .ok (some ⟨⟨data.length - rest.length, payloadSize.toNat⟩, payloadType⟩)

def seiParserPack (bounds : SeiParserBounds) (bytes : Bytes) : Except Fault SeiPayload :=
  if bounds.length > 0 then .ok ⟨bounds.payloadType, bytes⟩ else .error .assertion

def seiParser : Format SeiParserBounds SeiPayload where
  toBounds := SeiParserBounds.toBinaryParserBounds
  Next := seiParserNext
  Pack := seiParserPack

/-! ## Header integers -/

/-- `w` spells `n`: bytes `FF`, each worth 255, closed by a byte below `FF`. -/
inductive Header : Bytes → UInt32 → Prop where
  | last {b : UInt8} (hb : b ≠ 0xff) : Header [b] b.toUInt32
  | more {w : Bytes} {n : UInt32} (h : Header w n) : Header (0xff :: w) (255 + n)

theorem Header.ne_nil {w : Bytes} {n : UInt32} (h : Header w n) : w ≠ [] := by
  cases h <;> simp

theorem parseVariadicLengthIntLoop_eq_ok {x n : UInt32} {data t : Bytes} :
    parseVariadicLengthIntLoop x data = .ok (n, t) ↔
      ∃ w m, Header w m ∧ data = w ++ t ∧ n = x + m := by
  constructor
  · intro h
    induction data generalizing x with
    | nil => cases h
    | cons b bs ih =>
        unfold parseVariadicLengthIntLoop at h
        split at h
        · rename_i hb
          split at h
          · cases h
          · obtain ⟨w, m, hw, rfl, rfl⟩ := ih h
            exact ⟨0xff :: w, 255 + m, hw.more, by rw [hb]; rfl, UInt32.add_assoc ..⟩
        · rename_i hb
          cases h
          exact ⟨[b], b.toUInt32, .last hb, rfl, rfl⟩
  · rintro ⟨w, m, hw, rfl, rfl⟩
    induction hw generalizing x with
    | last hb =>
        rw [List.singleton_append, parseVariadicLengthIntLoop, if_neg hb]
    | @more w n hw ih =>
        have hne : ¬(w ++ t).isEmpty = true := by
          simpa using fun h => absurd h hw.ne_nil
        rw [List.cons_append, parseVariadicLengthIntLoop, if_pos rfl, if_neg hne, ih,
          UInt32.add_assoc]

theorem parseVariadicLengthInt_eq_ok {n : UInt32} {data t : Bytes} :
    parseVariadicLengthInt data = .ok (n, t) ↔ ∃ w, Header w n ∧ data = w ++ t := by
  rw [parseVariadicLengthInt, parseVariadicLengthIntLoop_eq_ok]
  simp only [UInt32.zero_add]
  constructor
  · rintro ⟨w, m, hw, hd, rfl⟩
    exact ⟨w, hw, hd⟩
  · rintro ⟨w, hw, hd⟩
    exact ⟨w, n, hw, hd, rfl⟩

theorem Header.unique {v w s t : Bytes} {m n : UInt32} (hv : Header v m) (hw : Header w n)
    (h : v ++ s = w ++ t) : v = w ∧ m = n ∧ s = t := by
  induction hv generalizing w n with
  | last hb =>
      cases hw with
      | last hc =>
          obtain ⟨rfl, rfl⟩ := List.cons.inj h
          exact ⟨rfl, rfl, rfl⟩
      | more hw => exact absurd (List.cons.inj h).1 hb
  | more hv ih =>
      cases hw with
      | last hc => exact absurd (List.cons.inj h).1.symm hc
      | more hw =>
          obtain ⟨rfl, rfl, rfl⟩ := ih hw (List.cons.inj h).2
          exact ⟨rfl, rfl, rfl⟩

/-! ## Payloads -/

def Spells (w : Bytes) (s : SeiPayload) : Prop :=
  ∃ wt ws n, Header wt s.type ∧ Header ws n ∧ n.toNat = s.size ∧ 0 < s.size ∧
    w = wt ++ (ws ++ s.data)

theorem seiParserNext_eq_some {data : Bytes} {b : SeiParserBounds} :
    seiParserNext data = .ok (some b) ↔
      ∃ wt ws n t, Header wt b.payloadType ∧ Header ws n ∧ data = wt ++ (ws ++ t) ∧
        b.length = n.toNat ∧ b.start = wt.length + ws.length ∧ n ≤ UInt32.ofNat t.length := by
  unfold seiParserNext
  constructor
  · intro h
    split at h
    · cases h
    · cases htype : parseVariadicLengthInt data with
      | error f =>
          rw [htype] at h
          cases h
      | ok r =>
          obtain ⟨ty, afterType⟩ := r
          rw [htype] at h
          change (parseVariadicLengthInt afterType >>= fun r => _) = _ at h
          cases hsize : parseVariadicLengthInt afterType with
          | error f =>
              rw [hsize] at h
              cases h
          | ok r =>
              obtain ⟨n, rest⟩ := r
              rw [hsize] at h
              change (if n > UInt32.ofNat rest.length then _ else _) = _ at h
              split at h
              · cases h
              · rename_i hle
                cases h
                obtain ⟨wt, hwt, rfl⟩ := parseVariadicLengthInt_eq_ok.mp htype
                obtain ⟨ws, hws, rfl⟩ := parseVariadicLengthInt_eq_ok.mp hsize
                refine ⟨wt, ws, n, rest, hwt, hws, rfl, rfl, ?_, UInt32.not_lt.mp hle⟩
                simp only [List.length_append]
                omega
  · rintro ⟨wt, ws, n, t, hwt, hws, rfl, hlen, hstart, hle⟩
    have htype : parseVariadicLengthInt (wt ++ (ws ++ t)) = .ok (b.payloadType, ws ++ t) :=
      parseVariadicLengthInt_eq_ok.mpr ⟨wt, hwt, rfl⟩
    have hsize : parseVariadicLengthInt (ws ++ t) = .ok (n, t) :=
      parseVariadicLengthInt_eq_ok.mpr ⟨ws, hws, rfl⟩
    have hne : ¬(wt ++ (ws ++ t)).length = 0 := by
      simpa using fun h => absurd h hwt.ne_nil
    rw [if_neg hne, htype]
    show (parseVariadicLengthInt (ws ++ t) >>= fun r => _) = _
    rw [hsize]
    show (if n > UInt32.ofNat t.length then _ else _) = _
    rw [if_neg (UInt32.not_lt.mpr hle)]
    obtain ⟨⟨start, length⟩, ty⟩ := b
    simp only at hlen hstart
    simp only [hlen, hstart, List.length_append]
    congr 4
    omega

/-- Bounds that are packed enclose the bytes of a payload, and the payload starts the buffer. -/
theorem spells_of_pack {data : Bytes} {b : SeiParserBounds} {s : SeiPayload}
    (hnext : seiParserNext data = .ok (some b)) (hpos : 0 < b.length)
    (hpack : seiParserPack b ((data.drop b.start).take b.length) = .ok s) :
    ∃ w, Spells w s ∧ data = w ++ data.drop (b.start + b.length) ∧
      s.size ≤ (s.size + (data.drop (b.start + b.length)).length) % 2 ^ 32 := by
  obtain ⟨wt, ws, n, t, hwt, hws, rfl, hlen, hstart, hfit⟩ := seiParserNext_eq_some.mp hnext
  have hdrop : (wt ++ (ws ++ t)).drop b.start = t := by
    rw [hstart, ← List.append_assoc, List.drop_left' (by simp)]
  rw [seiParserPack, if_pos hpos, hdrop] at hpack
  rw [← List.drop_drop, hdrop]
  cases hpack
  have hfit' := UInt32.le_iff_toNat_le.mp hfit
  rw [UInt32.toNat_ofNat', ← hlen] at hfit'
  have hlt : b.length ≤ t.length := Nat.le_trans hfit' (Nat.mod_le _ _)
  have hsize : (t.take b.length).length = b.length := by
    rw [List.length_take]
    omega
  refine ⟨wt ++ (ws ++ t.take b.length), ?_, ?_, ?_⟩
  · exact ⟨wt, ws, n, hwt, hws, by rw [SeiPayload.size, hsize, hlen],
      by rw [SeiPayload.size, hsize]; exact hpos, rfl⟩
  · simp only [List.append_assoc, List.take_append_drop]
  · rw [SeiPayload.size, hsize, List.length_drop]
    rwa [show b.length + (t.length - b.length) = t.length by omega]

/-- A buffer of payloads starts with the first one's bytes.  The length of what
follows matters only where it does not fit 32 bits. -/
theorem splits_cons {data : Bytes} {s : SeiPayload} {seis : List SeiPayload} :
    BinaryParser.Splits seiParser (s :: seis) data ↔
      ∃ w t, Spells w s ∧ data = w ++ t ∧ s.size ≤ (s.size + t.length) % 2 ^ 32 ∧
        BinaryParser.Splits seiParser seis t := by
  constructor
  · rintro ⟨b, hnext, _, hpos, hpack, htail⟩
    obtain ⟨w, hspells, hdata, hfit⟩ := spells_of_pack hnext hpos hpack
    exact ⟨w, _, hspells, hdata, hfit, htail⟩
  · rintro ⟨w, t, ⟨wt, ws, n, hwt, hws, hn, hpos, rfl⟩, rfl, hfit, htail⟩
    have hdrop : (wt ++ (ws ++ s.data) ++ t).drop (wt.length + ws.length) = s.data ++ t := by
      rw [show wt ++ (ws ++ s.data) ++ t = (wt ++ ws) ++ (s.data ++ t) by simp,
        List.drop_left' (by simp)]
    refine ⟨⟨⟨wt.length + ws.length, s.size⟩, s.type⟩, ?_, ?_, hpos, ?_, ?_⟩
    · refine seiParserNext_eq_some.mpr ⟨wt, ws, n, s.data ++ t, hwt, hws, ?_, hn.symm, rfl, ?_⟩
      · simp
      · rw [UInt32.le_iff_toNat_le, UInt32.toNat_ofNat', hn, List.length_append]
        exact hfit
    · show wt.length + ws.length + s.size ≤ _
      simp only [List.length_append, SeiPayload.size]
      omega
    · show seiParserPack _ (((wt ++ (ws ++ s.data) ++ t).drop (wt.length + ws.length)).take
        s.size) = _
      rw [hdrop, SeiPayload.size, List.take_left]
      exact if_pos hpos
    · show BinaryParser.Splits seiParser seis ((wt ++ (ws ++ s.data) ++ t).drop
        (wt.length + ws.length + s.size))
      rw [← List.drop_drop, hdrop, SeiPayload.size, List.drop_left]
      exact htail

/-! ## What is not a payload -/

/-- A header that does not start at the end is read or is malformed. -/
theorem parseVariadicLengthIntLoop_fails {x : UInt32} {data : Bytes} {f : Fault}
    (hne : data ≠ []) (h : parseVariadicLengthIntLoop x data = .error f) :
      ∃ err, f = .parse err := by
  induction data generalizing x with
  | nil => exact absurd rfl hne
  | cons b bs ih =>
      unfold parseVariadicLengthIntLoop at h
      split_ifs at h with hb hempty
      · cases h
        exact ⟨_, rfl⟩
      · exact ih (by simpa using hempty) h

theorem seiParserNext_ne_none {data : Bytes} (hne : data ≠ []) : seiParserNext data ≠ .ok none := by
  intro h
  rw [seiParserNext, if_neg (by simpa using hne)] at h
  obtain ⟨_, -, h⟩ := of_bind_eq_ok h
  obtain ⟨_, -, h⟩ := of_bind_eq_ok h
  dsimp only at h
  split_ifs at h
  exact nomatch h

/-- With a byte behind the type, what is wrong with the headers is a parse error. -/
theorem seiParserNext_fails {E : Fault → Prop} (hE : Absorbs E) {data : Bytes} {e : Fault}
    (hne : data ≠ []) (htype : ∀ w type, Header w type → data ≠ w)
    (he : seiParserNext data = .error e) : E e := by
  have hparse : ∀ {f}, (∃ err, f = .parse err) → E f := by
    intro f h
    obtain ⟨err, rfl⟩ := h
    exact hE.parse err
  rw [seiParserNext, if_neg (by simpa using hne)] at he
  obtain hfirst | ⟨⟨type, rest⟩, hfirst, he⟩ := of_bind_eq_error he
  · exact hparse (parseVariadicLengthIntLoop_fails hne hfirst)
  obtain ⟨w, hw, hdata⟩ := parseVariadicLengthInt_eq_ok.mp hfirst
  have hrest : rest ≠ [] := by
    intro hnil
    exact htype w type hw (by rw [hdata, hnil, List.append_nil])
  obtain hsecond | ⟨⟨n, rest'⟩, -, he⟩ := of_bind_eq_error he
  · exact hparse (parseVariadicLengthIntLoop_fails hrest hsecond)
  dsimp only at he
  split_ifs at he
  cases he
  exact hE.parseError _

theorem seiParserNext_fits {data : Bytes} {b : SeiParserBounds}
    (h : seiParserNext data = .ok (some b)) : b.start + b.length ≤ data.length := by
  obtain ⟨w, z, n, t, -, -, hdata, hlen, hstart, hfit⟩ := seiParserNext_eq_some.mp h
  have hle : b.length ≤ t.length := by
    have hfit' := UInt32.le_iff_toNat_le.mp hfit
    rw [UInt32.toNat_ofNat', ← hlen] at hfit'
    exact Nat.le_trans hfit' (Nat.mod_le _ _)
  rw [hdata, hstart, List.length_append, List.length_append]
  omega

/-- The first payload of the buffer has a size behind its type, and the size is not zero. -/
def SeiAdvances (left : Bytes) : Prop :=
  ∀ w type, Header w type → left ≠ w ∧ ∀ z t, Header z 0 → left ≠ w ++ (z ++ t)

theorem SeiAdvances.length_pos {data : Bytes} {b : SeiParserBounds} (hadv : SeiAdvances data)
    (h : seiParserNext data = .ok (some b)) : 0 < b.length := by
  obtain ⟨w, z, n, t, hw, hz, hdata, hlen, -, -⟩ := seiParserNext_eq_some.mp h
  rw [hlen]
  refine Nat.pos_of_ne_zero fun hzero => ?_
  have hn : n = 0 := UInt32.toNat_inj.mp hzero
  rw [hn] at hz
  exact (hadv w b.payloadType hw).2 z t hz hdata

theorem seiParser_fails_iff {E : Fault → Prop} (hE : Absorbs E) {p : BinaryParser}
    (hp : p.hasNext = true) :
    (∀ e, (p.next seiParser).1 = .error e → E e) ↔ SeiAdvances p.left := by
  have hne : p.left ≠ [] := by simpa [BinaryParser.hasNext] using hp
  rw [BinaryParser.next_fails_iff _ hE.assertion hp]
  constructor
  · intro h w type hw
    obtain ⟨hnext, hbounds⟩ := h
    constructor
    · intro hleft
      have htype : parseVariadicLengthInt p.left = .ok (type, []) :=
        parseVariadicLengthInt_eq_ok.mpr ⟨w, hw, by rw [hleft, List.append_nil]⟩
      have herr : seiParserNext p.left = .error .outOfBounds := by
        rw [seiParserNext, if_neg (by simpa using hne), htype]
        rfl
      exact hE.outOfBounds (hnext _ herr)
    · intro z t hz hleft
      have hsome : seiParserNext p.left = .ok (some ⟨⟨w.length + z.length, 0⟩, type⟩) :=
        seiParserNext_eq_some.mpr ⟨w, z, 0, t, hw, hz, hleft, rfl, rfl, UInt32.zero_le⟩
      exact absurd (hbounds _ hsome).2.1 (Nat.lt_irrefl 0)
  · intro hadv
    refine ⟨fun e => seiParserNext_fails (BinaryParser.absorbs_locate hE p) hne
      fun w type hw => (hadv w type hw).1, ?_⟩
    intro b hb
    have hpos : 0 < b.length := hadv.length_pos hb
    refine ⟨seiParserNext_fits hb, hpos, fun e he => ?_⟩
    change seiParserPack b _ = .error e at he
    rw [seiParserPack, if_pos hpos] at he
    cases he

theorem seiParser_drainsWhen {E : Fault → Prop} (hE : Absorbs E) :
    BinaryParser.DrainsWhen E seiParser SeiAdvances := by
  refine BinaryParser.drainsWhen _ hE fun p hp => ?_
  have hsome : seiParser.Next p.left ≠ .ok none :=
    seiParserNext_ne_none (by simpa [BinaryParser.hasNext] using hp)
  rw [BinaryParser.progress_iff _ hp, seiParser_fails_iff hE hp, and_iff_right hsome]

end H264
end Metamix
