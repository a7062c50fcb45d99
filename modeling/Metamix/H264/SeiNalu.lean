/-
Reading a written SEI NALU back.

The stop bit stands behind every payload and not once at the end, so a reader that
drops one stop bit finds an `80` between two payloads.  It takes that byte for the type
of the next payload and stays one byte late from there on: `late_cons` is the step of
that argument, and `splits_late` says that no payload can follow.  What is left is a
single payload, and then every estimate has to be exact.
-/
import Metamix.H264.Emitter
import Mathlib.Algebra.Order.BigOperators.Group.List

namespace Metamix
namespace H264

open Lib Binary BinaryParser

/-! ## The reader -/

/-- Unescape a SEI NALU, skip its header byte and take its payloads out. -/
def drainSeiNalu (nalu : Bytes) : Except Fault (List SeiPayload) := do
  let sodb ← copyEbspToSodb nalu
  match drain seiParser (sodb.drop 1) with
  | (_, some f) => .error f
  | (seis, none) => .ok seis

theorem drain_of_drainSeiNalu {nalu : Bytes} {seis : List SeiPayload}
    (h : drainSeiNalu nalu = .ok seis) :
    ∃ sodb, copyEbspToSodb nalu = .ok sodb ∧ drain seiParser (sodb.drop 1) = (seis, none) := by
  obtain ⟨sodb, hsodb, h⟩ := of_bind_eq_ok h
  refine ⟨sodb, hsodb, ?_⟩
  split at h
  · exact nomatch h
  · rename_i hdrain
    rw [hdrain, Except.ok.inj h]

/-- Frame the first NALU and read it; what lies behind it is returned too. -/
def readSeiNalu (data : Bytes) : Except Fault (List SeiPayload × Bytes) := do
  match ← naluParserNext data with
  | none => .ok ([], data)
  | some b => do
      let seis ← drainSeiNalu ((data.drop b.start).take b.length)
      return (seis, data.drop (b.start + b.length))

/-- The bytes behind the length. -/
def seiNalu (seis : List SeiPayload) : Bytes := seiNaluTypeByte :: seis.flatMap emitSeiPayload

theorem seiNalu_length (seis : List SeiPayload) :
    (seiNalu seis).length = 1 + (seis.flatMap emitSeiPayload).length := by
  rw [seiNalu, List.length_cons, Nat.add_comm]

theorem emitSeiPayloadsToAvccNalu_of_lt {seis : List SeiPayload}
    (h : (sizeHint seis).toNat < Nalu.maxLength) :
    emitSeiPayloadsToAvccNalu seis = .ok (beBytes 4 (sizeHint seis).toNat ++ seiNalu seis) := by
  simp only [emitSeiPayloadsToAvccNalu, emitNaluLength, if_pos h, bind, Except.bind, pure,
    Except.pure, seiNalu]

theorem emitSeiPayloadsToAvccNalu_of_not_lt {seis : List SeiPayload}
    (h : ¬(sizeHint seis).toNat < Nalu.maxLength) :
    emitSeiPayloadsToAvccNalu seis = .error .assertion := by
  simp only [emitSeiPayloadsToAvccNalu, emitNaluLength, if_neg h, bind, Except.bind]

theorem readSeiNalu_eq_ok {data rest : Bytes} {out : List SeiPayload} :
    readSeiNalu data = .ok (out, rest) ↔
      (naluParserNext data = .ok none ∧ out = [] ∧ rest = data) ∨
        ∃ b, naluParserNext data = .ok (some b) ∧
          drainSeiNalu ((data.drop b.start).take b.length) = .ok out ∧
          rest = data.drop (b.start + b.length) := by
  unfold readSeiNalu
  cases naluParserNext data with
  | error f => simp
  | ok r =>
      cases r with
      | none => simp [eq_comm]
      | some b =>
          cases hread : drainSeiNalu ((data.drop b.start).take b.length) with
          | error f => simp [hread]
          | ok seis => simp [pure, Except.pure, hread, eq_comm]

/-- The first NALU is read and nothing is left exactly when the length in front is the
length of all that follows. -/
theorem readSeiNalu_eq_ok_nil {n : Nat} {nalu : Bytes} {out : List SeiPayload}
    (hn : n < 2 ^ 32) (hne : nalu ≠ []) (hmax : n ≤ Nalu.maxLength) :
    readSeiNalu (beBytes 4 n ++ nalu) = .ok (out, []) ↔
      n = nalu.length ∧ drainSeiNalu nalu = .ok out := by
  have hbytes : ∀ (m : Nat) (bytes t : Bytes),
      (beBytes 4 m ++ bytes ++ t).drop 4 = bytes ++ t := by
    intro m bytes t
    rw [List.append_assoc, List.drop_left' (beBytes_length 4 m)]
  rw [readSeiNalu_eq_ok]
  constructor
  · rintro (⟨_, _, hnil⟩ | ⟨b, hnext, hread, ht⟩)
    · exact absurd (List.append_eq_nil_iff.mp hnil.symm).2 hne
    · obtain ⟨bytes, t, hdata, rfl, _, hle⟩ := naluParserNext_eq_some.mp hnext
      rw [hdata, ← List.drop_drop, hbytes, List.drop_left] at ht
      rw [hdata, hbytes, List.take_left] at hread
      rw [← ht, List.append_nil] at hdata
      obtain ⟨hlen, rfl⟩ := List.append_inj hdata (by simp)
      have hword : Nalu.maxLength < 256 ^ 4 := by decide
      exact ⟨beBytes_inj (by omega) (by omega) hlen, hread⟩
  · rintro ⟨rfl, hread⟩
    have hnext : naluParserNext (beBytes 4 nalu.length ++ nalu) = .ok (some ⟨4, nalu.length⟩) :=
      naluParserNext_eq_some.mpr
        ⟨nalu, [], (List.append_nil _).symm, rfl, List.length_pos_iff.mpr hne, hmax⟩
    have hdrop : (beBytes 4 nalu.length ++ nalu).drop 4 = nalu :=
      List.drop_left' (beBytes_length 4 _)
    refine .inr ⟨_, hnext, ?_, ?_⟩
    · simp only [hdrop, List.take_length, hread]
    · simp only [← List.drop_drop, hdrop, List.drop_length]

/-- The reader gets to the end of the buffer exactly when the estimate is the length. -/
theorem emit_read_eq_ok {seis out : List SeiPayload} :
    (emitSeiPayloadsToAvccNalu seis >>= readSeiNalu) = .ok (out, []) ↔
      (sizeHint seis).toNat = (seiNalu seis).length ∧ (seiNalu seis).length < Nalu.maxLength ∧
        drainSeiNalu (seiNalu seis) = .ok out := by
  by_cases hlt : (sizeHint seis).toNat < Nalu.maxLength
  · rw [emitSeiPayloadsToAvccNalu_of_lt hlt, ok_bind]
    have hne : seiNalu seis ≠ [] := List.cons_ne_nil _ _
    rw [readSeiNalu_eq_ok_nil (sizeHint seis).toNat_lt hne (Nat.le_of_lt hlt)]
    constructor
    · rintro ⟨hlen, hread⟩
      exact ⟨hlen, by omega, hread⟩
    · rintro ⟨hlen, _, hread⟩
      exact ⟨hlen, hread⟩
  · rw [emitSeiPayloadsToAvccNalu_of_not_lt hlt, error_bind]
    simp only [reduceCtorEq, false_iff]
    rintro ⟨hlen, hmax, _⟩
    exact absurd (by omega) hlt

/-! ## What is left after unescaping -/

/-- What comes out of the decoder for one payload, its stop bit included. -/
def unescapedPayload (sei : SeiPayload) : Bytes :=
  emitVariadicLengthInt sei.type ++ (emitVariadicLengthInt (UInt32.ofNat sei.size) ++
    (throughEbsp sei.data ++ [0x80]))

theorem unescape_emitSeiPayload {sei : SeiPayload} (hdata : sei.data ≠ [])
    (hsize : sei.size < 2 ^ 32) (t : Bytes) :
    unescape (emitSeiPayload sei ++ t) = unescapedPayload sei ++ unescape t := by
  have hne : UInt32.ofNat sei.size ≠ 0 := by
    intro h
    have h0 := congrArg UInt32.toNat h
    have hpos := List.length_pos_iff.mpr hdata
    rw [UInt32.toNat_ofNat', Nat.mod_eq_of_lt hsize, SeiPayload.size] at h0
    simp at h0
    exact hdata h0
  have hsodb : copySodbToEbsp sei.data = escape sei.data ++ [0x80] := by
    rw [copySodbToEbsp, copyToEbspImpl, if_neg (by simpa using hdata), if_pos rfl]
  have hheaders := (headers_sparse sei.type hne).unescape_append (escape sei.data ++ 0x80 :: t)
  rw [unescape_escape_append (fun a b => fromEbspLoop_stopBit a b t),
    unescape_cons (by decide)] at hheaders
  rw [emitSeiPayload, unescapedPayload, hsodb]
  simpa only [List.append_assoc, List.singleton_append, List.cons_append, List.nil_append]
    using hheaders

theorem unescape_flatMap {seis : List SeiPayload} (hdata : ∀ s ∈ seis, s.data ≠ [])
    (hsize : ∀ s ∈ seis, s.size < 2 ^ 32) :
    unescape (seis.flatMap emitSeiPayload) = seis.flatMap unescapedPayload := by
  induction seis with
  | nil => rfl
  | cons s seis ih =>
      rw [List.flatMap_cons, List.flatMap_cons, unescape_emitSeiPayload
        (hdata s (List.mem_cons_self ..)) (hsize s (List.mem_cons_self ..)),
        ih (fun s hs => hdata s (List.mem_cons_of_mem _ hs))
          (fun s hs => hsize s (List.mem_cons_of_mem _ hs))]

theorem fromEbspLoop_append_stopBit (a b : UInt8) (xs : Bytes) :
    fromEbspLoop a b (xs ++ [0x80]) = fromEbspLoop a b xs ++ [0x80] := by
  induction xs generalizing a b with
  | nil => simp [fromEbspLoop]
  | cons x xs ih =>
      rw [List.cons_append, fromEbspLoop, fromEbspLoop, ih]
      split <;> rfl

theorem flatMap_emitSeiPayload_stopBit {seis : List SeiPayload} (hne : seis ≠ [])
    (hdata : ∀ s ∈ seis, s.data ≠ []) :
    ∃ ebsp, seis.flatMap emitSeiPayload = ebsp ++ [0x80] := by
  obtain ⟨init, last, rfl⟩ := List.eq_nil_or_concat'  seis |>.resolve_left hne
  have hlast := hdata last (by simp)
  refine ⟨init.flatMap emitSeiPayload ++ (emitVariadicLengthInt last.type ++
    (emitVariadicLengthInt (UInt32.ofNat last.size) ++ escape last.data)), ?_⟩
  rw [List.flatMap_append, List.flatMap_singleton, emitSeiPayload, copySodbToEbsp,
    copyToEbspImpl, if_neg (by simpa using hlast), if_pos rfl]
  simp

/-- The reader's payloads are spelled, one after the other, by the unescaped payloads
without the last stop bit. -/
theorem drainSeiNalu_eq_ok {seis out : List SeiPayload} (hne : seis ≠ [])
    (hdata : ∀ s ∈ seis, s.data ≠ []) (hsize : ∀ s ∈ seis, s.size < 2 ^ 32) :
    drainSeiNalu (seiNalu seis) = .ok out ↔
      ∃ body, body ++ [0x80] = seis.flatMap unescapedPayload ∧ Splits seiParser out body := by
  obtain ⟨ebsp, hebsp⟩ := flatMap_emitSeiPayload_stopBit hne hdata
  have hbody : unescape ebsp ++ [0x80] = seis.flatMap unescapedPayload := by
    rw [← unescape_flatMap hdata hsize, hebsp, unescape_eq_loop, unescape_eq_loop,
      fromEbspLoop_append_stopBit]
  have hsodb : copyEbspToSodb (seiNalu seis) = .ok (6 :: unescape ebsp) := by
    rw [seiNalu, hebsp, ← List.cons_append, copyEbspToSodb_append, unescape_cons (by decide)]
    rfl
  have hdrain : drainSeiNalu (seiNalu seis) = .ok out ↔
      drain seiParser (unescape ebsp) = (out, none) := by
    rw [drainSeiNalu, hsodb]
    show (match drain seiParser (unescape ebsp) with
      | (_, some f) => _
      | (seis, none) => _) = _ ↔ _
    split
    · rename_i f heq
      rw [heq]
      simp
    · rename_i heq
      rw [heq]
      simp
  rw [hdrain, drain_eq_none]
  constructor
  · exact fun h => ⟨_, hbody, h⟩
  · rintro ⟨body, hb, h⟩
    rw [← hbody] at hb
    rwa [List.append_cancel_right hb] at h

/-! ## One byte late

`03` and `80` are the only bytes a reader that came too late can be late by. -/

def LateByte (b : UInt8) : Prop := b = 3 ∨ b = 0x80

/-- A header that starts in such bytes is one of them, and so is what was written. -/
theorem late_header {w e r t : Bytes} {n : UInt32} (hw : Header w n) (hne : e ≠ [])
    (he : ∀ b ∈ e, LateByte b) (h : w ++ r = e ++ (emitVariadicLengthInt n ++ t)) :
    ∃ e', e' ≠ [] ∧ (∀ b ∈ e', LateByte b) ∧ r = e' ++ t := by
  cases e with
  | nil => exact absurd rfl hne
  | cons y e =>
      have hy : LateByte y := he y (List.mem_cons_self ..)
      have hyff : y ≠ 0xff := by
        rcases hy with rfl | rfl <;> decide
      have hwritten : emitVariadicLengthInt y.toUInt32 = [y] := by
        rcases hy with rfl | rfl <;> rfl
      obtain ⟨rfl, rfl, hr⟩ := hw.unique (.last hyff)
        (t := e ++ (emitVariadicLengthInt n ++ t)) h
      refine ⟨e ++ [y], by simp, ?_, ?_⟩
      · intro b hb
        rcases List.mem_append.mp hb with hb | hb
        · exact he b (List.mem_cons_of_mem _ hb)
        · rw [List.mem_singleton.mp hb]
          exact hy
      · rw [hr, hwritten, List.append_assoc]

/-- Payload bytes that start in such bytes are such bytes themselves, one after the
other, so no escape gets in. -/
theorem late_data {a b : UInt8} {ins : Bool} {d e r t : Bytes} (hb : b ≠ 0) (hne : e ≠ [])
    (he : ∀ b ∈ e, LateByte b) (h : d ++ r = e ++ (throughEbspLoop a b ins d ++ t)) :
    ∃ e', e' ≠ [] ∧ (∀ b ∈ e', LateByte b) ∧ r = e' ++ t := by
  induction d generalizing a b ins e with
  | nil => exact ⟨e, hne, he, h⟩
  | cons x d ih =>
      cases e with
      | nil => exact absurd rfl hne
      | cons y e =>
          rw [List.cons_append, List.cons_append, List.cons.injEq] at h
          obtain ⟨rfl, htail⟩ := h
          have hx : LateByte x := he x (List.mem_cons_self ..)
          have hx0 : x ≠ 0 := by
            rcases hx with rfl | rfl <;> decide
          have hplain : throughEbspLoop a b ins (x :: d) = x :: throughEbspLoop b x false d := by
            rw [throughEbspLoop, if_neg fun hc => hb hc.2.1]
          rw [hplain] at htail
          refine @ih b x false (e ++ [x]) hx0 (by simp) ?_ ?_
          · intro c hc
            rcases List.mem_append.mp hc with hc | hc
            · exact he c (List.mem_cons_of_mem _ hc)
            · rw [List.mem_singleton.mp hc]
              exact hx
          · simpa using htail

theorem late_cons {s : SeiPayload} {w e r t : Bytes} (hw : Spells w s) (hne : e ≠ [])
    (he : ∀ b ∈ e, LateByte b) (h : w ++ r = e ++ (unescapedPayload s ++ t)) :
    ∃ e', e' ≠ [] ∧ (∀ b ∈ e', LateByte b) ∧ r = e' ++ (0x80 :: t) := by
  obtain ⟨wt, ws, n, hwt, hws, hn, _, rfl⟩ := hw
  have hsize : UInt32.ofNat s.size = n := by rw [← hn, UInt32.ofNat_toNat]
  rw [unescapedPayload, hsize] at h
  simp only [List.append_assoc, List.singleton_append] at h
  obtain ⟨e1, hne1, he1, h1⟩ := late_header hwt hne he h
  obtain ⟨e2, hne2, he2, h2⟩ := late_header hws hne1 he1 h1
  exact late_data (by decide) hne2 he2 h2

/-- A reader that meets a stop bit where a payload should start finds nothing but that
stop bit: no payload was written behind it. -/
theorem splits_late {e body : Bytes} {seis : List SeiPayload} (he : ∀ b ∈ e, LateByte b)
    (h : body ++ [0x80] = e ++ (0x80 :: seis.flatMap unescapedPayload))
    (hs : Splits seiParser seis body) : e = [] ∧ seis = [] := by
  induction seis generalizing e body with
  | nil =>
      rw [show body = [] from hs] at h
      cases e with
      | nil => exact ⟨rfl, rfl⟩
      | cons b e =>
          have hlen := congrArg List.length h
          simp at hlen
  | cons s seis ih =>
      obtain ⟨w, t, hw, rfl, _, ht⟩ := splits_cons.mp hs
      have hlate : ∀ b ∈ e ++ [0x80], LateByte b := by
        intro b hb
        rcases List.mem_append.mp hb with hb | hb
        · exact he b hb
        · exact .inr (List.mem_singleton.mp hb)
      have h' : w ++ (t ++ [0x80]) =
          (e ++ [0x80]) ++ (unescapedPayload s ++ seis.flatMap unescapedPayload) := by
        rw [← List.append_assoc, h, List.flatMap_cons]
        simp
      obtain ⟨e', hne', he', hr⟩ := late_cons hw (by simp) hlate h'
      exact absurd (ih he' hr ht).1 hne'

/-! ## The first payload -/

theorem throughEbspLoop_append_eq {a b : UInt8} {ins : Bool} {d t u : Bytes}
    (h : 3 :: (throughEbspLoop a b ins d ++ t) = d ++ u) (hb : b ≠ 0) : u = 3 :: t := by
  induction d generalizing a b ins with
  | nil => exact h.symm
  | cons x d ih =>
      rw [List.cons_append, List.cons.injEq] at h
      obtain ⟨rfl, htail⟩ := h
      rw [throughEbspLoop, if_neg fun hc => hb hc.2.1] at htail
      exact ih htail (by decide)

/-- If the decoder's output starts with the payload, at most one `03` is left over. -/
theorem through_append_eq {a b : UInt8} {ins : Bool} {d t u : Bytes}
    (h : throughEbspLoop a b ins d ++ t = d ++ u) :
    ∃ e, (∀ b ∈ e, LateByte b) ∧ u = e ++ t := by
  induction d generalizing a b ins with
  | nil => exact ⟨[], by simp, h.symm⟩
  | cons x d ih =>
      rw [throughEbspLoop] at h
      split at h
      · cases ins with
        | true =>
            rw [if_pos rfl, List.cons_append, List.cons_append, List.cons_append,
              List.cons.injEq] at h
            obtain ⟨rfl, htail⟩ := h
            exact ⟨[3], by simp [LateByte], throughEbspLoop_append_eq htail (by decide)⟩
        | false => exact ih (List.cons.inj h).2
      · exact ih (List.cons.inj h).2

/-- A payload that is read back first was written with headers that survive. -/
theorem first_payload {s : SeiPayload} {w r t : Bytes} (hw : Spells w s)
    (h : w ++ r = unescapedPayload s ++ t) :
    (s.type.toNat < 255 ∨ s.type.toNat = 256) ∧ (s.size < 255 ∨ s.size = 256) ∧
      ∃ e, (∀ b ∈ e, LateByte b) ∧ r = e ++ (0x80 :: t) := by
  obtain ⟨wt, ws, n, hwt, hws, hn, _, rfl⟩ := hw
  have hsize : UInt32.ofNat s.size = n := by rw [← hn, UInt32.ofNat_toNat]
  rw [unescapedPayload, hsize] at h
  simp only [List.append_assoc, List.singleton_append] at h
  obtain ⟨-, htype, h1⟩ := hwt.unique (emitVariadicLengthInt_header _) h
  obtain ⟨-, hlen, h2⟩ := hws.unique (emitVariadicLengthInt_header _) h1
  have hn' := ofNat_writtenValue.mp hlen.symm
  rw [hn] at hn'
  exact ⟨ofNat_writtenValue.mp htype.symm, hn', through_append_eq h2.symm⟩

/-! ## The round trip -/

/-- A header integer is written as the format asks. -/
def HeaderSurvives (n : Nat) : Prop := n < 255 ∨ n = 256

/-- Nothing in the payload asks for an escape the estimate does not count. -/
def NoMissedEscape (data : Bytes) : Prop := ∀ x ≤ (2 : UInt8), ¬ [0, 0, x] <:+: data

theorem headerSurplus_eq_zero {s : SeiPayload} (htype : HeaderSurvives s.type.toNat)
    (hsize : HeaderSurvives s.size) : headerSurplus s = 0 := by
  have hlog : ∀ n, HeaderSurvives n → n / 255 - Nat.log 255 n = 0 := by
    intro n hn
    rcases hn with hn | rfl
    · omega
    · rw [Nat.log_of_one_lt_of_le (by decide) (by decide)]
      omega
  rw [headerSurplus, hlog _ htype, hlog _ hsize]

theorem countEmulationLoop_le (a b : UInt8) (xs : Bytes) :
    countEmulationLoop a b xs ≤ xs.length := by
  induction xs generalizing a b with
  | nil => exact Nat.le_refl 0
  | cons x xs ih =>
      have htail := ih b x
      rw [countEmulationLoop, List.length_cons]
      split <;> omega

/-- One payload whose estimate is exact fits the NALU it is put in. -/
theorem single_fits {s : SeiPayload} (htype : HeaderSurvives s.type.toNat)
    (hsize : HeaderSurvives s.size) : estimate s + 1 < Nalu.maxLength := by
  have hcount := countEmulationLoop_le 1 1 s.data
  rw [← count_eq_loop] at hcount
  have hmax : 1000 < Nalu.maxLength := by decide
  have hmod := Nat.mod_le s.size (2 ^ 32)
  unfold HeaderSurvives at htype hsize
  unfold estimate
  rw [← SeiPayload.size] at hcount
  omega

theorem splits_single {s : SeiPayload} (hpos : s.data ≠ [])
    (htype : HeaderSurvives s.type.toNat) (hsize : HeaderSurvives s.size) :
    Splits seiParser [s] (emitVariadicLengthInt s.type ++
      (emitVariadicLengthInt (UInt32.ofNat s.size) ++ s.data)) := by
  have hlt : s.size < 2 ^ 32 := by
    rcases hsize with h | h <;> omega
  have hnum : (UInt32.ofNat s.size).toNat = s.size := by
    rw [UInt32.toNat_ofNat', Nat.mod_eq_of_lt hlt]
  have hwt := emitVariadicLengthInt_header s.type
  have hws := emitVariadicLengthInt_header (UInt32.ofNat s.size)
  rw [ofNat_writtenValue.mpr htype] at hwt
  rw [ofNat_writtenValue.mpr (by rwa [hnum])] at hws
  have hspells : Spells (emitVariadicLengthInt s.type ++
      (emitVariadicLengthInt (UInt32.ofNat s.size) ++ s.data)) s :=
    ⟨_, _, _, hwt, hws, hnum, List.length_pos_iff.mpr hpos, rfl⟩
  refine splits_cons.mpr ⟨_, [], hspells, (List.append_nil _).symm, ?_, rfl⟩
  rw [List.length_nil, Nat.add_zero, Nat.mod_eq_of_lt hlt]

/-- A written SEI NALU reads back as the payloads that were put in exactly when it
holds one payload whose type and size survive as header integers and which asks for
no escape the estimate misses. -/
theorem emit_read_iff {seis : List SeiPayload} (hne : seis ≠ [])
    (hdata : ∀ s ∈ seis, s.data ≠ [])
    (htotal : (seis.map SeiPayload.size).sum < Nalu.maxLength) :
    (emitSeiPayloadsToAvccNalu seis >>= readSeiNalu) = .ok (seis, []) ↔
      ∃ s, seis = [s] ∧ HeaderSurvives s.type.toNat ∧ HeaderSurvives s.size ∧
        NoMissedEscape s.data := by
  have hmax : Nalu.maxLength < 2 ^ 32 := by decide
  have hsize : ∀ s ∈ seis, s.size < 2 ^ 32 := by
    intro s hs
    have := List.le_sum_of_mem (List.mem_map_of_mem (f := SeiPayload.size) hs)
    omega
  rw [emit_read_eq_ok, drainSeiNalu_eq_ok hne hdata hsize]
  constructor
  · intro h
    obtain ⟨hhint, hlt, body, hbody, hsplits⟩ := h
    cases seis with
    | nil => exact absurd rfl hne
    | cons s seis =>
        obtain ⟨w, t, hw, rfl, _, ht⟩ := splits_cons.mp hsplits
        rw [List.append_assoc, List.flatMap_cons] at hbody
        obtain ⟨htype, hlen, e, he, hr⟩ := first_payload hw hbody
        obtain ⟨-, rfl⟩ := splits_late he hr ht
        have hnil := hdata s (List.mem_singleton.mpr rfl)
        have hest := estimate_add_missed (hsize s (List.mem_singleton.mpr rfl))
        have hbytes := emitSeiPayload_length hnil (hsize s (List.mem_singleton.mpr rfl))
        rw [headerSurplus_eq_zero htype hlen, ← hbytes] at hest
        -- The estimate cannot wrap: it is at most the length, which is below the maximum.
        have hmissed : missedEscapes s.data = 0 := by
          rw [sizeHint_eq, UInt32.toNat_ofNat', seiNalu_length, List.map_singleton,
            List.sum_singleton, List.flatMap_singleton] at hhint
          rw [seiNalu_length, List.flatMap_singleton] at hlt
          rw [Nat.mod_eq_of_lt (by omega)] at hhint
          omega
        exact ⟨s, rfl, htype, hlen, (missedEscapes_eq_zero _).mp hmissed⟩
  · intro h
    obtain ⟨s, rfl, htype, hlen, hescape⟩ := h
    have hnil := hdata s (List.mem_singleton.mpr rfl)
    have hmissed := (missedEscapes_eq_zero s.data).mpr hescape
    have hest := estimate_add_missed (hsize s (List.mem_singleton.mpr rfl))
    have hbytes := emitSeiPayload_length hnil (hsize s (List.mem_singleton.mpr rfl))
    have hfits := single_fits htype hlen
    rw [headerSurplus_eq_zero htype hlen, hmissed, ← hbytes] at hest
    refine ⟨?_, ?_, ?_⟩
    · rw [sizeHint_eq, UInt32.toNat_ofNat', seiNalu_length, List.map_singleton,
        List.sum_singleton, List.flatMap_singleton, Nat.mod_eq_of_lt (by omega)]
      omega
    · rw [seiNalu_length, List.flatMap_singleton]
      omega
    · refine ⟨_, ?_, splits_single hnil htype hlen⟩
      rw [List.flatMap_singleton, unescapedPayload, throughEbsp_eq_self hmissed]
      simp

/-- A caption of thirty bytes that needs no escape comes back. -/
theorem emit_read_caption :
    (emitSeiPayloadsToAvccNalu [⟨4, List.replicate 30 181⟩] >>= readSeiNalu) =
      .ok ([⟨4, List.replicate 30 181⟩], []) :=
  (emit_read_iff (by decide) (by decide) (by decide)).mpr
    ⟨_, rfl, .inl (by decide), .inl (by decide), by
      intro x _ hin
      have h0 := hin.subset (List.mem_cons_self ..)
      simp at h0⟩

/-- Two payloads of one byte each: the reader takes the stop bit between them for the
type of the second one and asks for more bytes than there are. -/
theorem emit_read_two_payloads :
    (emitSeiPayloadsToAvccNalu [⟨4, [181]⟩, ⟨5, [181]⟩] >>= readSeiNalu) ≠
      .ok ([⟨4, [181]⟩, ⟨5, [181]⟩], []) := by
  decide

end H264
end Metamix
