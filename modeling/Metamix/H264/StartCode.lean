/-
No start code inside a written SEI NALU.

Only payload bytes are escaped, each payload with a fresh window.  The headers in between cannot
bring two zeros together, because the size of a payload is not zero, and the stop bit behind the
payload cleans the window for the next one.  The exception is a payload whose size is a multiple
of 2^32: it is written as a size of zero.
-/
import Metamix.H264.SeiNalu

namespace Metamix
namespace H264

open Lib Binary

/-- Nowhere do two zeros stand in front of a byte of at most `02`. -/
def NoStartCode (bytes : Bytes) : Prop := ∀ x ≤ (2 : UInt8), ¬ [0, 0, x] <:+: bytes

/-- Nothing a decoder could take for a start code, and no zero at the end that could become a
part of one. -/
structure Clean (nalu : Bytes) : Prop where
  noStartCode : NoStartCode nalu
  last : nalu.getLast? ≠ some 0

/-- The size does not fit 32 bits, is written as a zero, and the bytes behind it go on with a
start code: one zero more and a small byte, or, behind a type of 0, a small byte at once. -/
def Emulates (sei : SeiPayload) : Prop :=
  sei.size % 2 ^ 32 = 0 ∧ ((∃ x ≤ (2 : UInt8), [0, x] <+: sei.data) ∨
    sei.type = 0 ∧ ∃ x ≤ (2 : UInt8), [x] <+: sei.data)

/-! ## Windows

`missedLoop` counts start codes with a window of two bytes, so it behaves like the decoder: only
zeros in the window matter. -/

theorem missedLoop_congr {a b a' b' : UInt8} (ha : a = 0 ↔ a' = 0) (hb : b = 0 ↔ b' = 0)
    (xs : Bytes) : missedLoop a b xs = missedLoop a' b' xs := by
  cases xs with
  | nil => rfl
  | cons x xs =>
      have ih := missedLoop_congr hb (Iff.refl (x = 0)) xs
      simp only [missedLoop, ha, hb, ih]

theorem missedLoop_of_ne (a : UInt8) {b : UInt8} (hb : b ≠ 0) (xs : Bytes) :
    missedLoop a b xs = missedEscapes xs := by
  cases xs with
  | nil => rfl
  | cons x xs =>
      have htail : missedLoop b x xs = missedLoop 1 x xs :=
        missedLoop_congr (by simp [hb]) Iff.rfl xs
      rw [missedEscapes, missedLoop, missedLoop, htail, if_neg fun h => hb h.2.1,
        if_neg (by simp)]

theorem missedEscapes_cons {x : UInt8} (hx : x ≠ 0) (xs : Bytes) :
    missedEscapes (x :: xs) = missedEscapes xs := by
  rw [missedEscapes, missedLoop, if_neg (by simp), Nat.zero_add, missedLoop_of_ne 1 hx]

theorem missedEscapes_zero_cons {x : UInt8} (hx : x ≠ 0) (xs : Bytes) :
    missedEscapes (0 :: x :: xs) = missedEscapes xs := by
  rw [missedEscapes, missedLoop, missedLoop, if_neg (by simp), if_neg (by simp), Nat.zero_add,
    Nat.zero_add, missedLoop_of_ne 0 hx]

theorem Sparse.missedEscapes_append {w : Bytes} (hw : Sparse w) (t : Bytes) :
    missedEscapes (w ++ t) = missedEscapes t := by
  induction hw with
  | nil => rfl
  | cons hx _ ih => rw [List.cons_append, missedEscapes_cons hx, ih]
  | zero hx _ ih => rw [List.cons_append, List.cons_append, missedEscapes_zero_cons hx, ih]

/-! ## Escaped bytes -/

/-- In escaped bytes there is no start code; `ins` is set when a `03` was put in front of the
byte before. -/
theorem missedLoop_toEbspLoop (a b : UInt8) (ins : Bool) (xs t : Bytes) :
    missedLoop (if ins then 3 else a) b (toEbspLoop a b xs ++ 0x80 :: t) = missedEscapes t := by
  induction xs generalizing a b ins with
  | nil =>
      show missedLoop _ b (0x80 :: t) = _
      rw [missedLoop, if_neg fun h => absurd h.2.2 (by decide), Nat.zero_add,
        missedLoop_of_ne b (by decide)]
  | cons x xs ih =>
      rw [toEbspLoop]
      by_cases hesc : a = 0 ∧ b = 0 ∧ x ≤ 3
      · have htail := ih b x true
        rw [if_pos rfl] at htail
        rw [if_pos hesc, List.cons_append, List.cons_append, missedLoop, missedLoop, htail,
          if_neg fun h => absurd h.2.2 (by decide), if_neg fun h => absurd h.2.1 (by decide),
          Nat.zero_add, Nat.zero_add]
      · have htail := ih b x false
        have hkeep : ¬((if ins then 3 else a) = 0 ∧ b = 0 ∧ x ≤ 2) := by
          rintro ⟨ha, hb, hx⟩
          cases ins with
          | true => cases ha
          | false => exact hesc ⟨ha, hb, (escaped_iff x).mpr (.inr hx)⟩
        rw [if_neg (by simp)] at htail
        rw [if_neg hesc, List.cons_append, missedLoop, htail, if_neg hkeep, Nat.zero_add]

theorem missedEscapes_escape (data t : Bytes) :
    missedEscapes (escape data ++ 0x80 :: t) = missedEscapes t := by
  have h := missedLoop_toEbspLoop 1 1 false data t
  rwa [← escape_eq_loop] at h

/-! ## Payloads -/

theorem emitSeiPayload_append {sei : SeiPayload} (h : sei.data ≠ []) (t : Bytes) :
    emitSeiPayload sei ++ t = emitVariadicLengthInt sei.type ++
      emitVariadicLengthInt (UInt32.ofNat sei.size) ++ (escape sei.data ++ 0x80 :: t) := by
  have hsodb : copySodbToEbsp sei.data = escape sei.data ++ [0x80] := by
    rw [copySodbToEbsp, copyToEbspImpl, if_neg (by simpa using h), if_pos rfl]
  rw [emitSeiPayload, hsodb]
  simp only [List.append_assoc, List.cons_append, List.nil_append]

/-- A size of zero and what is made of the first two bytes behind it. -/
theorem missedLoop_size_zero (a d₀ d₁ : UInt8) (data t : Bytes) :
    missedLoop a 0 (escape (d₀ :: d₁ :: data) ++ 0x80 :: t) =
      (if a = 0 ∧ d₀ ≤ 2 then 1 else 0) + ((if d₀ = 0 ∧ d₁ ≤ 2 then 1 else 0) +
        missedEscapes t) := by
  have hrest := missedLoop_toEbspLoop d₀ d₁ false data t
  rw [if_neg (by simp)] at hrest
  rw [escape, List.cons_append, List.cons_append, missedLoop, missedLoop, hrest]
  simp only [true_and]

theorem missedEscapes_size_zero {sei : SeiPayload} {d₀ d₁ : UInt8} {data : Bytes}
    (hdata : sei.data = d₀ :: d₁ :: data) (hsize : UInt32.ofNat sei.size = 0) (t : Bytes) :
    missedEscapes (emitSeiPayload sei ++ t) = (if sei.type = 0 ∧ d₀ ≤ 2 then 1 else 0) +
      ((if d₀ = 0 ∧ d₁ ≤ 2 then 1 else 0) + missedEscapes t) := by
  rw [emitSeiPayload_append (by rw [hdata]; exact List.cons_ne_nil _ _), hsize, hdata,
    emitVariadicLengthInt_zero, List.append_assoc, List.singleton_append]
  by_cases htype : sei.type = 0
  · rw [htype, emitVariadicLengthInt_zero, List.singleton_append, missedEscapes, missedLoop,
      missedLoop, if_neg (by simp), if_neg (by simp), Nat.zero_add, Nat.zero_add,
      missedLoop_size_zero]
    simp only [true_and]
  · have hsparse := Sparse.of_ne_zero (emitVariadicLengthInt_ne_zero htype)
    rw [hsparse.missedEscapes_append, missedEscapes, missedLoop, if_neg (by simp), Nat.zero_add,
      missedLoop_size_zero]
    simp [htype]

theorem emulates_iff {sei : SeiPayload} {d₀ d₁ : UInt8} {data : Bytes}
    (hdata : sei.data = d₀ :: d₁ :: data) (hsize : sei.size % 2 ^ 32 = 0) :
    Emulates sei ↔ (d₀ = 0 ∧ d₁ ≤ 2) ∨ sei.type = 0 ∧ d₀ ≤ 2 := by
  have hpair : (∃ x ≤ (2 : UInt8), [0, x] <+: sei.data) ↔ d₀ = 0 ∧ d₁ ≤ 2 := by
    rw [hdata]
    simp [List.cons_prefix_cons, and_comm, eq_comm]
  have hone : (∃ x ≤ (2 : UInt8), [x] <+: sei.data) ↔ d₀ ≤ 2 := by
    rw [hdata]
    simp [List.cons_prefix_cons]
  rw [Emulates, hpair, hone]
  exact and_iff_right hsize

/-- A payload leaves the bytes behind it as they are, and brings in a start code exactly if its
size makes it one. -/
theorem missedEscapes_payload {sei : SeiPayload} (h : sei.data ≠ []) (t : Bytes) :
    missedEscapes (emitSeiPayload sei ++ t) = 0 ↔ ¬Emulates sei ∧ missedEscapes t = 0 := by
  have hword : UInt32.ofNat sei.size = 0 ↔ sei.size % 2 ^ 32 = 0 := by
    rw [← UInt32.toNat_inj, UInt32.toNat_ofNat']
    exact Iff.rfl
  by_cases hsize : UInt32.ofNat sei.size = 0
  · have hmod := hword.mp hsize
    have hpos := List.length_pos_iff.mpr h
    unfold SeiPayload.size at hmod
    match hdata : sei.data, h with
    | [d], _ =>
        rw [hdata] at hmod
        simp at hmod
    | d₀ :: d₁ :: data, _ =>
        rw [missedEscapes_size_zero hdata hsize, emulates_iff hdata (hword.mp hsize)]
        simp only [Nat.add_eq_zero_iff, ite_eq_right_iff, Nat.one_ne_zero, imp_false, not_or]
        tauto
  · have hno : ¬Emulates sei := fun hem => hsize (hword.mpr hem.1)
    rw [emitSeiPayload_append h, (headers_sparse sei.type hsize).missedEscapes_append,
      missedEscapes_escape]
    exact (and_iff_right hno).symm

theorem missedEscapes_flatMap {seis : List SeiPayload} (h : ∀ s ∈ seis, s.data ≠ []) :
    missedEscapes (seis.flatMap emitSeiPayload) = 0 ↔ ∀ s ∈ seis, ¬Emulates s := by
  induction seis with
  | nil => exact iff_of_true rfl fun s hs => absurd hs List.not_mem_nil
  | cons s seis ih =>
      rw [List.flatMap_cons, missedEscapes_payload (h s (List.mem_cons_self ..)),
        ih fun t ht => h t (List.mem_cons_of_mem _ ht), List.forall_mem_cons]

theorem noStartCode_seiNalu_iff {seis : List SeiPayload} (h : ∀ s ∈ seis, s.data ≠ []) :
    NoStartCode (seiNalu seis) ↔ ∀ s ∈ seis, ¬Emulates s := by
  have hcount : missedEscapes (seiNalu seis) = missedEscapes (seis.flatMap emitSeiPayload) :=
    missedEscapes_cons (by decide) _
  rw [NoStartCode, ← missedEscapes_eq_zero, hcount, missedEscapes_flatMap h]

theorem clean_seiNalu_iff {seis : List SeiPayload} (hne : seis ≠ [])
    (hdata : ∀ s ∈ seis, s.data ≠ []) : Clean (seiNalu seis) ↔ ∀ s ∈ seis, ¬Emulates s := by
  obtain ⟨ebsp, hebsp⟩ := flatMap_emitSeiPayload_stopBit hne hdata
  have hlast : (seiNalu seis).getLast? ≠ some 0 := by
    rw [seiNalu, hebsp, ← List.cons_append, List.getLast?_append]
    simp
  rw [← noStartCode_seiNalu_iff hdata]
  exact ⟨fun h => h.noStartCode, fun h => ⟨h, hlast⟩⟩

/-- Whatever the emitter writes behind the length is clean, except for payloads of a size that
does not fit 32 bits. -/
theorem emitSeiPayloadsToAvccNalu_clean_iff {seis : List SeiPayload} {bytes : Bytes}
    (hne : seis ≠ []) (hdata : ∀ s ∈ seis, s.data ≠ [])
    (h : emitSeiPayloadsToAvccNalu seis = .ok bytes) :
    Clean (bytes.drop 4) ↔ ∀ s ∈ seis, ¬Emulates s := by
  by_cases hlt : (sizeHint seis).toNat < Nalu.maxLength
  · rw [emitSeiPayloadsToAvccNalu_of_lt hlt, Except.ok.injEq] at h
    rw [← h, List.drop_left' (beBytes_length 4 _)]
    exact clean_seiNalu_iff hne hdata
  · rw [emitSeiPayloadsToAvccNalu_of_not_lt hlt] at h
    exact nomatch h

/-- Two payloads, the first of type 0 and of nothing but zeros. -/
theorem emitSeiPayloadsToAvccNalu_clean_zeros :
    Clean [6, 0, 3, 0, 0, 3, 0, 0x80, 1, 1, 0, 0x80] := by
  have hsmall : ∀ s ∈ ([⟨0, [0, 0, 0]⟩, ⟨1, [0]⟩] : List SeiPayload), ¬Emulates s := by
    intro s hs hem
    have hsize : ∀ s ∈ ([⟨0, [0, 0, 0]⟩, ⟨1, [0]⟩] : List SeiPayload), s.size % 2 ^ 32 ≠ 0 := by
      decide
    exact hsize s hs hem.1
  have hemit : emitSeiPayloadsToAvccNalu [⟨0, [0, 0, 0]⟩, ⟨1, [0]⟩] =
      .ok [0, 0, 0, 11, 6, 0, 3, 0, 0, 3, 0, 0x80, 1, 1, 0, 0x80] := by decide
  exact (emitSeiPayloadsToAvccNalu_clean_iff (by decide) (by decide) hemit).mpr hsmall

theorem countEmulationLoop_eq_zero {a b : UInt8} {xs : Bytes} (h : ∀ x ∈ xs, x ≠ 3) :
    countEmulationLoop a b xs = 0 := by
  induction xs generalizing a b with
  | nil => rfl
  | cons x xs ih =>
      rw [countEmulationLoop, if_neg fun hc => h x (List.mem_cons_self ..) hc.2.2,
        ih fun y hy => h y (List.mem_cons_of_mem _ hy)]

/-- The estimate for zeros of a size that does not fit 32 bits counts their headers and their
stop bit only. -/
theorem sizeHint_zeros {n : Nat} (h : n % 2 ^ 32 = 0) :
    (sizeHint [⟨0, List.replicate n 0⟩]).toNat = 4 := by
  have hcount : countEmulationPreventionBytes (List.replicate n 0) = 0 := by
    rw [count_eq_loop]
    refine countEmulationLoop_eq_zero fun x hx => ?_
    rw [List.eq_of_mem_replicate hx]
    decide
  have hsize : SeiPayload.size ⟨0, List.replicate n 0⟩ = n := List.length_replicate
  rw [sizeHint_eq, UInt32.toNat_ofNat', List.map_singleton, List.sum_singleton, estimate, hsize,
    hcount, h]
  show (1 + (n + 0 + 1 + (0 / 255 + 1) + (0 / 255 + 1))) % 2 ^ 32 = 4
  omega

/-- A payload of 2^32 zeros: its size is written as one zero more. -/
theorem emitSeiPayloadsToAvccNalu_emulates :
    ∃ bytes, emitSeiPayloadsToAvccNalu [⟨0, List.replicate (2 ^ 32) 0⟩] = .ok bytes ∧
      ¬NoStartCode (bytes.drop 4) := by
  generalize hn : 2 ^ 32 = n
  have hmod : n % 2 ^ 32 = 0 := by omega
  have hne : List.replicate n (0 : UInt8) ≠ [] := by
    rw [Ne, List.replicate_eq_nil_iff]
    omega
  have hlt : (sizeHint [⟨0, List.replicate n 0⟩]).toNat < Nalu.maxLength := by
    rw [sizeHint_zeros hmod]
    decide
  refine ⟨_, emitSeiPayloadsToAvccNalu_of_lt hlt, fun hclean => ?_⟩
  rw [List.drop_left' (beBytes_length 4 _),
    noStartCode_seiNalu_iff fun s hs => by rw [List.mem_singleton.mp hs]; exact hne] at hclean
  refine hclean _ (List.mem_singleton.mpr rfl) ⟨?_, .inr ⟨rfl, 0, by decide, ?_⟩⟩
  · rwa [SeiPayload.size, List.length_replicate]
  · obtain ⟨k, hk⟩ : ∃ k, n = k + 1 := ⟨n - 1, by omega⟩
    show [0] <+: List.replicate n 0
    rw [hk, List.replicate_succ]
    exact ⟨_, rfl⟩

end H264
end Metamix
