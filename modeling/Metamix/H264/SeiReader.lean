/-
Reading the messages of a SEI NALU by the standard.

Behind its first byte a SEI NALU holds messages, each of a type, a size and that many bytes, and
then the stop bit.  `messages` takes out of it what is all there, messages of no bytes among
them, and does not fail.  It undoes the standard's encoder (`messages_insertEmulation`), and
where the source's reader comes to the end of a NALU, it has read the same messages
(`messages_of_drainSeiNalu`).
-/
import Metamix.H264.Escaping
import Metamix.H264.SeiNalu
import Metamix.H264.SeiSyntax

namespace Metamix
namespace H264

open Lib Binary BinaryParser

/-- The number at the front, and what is behind it. -/
def decodeInt : Bytes → Option (Nat × Bytes)
  | [] => none
  | b :: bs => if b = 0xff then (decodeInt bs).map fun r => (255 + r.1, r.2) else some (b.toNat, bs)

/-- The stop bit and zeros behind it, or nothing at all: there is no more data. -/
def isTrailing : Bytes → Bool
  | [] => true
  | b :: bs => b == 0x80 && bs.all (· == 0)

/-- Every message takes two bytes at least, so the length of the bytes is fuel enough. -/
def messagesLoop : Nat → Bytes → List (Nat × Bytes)
  | 0, _ => []
  | fuel + 1, rbsp =>
      if isTrailing rbsp then []
      else
        match decodeInt rbsp with
        | none => []
        | some (type, rest) =>
            match decodeInt rest with
            | none => []
            | some (size, rest) =>
                if size ≤ rest.length then
                  (type, rest.take size) :: messagesLoop fuel (rest.drop size)
                else []

def messages (nalu : Bytes) : List (Nat × Bytes) :=
  messagesLoop ((unescape nalu).drop 1).length ((unescape nalu).drop 1)

/-! ## What the standard writes -/

def encodeMessage (m : Nat × Bytes) : Bytes :=
  encodeInt m.1 ++ (encodeInt m.2.length ++ m.2)

theorem decodeInt_replicate (q : Nat) {b : UInt8} (hb : b ≠ 0xff) (t : Bytes) :
    decodeInt (List.replicate q 0xff ++ b :: t) = some (255 * q + b.toNat, t) := by
  induction q with
  | zero =>
      rw [List.replicate_zero, List.nil_append, decodeInt, if_neg hb, Nat.mul_zero, Nat.zero_add]
  | succ q ih =>
      rw [List.replicate_succ, List.cons_append, decodeInt, if_pos rfl, ih, Option.map_some]
      congr 2
      omega

theorem decodeInt_encodeInt (n : Nat) (t : Bytes) : decodeInt (encodeInt n ++ t) = some (n, t) := by
  have hbyte : (UInt8.ofNat (n % 255)).toNat = n % 255 := by
    rw [UInt8.toNat_ofNat']
    omega
  have hne : UInt8.ofNat (n % 255) ≠ 0xff := by
    intro h
    rw [h, show (0xff : UInt8).toNat = 255 from rfl] at hbyte
    omega
  rw [encodeInt, List.append_assoc, List.singleton_append, decodeInt_replicate _ hne, hbyte]
  congr 2
  omega

theorem encodeMessage_length (m : Nat × Bytes) : 2 ≤ (encodeMessage m).length := by
  rw [encodeMessage, List.length_append, List.length_append, encodeInt_length, encodeInt_length]
  omega

theorem isTrailing_append {w : Bytes} (hw : w ≠ []) (t : Bytes) :
    isTrailing (w ++ 0x80 :: t) = false := by
  cases w with
  | nil => exact absurd rfl hw
  | cons b w => simp [isTrailing]

theorem isTrailing_stop (k : Nat) : isTrailing (0x80 :: List.replicate k 0) = true := by
  simp [isTrailing]

/-- What is written is read back, and the reader stops at the stop bit. -/
theorem messagesLoop_encode (ms : List (Nat × Bytes)) (k : Nat) {fuel : Nat}
    (hfuel : ms.length ≤ fuel) :
    messagesLoop fuel (ms.flatMap encodeMessage ++ 0x80 :: List.replicate k 0) = ms := by
  induction ms generalizing fuel with
  | nil =>
      cases fuel with
      | zero => rfl
      | succ fuel =>
          rw [List.flatMap_nil, List.nil_append, messagesLoop, isTrailing_stop, if_pos rfl]
  | cons m ms ih =>
      cases fuel with
      | zero => exact absurd hfuel (by simp)
      | succ fuel =>
          have hne : (m :: ms).flatMap encodeMessage ≠ [] := by
            intro hnil
            have hlen := congrArg List.length hnil
            have htwo := encodeMessage_length m
            rw [List.flatMap_cons, List.length_append, List.length_nil] at hlen
            omega
          rw [messagesLoop, isTrailing_append hne, if_neg (by simp), List.flatMap_cons,
            encodeMessage, List.append_assoc, List.append_assoc, decodeInt_encodeInt]
          dsimp only
          rw [List.append_assoc, decodeInt_encodeInt]
          dsimp only
          rw [if_pos (by simp), List.take_left, List.drop_left,
            ih (Nat.le_of_succ_le_succ hfuel)]

theorem length_le_flatMap (ms : List (Nat × Bytes)) :
    ms.length ≤ (ms.flatMap encodeMessage).length := by
  induction ms with
  | nil => exact Nat.le_refl 0
  | cons m ms ih =>
      have htwo := encodeMessage_length m
      rw [List.flatMap_cons, List.length_append, List.length_cons]
      omega

theorem messages_insertEmulation (header : UInt8) (ms : List (Nat × Bytes)) :
    messages (insertEmulation [] (header :: (ms.flatMap encodeMessage ++ [0x80]))) = ms := by
  have hback := copyEbspToRbsp_insertEmulation (header :: (ms.flatMap encodeMessage ++ [0x80]))
  rw [copyEbspToRbsp_eq] at hback
  have hle := length_le_flatMap ms
  rw [messages, Except.ok.inj hback, List.drop_one, List.tail_cons]
  refine messagesLoop_encode ms 0 ?_
  rw [List.length_append]
  omega

/-! ## What the source reads -/

/-- A header that stays below 32 bits is the standard's. -/
theorem Header.eq_encodeInt {w : Bytes} {n : UInt32} (h : Header w n)
    (hlen : 255 * w.length < 2 ^ 32) : w = encodeInt n.toNat ∧ n.toNat < 255 * w.length := by
  induction h with
  | @last b hb =>
      have hlt : b.toNat < 255 := by
        have hne : b.toNat ≠ 255 := fun heq => hb (UInt8.toNat_inj.mp heq)
        have := b.toNat_lt
        omega
      rw [UInt8.toNat_toUInt32, encodeInt, Nat.div_eq_of_lt hlt, Nat.mod_eq_of_lt hlt,
        UInt8.ofNat_toNat]
      exact ⟨rfl, by simpa using hlt⟩
  | @more w n _ ih =>
      rw [List.length_cons] at hlen ⊢
      obtain ⟨hw, hn⟩ := ih (by omega)
      have hnum : (255 + n).toNat = 255 + n.toNat := by
        rw [UInt32.toNat_add, show (255 : UInt32).toNat = 255 from rfl, Nat.mod_eq_of_lt (by omega)]
      have hdiv : (255 + n.toNat) / 255 = n.toNat / 255 + 1 := by omega
      have hmod : (255 + n.toNat) % 255 = n.toNat % 255 := by omega
      rw [hnum]
      refine ⟨?_, by omega⟩
      rw [encodeInt, hdiv, hmod, List.replicate_succ, List.cons_append]
      exact congrArg (0xff :: ·) hw

def SeiPayload.message (s : SeiPayload) : Nat × Bytes := (s.type.toNat, s.data)

theorem Spells.eq_encodeMessage {w : Bytes} {s : SeiPayload} (h : Spells w s)
    (hlen : 255 * w.length < 2 ^ 32) : w = encodeMessage s.message := by
  obtain ⟨wt, ws, n, htype, hsize, hn, _, rfl⟩ := h
  simp only [List.length_append] at hlen
  have hnum : n.toNat = s.data.length := hn
  rw [encodeMessage, SeiPayload.message, ← (htype.eq_encodeInt (by omega)).1, ← hnum,
    ← (hsize.eq_encodeInt (by omega)).1]

theorem splits_eq_encode {seis : List SeiPayload} {body : Bytes}
    (h : Splits seiParser seis body) (hlen : 255 * body.length < 2 ^ 32) :
    body = (seis.map SeiPayload.message).flatMap encodeMessage := by
  induction seis generalizing body with
  | nil => exact h
  | cons s seis ih =>
      obtain ⟨w, t, hspells, rfl, _, ht⟩ := splits_cons.mp h
      rw [List.length_append] at hlen
      rw [List.map_cons, List.flatMap_cons, ← hspells.eq_encodeMessage (by omega),
        ← ih ht (by omega)]

theorem fromEbspLoop_append {t : Bytes} (ht : (3 : UInt8) ∉ t) (a b : UInt8) (xs : Bytes) :
    fromEbspLoop a b (xs ++ t) = fromEbspLoop a b xs ++ t := by
  induction xs generalizing a b with
  | nil =>
      rw [List.nil_append, fromEbspLoop, List.nil_append]
      induction t generalizing a b with
      | nil => rfl
      | cons x t ih =>
          rw [List.mem_cons, not_or] at ht
          have hx : ¬(a = 0 ∧ b = 0 ∧ x = 3) := fun h => ht.1 h.2.2.symm
          rw [fromEbspLoop, if_neg hx, ih ht.2]
  | cons x xs ih =>
      rw [List.cons_append, fromEbspLoop, fromEbspLoop, ih]
      split <;> rfl

theorem unescape_length_le (src : Bytes) : (unescape src).length ≤ src.length := by
  have hloop : ∀ a b, (fromEbspLoop a b src).length ≤ src.length := by
    induction src with
    | nil => exact fun _ _ => Nat.le_refl 0
    | cons x src ih =>
        intro a b
        have htail := ih b x
        rw [fromEbspLoop]
        split <;> simp only [List.length_cons] <;> omega
  rw [unescape_eq_loop]
  exact hloop 1 1

/-- Where the source gets to the end of a NALU, the standard reads the same. -/
theorem messages_of_drainSeiNalu {n : Nalu} {seis : List SeiPayload} (htype : n.type = .sei)
    (hsize : n.size ≤ Nalu.maxLength) (h : drainSeiNalu n.data = .ok seis) :
    messages n.data = seis.map SeiPayload.message := by
  obtain ⟨sodb, hsodb, hdrain⟩ := drain_of_drainSeiNalu h
  obtain ⟨src, ⟨k, hdata⟩, rfl⟩ := (copyEbspToSodb_eq_ok n.nonempty).mp hsodb
  have hstop : (3 : UInt8) ∉ (0x80 :: List.replicate k 0 : Bytes) := by
    rw [List.mem_cons, not_or]
    exact ⟨by decide, fun hin => absurd (List.eq_of_mem_replicate hin) (by decide)⟩
  have hplain : unescape n.data = unescape src ++ 0x80 :: List.replicate k 0 := by
    rw [unescape_eq_loop, hdata, fromEbspLoop_append hstop, ← unescape_eq_loop]
  have hsrc : src ≠ [] := by
    intro hnil
    -- The first byte would be the stop bit's, which is no SEI header.
    have hfront : n.front = 0x80 := by
      simp only [Nalu.front, hdata, hnil, List.nil_append, List.head_cons]
    rw [Nalu.type, hfront] at htype
    exact absurd htype (by decide)
  have hne : unescape src ≠ [] := by
    match src with
    | [] => exact absurd rfl hsrc
    | [x] => simp [unescape]
    | x :: y :: src => simp [unescape]
  obtain ⟨header, body, hbody⟩ := List.exists_cons_of_ne_nil hne
  have hshort : body.length ≤ n.size := by
    have hle := unescape_length_le n.data
    rw [hplain, hbody, List.length_append, List.length_cons] at hle
    exact Nat.le_trans (by omega) hle
  have hmax : 255 * Nalu.maxLength < 2 ^ 32 := by decide
  rw [hbody, List.drop_one, List.tail_cons] at hdrain
  have hsplits := splits_eq_encode ((drain_eq_none _).mp hdrain) (by omega)
  have hle := length_le_flatMap (seis.map SeiPayload.message)
  rw [messages, hplain, hbody, List.cons_append, List.drop_one, List.tail_cons, hsplits]
  refine messagesLoop_encode _ k ?_
  rw [List.length_append]
  omega

end H264
end Metamix
