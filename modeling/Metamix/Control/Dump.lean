/-
Dumping a JSON value.

`json::dump` writes strings as UTF-8 and throws a `type_error` at the first one that is not.  Its
decoder is an automaton with a table; `decode_iff` says that it accepts exactly the byte strings
that are well formed.

A text of the program is a string of bytes, of which each stands here as the character of its value.
-/
import Metamix.Control.Controller
import Metamix.Lib.BigEndian

namespace Metamix
namespace Control

open Lib

/-! ## The decoder -/

def utf8Accept : Nat := 0

def utf8Reject : Nat := 1

/-- The type of each byte, and behind that what each state does with each type. -/
def utf8d : List Nat :=
  [
    0, 0, 0, 0, 0, 0, 0, 0, 0, 0, 0, 0, 0, 0, 0, 0, 0, 0, 0, 0, 0, 0, 0, 0, 0, 0, 0, 0, 0, 0, 0, 0,
    0, 0, 0, 0, 0, 0, 0, 0, 0, 0, 0, 0, 0, 0, 0, 0, 0, 0, 0, 0, 0, 0, 0, 0, 0, 0, 0, 0, 0, 0, 0, 0,
    0, 0, 0, 0, 0, 0, 0, 0, 0, 0, 0, 0, 0, 0, 0, 0, 0, 0, 0, 0, 0, 0, 0, 0, 0, 0, 0, 0, 0, 0, 0, 0,
    0, 0, 0, 0, 0, 0, 0, 0, 0, 0, 0, 0, 0, 0, 0, 0, 0, 0, 0, 0, 0, 0, 0, 0, 0, 0, 0, 0, 0, 0, 0, 0,
    1, 1, 1, 1, 1, 1, 1, 1, 1, 1, 1, 1, 1, 1, 1, 1, 9, 9, 9, 9, 9, 9, 9, 9, 9, 9, 9, 9, 9, 9, 9, 9,
    7, 7, 7, 7, 7, 7, 7, 7, 7, 7, 7, 7, 7, 7, 7, 7, 7, 7, 7, 7, 7, 7, 7, 7, 7, 7, 7, 7, 7, 7, 7, 7,
    8, 8, 2, 2, 2, 2, 2, 2, 2, 2, 2, 2, 2, 2, 2, 2, 2, 2, 2, 2, 2, 2, 2, 2, 2, 2, 2, 2, 2, 2, 2, 2,
    10, 3, 3, 3, 3, 3, 3, 3, 3, 3, 3, 3, 3, 4, 3, 3,
    11, 6, 6, 6, 5, 8, 8, 8, 8, 8, 8, 8, 8, 8, 8, 8,
    0, 1, 2, 3, 5, 8, 7, 1, 1, 1, 4, 6, 1, 1, 1, 1, 1, 1, 1, 1, 1, 1, 1, 1, 1, 1, 1, 1, 1, 1, 1, 1,
    1, 0, 1, 1, 1, 1, 1, 0, 1, 0, 1, 1, 1, 1, 1, 1, 1, 2, 1, 1, 1, 1, 1, 2, 1, 2, 1, 1, 1, 1, 1, 1,
    1, 1, 1, 1, 1, 1, 1, 2, 1, 1, 1, 1, 1, 1, 1, 1, 1, 2, 1, 1, 1, 1, 1, 1, 1, 2, 1, 1, 1, 1, 1, 1,
    1, 1, 1, 1, 1, 1, 1, 3, 1, 3, 1, 1, 1, 1, 1, 1, 1, 3, 1, 1, 1, 1, 1, 3, 1, 3, 1, 1, 1, 1, 1, 1,
    1, 3, 1, 1, 1, 1, 1, 1, 1, 1, 1, 1, 1, 1, 1, 1]

/-- `serializer::decode`, without the code point. -/
def decode (state : Nat) (byte : UInt8) : Nat :=
  utf8d.getD (256 + state * 16 + utf8d.getD byte.toNat 0) 0

/-! ## What is well formed -/

/-- What may follow the first byte of a longer sequence: the second byte is in a range, and so many
bytes come behind it. -/
def second (a : UInt8) : Option (UInt8 × UInt8 × Nat) :=
  if 0xc2 ≤ a ∧ a ≤ 0xdf then some (0x80, 0xbf, 0)
  else if a = 0xe0 then some (0xa0, 0xbf, 1)
  else if a = 0xed then some (0x80, 0x9f, 1)
  else if 0xe1 ≤ a ∧ a ≤ 0xef then some (0x80, 0xbf, 1)
  else if a = 0xf0 then some (0x90, 0xbf, 2)
  else if 0xf1 ≤ a ∧ a ≤ 0xf3 then some (0x80, 0xbf, 2)
  else if a = 0xf4 then some (0x80, 0x8f, 2)
  else none

/-- The well-formed byte sequences of the Unicode standard: no code point is written longer than it
has to be, none is a surrogate and none is above the last one. -/
inductive WellFormed : List UInt8 → Prop where
  | nil : WellFormed []
  | ascii {a : UInt8} {rest : List UInt8} (ha : a < 0x80) (hrest : WellFormed rest) :
      WellFormed (a :: rest)
  | long {a lo hi b : UInt8} {n : Nat} {tail rest : List UInt8}
      (ha : second a = some (lo, hi, n)) (hb : lo ≤ b ∧ b ≤ hi)
      (htail : ∀ c ∈ tail, 0x80 ≤ c ∧ c ≤ 0xbf) (hn : tail.length = n)
      (hrest : WellFormed rest) : WellFormed (a :: b :: (tail ++ rest))

/-! ## The automaton -/

/-- The state that waits for so many bytes of a tail. -/
def waiting : Nat → Nat
  | 0 => utf8Accept
  | 1 => 2
  | _ => 3

/-- Where a first byte leads to. -/
def afterFirst : List ((UInt8 × UInt8 × Nat) × Nat) :=
  [((0x80, 0xbf, 0), 2), ((0xa0, 0xbf, 1), 4), ((0x80, 0x9f, 1), 5), ((0x80, 0xbf, 1), 3),
    ((0x90, 0xbf, 2), 6), ((0x80, 0xbf, 2), 7), ((0x80, 0x8f, 2), 8)]

/-- The types of the bytes, by the ranges they stand in. -/
def typeOf (b : UInt8) : Nat :=
  if b < 0x80 then 0
  else if b < 0x90 then 1
  else if b < 0xa0 then 9
  else if b < 0xc0 then 7
  else if b < 0xc2 then 8
  else if b < 0xe0 then 2
  else if b = 0xe0 then 10
  else if b = 0xed then 4
  else if b < 0xf0 then 3
  else if b = 0xf0 then 11
  else if b < 0xf4 then 6
  else if b = 0xf4 then 5
  else 8

theorem utf8d_typeOf : ∀ b, utf8d.getD b.toNat 0 = typeOf b := by decide +kernel

theorem decode_eq (state : Nat) (b : UInt8) :
    decode state b = utf8d.getD (256 + state * 16 + typeOf b) 0 := by
  rw [decode, utf8d_typeOf]

theorem decode_reject : ∀ b, decode utf8Reject b = utf8Reject := by
  simp only [decode_eq]
  decide +kernel

theorem decode_ascii : ∀ a < 0x80, decode utf8Accept a = utf8Accept := by
  simp only [decode_eq]
  decide +kernel

theorem decode_first : ∀ a, (second a = none → ¬a < 0x80 → decode utf8Accept a = utf8Reject) ∧
    ∀ x ∈ second a, (x, decode utf8Accept a) ∈ afterFirst := by
  simp only [decode_eq]
  decide +kernel

theorem decode_second : ∀ x ∈ afterFirst, ∀ b,
    decode x.2 b = if x.1.1 ≤ b ∧ b ≤ x.1.2.1 then waiting x.1.2.2 else utf8Reject := by
  simp only [decode_eq]
  decide +kernel

theorem afterFirst_waits : ∀ x ∈ afterFirst, x.2 ≠ utf8Accept ∧ x.1.2.2 ≤ 2 := by decide

theorem decode_tail : ∀ n < 2, ∀ c,
    decode (waiting (n + 1)) c = if 0x80 ≤ c ∧ c ≤ 0xbf then waiting n else utf8Reject := by
  simp only [decode_eq]
  decide +kernel

theorem foldl_reject (bytes : List UInt8) : bytes.foldl decode utf8Reject = utf8Reject := by
  induction bytes with
  | nil => rfl
  | cons b bytes ih =>
      rw [List.foldl_cons, decode_reject]
      exact ih

theorem waiting_succ_ne (n : Nat) : waiting (n + 1) ≠ utf8Accept := by
  cases n with
  | zero => decide
  | succ n => exact Nat.succ_ne_zero 2

theorem foldl_tail {n : Nat} {tail : List UInt8} (hn : tail.length = n) (hle : n ≤ 2)
    (htail : ∀ c ∈ tail, 0x80 ≤ c ∧ c ≤ 0xbf) : tail.foldl decode (waiting n) = utf8Accept := by
  induction tail generalizing n with
  | nil =>
      subst hn
      rfl
  | cons c tail ih =>
      obtain ⟨hc, hrest⟩ := List.forall_mem_cons.mp htail
      subst hn
      rw [List.foldl_cons, List.length_cons, decode_tail tail.length hle c, if_pos hc]
      exact ih rfl (Nat.le_of_succ_le hle) hrest

/-- What is accepted while a tail is missing begins with the tail. -/
theorem tail_of_foldl {n : Nat} (hle : n ≤ 2) {bytes : List UInt8}
    (h : bytes.foldl decode (waiting n) = utf8Accept) :
    ∃ tail rest, bytes = tail ++ rest ∧ tail.length = n ∧ (∀ c ∈ tail, 0x80 ≤ c ∧ c ≤ 0xbf) ∧
      rest.foldl decode utf8Accept = utf8Accept := by
  induction n generalizing bytes with
  | zero => exact ⟨[], bytes, rfl, rfl, fun c hc => absurd hc List.not_mem_nil, h⟩
  | succ n ih =>
      cases bytes with
      | nil => exact absurd h (waiting_succ_ne n)
      | cons c bytes =>
          rw [List.foldl_cons, decode_tail n hle c] at h
          split_ifs at h with hc
          · obtain ⟨tail, rest, rfl, hlen, htail, hrest⟩ := ih (Nat.le_of_succ_le hle) h
            exact ⟨c :: tail, rest, rfl, congrArg (· + 1) hlen,
              List.forall_mem_cons.mpr ⟨hc, htail⟩,
              hrest⟩
          · rw [foldl_reject] at h
            cases h

theorem foldl_of_wellFormed {bytes : List UInt8} (h : WellFormed bytes) :
    bytes.foldl decode utf8Accept = utf8Accept := by
  induction h with
  | nil => rfl
  | ascii ha hrest ih =>
      rw [List.foldl_cons, decode_ascii _ ha]
      exact ih
  | long ha hb htail hn hrest ih =>
      have hfirst := (decode_first _).2 _ ha
      rw [List.foldl_cons, List.foldl_cons, decode_second _ hfirst, if_pos hb, List.foldl_append,
        foldl_tail hn (afterFirst_waits _ hfirst).2 htail]
      exact ih

theorem wellFormed_of_foldl {bytes : List UInt8}
    (h : bytes.foldl decode utf8Accept = utf8Accept) : WellFormed bytes := by
  induction hlen : bytes.length using Nat.strong_induction_on generalizing bytes with
  | h len ih =>
      subst hlen
      cases bytes with
      | nil => exact .nil
      | cons a bytes =>
          rw [List.foldl_cons] at h
          by_cases ha : a < 0x80
          · rw [decode_ascii a ha] at h
            exact .ascii ha (ih _ (Nat.lt_succ_self _) h rfl)
          cases hsecond : second a with
          | none =>
              rw [(decode_first a).1 hsecond ha, foldl_reject] at h
              cases h
          | some x =>
              have hfirst := (decode_first a).2 x hsecond
              obtain ⟨hwaits, hle⟩ := afterFirst_waits _ hfirst
              cases bytes with
              | nil => exact absurd h hwaits
              | cons b bytes =>
                  rw [List.foldl_cons, decode_second _ hfirst] at h
                  split_ifs at h with hb
                  · obtain ⟨tail, rest, rfl, hn, htail, hrest⟩ := tail_of_foldl hle h
                    have hless : rest.length < (a :: b :: (tail ++ rest)).length := by
                      rw [List.length_cons, List.length_cons, List.length_append]
                      omega
                    exact .long hsecond hb htail hn (ih _ hless hrest rfl)
                  · rw [foldl_reject] at h
                    cases h

/-- The automaton accepts exactly what is well formed. -/
theorem decode_iff (bytes : List UInt8) :
    bytes.foldl decode utf8Accept = utf8Accept ↔ WellFormed bytes :=
  ⟨wellFormed_of_foldl, foldl_of_wellFormed⟩

/-! ## Dumping -/

def bytesOf (s : String) : List UInt8 := s.toList.map fun c => UInt8.ofNat c.toNat

def hexDigit (n : Nat) : Char := "0123456789ABCDEF".toList.getD n '0'

def hexByte (byte : UInt8) : String :=
  String.ofList [hexDigit (byte.toNat / 16), hexDigit (byte.toNat % 16)]

def invalidByte (i : Nat) (byte : UInt8) : Exception :=
  .jsonTypeError ("[json.exception.type_error.316] invalid UTF-8 byte at index " ++ i.repr ++
    ": 0x" ++ hexByte byte)

def incomplete (byte : UInt8) : Exception :=
  .jsonTypeError ("[json.exception.type_error.316] incomplete UTF-8 string; last byte: 0x" ++
    hexByte byte)

/-- The state behind the bytes, of which the next one is the `i`th. -/
def dumpBytes (i state : Nat) : List UInt8 → Except Exception Nat
  | [] => .ok state
  | byte :: bytes =>
      if decode state byte = utf8Reject then .error (invalidByte i byte)
      else dumpBytes (i + 1) (decode state byte) bytes

/-- `serializer::dump_escaped`, by what it throws. -/
def dumpEscaped (s : String) : Except Exception Unit :=
  match dumpBytes 0 utf8Accept (bytesOf s) with
  | .ok state => if state = utf8Accept then .ok () else .error (incomplete ((bytesOf s).getLastD 0))
  | .error e => .error e

mutual

/-- The strings of a value, in the order in which they are dumped. -/
def Json.texts : Json → List String
  | .string s => [s]
  | .array elements => elementTexts elements
  | .object fields => fieldTexts fields
  | _ => []

def elementTexts : List Json → List String
  | [] => []
  | j :: js => j.texts ++ elementTexts js

def fieldTexts : List (String × Json) → List String
  | [] => []
  | (key, j) :: fields => key :: j.texts ++ fieldTexts fields

end

/-- `json::dump`, by what it throws. -/
def Json.dump (j : Json) : Except Exception Unit := j.texts.forM dumpEscaped

/-! ## What is thrown -/

def Utf8 (s : String) : Prop := WellFormed (bytesOf s)

instance (s : String) : Decidable (Utf8 s) := decidable_of_iff _ (decode_iff (bytesOf s))

def Ascii (s : String) : Prop := ∀ c ∈ s.toList, c.toNat < 128

instance (s : String) : Decidable (Ascii s) := List.decidableBAll _ s.toList

theorem Ascii.append {s t : String} (hs : Ascii s) (ht : Ascii t) : Ascii (s ++ t) := by
  unfold Ascii
  rw [String.toList_append]
  exact List.forall_mem_append.mpr ⟨hs, ht⟩

theorem Ascii.utf8 {s : String} (h : Ascii s) : Utf8 s := by
  have hall (cs : List Char) (hcs : ∀ c ∈ cs, c.toNat < 128) :
      WellFormed (cs.map fun c => UInt8.ofNat c.toNat) := by
    induction cs with
    | nil => exact .nil
    | cons c cs ih =>
        obtain ⟨hc, hrest⟩ := List.forall_mem_cons.mp hcs
        refine .ascii ?_ (ih hrest)
        rw [UInt8.lt_iff_toNat_lt, UInt8.toNat_ofNat']
        show c.toNat % 256 < 128
        omega
  exact hall s.toList h

theorem ascii_hexByte : ∀ byte, Ascii (hexByte byte) := by decide +kernel

theorem ascii_repr (n : Nat) : Ascii n.repr := by
  intro c hc
  rw [Nat.repr, String.toList_ofList] at hc
  have hdigit := Nat.isDigit_of_mem_toDigits (by decide) (by decide) hc
  rw [Char.isDigit_iff_toNat] at hdigit
  exact Nat.lt_of_le_of_lt hdigit.2 (by decide)

theorem invalidByte_ascii (i : Nat) (byte : UInt8) :
    ∃ what, Ascii what ∧ invalidByte i byte = .jsonTypeError what :=
  ⟨_, (((by decide : Ascii _).append (ascii_repr i)).append (by decide)).append
    (ascii_hexByte byte), rfl⟩

theorem incomplete_ascii (byte : UInt8) :
    ∃ what, Ascii what ∧ incomplete byte = .jsonTypeError what :=
  ⟨_, (by decide : Ascii _).append (ascii_hexByte byte), rfl⟩

theorem dumpBytes_cases (i state : Nat) (bytes : List UInt8) :
    dumpBytes i state bytes = .ok (bytes.foldl decode state) ∨
      bytes.foldl decode state = utf8Reject ∧
        ∃ j byte, dumpBytes i state bytes = .error (invalidByte j byte) := by
  induction bytes generalizing i state with
  | nil => exact .inl rfl
  | cons byte bytes ih =>
      rw [dumpBytes, List.foldl_cons]
      split_ifs with hreject
      · rw [hreject]
        exact .inr ⟨foldl_reject bytes, i, byte, rfl⟩
      · exact ih _ _

theorem dumpEscaped_cases (s : String) : Utf8 s ∧ dumpEscaped s = .ok () ∨
    ¬Utf8 s ∧ ∃ what, Ascii what ∧ dumpEscaped s = .error (.jsonTypeError what) := by
  unfold Utf8 dumpEscaped
  rw [← decode_iff]
  obtain h | ⟨hreject, j, byte, h⟩ := dumpBytes_cases 0 utf8Accept (bytesOf s)
  · rw [h]
    by_cases haccept : (bytesOf s).foldl decode utf8Accept = utf8Accept
    · exact .inl ⟨haccept, if_pos haccept⟩
    · obtain ⟨what, hwhat, hincomplete⟩ := incomplete_ascii ((bytesOf s).getLastD 0)
      exact .inr ⟨haccept, what, hwhat, (if_neg haccept).trans (congrArg Except.error hincomplete)⟩
  · obtain ⟨what, hwhat, hinvalid⟩ := invalidByte_ascii j byte
    rw [h, hreject]
    exact .inr ⟨by decide, what, hwhat, congrArg Except.error hinvalid⟩

/-- A value is dumped, or one of its strings is no UTF-8. -/
theorem Json.dump_cases (j : Json) : (∀ s ∈ j.texts, Utf8 s) ∧ j.dump = .ok () ∨
    (∃ s ∈ j.texts, ¬Utf8 s) ∧ ∃ what, Ascii what ∧ j.dump = .error (.jsonTypeError what) := by
  unfold dump
  generalize j.texts = texts
  induction texts with
  | nil => exact .inl ⟨fun s hs => absurd hs List.not_mem_nil, rfl⟩
  | cons s texts ih =>
      have hcons : (s :: texts).forM dumpEscaped =
          (dumpEscaped s).bind fun _ => texts.forM dumpEscaped := rfl
      rw [hcons]
      obtain ⟨hs, hdump⟩ | ⟨hs, what, hwhat, hdump⟩ := dumpEscaped_cases s
      · rw [hdump]
        obtain ⟨hall, hrest⟩ | ⟨⟨t, ht, hbad⟩, hrest⟩ := ih
        · exact .inl ⟨List.forall_mem_cons.mpr ⟨hs, hall⟩, hrest⟩
        · exact .inr ⟨⟨t, List.mem_cons_of_mem _ ht, hbad⟩, hrest⟩
      · rw [hdump]
        exact .inr ⟨⟨s, List.mem_cons_self, hs⟩, what, hwhat, rfl⟩

end Control
end Metamix
