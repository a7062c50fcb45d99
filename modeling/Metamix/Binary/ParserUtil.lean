/-
Fixed-width field readers.

A reader holds the bytes from `ptr` to `endptr`: dereferencing past them is the
fault `outOfBounds`, and moving `ptr` drops bytes.  `scan` functions look without
moving, `read` functions look and move.  The lemmas say what each reader makes of
what the matching writer wrote.
-/
import Metamix.Binary.EmitterUtil

namespace Metamix
namespace Binary

open Lib Lib.Reader

abbrev Reader := Lib.Reader UInt8 Fault

/-- `endptr - ptr`. -/
def available : Reader Nat := fun s => .ok (s.length, s)

/-- `ptr[i]`. -/
def deref (i : Nat) : Reader UInt8 := fun s =>
  match s[i]? with
  | some b => .ok (b, s)
  | none => .error .outOfBounds

/-- `ptr += n`. -/
def advance (n : Nat) : Reader Unit := fun s => .ok ((), s.drop n)

def requireDistance (distance : Nat) : Reader Unit := fun s =>
  if s.length < distance then
    .error (parseError ("expected at least " ++ toString distance ++
      " bytes, but got only " ++ toString s.length))
  else .ok ((), s)

def scan8 (mask : UInt8) : Reader UInt8 := do
  requireDistance 1
  return (← deref 0) &&& mask

def read8 (mask : UInt8) : Reader UInt8 := do
  let val ← scan8 mask
  advance 1
  return val

def scanFlag (mask : UInt8) : Reader Bool := do
  return (← scan8 mask) != 0

def scan12High : Reader UInt16 := do
  requireDistance 2
  let b0 ← deref 0
  let b1 ← deref 1
  return (b0.toUInt16 <<< 4) + ((b1 &&& 0xf0) >>> 4).toUInt16

def scan12Low : Reader UInt16 := do
  requireDistance 2
  let b0 ← deref 0
  let b1 ← deref 1
  return ((b0.toUInt16 &&& 0x0f) <<< 8) + b1.toUInt16

def read12Low : Reader UInt16 := do
  let val ← scan12Low
  advance 2
  return val

def scan16 : Reader UInt16 := do
  requireDistance 2
  let b0 ← deref 0
  let b1 ← deref 1
  return (b0.toUInt16 <<< 8) + b1.toUInt16

def read16 : Reader UInt16 := do
  let val ← scan16
  advance 2
  return val

def scan32 : Reader UInt32 := do
  requireDistance 4
  let b0 ← deref 0
  let b1 ← deref 1
  let b2 ← deref 2
  let b3 ← deref 3
  return (b0.toUInt32 <<< 24) + (b1.toUInt32 <<< 16) + (b2.toUInt32 <<< 8) + b3.toUInt32

def read32 : Reader UInt32 := do
  let val ← scan32
  advance 4
  return val

def scan33 : Reader UInt64 := do
  requireDistance 5
  let b0 ← deref 0
  let b1 ← deref 1
  let b2 ← deref 2
  let b3 ← deref 3
  let b4 ← deref 4
  return ((b0 &&& 1).toUInt64 <<< 32) + (b1.toUInt64 <<< 24) + (b2.toUInt64 <<< 16) +
    (b3.toUInt64 <<< 8) + b4.toUInt64

def read33 : Reader UInt64 := do
  let val ← scan33
  advance 5
  return val

/-- The order in which the two operands of the sum in `scan_48` are evaluated.  The
left one moves the local cursor, the right one looks at it, and the language does
not say which comes first. -/
inductive SumOrder where
  | leftFirst
  | rightFirst
deriving DecidableEq, Repr

/-- The cursor that moves inside is a copy, so it is put back at the end. -/
def scan48 (order : SumOrder) : Reader UInt64 := do
  requireDistance 6
  let ptr ← get
  let val ← match order with
    | .leftFirst => do
        let high ← read16
        let low ← scan32
        pure ((high.toUInt64 <<< 32) + low.toUInt64)
    | .rightFirst => do
        let low ← scan32
        let high ← read16
        pure ((high.toUInt64 <<< 32) + low.toUInt64)
  set ptr
  return val

def read48 (order : SumOrder) : Reader UInt64 := do
  let val ← scan48 order
  advance 6
  return val

/-! ## Running the readers -/

section Run

variable (b b0 b1 b2 b3 b4 : UInt8) (t : Bytes)

@[simp] theorem available_run (s : Bytes) : available.run s = .ok (s.length, s) := rfl

@[simp] theorem advance_run (n : Nat) (s : Bytes) :
    (advance n).run s = .ok ((), s.drop n) := rfl

theorem requireDistance_run {n : Nat} {s : Bytes} (h : n ≤ s.length) :
    (requireDistance n).run s = .ok ((), s) := by
  show (if s.length < n then _ else _) = _
  rw [if_neg (by omega)]

theorem deref_run {i : Nat} {s : Bytes} {v : UInt8} (h : s[i]? = some v) :
    (deref i).run s = .ok (v, s) := by
  show (match s[i]? with | some b => _ | none => _) = _
  rw [h]

@[simp] theorem scan8_run (mask : UInt8) :
    (scan8 mask).run (b :: t) = .ok (b &&& mask, b :: t) := by
  rw [scan8, run_bind_of_ok (requireDistance_run (by simp)),
    run_bind_of_ok (deref_run rfl)]
  rfl

@[simp] theorem read8_run (mask : UInt8) :
    (read8 mask).run (b :: t) = .ok (b &&& mask, t) := by
  rw [read8, run_bind_of_ok (scan8_run b t mask)]
  rfl

@[simp] theorem scanFlag_run (mask : UInt8) :
    (scanFlag mask).run (b :: t) = .ok (b &&& mask != 0, b :: t) := by
  rw [scanFlag, run_bind_of_ok (scan8_run b t mask)]
  rfl

@[simp] theorem scan12High_run :
    scan12High.run (b0 :: b1 :: t) =
      .ok ((b0.toUInt16 <<< 4) + ((b1 &&& 0xf0) >>> 4).toUInt16, b0 :: b1 :: t) := by
  rw [scan12High, run_bind_of_ok (requireDistance_run (by simp)),
    run_bind_of_ok (deref_run rfl), run_bind_of_ok (deref_run rfl)]
  rfl

@[simp] theorem read12Low_run :
    read12Low.run (b0 :: b1 :: t) =
      .ok (((b0.toUInt16 &&& 0x0f) <<< 8) + b1.toUInt16, t) := by
  rw [read12Low, scan12Low, bind_assoc, run_bind_of_ok (requireDistance_run (by simp)),
    bind_assoc, run_bind_of_ok (deref_run rfl), bind_assoc, run_bind_of_ok (deref_run rfl)]
  rfl

@[simp] theorem scan16_run :
    scan16.run (b0 :: b1 :: t) = .ok ((b0.toUInt16 <<< 8) + b1.toUInt16, b0 :: b1 :: t) := by
  rw [scan16, run_bind_of_ok (requireDistance_run (by simp)),
    run_bind_of_ok (deref_run rfl), run_bind_of_ok (deref_run rfl)]
  rfl

@[simp] theorem read16_run :
    read16.run (b0 :: b1 :: t) = .ok ((b0.toUInt16 <<< 8) + b1.toUInt16, t) := by
  rw [read16, run_bind_of_ok (scan16_run b0 b1 t)]
  rfl

@[simp] theorem scan32_run :
    scan32.run (b0 :: b1 :: b2 :: b3 :: t) =
      .ok ((b0.toUInt32 <<< 24) + (b1.toUInt32 <<< 16) + (b2.toUInt32 <<< 8) + b3.toUInt32,
        b0 :: b1 :: b2 :: b3 :: t) := by
  rw [scan32, run_bind_of_ok (requireDistance_run (by simp)),
    run_bind_of_ok (deref_run rfl), run_bind_of_ok (deref_run rfl),
    run_bind_of_ok (deref_run rfl), run_bind_of_ok (deref_run rfl)]
  rfl

@[simp] theorem read32_run :
    read32.run (b0 :: b1 :: b2 :: b3 :: t) =
      .ok ((b0.toUInt32 <<< 24) + (b1.toUInt32 <<< 16) + (b2.toUInt32 <<< 8) + b3.toUInt32,
        t) := by
  rw [read32, run_bind_of_ok (scan32_run b0 b1 b2 b3 t)]
  rfl

@[simp] theorem scan33_run :
    scan33.run (b0 :: b1 :: b2 :: b3 :: b4 :: t) =
      .ok (((b0 &&& 1).toUInt64 <<< 32) + (b1.toUInt64 <<< 24) + (b2.toUInt64 <<< 16) +
        (b3.toUInt64 <<< 8) + b4.toUInt64, b0 :: b1 :: b2 :: b3 :: b4 :: t) := by
  rw [scan33, run_bind_of_ok (requireDistance_run (by simp)),
    run_bind_of_ok (deref_run rfl), run_bind_of_ok (deref_run rfl),
    run_bind_of_ok (deref_run rfl), run_bind_of_ok (deref_run rfl),
    run_bind_of_ok (deref_run rfl)]
  rfl

@[simp] theorem read33_run :
    read33.run (b0 :: b1 :: b2 :: b3 :: b4 :: t) =
      .ok (((b0 &&& 1).toUInt64 <<< 32) + (b1.toUInt64 <<< 24) + (b2.toUInt64 <<< 16) +
        (b3.toUInt64 <<< 8) + b4.toUInt64, t) := by
  rw [read33, run_bind_of_ok (scan33_run b0 b1 b2 b3 b4 t)]
  rfl

end Run

/-! ## Words as numbers -/

theorem toNat_be16 (b0 b1 : UInt8) :
    ((b0.toUInt16 <<< 8) + b1.toUInt16).toNat = beNat [b0, b1] := by
  have h0 := b0.toNat_lt
  have h1 := b1.toNat_lt
  simp [Nat.shiftLeft_eq, beNat]
  omega

theorem toNat_be32 (b0 b1 b2 b3 : UInt8) :
    ((b0.toUInt32 <<< 24) + (b1.toUInt32 <<< 16) + (b2.toUInt32 <<< 8) +
      b3.toUInt32).toNat = beNat [b0, b1, b2, b3] := by
  have h0 := b0.toNat_lt
  have h1 := b1.toNat_lt
  have h2 := b2.toNat_lt
  have h3 := b3.toNat_lt
  simp [Nat.shiftLeft_eq, beNat]
  omega

theorem read16_run_beBytes (n : Nat) (t : Bytes) :
    read16.run (beBytes 2 n ++ t) = .ok (UInt16.ofNat n, t) := by
  show read16.run (UInt8.ofNat (n / 256 ^ 1) :: UInt8.ofNat (n / 256 ^ 0) :: t) = _
  rw [read16_run]
  congr 2
  apply UInt16.toNat_inj.mp
  rw [toNat_be16, UInt16.toNat_ofNat']
  exact beNat_beBytes 2 n

theorem read32_run_beBytes (n : Nat) (t : Bytes) :
    read32.run (beBytes 4 n ++ t) = .ok (UInt32.ofNat n, t) := by
  show read32.run (UInt8.ofNat (n / 256 ^ 3) :: UInt8.ofNat (n / 256 ^ 2) ::
    UInt8.ofNat (n / 256 ^ 1) :: UInt8.ofNat (n / 256 ^ 0) :: t) = _
  rw [read32_run]
  congr 2
  apply UInt32.toNat_inj.mp
  rw [toNat_be32, UInt32.toNat_ofNat']
  exact beNat_beBytes 4 n

theorem scan32_run_beBytes (n : Nat) (t : Bytes) :
    scan32.run (beBytes 4 n ++ t) = .ok (UInt32.ofNat n, beBytes 4 n ++ t) := by
  show scan32.run (UInt8.ofNat (n / 256 ^ 3) :: UInt8.ofNat (n / 256 ^ 2) ::
    UInt8.ofNat (n / 256 ^ 1) :: UInt8.ofNat (n / 256 ^ 0) :: t) = _
  rw [scan32_run]
  congr 2
  apply UInt32.toNat_inj.mp
  rw [toNat_be32, UInt32.toNat_ofNat']
  exact beNat_beBytes 4 n

/-! ## Round trips of the fixed-width fields -/

theorem read16_reads (v : UInt16) : Reads read16 (write16 v) v := by
  intro t
  rw [write16_eq, read16_run_beBytes, UInt16.ofNat_toNat]

theorem read32_reads (v : UInt32) : Reads read32 (write32 v) v := by
  intro t
  rw [write32_eq, read32_run_beBytes, UInt32.ofNat_toNat]

theorem read16_eq_ok {s t : Bytes} {v : UInt16} :
    read16.run s = .ok (v, t) ↔ s = write16 v ++ t := by
  constructor
  · intro h
    match s with
    | [] => cases h
    | [_] => cases h
    | b0 :: b1 :: s =>
        rw [read16_run] at h
        obtain ⟨rfl, rfl⟩ := Prod.mk.inj (Except.ok.inj h)
        rw [write16_eq, toNat_be16]
        exact congrArg (· ++ s) (beBytes_beNat [b0, b1]).symm
  · rintro rfl
    exact read16_reads v t

theorem read32_eq_ok {s t : Bytes} {v : UInt32} :
    read32.run s = .ok (v, t) ↔ s = write32 v ++ t := by
  constructor
  · intro h
    match s with
    | [] => cases h
    | [_] => cases h
    | [_, _] => cases h
    | [_, _, _] => cases h
    | b0 :: b1 :: b2 :: b3 :: s =>
        rw [read32_run] at h
        obtain ⟨rfl, rfl⟩ := Prod.mk.inj (Except.ok.inj h)
        rw [write32_eq, toNat_be32]
        exact congrArg (· ++ s) (beBytes_beNat [b0, b1, b2, b3]).symm
  · rintro rfl
    exact read32_reads v t

theorem exists_read32 {s : Bytes} (h : 4 ≤ s.length) : ∃ v t, read32.run s = .ok (v, t) := by
  match s, h with
  | b0 :: b1 :: b2 :: b3 :: t, _ => exact ⟨_, t, read32_run b0 b1 b2 b3 t⟩

theorem read32_takes {s t : Bytes} {v : UInt32} (h : read32.run s = .ok (v, t)) :
    s.length = t.length + 4 := by
  rw [read32_eq_ok.mp h, List.length_append, write32_length]
  omega

/-- The byte that carries the top bit of a 33-bit field keeps the seven bits of the
prefix above it. -/
theorem write33Prefix_eq (p : UInt8) (v : UInt64) :
    write33Prefix p v =
      ((p &&& 0xfe) ||| UInt8.ofNat (v.toNat / 2 ^ 32 % 2)) ::
        beBytes 4 (v.toNat % 2 ^ 32) := by
  have hbit : ((v &&& 0x100000000) >>> 32).toNat = v.toNat / 2 ^ 32 % 2 := by
    have h := Nat.and_two_pow_sub_one_eq_mod (v.toNat / 2 ^ 32) 1
    simp only [UInt64.toNat_shiftRight, UInt64.toNat_and, UInt64.reduceToNat,
      Nat.shiftRight_and_distrib, Nat.reduceMod, Nat.reduceShiftRight]
    rw [Nat.shiftRight_eq_div_pow]
    exact h
  have hlow : (v &&& 0xffffffff).toUInt32.toNat = v.toNat % 2 ^ 32 := by
    have h := Nat.and_two_pow_sub_one_eq_mod v.toNat 32
    simp only [UInt64.toNat_toUInt32, UInt64.toNat_and, UInt64.reduceToNat]
    rw [show 4294967295 = 2 ^ 32 - 1 from rfl, h, Nat.mod_mod]
  rw [write33Prefix, write32_eq, hlow, write8, List.singleton_append]
  congr 1
  apply UInt8.toNat_inj.mp
  rw [UInt64.toNat_toUInt8, UInt64.toNat_or, hbit]
  rcases (by omega : v.toNat / 2 ^ 32 % 2 = 0 ∨ v.toNat / 2 ^ 32 % 2 = 1) with hv | hv <;>
    rw [hv] <;> revert p <;> decide

theorem prefixByte_and_one (p : UInt8) {n : Nat} (h : n < 2) :
    ((p &&& 0xfe) ||| UInt8.ofNat n) &&& 1 = UInt8.ofNat n := by
  rcases (by omega : n = 0 ∨ n = 1) with rfl | rfl <;> revert p <;> decide

theorem toNat_be33 {b0 b1 b2 b3 b4 : UInt8} (h : b0.toNat < 2) :
    ((b0.toUInt64 <<< 32) + (b1.toUInt64 <<< 24) + (b2.toUInt64 <<< 16) +
      (b3.toUInt64 <<< 8) + b4.toUInt64).toNat = b0.toNat * 2 ^ 32 + beNat [b1, b2, b3, b4] := by
  have h1 := b1.toNat_lt
  have h2 := b2.toNat_lt
  have h3 := b3.toNat_lt
  have h4 := b4.toNat_lt
  simp [Nat.shiftLeft_eq, beNat]
  omega

theorem scan33_run_write33Prefix {p : UInt8} {v : UInt64} (h : v.toNat < 2 ^ 33) (t : Bytes) :
    scan33.run (write33Prefix p v ++ t) = .ok (v, write33Prefix p v ++ t) := by
  have hbit : v.toNat / 2 ^ 32 % 2 < 2 := by omega
  rw [write33Prefix_eq, List.cons_append]
  show scan33.run (_ :: UInt8.ofNat (v.toNat % 2 ^ 32 / 256 ^ 3) ::
    UInt8.ofNat (v.toNat % 2 ^ 32 / 256 ^ 2) :: UInt8.ofNat (v.toNat % 2 ^ 32 / 256 ^ 1) ::
    UInt8.ofNat (v.toNat % 2 ^ 32 / 256 ^ 0) :: t) = _
  rw [scan33_run, prefixByte_and_one p hbit]
  have hb : (UInt8.ofNat (v.toNat / 2 ^ 32 % 2)).toNat = v.toNat / 2 ^ 32 % 2 := by
    rw [UInt8.toNat_ofNat', Nat.mod_eq_of_lt (by omega)]
  congr 2
  apply UInt64.toNat_inj.mp
  have hlow := beNat_beBytes 4 (v.toNat % 2 ^ 32)
  simp only [beBytes] at hlow
  rw [toNat_be33 (by omega), hb, hlow]
  omega

theorem read33_reads {p : UInt8} {v : UInt64} (h : v.toNat < 2 ^ 33) :
    Reads read33 (write33Prefix p v) v := by
  intro t
  rw [read33, run_bind_of_ok (scan33_run_write33Prefix h t)]
  rfl

/-- The flags above a 33-bit field can be looked at without its low bit showing. -/
theorem scan8_run_write33Prefix (p mask : UInt8) (v : UInt64) (t : Bytes)
    (hm : mask &&& 1 = 0) :
    (scan8 mask).run (write33Prefix p v ++ t) = .ok (p &&& mask, write33Prefix p v ++ t) := by
  have hbit : v.toNat / 2 ^ 32 % 2 < 2 := by omega
  have hlow : ∀ m : UInt8, m &&& 1 = 0 → 1 &&& m = 0 ∧ 0xfe &&& m = m := by decide
  rw [write33Prefix_eq, List.cons_append, scan8_run]
  congr 2
  generalize v.toNat / 2 ^ 32 % 2 = n at hbit
  have hsplit : ∀ a b : UInt8, (a ||| b) &&& mask = (a &&& mask) ||| (b &&& mask) :=
    fun a b => UInt8.toBitVec_inj.mp (BitVec.and_or_distrib_right ..)
  rw [hsplit, UInt8.and_assoc, (hlow mask hm).2]
  rcases (by omega : n = 0 ∨ n = 1) with rfl | rfl
  · simp
  · simp [(hlow mask hm).1]

theorem and_full : ∀ b : UInt8, b &&& 0xff = b := by decide

theorem read8_reads (v : UInt8) : Reads (read8 0xff) (write8 v) v := by
  intro t
  rw [write8, List.singleton_append, read8_run, and_full]

/-! ## Words that are read in pairs and triples -/

theorem beBytes_pair {a b : Nat} (hb : b < 2 ^ 16) :
    beBytes 2 a ++ beBytes 2 b = beBytes 4 (a * 2 ^ 16 + b) := by
  have hhigh : (a * 2 ^ 16 + b) / 256 ^ 2 = a := by omega
  have hlow : beBytes 2 (a * 2 ^ 16 + b) = beBytes 2 b := by
    rw [← beBytes_mod 2 2 _ (Nat.le_refl _), show (a * 2 ^ 16 + b) % 256 ^ 2 = b by omega]
  rw [beBytes_add 2 2, hhigh, hlow]

theorem scan32_run_words {a b : Nat} (hb : b < 2 ^ 16) (t : Bytes) :
    scan32.run (beBytes 2 a ++ (beBytes 2 b ++ t)) =
      .ok (UInt32.ofNat (a * 2 ^ 16 + b), beBytes 2 a ++ (beBytes 2 b ++ t)) := by
  rw [← List.append_assoc, beBytes_pair hb, scan32_run_beBytes]

theorem read32_run_words {a b : Nat} (hb : b < 2 ^ 16) (t : Bytes) :
    read32.run (beBytes 2 a ++ (beBytes 2 b ++ t)) = .ok (UInt32.ofNat (a * 2 ^ 16 + b), t) := by
  rw [← List.append_assoc, beBytes_pair hb, read32_run_beBytes]

/-- Where the low half of a 48-bit field is looked for, in words behind the high one. -/
def SumOrder.lowOffset : SumOrder → Nat
  | .leftFirst => 1
  | .rightFirst => 0

theorem toNat_high_low {a b c : Nat} (ha : a < 2 ^ 16) (hb : b < 2 ^ 16) (hc : c < 2 ^ 16) :
    ((UInt16.ofNat a).toUInt64 <<< 32) + (UInt32.ofNat (b * 2 ^ 16 + c)).toUInt64 =
      UInt64.ofNat (a * 2 ^ 32 + b * 2 ^ 16 + c) := by
  apply UInt64.toNat_inj.mp
  simp only [UInt64.toNat_add, UInt64.toNat_shiftLeft, UInt16.toNat_toUInt64,
    UInt32.toNat_toUInt64, UInt16.toNat_ofNat', UInt32.toNat_ofNat', UInt64.toNat_ofNat',
    UInt64.reduceToNat, Nat.reduceMod, Nat.shiftLeft_eq]
  omega

theorem read48_run_leftFirst {a b c : Nat} (ha : a < 2 ^ 16) (hb : b < 2 ^ 16) (hc : c < 2 ^ 16)
    (t : Bytes) :
    (read48 .leftFirst).run (beBytes 2 a ++ (beBytes 2 b ++ (beBytes 2 c ++ t))) =
      .ok (UInt64.ofNat (a * 2 ^ 32 + b * 2 ^ 16 + c), t) := by
  have hlen : 6 ≤ (beBytes 2 a ++ (beBytes 2 b ++ (beBytes 2 c ++ t))).length := by
    simp only [List.length_append, beBytes_length]
    omega
  rw [read48, scan48, bind_assoc, run_bind_of_ok (requireDistance_run hlen)]
  simp only [StateT.run_bind, StateT.run_get, read16_run_beBytes, scan32_run_words hc, ok_bind,
    pure_bind, bind_assoc, StateT.run_set, StateT.run_pure, advance_run, toNat_high_low ha hb hc]
  rw [← List.append_assoc, ← List.append_assoc, List.drop_left' (by simp)]
  rfl

theorem read48_run_rightFirst {a b c : Nat} (ha : a < 2 ^ 16) (hb : b < 2 ^ 16)
    (t : Bytes) :
    (read48 .rightFirst).run (beBytes 2 a ++ (beBytes 2 b ++ (beBytes 2 c ++ t))) =
      .ok (UInt64.ofNat (a * 2 ^ 32 + a * 2 ^ 16 + b), t) := by
  have hlen : 6 ≤ (beBytes 2 a ++ (beBytes 2 b ++ (beBytes 2 c ++ t))).length := by
    simp only [List.length_append, beBytes_length]
    omega
  rw [read48, scan48, bind_assoc, run_bind_of_ok (requireDistance_run hlen)]
  simp only [StateT.run_bind, StateT.run_get, read16_run_beBytes, scan32_run_words hb, ok_bind,
    pure_bind, bind_assoc, StateT.run_set, StateT.run_pure, advance_run, toNat_high_low ha ha hb]
  rw [← List.append_assoc, ← List.append_assoc, List.drop_left' (by simp)]
  rfl

/-! ## How the readers fail

A field that does not fit is a parse error, and nothing behind the end is looked at. -/

section Failures

variable {α : Type} {E : Fault → Prop} (hparse : ∀ what, E (parseError what))
include hparse

theorem failsFrom_requireDistance {n : Nat} {f : Unit → Reader α} {s : Bytes}
    (h : n ≤ s.length → FailsFrom E (f ()) s) : FailsFrom E (requireDistance n >>= f) s := by
  rcases Nat.lt_or_ge s.length n with hlt | hge
  · have herr : (requireDistance n).run s = .error (parseError _) := if_pos hlt
    exact (failsFrom_error_iff (run_bind_of_error herr)).mpr (hparse _)
  · exact (failsFrom_bind_of_ok (requireDistance_run hge)).mpr (h hge)

omit hparse in
theorem failsFrom_deref {i : Nat} {f : UInt8 → Reader α} {s : Bytes} (hi : i < s.length)
    (h : ∀ b, FailsFrom E (f b) s) : FailsFrom E (deref i >>= f) s :=
  (failsFrom_bind_of_ok (deref_run (List.getElem?_eq_getElem hi))).mpr (h _)

omit hparse in
theorem failsWith_advance (n : Nat) : FailsWith E (advance n) := fun _ => failsFrom_of_ok rfl

omit hparse in
theorem failsWith_available : FailsWith E available := fun _ => failsFrom_of_ok rfl

theorem failsWith_scan8 (mask : UInt8) : FailsWith E (scan8 mask) := by
  intro s
  refine failsFrom_requireDistance hparse fun hlen => ?_
  exact failsFrom_deref (by omega) fun b => FailsWith.pure _ s

theorem failsWith_read8 (mask : UInt8) : FailsWith E (read8 mask) :=
  (failsWith_scan8 hparse mask).bind fun _ => (failsWith_advance 1).bind fun _ => .pure _

theorem failsWith_scanFlag (mask : UInt8) : FailsWith E (scanFlag mask) :=
  (failsWith_scan8 hparse mask).bind fun _ => .pure _

theorem failsWith_read16 : FailsWith E read16 := by
  have hscan : FailsWith E scan16 := by
    intro s
    refine failsFrom_requireDistance hparse fun hlen => ?_
    refine failsFrom_deref (by omega) fun b0 => ?_
    exact failsFrom_deref (by omega) fun b1 => FailsWith.pure _ s
  exact hscan.bind fun _ => (failsWith_advance 2).bind fun _ => .pure _

theorem failsWith_scan32 : FailsWith E scan32 := by
  intro s
  refine failsFrom_requireDistance hparse fun hlen => ?_
  refine failsFrom_deref (by omega) fun b0 => ?_
  refine failsFrom_deref (by omega) fun b1 => ?_
  refine failsFrom_deref (by omega) fun b2 => ?_
  exact failsFrom_deref (by omega) fun b3 => FailsWith.pure _ s

theorem failsWith_read32 : FailsWith E read32 :=
  (failsWith_scan32 hparse).bind fun _ => (failsWith_advance 4).bind fun _ => .pure _

theorem failsWith_read33 : FailsWith E read33 := by
  have hscan : FailsWith E scan33 := by
    intro s
    refine failsFrom_requireDistance hparse fun hlen => ?_
    refine failsFrom_deref (by omega) fun b0 => ?_
    refine failsFrom_deref (by omega) fun b1 => ?_
    refine failsFrom_deref (by omega) fun b2 => ?_
    refine failsFrom_deref (by omega) fun b3 => ?_
    exact failsFrom_deref (by omega) fun b4 => FailsWith.pure _ s
  exact hscan.bind fun _ => (failsWith_advance 5).bind fun _ => .pure _

theorem failsWith_read48 (order : SumOrder) : FailsWith E (read48 order) := by
  have hget : FailsWith E (get : Reader Bytes) := fun _ => failsFrom_of_ok rfl
  have hset : ∀ ptr : Bytes, FailsWith E (set ptr : Reader PUnit) := by
    intro ptr s
    exact failsFrom_of_ok (show StateT.run (set ptr : Reader PUnit) s = .ok (⟨⟩, ptr) from rfl)
  have hscan : FailsWith E (scan48 order) := by
    intro s
    refine failsFrom_requireDistance hparse fun _ => ?_
    refine hget.bind (fun ptr => ?_) s
    cases order with
    | leftFirst =>
        exact (failsWith_read16 hparse).bind fun _ => (failsWith_scan32 hparse).bind fun _ =>
          (FailsWith.pure _).bind fun _ => (hset ptr).bind fun _ => .pure _
    | rightFirst =>
        exact (failsWith_scan32 hparse).bind fun _ => (failsWith_read16 hparse).bind fun _ =>
          (FailsWith.pure _).bind fun _ => (hset ptr).bind fun _ => .pure _
  exact hscan.bind fun _ => (failsWith_advance 6).bind fun _ => .pure _

end Failures

/-! ## The cursor moves forward -/

theorem leavesSuffix_available : LeavesSuffix available := by
  intro s a t h
  cases h
  exact List.suffix_rfl

theorem leavesSuffix_advance (n : Nat) : LeavesSuffix (advance n) := by
  intro s a t h
  cases h
  exact List.drop_suffix n s

theorem leavesSuffix_deref (i : Nat) : LeavesSuffix (deref i) := by
  intro s b t h
  cases hget : s[i]? with
  | none =>
      have herr : (deref i).run s = .error .outOfBounds := by
        show (match s[i]? with | some b => _ | none => _) = _
        rw [hget]
      rw [herr] at h
      cases h
  | some v =>
      rw [deref_run hget] at h
      cases h
      exact List.suffix_rfl

theorem leavesSuffix_requireDistance (n : Nat) : LeavesSuffix (requireDistance n) := by
  intro s a t h
  rcases Nat.lt_or_ge s.length n with hlt | hge
  · have herr : (requireDistance n).run s = .error _ := if_pos hlt
    rw [herr] at h
    cases h
  · rw [requireDistance_run hge] at h
    cases h
    exact List.suffix_rfl

theorem leavesSuffix_scan8 (mask : UInt8) : LeavesSuffix (scan8 mask) :=
  (leavesSuffix_requireDistance 1).bind fun _ => (leavesSuffix_deref 0).bind fun _ => .pure _

theorem leavesSuffix_read8 (mask : UInt8) : LeavesSuffix (read8 mask) :=
  (leavesSuffix_scan8 mask).bind fun _ => (leavesSuffix_advance 1).bind fun _ => .pure _

theorem leavesSuffix_read16 : LeavesSuffix read16 :=
  ((leavesSuffix_requireDistance 2).bind fun _ => (leavesSuffix_deref 0).bind fun _ =>
    (leavesSuffix_deref 1).bind fun _ => .pure _).bind fun _ =>
      (leavesSuffix_advance 2).bind fun _ => .pure _

theorem leavesSuffix_read32 : LeavesSuffix read32 :=
  ((leavesSuffix_requireDistance 4).bind fun _ => (leavesSuffix_deref 0).bind fun _ =>
    (leavesSuffix_deref 1).bind fun _ => (leavesSuffix_deref 2).bind fun _ =>
      (leavesSuffix_deref 3).bind fun _ => .pure _).bind fun _ =>
        (leavesSuffix_advance 4).bind fun _ => .pure _

theorem leavesSuffix_read48 (order : SumOrder) : LeavesSuffix (read48 order) := by
  have hscan : LeavesSuffix (scan48 order) := by
    intro s a t h
    obtain ⟨_, s', hdist, h⟩ := run_bind_eq_ok h
    obtain ⟨ptr, s'', hget, h⟩ := run_bind_eq_ok h
    cases hget
    have hback : t = s' := by
      cases order <;>
        · obtain ⟨_, _, _, h⟩ := run_bind_eq_ok h
          obtain ⟨_, _, _, h⟩ := run_bind_eq_ok h
          cases h
          rfl
    rw [hback]
    exact leavesSuffix_requireDistance 6 s _ s' hdist
  exact hscan.bind fun _ => (leavesSuffix_advance 6).bind fun _ => .pure _

/-! ## What the readers return -/

section Results

variable {α : Type} {P : α → Prop}

/-- The reader leaves the cursor in front of at least `k` bytes, and what it returns is as `P`
says. -/
def Looks (scan : Reader α) (k : Nat) (P : α → Prop) : Prop :=
  ∀ s a t, scan.run s = .ok (a, t) → t = s ∧ k ≤ s.length ∧ P a

theorem Looks.returns {scan : Reader α} {k : Nat} (h : Looks scan k P) :
    Returns scan fun a n => n = 0 ∧ P a := by
  intro s a t hrun
  obtain ⟨rfl, -, ha⟩ := h s a t hrun
  exact ⟨0, (Nat.zero_add _).symm, rfl, ha⟩

/-- A look and a move over the bytes that were looked at. -/
theorem Looks.moves {scan : Reader α} {k : Nat} (h : Looks scan k P) :
    Returns (scan >>= fun val => advance k >>= fun _ => pure val) fun a n => n = k ∧ P a := by
  intro s a t hrun
  obtain ⟨val, s', hscan, hrest⟩ := run_bind_eq_ok hrun
  obtain ⟨rfl, hlen, hval⟩ := h s val s' hscan
  rw [run_bind_of_ok (advance_run k s')] at hrest
  cases hrest
  exact ⟨k, by rw [List.length_drop]; omega, rfl, hval⟩

theorem looks_scan8 (mask : UInt8) : Looks (scan8 mask) 1 fun v => ∃ b, v = b &&& mask := by
  intro s a t h
  rcases s with _ | ⟨b, s⟩
  · cases h
  · rw [scan8_run] at h
    cases h
    exact ⟨rfl, Nat.le_add_left _ _, b, rfl⟩

theorem looks_scan12High : Looks scan12High 2 fun _ => True := by
  intro s a t h
  rcases s with _ | ⟨b0, _ | ⟨b1, s⟩⟩
  · cases h
  · cases h
  · rw [scan12High_run] at h
    cases h
    exact ⟨rfl, Nat.le_add_left _ _, trivial⟩

theorem looks_scan16 : Looks scan16 2 fun _ => True := by
  intro s a t h
  rcases s with _ | ⟨b0, _ | ⟨b1, s⟩⟩
  · cases h
  · cases h
  · rw [scan16_run] at h
    cases h
    exact ⟨rfl, Nat.le_add_left _ _, trivial⟩

theorem looks_scan32 : Looks scan32 4 fun _ => True := by
  intro s a t h
  rcases s with _ | ⟨b0, _ | ⟨b1, _ | ⟨b2, _ | ⟨b3, s⟩⟩⟩⟩
  · cases h
  · cases h
  · cases h
  · cases h
  · rw [scan32_run] at h
    cases h
    exact ⟨rfl, Nat.le_add_left _ _, trivial⟩

theorem looks_scan33 : Looks scan33 5 fun v => v.toNat < 2 ^ 33 := by
  intro s a t h
  rcases s with _ | ⟨b0, _ | ⟨b1, _ | ⟨b2, _ | ⟨b3, _ | ⟨b4, s⟩⟩⟩⟩⟩
  · cases h
  · cases h
  · cases h
  · cases h
  · cases h
  · have hbit : ∀ b : UInt8, (b &&& 1).toNat < 2 := by decide
    have hlow : beNat [b1, b2, b3, b4] < 256 ^ 4 := beNat_lt [b1, b2, b3, b4]
    have hhigh := hbit b0
    rw [scan33_run] at h
    cases h
    refine ⟨rfl, Nat.le_add_left _ _, ?_⟩
    show UInt64.toNat _ < 2 ^ 33
    rw [toNat_be33 hhigh]
    omega

theorem looks_scan48 (order : SumOrder) : Looks (scan48 order) 6 fun v => v.toNat < 2 ^ 48 := by
  intro s a t h
  have hsum (high : UInt16) (low : UInt32) :
      ((high.toUInt64 <<< 32) + low.toUInt64).toNat < 2 ^ 48 := by
    have hhigh := high.toNat_lt
    have hlow := low.toNat_lt
    simp only [UInt64.toNat_add, UInt64.toNat_shiftLeft, UInt16.toNat_toUInt64,
      UInt32.toNat_toUInt64, UInt64.reduceToNat, Nat.reduceMod, Nat.shiftLeft_eq]
    omega
  unfold scan48 at h
  rcases Nat.lt_or_ge s.length 6 with hlt | hge
  · have herr : (requireDistance 6).run s = .error _ := if_pos hlt
    rw [run_bind_of_error herr] at h
    cases h
  · rw [run_bind_of_ok (requireDistance_run hge)] at h
    cases order <;>
      · obtain ⟨_, _, hget, h⟩ := run_bind_eq_ok h
        cases hget
        obtain ⟨_, _, _, h⟩ := run_bind_eq_ok h
        obtain ⟨_, _, _, h⟩ := run_bind_eq_ok h
        cases h
        exact ⟨rfl, hge, hsum _ _⟩

theorem returns_available : Returns available fun _ n => n = 0 := by
  intro s a t h
  cases h
  exact ⟨0, (Nat.zero_add _).symm, rfl⟩

theorem returns_read8 (mask : UInt8) : Returns (read8 mask) fun _ n => n = 1 :=
  (looks_scan8 mask).moves.mono fun _ _ h => h.1

theorem returns_scanFlag (mask : UInt8) : Returns (scanFlag mask) fun _ n => n = 0 :=
  (looks_scan8 mask).returns.bind fun _ _ h => .pure (by rw [h.1])

theorem returns_read12Low : Returns read12Low fun _ n => n = 2 := by
  intro s a t h
  rcases s with _ | ⟨b0, _ | ⟨b1, s⟩⟩
  · cases h
  · cases h
  · rw [read12Low_run] at h
    cases h
    exact ⟨2, Nat.add_comm t.length 2, rfl⟩

theorem returns_read16 : Returns read16 fun _ n => n = 2 :=
  looks_scan16.moves.mono fun _ _ h => h.1

theorem returns_read32 : Returns read32 fun _ n => n = 4 :=
  looks_scan32.moves.mono fun _ _ h => h.1

theorem returns_read33 : Returns read33 fun v n => n = 5 ∧ v.toNat < 2 ^ 33 := looks_scan33.moves

theorem returns_read48 (order : SumOrder) :
    Returns (read48 order) fun v n => n = 6 ∧ v.toNat < 2 ^ 48 := (looks_scan48 order).moves

end Results

end Binary
end Metamix
