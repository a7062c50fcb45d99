/-
Emulation prevention: raw payload bytes and their escaped form.

An encoder writes `03` inside `00 00 xx` so that no start code shows up in a NALU,
and a decoder drops it again.  Both loops of the source look back at the two
source bytes before the current one; `throughEbsp` is what the decoder makes of the
encoder's output, with one flag for the byte by which the two windows can differ.
-/
import Metamix.Lib.BigEndian
import Metamix.Binary.Parser
import Mathlib.Data.List.Infix

namespace Metamix
namespace H264

open Binary

/-! ## The source's loops -/

/-- The loop of `copy_from_ebsp_impl`; `a` and `b` are `first[-2]` and `first[-1]`. -/
def fromEbspLoop (a b : UInt8) : Bytes → Bytes
  | [] => []
  | x :: xs =>
      if a = 0 ∧ b = 0 ∧ x = 3 then fromEbspLoop b x xs
      else x :: fromEbspLoop b x xs

/-- `while (last[-1] == 0) last--;` on the reversed bytes.  A buffer of zeros only is
read past its front. -/
def skipTrailingZeros : Bytes → Except Fault Bytes
  | [] => .error .outOfBounds
  | x :: xs => if x = 0 then skipTrailingZeros xs else .ok (x :: xs)

def dropStopBit (src : Bytes) : Except Fault Bytes :=
  match skipTrailingZeros src.reverse with
  | .error f => .error f
  | .ok [] => .error .outOfBounds
  | .ok (last :: rest) =>
      if last ≠ 0x80 then
        .error (.runtimeError "malformed RBSP payload, missing stop bit")
      else .ok rest.reverse

/-- What is copied once the stop bit is out of the way. -/
def unescape : Bytes → Bytes
  | [] => []
  | [x] => [x]
  | x :: y :: xs => x :: y :: fromEbspLoop x y xs

def copyFromEbspImpl (drop : Bool) (src : Bytes) : Except Fault Bytes :=
  if src.isEmpty then .ok []
  else if drop then
    match dropStopBit src with
    | .error f => .error f
    | .ok src => .ok (unescape src)
  else .ok (unescape src)

def toEbspLoop (a b : UInt8) : Bytes → Bytes
  | [] => []
  | x :: xs =>
      if a = 0 ∧ b = 0 ∧ x ≤ 3 then 3 :: x :: toEbspLoop b x xs
      else x :: toEbspLoop b x xs

def escape : Bytes → Bytes
  | [] => []
  | [x] => [x]
  | x :: y :: xs => x :: y :: toEbspLoop x y xs

/-- An empty source writes nothing at all, not even the stop bit. -/
def copyToEbspImpl (addStopBit : Bool) (src : Bytes) : Bytes :=
  if src.isEmpty then []
  else escape src ++ if addStopBit then [0x80] else []

/-- The loop of `count_emulation_prevention_bytes`.  It counts `00 00 03` only. -/
def countEmulationLoop (a b : UInt8) : Bytes → Nat
  | [] => 0
  | x :: xs => (if a = 0 ∧ b = 0 ∧ x = 3 then 1 else 0) + countEmulationLoop b x xs

def countEmulationPreventionBytes : Bytes → Nat
  | [] => 0
  | [_] => 0
  | x :: y :: xs => countEmulationLoop x y xs

def copyEbspToRbsp : Bytes → Except Fault Bytes := copyFromEbspImpl false

def copyEbspToSodb : Bytes → Except Fault Bytes := copyFromEbspImpl true

def copyRbspToEbsp : Bytes → Bytes := copyToEbspImpl false

def copySodbToEbsp : Bytes → Bytes := copyToEbspImpl true

/-! ## The stop bit -/

/-- `body`, the stop bit and zeros. -/
def StopBit (nalu body : Bytes) : Prop := ∃ k, nalu = body ++ 0x80 :: List.replicate k 0

theorem skipTrailingZeros_eq_ok {l r : Bytes} :
    skipTrailingZeros l = .ok r ↔
      ∃ k x xs, l = List.replicate k 0 ++ x :: xs ∧ x ≠ 0 ∧ r = x :: xs := by
  induction l with
  | nil => simp [skipTrailingZeros]
  | cons a l ih =>
      rw [skipTrailingZeros]
      by_cases ha : a = 0
      · rw [if_pos ha, ih, ha]
        constructor
        · intro h
          obtain ⟨k, x, xs, rfl, hx, hr⟩ := h
          exact ⟨k + 1, x, xs, rfl, hx, hr⟩
        · intro h
          obtain ⟨k, x, xs, hl, hx, hr⟩ := h
          cases k with
          | zero => exact absurd (List.cons.inj hl).1.symm hx
          | succ k => exact ⟨k, x, xs, (List.cons.inj hl).2, hx, hr⟩
      · rw [if_neg ha]
        constructor
        · intro h
          cases h
          exact ⟨0, a, l, rfl, ha, rfl⟩
        · intro h
          obtain ⟨k, x, xs, hl, _, rfl⟩ := h
          cases k with
          | zero => rw [hl]; rfl
          | succ k => exact absurd (List.cons.inj hl).1 ha

theorem dropStopBit_eq_ok {nalu body : Bytes} :
    dropStopBit nalu = .ok body ↔ StopBit nalu body := by
  unfold dropStopBit StopBit
  constructor
  · intro h
    cases hskip : skipTrailingZeros nalu.reverse with
    | error f =>
        rw [hskip] at h
        cases h
    | ok r =>
        obtain ⟨k, x, xs, hrev, hx, rfl⟩ := skipTrailingZeros_eq_ok.mp hskip
        rw [hskip] at h
        dsimp only at h
        split_ifs at h with hstop
        cases h
        refine ⟨k, ?_⟩
        have hnalu := congrArg List.reverse hrev
        rw [List.reverse_reverse, List.reverse_append, List.reverse_cons, List.reverse_replicate,
          not_not.mp hstop, List.append_assoc] at hnalu
        exact hnalu
  · intro h
    obtain ⟨k, rfl⟩ := h
    have hskip : skipTrailingZeros (body ++ 0x80 :: List.replicate k 0).reverse =
        .ok (0x80 :: body.reverse) := by
      refine skipTrailingZeros_eq_ok.mpr ⟨k, 0x80, body.reverse, ?_, by decide, rfl⟩
      rw [List.reverse_append, List.reverse_cons, List.reverse_replicate, List.append_assoc]
      rfl
    rw [hskip]
    simp

theorem copyEbspToSodb_eq_ok {nalu sodb : Bytes} (hne : nalu ≠ []) :
    copyEbspToSodb nalu = .ok sodb ↔ ∃ body, StopBit nalu body ∧ sodb = unescape body := by
  unfold copyEbspToSodb copyFromEbspImpl
  rw [if_neg (by simpa using hne), if_pos rfl]
  constructor
  · intro h
    cases hdrop : dropStopBit nalu with
    | error f =>
        rw [hdrop] at h
        cases h
    | ok body =>
        rw [hdrop] at h
        cases h
        exact ⟨body, dropStopBit_eq_ok.mp hdrop, rfl⟩
  · intro h
    obtain ⟨body, hstop, rfl⟩ := h
    rw [dropStopBit_eq_ok.mpr hstop]

theorem dropStopBit_append (src : Bytes) : dropStopBit (src ++ [0x80]) = .ok src := by
  have hskip : skipTrailingZeros (src ++ [0x80]).reverse = .ok (0x80 :: src.reverse) := by
    rw [List.reverse_append]
    exact if_neg (by decide)
  rw [dropStopBit, hskip]
  simp

theorem copyEbspToSodb_append (src : Bytes) :
    copyEbspToSodb (src ++ [0x80]) = .ok (unescape src) := by
  rw [copyEbspToSodb, copyFromEbspImpl, if_neg (by simp), if_pos rfl, dropStopBit_append]

/-! ## Clean windows

A loop only asks whether the bytes it looks back at are zero, so every window whose
second byte is not zero behaves alike, and the first two bytes of a buffer are
copied the way a window of non-zero bytes copies them. -/

theorem fromEbspLoop_congr {a b a' b' : UInt8} (ha : a = 0 ↔ a' = 0) (hb : b = 0 ↔ b' = 0)
    (xs : Bytes) : fromEbspLoop a b xs = fromEbspLoop a' b' xs := by
  cases xs with
  | nil => rfl
  | cons x xs =>
      have ih := fromEbspLoop_congr hb (Iff.refl (x = 0)) xs
      simp only [fromEbspLoop, ha, hb, ih]

theorem unescape_eq_loop (xs : Bytes) : unescape xs = fromEbspLoop 1 1 xs := by
  match xs with
  | [] => rfl
  | [x] => rfl
  | x :: y :: xs => simp [unescape, fromEbspLoop]

theorem fromEbspLoop_of_ne (a : UInt8) {b : UInt8} (hb : b ≠ 0) (xs : Bytes) :
    fromEbspLoop a b xs = unescape xs := by
  rw [unescape_eq_loop]
  cases xs with
  | nil => rfl
  | cons x xs =>
      have ih : fromEbspLoop b x xs = fromEbspLoop 1 x xs :=
        fromEbspLoop_congr (by simp [hb]) Iff.rfl xs
      simp only [fromEbspLoop, hb, false_and, and_false, if_false, ih]
      simp

theorem unescape_cons {x : UInt8} (hx : x ≠ 0) (xs : Bytes) :
    unescape (x :: xs) = x :: unescape xs := by
  have h := fromEbspLoop_of_ne 1 hx xs
  rw [unescape_eq_loop, fromEbspLoop, if_neg (by simp), h]

theorem unescape_zero_cons {x : UInt8} (hx : x ≠ 0) (xs : Bytes) :
    unescape (0 :: x :: xs) = 0 :: x :: unescape xs := by
  rw [unescape, fromEbspLoop_of_ne 0 hx]

/-- Bytes in which no two zeros stand side by side and the last is not zero: whatever comes behind
them is read with a clean window. -/
inductive Sparse : Bytes → Prop where
  | nil : Sparse []
  | cons {x : UInt8} {w : Bytes} (hx : x ≠ 0) (hw : Sparse w) : Sparse (x :: w)
  | zero {x : UInt8} {w : Bytes} (hx : x ≠ 0) (hw : Sparse w) : Sparse (0 :: x :: w)

theorem Sparse.of_ne_zero {w : Bytes} (h : ∀ b ∈ w, b ≠ 0) : Sparse w := by
  induction w with
  | nil => exact .nil
  | cons b w ih =>
      exact .cons (h b (List.mem_cons_self ..)) (ih fun c hc => h c (List.mem_cons_of_mem _ hc))

theorem Sparse.append {v w : Bytes} (hv : Sparse v) (hw : Sparse w) : Sparse (v ++ w) := by
  induction hv with
  | nil => exact hw
  | cons hx _ ih => exact .cons hx ih
  | zero hx _ ih => exact .zero hx ih

theorem Sparse.unescape_append {w : Bytes} (hw : Sparse w) (t : Bytes) :
    unescape (w ++ t) = w ++ unescape t := by
  induction hw with
  | nil => rfl
  | cons hx _ ih => rw [List.cons_append, unescape_cons hx, ih, List.cons_append]
  | zero hx _ ih =>
      rw [List.cons_append, List.cons_append, unescape_zero_cons hx, ih, List.cons_append,
        List.cons_append]

theorem escape_eq_loop (xs : Bytes) : escape xs = toEbspLoop 1 1 xs := by
  match xs with
  | [] => rfl
  | [x] => rfl
  | x :: y :: xs => simp [escape, toEbspLoop]

theorem count_eq_loop (xs : Bytes) :
    countEmulationPreventionBytes xs = countEmulationLoop 1 1 xs := by
  match xs with
  | [] => rfl
  | [x] => rfl
  | x :: y :: xs => simp [countEmulationPreventionBytes, countEmulationLoop]

/-! ## What comes back

The decoder's window slides over the escaped bytes and the encoder's over the plain
ones.  They agree until an escape follows an escape: then the decoder still has the
last `03` in sight where the encoder sees a zero, and leaves the new `03` in. -/

/-- What the decoder returns for the encoder's output; `ins` is set when a `03` was
put in front of the byte before the current one. -/
def throughEbspLoop (a b : UInt8) (ins : Bool) : Bytes → Bytes
  | [] => []
  | x :: xs =>
      if a = 0 ∧ b = 0 ∧ x ≤ 3 then
        if ins then 3 :: x :: throughEbspLoop b x true xs
        else x :: throughEbspLoop b x true xs
      else x :: throughEbspLoop b x false xs

def throughEbsp (xs : Bytes) : Bytes := throughEbspLoop 1 1 false xs

theorem fromEbspLoop_toEbspLoop {t : Bytes} (ht : ∀ a b, fromEbspLoop a b t = unescape t)
    (a b : UInt8) (ins : Bool) (xs : Bytes) :
    fromEbspLoop (if ins then 3 else a) b (toEbspLoop a b xs ++ t) =
      throughEbspLoop a b ins xs ++ unescape t := by
  induction xs generalizing a b ins with
  | nil => exact ht _ b
  | cons x xs ih =>
      by_cases h : a = 0 ∧ b = 0 ∧ x ≤ 3
      · have hb : b = 0 := h.2.1
        have hx : fromEbspLoop b 3 (x :: (toEbspLoop b x xs ++ t)) =
            x :: fromEbspLoop 3 x (toEbspLoop b x xs ++ t) := by
          rw [fromEbspLoop, if_neg (by simp)]
        have htail := ih b x true
        rw [if_pos rfl] at htail
        rw [toEbspLoop, if_pos h, throughEbspLoop, if_pos h, List.cons_append,
          List.cons_append, fromEbspLoop, hx, htail]
        cases ins with
        | true => simp
        | false => simp [h.1, hb]
      · have hkeep : ¬((if ins then 3 else a) = 0 ∧ b = 0 ∧ x = 3) := by
          rintro ⟨ha, hb, hx⟩
          cases ins with
          | true => cases ha
          | false => exact h ⟨ha, hb, by rw [hx]; decide⟩
        have htail := ih b x false
        rw [if_neg (by simp)] at htail
        rw [toEbspLoop, if_neg h, throughEbspLoop, if_neg h, List.cons_append, fromEbspLoop,
          if_neg hkeep, htail]
        rfl

/-- The escaped payload is undone up to the escapes that follow an escape, as long as
what comes after it reads the same in every window. -/
theorem unescape_escape_append {t : Bytes} (ht : ∀ a b, fromEbspLoop a b t = unescape t)
    (xs : Bytes) : unescape (escape xs ++ t) = throughEbsp xs ++ unescape t := by
  rw [unescape_eq_loop, escape_eq_loop]
  exact fromEbspLoop_toEbspLoop ht 1 1 false xs

theorem fromEbspLoop_stopBit (a b : UInt8) (xs : Bytes) :
    fromEbspLoop a b (0x80 :: xs) = unescape (0x80 :: xs) := by
  rw [unescape_cons (by decide), fromEbspLoop, if_neg (by simp),
    fromEbspLoop_of_ne b (by decide)]

/-! ## Escapes the count misses -/

/-- The escapes in front of `00`, `01` and `02`. -/
def missedLoop (a b : UInt8) : Bytes → Nat
  | [] => 0
  | x :: xs => (if a = 0 ∧ b = 0 ∧ x ≤ 2 then 1 else 0) + missedLoop b x xs

def missedEscapes (xs : Bytes) : Nat := missedLoop 1 1 xs

theorem escaped_iff (x : UInt8) : x ≤ 3 ↔ x = 3 ∨ x ≤ 2 := by
  revert x
  decide

theorem toEbspLoop_length (a b : UInt8) (xs : Bytes) :
    (toEbspLoop a b xs).length = xs.length + countEmulationLoop a b xs + missedLoop a b xs := by
  induction xs generalizing a b with
  | nil => rfl
  | cons x xs ih =>
      have htail := ih b x
      rw [toEbspLoop, countEmulationLoop, missedLoop]
      by_cases h : a = 0 ∧ b = 0 ∧ x ≤ 3
      · rw [if_pos h, List.length_cons, List.length_cons, List.length_cons]
        rcases (escaped_iff x).mp h.2.2 with hx | hx
        · have hmiss : ¬(a = 0 ∧ b = 0 ∧ x ≤ 2) := by
            rw [hx]
            exact fun hm => absurd hm.2.2 (by decide)
          rw [if_pos ⟨h.1, h.2.1, hx⟩, if_neg hmiss]
          omega
        · have hcount : ¬(a = 0 ∧ b = 0 ∧ x = 3) := by
            rintro ⟨_, _, rfl⟩
            exact absurd hx (by decide)
          rw [if_neg hcount, if_pos ⟨h.1, h.2.1, hx⟩]
          omega
      · have hcount : ¬(a = 0 ∧ b = 0 ∧ x = 3) := fun hc =>
          h ⟨hc.1, hc.2.1, (escaped_iff x).mpr (.inl hc.2.2)⟩
        have hmiss : ¬(a = 0 ∧ b = 0 ∧ x ≤ 2) := fun hm =>
          h ⟨hm.1, hm.2.1, (escaped_iff x).mpr (.inr hm.2.2)⟩
        rw [if_neg h, if_neg hcount, if_neg hmiss, List.length_cons, List.length_cons]
        omega

/-- The escaped length is what the count predicts and the missed escapes on top. -/
theorem escape_length (xs : Bytes) :
    (escape xs).length =
      xs.length + countEmulationPreventionBytes xs + missedEscapes xs := by
  rw [escape_eq_loop, count_eq_loop]
  exact toEbspLoop_length 1 1 xs

theorem missedLoop_eq_zero (a b : UInt8) (xs : Bytes) :
    missedLoop a b xs = 0 ↔ ∀ x ≤ (2 : UInt8), ¬ [0, 0, x] <:+: a :: b :: xs := by
  induction xs generalizing a b with
  | nil =>
      refine ⟨fun _ x _ hin => ?_, fun _ => rfl⟩
      exact absurd hin.length_le (by simp)
  | cons y ys ih =>
      have hhead : ∀ x : UInt8, [0, 0, x] <+: a :: b :: y :: ys ↔ a = 0 ∧ b = 0 ∧ y = x := by
        intro x
        simp [List.cons_prefix_cons, eq_comm]
      have hinside : ∀ x : UInt8, [0, 0, x] <:+: a :: b :: y :: ys ↔
          [0, 0, x] <+: a :: b :: y :: ys ∨ [0, 0, x] <:+: b :: y :: ys :=
        fun x => List.infix_cons_iff
      simp only [missedLoop, Nat.add_eq_zero_iff, ih, hinside, hhead, not_or]
      constructor
      · rintro ⟨h0, htail⟩ x hx
        refine ⟨?_, htail x hx⟩
        rintro ⟨ha, hb, rfl⟩
        rw [if_pos ⟨ha, hb, hx⟩] at h0
        cases h0
      · intro h
        refine ⟨if_neg ?_, fun x hx => (h x hx).2⟩
        rintro ⟨ha, hb, hy⟩
        exact (h y hy).1 ⟨ha, hb, rfl⟩

theorem missedEscapes_eq_zero (xs : Bytes) :
    missedEscapes xs = 0 ↔ ∀ x ≤ (2 : UInt8), ¬ [0, 0, x] <:+: xs := by
  have hskip : ∀ x : UInt8, [0, 0, x] <:+: 1 :: 1 :: xs ↔ [0, 0, x] <:+: xs := by
    intro x
    simp [List.infix_cons_iff, List.cons_prefix_cons]
  rw [missedEscapes, missedLoop_eq_zero]
  simp only [hskip]

theorem throughEbspLoop_eq_self {a b : UInt8} {ins : Bool} {xs : Bytes}
    (hins : ins = true → b ≠ 0) (h : missedLoop a b xs = 0) :
    throughEbspLoop a b ins xs = xs := by
  induction xs generalizing a b ins with
  | nil => rfl
  | cons x xs ih =>
      rw [missedLoop] at h
      have htail : missedLoop b x xs = 0 := by omega
      by_cases hc : a = 0 ∧ b = 0 ∧ x ≤ 3
      · have hoff : ins = false := by
          cases ins with
          | true => exact absurd hc.2.1 (hins rfl)
          | false => rfl
        have hx : x ≠ 0 := by
          rintro rfl
          rw [if_pos ⟨hc.1, hc.2.1, by decide⟩] at h
          omega
        rw [throughEbspLoop, if_pos hc, hoff, if_neg (by simp), ih (fun _ => hx) htail]
      · rw [throughEbspLoop, if_neg hc, ih (by simp) htail]

/-- Without a missed escape the decoder undoes the encoder. -/
theorem throughEbsp_eq_self {xs : Bytes} (h : missedEscapes xs = 0) : throughEbsp xs = xs :=
  throughEbspLoop_eq_self (by simp) h

end H264
end Metamix
