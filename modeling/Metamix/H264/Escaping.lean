/-
Which byte strings survive emulation prevention.

The encoder of the source looks back at the plain bytes, the standard's at the bytes it has
written.  The decoder looks back at the escaped bytes, so it keeps in step with the standard
(`copyEbspToRbsp_insertEmulation`) and falls out of step with the source's own encoder where one
escape follows another (`copyEbsp_copyToEbsp_iff`).
-/
import Metamix.H264.Rbsp

namespace Metamix
namespace H264

open Binary

/-! ## The source's encoder -/

/-- Three zeros with a small byte behind them: the encoder escapes two bytes in a row. -/
def NoEscapeRun (src : Bytes) : Prop := ∀ x ≤ (3 : UInt8), ¬ [0, 0, 0, x] <:+: src

theorem throughEbspLoop_length_le (a b : UInt8) (ins : Bool) (xs : Bytes) :
    xs.length ≤ (throughEbspLoop a b ins xs).length := by
  induction xs generalizing a b ins with
  | nil => exact Nat.le_refl 0
  | cons x xs ih =>
      have hescaped := ih b x true
      have hplain := ih b x false
      rw [throughEbspLoop]
      split
      · split <;> simp only [List.length_cons] <;> omega
      · simp only [List.length_cons]
        omega

/-- A byte that is escaped right behind an escaped one keeps its `03`. -/
theorem throughEbspLoop_kept (a b : UInt8) (x : UInt8) (xs : Bytes) :
    3 :: x :: throughEbspLoop a b true xs ≠ x :: xs := by
  intro h
  have hlen := congrArg List.length h
  have hle := throughEbspLoop_length_le a b true xs
  simp only [List.length_cons] at hlen
  omega

/-- `z`, `a` and `b` are the three bytes in front: the flag is set when `b` was escaped. -/
theorem throughEbspLoop_eq_self_iff (z a b : UInt8) (xs : Bytes) :
    throughEbspLoop a b (decide (z = 0 ∧ a = 0 ∧ b ≤ 3)) xs = xs ↔
      ∀ x ≤ (3 : UInt8), ¬ [0, 0, 0, x] <:+: z :: a :: b :: xs := by
  induction xs generalizing z a b with
  | nil =>
      refine ⟨fun _ x _ hin => ?_, fun _ => rfl⟩
      exact absurd hin.length_le (by simp)
  | cons y ys ih =>
      have hhead : ∀ x : UInt8, [0, 0, 0, x] <+: z :: a :: b :: y :: ys ↔
          (z = 0 ∧ a = 0 ∧ b = 0) ∧ y = x := by
        intro x
        simp [List.cons_prefix_cons, eq_comm, and_assoc]
      have hinside : (∀ x ≤ (3 : UInt8), ¬ [0, 0, 0, x] <:+: z :: a :: b :: y :: ys) ↔
          ¬((z = 0 ∧ a = 0 ∧ b = 0) ∧ y ≤ 3) ∧
            ∀ x ≤ (3 : UInt8), ¬ [0, 0, 0, x] <:+: a :: b :: y :: ys := by
        simp only [List.infix_cons_iff (a := z), hhead, not_or]
        constructor
        · intro h
          exact ⟨fun hz => (h y hz.2).1 ⟨hz.1, rfl⟩, fun x hx => (h x hx).2⟩
        · rintro ⟨hrun, htail⟩ x hx
          exact ⟨fun hz => hrun ⟨hz.1, hz.2 ▸ hx⟩, htail x hx⟩
      have htail := ih a b y
      rw [hinside, throughEbspLoop]
      by_cases hesc : a = 0 ∧ b = 0 ∧ y ≤ 3
      · obtain ⟨ha, hb, hy⟩ := hesc
        rw [decide_eq_true ⟨ha, hb, hy⟩] at htail
        rw [if_pos ⟨ha, hb, hy⟩]
        by_cases hz : z = 0
        · rw [if_pos (decide_eq_true ⟨hz, ha, by rw [hb]; decide⟩)]
          exact iff_of_false (throughEbspLoop_kept b y y ys) fun h => h.1 ⟨⟨hz, ha, hb⟩, hy⟩
        · rw [if_neg (by simp [hz]), List.cons.injEq, and_iff_right rfl, htail]
          exact (and_iff_right fun h => hz h.1.1).symm
      · rw [decide_eq_false hesc] at htail
        rw [if_neg hesc, List.cons.injEq, and_iff_right rfl, htail]
        exact (and_iff_right fun h => hesc ⟨h.1.2.1, h.1.2.2, h.2⟩).symm

theorem throughEbsp_eq_self_iff (xs : Bytes) : throughEbsp xs = xs ↔ NoEscapeRun xs := by
  have hskip : ∀ x : UInt8, [0, 0, 0, x] <:+: 1 :: 1 :: 1 :: xs ↔ [0, 0, 0, x] <:+: xs := by
    intro x
    simp [List.infix_cons_iff, List.cons_prefix_cons]
  have hloop := throughEbspLoop_eq_self_iff 1 1 1 xs
  simp only [hskip] at hloop
  exact hloop

theorem copyEbspToRbsp_eq (src : Bytes) : copyEbspToRbsp src = .ok (unescape src) := by
  cases src <;> rfl

theorem copyRbspToEbsp_eq (src : Bytes) : copyRbspToEbsp src = escape src := by
  cases src with
  | nil => rfl
  | cons x xs => exact List.append_nil _

theorem unescape_escape (src : Bytes) : unescape (escape src) = throughEbsp src := by
  have h := unescape_escape_append (t := []) (fun _ _ => rfl) src
  rw [List.append_nil, unescape, List.append_nil] at h
  exact h

theorem copyEbspToSodb_copySodbToEbsp (src : Bytes) :
    copyEbspToSodb (copySodbToEbsp src) = .ok (throughEbsp src) := by
  cases src with
  | nil => rfl
  | cons x xs =>
      have hstop : copySodbToEbsp (x :: xs) = escape (x :: xs) ++ [0x80] := rfl
      rw [hstop, copyEbspToSodb_append, unescape_escape]

/-- Both pairs of copies give the source back exactly if no small byte stands behind three
zeros. -/
theorem copyEbsp_copyToEbsp_iff (src : Bytes) :
    (copyEbspToRbsp (copyRbspToEbsp src) = .ok src ↔ NoEscapeRun src) ∧
      (copyEbspToSodb (copySodbToEbsp src) = .ok src ↔ NoEscapeRun src) := by
  rw [copyRbspToEbsp_eq, copyEbspToRbsp_eq, unescape_escape, copyEbspToSodb_copySodbToEbsp,
    Except.ok.injEq, throughEbsp_eq_self_iff]
  exact ⟨Iff.rfl, Iff.rfl⟩

/-- Four zeros: the second `03` stays in. -/
theorem copyEbsp_zeros :
    copyEbspToRbsp (copyRbspToEbsp [0, 0, 0, 0]) = .ok [0, 0, 0, 3, 0] ∧
      copyEbspToSodb (copySodbToEbsp [0, 0, 0, 0]) = .ok [0, 0, 0, 3, 0] := by
  decide

/-! ## The standard's encoder -/

/-- Write the bytes out, and a `03` in front of every byte of at most `03` that would come behind
two zeros already written. -/
def insertEmulation (written : Bytes) : Bytes → Bytes
  | [] => written
  | x :: xs =>
      if [0, 0] <:+ written ∧ x ≤ 3 then insertEmulation (written ++ [3, x]) xs
      else insertEmulation (written ++ [x]) xs

/-- The same with the last two written bytes in hand. -/
def standardLoop (a b : UInt8) : Bytes → Bytes
  | [] => []
  | x :: xs =>
      if a = 0 ∧ b = 0 ∧ x ≤ 3 then 3 :: x :: standardLoop 3 x xs
      else x :: standardLoop b x xs

/-- `a` and `b` show whether the last two written bytes are zeros. -/
structure Window (written : Bytes) (a b : UInt8) : Prop where
  both : [0, 0] <:+ written ↔ a = 0 ∧ b = 0
  last : [0] <:+ written ↔ b = 0

theorem suffix_push {u w : Bytes} {x y : UInt8} : u ++ [y] <:+ w ++ [x] ↔ u <:+ w ∧ y = x := by
  rw [List.suffix_concat_iff]
  constructor
  · rintro (hnil | ⟨t, ht, hsuffix⟩)
    · exact absurd hnil (by simp)
    · obtain ⟨rfl, hy⟩ := List.append_inj' ht rfl
      exact ⟨hsuffix, (List.cons.inj hy).1⟩
  · rintro ⟨hsuffix, rfl⟩
    exact .inr ⟨u, rfl, hsuffix⟩

theorem Window.step {written : Bytes} {a b : UInt8} (h : Window written a b) (x : UInt8) :
    Window (written ++ [x]) b x where
  both := by
    rw [show ([0, 0] : Bytes) = [0] ++ [0] from rfl, suffix_push, h.last, eq_comm (a := x)]
  last := by
    rw [show ([0] : Bytes) = [] ++ [0] from rfl, suffix_push, eq_comm (a := x)]
    exact and_iff_right List.nil_suffix

theorem insertEmulation_eq {written : Bytes} {a b : UInt8} (h : Window written a b) (xs : Bytes) :
    insertEmulation written xs = written ++ standardLoop a b xs := by
  induction xs generalizing written a b with
  | nil => exact (List.append_nil _).symm
  | cons x xs ih =>
      have hcond : [0, 0] <:+ written ∧ x ≤ 3 ↔ a = 0 ∧ b = 0 ∧ x ≤ 3 := by
        rw [h.both, and_assoc]
      rw [insertEmulation, standardLoop]
      by_cases hesc : a = 0 ∧ b = 0 ∧ x ≤ 3
      · have hstep := (h.step 3).step x
        rw [List.append_assoc] at hstep
        rw [if_pos (hcond.mpr hesc), if_pos hesc]
        exact (ih hstep).trans (List.append_assoc _ _ _)
      · rw [if_neg (mt hcond.mp hesc), if_neg hesc, ih (h.step x), List.append_assoc]
        rfl

/-- The decoder sees in its input what the encoder has written. -/
theorem fromEbspLoop_standardLoop (a b : UInt8) (xs : Bytes) :
    fromEbspLoop a b (standardLoop a b xs) = xs := by
  induction xs generalizing a b with
  | nil => rfl
  | cons x xs ih =>
      rw [standardLoop]
      by_cases hesc : a = 0 ∧ b = 0 ∧ x ≤ 3
      · rw [if_pos hesc, fromEbspLoop, if_pos ⟨hesc.1, hesc.2.1, rfl⟩, fromEbspLoop,
          if_neg (by simp), ih]
      · have hkeep : ¬(a = 0 ∧ b = 0 ∧ x = 3) := fun h =>
          hesc ⟨h.1, h.2.1, by rw [h.2.2]; decide⟩
        rw [if_neg hesc, fromEbspLoop, if_neg hkeep, ih]

/-- What the standard's encoder makes of a byte string is undone by the decoder. -/
theorem copyEbspToRbsp_insertEmulation (rbsp : Bytes) :
    copyEbspToRbsp (insertEmulation [] rbsp) = .ok rbsp := by
  have hwindow : Window [] 1 1 := ⟨by decide, by decide⟩
  rw [copyEbspToRbsp_eq, insertEmulation_eq hwindow, List.nil_append, unescape_eq_loop,
    fromEbspLoop_standardLoop]

end H264
end Metamix
