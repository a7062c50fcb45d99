/-
The clock all threads share, and how stream timestamps become clock timestamps.

A timestamp is an integer here and an `int64_t` in the source: `Range` says which sums agree.
`av_rescale_q` is a function of FFmpeg: what is used of it is in `AvRescale`, and
`AvRescale.nearest` is what it computes.
-/
import Mathlib.Algebra.Order.Ring.Int
import Mathlib.Tactic.Positivity

namespace Metamix
namespace Time

def minTs : Int := -2 ^ 63

def sysClockRate : Nat := 90000

structure TimeBase where
  numerator : Nat
  denominator : Nat
  numerator_pos : 0 < numerator
  denominator_pos : 0 < denominator
deriving DecidableEq

/-- Rescaling from one time base to another, as the code relies on it. -/
structure AvRescale where
  rescaleQ : Int → TimeBase → TimeBase → Int
  rescaleQ_zero : ∀ intb outtb, rescaleQ 0 intb outtb = 0
  rescaleQ_mono : ∀ intb outtb a b, a ≤ b → rescaleQ a intb outtb ≤ rescaleQ b intb outtb

/-! ## Rounding to the nearest -/

/-- `n * b / c`, halves rounded up. -/
def roundNat (b c n : Nat) : Nat := (n * b + c / 2) / c

theorem roundNat_mono {b c m n : Nat} (h : m ≤ n) : roundNat b c m ≤ roundNat b c n :=
  Nat.div_le_div_right (Nat.add_le_add_right (Nat.mul_le_mul_right b h) _)

theorem roundNat_zero {b c : Nat} (hc : 0 < c) : roundNat b c 0 = 0 := by
  rw [roundNat, Nat.zero_mul, Nat.zero_add]
  exact Nat.div_eq_of_lt (Nat.div_lt_self hc (by decide))

/-- Halves are rounded away from zero. -/
def roundInt (b c : Nat) (a : Int) : Int :=
  if 0 ≤ a then (roundNat b c a.toNat : Int) else -(roundNat b c (-a).toNat : Int)

theorem roundInt_mono {b c : Nat} {x y : Int} (h : x ≤ y) : roundInt b c x ≤ roundInt b c y := by
  unfold roundInt
  by_cases hx : 0 ≤ x
  · rw [if_pos hx, if_pos (Int.le_trans hx h)]
    exact Int.ofNat_le.mpr (roundNat_mono (by omega))
  · rw [if_neg hx]
    by_cases hy : 0 ≤ y
    · rw [if_pos hy]
      omega
    · rw [if_neg hy]
      exact Int.neg_le_neg (Int.ofNat_le.mpr (roundNat_mono (by omega)))

theorem TimeBase.mul_pos (intb outtb : TimeBase) : 0 < outtb.numerator * intb.denominator :=
  Nat.mul_pos outtb.numerator_pos intb.denominator_pos

/-- `AV_ROUND_NEAR_INF`. -/
def AvRescale.nearest : AvRescale where
  rescaleQ a intb outtb :=
    roundInt (intb.numerator * outtb.denominator) (outtb.numerator * intb.denominator) a
  rescaleQ_zero intb outtb := by
    show (roundNat _ _ 0 : Int) = 0
    rw [roundNat_zero (intb.mul_pos outtb)]
    rfl
  rescaleQ_mono _ _ _ _ h := roundInt_mono h

/-- A timestamp does not grow in a time base that is no finer. -/
theorem AvRescale.nearest_le {intb outtb : TimeBase}
    (h : intb.numerator * outtb.denominator ≤ outtb.numerator * intb.denominator) {ts : Int}
    (hts : 0 < ts) : AvRescale.nearest.rescaleQ ts intb outtb ≤ ts := by
  have hpos := intb.mul_pos outtb
  have hround : roundNat (intb.numerator * outtb.denominator)
      (outtb.numerator * intb.denominator) ts.toNat < ts.toNat + 1 := by
    refine Nat.div_lt_of_lt_mul ?_
    have hmul := Nat.mul_le_mul_left ts.toNat h
    have hhalf := Nat.div_lt_self hpos (Nat.lt_succ_self 1)
    rw [Nat.mul_succ, Nat.mul_comm (outtb.numerator * intb.denominator)]
    omega
  show roundInt _ _ ts ≤ ts
  rw [roundInt, if_pos (Int.le_of_lt hts)]
  omega

theorem AvRescale.nearest_same {tb : TimeBase} (ts : Int) :
    AvRescale.nearest.rescaleQ ts tb tb = ts := by
  have hround (n : Nat) : roundNat (tb.numerator * tb.denominator)
      (tb.numerator * tb.denominator) n = n := by
    have hpos := tb.mul_pos tb
    rw [roundNat, Nat.mul_comm n, Nat.mul_add_div hpos,
      Nat.div_eq_of_lt (Nat.div_lt_self hpos (Nat.lt_succ_self 1)), Nat.add_zero]
  show roundInt _ _ ts = ts
  unfold roundInt
  rw [hround, hround]
  split <;> omega

/-! ## The clock -/

structure Clock where
  val : Int
  myTimeBase : TimeBase

namespace Clock

def defaultTimeBase : TimeBase := ⟨1, sysClockRate, by decide, by decide⟩

def init : Clock := ⟨0, defaultTimeBase⟩

def now (c : Clock) : Int := c.val

def timeBase (c : Clock) : TimeBase := c.myTimeBase

/-- The clock does not go back. -/
def increment (c : Clock) (delta : Int) : Clock :=
  if delta ≥ 0 then { c with val := c.val + delta } else c

theorem increment_of_nonneg {c : Clock} {delta : Int} (h : 0 ≤ delta) :
    c.increment delta = ⟨c.val + delta, c.myTimeBase⟩ := if_pos h

@[simp] theorem increment_timeBase (c : Clock) (delta : Int) :
    (c.increment delta).timeBase = c.timeBase := by
  unfold increment
  split <;> rfl

end Clock

structure TSTicker where
  lastTs : Option Int := none

/-- The first timestamp is added in full, every later one by its distance to the one
before. -/
def TSTicker.tick (t : TSTicker) (clock : Clock) (ts : Int) : TSTicker × Clock :=
  match t.lastTs with
  | none => (⟨some ts⟩, clock.increment ts)
  | some last => (⟨some ts⟩, clock.increment (ts - last))

@[simp] theorem TSTicker.tick_timeBase (t : TSTicker) (clock : Clock) (ts : Int) :
    (t.tick clock ts).2.timeBase = clock.timeBase := by
  unfold TSTicker.tick
  split <;> exact clock.increment_timeBase _

structure TSRescaler where
  localTimeBase : TimeBase
  base : Int
  tsZero : Option Int := none

namespace TSRescaler

def clockRelative (clock : Clock) (localTimeBase : TimeBase) : TSRescaler :=
  { localTimeBase, base := clock.now }

variable (A : AvRescale)

/-- The first timestamp is the zero point of all that follow. -/
def rescaleToClock (r : TSRescaler) (clock : Clock) (ts : Int) : Int × TSRescaler :=
  let zero := r.tsZero.getD ts
  (r.base + A.rescaleQ (ts - zero) r.localTimeBase clock.timeBase, { r with tsZero := some zero })

variable {A}

theorem rescaleToClock_fresh {r : TSRescaler} {clock : Clock} {ts : Int} (h : r.tsZero = none) :
    r.rescaleToClock A clock ts = (r.base, { r with tsZero := some ts }) := by
  simp only [rescaleToClock, h, Option.getD_none, Int.sub_self, A.rescaleQ_zero, Int.add_zero]

theorem rescaleToClock_set {r : TSRescaler} {clock : Clock} {ts zero : Int}
    (h : r.tsZero = some zero) :
    r.rescaleToClock A clock ts =
      (r.base + A.rescaleQ (ts - zero) r.localTimeBase clock.timeBase, r) := by
  cases r
  cases h
  rfl

end TSRescaler
end Time
end Metamix
