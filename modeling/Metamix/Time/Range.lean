/-
Sums of timestamps in 64 bits.

The model counts in integers, the code in `int64_t`.  A checked sum is the one of the model where
it fits, and ends the run where it does not.  `TSRescaler.Room` is what a timestamp needs for the
sums of `rescale_to_clock`, and `rescales_fit_iff` says so for a rescaler's whole life.
-/
import Metamix.Lib.Machine
import Metamix.Binary.Parser
import Metamix.Time.Clock

namespace Metamix
namespace Time

open Lib

def maxTs : Int := 2 ^ 63 - 1

def Fits (x : Int) : Prop := minTs ≤ x ∧ x ≤ maxTs

instance (x : Int) : Decidable (Fits x) := inferInstanceAs (Decidable (_ ∧ _))

structure Overflow where
  sum : Int
deriving DecidableEq, Repr

def toTs (x : Int) : Except Overflow Int := if Fits x then .ok x else .error ⟨x⟩

theorem toTs_of_fits {x : Int} (h : Fits x) : toTs x = .ok x := if_pos h

theorem toTs_eq_ok {x y : Int} (h : toTs x = .ok y) : Fits x ∧ y = x := by
  unfold toTs at h
  by_cases hfits : Fits x
  · rw [if_pos hfits] at h
    exact ⟨hfits, (Except.ok.inj h).symm⟩
  · rw [if_neg hfits] at h
    cases h

/-! ## The ticker -/

def Clock.incrementChecked (c : Clock) (delta : Int) : Except Overflow Clock :=
  if delta ≥ 0 then do
    let val ← toTs (c.val + delta)
    return { c with val }
  else .ok c

def TSTicker.tickChecked (t : TSTicker) (clock : Clock) (ts : Int) :
    Except Overflow (TSTicker × Clock) :=
  match t.lastTs with
  | none => do
      let clock ← clock.incrementChecked ts
      return (⟨some ts⟩, clock)
  | some last => do
      let delta ← toTs (ts - last)
      let clock ← clock.incrementChecked delta
      return (⟨some ts⟩, clock)

theorem Clock.incrementChecked_of_fits {c : Clock} {delta : Int} (h : 0 ≤ delta)
    (hfits : Fits (c.val + delta)) :
    c.incrementChecked delta = .ok ⟨c.val + delta, c.myTimeBase⟩ := by
  rw [incrementChecked, if_pos h, toTs_of_fits hfits]
  rfl

theorem Clock.incrementChecked_eq_ok {c c' : Clock} {delta : Int}
    (h : c.incrementChecked delta = .ok c') : c' = c.increment delta := by
  unfold incrementChecked at h
  unfold increment
  split_ifs at h ⊢
  · obtain ⟨val, hval, h⟩ := Binary.of_bind_eq_ok h
    obtain ⟨-, rfl⟩ := toTs_eq_ok hval
    cases h
    rfl
  · cases h
    rfl

theorem TSTicker.tickChecked_first {clock : Clock} {ts : Int} (h : 0 ≤ ts)
    (hsum : Fits (clock.val + ts)) : TSTicker.tickChecked {} clock ts =
      .ok (⟨some ts⟩, ⟨clock.val + ts, clock.myTimeBase⟩) := by
  show (clock.incrementChecked ts >>= _) = _
  rw [Clock.incrementChecked_of_fits h hsum]
  rfl

theorem TSTicker.tickChecked_next {clock : Clock} {last ts : Int} (h : last ≤ ts)
    (hdelta : Fits (ts - last)) (hsum : Fits (clock.val + (ts - last))) :
    TSTicker.tickChecked ⟨some last⟩ clock ts =
      .ok (⟨some ts⟩, ⟨clock.val + (ts - last), clock.myTimeBase⟩) := by
  show (toTs (ts - last) >>= _) = _
  rw [toTs_of_fits hdelta, Binary.ok_bind, Clock.incrementChecked_of_fits (by omega) hsum]
  rfl

/-- Where nothing overflows the ticker of the model ticks as the one of the code. -/
theorem TSTicker.tickChecked_eq_ok {t : TSTicker} {clock : Clock} {ts : Int}
    {r : TSTicker × Clock} (h : t.tickChecked clock ts = .ok r) : r = t.tick clock ts := by
  obtain ⟨lastTs⟩ := t
  cases lastTs with
  | none =>
      obtain ⟨c, hc, h⟩ := Binary.of_bind_eq_ok h
      obtain rfl := Clock.incrementChecked_eq_ok hc
      cases h
      rfl
  | some last =>
      obtain ⟨delta, hdelta, h⟩ := Binary.of_bind_eq_ok h
      obtain ⟨c, hc, h⟩ := Binary.of_bind_eq_ok h
      obtain ⟨-, rfl⟩ := toTs_eq_ok hdelta
      obtain rfl := Clock.incrementChecked_eq_ok hc
      cases h
      rfl

/-! ## The rescaler -/

namespace TSRescaler

section

variable (rescaleQ : Int → TimeBase → TimeBase → Int) (outtb : TimeBase)

def rescaleToClockChecked : Machine Int Overflow Int TSRescaler := fun ts r => do
  let zero := r.tsZero.getD ts
  let delta ← toTs (ts - zero)
  let rescaled ← toTs (r.base + rescaleQ delta r.localTimeBase outtb)
  return (rescaled, { r with tsZero := some zero })

/-- The timestamp keeps its distance: from `zero`, and when the two are rescaled from what the
clock showed at the start. -/
structure Room (tb : TimeBase) (base zero ts : Int) : Prop where
  near : zero + minTs ≤ ts ∧ ts ≤ zero + maxTs
  least : minTs - base ≤ rescaleQ (ts - zero) tb outtb
  greatest : rescaleQ (ts - zero) tb outtb ≤ maxTs - base

def HasRoom (r : TSRescaler) (ts : Int) : Prop :=
  Room rescaleQ outtb r.localTimeBase r.base (r.tsZero.getD ts) ts

end

variable {rescaleQ : Int → TimeBase → TimeBase → Int} {outtb tb : TimeBase} {r r' : TSRescaler}

theorem room_iff {base zero ts : Int} : Room rescaleQ outtb tb base zero ts ↔
    Fits (ts - zero) ∧ Fits (base + rescaleQ (ts - zero) tb outtb) := by
  constructor
  · intro h
    have hnear := h.near
    have hleast := h.least
    have hgreatest := h.greatest
    unfold Fits
    omega
  · intro h
    unfold Fits at h
    constructor
    · omega
    · omega
    · omega

instance {base zero ts : Int} : Decidable (Room rescaleQ outtb tb base zero ts) :=
  decidable_of_iff _ room_iff.symm

theorem rescaleToClockChecked_of_room {zero ts : Int} (hzero : r.tsZero.getD ts = zero)
    (h : Room rescaleQ outtb r.localTimeBase r.base zero ts) :
    rescaleToClockChecked rescaleQ outtb ts r =
      .ok (r.base + rescaleQ (ts - zero) r.localTimeBase outtb,
        { r with tsZero := some zero }) := by
  subst hzero
  obtain ⟨hdelta, hsum⟩ := room_iff.mp h
  show (toTs (ts - r.tsZero.getD ts) >>= fun delta => _) = _
  rw [toTs_of_fits hdelta, Binary.ok_bind, toTs_of_fits hsum, Binary.ok_bind]
  rfl

theorem rescaleToClockChecked_eq_ok {ts v : Int}
    (h : rescaleToClockChecked rescaleQ outtb ts r = .ok (v, r')) :
    r.HasRoom rescaleQ outtb ts ∧
      v = r.base + rescaleQ (ts - r.tsZero.getD ts) r.localTimeBase outtb ∧
      r' = { r with tsZero := some (r.tsZero.getD ts) } := by
  obtain ⟨delta, hdelta, h⟩ := Binary.of_bind_eq_ok h
  obtain ⟨rescaled, hsum, h⟩ := Binary.of_bind_eq_ok h
  obtain ⟨hnear, rfl⟩ := toTs_eq_ok hdelta
  obtain ⟨hfits, rfl⟩ := toTs_eq_ok hsum
  cases h
  exact ⟨room_iff.mpr ⟨hnear, hfits⟩, rfl, rfl⟩

theorem rescaleToClockChecked_room_iff {zero ts : Int} (hzero : r.tsZero.getD ts = zero) :
    (∃ v, rescaleToClockChecked rescaleQ outtb ts r = .ok (v, { r with tsZero := some zero })) ↔
      Room rescaleQ outtb r.localTimeBase r.base zero ts := by
  constructor
  · intro h
    obtain ⟨v, hv⟩ := h
    exact hzero ▸ (rescaleToClockChecked_eq_ok hv).1
  · exact fun h => ⟨_, rescaleToClockChecked_of_room hzero h⟩

/-- Where nothing overflows the model counts as the code does. -/
theorem rescaleToClockChecked_model {A : AvRescale} {clock : Clock} {ts v : Int}
    (h : rescaleToClockChecked A.rescaleQ clock.timeBase ts r = .ok (v, r')) :
    r.rescaleToClock A clock ts = (v, r') := by
  obtain ⟨_, rfl, rfl⟩ := rescaleToClockChecked_eq_ok h
  rfl

/-- A rescaler gets through its timestamps exactly if all of them have room behind the first. -/
theorem rescales_fit_iff (rescaleQ : Int → TimeBase → TimeBase → Int) (clock : Clock)
    (tb : TimeBase) (first : Int) (rest : List Int) :
    (∃ r, Machine.run (rescaleToClockChecked rescaleQ clock.timeBase) (first :: rest)
        (.clockRelative clock tb) = .ok r) ↔
      ∀ ts ∈ first :: rest, Room rescaleQ clock.timeBase tb clock.now first ts := by
  rw [Machine.run_settled_iff (i := first) (s := .clockRelative clock tb)
      (t := ⟨tb, clock.now, some first⟩)
      (fun _ _ h => (rescaleToClockChecked_eq_ok h).2.2)
      (fun _ _ _ h => (rescaleToClockChecked_eq_ok h).2.2),
    List.forall_mem_cons]
  exact and_congr (rescaleToClockChecked_room_iff rfl)
    (forall₂_congr fun ts _ => rescaleToClockChecked_room_iff rfl)

end TSRescaler
end Time

end Metamix
