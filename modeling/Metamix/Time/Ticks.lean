/-
The clock over a run of timestamps.

A tick adds the distance to the timestamp before it and drops the distance if it is
negative, but it remembers the timestamp in any case.  A run that goes back and up again
therefore counts the way up twice.  `TSTicker.tickAll_largest_iff` says that this is the only
way for the clock to leave the largest timestamp it was given.
-/
import Metamix.Time.Clock
import Mathlib.Data.List.Induction

namespace Metamix
namespace Time

def IsLargest (tss : List Int) (x : Int) : Prop := x ∈ tss ∧ ∀ ts ∈ tss, ts ≤ x

instance (tss : List Int) (x : Int) : Decidable (IsLargest tss x) :=
  inferInstanceAs (Decidable (x ∈ tss ∧ ∀ ts ∈ tss, ts ≤ x))

/-- A timestamp is above the one before it only where that one is the largest so far. -/
def ClimbsFromTop (tss : List Int) : Prop :=
  ∀ before last next, before ++ [last, next] <+: tss → last < next → ∀ ts ∈ before, ts ≤ last

namespace TSTicker

def tickAll (t : TSTicker) (clock : Clock) (tss : List Int) : TSTicker × Clock :=
  tss.foldl (fun s ts => s.1.tick s.2 ts) (t, clock)

theorem tickAll_concat (t : TSTicker) (clock : Clock) (tss : List Int) (ts : Int) :
    t.tickAll clock (tss ++ [ts]) =
      (t.tickAll clock tss).1.tick (t.tickAll clock tss).2 ts := by
  rw [tickAll, List.foldl_append]
  rfl

/-- The ticker remembers the last timestamp, whether the clock moved or not. -/
theorem tickAll_lastTs (t : TSTicker) (clock : Clock) (tss : List Int) (ts : Int) :
    (t.tickAll clock (tss ++ [ts])).1.lastTs = some ts := by
  rw [tickAll_concat]
  unfold tick
  split <;> rfl

theorem tick_now {t : TSTicker} {clock : Clock} {last ts : Int} (h : t.lastTs = some last) :
    (t.tick clock ts).2.now = if last ≤ ts then clock.now + (ts - last) else clock.now := by
  simp only [tick, h, Clock.increment, Clock.now]
  by_cases hle : last ≤ ts
  · rw [if_pos hle, if_pos (by omega)]
  · rw [if_neg hle, if_neg (by omega)]

/-- The step: with the clock on the largest timestamp, the next tick keeps it there exactly
when it does not climb from below. -/
theorem tick_largest_iff {t : TSTicker} {clock : Clock} {before : List Int} {last ts : Int}
    (hlast : t.lastTs = some last) (h : IsLargest (before ++ [last]) clock.now) :
    IsLargest (before ++ [last] ++ [ts]) (t.tick clock ts).2.now ↔
      (last < ts → ∀ u ∈ before, u ≤ last) := by
  obtain ⟨hmem, hle⟩ := h
  have hnow : last ≤ clock.now := hle last (by simp)
  rw [tick_now hlast]
  by_cases hup : last < ts
  · rw [if_pos (by omega)]
    constructor
    · intro hlarge _ u hu
      obtain ⟨hin, _⟩ := hlarge
      rcases List.mem_append.mp hin with hin | hin
      · have := hle _ hin
        omega
      · have heq := List.mem_singleton.mp hin
        have := hle u (List.mem_append_left _ hu)
        omega
    · intro hbelow
      have htop : clock.now = last := by
        rcases List.mem_append.mp hmem with hin | hin
        · have := hbelow hup _ hin
          omega
        · exact List.mem_singleton.mp hin
      have hts : clock.now + (ts - last) = ts := by omega
      rw [hts]
      refine ⟨by simp, fun u hu => ?_⟩
      rcases List.mem_append.mp hu with hu | hu
      · have := hle u hu
        omega
      · exact Int.le_of_eq (List.mem_singleton.mp hu)
  · have hstay : (if last ≤ ts then clock.now + (ts - last) else clock.now) = clock.now := by
      by_cases heq : last ≤ ts
      · rw [if_pos heq]
        omega
      · rw [if_neg heq]
    rw [hstay]
    constructor
    · intro _ h
      exact absurd h hup
    · intro _
      refine ⟨List.mem_append_left _ hmem, fun u hu => ?_⟩
      rcases List.mem_append.mp hu with hu | hu
      · exact hle u hu
      · rw [List.mem_singleton.mp hu]
        omega

theorem climbsFromTop_concat {before : List Int} {last ts : Int} :
    ClimbsFromTop (before ++ [last] ++ [ts]) ↔
      ClimbsFromTop (before ++ [last]) ∧ (last < ts → ∀ u ∈ before, u ≤ last) := by
  constructor
  · intro h
    refine ⟨fun b l n hp => h b l n (hp.trans (List.prefix_append _ _)), fun hlt => ?_⟩
    exact h before last ts (by simp) hlt
  · intro h b l n hp hlt
    rcases List.prefix_concat_iff.mp hp with heq | hp
    · have hsplit : (b ++ [l]) ++ [n] = (before ++ [last]) ++ [ts] := by
        rw [← heq, List.append_assoc]
        rfl
      obtain ⟨hinit, hn⟩ := List.append_inj' hsplit rfl
      obtain ⟨rfl, hl⟩ := List.append_inj' hinit rfl
      cases hn
      cases hl
      exact h.2 hlt
    · exact h.1 b l n hp hlt

def ShowsLargest (clock : Clock) (tss : List Int) : Prop :=
  ∀ run, run ≠ [] → run <+: tss → IsLargest run (({} : TSTicker).tickAll clock run).2.now

/-- Every run but the whole one is a run of the shorter list. -/
theorem showsLargest_concat {clock : Clock} {tss : List Int} {ts : Int} :
    ShowsLargest clock (tss ++ [ts]) ↔ ShowsLargest clock tss ∧
      IsLargest (tss ++ [ts]) (({} : TSTicker).tickAll clock (tss ++ [ts])).2.now := by
  constructor
  · intro h
    exact ⟨fun run hne hp => h run hne (hp.trans (List.prefix_append _ _)),
      h _ (by simp) (List.prefix_refl _)⟩
  · intro h run hne hp
    rcases List.prefix_concat_iff.mp hp with rfl | hp
    · exact h.2
    · exact h.1 run hne hp

/-- The clock shows the largest timestamp after every tick of a run exactly when the
run climbs from its top only. -/
theorem tickAll_largest_iff {clock : Clock} {tss : List Int} (hzero : clock.now = 0)
    (hnonneg : ∀ ts ∈ tss, 0 ≤ ts) : ShowsLargest clock tss ↔ ClimbsFromTop tss := by
  induction tss using List.reverseRecOn with
  | nil =>
      constructor
      · intro _ b l n hp
        have := hp.length_le
        simp at this
      · intro _ run hne hp
        exact absurd (List.prefix_nil.mp hp) hne
  | append_singleton tss ts ih =>
      have hih := ih fun u hu => hnonneg u (List.mem_append_left _ hu)
      have hts : 0 ≤ ts := hnonneg ts (by simp)
      rw [showsLargest_concat, hih]
      cases htss : tss using List.reverseRecOn with
      | nil =>
          have hfirst : (({} : TSTicker).tickAll clock ([] ++ [ts])).2.now = ts := by
            show (clock.increment ts).now = ts
            rw [Clock.increment_of_nonneg hts]
            show clock.now + ts = ts
            omega
          rw [hfirst]
          constructor
          · intro _ b l n hp
            have := hp.length_le
            simp at this
          · intro _
            refine ⟨fun b l n hp => ?_, by simp [IsLargest]⟩
            have := hp.length_le
            simp at this
      | append_singleton before last =>
          rw [climbsFromTop_concat, tickAll_concat]
          rw [htss] at hih
          constructor
          · intro h
            have hlarge := hih.mpr h.1 _ (by simp) (List.prefix_refl _)
            exact ⟨h.1, (tick_largest_iff (tickAll_lastTs ..) hlarge).mp h.2⟩
          · intro h
            have hlarge := hih.mpr h.1 _ (by simp) (List.prefix_refl _)
            exact ⟨h.1, (tick_largest_iff (tickAll_lastTs ..) hlarge).mpr h.2⟩

/-- A run that goes up and then down. -/
theorem tickAll_largest_hill : ShowsLargest .init [10, 20, 5] :=
  (tickAll_largest_iff rfl (by decide)).mpr (by
    intro before last next hp hlt ts hts
    obtain ⟨after, hp⟩ := hp
    match before, hts with
    | [_], _ =>
        simp only [List.cons_append, List.nil_append, List.cons.injEq] at hp
        omega
    | _ :: _ :: _, _ =>
        have hlen := congrArg List.length hp
        simp at hlen
        omega)

/-- Re-ordered timestamps: the clock is at 20 when no timestamp was above 10. -/
theorem tickAll_reordered : ¬ShowsLargest .init [10, 0, 10] := by
  intro h
  exact absurd (h [10, 0, 10] (by simp) (List.prefix_refl _)) (by decide)

end TSTicker
end Time
end Metamix
