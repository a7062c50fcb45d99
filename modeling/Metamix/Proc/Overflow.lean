/-
Sums of timestamps that do not fit 64 bits.

Nothing in front of the injector keeps its timestamps apart from the ends of the range: a missing
timestamp is the least number there is, and the adjustment is whatever a request says.  `stamp`
makes the sums of `rescale_to_clock` and of `process` and stops at the first that does not fit.  It
gets through a run exactly if every timestamp of it keeps a distance from the first one, and
`stamps_fit_iff` says which, whatever function `av_rescale_q` is.
-/
import Metamix.Time.Range
import Metamix.Io.RemuxLoop
import Metamix.Proc.Extractor

namespace Metamix

open Lib

namespace Proc

open H264 Time Queue

/-! ## The timestamps of the injector -/

structure Incoming where
  pts : Int
  tsAdjustment : Int
deriving DecidableEq, Repr

namespace SeiInjector

section

variable (rescaleQ : Int → TimeBase → TimeBase → Int) (outtb : TimeBase)

def stamp : Machine Incoming Overflow (Int × Int) TSRescaler := fun pkt r => do
  let (rescaled, r) ← TSRescaler.rescaleToClockChecked rescaleQ outtb pkt.pts r
  let rescaledPts ← toTs (rescaled - pkt.tsAdjustment)
  let nextPts ← toTs (rescaledPts + 1)
  return ((rescaledPts, nextPts), r)

/-- There is room for the packet, its adjustment and a tick. -/
structure Room (tb : TimeBase) (base zero : Int) (pkt : Incoming) : Prop extends
    TSRescaler.Room rescaleQ outtb tb base zero pkt.pts where
  leastAdjusted : minTs - base + pkt.tsAdjustment ≤ rescaleQ (pkt.pts - zero) tb outtb
  greatestAdjusted :
    rescaleQ (pkt.pts - zero) tb outtb ≤ maxTs - base + pkt.tsAdjustment - 1

end

/-- The least timestamp of a packet whose stream counts as the clock does. -/
def lowest (base zero tsAdjustment : Int) : Int :=
  zero + minTs + max 0 (max (-base) (tsAdjustment - base))

def highest (base zero tsAdjustment : Int) : Int :=
  zero + maxTs + min 0 (min (-base) (tsAdjustment - base - 1))

variable {rescaleQ : Int → TimeBase → TimeBase → Int} {outtb tb : TimeBase} {r r' : TSRescaler}

theorem room_iff {base zero : Int} {pkt : Incoming} : Room rescaleQ outtb tb base zero pkt ↔
    TSRescaler.Room rescaleQ outtb tb base zero pkt.pts ∧
      minTs - base + pkt.tsAdjustment ≤ rescaleQ (pkt.pts - zero) tb outtb ∧
      rescaleQ (pkt.pts - zero) tb outtb ≤ maxTs - base + pkt.tsAdjustment - 1 :=
  ⟨fun h => ⟨h.toRoom, h.leastAdjusted, h.greatestAdjusted⟩, fun h => ⟨h.1, h.2.1, h.2.2⟩⟩

instance {base zero : Int} {pkt : Incoming} : Decidable (Room rescaleQ outtb tb base zero pkt) :=
  decidable_of_iff _ room_iff.symm

theorem stamp_of_room {pkt : Incoming} {zero : Int} (hzero : r.tsZero.getD pkt.pts = zero)
    (h : Room rescaleQ outtb r.localTimeBase r.base zero pkt) :
    ∃ o, stamp rescaleQ outtb pkt r = .ok (o, { r with tsZero := some zero }) := by
  have hleast := h.leastAdjusted
  have hgreatest := h.greatestAdjusted
  have hpts : Fits (r.base + rescaleQ (pkt.pts - zero) r.localTimeBase outtb -
      pkt.tsAdjustment) := by
    unfold Fits
    omega
  have hnext : Fits (r.base + rescaleQ (pkt.pts - zero) r.localTimeBase outtb -
      pkt.tsAdjustment + 1) := by
    unfold Fits
    omega
  unfold stamp
  rw [TSRescaler.rescaleToClockChecked_of_room hzero h.toRoom, Binary.ok_bind]
  show ∃ o, (toTs _ >>= fun rescaledPts => _) = _
  rw [toTs_of_fits hpts, Binary.ok_bind, toTs_of_fits hnext, Binary.ok_bind]
  exact ⟨_, rfl⟩

/-- A call whose sums all fit: the packet had room, and this is what came of it. -/
theorem stamp_eq_ok {pkt : Incoming} {rescaledPts nextPts : Int}
    (h : stamp rescaleQ outtb pkt r = .ok ((rescaledPts, nextPts), r')) :
    Room rescaleQ outtb r.localTimeBase r.base (r.tsZero.getD pkt.pts) pkt ∧
      ∃ rescaled, TSRescaler.rescaleToClockChecked rescaleQ outtb pkt.pts r = .ok (rescaled, r') ∧
        rescaledPts = rescaled - pkt.tsAdjustment ∧ nextPts = rescaledPts + 1 := by
  obtain ⟨⟨rescaled, r''⟩, hrescaled, h⟩ := Binary.of_bind_eq_ok h
  obtain ⟨pts, hadjusted, h⟩ := Binary.of_bind_eq_ok h
  obtain ⟨next, htick, h⟩ := Binary.of_bind_eq_ok h
  obtain ⟨hpts, rfl⟩ := toTs_eq_ok hadjusted
  obtain ⟨hnext, rfl⟩ := toTs_eq_ok htick
  cases h
  obtain ⟨hroom, hvalue, _⟩ := TSRescaler.rescaleToClockChecked_eq_ok hrescaled
  refine ⟨⟨hroom, ?_, ?_⟩, rescaled, hrescaled, rfl, rfl⟩
  all_goals
    unfold Fits at hpts hnext
    omega

/-- The call: no sum of it overflows exactly if the packet has room. -/
theorem stamp_room_iff {pkt : Incoming} {zero : Int} (hzero : r.tsZero.getD pkt.pts = zero) :
    (∃ o, stamp rescaleQ outtb pkt r = .ok (o, { r with tsZero := some zero })) ↔
      Room rescaleQ outtb r.localTimeBase r.base zero pkt := by
  constructor
  · intro h
    obtain ⟨o, ho⟩ := h
    exact hzero ▸ (stamp_eq_ok ho).1
  · exact stamp_of_room hzero

theorem stamp_settles {pkt : Incoming} {o : Int × Int}
    (h : stamp rescaleQ outtb pkt r = .ok (o, r')) :
    r' = { r with tsZero := some (r.tsZero.getD pkt.pts) } := by
  obtain ⟨_, _, hrescaled, _⟩ := stamp_eq_ok h
  exact (TSRescaler.rescaleToClockChecked_eq_ok hrescaled).2.2

theorem run_stamp_iff (rescaleQ : Int → TimeBase → TimeBase → Int) (clock : Clock)
    (tb : TimeBase) (first : Incoming) (rest : List Incoming) :
    (∃ r, Machine.run (stamp rescaleQ clock.timeBase) (first :: rest)
        (.clockRelative clock tb) = .ok r) ↔
      ∀ pkt ∈ first :: rest, Room rescaleQ clock.timeBase tb clock.now first.pts pkt := by
  rw [Machine.run_settled_iff (i := first) (s := .clockRelative clock tb)
      (t := ⟨tb, clock.now, some first.pts⟩) (fun _ _ h => stamp_settles h)
      (fun _ _ _ h => stamp_settles h),
    List.forall_mem_cons]
  exact and_congr (stamp_room_iff rfl) (forall₂_congr fun pkt _ => stamp_room_iff rfl)

theorem room_of_equal {base zero : Int} {pkt : Incoming} (hsame : ∀ a, rescaleQ a tb tb = a) :
    Room rescaleQ tb tb base zero pkt ↔
      lowest base zero pkt.tsAdjustment ≤ pkt.pts ∧
        pkt.pts ≤ highest base zero pkt.tsAdjustment := by
  unfold lowest highest
  constructor
  · intro h
    have hnear := h.near
    have hleast := h.least
    have hgreatest := h.greatest
    have hleast' := h.leastAdjusted
    have hgreatest' := h.greatestAdjusted
    rw [hsame] at hleast hgreatest hleast' hgreatest'
    omega
  · intro h
    refine ⟨⟨?_, ?_, ?_⟩, ?_, ?_⟩
    · omega
    all_goals
      rw [hsame]
      omega

/-- Which runs of timestamps and adjustments leave every sum of a rescaler, and every sum of the
injector, in 64 bits.  Where a stream counts as the clock does, both ends are bounds on the
timestamp alone. -/
theorem stamps_fit_iff (rescaleQ : Int → TimeBase → TimeBase → Int) (clock : Clock)
    (tb : TimeBase) (first : Incoming) (rest : List Incoming) :
    ((∃ r, Machine.run (TSRescaler.rescaleToClockChecked rescaleQ clock.timeBase)
        ((first :: rest).map Incoming.pts) (.clockRelative clock tb) = .ok r) ↔
      ∀ pkt ∈ first :: rest,
        TSRescaler.Room rescaleQ clock.timeBase tb clock.now first.pts pkt.pts) ∧
    ((∃ r, Machine.run (stamp rescaleQ clock.timeBase) (first :: rest)
        (.clockRelative clock tb) = .ok r) ↔
      ∀ pkt ∈ first :: rest, Room rescaleQ clock.timeBase tb clock.now first.pts pkt) ∧
    ((∀ a, rescaleQ a clock.timeBase clock.timeBase = a) →
      ((∃ r, Machine.run (stamp rescaleQ clock.timeBase) (first :: rest)
          (.clockRelative clock clock.timeBase) = .ok r) ↔
        ∀ pkt ∈ first :: rest, lowest clock.now first.pts pkt.tsAdjustment ≤ pkt.pts ∧
          pkt.pts ≤ highest clock.now first.pts pkt.tsAdjustment)) := by
  refine ⟨?_, run_stamp_iff .., fun hsame => ?_⟩
  · rw [← List.forall_mem_map]
    exact TSRescaler.rescales_fit_iff ..
  · rw [run_stamp_iff]
    exact forall₂_congr fun pkt _ => room_of_equal hsame

theorem stamps_fit_nearest : ∃ r, Machine.run (stamp AvRescale.nearest.rescaleQ
    Clock.init.timeBase) [⟨1, 0⟩, ⟨minTs + 1, 0⟩, ⟨maxTs, 0⟩]
    (.clockRelative Clock.init Clock.init.timeBase) = .ok r :=
  ((stamps_fit_iff AvRescale.nearest.rescaleQ Clock.init Clock.init.timeBase ⟨1, 0⟩
    [⟨minTs + 1, 0⟩, ⟨maxTs, 0⟩]).2.2 fun _ => AvRescale.nearest_same _).mpr (by decide)

/-! ## The processors of the model -/

section

variable {A : AvRescale}

def sums (A : AvRescale) (s : SeiInjector) (ctx : Context) (pts : Int) :
    Except Overflow ((Int × Int) × TSRescaler) :=
  stamp A.rescaleQ ctx.clock.timeBase ⟨pts, ctx.tsAdjustment⟩ s.ptsRescaler

/-- No sum of the packet leaves 64 bits. -/
def HasRoom (A : AvRescale) (s : SeiInjector) (ctx : Context) (pts : Int) : Prop :=
  Room A.rescaleQ ctx.clock.timeBase s.ptsRescaler.localTimeBase s.ptsRescaler.base
    (s.ptsRescaler.tsZero.getD pts) ⟨pts, ctx.tsAdjustment⟩

instance {s : SeiInjector} {ctx : Context} {pts : Int} : Decidable (s.HasRoom A ctx pts) :=
  inferInstanceAs (Decidable (Room ..))

theorem sums_ok_iff {s : SeiInjector} {ctx : Context} {pts : Int} :
    (∃ o, s.sums A ctx pts = .ok o) ↔ s.HasRoom A ctx pts := by
  constructor
  · intro h
    obtain ⟨o, ho⟩ := h
    exact (stamp_eq_ok ho).1
  · intro h
    obtain ⟨o, ho⟩ : ∃ o, s.sums A ctx pts = .ok (o, _) := stamp_of_room rfl h
    exact ⟨_, ho⟩

/-- The clock's timestamp of the packet, and the end of its window, are in range. -/
theorem HasRoom.fits {s : SeiInjector} {ctx : Context} {pts : Int} (h : s.HasRoom A ctx pts) :
    Fits (s.ptsRescaler.rescaleToClock A ctx.clock pts).1 ∧
      Fits ((s.adjustedPts A ctx pts).1 + 1) := by
  obtain ⟨hroom, hleast, hgreatest⟩ := room_iff.mp h
  refine ⟨(TSRescaler.room_iff.mp hroom).2, ?_⟩
  show Fits (s.ptsRescaler.base + A.rescaleQ (pts - s.ptsRescaler.tsZero.getD pts)
    s.ptsRescaler.localTimeBase ctx.clock.timeBase - ctx.tsAdjustment + 1)
  unfold Fits
  dsimp only at hleast hgreatest
  omega

end

/-! ## What the loop lets through -/

/-- A round with a packet of the one stream that has no decoding timestamp. -/
def undated (pts : Int) : Io.Round := .packet ⟨0, pts, Io.avNoptsValue⟩ (.ok false) .done

/-- Without decoding timestamps the loop lets any timestamps through. -/
theorem remuxLoop_undated (A : AvRescale) (inStream st : Io.AVStream) (tsNonstrict : Bool)
    (readTrial remuxTrial : Nat) (h : st.curDts = 0 ∨ st.curDts = Io.avNoptsValue)
    (pts : List Int) :
    ∃ s, Machine.run (Io.remuxLoop A ⟨[inStream]⟩) (pts.map undated)
      ⟨readTrial, remuxTrial, [st], tsNonstrict⟩ = .ok s := by
  induction pts generalizing st readTrial remuxTrial with
  | nil => exact ⟨_, rfl⟩
  | cons pts rest ih =>
      have hmono : ¬ Io.NonMono tsNonstrict st ⟨0, pts, Io.avNoptsValue⟩ := by
        rintro ⟨hzero, hnopts, _⟩
        exact h.elim hzero hnopts
      have hround : Io.remuxLoop A ⟨[inStream]⟩ (undated pts)
          ⟨readTrial, remuxTrial, [st], tsNonstrict⟩ =
          .ok ((), ⟨0, 0, [st.setCurDts Io.avNoptsValue], tsNonstrict⟩) := by
        have hst : Io.getStream [st] 0 = .ok st := rfl
        rw [undated, Io.remuxLoop, Io.remuxRound]
        simp only [hst, if_neg hmono]
        rw [if_neg fun h => h.1 rfl]
        rfl
      rw [List.map_cons, Machine.run_cons hround]
      exact ih (st.setCurDts Io.avNoptsValue) 0 0 (.inr rfl)

/-- A packet without a timestamp behind one that has one, and an adjustment at the end of the
range. -/
theorem not_stamps_fit :
    (∃ s, Machine.run (Io.remuxLoop .nearest ⟨[⟨Clock.defaultTimeBase, .video, 0⟩]⟩)
      ([1, Io.avNoptsValue].map undated)
      ⟨0, 0, [⟨Clock.defaultTimeBase, .video, 0⟩], false⟩ = .ok s) ∧
    Machine.run (stamp AvRescale.nearest.rescaleQ Clock.init.timeBase)
      [⟨1, 0⟩, ⟨Io.avNoptsValue, 0⟩] (.clockRelative Clock.init Clock.defaultTimeBase) =
        .error ⟨minTs - 1⟩ ∧
    Machine.run (stamp AvRescale.nearest.rescaleQ Clock.init.timeBase)
      [⟨0, minTs⟩] (.clockRelative Clock.init Clock.defaultTimeBase) = .error ⟨maxTs + 1⟩ :=
  ⟨remuxLoop_undated _ _ _ _ _ _ (.inl rfl) _, rfl, rfl⟩

end SeiInjector

/-! ## The ticker and the extractors -/

def ClockTicker.processChecked (A : AvRescale) (t : ClockTicker) (clock : Clock) (pts : Int) :
    Except Overflow (ClockTicker × Clock) := do
  let (rescaledPts, rescaler) ←
    TSRescaler.rescaleToClockChecked A.rescaleQ clock.timeBase pts t.ptsRescaler
  let (ticker, clock) ← t.ticker.tickChecked clock rescaledPts
  return (⟨ticker, rescaler⟩, clock)

/-- The timestamps of the entries of one packet, which has `n` of them. -/
def entryStamps (A : AvRescale) (clock : Clock) (pkt : AVPacket) :
    Nat → TSRescaler → TSRescaler → Except Overflow (List (Int × Int))
  | 0, _, _ => .ok []
  | n + 1, ptsRescaler, dtsRescaler => do
      let (rescaledPts, ptsRescaler) ←
        TSRescaler.rescaleToClockChecked A.rescaleQ clock.timeBase pkt.pts ptsRescaler
      let (rescaledDts, dtsRescaler) ←
        TSRescaler.rescaleToClockChecked A.rescaleQ clock.timeBase pkt.dts dtsRescaler
      let stamps ← entryStamps A clock pkt n ptsRescaler dtsRescaler
      return (rescaledPts, rescaledDts) :: stamps

variable {A : AvRescale} {clock : Clock} {pkt : AVPacket}

theorem ClockTicker.processChecked_eq_ok {t : ClockTicker} {pts : Int} {r : ClockTicker × Clock}
    (h : t.processChecked A clock pts = .ok r) :
    let rescaled := t.ptsRescaler.rescaleToClock A clock pts
    t.ptsRescaler.HasRoom A.rescaleQ clock.timeBase pts ∧
      r = (⟨(t.ticker.tick clock rescaled.1).1, rescaled.2⟩,
        (t.ticker.tick clock rescaled.1).2) := by
  obtain ⟨⟨rescaled, rescaler⟩, hrescaled, h⟩ := Binary.of_bind_eq_ok h
  obtain ⟨⟨ticker, clock'⟩, htick, h⟩ := Binary.of_bind_eq_ok h
  cases h
  refine ⟨(TSRescaler.rescaleToClockChecked_eq_ok hrescaled).1, ?_⟩
  rw [TSRescaler.rescaleToClockChecked_model hrescaled, ← TSTicker.tickChecked_eq_ok htick]

/-- Where nothing overflows the processor of the model moves the clock as the one of the code. -/
theorem ClockTicker.processChecked_model {t : ClockTicker} {r : ClockTicker × Clock}
    (h : t.processChecked A clock pkt.pts = .ok r) : t.process A clock pkt = r :=
  (processChecked_eq_ok h).2.symm

theorem ClockTicker.processChecked_timeBase {t t' : ClockTicker} {clock' : Clock} {pts : Int}
    (h : t.processChecked A clock pts = .ok (t', clock')) : clock'.timeBase = clock.timeBase := by
  obtain ⟨-, h⟩ := processChecked_eq_ok h
  cases h
  exact TSTicker.tick_timeBase ..

theorem ClockTicker.processChecked_first {tb outtb : TimeBase} {pts : Int} :
    processChecked A ⟨{}, ⟨tb, 0, none⟩⟩ ⟨0, outtb⟩ pts =
      .ok (⟨⟨some 0⟩, ⟨tb, 0, some pts⟩⟩, ⟨0, outtb⟩) := by
  have hzero : A.rescaleQ (pts - pts) tb outtb = 0 := by
    rw [Int.sub_self, A.rescaleQ_zero]
  have hroom : TSRescaler.Room A.rescaleQ outtb tb 0 pts pts := by
    rw [TSRescaler.room_iff, hzero, Int.sub_self]
    exact ⟨by decide, by decide⟩
  have hsum : Fits (0 + 0) := by decide
  have hticked : TSTicker.tickChecked {} ⟨0, outtb⟩ 0 = .ok (⟨some 0⟩, ⟨0, outtb⟩) :=
    TSTicker.tickChecked_first (Int.le_refl 0) hsum
  show (TSRescaler.rescaleToClockChecked A.rescaleQ outtb pts ⟨tb, 0, none⟩ >>= _) = _
  rw [TSRescaler.rescaleToClockChecked_of_room rfl hroom, Binary.ok_bind]
  show (TSTicker.tickChecked {} ⟨0, outtb⟩ (0 + A.rescaleQ (pts - pts) tb outtb) >>= _) = _
  rw [hzero, Int.zero_add, hticked, Binary.ok_bind]
  rfl

/-- A clock that shows the timestamp of the packet before goes on to show that of the next. -/
theorem ClockTicker.processChecked_next {tb outtb : TimeBase} {zero before pts : Int}
    (hroom : TSRescaler.Room A.rescaleQ outtb tb 0 zero pts) (hbefore : 0 ≤ before)
    (hle : before ≤ A.rescaleQ (pts - zero) tb outtb) :
    let rescaledPts := A.rescaleQ (pts - zero) tb outtb
    processChecked A ⟨⟨some before⟩, ⟨tb, 0, some zero⟩⟩ ⟨before, outtb⟩ pts =
      .ok (⟨⟨some rescaledPts⟩, ⟨tb, 0, some zero⟩⟩, ⟨rescaledPts, outtb⟩) := by
  intro rescaledPts
  have hgreatest : rescaledPts ≤ maxTs - 0 := hroom.greatest
  have hticked : TSTicker.tickChecked ⟨some before⟩ ⟨before, outtb⟩ rescaledPts =
      .ok (⟨some rescaledPts⟩, ⟨rescaledPts, outtb⟩) := by
    have hclock : before + (rescaledPts - before) = rescaledPts := by omega
    have hdelta : Fits (rescaledPts - before) := by
      unfold Fits minTs
      omega
    have hsum : Fits (before + (rescaledPts - before)) := by
      unfold Fits minTs
      omega
    rw [TSTicker.tickChecked_next hle hdelta hsum, hclock]
  show (TSRescaler.rescaleToClockChecked A.rescaleQ outtb pts ⟨tb, 0, some zero⟩ >>= _) = _
  rw [TSRescaler.rescaleToClockChecked_of_room rfl hroom, Binary.ok_bind]
  show (TSTicker.tickChecked ⟨some before⟩ ⟨before, outtb⟩ (0 + rescaledPts) >>= _) = _
  rw [Int.zero_add, hticked, Binary.ok_bind]
  rfl

/-- The entries of a packet can be stamped exactly if it has none, or room for both timestamps. -/
theorem entryStamps_ok_iff {n : Nat} {p d : TSRescaler} :
    (∃ stamps, entryStamps A clock pkt n p d = .ok stamps) ↔
      (0 < n → p.HasRoom A.rescaleQ clock.timeBase pkt.pts ∧
        d.HasRoom A.rescaleQ clock.timeBase pkt.dts) := by
  constructor
  · intro h hpos
    obtain ⟨stamps, h⟩ := h
    cases n with
    | zero => omega
    | succ n =>
        obtain ⟨_, hp, h⟩ := Binary.of_bind_eq_ok h
        obtain ⟨_, hd, -⟩ := Binary.of_bind_eq_ok h
        exact ⟨(TSRescaler.rescaleToClockChecked_eq_ok hp).1,
          (TSRescaler.rescaleToClockChecked_eq_ok hd).1⟩
  · intro h
    induction n generalizing p d with
    | zero => exact ⟨[], rfl⟩
    | succ n ih =>
        obtain ⟨hp, hd⟩ := h n.succ_pos
        obtain ⟨stamps, hrest⟩ := ih (p := { p with tsZero := some (p.tsZero.getD pkt.pts) })
          (d := { d with tsZero := some (d.tsZero.getD pkt.dts) }) fun _ => ⟨hp, hd⟩
        rw [entryStamps, TSRescaler.rescaleToClockChecked_of_room rfl hp, Binary.ok_bind]
        show ∃ s, (TSRescaler.rescaleToClockChecked _ _ _ _ >>= _) = .ok s
        rw [TSRescaler.rescaleToClockChecked_of_room rfl hd, Binary.ok_bind]
        show ∃ s, (entryStamps _ _ _ _ _ _ >>= _) = .ok s
        rw [hrest, Binary.ok_bind]
        exact ⟨_, rfl⟩

end Proc
end Metamix
