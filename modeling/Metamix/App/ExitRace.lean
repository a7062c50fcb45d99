/-
The reset of an input that is left, against the output.

`post_exit` reads the clock and pushes the reset one tick later on it.  The output may put frames
out in between.  As long as the output runs in one session, without an adjustment and with
timestamps that do not go back, the clock shows the timestamp of the last packet, and
`reset_fate` says exactly when the race is lost: if a frame that was put out since the clock was
read is past the reset.
-/
import Metamix.App.Fate

namespace Metamix
namespace App

open Lib Binary BinaryParser H264 Scte35 Time Queue Proc Control MetadataQueue

/-! ## What a log says of the output -/

def injectorAction : Action → Option InjectorAction
  | ⟨.injector, a⟩ => some a
  | _ => none

def framesOf (log : Log) : List Processed := log.filterMap fun entry => entry.2.record

def ticks (log : Log) : List Int :=
  log.filterMap fun entry =>
    match injectorAction entry.1 with
    | some (.tick pkt) => some pkt.pts
    | _ => none

def sessions (log : Log) : Nat :=
  log.countP fun entry =>
    match injectorAction entry.1 with
    | some (.open_ _ _) => true
    | _ => false

/-- One session of the output, without an adjustment and with timestamps that do not go back. -/
structure Regular (log : Log) : Prop where
  unadjusted : ∀ entry ∈ log, ∀ value, entry.2 = .adjusted value → value = 0
  oneSession : sessions log ≤ 1
  ordered : (ticks log).Pairwise (· ≤ ·)

theorem Regular.init {log log' : Log} (h : Regular (log ++ log')) : Regular log where
  unadjusted entry hentry := h.unadjusted entry (List.mem_append_left _ hentry)
  oneSession := by
    have := h.oneSession
    rw [sessions, List.countP_append] at this
    show List.countP _ log ≤ 1
    omega
  ordered := by
    have := h.ordered
    rw [ticks, List.filterMap_append] at this
    exact (List.pairwise_append.mp this).1

theorem framesOf_concat (log : Log) (a : Action) (o : Answer) :
    framesOf (log ++ [(a, o)]) = framesOf log ++ o.record.toList := by
  unfold framesOf
  rw [List.filterMap_append]
  cases o <;> rfl

section Rescale

variable (p : Setup)

def windowEnd (frames : List Processed) : Int :=
  match frames.getLast? with
  | none => minTs
  | some r => r.stamp p.rescale + 1

structure InStep (log : Log) (clock : Clock) (ticker : ClockTicker) : Prop where
  opened : 0 < sessions log
  base : ticker.ptsRescaler.base = 0
  last : (ticks log = [] ∧ clock.now = 0 ∧ ticker.ticker.lastTs = none ∧
      ticker.ptsRescaler.tsZero = none) ∨
    ∃ zero pts, (ticks log).getLast? = some pts ∧ ticker.ptsRescaler.tsZero = some zero ∧
      ticker.ticker.lastTs = some clock.now ∧
      clock.now = p.rescale.rescaleQ (pts - zero) ticker.ptsRescaler.localTimeBase clock.timeBase

def Ready (log : Log) (ticker : ClockTicker) (sei : SeiInjector) : Prop :=
  sei.ptsRescaler = ticker.ptsRescaler ∧ sei.prevPts = windowEnd p (framesOf log)

/-- The injector is about to place the packet that the clock has just shown. -/
def Placing (log : Log) (clock : Clock) (ticker : ClockTicker) (sei : SeiInjector)
    (pkt : AVPacket) : Prop :=
  InStep p log clock ticker ∧ sei.prevPts = windowEnd p (framesOf log) ∧
    sei.ptsRescaler.rescaleToClock p.rescale clock pkt.pts = (clock.now, ticker.ptsRescaler)

def Holds (log : Log) (clock : Clock) : InjectorState → Prop
  | .closed => sessions log = 0 → ticks log = [] ∧ framesOf log = [] ∧ clock.now = 0
  | .ready session => InStep p log clock session.ticker ∧
      ∀ sei ∈ session.sei, Ready p log session.ticker sei
  | .ticked ticker sei pkt => Placing p log clock ticker sei pkt
  | .adjusted ticker sei pkt tsAdjustment => Placing p log clock ticker sei pkt ∧ tsAdjustment = 0
  | .selected ticker sei pkt tsAdjustment _ =>
      Placing p log clock ticker sei pkt ∧ tsAdjustment = 0

def FramesFollow (log : Log) : Prop :=
  ∀ before a o after r, log = before ++ (a, o) :: after → o.record = some r →
    r.before.prevPts = windowEnd p (framesOf before)

def ClockRead (log : Log) (i : InputId) (reset : Metadata SeiPayload) : Prop :=
  ∃ before between, log = before ++ (⟨.extractor i, .now⟩, .silent) :: between ∧
    (∀ entry ∈ between, entry.1.1 ≠ .extractor i) ∧ reset.inputId = i.toNat ∧
    minTs ≤ reset.pts ∧ ∀ r ∈ framesOf before, r.stamp p.rescale < reset.pts

structure Paced (log : Log) (s : Shared) : Prop where
  tsAdjustment : s.tsAdjustment = 0
  now_nonneg : 0 ≤ s.clock.now
  passed : ∀ r ∈ framesOf log, r.stamp p.rescale ≤ s.clock.now
  sorted : (framesOf log).Pairwise fun a b => a.stamp p.rescale ≤ b.stamp p.rescale
  follow : FramesFollow p log

def Keeps : (t : ThreadId) → Log → StateOf t → Shared → Prop
  | .injector, log, k, s => Regular log → Holds p log s.clock k
  | .controller, _, _, _ => True
  | .extractor i, log, k, _ => Regular log → ∀ reset, k = .stamped reset → ClockRead p log i reset

end Rescale

variable {p : Setup}

/-! ## The clock -/

theorem ticks_concat_tick (log : Log) (pkt : AVPacket) (o : Answer) :
    ticks (log ++ [(⟨.injector, .tick pkt⟩, o)]) = ticks log ++ [pkt.pts] := by
  unfold ticks
  rw [List.filterMap_append]
  rfl

theorem sessions_le_concat (log : Log) (entry : Action × Answer) :
    sessions log ≤ sessions (log ++ [entry]) := by
  unfold sessions
  rw [List.countP_append]
  exact Nat.le_add_right _ _

theorem tick_first {t : TSTicker} {clock : Clock} (h : t.lastTs = none) :
    t.tick clock 0 = (⟨some 0⟩, clock) := by
  unfold TSTicker.tick
  rw [h]
  show (_, clock.increment 0) = _
  rw [Clock.increment_of_nonneg (Int.le_refl 0), Int.add_zero]

theorem tick_next {t : TSTicker} {clock : Clock} {ts : Int} (h : t.lastTs = some clock.now)
    (hle : clock.now ≤ ts) : t.tick clock ts = (⟨some ts⟩, ⟨ts, clock.myTimeBase⟩) := by
  unfold TSTicker.tick
  rw [h]
  show (_, clock.increment (ts - clock.now)) = _
  rw [Clock.increment_of_nonneg (Int.sub_nonneg.mpr hle)]
  show (_, (⟨clock.now + (ts - clock.now), clock.myTimeBase⟩ : Clock)) = _
  rw [Int.add_comm, Int.sub_add_cancel]

theorem process_of_rescaled {A : AvRescale} {t : ClockTicker} {clock : Clock} {pkt : AVPacket}
    {ts : Int} {rescaler : TSRescaler}
    (h : t.ptsRescaler.rescaleToClock A clock pkt.pts = (ts, rescaler)) :
    t.process A clock pkt =
      (⟨(t.ticker.tick clock ts).1, rescaler⟩, (t.ticker.tick clock ts).2) := by
  rw [ClockTicker.process, h]

/-- A timestamp that is not before the last one moves the clock to itself. -/
theorem InStep.tick {log : Log} {clock : Clock} {ticker : ClockTicker} {pkt : AVPacket} {o : Answer}
    (h : InStep p log clock ticker) (hordered : (ticks log ++ [pkt.pts]).Pairwise (· ≤ ·)) :
    InStep p (log ++ [(⟨.injector, .tick pkt⟩, o)]) (ticker.process p.rescale clock pkt).2
        (ticker.process p.rescale clock pkt).1 ∧
      ticker.ptsRescaler.rescaleToClock p.rescale (ticker.process p.rescale clock pkt).2 pkt.pts =
        ((ticker.process p.rescale clock pkt).2.now,
          (ticker.process p.rescale clock pkt).1.ptsRescaler) := by
  obtain ⟨hopened, hbase, hlast⟩ := h
  have hopened := Nat.lt_of_lt_of_le hopened (sessions_le_concat log (⟨.injector, .tick pkt⟩, o))
  rcases hlast with ⟨-, hnow, hlastTs, hzero⟩ | ⟨zero, pts, hpts, hzero, hlastTs, hnow⟩
  · have hfresh (clock : Clock) : ticker.ptsRescaler.rescaleToClock p.rescale clock pkt.pts =
        (0, { ticker.ptsRescaler with tsZero := some pkt.pts }) :=
      (TSRescaler.rescaleToClock_fresh hzero).trans (Prod.ext hbase rfl)
    rw [process_of_rescaled (hfresh clock), tick_first hlastTs, hfresh, hnow]
    refine ⟨⟨hopened, hbase, .inr ⟨pkt.pts, pkt.pts, ?_, rfl, ?_, ?_⟩⟩, rfl⟩
    · rw [ticks_concat_tick, List.getLast?_concat]
    · rw [hnow]
    · rw [hnow, Int.sub_self, p.rescale.rescaleQ_zero]
  · have hle : pts ≤ pkt.pts :=
      (List.pairwise_append.mp hordered).2.2 pts (List.mem_of_getLast? hpts) _ List.mem_cons_self
    let now := p.rescale.rescaleQ (pkt.pts - zero) ticker.ptsRescaler.localTimeBase clock.timeBase
    have hmono : clock.now ≤ now := by
      rw [hnow]
      exact p.rescale.rescaleQ_mono _ _ _ _ (Int.sub_le_sub_right hle zero)
    have hset (clock' : Clock) (htimeBase : clock'.timeBase = clock.timeBase) :
        ticker.ptsRescaler.rescaleToClock p.rescale clock' pkt.pts = (now, ticker.ptsRescaler) := by
      rw [TSRescaler.rescaleToClock_set hzero, hbase, Int.zero_add, htimeBase]
    rw [process_of_rescaled (hset clock rfl), tick_next hlastTs hmono]
    refine ⟨⟨hopened, hbase, .inr ⟨zero, pkt.pts, ?_, hzero, rfl, rfl⟩⟩,
      hset ⟨now, clock.myTimeBase⟩ rfl⟩
    rw [ticks_concat_tick, List.getLast?_concat]

/-! ## Logs that grow -/

theorem ticks_concat {log : Log} {a : Action} {o : Answer}
    (ha : ∀ pkt, injectorAction a ≠ some (.tick pkt)) : ticks (log ++ [(a, o)]) = ticks log := by
  unfold ticks
  rw [List.filterMap_append, List.append_right_eq_self, List.filterMap_cons_none,
    List.filterMap_nil]
  split
  · next pkt hpkt => exact absurd hpkt (ha pkt)
  · rfl

theorem InStep.concat {log : Log} {clock : Clock} {ticker : ClockTicker}
    (h : InStep p log clock ticker) {a : Action} {o : Answer}
    (ha : ∀ pkt, injectorAction a ≠ some (.tick pkt)) :
      InStep p (log ++ [(a, o)]) clock ticker where
  opened := Nat.lt_of_lt_of_le h.opened (sessions_le_concat log (a, o))
  base := h.base
  last := by
    rw [ticks_concat ha]
    exact h.last

theorem framesOf_silent {log : Log} {a : Action} {o : Answer} (ho : o.record = none) :
    framesOf (log ++ [(a, o)]) = framesOf log := by
  rw [framesOf_concat, ho]
  exact List.append_nil _

theorem FramesFollow.concat {log : Log} {a : Action} {o : Answer} (h : FramesFollow p log)
    (ho : ∀ r, o.record = some r → r.before.prevPts = windowEnd p (framesOf log)) :
    FramesFollow p (log ++ [(a, o)]) := by
  intro before b o' after r hsplit hr
  rcases List.eq_nil_or_concat after with rfl | ⟨after, last, rfl⟩
  · obtain ⟨rfl, hlast⟩ := List.append_inj' hsplit rfl
    cases hlast
    exact ho r hr
  · rw [List.concat_eq_append, ← List.cons_append, ← List.append_assoc] at hsplit
    obtain ⟨rfl, -⟩ := List.append_inj' hsplit rfl
    exact h before b o' after r rfl hr

/-- An action that shows no frame, leaves the clock no earlier and the adjustment at zero. -/
theorem Paced.concat {log : Log} {s s' : Shared} {a : Action} {o : Answer} (h : Paced p log s)
    (ho : o.record = none) (hts : s'.tsAdjustment = 0) (hclock : s.clock.now ≤ s'.clock.now) :
    Paced p (log ++ [(a, o)]) s' where
  tsAdjustment := hts
  now_nonneg := Int.le_trans h.now_nonneg hclock
  passed := by
    rw [framesOf_silent ho]
    exact fun r hr => Int.le_trans (h.passed r hr) hclock
  sorted := by
    rw [framesOf_silent ho]
    exact h.sorted
  follow := h.follow.concat fun r hr => by
    rw [ho] at hr
    cases hr

/-- A frame whose timestamp the clock shows, with the window that begins where the last one
ended. -/
theorem Paced.frame {log : Log} {s s' : Shared} {a : Action} {o : Answer} {r : Processed}
    (h : Paced p log s) (ho : o.record = some r) (hs : s'.tsAdjustment = s.tsAdjustment ∧
      s'.clock = s.clock) (hstamp : r.stamp p.rescale = s.clock.now)
    (hprev : r.before.prevPts = windowEnd p (framesOf log)) : Paced p (log ++ [(a, o)]) s' := by
  have hframes : framesOf (log ++ [(a, o)]) = framesOf log ++ [r] := by
    rw [framesOf_concat, ho]
    rfl
  refine ⟨hs.1.trans h.tsAdjustment, ?_, ?_, ?_, h.follow.concat fun r' hr' => ?_⟩
  · rw [hs.2]
    exact h.now_nonneg
  · rw [hframes, hs.2]
    exact List.forall_mem_append.mpr ⟨h.passed, List.forall_mem_singleton.mpr (Int.le_of_eq hstamp)⟩
  · rw [hframes]
    refine List.pairwise_append.mpr ⟨h.sorted, List.pairwise_singleton _ _, fun b hb c hc => ?_⟩
    rw [List.mem_singleton.mp hc, hstamp]
    exact h.passed b hb
  · rw [ho] at hr'
    cases hr'
    exact hprev

theorem Placing.concat {log : Log} {clock : Clock} {ticker : ClockTicker} {sei : SeiInjector}
    {pkt : AVPacket} (h : Placing p log clock ticker sei pkt) {a : Action} {o : Answer}
    (ha : ∀ pkt, injectorAction a ≠ some (.tick pkt)) (ho : o.record = none) :
    Placing p (log ++ [(a, o)]) clock ticker sei pkt := by
  refine ⟨h.1.concat ha, ?_, h.2.2⟩
  rw [framesOf_silent ho]
  exact h.2.1

/-- What another thread does leaves the output thread what it has in hand. -/
theorem Holds.concat {log : Log} {clock : Clock} {k : InjectorState} (h : Holds p log clock k)
    {a : Action} {o : Answer} (ha : injectorAction a = none) (ho : o.record = none) :
    Holds p (log ++ [(a, o)]) clock k := by
  have htick : ∀ pkt, injectorAction a ≠ some (.tick pkt) := fun pkt h => by
    rw [ha] at h
    cases h
  cases k with
  | closed =>
      intro hnone
      have hle := sessions_le_concat log (a, o)
      rw [ticks_concat htick, framesOf_silent ho]
      exact h (by omega)
  | ready session =>
      refine ⟨h.1.concat htick, fun sei hsei => ⟨(h.2 sei hsei).1, ?_⟩⟩
      rw [framesOf_silent ho]
      exact (h.2 sei hsei).2
  | ticked ticker sei pkt => exact Placing.concat h htick ho
  | adjusted ticker sei pkt tsAdjustment => exact ⟨Placing.concat h.1 htick ho, h.2⟩
  | selected ticker sei pkt tsAdjustment input => exact ⟨Placing.concat h.1 htick ho, h.2⟩

/-! ## The step -/

theorem openOutput_holds {log : Log} {clock : Clock} {streamTimeBase : TimeBase} {sei : Bool}
    {o : Answer} (hk : Holds p log clock .closed) (ho : o.record = none)
    (hreg : Regular (log ++ [(⟨.injector, .open_ streamTimeBase sei⟩, o)])) :
    Holds p (log ++ [(⟨.injector, .open_ streamTimeBase sei⟩, o)]) clock
      (.ready ⟨.create streamTimeBase clock,
        if sei then some (.create streamTimeBase clock) else none⟩) := by
  have hcount : sessions (log ++ [(⟨.injector, .open_ streamTimeBase sei⟩, o)]) =
      sessions log + 1 := List.countP_append
  have hone := hreg.oneSession
  obtain ⟨hticks, hframes, hnow⟩ := hk (by omega)
  have hsame : ticks (log ++ [(⟨.injector, .open_ streamTimeBase sei⟩, o)]) = [] := by
    rw [ticks_concat fun pkt h => by cases h]
    exact hticks
  refine ⟨⟨by omega, hnow, .inl ⟨hsame, hnow, rfl, rfl⟩⟩, fun s hs => ?_⟩
  cases sei with
  | false => cases hs
  | true =>
      cases hs
      refine ⟨rfl, ?_⟩
      rw [framesOf_silent ho, hframes]
      rfl

theorem Placing.query {log : Log} {s : Shared} {ticker : ClockTicker} {sei sei' : SeiInjector}
    {pkt : AVPacket} {input : Input} {found : Found} {rest : MetadataQueue SeiPayload} {o : Answer}
    (h : Placing p log s.clock ticker sei pkt)
    (htake : sei.take p.rescale (p.heap SeiPayload) ⟨s.clock, 0, input⟩ pkt s.metaQueue.sei =
      .ok (found, sei', rest))
    (ho : Queried sei s.metaQueue.sei ⟨s.clock, 0, input⟩ pkt found sei' rest o) :
    ∃ r, o.record = some r ∧ r.before = sei ∧ r.stamp p.rescale = s.clock.now ∧
      Holds p (log ++ [(⟨.injector, .query⟩, o)]) s.clock (.ready ⟨ticker, some sei'⟩) := by
  obtain ⟨hstep, hprev, hrescale⟩ := h
  have hadjusted : sei.adjustedPts p.rescale ⟨s.clock, 0, input⟩ pkt.pts =
      (s.clock.now, ticker.ptsRescaler) := by
    show ((sei.ptsRescaler.rescaleToClock p.rescale s.clock pkt.pts).1 - 0,
      (sei.ptsRescaler.rescaleToClock p.rescale s.clock pkt.pts).2) = _
    rw [hrescale, Int.sub_zero]
  obtain ⟨r, hr, hbefore, hctx, hpkt⟩ : ∃ r, o.record = some r ∧ r.before = sei ∧
      r.ctx = ⟨s.clock, 0, input⟩ ∧ r.pkt = pkt := by
    cases ho <;> exact ⟨_, rfl, rfl, rfl, rfl⟩
  have hstamp : r.stamp p.rescale = s.clock.now := by
    rw [Processed.stamp, hbefore, hctx, hpkt, hadjusted]
  obtain ⟨result, -, -, hsei⟩ := SeiInjector.take_eq_ok htake
  have hframes : framesOf (log ++ [(⟨.injector, .query⟩, o)]) = framesOf log ++ [r] := by
    rw [framesOf_concat, hr]
    rfl
  refine ⟨r, hr, hbefore, hstamp, ?_⟩
  refine ⟨hstep.concat fun pkt h => by (cases h), fun sei₁ hsei₁ => ?_⟩
  cases hsei₁
  rw [hsei]
  refine ⟨congrArg Prod.snd hadjusted, ?_⟩
  show (sei.adjustedPts p.rescale ⟨s.clock, 0, input⟩ pkt.pts).1 + 1 = _
  unfold windowEnd
  rw [hframes, List.getLast?_concat, hadjusted]
  show s.clock.now + 1 = r.stamp p.rescale + 1
  rw [hstamp]

theorem injector_paced {log : Log} {a : InjectorAction} {k k' : InjectorState} {s s' : Shared}
    {o : Answer} (hs : Paced p log s) (hk : Holds p log s.clock k)
    (hreg : Regular (log ++ [(⟨.injector, a⟩, o)]))
    (hstep : injector p a k s = .ok (o, k', s')) :
    Paced p (log ++ [(⟨.injector, a⟩, o)]) s' ∧
      Holds p (log ++ [(⟨.injector, a⟩, o)]) s'.clock k' := by
  unfold injector at hstep
  split at hstep
  · cases hstep
    exact ⟨hs.concat rfl hs.tsAdjustment (Int.le_refl _), openOutput_holds hk rfl hreg⟩
  · next pkt session _ =>
      have hordered := hreg.ordered
      rw [ticks_concat_tick] at hordered
      obtain ⟨hready, hseis⟩ := hk
      simp only at hstep
      split at hstep
      · cases hstep
        obtain ⟨hnext, -⟩ := hready.tick hordered
        refine ⟨hs.concat rfl hs.tsAdjustment (now_le_process _ _ _), hnext, fun sei hsei => ?_⟩
        cases hsei
      · next sei hsei =>
          cases hstep
          obtain ⟨hnext, hrescale⟩ := hready.tick hordered
          obtain ⟨hsame, hprev⟩ := hseis sei hsei
          refine ⟨hs.concat rfl hs.tsAdjustment (now_le_process _ _ _), hnext, ?_, ?_⟩
          · rw [framesOf_silent rfl]
            exact hprev
          · rw [hsame]
            exact hrescale
  · cases hstep
    exact ⟨hs.concat rfl hs.tsAdjustment (Int.le_refl _),
      Placing.concat hk (fun pkt h => by cases h) rfl, hs.tsAdjustment⟩
  · split at hstep
    · cases hstep
    · cases hstep
      exact ⟨hs.concat rfl hs.tsAdjustment (Int.le_refl _),
        Placing.concat hk.1 (fun pkt h => by cases h) rfl, hk.2⟩
  · obtain ⟨hplacing, rfl⟩ := hk
    unfold query at hstep
    split at hstep
    · cases hstep
    · next found sei' rest htake =>
        simp only at hstep
        split at hstep
        · next data hrewrite =>
            cases hstep
            obtain ⟨r, hr, hbefore, hstamp, hready⟩ := hplacing.query htake (.frame data hrewrite)
            exact ⟨hs.frame hr ⟨rfl, rfl⟩ hstamp (hbefore ▸ hplacing.2.1), hready⟩
        · split at hstep <;> cases hstep
          obtain ⟨r, hr, hbefore, hstamp, hready⟩ := hplacing.query htake .failed
          refine ⟨hs.frame hr ⟨rfl, rfl⟩ hstamp (hbefore ▸ hplacing.2.1), fun hnone => ?_⟩
          have := hready.1.opened
          omega
  · next session _ =>
      cases hstep
      refine ⟨hs.concat rfl hs.tsAdjustment (Int.le_refl _), fun hnone => ?_⟩
      have hle := sessions_le_concat log (⟨.injector, .close⟩, .silent)
      have := hk.1.opened
      omega
  · cases hstep

theorem clock_of_ne {t : ThreadId} {a : ActionOf t} {k k' : StateOf t} {s s' : Shared} {o : Answer}
    (ht : t ≠ .injector) (hstep : threads p t a k s = .ok (o, k', s')) :
    s'.clock = s.clock ∧ o.record = none ∧ injectorAction ⟨t, a⟩ = none := by
  cases t with
  | injector => exact absurd rfl ht
  | controller =>
      change controller p a k s = _ at hstep
      unfold controller at hstep
      split at hstep <;> try split at hstep
      all_goals cases hstep
      all_goals exact ⟨rfl, rfl, rfl⟩
  | extractor i =>
      change extractor p i a k s = _ at hstep
      unfold extractor at hstep
      split at hstep <;> try split at hstep
      all_goals cases hstep
      all_goals exact ⟨rfl, rfl, rfl⟩

theorem ClockRead.other {log : Log} {i : InputId} {reset : Metadata SeiPayload}
    (h : ClockRead p log i reset) {entry : Action × Answer} (hentry : entry.1.1 ≠ .extractor i) :
    ClockRead p (log ++ [entry]) i reset := by
  obtain ⟨before, between, rfl, hidle, hid, hmin, hall⟩ := h
  refine ⟨before, between ++ [entry], by rw [List.append_assoc]; rfl, ?_, hid, hmin, hall⟩
  exact List.forall_mem_append.mpr ⟨hidle, List.forall_mem_singleton.mpr hentry⟩

/-- An input's thread reads the clock for its reset and nothing else in between. -/
theorem extractor_clockRead {log : Log} {i : InputId} {a : ExtractorAction}
    {k k' : ExtractorState} {s s' : Shared} {o : Answer} (hs : Paced p log s)
    (hstep : extractor p i a k s = .ok (o, k', s')) :
    ∀ reset, k' = .stamped reset → ClockRead p (log ++ [(⟨.extractor i, a⟩, o)]) i reset := by
  unfold extractor at hstep
  split at hstep <;> try split at hstep
  all_goals cases hstep
  all_goals intro reset hreset
  all_goals try cases hreset
  · next hfinish =>
      unfold finish at hfinish
      split at hfinish <;> try split at hfinish
      all_goals cases hfinish
  · refine ⟨log, [], rfl, List.forall_mem_nil _, rfl, ?_, fun r hr => ?_⟩
    · have := hs.now_nonneg
      show minTs ≤ s.clock.now + 1
      unfold minTs
      omega
    · have := hs.passed r hr
      show _ < s.clock.now + 1
      omega

theorem controller_tsAdjustment {a : ControllerAction} {k k' : ControllerState} {s s' : Shared}
    {o : Answer} (hstep : controller p a k s = .ok (o, k', s'))
    (ho : ∀ value, o = .adjusted value → value = 0) (hs : s.tsAdjustment = 0) :
    s'.tsAdjustment = 0 := by
  unfold controller at hstep
  split at hstep <;> try split at hstep
  all_goals cases hstep
  all_goals first | exact hs | exact ho _ rfl

theorem extractor_tsAdjustment {i : InputId} {a : ExtractorAction} {k k' : ExtractorState}
    {s s' : Shared} {o : Answer} (hstep : extractor p i a k s = .ok (o, k', s')) :
    s'.tsAdjustment = s.tsAdjustment := by
  unfold extractor at hstep
  split at hstep <;> try split at hstep
  all_goals cases hstep
  all_goals rfl

/-! ## The run -/

theorem paced_run {acts : List Action} {before log : Log} {s s' : State}
    (hs : Regular before → Paced p before s.shared)
    (hk : ∀ t, Keeps p t before (s.own t) s.shared)
    (hlog : (application p).log acts s = .ok (log, s')) :
    (Regular (before ++ log) → Paced p (before ++ log) s'.shared) ∧
      ∀ t, Keeps p t (before ++ log) (s'.own t) s'.shared := by
  refine Threads.history (J := fun log s => Regular log → Paced p log s) (P := Keeps p) ?_ ?_ hs hk
    hlog
  · intro t a log k s o k' s' hs hk hstep
    cases t with
    | injector =>
        have hboth := fun hreg : Regular (log ++ [(⟨.injector, a⟩, o)]) =>
          injector_paced (hs hreg.init) (hk hreg.init) hreg hstep
        exact ⟨fun hreg => (hboth hreg).1, fun hreg => (hboth hreg).2⟩
    | controller =>
        obtain ⟨hclock, ho, -⟩ := clock_of_ne (fun h => by cases h) hstep
        refine ⟨fun hreg => (hs hreg.init).concat ho ?_ (by rw [hclock]), trivial⟩
        refine controller_tsAdjustment hstep (fun value hvalue => ?_) (hs hreg.init).tsAdjustment
        exact hreg.unadjusted _ (List.mem_append_right _ List.mem_cons_self) value hvalue
    | extractor i =>
        obtain ⟨hclock, ho, -⟩ := clock_of_ne (fun h => by cases h) hstep
        refine ⟨fun hreg => (hs hreg.init).concat ho ?_ (by rw [hclock]), fun hreg => ?_⟩
        · rw [extractor_tsAdjustment hstep]
          exact (hs hreg.init).tsAdjustment
        · exact extractor_clockRead (hs hreg.init) hstep
  · intro t j a log k s o kj kj' s' hne hs hk hkj hstep
    cases t with
    | controller => trivial
    | injector =>
        obtain ⟨hclock, ho, hquiet⟩ := clock_of_ne (Ne.symm hne) hstep
        intro hreg
        rw [hclock]
        exact Holds.concat (hk hreg.init) hquiet ho
    | extractor i =>
        intro hreg reset hreset
        exact (hk hreg.init reset hreset).other (Ne.symm hne)

theorem paced_start (p : Setup) (current : CurrentInputsIds) {acts : List Action} {log : Log}
    {s : State} (hlog : (application p).log acts (.start 0 current) = .ok (log, s)) :
    (Regular log → Paced p log s.shared) ∧ ∀ t, Keeps p t log (s.own t) s.shared := by
  have hstart : Paced p [] (Shared.start 0 current) := by
    refine ⟨rfl, Int.le_refl 0, List.forall_mem_nil _, List.Pairwise.nil, ?_⟩
    intro before a o after r hsplit
    simp at hsplit
  refine paced_run (fun _ => hstart) (fun t => ?_) hlog
  cases t with
  | injector => exact fun _ _ => ⟨rfl, rfl, rfl⟩
  | controller => trivial
  | extractor i => exact fun _ reset hreset => by cases hreset

theorem windowEnd_le_iff {frames : List Processed} {pts : Int} (hmin : minTs ≤ pts)
    (hsorted : frames.Pairwise fun a b => a.stamp p.rescale ≤ b.stamp p.rescale) :
    windowEnd p frames ≤ pts ↔ ∀ r ∈ frames, r.stamp p.rescale < pts := by
  unfold windowEnd
  rcases List.eq_nil_or_concat frames with rfl | ⟨frames, last, rfl⟩
  · exact iff_of_true hmin (List.forall_mem_nil _)
  · rw [List.concat_eq_append] at hsorted ⊢
    rw [List.getLast?_concat]
    show last.stamp p.rescale + 1 ≤ pts ↔ _
    constructor
    · intro h r hr
      rcases List.mem_append.mp hr with hr | hr
      · have := (List.pairwise_append.mp hsorted).2.2 r hr last List.mem_cons_self
        omega
      · rw [List.mem_singleton.mp hr]
        omega
    · intro h
      have := h last (List.mem_append_right _ List.mem_cons_self)
      omega

theorem framesOf_append (log log' : Log) : framesOf (log ++ log') = framesOf log ++ framesOf log' :=
  List.filterMap_append ..

/-- An input's thread pushes its reset after it has read the clock. -/
theorem stamped_of_pushReset {i : InputId} {s s' : State} {reset : Metadata SeiPayload}
    (hpush : application p ⟨.extractor i, .pushReset⟩ s = .ok (.pushed (.sei reset), s')) :
    s.own (.extractor i) = ExtractorState.stamped reset := by
  obtain ⟨k, hstep, -⟩ := Threads.interleave_eq_ok hpush
  change extractor p i .pushReset (s.own (.extractor i)) s.shared = _ at hstep
  generalize s.own (.extractor i) = state at hstep
  obtain ⟨own, shared⟩ := s'
  cases state <;> cases hstep
  rfl

/-- In every interleaving of a regular run whose sums fit 64 bits and whose drops keep the heap, the
reset that an input pushes when it is left waits in the queue until the input is left again or a
frame of a user-defined input is past the time at which the clock was read.  That frame takes it
exactly if it is of the input, and no frame that was put out since the clock was read is past that
time. -/
theorem reset_fate {p : Setup} {current : CurrentInputsIds} {i : InputId}
    {acts₁ acts₂ : List Action} {log₁ log₂ : Log} {s₁ s₂ s₃ : State} {reset : Metadata SeiPayload}
    (hlog₁ : (checkedApplication p).log acts₁ (.start 0 current) = .ok (log₁, s₁))
    (hpush : checkedApplication p ⟨.extractor i, .pushReset⟩ s₁ = .ok (.pushed (.sei reset), s₂))
    (hlog₂ : (checkedApplication p).log acts₂ s₂ = .ok (log₂, s₃))
    (hdrops₁ : (application p).Calls DropKeeps acts₁ (.start 0 current))
    (hdrops₂ : (application p).Calls DropKeeps acts₂ s₂)
    (hreg : Regular (log₁ ++ (⟨.extractor i, .pushReset⟩, .pushed (.sei reset)) :: log₂)) :
    ∃ before between, log₁ = before ++ (⟨.extractor i, .now⟩, .silent) :: between ∧
      (∀ entry ∈ between, entry.1.1 ≠ .extractor i) ∧
      (((∀ x ∈ log₂, ¬Decides p reset x.2) ∧ reset ∈ s₃.shared.metaQueue.sei) ∨
        ∃ since a o after, log₂ = since ++ (a, o) :: after ∧
          (∀ x ∈ since, ¬Decides p reset x.2) ∧ Decides p reset o ∧
          ∀ r, o.record = some r → (reset ∈ takenOut r ↔
            r.ctx.currentInput = .userDefined i.toNat ∧
              ∀ r' ∈ framesOf (between ++ since), r'.stamp p.rescale < reset.pts)) := by
  replace hlog₁ := Machine.log_of_guarded hlog₁
  replace hpush := Machine.of_guarded hpush
  replace hlog₂ := Machine.log_of_guarded hlog₂
  obtain ⟨hpaced, hkeeps⟩ := paced_start p current hlog₁
  obtain ⟨before, between, rfl, hidle, hid, hmin, hread⟩ :=
    hkeeps (.extractor i) hreg.init reset (stamped_of_pushReset hpush)
  refine ⟨before, between, rfl, hidle, ?_⟩
  obtain ⟨hheap, hmem⟩ := mem_of_pushed hpush (isHeap_run (isHeap_nil comparator) hdrops₁ hlog₁)
  rcases decided_of_mem hheap hmem hdrops₂ hlog₂ with hwaits |
    ⟨since, a, o, after, _, _, rfl, hsince, hdecides, -, -, -, htaken⟩
  · exact .inl hwaits
  refine .inr ⟨since, a, o, after, rfl, hsince, hdecides, fun r hr => ?_⟩
  rw [htaken r hr, Catches, hid]
  refine and_congr_right fun _ => ?_
  let entry : Action × Answer := (⟨.extractor i, .pushReset⟩, .pushed (.sei reset))
  have hwhole : (application p).log (⟨.extractor i, .pushReset⟩ :: acts₂) s₁ =
      .ok (entry :: (since ++ (a, o) :: after), s₃) := by
    simp only [Machine.log, hpush, hlog₂]
    rfl
  have hend := (paced_run hpaced hkeeps hwhole).1 hreg
  let log := before ++ (⟨.extractor i, .now⟩, .silent) :: between ++ entry :: since
  have hsplit : before ++ (⟨.extractor i, .now⟩, .silent) :: between ++
      entry :: (since ++ (a, o) :: after) = log ++ (a, o) :: after := by
    simp [log]
  have hframes : framesOf log = framesOf before ++ framesOf (between ++ since) := by
    simp only [log, framesOf_append, List.append_assoc]
    rfl
  rw [hsplit] at hend
  have hsorted := hend.sorted
  rw [framesOf_append] at hsorted
  rw [hend.follow log a o after r rfl hr,
    windowEnd_le_iff hmin (List.pairwise_append.mp hsorted).1, hframes]
  constructor
  · intro h r' hr'
    exact h r' (List.mem_append_right _ hr')
  · intro h r' hr'
    rcases List.mem_append.mp hr' with hr' | hr'
    · exact hread r' hr'
    · exact h r' hr'

theorem twoFrames_regular : ∃ log₁ s₁ reset s₂ log₂ s₃,
    (checkedApplication camera).log (emptySession.take 5) (.start 0 .initial) = .ok (log₁, s₁) ∧
    checkedApplication camera ⟨.extractor 1, .pushReset⟩ s₁ = .ok (.pushed (.sei reset), s₂) ∧
    (checkedApplication camera).log twoFrames s₂ = .ok (log₂, s₃) ∧
    (application camera).Calls DropKeeps twoFrames s₂ ∧
    Regular (log₁ ++ (⟨.extractor 1, .pushReset⟩, .pushed (.sei reset)) :: log₂) := by
  refine ⟨_, _, _, _, _, _, rfl, rfl, rfl, ?_, ?_, Nat.le_refl 1, ?_⟩
  · repeat' refine .cons rfl (fun id count s' h => by (cases h)) ?_
    trivial
  · repeat' refine List.forall_mem_cons.mpr ⟨fun value ho => by (cases ho), ?_⟩
    exact List.forall_mem_nil _
  · show [5, 9].Pairwise (· ≤ ·)
    decide

/-- A frame of the camera takes its reset, as long as no other was past it. -/
theorem reset_fate_camera : ∃ reset s₂ log s,
    (checkedApplication camera).log twoFrames s₂ = .ok (log, s) ∧
    (reset ∈ s.shared.metaQueue.sei ∨ ∃ x ∈ log, ∃ frames : List Processed,
      ∀ r, x.2.record = some r → (reset ∈ takenOut r ↔ r.ctx.currentInput = .userDefined 1 ∧
        ∀ r' ∈ frames, r'.stamp camera.rescale < reset.pts)) := by
  obtain ⟨log₁, s₁, reset, s₂, log, s, hlog₁, hpush, hlog₂, hdrops, hreg⟩ := twoFrames_regular
  refine ⟨reset, s₂, log, s, hlog₂, ?_⟩
  obtain ⟨-, between, -, -, h⟩ :=
    reset_fate hlog₁ hpush hlog₂ emptySession_drops hdrops hreg
  rcases h with ⟨-, h⟩ | ⟨since, b, o, after, rfl, -, -, h⟩
  · exact .inl h
  · exact .inr ⟨(b, o), List.mem_append_right _ List.mem_cons_self, framesOf (between ++ since), h⟩

end App
end Metamix
