/-
Captions from one input to the output, frame by frame.

The same stream goes through an extractor and, frame by frame behind it, through the injector.
Nothing stays in the queue between two frames, so a frame gets its own caption if the two
rescalers agree on its timestamp and the last window has not passed it.  The injector's
rescaler has its zero point at the first frame and the extractor's at the first caption:
`placed_iff` says that the captions are in place exactly when these are one frame, no caption
falls on the clock tick of the frame before it, and there is room for every timestamp.
-/
import Metamix.Proc.Overflow
import Metamix.Queue.Isolation

namespace Metamix
namespace Proc

open Lib Binary H264 Time Queue MetadataQueue

/-- A packet of the stream: nothing in it ends the extractor, and it carries at most one
caption. -/
structure Frame where
  pkt : AVPacket
  readable : ∀ f, (scan pkt.data).2 = some f → ∃ err, f = .parse err
  single : (captions pkt.data).length ≤ 1

def Frame.Captioned (f : Frame) : Prop := captions f.pkt.data ≠ []

instance (f : Frame) : Decidable f.Captioned := inferInstanceAs (Decidable (¬_))

/-! ## The pipeline -/

inductive Halt where
  | fault (f : Fault)
  | overflow (o : Overflow)

structure Pipeline where
  extractor : SeiExtractor
  ticker : ClockTicker
  injector : SeiInjector
  clock : Clock
  queue : MetadataQueue SeiPayload

namespace Pipeline

/-- Both streams start on a clock at zero. -/
def start (streamTimeBase clockTimeBase : TimeBase) (inputId : Nat) : Pipeline :=
  let clock : Clock := ⟨0, clockTimeBase⟩
  ⟨.create streamTimeBase inputId clock, .create streamTimeBase clock,
    .create streamTimeBase clock, clock, []⟩

variable (A : AvRescale) (H : Heap SeiPayload)

/-- A frame goes through the extractor, and its copy through the processors of the output:
what was extracted from it, and what was taken for it. -/
def step (p : Pipeline) (pkt : AVPacket) :
    Except Fault ((List (Metadata SeiPayload) × List (Metadata SeiPayload)) × Pipeline) := do
  let (extracted, extractor, queue) ← p.extractor.process A H p.clock pkt p.queue
  let (ticker, clock) := p.ticker.process A p.clock pkt
  let ctx : Context := ⟨clock, 0, .userDefined p.extractor.inputId⟩
  let (found, injector, queue) ← p.injector.take A H ctx pkt queue
  return ((extracted, found.popped), ⟨extractor, ticker, injector, clock, queue⟩)

/-- The sums of a frame: the timestamps of its entries, and those of its copy. -/
def sums (p : Pipeline) (pkt : AVPacket) : Except Overflow Unit := do
  let _ ← entryStamps A p.clock pkt (captions pkt.data).length p.extractor.ptsRescaler
    p.extractor.dtsRescaler
  let (_, clock) ← p.ticker.processChecked A p.clock pkt.pts
  let _ ← p.injector.sums A ⟨clock, 0, .userDefined p.extractor.inputId⟩ pkt.pts
  return ()

def run : List Frame → Pipeline →
    Except Halt (List (List (Metadata SeiPayload) × List (Metadata SeiPayload)))
  | [], _ => .ok []
  | f :: frames, p => do
      let _ ← (p.sums A f.pkt).mapError .overflow
      let (x, p) ← (p.step A H f.pkt).mapError .fault
      let trace ← run frames p
      return x :: trace

def Placed (frames : List Frame) (p : Pipeline) : Prop :=
  ∃ trace, run A H frames p = .ok trace ∧ ∀ x ∈ trace, x.2 = x.1

end Pipeline

/-- A caption of `b` is on a later clock tick than the frame `a`. -/
def LaterTick (A : AvRescale) (streamTimeBase clockTimeBase : TimeBase) (zero : Int) (a b : Frame) :
    Prop :=
  b.Captioned → A.rescaleQ (a.pkt.pts - zero) streamTimeBase clockTimeBase <
    A.rescaleQ (b.pkt.pts - zero) streamTimeBase clockTimeBase

/-- There are no captions, or the first frame has one and no other caption falls on the clock
tick of the frame before it. -/
def Placeable (A : AvRescale) (streamTimeBase clockTimeBase : TimeBase) : List Frame → Prop
  | [] => True
  | f :: frames => (∀ g ∈ f :: frames, ¬g.Captioned) ∨
      (f.Captioned ∧
        (f :: frames).IsChain (LaterTick A streamTimeBase clockTimeBase f.pkt.pts))

/-- There is room for the frame, and if it has a caption for its decoding timestamp. -/
structure Frame.Room (A : AvRescale) (streamTimeBase clockTimeBase : TimeBase) (zero zeroDts : Int)
    (f : Frame) : Prop where
  pts : SeiInjector.Room A.rescaleQ clockTimeBase streamTimeBase 0 zero ⟨f.pkt.pts, 0⟩
  dts : f.Captioned → TSRescaler.Room A.rescaleQ clockTimeBase streamTimeBase 0 zeroDts f.pkt.dts

def Roomy (A : AvRescale) (streamTimeBase clockTimeBase : TimeBase) (frames : List Frame) : Prop :=
  ∀ first ∈ frames.head?, ∀ f ∈ frames,
    f.Room A streamTimeBase clockTimeBase first.pkt.pts first.pkt.dts

namespace Pipeline

variable {A : AvRescale} {H : Heap SeiPayload}

/-! ## One frame -/

theorem extractor_process {f : Frame} (e : SeiExtractor) (clock : Clock)
    (q : MetadataQueue SeiPayload) :
    (¬f.Captioned ∧ e.process A H clock f.pkt q = .ok ([], e, q)) ∨
      ∃ value e', f.Captioned ∧
        e.process A H clock f.pkt q = .ok ([value], e', push H value q) ∧
        value.inputId = e.inputId ∧
        value.pts = (e.ptsRescaler.rescaleToClock A clock f.pkt.pts).1 ∧
        e'.ptsRescaler = (e.ptsRescaler.rescaleToClock A clock f.pkt.pts).2 ∧
        e'.dtsRescaler = (e.dtsRescaler.rescaleToClock A clock f.pkt.dts).2 := by
  have hprocess : e.process A H clock f.pkt q =
      .ok ((e.extract A clock f.pkt 0 (captions f.pkt.data)).1,
        (e.extract A clock f.pkt 0 (captions f.pkt.data)).2,
        (e.extract A clock f.pkt 0 (captions f.pkt.data)).1.foldl
          (fun q value => push H value q) q) := by
    unfold SeiExtractor.process
    cases hfault : (scan f.pkt.data).2 with
    | none => rfl
    | some fault =>
        obtain ⟨err, rfl⟩ := f.readable fault hfault
        rfl
  rw [hprocess]
  cases hcaptions : captions f.pkt.data with
  | nil => exact .inl ⟨fun h => h hcaptions, rfl⟩
  | cons sei seis =>
      have hnil : seis = [] := by
        have hsingle := f.single
        rw [hcaptions, List.length_cons] at hsingle
        exact List.length_eq_zero_iff.mp (by omega)
      subst hnil
      have hcaptioned : f.Captioned := by
        rw [Frame.Captioned, hcaptions]
        exact List.cons_ne_nil _ _
      exact .inr ⟨_, _, hcaptioned, rfl, rfl, rfl, rfl, rfl⟩

/-- Where the extractor and the injector put the frame. -/
def extractedPts (A : AvRescale) (p : Pipeline) (f : Frame) : Int × TSRescaler :=
  p.extractor.ptsRescaler.rescaleToClock A p.clock f.pkt.pts

def injectedPts (A : AvRescale) (p : Pipeline) (f : Frame) : Int × TSRescaler :=
  p.injector.ptsRescaler.rescaleToClock A p.clock f.pkt.pts

/-- The state after a frame whose caption, if any, is not put behind the frame. -/
structure Stepped (A : AvRescale) (p : Pipeline) (f : Frame)
    (x : List (Metadata SeiPayload) × List (Metadata SeiPayload)) (p' : Pipeline) : Prop where
  queue : p'.queue = []
  ticked : p.ticker.process A p.clock f.pkt = (p'.ticker, p'.clock)
  extractor : p'.extractor.ptsRescaler =
    if f.Captioned then (extractedPts A p f).2 else p.extractor.ptsRescaler
  extractorDts : p'.extractor.dtsRescaler =
    if f.Captioned then (p.extractor.dtsRescaler.rescaleToClock A p.clock f.pkt.dts).2
    else p.extractor.dtsRescaler
  injector : p'.injector.ptsRescaler = (injectedPts A p f).2
  prevPts : p'.injector.prevPts = (injectedPts A p f).1 + 1
  placed : x.2 = x.1 ↔ (f.Captioned → p.injector.prevPts ≤ (extractedPts A p f).1)

theorem take_nil {s : SeiInjector} {ctx : Context} {id : Nat} (pkt : AVPacket)
    (hinput : ctx.currentInput = .userDefined id) :
    ∃ found s', s.take A H ctx pkt [] = .ok (found, s', []) ∧ found.popped = [] ∧
      s'.ptsRescaler = (s.adjustedPts A ctx pkt.pts).2 ∧
      s'.prevPts = (s.adjustedPts A ctx pkt.pts).1 + 1 := by
  obtain ⟨found, s', q', htake, htakes⟩ := SeiInjector.take_spec (A := A) (H := H) (s := s) pkt
    (isHeap_nil _) hinput List.nodup_nil
  have hq' : q' = [] := htakes.popAll.rest_perm.eq_nil
  rw [hq'] at htake
  exact ⟨found, s', htake, htakes.popAll.out_perm.eq_nil, htakes.rescaler, htakes.prevPts⟩

/-- A single entry that the frame reaches is taken if the last window has not passed it. -/
theorem take_single {s : SeiInjector} {ctx : Context} (pkt : AVPacket)
    {value : Metadata SeiPayload} (hinput : ctx.currentInput = .userDefined value.inputId)
    (hle : value.pts ≤ (s.adjustedPts A ctx pkt.pts).1) :
    ∃ found s', s.take A H ctx pkt (push H value []) = .ok (found, s', []) ∧
      (found.popped = [value] ↔ s.prevPts ≤ value.pts) ∧
      s'.ptsRescaler = (s.adjustedPts A ctx pkt.pts).2 ∧
      s'.prevPts = (s.adjustedPts A ctx pkt.pts).1 + 1 := by
  have hpush : (push H value []).Perm [value] := H.push_perm [] value (isHeap_nil _)
  have heap : IsHeap comparator (push H value []) := H.push_isHeap [] value (isHeap_nil _)
  have hsingle : push H value [] = [value] := List.perm_singleton.mp hpush
  have hdistinct : Distinct value.inputId s.prevPts ((s.adjustedPts A ctx pkt.pts).1 + 1)
      (push H value []) := by
    rw [hsingle]
    exact (List.nodup_singleton value.pts).sublist (List.filter_sublist.map Metadata.pts)
  obtain ⟨found, s', q', htake, htakes⟩ := SeiInjector.take_spec (A := A) (H := H) pkt heap
    hinput hdistinct
  have hpop := htakes.popAll
  rw [hsingle] at hpop
  have hbefore : ¬notBefore ((s.adjustedPts A ctx pkt.pts).1 + 1) value = true := by
    simp only [notBefore, decide_eq_true_eq]
    omega
  have hq' : q' = [] := by
    have hperm := hpop.rest_perm
    rw [List.filter_cons_of_neg hbefore] at hperm
    exact hperm.eq_nil
  rw [hq'] at htake
  refine ⟨found, s', htake, ?_, htakes.rescaler, htakes.prevPts⟩
  have hout := hpop.out_perm
  by_cases hprev : s.prevPts ≤ value.pts
  · have hw : wanted value.inputId s.prevPts ((s.adjustedPts A ctx pkt.pts).1 + 1) value = true :=
      decide_eq_true ⟨hprev, by omega, rfl⟩
    rw [List.filter_cons_of_pos hw] at hout
    exact iff_of_true (List.perm_singleton.mp hout) hprev
  · have hw :
        ¬wanted value.inputId s.prevPts ((s.adjustedPts A ctx pkt.pts).1 + 1) value = true := by
      simp only [wanted, decide_eq_true_eq]
      omega
    rw [List.filter_cons_of_neg hw] at hout
    have hnil : found.popped = [] := hout.eq_nil
    exact iff_of_false (by rw [hnil]; exact (List.cons_ne_nil _ _).symm) hprev

theorem step_spec {p : Pipeline} {f : Frame} (hq : p.queue = [])
    (hle : f.Captioned → (extractedPts A p f).1 ≤ (injectedPts A p f).1) :
    ∃ x p', p.step A H f.pkt = .ok (x, p') ∧ Stepped A p f x p' := by
  have htb : (p.ticker.process A p.clock f.pkt).2.timeBase = p.clock.timeBase :=
    ClockTicker.process_timeBase ..
  let ctx : Context := ⟨(p.ticker.process A p.clock f.pkt).2, 0, .userDefined p.extractor.inputId⟩
  have hadjusted : p.injector.adjustedPts A ctx f.pkt.pts = injectedPts A p f := by
    simp only [SeiInjector.adjustedPts, injectedPts, TSRescaler.rescaleToClock, ctx, htb,
      Int.sub_zero]
  rcases extractor_process (A := A) (H := H) (f := f) p.extractor p.clock p.queue with
    ⟨hcap, hprocess⟩ | ⟨value, e', hcap, hprocess, hid, hpts, hrescaler, hdts⟩
  · obtain ⟨found, s', htake, hpopped, hinj, hprev⟩ := take_nil (A := A) (H := H)
      (s := p.injector) f.pkt (rfl : ctx.currentInput = _)
    rw [hq] at hprocess
    refine ⟨([], found.popped), ⟨p.extractor, (p.ticker.process A p.clock f.pkt).1, s',
      (p.ticker.process A p.clock f.pkt).2, []⟩, ?_, ⟨rfl, rfl, ?_, ?_, ?_, ?_, ?_⟩⟩
    · simp only [step, hq, hprocess, ok_bind]
      show (p.injector.take A H ctx f.pkt [] >>= _) = _
      rw [htake, ok_bind]
      rfl
    · rw [if_neg hcap]
    · rw [if_neg hcap]
    · rw [← hadjusted]
      exact hinj
    · rw [← hadjusted]
      exact hprev
    · exact iff_of_true hpopped fun h => absurd h hcap
  · have hpts' : value.pts = (extractedPts A p f).1 := hpts
    have hle' : value.pts ≤ (p.injector.adjustedPts A ctx f.pkt.pts).1 := by
      rw [hadjusted, hpts']
      exact hle hcap
    obtain ⟨found, s', htake, hpopped, hinj, hprev⟩ := take_single (A := A) (H := H)
      (s := p.injector) f.pkt (hid ▸ rfl : ctx.currentInput = _) hle'
    rw [hq] at hprocess
    refine ⟨([value], found.popped), ⟨e', (p.ticker.process A p.clock f.pkt).1, s',
      (p.ticker.process A p.clock f.pkt).2, []⟩, ?_, ⟨rfl, rfl, ?_, ?_, ?_, ?_, ?_⟩⟩
    · simp only [step, hq, hprocess, ok_bind]
      show (p.injector.take A H ctx f.pkt (push H value []) >>= _) = _
      rw [htake, ok_bind]
      rfl
    · rw [if_pos hcap]
      exact hrescaler
    · rw [if_pos hcap]
      exact hdts
    · rw [← hadjusted]
      exact hinj
    · rw [← hadjusted]
      exact hprev
    · rw [← hpts']
      exact hpopped.trans ⟨fun h _ => h, fun h => h hcap⟩

theorem Frame.captioned_iff {f : Frame} : f.Captioned ↔ 0 < (captions f.pkt.data).length :=
  List.length_pos_iff.symm

/-- The sums of a frame, where the ticker needs no more room than the injector. -/
theorem sums_ok_iff {p : Pipeline} {f : Frame} {tb outtb : TimeBase} {zero : Int}
    (hclock : p.clock.timeBase = outtb) (hbase : p.injector.ptsRescaler.localTimeBase = tb ∧
      p.injector.ptsRescaler.base = 0 ∧ p.injector.ptsRescaler.tsZero.getD f.pkt.pts = zero)
    (hticker : TSRescaler.Room A.rescaleQ outtb tb 0 zero f.pkt.pts →
      ∃ r, p.ticker.processChecked A p.clock f.pkt.pts = .ok r) :
    (∃ o, p.sums A f.pkt = .ok o) ↔
      (f.Captioned → p.extractor.ptsRescaler.HasRoom A.rescaleQ outtb f.pkt.pts ∧
          p.extractor.dtsRescaler.HasRoom A.rescaleQ outtb f.pkt.dts) ∧
        SeiInjector.Room A.rescaleQ outtb tb 0 zero ⟨f.pkt.pts, 0⟩ := by
  obtain ⟨rfl, hzero, rfl⟩ := hbase
  subst hclock
  have hroom {clock : Clock} (htb : clock.timeBase = p.clock.timeBase) :
      (∃ o, p.injector.sums A ⟨clock, 0, .userDefined p.extractor.inputId⟩ f.pkt.pts = .ok o) ↔
        SeiInjector.Room A.rescaleQ p.clock.timeBase p.injector.ptsRescaler.localTimeBase 0
          (p.injector.ptsRescaler.tsZero.getD f.pkt.pts) ⟨f.pkt.pts, 0⟩ := by
    rw [SeiInjector.sums_ok_iff, SeiInjector.HasRoom, htb, hzero]
  rw [Frame.captioned_iff, ← entryStamps_ok_iff]
  constructor
  · intro h
    obtain ⟨o, h⟩ := h
    obtain ⟨stamps, hstamps, h⟩ := of_bind_eq_ok h
    obtain ⟨⟨ticker, clock⟩, hprocess, h⟩ := of_bind_eq_ok h
    obtain ⟨o', hsums, -⟩ := of_bind_eq_ok h
    exact ⟨⟨stamps, hstamps⟩, (hroom (ClockTicker.processChecked_timeBase hprocess)).mp ⟨o', hsums⟩⟩
  · intro h
    obtain ⟨⟨stamps, hstamps⟩, hpts⟩ := h
    obtain ⟨⟨ticker, clock⟩, hprocess⟩ := hticker hpts.toRoom
    obtain ⟨o, hsums⟩ := (hroom (ClockTicker.processChecked_timeBase hprocess)).mpr hpts
    refine ⟨(), ?_⟩
    rw [sums, hstamps, ok_bind, hprocess, ok_bind]
    show (p.injector.sums A ⟨clock, 0, _⟩ f.pkt.pts >>= _) = _
    rw [hsums]
    rfl

/-! ## A whole stream -/

theorem placed_cons {p p' : Pipeline} {f : Frame} {frames : List Frame}
    {x : List (Metadata SeiPayload) × List (Metadata SeiPayload)}
    (hstep : p.step A H f.pkt = .ok (x, p')) :
    Placed A H (f :: frames) p ↔
      (∃ o, p.sums A f.pkt = .ok o) ∧ x.2 = x.1 ∧ Placed A H frames p' := by
  have hrun {o : Unit} (h : p.sums A f.pkt = .ok o) :
      run A H (f :: frames) p = (run A H frames p').map fun trace => x :: trace := by
    rw [run, h, hstep]
    rfl
  constructor
  · intro h
    obtain ⟨trace, h, hall⟩ := h
    obtain ⟨o, hsums, -⟩ := of_bind_eq_ok h
    cases hok : p.sums A f.pkt with
    | error overflow =>
        rw [hok] at hsums
        cases hsums
    | ok o =>
        rw [hrun hok] at h
        cases hrest : run A H frames p' with
        | error halt =>
            rw [hrest] at h
            cases h
        | ok rest =>
            rw [hrest] at h
            cases h
            obtain ⟨hx, hall⟩ := List.forall_mem_cons.mp hall
            exact ⟨⟨o, rfl⟩, hx, rest, hrest, hall⟩
  · intro h
    obtain ⟨⟨o, hsums⟩, hx, trace, hrest, hall⟩ := h
    refine ⟨x :: trace, ?_, List.forall_mem_cons.mpr ⟨hx, hall⟩⟩
    rw [hrun hsums, hrest]
    rfl

/-- Behind frame `last`: the queue is empty, and the clock, the ticker and the injector have come
to its timestamp. -/
structure Behind (A : AvRescale) (tb outtb : TimeBase) (zero : Int) (last : Frame) (p : Pipeline) :
    Prop where
  queue : p.queue = []
  clock : p.clock = ⟨A.rescaleQ (last.pkt.pts - zero) tb outtb, outtb⟩
  ticker : p.ticker = ⟨⟨some (A.rescaleQ (last.pkt.pts - zero) tb outtb)⟩, ⟨tb, 0, some zero⟩⟩
  injector : p.injector.ptsRescaler = ⟨tb, 0, some zero⟩
  prevPts : p.injector.prevPts = A.rescaleQ (last.pkt.pts - zero) tb outtb + 1

namespace Behind

variable {tb outtb : TimeBase} {zero : Int} {last f : Frame} {p p' : Pipeline}

theorem nonneg (hzero : zero ≤ last.pkt.pts) : 0 ≤ A.rescaleQ (last.pkt.pts - zero) tb outtb := by
  have hmono := A.rescaleQ_mono tb outtb 0 (last.pkt.pts - zero) (by omega)
  rwa [A.rescaleQ_zero] at hmono

theorem injectedPts (h : Behind A tb outtb zero last p) : injectedPts A p f =
    (A.rescaleQ (f.pkt.pts - zero) tb outtb, ⟨tb, 0, some zero⟩) := by
  rw [Pipeline.injectedPts, h.injector, h.clock, TSRescaler.rescaleToClock_set rfl]
  show (0 + _, _) = _
  rw [Int.zero_add]
  rfl

/-- The ticker gets through a later frame that has room. -/
theorem processChecked (h : Behind A tb outtb zero last p) (hzero : zero ≤ last.pkt.pts)
    (hle : last.pkt.pts ≤ f.pkt.pts)
    (hroom : TSRescaler.Room A.rescaleQ outtb tb 0 zero f.pkt.pts) :
    p.ticker.processChecked A p.clock f.pkt.pts =
      .ok (⟨⟨some (A.rescaleQ (f.pkt.pts - zero) tb outtb)⟩, ⟨tb, 0, some zero⟩⟩,
        ⟨A.rescaleQ (f.pkt.pts - zero) tb outtb, outtb⟩) := by
  rw [h.ticker, h.clock]
  exact ClockTicker.processChecked_next hroom (nonneg hzero)
    (A.rescaleQ_mono _ _ _ _ (Int.sub_le_sub_right hle zero))

theorem sums_iff (h : Behind A tb outtb zero last p) (hzero : zero ≤ last.pkt.pts)
    (hle : last.pkt.pts ≤ f.pkt.pts) :
    (∃ o, p.sums A f.pkt = .ok o) ↔
      (f.Captioned → p.extractor.ptsRescaler.HasRoom A.rescaleQ outtb f.pkt.pts ∧
          p.extractor.dtsRescaler.HasRoom A.rescaleQ outtb f.pkt.dts) ∧
        SeiInjector.Room A.rescaleQ outtb tb 0 zero ⟨f.pkt.pts, 0⟩ := by
  refine sums_ok_iff ?_ ?_ fun hroom => ⟨_, h.processChecked hzero hle hroom⟩
  · rw [h.clock]
    rfl
  · rw [h.injector]
    exact ⟨rfl, rfl, rfl⟩

theorem next (h : Behind A tb outtb zero last p) (hzero : zero ≤ last.pkt.pts)
    (hle : last.pkt.pts ≤ f.pkt.pts)
    (hroom : TSRescaler.Room A.rescaleQ outtb tb 0 zero f.pkt.pts)
    {x : List (Metadata SeiPayload) × List (Metadata SeiPayload)} (hstep : Stepped A p f x p') :
    Behind A tb outtb zero f p' := by
  have hticked := hstep.ticked
  rw [ClockTicker.processChecked_model (h.processChecked hzero hle hroom), Prod.mk.injEq] at hticked
  refine ⟨hstep.queue, hticked.2.symm, hticked.1.symm, ?_, ?_⟩
  · rw [hstep.injector, h.injectedPts]
  · rw [hstep.prevPts, h.injectedPts]

end Behind

/-- Both rescalers have their zero point: they agree on every frame. -/
theorem placed_of_common_zero {tb outtb : TimeBase} {zero zeroDts : Int} {last : Frame}
    {frames : List Frame} {p : Pipeline} (hp : Behind A tb outtb zero last p)
    (hzero : zero ≤ last.pkt.pts)
    (hordered : (last :: frames).Pairwise fun a b => a.pkt.pts < b.pkt.pts)
    (hext : p.extractor.ptsRescaler = ⟨tb, 0, some zero⟩)
    (hdts : p.extractor.dtsRescaler = ⟨tb, 0, some zeroDts⟩) :
    Placed A H frames p ↔ (last :: frames).IsChain (LaterTick A tb outtb zero) ∧
      ∀ f ∈ frames, f.Room A tb outtb zero zeroDts := by
  induction frames generalizing last p with
  | nil =>
      exact iff_of_true ⟨[], rfl, List.forall_mem_nil _⟩
        ⟨List.isChain_singleton _, List.forall_mem_nil _⟩
  | cons f frames ih =>
      obtain ⟨hafter, hordered⟩ := List.pairwise_cons.mp hordered
      have hle : last.pkt.pts ≤ f.pkt.pts := Int.le_of_lt (hafter f List.mem_cons_self)
      have hex : extractedPts A p f =
          (A.rescaleQ (f.pkt.pts - zero) tb outtb, ⟨tb, 0, some zero⟩) := by
        rw [← hp.injectedPts, extractedPts, hext, injectedPts, hp.injector]
      obtain ⟨x, p', hstep, h⟩ := step_spec (A := A) (H := H) hp.queue
        (fun _ => by rw [hex, hp.injectedPts] : f.Captioned → _)
      have hroom : (∃ o, p.sums A f.pkt = .ok o) ↔ f.Room A tb outtb zero zeroDts := by
        rw [hp.sums_iff hzero hle, hext, hdts]
        constructor
        · intro hor
          exact ⟨hor.2, fun hcap => (hor.1 hcap).2⟩
        · intro hroom
          exact ⟨fun hcap => ⟨hroom.pts.toRoom, hroom.dts hcap⟩, hroom.pts⟩
      rw [placed_cons hstep, hroom, List.isChain_cons_cons, List.forall_mem_cons, h.placed, hex,
        hp.prevPts]
      have hlater : (f.Captioned → A.rescaleQ (last.pkt.pts - zero) tb outtb + 1 ≤
          A.rescaleQ (f.pkt.pts - zero) tb outtb) ↔ LaterTick A tb outtb zero last f :=
        forall_congr' fun _ => Int.add_one_le_iff
      rw [hlater]
      have htail (hf : f.Room A tb outtb zero zeroDts) : Placed A H frames p' ↔ _ :=
        ih (hp.next hzero hle hf.pts.toRoom h) (Int.le_trans hzero hle) hordered
          (by rw [h.extractor, hex, hext, ite_self])
          (by rw [h.extractorDts, hdts, TSRescaler.rescaleToClock_set rfl, ite_self])
      constructor
      · intro hall
        obtain ⟨hf, hlater, hplaced⟩ := hall
        obtain ⟨hchain, hrooms⟩ := (htail hf).mp hplaced
        exact ⟨⟨hlater, hchain⟩, hf, hrooms⟩
      · intro hall
        obtain ⟨⟨hlater, hchain⟩, hf, hrooms⟩ := hall
        exact ⟨hf, hlater, (htail hf).mpr ⟨hchain, hrooms⟩⟩

/-- The first frame had no caption: the zero point of the extractor is going to be behind the
injector's, and the first caption is lost. -/
theorem placed_of_late_zero {tb outtb : TimeBase} {zero : Int} (zeroDts : Int) {last : Frame}
    {frames : List Frame} {p : Pipeline} (hp : Behind A tb outtb zero last p)
    (hzero : zero ≤ last.pkt.pts)
    (hordered : (last :: frames).Pairwise fun a b => a.pkt.pts < b.pkt.pts)
    (hext : p.extractor.ptsRescaler = ⟨tb, 0, none⟩) :
    Placed A H frames p ↔ (∀ f ∈ frames, ¬f.Captioned) ∧
      ∀ f ∈ frames, f.Room A tb outtb zero zeroDts := by
  induction frames generalizing last p with
  | nil =>
      exact iff_of_true ⟨[], rfl, List.forall_mem_nil _⟩
        ⟨List.forall_mem_nil _, List.forall_mem_nil _⟩
  | cons f frames ih =>
      obtain ⟨hafter, hordered⟩ := List.pairwise_cons.mp hordered
      have hle : last.pkt.pts ≤ f.pkt.pts := Int.le_of_lt (hafter f List.mem_cons_self)
      have hex : extractedPts A p f = (0, ⟨tb, 0, some f.pkt.pts⟩) := by
        rw [extractedPts, hext]
        exact TSRescaler.rescaleToClock_fresh rfl
      obtain ⟨x, p', hstep, h⟩ := step_spec (A := A) (H := H) (f := f) hp.queue fun _ => by
        rw [hex, hp.injectedPts]
        exact Behind.nonneg (Int.le_trans hzero hle)
      rw [placed_cons hstep, List.forall_mem_cons, List.forall_mem_cons]
      by_cases hcap : f.Captioned
      · refine iff_of_false (fun hall => ?_) fun hall => hall.1.1 hcap
        have hlate := h.placed.mp hall.2.1 hcap
        rw [hex, hp.prevPts] at hlate
        have hnonneg : 0 ≤ A.rescaleQ (last.pkt.pts - zero) tb outtb := Behind.nonneg hzero
        have : A.rescaleQ (last.pkt.pts - zero) tb outtb + 1 ≤ 0 := hlate
        omega
      · have hroom : (∃ o, p.sums A f.pkt = .ok o) ↔ f.Room A tb outtb zero zeroDts := by
          rw [hp.sums_iff hzero hle]
          constructor
          · intro hor
            exact ⟨hor.2, fun h => absurd h hcap⟩
          · intro hroom
            exact ⟨fun h => absurd h hcap, hroom.pts⟩
        have htail (hf : f.Room A tb outtb zero zeroDts) : Placed A H frames p' ↔ _ :=
          ih (hp.next hzero hle hf.pts.toRoom h) (Int.le_trans hzero hle) hordered
            (by rw [h.extractor, if_neg hcap, hext])
        rw [hroom]
        constructor
        · intro hall
          obtain ⟨hf, -, hplaced⟩ := hall
          obtain ⟨hnone, hrooms⟩ := (htail hf).mp hplaced
          exact ⟨⟨hcap, hnone⟩, hf, hrooms⟩
        · intro hall
          obtain ⟨⟨-, hnone⟩, hf, hrooms⟩ := hall
          exact ⟨hf, h.placed.mpr fun h => absurd h hcap, (htail hf).mpr ⟨hnone, hrooms⟩⟩

theorem start_sums_iff {tb outtb : TimeBase} {id : Nat} {f : Frame} :
    (∃ o, (start tb outtb id).sums A f.pkt = .ok o) ↔ f.Room A tb outtb f.pkt.pts f.pkt.dts := by
  have hsums := sums_ok_iff (A := A) (p := start tb outtb id) (f := f) rfl ⟨rfl, rfl, rfl⟩
    fun _ => ⟨_, ClockTicker.processChecked_first⟩
  rw [hsums]
  constructor
  · intro h
    exact ⟨h.2, fun hcap => (h.1 hcap).2⟩
  · intro h
    exact ⟨fun hcap => ⟨h.pts.toRoom, h.dts hcap⟩, h.pts⟩

section Start

variable {tb outtb : TimeBase} {id : Nat} {f : Frame} {p' : Pipeline}
  {x : List (Metadata SeiPayload) × List (Metadata SeiPayload)}

theorem extractedPts_start :
    extractedPts A (start tb outtb id) f = (0, ⟨tb, 0, some f.pkt.pts⟩) :=
  TSRescaler.rescaleToClock_fresh rfl

theorem injectedPts_start : injectedPts A (start tb outtb id) f = (0, ⟨tb, 0, some f.pkt.pts⟩) :=
  TSRescaler.rescaleToClock_fresh rfl

theorem placed_start (h : Stepped A (start tb outtb id) f x p') : x.2 = x.1 := by
  refine h.placed.mpr fun _ => ?_
  rw [extractedPts_start]
  show minTs ≤ 0
  decide

theorem behind_start (h : Stepped A (start tb outtb id) f x p') :
    Behind A tb outtb f.pkt.pts f p' := by
  have hzero : A.rescaleQ (f.pkt.pts - f.pkt.pts) tb outtb = 0 := by
    rw [Int.sub_self, A.rescaleQ_zero]
  have hprocess : ClockTicker.process A ⟨{}, ⟨tb, 0, none⟩⟩ ⟨0, outtb⟩ f.pkt =
      (⟨⟨some 0⟩, ⟨tb, 0, some f.pkt.pts⟩⟩, ⟨0, outtb⟩) :=
    ClockTicker.processChecked_model ClockTicker.processChecked_first
  have hticked := Prod.mk.inj (hprocess.symm.trans h.ticked)
  refine ⟨h.queue, ?_, ?_, ?_, ?_⟩
  · rw [hzero, ← hticked.2]
  · rw [hzero, ← hticked.1]
  · rw [h.injector, injectedPts_start]
  · rw [h.prevPts, injectedPts_start, hzero]

end Start

theorem roomy_cons {tb outtb : TimeBase} {f : Frame} {frames : List Frame} :
    Roomy A tb outtb (f :: frames) ↔ f.Room A tb outtb f.pkt.pts f.pkt.dts ∧
      ∀ g ∈ frames, g.Room A tb outtb f.pkt.pts f.pkt.dts := by
  rw [← List.forall_mem_cons]
  constructor
  · exact fun h => h f rfl
  · intro h first hfirst
    cases hfirst
    exact h

/-- The captions of a stream end up in their frames exactly when there are none, or the first
frame has one and no other is on the clock tick of the frame before it, and when there is room
for every frame. -/
theorem placed_iff {tb clockTb : TimeBase} {id : Nat} {frames : List Frame}
    (hpts : frames.Pairwise fun a b => a.pkt.pts < b.pkt.pts) :
    Placed A H frames (start tb clockTb id) ↔
      Placeable A tb clockTb frames ∧ Roomy A tb clockTb frames := by
  cases frames with
  | nil =>
      exact iff_of_true ⟨[], rfl, List.forall_mem_nil _⟩ ⟨trivial, fun first h => nomatch h⟩
  | cons f frames =>
      obtain ⟨x, p', hstep, h⟩ := step_spec (A := A) (H := H) (p := start tb clockTb id) (f := f)
        rfl fun _ => by rw [extractedPts_start, injectedPts_start]
      have hbehind := behind_start h
      rw [placed_cons hstep, start_sums_iff, and_iff_right (placed_start h), roomy_cons, Placeable]
      by_cases hcap : f.Captioned
      · have hext : p'.extractor.ptsRescaler = ⟨tb, 0, some f.pkt.pts⟩ := by
          rw [h.extractor, if_pos hcap, extractedPts_start]
        have hdts : p'.extractor.dtsRescaler = ⟨tb, 0, some f.pkt.dts⟩ := by
          rw [h.extractorDts, if_pos hcap]
          rfl
        rw [placed_of_common_zero (H := H) hbehind (Int.le_refl _) hpts hext hdts]
        constructor
        · intro hall
          exact ⟨.inr ⟨hcap, hall.2.1⟩, hall.1, hall.2.2⟩
        · intro hall
          obtain ⟨hnone | hchain, hf, hrooms⟩ := hall
          · exact absurd hcap (hnone f List.mem_cons_self)
          · exact ⟨hf, hchain.2, hrooms⟩
      · have hext : p'.extractor.ptsRescaler = ⟨tb, 0, none⟩ := by
          rw [h.extractor, if_neg hcap]
          rfl
        rw [placed_of_late_zero (H := H) f.pkt.dts hbehind (Int.le_refl _) hpts hext]
        constructor
        · intro hall
          exact ⟨.inl (List.forall_mem_cons.mpr ⟨hcap, hall.2.1⟩), hall.1, hall.2.2⟩
        · intro hall
          obtain ⟨hnone | hchain, hf, hrooms⟩ := hall
          · exact ⟨hf, (List.forall_mem_cons.mp hnone).2, hrooms⟩
          · exact absurd hchain.1 hcap

def frameOf (data : Bytes) (hscan : (scan data).2 = none) (hsingle : (captions data).length ≤ 1)
    (pts : Int) : Frame where
  pkt := ⟨pts, pts, data⟩
  readable f hf := by
    rw [hscan] at hf
    cases hf
  single := hsingle

def plainFrame : Int → Frame := frameOf [0, 0, 0, 2, 101, 7] (by decide) (by decide)

def captionFrame : Int → Frame :=
  frameOf [0, 0, 0, 5, 6, 4, 1, 181, 128, 0, 0, 0, 2, 101, 7] (by decide) (by decide)

def millisecond : TimeBase := ⟨1, 1000, Nat.one_pos, by decide⟩

/-- A caption on every frame, forty milliseconds apart. -/
theorem placed_all_captioned :
    Placed .nearest (library SeiPayload) [captionFrame 0, captionFrame 40]
      (start millisecond Clock.defaultTimeBase 0) :=
  (placed_iff (by simp [captionFrame, frameOf])).mpr
    ⟨.inr ⟨by decide, List.isChain_pair.mpr fun _ => by decide⟩,
      roomy_cons.mpr ⟨⟨by decide, fun _ => by decide⟩,
        List.forall_mem_singleton.mpr ⟨by decide, fun _ => by decide⟩⟩⟩

/-- The first caption on the second frame: there is room for it, and it is dropped. -/
theorem placed_late_caption :
    ∃ frames : List Frame, (frames.Pairwise fun a b => a.pkt.pts < b.pkt.pts) ∧
      Roomy .nearest millisecond Clock.defaultTimeBase frames ∧
      ¬Placed .nearest (library SeiPayload) frames (start millisecond Clock.defaultTimeBase 0) := by
  refine ⟨[plainFrame 0, captionFrame 40], by simp [plainFrame, captionFrame, frameOf],
    roomy_cons.mpr ⟨⟨by decide, fun _ => by decide⟩,
      List.forall_mem_singleton.mpr ⟨by decide, fun _ => by decide⟩⟩, ?_⟩
  intro h
  obtain ⟨trace, hrun, hall⟩ := h
  cases hrun
  exact absurd (hall _ (List.mem_cons_of_mem _ (List.mem_cons_self ..))) (by decide)

end Pipeline
end Proc
end Metamix
