/-
The processors of the output stream.

For every packet `ClockTicker` advances the clock and `SeiInjector` asks the current input
for what belongs to the packet.  `SeiInjector.take` is the part of `process` in front of
the `try` block: which metadata a packet gets is settled there.
-/
import Metamix.Time.Clock
import Metamix.Queue.MetadataQueue
import Metamix.Proc.Remux

namespace Metamix
namespace Proc

open Lib Binary H264 Time Queue

structure AVPacket where
  pts : Int
  dts : Int
  data : Bytes

/-! ## The clock ticker -/

structure ClockTicker where
  ticker : TSTicker
  ptsRescaler : TSRescaler

namespace ClockTicker

def create (streamTimeBase : TimeBase) (clock : Clock) : ClockTicker :=
  ⟨{}, .clockRelative clock streamTimeBase⟩

def process (A : AvRescale) (t : ClockTicker) (clock : Clock) (pkt : AVPacket) :
    ClockTicker × Clock :=
  let (rescaledPts, rescaler) := t.ptsRescaler.rescaleToClock A clock pkt.pts
  let (ticker, clock) := t.ticker.tick clock rescaledPts
  (⟨ticker, rescaler⟩, clock)

@[simp] theorem process_timeBase (A : AvRescale) (t : ClockTicker) (clock : Clock)
    (pkt : AVPacket) : (t.process A clock pkt).2.timeBase = clock.timeBase :=
  TSTicker.tick_timeBase ..

end ClockTicker

/-! ## Standard payloads -/

/-- In front of both payloads: country, provider, user identifier and user data type. -/
def ccPrefix : Bytes := [181, 0, 49, 0x47, 0x41, 0x39, 0x34, 3]

def emptySei : SeiPayload :=
  ⟨SeiType.userDataRegistered, ccPrefix ++ [0x40 ||| 4, 0x00,
    0xfc, 0x80, 0x80, 0xfd, 0x01, 0x85, 0xfa, 0x00, 0x00, 0xfa, 0x00, 0x00, 0xff]⟩

def resetSei : SeiPayload :=
  ⟨SeiType.userDataRegistered, ccPrefix ++ [0x40 ||| 18, 0x00,
    0xfc, 0x94, 0x2c, 0xfc, 0x94, 0xae, 0xfc, 0x94, 0x2f,
    0xfc, 0x1c, 0x2c, 0xfc, 0x1c, 0xae, 0xfc, 0x1c, 0x2f,
    0xfd, 0x94, 0x2c, 0xfd, 0x94, 0xae, 0xfd, 0x94, 0x2f,
    0xfd, 0x1c, 0x2c, 0xfd, 0x1c, 0xae, 0xfd, 0x1c, 0x2f,
    0xff, 0x02, 0x21, 0xfe, 0x8f, 0x00, 0xff, 0x02, 0x41, 0xfe, 0x8f, 0x00,
    0xfa, 0x00, 0x00, 0xfa, 0x00, 0x00, 0xff]⟩

def buildEmptyMetadata (inputId : Nat) (ts : Int) : Metadata SeiPayload :=
  ⟨inputId, ts, ts, 2 ^ 31 - 1, emptySei⟩

def buildCcResetMetadata (inputId : Nat) (ts : Int) : Metadata SeiPayload :=
  ⟨inputId, ts, ts, -2 ^ 31, resetSei⟩

/-! ## Inputs -/

/-- A user-defined input reads the queue, the virtual one always clears the captions. -/
inductive Input where
  | userDefined (id : Nat)
  | clear (id : Nat)

namespace Input

def id : Input → Nat
  | .userDefined id => id
  | .clear id => id

variable (H : Heap SeiPayload)

def runQuerySei (input : Input) (since until_ : Int) (q : MetadataQueue SeiPayload) :
    Except Fault (Option (List (Metadata SeiPayload)) × MetadataQueue SeiPayload) :=
  match input with
  | .userDefined id => do
      let (v, q) ← MetadataQueue.popAll H id since until_ q
      return (if v.length > 0 then some v else none, q)
  | .clear id => .ok (some [buildCcResetMetadata id (max since (until_ - 1))], q)

def buildEmptySei (input : Input) (since until_ : Int) : List (Metadata SeiPayload) :=
  [buildEmptyMetadata input.id (max since (until_ - 1))]

variable {H}

/-- A user-defined input answers with what comes out of the queue. -/
theorem runQuerySei_of_popAll {id : Nat} {since until_ : Int} {q rest : MetadataQueue SeiPayload}
    {out : List (Metadata SeiPayload)}
    (h : MetadataQueue.popAll H id since until_ q = .ok (out, rest)) :
    ∃ result, (Input.userDefined id).runQuerySei H since until_ q = .ok (result, rest) ∧
      result.getD [] = out := by
  refine ⟨if out.length > 0 then some out else none, ?_, ?_⟩
  · rw [runQuerySei, h, ok_bind]
    rfl
  · cases out <;> rfl

end Input

/-! ## The injector -/

structure Context where
  clock : Clock
  tsAdjustment : Int
  currentInput : Input

/-- The metadata found for a packet: a reset if the input has changed, and the answer to the
query or what stands in for it. -/
structure Found where
  reset : List (Metadata SeiPayload)
  result : Option (List (Metadata SeiPayload))
  empty : List (Metadata SeiPayload)

namespace Found

def metadata (f : Found) : List (Metadata SeiPayload) := f.reset ++ f.result.getD f.empty

def popped (f : Found) : List (Metadata SeiPayload) := f.result.getD []

end Found

structure SeiInjector where
  ptsRescaler : TSRescaler
  prevPts : Int := minTs
  prevInputId : Option Nat := none

namespace SeiInjector

def create (streamTimeBase : TimeBase) (clock : Clock) : SeiInjector :=
  { ptsRescaler := .clockRelative clock streamTimeBase }

variable (A : AvRescale) (H : Heap SeiPayload)

def adjustedPts (s : SeiInjector) (ctx : Context) (pts : Int) : Int × TSRescaler :=
  let (rescaled, rescaler) := s.ptsRescaler.rescaleToClock A ctx.clock pts
  (rescaled - ctx.tsAdjustment, rescaler)

/-- A reset if the input is not the one of the last packet. -/
def resetFor (s : SeiInjector) (inputId : Nat) (pts : Int) : List (Metadata SeiPayload) :=
  if some inputId ≠ s.prevInputId then [buildCcResetMetadata inputId pts] else []

def take (s : SeiInjector) (ctx : Context) (pkt : AVPacket) (q : MetadataQueue SeiPayload) :
    Except Fault (Found × SeiInjector × MetadataQueue SeiPayload) := do
  let (rescaledPts, rescaler) := s.adjustedPts A ctx pkt.pts
  let input := ctx.currentInput
  let reset := s.resetFor input.id rescaledPts
  let (result, q) ← input.runQuerySei H s.prevPts (rescaledPts + 1) q
  return (⟨reset, result, input.buildEmptySei s.prevPts (rescaledPts + 1)⟩,
    ⟨rescaler, rescaledPts + 1, some input.id⟩, q)

/-- The packet is written last, and only its bytes change. -/
def process (s : SeiInjector) (ctx : Context) (pkt : AVPacket) (q : MetadataQueue SeiPayload) :
    Except Fault (AVPacket × SeiInjector × MetadataQueue SeiPayload) := do
  let (found, s, q) ← s.take A H ctx pkt q
  let data ← rewritePacket (found.metadata.map Metadata.val) pkt.data
  return ({ pkt with data }, s, q)

/-! ## What a packet takes -/

variable {A H}

theorem take_eq_ok {s s' : SeiInjector} {ctx : Context} {pkt : AVPacket}
    {q q' : MetadataQueue SeiPayload} {found : Found}
    (h : s.take A H ctx pkt q = .ok (found, s', q')) :
    let pts := (s.adjustedPts A ctx pkt.pts).1
    ∃ result, ctx.currentInput.runQuerySei H s.prevPts (pts + 1) q = .ok (result, q') ∧
      found = ⟨s.resetFor ctx.currentInput.id pts, result,
        ctx.currentInput.buildEmptySei s.prevPts (pts + 1)⟩ ∧
      s' = ⟨(s.adjustedPts A ctx pkt.pts).2, pts + 1, some ctx.currentInput.id⟩ := by
  obtain ⟨r, hquery, h⟩ := of_bind_eq_ok h
  cases h
  exact ⟨r.1, hquery, rfl, rfl⟩

/-- A packet that was processed took its metadata first, and was rewritten with it. -/
theorem process_eq_ok {s s' : SeiInjector} {ctx : Context} {pkt out : AVPacket}
    {q q' : MetadataQueue SeiPayload} (h : s.process A H ctx pkt q = .ok (out, s', q')) :
    ∃ found, s.take A H ctx pkt q = .ok (found, s', q') ∧
      rewritePacket (found.metadata.map Metadata.val) pkt.data = .ok out.data ∧
      out = { pkt with data := out.data } := by
  obtain ⟨r, htake, h⟩ := of_bind_eq_ok h
  obtain ⟨data, hrewrite, h⟩ := of_bind_eq_ok h
  cases h
  exact ⟨r.1, htake, hrewrite, rfl⟩

/-- A packet takes the window between the one before it and its own timestamp out of the
queue, and everything in front of the window is dropped with it. -/
structure Takes (s : SeiInjector) (ctx : Context) (id : Nat) (pts : Int)
    (q : MetadataQueue SeiPayload) (found : Found) (s' : SeiInjector)
    (q' : MetadataQueue SeiPayload) : Prop where
  popAll : MetadataQueue.PopAll id s.prevPts ((s.adjustedPts A ctx pts).1 + 1) q found.popped q'
  rescaler : s'.ptsRescaler = (s.adjustedPts A ctx pts).2
  prevPts : s'.prevPts = (s.adjustedPts A ctx pts).1 + 1

theorem take_spec {s : SeiInjector} {ctx : Context} {id : Nat} (pkt : AVPacket)
    {q : MetadataQueue SeiPayload} (hq : IsHeap comparator q)
    (hinput : ctx.currentInput = .userDefined id)
    (hdistinct : MetadataQueue.Distinct id s.prevPts ((s.adjustedPts A ctx pkt.pts).1 + 1) q) :
    ∃ found s' q', s.take A H ctx pkt q = .ok (found, s', q') ∧
      Takes (A := A) s ctx id pkt.pts q found s' q' := by
  rcases MetadataQueue.popAll_spec (H := H) id s.prevPts ((s.adjustedPts A ctx pkt.pts).1 + 1) hq
    with ⟨_, out, rest, hok, hall⟩ | ⟨hd, _⟩
  · obtain ⟨result, hquery, hresult⟩ := Input.runQuerySei_of_popAll hok
    let pts := (s.adjustedPts A ctx pkt.pts).1
    refine ⟨⟨s.resetFor id pts, result, (Input.userDefined id).buildEmptySei s.prevPts (pts + 1)⟩,
      ⟨(s.adjustedPts A ctx pkt.pts).2, pts + 1, some id⟩, rest, ?_, ⟨?_, rfl, rfl⟩⟩
    · simp only [take, hinput, hquery, ok_bind]
      rfl
    · show MetadataQueue.PopAll _ _ _ _ (result.getD []) _
      rw [hresult]
      exact hall
  · exact absurd hdistinct hd

end SeiInjector
end Proc
end Metamix
