/-
The running application.

`main` starts a thread for the output, one for the REST server and one for every user-defined
input.  They share the metadata queues, the clock, the ids of the current inputs, the adjustment
and one restart flag for each input.  A queue has its mutex and the others are atomic, so an
action is one access to one of these, with the computing on the thread's own state that leads to
the next access.  Whatever a thread meets outside (a packet, a request, a stream that ends) comes
with the action.  Nothing ever writes to the table of inputs.  The capabilities of an input are
left out: its thread sets them at every push, the REST server shows them, and nothing else reads
them.  They are plain members, and the two threads race for them.
-/
import Metamix.Lib.Threads
import Metamix.Proc.ScteExtractor
import Metamix.Proc.Output
import Metamix.Control.Controller

namespace Metamix
namespace App

open Lib Binary BinaryParser H264 Scte35 Time Queue Proc Control

/-! ## What is shared -/

structure MetadataQueueGroup where
  sei : MetadataQueue SeiPayload
  scte : MetadataQueue SpliceInfoSection

inductive AnyMetadata where
  | sei (value : Metadata SeiPayload)
  | scte (value : Metadata SpliceInfoSection)

def AnyMetadata.inputId : AnyMetadata → Nat
  | .sei value => value.inputId
  | .scte value => value.inputId

namespace MetadataQueueGroup

def push (H : (V : Type) → Heap V) (q : MetadataQueueGroup) : AnyMetadata → MetadataQueueGroup
  | .sei value => { q with sei := q.sei.push (H SeiPayload) value }
  | .scte value => { q with scte := q.scte.push (H SpliceInfoSection) value }

def dropKind (id : Nat) (q : MetadataQueueGroup) : Kind → Nat × MetadataQueueGroup
  | .sei => ((q.sei.dropId id).1, { q with sei := (q.sei.dropId id).2 })
  | .scte => ((q.scte.dropId id).1, { q with scte := (q.scte.dropId id).2 })

end MetadataQueueGroup

/-- The members of `ApplicationContext` that change, and the flags of the inputs. -/
structure Shared where
  metaQueue : MetadataQueueGroup
  clock : Clock
  currentInputsIds : CurrentInputsIds
  tsAdjustment : Int
  restartScheduled : InputId → Bool

def Shared.start (tsAdjustment : Int) (current : CurrentInputsIds) : Shared :=
  ⟨⟨[], []⟩, .init, current, tsAdjustment, fun _ => false⟩

/-- What the application is run with: the library functions it calls, the orders in which the
compiler evaluates operands and the arguments of `make_tuple`, and the inputs. -/
structure Setup where
  rescale : AvRescale
  heap : (V : Type) → Heap V
  order : EvalOrder
  /-- The processor of the markers is made before the one of the captions. -/
  scteFirst : Bool
  inputs : InputManager

/-- `main` makes the clear input with id 0 and a user-defined input of every spec. -/
def inputOf (spec : InputSpec) : Input :=
  if spec.id = 0 then .clear 0 else .userDefined spec.id.toNat

inductive Stop where
  /-- The thread stands elsewhere. -/
  | disabled
  | nullDereference
  | aborted (f : Fault)
  | overflow (o : Overflow)

inductive Answer where
  | silent
  | exchanged (kind : Kind) (id : InputId)
  | adjusted (tsAdjustment : Int)
  | flagged (i : InputId) (scheduled : Bool)
  | pushed (value : AnyMetadata)
  | dropped (kind : Kind) (id count : Nat)
  | frame (record : Processed)
  /-- The metadata was taken, and the packet could not be rewritten. -/
  | failed (record : Processed)

/-- The fault is an exception that leaves `process` and so ends the session. -/
def endsSession : Fault → Bool
  | .runtimeError _ => true
  | .lengthError => true
  | _ => false

/-! ## The output -/

structure OutputSession where
  ticker : ClockTicker
  sei : Option SeiInjector

inductive InjectorState where
  | closed
  | ready (session : OutputSession)
  /-- `ClockTicker` has seen the packet and `SeiInjector` has not. -/
  | ticked (ticker : ClockTicker) (sei : SeiInjector) (pkt : AVPacket)
  | adjusted (ticker : ClockTicker) (sei : SeiInjector) (pkt : AVPacket) (tsAdjustment : Int)
  | selected (ticker : ClockTicker) (sei : SeiInjector) (pkt : AVPacket) (tsAdjustment : Int)
      (input : Input)

inductive InjectorAction where
  | open_ (streamTimeBase : TimeBase) (sei : Bool)
  | tick (pkt : AVPacket)
  | readTsAdjustment
  | getCurrentInput
  | query
  | close

variable (p : Setup)

/-- `SeiInjector::process` from the query on.  A packet that does not parse is left as it is. -/
def query (ticker : ClockTicker) (sei : SeiInjector) (pkt : AVPacket) (ctx : Context)
    (s : Shared) : Except Stop (Answer × InjectorState × Shared) :=
  match sei.take p.rescale (p.heap SeiPayload) ctx pkt s.metaQueue.sei with
  | .error f => .error (.aborted f)
  | .ok (found, sei', rest) =>
      let s' := { s with metaQueue := { s.metaQueue with sei := rest } }
      match rewritePacket (found.metadata.map Metadata.val) pkt.data with
      | .ok data =>
          .ok (.frame ⟨sei, s.metaQueue.sei, ctx, pkt, found, { pkt with data }, sei', rest⟩,
            .ready ⟨ticker, some sei'⟩, s')
      | .error f =>
          if endsSession f then
            .ok (.failed ⟨sei, s.metaQueue.sei, ctx, pkt, found, pkt, sei', rest⟩, .closed, s')
          else .error (.aborted f)

/-- The thread of the output.  The stream with the captions is the time source, so that both
processors see the same packets. -/
def injector : Thread InjectorAction Stop Answer InjectorState Shared
  | .open_ streamTimeBase sei, .closed, s =>
      .ok (.silent, .ready ⟨.create streamTimeBase s.clock,
        if sei then some (.create streamTimeBase s.clock) else none⟩, s)
  | .tick pkt, .ready session, s =>
      let (ticker, clock) := session.ticker.process p.rescale s.clock pkt
      match session.sei with
      | none => .ok (.silent, .ready ⟨ticker, none⟩, { s with clock })
      | some sei => .ok (.silent, .ticked ticker sei pkt, { s with clock })
  | .readTsAdjustment, .ticked ticker sei pkt, s =>
      .ok (.silent, .adjusted ticker sei pkt s.tsAdjustment, s)
  | .getCurrentInput, .adjusted ticker sei pkt tsAdjustment, s =>
      match p.inputs.getInputById (s.currentInputsIds.get .sei) with
      | none => .error .nullDereference
      | some spec => .ok (.silent, .selected ticker sei pkt tsAdjustment (inputOf spec), s)
  | .query, .selected ticker sei pkt tsAdjustment input, s =>
      query p ticker sei pkt ⟨s.clock, tsAdjustment, input⟩ s
  | .close, .ready _, s => .ok (.silent, .closed, s)
  | _, _, _ => .error .disabled

/-! ## An input -/

structure InputSession where
  sei : Option SeiExtractor
  scte : Option ScteExtractor

inductive ExtractorState where
  | outside
  /-- The restart flag is cleared, the source and the sink are being opened. -/
  | entered
  /-- Every rescaler reads the clock for itself. -/
  | creating (streamTimeBase : TimeBase) (sei scte : Bool) (bases : List Int)
  | running (session : InputSession)
  /-- Some entries of the packet are still to be pushed. -/
  | pushing (session : InputSession) (pending : List AnyMetadata) (fault : Option Fault)
      (brk : Bool)
  /-- In front of `post_exit`. -/
  | leaving
  | droppedSei
  | dropped
  | stamped (reset : Metadata SeiPayload)

inductive ExtractorAction where
  | enter
  | open_ (streamTimeBase : TimeBase) (sei scte : Bool)
  | readClock
  | create
  /-- A packet of the time source, which is the stream with the captions if there is one. -/
  | timeSource (pkt : AVPacket)
  /-- A packet of the stream with the markers. -/
  | marker (pkt : AVPacket)
  | push
  | finish
  | leave
  | dropSei
  | dropScte
  | now
  | pushReset

/-- The processors of a session, each with two rescalers that were made one after the other. -/
def createSession (i : InputId) (streamTimeBase : TimeBase) (sei scte : Bool) (bases : List Int) :
    InputSession :=
  let rescaler (n : Nat) : TSRescaler := ⟨streamTimeBase, bases.getD n 0, none⟩
  let ofSei := if scte && p.scteFirst then 2 else 0
  let ofScte := if sei && !p.scteFirst then 2 else 0
  ⟨if sei then some ⟨i.toNat, rescaler ofSei, rescaler (ofSei + 1)⟩ else none,
    if scte then some ⟨i.toNat, rescaler ofScte, rescaler (ofScte + 1)⟩ else none⟩

def rescalers (sei scte : Bool) : Nat := (if sei then 2 else 0) + if scte then 2 else 0

/-- What the processors of the time source and of the captions make of a packet. -/
def processTimeSource (session : InputSession) (clock : Clock) (pkt : AVPacket) :
    InputSession × List AnyMetadata × Option Fault :=
  match session.sei with
  | none => (session, [], none)
  | some e =>
      let (pushed, e) := SeiExtractor.extract p.rescale clock pkt 0 (captions pkt.data) e
      ({ session with sei := some e }, pushed.map .sei, (scan pkt.data).2)

def processMarker (session : InputSession) (clock : Clock) (pkt : AVPacket) :
    InputSession × List AnyMetadata × Option Fault :=
  match session.scte with
  | none => (session, [], none)
  | some e =>
      let (sections, fault) := drain (scte35Parser p.order) pkt.data
      let (pushed, e) := ScteExtractor.extract p.rescale clock pkt sections e
      ({ session with scte := some e }, pushed.map .scte, fault)

/-- Behind the processors the loop goes on, breaks, or ends in an exception. -/
def finish (session : InputSession) (brk : Bool) : Option Fault → Except Stop ExtractorState
  | none => .ok (if brk then .leaving else .running session)
  | some (.parse _) => .ok (if brk then .leaving else .running session)
  | some (.overread _ _) => .ok (if brk then .leaving else .running session)
  | some f => if endsSession f then .ok .leaving else .error (.aborted f)

def extractor (i : InputId) : Thread ExtractorAction Stop Answer ExtractorState Shared
  | .enter, .outside, s =>
      if i ≠ 0 ∧ p.inputs.isInputIdValid i then
        .ok (.flagged i false, .entered,
          { s with restartScheduled := Function.update s.restartScheduled i false })
      else .error .disabled
  | .open_ streamTimeBase sei scte, .entered, s =>
      .ok (.silent, .creating streamTimeBase sei scte [], s)
  | .readClock, .creating streamTimeBase sei scte bases, s =>
      .ok (.silent, .creating streamTimeBase sei scte (bases ++ [s.clock.now]), s)
  | .create, .creating streamTimeBase sei scte bases, s =>
      if bases.length = rescalers sei scte then
        .ok (.silent, .running (createSession p i streamTimeBase sei scte bases), s)
      else .error .disabled
  | .timeSource pkt, .running session, s =>
      let (session, pending, fault) := processTimeSource p session s.clock pkt
      .ok (.silent, .pushing session pending fault (s.restartScheduled i), s)
  | .marker pkt, .running session, s =>
      let (session, pending, fault) := processMarker p session s.clock pkt
      .ok (.silent, .pushing session pending fault false, s)
  | .push, .pushing session (value :: pending) fault brk, s =>
      .ok (.pushed value, .pushing session pending fault brk,
        { s with metaQueue := s.metaQueue.push p.heap value })
  | .finish, .pushing session [] fault brk, s =>
      match finish session brk fault with
      | .ok state => .ok (.silent, state, s)
      | .error e => .error e
  | .leave, .entered, s => .ok (.silent, .leaving, s)
  | .leave, .creating _ _ _ _, s => .ok (.silent, .leaving, s)
  | .leave, .running _, s => .ok (.silent, .leaving, s)
  | .dropSei, .leaving, s =>
      let (count, metaQueue) := s.metaQueue.dropKind i.toNat .sei
      .ok (.dropped .sei i.toNat count, .droppedSei, { s with metaQueue })
  | .dropScte, .droppedSei, s =>
      let (count, metaQueue) := s.metaQueue.dropKind i.toNat .scte
      .ok (.dropped .scte i.toNat count, .dropped, { s with metaQueue })
  | .now, .dropped, s =>
      .ok (.silent, .stamped (buildCcResetMetadata i.toNat (s.clock.now + 1)), s)
  | .pushReset, .stamped reset, s =>
      .ok (.pushed (.sei reset), .outside,
        { s with metaQueue := s.metaQueue.push p.heap (.sei reset) })
  | _, _, _ => .error .disabled

/-! ## The REST server -/

/-- The exchanges that a checked request still has to make. -/
structure ControllerState where
  exchanges : List (Kind × InputId)

inductive ControllerAction where
  | setCurrentInputs (changeset : InputsChangeset)
  | exchange
  | setTsAdjustment (value : Int)
  | scheduleRestart (i : InputId)

def exchangesOf (changeset : InputsChangeset) : List (Kind × InputId) :=
  Kind.all.filterMap fun k => (changeset.get k).map fun id => (k, id)

/-- The thread of the REST server, which answers one request after the other.  A change of the
current inputs is checked in full before the first exchange, and a restart of the clear input is
ignored. -/
def controller : Thread ControllerAction Stop Answer ControllerState Shared
  | .setCurrentInputs changeset, ⟨[]⟩, s =>
      match Kind.all.forM (p.inputs.checkChange changeset) with
      | .error _ => .ok (.silent, ⟨[]⟩, s)
      | .ok () => .ok (.silent, ⟨exchangesOf changeset⟩, s)
  | .exchange, ⟨(k, id) :: exchanges⟩, s =>
      .ok (.exchanged k id, ⟨exchanges⟩,
        { s with currentInputsIds := s.currentInputsIds.exchange id k })
  | .setTsAdjustment value, ⟨[]⟩, s =>
      .ok (.adjusted value, ⟨[]⟩, { s with tsAdjustment := value })
  | .scheduleRestart i, ⟨[]⟩, s =>
      if i ≠ 0 ∧ p.inputs.isInputIdValid i then
        .ok (.flagged i true, ⟨[]⟩,
          { s with restartScheduled := Function.update s.restartScheduled i true })
      else .ok (.silent, ⟨[]⟩, s)
  | _, _, _ => .error .disabled

/-! ## All together -/

inductive ThreadId where
  | injector
  | controller
  | extractor (i : InputId)
deriving DecidableEq

abbrev ActionOf : ThreadId → Type
  | .injector => InjectorAction
  | .controller => ControllerAction
  | .extractor _ => ExtractorAction

abbrev StateOf : ThreadId → Type
  | .injector => InjectorState
  | .controller => ControllerState
  | .extractor _ => ExtractorState

def threads : (t : ThreadId) → Thread (ActionOf t) Stop Answer (StateOf t) Shared
  | .injector => injector p
  | .controller => controller p
  | .extractor i => extractor p i

abbrev Action := Threads.Action ActionOf

abbrev State := Threads.State StateOf Shared

abbrev Log := Threads.Log ActionOf Answer

def application : Machine Action Stop Answer State := Threads.interleave (threads p)

/-- The sums of timestamps that an action makes, where its thread stands. -/
def sums (s : Shared) : (t : ThreadId) → ActionOf t → StateOf t → Except Overflow Unit
  | .injector, .tick pkt, .ready session => do
      let _ ← session.ticker.processChecked p.rescale s.clock pkt.pts
      return ()
  | .injector, .query, .selected _ sei pkt tsAdjustment input => do
      let _ ← sei.sums p.rescale ⟨s.clock, tsAdjustment, input⟩ pkt.pts
      return ()
  | .extractor _, .timeSource pkt, .running ⟨some e, _⟩ => do
      let _ ← entryStamps p.rescale s.clock pkt (captions pkt.data).length e.ptsRescaler
        e.dtsRescaler
      return ()
  | .extractor _, .marker pkt, .running ⟨_, some e⟩ => do
      let _ ← entryStamps p.rescale s.clock pkt (drain (scte35Parser p.order) pkt.data).1.length
        e.ptsRescaler e.dtsRescaler
      return ()
  | .extractor _, .now, .dropped => do
      let _ ← toTs (s.clock.now + 1)
      return ()
  | _, _, _ => .ok ()

/-- The application as long as every sum of timestamps fits 64 bits. -/
def checkedApplication : Machine Action Stop Answer State :=
  (application p).guarded fun a s => (sums p s.shared a.1 a.2 (s.own a.1)).mapError .overflow

/-- No thread has begun. -/
def State.start (tsAdjustment : Int) (current : CurrentInputsIds) : State where
  own
    | .injector => InjectorState.closed
    | .controller => ⟨[]⟩
    | .extractor _ => ExtractorState.outside
  shared := .start tsAdjustment current

/-! ## An application with one input -/

def cameraInputs : List InputSpec := [⟨0, "clear"⟩, ⟨1, "camera"⟩]

theorem cameraInputs_sorted : cameraInputs.Pairwise fun a b => a.id < b.id := by
  unfold cameraInputs
  decide

/-- The clear input and one camera, with the functions of the common libraries. -/
def camera : Setup where
  rescale := .nearest
  heap := MetadataQueue.library
  order := ⟨.abc, .leftFirst⟩
  scteFirst := false
  inputs := ⟨cameraInputs, cameraInputs_sorted, ⟨0, "clear"⟩, List.mem_cons_self, rfl⟩

end App
end Metamix
