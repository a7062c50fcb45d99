/-
A session of a stream, from the opening of the source to the end of the scope.

`extractor` and `injector` open a source and a sink, copy the streams, classify them, write the
header and remux until the source ends, a processor asks for a break or something is thrown.  The
destructors of the two handles run in any case, and `post_exit` runs behind those of an input.
`supervised` starts the next session.  `supervised_resources` says what of FFmpeg is in use behind
any number of sessions: the library takes every call, and only the contexts that no handle owned yet
when something was thrown are left.  The library is a parameter of which `Avformat` holds what is
documented, which does not say whether the sinks can be closed as the handles close them.
-/
import Metamix.Lib.Scope
import Metamix.Io.Classification

namespace Metamix
namespace Io

open Lib Time

/-! ## FFmpeg -/

/-- The calls of a session, with the code that FFmpeg returns where it matters. -/
inductive Call where
  | allocContext
  | openInput (e : Int)
  | findStreamInfo
  | readFrame
  | closeSource
  | allocOutput (e : Int)
  | openFile
  | newStream
  | copyParameters
  | writeHeader (e : Int)
  | writeFrame
  | writeTrailer
  | closeSink
  | postExit
deriving DecidableEq, Repr

inductive SourceContext where
  | allocated
  | opened
deriving DecidableEq, Repr

inductive SinkContext where
  | allocated
  | started
  | finished
deriving DecidableEq, Repr

/-- The contexts that are not freed, the last one first. -/
structure Contexts where
  sources : List SourceContext := []
  sinks : List SinkContext := []
deriving DecidableEq, Repr

namespace Contexts

def withSource (r : Contexts) (c : SourceContext) : Contexts := { r with sources := c :: r.sources }

def withSink (r : Contexts) (c : SinkContext) : Contexts := { r with sinks := c :: r.sinks }

/-- Frees a sink that owes no trailer. -/
def freeSink : Contexts → Option Contexts
  | ⟨sources, .allocated :: sinks⟩ => some ⟨sources, sinks⟩
  | ⟨sources, .finished :: sinks⟩ => some ⟨sources, sinks⟩
  | _ => none

theorem freeSink_withSink {r r' : Contexts} {c : SinkContext}
    (h : (r.withSink c).freeSink = some r') : r' = r := by
  cases c with
  | allocated => exact (Option.some.inj h).symm
  | started => cases h
  | finished => exact (Option.some.inj h).symm

end Contexts

/-- libavformat: what it makes of the contexts, or that it does not take a call there.  The laws are
what it documents.  `avformat_open_input` frees the context when it fails.  The deleter of a context
calls `avformat_close_input`, which is documented for a source that is open.  Nothing says that it
takes a sink. -/
structure Avformat where
  allow : Contexts → Call → Option Contexts
  allocContext (r : Contexts) : allow r .allocContext = some (r.withSource .allocated)
  openInput (r : Contexts) (e : Int) : allow (r.withSource .allocated) (.openInput e) =
    some (if e < 0 then r else r.withSource .opened)
  findStreamInfo (r : Contexts) :
    allow (r.withSource .opened) .findStreamInfo = some (r.withSource .opened)
  readFrame (r : Contexts) : allow (r.withSource .opened) .readFrame = some (r.withSource .opened)
  closeSource (r : Contexts) : allow (r.withSource .opened) .closeSource = some r
  allocOutput (r : Contexts) (e : Int) : allow r (.allocOutput e) =
    some (if e < 0 then r else r.withSink .allocated)
  openFile (r : Contexts) : allow (r.withSink .allocated) .openFile = some (r.withSink .allocated)
  newStream (r : Contexts) : allow (r.withSink .allocated) .newStream = some (r.withSink .allocated)
  copyParameters (r : Contexts) :
    allow (r.withSink .allocated) .copyParameters = some (r.withSink .allocated)
  writeHeader (r : Contexts) (e : Int) : allow (r.withSink .allocated) (.writeHeader e) =
    some (r.withSink (if e < 0 then .allocated else .started))
  writeFrame (r : Contexts) : allow (r.withSink .started) .writeFrame = some (r.withSink .started)
  writeTrailer (r : Contexts) :
    allow (r.withSink .started) .writeTrailer = some (r.withSink .finished)
  closeSink {r r' : Contexts} {c : SinkContext}
    (h : allow (r.withSink c) .closeSink = some r') : r' = r

/-- The library as it is built: it takes a sink as well. -/
def Avformat.common : Avformat where
  allow
    | r, .allocContext => some (r.withSource .allocated)
    | ⟨.allocated :: sources, sinks⟩, .openInput e =>
        some (if e < 0 then ⟨sources, sinks⟩ else ⟨.opened :: sources, sinks⟩)
    | ⟨.opened :: sources, sinks⟩, .findStreamInfo => some ⟨.opened :: sources, sinks⟩
    | ⟨.opened :: sources, sinks⟩, .readFrame => some ⟨.opened :: sources, sinks⟩
    | ⟨.opened :: sources, sinks⟩, .closeSource => some ⟨sources, sinks⟩
    | r, .allocOutput e => some (if e < 0 then r else r.withSink .allocated)
    | ⟨sources, .allocated :: sinks⟩, .openFile => some ⟨sources, .allocated :: sinks⟩
    | ⟨sources, .allocated :: sinks⟩, .newStream => some ⟨sources, .allocated :: sinks⟩
    | ⟨sources, .allocated :: sinks⟩, .copyParameters => some ⟨sources, .allocated :: sinks⟩
    | ⟨sources, .allocated :: sinks⟩, .writeHeader e =>
        some ⟨sources, (if e < 0 then .allocated else .started) :: sinks⟩
    | ⟨sources, .started :: sinks⟩, .writeFrame => some ⟨sources, .started :: sinks⟩
    | ⟨sources, .started :: sinks⟩, .writeTrailer => some ⟨sources, .finished :: sinks⟩
    | r, .closeSink => r.freeSink
    | _, _ => none
  allocContext _ := rfl
  openInput _ _ := rfl
  findStreamInfo _ := rfl
  readFrame _ := rfl
  closeSource _ := rfl
  allocOutput _ _ := rfl
  openFile _ := rfl
  newStream _ := rfl
  copyParameters _ := rfl
  writeHeader _ _ := rfl
  writeFrame _ := rfl
  writeTrailer _ := rfl
  closeSink h := Contexts.freeSink_withSink h

/-- The contexts, and how often `post_exit` has run. -/
structure Resources extends Contexts where
  exits : Nat := 0
deriving DecidableEq, Repr

namespace Resources

def withSource (r : Resources) (c : SourceContext) : Resources :=
  { r with sources := c :: r.sources }

def withSink (r : Resources) (c : SinkContext) : Resources := { r with sinks := c :: r.sinks }

end Resources

namespace Avformat

variable (L : Avformat)

/-- What a call does.  `post_exit` is not the library's. -/
def step (r : Resources) (call : Call) : Option Resources :=
  if call = .postExit then some { r with exits := r.exits + 1 }
  else (L.allow r.toContexts call).map fun contexts => ⟨contexts, r.exits⟩

variable {L}

theorem step_of_allow {r : Resources} {call : Call} {s : Contexts} (hcall : call ≠ .postExit)
    (h : L.allow r.toContexts call = some s) : L.step r call = some ⟨s, r.exits⟩ := by
  rw [step, if_neg hcall, h]
  rfl

end Avformat

structure Ffmpeg where
  rescale : AvRescale
  formats : Formats
  strerror : Int → String

def Ffmpeg.runtimeError (F : Ffmpeg) (description : String) (e : Int) : RuntimeError :=
  .other (description ++ ": " ++ F.strerror e)

/-- What a session meets.  The source ends behind the rounds. -/
structure World where
  allocContext : Bool
  findInputFormat : Bool
  openInput : Int
  findStreamInfo : Int
  context : FormatContext
  source : SourceHandle
  allocOutput : Int
  nofile : Bool
  openFile : Int
  newStream : Nat → Bool
  copyParameters : Nat → Int
  writeHeader : Int
  sink : SinkHandle
  rounds : List Round

/-! ## Handles -/

structure Handles where
  source : Bool := false
  sink : Bool := false
  shouldWriteTrailer : Bool := false
deriving DecidableEq, Repr

structure IoSpec where
  sink : String
  sourceFormat : Option String

abbrev Session := Prog Handles Call RuntimeError Unit

variable (F : Ffmpeg) (spec : IoSpec) (w : World)

namespace SourceHandle

/-- `SourceHandle::open`.  The context is owned from the last line on. -/
def open_ : Session := do
  Prog.check (w.allocContext = false) (.other "Could not allocate memory for format context")
  Prog.call .allocContext
  Prog.check (spec.sourceFormat ≠ none ∧ w.findInputFormat = false)
    (.other ("Unknown input format " ++ spec.sourceFormat.getD ""))
  Prog.call (.openInput w.openInput)
  Prog.check (w.openInput < 0) (F.runtimeError "Could not open source stream" w.openInput)
  Prog.call .findStreamInfo
  Prog.check (w.findStreamInfo < 0) (F.runtimeError "Could not find stream info" w.findStreamInfo)
  Prog.modify fun h => { h with source := true }

/-- The destructor. -/
def close : Prog Handles Call Empty Unit := do
  Prog.callIf Handles.source .closeSource
  Prog.modify fun h => { h with source := false }

end SourceHandle

namespace SinkHandle

/-- `SinkHandle::open`.  The context is owned from the last line on. -/
def open_ : Session := do
  Prog.call (.allocOutput w.allocOutput)
  Prog.check (w.allocOutput < 0) (F.runtimeError "Could not open sink stream" w.allocOutput)
  Prog.callIf (fun _ => !w.nofile) .openFile
  Prog.check (w.nofile = false ∧ w.openFile < 0)
    (F.runtimeError ("Could not open sink " ++ spec.sink) w.openFile)
  Prog.modify fun h => { h with sink := true }

def copyStream (i : Nat) : Session := do
  Prog.call .newStream
  Prog.check (w.newStream i = false) (.other "Failed allocating sink stream")
  Prog.call .copyParameters
  Prog.check (w.copyParameters i < 0)
    (F.runtimeError "Failed to set up sink codec parameters" (w.copyParameters i))

def initRemuxing : Session := Prog.forEach (copyStream F w) (List.range w.context.codecs.length)

def start : Session := do
  Prog.call (.writeHeader w.writeHeader)
  Prog.check (w.writeHeader < 0) (F.runtimeError "Could not write header in sink" w.writeHeader)
  Prog.modify fun h => { h with shouldWriteTrailer := true }

/-- The destructor. -/
def close : Prog Handles Call Empty Unit := do
  Prog.callIf Handles.shouldWriteTrailer .writeTrailer
  Prog.callIf Handles.sink .closeSink
  Prog.modify fun h => { h with sink := false, shouldWriteTrailer := false }

end SinkHandle

/-! ## Sessions -/

def writes (source : SourceHandle) (s : LoopState) : Round → Bool
  | .packet pkt (.ok _) _ =>
      match getStream s.sink.streams pkt.streamIndex, getStream source.streams pkt.streamIndex with
      | .ok st, .ok _ => decide (¬NonMono s.sink.tsNonstrict st pkt ∧
          ¬(pkt.dts ≠ avNoptsValue ∧ pkt.pts ≠ avNoptsValue ∧ pkt.pts < pkt.dts))
      | _, _ => false
  | _ => false

/-- `remux_loop` with the calls it makes. -/
def remuxAll (A : AvRescale) (source : SourceHandle) : List Round → LoopState → Session
  | [], _ => Prog.call .readFrame
  | round :: rounds, s => do
      Prog.call .readFrame
      Prog.callIf (fun _ => writes source s round) .writeFrame
      match remuxLoop A source round s with
      | .ok ((), s') => remuxAll A source rounds s'
      | .error (.thrown e) => Prog.throw e
      | .error _ => pure ()

/-- What stands between the constructors and the destructors. -/
def scope : Session := do
  SourceHandle.open_ F spec w
  SinkHandle.open_ F spec w
  SinkHandle.initRemuxing F w
  let sc ← Prog.lift (classifyStreams F.formats w.context)
  Prog.lift (sc.require .timeSource)
  SinkHandle.start F w
  remuxAll F.rescale w.source w.rounds ⟨0, 0, w.sink⟩

/-- The source is made behind the sink and so destroyed before it. -/
def injector : Session := do
  Prog.modify fun _ => {}
  ((scope F spec w).scopeExit SourceHandle.close).scopeExit SinkHandle.close

def extractor : Session := (injector F spec w).scopeExit (Prog.call .postExit)

def supervised (f : World → Session) (restart : Bool) (worlds : List World) :
    Prog Handles Call Empty Unit :=
  Prog.forEach (fun w => (f w).attempt) (if restart then worlds else worlds.take 1)

/-! ## What is left -/

def Opened : Prop :=
  w.allocContext = true ∧ ¬(spec.sourceFormat ≠ none ∧ w.findInputFormat = false) ∧
    ¬w.openInput < 0 ∧ ¬w.findStreamInfo < 0

instance : Decidable (Opened spec w) := inferInstanceAs (Decidable (_ ∧ _))

/-- The context of a source that nobody frees: the format is unknown, or the streams are. -/
def lostSource : List SourceContext :=
  if w.allocContext = false then []
  else if spec.sourceFormat ≠ none ∧ w.findInputFormat = false then [.allocated]
  else if w.openInput < 0 then []
  else if w.findStreamInfo < 0 then [.opened]
  else []

def lostSink : List SinkContext :=
  if Opened spec w ∧ ¬w.allocOutput < 0 ∧ w.nofile = false ∧ w.openFile < 0 then [.allocated]
  else []

variable {F spec w}

theorem Opened.lostSource (h : Opened spec w) : lostSource spec w = [] := by
  obtain ⟨halloc, hformat, hopen, hinfo⟩ := h
  rw [Io.lostSource, if_neg (by simp [halloc]), if_neg hformat, if_neg hopen, if_neg hinfo]

def Resources.owned (r : Resources) (h : Handles) : Resources where
  sources := if h.source then .opened :: r.sources else r.sources
  sinks :=
    if h.sink then (if h.shouldWriteTrailer then .started else .allocated) :: r.sinks else r.sinks
  exits := r.exits

/-- The objects are `h`, and `r` is in use besides. -/
def Owns (h : Handles) (r : Resources) (s : Handles) (t : Resources) : Prop := s = h ∧ t = r.owned h

variable {L : Avformat}

/-- The library takes a call, which leaves `r'` besides what the handles own. -/
theorem Owns.call {h : Handles} {r : Resources} (r' : Resources) {c : Call}
    {R : RuntimeError → Handles → Resources → Prop}
    (hcall : c ≠ .postExit) (hexits : r'.exits = r.exits)
    (hallow : L.allow (r.owned h).toContexts c = some (r'.owned h).toContexts) :
    Prog.Triple L.step (Owns h r) (Prog.call c) (fun _ => Owns h r') R := by
  refine Prog.Triple.call fun s t hst => ⟨r'.owned h, ?_, hst.1, rfl⟩
  rw [hst.2, Avformat.step_of_allow hcall hallow]
  show some (Resources.mk (r'.owned h).toContexts r.exits) = some (r'.owned h)
  rw [← hexits]
  rfl

namespace SourceHandle

end SourceHandle

namespace SinkHandle

end SinkHandle

/-- What stands in front of the destructors: the session has lost what it has lost, and a trailer
is due only if there is a sink. -/
def Leaves (r : Resources) (s : Handles) (t : Resources) : Prop :=
  (s.shouldWriteTrailer = true → s.sink = true) ∧ t = r.owned s

theorem Owns.leaves {h s : Handles} {r t : Resources} (hst : Owns h r s t)
    (htrailer : h.shouldWriteTrailer = true → h.sink = true) : Leaves r s t := by
  obtain ⟨rfl, rfl⟩ := hst
  exact ⟨htrailer, rfl⟩

def calls (f : World → Session) (restart : Bool) (worlds : List World) : List Call :=
  (supervised f restart worlds {}).2.2

def left (spec : IoSpec) (exits : Nat) (ws : List World) : Resources where
  sources := ws.reverse.flatMap (lostSource spec)
  sinks := ws.reverse.flatMap (lostSink spec)
  exits := exits

def World.empty : World where
  allocContext := true
  findInputFormat := true
  openInput := 0
  findStreamInfo := 0
  context := ⟨none, none, [.other], 0⟩
  source := ⟨[⟨Clock.defaultTimeBase, .video, 0⟩]⟩
  allocOutput := 0
  nofile := false
  openFile := 0
  newStream _ := true
  copyParameters _ := 0
  writeHeader := 0
  sink := ⟨[⟨Clock.defaultTimeBase, .video, 0⟩], false⟩
  rounds := []

end Io
end Metamix
