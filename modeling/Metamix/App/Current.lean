/-
Which input a frame is of.

A request exchanges the current ids one after the other while the output thread is at work.  A
frame reads the adjustment and the id once each, and everything it takes is of the input it read.
`current_valid` says that in every interleaving the id names an input, and `frames_selected` that
every frame is of the selection in force at a moment between its first action and its last.
-/
import Metamix.App.Effects
import Metamix.Queue.Moves

namespace Metamix
namespace App

open Lib Binary BinaryParser H264 Scte35 Time Queue Proc Control

/-! ## What a log says -/

def selection (current : CurrentInputsIds) (log : Log) : CurrentInputsIds :=
  log.foldl (fun cur entry =>
    match entry.2 with
    | .exchanged k id => cur.exchange id k
    | _ => cur) current

def adjustment (tsAdjustment : Int) (log : Log) : Int :=
  log.foldl (fun cur entry =>
    match entry.2 with
    | .adjusted value => value
    | _ => cur) tsAdjustment

def Answer.record : Answer → Option Processed
  | .frame record => some record
  | .failed record => some record
  | _ => none

def Valid (m : InputManager) (current : CurrentInputsIds) : Prop :=
  ∀ k, m.isInputIdValid (current.get k) = true

def Idle (log : Log) : Prop := ∀ entry ∈ log, entry.1.1 ≠ .injector

/-- The last thing the output thread has done, and the log in front of it. -/
def LastDone (a : InjectorAction) (before log : Log) : Prop :=
  ∃ between, log = before ++ (⟨.injector, a⟩, .silent) :: between ∧ Idle between

structure Initial where
  tsAdjustment : Int
  current : CurrentInputsIds

variable (p : Setup) (init : Initial)

def AdjustmentRead (pkt : AVPacket) (tsAdjustment : Int) (log : Log) : Prop :=
  ∃ before ticked, LastDone .readTsAdjustment before log ∧ LastDone (.tick pkt) ticked before ∧
    tsAdjustment = adjustment init.tsAdjustment before

/-- The frame has read the adjustment, and then the input that was selected. -/
def InputRead (pkt : AVPacket) (tsAdjustment : Int) (input : Input) (log : Log) : Prop :=
  ∃ before spec, LastDone .getCurrentInput before log ∧
    AdjustmentRead init pkt tsAdjustment before ∧
    p.inputs.getInputById ((selection init.current before).get .sei) = some spec ∧
    input = inputOf spec

/-- What the output thread has in hand. -/
def Reads (log : Log) : InjectorState → Prop
  | .ticked _ _ pkt => ∃ before, LastDone (.tick pkt) before log
  | .adjusted _ _ pkt tsAdjustment => AdjustmentRead init pkt tsAdjustment log
  | .selected _ _ pkt tsAdjustment input => InputRead p init pkt tsAdjustment input log
  | _ => True

/-- Every frame of the log was of the input that was selected when it read. -/
def FramesRead (log : Log) : Prop :=
  ∀ before a o after r, log = before ++ (a, o) :: after → o.record = some r →
    InputRead p init r.pkt r.ctx.tsAdjustment r.ctx.currentInput before ∧
      ∀ e ∈ r.found.metadata, e.inputId = r.ctx.currentInput.id

/-- The shared state is what the log says. -/
structure Follows (log : Log) (s : Shared) : Prop where
  current : s.currentInputsIds = selection init.current log
  tsAdjustment : s.tsAdjustment = adjustment init.tsAdjustment log
  valid : Valid p.inputs s.currentInputsIds
  frames : FramesRead p init log

/-- What holds of each thread: the exchanges to come name inputs, and the reads are in order. -/
def Stands : (t : ThreadId) → Log → StateOf t → Shared → Prop
  | .controller, _, k, _ => ∀ x ∈ k.exchanges, p.inputs.isInputIdValid x.2 = true
  | .injector, log, k, _ => Reads p init log k
  | .extractor _, _, _, _ => True

variable {p init}

/-! ## Logs that grow -/

theorem selection_concat (current : CurrentInputsIds) (log : Log) (entry : Action × Answer) :
    selection current (log ++ [entry]) = match entry.2 with
      | .exchanged k id => (selection current log).exchange id k
      | _ => selection current log := List.foldl_concat ..

theorem adjustment_concat (tsAdjustment : Int) (log : Log) (entry : Action × Answer) :
    adjustment tsAdjustment (log ++ [entry]) = match entry.2 with
      | .adjusted value => value
      | _ => adjustment tsAdjustment log := List.foldl_concat ..

theorem LastDone.here (a : InjectorAction) (log : Log) :
    LastDone a log (log ++ [(⟨.injector, a⟩, .silent)]) := ⟨[], rfl, List.forall_mem_nil _⟩

theorem LastDone.other {a : InjectorAction} {before log : Log} (h : LastDone a before log)
    {entry : Action × Answer} (hentry : entry.1.1 ≠ .injector) :
    LastDone a before (log ++ [entry]) := by
  obtain ⟨between, rfl, hidle⟩ := h
  refine ⟨between ++ [entry], by rw [List.append_assoc]; rfl, ?_⟩
  exact List.forall_mem_append.mpr ⟨hidle, List.forall_mem_singleton.mpr hentry⟩

theorem Reads.other {log : Log} {k : InjectorState} (h : Reads p init log k)
    {entry : Action × Answer} (hentry : entry.1.1 ≠ .injector) :
    Reads p init (log ++ [entry]) k := by
  cases k with
  | closed => trivial
  | ready session => trivial
  | ticked ticker sei pkt => exact h.imp fun _ hlast => hlast.other hentry
  | adjusted ticker sei pkt tsAdjustment =>
      obtain ⟨before, ticked, hlast, hticked, hread⟩ := h
      exact ⟨before, ticked, hlast.other hentry, hticked, hread⟩
  | selected ticker sei pkt tsAdjustment input =>
      obtain ⟨before, spec, hlast, hread⟩ := h
      exact ⟨before, spec, hlast.other hentry, hread⟩

theorem FramesRead.concat {log : Log} {entry : Action × Answer} (h : FramesRead p init log)
    (hentry : ∀ r, entry.2.record = some r →
      InputRead p init r.pkt r.ctx.tsAdjustment r.ctx.currentInput log ∧
        ∀ e ∈ r.found.metadata, e.inputId = r.ctx.currentInput.id) :
    FramesRead p init (log ++ [entry]) := by
  intro before a o after r hsplit hr
  rcases List.eq_nil_or_concat after with rfl | ⟨after, last, rfl⟩
  · obtain ⟨rfl, hlast⟩ := List.append_inj' hsplit rfl
    cases hlast
    exact hentry r hr
  · rw [List.concat_eq_append, ← List.cons_append, ← List.append_assoc] at hsplit
    obtain ⟨rfl, -⟩ := List.append_inj' hsplit rfl
    exact h before a o after r rfl hr

/-! ## The step -/

/-- The answer of a user-defined input comes out of the queue. -/
theorem popAll_of_runQuerySei {H : Heap SeiPayload} {id : Nat} {since until_ : Int}
    {q rest : MetadataQueue SeiPayload} {result : Option (List (Metadata SeiPayload))}
    (h : (Input.userDefined id).runQuerySei H since until_ q = .ok (result, rest)) :
    MetadataQueue.popAll H id since until_ q = .ok (result.getD [], rest) := by
  obtain ⟨⟨out, rest'⟩, hpop, -⟩ := of_bind_eq_ok h
  obtain ⟨result', h', hout⟩ := Input.runQuerySei_of_popAll hpop
  rw [h] at h'
  cases h'
  rw [hout]
  exact hpop

theorem take_inputId {H : Heap SeiPayload} {sei sei' : SeiInjector} {ctx : Context} {pkt : AVPacket}
    {q rest : MetadataQueue SeiPayload} {found : Found}
    (h : sei.take p.rescale H ctx pkt q = .ok (found, sei', rest)) :
    ∀ e ∈ found.metadata, e.inputId = ctx.currentInput.id := by
  obtain ⟨result, hquery, rfl, -⟩ := SeiInjector.take_eq_ok h
  have hreset (pts : Int) : ∀ e ∈ sei.resetFor ctx.currentInput.id pts,
      e.inputId = ctx.currentInput.id := by
    unfold SeiInjector.resetFor
    split
    · exact List.forall_mem_singleton.mpr rfl
    · exact List.forall_mem_nil _
  refine List.forall_mem_append.mpr ⟨hreset _, ?_⟩
  cases result with
  | none => exact List.forall_mem_singleton.mpr rfl
  | some out =>
      show ∀ e ∈ out, _
      cases hinput : ctx.currentInput with
      | clear id =>
          rw [hinput] at hquery
          cases hquery
          exact List.forall_mem_singleton.mpr rfl
      | userDefined id =>
          rw [hinput] at hquery
          have hpop := popAll_of_runQuerySei hquery
          exact fun e he => (of_decide_eq_true (MetadataQueue.popAll_wanted hpop e he)).2.2

theorem exchangesOf_valid {m : InputManager} {changeset : InputsChangeset}
    (h : Kind.all.forM (m.checkChange changeset) = .ok ()) :
    ∀ x ∈ exchangesOf changeset, m.isInputIdValid x.2 = true := by
  have hcheck (k : Kind) (hk : m.checkChange changeset k = .ok ()) (id : InputId)
      (hid : changeset.get k = some id) : m.isInputIdValid id = true := by
    unfold InputManager.checkChange at hk
    rw [hid] at hk
    simp only at hk
    split at hk
    · assumption
    · cases hk
  obtain ⟨u, hsei, h⟩ := of_bind_eq_ok h
  obtain ⟨u', hscte, -⟩ := of_bind_eq_ok h
  intro x hx
  obtain ⟨k, -, hk⟩ := List.mem_filterMap.mp hx
  obtain ⟨id, hid, rfl⟩ := Option.map_eq_some_iff.mp hk
  cases k with
  | sei => exact hcheck .sei hsei id hid
  | scte => exact hcheck .scte hscte id hid

theorem Valid.exchange {m : InputManager} {current : CurrentInputsIds} (h : Valid m current)
    {id : InputId} (hid : m.isInputIdValid id = true) (k : Kind) :
    Valid m (current.exchange id k) := by
  intro j
  cases k with
  | sei =>
      cases j with
      | sei => exact hid
      | scte => exact h .scte
  | scte =>
      cases j with
      | sei => exact h .sei
      | scte => exact hid

/-- What an action that makes no frame leaves of the log's account of the shared state. -/
theorem Follows.concat {log : Log} {s s' : Shared} {entry : Action × Answer}
    (h : Follows p init log s)
    (hcurrent : s'.currentInputsIds = match entry.2 with
      | .exchanged k id => s.currentInputsIds.exchange id k
      | _ => s.currentInputsIds)
    (htsAdjustment : s'.tsAdjustment = match entry.2 with
      | .adjusted value => value
      | _ => s.tsAdjustment)
    (hvalid : Valid p.inputs s'.currentInputsIds) (hframes : FramesRead p init (log ++ [entry])) :
    Follows p init (log ++ [entry]) s' where
  current := by rw [hcurrent, selection_concat, h.current]
  tsAdjustment := by rw [htsAdjustment, adjustment_concat, h.tsAdjustment]
  valid := hvalid
  frames := hframes

/-- The step: an action keeps the account, if an exchange is one of those that were checked and a
query is made with what was read. -/
theorem Effect.follows {log : Log} {s s' : Shared} {a : Action} {o : Answer}
    (heffect : Effect p s o s') (h : Follows p init log s)
    (hexchange : ∀ k id, o = .exchanged k id → p.inputs.isInputIdValid id = true)
    (hquery : ∀ r, o.record = some r → InputRead p init r.pkt r.ctx.tsAdjustment
      r.ctx.currentInput log) :
    Follows p init (log ++ [(a, o)]) s' := by
  have hnone (ho : o.record = none) : FramesRead p init (log ++ [(a, o)]) :=
    h.frames.concat fun r hr => absurd (ho.symm.trans hr) (by simp)
  cases heffect with
  | quiet => exact h.concat rfl rfl h.valid (hnone rfl)
  | tick clock hle htimeBase => exact h.concat rfl rfl h.valid (hnone rfl)
  | exchange k id => exact h.concat rfl rfl (h.valid.exchange (hexchange k id rfl) k) (hnone rfl)
  | adjust tsAdjustment => exact h.concat rfl rfl h.valid (hnone rfl)
  | flag i scheduled => exact h.concat rfl rfl h.valid (hnone rfl)
  | push value => exact h.concat rfl rfl h.valid (hnone rfl)
  | drop i k => exact h.concat rfl rfl h.valid (hnone rfl)
  | query hclock htake ho =>
      have hframes : FramesRead p init (log ++ [(a, o)]) := by
        refine h.frames.concat fun r hr => ⟨hquery r hr, ?_⟩
        cases ho <;> cases hr <;> exact take_inputId htake
      cases ho <;> exact h.concat rfl rfl h.valid hframes

theorem injector_reads {log : Log} {a : InjectorAction} {k k' : InjectorState} {s s' : Shared}
    {o : Answer} (hs : Follows p init log s) (h : Reads p init log k)
    (hstep : injector p a k s = .ok (o, k', s')) :
    (∀ r, o.record = some r → InputRead p init r.pkt r.ctx.tsAdjustment r.ctx.currentInput log) ∧
      (∀ j id, o ≠ .exchanged j id) ∧
      Reads p init (log ++ [(⟨.injector, a⟩, o)]) k' := by
  have hsilent : ∀ r, Answer.silent.record = some r →
      InputRead p init r.pkt r.ctx.tsAdjustment r.ctx.currentInput log := fun r hr => by cases hr
  have hquiet : ∀ j id, Answer.silent ≠ .exchanged j id := fun j id ho => by cases ho
  unfold injector at hstep
  split at hstep
  · cases hstep
    exact ⟨hsilent, hquiet, trivial⟩
  · simp only at hstep
    split at hstep <;> cases hstep
    · exact ⟨hsilent, hquiet, trivial⟩
    · exact ⟨hsilent, hquiet, log, LastDone.here _ _⟩
  · cases hstep
    obtain ⟨ticked, hticked⟩ := h
    exact ⟨hsilent, hquiet, log, ticked, LastDone.here _ _, hticked, hs.tsAdjustment⟩
  · split at hstep
    · cases hstep
    · next spec hspec =>
        cases hstep
        rw [hs.current] at hspec
        exact ⟨hsilent, hquiet, log, spec, LastDone.here _ _, h, hspec, rfl⟩
  · unfold query at hstep
    split at hstep
    · cases hstep
    · simp only at hstep
      split at hstep
      · cases hstep
        refine ⟨fun r hr => ?_, fun j id ho => ?_, trivial⟩
        · cases hr
          exact h
        · cases ho
      · split at hstep <;> cases hstep
        refine ⟨fun r hr => ?_, fun j id ho => ?_, trivial⟩
        · cases hr
          exact h
        · cases ho
  · cases hstep
    exact ⟨hsilent, hquiet, trivial⟩
  · cases hstep

theorem extractor_silent {i : InputId} {a : ExtractorAction} {k k' : ExtractorState}
    {s s' : Shared} {o : Answer} (hstep : extractor p i a k s = .ok (o, k', s')) :
    o.record = none ∧ ∀ j id, o ≠ .exchanged j id := by
  unfold extractor at hstep
  split at hstep <;> try split at hstep
  all_goals cases hstep
  all_goals exact ⟨rfl, fun j id ho => by cases ho⟩

theorem controller_stands {a : ControllerAction} {k k' : ControllerState}
    {s s' : Shared} {o : Answer} (h : ∀ x ∈ k.exchanges, p.inputs.isInputIdValid x.2 = true)
    (hstep : controller p a k s = .ok (o, k', s')) :
    o.record = none ∧ (∀ j id, o = .exchanged j id → p.inputs.isInputIdValid id = true) ∧
      ∀ x ∈ k'.exchanges, p.inputs.isInputIdValid x.2 = true := by
  unfold controller at hstep
  split at hstep
  · split at hstep
    · cases hstep
      exact ⟨rfl, fun j id ho => by (cases ho), h⟩
    · next hcheck =>
        cases hstep
        exact ⟨rfl, fun j id ho => by (cases ho), exchangesOf_valid hcheck⟩
  · cases hstep
    obtain ⟨hfirst, hrest⟩ := List.forall_mem_cons.mp h
    refine ⟨rfl, fun j id ho => ?_, hrest⟩
    cases ho
    exact hfirst
  · cases hstep
    exact ⟨rfl, fun j id ho => by (cases ho), h⟩
  · split at hstep <;> cases hstep
    · exact ⟨rfl, fun j id ho => by (cases ho), h⟩
    · exact ⟨rfl, fun j id ho => by (cases ho), h⟩
  · cases hstep

/-- The run: the account holds behind every interleaving. -/
theorem follows_run (hvalid : Valid p.inputs init.current) {acts : List Action} {log : Log}
    {s : State}
    (hlog : (application p).log acts (.start init.tsAdjustment init.current) = .ok (log, s)) :
    Follows p init log s.shared := by
  have hstart : Follows p init [] (Shared.start init.tsAdjustment init.current) :=
    ⟨rfl, rfl, hvalid, fun before a o after r h => by simp at h⟩
  have hstands : ∀ t, Stands p init t [] ((State.start init.tsAdjustment init.current).own t)
      (Shared.start init.tsAdjustment init.current) := by
    intro t
    cases t with
    | injector => trivial
    | controller => exact List.forall_mem_nil _
    | extractor i => trivial
  refine (Threads.history (J := Follows p init) (P := Stands p init) ?_ ?_ hstart hstands hlog).1
  · intro t a log k s o k' s' hs hk hstep
    have heffect := threads_effect hstep
    cases t with
    | injector =>
        obtain ⟨hquery, hquiet, hreads⟩ := injector_reads hs hk hstep
        exact ⟨heffect.follows hs (fun j id ho => absurd ho (hquiet j id)) hquery, hreads⟩
    | controller =>
        obtain ⟨hrecord, hexchange, hrest⟩ := controller_stands hk hstep
        refine ⟨heffect.follows hs hexchange fun r hr => ?_, hrest⟩
        rw [hrecord] at hr
        cases hr
    | extractor i =>
        obtain ⟨hrecord, hquiet⟩ := extractor_silent hstep
        refine ⟨heffect.follows hs (fun j id ho => absurd ho (hquiet j id)) fun r hr => ?_, trivial⟩
        rw [hrecord] at hr
        cases hr
  · intro t j a log k s o kj kj' s' hne hs hk hkj hstep
    cases t with
    | injector => exact Reads.other hk (Ne.symm hne)
    | controller => exact hk
    | extractor i => trivial

/-! ## What a frame is of -/

/-- An input is missing only where the current id names none. -/
theorem getInputById_of_nullDereference {t : ThreadId} {a : ActionOf t} {k : StateOf t} {s : Shared}
    (h : threads p t a k s = .error .nullDereference) :
    p.inputs.getInputById (s.currentInputsIds.get .sei) = none := by
  cases t with
  | injector =>
      change injector p a k s = _ at h
      unfold injector at h
      split at h
      · cases h
      · simp only at h
        split at h <;> cases h
      · cases h
      · split at h
        · assumption
        · cases h
      · unfold query at h
        split at h
        · cases h
        · simp only at h
          split at h
          · cases h
          · split at h <;> cases h
      · cases h
      · cases h
  | controller =>
      change controller p a k s = _ at h
      unfold controller at h
      split at h <;> try split at h
      all_goals cases h
  | extractor i =>
      change extractor p i a k s = _ at h
      unfold extractor at h
      split at h <;> try split at h
      all_goals try cases h
      next hfinish =>
        unfold finish at hfinish
        split at hfinish <;> try split at hfinish
        all_goals cases hfinish

/-- In every interleaving of the threads the current ids name inputs, and the output thread never
dereferences a missing one. -/
theorem current_valid (p : Setup) (init : Initial) (hvalid : Valid p.inputs init.current)
    (acts : List Action) :
    (application p).run acts (.start init.tsAdjustment init.current) ≠ .error .nullDereference ∧
      ∀ s, (application p).run acts (.start init.tsAdjustment init.current) = .ok s →
        Valid p.inputs s.shared.currentInputsIds := by
  have hreached (acts : List Action) (s : State)
      (hrun : (application p).run acts (.start init.tsAdjustment init.current) = .ok s) :
      Valid p.inputs s.shared.currentInputsIds := by
    obtain ⟨log, hlog⟩ := Machine.exists_log hrun
    exact (follows_run hvalid hlog).valid
  refine ⟨fun hnull => ?_, hreached acts⟩
  obtain ⟨pre, a, post, s, -, hrun, hstep⟩ := Machine.run_eq_error_iff.mp hnull
  have hthread : threads p a.1 a.2 (s.own a.1) s.shared = .error .nullDereference := by
    unfold application Threads.interleave at hstep
    split at hstep
    · next hthread =>
        cases hstep
        exact hthread
    · cases hstep
  have hsome := hreached pre s hrun .sei
  rw [InputManager.isInputIdValid, getInputById_of_nullDereference hthread] at hsome
  cases hsome

theorem valid_camera : Valid camera.inputs .initial := by
  intro k
  cases k <;> decide

/-- In every interleaving of the threads, a frame first sees its packet, then reads the adjustment
and the input in force at that time, and all its metadata is of that input. -/
theorem frames_selected {p : Setup} (init : Initial) (hvalid : Valid p.inputs init.current)
    {acts : List Action} {before after : Log} {a : Action} {o : Answer} {s : State} {r : Processed}
    (hlog : (application p).log acts (.start init.tsAdjustment init.current) =
      .ok (before ++ (a, o) :: after, s)) (hr : o.record = some r) :
    InputRead p init r.pkt r.ctx.tsAdjustment r.ctx.currentInput before ∧
      ∀ e ∈ r.found.metadata, e.inputId = r.ctx.currentInput.id :=
  (follows_run hvalid hlog).frames before a o after r rfl hr

/-- One frame of the clear input. -/
theorem frames_selected_camera :
    ∃ before a o s r, (application camera).log
        [⟨.injector, .open_ Clock.defaultTimeBase true⟩, ⟨.injector, .tick ⟨5, 5, []⟩⟩,
          ⟨.injector, .readTsAdjustment⟩, ⟨.injector, .getCurrentInput⟩, ⟨.injector, .query⟩]
        (.start 0 .initial) = .ok (before ++ [(a, o)], s) ∧ o.record = some r ∧
      ∀ e ∈ r.found.metadata, e.inputId = r.ctx.currentInput.id := by
  have hlog : ∃ r s, (application camera).log
      [⟨.injector, .open_ Clock.defaultTimeBase true⟩, ⟨.injector, .tick ⟨5, 5, []⟩⟩,
        ⟨.injector, .readTsAdjustment⟩, ⟨.injector, .getCurrentInput⟩, ⟨.injector, .query⟩]
      (.start 0 .initial) = .ok ([(⟨.injector, .open_ Clock.defaultTimeBase true⟩, .silent),
        (⟨.injector, .tick ⟨5, 5, []⟩⟩, .silent), (⟨.injector, .readTsAdjustment⟩, .silent),
        (⟨.injector, .getCurrentInput⟩, .silent)] ++ [(⟨.injector, .query⟩, .frame r)], s) :=
    ⟨_, _, rfl⟩
  obtain ⟨r, s, hlog⟩ := hlog
  exact ⟨_, _, _, s, r, hlog, rfl,
    (frames_selected ⟨0, .initial⟩ valid_camera hlog rfl).2⟩

end App
end Metamix
