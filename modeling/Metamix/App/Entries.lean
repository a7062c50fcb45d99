/-
Where the entries of the queues go.

Captions are pushed by the inputs, taken by the frames of the output, and dropped or overtaken on
the way.  `entries_accounted` says of every interleaving that none is made up and none is handed
out twice, also when a drop has left the vector without the order of a heap.  Nothing takes
markers, so `markers_kept` can say exactly what their queue holds of an input.
-/
import Metamix.App.Current
import Metamix.Queue.Isolation
import Metamix.Scte35.Accepted

namespace Metamix
namespace App

open Lib Binary BinaryParser H264 Scte35 Time Queue Proc Control MetadataQueue

/-! ## What a log says of the queues -/

def pushedSei (log : Log) : List (Metadata SeiPayload) :=
  log.filterMap fun entry =>
    match entry.2 with
    | .pushed (.sei value) => some value
    | _ => none

/-- What a frame took out of the queue.  The virtual input makes up its answer. -/
def takenOut (r : Processed) : List (Metadata SeiPayload) :=
  match r.ctx.currentInput with
  | .userDefined _ => r.found.popped
  | .clear _ => []

def takenSei (log : Log) : List (Metadata SeiPayload) :=
  log.flatMap fun entry => (entry.2.record.map takenOut).getD []

def pushedScte (i : Nat) (log : Log) : List (Metadata SpliceInfoSection) :=
  (log.filterMap fun entry =>
    match entry.2 with
    | .pushed (.scte value) => some value
    | _ => none).filter (ofInput i)

def Leaves (i : Nat) (o : Answer) : Prop := ∃ count, o = .dropped .scte i count

/-- What has happened since the input was last left, or from the start. -/
def SinceLeft (i : Nat) (log after : Log) : Prop :=
  (after = log ∨ ∃ before a o, Leaves i o ∧ log = before ++ (a, o) :: after) ∧
    ∀ entry ∈ after, ¬Leaves i entry.2

variable {p : Setup}

/-! ## The step -/

/-- What a frame takes and what it leaves was in the queue. -/
theorem take_subperm {H : Heap SeiPayload} (hH : H.Moves) {sei sei' : SeiInjector} {ctx : Context}
    {pkt : AVPacket} {q rest : MetadataQueue SeiPayload} {found : Found} {out : AVPacket}
    (h : sei.take p.rescale H ctx pkt q = .ok (found, sei', rest)) :
    (takenOut ⟨sei, q, ctx, pkt, found, out, sei', rest⟩ ++ rest).Subperm q := by
  obtain ⟨result, hquery, rfl, -⟩ := SeiInjector.take_eq_ok h
  unfold takenOut
  cases hinput : ctx.currentInput with
  | clear id =>
      rw [hinput] at hquery
      cases hquery
      exact List.Subperm.refl _
  | userDefined id =>
      rw [hinput] at hquery
      exact MetadataQueue.popAll_subperm hH (popAll_of_runQuerySei hquery)

def Accounted (log : Log) (s : Shared) : Prop :=
  (takenSei log ++ s.metaQueue.sei).Subperm (pushedSei log)

theorem pushedSei_concat (log : Log) (a : Action) (o : Answer) :
    pushedSei (log ++ [(a, o)]) = pushedSei log ++ pushedSei [(a, o)] := List.filterMap_append ..

theorem takenSei_concat (log : Log) (a : Action) (o : Answer) :
    takenSei (log ++ [(a, o)]) = takenSei log ++ takenSei [(a, o)] := List.flatMap_append ..

/-- An action that pushes nothing keeps the account if what it takes and leaves was queued. -/
theorem Accounted.concat {log : Log} {s s' : Shared} {a : Action} {o : Answer}
    (h : Accounted log s) (hpushed : pushedSei [(a, o)] = [])
    (htaken : (takenSei [(a, o)] ++ s'.metaQueue.sei).Subperm s.metaQueue.sei) :
    Accounted (log ++ [(a, o)]) s' := by
  unfold Accounted
  rw [pushedSei_concat, takenSei_concat, hpushed, List.append_nil, List.append_assoc]
  exact ((List.subperm_append_left _).mpr htaken).trans h

theorem Effect.accounted (hmoves : (p.heap SeiPayload).Moves) {log : Log} {s s' : Shared}
    {a : Action} {o : Answer} (heffect : Effect p s o s') (h : Accounted log s) :
    Accounted (log ++ [(a, o)]) s' := by
  cases heffect with
  | quiet => exact h.concat rfl (List.Subperm.refl _)
  | tick clock hle htimeBase => exact h.concat rfl (List.Subperm.refl _)
  | exchange k id => exact h.concat rfl (List.Subperm.refl _)
  | adjust tsAdjustment => exact h.concat rfl (List.Subperm.refl _)
  | flag i scheduled => exact h.concat rfl (List.Subperm.refl _)
  | push value =>
      cases value with
      | scte value => exact h.concat rfl (List.Subperm.refl _)
      | sei value =>
          have hpush := MetadataQueue.push_perm hmoves value s.metaQueue.sei
          show (takenSei (log ++ [(a, .pushed (.sei value))]) ++
            s.metaQueue.sei.push (p.heap SeiPayload) value).Subperm _
          rw [pushedSei_concat, takenSei_concat]
          show (takenSei log ++ [] ++ _).Subperm (pushedSei log ++ [value])
          rw [List.append_nil]
          have hfront : (takenSei log ++ s.metaQueue.sei.push (p.heap SeiPayload) value).Perm
              (value :: (takenSei log ++ s.metaQueue.sei)) :=
            (hpush.append_left _).trans List.perm_middle
          have hback := (List.perm_append_singleton value (pushedSei log)).symm.subperm
          exact hfront.subperm.trans (((List.subperm_cons value).mpr h).trans hback)
  | drop id k =>
      cases k with
      | sei => exact h.concat rfl (MetadataQueue.dropId_sublist id _).subperm
      | scte => exact h.concat rfl (List.Subperm.refl _)
  | @query sei sei' ctx pkt found rest o hclock htake ho =>
      cases ho with
      | frame data hrewrite =>
          refine h.concat rfl ?_
          show (takenOut _ ++ [] ++ rest).Subperm _
          rw [List.append_nil]
          exact take_subperm hmoves htake
      | failed =>
          refine h.concat rfl ?_
          show (takenOut _ ++ [] ++ rest).Subperm _
          rw [List.append_nil]
          exact take_subperm hmoves htake

/-- In every interleaving of the threads, the captions that frames have taken and those that are
queued are among those that were pushed, each as often as it was pushed at most. -/
theorem entries_accounted (hmoves : (p.heap SeiPayload).Moves) (init : Initial)
    {acts : List Action} {log : Log} {s : State}
    (hlog : (application p).log acts (.start init.tsAdjustment init.current) = .ok (log, s)) :
    (takenSei log ++ s.shared.metaQueue.sei).Subperm (pushedSei log) := by
  have hstart : Accounted [] (Shared.start init.tsAdjustment init.current) := List.Subperm.refl []
  exact Machine.log_history (I := fun log s => Accounted log s.shared)
    (fun _ _ _ _ _ h hstep => (application_effect hstep).accounted hmoves h) hstart hlog

theorem camera_moves (V : Type) : (camera.heap V).Moves :=
  BinaryHeap.moves_stdHeap MetadataQueue.comparator_strictWeak

def emptySession : List Action :=
  [⟨.extractor 1, .enter⟩, ⟨.extractor 1, .leave⟩, ⟨.extractor 1, .dropSei⟩,
    ⟨.extractor 1, .dropScte⟩, ⟨.extractor 1, .now⟩, ⟨.extractor 1, .pushReset⟩]

def twoFrames : List Action :=
  [⟨.controller, .setCurrentInputs ⟨some 1, none⟩⟩, ⟨.controller, .exchange⟩,
    ⟨.injector, .open_ Clock.defaultTimeBase true⟩,
    ⟨.injector, .tick ⟨5, 5, []⟩⟩, ⟨.injector, .readTsAdjustment⟩, ⟨.injector, .getCurrentInput⟩,
    ⟨.injector, .query⟩,
    ⟨.injector, .tick ⟨9, 9, []⟩⟩, ⟨.injector, .readTsAdjustment⟩, ⟨.injector, .getCurrentInput⟩,
    ⟨.injector, .query⟩]

theorem frames_take : ∃ log s,
    (application camera).log (emptySession ++ twoFrames) (.start 0 .initial) = .ok (log, s) ∧
      (takenSei log).length = 1 :=
  ⟨_, _, rfl, rfl⟩

/-- The second frame takes the reset that the camera has left. -/
theorem entries_accounted_camera : ∃ log s,
    (application camera).log (emptySession ++ twoFrames) (.start 0 .initial) = .ok (log, s) ∧
      (takenSei log).length = 1 ∧
        (takenSei log ++ s.shared.metaQueue.sei).Subperm (pushedSei log) := by
  obtain ⟨log, s, hlog, htaken⟩ := frames_take
  exact ⟨log, s, hlog, htaken, entries_accounted (camera_moves _) ⟨0, .initial⟩ hlog⟩

/-! ## Markers -/

/-- The actions that drop markers keep the vector a heap. -/
def MarkerDropKeeps (_ : Action) (s : State) (result : Except Stop (Answer × State)) : Prop :=
  ∀ id count s', result = .ok (.dropped .scte id count, s') →
    KeepsHeap id s.shared.metaQueue.scte

/-- What the queue holds of the input is what was pushed for it since it was last left. -/
def Kept (i : Nat) (log : Log) (q : MetadataQueue SpliceInfoSection) : Prop :=
  ∃ after, SinceLeft i log after ∧ (q.filter (ofInput i)).Perm (pushedScte i after)

theorem pushedScte_concat (i : Nat) (log : Log) (a : Action) (o : Answer) :
    pushedScte i (log ++ [(a, o)]) = pushedScte i log ++ pushedScte i [(a, o)] := by
  unfold pushedScte
  rw [List.filterMap_append, List.filter_append]

theorem SinceLeft.concat {i : Nat} {log after : Log} {a : Action} {o : Answer}
    (h : SinceLeft i log after) (ho : ¬Leaves i o) :
    SinceLeft i (log ++ [(a, o)]) (after ++ [(a, o)]) := by
  obtain ⟨hlog, hafter⟩ := h
  refine ⟨?_, List.forall_mem_append.mpr ⟨hafter, List.forall_mem_singleton.mpr ho⟩⟩
  rcases hlog with rfl | ⟨before, b, o', hleaves, rfl⟩
  · exact .inl rfl
  · exact .inr ⟨before, b, o', hleaves, by rw [List.append_assoc]; rfl⟩

/-- An action that neither pushes nor drops a marker of the input. -/
theorem Kept.concat {i : Nat} {log : Log} {q q' : MetadataQueue SpliceInfoSection} {a : Action}
    {o : Answer} (h : Kept i log q) (ho : ¬Leaves i o) (hpushed : pushedScte i [(a, o)] = [])
    (hq : (q'.filter (ofInput i)).Perm (q.filter (ofInput i))) : Kept i (log ++ [(a, o)]) q' := by
  obtain ⟨after, hsince, hperm⟩ := h
  refine ⟨after ++ [(a, o)], hsince.concat ho, ?_⟩
  rw [pushedScte_concat, hpushed, List.append_nil]
  exact hq.trans hperm

theorem Kept.push {H : Heap SpliceInfoSection} {i : Nat} {log : Log}
    {q : MetadataQueue SpliceInfoSection} {value : Metadata SpliceInfoSection} (a : Action)
    (h : Kept i log q) (hq : IsHeap comparator q) :
    Kept i (log ++ [(a, .pushed (.scte value))]) (q.push H value) := by
  obtain ⟨after, hsince, hperm⟩ := h
  refine ⟨after ++ [(a, .pushed (.scte value))], hsince.concat fun ho => ?_, ?_⟩
  · obtain ⟨_, ho⟩ := ho
    cases ho
  · rw [pushedScte_concat]
    refine ((H.push_perm q value hq).filter _).trans ?_
    rw [List.filter_append]
    exact hperm.append_right _

theorem Kept.drop {i id : Nat} {log : Log} {q : MetadataQueue SpliceInfoSection} (a : Action)
    (count : Nat) (h : Kept i log q) :
    Kept i (log ++ [(a, .dropped .scte id count)]) (q.dropId id).2 := by
  by_cases hid : id = i
  · subst hid
    refine ⟨[], ⟨.inr ⟨log, a, _, ⟨count, rfl⟩, rfl⟩, List.forall_mem_nil _⟩, List.Perm.of_eq ?_⟩
    refine List.filter_eq_nil_iff.mpr fun e he hof => ?_
    exact (dropsExactly id q).2.1 e he (beq_iff_eq.mp hof)
  · refine h.concat (fun ho => ?_) rfl (List.Perm.of_eq ?_)
    · obtain ⟨_, ho⟩ := ho
      cases ho
      exact hid rfl
    · exact filter_keeps_ofInput hid

theorem Effect.kept {s s' : Shared} {a : Action} {o : Answer} (heffect : Effect p s o s')
    (hkeeps : ∀ id count, o = .dropped .scte id count → KeepsHeap id s.metaQueue.scte)
    {i : Nat} {log : Log} (h : IsHeap comparator s.metaQueue.scte ∧ Kept i log s.metaQueue.scte) :
    IsHeap comparator s'.metaQueue.scte ∧ Kept i (log ++ [(a, o)]) s'.metaQueue.scte := by
  obtain ⟨hq, h⟩ := h
  have hquiet (hleaves : ¬Leaves i o) (hpushed : pushedScte i [(a, o)] = []) :
      IsHeap comparator s.metaQueue.scte ∧ Kept i (log ++ [(a, o)]) s.metaQueue.scte :=
    ⟨hq, h.concat hleaves hpushed (List.Perm.refl _)⟩
  have hnever (hne : ∀ count, o ≠ .dropped .scte i count) : ¬Leaves i o := by
    intro ho
    obtain ⟨count, ho⟩ := ho
    exact hne count ho
  cases heffect with
  | quiet => exact hquiet (hnever fun _ ho => by cases ho) rfl
  | tick clock hle htimeBase => exact hquiet (hnever fun _ ho => by cases ho) rfl
  | exchange k id => exact hquiet (hnever fun _ ho => by cases ho) rfl
  | adjust tsAdjustment => exact hquiet (hnever fun _ ho => by cases ho) rfl
  | flag j scheduled => exact hquiet (hnever fun _ ho => by cases ho) rfl
  | push value =>
      cases value with
      | sei value => exact hquiet (hnever fun _ ho => by cases ho) rfl
      | scte value => exact ⟨(p.heap _).push_isHeap _ value hq, h.push a hq⟩
  | drop id k =>
      cases k with
      | sei => exact hquiet (hnever fun _ ho => by cases ho) rfl
      | scte => exact ⟨isHeap_dropId_iff.mpr (hkeeps id _ rfl), h.drop a _⟩
  | query hclock htake ho =>
      cases ho <;> exact hquiet (hnever fun _ ho => by cases ho) rfl

/-- In every interleaving of the threads whose drops of markers keep their vector a heap, the
marker queue holds of an input exactly what was pushed for it since it was last left: no frame
ever takes a marker. -/
theorem markers_kept (init : Initial) (i : Nat) {acts : List Action} {log : Log} {s : State}
    (hlog : (application p).log acts (.start init.tsAdjustment init.current) = .ok (log, s))
    (hdrops : (application p).Calls MarkerDropKeeps acts (.start init.tsAdjustment init.current)) :
    ∃ after, SinceLeft i log after ∧
      (s.shared.metaQueue.scte.filter (ofInput i)).Perm (pushedScte i after) := by
  have hstart : Kept i [] (State.start init.tsAdjustment init.current).shared.metaQueue.scte :=
    ⟨[], ⟨.inl rfl, List.forall_mem_nil _⟩, List.Perm.refl _⟩
  have hend := Machine.log_calls (Q := MarkerDropKeeps)
    (I := fun log s => IsHeap comparator s.shared.metaQueue.scte ∧
      Kept i log s.shared.metaQueue.scte)
    (fun log a s o s' h hkeeps hstep => (application_effect hstep).kept
      (fun id count ho => hkeeps id count s' (by rw [ho])) h)
    ⟨isHeap_nil comparator, hstart⟩ hdrops hlog
  exact hend.2

/-- The camera pushes a marker, is left, and pushes it again. -/
def markerSessions : List Action :=
  let session : List Action := [⟨.extractor 1, .enter⟩,
    ⟨.extractor 1, .open_ Clock.defaultTimeBase false true⟩, ⟨.extractor 1, .readClock⟩,
    ⟨.extractor 1, .readClock⟩, ⟨.extractor 1, .create⟩, ⟨.extractor 1, .marker ⟨7, 7, nullBytes⟩⟩,
    ⟨.extractor 1, .push⟩]
  session ++ [⟨.extractor 1, .finish⟩, ⟨.extractor 1, .leave⟩, ⟨.extractor 1, .dropSei⟩,
    ⟨.extractor 1, .dropScte⟩, ⟨.extractor 1, .now⟩, ⟨.extractor 1, .pushReset⟩] ++ session

/-- Nothing is left of a single marker when its input is left. -/
theorem keepsHeap_single (e : Metadata SpliceInfoSection) : KeepsHeap e.inputId [e] := by
  refine isHeap_dropId_iff.mp ?_
  have hnone : (dropId e.inputId [e]).2 = [] := by simp [dropId]
  rw [hnone]
  exact isHeap_nil comparator

set_option maxRecDepth 100000 in
theorem markerSessions_run : ∃ log s,
    (application camera).log markerSessions (.start 0 .initial) = .ok (log, s) ∧
      s.shared.metaQueue.scte = [⟨1, 0, 0, 0, nullSection⟩] ∧
      (application camera).Calls MarkerDropKeeps markerSessions (.start 0 .initial) := by
  refine ⟨_, _, rfl, rfl, ?_⟩
  iterate 10 refine .cons rfl (fun id count s' h => by (cases h)) ?_
  refine .cons rfl (fun id count s' h => ?_) ?_
  · cases h
    exact keepsHeap_single ⟨1, 0, 0, 0, nullSection⟩
  · iterate 9 refine .cons rfl (fun id count s' h => by (cases h)) ?_
    trivial

/-- One of the two markers is still queued: it was pushed since the camera was left. -/
theorem markers_kept_camera : ∃ log s,
    (application camera).log markerSessions (.start 0 .initial) = .ok (log, s) ∧
      s.shared.metaQueue.scte = [⟨1, 0, 0, 0, nullSection⟩] ∧
      ∃ after, SinceLeft 1 log after ∧
        (s.shared.metaQueue.scte.filter (ofInput 1)).Perm (pushedScte 1 after) := by
  obtain ⟨log, s, hlog, hqueue, hdrops⟩ := markerSessions_run
  exact ⟨log, s, hlog, hqueue, markers_kept ⟨0, .initial⟩ 1 hlog hdrops⟩

end App
end Metamix
