/-
Restarts on request.

`POST /input/restart` sets the flag of an input, and the input's thread looks at it once for every
packet of its time source.  The flag is cleared when the next session is entered, whether anybody
has looked at it or not.  `restart_obeyed` says what a request does to the session that is under
way, and `break_requested` that no session breaks without one.
-/
import Metamix.App.Effects

namespace Metamix
namespace App

open Lib Binary BinaryParser H264 Scte35 Time Queue Proc Control

/-! ## What an input's thread does -/

def ReadsTimeSource (i : InputId) (a : Action) : Prop := ∃ pkt, a = ⟨.extractor i, .timeSource pkt⟩

def ReadsPacket (i : InputId) (a : Action) : Prop :=
  ReadsTimeSource i a ∨ ∃ pkt, a = ⟨.extractor i, .marker pkt⟩

def StaysOut (i : InputId) (log : Log) : Prop := ∀ entry ∈ log, entry.1 ≠ ⟨.extractor i, .enter⟩

def Bound : ExtractorState → Prop
  | .pushing _ _ _ brk => brk = true
  | .leaving | .droppedSei | .dropped | .stamped _ | .outside => True
  | _ => False

/-- What becomes of a session from a request on: no packet of the time source is read, or one is
and no packet behind it. -/
def Obeys (i : InputId) (log : Log) : Prop :=
  (∀ entry ∈ log, ¬ReadsTimeSource i entry.1) ∨
    ∃ before pkt o after, log = before ++ (⟨.extractor i, .timeSource pkt⟩, o) :: after ∧
      (∀ entry ∈ before, ¬ReadsTimeSource i entry.1) ∧ ∀ entry ∈ after, ¬ReadsPacket i entry.1

/-- A restart was requested, and the input has not begun a new session since. -/
def Requested (i : InputId) (log : Log) : Prop :=
  ∃ before a since, log = before ++ (a, .flagged i true) :: since ∧ StaysOut i since

def BreakRequested (i : InputId) (log : Log) : Prop :=
  ∃ before a since, log = before ++ (a, .flagged i true) :: since ∧ StaysOut i since ∧
    ∃ entry ∈ since, ReadsTimeSource i entry.1

/-- The flag says what was requested, and so does the break that a thread has in hand. -/
def Watched (i : InputId) (log : Log) (s : State) : Prop :=
  (s.shared.restartScheduled i = true ↔ Requested i log) ∧ ∀ session pending fault,
    s.own (.extractor i) = ExtractorState.pushing session pending fault true → BreakRequested i log

variable {p : Setup}

/-! ## The flag -/

theorem injector_flags_none {a : InjectorAction} {k k' : InjectorState} {s s' : Shared}
    {i : InputId} {scheduled : Bool} :
    injector p a k s ≠ .ok (.flagged i scheduled, k', s') := by
  intro h
  unfold injector at h
  split at h
  · cases h
  · simp only at h
    split at h <;> cases h
  · cases h
  · split at h <;> cases h
  · unfold query at h
    split at h
    · cases h
    · simp only at h
      split at h
      · cases h
      · split at h <;> cases h
  · cases h
  · cases h

theorem enter_of_cleared {i : InputId} {a : Action} {s s' : State}
    (hstep : application p a s = .ok (.flagged i false, s')) : a = ⟨.extractor i, .enter⟩ := by
  obtain ⟨k, hthread, -⟩ := Threads.interleave_eq_ok hstep
  obtain ⟨t, a⟩ := a
  generalize s'.shared = shared at hthread
  cases t with
  | injector => exact absurd hthread injector_flags_none
  | controller =>
      change controller p a _ s.shared = _ at hthread
      unfold controller at hthread
      split at hthread <;> try split at hthread
      all_goals cases hthread
  | extractor j =>
      change extractor p j a _ s.shared = _ at hthread
      unfold extractor at hthread
      split at hthread <;> try split at hthread
      all_goals cases hthread
      rfl

/-- The beginning of a session clears the flag and nothing else. -/
theorem cleared_of_enter {i : InputId} {s s' : State} {o : Answer}
    (hstep : application p ⟨.extractor i, .enter⟩ s = .ok (o, s')) : o = .flagged i false := by
  obtain ⟨k, hthread, -⟩ := Threads.interleave_eq_ok hstep
  change extractor p i .enter (s.own (.extractor i)) s.shared = _ at hthread
  generalize s'.shared = shared at hthread
  generalize s.own (.extractor i) = state at hthread
  cases state with
  | outside =>
      simp only [extractor] at hthread
      split at hthread <;> cases hthread
      rfl
  | _ => cases hthread

/-- A flag shows whether the last thing done to it was a request. -/
theorem flag_step {i : InputId} {a : Action} {s s' : State} {o : Answer}
    (hstep : application p a s = .ok (o, s')) : s'.shared.restartScheduled i = true ↔
      o = .flagged i true ∨ a ≠ ⟨.extractor i, .enter⟩ ∧ s.shared.restartScheduled i = true := by
  have henter : a = ⟨.extractor i, .enter⟩ ↔ o = .flagged i false := by
    constructor
    · intro h
      subst h
      exact cleared_of_enter hstep
    · intro h
      subst h
      exact enter_of_cleared hstep
  rw [Ne, henter]
  have heffect := application_effect hstep
  generalize s'.shared = shared at heffect
  cases heffect with
  | flag j scheduled =>
      show Function.update s.shared.restartScheduled j scheduled i = true ↔ _
      by_cases hj : i = j
      · subst hj
        rw [Function.update_self]
        cases scheduled <;> simp
      · rw [Function.update_of_ne hj]
        simp [Ne.symm hj]
  | query hclock htake ho => cases ho <;> simp
  | _ => simp

/-! ## From a request on -/

theorem timeSource_eq_ok {i : InputId} {pkt : AVPacket} {s s' : State} {o : Answer}
    (hstep : application p ⟨.extractor i, .timeSource pkt⟩ s = .ok (o, s')) :
    ∃ session pending fault, s'.own (.extractor i) =
      ExtractorState.pushing session pending fault (s.shared.restartScheduled i) := by
  obtain ⟨k, hthread, hown⟩ := Threads.interleave_eq_ok hstep
  change extractor p i (.timeSource pkt) (s.own (.extractor i)) s.shared = _ at hthread
  rw [hown]
  show ∃ session pending fault, Function.update s.own (.extractor i) k (.extractor i) = _
  rw [Function.update_self]
  generalize s'.shared = shared at hthread
  generalize s.own (.extractor i) = state at hthread
  cases state with
  | running session =>
      cases hthread
      exact ⟨_, _, _, rfl⟩
  | _ => cases hthread

/-- A session that is bound to end reads no packet, and stays bound to end. -/
theorem extractor_bound {i : InputId} {a : ExtractorAction} {k k' : ExtractorState}
    {s s' : Shared} {o : Answer} (hk : Bound k) (ha : a ≠ .enter)
    (hstep : extractor p i a k s = .ok (o, k', s')) :
    Bound k' ∧ (∀ pkt, a ≠ .timeSource pkt) ∧ ∀ pkt, a ≠ .marker pkt := by
  unfold extractor at hstep
  split at hstep <;> try split at hstep
  all_goals cases hstep
  all_goals try exact absurd hk id
  all_goals try exact absurd rfl ha
  all_goals refine ⟨?_, fun pkt h => by (cases h), fun pkt h => by (cases h)⟩
  all_goals try exact hk
  next hfinish =>
    cases hk
    unfold finish at hfinish
    split at hfinish <;> try split at hfinish
    all_goals cases hfinish
    all_goals trivial

theorem bound_step {i : InputId} {a : Action} {s s' : State} {o : Answer}
    (hbound : Bound (s.own (.extractor i))) (ha : a ≠ ⟨.extractor i, .enter⟩)
    (hstep : application p a s = .ok (o, s')) :
    Bound (s'.own (.extractor i)) ∧ ¬ReadsPacket i a := by
  obtain ⟨t, a⟩ := a
  by_cases ht : ThreadId.extractor i = t
  · subst ht
    obtain ⟨k, hthread, hown⟩ := Threads.interleave_eq_ok hstep
    obtain ⟨hk, htimeSource, hmarker⟩ := extractor_bound hbound (fun h => ha (congrArg _ h)) hthread
    rw [hown]
    show Bound (Function.update s.own (.extractor i) k (.extractor i)) ∧ _
    rw [Function.update_self]
    refine ⟨hk, fun h => ?_⟩
    rcases h with ⟨pkt, h⟩ | ⟨pkt, h⟩
    · cases h
      exact htimeSource pkt rfl
    · cases h
      exact hmarker pkt rfl
  · rw [Threads.own_of_ne hstep ht]
    refine ⟨hbound, fun h => ?_⟩
    rcases h with ⟨pkt, h⟩ | ⟨pkt, h⟩
    · cases h
      exact ht rfl
    · cases h
      exact ht rfl

theorem bound_run {i : InputId} {acts : List Action} {log : Log} {s s' : State}
    (hbound : Bound (s.own (.extractor i)))
    (hlog : (application p).log acts s = .ok (log, s')) (hstays : StaysOut i log) :
    ∀ entry ∈ log, ¬ReadsPacket i entry.1 := by
  induction acts generalizing s log with
  | nil =>
      obtain ⟨rfl, rfl⟩ := Machine.log_nil hlog
      exact List.forall_mem_nil _
  | cons a acts ih =>
      obtain ⟨o, t, rest, hstep, hrest, rfl⟩ := Machine.log_cons hlog
      obtain ⟨ha, hstays⟩ := List.forall_mem_cons.mp hstays
      obtain ⟨hnext, hreads⟩ := bound_step hbound ha hstep
      exact List.forall_mem_cons.mpr ⟨hreads, ih hnext hrest hstays⟩

/-- The run: a flag that is set stays set, and the first look at it ends the session. -/
theorem obeys_run {i : InputId} {acts : List Action} {log : Log} {s s' : State}
    (hflag : s.shared.restartScheduled i = true)
    (hlog : (application p).log acts s = .ok (log, s')) (hstays : StaysOut i log) :
    s'.shared.restartScheduled i = true ∧ Obeys i log := by
  induction acts generalizing s log with
  | nil =>
      obtain ⟨rfl, rfl⟩ := Machine.log_nil hlog
      exact ⟨hflag, .inl (List.forall_mem_nil _)⟩
  | cons a acts ih =>
      obtain ⟨o, t, rest, hstep, hrest, rfl⟩ := Machine.log_cons hlog
      obtain ⟨ha, hout⟩ := List.forall_mem_cons.mp hstays
      obtain ⟨hset, hobeys⟩ := ih ((flag_step hstep).mpr (.inr ⟨ha, hflag⟩)) hrest hout
      refine ⟨hset, ?_⟩
      by_cases hreads : ReadsTimeSource i a
      · obtain ⟨pkt, rfl⟩ := hreads
        obtain ⟨session, pending, fault, hown⟩ := timeSource_eq_ok hstep
        rw [hflag] at hown
        have hbound : Bound (t.own (.extractor i)) := by
          rw [hown]
          rfl
        exact .inr ⟨[], pkt, o, rest, rfl, List.forall_mem_nil _, bound_run hbound hrest hout⟩
      · rcases hobeys with hnone | ⟨before, pkt, o', after, rfl, hbefore, hafter⟩
        · exact .inl (List.forall_mem_cons.mpr ⟨hreads, hnone⟩)
        · exact .inr ⟨(a, o) :: before, pkt, o', after, rfl,
            List.forall_mem_cons.mpr ⟨hreads, hbefore⟩, hafter⟩

/-- In every interleaving of the threads, from a request to the next session of the input: the
request stands, and the input reads at most one more packet of its time source and no packet at
all behind that one. -/
theorem restart_obeyed {i : InputId} {a : Action} {acts : List Action} {log : Log}
    {s s₁ s₂ : State} (hrequest : application p a s = .ok (.flagged i true, s₁))
    (hlog : (application p).log acts s₁ = .ok (log, s₂)) (hstays : StaysOut i log) :
    s₂.shared.restartScheduled i = true ∧ Obeys i log :=
  obeys_run ((flag_step hrequest).mpr (.inl rfl)) hlog hstays

/-- A session of the camera without streams of metadata, up to the packet that ends it. -/
def lastPacket : List Action :=
  [⟨.extractor 1, .open_ Clock.defaultTimeBase false false⟩, ⟨.extractor 1, .create⟩,
    ⟨.extractor 1, .timeSource ⟨5, 5, []⟩⟩]

theorem lastPacket_runs : ∃ entered s s₁ log s₂,
    (application camera).log [⟨.extractor 1, .enter⟩] (.start 0 .initial) = .ok (entered, s) ∧
    application camera ⟨.controller, .scheduleRestart 1⟩ s = .ok (.flagged 1 true, s₁) ∧
    (application camera).log lastPacket s₁ = .ok (log, s₂) ∧ StaysOut 1 log := by
  refine ⟨_, _, _, _, _, rfl, rfl, rfl, ?_⟩
  repeat' refine List.forall_mem_cons.mpr ⟨fun h => by (cases h), ?_⟩
  exact List.forall_mem_nil _

theorem restart_obeyed_camera : ∃ s₁ log s₂,
    (application camera).log lastPacket s₁ = .ok (log, s₂) ∧ Obeys 1 log := by
  obtain ⟨_, s, s₁, log, s₂, -, hrequest, hlog, hstays⟩ := lastPacket_runs
  exact ⟨s₁, log, s₂, hlog, (restart_obeyed hrequest hlog hstays).2⟩

/-! ## Back to the request -/

theorem requested_concat {i : InputId} {log : Log} {a : Action} {o : Answer} :
    Requested i (log ++ [(a, o)]) ↔
      o = .flagged i true ∨ a ≠ ⟨.extractor i, .enter⟩ ∧ Requested i log := by
  constructor
  · intro h
    obtain ⟨before, b, since, hsplit, hstays⟩ := h
    rcases List.eq_nil_or_concat since with rfl | ⟨since, last, rfl⟩
    · obtain ⟨rfl, hlast⟩ := List.append_inj' hsplit rfl
      cases hlast
      exact .inl rfl
    · rw [List.concat_eq_append, ← List.cons_append, ← List.append_assoc] at hsplit
      obtain ⟨rfl, hlast⟩ := List.append_inj' hsplit rfl
      cases hlast
      rw [List.concat_eq_append] at hstays
      obtain ⟨hsince, ha⟩ := List.forall_mem_append.mp hstays
      exact .inr ⟨ha (a, o) List.mem_cons_self, before, b, since, rfl, hsince⟩
  · intro h
    rcases h with rfl | ⟨ha, before, b, since, rfl, hstays⟩
    · exact ⟨log, a, [], rfl, List.forall_mem_nil _⟩
    · refine ⟨before, b, since ++ [(a, o)], by rw [List.append_assoc]; rfl, ?_⟩
      exact List.forall_mem_append.mpr ⟨hstays, List.forall_mem_singleton.mpr ha⟩

theorem BreakRequested.concat {i : InputId} {log : Log} {a : Action} {o : Answer}
    (h : BreakRequested i log) (ha : a ≠ ⟨.extractor i, .enter⟩) :
    BreakRequested i (log ++ [(a, o)]) := by
  obtain ⟨before, b, since, rfl, hstays, entry, hentry, hreads⟩ := h
  refine ⟨before, b, since ++ [(a, o)], by rw [List.append_assoc]; rfl, ?_, entry,
    List.mem_append_left _ hentry, hreads⟩
  exact List.forall_mem_append.mpr ⟨hstays, List.forall_mem_singleton.mpr ha⟩

theorem Requested.break_ {i : InputId} {log : Log} {pkt : AVPacket} {o : Answer}
    (h : Requested i log) : BreakRequested i (log ++ [(⟨.extractor i, .timeSource pkt⟩, o)]) := by
  obtain ⟨before, b, since, rfl, hstays⟩ := h
  refine ⟨before, b, since ++ [(⟨.extractor i, .timeSource pkt⟩, o)],
    by rw [List.append_assoc]; rfl, ?_, _, List.mem_append_right _ List.mem_cons_self, pkt, rfl⟩
  exact List.forall_mem_append.mpr
    ⟨hstays, List.forall_mem_singleton.mpr fun h => by (cases h)⟩

/-- A thread is on its way out of its loop because it has just looked at the flag, or because it
was before. -/
theorem extractor_breaks {i : InputId} {a : ExtractorAction} {k : ExtractorState}
    {s s' : Shared} {o : Answer} {session : InputSession} {pending : List AnyMetadata}
    {fault : Option Fault}
    (hstep : extractor p i a k s = .ok (o, .pushing session pending fault true, s')) :
    (∃ pkt, a = .timeSource pkt ∧ s.restartScheduled i = true) ∨
      a ≠ .enter ∧ ∃ pending, k = .pushing session pending fault true := by
  unfold extractor at hstep
  split at hstep <;> try split at hstep
  all_goals try cases hstep
  · injection hstep with hstep
    injection hstep with _ hstep
    injection hstep with hstate _
    injection hstate with _ _ _ hbrk
    exact .inl ⟨_, rfl, hbrk⟩
  · exact .inr ⟨fun h => by (cases h), _, rfl⟩
  · next hfinish =>
      unfold finish at hfinish
      split at hfinish <;> try split at hfinish
      all_goals cases hfinish

theorem Watched.step {i : InputId} {log : Log} {a : Action} {s s' : State} {o : Answer}
    (h : Watched i log s) (hstep : application p a s = .ok (o, s')) :
    Watched i (log ++ [(a, o)]) s' := by
  obtain ⟨hflag, hbreak⟩ := h
  refine ⟨by rw [flag_step hstep, requested_concat, hflag], fun session pending fault hown => ?_⟩
  obtain ⟨t, a⟩ := a
  by_cases ht : ThreadId.extractor i = t
  · subst ht
    obtain ⟨k, hthread, hupdate⟩ := Threads.interleave_eq_ok hstep
    have hk : k = ExtractorState.pushing session pending fault true := by
      rw [← hown, hupdate]
      exact (Function.update_self ..).symm
    subst hk
    rcases extractor_breaks hthread with ⟨pkt, ha, hset⟩ | ⟨ha, pending', hbefore⟩
    · cases ha
      exact (hflag.mp hset).break_
    · exact (hbreak _ _ _ hbefore).concat fun h => ha (by (cases h; rfl))
  · rw [Threads.own_of_ne hstep ht] at hown
    exact (hbreak _ _ _ hown).concat fun h => ht (by (cases h; rfl))

/-- In every interleaving of the threads, a flag is set exactly if a restart was requested since
its input began the session, and an input leaves its loop by a break only if the restart was
requested in this session, before the packet that ends it. -/
theorem break_requested {tsAdjustment : Int} {current : CurrentInputsIds} {acts : List Action}
    {log : Log} {s : State}
    (hlog : (application p).log acts (.start tsAdjustment current) = .ok (log, s)) (i : InputId) :
    Watched i log s := by
  have hstart : Watched i [] (State.start tsAdjustment current) := by
    refine ⟨iff_of_false (fun h => by (cases h)) fun h => ?_, fun _ _ _ h => by (cases h)⟩
    obtain ⟨before, a, since, hsplit, -⟩ := h
    simp at hsplit
  exact Machine.log_history (I := Watched i) (fun _ _ _ _ _ h hstep => h.step hstep) hstart hlog

/-- A break of the camera. -/
theorem break_requested_camera : ∃ log s, (application camera).log
      (⟨.extractor 1, .enter⟩ :: ⟨.controller, .scheduleRestart 1⟩ :: lastPacket)
      (.start 0 .initial) = .ok (log, s) ∧ BreakRequested 1 log := by
  have hrun : ∃ log s session pending fault, (application camera).log
        (⟨.extractor 1, .enter⟩ :: ⟨.controller, .scheduleRestart 1⟩ :: lastPacket)
        (.start 0 .initial) = .ok (log, s) ∧
      s.own (.extractor 1) = ExtractorState.pushing session pending fault true :=
    ⟨_, _, _, _, _, rfl, rfl⟩
  obtain ⟨log, s, session, pending, fault, hlog, hown⟩ := hrun
  exact ⟨log, s, hlog, (break_requested hlog 1).2 session pending fault hown⟩

end App
end Metamix
