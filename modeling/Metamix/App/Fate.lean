/-
The fate of a caption.

Inputs change, the adjustment changes, inputs and the output restart, and all of it while an
entry waits in the queue.  Three kinds of actions decide about it: leaving its input, and a frame
of a user-defined input that has reached its timestamp, whether it is the entry's own input or
another one.  `fate` says that the entry waits until the first of these and what becomes of it
then.
-/
import Metamix.App.Entries

namespace Metamix
namespace App

open Lib Binary BinaryParser H264 Scte35 Time Queue Proc Control MetadataQueue

variable (p : Setup)

def Passes (e : Metadata SeiPayload) (r : Processed) : Prop :=
  (∃ id, r.ctx.currentInput = .userDefined id) ∧ e.pts ≤ r.stamp p.rescale

def Decides (e : Metadata SeiPayload) (o : Answer) : Prop :=
  (∃ count, o = .dropped .sei e.inputId count) ∨ ∃ r, o.record = some r ∧ Passes p e r

/-- The frame takes the entry: it is of its input, and the frame before it was not past it. -/
def Catches (e : Metadata SeiPayload) (r : Processed) : Prop :=
  r.ctx.currentInput = .userDefined e.inputId ∧ r.before.prevPts ≤ e.pts

/-- The actions that drop captions keep the vector a heap. -/
def DropKeeps (_ : Action) (s : State) (result : Except Stop (Answer × State)) : Prop :=
  ∀ id count s', result = .ok (.dropped .sei id count, s') → KeepsHeap id s.shared.metaQueue.sei

/-- What an answer does to an entry that is queued. -/
structure Step (e : Metadata SeiPayload) (q' : MetadataQueue SeiPayload) (o : Answer) : Prop where
  waits : ¬Decides p e o → e ∈ q'
  gone : Decides p e o → e ∉ q'
  taken : ∀ r, o.record = some r → Passes p e r → (e ∈ takenOut r ↔ Catches e r)

variable {p}

theorem Step.of_mem {e : Metadata SeiPayload} {q : MetadataQueue SeiPayload} {o : Answer}
    (he : e ∈ q) (hrecord : o.record = none)
    (hdropped : ∀ count, o ≠ .dropped .sei e.inputId count) : Step p e q o where
  waits _ := he
  gone hdecides := by
    rcases hdecides with ⟨count, ho⟩ | ⟨r, hr, -⟩
    · exact absurd ho (hdropped count)
    · rw [hrecord] at hr
      cases hr
  taken r hr := by
    rw [hrecord] at hr
    cases hr

/-- A frame leaves what its timestamp has not reached, and takes what its window holds. -/
theorem Step.of_take {e : Metadata SeiPayload} {sei sei' : SeiInjector} {ctx : Context}
    {pkt : AVPacket} {q rest : MetadataQueue SeiPayload} {found : Found} {o : Answer}
    (hq : IsHeap comparator q) (he : e ∈ q)
    (htake : sei.take p.rescale (p.heap SeiPayload) ctx pkt q = .ok (found, sei', rest))
    (ho : Queried sei q ctx pkt found sei' rest o) : Step p e rest o := by
  obtain ⟨r, hr, hbefore, hctx, hpkt, hfound⟩ : ∃ r, o.record = some r ∧ r.before = sei ∧
      r.ctx = ctx ∧ r.pkt = pkt ∧ r.found = found := by
    cases ho <;> exact ⟨_, rfl, rfl, rfl, rfl, rfl⟩
  have hdecides : Decides p e o ↔ Passes p e r := by
    constructor
    · intro h
      rcases h with ⟨count, rfl⟩ | ⟨r', hr', h⟩
      · cases hr
      · rw [hr] at hr'
        cases hr'
        exact h
    · intro h
      exact .inr ⟨r, hr, h⟩
  have hstamp : r.stamp p.rescale = (sei.adjustedPts p.rescale ctx pkt.pts).1 := by
    rw [Processed.stamp, hbefore, hctx, hpkt]
  have htakes := SeiInjector.take_takesFor hq htake
  rw [← hstamp] at htakes
  cases htakes with
  | @clear id hinput hrest =>
      have hnot : ¬Passes p e r := by
        intro h
        obtain ⟨⟨id', hid⟩, -⟩ := h
        rw [hctx, hinput] at hid
        cases hid
      refine ⟨fun _ => by rwa [hrest], fun h => absurd (hdecides.mp h) hnot, fun r' hr' h => ?_⟩
      rw [hr] at hr'
      cases hr'
      exact absurd h hnot
  | @userDefined id hinput hall =>
      have hpasses : Passes p e r ↔ e.pts ≤ r.stamp p.rescale := by
        refine and_iff_right ⟨id, ?_⟩
        rw [hctx, hinput]
      have hleft : e ∈ rest ↔ r.stamp p.rescale < e.pts := by
        rw [hall.rest_perm.mem_iff, List.mem_filter, and_iff_right he, notBefore,
          decide_eq_true_eq]
        omega
      refine ⟨fun h => ?_, fun h hmem => ?_, fun r' hr' h => ?_⟩
      · rw [hdecides, hpasses] at h
        exact hleft.mpr (by omega)
      · rw [hdecides, hpasses] at h
        have := hleft.mp hmem
        omega
      · rw [hr] at hr'
        cases hr'
        rw [hpasses] at h
        have htaken : takenOut r = found.popped := by
          unfold takenOut
          rw [hctx, hinput, hfound]
        rw [htaken, hall.out_perm.mem_iff, List.mem_filter, and_iff_right he, wanted,
          decide_eq_true_eq, Catches, hctx, hinput, hbefore, Input.userDefined.injEq]
        constructor
        · intro hw
          exact ⟨hw.2.2.symm, hw.1⟩
        · intro hc
          exact ⟨hc.2, by omega, hc.1.symm⟩

theorem Effect.isHeap {s s' : Shared} {o : Answer} (heffect : Effect p s o s')
    (hq : IsHeap comparator s.metaQueue.sei)
    (hkeeps : ∀ id count, o = .dropped .sei id count → KeepsHeap id s.metaQueue.sei) :
    IsHeap comparator s'.metaQueue.sei := by
  cases heffect with
  | quiet => exact hq
  | tick clock hle htimeBase => exact hq
  | exchange k id => exact hq
  | adjust tsAdjustment => exact hq
  | flag i scheduled => exact hq
  | push value =>
      cases value with
      | scte value => exact hq
      | sei value => exact (p.heap SeiPayload).push_isHeap _ value hq
  | drop id k =>
      cases k with
      | scte => exact hq
      | sei => exact isHeap_dropId_iff.mpr (hkeeps id _ rfl)
  | query hclock htake ho =>
      cases SeiInjector.take_takesFor hq htake with
      | userDefined hinput hall => exact hall.isHeap
      | clear hinput hrest =>
          rw [hrest]
          exact hq

/-- The step: what an action does to an entry that is queued. -/
theorem Effect.step {e : Metadata SeiPayload} {s s' : Shared} {o : Answer}
    (heffect : Effect p s o s') (hq : IsHeap comparator s.metaQueue.sei)
    (he : e ∈ s.metaQueue.sei) : Step p e s'.metaQueue.sei o := by
  cases heffect with
  | quiet => exact .of_mem he rfl fun count ho => by cases ho
  | tick clock hle htimeBase => exact .of_mem he rfl fun count ho => by cases ho
  | exchange k id => exact .of_mem he rfl fun count ho => by cases ho
  | adjust tsAdjustment => exact .of_mem he rfl fun count ho => by cases ho
  | flag i scheduled => exact .of_mem he rfl fun count ho => by cases ho
  | push value =>
      cases value with
      | scte value => exact .of_mem he rfl fun count ho => by cases ho
      | sei value =>
          have hperm := (p.heap SeiPayload).push_perm s.metaQueue.sei value hq
          exact .of_mem (hperm.mem_iff.mpr (List.mem_append_left _ he)) rfl
            fun count ho => by cases ho
  | drop id k =>
      cases k with
      | scte => exact .of_mem he rfl fun count ho => by cases ho
      | sei =>
          have hmem : e ∈ (s.metaQueue.sei.dropId id).2 ↔ e.inputId ≠ id := by
            show e ∈ s.metaQueue.sei.filter _ ↔ _
            rw [List.mem_filter, and_iff_right he, Bool.not_eq_true', beq_eq_false_iff_ne]
          refine ⟨fun h => hmem.mpr fun hid => ?_, fun h hin => ?_, fun r hr => ?_⟩
          · subst hid
            exact h (.inl ⟨_, rfl⟩)
          · rcases h with ⟨count, ho⟩ | ⟨r, hr, -⟩
            · cases ho
              exact hmem.mp hin rfl
            · cases hr
          · cases hr
  | query hclock htake ho => exact .of_take hq he htake ho

theorem application_isHeap {a : Action} {s s' : State} {o : Answer}
    (hstep : application p a s = .ok (o, s')) (hq : IsHeap comparator s.shared.metaQueue.sei)
    (hkeeps : DropKeeps a s (.ok (o, s'))) : IsHeap comparator s'.shared.metaQueue.sei :=
  (application_effect hstep).isHeap hq fun id count ho => hkeeps id count s' (by rw [ho])

theorem isHeap_run {acts : List Action} {log : Log} {s s' : State}
    (hq : IsHeap comparator s.shared.metaQueue.sei)
    (hdrops : (application p).Calls DropKeeps acts s)
    (hlog : (application p).log acts s = .ok (log, s')) :
    IsHeap comparator s'.shared.metaQueue.sei :=
  Machine.log_invariant_of_calls (I := fun s => IsHeap comparator s.shared.metaQueue.sei)
    (fun _ _ _ _ hq hkeeps hstep => application_isHeap hstep hq hkeeps) hq hdrops hlog

/-- From a state with an entry in the queue, nothing has decided about it and it is still queued,
or the first action that does takes it off. -/
theorem decided_of_mem {e : Metadata SeiPayload} {acts : List Action} {log : Log} {s s' : State}
    (hq : IsHeap comparator s.shared.metaQueue.sei) (he : e ∈ s.shared.metaQueue.sei)
    (hdrops : (application p).Calls DropKeeps acts s)
    (hlog : (application p).log acts s = .ok (log, s')) :
    ((∀ x ∈ log, ¬Decides p e x.2) ∧ e ∈ s'.shared.metaQueue.sei) ∨
      ∃ before a o after s₁ s₂, log = before ++ (a, o) :: after ∧
        (∀ x ∈ before, ¬Decides p e x.2) ∧ Decides p e o ∧
        application p a s₁ = .ok (o, s₂) ∧ e ∈ s₁.shared.metaQueue.sei ∧
        e ∉ s₂.shared.metaQueue.sei ∧
        ∀ r, o.record = some r → (e ∈ takenOut r ↔ Catches e r) := by
  induction acts generalizing s log with
  | nil =>
      obtain ⟨rfl, rfl⟩ := Machine.log_nil hlog
      exact .inl ⟨List.forall_mem_nil _, he⟩
  | cons a acts ih =>
      obtain ⟨o, t, rest, hstep, hrest, rfl⟩ := Machine.log_cons hlog
      have hdone := (application_effect hstep).step hq he
      by_cases hdecides : Decides p e o
      · refine .inr ⟨[], a, o, rest, s, t, rfl, List.forall_mem_nil _, hdecides, hstep, he,
          hdone.gone hdecides, fun r hr => ?_⟩
        rcases hdecides with ⟨count, rfl⟩ | ⟨r', hr', hpasses⟩
        · cases hr
        · rw [hr] at hr'
          cases hr'
          exact hdone.taken r hr hpasses
      · rcases ih (application_isHeap hstep hq (hstep ▸ hdrops.1)) (hdone.waits hdecides)
          (hdrops.2 o t hstep) hrest with
          ⟨hnone, hmem⟩ | ⟨before, b, o', after, s₁, s₂, rfl, hbefore, hall⟩
        · exact .inl ⟨List.forall_mem_cons.mpr ⟨hdecides, hnone⟩, hmem⟩
        · exact .inr ⟨(a, o) :: before, b, o', after, s₁, s₂, rfl,
            List.forall_mem_cons.mpr ⟨hdecides, hbefore⟩, hall⟩

theorem mem_of_pushed {e : Metadata SeiPayload} {a : Action} {s s' : State}
    (hpush : application p a s = .ok (.pushed (.sei e), s'))
    (hq : IsHeap comparator s.shared.metaQueue.sei) : IsHeap comparator s'.shared.metaQueue.sei ∧
      e ∈ s'.shared.metaQueue.sei := by
  have heffect := application_effect hpush
  refine ⟨heffect.isHeap hq fun id count ho => by (cases ho), ?_⟩
  generalize s'.shared = shared at heffect ⊢
  cases heffect with
  | push =>
      exact ((p.heap SeiPayload).push_perm _ e hq).mem_iff.mpr
        (List.mem_append_right _ List.mem_cons_self)
  | query hclock htake ho => cases ho

/-- In every interleaving of the threads whose sums of timestamps fit 64 bits and whose drops keep
the vector a heap, a caption that an input pushes waits until an action decides about it: its input
is left, or a frame of a user-defined input has reached it.  That action takes it off the queue.  If
it is a frame, the frame takes it exactly if it is of its input and the frame before was not past
it. -/
theorem fate (init : Initial) {e : Metadata SeiPayload} {a : Action} {acts₁ acts₂ : List Action}
    {log₁ log₂ : Log} {s₁ s₂ s₃ : State}
    (hlog₁ : (checkedApplication p).log acts₁ (.start init.tsAdjustment init.current) =
      .ok (log₁, s₁))
    (hpush : checkedApplication p a s₁ = .ok (.pushed (.sei e), s₂))
    (hlog₂ : (checkedApplication p).log acts₂ s₂ = .ok (log₂, s₃))
    (hdrops₁ : (application p).Calls DropKeeps acts₁ (.start init.tsAdjustment init.current))
    (hdrops₂ : (application p).Calls DropKeeps acts₂ s₂) :
    ((∀ x ∈ log₂, ¬Decides p e x.2) ∧ e ∈ s₃.shared.metaQueue.sei) ∨
      ∃ before b o after t t', log₂ = before ++ (b, o) :: after ∧
        (∀ x ∈ before, ¬Decides p e x.2) ∧ Decides p e o ∧
        application p b t = .ok (o, t') ∧ e ∈ t.shared.metaQueue.sei ∧
        e ∉ t'.shared.metaQueue.sei ∧
        ∀ r, o.record = some r → (e ∈ takenOut r ↔ Catches e r) := by
  have hstart := isHeap_run (isHeap_nil comparator) hdrops₁ (Machine.log_of_guarded hlog₁)
  obtain ⟨hheap, hmem⟩ := mem_of_pushed (Machine.of_guarded hpush) hstart
  exact decided_of_mem hheap hmem hdrops₂ (Machine.log_of_guarded hlog₂)

/-! ## The reset of the camera -/

theorem DropKeeps.of_nil {a : Action} {s : State} {result : Except Stop (Answer × State)}
    (h : s.shared.metaQueue.sei = []) : DropKeeps a s result := by
  intro id count s' _
  rw [h]
  exact isHeap_dropId_iff.mp (isHeap_nil comparator)

theorem emptySession_drops :
    (application camera).Calls DropKeeps (emptySession.take 5) (.start 0 .initial) :=
  .cons rfl (.of_nil rfl) (.cons rfl (.of_nil rfl) (.cons rfl (.of_nil rfl)
    (.cons rfl (.of_nil rfl) (.cons rfl (.of_nil rfl) trivial))))

theorem twoFrames_run : ∃ log₁ s₁ reset s₂ log₂ s₃,
    (checkedApplication camera).log (emptySession.take 5) (.start 0 .initial) = .ok (log₁, s₁) ∧
    checkedApplication camera ⟨.extractor 1, .pushReset⟩ s₁ = .ok (.pushed (.sei reset), s₂) ∧
    (checkedApplication camera).log twoFrames s₂ = .ok (log₂, s₃) ∧
    (application camera).Calls DropKeeps twoFrames s₂ := by
  refine ⟨_, _, _, _, _, _, rfl, rfl, rfl, ?_⟩
  repeat' refine .cons rfl (fun id count s' h => by (cases h)) ?_
  trivial

/-- The reset of the camera is not queued for ever. -/
theorem fate_camera : ∃ reset s₂ log s,
    (checkedApplication camera).log twoFrames s₂ = .ok (log, s) ∧
    (reset ∈ s.shared.metaQueue.sei ∨ ∃ x ∈ log, Decides camera reset x.2) := by
  obtain ⟨log₁, s₁, reset, s₂, log, s, hlog₁, hpush, hlog₂, hdrops⟩ := twoFrames_run
  refine ⟨reset, s₂, log, s, hlog₂, ?_⟩
  rcases fate ⟨0, .initial⟩ hlog₁ hpush hlog₂ emptySession_drops hdrops with
    ⟨-, h⟩ | ⟨before, b, o, after, _, _, rfl, -, h, -⟩
  · exact .inl h
  · exact .inr ⟨(b, o), List.mem_append_right _ List.mem_cons_self, h⟩

end App
end Metamix
