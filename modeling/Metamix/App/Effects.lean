/-
What an action does to the shared state.

Whatever thread it belongs to, an action is one of nine things to the others.  `application_effect`
says so once for all threads, and what holds of the shared state in every run is proved from it by
cases on the effect.
-/
import Metamix.App.System

namespace Metamix
namespace App

open Lib Binary BinaryParser H264 Scte35 Time Queue Proc Control

inductive Queried (sei : SeiInjector) (q : MetadataQueue SeiPayload) (ctx : Context)
    (pkt : AVPacket) (found : Found) (sei' : SeiInjector) (rest : MetadataQueue SeiPayload) :
    Answer → Prop where
  | frame (data : Bytes) (h : rewritePacket (found.metadata.map Metadata.val) pkt.data = .ok data) :
      Queried sei q ctx pkt found sei' rest
        (.frame ⟨sei, q, ctx, pkt, found, { pkt with data }, sei', rest⟩)
  | failed : Queried sei q ctx pkt found sei' rest
      (.failed ⟨sei, q, ctx, pkt, found, pkt, sei', rest⟩)

inductive Effect (p : Setup) (s : Shared) : Answer → Shared → Prop where
  | quiet : Effect p s .silent s
  | tick (clock : Clock) (hle : s.clock.now ≤ clock.now)
      (htimeBase : clock.timeBase = s.clock.timeBase) : Effect p s .silent { s with clock }
  | exchange (k : Kind) (id : InputId) : Effect p s (.exchanged k id)
      { s with currentInputsIds := s.currentInputsIds.exchange id k }
  | adjust (tsAdjustment : Int) : Effect p s (.adjusted tsAdjustment) { s with tsAdjustment }
  | flag (i : InputId) (scheduled : Bool) : Effect p s (.flagged i scheduled)
      { s with restartScheduled := Function.update s.restartScheduled i scheduled }
  | push (value : AnyMetadata) :
      Effect p s (.pushed value) { s with metaQueue := s.metaQueue.push p.heap value }
  | drop (id : Nat) (k : Kind) : Effect p s (.dropped k id (s.metaQueue.dropKind id k).1)
      { s with metaQueue := (s.metaQueue.dropKind id k).2 }
  | query {sei sei' : SeiInjector} {ctx : Context} {pkt : AVPacket} {found : Found}
      {rest : MetadataQueue SeiPayload} {o : Answer} (hclock : ctx.clock = s.clock)
      (htake : sei.take p.rescale (p.heap SeiPayload) ctx pkt s.metaQueue.sei =
        .ok (found, sei', rest))
      (ho : Queried sei s.metaQueue.sei ctx pkt found sei' rest o) :
      Effect p s o { s with metaQueue := { s.metaQueue with sei := rest } }

variable {p : Setup}

/-! ## One thread -/

theorem now_le_increment (clock : Clock) (delta : Int) :
    clock.now ≤ (clock.increment delta).now := by
  unfold Clock.increment
  split
  · show clock.val ≤ clock.val + delta
    omega
  · exact Int.le_refl _

theorem now_le_process (t : ClockTicker) (clock : Clock) (pkt : AVPacket) :
    clock.now ≤ (t.process p.rescale clock pkt).2.now := by
  show clock.now ≤
    (t.ticker.tick clock (t.ptsRescaler.rescaleToClock p.rescale clock pkt.pts).1).2.now
  unfold TSTicker.tick
  split <;> exact now_le_increment clock _

theorem query_effect {ticker : ClockTicker} {sei : SeiInjector} {pkt : AVPacket} {ctx : Context}
    {s s' : Shared} {o : Answer} {k' : InjectorState} (hclock : ctx.clock = s.clock)
    (h : query p ticker sei pkt ctx s = .ok (o, k', s')) : Effect p s o s' := by
  unfold query at h
  cases htake : sei.take p.rescale (p.heap SeiPayload) ctx pkt s.metaQueue.sei with
  | error f =>
      rw [htake] at h
      cases h
  | ok r =>
      rw [htake] at h
      cases hrewrite : rewritePacket (r.1.metadata.map Metadata.val) pkt.data with
      | ok data =>
          simp only [hrewrite] at h
          cases h
          exact .query hclock htake (.frame data hrewrite)
      | error f =>
          simp only [hrewrite] at h
          split at h
          · cases h
            exact .query hclock htake .failed
          · cases h

theorem injector_effect {a : InjectorAction} {k k' : InjectorState} {s s' : Shared} {o : Answer}
    (h : injector p a k s = .ok (o, k', s')) : Effect p s o s' := by
  have htick (session : OutputSession) (pkt : AVPacket) : Effect p s .silent
      { s with clock := (session.ticker.process p.rescale s.clock pkt).2 } :=
    .tick _ (now_le_process _ _ _) (ClockTicker.process_timeBase ..)
  unfold injector at h
  split at h
  · cases h
    exact .quiet
  · simp only at h
    split at h <;> cases h <;> exact htick _ _
  · cases h
    exact .quiet
  · split at h
    · cases h
    · cases h
      exact .quiet
  · exact query_effect rfl h
  · cases h
    exact .quiet
  · cases h

theorem extractor_effect {i : InputId} {a : ExtractorAction} {k k' : ExtractorState}
    {s s' : Shared} {o : Answer} (h : extractor p i a k s = .ok (o, k', s')) :
    Effect p s o s' := by
  unfold extractor at h
  split at h
  · split at h
    · cases h
      exact .flag _ _
    · cases h
  · cases h
    exact .quiet
  · cases h
    exact .quiet
  · split at h
    · cases h
      exact .quiet
    · cases h
  · cases h
    exact .quiet
  · cases h
    exact .quiet
  · cases h
    exact .push _
  · split at h
    · cases h
      exact .quiet
    · cases h
  · cases h
    exact .quiet
  · cases h
    exact .quiet
  · cases h
    exact .quiet
  · cases h
    exact .drop _ .sei
  · cases h
    exact .drop _ .scte
  · cases h
    exact .quiet
  · cases h
    exact .push _
  · cases h

theorem controller_effect {a : ControllerAction} {k k' : ControllerState} {s s' : Shared}
    {o : Answer} (h : controller p a k s = .ok (o, k', s')) : Effect p s o s' := by
  unfold controller at h
  split at h
  · split at h <;> cases h <;> exact .quiet
  · cases h
    exact .exchange _ _
  · cases h
    exact .adjust _
  · split at h
    · cases h
      exact .flag _ _
    · cases h
      exact .quiet
  · cases h

/-! ## All threads -/

theorem threads_effect {t : ThreadId} {a : ActionOf t} {k k' : StateOf t} {s s' : Shared}
    {o : Answer} (h : threads p t a k s = .ok (o, k', s')) : Effect p s o s' := by
  cases t with
  | injector => exact injector_effect h
  | controller => exact controller_effect h
  | extractor i => exact extractor_effect h

/-- The step: an action of any thread has one of the effects. -/
theorem application_effect {a : Action} {s s' : State} {o : Answer}
    (h : application p a s = .ok (o, s')) : Effect p s.shared o s'.shared := by
  obtain ⟨k, hstep, -⟩ := Threads.interleave_eq_ok h
  exact threads_effect hstep

end App
end Metamix
