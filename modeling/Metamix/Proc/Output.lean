/-
Runs of the output.

Inputs push, and the injector processes one frame after another, each with an input of its own
as the current one.  `frames` is the record of a run: for every frame the state it found, what
was taken for it and what it left behind.  A frame with a user-defined input empties the queue
up to its own timestamp, one with the virtual input does not look at the queue, and so
`frames_drained_iff` says which frames leave nothing behind that is due.
-/
import Metamix.Proc.Malformed
import Metamix.Proc.Overflow

namespace Metamix
namespace Proc

open Lib Binary H264 Time Queue MetadataQueue

inductive OutputEvent where
  | push (value : Metadata SeiPayload)
  | frame (ctx : Context) (pkt : AVPacket)

structure Processed where
  before : SeiInjector
  queue : MetadataQueue SeiPayload
  ctx : Context
  pkt : AVPacket
  found : Found
  out : AVPacket
  after : SeiInjector
  rest : MetadataQueue SeiPayload

variable (A : AvRescale) (H : Heap SeiPayload)

/-- The frames of a run, up to the first one that ends it or has a sum that leaves 64 bits. -/
def frames : List OutputEvent → SeiInjector → MetadataQueue SeiPayload → List Processed
  | [], _, _ => []
  | .push value :: events, s, q => frames events s (push H value q)
  | .frame ctx pkt :: events, s, q =>
      match s.sums A ctx pkt.pts, s.take A H ctx pkt q, s.process A H ctx pkt q with
      | .ok _, .ok (found, _, _), .ok (out, s', q') =>
          ⟨s, q, ctx, pkt, found, out, s', q'⟩ :: frames events s' q'
      | _, _, _ => []

namespace Processed

def stamp (f : Processed) : Int := (f.before.adjustedPts A f.ctx f.pkt.pts).1

/-- What a record is a record of. -/
structure Faithful (f : Processed) : Prop where
  isHeap : IsHeap comparator f.queue
  room : f.before.HasRoom A f.ctx f.pkt.pts
  take : f.before.take A H f.ctx f.pkt f.queue = .ok (f.found, f.after, f.rest)
  rewrite : rewritePacket (f.found.metadata.map Metadata.val) f.pkt.data = .ok f.out.data

end Processed

variable {A H}

/-! ## One frame -/

namespace SeiInjector

/-- What a frame takes: a reset if the input has changed, and for a user-defined input its
window of the queue.  The virtual input does not touch the queue. -/
inductive TakesFor (s : SeiInjector) (ctx : Context) (pts : Int)
    (q : MetadataQueue SeiPayload) (found : Found) (rest : MetadataQueue SeiPayload) : Prop where
  | userDefined {id : Nat} (hinput : ctx.currentInput = .userDefined id)
      (hall : PopAll id s.prevPts (pts + 1) q found.popped rest)
  | clear {id : Nat} (hinput : ctx.currentInput = .clear id) (hrest : rest = q)

theorem take_takesFor {s s' : SeiInjector} {ctx : Context} {pkt : AVPacket}
    {q q' : MetadataQueue SeiPayload} {found : Found} (hq : IsHeap comparator q)
    (h : s.take A H ctx pkt q = .ok (found, s', q')) :
    TakesFor s ctx (s.adjustedPts A ctx pkt.pts).1 q found q' := by
  obtain ⟨result, hquery, rfl, -⟩ := take_eq_ok h
  cases hinput : ctx.currentInput with
  | clear id =>
      rw [hinput] at hquery
      cases hquery
      exact .clear hinput rfl
  | userDefined id =>
      rw [hinput] at hquery
      rcases popAll_spec (H := H) id s.prevPts ((s.adjustedPts A ctx pkt.pts).1 + 1) hq with
        ⟨-, out, rest, hok, hall⟩ | ⟨-, herr⟩
      · obtain ⟨result', hquery', hresult⟩ := Input.runQuerySei_of_popAll hok
        rw [hquery] at hquery'
        cases hquery'
        refine .userDefined hinput ?_
        show PopAll id s.prevPts _ q (result.getD []) _
        rw [hresult]
        exact hall
      · rw [Input.runQuerySei, herr, error_bind] at hquery
        cases hquery

end SeiInjector

/-! ## Runs -/

/-- A frame ends the run, or is processed and the run goes on behind it. -/
theorem frames_frame (ctx : Context) (pkt : AVPacket) (events : List OutputEvent) (s : SeiInjector)
    (q : MetadataQueue SeiPayload) : frames A H (.frame ctx pkt :: events) s q = [] ∨
      ∃ found out s' q', s.HasRoom A ctx pkt.pts ∧ s.take A H ctx pkt q = .ok (found, s', q') ∧
        rewritePacket (found.metadata.map Metadata.val) pkt.data = .ok out.data ∧
        frames A H (.frame ctx pkt :: events) s q =
          ⟨s, q, ctx, pkt, found, out, s', q'⟩ :: frames A H events s' q' := by
  rw [frames]
  cases hsums : s.sums A ctx pkt.pts with
  | error overflow => exact .inl rfl
  | ok o =>
      have hroom := SeiInjector.sums_ok_iff.mp ⟨o, hsums⟩
      cases hprocess : s.process A H ctx pkt q with
      | error f =>
          cases s.take A H ctx pkt q <;> exact .inl rfl
      | ok r =>
          obtain ⟨out, s', q'⟩ := r
          obtain ⟨found, htake, hrewrite, -⟩ := SeiInjector.process_eq_ok hprocess
          rw [htake]
          exact .inr ⟨found, out, s', q', hroom, rfl, hrewrite, rfl⟩

/-- Pushes and frames keep the queue a heap, so every record is what it says. -/
theorem frames_faithful {events : List OutputEvent} {s : SeiInjector}
    {q : MetadataQueue SeiPayload} (hq : IsHeap comparator q) :
    ∀ f ∈ frames A H events s q, f.Faithful A H := by
  induction events generalizing s q with
  | nil => simp [frames]
  | cons event events ih =>
      cases event with
      | push value => exact ih (H.push_isHeap q value hq)
      | frame ctx pkt =>
          rcases frames_frame (A := A) (H := H) ctx pkt events s q with
            hnil | ⟨found, out, s', q', hroom, htake, hrewrite, hcons⟩
          · rw [hnil]
            exact List.forall_mem_nil _
          · have hq' : IsHeap comparator q' := by
              cases SeiInjector.take_takesFor hq htake with
              | userDefined _ hall => exact hall.isHeap
              | clear _ hrest => rwa [hrest]
            rw [hcons]
            exact List.forall_mem_cons.mpr ⟨⟨hq, hroom, htake, hrewrite⟩, ih hq'⟩

/-! ## The playhead -/

/-- Nothing that is due is left in the queue. -/
def Processed.Drained (A : AvRescale) (f : Processed) : Prop := ∀ e ∈ f.rest, f.stamp A < e.pts

def Processed.Drains (A : AvRescale) (f : Processed) : Prop :=
  (∃ id, f.ctx.currentInput = .userDefined id) ∨ ∀ e ∈ f.queue, f.stamp A < e.pts

theorem Processed.Faithful.drained_iff {f : Processed} (h : f.Faithful A H) :
    f.Drained A ↔ f.Drains A := by
  cases SeiInjector.take_takesFor h.isHeap h.take with
  | @userDefined id hinput hall =>
      refine iff_of_true ?_ (.inl ⟨id, hinput⟩)
      intro e he
      have hkept := (List.mem_filter.mp (hall.rest_perm.subset he)).2
      simp only [notBefore, decide_eq_true_eq] at hkept
      show (f.before.adjustedPts A f.ctx f.pkt.pts).1 < e.pts
      omega
  | @clear id hinput hrest =>
      have hnot : ¬∃ id, f.ctx.currentInput = .userDefined id := by
        intro h
        obtain ⟨id', h⟩ := h
        rw [hinput] at h
        cases h
      show (∀ e ∈ f.rest, f.stamp A < e.pts) ↔ _ ∨ _
      rw [hrest, or_iff_right hnot]

/-- In every run, a frame leaves nothing behind that is due exactly if its input is user-defined
or nothing was due. -/
theorem frames_drained_iff (A : AvRescale) (H : Heap SeiPayload) (events : List OutputEvent)
    (s : SeiInjector) : ∀ f ∈ frames A H events s [], f.Drained A ↔ f.Drains A :=
  fun f hf => (frames_faithful (isHeap_nil _) f hf).drained_iff

/-- An entry of input 1, and a frame of that input behind it. -/
theorem frames_drained_userDefined :
    ∃ f ∈ frames .nearest (library SeiPayload)
        [.push ⟨1, 0, 0, 0, emptySei⟩, .frame ⟨.init, 0, .userDefined 1⟩ ⟨5, 5, []⟩]
        (.create Clock.defaultTimeBase .init) [], f.Drained .nearest := by
  have hframe : ∃ f ∈ frames .nearest (library SeiPayload)
      [.push ⟨1, 0, 0, 0, emptySei⟩, .frame ⟨.init, 0, .userDefined 1⟩ ⟨5, 5, []⟩]
      (.create Clock.defaultTimeBase .init) [], f.ctx.currentInput = .userDefined 1 :=
    ⟨_, List.mem_cons_self .., rfl⟩
  obtain ⟨f, hmem, hinput⟩ := hframe
  exact ⟨f, hmem, (frames_drained_iff _ _ _ _ f hmem).mpr (.inl ⟨1, hinput⟩)⟩

/-- An entry of input 1, and a frame behind it with the virtual input 0 as the current one. -/
theorem frames_not_drained :
    ∃ f ∈ frames .nearest (library SeiPayload)
        [.push ⟨1, 0, 0, 0, emptySei⟩, .frame ⟨.init, 0, .clear 0⟩ ⟨5, 5, []⟩]
        (.create Clock.defaultTimeBase .init) [], ¬f.Drained .nearest := by
  refine ⟨_, List.mem_cons_self .., ?_⟩
  intro h
  exact absurd (h ⟨1, 0, 0, 0, emptySei⟩ (List.mem_cons_self ..)) (by decide)

end Proc
end Metamix
