/-
The reset behind an extractor that has ended.

`post_exit` drops what the input still has in the queue and pushes one reset, a clock tick
behind the clock.  The clock does not know the adjustment: the window of the next frame begins a
tick behind the adjusted timestamp of the last one.  `postExit_reset_iff` says when the reset
lies in that window, and that it takes the heap to be found there and room for both frames.
-/
import Metamix.Proc.Output

namespace Metamix
namespace Proc

open Lib Binary H264 Time Queue MetadataQueue

/-- `post_exit`, as far as the queue of the captions is concerned. -/
def postExit (H : Heap SeiPayload) (inputId : Nat) (clock : Clock)
    (q : MetadataQueue SeiPayload) : MetadataQueue SeiPayload :=
  push H (buildCcResetMetadata inputId (clock.now + 1)) (dropId inputId q).2

def pushAll (H : Heap SeiPayload) (values : List (Metadata SeiPayload))
    (q : MetadataQueue SeiPayload) : MetadataQueue SeiPayload :=
  values.foldl (fun q value => push H value q) q

def SeiInjector.behind (A : AvRescale) (s : SeiInjector) (ctx : Context) (pkt : AVPacket) :
    SeiInjector :=
  ⟨(s.adjustedPts A ctx pkt.pts).2, (s.adjustedPts A ctx pkt.pts).1 + 1, some ctx.currentInput.id⟩

/-- The next frame gets the reset and nothing else out of the queue, if the extractor of the
input ends in front of it and only other inputs push after that.  No sum leaves 64 bits. -/
def GetsReset (A : AvRescale) (H : Heap SeiPayload) (s : SeiInjector) (id : Nat) (clock : Clock)
    (q : MetadataQueue SeiPayload) (others : List (Metadata SeiPayload)) (ctx : Context)
    (pkt : AVPacket) : Prop :=
  Fits (clock.now + 1) ∧ (∃ o, s.sums A ctx pkt.pts = .ok o) ∧
    ∃ found s' q', s.take A H ctx pkt (pushAll H others (postExit H id clock q)) =
        .ok (found, s', q') ∧
      found.result = some [buildCcResetMetadata id (clock.now + 1)]

/-- Two frames with the end of the extractor between them: whatever the library does with a vector
that is no heap, the second frame gets the reset. -/
def ResetsNext (A : AvRescale) (s : SeiInjector) (ctx : Context) (pkt : AVPacket) (id : Nat)
    (clock : Clock) (q : MetadataQueue SeiPayload) (others : List (Metadata SeiPayload))
    (ctx' : Context) (pkt' : AVPacket) : Prop :=
  (∃ o, s.sums A ctx pkt.pts = .ok o) ∧
    ∀ H q₀ found s₁ q₁, s.take A H ctx pkt q₀ = .ok (found, s₁, q₁) →
      GetsReset A H s₁ id clock q others ctx' pkt'

variable {A : AvRescale} {H : Heap SeiPayload}

theorem SeiInjector.take_behind {s s' : SeiInjector} {ctx : Context} {pkt : AVPacket}
    {q q' : MetadataQueue SeiPayload} {found : Found}
    (h : s.take A H ctx pkt q = .ok (found, s', q')) : s' = s.behind A ctx pkt := by
  obtain ⟨_, -, -, hs'⟩ := take_eq_ok h
  exact hs'

theorem pushAll_spec (H : Heap SeiPayload) (values : List (Metadata SeiPayload))
    {q : MetadataQueue SeiPayload} (hq : IsHeap comparator q) :
    IsHeap comparator (pushAll H values q) ∧ (pushAll H values q).Perm (values ++ q) := by
  induction values generalizing q with
  | nil => exact ⟨hq, List.Perm.refl _⟩
  | cons value values ih =>
      obtain ⟨hheap, hperm⟩ := ih (H.push_isHeap q value hq)
      refine ⟨hheap, hperm.trans ?_⟩
      have hpush : (push H value q).Perm (value :: q) :=
        (H.push_perm q value hq).trans (List.perm_append_singleton _ _)
      exact (hpush.append_left values).trans List.perm_middle

/-- A frame that finds at most one entry in its window gets that entry. -/
theorem SeiInjector.take_result {s : SeiInjector} {ctx : Context} {id : Nat} {pkt : AVPacket}
    {q : MetadataQueue SeiPayload} {found : List (Metadata SeiPayload)}
    (hq : IsHeap comparator q) (hinput : ctx.currentInput = .userDefined id)
    (hfound : (q.filter (wanted id s.prevPts ((s.adjustedPts A ctx pkt.pts).1 + 1))).Perm found)
    (hone : found.length ≤ 1) :
    ∃ r s' q', s.take A H ctx pkt q = .ok (r, s', q') ∧ r.popped = found := by
  have hdistinct : Distinct id s.prevPts ((s.adjustedPts A ctx pkt.pts).1 + 1) q := by
    refine (hfound.map _).nodup_iff.mpr ?_
    match found, hone with
    | [], _ => exact List.nodup_nil
    | [_], _ => exact List.nodup_singleton _
  obtain ⟨r, s', q', htake, hall⟩ := take_spec (H := H) pkt hq hinput hdistinct
  refine ⟨r, s', q', htake, ?_⟩
  have hperm := hall.popAll.out_perm.trans hfound
  match found, hone with
  | [], _ => exact hperm.eq_nil
  | [_], _ => exact List.perm_singleton.mp hperm

/-- Nothing is asked of `std::push_heap` on a vector that is no heap: this one clears it. -/
def clearing {q : MetadataQueue SeiPayload} (hq : ¬IsHeap comparator q)
    (value : Metadata SeiPayload) : Heap SeiPayload :=
  { library SeiPayload with
    pushHeap := fun v => if v = q ++ [value] then [] else (library SeiPayload).pushHeap v
    push_isHeap := by
      intro q' x hq'
      have hne : q' ++ [x] ≠ q ++ [value] := fun h => hq ((List.append_inj' h rfl).1 ▸ hq')
      rw [if_neg hne]
      exact (library SeiPayload).push_isHeap q' x hq'
    push_perm := by
      intro q' x hq'
      have hne : q' ++ [x] ≠ q ++ [value] := fun h => hq ((List.append_inj' h rfl).1 ▸ hq')
      rw [if_neg hne]
      exact (library SeiPayload).push_perm q' x hq' }

theorem filter_wanted_others {id : Nat} {since until_ : Int} {others : List (Metadata SeiPayload)}
    (h : ∀ e ∈ others, e.inputId ≠ id) : others.filter (wanted id since until_) = [] := by
  refine List.filter_eq_nil_iff.mpr fun e he hw => ?_
  simp only [wanted, decide_eq_true_eq] at hw
  exact h e he hw.2.2

theorem result_eq_some_iff {found : Found} {e : Metadata SeiPayload} :
    found.result = some [e] ↔ found.popped = [e] := by
  unfold Found.popped
  cases found.result <;> simp

/-- If the drop leaves a heap, the reset is what the next frame gets exactly if it lies in the
window. -/
theorem getsReset_iff {s : SeiInjector} {id : Nat} {clock : Clock} {q : MetadataQueue SeiPayload}
    {others : List (Metadata SeiPayload)} {ctx : Context} {pkt : AVPacket}
    (hdrop : IsHeap comparator (dropId id q).2) (hinput : ctx.currentInput = .userDefined id)
    (hothers : ∀ e ∈ others, e.inputId ≠ id) :
    GetsReset A H s id clock q others ctx pkt ↔
      (s.prevPts ≤ clock.now + 1 ∧ clock.now < (s.adjustedPts A ctx pkt.pts).1) ∧
        Fits (clock.now + 1) ∧ s.HasRoom A ctx pkt.pts := by
  let reset := buildCcResetMetadata id (clock.now + 1)
  let pts := (s.adjustedPts A ctx pkt.pts).1
  have hexit : IsHeap comparator (postExit H id clock q) := H.push_isHeap _ reset hdrop
  obtain ⟨hheap, hperm⟩ := pushAll_spec H others hexit
  have hdropped : ∀ e ∈ (dropId id q).2, e.inputId ≠ id := (dropsExactly id q).2.1
  have hall : ((pushAll H others (postExit H id clock q)).filter
      (wanted id s.prevPts (pts + 1))).Perm ([reset].filter (wanted id s.prevPts (pts + 1))) := by
    have hpush := hperm.trans ((H.push_perm _ reset hdrop).append_left others)
    refine (hpush.filter _).trans ?_
    rw [List.filter_append, List.filter_append, filter_wanted_others hothers,
      filter_wanted_others hdropped]
    exact List.Perm.refl _
  obtain ⟨r, s', q', htake, hpopped⟩ := SeiInjector.take_result hheap hinput hall
    (List.length_filter_le _ [reset])
  have hwanted : wanted id s.prevPts (pts + 1) reset = true ↔
      s.prevPts ≤ clock.now + 1 ∧ clock.now < pts := by
    rw [wanted, decide_eq_true_eq]
    show s.prevPts ≤ clock.now + 1 ∧ clock.now + 1 < pts + 1 ∧ id = id ↔ _
    omega
  show _ ↔ (s.prevPts ≤ clock.now + 1 ∧ clock.now < pts) ∧ _
  rw [← hwanted, ← SeiInjector.sums_ok_iff]
  constructor
  · intro h
    obtain ⟨hfits, hsums, r', _, _, htake', hresult⟩ := h
    rw [htake] at htake'
    cases htake'
    rw [result_eq_some_iff.mp hresult] at hpopped
    have hmem : reset ∈ [reset].filter (wanted id s.prevPts (pts + 1)) :=
      hpopped ▸ List.mem_cons_self ..
    exact ⟨(List.mem_filter.mp hmem).2, hfits, hsums⟩
  · intro h
    obtain ⟨hw, hfits, hsums⟩ := h
    rw [List.filter_cons_of_pos hw] at hpopped
    exact ⟨hfits, hsums, r, s', q', htake, result_eq_some_iff.mpr hpopped⟩

/-- A reset that is pushed on what is no heap can be lost. -/
theorem not_getsReset_clearing {s : SeiInjector} {id : Nat} {clock : Clock}
    {q : MetadataQueue SeiPayload} {others : List (Metadata SeiPayload)} {ctx : Context}
    {pkt : AVPacket} (hdrop : ¬IsHeap comparator (dropId id q).2)
    (hinput : ctx.currentInput = .userDefined id) (hothers : ∀ e ∈ others, e.inputId ≠ id) :
    ¬GetsReset A (clearing hdrop (buildCcResetMetadata id (clock.now + 1))) s id clock q others
      ctx pkt := by
  intro h
  let H := clearing hdrop (buildCcResetMetadata id (clock.now + 1))
  have hexit : postExit H id clock q = [] := if_pos rfl
  obtain ⟨hheap, hperm⟩ := pushAll_spec H others (isHeap_nil comparator)
  have hnothing := hperm.filter
    (wanted id s.prevPts ((s.adjustedPts A ctx pkt.pts).1 + 1))
  rw [List.append_nil, filter_wanted_others hothers] at hnothing
  obtain ⟨r, s', q', htake, hpopped⟩ :=
    SeiInjector.take_result hheap hinput hnothing (Nat.zero_le 1)
  obtain ⟨_, _, r', _, _, htake', hresult⟩ := h
  rw [hexit, htake] at htake'
  cases htake'
  rw [result_eq_some_iff.mp hresult] at hpopped
  exact nomatch hpopped

theorem SeiInjector.take_nil (H : Heap SeiPayload) (s : SeiInjector) (ctx : Context)
    (pkt : AVPacket) : ∃ found q', s.take A H ctx pkt [] = .ok (found, s.behind A ctx pkt, q') := by
  obtain ⟨clock, tsAdjustment, input⟩ := ctx
  cases input <;> exact ⟨_, _, rfl⟩

/-- The extractor of the current input ends behind a frame, while the clock shows that frame's
timestamp, and only other inputs push before the next frame.  That gets the reset exactly if the
drop leaves a heap, the adjustment of the last frame is not negative, the next frame is later
than the last one by more than its own adjustment, and there is room for both. -/
theorem postExit_reset_iff {s : SeiInjector} {ctx ctx' : Context} {pkt pkt' : AVPacket} {id : Nat}
    {clock : Clock} {q : MetadataQueue SeiPayload} {others : List (Metadata SeiPayload)}
    (hclock : clock.now = (s.ptsRescaler.rescaleToClock A ctx.clock pkt.pts).1)
    (hinput : ctx'.currentInput = .userDefined id) (hothers : ∀ e ∈ others, e.inputId ≠ id) :
    ResetsNext A s ctx pkt id clock q others ctx' pkt' ↔
      KeepsHeap id q ∧ (0 ≤ ctx.tsAdjustment ∧ clock.now + ctx'.tsAdjustment <
        ((s.ptsRescaler.rescaleToClock A ctx.clock pkt.pts).2.rescaleToClock A ctx'.clock
          pkt'.pts).1) ∧
      s.HasRoom A ctx pkt.pts ∧ (s.behind A ctx pkt).HasRoom A ctx' pkt'.pts := by
  let next := ((s.ptsRescaler.rescaleToClock A ctx.clock pkt.pts).2.rescaleToClock A ctx'.clock
    pkt'.pts).1
  have hwindow : (s.behind A ctx pkt).prevPts ≤ clock.now + 1 ∧
      clock.now < ((s.behind A ctx pkt).adjustedPts A ctx' pkt'.pts).1 ↔
      0 ≤ ctx.tsAdjustment ∧ clock.now + ctx'.tsAdjustment < next := by
    show (s.ptsRescaler.rescaleToClock A ctx.clock pkt.pts).1 - ctx.tsAdjustment + 1 ≤
      clock.now + 1 ∧ clock.now < next - ctx'.tsAdjustment ↔ _
    rw [← hclock]
    omega
  rw [ResetsNext, SeiInjector.sums_ok_iff]
  constructor
  · intro h
    obtain ⟨hroom, h⟩ := h
    have hgets : ∀ H, GetsReset A H (s.behind A ctx pkt) id clock q others ctx' pkt' := by
      intro H
      obtain ⟨found, q₁, htake⟩ := s.take_nil H ctx pkt
      exact h H [] found _ q₁ htake
    have hdrop : IsHeap comparator (dropId id q).2 := by
      by_contra hdrop
      exact not_getsReset_clearing hdrop hinput hothers (hgets _)
    obtain ⟨hin, -, hroom'⟩ := (getsReset_iff hdrop hinput hothers).mp (hgets (library SeiPayload))
    exact ⟨isHeap_dropId_iff.mp hdrop, hwindow.mp hin, hroom, hroom'⟩
  · intro h
    obtain ⟨hkeeps, hlate, hroom, hroom'⟩ := h
    refine ⟨hroom, fun H q₀ found s₁ q₁ htake => ?_⟩
    rw [SeiInjector.take_behind htake, getsReset_iff (isHeap_dropId_iff.mpr hkeeps) hinput hothers]
    have hin := hwindow.mpr hlate
    -- The tick behind the clock is no later than the next frame.
    have hfits : Fits (clock.now + 1) := by
      have hnow := hroom.fits.1
      have hnext := hroom'.fits.2
      rw [← hclock] at hnow
      unfold Fits at hnow hnext ⊢
      omega
    exact ⟨hin, hfits, hroom'⟩

/-- No adjustment, and a frame one tick later. -/
theorem postExit_reset_unadjusted :
    ResetsNext .nearest (.create Clock.defaultTimeBase .init) ⟨.init, 0, .userDefined 1⟩ ⟨7, 7, []⟩
      1 .init [⟨1, 5, 5, 0, emptySei⟩] [] ⟨.init, 0, .userDefined 1⟩ ⟨8, 8, []⟩ :=
  have hheap : IsHeap comparator [(⟨1, 5, 5, 0, emptySei⟩ : Metadata SeiPayload)] :=
    (library SeiPayload).push_isHeap [] ⟨1, 5, 5, 0, emptySei⟩ (isHeap_nil _)
  (postExit_reset_iff (by decide) rfl (by simp)).mpr
    ⟨keepsHeap_of_last [] _ hheap (by simp) (by decide), ⟨by decide, by decide⟩, by decide,
      by decide⟩

/-- With an adjustment of one tick the reset is postponed from a frame one tick later, and with
the opposite one it comes too late. -/
theorem postExit_reset_missed :
    (∃ found s q, (SeiInjector.create Clock.defaultTimeBase .init).take .nearest
          (library SeiPayload) ⟨.init, 1, .userDefined 1⟩ ⟨7, 7, []⟩ [] = .ok (found, s, q) ∧
        ¬GetsReset .nearest (library SeiPayload) s 1 .init q [] ⟨.init, 1, .userDefined 1⟩
          ⟨8, 8, []⟩) ∧
      ∃ found s q, (SeiInjector.create Clock.defaultTimeBase .init).take .nearest
          (library SeiPayload) ⟨.init, -1, .userDefined 1⟩ ⟨7, 7, []⟩ [] = .ok (found, s, q) ∧
        ¬GetsReset .nearest (library SeiPayload) s 1 .init q [] ⟨.init, -1, .userDefined 1⟩
          ⟨8, 8, []⟩ := by
  refine ⟨⟨_, _, _, rfl, ?_⟩, _, _, _, rfl, ?_⟩
  · rw [getsReset_iff (isHeap_nil _) rfl (by simp)]
    decide
  · rw [getsReset_iff (isHeap_nil _) rfl (by simp)]
    decide

end Proc
end Metamix
