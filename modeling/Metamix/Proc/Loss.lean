/-
Metadata and packets that do not parse.

A frame takes its metadata before it knows whether its packet parses, and a packet that does not
parse carries none of it.  What a frame owes the output is the reset for a change of input and
what it took out of the queue.  `frames_lossless_iff` says that a run loses nothing exactly when
the frames whose packets do not parse owe nothing, and that all that is owed is then found in the
bytes of the packets.
-/
import Metamix.Proc.Output

namespace Metamix
namespace Proc

open Lib Binary H264 Time Queue MetadataQueue

/-! ## One packet -/

theorem emitNaluLength_fails {length : UInt32} {f : Fault} (h : emitNaluLength length = .error f) :
    f = .assertion := by
  unfold emitNaluLength at h
  split_ifs at h
  exact (Except.error.inj h).symm

theorem emitNalus_fails {nalus : List Nalu} {f : Fault} (h : emitNalus nalus = .error f) :
    f = .assertion := by
  induction nalus with
  | nil => exact nomatch h
  | cons n nalus ih =>
      obtain hn | ⟨bytes, -, h⟩ := of_bind_eq_error h
      · obtain hlen | ⟨_, -, hlen⟩ := of_bind_eq_error hn
        · exact emitNaluLength_fails hlen
        · exact nomatch hlen
      · obtain hrest | ⟨buf, -, h⟩ := of_bind_eq_error h
        · exact ih hrest
        · exact nomatch h

/-- Contents that parse are rewritten, or end the injector with a failed assertion. -/
theorem remux_of_parses {found : List SeiPayload} {data : Bytes} {f : Fault} (h : Parses data)
    (hremux : remux found data = .error f) : f = .assertion := by
  obtain ⟨nalus, hcollect, hwell⟩ := h
  obtain ⟨hrebuild, -⟩ := rebuild_of_wellFormed found hwell
  rw [remux, hcollect, ok_bind] at hremux
  obtain hhead | ⟨head, -, hremux⟩ := of_bind_eq_error hremux
  · exact emitNalus_fails hhead
  rw [hrebuild, ok_bind] at hremux
  split_ifs at hremux
  · exact (Except.error.inj hremux).symm
  obtain hsei | ⟨sei, -, hremux⟩ := of_bind_eq_error hremux
  · obtain hlen | ⟨_, -, hlen⟩ := of_bind_eq_error hsei
    · exact emitNaluLength_fails hlen
    · exact nomatch hlen
  obtain htail | ⟨tail, -, hremux⟩ := of_bind_eq_error hremux
  · exact emitNalus_fails htail
  · exact nomatch hremux

/-- A rewritten packet carries every payload found for it. -/
theorem remux_carries {found : List SeiPayload} {data out : Bytes}
    (h : remux found data = .ok out) : ∀ sei ∈ found, emitSeiPayload sei <:+: out := by
  intro sei hmem
  obtain ⟨nalus, -, h⟩ := of_bind_eq_ok h
  obtain ⟨head, -, h⟩ := of_bind_eq_ok h
  obtain ⟨seis, hrebuild, h⟩ := of_bind_eq_ok h
  split_ifs at h
  obtain ⟨bytes, hbytes, h⟩ := of_bind_eq_ok h
  obtain ⟨tail, -, h⟩ := of_bind_eq_ok h
  obtain ⟨length, -, hbytes⟩ := of_bind_eq_ok hbytes
  have hsei : sei ∈ seis := by
    rw [rebuild_eq_ok hrebuild]
    exact List.mem_append_right _ hmem
  have hflat : emitSeiPayload sei <:+: seis.flatMap emitSeiPayload := by
    rw [List.flatMap_def]
    exact List.infix_of_mem_flatten (List.mem_map_of_mem hsei)
  have hnalu : emitSeiPayload sei <:+: bytes := by
    rw [← Except.ok.inj hbytes]
    exact hflat.trans ((List.infix_cons (List.infix_refl _)).trans (List.suffix_append _ _).isInfix)
  rw [← Except.ok.inj h]
  exact hnalu.trans (List.infix_append' head bytes tail)

/-! ## One frame -/

namespace Processed

/-- What a frame took out of the queue.  The virtual input makes its metadata up. -/
def taken (f : Processed) : List (Metadata SeiPayload) :=
  match f.ctx.currentInput with
  | .userDefined _ => f.found.popped
  | .clear _ => []

def owed (f : Processed) : List (Metadata SeiPayload) := f.found.reset ++ f.taken

def rewritten (f : Processed) : Bool :=
  match remux (f.found.metadata.map Metadata.val) f.pkt.data with
  | .ok _ => true
  | .error _ => false

def carried (f : Processed) : List (Metadata SeiPayload) := if f.rewritten then f.owed else []

/-- The input is that of the frame before, and nothing of it in the queue is in the window. -/
def OwesNothing (A : AvRescale) (f : Processed) : Prop :=
  f.before.prevInputId = some f.ctx.currentInput.id ∧
    ∀ id, f.ctx.currentInput = .userDefined id →
      ∀ e ∈ f.queue, wanted id f.before.prevPts (f.stamp A + 1) e = false

variable {A : AvRescale} {H : Heap SeiPayload} {f : Processed}

theorem mem_metadata_of_owed {e : Metadata SeiPayload} (h : e ∈ f.owed) : e ∈ f.found.metadata := by
  have hpopped : e ∈ f.found.popped → e ∈ f.found.result.getD f.found.empty := by
    intro he
    unfold Found.popped at he
    cases hresult : f.found.result with
    | none =>
        rw [hresult] at he
        exact nomatch he
    | some v =>
        rw [hresult] at he
        exact he
  refine List.mem_append.mpr ((List.mem_append.mp h).imp_right fun he => hpopped ?_)
  unfold taken at he
  split at he
  · exact he
  · exact nomatch he

theorem carried_sublist : f.carried.Sublist f.owed := by
  unfold carried
  split
  · exact List.Sublist.refl _
  · exact List.nil_sublist _

namespace Faithful

theorem reset_eq (h : f.Faithful A H) :
    f.found.reset = f.before.resetFor f.ctx.currentInput.id (f.stamp A) := by
  obtain ⟨_, -, hfound, -⟩ := SeiInjector.take_eq_ok h.take
  rw [hfound]
  rfl

theorem owed_eq_nil_iff (h : f.Faithful A H) : f.owed = [] ↔ f.OwesNothing A := by
  have hreset : f.found.reset = [] ↔ f.before.prevInputId = some f.ctx.currentInput.id := by
    rw [h.reset_eq, SeiInjector.resetFor]
    split_ifs with hid
    · exact iff_of_false (by simp) fun heq => hid heq.symm
    · exact iff_of_true rfl (not_not.mp hid).symm
  rw [owed, List.append_eq_nil_iff, hreset, OwesNothing]
  refine and_congr_right fun _ => ?_
  unfold taken
  cases SeiInjector.take_takesFor h.isHeap h.take with
  | clear hinput _ => simp [hinput]
  | @userDefined id hinput hall =>
      simp only [hinput, Input.userDefined.injEq, forall_eq']
      rw [← List.length_eq_zero_iff, hall.out_perm.length_eq, List.length_eq_zero_iff,
        List.filter_eq_nil_iff]
      simp only [Bool.not_eq_true]
      rfl

theorem rewritten_iff (h : f.Faithful A H) : f.rewritten = true ↔ Parses f.pkt.data := by
  have hrewrite := h.rewrite
  unfold rewritten
  unfold rewritePacket at hrewrite
  cases hremux : remux (f.found.metadata.map Metadata.val) f.pkt.data with
  | ok bytes =>
      obtain ⟨nalus, seis, _, _, _, hcollect, hrebuild, -⟩ := remux_eq_ok hremux
      exact iff_of_true rfl ⟨nalus, hcollect, wellFormed_of_rebuild hrebuild⟩
  | error fault =>
      refine iff_of_false Bool.false_ne_true fun hparses => ?_
      rw [hremux, remux_of_parses hparses hremux] at hrewrite
      exact nomatch hrewrite

theorem carries (h : f.Faithful A H) (hrewritten : f.rewritten = true) :
    ∀ e ∈ f.found.metadata, emitSeiPayload e.val <:+: f.out.data := by
  have hrewrite := h.rewrite
  unfold rewritten at hrewritten
  unfold rewritePacket at hrewrite
  cases hremux : remux (f.found.metadata.map Metadata.val) f.pkt.data with
  | error fault =>
      rw [hremux] at hrewritten
      exact nomatch hrewritten
  | ok bytes =>
      rw [hremux] at hrewrite
      rw [← Except.ok.inj hrewrite]
      intro e he
      exact remux_carries hremux e.val (List.mem_map_of_mem he)

/-- A frame with another input than the one before owes a reset. -/
theorem owes_reset (h : f.Faithful A H)
    (hid : f.before.prevInputId ≠ some f.ctx.currentInput.id) :
    ∃ e ∈ f.owed, e.val = resetSei := by
  have hreset : f.found.reset = [buildCcResetMetadata f.ctx.currentInput.id (f.stamp A)] := by
    rw [h.reset_eq, SeiInjector.resetFor, if_pos (Ne.symm hid)]
  refine ⟨buildCcResetMetadata f.ctx.currentInput.id (f.stamp A), ?_, rfl⟩
  rw [owed, hreset]
  exact List.mem_cons_self ..

end Faithful
end Processed

/-! ## Runs -/

variable {A : AvRescale} {H : Heap SeiPayload}

def Lossless (log : List Processed) : Prop :=
  ∀ e, (log.flatMap Processed.owed).count e ≤ (log.flatMap Processed.carried).count e

def Appears (log : List Processed) (e : Metadata SeiPayload) : Prop :=
  ∃ g ∈ log, g.rewritten = true ∧ e ∈ g.found.metadata ∧ emitSeiPayload e.val <:+: g.out.data

/-- Behind a rewritten packet, and up to the next one of another input, there is one with a
reset. -/
def ResetsBetween (log : List Processed) : Prop :=
  ∀ pre f mid g post, log = pre ++ f :: (mid ++ g :: post) →
    f.rewritten = true → g.rewritten = true → f.ctx.currentInput.id ≠ g.ctx.currentInput.id →
    ∃ r ∈ mid ++ [g], r.rewritten = true ∧ emitSeiPayload resetSei <:+: r.out.data

theorem count_carried_le (log : List Processed) (e : Metadata SeiPayload) :
    (log.flatMap Processed.carried).count e ≤ (log.flatMap Processed.owed).count e := by
  induction log with
  | nil => exact Nat.le_refl 0
  | cons f log ih =>
      rw [List.flatMap_cons, List.flatMap_cons, List.count_append, List.count_append]
      exact Nat.add_le_add (Processed.carried_sublist.count_le e) ih

/-- What is carried is never more than what is owed, so nothing is lost exactly if every frame
carries all of it. -/
theorem lossless_iff {log : List Processed} :
    Lossless log ↔ ∀ f ∈ log, f.rewritten = true ∨ f.owed = [] := by
  induction log with
  | nil => simp [Lossless]
  | cons f log ih =>
      rw [List.forall_mem_cons, ← ih]
      have hsplit : Lossless (f :: log) ↔
          (∀ e, f.owed.count e ≤ f.carried.count e) ∧ Lossless log := by
        unfold Lossless
        rw [← forall_and]
        refine forall_congr' fun e => ?_
        have hhead : f.carried.count e ≤ f.owed.count e := Processed.carried_sublist.count_le e
        have htail := count_carried_le log e
        simp only [List.flatMap_cons, List.count_append]
        omega
      rw [hsplit]
      refine and_congr_left fun _ => ?_
      unfold Processed.carried
      by_cases hrewritten : f.rewritten = true
      · simp [hrewritten]
      · rw [if_neg hrewritten, or_iff_right hrewritten]
        simp [List.eq_nil_iff_forall_not_mem, List.count_eq_zero]

def Follows : Option Nat → List Processed → Prop
  | _, [] => True
  | prev, f :: log => f.before.prevInputId = prev ∧ Follows (some f.ctx.currentInput.id) log

theorem frames_follows {events : List OutputEvent} {s : SeiInjector}
    {q : MetadataQueue SeiPayload} : Follows s.prevInputId (frames A H events s q) := by
  induction events generalizing s q with
  | nil => trivial
  | cons event events ih =>
      cases event with
      | push value => exact ih
      | frame ctx pkt =>
          rcases frames_frame (A := A) (H := H) ctx pkt events s q with
            hnil | ⟨found, out, s', q', -, htake, -, hcons⟩
          · rw [hnil]
            trivial
          · obtain ⟨_, -, -, hs'⟩ := SeiInjector.take_eq_ok htake
            have hid : s'.prevInputId = some ctx.currentInput.id := by rw [hs']
            rw [hcons]
            exact ⟨rfl, hid ▸ ih⟩

theorem Follows.suffix {prev : Option Nat} {pre log : List Processed}
    (h : Follows prev (pre ++ log)) : ∃ prev', Follows prev' log := by
  induction pre generalizing prev with
  | nil => exact ⟨prev, h⟩
  | cons f pre ih => exact ih h.2

/-- On the way from one input to another there is a frame that changes it. -/
theorem Follows.changes {i : Nat} {mid post : List Processed} {g : Processed}
    (h : Follows (some i) (mid ++ g :: post)) (hne : i ≠ g.ctx.currentInput.id) :
    ∃ r ∈ mid ++ [g], r.before.prevInputId ≠ some r.ctx.currentInput.id := by
  induction mid generalizing i with
  | nil =>
      refine ⟨g, List.mem_cons_self .., ?_⟩
      rw [h.1]
      exact fun heq => hne (Option.some.inj heq)
  | cons m mid ih =>
      by_cases hm : i = m.ctx.currentInput.id
      · obtain ⟨r, hr, hchange⟩ := ih h.2 (hm ▸ hne)
        exact ⟨r, List.mem_cons_of_mem _ hr, hchange⟩
      · refine ⟨m, List.mem_cons_self .., ?_⟩
        rw [h.1]
        exact fun heq => hm (Option.some.inj heq)

/-- A run loses nothing exactly when the frames whose packets do not parse owe nothing.  Then
everything owed appears in the bytes of a packet, and there is a reset between packets of
different inputs. -/
theorem frames_lossless_iff (A : AvRescale) (H : Heap SeiPayload) (events : List OutputEvent)
    (s : SeiInjector) :
    let log := frames A H events s []
    let safe := ∀ f ∈ log, Parses f.pkt.data ∨ f.OwesNothing A
    (Lossless log ↔ safe) ∧
      (safe → (∀ f ∈ log, ∀ e ∈ f.owed, Appears log e) ∧ ResetsBetween log) := by
  intro log safe
  have hfaithful : ∀ f ∈ log, f.Faithful A H := frames_faithful (isHeap_nil _)
  have hsafe : safe ↔ ∀ f ∈ log, f.rewritten = true ∨ f.owed = [] :=
    forall₂_congr fun f hf =>
      or_congr (hfaithful f hf).rewritten_iff.symm (hfaithful f hf).owed_eq_nil_iff.symm
  have hcarried : safe → ∀ f ∈ log, f.owed ≠ [] → f.rewritten = true := fun h f hf hne =>
    (hsafe.mp h f hf).resolve_right hne
  refine ⟨lossless_iff.trans hsafe.symm, fun h => ⟨?_, ?_⟩⟩
  · intro f hf e he
    have hrewritten := hcarried h f hf (List.ne_nil_of_mem he)
    have hmem := Processed.mem_metadata_of_owed he
    exact ⟨f, hf, hrewritten, hmem, (hfaithful f hf).carries hrewritten e hmem⟩
  · intro pre f mid g post hlog _ _ hne
    have hfollows : Follows s.prevInputId log := frames_follows
    rw [hlog] at hfollows
    obtain ⟨_, -, hafter⟩ := hfollows.suffix
    obtain ⟨r, hr, hchange⟩ := hafter.changes hne
    have hmem : r ∈ log := by
      rw [hlog]
      rcases List.mem_append.mp hr with hr | hr
      · simp [hr]
      · simp [List.mem_singleton.mp hr]
    obtain ⟨e, he, hval⟩ := (hfaithful r hmem).owes_reset hchange
    have hrewritten := hcarried h r hmem (List.ne_nil_of_mem he)
    refine ⟨r, hr, hrewritten, ?_⟩
    rw [← hval]
    exact (hfaithful r hmem).carries hrewritten e (Processed.mem_metadata_of_owed he)

/-- Input 0, input 1 with a caption and a packet that does not parse, input 1 again: neither the
caption nor the reset is in any packet. -/
theorem frames_not_lossless :
    let log := frames .nearest (library SeiPayload)
      [.frame ⟨.init, 0, .userDefined 0⟩ ⟨0, 0, []⟩, .push ⟨1, 1, 1, 0, ⟨4, [181]⟩⟩,
        .frame ⟨.init, 0, .userDefined 1⟩ ⟨1, 1, [0]⟩, .frame ⟨.init, 0, .userDefined 1⟩ ⟨2, 2, []⟩]
      (.create Clock.defaultTimeBase .init) []
    ¬(∀ f ∈ log, ∀ e ∈ f.owed, Appears log e) ∧ ¬ResetsBetween log := by
  intro log
  constructor
  · intro h
    have howed : ∃ f ∈ log, ⟨1, 1, 1, 0, ⟨4, [181]⟩⟩ ∈ f.owed := by decide +kernel
    have hnone : ∀ g ∈ log, g.rewritten = true →
        ⟨1, 1, 1, 0, ⟨4, [181]⟩⟩ ∉ g.found.metadata := by decide +kernel
    obtain ⟨f, hf, he⟩ := howed
    obtain ⟨g, hg, hrewritten, hmem, -⟩ := h f hf _ he
    exact hnone g hg hrewritten hmem
  · intro h
    obtain ⟨r, hr, hrewritten, hreset⟩ := h [] _ [_] _ [] rfl
      (by decide +kernel) (by decide +kernel) (by decide)
    have hshort : r.rewritten = true → r.out.data.length < (emitSeiPayload resetSei).length := by
      rcases List.mem_cons.mp hr with rfl | hr
      · decide +kernel
      · rw [List.mem_singleton.mp hr]
        decide +kernel
    have := hreset.length_le
    have := hshort hrewritten
    omega

end Proc
end Metamix
