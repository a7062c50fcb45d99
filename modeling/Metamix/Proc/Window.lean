/-
Which frame takes an entry of the queue.

The injector remembers one timestamp, the end of the last window.  `Event`s are pushes by any
input and frames of the output, in any order and with timestamps that may jump.  An entry
belongs to the first frame behind its push whose timestamp is not before its own; it is lost
if that is the very next frame and the frame in front of the push was past the entry already.
`runEvents_takes` says that the queue and the injector together do just that, frame by frame
and for what is left at the end.
-/
import Metamix.Proc.Injector
import Metamix.Queue.Isolation

namespace Metamix
namespace Proc

open Lib Binary H264 Time Queue MetadataQueue

inductive Event where
  | push (value : Metadata SeiPayload)
  | frame (clock : Clock) (tsAdjustment : Int) (pkt : AVPacket)

variable (A : AvRescale) (H : Heap SeiPayload)

/-- A run with one user-defined input as the current one: what was found for each frame, and
the state at the end. -/
def runEvents (i : Nat) : List Event → SeiInjector → MetadataQueue SeiPayload →
    Except Fault (List Found × SeiInjector × MetadataQueue SeiPayload)
  | [], s, q => .ok ([], s, q)
  | .push value :: events, s, q => runEvents i events s (push H value q)
  | .frame clock tsAdjustment pkt :: events, s, q => do
      let (found, s, q) ← s.take A H ⟨clock, tsAdjustment, .userDefined i⟩ pkt q
      let (rest, s, q) ← runEvents i events s q
      return (found :: rest, s, q)

/-! ## The history of a run -/

def stamps : List Event → TSRescaler → List Int
  | [], _ => []
  | .push _ :: events, r => stamps events r
  | .frame clock tsAdjustment pkt :: events, r =>
      let (rescaled, r) := r.rescaleToClock A clock pkt.pts
      (rescaled - tsAdjustment) :: stamps events r

/-- The pushed entries, each with the number of frames before it. -/
def pushes : List Event → List (Nat × Metadata SeiPayload)
  | [] => []
  | .push value :: events => (0, value) :: pushes events
  | .frame _ _ _ :: events => (pushes events).map fun x => (x.1 + 1, x.2)

/-- What a run can take: what was in the queue before it, and what it pushes. -/
def entries (q : MetadataQueue SeiPayload) (pushed : List (Nat × Metadata SeiPayload)) :
    List (Nat × Metadata SeiPayload) :=
  q.map (fun e => (0, e)) ++ pushed

def Reached (cs : List Int) (p : Int) (k : Nat) : Prop := ∃ c ∈ cs[k]?, p ≤ c

/-- Frame `k` is the first from frame `j` on that reaches `p`. -/
def FirstReached (cs : List Int) (j : Nat) (p : Int) (k : Nat) : Prop :=
  j ≤ k ∧ Reached cs p k ∧ ∀ l < k, j ≤ l → ¬Reached cs p l

/-- Frame `k` is the next one, and the last one before the push had reached `p`. -/
def Late (cs : List Int) (j : Nat) (p : Int) (k : Nat) : Prop :=
  k = j ∧ 0 < j ∧ Reached cs p (j - 1)

instance (cs : List Int) (p : Int) (k : Nat) : Decidable (Reached cs p k) :=
  match h : cs[k]? with
  | none => isFalse fun hr => by
      obtain ⟨c, hc, _⟩ := hr
      rw [h] at hc
      cases hc
  | some c => decidable_of_iff (p ≤ c) (by simp [Reached, h])

instance (cs : List Int) (j : Nat) (p : Int) (k : Nat) : Decidable (FirstReached cs j p k) :=
  inferInstanceAs (Decidable (_ ∧ _ ∧ _))

instance (cs : List Int) (j : Nat) (p : Int) (k : Nat) : Decidable (Late cs j p k) :=
  inferInstanceAs (Decidable (_ ∧ _ ∧ _))

def takenBy (i : Nat) (cs : List Int) (k : Nat) (x : Nat × Metadata SeiPayload) : Bool :=
  decide (x.2.inputId = i ∧ FirstReached cs x.1 x.2.pts k ∧ ¬Late cs x.1 x.2.pts k)

def stays (i : Nat) (cs : List Int) (x : Nat × Metadata SeiPayload) : Bool :=
  decide (x.2.inputId = i ∧ ∀ l < cs.length, x.1 ≤ l → ¬Reached cs x.2.pts l)

/-- At no time of the run do two queued entries share timestamp and input. -/
def AlwaysDistinct (i : Nat) (events : List Event) (s : SeiInjector)
    (q : MetadataQueue SeiPayload) : Prop :=
  ∀ pre post outs s' q', events = pre ++ post → runEvents A H i pre s q = .ok (outs, s', q') →
    Apart q'

variable {A H}

theorem AlwaysDistinct.now {i : Nat} {events : List Event} {s : SeiInjector}
    {q : MetadataQueue SeiPayload} (h : AlwaysDistinct A H i events s q) : Apart q :=
  h [] events [] s q rfl rfl

theorem AlwaysDistinct.push {i : Nat} {value : Metadata SeiPayload} {events : List Event}
    {s : SeiInjector} {q : MetadataQueue SeiPayload}
    (h : AlwaysDistinct A H i (.push value :: events) s q) :
    AlwaysDistinct A H i events s (push H value q) := by
  intro pre post outs s' q' hevents hrun
  exact h (.push value :: pre) post outs s' q' (by rw [hevents]; rfl) hrun

theorem AlwaysDistinct.frame {i : Nat} {clock : Clock} {tsAdjustment : Int} {pkt : AVPacket}
    {events : List Event} {s s₁ : SeiInjector} {q q₁ : MetadataQueue SeiPayload} {found : Found}
    (h : AlwaysDistinct A H i (.frame clock tsAdjustment pkt :: events) s q)
    (htake : s.take A H ⟨clock, tsAdjustment, .userDefined i⟩ pkt q = .ok (found, s₁, q₁)) :
    AlwaysDistinct A H i events s₁ q₁ := by
  intro pre post outs s' q' hevents hrun
  refine h (.frame clock tsAdjustment pkt :: pre) post (found :: outs) s' q'
    (by rw [hevents]; rfl) ?_
  simp only [runEvents, htake, hrun, ok_bind]
  rfl

theorem AlwaysDistinct.cons {i : Nat} {event : Event} {events : List Event} {s : SeiInjector}
    {q : MetadataQueue SeiPayload} (hnow : Apart q)
    (htail : ∀ outs s' q', runEvents A H i [event] s q = .ok (outs, s', q') →
      AlwaysDistinct A H i events s' q') : AlwaysDistinct A H i (event :: events) s q := by
  intro pre post outs s' q' hevents hrun
  cases pre with
  | nil =>
      cases hrun
      exact hnow
  | cons event' pre =>
      rw [List.cons_append, List.cons.injEq] at hevents
      obtain ⟨rfl, hevents⟩ := hevents
      cases event with
      | push value => exact htail [] s _ rfl pre post outs s' q' hevents hrun
      | frame clock tsAdjustment pkt =>
          obtain ⟨⟨found, s₁, q₁⟩, htake, hrun⟩ := of_bind_eq_ok hrun
          obtain ⟨⟨rest, s₂, q₂⟩, hrest, hrun⟩ := of_bind_eq_ok hrun
          cases hrun
          have hone : runEvents A H i [.frame clock tsAdjustment pkt] s q =
              .ok ([found], s₁, q₁) := by
            simp only [runEvents, htake, ok_bind]
            rfl
          exact htail _ _ _ hone pre post rest _ _ hevents hrest

theorem AlwaysDistinct.nil {i : Nat} {s : SeiInjector} {q : MetadataQueue SeiPayload}
    (hnow : Apart q) : AlwaysDistinct A H i [] s q := by
  intro pre post outs s' q' hevents hrun
  obtain ⟨rfl, rfl⟩ := List.append_eq_nil_iff.mp hevents.symm
  cases hrun
  exact hnow

/-! ## One frame back -/

theorem reached_zero {c p : Int} {cs : List Int} : Reached (c :: cs) p 0 ↔ p ≤ c := by
  simp [Reached]

theorem reached_succ {c p : Int} {cs : List Int} {k : Nat} :
    Reached (c :: cs) p (k + 1) ↔ Reached cs p k := Iff.rfl

theorem firstReached_zero {c p : Int} {cs : List Int} {j : Nat} :
    FirstReached (c :: cs) j p 0 ↔ j = 0 ∧ p ≤ c := by
  simp [FirstReached, reached_zero]

theorem firstReached_succ {c p : Int} {cs : List Int} {j k : Nat} :
    FirstReached (c :: cs) (j + 1) p (k + 1) ↔ FirstReached cs j p k := by
  unfold FirstReached
  rw [reached_succ]
  constructor
  · intro h
    exact ⟨by omega, h.2.1, fun l hl hjl => h.2.2 (l + 1) (by omega) (by omega)⟩
  · intro h
    refine ⟨by omega, h.2.1, fun l hl hjl => ?_⟩
    cases l with
    | zero => omega
    | succ l => exact h.2.2 l (by omega) (by omega)

theorem firstReached_zero_succ {c p : Int} {cs : List Int} {k : Nat} :
    FirstReached (c :: cs) 0 p (k + 1) ↔ c < p ∧ FirstReached cs 0 p k := by
  rw [FirstReached, reached_succ]
  constructor
  · intro h
    have h0 := h.2.2 0 (by omega) (Nat.le_refl 0)
    rw [reached_zero] at h0
    exact ⟨by omega, by omega, h.2.1, fun l hl hjl => h.2.2 (l + 1) (by omega) (by omega)⟩
  · intro h
    refine ⟨by omega, h.2.2.1, fun l hl _ => ?_⟩
    cases l with
    | zero =>
        rw [reached_zero]
        omega
    | succ l => exact h.2.2.2 l (by omega) (by omega)

def windowStart (prev : Int) (cs : List Int) : Nat → Int
  | 0 => prev
  | k + 1 => cs.getD k 0 + 1

/-- `takenBy` in terms of the windows, for a run that goes on from a window's end. -/
def takenFrom (i : Nat) (prev : Int) (cs : List Int) (k : Nat)
    (x : Nat × Metadata SeiPayload) : Bool :=
  decide (x.2.inputId = i ∧ FirstReached cs x.1 x.2.pts k ∧ windowStart prev cs k ≤ x.2.pts)

theorem windowStart_succ {prev c : Int} {cs : List Int} {k : Nat} :
    windowStart prev (c :: cs) (k + 1) = windowStart (c + 1) cs k := by
  cases k <;> rfl

theorem takenFrom_zero_succ {i : Nat} {prev c : Int} {cs : List Int} {k : Nat}
    {e : Metadata SeiPayload} :
    takenFrom i prev (c :: cs) (k + 1) (0, e) =
      (notBefore (c + 1) e && takenFrom i (c + 1) cs k (0, e)) := by
  rw [Bool.eq_iff_iff, Bool.and_eq_true]
  simp only [takenFrom, notBefore, firstReached_zero_succ, windowStart_succ, decide_eq_true_eq]
  constructor
  · intro h
    exact ⟨by omega, h.1, h.2.1.2, h.2.2⟩
  · intro h
    exact ⟨h.2.1, ⟨by omega, h.2.2.1⟩, h.2.2.2⟩

theorem takenFrom_succ_succ {i j : Nat} {prev c : Int} {cs : List Int} {k : Nat}
    {e : Metadata SeiPayload} :
    takenFrom i prev (c :: cs) (k + 1) (j + 1, e) = takenFrom i (c + 1) cs k (j, e) := by
  simp only [takenFrom, firstReached_succ, windowStart_succ]

theorem stays_zero {i : Nat} {c : Int} {cs : List Int} {e : Metadata SeiPayload} :
    stays i (c :: cs) (0, e) = (notBefore (c + 1) e && stays i cs (0, e)) := by
  rw [Bool.eq_iff_iff, Bool.and_eq_true]
  simp only [stays, notBefore, decide_eq_true_eq, List.length_cons]
  constructor
  · intro h
    have h0 := h.2 0 (by omega) (Nat.le_refl 0)
    rw [reached_zero] at h0
    exact ⟨by omega, h.1, fun l hl _ => h.2 (l + 1) (by omega) (by omega)⟩
  · intro h
    refine ⟨h.2.1, fun l hl _ => ?_⟩
    cases l with
    | zero =>
        rw [reached_zero]
        omega
    | succ l => exact h.2.2 l (by omega) (by omega)

theorem stays_succ {i j : Nat} {c : Int} {cs : List Int} {e : Metadata SeiPayload} :
    stays i (c :: cs) (j + 1, e) = stays i cs (j, e) := by
  simp only [stays, decide_eq_decide, List.length_cons]
  refine and_congr_right fun _ => ⟨fun h l hl hjl => ?_, fun h l hl hjl => ?_⟩
  · exact h (l + 1) (by omega) (by omega)
  · cases l with
    | zero => omega
    | succ l => exact h l (by omega) (by omega)

/-- The first window begins in front of every entry, and after that the windows leave no
gap: an entry is only missed by the frame behind its push. -/
theorem takenFrom_eq_takenBy {i : Nat} {cs : List Int} {k : Nat}
    {x : Nat × Metadata SeiPayload} (hpts : minTs ≤ x.2.pts) :
    takenFrom i minTs cs k x = takenBy i cs k x := by
  obtain ⟨j, e⟩ := x
  unfold takenFrom takenBy
  rw [decide_eq_decide]
  refine and_congr_right fun _ => and_congr_right fun hfirst => ?_
  cases k with
  | zero =>
      have hj : ¬Late cs j e.pts 0 := fun h => by
        have := h.1
        have := h.2.1
        omega
      exact iff_of_true hpts hj
  | succ k =>
      obtain ⟨c, hc, _⟩ := hfirst.2.1
      have hlt : k < cs.length := by
        have := (List.getElem?_eq_some_iff.mp hc).1
        omega
      have hreached : Reached cs e.pts k ↔ e.pts ≤ cs.getD k 0 := by
        rw [Reached, List.getElem?_eq_getElem hlt, List.getD_eq_getElem _ _ hlt]
        simp
      show cs.getD k 0 + 1 ≤ e.pts ↔ ¬Late cs j e.pts (k + 1)
      by_cases hj : j = k + 1
      · subst hj
        have hlate : Late cs (k + 1) e.pts (k + 1) ↔ Reached cs e.pts k := by
          simp [Late]
        rw [hlate, hreached]
        omega
      · have hnot := hfirst.2.2 k (by omega) (by have := hfirst.1; show j ≤ k; omega)
        have hlate : ¬Late cs j e.pts (k + 1) := fun h => hj h.1.symm
        rw [hreached] at hnot
        exact iff_of_true (by omega) hlate

/-! ## Runs -/

theorem map_filter_entries {q : MetadataQueue SeiPayload}
    {pushed : List (Nat × Metadata SeiPayload)} {f : Nat × Metadata SeiPayload → Bool} :
    ((entries q pushed).filter f).map Prod.snd =
      q.filter (fun e => f (0, e)) ++ (pushed.filter f).map Prod.snd := by
  rw [entries, List.filter_append, List.map_append, List.filter_map, List.map_map]
  show (q.filter (fun e => f (0, e))).map id ++ _ = _
  rw [List.map_id]

/-- What a later frame takes is what it takes of the entries that the first frame leaves in
the queue, and of those pushed after it. -/
theorem entries_frame {q q₁ : MetadataQueue SeiPayload} {c : Int}
    {pushed : List (Nat × Metadata SeiPayload)} {f g : Nat × Metadata SeiPayload → Bool}
    (hq₁ : q₁.Perm (q.filter (notBefore (c + 1))))
    (hzero : ∀ e, f (0, e) = (notBefore (c + 1) e && g (0, e)))
    (hsucc : ∀ j e, f (j + 1, e) = g (j, e)) :
    (((entries q₁ pushed).filter g).map Prod.snd).Perm
      (((entries q (pushed.map fun x => (x.1 + 1, x.2))).filter f).map Prod.snd) := by
  have hleft : (q₁.filter fun e => g (0, e)).Perm (q.filter fun e => f (0, e)) := by
    refine (hq₁.filter _).trans ?_
    rw [List.filter_filter]
    simp only [hzero, Bool.and_comm]
    exact List.Perm.refl _
  have hright : ((pushed.map fun x => (x.1 + 1, x.2)).filter f).map Prod.snd =
      (pushed.filter g).map Prod.snd := by
    rw [List.filter_map, List.map_map]
    have hcomp : (f ∘ fun x : Nat × Metadata SeiPayload => (x.1 + 1, x.2)) = g :=
      funext fun x => hsucc x.1 x.2
    rw [hcomp]
    rfl
  rw [map_filter_entries, map_filter_entries, hright]
  exact hleft.append_right _

/-- The first frame takes a window of what is queued, and nothing that is pushed after it. -/
theorem takenFrom_first {i : Nat} {prev c : Int} {cs : List Int} {q : MetadataQueue SeiPayload}
    {pushed : List (Nat × Metadata SeiPayload)} :
    ((entries q (pushed.map fun x => (x.1 + 1, x.2))).filter
      (takenFrom i prev (c :: cs) 0)).map Prod.snd = q.filter (wanted i prev (c + 1)) := by
  have hnone : (pushed.map fun x => (x.1 + 1, x.2)).filter (takenFrom i prev (c :: cs) 0) = [] := by
    refine List.filter_eq_nil_iff.mpr fun x hx htx => ?_
    obtain ⟨y, _, rfl⟩ := List.mem_map.mp hx
    simp only [takenFrom, firstReached_zero, decide_eq_true_eq] at htx
    omega
  have hwanted : (fun e => takenFrom i prev (c :: cs) 0 (0, e)) = wanted i prev (c + 1) := by
    funext e
    simp only [takenFrom, firstReached_zero, wanted, windowStart, true_and,
      decide_eq_decide]
    omega
  rw [map_filter_entries, hnone, hwanted]
  exact List.append_nil _

theorem entries_push {q : MetadataQueue SeiPayload} {value : Metadata SeiPayload}
    {pushed : List (Nat × Metadata SeiPayload)} (hq : IsHeap comparator q) :
    (entries (push H value q) pushed).Perm (entries q ((0, value) :: pushed)) := by
  have hpush : (push H value q).Perm (value :: q) :=
    (H.push_perm q value hq).trans (List.perm_append_singleton _ _)
  refine ((hpush.map _).append_right _).trans ?_
  exact List.perm_middle.symm

/-- The invariant of a run is the end of the last window: whatever the history, the rest of
the run goes by that and by what is queued. -/
theorem runEvents_from {i : Nat} {events : List Event} {s : SeiInjector}
    {q : MetadataQueue SeiPayload} (hq : IsHeap comparator q)
    (hdistinct : AlwaysDistinct A H i events s q) :
    ∃ outs s' q', runEvents A H i events s q = .ok (outs, s', q') ∧
      outs.length = (stamps A events s.ptsRescaler).length ∧
      (∀ (k : Nat) (out : Found), outs[k]? = some out →
        out.popped.Perm (((entries q (pushes events)).filter
          (takenFrom i s.prevPts (stamps A events s.ptsRescaler) k)).map Prod.snd)) ∧
      (q'.filter (ofInput i)).Perm (((entries q (pushes events)).filter
        (stays i (stamps A events s.ptsRescaler))).map Prod.snd) := by
  induction events generalizing s q with
  | nil =>
      refine ⟨[], s, q, rfl, rfl, fun k out hk => (by cases hk), ?_⟩
      rw [map_filter_entries]
      have hstays : (fun e => stays i (stamps A [] s.ptsRescaler) (0, e)) = ofInput i :=
        funext fun e => by simp [stays, stamps, ofInput, beq_eq_decide]
      rw [hstays]
      show (q.filter (ofInput i)).Perm (q.filter (ofInput i) ++ [])
      rw [List.append_nil]
  | cons event events ih =>
      cases event with
      | push value =>
          obtain ⟨outs, s', q', hrun, hlen, htaken, hstays⟩ :=
            ih (H.push_isHeap q value hq) hdistinct.push
          refine ⟨outs, s', q', hrun, hlen, fun k out hk => ?_, ?_⟩
          · exact (htaken k out hk).trans (((entries_push hq).filter _).map _)
          · exact hstays.trans (((entries_push hq).filter _).map _)
      | frame clock tsAdjustment pkt =>
          obtain ⟨found, s₁, q₁, htake, htakes⟩ := SeiInjector.take_spec (A := A) (H := H) pkt hq
            (rfl : (Context.mk clock tsAdjustment (.userDefined i)).currentInput = _)
            (hdistinct.now.distinct i _ _)
          obtain ⟨outs, s', q', hrun, hlen, htaken, hstays⟩ :=
            ih htakes.popAll.isHeap (hdistinct.frame htake)
          obtain ⟨c, hc⟩ : ∃ c, c =
              (s.adjustedPts A ⟨clock, tsAdjustment, .userDefined i⟩ pkt.pts).1 := ⟨_, rfl⟩
          have hpop : PopAll i s.prevPts (c + 1) q found.popped q₁ := hc ▸ htakes.popAll
          have hprev : s₁.prevPts = c + 1 := hc ▸ htakes.prevPts
          have hstamps : stamps A (.frame clock tsAdjustment pkt :: events) s.ptsRescaler =
              c :: stamps A events s₁.ptsRescaler := by
            rw [htakes.rescaler, hc]
            rfl
          rw [hstamps]
          rw [hprev] at htaken
          refine ⟨found :: outs, s', q', ?_, ?_, fun k out hk => ?_, ?_⟩
          · simp only [runEvents, htake, hrun, ok_bind]
            rfl
          · rw [List.length_cons, List.length_cons, hlen]
          · cases k with
            | zero =>
                cases hk
                exact hpop.out_perm.trans (List.Perm.of_eq takenFrom_first.symm)
            | succ k =>
                exact (htaken k out hk).trans (entries_frame hpop.rest_perm
                  (fun e => takenFrom_zero_succ) fun j e => takenFrom_succ_succ)
          · exact hstays.trans (entries_frame hpop.rest_perm (fun e => stays_zero)
              fun j e => stays_succ)

/-- Every entry of the current input is taken by the first frame that reaches it and by no
other, and is lost only to the frame behind its push; what no frame has reached is still
queued. -/
theorem runEvents_takes {i : Nat} {events : List Event} {streamTimeBase : TimeBase}
    {clock : Clock} {q : MetadataQueue SeiPayload} (hq : IsHeap comparator q)
    (hpts : ∀ x ∈ entries q (pushes events), minTs ≤ x.2.pts)
    (hdistinct : AlwaysDistinct A H i events (.create streamTimeBase clock) q) :
    ∃ outs s' q', runEvents A H i events (.create streamTimeBase clock) q = .ok (outs, s', q') ∧
      outs.length = (stamps A events (.clockRelative clock streamTimeBase)).length ∧
      (∀ (k : Nat) (out : Found), outs[k]? = some out →
        out.popped.Perm (((entries q (pushes events)).filter
          (takenBy i (stamps A events (.clockRelative clock streamTimeBase)) k)).map Prod.snd)) ∧
      (q'.filter (ofInput i)).Perm (((entries q (pushes events)).filter
        (stays i (stamps A events (.clockRelative clock streamTimeBase)))).map Prod.snd) := by
  obtain ⟨outs, s', q', hrun, hlen, htaken, hstays⟩ := runEvents_from hq hdistinct
  refine ⟨outs, s', q', hrun, hlen, fun k out hk => (htaken k out hk).trans ?_, hstays⟩
  have hsame : (entries q (pushes events)).filter
      (takenFrom i minTs (stamps A events (.clockRelative clock streamTimeBase)) k) =
      (entries q (pushes events)).filter
        (takenBy i (stamps A events (.clockRelative clock streamTimeBase)) k) :=
    List.filter_congr fun x hx => takenFrom_eq_takenBy (hpts x hx)
  exact List.Perm.of_eq (congrArg (List.map Prod.snd) hsame)

def caption (pts : Int) (order : Nat) : Metadata SeiPayload := ⟨0, pts, pts, order, emptySei⟩

/-- A caption in front of each frame, one that comes too late and one that no frame reaches. -/
def captionRun : List Event :=
  [.push (caption 0 0), .frame .init 0 ⟨7, 7, []⟩, .push (caption 0 1), .push (caption 5 2),
    .push (caption 9 3), .frame .init 0 ⟨12, 12, []⟩]

theorem runEvents_takes_caption : ∃ first second s' q',
    runEvents .nearest (library SeiPayload) 0 captionRun (.create Clock.defaultTimeBase .init) [] =
        .ok ([first, second], s', q') ∧
      first.popped.Perm [caption 0 0] ∧ second.popped.Perm [caption 5 2] ∧
      (q'.filter (ofInput 0)).Perm [caption 9 3] := by
  have hpts : ∀ x ∈ entries [] (pushes captionRun), minTs ≤ x.2.pts := by decide
  have hdistinct : AlwaysDistinct .nearest (library SeiPayload) 0 captionRun
      (.create Clock.defaultTimeBase .init) [] := by
    refine .cons (by decide) fun _ _ _ h => ?_
    cases h
    refine .cons (by decide) fun _ _ _ h => ?_
    cases h
    refine .cons (by decide) fun _ _ _ h => ?_
    cases h
    refine .cons (by decide) fun _ _ _ h => ?_
    cases h
    refine .cons (by decide) fun _ _ _ h => ?_
    cases h
    refine .cons (by decide) fun _ _ _ h => ?_
    cases h
    exact .nil (by decide)
  obtain ⟨outs, s', q', hrun, hlen, htaken, hstays⟩ :=
    runEvents_takes (isHeap_nil _) hpts hdistinct
  obtain ⟨first, second, rfl⟩ := List.length_eq_two.mp hlen
  exact ⟨first, second, s', q', hrun, htaken 0 first rfl, htaken 1 second rfl, hstays⟩

end Proc
end Metamix
