/-
Input isolation.

What one input's queries return can be said without the other inputs: `ideal` is a queue
that holds the entries of one input only, as a multiset.  `observe_eq_ideal` says that
the shared queue answers the input's queries like that, as long as no drop breaks the
heap; two runs that agree on the input therefore agree on the answers.
-/
import Metamix.Queue.Runs
import Mathlib.Data.List.Nodup

namespace Metamix
namespace Queue
namespace MetadataQueue

open Lib Binary

variable {V : Type}

/-! ## A queue of one input -/

instance (id : Nat) (since until_ : Int) (q : MetadataQueue V) :
    Decidable (Distinct id since until_ q) :=
  inferInstanceAs (Decidable (List.Nodup _))

def inOrder (id : Nat) (since until_ : Int) (entries : List (Metadata V)) :
    List (Metadata V) :=
  (entries.filter (wanted id since until_)).mergeSort fun a b => decide (a.pts ≤ b.pts)

/-- What the queries of a run return for a queue with nothing else in it.  Two wanted entries
at one timestamp end the run. -/
def ideal : List (Op V) → List (Metadata V) → List (Option (List (Metadata V)))
  | [], _ => []
  | .push value :: ops, entries => ideal ops (value :: entries)
  | .popAll id since until_ :: ops, entries =>
      if Distinct id since until_ entries then
        some (inOrder id since until_ entries) :: ideal ops (entries.filter (notBefore until_))
      else [none]
  | .pop _ _ _ :: ops, entries => ideal ops entries
  | .dropId _ :: ops, entries => ideal ops entries

theorem inOrder_sorted (id : Nat) (since until_ : Int) (entries : List (Metadata V)) :
    (inOrder id since until_ entries).Pairwise fun a b => a.pts ≤ b.pts := by
  have hsort : (inOrder id since until_ entries).Pairwise fun a b =>
      decide (a.pts ≤ b.pts) = true := List.pairwise_mergeSort
    (fun a b c hab hbc => by
      simp only [decide_eq_true_eq] at hab hbc ⊢
      omega)
    (fun a b => by
      simp only [Bool.or_eq_true, decide_eq_true_eq]
      omega)
    (entries.filter (wanted id since until_))
  exact hsort.imp fun h => of_decide_eq_true h

/-- A list in strict order of the timestamps is what sorting its entries gives. -/
theorem eq_inOrder {id : Nat} {since until_ : Int} {out entries : List (Metadata V)}
    (hperm : out.Perm (entries.filter (wanted id since until_)))
    (hsorted : out.Pairwise fun a b => a.pts < b.pts) : out = inOrder id since until_ entries := by
  have hall : out.Perm (inOrder id since until_ entries) :=
    hperm.trans (List.mergeSort_perm _ _).symm
  have hinj : ∀ a ∈ out, ∀ b ∈ out, a.pts = b.pts → a = b := by
    have hnodup : (out.map Metadata.pts).Nodup :=
      List.pairwise_map.mpr (hsorted.imp fun h => Int.ne_of_lt h)
    exact fun a ha b hb h => List.inj_on_of_nodup_map hnodup ha hb h
  have hle : out.Pairwise fun a b => a.pts ≤ b.pts := hsorted.imp fun h => Int.le_of_lt h
  refine List.Perm.eq_of_pairwise ?_ hle (inOrder_sorted id since until_ entries) hall
  intro a b ha hb hab hba
  exact hinj a ha b (hall.symm.subset hb) (by omega)

theorem inOrder_perm {id : Nat} {since until_ : Int} {p q : List (Metadata V)}
    (hperm : p.Perm q) (hd : Distinct id since until_ p) :
    inOrder id since until_ p = inOrder id since until_ q := by
  have hmerge : (inOrder id since until_ p).Perm (p.filter (wanted id since until_)) :=
    List.mergeSort_perm _ _
  have hnodup : ((inOrder id since until_ p).map Metadata.pts).Nodup :=
    ((hmerge.map Metadata.pts).nodup_iff).mpr hd
  refine eq_inOrder (hmerge.trans (hperm.filter _)) ?_
  exact List.Pairwise.imp₂ (fun a b hle hne => by omega) (inOrder_sorted id since until_ p)
    (List.pairwise_map.mp hnodup)

theorem ideal_perm {ops : List (Op V)} {p q : List (Metadata V)} (hperm : p.Perm q) :
    ideal ops p = ideal ops q := by
  induction ops generalizing p q with
  | nil => rfl
  | cons op ops ih =>
      cases op with
      | push value => exact ih (hperm.cons value)
      | pop id since until_ => exact ih hperm
      | dropId id => exact ih hperm
      | popAll id since until_ =>
          unfold ideal
          by_cases hd : Distinct id since until_ p
          · rw [if_pos hd, if_pos (hd.of_perm (hperm.filter _)), inOrder_perm hperm hd,
              ih (hperm.filter _)]
          · have hd' : ¬Distinct id since until_ q := fun h =>
              hd (h.of_perm (hperm.symm.filter _))
            rw [if_neg hd, if_neg hd']

/-! ## The shared queue -/

variable (H : Heap V)

/-- What the `pop_all` calls of a run output, `none` for one that aborts. -/
def observe : List (Op V) → MetadataQueue V → List (Option (List (Metadata V)))
  | [], _ => []
  | op :: ops, q =>
      match apply H op q with
      | .error _ => [none]
      | .ok (.poppedAll out, q) => some out :: observe ops q
      | .ok (_, q) => observe ops q

def concerns (i : Nat) : Op V → Bool
  | .push value => value.inputId == i
  | .popAll id _ _ => id == i
  | .pop _ _ _ => false
  | .dropId _ => false

/-- The calls of a run in which only input `i` is queried and only other inputs are
dropped. -/
def Admissible (i : Nat) : Op V → Prop
  | .push _ => True
  | .popAll id _ _ => id = i
  | .pop _ _ _ => False
  | .dropId id => id ≠ i

def ofInput (i : Nat) (e : Metadata V) : Bool := e.inputId == i

variable {H}

theorem filter_wanted_ofInput {i : Nat} {since until_ : Int} {q : MetadataQueue V} :
    (q.filter (ofInput i)).filter (wanted i since until_) = q.filter (wanted i since until_) := by
  rw [List.filter_filter]
  refine List.filter_congr fun e _ => ?_
  rw [Bool.eq_iff_iff, Bool.and_eq_true]
  simp only [wanted, ofInput, decide_eq_true_eq, beq_iff_eq]
  omega

theorem filter_ofInput_comm {i : Nat} {f : Metadata V → Bool} {q : MetadataQueue V} :
    (q.filter f).filter (ofInput i) = (q.filter (ofInput i)).filter f := by
  rw [List.filter_filter, List.filter_filter]
  exact List.filter_congr fun e _ => Bool.and_comm _ _

theorem filter_keeps_ofInput {i j : Nat} (hij : j ≠ i) {q : MetadataQueue V} :
    (q.filter (keeps j)).filter (ofInput i) = q.filter (ofInput i) := by
  rw [List.filter_filter]
  refine List.filter_congr fun e _ => ?_
  rw [Bool.eq_iff_iff, Bool.and_eq_true]
  simp only [keeps, ofInput, Bool.not_eq_true', beq_iff_eq, beq_eq_false_iff_ne]
  omega

theorem push_ofInput {i : Nat} {value : Metadata V} {q : MetadataQueue V}
    (hq : IsHeap comparator q) :
    ((push H value q).filter (ofInput i)).Perm ((value :: q).filter (ofInput i)) :=
  ((H.push_perm q value hq).trans (List.perm_append_singleton _ _)).filter _

/-- A query on the shared queue returns what a queue of the input alone returns, and leaves the
entries of the input that such a queue leaves. -/
theorem apply_popAll_ofInput {id : Nat} {since until_ : Int} {q : MetadataQueue V}
    (hq : IsHeap comparator q) :
    (Distinct id since until_ (q.filter (ofInput id)) ∧ ∃ rest,
        apply H (.popAll id since until_) q =
          .ok (.poppedAll (inOrder id since until_ (q.filter (ofInput id))), rest) ∧
        (rest.filter (ofInput id)).Perm ((q.filter (ofInput id)).filter (notBefore until_))) ∨
      (¬Distinct id since until_ (q.filter (ofInput id)) ∧
        apply H (.popAll id since until_) q = .error .assertion) := by
  have hsame : Distinct id since until_ (q.filter (ofInput id)) ↔ Distinct id since until_ q := by
    rw [Distinct, filter_wanted_ofInput, Distinct]
  rcases popAll_spec (H := H) id since until_ hq with ⟨hd, out, rest, hok, hall⟩ | ⟨hd, herr⟩
  · have hout : out = inOrder id since until_ (q.filter (ofInput id)) :=
      eq_inOrder (by rw [filter_wanted_ofInput]; exact hall.out_perm) hall.sorted
    refine .inl ⟨hsame.mpr hd, rest, ?_, ?_⟩
    · rw [apply, hok, ok_bind, ← hout]
      rfl
    · rw [← filter_ofInput_comm]
      exact hall.rest_perm.filter _
  · exact .inr ⟨fun h => hd (hsame.mp h), by rw [apply, herr, error_bind]⟩

/-- The shared queue answers the queries of one input the way a queue of that input alone
does. -/
theorem observe_eq_ideal {i : Nat} {ops : List (Op V)} {q : MetadataQueue V}
    (hq : IsHeap comparator q) (hadm : ∀ op ∈ ops, Admissible i op) (hsafe : SafeDrops H ops q) :
    observe H ops q = ideal (ops.filter (concerns i)) (q.filter (ofInput i)) := by
  induction ops generalizing q with
  | nil => rfl
  | cons op ops ih =>
      have hadm' : ∀ op ∈ ops, Admissible i op := fun o ho => hadm o (List.mem_cons_of_mem _ ho)
      have hop := hadm op (List.mem_cons_self ..)
      have hstep : ∀ {out q'}, apply H op q = .ok (out, q') →
          observe H ops q' = ideal (ops.filter (concerns i)) (q'.filter (ofInput i)) :=
        fun h => ih (apply_isHeap hq hsafe.head h) hadm' (hsafe.tail h)
      cases op with
      | push value =>
          have happly : apply H (.push value) q = .ok (.pushed, push H value q) := rfl
          rw [observe, happly]
          simp only
          rw [hstep happly, ideal_perm (push_ofInput hq)]
          by_cases hi : value.inputId = i
          · have hc : concerns i (.push value) = true := by simp [concerns, hi]
            have ho : ofInput i value = true := by simp [ofInput, hi]
            rw [List.filter_cons_of_pos hc, List.filter_cons_of_pos ho, ideal]
          · have hc : ¬concerns i (.push value) = true := by simp [concerns, hi]
            have ho : ¬ofInput i value = true := by simp [ofInput, hi]
            rw [List.filter_cons_of_neg hc, List.filter_cons_of_neg ho]
      | pop id since until_ => exact hop.elim
      | dropId id =>
          have happly : apply H (.dropId id) q = .ok (.dropped (dropId id q).1, (dropId id q).2) :=
            rfl
          have hkept : (dropId id q).2.filter (ofInput i) = q.filter (ofInput i) :=
            filter_keeps_ofInput hop
          have hc : ¬concerns i (Op.dropId id : Op V) = true := by simp [concerns]
          rw [observe, happly]
          simp only
          rw [hstep happly, hkept, List.filter_cons_of_neg hc]
      | popAll id since until_ =>
          have hid : id = i := hop
          subst hid
          have hc : concerns id (Op.popAll id since until_ : Op V) = true := by simp [concerns]
          rw [observe, List.filter_cons_of_pos hc, ideal]
          rcases apply_popAll_ofInput (H := H) hq with ⟨hd, rest, happly, hrest⟩ | ⟨hd, happly⟩
          · rw [if_pos hd, happly]
            simp only
            rw [hstep happly, ideal_perm hrest]
          · rw [if_neg hd, happly]

/-- Two runs with the same pushes and queries of an input return the same entries for it,
whatever else is pushed and dropped, as long as no drop breaks the heap. -/
theorem observe_isolated {i : Nat} {ops₁ ops₂ : List (Op V)} {q : MetadataQueue V}
    (hq : Built H q) (hadm₁ : ∀ op ∈ ops₁, Admissible i op)
    (hadm₂ : ∀ op ∈ ops₂, Admissible i op)
    (hsame : ops₁.filter (concerns i) = ops₂.filter (concerns i))
    (hsafe₁ : SafeDrops H ops₁ q) (hsafe₂ : SafeDrops H ops₂ q) :
    observe H ops₁ q = observe H ops₂ q := by
  rw [observe_eq_ideal hq.isHeap hadm₁ hsafe₁, observe_eq_ideal hq.isHeap hadm₂ hsafe₂, hsame]

/-- Input 1 comes and goes behind the entry of input 0. -/
theorem observe_isolated_restart :
    observe (library Unit) [.push ⟨0, 1, 1, 0, ()⟩, .push ⟨1, 2, 2, 0, ()⟩, .dropId 1,
        .popAll 0 0 5] [] =
      observe (library Unit) [.push ⟨0, 1, 1, 0, ()⟩, .popAll 0 0 5] [] := by
  refine observe_isolated (i := 0) (.inl rfl) ?_ ?_ rfl ?_ ?_
  · simp [Admissible]
  · simp [Admissible]
  · refine .cons (fun id h => by cases h) fun _ q₁ h₁ => ?_
    cases h₁
    refine .cons (fun id h => by cases h) fun _ q₂ h₂ => ?_
    cases h₂
    refine .cons (fun id h => ?_) fun _ q₃ _ => ?_
    · cases h
      have hheap := (library Unit).push_isHeap _ ⟨1, 2, 2, 0, ()⟩
        ((library Unit).push_isHeap _ ⟨0, 1, 1, 0, ()⟩ (isHeap_nil _))
      exact keepsHeap_of_last [⟨0, 1, 1, 0, ()⟩] [⟨1, 2, 2, 0, ()⟩] hheap (by decide) (by decide)
    · exact .of_no_drop (by simp)
  · exact .of_no_drop (by simp)

/-- Two runs that agree on input 0 and not on its answer: in the first one the entry at
timestamp 1 ends up behind the one at 10 when input 1 is dropped. -/
theorem observe_drop_disturbs :
    ∃ ops₁ ops₂ : List (Op Unit), (∀ op ∈ ops₁, Admissible 0 op) ∧
      (∀ op ∈ ops₂, Admissible 0 op) ∧
      ops₁.filter (concerns 0) = ops₂.filter (concerns 0) ∧
      observe (library Unit) ops₁ [] ≠ observe (library Unit) ops₂ [] :=
  ⟨[.push ⟨1, 0, 0, 0, ()⟩, .push ⟨0, 10, 10, 0, ()⟩, .push ⟨0, 1, 1, 0, ()⟩, .dropId 1,
      .popAll 0 0 5],
    [.push ⟨0, 10, 10, 0, ()⟩, .push ⟨0, 1, 1, 0, ()⟩, .popAll 0 0 5],
    by simp [Admissible], by simp [Admissible], rfl, by decide⟩

end MetadataQueue
end Queue
end Metamix
