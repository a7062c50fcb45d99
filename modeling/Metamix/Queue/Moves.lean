/-
What the queue does to its entries, heap or not.

A drop can leave a vector that is no heap, and the standard promises nothing about the heap
functions on it.  Those of the common library still only move elements about.  `Moves` is just
that, and it is enough to say that no call makes an entry up or hands one out twice.
-/
import Metamix.Queue.Runs
import Mathlib.Data.List.Perm.Subperm

namespace Metamix
namespace Lib

variable {α : Type} {lt : α → α → Bool}

/-- The heap functions move the elements of any vector. -/
structure StdHeap.Moves (H : StdHeap lt) : Prop where
  push : ∀ q, (H.pushHeap q).Perm q
  pop : ∀ q, (H.popHeap q).Perm q

namespace BinaryHeap

theorem siftUp_perm (fuel i : Nat) (q : List α) : (siftUp lt fuel i q).Perm q := by
  induction fuel generalizing i q with
  | zero => exact List.Perm.refl _
  | succ fuel ih =>
      unfold siftUp
      split
      · next p x hp hx =>
          split
          · exact (ih _ _).trans (swap_perm hx hp)
          · exact List.Perm.refl _
      · exact List.Perm.refl _

theorem getElem?_child {i c : Nat} {q : List α} {y : α} (h : child lt i q = some (c, y)) :
    q[c]? = some y := by
  unfold child at h
  split at h
  · next l r hl hr =>
      split at h
      · cases h
        exact hr
      · cases h
        exact hl
  · next l hl hr =>
      cases h
      exact hl
  · cases h

theorem siftDown_perm (fuel i : Nat) (q : List α) : (siftDown lt fuel i q).Perm q := by
  induction fuel generalizing i q with
  | zero => exact List.Perm.refl _
  | succ fuel ih =>
      unfold siftDown
      split
      · next c y x hc hx =>
          split
          · exact (ih _ _).trans (swap_perm hx (getElem?_child hc))
          · exact List.Perm.refl _
      · exact List.Perm.refl _

theorem popHeap_perm (q : List α) : (popHeap lt q).Perm q := by
  unfold popHeap
  split
  · exact List.Perm.refl _
  · exact List.Perm.refl _
  · next x y q =>
      have hsift : (siftDown lt (y :: q).length 0
          ((y :: q).getLast (by simp) :: (y :: q).dropLast)).Perm _ := siftDown_perm _ _ _
      have hlast : ((y :: q).getLast (by simp) :: (y :: q).dropLast).Perm (y :: q) := by
        refine (List.perm_append_singleton _ _).symm.trans ?_
        rw [List.dropLast_append_getLast]
      exact ((hsift.trans hlast).append_right [x]).trans (List.perm_append_singleton x (y :: q))

theorem moves_stdHeap (hlt : StrictWeak lt) : (stdHeap lt hlt).Moves where
  push q := siftUp_perm _ _ q
  pop := popHeap_perm

end BinaryHeap
end Lib

namespace Queue
namespace MetadataQueue

open Lib Binary

variable {V : Type} {H : Heap V}

theorem push_perm (hH : H.Moves) (value : Metadata V) (q : MetadataQueue V) :
    (push H value q).Perm (value :: q) :=
  (hH.push _).trans (List.perm_append_singleton value q)

theorem dropId_sublist (id : Nat) (q : MetadataQueue V) : (dropId id q).2.Sublist q :=
  List.filter_sublist

theorem popAnyImpl_perm (hH : H.Moves) (front : Metadata V) (t : MetadataQueue V) :
    ((popAnyImpl H front t).1 :: (popAnyImpl H front t).2).Perm (front :: t) := by
  have hpop := hH.pop (front :: t)
  have hne : H.popHeap (front :: t) ≠ [] := by
    intro h
    rw [h] at hpop
    exact absurd hpop.nil_eq (List.cons_ne_nil _ _).symm
  have hlast : (popAnyImpl H front t).1 = (H.popHeap (front :: t)).getLast hne := by
    show (H.popHeap (front :: t)).getLast?.getD front = _
    rw [List.getLast?_eq_getLast_of_ne_nil hne, Option.getD_some]
  have hrest : (popAnyImpl H front t).2 = (H.popHeap (front :: t)).dropLast := rfl
  rw [hlast, hrest]
  refine (List.perm_append_singleton _ _).symm.trans ?_
  rw [List.dropLast_append_getLast]
  exact hpop

theorem popAnyImpl_subperm (hH : H.Moves) (front : Metadata V) (t : MetadataQueue V) :
    (popAnyImpl H front t).2.Subperm (front :: t) :=
  (List.sublist_cons_self ..).subperm.trans (popAnyImpl_perm hH front t).subperm

theorem dropColliding_subperm (hH : H.Moves) {value : Metadata V} {fuel : Nat}
    {q rest : MetadataQueue V} (h : dropColliding H value fuel q = .ok rest) :
    rest.Subperm q := by
  induction fuel generalizing q with
  | zero =>
      cases h
      exact List.Subperm.refl _
  | succ fuel ih =>
      cases q with
      | nil =>
          cases h
          exact List.Subperm.refl _
      | cons front t =>
          unfold dropColliding at h
          split_ifs at h
          · exact (ih h).trans (popAnyImpl_subperm hH front t)
          · cases h
            exact List.Subperm.refl _

/-- What a round of the loop does: it stops, it pops an entry that meets the query, or it drops
one and goes on. -/
theorem popImplLoop_round {id : Nat} {since until_ : Int} {fuel : Nat} {front : Metadata V}
    {t rest : MetadataQueue V} {opt : Option (Metadata V)}
    (h : popImplLoop H id since until_ (fuel + 1) (front :: t) = .ok (opt, rest)) :
    (opt = none ∧ rest = front :: t) ∨
      (∃ fuel', opt = some (popAnyImpl H front t).1 ∧
        wanted id since until_ (popAnyImpl H front t).1 = true ∧
        dropColliding H (popAnyImpl H front t).1 fuel' (popAnyImpl H front t).2 = .ok rest) ∨
      popImplLoop H id since until_ fuel (popAnyImpl H front t).2 = .ok (opt, rest) := by
  unfold popImplLoop at h
  split at h
  · cases h
    exact .inl ⟨rfl, rfl⟩
  · simp only at h
    split at h
    · obtain ⟨kept, hdrop, h⟩ := of_bind_eq_ok h
      split at h
      · next hmatch =>
          cases h
          exact .inr (.inl ⟨_, rfl, decide_eq_true hmatch, hdrop⟩)
      · cases h
    · exact .inr (.inr h)

/-- Neither an entry that is returned nor what is left is new. -/
theorem popImplLoop_subperm (hH : H.Moves) {id : Nat} {since until_ : Int} {fuel : Nat}
    {q rest : MetadataQueue V} {opt : Option (Metadata V)}
    (h : popImplLoop H id since until_ fuel q = .ok (opt, rest)) :
    (opt.toList ++ rest).Subperm q := by
  induction fuel generalizing q with
  | zero =>
      cases h
      exact List.Subperm.refl _
  | succ fuel ih =>
      cases q with
      | nil =>
          cases h
          exact List.Subperm.refl _
      | cons front t =>
          rcases popImplLoop_round h with ⟨rfl, rfl⟩ | ⟨_, rfl, -, hdrop⟩ | h
          · exact List.Subperm.refl _
          · have hkept := dropColliding_subperm hH hdrop
            exact ((List.subperm_cons _).mpr hkept).trans (popAnyImpl_perm hH front t).subperm
          · exact (ih h).trans (popAnyImpl_subperm hH front t)

theorem popImplLoop_wanted {id : Nat} {since until_ : Int} {fuel : Nat} {q rest : MetadataQueue V}
    {value : Metadata V} (h : popImplLoop H id since until_ fuel q = .ok (some value, rest)) :
    wanted id since until_ value = true := by
  induction fuel generalizing q with
  | zero => cases h
  | succ fuel ih =>
      cases q with
      | nil => cases h
      | cons front t =>
          rcases popImplLoop_round h with ⟨hnone, -⟩ | ⟨_, hvalue, hwanted, -⟩ | h
          · cases hnone
          · cases hvalue
            exact hwanted
          · exact ih h

theorem popAllLoop_round {id : Nat} {since until_ : Int} {fuel : Nat} {q rest : MetadataQueue V}
    {out : List (Metadata V)} (h : popAllLoop H id since until_ (fuel + 1) q = .ok (out, rest)) :
    (out = [] ∧ popImpl H id since until_ q = .ok (none, rest)) ∨
      ∃ value q₁ out', out = value :: out' ∧ popImpl H id since until_ q = .ok (some value, q₁) ∧
        popAllLoop H id since until_ fuel q₁ = .ok (out', rest) := by
  obtain ⟨r, hpop, h⟩ := of_bind_eq_ok h
  obtain ⟨opt, q₁⟩ := r
  cases opt with
  | none =>
      cases h
      exact .inl ⟨rfl, hpop⟩
  | some value =>
      obtain ⟨r', hrest, h⟩ := of_bind_eq_ok h
      cases h
      exact .inr ⟨value, q₁, r'.1, rfl, hpop, hrest⟩

theorem popAllLoop_subperm (hH : H.Moves) {id : Nat} {since until_ : Int} {fuel : Nat}
    {q rest : MetadataQueue V} {out : List (Metadata V)}
    (h : popAllLoop H id since until_ fuel q = .ok (out, rest)) : (out ++ rest).Subperm q := by
  induction fuel generalizing q out with
  | zero =>
      cases h
      exact List.Subperm.refl _
  | succ fuel ih =>
      rcases popAllLoop_round h with ⟨rfl, hpop⟩ | ⟨value, q₁, out', rfl, hpop, hrest⟩
      · exact popImplLoop_subperm hH hpop
      · exact ((List.subperm_cons value).mpr (ih hrest)).trans (popImplLoop_subperm hH hpop)

theorem popAllLoop_wanted {id : Nat} {since until_ : Int} {fuel : Nat} {q rest : MetadataQueue V}
    {out : List (Metadata V)} (h : popAllLoop H id since until_ fuel q = .ok (out, rest)) :
    ∀ e ∈ out, wanted id since until_ e = true := by
  induction fuel generalizing q out with
  | zero =>
      cases h
      exact List.forall_mem_nil _
  | succ fuel ih =>
      rcases popAllLoop_round h with ⟨rfl, -⟩ | ⟨value, q₁, out', rfl, hpop, hrest⟩
      · exact List.forall_mem_nil _
      · exact List.forall_mem_cons.mpr ⟨popImplLoop_wanted hpop, ih hrest⟩

/-- A query takes nothing that is not in the vector, and leaves nothing that it takes. -/
theorem popAll_subperm (hH : H.Moves) {id : Nat} {since until_ : Int} {q rest : MetadataQueue V}
    {out : List (Metadata V)} (h : popAll H id since until_ q = .ok (out, rest)) :
    (out ++ rest).Subperm q := popAllLoop_subperm hH h

/-- A query takes what it asks for, whatever the heap functions do. -/
theorem popAll_wanted {id : Nat} {since until_ : Int} {q rest : MetadataQueue V}
    {out : List (Metadata V)} (h : popAll H id since until_ q = .ok (out, rest)) :
    ∀ e ∈ out, wanted id since until_ e = true := popAllLoop_wanted h

end MetadataQueue
end Queue
end Metamix
