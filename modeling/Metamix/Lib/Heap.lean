/-
Heaps in a vector and the contract of the standard heap functions.

`IsHeap lt q` is what `std::is_heap` tests: no element is before one of its children
in the order `lt`, so the front is a greatest element.  `StdHeap` holds the three
functions that keep a vector a heap, with what the standard says of each and nothing
more: a function called on a vector that is no heap may do anything.
-/
import Mathlib.Data.List.Basic
import Mathlib.Data.List.Perm.Basic

namespace Metamix
namespace Lib

variable {α : Type}

/-- A comparison the standard library accepts. -/
structure StrictWeak (lt : α → α → Bool) : Prop where
  asymm : ∀ a b, lt a b = true → lt b a = false
  trans : ∀ a b c, lt a b = false → lt b c = false → lt a c = false

theorem StrictWeak.irrefl {lt : α → α → Bool} (h : StrictWeak lt) (a : α) :
    lt a a = false := by
  cases ha : lt a a with
  | false => rfl
  | true => rw [h.asymm a a ha] at ha; cases ha

def parent (i : Nat) : Nat := (i - 1) / 2

theorem parent_lt {i : Nat} (h : 0 < i) : parent i < i := by
  unfold parent
  omega

def IsHeap (lt : α → α → Bool) (q : List α) : Prop :=
  ∀ (i : Nat) (a b : α), 0 < i → q[parent i]? = some a → q[i]? = some b → lt a b = false

theorem isHeap_nil (lt : α → α → Bool) : IsHeap lt [] := by
  intro i a b _ ha _
  cases ha

theorem IsHeap.front {lt : α → α → Bool} (hlt : StrictWeak lt) {x : α} {q : List α}
    (h : IsHeap lt (x :: q)) : ∀ y ∈ x :: q, lt x y = false := by
  have hall : ∀ (i : Nat) (y : α), (x :: q)[i]? = some y → lt x y = false := by
    intro i
    induction i using Nat.strongRecOn with
    | ind i ih =>
        intro y hy
        by_cases hi : i = 0
        · subst hi
          cases hy
          exact hlt.irrefl x
        · have hp := parent_lt (Nat.pos_of_ne_zero hi)
          have hlen := (List.getElem?_eq_some_iff.mp hy).1
          obtain ⟨z, hz⟩ : ∃ z, (x :: q)[parent i]? = some z :=
            ⟨_, List.getElem?_eq_getElem (by omega)⟩
          exact hlt.trans x z y (ih _ hp z hz) (h i z y (Nat.pos_of_ne_zero hi) hz hy)
  intro y hy
  obtain ⟨i, hi⟩ := List.getElem?_of_mem hy
  exact hall i y hi

theorem IsHeap.of_append {lt : α → α → Bool} {q t : List α} (h : IsHeap lt (q ++ t)) :
    IsHeap lt q := by
  intro i a b hi ha hb
  have hib := (List.getElem?_eq_some_iff.mp hb).1
  have hp := parent_lt hi
  exact h i a b hi (by rwa [List.getElem?_append_left (by omega)])
    (by rwa [List.getElem?_append_left hib])

/-- `std::make_heap`, `std::push_heap` and `std::pop_heap` on a whole vector. -/
structure StdHeap (lt : α → α → Bool) where
  makeHeap : List α → List α
  pushHeap : List α → List α
  popHeap : List α → List α
  make_isHeap : ∀ q, IsHeap lt (makeHeap q)
  make_perm : ∀ q, (makeHeap q).Perm q
  push_isHeap : ∀ q x, IsHeap lt q → IsHeap lt (pushHeap (q ++ [x]))
  push_perm : ∀ q x, IsHeap lt q → (pushHeap (q ++ [x])).Perm (q ++ [x])
  pop_spec : ∀ x q, IsHeap lt (x :: q) →
    ∃ rest, popHeap (x :: q) = rest ++ [x] ∧ IsHeap lt rest ∧ rest.Perm q

end Lib
end Metamix
