/-
Sifting: the standard heap functions as the common library writes them.

`push_heap` moves the last element up past parents that are before it, `pop_heap`
moves the front to the end and sifts the old last element down.  `UpReady` and
`DownReady` are the orders that hold while an element is on its way; `binaryHeap` is
the resulting instance of the contract.
-/
import Metamix.Lib.Heap

namespace Metamix
namespace Lib
namespace BinaryHeap

variable {α : Type} (lt : α → α → Bool)

/-! ## The functions -/

/-- Move the element at `i` up.  The first argument bounds the steps. -/
def siftUp : Nat → Nat → List α → List α
  | 0, _, q => q
  | fuel + 1, i, q =>
      match q[parent i]?, q[i]? with
      | some p, some x =>
          if 0 < i ∧ lt p x = true then siftUp fuel (parent i) ((q.set i p).set (parent i) x)
          else q
      | _, _ => q

def pushHeap (q : List α) : List α := siftUp lt q.length (q.length - 1) q

def makeHeap (q : List α) : List α := q.foldl (fun h x => pushHeap lt (h ++ [x])) []

/-- The greater child of `i`, the left one if neither is. -/
def child (i : Nat) (q : List α) : Option (Nat × α) :=
  match q[2 * i + 1]?, q[2 * i + 2]? with
  | some l, some r => if lt l r then some (2 * i + 2, r) else some (2 * i + 1, l)
  | some l, none => some (2 * i + 1, l)
  | none, _ => none

def siftDown : Nat → Nat → List α → List α
  | 0, _, q => q
  | fuel + 1, i, q =>
      match child lt i q, q[i]? with
      | some (c, y), some x =>
          if lt x y then siftDown fuel c ((q.set i y).set c x) else q
      | _, _ => q

def popHeap : List α → List α
  | [] => []
  | [x] => [x]
  | x :: y :: q =>
      siftDown lt (y :: q).length 0 ((y :: q).getLast (by simp) :: (y :: q).dropLast) ++ [x]

variable {lt}

/-! ## Swaps -/

theorem swap_perm {q : List α} {i j : Nat} {a b : α} (hi : q[i]? = some a)
    (hj : q[j]? = some b) : ((q.set i b).set j a).Perm q := by
  obtain ⟨hi', rfl⟩ := List.getElem?_eq_some_iff.mp hi
  obtain ⟨hj', rfl⟩ := List.getElem?_eq_some_iff.mp hj
  exact List.set_set_perm hi' hj'

theorem getElem?_swap {q : List α} {i j k : Nat} {a b : α} (hi : q[i]? = some a)
    (hj : q[j]? = some b) :
    ((q.set i b).set j a)[k]? = if k = j then some a else if k = i then some b else q[k]? := by
  have hi' := (List.getElem?_eq_some_iff.mp hi).1
  have hj' := (List.getElem?_eq_some_iff.mp hj).1
  rw [List.getElem?_set, List.getElem?_set]
  by_cases hkj : k = j
  · rw [if_pos hkj.symm, if_pos hkj, if_pos (by rw [List.length_set]; omega)]
  · rw [if_neg (Ne.symm hkj), if_neg hkj]
    by_cases hki : k = i
    · rw [if_pos hki.symm, if_pos hki, if_pos (by omega)]
    · rw [if_neg (Ne.symm hki), if_neg hki]

/-! ## Moving up -/

/-- A heap but for the element at `i`, which may be after its parent. -/
structure UpReady (lt : α → α → Bool) (q : List α) (i : Nat) : Prop where
  except : ∀ (j : Nat) (a b : α), 0 < j → j ≠ i → q[parent j]? = some a → q[j]? = some b →
    lt a b = false
  grand : ∀ (j : Nat) (a b : α), 0 < i → 0 < j → parent j = i → q[parent i]? = some a →
    q[j]? = some b →
    lt a b = false

theorem UpReady.finish {q : List α} {i : Nat} (h : UpReady lt q i)
    (hstop : ∀ a b, 0 < i → q[parent i]? = some a → q[i]? = some b → lt a b = false) :
    IsHeap lt q := by
  intro j a b hj ha hb
  by_cases hji : j = i
  · subst hji
    exact hstop a b hj ha hb
  · exact h.except j a b hj hji ha hb

theorem UpReady.move (hlt : StrictWeak lt) {q : List α} {i : Nat} {p x : α}
    (h : UpReady lt q i) (hi : 0 < i) (hp : q[parent i]? = some p) (hx : q[i]? = some x)
    (hpx : lt p x = true) : UpReady lt ((q.set i p).set (parent i) x) (parent i) := by
  have hpi := parent_lt hi
  constructor
  · intro j a b hj hjp ha hb
    rw [getElem?_swap hx hp] at ha hb
    rw [if_neg hjp] at hb
    by_cases hji : j = i
    · rw [hji, if_pos rfl] at ha
      rw [if_pos hji] at hb
      cases ha
      cases hb
      exact hlt.asymm _ _ hpx
    · rw [if_neg hji] at hb
      by_cases hsib : parent j = parent i
      · -- A sibling of `i` was below the parent that moved down.
        rw [if_pos hsib] at ha
        cases ha
        have hpb := h.except j p b hj hji (by rw [hsib]; exact hp) hb
        exact hlt.trans _ _ _ (hlt.asymm _ _ hpx) hpb
      · rw [if_neg hsib] at ha
        by_cases hchild : parent j = i
        · rw [if_pos hchild] at ha
          cases ha
          exact h.grand j p b hi hj hchild hp hb
        · rw [if_neg hchild] at ha
          exact h.except j a b hj hji ha hb
  · intro j a b hpos hj hjp ha hb
    have hgp := parent_lt hpos
    rw [getElem?_swap hx hp, if_neg (by omega), if_neg (by omega)] at ha
    rw [getElem?_swap hx hp, if_neg (by have := parent_lt hj; omega)] at hb
    have hap := h.except (parent i) a p hpos (by omega) ha hp
    by_cases hji : j = i
    · rw [if_pos hji] at hb
      cases hb
      exact hap
    · rw [if_neg hji] at hb
      exact hlt.trans _ _ _ hap (h.except j p b hj hji (by rw [hjp]; exact hp) hb)

theorem siftUp_spec (hlt : StrictWeak lt) {fuel i : Nat} {q : List α} (h : UpReady lt q i)
    (hfuel : i < fuel) : IsHeap lt (siftUp lt fuel i q) ∧ (siftUp lt fuel i q).Perm q := by
  induction fuel generalizing i q with
  | zero => omega
  | succ fuel ih =>
      unfold siftUp
      split
      · rename_i p x hp hx
        split
        · rename_i hc
          have hpi := parent_lt hc.1
          obtain ⟨hheap, hperm⟩ := ih (h.move hlt hc.1 hp hx hc.2) (by omega)
          exact ⟨hheap, hperm.trans (swap_perm hx hp)⟩
        · rename_i hc
          refine ⟨h.finish fun a b hi ha hb => ?_, List.Perm.refl _⟩
          rw [hp] at ha
          rw [hx] at hb
          cases ha
          cases hb
          exact Bool.eq_false_iff.mpr fun hpx => hc ⟨hi, hpx⟩
      · rename_i hnone
        exact ⟨h.finish fun a b _ ha hb => absurd hb (hnone a b ha), List.Perm.refl _⟩

theorem pushHeap_spec (hlt : StrictWeak lt) {q : List α} (x : α) (h : IsHeap lt q) :
    IsHeap lt (pushHeap lt (q ++ [x])) ∧ (pushHeap lt (q ++ [x])).Perm (q ++ [x]) := by
  have hlen : (q ++ [x]).length = q.length + 1 := by simp
  have hready : UpReady lt (q ++ [x]) q.length := by
    constructor
    · intro j a b hj hjq ha hb
      have hjlen := (List.getElem?_eq_some_iff.mp hb).1
      have hp := parent_lt hj
      rw [List.getElem?_append_left (by omega)] at ha hb
      exact h j a b hj ha hb
    · intro j a b _ hj hjp _ hb
      have hjlen := (List.getElem?_eq_some_iff.mp hb).1
      have hp := parent_lt hj
      omega
  rw [pushHeap, hlen, Nat.add_sub_cancel]
  exact siftUp_spec hlt hready (Nat.lt_succ_self _)

theorem makeHeap_spec (hlt : StrictWeak lt) (q : List α) :
    IsHeap lt (makeHeap lt q) ∧ (makeHeap lt q).Perm q := by
  have hfold : ∀ (q h : List α), IsHeap lt h →
      IsHeap lt (q.foldl (fun h x => pushHeap lt (h ++ [x])) h) ∧
        (q.foldl (fun h x => pushHeap lt (h ++ [x])) h).Perm (h ++ q) := by
    intro q
    induction q with
    | nil => exact fun h hh => ⟨hh, by simp⟩
    | cons x q ih =>
        intro h hh
        obtain ⟨hpush, hperm⟩ := pushHeap_spec hlt x hh
        obtain ⟨hheap, hall⟩ := ih _ hpush
        refine ⟨hheap, hall.trans ?_⟩
        rw [show h ++ x :: q = h ++ [x] ++ q by simp]
        exact hperm.append_right q
  have h := hfold q [] (isHeap_nil lt)
  exact h

/-! ## Moving down -/

theorem child_eq_some (hlt : StrictWeak lt) {i c : Nat} {q : List α} {y : α}
    (h : child lt i q = some (c, y)) :
    0 < c ∧ parent c = i ∧ q[c]? = some y ∧
      ∀ (j : Nat) (b : α), 0 < j → parent j = i → q[j]? = some b → lt y b = false := by
  have hcases : ∀ j, 0 < j → parent j = i → j = 2 * i + 1 ∨ j = 2 * i + 2 := by
    intro j hj hp
    unfold parent at hp
    omega
  have hleft : parent (2 * i + 1) = i := by
    unfold parent
    omega
  have hright : parent (2 * i + 2) = i := by
    unfold parent
    omega
  unfold child at h
  split at h
  · rename_i l r hl hr
    split at h
    · rename_i hlr
      cases h
      refine ⟨by omega, hright, hr, fun j b hj hp hb => ?_⟩
      rcases hcases j hj hp with rfl | rfl
      · rw [hl] at hb
        cases hb
        exact hlt.asymm _ _ hlr
      · rw [hr] at hb
        cases hb
        exact hlt.irrefl _
    · rename_i hlr
      cases h
      refine ⟨by omega, hleft, hl, fun j b hj hp hb => ?_⟩
      rcases hcases j hj hp with rfl | rfl
      · rw [hl] at hb
        cases hb
        exact hlt.irrefl _
      · rw [hr] at hb
        cases hb
        exact Bool.eq_false_iff.mpr hlr
  · rename_i l hl hr
    cases h
    refine ⟨by omega, hleft, hl, fun j b hj hp hb => ?_⟩
    rcases hcases j hj hp with rfl | rfl
    · rw [hl] at hb
      cases hb
      exact hlt.irrefl _
    · rw [hr] at hb
      cases hb
  · cases h

theorem child_eq_none {i : Nat} {q : List α} (h : child lt i q = none) (j : Nat) (hj : 0 < j)
    (hp : parent j = i) : q[j]? = none := by
  unfold child at h
  split at h
  · split at h <;> cases h
  · cases h
  · rename_i hl
    rw [List.getElem?_eq_none_iff] at hl ⊢
    unfold parent at hp
    omega

/-- A heap but for the element at `i`, which may be before its children. -/
structure DownReady (lt : α → α → Bool) (q : List α) (i : Nat) : Prop where
  except : ∀ (j : Nat) (a b : α), 0 < j → parent j ≠ i → q[parent j]? = some a →
    q[j]? = some b → lt a b = false
  grand : ∀ (j : Nat) (a b : α), 0 < i → 0 < j → parent j = i → q[parent i]? = some a →
    q[j]? = some b → lt a b = false

theorem DownReady.finish {q : List α} {i : Nat} (h : DownReady lt q i)
    (hstop : ∀ (j : Nat) (a b : α), 0 < j → parent j = i → q[i]? = some a → q[j]? = some b →
      lt a b = false) : IsHeap lt q := by
  intro j a b hj ha hb
  by_cases hp : parent j = i
  · rw [hp] at ha
    exact hstop j a b hj hp ha hb
  · exact h.except j a b hj hp ha hb

theorem DownReady.move (hlt : StrictWeak lt) {q : List α} {i c : Nat} {x y : α}
    (h : DownReady lt q i) (hx : q[i]? = some x) (hc : child lt i q = some (c, y))
    (hxy : lt x y = true) : DownReady lt ((q.set i y).set c x) c := by
  obtain ⟨hc0, hpc, hy, hgreatest⟩ := child_eq_some hlt hc
  have hic : i < c := by
    rw [← hpc]
    exact parent_lt hc0
  constructor
  · intro j a b hj hjp ha hb
    have hpj := parent_lt hj
    rw [getElem?_swap hx hy, if_neg hjp] at ha
    rw [getElem?_swap hx hy] at hb
    by_cases hjc : j = c
    · rw [hjc, hpc, if_pos rfl] at ha
      rw [if_pos hjc] at hb
      cases ha
      cases hb
      exact hlt.asymm _ _ hxy
    · rw [if_neg hjc] at hb
      by_cases hji : j = i
      · -- The child that moved up was below the parent of `i` all along.
        rw [if_neg (by omega)] at ha
        rw [if_pos hji] at hb
        cases hb
        rw [hji] at ha hj
        exact h.grand c a y hj hc0 hpc ha hy
      · rw [if_neg hji] at hb
        by_cases hpi : parent j = i
        · rw [if_pos hpi] at ha
          cases ha
          exact hgreatest j b hj hpi hb
        · rw [if_neg hpi] at ha
          exact h.except j a b hj hpi ha hb
  · intro j a b _ hj hjc ha hb
    have hpj := parent_lt hj
    rw [hpc, getElem?_swap hx hy, if_neg (by omega), if_pos rfl] at ha
    rw [getElem?_swap hx hy, if_neg (by omega), if_neg (by omega)] at hb
    cases ha
    exact h.except j y b hj (by omega) (by rw [hjc]; exact hy) hb

theorem siftDown_spec (hlt : StrictWeak lt) (fuel : Nat) {i : Nat} {q : List α}
    (h : DownReady lt q i)
    (hfuel : q.length ≤ fuel + i) :
    IsHeap lt (siftDown lt fuel i q) ∧ (siftDown lt fuel i q).Perm q := by
  induction fuel generalizing i q with
  | zero =>
      refine ⟨h.finish fun j a b _ _ ha _ => ?_, List.Perm.refl _⟩
      have := (List.getElem?_eq_some_iff.mp ha).1
      omega
  | succ fuel ih =>
      unfold siftDown
      split
      · rename_i c y x hc hx
        obtain ⟨hc0, hpc, hy, hgreatest⟩ := child_eq_some hlt hc
        have hic := parent_lt hc0
        split
        · rename_i hxy
          have hlen : ((q.set i y).set c x).length ≤ fuel + c := by
            rw [List.length_set, List.length_set]
            omega
          obtain ⟨hheap, hperm⟩ := ih (h.move hlt hx hc hxy) hlen
          exact ⟨hheap, hperm.trans (swap_perm hx hy)⟩
        · rename_i hxy
          refine ⟨h.finish fun j a b hj hp ha hb => ?_, List.Perm.refl _⟩
          rw [hx] at ha
          cases ha
          exact hlt.trans _ _ _ (Bool.eq_false_iff.mpr hxy) (hgreatest j b hj hp hb)
      · rename_i hnone
        refine ⟨h.finish fun j a b hj hp ha hb => ?_, List.Perm.refl _⟩
        cases hc : child lt i q with
        | none =>
            rw [child_eq_none hc j hj hp] at hb
            cases hb
        | some cy =>
            obtain ⟨c, y⟩ := cy
            exact absurd ha (hnone c y a hc)

theorem popHeap_spec (hlt : StrictWeak lt) (x : α) (q : List α) (h : IsHeap lt (x :: q)) :
    ∃ rest, popHeap lt (x :: q) = rest ++ [x] ∧ IsHeap lt rest ∧ rest.Perm q := by
  cases q with
  | nil => exact ⟨[], rfl, isHeap_nil lt, List.Perm.refl _⟩
  | cons y q =>
      have hne : y :: q ≠ [] := by simp
      have hbody : ∀ (j : Nat) (b : α), 0 < j →
          ((y :: q).getLast hne :: (y :: q).dropLast)[j]? = some b →
          (x :: y :: q)[j]? = some b := by
        intro j b hj hb
        obtain ⟨k, rfl⟩ : ∃ k, j = k + 1 := ⟨j - 1, by omega⟩
        rw [List.getElem?_cons_succ, List.getElem?_dropLast] at hb
        rw [List.getElem?_cons_succ]
        split at hb
        · exact hb
        · cases hb
      have hready : DownReady lt ((y :: q).getLast hne :: (y :: q).dropLast) 0 := by
        constructor
        · intro j a b hj hp ha hb
          exact h j a b hj (hbody _ a (by omega) ha) (hbody j b hj hb)
        · intro j a b h0
          omega
      obtain ⟨hheap, hperm⟩ := siftDown_spec hlt (y :: q).length hready (by simp)
      refine ⟨_, rfl, hheap, hperm.trans ?_⟩
      have hlast := List.dropLast_append_getLast hne
      exact (List.perm_append_singleton _ _).symm.trans (by rw [hlast])

/-- The contract holds of the common implementation. -/
def stdHeap (lt : α → α → Bool) (hlt : StrictWeak lt) : StdHeap lt where
  makeHeap := makeHeap lt
  pushHeap := pushHeap lt
  popHeap := popHeap lt
  make_isHeap q := (makeHeap_spec hlt q).1
  make_perm q := (makeHeap_spec hlt q).2
  push_isHeap _ x h := (pushHeap_spec hlt x h).1
  push_perm _ x h := (pushHeap_spec hlt x h).2
  pop_spec := popHeap_spec hlt

end BinaryHeap
end Lib
end Metamix
