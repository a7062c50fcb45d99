/-
Records that are made when their key is first seen.

`upsert` changes the first record with a key, or makes one at the end of the list.
`foldl_upsert` says what a sequence of such updates leaves: one record for every key, in the order
in which the keys were first seen, each with its own updates and no others.
-/
import Mathlib.Data.List.Induction
import Mathlib.Data.List.Nodup

namespace Metamix
namespace Lib

section FirstSeen

variable {K : Type} [DecidableEq K]

theorem eraseDups_concat (ks : List K) (k : K) :
    (ks ++ [k]).eraseDups = if k ∈ ks then ks.eraseDups else ks.eraseDups ++ [k] := by
  rw [List.eraseDups_append]
  by_cases hk : k ∈ ks
  · simp [hk, List.removeAll]
  · simp only [List.removeAll, List.filter_cons, List.elem_eq_mem, hk, decide_false, Bool.not_false,
      List.filter_nil, if_true, if_false]
    rfl

theorem eraseDups_nodup (ks : List K) : ks.eraseDups.Nodup := by
  induction ks using List.reverseRecOn with
  | nil => exact List.nodup_nil
  | append_singleton ks k ih =>
      rw [eraseDups_concat]
      split
      · exact ih
      · next hk =>
          refine List.nodup_append.mpr ⟨ih, List.nodup_singleton k, fun a ha b hb hab => hk ?_⟩
          rw [← List.mem_singleton.mp hb, ← hab]
          exact List.mem_eraseDups.mp ha

end FirstSeen

/-- Records, each with a key, and how a new one is made at a place of the list. -/
structure Registry (K R : Type) where
  key : R → K
  make : Nat → K → R
  key_make : ∀ i k, key (make i k) = k

namespace Registry

variable {K R : Type} [DecidableEq K] (G : Registry K R)

def upsert (rs : List R) (k : K) (f : R → R) : List R :=
  if k ∈ rs.map G.key then rs.modify ((rs.map G.key).idxOf k) f else rs ++ [f (G.make rs.length k)]

/-- The record of a key behind its updates. -/
def recordOf (us : List (K × (R → R))) (i : Nat) (k : K) : R :=
  (us.filter fun u => u.1 = k).foldl (fun r u => u.2 r) (G.make i k)

def keysOf (us : List (K × (R → R))) : List K := (us.map Prod.fst).eraseDups

variable {G}

theorem recordOf_concat (us : List (K × (R → R))) (u : K × (R → R)) (i : Nat) (k : K) :
    G.recordOf (us ++ [u]) i k =
      if u.1 = k then u.2 (G.recordOf us i k) else G.recordOf us i k := by
  unfold recordOf
  rw [List.filter_append, List.foldl_append]
  by_cases hk : u.1 = k <;> simp [hk]

theorem key_recordOf {us : List (K × (R → R))} (hkey : ∀ u ∈ us, ∀ r, G.key (u.2 r) = G.key r)
    (i : Nat) (k : K) : G.key (G.recordOf us i k) = k := by
  induction us using List.reverseRecOn with
  | nil => exact G.key_make i k
  | append_singleton us u ih =>
      have hus := ih fun v hv => hkey v (List.mem_append_left _ hv)
      rw [recordOf_concat]
      split
      · rw [hkey u (List.mem_append_right _ List.mem_cons_self), hus]
      · exact hus

theorem map_key {us : List (K × (R → R))} (hkey : ∀ u ∈ us, ∀ r, G.key (u.2 r) = G.key r) :
    ((keysOf us).mapIdx (G.recordOf us)).map G.key = keysOf us := by
  refine List.ext_getElem? fun j => ?_
  rw [List.getElem?_map, List.getElem?_mapIdx, Option.map_map]
  cases (keysOf us)[j]? with
  | none => rfl
  | some k => exact congrArg some (key_recordOf hkey j k)

theorem recordOf_of_not_mem {us : List (K × (R → R))} {k : K} (hk : k ∉ us.map Prod.fst) (i : Nat) :
    G.recordOf us i k = G.make i k := by
  have hnone : (us.filter fun u => u.1 = k) = [] := by
    refine List.filter_eq_nil_iff.mpr fun u hu hsame => hk ?_
    rw [← of_decide_eq_true hsame]
    exact List.mem_map_of_mem hu
  rw [recordOf, hnone, List.foldl_nil]

theorem upsert_records {us : List (K × (R → R))} {u : K × (R → R)}
    (hkey : ∀ v ∈ us, ∀ r, G.key (v.2 r) = G.key r) :
    G.upsert ((keysOf us).mapIdx (G.recordOf us)) u.1 u.2 =
      (keysOf (us ++ [u])).mapIdx (G.recordOf (us ++ [u])) := by
  have hkeys : keysOf (us ++ [u]) =
      if u.1 ∈ us.map Prod.fst then keysOf us else keysOf us ++ [u.1] := by
    unfold keysOf
    rw [List.map_append, List.map_singleton, eraseDups_concat]
  have hsame : u.1 ∈ us.map Prod.fst ↔ u.1 ∈ keysOf us := List.mem_eraseDups.symm
  have hnodup : (keysOf us).Nodup := eraseDups_nodup _
  rw [upsert, map_key hkey, hkeys]
  simp only [hsame]
  split
  · next hu =>
      refine List.ext_getElem? fun j => ?_
      rw [List.getElem?_modify, List.getElem?_mapIdx, List.getElem?_mapIdx]
      cases hj : (keysOf us)[j]? with
      | none => rfl
      | some k =>
          obtain ⟨hlt, rfl⟩ := List.getElem?_eq_some_iff.mp hj
          have hplace : (keysOf us).idxOf u.1 = j ↔ u.1 = (keysOf us)[j] := by
            constructor
            · intro h
              subst h
              exact (List.getElem_idxOf hlt).symm
            · intro h
              rw [h, hnodup.idxOf_getElem j hlt]
          show some (if (keysOf us).idxOf u.1 = j then _ else _) = some _
          rw [recordOf_concat]
          simp only [hplace]
  · next hu =>
      rw [List.mapIdx_concat, recordOf_concat, if_pos rfl,
        recordOf_of_not_mem fun h => hu (hsame.mp h), List.length_mapIdx]
      refine congrArg (· ++ _) (List.ext_getElem? fun j => ?_)
      rw [List.getElem?_mapIdx, List.getElem?_mapIdx]
      cases hj : (keysOf us)[j]? with
      | none => rfl
      | some k =>
          have hne : u.1 ≠ k := fun h => hu (h ▸ List.mem_of_getElem? hj)
          show some _ = some _
          rw [recordOf_concat, if_neg hne]

theorem foldl_upsert {us : List (K × (R → R))} (hkey : ∀ u ∈ us, ∀ r, G.key (u.2 r) = G.key r) :
    us.foldl (fun rs u => G.upsert rs u.1 u.2) [] = (keysOf us).mapIdx (G.recordOf us) := by
  induction us using List.reverseRecOn with
  | nil => rfl
  | append_singleton us u ih =>
      have hus : ∀ v ∈ us, ∀ r, G.key (v.2 r) = G.key r := fun v hv =>
        hkey v (List.mem_append_left _ hv)
      rw [List.foldl_append, ih hus]
      exact upsert_records hus

end Registry
end Lib
end Metamix
