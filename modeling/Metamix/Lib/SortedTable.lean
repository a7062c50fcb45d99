/-
A table in the order of its keys, one record for each key.

`assign` puts a record in its place and drops the one that had its key.  A table that is made of
records whose keys rise already is those records (`tableOf_eq_self`).
-/
import Mathlib.Data.List.Induction
import Mathlib.Order.Lattice

namespace Metamix
namespace Lib

variable {K R : Type} [LinearOrder K] (key : R → K)

def assign (r : R) : List R → List R
  | [] => [r]
  | s :: rs =>
      if key r < key s then r :: s :: rs
      else if key s < key r then s :: assign r rs
      else r :: rs

def tableOf (rs : List R) : List R := rs.foldl (fun table r => assign key r table) []

/-- The keys rise. -/
def Sorted (rs : List R) : Prop := rs.Pairwise fun a b => key a < key b

variable {key}

theorem mem_of_mem_assign {r s : R} {rs : List R} (h : s ∈ assign key r rs) : s = r ∨ s ∈ rs := by
  induction rs with
  | nil => exact .inl (List.mem_singleton.mp h)
  | cons t rs ih =>
      unfold assign at h
      split_ifs at h
      · exact List.mem_cons.mp h
      · rcases List.mem_cons.mp h with rfl | h
        · exact .inr List.mem_cons_self
        · exact (ih h).imp_right (List.mem_cons_of_mem _)
      · exact (List.mem_cons.mp h).imp_right (List.mem_cons_of_mem _)

theorem Sorted.assign {rs : List R} (h : Sorted key rs) (r : R) : Sorted key (assign key r rs) := by
  induction rs with
  | nil => exact List.pairwise_singleton ..
  | cons t rs ih =>
      obtain ⟨hfirst, hrest⟩ := List.pairwise_cons.mp h
      unfold Lib.assign
      split_ifs with hlt hgt
      · refine List.pairwise_cons.mpr ⟨fun s hs => ?_, h⟩
        rcases List.mem_cons.mp hs with rfl | hs
        · exact hlt
        · exact lt_trans hlt (hfirst s hs)
      · refine List.pairwise_cons.mpr ⟨fun s hs => ?_, ih hrest⟩
        rcases mem_of_mem_assign hs with rfl | hs
        · exact hgt
        · exact hfirst s hs
      · have hsame : key r = key t := le_antisymm (not_lt.mp hgt) (not_lt.mp hlt)
        refine List.pairwise_cons.mpr ⟨fun s hs => ?_, hrest⟩
        rw [hsame]
        exact hfirst s hs

theorem mem_keys_assign {r : R} {rs : List R} {k : K} :
    k ∈ (assign key r rs).map key ↔ k = key r ∨ k ∈ rs.map key := by
  induction rs with
  | nil => simp [assign]
  | cons t rs ih =>
      unfold assign
      split_ifs with hlt hgt
      · simp
      · rw [List.map_cons, List.mem_cons, ih, List.map_cons, List.mem_cons]
        exact or_left_comm
      · have hsame : key r = key t := le_antisymm (not_lt.mp hgt) (not_lt.mp hlt)
        rw [List.map_cons, List.mem_cons, List.map_cons, List.mem_cons, hsame, ← or_assoc, or_self]

theorem assign_of_forall_lt {r : R} {rs : List R} (h : ∀ s ∈ rs, key s < key r) :
    assign key r rs = rs ++ [r] := by
  induction rs with
  | nil => rfl
  | cons t rs ih =>
      obtain ⟨hfirst, hrest⟩ := List.forall_mem_cons.mp h
      rw [assign, if_neg (lt_asymm hfirst), if_pos hfirst, ih hrest]
      rfl

theorem tableOf_concat (rs : List R) (r : R) :
    tableOf key (rs ++ [r]) = assign key r (tableOf key rs) := by
  unfold tableOf
  rw [List.foldl_append, List.foldl_cons, List.foldl_nil]

theorem sorted_tableOf (rs : List R) : Sorted key (tableOf key rs) := by
  induction rs using List.reverseRecOn with
  | nil => exact List.Pairwise.nil
  | append_singleton rs r ih =>
      rw [tableOf_concat]
      exact ih.assign r

theorem mem_keys_tableOf {rs : List R} {k : K} :
    k ∈ (tableOf key rs).map key ↔ k ∈ rs.map key := by
  induction rs using List.reverseRecOn with
  | nil => exact Iff.rfl
  | append_singleton rs r ih =>
      rw [tableOf_concat, mem_keys_assign, ih, List.map_append, List.mem_append, or_comm,
        List.map_singleton, List.mem_singleton]

theorem Sorted.find?_eq_some {rs : List R} (h : Sorted key rs) {r : R} (hr : r ∈ rs) {p : R → Bool}
    (hp : ∀ s, p s = true ↔ key s = key r) : rs.find? p = some r := by
  induction rs with
  | nil => cases hr
  | cons s rs ih =>
      obtain ⟨hhead, htail⟩ := List.pairwise_cons.mp h
      cases hs : p s with
      | true =>
          rw [List.find?_cons_of_pos hs]
          rcases List.mem_cons.mp hr with rfl | hr
          · rfl
          · exact absurd ((hp s).mp hs) (ne_of_lt (hhead r hr))
      | false =>
          rw [List.find?_cons_of_neg (by simp [hs])]
          refine ih htail ((List.mem_cons.mp hr).resolve_left ?_)
          rintro rfl
          rw [(hp r).mpr rfl] at hs
          cases hs

theorem tableOf_eq_self {rs : List R} (h : Sorted key rs) : tableOf key rs = rs := by
  induction rs using List.reverseRecOn with
  | nil => rfl
  | append_singleton rs r ih =>
      obtain ⟨hrs, -, hlast⟩ := List.pairwise_append.mp h
      rw [tableOf_concat, ih hrs]
      exact assign_of_forall_lt fun s hs => hlast s hs r (List.mem_singleton_self r)

end Lib
end Metamix
