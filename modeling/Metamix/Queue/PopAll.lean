/-
`pop_all` against its documentation.

`popAll` of the queue's model is what every other module asks.  Here the loop stands as the source
has it, with its counter and its output iterator, because the documentation speaks of both.  On a
heap it does what is documented exactly when the wanted entries have different timestamps and
fit the counter.
-/
import Mathlib.Algebra.Group.Nat.Defs
import Metamix.Queue.Runs

namespace Metamix
namespace Queue
namespace MetadataQueue

open Lib Binary

variable {V : Type}

inductive PopAllFault where
  | query (fault : Fault)
  /-- `count++` goes past the greatest `int`. -/
  | overflow
deriving DecidableEq, Repr

/-- `count++` on an `int`. -/
def increment (count : Nat) : Except PopAllFault Nat :=
  if count + 1 < 2 ^ 31 then .ok (count + 1) else .error .overflow

section Loop

variable (H : Heap V) (id : Nat) (since until_ : Int)

/-- The loop with what it has counted and written to `out` so far.  The first argument bounds
the rounds. -/
def popAllCountLoop : Nat → Nat → List (Metadata V) → MetadataQueue V →
    Except PopAllFault (Nat × List (Metadata V) × MetadataQueue V)
  | 0, count, out, q => .ok (count, out, q)
  | fuel + 1, count, out, q =>
      match popImpl H id since until_ q with
      | .error fault => .error (.query fault)
      | .ok (none, q) => .ok (count, out, q)
      | .ok (some value, q) => do
          let count ← increment count
          popAllCountLoop fuel count (out ++ [value]) q

/-- `pop_all`, which returns its `int` as an `unsigned int`. -/
def popAllCount (q : MetadataQueue V) :
    Except PopAllFault (UInt32 × List (Metadata V) × MetadataQueue V) := do
  let (count, out, q) ← popAllCountLoop H id since until_ (q.length + 1) 0 [] q
  return (UInt32.ofNat count, out, q)

end Loop

def InOrder (a b : Metadata V) : Prop := a.pts < b.pts ∨ a.pts = b.pts ∧ a.order ≤ b.order

/-- What the documentation says: the wanted entries and nothing else are popped, in their order,
their count is returned, and the queue keeps what is not before `until`. -/
def PopsAll (H : Heap V) (id : Nat) (since until_ : Int) (q : MetadataQueue V) : Prop :=
  ∃ count out rest, popAllCount H id since until_ q = .ok (count, out, rest) ∧
    out.Perm (q.filter (wanted id since until_)) ∧ out.Pairwise InOrder ∧
    count.toNat = out.length ∧ rest.Perm (q.filter (notBefore until_))

variable {H : Heap V} {id : Nat} {since until_ : Int} {q rest : MetadataQueue V}

theorem increment_of_lt {count : Nat} (h : count + 1 < 2 ^ 31) :
    increment count = .ok (count + 1) :=
  if_pos h

theorem increment_of_not_lt {count : Nat} (h : ¬count + 1 < 2 ^ 31) :
    increment count = .error .overflow := if_neg h

/-- The loop that gathers its results on the way back, seen from the one that gathers them on
the way. -/
theorem popAllCountLoop_of_ok {fuel : Nat} {vs : List (Metadata V)} (count : Nat)
    (out : List (Metadata V)) (h : popAllLoop H id since until_ fuel q = .ok (vs, rest))
    (hcount : count < 2 ^ 31) :
    popAllCountLoop H id since until_ fuel count out q =
      if count + vs.length < 2 ^ 31 then .ok (count + vs.length, out ++ vs, rest)
      else .error .overflow := by
  induction fuel generalizing q count out vs with
  | zero =>
      cases h
      rw [List.append_nil]
      exact (if_pos hcount).symm
  | succ fuel ih =>
      unfold popAllLoop at h
      unfold popAllCountLoop
      obtain ⟨⟨opt, q₁⟩, hpop, hnext⟩ := of_bind_eq_ok h
      rw [hpop]
      cases opt with
      | none =>
          cases hnext
          rw [List.append_nil]
          exact (if_pos hcount).symm
      | some value =>
          obtain ⟨⟨vs', q₂⟩, hloop, hpure⟩ := of_bind_eq_ok hnext
          cases hpure
          by_cases hlt : count + 1 < 2 ^ 31
          · have hlen : count + 1 + vs'.length = count + (value :: vs').length := by
              rw [List.length_cons]
              omega
            have happend : out ++ [value] ++ vs' = out ++ value :: vs' := by simp
            show (increment count >>= _) = _
            rw [increment_of_lt hlt, ok_bind, ih (count + 1) (out ++ [value]) hloop hlt,
              hlen, happend]
          · have hover : ¬count + (value :: vs').length < 2 ^ 31 := by
              rw [List.length_cons]
              omega
            show (increment count >>= _) = _
            rw [increment_of_not_lt hlt, error_bind, if_neg hover]

/-- A query that fails on the way makes the loop fail, if the counter has not done so before. -/
theorem popAllCountLoop_of_error {fuel : Nat} {fault : Fault} (count : Nat)
    (out : List (Metadata V)) (h : popAllLoop H id since until_ fuel q = .error fault) :
    ∃ f, popAllCountLoop H id since until_ fuel count out q = .error f := by
  induction fuel generalizing q count out with
  | zero => cases h
  | succ fuel ih =>
      unfold popAllLoop at h
      unfold popAllCountLoop
      cases hpop : popImpl H id since until_ q with
      | error f => exact ⟨.query f, rfl⟩
      | ok r =>
          obtain ⟨opt, q₁⟩ := r
          rw [hpop, ok_bind] at h
          cases opt with
          | none => cases h
          | some value =>
              have hloop : popAllLoop H id since until_ fuel q₁ = .error fault := by
                cases hrest : popAllLoop H id since until_ fuel q₁ with
                | error f =>
                    simp only [hrest, error_bind] at h
                    exact h
                | ok r =>
                    simp only [hrest, ok_bind] at h
                    cases h
              show ∃ f, (increment count >>= _) = _
              by_cases hlt : count + 1 < 2 ^ 31
              · rw [increment_of_lt hlt, ok_bind]
                exact ih (count + 1) (out ++ [value]) hloop
              · exact ⟨.overflow, by rw [increment_of_not_lt hlt, error_bind]⟩

theorem popAllCount_of_ok {vs : List (Metadata V)}
    (h : popAll H id since until_ q = .ok (vs, rest)) :
    popAllCount H id since until_ q =
      if vs.length < 2 ^ 31 then .ok (UInt32.ofNat vs.length, vs, rest)
      else .error .overflow := by
  have hloop := popAllCountLoop_of_ok 0 [] h (by decide)
  rw [Nat.zero_add, List.nil_append] at hloop
  rw [popAllCount, hloop]
  by_cases hlt : vs.length < 2 ^ 31
  · rw [if_pos hlt, if_pos hlt]
    rfl
  · rw [if_neg hlt, if_neg hlt]
    rfl

theorem popAllCount_of_error {fault : Fault} (h : popAll H id since until_ q = .error fault) :
    ∃ f, popAllCount H id since until_ q = .error f := by
  obtain ⟨f, hf⟩ := popAllCountLoop_of_error 0 [] h
  exact ⟨f, by rw [popAllCount, hf, error_bind]⟩

theorem PopAll.inOrder {out : List (Metadata V)} (h : PopAll id since until_ q out rest) :
    out.Pairwise InOrder := h.sorted.imp fun hlt => .inl hlt

/-- `pop_all` on a heap does what its documentation says if and only if no two of the wanted
entries share a timestamp and the counter does not overflow. -/
theorem popsAll_iff (H : Heap V) (id : Nat) (since until_ : Int) (q : MetadataQueue V)
    (hq : IsHeap comparator q) : PopsAll H id since until_ q ↔
      Distinct id since until_ q ∧ (q.filter (wanted id since until_)).length < 2 ^ 31 := by
  rcases popAll_spec (H := H) id since until_ hq with ⟨hd, vs, rest, hok, hall⟩ | ⟨hd, herr⟩
  · have hlen := hall.out_perm.length_eq
    rw [and_iff_right hd, ← hlen]
    constructor
    · intro h
      obtain ⟨count, out, rest', hrun, -⟩ := h
      rw [popAllCount_of_ok hok] at hrun
      by_contra hlt
      rw [if_neg hlt] at hrun
      cases hrun
    · intro hlt
      have hcount : (UInt32.ofNat vs.length).toNat = vs.length := by
        rw [UInt32.toNat_ofNat', Nat.mod_eq_of_lt (by omega)]
      refine ⟨_, vs, rest, ?_, hall.out_perm, hall.inOrder, hcount, hall.rest_perm⟩
      rw [popAllCount_of_ok hok, if_pos hlt]
  · refine iff_of_false (fun h => ?_) fun h => hd h.1
    obtain ⟨count, out, rest, hrun, -⟩ := h
    obtain ⟨f, hf⟩ := popAllCount_of_error herr
    rw [hf] at hrun
    cases hrun

/-- The wanted entry comes out, the one of the other input goes, the later one stays. -/
theorem popsAll_one_of_three : PopsAll (library Unit) 0 0 5
    (ofRange (library Unit) [⟨1, 3, 3, 0, ()⟩, ⟨0, 4, 4, 0, ()⟩, ⟨0, 9, 9, 0, ()⟩]) := by
  refine (popsAll_iff _ 0 0 5 _ ((library Unit).make_isHeap _)).mpr ⟨?_, by decide⟩
  show List.Nodup _
  decide

/-- Two entries that a frame with two captions leaves in the queue. -/
theorem not_popsAll_two_captions :
    let q : MetadataQueue Unit := [⟨0, 1, 1, 0, ()⟩, ⟨0, 1, 1, 1, ()⟩]
    IsHeap comparator q ∧ popAllCount (library Unit) 0 0 5 q = .error (.query .assertion) ∧
      ¬PopsAll (library Unit) 0 0 5 q := by
  have hrun : popAllCount (library Unit) 0 0 5
      [⟨0, 1, 1, 0, ()⟩, ⟨0, 1, 1, 1, ()⟩] = .error (.query .assertion) := rfl
  refine ⟨?_, hrun, ?_⟩
  · exact (library Unit).push_isHeap [⟨0, 1, 1, 0, ()⟩] ⟨0, 1, 1, 1, ()⟩
      ((library Unit).push_isHeap [] ⟨0, 1, 1, 0, ()⟩ (isHeap_nil _))
  · intro h
    obtain ⟨count, out, rest, hok, -⟩ := h
    rw [hrun] at hok
    cases hok

end MetadataQueue
end Queue
end Metamix
