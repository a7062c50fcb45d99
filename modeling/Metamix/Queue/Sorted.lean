/-
The queue as a sorted collection.

What `push` and `pop` are for can be said without a heap: a sorted list takes new entries at
their place, and a query takes the first one it wants, with everything up to its timestamp.
`heap_refines_sorted` says that the heap answers every run of the two calls as the list does, as
long as no two entries in the queue share timestamp and input, which is what the code asserts.
-/
import Metamix.Queue.Runs
import Metamix.Lib.Machine
import Mathlib.Data.List.Sort

namespace Metamix
namespace Queue

open Lib Binary MetadataQueue

variable {V : Type}

inductive Call (V : Type) where
  | push (value : Metadata V)
  | pop (id : Nat) (since until_ : Int)

def Call.op : Call V → Op V
  | .push value => .push value
  | .pop id since until_ => .pop id since until_

def NotAfter (a b : Metadata V) : Prop := comparator a b = false

instance : DecidableRel (NotAfter (V := V)) :=
  fun a b => inferInstanceAs (Decidable (comparator a b = false))

instance : Std.Total (NotAfter (V := V)) where
  total a b := by
    unfold NotAfter
    rw [comparator_eq_false, comparator_eq_false]
    omega

instance : IsTrans (Metadata V) NotAfter where
  trans a b c hab hbc := comparator_strictWeak.trans a b c hab hbc

/-! ## The collection -/

structure SortedQueue (V : Type) where
  entries : List (Metadata V)
  sorted : entries.Pairwise NotAfter

namespace SortedQueue

def ofRange (range : List (Metadata V)) : SortedQueue V :=
  ⟨range.insertionSort NotAfter, List.pairwise_insertionSort NotAfter range⟩

def push (value : Metadata V) (s : SortedQueue V) : SortedQueue V :=
  ⟨s.entries.orderedInsert NotAfter value, s.sorted.orderedInsert value _⟩

def keep (p : Metadata V → Bool) (s : SortedQueue V) : SortedQueue V :=
  ⟨s.entries.filter p, s.sorted.filter p⟩

/-- The first wanted entry goes with everything up to its timestamp.  Without one, everything
before `until` goes. -/
def pop (id : Nat) (since until_ : Int) (s : SortedQueue V) :
    Option (Metadata V) × SortedQueue V :=
  match s.entries.find? (wanted id since until_) with
  | none => (none, s.keep (notBefore until_))
  | some value => (some value, s.keep (later value))

def answer : Call V → SortedQueue V → Output V × SortedQueue V
  | .push value, s => (.pushed, s.push value)
  | .pop id since until_, s => (.popped (s.pop id since until_).1, (s.pop id since until_).2)

def machine : Machine (Call V) Fault (Output V) (SortedQueue V) :=
  fun call s => .ok (s.answer call)

theorem push_perm (value : Metadata V) (s : SortedQueue V) :
    (s.push value).entries.Perm (value :: s.entries) := List.perm_orderedInsert NotAfter value _

/-- Nothing that is wanted comes before what is found. -/
theorem notAfter_of_find {p : Metadata V → Bool} {s : SortedQueue V} {value : Metadata V}
    (h : s.entries.find? p = some value) : ∀ e ∈ s.entries, p e = true → NotAfter value e := by
  obtain ⟨-, front, back, hsplit, hfront⟩ := List.find?_eq_some_iff_append.mp h
  have hsorted := s.sorted
  rw [hsplit, List.pairwise_append] at hsorted
  intro e he hp
  rw [hsplit, List.mem_append, List.mem_cons] at he
  rcases he with he | rfl | he
  · have hnot := hfront e he
    rw [hp] at hnot
    cases hnot
  · exact comparator_strictWeak.irrefl e
  · exact (List.pairwise_cons.mp hsorted.2.1).1 e he

end SortedQueue

namespace MetadataQueue

def machine (H : Heap V) : Machine (Call V) Fault (Output V) (MetadataQueue V) :=
  fun call q => apply H call.op q

/-! ## Entries that do not collide -/

theorem Apart.perm {p q : List (Metadata V)} (h : Apart p) (hperm : p.Perm q) : Apart q :=
  (hperm.map _).nodup_iff.mp h

theorem Apart.sublist {p q : List (Metadata V)} (h : Apart q) (hsub : p.Sublist q) : Apart p :=
  (hsub.map _).nodup h

theorem Apart.eq_of_same {q : List (Metadata V)} (h : Apart q) {a b : Metadata V} (ha : a ∈ q)
    (hb : b ∈ q) (hpts : a.pts = b.pts) (hid : a.inputId = b.inputId) : a = b :=
  List.inj_on_of_nodup_map h ha hb (by rw [hpts, hid])

theorem Apart.collides_le_one {q : List (Metadata V)} (h : Apart q) (value : Metadata V) :
    (q.filter (collides value)).length ≤ 1 := by
  have hkeys : (q.filter (collides value)).map (fun e => (e.pts, e.inputId)) =
      List.replicate (q.filter (collides value)).length (value.pts, value.inputId) := by
    refine List.eq_replicate_iff.mpr ⟨List.length_map .., fun key hkey => ?_⟩
    obtain ⟨e, he, rfl⟩ := List.mem_map.mp hkey
    have hc := (List.mem_filter.mp he).2
    simp only [collides, decide_eq_true_eq] at hc
    rw [hc.1, hc.2]
  have hnodup := h.sublist (p := q.filter (collides value)) List.filter_sublist
  rw [Apart, hkeys] at hnodup
  exact List.nodup_replicate.mp hnodup

/-- The order on the entries of such a queue is antisymmetric. -/
theorem Apart.eq_of_notAfter {q : List (Metadata V)} (h : Apart q) {a b : Metadata V} (ha : a ∈ q)
    (hb : b ∈ q) (hab : NotAfter a b) (hba : NotAfter b a) : a = b := by
  unfold NotAfter at hab hba
  rw [comparator_eq_false] at hab hba
  exact h.eq_of_same ha hb (by omega) (by omega)

/-! ## One call -/

/-- The heap holds the entries of the collection. -/
structure Represents (q : MetadataQueue V) (s : SortedQueue V) : Prop where
  isHeap : IsHeap comparator q
  perm : q.Perm s.entries

variable {H : Heap V}

theorem Represents.push {q : MetadataQueue V} {s : SortedQueue V} (h : Represents q s)
    (value : Metadata V) : Represents (push H value q) (s.push value) where
  isHeap := H.push_isHeap q value h.isHeap
  perm := by
    refine (H.push_perm q value h.isHeap).trans ?_
    refine (List.perm_append_singleton _ _).trans ?_
    exact (h.perm.cons value).trans (s.push_perm value).symm

theorem Represents.find_none {q : MetadataQueue V} {s : SortedQueue V} (h : Represents q s)
    {p : Metadata V → Bool} (hp : q.filter p = []) : s.entries.find? p = none := by
  refine List.find?_eq_none.mpr fun e he => ?_
  exact List.filter_eq_nil_iff.mp hp e (h.perm.symm.subset he)

/-- The collection finds the entry that the heap pops. -/
theorem Represents.find_some {q : MetadataQueue V} {s : SortedQueue V} (h : Represents q s)
    (hapart : Apart q) {id : Nat} {since until_ : Int} {value : Metadata V} (hmem : value ∈ q)
    (hwanted : wanted id since until_ value = true)
    (hleast : ∀ e ∈ q, wanted id since until_ e = true → value.pts ≤ e.pts) :
    s.entries.find? (wanted id since until_) = some value := by
  cases hfind : s.entries.find? (wanted id since until_) with
  | none => exact absurd hwanted (List.find?_eq_none.mp hfind value (h.perm.subset hmem))
  | some found =>
      have hfound : found ∈ q := h.perm.symm.subset (List.mem_of_find?_eq_some hfind)
      have hfwanted := List.find?_some hfind
      have hle := hleast found hfound hfwanted
      have hge := SortedQueue.notAfter_of_find hfind value (h.perm.subset hmem) hwanted
      unfold NotAfter at hge
      rw [comparator_eq_false] at hge
      simp only [wanted, decide_eq_true_eq] at hwanted hfwanted
      rw [hapart.eq_of_same hfound hmem (by omega) (by omega)]

def Does : Call V → MetadataQueue V → Except Fault (Output V × MetadataQueue V) → Prop
  | .push value, q, r => ∃ rest, r = .ok (.pushed, rest) ∧ rest.Perm (value :: q)
  | .pop id since until_, q, r =>
      (∃ value rest, r = .ok (.popped (some value), rest) ∧
        value ∈ q ∧ wanted id since until_ value = true ∧
        (∀ e ∈ q, wanted id since until_ e = true → e = value ∨ value.pts < e.pts) ∧
        rest.Perm (q.filter (later value))) ∨
      (∃ rest, r = .ok (.popped none, rest) ∧
        (∀ e ∈ q, wanted id since until_ e = false) ∧ rest.Perm (q.filter (notBefore until_)))

theorem machine_pop {id : Nat} {since until_ : Int} {q rest : MetadataQueue V}
    {value : Option (Metadata V)} (h : popImpl H id since until_ q = .ok (value, rest)) :
    machine H (.pop id since until_) q = .ok (.popped value, rest) := by
  show (popImpl H id since until_ q >>= fun r => .ok (Output.popped r.1, r.2)) = _
  rw [h]
  rfl

/-- With the entries apart, a query never runs into the assertion. -/
theorem popImpl_ok {id : Nat} {since until_ : Int} {q : MetadataQueue V}
    (hq : IsHeap comparator q) (hapart : Apart q) :
    ∃ value rest, popImpl H id since until_ q = .ok (value, rest) ∧
      PopImpl id since until_ q (.ok (value, rest)) := by
  have hspec := popImpl_spec (H := H) id since until_ hq
  cases hpop : popImpl H id since until_ q with
  | error f =>
      rw [hpop] at hspec
      cases hspec with
      | @collision value hwanted htwo =>
          have := hapart.collides_le_one value
          omega
  | ok r =>
      rw [hpop] at hspec
      exact ⟨r.1, r.2, rfl, hspec⟩

theorem mem_of_alone {q : MetadataQueue V} {value : Metadata V}
    (h : (q.filter (collides value)).Perm [value]) : value ∈ q :=
  List.mem_of_mem_filter (h.symm.subset (List.mem_singleton_self value))

theorem does_of_apart {q : MetadataQueue V} (hq : IsHeap comparator q) (hapart : Apart q)
    (call : Call V) : Does call q (machine H call q) := by
  cases call with
  | push value =>
      exact ⟨_, rfl, (H.push_perm q value hq).trans (List.perm_append_singleton _ _)⟩
  | pop id since until_ =>
      obtain ⟨opt, rest, hpop, hspec⟩ := popImpl_ok (H := H) hq hapart
      rw [machine_pop hpop]
      cases hspec with
      | none hwanted hheap hperm =>
          refine .inr ⟨rest, rfl, fun e he => ?_, hperm⟩
          exact Bool.eq_false_iff.mpr (List.filter_eq_nil_iff.mp hwanted e he)
      | @some value _ hwanted hleast halone hheap hperm =>
          have hmem := mem_of_alone halone
          refine .inl ⟨value, rest, rfl, hmem, hwanted, fun e he hew => ?_, hperm⟩
          rcases Int.lt_or_eq_of_le (hleast e he hew) with hlt | heq
          · exact .inr hlt
          · simp only [wanted, decide_eq_true_eq] at hwanted hew
            exact .inl (hapart.eq_of_same he hmem heq.symm (by omega))

/-- A call on the heap gives the answer of the collection and a heap that represents what
becomes of it. -/
theorem Represents.step {q : MetadataQueue V} {s : SortedQueue V} (h : Represents q s)
    (hapart : Apart q) (call : Call V) : ∃ q', machine H call q = .ok ((s.answer call).1, q') ∧
      Represents q' (s.answer call).2 := by
  cases call with
  | push value => exact ⟨_, rfl, h.push value⟩
  | pop id since until_ =>
      obtain ⟨opt, rest, hpop, hspec⟩ := popImpl_ok (H := H) h.isHeap hapart
      rw [machine_pop hpop, SortedQueue.answer, SortedQueue.pop]
      cases hspec with
      | none hwanted hheap hperm =>
          rw [h.find_none hwanted]
          exact ⟨rest, rfl, hheap, hperm.trans (h.perm.filter _)⟩
      | @some value _ hwanted hleast halone hheap hperm =>
          rw [h.find_some hapart (mem_of_alone halone) hwanted hleast]
          exact ⟨rest, rfl, hheap, hperm.trans (h.perm.filter _)⟩

/-! ## Runs -/

theorem simulates_sorted :
    (machine H).Simulates SortedQueue.machine Represents (Apart (V := V)) := by
  intro call q s h hapart
  obtain ⟨q', hq', hnext⟩ := h.step (H := H) hapart call
  exact ⟨_, q', _, hq', rfl, hnext⟩

theorem sorted_simulates : SortedQueue.machine.Simulates (machine H)
    (fun s q => Represents q s) (fun s : SortedQueue V => Apart s.entries) := by
  intro call s q h hapart
  obtain ⟨q', hq', hnext⟩ := h.step (H := H) (hapart.perm h.perm.symm) call
  exact ⟨_, _, q', rfl, hq', hnext⟩

def Pushes (c d : Call V) : Prop := ∃ a b, c = .push a ∧ d = .push b

/-- There is one sorted list of entries that are apart, whichever of them came first. -/
theorem push_comm {a b : Metadata V} {s : SortedQueue V}
    (h : Apart ((s.push a).push b).entries) : (s.push a).push b = (s.push b).push a := by
  have hperm : ((s.push a).push b).entries.Perm ((s.push b).push a).entries := by
    refine ((s.push a).push_perm b).trans (((s.push_perm a).cons b).trans ?_)
    refine (List.Perm.swap a b s.entries).trans ?_
    exact ((s.push_perm b).cons a).symm.trans ((s.push b).push_perm a).symm
  have heq : ((s.push a).push b).entries = ((s.push b).push a).entries :=
    hperm.eq_of_pairwise
      (fun c d hc hd hcd hdc => h.eq_of_notAfter hc (hperm.symm.subset hd) hcd hdc)
      ((s.push a).push b).sorted ((s.push b).push a).sorted
  cases hab : (s.push a).push b
  cases hba : (s.push b).push a
  rw [hab, hba] at heq
  cases heq
  rfl

theorem pushes_commute {c d : Call V} (h : Pushes c d) :
    SortedQueue.machine.Commutes (fun s : SortedQueue V => Apart s.entries) c d := by
  obtain ⟨a, b, rfl, rfl⟩ := h
  intro s hs
  have hboth : Apart ((s.push a).push b).entries := ((hs.tail rfl).tail rfl).head
  refine ⟨.pushed, s.push a, s.push b, (s.push a).push b, rfl, rfl, rfl, ?_, ?_⟩
  · rw [push_comm hboth]
    rfl
  · rw [push_comm hboth] at hboth
    exact (hboth.perm ((s.push b).push_perm a)).sublist (List.sublist_cons_self ..)

theorem represents_ofRange {q : MetadataQueue V} (h : IsHeap comparator q) :
    Represents q (SortedQueue.ofRange q) where
  isHeap := h
  perm := (List.perm_insertionSort NotAfter q).symm

/-- Every run of pushes and pops on a built queue in which the queued entries stay apart gives
the answers of the sorted collection, each call does what it is for, and pushes may change
places. -/
theorem heap_refines_sorted {H : Heap V} {q : MetadataQueue V} (hq : Built H q)
    {calls : List (Call V)} (hapart : (machine H).Always Apart calls q) :
    (machine H).trace calls q = SortedQueue.machine.trace calls (SortedQueue.ofRange q) ∧
      (machine H).Calls Does calls q ∧
      ∀ calls', Machine.Reorder Pushes calls calls' →
        (machine H).trace calls' q = (machine H).trace calls q := by
  have hrep := represents_ofRange hq.isHeap
  have htrace := simulates_sorted.trace_eq hrep hapart
  refine ⟨htrace, ?_, fun calls' hreorder => ?_⟩
  · refine hapart.calls (fun call p hp hpa => ⟨does_of_apart hp hpa call, ?_⟩) hrep.isHeap
    intro o p' hstep
    obtain ⟨p'', hp'', hnext⟩ := (represents_ofRange hp).step (H := H) hpa call
    rw [hstep] at hp''
    cases hp''
    exact hnext.isHeap
  · have hsorted : SortedQueue.machine.Always (fun s : SortedQueue V => Apart s.entries) calls
        (SortedQueue.ofRange q) :=
      simulates_sorted.always (fun p s h hp => hp.perm h.perm) hrep hapart
    obtain ⟨halways, hsame⟩ := hreorder.always_trace (fun _ _ h => pushes_commute h) hsorted
    rw [htrace, hsame]
    exact (sorted_simulates.trace_eq hrep halways).symm

/-- Two inputs push at one timestamp, in either order. -/
theorem heap_refines_sorted_two_inputs :
    let calls : List (Call Unit) :=
      [.push ⟨0, 1, 1, 0, ()⟩, .push ⟨1, 1, 1, 0, ()⟩, .pop 1 0 5]
    let calls' : List (Call Unit) :=
      [.push ⟨1, 1, 1, 0, ()⟩, .push ⟨0, 1, 1, 0, ()⟩, .pop 1 0 5]
    (machine (library Unit)).trace calls' [] = (machine (library Unit)).trace calls [] := by
  intro calls calls'
  have hapart : (machine (library Unit)).Always Apart calls [] :=
    .cons (by decide) rfl (.cons (by decide) rfl (.cons (by decide) rfl (by
      show Apart _
      decide)))
  exact (heap_refines_sorted (.inl rfl) hapart).2.2 calls' (.swap ⟨_, _, rfl, rfl⟩ _)

end MetadataQueue
end Queue
end Metamix
