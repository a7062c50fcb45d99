/-
The metadata queue.

All inputs share one vector, kept a heap by timestamp, input id and order.  A query
pops from the front: what comes before the window or belongs to another input is
dropped, and so is what collides with the popped entry.  `popImpl_spec` and
`popAll_spec` say what a query on a heap returns and leaves behind in terms of the
multiset of entries alone, so that no later proof looks at the vector again.
-/
import Metamix.Lib.Heap
import Metamix.Binary.Parser

namespace Metamix
namespace Queue

open Lib Binary

variable {V : Type}

structure Metadata (V : Type) where
  inputId : Nat
  pts : Int
  dts : Int
  order : Int
  val : V
deriving DecidableEq, Repr

/-- `lhs` comes after `rhs`: the standard heap functions keep a greatest element in front,
which is then an earliest one. -/
def comparator (lhs rhs : Metadata V) : Bool :=
  if lhs.pts = rhs.pts then
    if lhs.inputId = rhs.inputId then decide (lhs.order > rhs.order)
    else decide (lhs.inputId > rhs.inputId)
  else decide (lhs.pts > rhs.pts)

abbrev MetadataQueue (V : Type) := List (Metadata V)

abbrev Heap (V : Type) := StdHeap (comparator (V := V))

namespace MetadataQueue

variable (H : Heap V)

/-! ## The operations -/

def ofRange (range : List (Metadata V)) : MetadataQueue V := H.makeHeap range

def push (value : Metadata V) (q : MetadataQueue V) : MetadataQueue V :=
  H.pushHeap (q ++ [value])

/-- `pop_any_impl` on the vector `front :: t`.  `pop_heap` works in place, so there is a
last element. -/
def popAnyImpl (front : Metadata V) (t : MetadataQueue V) : Metadata V × MetadataQueue V :=
  let q := H.popHeap (front :: t)
  (q.getLast?.getD front, q.dropLast)

/-- Drop everything that collides with `value`.  The first argument bounds the rounds. -/
def dropColliding (value : Metadata V) : Nat → MetadataQueue V → Except Fault (MetadataQueue V)
  | 0, q => .ok q
  | _ + 1, [] => .ok []
  | fuel + 1, front :: t =>
      if front.pts = value.pts then
        if front.inputId ≠ value.inputId then dropColliding value fuel (popAnyImpl H front t).2
        else .error .assertion
      else .ok (front :: t)

def popImplLoop (id : Nat) (since until_ : Int) :
    Nat → MetadataQueue V → Except Fault (Option (Metadata V) × MetadataQueue V)
  | 0, q => .ok (none, q)
  | _ + 1, [] => .ok (none, [])
  | fuel + 1, front :: t =>
      if front.pts ≥ until_ then .ok (none, front :: t)
      else
        let (value, q) := popAnyImpl H front t
        if value.pts ≥ since ∧ value.inputId = id then do
          let q ← dropColliding H value q.length q
          if value.pts ≥ since ∧ value.pts < until_ ∧ value.inputId = id then .ok (some value, q)
          else .error .assertion
        else popImplLoop id since until_ fuel q

def popImpl (id : Nat) (since until_ : Int) (q : MetadataQueue V) :
    Except Fault (Option (Metadata V) × MetadataQueue V) :=
  popImplLoop H id since until_ q.length q

def pop (id : Nat) (since until_ : Int) (q : MetadataQueue V) :
    Except Fault (Option (Metadata V) × MetadataQueue V) :=
  popImpl H id since until_ q

def popAllLoop (id : Nat) (since until_ : Int) :
    Nat → MetadataQueue V → Except Fault (List (Metadata V) × MetadataQueue V)
  | 0, q => .ok ([], q)
  | fuel + 1, q => do
      let (opt, q) ← popImpl H id since until_ q
      match opt with
      | none => .ok ([], q)
      | some value => do
          let (out, q) ← popAllLoop id since until_ fuel q
          return (value :: out, q)

/-- What `pop_all` writes to its output iterator; the count it returns is the length. -/
def popAll (id : Nat) (since until_ : Int) (q : MetadataQueue V) :
    Except Fault (List (Metadata V) × MetadataQueue V) :=
  popAllLoop H id since until_ (q.length + 1) q

/-- `remove_if` and `erase`: the kept entries move up in their order, and nothing makes a
heap of them. -/
def dropId (id : Nat) (q : MetadataQueue V) : Nat × MetadataQueue V :=
  let kept := q.filter fun t => !(t.inputId == id)
  (q.length - kept.length, kept)

/-! ## The order -/

theorem comparator_eq_false {a b : Metadata V} :
    comparator a b = false ↔ a.pts < b.pts ∨ (a.pts = b.pts ∧
      (a.inputId < b.inputId ∨ (a.inputId = b.inputId ∧ a.order ≤ b.order))) := by
  unfold comparator
  split
  · split
    · rw [decide_eq_false_iff_not]
      omega
    · rw [decide_eq_false_iff_not]
      omega
  · rw [decide_eq_false_iff_not]
    omega

theorem comparator_strictWeak : StrictWeak (comparator (V := V)) where
  asymm a b h := by
    have hne : ¬comparator a b = false := by simp [h]
    rw [comparator_eq_false] at hne ⊢
    omega
  trans a b c hab hbc := by
    rw [comparator_eq_false] at hab hbc ⊢
    omega

variable {H}

theorem pts_front_le {front : Metadata V} {t : MetadataQueue V}
    (h : IsHeap comparator (front :: t)) : ∀ e ∈ front :: t, front.pts ≤ e.pts := by
  intro e he
  have hle := comparator_eq_false.mp (h.front comparator_strictWeak e he)
  omega

theorem popAnyImpl_spec {front : Metadata V} {t : MetadataQueue V}
    (h : IsHeap comparator (front :: t)) :
    ∃ rest, popAnyImpl H front t = (front, rest) ∧ IsHeap comparator rest ∧ rest.Perm t := by
  obtain ⟨rest, hpop, hheap, hperm⟩ := H.pop_spec front t h
  refine ⟨rest, ?_, hheap, hperm⟩
  simp [popAnyImpl, hpop]

/-! ## One query -/

/-- The entries a query asks for. -/
def wanted (id : Nat) (since until_ : Int) (e : Metadata V) : Bool :=
  decide (since ≤ e.pts ∧ e.pts < until_ ∧ e.inputId = id)

/-- The entries that assert against each other. -/
def collides (value e : Metadata V) : Bool :=
  decide (e.pts = value.pts ∧ e.inputId = value.inputId)

/-- The entries behind `value` in time. -/
def later (value e : Metadata V) : Bool := decide (value.pts < e.pts)

/-- The entries a query leaves in the queue. -/
def notBefore (until_ : Int) (e : Metadata V) : Bool := decide (until_ ≤ e.pts)

theorem filter_of_later {value : Metadata V} {q : MetadataQueue V}
    (h : ∀ e ∈ q, value.pts < e.pts) :
    q.filter (collides value) = [] ∧ q.filter (later value) = q := by
  refine ⟨List.filter_eq_nil_iff.mpr fun e he hc => ?_,
    List.filter_eq_self.mpr fun e he => decide_eq_true (h e he)⟩
  have hlt := h e he
  simp only [collides, decide_eq_true_eq] at hc
  omega

theorem filter_of_notBefore {id : Nat} {since until_ : Int} {q : MetadataQueue V}
    (h : ∀ e ∈ q, until_ ≤ e.pts) :
    q.filter (wanted id since until_) = [] ∧ q.filter (notBefore until_) = q := by
  refine ⟨List.filter_eq_nil_iff.mpr fun e he hw => ?_,
    List.filter_eq_self.mpr fun e he => decide_eq_true (h e he)⟩
  have hle := h e he
  simp only [wanted, decide_eq_true_eq] at hw
  omega

/-- Nothing in the queue is before `value`: what shares its timestamp goes, and the code
asserts that none of it is of the same input. -/
theorem dropColliding_spec {value : Metadata V} {fuel : Nat} {q : MetadataQueue V}
    (hq : IsHeap comparator q) (hle : ∀ e ∈ q, value.pts ≤ e.pts) (hfuel : q.length ≤ fuel) :
    (q.filter (collides value) ≠ [] ∧ dropColliding H value fuel q = .error .assertion) ∨
      (q.filter (collides value) = [] ∧ ∃ rest, dropColliding H value fuel q = .ok rest ∧
        IsHeap comparator rest ∧ rest.Perm (q.filter (later value))) := by
  induction fuel generalizing q with
  | zero =>
      have hnil : q = [] := List.length_eq_zero_iff.mp (by omega)
      subst hnil
      exact .inr ⟨rfl, [], rfl, hq, List.Perm.refl _⟩
  | succ fuel ih =>
      cases q with
      | nil => exact .inr ⟨rfl, [], rfl, hq, List.Perm.refl _⟩
      | cons front t =>
          have hfront := pts_front_le hq
          have hvalue := hle front (List.mem_cons_self ..)
          unfold dropColliding
          by_cases hpts : front.pts = value.pts
          · rw [if_pos hpts]
            by_cases hid : front.inputId = value.inputId
            · rw [if_neg (by simp [hid])]
              refine .inl ⟨?_, rfl⟩
              have hc : collides value front = true := by simp [collides, hpts, hid]
              rw [List.filter_cons_of_pos hc]
              exact List.cons_ne_nil _ _
            · rw [if_pos hid]
              obtain ⟨rest, hpop, hheap, hperm⟩ := popAnyImpl_spec (H := H) hq
              have hc : ¬collides value front = true := by simp [collides, hid]
              have hlt : ¬later value front = true := by simp [later, hpts]
              have hrest : ∀ e ∈ rest, value.pts ≤ e.pts := fun e he =>
                hle e (List.mem_cons_of_mem _ (hperm.subset he))
              have hlen : rest.length ≤ fuel := by
                rw [hperm.length_eq]
                simpa using hfuel
              have hcol := hperm.filter (collides value)
              rw [hpop, List.filter_cons_of_neg hc, List.filter_cons_of_neg hlt]
              rcases ih hheap hrest hlen with ⟨hne, herr⟩ | ⟨hnil, out, hok, hout, hoperm⟩
              · refine .inl ⟨fun h0 => hne ?_, herr⟩
                rw [h0] at hcol
                exact hcol.eq_nil
              · rw [hnil] at hcol
                exact .inr ⟨hcol.symm.eq_nil, out, hok, hout,
                  hoperm.trans (hperm.filter _)⟩
          · rw [if_neg hpts]
            have hall : ∀ e ∈ front :: t, value.pts < e.pts := by
              intro e he
              have := hfront e he
              omega
            obtain ⟨hnil, hkeep⟩ := filter_of_later hall
            exact .inr ⟨hnil, _, rfl, hq, by rw [hkeep]⟩

/-- A query on a heap either finds nothing, or takes an earliest wanted entry `value` with
everything up to its timestamp, or fails on a second entry of the input at that
timestamp. -/
inductive PopImpl (id : Nat) (since until_ : Int) (q : MetadataQueue V) :
    Except Fault (Option (Metadata V) × MetadataQueue V) → Prop where
  | none {rest : MetadataQueue V} (hwanted : q.filter (wanted id since until_) = [])
      (hheap : IsHeap comparator rest) (hperm : rest.Perm (q.filter (notBefore until_))) :
      PopImpl id since until_ q (.ok (none, rest))
  | some {value : Metadata V} {rest : MetadataQueue V}
      (hwanted : wanted id since until_ value = true)
      (hleast : ∀ e ∈ q, wanted id since until_ e = true → value.pts ≤ e.pts)
      (halone : (q.filter (collides value)).Perm [value])
      (hheap : IsHeap comparator rest) (hperm : rest.Perm (q.filter (later value))) :
      PopImpl id since until_ q (.ok (some value, rest))
  | collision {value : Metadata V} (hwanted : wanted id since until_ value = true)
      (htwo : 2 ≤ (q.filter (collides value)).length) :
      PopImpl id since until_ q (.error .assertion)

/-- A front that the query drops does not matter to it. -/
theorem PopImpl.skip {id : Nat} {since until_ : Int} {front : Metadata V}
    {t rest : MetadataQueue V} {r : Except Fault (Option (Metadata V) × MetadataQueue V)}
    (hfront : ∀ e ∈ t, front.pts ≤ e.pts) (hlt : front.pts < until_)
    (hskip : wanted id since until_ front = false) (hperm : rest.Perm t)
    (h : PopImpl id since until_ rest r) : PopImpl id since until_ (front :: t) r := by
  have hw : ¬wanted id since until_ front = true := by simp [hskip]
  cases h with
  | none hwanted hheap hrest =>
      have hnb : ¬notBefore until_ front = true := by simp [notBefore, hlt]
      refine .none ?_ hheap ?_
      · have hp := hperm.filter (wanted id since until_)
        rw [hwanted] at hp
        rw [List.filter_cons_of_neg hw]
        exact hp.symm.eq_nil
      · rw [List.filter_cons_of_neg hnb]
        exact hrest.trans (hperm.filter _)
  | @some value rest' hwanted hleast halone hheap hrest =>
      have hmem : value ∈ t := by
        have : value ∈ rest.filter (collides value) := halone.symm.subset (by simp)
        exact hperm.subset (List.mem_of_mem_filter this)
      have hvalue := hfront value hmem
      have hc : ¬collides value front = true := by
        intro hc
        simp only [collides, wanted, decide_eq_true_eq] at hc hwanted
        refine hw (decide_eq_true ?_)
        omega
      have hl : ¬later value front = true := by simp [later, hvalue]
      refine .some hwanted ?_ ?_ hheap ?_
      · intro e he hew
        rcases List.mem_cons.mp he with rfl | he
        · exact absurd hew hw
        · exact hleast e (hperm.symm.subset he) hew
      · rw [List.filter_cons_of_neg hc]
        exact (hperm.filter _).symm.trans halone
      · rw [List.filter_cons_of_neg hl]
        exact hrest.trans (hperm.filter _)
  | @collision value hwanted htwo =>
      refine .collision hwanted ?_
      have hsub := (List.sublist_cons_self front t).filter (collides value)
      have hlen := (hperm.filter (collides value)).length_eq
      have := hsub.length_le
      omega

/-- A front that the query wants is what it takes, unless another entry collides with it. -/
theorem PopImpl.hit {id : Nat} {since until_ : Int} {front : Metadata V}
    {t rest : MetadataQueue V} {fuel : Nat} (hfront : ∀ e ∈ t, front.pts ≤ e.pts)
    (hhit : wanted id since until_ front = true) (hheap : IsHeap comparator rest)
    (hperm : rest.Perm t) (hfuel : rest.length ≤ fuel) :
    PopImpl id since until_ (front :: t) (dropColliding H front fuel rest >>= fun q =>
      if front.pts ≥ since ∧ front.pts < until_ ∧ front.inputId = id then .ok (Option.some front, q)
      else .error .assertion) := by
  have hself : collides front front = true := by simp [collides]
  have hcol := hperm.filter (collides front)
  have hrest : ∀ e ∈ rest, front.pts ≤ e.pts := fun e he => hfront e (hperm.subset he)
  rcases dropColliding_spec (H := H) hheap hrest hfuel with
    ⟨hne, herr⟩ | ⟨hnil, out, hok, hout, hoperm⟩
  · rw [herr, error_bind]
    refine .collision hhit ?_
    rw [List.filter_cons_of_pos hself, List.length_cons, ← hcol.length_eq]
    have := List.length_pos_iff.mpr hne
    omega
  · rw [hok, ok_bind, if_pos (of_decide_eq_true hhit)]
    refine .some hhit ?_ ?_ hout ?_
    · intro e he _
      rcases List.mem_cons.mp he with rfl | he
      · exact Int.le_refl _
      · exact hfront e he
    · rw [hnil] at hcol
      rw [List.filter_cons_of_pos hself, hcol.symm.eq_nil]
    · have hl : ¬later front front = true := by simp [later]
      rw [List.filter_cons_of_neg hl]
      exact hoperm.trans (hperm.filter _)

theorem popImplLoop_spec {id : Nat} {since until_ : Int} {fuel : Nat} {q : MetadataQueue V}
    (hq : IsHeap comparator q) (hfuel : q.length ≤ fuel) :
    PopImpl id since until_ q (popImplLoop H id since until_ fuel q) := by
  induction fuel generalizing q with
  | zero =>
      have hnil : q = [] := List.length_eq_zero_iff.mp (by omega)
      subst hnil
      exact .none rfl hq (List.Perm.refl _)
  | succ fuel ih =>
      cases q with
      | nil => exact .none rfl hq (List.Perm.refl _)
      | cons front t =>
          have hfront := pts_front_le hq
          have hfront' : ∀ e ∈ t, front.pts ≤ e.pts := fun e he =>
            hfront e (List.mem_cons_of_mem _ he)
          unfold popImplLoop
          by_cases hpast : front.pts ≥ until_
          · rw [if_pos hpast]
            have hall : ∀ e ∈ front :: t, until_ ≤ e.pts := by
              intro e he
              have := hfront e he
              omega
            obtain ⟨hnil, hkeep⟩ := filter_of_notBefore hall
            exact .none hnil hq (by rw [hkeep])
          · obtain ⟨rest, hpop, hheap, hperm⟩ := popAnyImpl_spec (H := H) hq
            rw [if_neg hpast]
            simp only [hpop]
            by_cases hmatch : front.pts ≥ since ∧ front.inputId = id
            · rw [if_pos hmatch]
              exact .hit hfront' (decide_eq_true ⟨hmatch.1, by omega, hmatch.2⟩) hheap hperm
                (Nat.le_refl _)
            · rw [if_neg hmatch]
              have hskip : wanted id since until_ front = false :=
                decide_eq_false fun hw => hmatch ⟨hw.1, hw.2.2⟩
              have hlen : rest.length ≤ fuel := by
                rw [hperm.length_eq]
                simpa using hfuel
              exact (ih hheap hlen).skip hfront' (by omega) hskip hperm

theorem popImpl_spec (id : Nat) (since until_ : Int) {q : MetadataQueue V}
    (hq : IsHeap comparator q) : PopImpl id since until_ q (popImpl H id since until_ q) :=
  popImplLoop_spec hq (Nat.le_refl _)

/-! ## All queries of a window -/

/-- No two wanted entries share a timestamp. -/
def Distinct (id : Nat) (since until_ : Int) (q : MetadataQueue V) : Prop :=
  ((q.filter (wanted id since until_)).map Metadata.pts).Nodup

theorem Distinct.of_perm {id : Nat} {since until_ : Int} {p q : MetadataQueue V}
    (hperm : (p.filter (wanted id since until_)).Perm (q.filter (wanted id since until_)))
    (h : Distinct id since until_ p) : Distinct id since until_ q :=
  (hperm.map _).nodup_iff.mp h

/-- No two entries share timestamp and input. -/
def Apart (q : List (Metadata V)) : Prop := (q.map fun e => (e.pts, e.inputId)).Nodup

instance (q : List (Metadata V)) : Decidable (Apart q) := inferInstanceAs (Decidable (List.Nodup _))

theorem Apart.distinct {q : MetadataQueue V} (h : Apart q) (id : Nat) (since until_ : Int) :
    Distinct id since until_ q := by
  have hpair : (q.filter (wanted id since until_)).Pairwise fun a b =>
      (a.pts, a.inputId) ≠ (b.pts, b.inputId) :=
    (List.pairwise_map.mp h).sublist List.filter_sublist
  refine List.pairwise_map.mpr (hpair.imp_of_mem fun ha hb hne hpts => hne ?_)
  have hid : ∀ e ∈ q.filter (wanted id since until_), e.inputId = id := by
    intro e he
    have hw := (List.mem_filter.mp he).2
    simp only [wanted, decide_eq_true_eq] at hw
    exact hw.2.2
  rw [hpts, hid _ ha, hid _ hb]

/-- A window's worth of queries: the wanted entries in the order of their timestamps, and
what the window has not reached yet. -/
structure PopAll (id : Nat) (since until_ : Int) (q : MetadataQueue V)
    (out : List (Metadata V)) (rest : MetadataQueue V) : Prop where
  out_perm : out.Perm (q.filter (wanted id since until_))
  sorted : out.Pairwise fun a b => a.pts < b.pts
  isHeap : IsHeap comparator rest
  rest_perm : rest.Perm (q.filter (notBefore until_))

/-- An earliest wanted entry, alone at its timestamp, and the wanted entries behind it. -/
theorem wanted_perm_cons {id : Nat} {since until_ : Int} {q : MetadataQueue V}
    {value : Metadata V} (hvalue : wanted id since until_ value = true)
    (hleast : ∀ e ∈ q, wanted id since until_ e = true → value.pts ≤ e.pts)
    (halone : (q.filter (collides value)).Perm [value]) :
    (value :: (q.filter (later value)).filter (wanted id since until_)).Perm
      (q.filter (wanted id since until_)) := by
  simp only [wanted, decide_eq_true_eq] at hvalue
  have hsplit := List.filter_append_perm (later value) (q.filter (wanted id since until_))
  have hlate : (q.filter (later value)).filter (wanted id since until_) =
      (q.filter (wanted id since until_)).filter (later value) := by
    rw [List.filter_filter, List.filter_filter]
    exact List.filter_congr fun e _ => Bool.and_comm _ _
  have hsame : (q.filter (wanted id since until_)).filter (fun e => !later value e) =
      q.filter (collides value) := by
    rw [List.filter_filter]
    refine List.filter_congr fun e he => ?_
    have hle := hleast e he
    rw [Bool.eq_iff_iff, Bool.and_eq_true, Bool.not_eq_true']
    simp only [wanted, later, collides, decide_eq_true_eq, decide_eq_false_iff_not] at hle ⊢
    omega
  rw [hlate]
  refine List.Perm.trans ?_ hsplit
  rw [hsame]
  exact (List.perm_append_comm.trans (halone.append_right _)).symm

/-- An entry that collides with a wanted one is wanted too. -/
theorem filter_collides_sublist {id : Nat} {since until_ : Int} {q : MetadataQueue V}
    {value : Metadata V} (hvalue : wanted id since until_ value = true) :
    (q.filter (collides value)).Sublist (q.filter (wanted id since until_)) := by
  simp only [wanted, decide_eq_true_eq] at hvalue
  have hboth : q.filter (collides value) =
      (q.filter (wanted id since until_)).filter (collides value) := by
    rw [List.filter_filter]
    refine List.filter_congr fun e _ => ?_
    rw [Bool.eq_iff_iff, Bool.and_eq_true]
    simp only [wanted, collides, decide_eq_true_eq]
    omega
  rw [hboth]
  exact List.filter_sublist

theorem not_distinct_of_collision {id : Nat} {since until_ : Int} {q : MetadataQueue V}
    {value : Metadata V} (hvalue : wanted id since until_ value = true)
    (htwo : 2 ≤ (q.filter (collides value)).length) : ¬Distinct id since until_ q := by
  intro hd
  have hnodup := ((filter_collides_sublist hvalue).map Metadata.pts).nodup hd
  have hall : ∀ e ∈ q.filter (collides value), e.pts = value.pts := by
    intro e he
    have hcollides := (List.mem_filter.mp he).2
    simp only [collides, decide_eq_true_eq] at hcollides
    exact hcollides.1
  match hcol : q.filter (collides value) with
  | [] =>
      rw [hcol] at htwo
      simp at htwo
  | [_] =>
      rw [hcol] at htwo
      simp at htwo
  | a :: b :: _ =>
      rw [hcol] at hnodup hall
      have ha := hall a (by simp)
      have hb := hall b (by simp)
      simp [ha, hb] at hnodup

section Earliest

variable {id : Nat} {since until_ : Int} {q rest : MetadataQueue V} {value : Metadata V}

/-- What is wanted is the earliest entry and what is wanted of those that are left. -/
theorem wanted_perm_rest (hvalue : wanted id since until_ value = true)
    (hleast : ∀ e ∈ q, wanted id since until_ e = true → value.pts ≤ e.pts)
    (halone : (q.filter (collides value)).Perm [value])
    (hperm : rest.Perm (q.filter (later value))) :
    (value :: rest.filter (wanted id since until_)).Perm (q.filter (wanted id since until_)) :=
  ((hperm.filter _).cons value).trans (wanted_perm_cons hvalue hleast halone)

theorem later_of_mem_rest (hperm : rest.Perm (q.filter (later value))) :
    ∀ e ∈ rest.filter (wanted id since until_), value.pts < e.pts := by
  intro e he
  have hmem := hperm.subset (List.mem_of_mem_filter he)
  simpa [later] using (List.mem_filter.mp hmem).2

theorem distinct_rest_iff (hvalue : wanted id since until_ value = true)
    (hleast : ∀ e ∈ q, wanted id since until_ e = true → value.pts ≤ e.pts)
    (halone : (q.filter (collides value)).Perm [value])
    (hperm : rest.Perm (q.filter (later value))) :
    Distinct id since until_ q ↔ Distinct id since until_ rest := by
  have hrest := wanted_perm_rest hvalue hleast halone hperm
  rw [Distinct, ← (hrest.map Metadata.pts).nodup_iff, List.map_cons, List.nodup_cons]
  refine and_iff_right fun hin => ?_
  obtain ⟨e, he, hpts⟩ := List.mem_map.mp hin
  have hlater := later_of_mem_rest hperm e he
  omega

theorem PopAll.cons {out : List (Metadata V)} {rest' : MetadataQueue V}
    (hvalue : wanted id since until_ value = true)
    (hleast : ∀ e ∈ q, wanted id since until_ e = true → value.pts ≤ e.pts)
    (halone : (q.filter (collides value)).Perm [value])
    (hperm : rest.Perm (q.filter (later value))) (hall : PopAll id since until_ rest out rest') :
    PopAll id since until_ q (value :: out) rest' where
  out_perm := (hall.out_perm.cons value).trans (wanted_perm_rest hvalue hleast halone hperm)
  sorted := List.pairwise_cons.mpr
    ⟨fun e he => later_of_mem_rest hperm e (hall.out_perm.subset he), hall.sorted⟩
  isHeap := hall.isHeap
  rest_perm := by
    have hsame : (q.filter (later value)).filter (notBefore until_) =
        q.filter (notBefore until_) := by
      simp only [wanted, decide_eq_true_eq] at hvalue
      rw [List.filter_filter]
      refine List.filter_congr fun e _ => ?_
      rw [Bool.eq_iff_iff, Bool.and_eq_true]
      simp only [notBefore, later, decide_eq_true_eq]
      omega
    rw [← hsame]
    exact hall.rest_perm.trans (hperm.filter _)

theorem length_rest_lt (halone : (q.filter (collides value)).Perm [value])
    (hperm : rest.Perm (q.filter (later value))) : rest.length < q.length := by
  have hcollides : value ∈ q.filter (collides value) := halone.symm.subset (by simp)
  rw [hperm.length_eq]
  exact List.length_filter_lt_length_iff_exists.mpr
    ⟨value, List.mem_of_mem_filter hcollides, by simp [later]⟩

end Earliest

theorem popAllLoop_spec {id : Nat} {since until_ : Int} {fuel : Nat} {q : MetadataQueue V}
    (hq : IsHeap comparator q) (hfuel : q.length < fuel) :
    (Distinct id since until_ q ∧ ∃ out rest,
        popAllLoop H id since until_ fuel q = .ok (out, rest) ∧ PopAll id since until_ q out rest) ∨
      (¬Distinct id since until_ q ∧
        popAllLoop H id since until_ fuel q = .error .assertion) := by
  induction fuel generalizing q with
  | zero => omega
  | succ fuel ih =>
      have hspec := popImpl_spec (H := H) id since until_ hq
      unfold popAllLoop
      cases hpop : popImpl H id since until_ q with
      | error f =>
          rw [hpop] at hspec
          cases hspec with
          | collision hwanted htwo => exact .inr ⟨not_distinct_of_collision hwanted htwo, rfl⟩
      | ok r =>
          obtain ⟨opt, rest⟩ := r
          rw [hpop] at hspec
          rw [ok_bind]
          cases hspec with
          | none hwanted hheap hperm =>
              refine .inl ⟨?_, [], rest, rfl, ?_, List.Pairwise.nil, hheap, hperm⟩
              · rw [Distinct, hwanted]
                exact List.nodup_nil
              · rw [hwanted]
          | @some value _ hwanted hleast halone hheap hperm =>
              have hdistinct := distinct_rest_iff hwanted hleast halone hperm
              have hlen := length_rest_lt halone hperm
              rcases ih hheap (by omega) with ⟨hd, out, rest', hok, hall⟩ | ⟨hd, herr⟩
              · refine .inl ⟨hdistinct.mpr hd, value :: out, rest', ?_,
                  hall.cons hwanted hleast halone hperm⟩
                simp only [hok, ok_bind]
                rfl
              · refine .inr ⟨fun h => hd (hdistinct.mp h), ?_⟩
                simp only [herr, error_bind]

/-- A query of a window on a heap takes the wanted entries in the order of their
timestamps, and fails exactly when two of them share one. -/
theorem popAll_spec (id : Nat) (since until_ : Int) {q : MetadataQueue V}
    (hq : IsHeap comparator q) :
    (Distinct id since until_ q ∧ ∃ out rest,
        popAll H id since until_ q = .ok (out, rest) ∧ PopAll id since until_ q out rest) ∨
      (¬Distinct id since until_ q ∧ popAll H id since until_ q = .error .assertion) :=
  popAllLoop_spec hq (Nat.lt_succ_self _)

end MetadataQueue
end Queue
end Metamix
