/-
Runs of the metadata queue.

Three of the four operations keep the vector a heap.  `dropId` compacts it and leaves
it at that: whether it still is a heap depends on where the kept entries stood.
`KeepsHeap` says so by their ranks among the kept ones, which is the exact condition but
one on the layout of the vector.  `Harmless` is what can be said of the entries alone:
those removed are a tail of the vector, or hardly any is left.  A run whose drops are all
harmless is sound in every state, which is `run_sound`.
-/
import Metamix.Queue.MetadataQueue
import Metamix.Lib.BinaryHeap

namespace Metamix
namespace Queue

open Lib Binary

variable {V : Type}

inductive Op (V : Type) where
  | push (value : Metadata V)
  | pop (id : Nat) (since until_ : Int)
  | popAll (id : Nat) (since until_ : Int)
  | dropId (id : Nat)

inductive Output (V : Type) where
  | pushed
  | popped (value : Option (Metadata V))
  | poppedAll (out : List (Metadata V))
  | dropped (count : Nat)

namespace MetadataQueue

variable (H : Heap V)

def apply (op : Op V) (q : MetadataQueue V) : Except Fault (Output V × MetadataQueue V) :=
  match op with
  | .push value => .ok (.pushed, push H value q)
  | .pop id since until_ => do
      let (value, q) ← pop H id since until_ q
      return (.popped value, q)
  | .popAll id since until_ => do
      let (out, q) ← popAll H id since until_ q
      return (.poppedAll out, q)
  | .dropId id => .ok (.dropped (dropId id q).1, (dropId id q).2)

def run : List (Op V) → MetadataQueue V → Except Fault (MetadataQueue V)
  | [], q => .ok q
  | op :: ops, q => do
      let (_, q) ← apply H op q
      run ops q

def Built (q : MetadataQueue V) : Prop := q = [] ∨ ∃ range, q = ofRange H range

/-- The vector is a heap, and its front is least by timestamp, input and order. -/
def Sound (q : MetadataQueue V) : Prop :=
  IsHeap comparator q ∧ ∀ front ∈ q.head?, ∀ e ∈ q, comparator front e = false

theorem sound_of_isHeap {q : MetadataQueue V} (h : IsHeap comparator q) : Sound q := by
  refine ⟨h, fun front hfront => ?_⟩
  cases q with
  | nil => cases hfront
  | cons x q =>
      cases hfront
      exact h.front comparator_strictWeak

variable {H}

theorem Built.isHeap {q : MetadataQueue V} (h : Built H q) : IsHeap comparator q := by
  rcases h with rfl | ⟨range, rfl⟩
  · exact isHeap_nil _
  · exact H.make_isHeap range

/-! ## Dropping an input -/

def keeps (id : Nat) (e : Metadata V) : Bool := !(e.inputId == id)

def rank (id : Nat) (q : MetadataQueue V) (p : Nat) : Nat := (q.take p).countP (keeps id)

/-- Among the entries that are kept, none comes after the one whose rank is the parent of its
own. -/
def KeepsHeap (id : Nat) (q : MetadataQueue V) : Prop :=
  ∀ (p p' : Nat) (a b : Metadata V), q[p]? = some a → q[p']? = some b →
    keeps id a = true → keeps id b = true → 0 < rank id q p' →
    rank id q p = parent (rank id q p') → comparator a b = false

theorem getElem?_filter_iff {α : Type} {f : α → Bool} {q : List α} {r : Nat} {a : α} :
    (q.filter f)[r]? = some a ↔
      ∃ p, q[p]? = some a ∧ f a = true ∧ (q.take p).countP f = r := by
  induction q generalizing r with
  | nil => simp
  | cons x q ih =>
      by_cases hx : f x = true
      · rw [List.filter_cons_of_pos hx]
        cases r with
        | zero =>
            constructor
            · intro h
              cases h
              exact ⟨0, rfl, hx, rfl⟩
            · intro h
              obtain ⟨p, hp, hf, hr⟩ := h
              cases p with
              | zero => exact hp
              | succ p =>
                  rw [List.take_succ_cons, List.countP_cons_of_pos hx] at hr
                  omega
        | succ r =>
            rw [List.getElem?_cons_succ, ih]
            constructor
            · intro h
              obtain ⟨p, hp, hf, hr⟩ := h
              refine ⟨p + 1, hp, hf, ?_⟩
              rw [List.take_succ_cons, List.countP_cons_of_pos hx, hr]
            · intro h
              obtain ⟨p, hp, hf, hr⟩ := h
              cases p with
              | zero => simp at hr
              | succ p =>
                  rw [List.take_succ_cons, List.countP_cons_of_pos hx] at hr
                  exact ⟨p, hp, hf, by omega⟩
      · rw [List.filter_cons_of_neg hx, ih]
        constructor
        · intro h
          obtain ⟨p, hp, hf, hr⟩ := h
          refine ⟨p + 1, hp, hf, ?_⟩
          rw [List.take_succ_cons, List.countP_cons_of_neg hx, hr]
        · intro h
          obtain ⟨p, hp, hf, hr⟩ := h
          cases p with
          | zero =>
              cases hp
              exact absurd hf hx
          | succ p =>
              rw [List.take_succ_cons, List.countP_cons_of_neg hx] at hr
              exact ⟨p, hp, hf, hr⟩

/-- The compacted vector is a heap exactly under that condition on the vector before. -/
theorem isHeap_dropId_iff {id : Nat} {q : MetadataQueue V} :
    IsHeap comparator (dropId id q).2 ↔ KeepsHeap id q := by
  show IsHeap comparator (q.filter (keeps id)) ↔ _
  constructor
  · intro h p p' a b ha hb hka hkb hpos hrank
    refine h (rank id q p') a b hpos ?_ ?_
    · exact getElem?_filter_iff.mpr ⟨p, ha, hka, hrank⟩
    · exact getElem?_filter_iff.mpr ⟨p', hb, hkb, rfl⟩
  · intro h i a b hi ha hb
    obtain ⟨p, hp, hka, hrank⟩ := getElem?_filter_iff.mp ha
    obtain ⟨p', hp', hkb, hrank'⟩ := getElem?_filter_iff.mp hb
    exact h p p' a b hp hp' hka hkb (by rw [rank, hrank']; exact hi)
      (by rw [rank, rank, hrank, hrank'])

/-- What an input may have in the queue for its drop to do no harm: its entries are a tail of
the vector (none of them and nothing but them are tails), or one entry at most belongs to
other inputs, or three at most do and the front is among them. -/
def Harmless (id : Nat) (q : MetadataQueue V) : Prop :=
  (∃ kept removed, q = kept ++ removed ∧ (∀ e ∈ kept, e.inputId ≠ id) ∧
      ∀ e ∈ removed, e.inputId = id) ∨
    q.countP (keeps id) ≤ 1 ∨
    (q.countP (keeps id) ≤ 3 ∧ ∃ front ∈ q.head?, front.inputId ≠ id)

theorem keeps_iff {id : Nat} {e : Metadata V} : keeps id e = true ↔ e.inputId ≠ id := by
  simp [keeps]

/-- A drop moves nothing if the entries it removes stand behind all others. -/
theorem keepsHeap_of_last {id : Nat} (kept removed : MetadataQueue V)
    (h : IsHeap comparator (kept ++ removed)) (hkept : ∀ e ∈ kept, e.inputId ≠ id)
    (hremoved : ∀ e ∈ removed, e.inputId = id) : KeepsHeap id (kept ++ removed) := by
  apply isHeap_dropId_iff.mp
  show IsHeap comparator ((kept ++ removed).filter (keeps id))
  rw [List.filter_append, List.filter_eq_self.mpr fun e he => keeps_iff.mpr (hkept e he),
    List.filter_eq_nil_iff.mpr fun e he hk => keeps_iff.mp hk (hremoved e he), List.append_nil]
  exact h.of_append

theorem isHeap_of_length_le_one {q : MetadataQueue V} (h : q.length ≤ 1) :
    IsHeap comparator q := by
  intro i a b hi _ hb
  have hlt := (List.getElem?_eq_some_iff.mp hb).1
  omega

/-- With three entries at most, all but the front are children of the front. -/
theorem isHeap_of_front {front : Metadata V} {rest : MetadataQueue V} (h : rest.length ≤ 2)
    (hfront : ∀ e ∈ rest, comparator front e = false) : IsHeap comparator (front :: rest) := by
  intro i a b hi ha hb
  have hlt := (List.getElem?_eq_some_iff.mp hb).1
  rw [List.length_cons] at hlt
  have hparent : parent i = 0 := by
    show (i - 1) / 2 = 0
    omega
  rw [hparent] at ha
  cases ha
  cases i with
  | zero => omega
  | succ i => exact hfront b (List.mem_of_getElem? hb)

theorem Harmless.keepsHeap {id : Nat} {q : MetadataQueue V} (h : Harmless id q)
    (hq : IsHeap comparator q) : KeepsHeap id q := by
  rcases h with ⟨kept, removed, rfl, hkept, hremoved⟩ | hone | ⟨hthree, front, hmem, hfront⟩
  · exact keepsHeap_of_last kept removed hq hkept hremoved
  · apply isHeap_dropId_iff.mp
    apply isHeap_of_length_le_one
    show (q.filter (keeps id)).length ≤ 1
    rw [← List.countP_eq_length_filter]
    exact hone
  · apply isHeap_dropId_iff.mp
    cases q with
    | nil => cases hmem
    | cons x q =>
        rw [List.head?_cons, Option.mem_some_iff] at hmem
        rw [← hmem] at hfront
        have hkeep : keeps id x = true := keeps_iff.mpr hfront
        rw [List.countP_cons_of_pos hkeep, List.countP_eq_length_filter] at hthree
        show IsHeap comparator ((x :: q).filter (keeps id))
        rw [List.filter_cons_of_pos hkeep]
        apply isHeap_of_front
        · omega
        · intro e he
          exact hq.front comparator_strictWeak e (List.mem_cons_of_mem _ (List.mem_filter.mp he).1)

/-- What `drop_id` is for, and does on every vector: the entries it takes out are those of
the input, and their number is returned. -/
def DropsExactly (id : Nat) (q : MetadataQueue V) : Prop :=
  (dropId id q).1 = (q.filter fun e => !keeps id e).length ∧
    (∀ e ∈ (dropId id q).2, e.inputId ≠ id) ∧
    ((dropId id q).2 ++ q.filter fun e => !keeps id e).Perm q

theorem dropsExactly (id : Nat) (q : MetadataQueue V) : DropsExactly id q := by
  have hsplit := List.filter_append_perm (keeps id) q
  refine ⟨?_, ?_, hsplit⟩
  · have hlen := hsplit.length_eq
    rw [List.length_append] at hlen
    show q.length - (q.filter (keeps id)).length = _
    omega
  · intro e he
    have hk := (List.mem_filter.mp he).2
    simpa [keeps] using hk

/-! ## Runs -/

theorem popAll_isHeap {id : Nat} {since until_ : Int} {q q' : MetadataQueue V}
    {out : List (Metadata V)} (hq : IsHeap comparator q)
    (h : popAll H id since until_ q = .ok (out, q')) : IsHeap comparator q' := by
  rcases popAll_spec (H := H) id since until_ hq with ⟨_, out', rest, hok, hall⟩ | ⟨_, herr⟩
  · rw [hok] at h
    cases h
    exact hall.isHeap
  · rw [herr] at h
    cases h

theorem pop_isHeap {id : Nat} {since until_ : Int} {q q' : MetadataQueue V}
    {value : Option (Metadata V)} (hq : IsHeap comparator q)
    (h : pop H id since until_ q = .ok (value, q')) : IsHeap comparator q' := by
  have hspec := popImpl_spec (H := H) id since until_ hq
  rw [pop] at h
  rw [h] at hspec
  cases hspec with
  | none _ hheap _ => exact hheap
  | some _ _ _ hheap _ => exact hheap

/-- One call keeps a heap, unless it is a drop of the wrong kind. -/
theorem apply_isHeap {op : Op V} {q q' : MetadataQueue V} {out : Output V}
    (hq : IsHeap comparator q) (hdrop : ∀ id, op = .dropId id → KeepsHeap id q)
    (h : apply H op q = .ok (out, q')) : IsHeap comparator q' := by
  cases op with
  | push value =>
      cases h
      exact H.push_isHeap q value hq
  | pop id since until_ =>
      obtain ⟨r, hpop, hr⟩ := of_bind_eq_ok h
      cases hr
      exact pop_isHeap hq hpop
  | popAll id since until_ =>
      obtain ⟨r, hpop, hr⟩ := of_bind_eq_ok h
      cases hr
      exact popAll_isHeap hq hpop
  | dropId id =>
      cases h
      exact isHeap_dropId_iff.mpr (hdrop id rfl)

/-- `P` holds of the input and of the queue at every drop of the run. -/
def AtDrops (P : Nat → MetadataQueue V → Prop) (H : Heap V) (ops : List (Op V))
    (q : MetadataQueue V) : Prop :=
  ∀ pre id post q', ops = pre ++ .dropId id :: post → run H pre q = .ok q' → P id q'

abbrev SafeDrops (H : Heap V) (ops : List (Op V)) (q : MetadataQueue V) : Prop :=
  AtDrops KeepsHeap H ops q

/-- Every state of the run is sound, and every drop takes out what it should. -/
def SoundRun (H : Heap V) (ops : List (Op V)) (q : MetadataQueue V) : Prop :=
  (∀ pre post q', ops = pre ++ post → run H pre q = .ok q' → Sound q') ∧
    ∀ pre id post q', ops = pre ++ .dropId id :: post → run H pre q = .ok q' →
      DropsExactly id q'

theorem run_cons {op : Op V} {ops : List (Op V)} {q q' : MetadataQueue V}
    (h : run H (op :: ops) q = .ok q') :
    ∃ out q₁, apply H op q = .ok (out, q₁) ∧ run H ops q₁ = .ok q' := by
  obtain ⟨r, happly, hrest⟩ := of_bind_eq_ok h
  exact ⟨r.1, r.2, happly, hrest⟩

theorem run_append {pre post : List (Op V)} {q q₁ : MetadataQueue V}
    (h : run H pre q = .ok q₁) : run H (pre ++ post) q = run H post q₁ := by
  induction pre generalizing q with
  | nil =>
      cases h
      rfl
  | cons op pre ih =>
      obtain ⟨out, q₂, happly, hrest⟩ := run_cons h
      rw [List.cons_append, run, happly, ok_bind]
      exact ih hrest

namespace AtDrops

variable {P : Nat → MetadataQueue V → Prop}

theorem head {op : Op V} {ops : List (Op V)} {q : MetadataQueue V}
    (h : AtDrops P H (op :: ops) q) : ∀ id, op = .dropId id → P id q := by
  intro id hop
  exact h [] id ops q (by rw [hop]; rfl) rfl

theorem tail {op : Op V} {ops : List (Op V)} {q q' : MetadataQueue V} {out : Output V}
    (h : AtDrops P H (op :: ops) q) (happly : apply H op q = .ok (out, q')) :
    AtDrops P H ops q' := by
  intro pre id post q'' hops hrun
  refine h (op :: pre) id post q'' (by rw [hops]; rfl) ?_
  rw [run, happly, ok_bind]
  exact hrun

theorem cons {op : Op V} {ops : List (Op V)} {q : MetadataQueue V}
    (hhead : ∀ id, op = .dropId id → P id q)
    (htail : ∀ out q', apply H op q = .ok (out, q') → AtDrops P H ops q') :
    AtDrops P H (op :: ops) q := by
  intro pre id post q' hops hrun
  cases pre with
  | nil =>
      cases hrun
      exact hhead id (List.cons.inj hops).1
  | cons op' pre =>
      rw [List.cons_append, List.cons.injEq] at hops
      obtain ⟨rfl, hops⟩ := hops
      obtain ⟨out, q₁, happly, hrest⟩ := run_cons hrun
      exact htail out q₁ happly pre id post q' hops hrest

theorem of_no_drop {ops : List (Op V)} {q : MetadataQueue V}
    (h : ∀ id, Op.dropId id ∉ ops) : AtDrops P H ops q := by
  intro pre id post q' hops _
  exact absurd (by rw [hops]; simp) (h id)

theorem init {pre post : List (Op V)} {q : MetadataQueue V}
    (h : AtDrops P H (pre ++ post) q) : AtDrops P H pre q := by
  intro pre' id post' q' hops hrun
  refine h pre' id (post' ++ post) q' ?_ hrun
  rw [hops]
  simp

end AtDrops

theorem run_isHeap {ops : List (Op V)} {q q' : MetadataQueue V} (hq : IsHeap comparator q)
    (hsafe : SafeDrops H ops q) (h : run H ops q = .ok q') : IsHeap comparator q' := by
  induction ops generalizing q with
  | nil =>
      cases h
      exact hq
  | cons op ops ih =>
      obtain ⟨out, q₁, happly, hrest⟩ := run_cons h
      exact ih (apply_isHeap hq hsafe.head happly) (hsafe.tail happly) hrest

/-- Harmless drops are safe ones: up to each of them the vector is a heap. -/
theorem safeDrops_of_harmless {ops : List (Op V)} {q : MetadataQueue V}
    (hq : IsHeap comparator q) (h : AtDrops Harmless H ops q) : SafeDrops H ops q := by
  induction ops generalizing q with
  | nil => exact .of_no_drop (by simp)
  | cons op ops ih =>
      have hhead : ∀ id, op = .dropId id → KeepsHeap id q :=
        fun id hop => (h.head id hop).keepsHeap hq
      refine .cons hhead fun out q₁ happly => ?_
      exact ih (apply_isHeap hq hhead happly) (h.tail happly)

/-- A run from a built queue whose drops are all harmless is sound throughout. -/
theorem run_sound {ops : List (Op V)} {q : MetadataQueue V} (hq : Built H q)
    (hdrops : AtDrops Harmless H ops q) : SoundRun H ops q := by
  refine ⟨?_, fun _ id _ q' _ _ => dropsExactly id q'⟩
  intro pre post q' hops hrun
  have hsafe := safeDrops_of_harmless hq.isHeap hdrops
  rw [hops] at hsafe
  exact sound_of_isHeap (run_isHeap hq.isHeap hsafe.init hrun)

/-- The heap functions of the common library. -/
abbrev library (V : Type) : Heap V := BinaryHeap.stdHeap comparator comparator_strictWeak

/-- A queue made of five entries of three inputs.  Input 2 has the last two of the vector
and is dropped, the front is popped, an entry comes in late, and input 1 is dropped from
between the two entries of input 0. -/
theorem run_sound_three_inputs :
    SoundRun (library Unit) [.dropId 2, .pop 0 0 1, .push ⟨0, 1, 1, 0, ()⟩, .dropId 1,
        .popAll 0 0 3]
      (ofRange (library Unit) [⟨0, 0, 0, 0, ()⟩, ⟨1, 2, 2, 0, ()⟩, ⟨0, 3, 3, 0, ()⟩,
        ⟨2, 4, 4, 0, ()⟩, ⟨2, 5, 5, 1, ()⟩]) := by
  refine run_sound (.inr ⟨_, rfl⟩) ?_
  refine .cons (fun id h => ?_) fun _ q₁ h₁ => ?_
  · cases h
    exact .inl ⟨[⟨0, 0, 0, 0, ()⟩, ⟨1, 2, 2, 0, ()⟩, ⟨0, 3, 3, 0, ()⟩],
      [⟨2, 4, 4, 0, ()⟩, ⟨2, 5, 5, 1, ()⟩], by decide +kernel, by decide, by decide⟩
  cases h₁
  refine .cons (fun id h => by cases h) fun _ q₂ h₂ => ?_
  cases h₂
  refine .cons (fun id h => by cases h) fun _ q₃ h₃ => ?_
  cases h₃
  refine .cons (fun id h => ?_) fun _ q₄ _ => .of_no_drop (by simp)
  cases h
  exact .inr (.inr ⟨by decide +kernel, ⟨0, 1, 1, 0, ()⟩, by decide +kernel, by decide⟩)

/-- Input 1 has the earliest entry and input 0 the two later ones.  Dropping input 1 moves
the last of the three to the front. -/
theorem run_drop_unsound :
    ∃ q, run (library Unit) [.push ⟨1, 0, 0, 0, ()⟩, .push ⟨0, 10, 10, 0, ()⟩,
        .push ⟨0, 1, 1, 0, ()⟩, .dropId 1] [] = .ok q ∧ ¬IsHeap comparator q := by
  refine ⟨_, rfl, ?_⟩
  intro h
  have := h 1 ⟨0, 10, 10, 0, ()⟩ ⟨0, 1, 1, 0, ()⟩ (by decide) rfl rfl
  exact absurd this (by decide)

end MetadataQueue
end Queue
end Metamix
