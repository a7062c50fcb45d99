/-
Threads that share a state.

A thread has a state of its own and does one atomic action after another on that and on the
shared state.  `interleave` is the machine whose calls are the actions of all threads, in any
order.  `history` is the rule for what holds of every interleaving: what is said of the shared
state is kept by every action, and what is said of a thread is kept by its own actions and by
those of the others.
-/
import Metamix.Lib.Machine
import Mathlib.Logic.Function.Basic

namespace Metamix
namespace Lib

/-- One atomic action: an answer and both states, or the end of the program. -/
abbrev Thread (α ε ο κ σ : Type) := α → κ → σ → Except ε (ο × κ × σ)

namespace Threads

variable {ι : Type} {α κ : ι → Type} {ε ο σ : Type}

/-- The threads' own states and the shared one. -/
structure State (κ : ι → Type) (σ : Type) where
  own : (i : ι) → κ i
  shared : σ

abbrev Action (α : ι → Type) := Σ i, α i

variable [DecidableEq ι]

def interleave (t : (i : ι) → Thread (α i) ε ο (κ i) σ) :
    Machine (Action α) ε ο (State κ σ) := fun a s =>
  match t a.1 a.2 (s.own a.1) s.shared with
  | .error e => .error e
  | .ok (o, k, shared) => .ok (o, ⟨Function.update s.own a.1 k, shared⟩)

variable {t : (i : ι) → Thread (α i) ε ο (κ i) σ}

theorem interleave_eq_ok {a : Action α} {s s' : State κ σ} {o : ο}
    (h : interleave t a s = .ok (o, s')) :
    ∃ k, t a.1 a.2 (s.own a.1) s.shared = .ok (o, k, s'.shared) ∧
      s'.own = Function.update s.own a.1 k := by
  unfold interleave at h
  cases ht : t a.1 a.2 (s.own a.1) s.shared with
  | error e =>
      rw [ht] at h
      cases h
  | ok r =>
      rw [ht] at h
      cases h
      exact ⟨r.2.1, rfl, rfl⟩

theorem own_of_ne {a : Action α} {s s' : State κ σ} {o : ο}
    (h : interleave t a s = .ok (o, s')) {i : ι} (hi : i ≠ a.1) : s'.own i = s.own i := by
  obtain ⟨k, -, hown⟩ := interleave_eq_ok h
  rw [hown, Function.update_of_ne hi]

abbrev Log (α : ι → Type) (ο : Type) := List (Action α × ο)

/-- What every action keeps holds behind every interleaving.  `J` is about the shared state, `P`
about one thread. -/
theorem history {J : Log α ο → σ → Prop} {P : (i : ι) → Log α ο → κ i → σ → Prop}
    (hown : ∀ i a log k s o k' s', J log s → P i log k s → t i a k s = .ok (o, k', s') →
      J (log ++ [(⟨i, a⟩, o)]) s' ∧ P i (log ++ [(⟨i, a⟩, o)]) k' s')
    (hother : ∀ i j a log k s o kj kj' s', i ≠ j → J log s → P i log k s → P j log kj s →
      t j a kj s = .ok (o, kj', s') → P i (log ++ [(⟨j, a⟩, o)]) k s')
    {before entries : Log α ο} {acts : List (Action α)} {s s' : State κ σ}
    (hJ : J before s.shared) (hP : ∀ i, P i before (s.own i) s.shared)
    (hlog : (interleave t).log acts s = .ok (entries, s')) :
    J (before ++ entries) s'.shared ∧ ∀ i, P i (before ++ entries) (s'.own i) s'.shared := by
  refine Machine.log_history (I := fun log s => J log s.shared ∧ ∀ i, P i log (s.own i) s.shared)
    ?_ ⟨hJ, hP⟩ hlog
  intro log a s o s' hinv ha
  obtain ⟨j, a⟩ := a
  obtain ⟨k, hstep, hupdate⟩ := interleave_eq_ok ha
  obtain ⟨hJ', hP'⟩ := hown j a log _ _ o k _ hinv.1 (hinv.2 j) hstep
  refine ⟨hJ', fun i => ?_⟩
  rw [hupdate]
  by_cases hi : i = j
  · subst hi
    rw [Function.update_self]
    exact hP'
  · rw [Function.update_of_ne hi]
    exact hother i j a log _ _ o _ _ _ hi hinv.1 (hinv.2 i) (hinv.2 j) hstep

end Threads
end Lib
end Metamix
