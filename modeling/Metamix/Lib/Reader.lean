/-
Readers over a list of tokens.

A reader takes tokens off the front of its input and either returns a value with
the tokens it left, or fails.  Four properties of readers are kept by sequence and
counted repetition.  `Reads p w a` says that `p` takes exactly `w` and returns `a`,
whatever follows `w`: round trips are built from it.  `FailsWith E p` says that all
failures of `p` are of one kind.  `LeavesSuffix p` says that `p` only ever moves
forward, which is what ends a loop of readers.  `Returns p Q` says what `p` returns and
how many tokens it takes for that: it tells what kind of value was accepted.
-/
import Mathlib.Algebra.Ring.Nat
import Mathlib.Data.List.Basic

namespace Metamix
namespace Lib

/-- A computation that takes tokens off the front of its input. -/
abbrev Reader (β ε : Type) := StateT (List β) (Except ε)

namespace Reader

variable {β ε α γ : Type}

/-- `p` takes exactly `w` off any input that starts with it, and returns `a`. -/
def Reads (p : Reader β ε α) (w : List β) (a : α) : Prop :=
  ∀ t, p.run (w ++ t) = .ok (a, t)

theorem Reads.run {p : Reader β ε α} {w : List β} {a : α} (h : Reads p w a)
    (t : List β) : p.run (w ++ t) = .ok (a, t) := h t

theorem Reads.pure (a : α) : Reads (pure a : Reader β ε α) [] a := fun _ => rfl

theorem run_bind_of_ok {p : Reader β ε α} {f : α → Reader β ε γ}
    {s t : List β} {a : α} (h : p.run s = .ok (a, t)) :
    (p >>= f).run s = (f a).run t := by
  rw [StateT.run_bind, h]
  rfl

theorem run_bind_of_error {p : Reader β ε α} {f : α → Reader β ε γ}
    {s : List β} {e : ε} (h : p.run s = .error e) :
    (p >>= f).run s = .error e := by
  rw [StateT.run_bind, h]
  rfl

/-- A sequence that succeeds is a success of its two halves. -/
theorem run_bind_eq_ok {p : Reader β ε α} {f : α → Reader β ε γ}
    {s u : List β} {c : γ} (h : (p >>= f).run s = .ok (c, u)) :
    ∃ a t, p.run s = .ok (a, t) ∧ (f a).run t = .ok (c, u) := by
  cases hp : p.run s with
  | error e =>
      rw [run_bind_of_error hp] at h
      cases h
  | ok r =>
      obtain ⟨a, t⟩ := r
      rw [run_bind_of_ok hp] at h
      exact ⟨a, t, rfl, h⟩

/-- In sequence the second reader takes up where the first one stopped. -/
theorem Reads.bind {p : Reader β ε α} {f : α → Reader β ε γ} {v w : List β}
    {a : α} {c : γ} (hp : Reads p v a) (hf : Reads (f a) w c) :
    Reads (p >>= f) (v ++ w) c := by
  intro t
  rw [List.append_assoc, run_bind_of_ok (hp (w ++ t))]
  exact hf t

theorem Reads.map {p : Reader β ε α} {w : List β} {a : α} (g : α → γ)
    (hp : Reads p w a) : Reads (g <$> p) w (g a) := by
  intro t
  rw [StateT.run_map, hp t]
  rfl

/-- Run a reader `n` times and collect what it returns, in order. -/
def times (p : Reader β ε α) : Nat → Reader β ε (List α)
  | 0 => return []
  | n + 1 => do
      let a ← p
      let as ← times p n
      return a :: as

/-- Repetition reads the concatenation of what each round reads. -/
theorem Reads.times {p : Reader β ε α} (write : α → List β) :
    ∀ as : List α, (∀ a ∈ as, Reads p (write a) a) →
      Reads (Reader.times p as.length) (as.flatMap write) as := by
  intro as
  induction as with
  | nil => exact fun _ => Reads.pure []
  | cons a as ih =>
      intro h
      have hhead : Reads p (write a) a := h a (List.mem_cons_self ..)
      have htail := ih fun b hb => h b (List.mem_cons_of_mem _ hb)
      rw [List.flatMap_cons]
      refine hhead.bind ?_
      have hpure : Reads (Pure.pure (a :: as) : Reader β ε (List α)) [] (a :: as) :=
        Reads.pure (a :: as)
      have hbind := htail.bind (f := fun as => return a :: as) hpure
      rwa [List.append_nil] at hbind

theorem Reads.peek {p : Reader β ε α} {f : α → Reader β ε γ} {w : List β} {a : α} {c : γ}
    (hp : ∀ t, p.run (w ++ t) = .ok (a, w ++ t)) (hf : Reads (f a) w c) :
    Reads (p >>= f) w c := by
  intro t
  rw [run_bind_of_ok (hp t)]
  exact hf t

/-- The last reader of a sequence, whose value is put into the result. -/
theorem Reads.last {p : Reader β ε α} {w : List β} {a : α} (g : α → γ) (hp : Reads p w a) :
    Reads (p >>= fun a => Pure.pure (g a)) w (g a) := by
  intro t
  rw [run_bind_of_ok (hp t)]
  rfl

/-! ## Failures -/

/-- From this input the reader does not fail, or fails as `E` says. -/
def FailsFrom (E : ε → Prop) (p : Reader β ε α) (s : List β) : Prop :=
  ∀ e, p.run s = .error e → E e

/-- Every failure of the reader is as `E` says. -/
def FailsWith (E : ε → Prop) (p : Reader β ε α) : Prop := ∀ s, FailsFrom E p s

theorem failsFrom_of_ok {E : ε → Prop} {p : Reader β ε α} {s t : List β} {a : α}
    (h : p.run s = .ok (a, t)) : FailsFrom E p s := by
  intro e he
  rw [h] at he
  cases he

theorem failsFrom_error_iff {E : ε → Prop} {p : Reader β ε α} {s : List β} {e : ε}
    (h : p.run s = .error e) : FailsFrom E p s ↔ E e := by
  constructor
  · intro hfail
    exact hfail e h
  · intro hE e' he'
    rw [h] at he'
    cases he'
    exact hE

theorem failsFrom_bind_of_ok {E : ε → Prop} {p : Reader β ε α} {f : α → Reader β ε γ}
    {s t : List β} {a : α} (h : p.run s = .ok (a, t)) :
    FailsFrom E (p >>= f) s ↔ FailsFrom E (f a) t := by
  simp only [FailsFrom, run_bind_of_ok h]

theorem failsFrom_bind_iff {E : ε → Prop} {p : Reader β ε α} {f : α → Reader β ε γ}
    {s : List β} : FailsFrom E (p >>= f) s ↔
      FailsFrom E p s ∧ ∀ a t, p.run s = .ok (a, t) → FailsFrom E (f a) t := by
  cases hp : p.run s with
  | error e =>
      rw [failsFrom_error_iff hp, failsFrom_error_iff (run_bind_of_error hp)]
      simp
  | ok r =>
      obtain ⟨a, t⟩ := r
      rw [failsFrom_bind_of_ok hp]
      constructor
      · intro h
        refine ⟨failsFrom_of_ok hp, fun a' t' heq => ?_⟩
        cases heq
        exact h
      · intro h
        exact h.2 a t rfl

/-- A reader that fails well does not matter to how the sequence fails. -/
theorem FailsWith.bind_iff {E : ε → Prop} {p : Reader β ε α} (hp : FailsWith E p)
    {f : α → Reader β ε γ} {s : List β} : FailsFrom E (p >>= f) s ↔
      ∀ a t, p.run s = .ok (a, t) → FailsFrom E (f a) t := by
  rw [failsFrom_bind_iff, and_iff_right (hp s)]

theorem FailsWith.pure {E : ε → Prop} (a : α) : FailsWith E (pure a : Reader β ε α) :=
  fun _ => failsFrom_of_ok rfl

theorem FailsWith.bind {E : ε → Prop} {p : Reader β ε α} {f : α → Reader β ε γ}
    (hp : FailsWith E p) (hf : ∀ a, FailsWith E (f a)) : FailsWith E (p >>= f) :=
  fun _ => hp.bind_iff.mpr fun a t _ => hf a t

theorem FailsWith.map {E : ε → Prop} {p : Reader β ε α} (g : α → γ) (hp : FailsWith E p) :
    FailsWith E (g <$> p) := by
  rw [map_eq_pure_bind]
  exact hp.bind fun a => .pure (g a)

theorem FailsWith.times {E : ε → Prop} {p : Reader β ε α} (hp : FailsWith E p) (n : Nat) :
    FailsWith E (times p n) := by
  induction n with
  | zero => exact .pure []
  | succ n ih => exact hp.bind fun a => ih.bind fun as => .pure (a :: as)

/-! ## Progress -/

/-- What the reader leaves is the end of what it was given. -/
def LeavesSuffix (p : Reader β ε α) : Prop := ∀ s a t, p.run s = .ok (a, t) → t <:+ s

theorem LeavesSuffix.length_le {p : Reader β ε α} (hp : LeavesSuffix p) {s t : List β} {a : α}
    (h : p.run s = .ok (a, t)) : t.length ≤ s.length :=
  (hp s a t h).length_le

theorem LeavesSuffix.pure (a : α) : LeavesSuffix (pure a : Reader β ε α) := by
  intro s b t h
  cases h
  exact List.suffix_rfl

theorem LeavesSuffix.bind {p : Reader β ε α} {f : α → Reader β ε γ} (hp : LeavesSuffix p)
    (hf : ∀ a, LeavesSuffix (f a)) : LeavesSuffix (p >>= f) := by
  intro s c u h
  obtain ⟨a, t, hfirst, hrest⟩ := run_bind_eq_ok h
  exact (hf a t c u hrest).trans (hp s a t hfirst)

theorem LeavesSuffix.map {p : Reader β ε α} (g : α → γ) (hp : LeavesSuffix p) :
    LeavesSuffix (g <$> p) := by
  rw [map_eq_pure_bind]
  exact hp.bind fun a => .pure (g a)

theorem LeavesSuffix.times {p : Reader β ε α} (hp : LeavesSuffix p) (n : Nat) :
    LeavesSuffix (times p n) := by
  induction n with
  | zero => exact .pure []
  | succ n ih => exact hp.bind fun a => ih.bind fun as => .pure (a :: as)

/-! ## Results -/

/-- What the reader returns and the number of tokens it takes are as `Q` says. -/
def Returns (p : Reader β ε α) (Q : α → Nat → Prop) : Prop :=
  ∀ s a t, p.run s = .ok (a, t) → ∃ n, s.length = n + t.length ∧ Q a n

theorem Returns.mono {p : Reader β ε α} {Q R : α → Nat → Prop} (hp : Returns p Q)
    (h : ∀ a n, Q a n → R a n) : Returns p R := by
  intro s a t hrun
  obtain ⟨n, hlen, hQ⟩ := hp s a t hrun
  exact ⟨n, hlen, h a n hQ⟩

theorem Returns.pure {Q : α → Nat → Prop} {a : α} (h : Q a 0) :
    Returns (pure a : Reader β ε α) Q := by
  intro s b t hrun
  cases hrun
  exact ⟨0, (Nat.zero_add _).symm, h⟩

/-- What the second reader takes comes on top of what the first one took. -/
theorem Returns.bind {p : Reader β ε α} {f : α → Reader β ε γ} {Q : α → Nat → Prop}
    {R : γ → Nat → Prop} (hp : Returns p Q)
    (hf : ∀ a n, Q a n → Returns (f a) fun c m => R c (n + m)) : Returns (p >>= f) R := by
  intro s c u hrun
  obtain ⟨a, t, hfirst, hrest⟩ := run_bind_eq_ok hrun
  obtain ⟨n, hn, hQ⟩ := hp s a t hfirst
  obtain ⟨m, hm, hR⟩ := hf a n hQ t c u hrest
  exact ⟨n + m, by omega, hR⟩

theorem Returns.map {p : Reader β ε α} {g : α → γ} {Q : α → Nat → Prop} {R : γ → Nat → Prop}
    (hp : Returns p Q) (h : ∀ a n, Q a n → R (g a) n) : Returns (g <$> p) R := by
  rw [map_eq_pure_bind]
  exact hp.bind fun a n hQ => .pure (h a n hQ)

theorem Returns.times {p : Reader β ε α} {size : α → Nat} {P : α → Prop}
    (hp : Returns p fun a n => n = size a ∧ P a) (k : Nat) :
    Returns (times p k) fun as n => as.length = k ∧ n = (as.map size).sum ∧ ∀ a ∈ as, P a := by
  induction k with
  | zero => exact .pure ⟨rfl, rfl, fun a ha => absurd ha List.not_mem_nil⟩
  | succ k ih =>
      refine hp.bind fun a n ha => ih.bind fun as m has => .pure ?_
      obtain ⟨rfl, ha⟩ := ha
      obtain ⟨hcount, rfl, has⟩ := has
      exact ⟨congrArg Nat.succ hcount, by rw [List.map_cons, List.sum_cons, Nat.add_zero],
        List.forall_mem_cons.mpr ⟨ha, has⟩⟩

end Reader
end Lib
end Metamix
