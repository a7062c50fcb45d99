/-
Computations that throw, and what runs at the end of a scope.

A computation acts on objects of type `σ`, makes calls to a library and returns or throws.
`scopeExit` runs a destructor however its scope is left.  The library has a state of its own, which
a call changes or which does not allow the call: `Triple` says that all calls of a computation are
allowed and what holds behind them, if it returns and if it throws.  There is a rule for each way
to put computations together.
-/

namespace Metamix
namespace Lib

/-- A computation that acts on `σ`, makes calls `E` and returns an `α` or throws an `ε`. -/
def Prog (σ E ε α : Type) : Type := σ → Except ε α × σ × List E

namespace Prog

variable {σ E ε ε' α β τ : Type}

def bind (m : Prog σ E ε α) (f : α → Prog σ E ε β) : Prog σ E ε β := fun s =>
  match m s with
  | (.error e, s', calls) => (.error e, s', calls)
  | (.ok a, s', calls) =>
      let (r, s'', calls') := f a s'
      (r, s'', calls ++ calls')

instance : Monad (Prog σ E ε) where
  pure a := fun s => (.ok a, s, [])
  bind := bind

def throw (e : ε) : Prog σ E ε α := fun s => (.error e, s, [])

def call (c : E) : Prog σ E ε Unit := fun s => (.ok (), s, [c])

def modify (f : σ → σ) : Prog σ E ε Unit := fun s => (.ok (), f s, [])

/-- The outcome of a pure computation. -/
def lift : Except ε α → Prog σ E ε α
  | .ok a => pure a
  | .error e => throw e

/-- Goes on unless `c`. -/
def check (c : Prop) [Decidable c] (e : ε) : Prog σ E ε Unit := if c then throw e else pure ()

/-- A call that is made if the object says so. -/
def callIf (c : σ → Bool) (call : E) : Prog σ E ε Unit := fun s =>
  (.ok (), s, if c s then [call] else [])

/-- A scope with a destructor, which does not throw. -/
def scopeExit (m : Prog σ E ε α) (exit : Prog σ E Empty Unit) : Prog σ E ε α := fun s =>
  let (r, s', calls) := m s
  let (_, s'', calls') := exit s'
  (r, s'', calls ++ calls')

/-- Drops the outcome. -/
def attempt (m : Prog σ E ε α) : Prog σ E ε' Unit := fun s => (.ok (), (m s).2)

def forEach (f : α → Prog σ E ε Unit) : List α → Prog σ E ε Unit
  | [] => pure ()
  | a :: as => do
      f a
      forEach f as

/-! ## What a computation does -/

/-- From `P` the library allows all calls of `m`.  Behind them `Q` holds of what is returned, or `R`
of what is thrown. -/
def Triple (allow : τ → E → Option τ) (P : σ → τ → Prop) (m : Prog σ E ε α)
    (Q : α → σ → τ → Prop) (R : ε → σ → τ → Prop) : Prop :=
  ∀ s t, P s t → ∃ t', (m s).2.2.foldlM allow t = some t' ∧
    match (m s).1 with
    | .ok a => Q a (m s).2.1 t'
    | .error e => R e (m s).2.1 t'

section Rules

variable {allow : τ → E → Option τ} {P P' : σ → τ → Prop} {m : Prog σ E ε α}
  {Q Q' : α → σ → τ → Prop} {R R' : ε → σ → τ → Prop}

theorem Triple.mono (h : Triple allow P' m Q' R') (hP : ∀ s t, P s t → P' s t)
    (hQ : ∀ a s t, Q' a s t → Q a s t) (hR : ∀ e s t, R' e s t → R e s t) :
    Triple allow P m Q R := by
  intro s t hst
  obtain ⟨t', hcalls, hpost⟩ := h s t (hP s t hst)
  refine ⟨t', hcalls, ?_⟩
  cases hr : (m s).1 with
  | ok a =>
      rw [hr] at hpost
      exact hQ _ _ _ hpost
  | error e =>
      rw [hr] at hpost
      exact hR _ _ _ hpost

theorem Triple.pure {a : α} (h : ∀ s t, P s t → Q a s t) :
    Triple allow P (Pure.pure a : Prog σ E ε α) Q R :=
  fun s t hst => ⟨t, rfl, h s t hst⟩

theorem Triple.throw {e : ε} (h : ∀ s t, P s t → R e s t) :
    Triple allow P (Prog.throw e : Prog σ E ε α) Q R :=
  fun s t hst => ⟨t, rfl, h s t hst⟩

theorem Triple.modify {f : σ → σ} {Q : Unit → σ → τ → Prop} (h : ∀ s t, P s t → Q () (f s) t) :
    Triple allow P (Prog.modify f) Q R :=
  fun s t hst => ⟨t, rfl, h s t hst⟩

theorem Triple.lift {r : Except ε α} (hok : ∀ a s t, r = .ok a → P s t → Q a s t)
    (herror : ∀ e s t, r = .error e → P s t → R e s t) :
    Triple allow P (Prog.lift r : Prog σ E ε α) Q R := by
  cases r with
  | ok a => exact Triple.pure fun s t hst => hok a s t rfl hst
  | error e => exact Triple.throw fun s t hst => herror e s t rfl hst

theorem Triple.check {c : Prop} [Decidable c] {e : ε} {Q : Unit → σ → τ → Prop}
    (hfail : ∀ s t, c → P s t → R e s t) (hpass : ∀ s t, ¬c → P s t → Q () s t) :
    Triple allow P (Prog.check c e) Q R := by
  unfold Prog.check
  by_cases hc : c
  · rw [if_pos hc]
    exact Triple.throw fun s t hst => hfail s t hc hst
  · rw [if_neg hc]
    exact Triple.pure fun s t hst => hpass s t hc hst

theorem foldlM_singleton (t : τ) (c : E) : [c].foldlM allow t = allow t c := by
  rw [List.foldlM_cons]
  cases allow t c <;> rfl

theorem Triple.call {c : E} {Q : Unit → σ → τ → Prop}
    (h : ∀ s t, P s t → ∃ t', allow t c = some t' ∧ Q () s t') :
    Triple allow P (Prog.call c) Q R := by
  intro s t hst
  obtain ⟨t', hcall, hpost⟩ := h s t hst
  exact ⟨t', (foldlM_singleton t c).trans hcall, hpost⟩

theorem Triple.callIf {c : σ → Bool} {call : E} {Q : Unit → σ → τ → Prop}
    (hcall : ∀ s t, c s = true → P s t → ∃ t', allow t call = some t' ∧ Q () s t')
    (hnone : ∀ s t, c s = false → P s t → Q () s t) :
    Triple allow P (Prog.callIf c call) Q R := by
  intro s t hst
  show ∃ t', (if c s then [call] else []).foldlM allow t = some t' ∧ Q () s t'
  cases hc : c s with
  | true =>
      obtain ⟨t', hallowed, hpost⟩ := hcall s t hc hst
      exact ⟨t', (foldlM_singleton t call).trans hallowed, hpost⟩
  | false => exact ⟨t, rfl, hnone s t hc hst⟩

theorem foldlM_append_eq_some {calls calls' : List E} {t t' t'' : τ}
    (h : calls.foldlM allow t = some t') (h' : calls'.foldlM allow t' = some t'') :
    (calls ++ calls').foldlM allow t = some t'' := by
  rw [List.foldlM_append, h]
  exact h'

theorem Triple.bind {f : α → Prog σ E ε β} {S : α → σ → τ → Prop} {Q : β → σ → τ → Prop}
    (hm : Triple allow P m S R) (hf : ∀ a, Triple allow (S a) (f a) Q R) :
    Triple allow P (m >>= f) Q R := by
  intro s t hst
  obtain ⟨t', hcalls, hpost⟩ := hm s t hst
  show ∃ t'', (Prog.bind m f s).2.2.foldlM allow t = some t'' ∧
    match (Prog.bind m f s).1 with
    | .ok b => Q b (Prog.bind m f s).2.1 t''
    | .error e => R e (Prog.bind m f s).2.1 t''
  unfold Prog.bind
  cases hresult : m s with
  | mk r rest =>
      rw [hresult] at hcalls hpost
      cases r with
      | error e => exact ⟨t', hcalls, hpost⟩
      | ok a =>
          obtain ⟨t'', hcalls', hpost'⟩ := hf a _ _ hpost
          exact ⟨t'', foldlM_append_eq_some hcalls hcalls', hpost'⟩

theorem Triple.scopeExit {exit : Prog σ E Empty Unit} (hm : Triple allow P m Q' R')
    (hok : ∀ a, Triple allow (Q' a) exit (fun _ => Q a) fun _ _ _ => True)
    (herror : ∀ e, Triple allow (R' e) exit (fun _ => R e) fun _ _ _ => True) :
    Triple allow P (m.scopeExit exit) Q R := by
  intro s t hst
  obtain ⟨t', hcalls, hpost⟩ := hm s t hst
  have hexit : ∃ t'', (exit (m s).2.1).2.2.foldlM allow t' = some t'' ∧
      match (m s).1 with
      | .ok a => Q a (exit (m s).2.1).2.1 t''
      | .error e => R e (exit (m s).2.1).2.1 t'' := by
    cases hr : (m s).1 with
    | ok a =>
        rw [hr] at hpost
        obtain ⟨t'', hcalls', hpost'⟩ := hok a _ _ hpost
        refine ⟨t'', hcalls', ?_⟩
        cases hr' : (exit (m s).2.1).1 with
        | ok u =>
            rw [hr'] at hpost'
            exact hpost'
        | error e => cases e
    | error e =>
        rw [hr] at hpost
        obtain ⟨t'', hcalls', hpost'⟩ := herror e _ _ hpost
        refine ⟨t'', hcalls', ?_⟩
        cases hr' : (exit (m s).2.1).1 with
        | ok u =>
            rw [hr'] at hpost'
            exact hpost'
        | error e => cases e
  obtain ⟨t'', hcalls', hpost'⟩ := hexit
  exact ⟨t'', foldlM_append_eq_some hcalls hcalls', hpost'⟩

theorem Triple.attempt {I : σ → τ → Prop} {R : ε' → σ → τ → Prop}
    (h : Triple allow P m (fun _ => I) fun _ => I) :
    Triple allow P (m.attempt : Prog σ E ε' Unit) (fun _ => I) R := by
  intro s t hst
  obtain ⟨t', hcalls, hpost⟩ := h s t hst
  refine ⟨t', hcalls, ?_⟩
  cases hr : (m s).1 with
  | ok a =>
      rw [hr] at hpost
      exact hpost
  | error e =>
      rw [hr] at hpost
      exact hpost

theorem Triple.forEach {A : Type} {f : A → Prog σ E ε Unit} {I : List A → σ → τ → Prop}
    (hstep : ∀ before a, Triple allow (I before) (f a) (fun _ => I (before ++ [a])) R)
    (before as : List A) :
    Triple allow (I before) (Prog.forEach f as) (fun _ => I (before ++ as)) R := by
  induction as generalizing before with
  | nil =>
      refine Triple.pure fun s t h => ?_
      rw [List.append_nil]
      exact h
  | cons a as ih =>
      refine Triple.bind (hstep before a) fun u => ?_
      have hrest := ih (before ++ [a])
      rw [List.append_assoc] at hrest
      exact hrest

end Rules

end Prog
end Lib
end Metamix
