/-
Runs of a machine that answers its calls.

A call gives an answer and the next state, or fails and ends the run.  `Simulates` relates two
machines call by call and `Simulates.trace_eq` carries it to their runs; `Reorder` allows neighbours
of a run to change places, and `Reorder.always_trace` asks of one pair of calls what it says of all
runs.  `run_history` is the rule for a state that remembers something of the calls before it,
`run_settled_iff` the one for a state that its first call sets and no other changes, `run_countdown`
bounds a run, and `run_eq_error_iff` finds the call that ended one.  `log` keeps the answers of a
run that does not fail, `log_history` is the rule for what state and answers remember, and `guarded`
puts a check in front of every call.
-/

namespace Metamix
namespace Lib

/-- One call: an answer and the next state, or a failure. -/
abbrev Machine (ι ε ο σ : Type) := ι → σ → Except ε (ο × σ)

namespace Machine

variable {ι ε ο σ τ : Type}

/-- The answers of a run, the last of which may be a failure. -/
def trace (f : Machine ι ε ο σ) : List ι → σ → List (Except ε ο)
  | [], _ => []
  | i :: is, s =>
      match f i s with
      | .error e => [.error e]
      | .ok (o, s') => .ok o :: trace f is s'

/-- Every state of the run has the property, the first and the last one included. -/
def Always (f : Machine ι ε ο σ) (P : σ → Prop) : List ι → σ → Prop
  | [], s => P s
  | i :: is, s => P s ∧ ∀ o s', f i s = .ok (o, s') → Always f P is s'

/-- Every call of the run has the property, given the state it meets and what comes of it. -/
def Calls (f : Machine ι ε ο σ) (Q : ι → σ → Except ε (ο × σ) → Prop) : List ι → σ → Prop
  | [], _ => True
  | i :: is, s => Q i s (f i s) ∧ ∀ o s', f i s = .ok (o, s') → Calls f Q is s'

theorem trace_cons {f : Machine ι ε ο σ} {i : ι} {is : List ι} {s s' : σ} {o : ο}
    (h : f i s = .ok (o, s')) : trace f (i :: is) s = .ok o :: trace f is s' := by
  rw [trace, h]

theorem Always.head {f : Machine ι ε ο σ} {P : σ → Prop} {is : List ι} {s : σ}
    (h : Always f P is s) : P s := by
  cases is with
  | nil => exact h
  | cons i is => exact h.1

theorem Always.tail {f : Machine ι ε ο σ} {P : σ → Prop} {i : ι} {is : List ι} {s s' : σ} {o : ο}
    (h : Always f P (i :: is) s) (hi : f i s = .ok (o, s')) : Always f P is s' := h.2 o s' hi

theorem Always.cons {f : Machine ι ε ο σ} {P : σ → Prop} {i : ι} {is : List ι} {s s' : σ} {o : ο}
    (hs : P s) (hi : f i s = .ok (o, s')) (h : Always f P is s') : Always f P (i :: is) s := by
  refine ⟨hs, fun o' t ht => ?_⟩
  rw [hi] at ht
  cases ht
  exact h

/-- What an invariant says of one call it says of every call of a run. -/
theorem Always.calls {f : Machine ι ε ο σ} {P I : σ → Prop} {Q : ι → σ → Except ε (ο × σ) → Prop}
    (hstep : ∀ i s, I s → P s → Q i s (f i s) ∧ ∀ o s', f i s = .ok (o, s') → I s')
    {is : List ι} {s : σ} (hs : I s) (h : Always f P is s) : Calls f Q is s := by
  induction is generalizing s with
  | nil => trivial
  | cons i is ih =>
      obtain ⟨hcall, hnext⟩ := hstep i s hs h.head
      exact ⟨hcall, fun o s' hi => ih (hnext o s' hi) (h.tail hi)⟩

theorem Calls.cons {f : Machine ι ε ο σ} {Q : ι → σ → Except ε (ο × σ) → Prop} {i : ι} {is : List ι}
    {s s' : σ} {o : ο} (hi : f i s = .ok (o, s')) (hQ : Q i s (.ok (o, s'))) (h : Calls f Q is s') :
    Calls f Q (i :: is) s := by
  refine ⟨hi ▸ hQ, fun o' t ht => ?_⟩
  rw [hi] at ht
  cases ht
  exact h

/-! ## Where a run ends -/

def run (f : Machine ι ε ο σ) : List ι → σ → Except ε σ
  | [], s => .ok s
  | i :: is, s =>
      match f i s with
      | .error e => .error e
      | .ok (_, s') => run f is s'

section Run

variable {f : Machine ι ε ο σ} {i : ι} {is : List ι} {s s' : σ} {o : ο} {e : ε}

theorem run_cons (h : f i s = .ok (o, s')) : run f (i :: is) s = run f is s' := by
  rw [run, h]

theorem run_append {js : List ι} (h : run f is s = .ok s') : run f (is ++ js) s = run f js s' := by
  induction is generalizing s with
  | nil =>
      cases h
      rfl
  | cons i is ih =>
      cases hi : f i s with
      | error e =>
          rw [run, hi] at h
          cases h
      | ok r =>
          rw [run_cons hi] at h
          rw [List.cons_append, run_cons hi, ih h]

/-- A run fails exactly if a call that it gets to fails. -/
theorem run_eq_error_iff : run f is s = .error e ↔
    ∃ pre i post s', is = pre ++ i :: post ∧ run f pre s = .ok s' ∧ f i s' = .error e := by
  constructor
  · intro h
    induction is generalizing s with
    | nil => cases h
    | cons i is ih =>
        cases hi : f i s with
        | error e' =>
            rw [run, hi] at h
            cases h
            exact ⟨[], i, is, s, rfl, rfl, hi⟩
        | ok r =>
            rw [run_cons hi] at h
            obtain ⟨pre, j, post, t, hsplit, hpre, hj⟩ := ih h
            exact ⟨i :: pre, j, post, t, by rw [hsplit]; rfl, by rw [run_cons hi, hpre], hj⟩
  · intro h
    obtain ⟨pre, i, post, s', rfl, hpre, hi⟩ := h
    rw [run_append hpre, run, hi]

/-- What every call keeps of the calls before it holds behind a run of all of them. -/
theorem run_history {I : List ι → σ → Prop}
    (hstep : ∀ pre i s o s', I pre s → f i s = .ok (o, s') → I (pre ++ [i]) s')
    {before : List ι} (h : I before s) (hrun : run f is s = .ok s') : I (before ++ is) s' := by
  induction is generalizing s before with
  | nil =>
      cases hrun
      rw [List.append_nil]
      exact h
  | cons i is ih =>
      cases hi : f i s with
      | error e =>
          rw [run, hi] at hrun
          cases hrun
      | ok r =>
          rw [run_cons hi] at hrun
          have hnext := ih (hstep before i s r.1 r.2 h hi) hrun
          rwa [List.append_assoc] at hnext

/-- Where every call does a part of what is left, a run has no more calls than there are parts. -/
theorem run_countdown {L : Nat → σ → Prop}
    (hstep : ∀ n i s o s', L n s → f i s = .ok (o, s') → ∃ m, n = m + 1 ∧ L m s') {n : Nat}
    (h : L n s) (hrun : run f is s = .ok s') : ∃ m, n = is.length + m ∧ L m s' := by
  induction is generalizing n s with
  | nil =>
      cases hrun
      exact ⟨n, (Nat.zero_add n).symm, h⟩
  | cons i is ih =>
      cases hi : f i s with
      | error e =>
          rw [run, hi] at hrun
          cases hrun
      | ok r =>
          rw [run_cons hi] at hrun
          obtain ⟨m, rfl, hnext⟩ := hstep n i s r.1 r.2 h hi
          obtain ⟨k, rfl, hend⟩ := ih hnext hrun
          exact ⟨k, Nat.add_right_comm is.length k 1, hend⟩

/-- Once the first call has settled the state, every call of a run is made from one state. -/
theorem run_settled_iff {t : σ} (hfirst : ∀ o s', f i s = .ok (o, s') → s' = t)
    (hrest : ∀ j o s', f j t = .ok (o, s') → s' = t) :
    (∃ s', run f (i :: is) s = .ok s') ↔
      (∃ o, f i s = .ok (o, t)) ∧ ∀ j ∈ is, ∃ o, f j t = .ok (o, t) := by
  have hfixed : ∀ is, (∃ s', run f is t = .ok s') ↔ ∀ j ∈ is, ∃ o, f j t = .ok (o, t) := by
    intro is
    induction is with
    | nil => exact iff_of_true ⟨t, rfl⟩ (List.forall_mem_nil _)
    | cons j js ih =>
        rw [List.forall_mem_cons, ← ih, run]
        cases hj : f j t with
        | error e =>
            exact iff_of_false (fun h => nomatch h.choose_spec) fun h => nomatch h.1.choose_spec
        | ok r =>
            obtain rfl := hrest j r.1 r.2 hj
            exact (and_iff_right ⟨r.1, rfl⟩).symm
  rw [← hfixed, run]
  cases hi : f i s with
  | error e =>
      exact iff_of_false (fun h => nomatch h.choose_spec) fun h => nomatch h.1.choose_spec
  | ok r =>
      obtain rfl := hfirst r.1 r.2 hi
      exact (and_iff_right ⟨r.1, rfl⟩).symm

end Run

/-! ## Logs -/

/-- The calls of a run with their answers, and the state after it. -/
def log (f : Machine ι ε ο σ) : List ι → σ → Except ε (List (ι × ο) × σ)
  | [], s => .ok ([], s)
  | i :: is, s =>
      match f i s with
      | .error e => .error e
      | .ok (o, s') =>
          match log f is s' with
          | .error e => .error e
          | .ok (entries, t) => .ok ((i, o) :: entries, t)

section Log

variable {f : Machine ι ε ο σ} {i : ι} {is : List ι} {s s' : σ} {entries : List (ι × ο)}

theorem log_nil (h : log f [] s = .ok (entries, s')) : entries = [] ∧ s' = s := by
  cases h
  exact ⟨rfl, rfl⟩

theorem log_cons (h : log f (i :: is) s = .ok (entries, s')) :
    ∃ o t rest, f i s = .ok (o, t) ∧ log f is t = .ok (rest, s') ∧ entries = (i, o) :: rest := by
  cases hi : f i s with
  | error e =>
      rw [log, hi] at h
      cases h
  | ok r =>
      cases his : log f is r.2 with
      | error e =>
          simp only [log, hi, his] at h
          cases h
      | ok r' =>
          simp only [log, hi, his] at h
          cases h
          exact ⟨r.1, r.2, r'.1, rfl, his, rfl⟩

theorem exists_log (h : run f is s = .ok s') : ∃ entries, log f is s = .ok (entries, s') := by
  induction is generalizing s with
  | nil =>
      cases h
      exact ⟨[], rfl⟩
  | cons i is ih =>
      cases hi : f i s with
      | error e =>
          rw [run, hi] at h
          cases h
      | ok r =>
          rw [run_cons hi] at h
          obtain ⟨entries, hlog⟩ := ih h
          exact ⟨(i, r.1) :: entries, by simp only [log, hi, hlog]⟩

/-- What every call keeps of the calls and answers before it holds behind a run. -/
theorem log_history {I : List (ι × ο) → σ → Prop}
    (hstep : ∀ before i s o s', I before s → f i s = .ok (o, s') → I (before ++ [(i, o)]) s')
    {before : List (ι × ο)} (h : I before s) (hlog : log f is s = .ok (entries, s')) :
    I (before ++ entries) s' := by
  induction is generalizing s before entries with
  | nil =>
      obtain ⟨rfl, rfl⟩ := log_nil hlog
      rw [List.append_nil]
      exact h
  | cons i is ih =>
      obtain ⟨o, t, rest, hi, his, rfl⟩ := log_cons hlog
      have hnext := ih (hstep before i s o t h hi) his
      rwa [List.append_assoc] at hnext

/-- The same for what only calls with a property keep. -/
theorem log_calls {Q : ι → σ → Except ε (ο × σ) → Prop} {I : List (ι × ο) → σ → Prop}
    (hstep : ∀ before i s o s', I before s → Q i s (.ok (o, s')) → f i s = .ok (o, s') →
      I (before ++ [(i, o)]) s')
    {before : List (ι × ο)} (h : I before s) (hcalls : Calls f Q is s)
    (hlog : log f is s = .ok (entries, s')) : I (before ++ entries) s' := by
  induction is generalizing s before entries with
  | nil =>
      obtain ⟨rfl, rfl⟩ := log_nil hlog
      rw [List.append_nil]
      exact h
  | cons i is ih =>
      obtain ⟨o, t, rest, hi, his, rfl⟩ := log_cons hlog
      have hnext := ih (hstep before i s o t h (hi ▸ hcalls.1) hi) (hcalls.2 o t hi) his
      rwa [List.append_assoc] at hnext

theorem log_invariant {I : σ → Prop} (hstep : ∀ i s o s', I s → f i s = .ok (o, s') → I s')
    (h : I s) (hlog : log f is s = .ok (entries, s')) : I s' :=
  @log_history _ _ _ _ f is s s' entries (fun _ s => I s) (fun _ => hstep) [] h hlog

theorem log_invariant_of_calls {Q : ι → σ → Except ε (ο × σ) → Prop} {I : σ → Prop}
    (hstep : ∀ i s o s', I s → Q i s (.ok (o, s')) → f i s = .ok (o, s') → I s')
    (h : I s) (hcalls : Calls f Q is s) (hlog : log f is s = .ok (entries, s')) : I s' :=
  @log_calls _ _ _ _ f is s s' entries Q (fun _ s => I s) (fun _ => hstep) [] h hcalls hlog

theorem log_split {before after : List (ι × ο)} {o : ο}
    (hlog : log f is s = .ok (before ++ (i, o) :: after, s')) :
    ∃ js t t', log f js s = .ok (before, t) ∧ f i t = .ok (o, t') := by
  induction before generalizing is s with
  | nil =>
      cases is with
      | nil =>
          obtain ⟨hnil, -⟩ := log_nil hlog
          cases hnil
      | cons j is =>
          obtain ⟨o', t, rest, hj, -, hentries⟩ := log_cons hlog
          cases hentries
          exact ⟨[], s, t, rfl, hj⟩
  | cons entry before ih =>
      cases is with
      | nil =>
          obtain ⟨hnil, -⟩ := log_nil hlog
          cases hnil
      | cons j is =>
          obtain ⟨o', t, rest, hj, hrest, hentries⟩ := log_cons hlog
          cases hentries
          obtain ⟨js, u, u', hjs, hi⟩ := ih hrest
          exact ⟨j :: js, u, u', by simp only [log, hj, hjs], hi⟩

/-! ## Checked calls -/

/-- The machine with a check in front of every call. -/
def guarded (check : ι → σ → Except ε Unit) (f : Machine ι ε ο σ) : Machine ι ε ο σ := fun i s =>
  match check i s with
  | .error e => .error e
  | .ok _ => f i s

/-- A call that passes its check is a call of the machine. -/
theorem of_guarded {check : ι → σ → Except ε Unit} {r : ο × σ}
    (h : guarded check f i s = .ok r) : f i s = .ok r := by
  unfold guarded at h
  split at h
  · cases h
  · exact h

theorem log_of_guarded {check : ι → σ → Except ε Unit}
    (h : log (guarded check f) is s = .ok (entries, s')) : log f is s = .ok (entries, s') := by
  induction is generalizing s entries with
  | nil => exact h
  | cons i is ih =>
      obtain ⟨o, t, rest, hi, his, rfl⟩ := log_cons h
      simp only [log, of_guarded hi, ih his]

end Log

/-! ## Simulation -/

/-- From related states the two machines give the same answer and reach related states, as long
as the first one has the property. -/
def Simulates (f : Machine ι ε ο σ) (g : Machine ι ε ο τ) (R : σ → τ → Prop) (P : σ → Prop) :
    Prop :=
  ∀ i s t, R s t → P s → ∃ o s' t', f i s = .ok (o, s') ∧ g i t = .ok (o, t') ∧ R s' t'

section Simulation

variable {f : Machine ι ε ο σ} {g : Machine ι ε ο τ} {R : σ → τ → Prop} {P : σ → Prop}

theorem Simulates.trace_eq (hsim : Simulates f g R P) {is : List ι} {s : σ} {t : τ} (h : R s t)
    (hP : Always f P is s) : trace f is s = trace g is t := by
  induction is generalizing s t with
  | nil => rfl
  | cons i is ih =>
      obtain ⟨o, s', t', hf, hg, hnext⟩ := hsim i s t h hP.head
      rw [trace_cons hf, trace_cons hg, ih hnext (hP.tail hf)]

theorem Simulates.always (hsim : Simulates f g R P) {Q : τ → Prop}
    (hQ : ∀ s t, R s t → P s → Q t) {is : List ι} {s : σ} {t : τ} (h : R s t)
    (hP : Always f P is s) : Always g Q is t := by
  induction is generalizing s t with
  | nil => exact hQ s t h hP
  | cons i is ih =>
      obtain ⟨o, s', t', hf, hg, hnext⟩ := hsim i s t h hP.head
      exact .cons (hQ s t h hP.head) hg (ih hnext (hP.tail hf))

end Simulation

/-! ## Reordering -/

/-- The runs that are made of one another by exchanging neighbours. -/
inductive Reorder (C : ι → ι → Prop) : List ι → List ι → Prop where
  | refl (is : List ι) : Reorder C is is
  | swap {i j : ι} (h : C i j) (is : List ι) : Reorder C (i :: j :: is) (j :: i :: is)
  | cons (i : ι) {is js : List ι} (h : Reorder C is js) : Reorder C (i :: is) (i :: js)
  | trans {is js ks : List ι} (hij : Reorder C is js) (hjk : Reorder C js ks) : Reorder C is ks

def Commutes (f : Machine ι ε ο σ) (P : σ → Prop) (i j : ι) : Prop :=
  ∀ s, Always f P [i, j] s → ∃ o s₁ s₂ t, f i s = .ok (o, s₁) ∧ f j s₁ = .ok (o, t) ∧
    f j s = .ok (o, s₂) ∧ f i s₂ = .ok (o, t) ∧ P s₂

theorem Always.take_two {f : Machine ι ε ο σ} {P : σ → Prop} {i j : ι} {is : List ι} {s : σ}
    (h : Always f P (i :: j :: is) s) : Always f P [i, j] s :=
  ⟨h.head, fun _ _ hi => ⟨(h.tail hi).head, fun _ _ hj => ((h.tail hi).tail hj).head⟩⟩

theorem Reorder.always_trace {f : Machine ι ε ο σ} {P : σ → Prop} {C : ι → ι → Prop}
    (hcomm : ∀ i j, C i j → Commutes f P i j) {is js : List ι} (h : Reorder C is js) {s : σ}
    (hP : Always f P is s) : Always f P js s ∧ trace f is s = trace f js s := by
  induction h generalizing s with
  | refl is => exact ⟨hP, rfl⟩
  | @swap i j h is =>
      obtain ⟨o, s₁, s₂, t, hi, hij, hj, hji, hs₂⟩ := hcomm i j h s hP.take_two
      refine ⟨.cons hP.head hj (.cons hs₂ hji ((hP.tail hi).tail hij)), ?_⟩
      rw [trace_cons hi, trace_cons hij, trace_cons hj, trace_cons hji]
  | cons i h ih =>
      refine ⟨⟨hP.head, fun o s' hi => (ih (hP.tail hi)).1⟩, ?_⟩
      unfold trace
      cases hi : f i s with
      | error e => rfl
      | ok r => exact congrArg _ (ih (hP.tail hi)).2
  | trans hij hjk ihij ihjk =>
      obtain ⟨hjs, heq⟩ := ihij hP
      obtain ⟨hks, heq'⟩ := ihjk hjs
      exact ⟨hks, heq.trans heq'⟩

end Machine
end Lib
end Metamix
