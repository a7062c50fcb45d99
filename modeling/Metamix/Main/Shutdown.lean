/-
How the program ends.

`main` waits for the threads of the inputs and of the output, tells the REST server through
`on_exit` that it is over and waits for its thread too.  A supervised thread only ends where
restarts are switched off.  The server hears of the exit if it is waiting for a connection just
then: to tell it is to cancel its accept, and where none is pending nothing is cancelled.  What
Boost does there is the parameter `Boost`.  `shutdown` says for every run, whatever the clients do,
how it goes on behind the exit.
-/
import Metamix.Lib.Machine
import Metamix.Main.Start

namespace Metamix
namespace Main

open Lib

/-! ## Threads -/

inductive Ends where
  | returns
  | throws
deriving DecidableEq, Repr

/-- What `supervised` does behind its function: both ways to end it are an occasion to start it
again. -/
def supervised {κ : Type} (restart : Bool) (again ended : κ) : Ends → κ
  | .returns => if restart then again else ended
  | .throws => if restart then again else ended

theorem supervised_eq {κ : Type} (restart : Bool) (again ended : κ) (how : Ends) :
    supervised restart again ended how = if restart then again else ended := by
  cases how <;> rfl

inductive ErrorCode where
  | success
  | operationAborted
  | other
deriving DecidableEq, Repr

/-- The accept of an acceptor: none has been asked for, it is pending, or it is complete and its
handler is queued. -/
inductive Accept where
  | idle
  | pending
  | complete (ec : ErrorCode)
deriving DecidableEq, Repr

structure Boost where
  /-- `basic_socket_acceptor::cancel`. -/
  cancel : Accept → Accept
  cancel_idle : cancel .idle = .idle
  cancel_pending : cancel .pending = .complete .operationAborted
  cancel_complete (ec : ErrorCode) : cancel (.complete ec) = .complete ec
  /-- `io_context::run` comes back. -/
  returns : Accept → Bool
  returns_idle : returns .idle = true
  /-- The call of a `signals2` signal, with the slots that are connected. -/
  emit {σ : Type} : List (σ → σ) → σ → σ
  emit_eq {σ : Type} (slots : List (σ → σ)) (s : σ) : emit slots s = slots.foldl (fun s f => f s) s

inductive Server where
  /-- Nobody is connected to `on_exit` yet. -/
  | starting
  | connected
  /-- In `ioc.run`, with an accept pending. -/
  | accepting
  /-- The accept is complete, and its handler is queued. -/
  | accepted (ec : ErrorCode)
  /-- In `process_session`. -/
  | serving
  | returned
deriving DecidableEq, Repr

inductive ServerAction where
  | connect
  | listen
  | complete (ec : ErrorCode)
  | handle
  | endSession
  | throw_
deriving DecidableEq, Repr

namespace Server

/-- What the server does next, if it can.  The handler of an accept that was not aborted waits for
the next one, and behind one that was nothing is left to run. -/
def step (B : Boost) (restart : Bool) : ServerAction → Server → Option Server
  | .connect, starting => some connected
  | .listen, connected => some accepting
  | .complete .success, accepting => some (accepted .success)
  | .complete .other, accepting => some (accepted .other)
  | .handle, accepted .success => some serving
  | .handle, accepted .other => some accepting
  | .handle, accepted .operationAborted =>
      if B.returns .idle then some (supervised restart starting returned .returns) else none
  | .endSession, serving => some accepting
  | .throw_, starting => some (supervised restart starting returned .throws)
  | .throw_, connected => some (supervised restart starting returned .throws)
  | .throw_, serving => some (supervised restart starting returned .throws)
  | _, _ => none

def accept : Server → Accept
  | accepting => .pending
  | accepted ec => .complete ec
  | _ => .idle

def setAccept : Server → Accept → Server
  | accepting, .complete ec => accepted ec
  | accepted _, .complete ec => accepted ec
  | s, _ => s

/-- The slot of the server. -/
def onExit (B : Boost) (s : Server) : Server := s.setAccept (B.cancel s.accept)

/-- The connection is scoped. -/
def slots (B : Boost) : Server → List (Server → Server)
  | starting => []
  | returned => []
  | _ => [onExit B]

/-- `on_exit`. -/
def cancel (B : Boost) (s : Server) : Server := B.emit (s.slots B) s

end Server

/-! ## The process -/

/-- Where `main` is behind the start of the threads. -/
inductive MainAt where
  /-- In front of `join` for the `k`th of the primary threads. -/
  | joining (k : Nat)
  | joiningServer
  | returned
deriving DecidableEq, Repr

structure Process where
  /-- The threads of the inputs and that of the output, and whether they still run. -/
  primaryThreads : List Bool
  server : Server
  /-- `m_running`. -/
  running : Bool
  main : MainAt
deriving DecidableEq, Repr

inductive Action where
  | endPrimary (i : Nat) (how : Ends)
  | main
  | server (a : ServerAction)
deriving DecidableEq, Repr

inductive Answer where
  | silent
  /-- `main` has called `ctx->exit()`, and this was the pending accept that it cancelled. -/
  | exited (heard : Bool)
deriving DecidableEq, Repr

inductive Blocked where
  | blocked
deriving DecidableEq, Repr

namespace Process

def exit (B : Boost) (s : Process) : Answer × Process :=
  if s.running then
    (.exited (decide (s.server = .accepting)),
      { s with running := false, server := s.server.cancel B })
  else (.exited false, s)

def stepMain (B : Boost) (s : Process) : Except Blocked (Answer × Process) :=
  match s.main with
  | .joining k =>
      if k < s.primaryThreads.length then
        if s.primaryThreads[k]? = some false then .ok (.silent, { s with main := .joining (k + 1) })
        else .error .blocked
      else .ok ((s.exit B).1, { (s.exit B).2 with main := .joiningServer })
  | .joiningServer =>
      if s.server = .returned then .ok (.silent, { s with main := .returned }) else .error .blocked
  | .returned => .error .blocked

end Process

def process (B : Boost) (restart : Bool) : Machine Action Blocked Answer Process
  | .endPrimary i how, s =>
      if s.primaryThreads[i]? = some true then
        .ok (.silent, { s with
          primaryThreads := s.primaryThreads.set i (supervised restart true false how) })
      else .error .blocked
  | .main, s => s.stepMain B
  | .server a, s =>
      match s.server.step B restart a with
      | some server => .ok (.silent, { s with server })
      | none => .error .blocked

def Started.process (r : Started) : Process where
  primaryThreads := List.replicate (r.extractors.length + 1) true
  server := .starting
  running := true
  main := .joining 0

variable {B : Boost}

/-! ## Restarts -/

/-- Nobody has ended, and so `main` waits for the first thread. -/
structure Process.Endless (s : Process) : Prop where
  main : s.main = .joining 0
  threads : ∃ n, s.primaryThreads = List.replicate (n + 1) true

theorem endless_step {a : Action} {s s' : Process} {o : Answer} (h : s.Endless)
    (hstep : process B true a s = .ok (o, s')) : s'.Endless := by
  obtain ⟨hmain, n, hthreads⟩ := h
  cases a with
  | endPrimary i how =>
      simp only [process] at hstep
      split_ifs at hstep with hi
      cases hstep
      refine ⟨hmain, n, ?_⟩
      show s.primaryThreads.set i _ = _
      rw [supervised_eq, if_pos rfl, hthreads, List.set_replicate_self]
  | main =>
      simp only [process, Process.stepMain, hmain] at hstep
      rw [hthreads, List.length_replicate, if_pos (Nat.succ_pos n)] at hstep
      cases hstep
  | server a =>
      simp only [process] at hstep
      split at hstep
      · cases hstep
        exact ⟨hmain, n, hthreads⟩
      · cases hstep

/-! ## The server -/

namespace Server

def Serves (s : Server) : Prop := s ≠ .accepted .operationAborted ∧ s ≠ .returned

instance (s : Server) : Decidable s.Serves := inferInstanceAs (Decidable (_ ∧ _))

theorem serves_starting : starting.Serves := by decide

/-- Behind an accept that was aborted `ioc.run` comes back. -/
theorem step_handle_aborted (restart : Bool) : step B restart .handle (accepted .operationAborted) =
    some (if restart then starting else returned) := by
  show (if B.returns .idle then _ else _) = _
  rw [if_pos B.returns_idle, supervised_eq]

theorem serves_step {a : ServerAction} {s s' : Server} (h : s.Serves) (ha : a ≠ .throw_)
    (hstep : step B false a s = some s') : s'.Serves := by
  unfold step at hstep
  split at hstep
  -- It returns behind an exception or an aborted accept, and nothing it does aborts one.
  all_goals first
    | exact absurd rfl ha
    | exact absurd rfl h.1
    | cases hstep
  all_goals decide

theorem step_returned (restart : Bool) (a : ServerAction) : step B restart a returned = none := by
  cases a with
  | complete ec => cases ec <;> rfl
  | _ => rfl

theorem step_aborted {a : ServerAction} {s' : Server}
    (h : step B false a (accepted .operationAborted) = some s') : s' = returned := by
  cases a with
  | handle =>
      rw [step_handle_aborted] at h
      exact (Option.some.inj h).symm
  | complete ec => cases ec <;> cases h
  | _ => cases h

theorem exists_step {s : Server} (h : s.Serves) :
    ∃ a s', a ≠ .throw_ ∧ step B false a s = some s' := by
  cases s with
  | starting => exact ⟨.connect, _, by decide, rfl⟩
  | connected => exact ⟨.listen, _, by decide, rfl⟩
  | accepting => exact ⟨.complete .success, _, by decide, rfl⟩
  | accepted ec =>
      cases ec with
      | success => exact ⟨.handle, _, by decide, rfl⟩
      | operationAborted => exact absurd rfl h.1
      | other => exact ⟨.handle, _, by decide, rfl⟩
  | serving => exact ⟨.endSession, _, by decide, rfl⟩
  | returned => exact absurd rfl h.2

/-- The exit is heard where an accept is pending, and changes nothing elsewhere. -/
theorem cancel_eq (s : Server) :
    s.cancel B = if s = accepting then accepted .operationAborted else s := by
  unfold cancel
  rw [B.emit_eq]
  cases s with
  | accepting => exact congrArg (setAccept accepting) B.cancel_pending
  | accepted ec => exact congrArg (setAccept (accepted ec)) (B.cancel_complete ec)
  | connected => exact congrArg (setAccept connected) B.cancel_idle
  | serving => exact congrArg (setAccept serving) B.cancel_idle
  | starting => rfl
  | returned => rfl

end Server

/-! ## Phases

Without restarts a run is in one of three phases: `main` waits for the primary threads, or it has
told the server in time, or too late. -/

namespace Process

def Alone (s : Process) : Prop := true ∉ s.primaryThreads

structure Joining (s : Process) : Prop where
  main : ∃ k, s.main = .joining k ∧ ∀ i < k, s.primaryThreads[i]? ≠ some true
  running : s.running = true
  server : s.server.Serves

/-- The steps that are left once the server has heard of the exit. -/
inductive Left : Nat → Process → Prop where
  | both {s : Process} (halone : s.Alone) (hmain : s.main = .joiningServer)
      (hserver : s.server = .accepted .operationAborted) : Left 2 s
  | main {s : Process} (halone : s.Alone) (hmain : s.main = .joiningServer)
      (hserver : s.server = .returned) : Left 1 s
  | nothing {s : Process} (halone : s.Alone) (hmain : s.main = .returned)
      (hserver : s.server = .returned) : Left 0 s

structure Missed (s : Process) : Prop where
  alone : s.Alone
  main : s.main = .joiningServer
  server : s.server.Serves

end Process

open Process

theorem endPrimary_alone {s s' : Process} {i : Nat} {how : Ends} {o : Answer} (h : s.Alone) :
    process B false (.endPrimary i how) s ≠ .ok (o, s') := by
  intro hstep
  simp only [process] at hstep
  split_ifs at hstep with hi
  exact h (List.mem_of_getElem? hi)

theorem alone_of_joined {s : Process} {k : Nat}
    (hjoined : ∀ i < k, s.primaryThreads[i]? ≠ some true)
    (hk : s.primaryThreads.length ≤ k) : s.Alone := by
  intro hmem
  obtain ⟨i, hi⟩ := List.mem_iff_getElem?.mp hmem
  obtain ⟨hlen, -⟩ := List.getElem?_eq_some_iff.mp hi
  exact hjoined i (by omega) hi

/-- What the signal leaves, whether an accept is pending or not. -/
theorem exit_step {s : Process} (halone : s.Alone) (hrunning : s.running = true)
    (hserver : s.server.Serves) :
    ((s.exit B).1 = .exited true ∧ Left 2 { (s.exit B).2 with main := .joiningServer }) ∨
      ((s.exit B).1 = .exited false ∧ Missed { (s.exit B).2 with main := .joiningServer }) := by
  rw [Process.exit, if_pos hrunning]
  by_cases haccepting : s.server = .accepting
  · refine .inl ⟨by rw [haccepting]; rfl, .both halone rfl ?_⟩
    show s.server.cancel B = _
    rw [Server.cancel_eq, if_pos haccepting]
  · refine .inr ⟨by rw [decide_eq_false haccepting], halone, rfl, ?_⟩
    show (s.server.cancel B).Serves
    rw [Server.cancel_eq, if_neg haccepting]
    exact hserver

theorem joining_step {a : Action} {s s' : Process} {o : Answer} (h : s.Joining)
    (ha : a ≠ .server .throw_) (hstep : process B false a s = .ok (o, s')) :
    (o = .silent ∧ s'.Joining) ∨ (o = .exited true ∧ Left 2 s') ∨
      (o = .exited false ∧ s'.Missed) := by
  obtain ⟨⟨k, hmain, hjoined⟩, hrunning, hserver⟩ := h
  cases a with
  | endPrimary i how =>
      simp only [process] at hstep
      split_ifs at hstep with hi
      cases hstep
      refine .inl ⟨rfl, ⟨k, hmain, fun j hj => ?_⟩, hrunning, hserver⟩
      show (s.primaryThreads.set i _)[j]? ≠ some true
      rw [supervised_eq, if_neg Bool.false_ne_true, List.getElem?_set]
      split_ifs
      · exact fun h => by cases h
      · exact fun h => by cases h
      · exact hjoined j hj
  | main =>
      simp only [process, stepMain, hmain] at hstep
      split_ifs at hstep with hlt hk
      · cases hstep
        refine .inl ⟨rfl, ⟨k + 1, rfl, fun i hi => ?_⟩, hrunning, hserver⟩
        rcases Nat.lt_succ_iff_lt_or_eq.mp hi with hi | rfl
        · exact hjoined i hi
        · show s.primaryThreads[i]? ≠ some true
          rw [hk]
          exact fun h => by cases h
      · have halone : s.Alone := alone_of_joined hjoined (Nat.le_of_not_lt hlt)
        cases hstep
        exact .inr (exit_step halone hrunning hserver)
  | server a =>
      simp only [process] at hstep
      split at hstep
      · rename_i server hserver'
        cases hstep
        refine .inl ⟨rfl, ⟨k, hmain, hjoined⟩, hrunning, Server.serves_step hserver ?_ hserver'⟩
        intro hthrow
        exact ha (congrArg Action.server hthrow)
      · cases hstep

/-- Behind an exit that was heard every step does a part of what is left. -/
theorem left_step {n : Nat} {a : Action} {s s' : Process} {o : Answer} (h : Left n s)
    (hstep : process B false a s = .ok (o, s')) : o = .silent ∧ ∃ m, n = m + 1 ∧ Left m s' := by
  cases a with
  | endPrimary i how =>
      cases h with
      | both halone => exact absurd hstep (endPrimary_alone halone)
      | main halone => exact absurd hstep (endPrimary_alone halone)
      | nothing halone => exact absurd hstep (endPrimary_alone halone)
  | main =>
      cases h with
      | both halone hmain hserver =>
          simp only [process, stepMain, hmain, hserver] at hstep
          cases hstep
      | main halone hmain hserver =>
          simp only [process, stepMain, hmain, if_pos hserver] at hstep
          cases hstep
          exact ⟨rfl, 0, rfl, .nothing halone rfl hserver⟩
      | nothing halone hmain hserver =>
          simp only [process, stepMain, hmain] at hstep
          cases hstep
  | server a =>
      simp only [process] at hstep
      cases hnext : s.server.step B false a with
      | none =>
          rw [hnext] at hstep
          cases hstep
      | some server =>
          rw [hnext] at hstep
          cases hstep
          cases h with
          | both halone hmain hserver =>
              rw [hserver] at hnext
              exact ⟨rfl, 1, rfl, .main halone hmain (Server.step_aborted hnext)⟩
          | main halone hmain hserver =>
              rw [hserver, Server.step_returned] at hnext
              cases hnext
          | nothing halone hmain hserver =>
              rw [hserver, Server.step_returned] at hnext
              cases hnext

/-- As long as something is left, there is a step that does it. -/
theorem exists_left_step {n : Nat} {s : Process} (h : Left (n + 1) s) :
    ∃ a o s', process B false a s = .ok (o, s') := by
  cases h with
  | both halone hmain hserver =>
      refine ⟨.server .handle, .silent, { s with server := .returned }, ?_⟩
      simp only [process, hserver, Server.step_handle_aborted]
      rfl
  | main halone hmain hserver =>
      refine ⟨.main, .silent, { s with main := .returned }, ?_⟩
      simp only [process, stepMain, hmain, hserver]
      rfl

theorem missed_step {a : Action} {s s' : Process} {o : Answer} (h : s.Missed)
    (ha : a ≠ .server .throw_) (hstep : process B false a s = .ok (o, s')) :
    o = .silent ∧ s'.Missed := by
  obtain ⟨halone, hmain, hserver⟩ := h
  cases a with
  | endPrimary i how => exact absurd hstep (endPrimary_alone halone)
  | main =>
      simp only [process, stepMain, hmain, if_neg hserver.2] at hstep
      cases hstep
  | server a =>
      simp only [process] at hstep
      split at hstep
      · rename_i server hserver'
        cases hstep
        refine ⟨rfl, halone, hmain, Server.serves_step hserver ?_ hserver'⟩
        intro hthrow
        exact ha (congrArg Action.server hthrow)
      · cases hstep

/-! ## Runs -/

/-- The program ends: however it goes on, this takes at most two steps, and before that there is
one to take. -/
def WindsUp (B : Boost) (s : Process) : Prop :=
  ∃ n ≤ 2, ∀ acts s', (process B false).run acts s = .ok s' → acts.length ≤ n ∧
    (acts.length = n → s'.main = .returned) ∧
    (acts.length < n → ∃ a o t, process B false a s' = .ok (o, t))

/-- The program does not end, but for an exception in the server, which goes on serving. -/
def Hangs (B : Boost) (s : Process) : Prop :=
  ∀ acts s', Action.server .throw_ ∉ acts → (process B false).run acts s = .ok s' →
    s'.main ≠ .returned ∧ ∃ a server, a ≠ .throw_ ∧ s'.server.step B false a = some server

theorem windsUp_of_left {n : Nat} {s : Process} (hn : n ≤ 2) (h : Left n s) : WindsUp B s := by
  refine ⟨n, hn, fun acts s' hrun => ?_⟩
  obtain ⟨m, rfl, hleft⟩ := Machine.run_countdown (L := Left)
    (fun _ _ _ _ _ hleft hstep => (left_step hleft hstep).2) h hrun
  refine ⟨Nat.le_add_right _ _, fun hall => ?_, fun hless => ?_⟩
  · obtain rfl : m = 0 := by omega
    cases hleft with
    | nothing halone hmain hserver => exact hmain
  · obtain ⟨k, rfl⟩ : ∃ k, m = k + 1 := ⟨m - 1, by omega⟩
    exact exists_left_step hleft

theorem hangs_of_missed {s : Process} (h : s.Missed) : Hangs B s := by
  intro acts s' hcalm hrun
  have hmissed : Action.server .throw_ ∉ [] ++ acts → s'.Missed := by
    refine Machine.run_history (I := fun acts s => Action.server .throw_ ∉ acts → s.Missed) ?_
      (fun _ => h) hrun
    intro pre a s o s' hpre hstep hcalm
    rw [List.mem_append, List.mem_singleton, not_or] at hcalm
    exact (missed_step (hpre hcalm.1) (Ne.symm hcalm.2) hstep).2
  obtain ⟨halone, hmain, hserver⟩ := hmissed hcalm
  refine ⟨?_, Server.exists_step hserver⟩
  rw [hmain]
  exact fun h => by cases h

abbrev History := List (Action × Answer)

def Calm (log : History) : Prop := ∀ e ∈ log, e.1 ≠ .server .throw_

instance (log : History) : Decidable (Calm log) := inferInstanceAs (Decidable (∀ e ∈ log, _))

inductive Phase (log : History) (s : Process) : Prop where
  | joining (hexit : ∀ heard, (.main, .exited heard) ∉ log) (h : s.Joining)
  | left {n : Nat} (hexit : ∀ heard, (.main, .exited heard) ∈ log → heard = true) (hn : n ≤ 2)
      (h : Left n s)
  | missed (hexit : ∀ heard, (.main, .exited heard) ∈ log → heard = false) (h : s.Missed)

theorem phase_step {log : History} {a : Action} {s s' : Process} {o : Answer} (h : Phase log s)
    (ha : a ≠ .server .throw_) (hstep : process B false a s = .ok (o, s')) :
    Phase (log ++ [(a, o)]) s' := by
  have hmem (heard : Bool) : (Action.main, Answer.exited heard) ∈ log ++ [(a, o)] →
      (.main, .exited heard) ∈ log ∨ o = .exited heard := by
    intro hin
    rw [List.mem_append, List.mem_singleton] at hin
    exact hin.imp_right fun heq => (congrArg Prod.snd heq).symm
  have hsilent (ho : o = .silent) (heard : Bool)
      (hin : (Action.main, Answer.exited heard) ∈ log ++ [(a, o)]) :
      (.main, .exited heard) ∈ log := by
    refine (hmem heard hin).resolve_right fun hexited => ?_
    rw [ho] at hexited
    cases hexited
  have hexited (hnone : ∀ heard, (.main, .exited heard) ∉ log) {b : Bool} (ho : o = .exited b)
      (heard : Bool) (hin : (Action.main, Answer.exited heard) ∈ log ++ [(a, o)]) : heard = b := by
    have hsame := (hmem heard hin).resolve_left (hnone heard)
    rw [ho] at hsame
    exact (Answer.exited.inj hsame).symm
  cases h with
  | joining hnone h =>
      obtain ⟨ho, hjoining⟩ | ⟨ho, hleft⟩ | ⟨ho, hmissed⟩ := joining_step h ha hstep
      · exact .joining (fun heard hin => hnone heard (hsilent ho heard hin)) hjoining
      · exact .left (hexited hnone ho) (Nat.le_refl 2) hleft
      · exact .missed (hexited hnone ho) hmissed
  | left hexit hn h =>
      obtain ⟨ho, m, rfl, hleft⟩ := left_step h hstep
      exact .left (fun heard hin => hexit heard (hsilent ho heard hin)) (by omega) hleft
  | missed hexit h =>
      obtain ⟨ho, hmissed⟩ := missed_step h ha hstep
      exact .missed (fun heard hin => hexit heard (hsilent ho heard hin)) hmissed

/-- With restarts `main` waits for its first thread for ever.  Without, and as long as no exception
leaves the server: when `main` has signalled the exit, the program ends in at most two steps if the
signal has found an accept pending, and otherwise never. -/
theorem shutdown (B : Boost) (r : Started) {restart : Bool} {acts : List Action} {log : History}
    {s : Process}
    (hlog : (process B restart).log acts r.process = .ok (log, s)) :
    (restart = true → s.main = .joining 0) ∧
      (restart = false → Calm log → ∀ heard, (.main, .exited heard) ∈ log →
        if heard then WindsUp B s else Hangs B s) := by
  constructor
  · rintro rfl
    have hendless : s.Endless := Machine.log_invariant
      (fun _ _ _ _ h hstep => endless_step h hstep) ⟨rfl, r.extractors.length, rfl⟩ hlog
    exact hendless.main
  · rintro rfl hcalm heard hin
    have hphase : Calm ([] ++ log) → Phase ([] ++ log) s := by
      refine Machine.log_history (I := fun log s => Calm log → Phase log s) ?_ (fun _ => ?_) hlog
      · intro before a s o s' hbefore hstep hcalm
        obtain ⟨hcalm, ha⟩ := List.forall_mem_append.mp hcalm
        exact phase_step (hbefore hcalm) (ha _ (List.mem_singleton_self _)) hstep
      · refine .joining (fun heard h => absurd h List.not_mem_nil)
          ⟨⟨0, rfl, fun i hi => absurd hi (Nat.not_lt_zero i)⟩, rfl, Server.serves_starting⟩
    cases hphase hcalm with
    | joining hexit h => exact absurd hin (hexit heard)
    | left hexit hn h =>
        rw [if_pos (hexit heard hin)]
        exact windsUp_of_left hn h
    | missed hexit h =>
        rw [if_neg (by rw [hexit heard hin]; exact Bool.false_ne_true)]
        exact hangs_of_missed h

/-- What Boost does. -/
def Boost.common : Boost where
  cancel
    | .pending => .complete .operationAborted
    | a => a
  cancel_idle := rfl
  cancel_pending := rfl
  cancel_complete _ := rfl
  returns a := decide (a = .idle)
  returns_idle := rfl
  emit slots s := slots.foldl (fun s f => f s) s
  emit_eq _ _ := rfl

def oneInput : Started := ⟨[{ id := 1, name := "camera" }], 0, .initial⟩

/-- The signal finds the server waiting for a connection, or in a session. -/
theorem shutdown_camera :
    WindsUp Boost.common ⟨[false, false], .accepted .operationAborted, false, .joiningServer⟩ ∧
      Hangs Boost.common ⟨[false, false], .serving, false, .joiningServer⟩ := by
  have hheard : (process Boost.common false).log
      [.server .connect, .server .listen, .endPrimary 0 .returns, .main,
        .endPrimary 1 .throws, .main, .main] oneInput.process = .ok
      ([(.server .connect, .silent), (.server .listen, .silent), (.endPrimary 0 .returns, .silent),
        (.main, .silent), (.endPrimary 1 .throws, .silent), (.main, .silent),
        (.main, .exited true)],
        ⟨[false, false], .accepted .operationAborted, false, .joiningServer⟩) := rfl
  have hmissed : (process Boost.common false).log
      [.server .connect, .server .listen, .server (.complete .success), .server .handle,
        .endPrimary 0 .returns, .main, .endPrimary 1 .throws, .main, .main] oneInput.process = .ok
      ([(.server .connect, .silent), (.server .listen, .silent),
        (.server (.complete .success), .silent), (.server .handle, .silent),
        (.endPrimary 0 .returns, .silent), (.main, .silent), (.endPrimary 1 .throws, .silent),
        (.main, .silent), (.main, .exited false)],
        ⟨[false, false], .serving, false, .joiningServer⟩) := rfl
  constructor
  · exact (shutdown Boost.common oneInput hheard).2 rfl (by decide) true (by decide)
  · exact (shutdown Boost.common oneInput hmissed).2 rfl (by decide) false (by decide)

end Main
end Metamix
