/-
How often the remux loop tries again.

A read that fails is tried again and so is a write, each with its own counter.  `retries_iff` says
for every state that the loop comes to when it gives up: at the read that fails when the last ten
rounds have been such reads, and at the write that fails when the writes of the last ten packets
have failed, however many reads have failed between them.
-/
import Metamix.Io.Session

namespace Metamix
namespace Io

open Lib Time

/-! ## Failures in a row -/

/-- How many of the last elements have `p`. -/
def streak {α : Type} (p : α → Bool) (as : List α) : Nat := (as.reverse.takeWhile p).length

theorem streak_concat {α : Type} (p : α → Bool) (as : List α) (a : α) :
    streak p (as ++ [a]) = if p a then streak p as + 1 else 0 := by
  unfold streak
  rw [List.reverse_append, List.reverse_singleton, List.singleton_append, List.takeWhile_cons]
  split
  · rfl
  · rfl

namespace Round

def isReadError : Round → Bool
  | .readError _ => true
  | _ => false

def isPacket : Round → Bool
  | .packet _ _ _ => true
  | _ => false

def writeFails (source : SourceHandle) : Round → Bool
  | .packet pkt _ write =>
      match source.streams[toSize pkt.streamIndex]?, write with
      | some _, .done => false
      | _, _ => true
  | _ => false

end Round

def failedReads (rounds : List Round) : Nat := streak Round.isReadError rounds

def failedWrites (source : SourceHandle) (rounds : List Round) : Nat :=
  streak (Round.writeFails source) (rounds.filter Round.isPacket)

/-! ## The counters -/

structure Counted (source : SourceHandle) (rounds : List Round) (s : LoopState) : Prop where
  read : s.readTrial = failedReads rounds
  remux : s.remuxTrial = failedWrites source rounds

section Step

variable {A : AvRescale} {source : SourceHandle}

theorem failedReads_concat (rounds : List Round) (round : Round) :
    failedReads (rounds ++ [round]) = if round.isReadError then failedReads rounds + 1 else 0 :=
  streak_concat ..

theorem failedWrites_concat_of_not_packet (rounds : List Round) {round : Round}
    (h : round.isPacket = false) :
    failedWrites source (rounds ++ [round]) = failedWrites source rounds := by
  unfold failedWrites
  rw [List.filter_append, List.filter_cons_of_neg (by simp [h]), List.filter_nil, List.append_nil]

theorem failedWrites_concat_of_packet (rounds : List Round) {round : Round}
    (h : round.isPacket = true) : failedWrites source (rounds ++ [round]) =
      if round.writeFails source then failedWrites source rounds + 1 else 0 := by
  unfold failedWrites
  rw [List.filter_append, List.filter_cons_of_pos h, List.filter_nil, streak_concat]

theorem writeFails_of_none {pkt : AVPacket} (h : source.streams[toSize pkt.streamIndex]? = none)
    (processed : Except String Bool) (write : WriteFrame) :
    (Round.packet pkt processed write).writeFails source = true := by
  simp only [Round.writeFails, h]

theorem writeFails_done {pkt : AVPacket} {inStream : AVStream}
    (h : source.streams[toSize pkt.streamIndex]? = some inStream) (processed : Except String Bool) :
    (Round.packet pkt processed .done).writeFails source = false := by
  simp only [Round.writeFails, h]

theorem writeFails_failed (pkt : AVPacket) (processed : Except String Bool) (what : String)
    (curDts : Int) :
    (Round.packet pkt processed (.failed what curDts)).writeFails source = true := by
  cases h : source.streams[toSize pkt.streamIndex]? <;> simp only [Round.writeFails, h]

/-- What a write that does not end the loop does to the counters. -/
theorem writeRound_trials {s s' : LoopState} {pkt : AVPacket} (processed : Except String Bool)
    {brk : Bool} {write : WriteFrame} {u : Unit} {st : AVStream}
    (hst : getStream s.sink.streams pkt.streamIndex = .ok st)
    (h : writeRound A source s pkt brk write = .ok (u, s')) :
    s'.readTrial = s.readTrial ∧ s'.remuxTrial =
      if (Round.packet pkt processed write).writeFails source then s.remuxTrial + 1 else 0 := by
  unfold writeRound SinkHandle.remuxPacket at h
  cases hin : getStream source.streams pkt.streamIndex with
  | error e =>
      rw [hin] at h
      rw [writeFails_of_none (getStream_eq_error.mp hin).1]
      simp only at h
      split_ifs at h
      cases h
      exact ⟨rfl, rfl⟩
  | ok inStream =>
      rw [hin, hst] at h
      cases write with
      | done =>
          rw [writeFails_done (getStream_eq_ok.mp hin)]
          simp only at h
          split_ifs at h
          cases h
          exact ⟨rfl, rfl⟩
      | failed what curDts =>
          rw [writeFails_failed]
          simp only at h
          split_ifs at h
          cases h
          exact ⟨rfl, rfl⟩

/-- The step: a round that does not end the loop counts. -/
theorem Counted.step {rounds : List Round} {round : Round} {s s' : LoopState} {u : Unit}
    (h : Counted source rounds s) (hstep : remuxLoop A source round s = .ok (u, s')) :
    Counted source (rounds ++ [round]) s' := by
  cases round with
  | readError what =>
      simp only [remuxLoop] at hstep
      split_ifs at hstep
      cases hstep
      exact ⟨by rw [failedReads_concat, ← h.read]; rfl,
        by rw [failedWrites_concat_of_not_packet _ rfl, ← h.remux]⟩
  | eof => cases hstep
  | packet pkt processed write =>
      simp only [remuxLoop, remuxRound] at hstep
      cases hst : getStream s.sink.streams pkt.streamIndex with
      | error e =>
          rw [hst] at hstep
          cases hstep
      | ok st =>
          rw [hst] at hstep
          simp only at hstep
          split_ifs at hstep
          cases processed with
          | error what => cases hstep
          | ok brk =>
              have hst' : getStream (LoopState.mk 0 s.remuxTrial s.sink).sink.streams
                  pkt.streamIndex = .ok st := hst
              obtain ⟨hread, hremux⟩ := writeRound_trials (.ok brk) hst' hstep
              exact ⟨by rw [hread, failedReads_concat]; rfl,
                by rw [hremux, failedWrites_concat_of_packet _ rfl, ← h.remux]⟩

/-- The run: behind any rounds the counters say how many have failed in a row. -/
theorem Counted.run {rounds : List Round} {s s' : LoopState} (hread : s.readTrial = 0)
    (hremux : s.remuxTrial = 0) (hrun : (remuxLoop A source).run rounds s = .ok s') :
    Counted source rounds s' := by
  have hall := Machine.run_history (I := Counted source) (fun _ _ _ _ _ h hstep => h.step hstep)
    (show Counted source [] s from ⟨hread, hremux⟩) hrun
  rwa [List.nil_append] at hall

/-! ## Giving up -/

theorem writeRound_failed {s : LoopState} {pkt : AVPacket} {brk : Bool} {what : String}
    {curDts : Int} {inStream st : AVStream}
    (hin : getStream source.streams pkt.streamIndex = .ok inStream)
    (hst : getStream s.sink.streams pkt.streamIndex = .ok st) :
    writeRound A source s pkt brk (.failed what curDts) = .error (.thrown (.other what)) ↔
      maxRetry ≤ s.remuxTrial := by
  unfold writeRound SinkHandle.remuxPacket
  rw [hin, hst]
  simp only
  split_ifs with hlt hbrk
  · exact iff_of_false (fun h => by cases h) (Nat.not_le.mpr hlt)
  · exact iff_of_false (fun h => by cases h) (Nat.not_le.mpr hlt)
  · exact iff_of_true rfl (Nat.not_lt.mp hlt)

/-- At any state that the loop comes to, a read that fails ends it if and only if the ten rounds
before it were such reads, and a write that fails if and only if those of the ten packets before it
have failed. -/
theorem retries_iff {rounds : List Round} {s s' : LoopState} (hread : s.readTrial = 0)
    (hremux : s.remuxTrial = 0) (hrun : (remuxLoop A source).run rounds s = .ok s') :
    (∀ what, remuxLoop A source (.readError what) s' = .error (.thrown (.other what)) ↔
        maxRetry ≤ failedReads rounds) ∧
      ∀ pkt brk what curDts, writes source s' (.packet pkt (.ok brk) (.failed what curDts)) = true →
        (remuxLoop A source (.packet pkt (.ok brk) (.failed what curDts)) s' =
          .error (.thrown (.other what)) ↔ maxRetry ≤ failedWrites source rounds) := by
  obtain ⟨hcounted, hcounted'⟩ := Counted.run hread hremux hrun
  rw [← hcounted, ← hcounted']
  constructor
  · intro what
    simp only [remuxLoop]
    split_ifs with hlt
    · exact iff_of_false (fun h => by cases h) (Nat.not_le.mpr hlt)
    · exact iff_of_true rfl (Nat.not_lt.mp hlt)
  · intro pkt brk what curDts hwrites
    simp only [writes] at hwrites
    cases hst : getStream s'.sink.streams pkt.streamIndex with
    | error e =>
        rw [hst] at hwrites
        cases hwrites
    | ok st =>
        cases hin : getStream source.streams pkt.streamIndex with
        | error e =>
            rw [hst, hin] at hwrites
            cases hwrites
        | ok inStream =>
            rw [hst, hin] at hwrites
            obtain ⟨hmono, hpts⟩ := of_decide_eq_true hwrites
            simp only [remuxLoop, remuxRound]
            rw [hst]
            simp only [if_neg hmono, if_neg hpts]
            exact writeRound_failed hin hst

end Step

/-- Ten reads fail, and the loop would not try once more. -/
theorem retries_readErrors : (∃ s', (remuxLoop .nearest ⟨[]⟩).run
      (List.replicate 10 (.readError "timeout")) ⟨0, 0, ⟨[], false⟩⟩ = .ok s' ∧
    remuxLoop .nearest ⟨[]⟩ (.readError "timeout") s' = .error (.thrown (.other "timeout"))) := by
  have hrun : (remuxLoop .nearest ⟨[]⟩).run (List.replicate 10 (.readError "timeout"))
      ⟨0, 0, ⟨[], false⟩⟩ = .ok ⟨10, 0, ⟨[], false⟩⟩ := rfl
  exact ⟨_, hrun, ((retries_iff rfl rfl hrun).1 "timeout").mpr (by decide)⟩

end Io
end Metamix
