/-
The remux loop and its restart detector.

A stream that starts again is told by a decoding timestamp that does not increase: the loop
compares the packet it has just read with the sink's `cur_dts`.  The packet still counts in the
time base of the source, `cur_dts` in that of the sink.  `never_nonMonoDts_iff` says for every
run which packets this takes for a restart.

What the source, the packet processors and FFmpeg do in a round is part of the round.  The
processors change neither the timestamps of a packet nor its stream.
-/
import Metamix.Lib.Machine
import Metamix.Time.Clock

namespace Metamix
namespace Io

open Lib Time

/-! ## Streams and packets -/

def avNoptsValue : Int := -2 ^ 63

inductive MediaType where
  | unknown | video | audio | data | subtitle | attachment
deriving DecidableEq, Repr

structure AVStream where
  timeBase : TimeBase
  codecType : MediaType
  curDts : Int

def AVStream.setCurDts (st : AVStream) (curDts : Int) : AVStream := { st with curDts }

structure AVPacket where
  streamIndex : Int
  pts : Int
  dts : Int

/-- `static_cast<size_t>`. -/
def toSize (streamIndex : Int) : Nat := (streamIndex % 2 ^ 64).toNat

inductive RuntimeError where
  | outOfRange
  | nonMonoDts (streamIndex curDts dts : Int)
  | ptsLtDts (streamIndex pts dts : Int)
  /-- What FFmpeg or a packet processor says. -/
  | other (what : String)
deriving DecidableEq, Repr

def RuntimeError.what : RuntimeError → String
  | .outOfRange => "Out-of-range access to stream table."
  | .nonMonoDts streamIndex curDts dts =>
      "Input provided invalid, non monotonically increasing dts to muxer in stream " ++
        toString streamIndex ++ ": " ++ toString curDts ++ " >= " ++ toString dts ++
        ". This is interpreted as stream being restarted."
  | .ptsLtDts streamIndex pts dts =>
      "pts (" ++ toString pts ++ ") < dts (" ++ toString dts ++ ") in stream " ++
        toString streamIndex ++ ". This is interpreted as stream being restarted."
  | .other what => what

structure SourceHandle where
  streams : List AVStream

structure SinkHandle where
  streams : List AVStream
  /-- `AVFMT_TS_NONSTRICT` is set. -/
  tsNonstrict : Bool

def getStream (streams : List AVStream) (streamIndex : Int) : Except RuntimeError AVStream :=
  match streams[toSize streamIndex]? with
  | some st => .ok st
  | none => .error .outOfRange

/-! ## Writing -/

/-- How `av_interleaved_write_frame` ends.  A packet that is written leaves its own `dts` as
`cur_dts`; after a failure any value may stand there. -/
inductive WriteFrame where
  | done
  | failed (what : String) (curDts : Int)

/-- `av_packet_rescale_ts` on one timestamp. -/
def rescaleTs (A : AvRescale) (ts : Int) (inTimeBase outTimeBase : TimeBase) : Int :=
  if ts = avNoptsValue then ts else A.rescaleQ ts inTimeBase outTimeBase

def leaves (A : AvRescale) (inTimeBase outTimeBase : TimeBase) (pkt : AVPacket) : WriteFrame → Int
  | .done => rescaleTs A pkt.dts inTimeBase outTimeBase
  | .failed _ curDts => curDts

namespace SinkHandle

def setCurDts (sink : SinkHandle) (n : Nat) (curDts : Int) : SinkHandle :=
  { sink with streams := sink.streams.modify n fun st => st.setCurDts curDts }

/-- The outcome for the caller, and the sink. -/
def remuxPacket (A : AvRescale) (sink : SinkHandle) (pkt : AVPacket) (source : SourceHandle)
    (write : WriteFrame) : Except RuntimeError Unit × SinkHandle :=
  match getStream source.streams pkt.streamIndex, getStream sink.streams pkt.streamIndex with
  | .ok inStream, .ok outStream =>
      let sink := sink.setCurDts (toSize pkt.streamIndex)
        (leaves A inStream.timeBase outStream.timeBase pkt write)
      match write with
      | .done => (.ok (), sink)
      | .failed what _ => (.error (.other what), sink)
  | .error e, _ => (.error e, sink)
  | _, .error e => (.error e, sink)

end SinkHandle

/-! ## The loop -/

/-- What a round of the loop meets: the outcome of the read, and for a packet those of the
processors and of the write. -/
inductive Round where
  | readError (what : String)
  | eof
  | packet (pkt : AVPacket) (processed : Except String Bool) (write : WriteFrame)

inductive Ended where
  | eof
  | brk
  | thrown (err : RuntimeError)
deriving DecidableEq, Repr

structure LoopState where
  readTrial : Nat
  remuxTrial : Nat
  sink : SinkHandle

def maxRetry : Nat := 10

def NonMono (tsNonstrict : Bool) (st : AVStream) (pkt : AVPacket) : Prop :=
  st.curDts ≠ 0 ∧ st.curDts ≠ avNoptsValue ∧
    ((tsNonstrict = false ∧ st.codecType ≠ .subtitle ∧ st.codecType ≠ .data ∧
      st.curDts ≥ pkt.dts) ∨ st.curDts > pkt.dts)

instance (tsNonstrict : Bool) (st : AVStream) (pkt : AVPacket) :
    Decidable (NonMono tsNonstrict st pkt) := inferInstanceAs (Decidable (_ ∧ _))

def writeRound (A : AvRescale) (source : SourceHandle) (s : LoopState) (pkt : AVPacket)
    (brk : Bool) (write : WriteFrame) : Except Ended (Unit × LoopState) :=
  match s.sink.remuxPacket A pkt source write with
  | (.ok (), sink) =>
      if brk then .error .brk else .ok ((), { s with remuxTrial := 0, sink })
  | (.error e, sink) =>
      if s.remuxTrial < maxRetry then
        if brk then .error .brk
        else .ok ((), { s with remuxTrial := s.remuxTrial + 1, sink })
      else .error (.thrown e)

/-- The round from the check on. -/
def remuxRound (A : AvRescale) (source : SourceHandle) (s : LoopState) (pkt : AVPacket)
    (processed : Except String Bool) (write : WriteFrame) : Except Ended (Unit × LoopState) :=
  match getStream s.sink.streams pkt.streamIndex with
  | .error e => .error (.thrown e)
  | .ok st =>
      if NonMono s.sink.tsNonstrict st pkt then
        .error (.thrown (.nonMonoDts pkt.streamIndex st.curDts pkt.dts))
      else if pkt.dts ≠ avNoptsValue ∧ pkt.pts ≠ avNoptsValue ∧ pkt.pts < pkt.dts then
        .error (.thrown (.ptsLtDts pkt.streamIndex pkt.pts pkt.dts))
      else
        match processed with
        | .error what => .error (.thrown (.other what))
        | .ok brk => writeRound A source s pkt brk write

/-- `remux_loop`, one round of it. -/
def remuxLoop (A : AvRescale) (source : SourceHandle) : Machine Round Ended Unit LoopState
  | .readError what, s =>
      if s.readTrial < maxRetry then .ok ((), { s with readTrial := s.readTrial + 1 })
      else .error (.thrown (.other what))
  | .eof, _ => .error .eof
  | .packet pkt processed write, s =>
      remuxRound A source { s with readTrial := 0 } pkt processed write

/-! ## What a run leaves in the sink -/

def Round.ofStream (n : Nat) : Round → Option (AVPacket × WriteFrame)
  | .packet pkt _ write => if toSize pkt.streamIndex = n then some (pkt, write) else none
  | _ => none

def lastOf (n : Nat) (rounds : List Round) : Option (AVPacket × WriteFrame) :=
  (rounds.filterMap (Round.ofStream n)).getLast?

/-- The `cur_dts` of the sink's stream `n`, which is `st` at first, as the packets tell it. -/
def leftBehind (A : AvRescale) (source : SourceHandle) (n : Nat) (st : AVStream)
    (rounds : List Round) : Int :=
  match source.streams[n]?, lastOf n rounds with
  | some inStream, some (pkt, write) => leaves A inStream.timeBase st.timeBase pkt write
  | _, _ => st.curDts

theorem lastOf_concat (n : Nat) (rounds : List Round) (round : Round) :
    lastOf n (rounds ++ [round]) = (round.ofStream n).or (lastOf n rounds) := by
  unfold lastOf
  rw [List.filterMap_append]
  cases h : round.ofStream n with
  | none =>
      rw [List.filterMap_cons_none h, List.filterMap_nil, List.append_nil]
      rfl
  | some p =>
      rw [List.filterMap_cons_some h, List.filterMap_nil, List.getLast?_concat]
      rfl

section Step

variable {A : AvRescale} {source : SourceHandle}

theorem leftBehind_concat (n : Nat) (st : AVStream) (rounds : List Round) (round : Round) :
    leftBehind A source n st (rounds ++ [round]) =
      match source.streams[n]?, round.ofStream n with
      | some inStream, some (pkt, write) => leaves A inStream.timeBase st.timeBase pkt write
      | _, _ => leftBehind A source n st rounds := by
  unfold leftBehind
  rw [lastOf_concat]
  cases source.streams[n]? with
  | none => rfl
  | some inStream =>
      cases round.ofStream n with
      | none => rfl
      | some p => rfl

/-- The sink after some rounds: the streams it had, with what the rounds left in them. -/
structure Holds (A : AvRescale) (source : SourceHandle) (sink₀ : SinkHandle)
    (rounds : List Round) (s : LoopState) : Prop where
  tsNonstrict : s.sink.tsNonstrict = sink₀.tsNonstrict
  streams : ∀ n, s.sink.streams[n]? = sink₀.streams[n]?.map fun st : AVStream =>
    st.setCurDts (leftBehind A source n st rounds)

theorem getStream_eq_ok {streams : List AVStream} {i : Int} {st : AVStream} :
    getStream streams i = .ok st ↔ streams[toSize i]? = some st := by
  unfold getStream
  cases streams[toSize i]? <;> simp

theorem getStream_eq_error {streams : List AVStream} {i : Int} {e : RuntimeError} :
    getStream streams i = .error e ↔ streams[toSize i]? = none ∧ e = .outOfRange := by
  unfold getStream
  cases streams[toSize i]? <;> simp [eq_comm]

/-- A round that is of no stream leaves everything as it was. -/
theorem Holds.of_ofStream {sink₀ : SinkHandle} {rounds : List Round} {round : Round}
    {s s' : LoopState} (h : Holds A source sink₀ rounds s) (hsink : s'.sink = s.sink)
    (hround : ∀ n inStream, source.streams[n]? = some inStream → s.sink.streams[n]? ≠ none →
      round.ofStream n = none) : Holds A source sink₀ (rounds ++ [round]) s' where
  tsNonstrict := by rw [hsink, h.tsNonstrict]
  streams n := by
    have hn := hround n
    rw [hsink, h.streams]
    rw [h.streams] at hn
    cases hst : sink₀.streams[n]? with
    | none => rfl
    | some st =>
        rw [hst] at hn
        rw [Option.map_some, Option.map_some, leftBehind_concat]
        cases hin : source.streams[n]? with
        | none => rfl
        | some inStream => rw [hn inStream hin (by simp)]

theorem ofStream_packet (n : Nat) (pkt : AVPacket) (processed : Except String Bool)
    (write : WriteFrame) : (Round.packet pkt processed write).ofStream n =
      if toSize pkt.streamIndex = n then some (pkt, write) else none := rfl

theorem setCurDts_streams (sink : SinkHandle) (n m : Nat) (curDts : Int) :
    (sink.setCurDts n curDts).streams[m]? =
      if n = m then sink.streams[m]?.map fun st => st.setCurDts curDts else sink.streams[m]? := by
  show (sink.streams.modify n _)[m]? = _
  rw [List.getElem?_modify]
  by_cases hn : n = m
  · simp only [if_pos hn, Option.map_eq_map]
  · simp only [if_neg hn, id_map']

/-- Writing a packet changes the stream of the packet and no other. -/
theorem Holds.setCurDts {sink₀ : SinkHandle} {rounds : List Round} {s : LoopState}
    (h : Holds A source sink₀ rounds s) {pkt : AVPacket} {inStream st : AVStream}
    (hin : source.streams[toSize pkt.streamIndex]? = some inStream)
    (hst : sink₀.streams[toSize pkt.streamIndex]? = some st) (processed : Except String Bool)
    (write : WriteFrame) (readTrial remuxTrial : Nat) :
    Holds A source sink₀ (rounds ++ [.packet pkt processed write])
      ⟨readTrial, remuxTrial, s.sink.setCurDts (toSize pkt.streamIndex)
        (leaves A inStream.timeBase st.timeBase pkt write)⟩ where
  tsNonstrict := h.tsNonstrict
  streams n := by
    rw [setCurDts_streams, h.streams]
    by_cases hn : toSize pkt.streamIndex = n
    · subst hn
      rw [if_pos rfl, hst, Option.map_some, Option.map_some, Option.map_some, leftBehind_concat,
        hin, ofStream_packet, if_pos rfl]
      rfl
    · rw [if_neg hn]
      cases sink₀.streams[n]? with
      | none => rfl
      | some st' =>
          rw [Option.map_some, Option.map_some, leftBehind_concat, ofStream_packet, if_neg hn]
          cases source.streams[n]? <;> rfl

theorem Holds.remuxPacket {sink₀ : SinkHandle} {rounds : List Round} {s : LoopState}
    (h : Holds A source sink₀ rounds s) (pkt : AVPacket) (processed : Except String Bool)
    (write : WriteFrame) (readTrial remuxTrial : Nat) :
    Holds A source sink₀ (rounds ++ [.packet pkt processed write])
      ⟨readTrial, remuxTrial, (s.sink.remuxPacket A pkt source write).2⟩ := by
  unfold SinkHandle.remuxPacket
  cases hin : getStream source.streams pkt.streamIndex with
  | error e =>
      refine h.of_ofStream rfl fun n inStream hn _ => ?_
      have hnone := (getStream_eq_error.mp hin).1
      rw [ofStream_packet, if_neg]
      intro heq
      rw [heq, hn] at hnone
      cases hnone
  | ok inStream =>
      rw [getStream_eq_ok] at hin
      cases hout : getStream s.sink.streams pkt.streamIndex with
      | error e =>
          refine h.of_ofStream rfl fun n inStream hn hsome => ?_
          have hnone := (getStream_eq_error.mp hout).1
          rw [ofStream_packet, if_neg]
          intro heq
          rw [heq] at hnone
          exact hsome hnone
      | ok outStream =>
          rw [getStream_eq_ok, h.streams] at hout
          obtain ⟨st, hst, rfl⟩ := Option.map_eq_some_iff.mp hout
          have hwritten := h.setCurDts hin hst processed write readTrial remuxTrial
          cases write with
          | done => exact hwritten
          | failed what curDts => exact hwritten

/-- What a round that goes on leaves is what the write leaves. -/
theorem writeRound_eq_ok {s s' : LoopState} {pkt : AVPacket} {brk : Bool} {write : WriteFrame}
    {u : Unit} (h : writeRound A source s pkt brk write = .ok (u, s')) :
    ∃ remuxTrial, s' = ⟨s.readTrial, remuxTrial, (s.sink.remuxPacket A pkt source write).2⟩ := by
  unfold writeRound at h
  cases hwrite : s.sink.remuxPacket A pkt source write with
  | mk r sink =>
      rw [hwrite] at h
      cases r with
      | ok u =>
          simp only at h
          split_ifs at h
          cases h
          exact ⟨0, rfl⟩
      | error e =>
          simp only at h
          split_ifs at h
          cases h
          exact ⟨s.remuxTrial + 1, rfl⟩

theorem remuxRound_eq_ok {s s' : LoopState} {pkt : AVPacket} {processed : Except String Bool}
    {write : WriteFrame} {u : Unit} (h : remuxRound A source s pkt processed write = .ok (u, s')) :
    ∃ remuxTrial, s' = ⟨s.readTrial, remuxTrial, (s.sink.remuxPacket A pkt source write).2⟩ := by
  unfold remuxRound at h
  cases hst : getStream s.sink.streams pkt.streamIndex with
  | error e =>
      rw [hst] at h
      cases h
  | ok st =>
      rw [hst] at h
      simp only at h
      split_ifs at h
      cases processed with
      | error what => cases h
      | ok brk => exact writeRound_eq_ok h

theorem Holds.step {sink₀ : SinkHandle} {rounds : List Round} {round : Round} {s s' : LoopState}
    {u : Unit} (h : Holds A source sink₀ rounds s)
    (hstep : remuxLoop A source round s = .ok (u, s')) :
    Holds A source sink₀ (rounds ++ [round]) s' := by
  cases round with
  | readError what =>
      simp only [remuxLoop] at hstep
      split_ifs at hstep
      cases hstep
      exact h.of_ofStream rfl fun _ _ _ _ => rfl
  | eof => cases hstep
  | packet pkt processed write =>
      obtain ⟨remuxTrial, rfl⟩ := remuxRound_eq_ok hstep
      exact h.remuxPacket pkt processed write 0 remuxTrial

theorem Holds.run {rounds : List Round} {s s' : LoopState}
    (hrun : (remuxLoop A source).run rounds s = .ok s') : Holds A source s.sink rounds s' := by
  have hstart : Holds A source s.sink [] s := by
    refine ⟨rfl, fun n => ?_⟩
    cases hst : s.sink.streams[n]? with
    | none => rfl
    | some st =>
      cases hin : source.streams[n]? <;> simp [leftBehind, hin, lastOf, AVStream.setCurDts]
  have hall := Machine.run_history (fun _ _ _ _ _ h hstep => h.step hstep) hstart hrun
  rwa [List.nil_append] at hall

end Step

/-! ## False alarms -/

/-- A stream with `cur_dts` left in it does not count as restarted when the packet comes. -/
def Quiet (tsNonstrict : Bool) (codecType : MediaType) (curDts : Int) (pkt : AVPacket) : Prop :=
  curDts = 0 ∨ curDts = avNoptsValue ∨ curDts < pkt.dts ∨
    curDts = pkt.dts ∧ (tsNonstrict = true ∨ codecType = .subtitle ∨ codecType = .data)

theorem not_nonMono_iff {tsNonstrict : Bool} {st : AVStream} {pkt : AVPacket} :
    ¬NonMono tsNonstrict st pkt ↔ Quiet tsNonstrict st.codecType st.curDts pkt := by
  unfold NonMono Quiet
  rcases Int.lt_trichotomy st.curDts pkt.dts with hlt | heq | hgt
  · have hge : ¬st.curDts ≥ pkt.dts := by omega
    have hgt : ¬st.curDts > pkt.dts := by omega
    simp only [hge, hgt, hlt, and_false, or_false, not_false_eq_true, true_or, or_true]
  · simp only [heq, ge_iff_le, Int.le_refl, and_true, gt_iff_lt, Int.lt_irrefl, or_false,
      false_or, true_and]
    cases tsNonstrict <;> simp only [Bool.false_eq_true, Bool.true_eq_false] <;> tauto
  · have hlt : ¬st.curDts < pkt.dts := by omega
    have hne : st.curDts ≠ pkt.dts := by omega
    simp only [hgt, hlt, hne, or_true, and_true, false_and, or_false]
    tauto

def TellsRestart {α : Type} (r : Except Ended α) : Prop :=
  ∃ streamIndex curDts dts, r = .error (.thrown (.nonMonoDts streamIndex curDts dts))

def Reaches (A : AvRescale) (source : SourceHandle) (s : LoopState) (rounds before : List Round)
    (pkt : AVPacket) : Prop :=
  ∃ processed write behind s', rounds = before ++ .packet pkt processed write :: behind ∧
    Machine.run (remuxLoop A source) before s = .ok s'

section FalseAlarm

variable {A : AvRescale} {source : SourceHandle}

theorem remuxPacket_error {sink sink' : SinkHandle} {pkt : AVPacket} {write : WriteFrame}
    {e : RuntimeError} (h : sink.remuxPacket A pkt source write = (.error e, sink')) :
    ∀ i c d, e ≠ .nonMonoDts i c d := by
  intro i c d
  unfold SinkHandle.remuxPacket at h
  cases hin : getStream source.streams pkt.streamIndex with
  | error e' =>
      rw [hin, (getStream_eq_error.mp hin).2] at h
      cases h
      exact RuntimeError.noConfusion
  | ok inStream =>
      cases hout : getStream sink.streams pkt.streamIndex with
      | error e' =>
          rw [hin, hout, (getStream_eq_error.mp hout).2] at h
          cases h
          exact RuntimeError.noConfusion
      | ok outStream =>
          rw [hin, hout] at h
          cases write with
          | done => cases h
          | failed what curDts =>
              cases h
              exact RuntimeError.noConfusion

theorem not_tellsRestart_writeRound (s : LoopState) (pkt : AVPacket) (brk : Bool)
    (write : WriteFrame) : ¬TellsRestart (writeRound A source s pkt brk write) := by
  intro h
  obtain ⟨i, c, d, h⟩ := h
  unfold writeRound at h
  cases hwrite : s.sink.remuxPacket A pkt source write with
  | mk r sink =>
      rw [hwrite] at h
      cases r with
      | ok u =>
          simp only at h
          split_ifs at h
          cases h
      | error e =>
          have he : e = .nonMonoDts i c d := by
            simp only at h
            split_ifs at h
            · cases h
            · cases h
              rfl
          exact remuxPacket_error hwrite i c d he

/-- The step: a round tells a restart exactly if its packet does not increase. -/
theorem tellsRestart_packet_iff {s : LoopState} {pkt : AVPacket} {processed : Except String Bool}
    {write : WriteFrame} :
    TellsRestart (remuxLoop A source (.packet pkt processed write) s) ↔
      ∃ st, s.sink.streams[toSize pkt.streamIndex]? = some st ∧
        NonMono s.sink.tsNonstrict st pkt := by
  show TellsRestart (remuxRound A source { s with readTrial := 0 } pkt processed write) ↔ _
  unfold remuxRound
  cases hst : getStream s.sink.streams pkt.streamIndex with
  | error e =>
      obtain ⟨hnone, rfl⟩ := getStream_eq_error.mp hst
      refine iff_of_false nofun fun h => ?_
      obtain ⟨st, hsome, -⟩ := h
      rw [hnone] at hsome
      cases hsome
  | ok st =>
      have hsome := getStream_eq_ok.mp hst
      have hexists : (∃ st, s.sink.streams[toSize pkt.streamIndex]? = some st ∧
          NonMono s.sink.tsNonstrict st pkt) ↔ NonMono s.sink.tsNonstrict st pkt := by
        simp only [hsome, Option.some.injEq, exists_eq_left']
      rw [hexists]
      by_cases hmono : NonMono s.sink.tsNonstrict st pkt
      · simp only [if_pos hmono]
        exact iff_of_true ⟨_, _, _, rfl⟩ hmono
      · simp only [if_neg hmono]
        refine iff_of_false (fun h => ?_) hmono
        split_ifs at h with hpts
        · obtain ⟨i, c, d, h⟩ := h
          cases h
        · cases processed with
          | error what =>
              obtain ⟨i, c, d, h⟩ := h
              cases h
          | ok brk => exact not_tellsRestart_writeRound _ pkt brk write h

theorem not_tellsRestart_readError {s : LoopState} {what : String} :
    ¬TellsRestart (remuxLoop A source (.readError what) s) := by
  intro h
  obtain ⟨i, c, d, h⟩ := h
  simp only [remuxLoop] at h
  split_ifs at h
  cases h

/-- What a packet that is reached meets in its stream. -/
theorem tellsRestart_reached_iff {s s' : LoopState} {before : List Round}
    (hrun : Machine.run (remuxLoop A source) before s = .ok s') (pkt : AVPacket)
    (processed : Except String Bool) (write : WriteFrame) :
    TellsRestart (remuxLoop A source (.packet pkt processed write) s') ↔
      ∃ st, s.sink.streams[toSize pkt.streamIndex]? = some st ∧
        ¬Quiet s.sink.tsNonstrict st.codecType
          (leftBehind A source (toSize pkt.streamIndex) st before) pkt := by
  have hholds := Holds.run hrun
  rw [tellsRestart_packet_iff, hholds.tsNonstrict, hholds.streams]
  constructor
  · intro h
    obtain ⟨st', hst', hmono⟩ := h
    obtain ⟨st, hst, rfl⟩ := Option.map_eq_some_iff.mp hst'
    exact ⟨st, hst, fun hquiet => not_nonMono_iff.mpr hquiet hmono⟩
  · intro h
    obtain ⟨st, hst, hquiet⟩ := h
    refine ⟨_, by rw [hst]; rfl, ?_⟩
    by_contra hmono
    exact hquiet (not_nonMono_iff.mp hmono)

/-- The run: a restart is told exactly if the loop gets to a packet that is not quiet. -/
theorem tellsRestart_run_iff {s : LoopState} {rounds : List Round} :
    TellsRestart (Machine.run (remuxLoop A source) rounds s) ↔
      ∃ before pkt st, Reaches A source s rounds before pkt ∧
        s.sink.streams[toSize pkt.streamIndex]? = some st ∧
        ¬Quiet s.sink.tsNonstrict st.codecType
          (leftBehind A source (toSize pkt.streamIndex) st before) pkt := by
  constructor
  · intro h
    obtain ⟨i, c, d, h⟩ := h
    obtain ⟨before, round, behind, s', hsplit, hrun, hstep⟩ := Machine.run_eq_error_iff.mp h
    cases round with
    | readError what => exact absurd ⟨i, c, d, hstep⟩ not_tellsRestart_readError
    | eof => cases hstep
    | packet pkt processed write =>
        obtain ⟨st, hst, hquiet⟩ :=
          (tellsRestart_reached_iff hrun pkt processed write).mp ⟨i, c, d, hstep⟩
        exact ⟨before, pkt, st, ⟨processed, write, behind, s', hsplit, hrun⟩, hst, hquiet⟩
  · intro h
    obtain ⟨before, pkt, st, ⟨processed, write, behind, s', hsplit, hrun⟩, hst, hquiet⟩ := h
    obtain ⟨i, c, d, hstep⟩ :=
      (tellsRestart_reached_iff hrun pkt processed write).mpr ⟨st, hst, hquiet⟩
    exact ⟨i, c, d, Machine.run_eq_error_iff.mpr ⟨before, _, behind, s', hsplit, hrun, hstep⟩⟩

/-- The detector is quiet for a whole run if and only if, at every packet the loop gets to, what
the last packet of the stream has left in the sink, in the time base of the sink, is nothing or
less than the packet's own timestamp in the time base of the source, or the same where the muxer
allows that. -/
theorem never_nonMonoDts_iff (A : AvRescale) (source : SourceHandle) (s : LoopState)
    (rounds : List Round) : ¬TellsRestart (Machine.run (remuxLoop A source) rounds s) ↔
      ∀ before pkt st, Reaches A source s rounds before pkt →
        s.sink.streams[toSize pkt.streamIndex]? = some st →
        Quiet s.sink.tsNonstrict st.codecType
          (leftBehind A source (toSize pkt.streamIndex) st before) pkt := by
  rw [tellsRestart_run_iff]
  constructor
  · intro h before pkt st hreach hst
    by_contra hquiet
    exact h ⟨before, pkt, st, hreach, hst, hquiet⟩
  · intro h hrestart
    obtain ⟨before, pkt, st, hreach, hst, hquiet⟩ := hrestart
    exact hquiet (h before pkt st hreach hst)

/-- Forty milliseconds between two packets of a source that counts milliseconds.  The sink, which
counts in 1/90000 s, remembers the first one as 90000. -/
theorem nonMonoDts_false_alarm :
    let source : AVStream := ⟨⟨1, 1000, by decide, by decide⟩, .video, 0⟩
    let sink : AVStream := ⟨⟨1, 90000, by decide, by decide⟩, .video, 0⟩
    let rescale := fun ts => AvRescale.nearest.rescaleQ ts source.timeBase sink.timeBase
    rescale 1000 < rescale 1040 ∧
      Machine.run (remuxLoop .nearest ⟨[source]⟩)
        [.packet ⟨0, 1000, 1000⟩ (.ok false) .done, .packet ⟨0, 1040, 1040⟩ (.ok false) .done]
        ⟨0, 0, [sink], false⟩ = .error (.thrown (.nonMonoDts 0 90000 1040)) := ⟨by decide, rfl⟩

theorem mem_of_lastOf {n : Nat} {rounds : List Round} {p : AVPacket × WriteFrame}
    (h : lastOf n rounds = some p) : p ∈ rounds.filterMap (Round.ofStream n) :=
  List.mem_of_getLast? h

/-- A sink that counts no finer than the source is quiet: what stands in it is at most the last
timestamp of the stream. -/
theorem never_nonMonoDts_of_coarser {s : LoopState} {rounds : List Round}
    (hfresh : ∀ st ∈ s.sink.streams, st.curDts = 0 ∨ st.curDts = avNoptsValue)
    (hcoarse : ∀ (n : Nat) (inStream st : AVStream), source.streams[n]? = some inStream →
      s.sink.streams[n]? = some st → inStream.timeBase.numerator * st.timeBase.denominator ≤
        st.timeBase.numerator * inStream.timeBase.denominator)
    (hdone : ∀ n, ∀ p ∈ rounds.filterMap (Round.ofStream n), p.2 = .done ∧ 0 < p.1.dts)
    (hincr : ∀ n, (rounds.filterMap (Round.ofStream n)).Pairwise fun p p' => p.1.dts < p'.1.dts) :
    ¬TellsRestart (Machine.run (remuxLoop .nearest source) rounds s) := by
  rw [tellsRestart_run_iff]
  intro hrestart
  obtain ⟨before, pkt, st, ⟨processed, write, behind, -, rfl, -⟩, hst, hnot⟩ := hrestart
  refine hnot ?_
  have hof : (Round.packet pkt processed write).ofStream (toSize pkt.streamIndex) =
      some (pkt, write) := by rw [ofStream_packet, if_pos rfl]
  have hincr' := hincr (toSize pkt.streamIndex)
  have hdone' := hdone (toSize pkt.streamIndex)
  rw [List.filterMap_append, List.filterMap_cons_some hof] at hincr' hdone'
  unfold leftBehind
  cases hin : source.streams[toSize pkt.streamIndex]? with
  | none => exact (hfresh st (List.mem_of_getElem? hst)).elim .inl fun h => .inr (.inl h)
  | some inStream =>
      cases hlast : lastOf (toSize pkt.streamIndex) before with
      | none => exact (hfresh st (List.mem_of_getElem? hst)).elim .inl fun h => .inr (.inl h)
      | some p =>
          obtain ⟨last, lastWrite⟩ := p
          have hmem := mem_of_lastOf hlast
          obtain ⟨rfl, hpos⟩ := hdone' _ (List.mem_append_left _ hmem)
          have hlt : last.dts < pkt.dts :=
            (List.pairwise_append.mp hincr').2.2 _ hmem _ (List.mem_cons_self ..)
          have hrescaled := AvRescale.nearest_le (hcoarse _ inStream st hin hst) hpos
          refine .inr (.inr (.inl ?_))
          show rescaleTs .nearest last.dts inStream.timeBase st.timeBase < pkt.dts
          unfold rescaleTs
          split_ifs
          · exact hlt
          · exact Int.lt_of_le_of_lt hrescaled hlt

end FalseAlarm

end Io
end Metamix
