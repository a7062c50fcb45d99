/-
Commands between their emitter and their parser.

The structured commands come back, and the cursor stands where they end.  A private command never
does: the identifier has been read when its four bytes are left out a second time, so what comes
back begins four bytes late, and the cursor stops four bytes behind the end of the command.
-/
import Metamix.Scte35.SectionRoundTrip
import Metamix.Scte35.Robust

namespace Metamix
namespace Scte35

open Lib Lib.Reader Binary

/-! ## Structured commands -/

theorem TimeSignal.reads {command : TimeSignal} (h : command.spliceTime.Fits) :
    Reads parseTimeSignal command.emit command := (SpliceTime.reads h).last _

/-- A structured command that fits the wire is read back, whatever stands behind it. -/
theorem structured_commands_read_back :
    (∀ command : SpliceInsert, command.Fits → ∀ t,
      parseSpliceInsert.run (command.emit ++ t) = .ok (command, t)) ∧
    (∀ command : SpliceSchedule, command.Fits → ∀ t,
      parseSpliceSchedule.run (command.emit ++ t) = .ok (command, t)) ∧
    ∀ command : TimeSignal, command.spliceTime.Fits → ∀ t,
      parseTimeSignal.run (command.emit ++ t) = .ok (command, t) :=
  ⟨fun _ h => SpliceInsert.reads h, fun _ h => SpliceSchedule.reads h,
    fun _ h => TimeSignal.reads h⟩

namespace Samples

def insert : SpliceInsert where
  id := 7
  more := some {
    outOfNetwork := true
    programSplice := false
    spliceImmediate := false
    spliceTime := none
    components := some [⟨1, some ⟨some 0x1ffffffff⟩⟩, ⟨2, some ⟨none⟩⟩]
    breakDuration := some ⟨true, 90000⟩
    uniqueProgramId := 3
    availNum := 0
    availsExpected := 1 }

def schedule : SpliceSchedule where
  events := [⟨1, none⟩, ⟨2, some {
    outOfNetwork := false
    splice := .on ⟨0xffffffff⟩
    breakDuration := none
    uniqueProgramId := 0
    availNum := 0
    availsExpected := 0 }⟩]

theorem insert_fits : insert.Fits := by
  intro more hmore
  obtain rfl := Option.some.inj hmore
  refine ⟨rfl, rfl, nofun, ?_, ?_, ?_⟩
  · intro components h
    obtain rfl := Option.some.inj h
    exact ⟨by decide, by decide⟩
  · intro components h component hmem
    obtain rfl := Option.some.inj h
    rcases List.mem_pair.mp hmem with rfl | rfl
    · refine ⟨rfl, fun time htime pts hpts => ?_⟩
      obtain rfl := Option.some.inj htime
      obtain rfl := Option.some.inj hpts
      decide
    · refine ⟨rfl, fun time htime pts hpts => ?_⟩
      obtain rfl := Option.some.inj htime
      cases hpts
  · intro b hb
    obtain rfl := Option.some.inj hb
    show (90000 : UInt64).toNat < 2 ^ 33
    decide

theorem schedule_fits : schedule.Fits := by
  refine ⟨by decide, fun event hevent more hmore => ?_⟩
  rcases List.mem_pair.mp hevent with rfl | rfl
  · cases hmore
  · obtain rfl := Option.some.inj hmore
    exact ⟨trivial, nofun⟩

theorem read_back : parseSpliceInsert.run (insert.emit ++ [0xff]) = .ok (insert, [0xff]) ∧
    parseSpliceSchedule.run (schedule.emit ++ [0xff]) = .ok (schedule, [0xff]) ∧
    parseTimeSignal.run ((⟨⟨none⟩⟩ : TimeSignal).emit ++ [0xff]) = .ok (⟨⟨none⟩⟩, [0xff]) :=
  ⟨structured_commands_read_back.1 insert insert_fits [0xff],
    structured_commands_read_back.2.1 schedule schedule_fits [0xff],
    structured_commands_read_back.2.2 ⟨⟨none⟩⟩ nofun [0xff]⟩

end Samples

/-! ## Private commands -/

/-- What comes back of a private command, and where the cursor stops. -/
theorem parsePrivateCommand_emit (identifier : UInt32) {d t : Bytes} (hd : 0 < d.length)
    (hlen : 4 + d.length < 0xfff) (ht : 6 ≤ t.length) :
    (parsePrivateCommand (4 + d.length)).run ((⟨identifier, d⟩ : PrivateCommand).emit ++ t) =
      .ok (⟨identifier, ((d ++ t).drop 4).take d.length⟩, t.drop 4) := by
  have hread : read32.run ((⟨identifier, d⟩ : PrivateCommand).emit ++ t) =
      .ok (identifier, d ++ t) := by
    rw [PrivateCommand.emit, flatMap_write8, List.append_assoc, read32_reads]
  have hfit : 4 + d.length ≤ (d ++ t).length := by
    rw [List.length_append]
    omega
  have hend : (d ++ t).drop (4 + d.length) = t.drop 4 := by
    rw [Nat.add_comm, ← List.drop_drop, List.drop_left]
  rw [parsePrivateCommand_run (by omega) hlen hread, if_pos hfit, hend, List.drop_take,
    Nat.add_sub_cancel_left]

theorem parseCommand_private (n : Nat) : parseCommand CommandType.privateCommand n =
    Command.privateCommand <$> parsePrivateCommand n := rfl

/-- The length that is consumed is not the one that was announced. -/
theorem parseCommandChecked_emit_private (identifier : UInt32) {d t : Bytes} (hd : 0 < d.length)
    (hlen : 4 + d.length < 0xfff) (ht : 6 ≤ t.length) :
    (parseCommandChecked CommandType.privateCommand (4 + d.length)).run
        ((⟨identifier, d⟩ : PrivateCommand).emit ++ t) =
      .error (parseError ("consumed command length: " ++ toString (8 + d.length) ++
        " differs from splice_command_length: " ++ toString (4 + d.length))) := by
  have hall : ((⟨identifier, d⟩ : PrivateCommand).emit ++ t).length = 4 + d.length + t.length := by
    rw [List.length_append, PrivateCommand.emit_length]
    rfl
  have hread : (parseCommand CommandType.privateCommand (4 + d.length)).run
      ((⟨identifier, d⟩ : PrivateCommand).emit ++ t) =
        .ok (.privateCommand ⟨identifier, ((d ++ t).drop 4).take d.length⟩, t.drop 4) := by
    rw [parseCommand_private, StateT.run_map, parsePrivateCommand_emit identifier hd hlen ht]
    rfl
  have hconsumed : (((⟨identifier, d⟩ : PrivateCommand).emit ++ t).length -
      (t.drop 4).length) % 2 ^ 16 = 8 + d.length := by
    rw [hall, List.length_drop]
    omega
  rw [parseCommandChecked, run_bind_of_ok (available_run _), if_pos (by omega),
    run_bind_of_ok (testConst_run _ _ _ _ _ (by omega)), run_bind_of_ok hread,
    run_bind_of_ok (available_run _)]
  simp only [hconsumed]
  rw [if_pos ⟨by omega, by omega⟩]
  rfl

/-- No private command survives the parser.  What is returned leaves out four bytes of the command
and ends with four bytes of what follows, and in a section it is not returned at all. -/
theorem privateCommand_lost (identifier : UInt32) (d t : Bytes) (hd : 0 < d.length)
    (hlen : 4 + d.length < 0xfff) (ht : 6 ≤ t.length) :
    (parsePrivateCommand (4 + d.length)).run ((⟨identifier, d⟩ : PrivateCommand).emit ++ t) =
        .ok (⟨identifier, ((d ++ t).drop 4).take d.length⟩, t.drop 4) ∧
      (parsePrivateCommand (4 + d.length)).run ((⟨identifier, d⟩ : PrivateCommand).emit ++ t) ≠
        .ok (⟨identifier, d⟩, t) ∧
      (parseCommandChecked CommandType.privateCommand (4 + d.length)).run
          ((⟨identifier, d⟩ : PrivateCommand).emit ++ t) =
        .error (parseError ("consumed command length: " ++ toString (8 + d.length) ++
          " differs from splice_command_length: " ++ toString (4 + d.length))) := by
  have hrun := parsePrivateCommand_emit identifier hd hlen ht
  refine ⟨hrun, fun h => ?_, parseCommandChecked_emit_private identifier hd hlen ht⟩
  rw [hrun] at h
  have hcursor := congrArg List.length (Prod.mk.inj (Except.ok.inj h)).2
  rw [List.length_drop] at hcursor
  omega

theorem privateCommand_lost_one :
    (parsePrivateCommand 5).run ((⟨1, [9]⟩ : PrivateCommand).emit ++ [0, 0, 1, 2, 3, 4]) =
        .ok (⟨1, [2]⟩, [3, 4]) ∧
      (parsePrivateCommand 5).run ((⟨1, [9]⟩ : PrivateCommand).emit ++ [0, 0, 1, 2, 3, 4]) ≠
        .ok (⟨1, [9]⟩, [0, 0, 1, 2, 3, 4]) ∧
      (parseCommandChecked CommandType.privateCommand 5).run
          ((⟨1, [9]⟩ : PrivateCommand).emit ++ [0, 0, 1, 2, 3, 4]) =
        .error (parseError ("consumed command length: " ++ toString 9 ++
          " differs from splice_command_length: " ++ toString 5)) :=
  privateCommand_lost 1 [9] [0, 0, 1, 2, 3, 4] (by decide) (by decide) (by decide)

/-- One byte behind the identifier: it is skipped, and three bytes of what follows with it. -/
theorem privateCommand_not_read_back :
    (parsePrivateCommand 5).run ((⟨1, [9]⟩ : PrivateCommand).emit ++ [0, 0, 1, 2, 3, 4]) ≠
      .ok (⟨1, [9]⟩, [0, 0, 1, 2, 3, 4]) := by
  intro h
  have hrun := @parsePrivateCommand_emit 1 [9] [0, 0, 1, 2, 3, 4] (by decide) (by decide)
    (by decide)
  rw [show 4 + [(9 : UInt8)].length = 5 from rfl, h] at hrun
  exact absurd (Prod.mk.inj (Except.ok.inj hrun)).2 (by decide)

end Scte35
end Metamix
