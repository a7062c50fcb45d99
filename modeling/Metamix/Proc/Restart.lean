/-
Restarts of the injector on one clock.

A session of the injector sets its rescalers up relative to the clock it finds, so that its
first packet is placed at the clock's time.  The ticker then adds that first timestamp to the
clock as a whole, and the clock is ahead of the packets by the time it had shown at the
start.  `Session.run_of_room` and `Session.run_ahead` are this for one session, and
`runSessions_inStep_iff` says which sequences of sessions get through without noticing: those
that find the clock at zero, with room for every packet.
-/
import Metamix.Proc.Overflow

namespace Metamix
namespace Proc

open Lib Binary Time

/-- One run of the injector: its stream's time base, and its packets in order. -/
structure Session where
  streamTimeBase : TimeBase
  packets : List Incoming
  ordered : packets.Pairwise fun a b => a.pts ≤ b.pts

variable (A : AvRescale)

/-- What `remux_loop` does with the packets of the video stream, as far as the clock is
concerned: after each packet, the time on the clock and the timestamp the rescaler of the injector
gave the packet.  Every sum is checked, those behind the rescaler too. -/
def runPackets : List Incoming → ClockTicker → TSRescaler → Clock →
    Except Overflow (List (Int × Int) × Clock)
  | [], _, _, clock => .ok ([], clock)
  | pkt :: pkts, ticker, rescaler, clock => do
      let (ticker, clock) ← ticker.processChecked A clock pkt.pts
      let _ ← SeiInjector.stamp A.rescaleQ clock.timeBase pkt rescaler
      let (rescaledPts, rescaler) := rescaler.rescaleToClock A clock pkt.pts
      let (trace, last) ← runPackets pkts ticker rescaler clock
      return ((clock.now, rescaledPts) :: trace, last)

def Session.run (s : Session) (clock : Clock) : Except Overflow (List (Int × Int) × Clock) :=
  runPackets A s.packets (.create s.streamTimeBase clock)
    (SeiInjector.create s.streamTimeBase clock).ptsRescaler clock

def runSessions : List Session → Clock → Except Overflow (List (Int × Int))
  | [], _ => .ok []
  | s :: ss, clock => do
      let (trace, clock) ← s.run A clock
      let rest ← runSessions ss clock
      return trace ++ rest

def InStep (trace : List (Int × Int)) : Prop := ∀ x ∈ trace, x.1 = x.2

def Session.advance (s : Session) (outtb : TimeBase) : Int :=
  match s.packets with
  | [] => 0
  | pkt :: pkts =>
    A.rescaleQ (((pkt :: pkts).getLast (by simp)).pts - pkt.pts) s.streamTimeBase outtb

/-- On a clock at zero there is room for every packet behind the first. -/
def Session.Room (s : Session) (outtb : TimeBase) : Prop :=
  ∀ first ∈ s.packets.head?, ∀ pkt ∈ s.packets,
    SeiInjector.Room A.rescaleQ outtb s.streamTimeBase 0 first.pts pkt

variable {A}

theorem Session.advance_nonneg (s : Session) (outtb : TimeBase) : 0 ≤ s.advance A outtb := by
  unfold Session.advance
  have hordered := s.ordered
  split
  · exact Int.le_refl 0
  · rename_i pkt pkts hs
    rw [hs] at hordered
    have hle : pkt.pts ≤ ((pkt :: pkts).getLast (by simp)).pts := by
      rcases List.mem_cons.mp (List.getLast_mem (l := pkt :: pkts) (by simp)) with h | h
      · rw [h]
      · exact (List.pairwise_cons.mp hordered).1 _ h
    have := A.rescaleQ_mono s.streamTimeBase outtb 0 _ (Int.sub_nonneg.mpr hle)
    rwa [A.rescaleQ_zero] at this

/-! ## One packet -/

/-- A run that gets through has got through its first packet, which had room. -/
theorem runPackets_eq_ok {pkt : Incoming} {pkts : List Incoming} {ticker : ClockTicker}
    {rescaler : TSRescaler} {clock last : Clock} {trace : List (Int × Int)}
    (h : runPackets A (pkt :: pkts) ticker rescaler clock = .ok (trace, last)) :
    ∃ ticker' clock' rest, ticker.processChecked A clock pkt.pts = .ok (ticker', clock') ∧
      SeiInjector.Room A.rescaleQ clock'.timeBase rescaler.localTimeBase rescaler.base
        (rescaler.tsZero.getD pkt.pts) pkt ∧
      runPackets A pkts ticker' (rescaler.rescaleToClock A clock' pkt.pts).2 clock' =
        .ok (rest, last) ∧
      trace = (clock'.now, (rescaler.rescaleToClock A clock' pkt.pts).1) :: rest := by
  obtain ⟨⟨ticker', clock'⟩, hprocess, h⟩ := of_bind_eq_ok h
  obtain ⟨o, hstamp, h⟩ := of_bind_eq_ok h
  obtain ⟨⟨rest, last'⟩, hrest, h⟩ := of_bind_eq_ok h
  cases h
  exact ⟨_, _, _, hprocess, (SeiInjector.stamp_eq_ok hstamp).1, hrest, rfl⟩

/-- A packet with room, given what the ticker makes of it. -/
theorem runPackets_of_process {pkt : Incoming} {pkts : List Incoming}
    {ticker ticker' : ClockTicker} {rescaler rescaler' : TSRescaler} {clock clock' : Clock}
    {rescaledPts : Int} (hprocess : ticker.processChecked A clock pkt.pts = .ok (ticker', clock'))
    (hroom : SeiInjector.Room A.rescaleQ clock'.timeBase rescaler.localTimeBase rescaler.base
      (rescaler.tsZero.getD pkt.pts) pkt)
    (hrescale : rescaler.rescaleToClock A clock' pkt.pts = (rescaledPts, rescaler')) :
    runPackets A (pkt :: pkts) ticker rescaler clock =
      (runPackets A pkts ticker' rescaler' clock').map
        fun r => ((clock'.now, rescaledPts) :: r.1, r.2) := by
  obtain ⟨o, hstamp⟩ := SeiInjector.stamp_of_room rfl hroom
  rw [runPackets, hprocess, ok_bind]
  show (SeiInjector.stamp A.rescaleQ clock'.timeBase pkt rescaler >>= _) = _
  rw [hstamp, ok_bind, hrescale]
  rfl

theorem runPackets_first {pkt : Incoming} {pkts : List Incoming} {tb outtb : TimeBase}
    (hroom : SeiInjector.Room A.rescaleQ outtb tb 0 pkt.pts pkt) :
    let rescaler : TSRescaler := ⟨tb, 0, some pkt.pts⟩
    runPackets A (pkt :: pkts) ⟨{}, ⟨tb, 0, none⟩⟩ ⟨tb, 0, none⟩ ⟨0, outtb⟩ =
      (runPackets A pkts ⟨⟨some 0⟩, rescaler⟩ rescaler ⟨0, outtb⟩).map
        fun r => ((0, 0) :: r.1, r.2) :=
  runPackets_of_process ClockTicker.processChecked_first hroom (TSRescaler.rescaleToClock_fresh rfl)

/-- A packet behind the first one, on a clock that shows the timestamp of the packet before. -/
theorem runPackets_next {pkt : Incoming} {pkts : List Incoming} {tb outtb : TimeBase}
    {zero before : Int} (hroom : SeiInjector.Room A.rescaleQ outtb tb 0 zero pkt)
    (hbefore : 0 ≤ before) (hle : before ≤ A.rescaleQ (pkt.pts - zero) tb outtb) :
    let rescaler : TSRescaler := ⟨tb, 0, some zero⟩
    let rescaledPts := A.rescaleQ (pkt.pts - zero) tb outtb
    runPackets A (pkt :: pkts) ⟨⟨some before⟩, rescaler⟩ rescaler ⟨before, outtb⟩ =
      (runPackets A pkts ⟨⟨some rescaledPts⟩, rescaler⟩ rescaler ⟨rescaledPts, outtb⟩).map
        fun r => ((rescaledPts, rescaledPts) :: r.1, r.2) := by
  intro rescaler rescaledPts
  have hprocess := ClockTicker.processChecked_next hroom.toRoom hbefore hle
  refine runPackets_of_process hprocess hroom ?_
  rw [TSRescaler.rescaleToClock_set rfl]
  show (0 + rescaledPts, rescaler) = _
  rw [Int.zero_add]

/-! ## One session -/

/-- From the second packet on the clock moves as the timestamps do. -/
theorem runPackets_of_room {tb outtb : TimeBase} {zero : Int} {last : Incoming}
    {pkts : List Incoming} (hlast : zero ≤ last.pts)
    (hordered : (last :: pkts).Pairwise fun a b => a.pts ≤ b.pts)
    (hroom : ∀ pkt ∈ pkts, SeiInjector.Room A.rescaleQ outtb tb 0 zero pkt) :
    let at_ (pts : Int) := A.rescaleQ (pts - zero) tb outtb
    let rescaler : TSRescaler := ⟨tb, 0, some zero⟩
    ∃ trace, runPackets A pkts ⟨⟨some (at_ last.pts)⟩, rescaler⟩ rescaler ⟨at_ last.pts, outtb⟩ =
        .ok (trace, ⟨at_ ((last :: pkts).getLast (by simp)).pts, outtb⟩) ∧ InStep trace := by
  intro at_ rescaler
  induction pkts generalizing last with
  | nil => exact ⟨[], rfl, List.forall_mem_nil _⟩
  | cons pkt pkts ih =>
      obtain ⟨hafter, hordered⟩ := List.pairwise_cons.mp hordered
      obtain ⟨hpkt, hroom⟩ := List.forall_mem_cons.mp hroom
      have hle : last.pts ≤ pkt.pts := hafter pkt List.mem_cons_self
      have hmono {a b : Int} (h : a ≤ b) : at_ a ≤ at_ b :=
        A.rescaleQ_mono _ _ _ _ (Int.sub_le_sub_right h zero)
      have hzero : at_ zero = 0 := by
        show A.rescaleQ (zero - zero) tb outtb = 0
        rw [Int.sub_self, A.rescaleQ_zero]
      have hnonneg : 0 ≤ at_ last.pts := hzero ▸ hmono hlast
      obtain ⟨trace, hrun, hstep⟩ := ih (Int.le_trans hlast hle) hordered hroom
      refine ⟨(at_ pkt.pts, at_ pkt.pts) :: trace, ?_, ?_⟩
      · rw [runPackets_next hpkt hnonneg (hmono hle), hrun, List.getLast_cons_cons]
        rfl
      · exact List.forall_mem_cons.mpr ⟨rfl, hstep⟩

/-- The packets of a run that gets through all had room. -/
theorem room_of_runPackets {pkts : List Incoming} {ticker : ClockTicker} {rescaler : TSRescaler}
    {clock last : Clock} {trace : List (Int × Int)} {zero : Int}
    (h : runPackets A pkts ticker rescaler clock = .ok (trace, last))
    (hzero : rescaler.tsZero = some zero) : ∀ pkt ∈ pkts,
      SeiInjector.Room A.rescaleQ clock.timeBase rescaler.localTimeBase rescaler.base zero pkt := by
  induction pkts generalizing ticker clock trace with
  | nil => exact List.forall_mem_nil _
  | cons pkt pkts ih =>
      obtain ⟨ticker', clock', rest, hprocess, hroom, hrest, -⟩ := runPackets_eq_ok h
      have htb := ClockTicker.processChecked_timeBase hprocess
      rw [TSRescaler.rescaleToClock_set hzero] at hrest
      rw [hzero, htb] at hroom
      exact List.forall_mem_cons.mpr ⟨hroom, htb ▸ ih hrest⟩

/-- On a clock at zero a session with room for its packets stays in step, and leaves the clock at
what it takes. -/
theorem Session.run_of_room {s : Session} {outtb : TimeBase} (h : s.Room A outtb) :
    ∃ trace, s.run A ⟨0, outtb⟩ = .ok (trace, ⟨s.advance A outtb, outtb⟩) ∧ InStep trace := by
  obtain ⟨tb, packets, hordered⟩ := s
  cases packets with
  | nil => exact ⟨[], rfl, List.forall_mem_nil _⟩
  | cons pkt pkts =>
      obtain ⟨hpkt, hroom⟩ := List.forall_mem_cons.mp (h pkt rfl)
      obtain ⟨trace, hrun, hstep⟩ := runPackets_of_room (Int.le_refl pkt.pts) hordered hroom
      simp only [Int.sub_self, A.rescaleQ_zero] at hrun
      refine ⟨(0, 0) :: trace, ?_, List.forall_mem_cons.mpr ⟨rfl, hstep⟩⟩
      show runPackets A (pkt :: pkts) ⟨{}, ⟨tb, 0, none⟩⟩ ⟨tb, 0, none⟩ ⟨0, outtb⟩ = _
      rw [runPackets_first hpkt, hrun]
      rfl

/-- Every packet of a session that gets through from a clock at zero had room. -/
theorem Session.room_of_run {s : Session} {outtb : TimeBase} {r : List (Int × Int) × Clock}
    (h : s.run A ⟨0, outtb⟩ = .ok r) : s.Room A outtb := by
  obtain ⟨tb, packets, hordered⟩ := s
  cases packets with
  | nil => exact fun first hfirst => nomatch hfirst
  | cons pkt pkts =>
      obtain ⟨ticker', clock', rest, hprocess, hroom, hrest, -⟩ := runPackets_eq_ok h
      have htb := ClockTicker.processChecked_timeBase hprocess
      have hpkts := room_of_runPackets hrest rfl
      rw [htb] at hroom hpkts
      intro first hfirst
      cases hfirst
      exact List.forall_mem_cons.mpr ⟨hroom, hpkts⟩

/-- On a clock that has moved, the first packet of a session finds it ahead. -/
theorem Session.run_ahead {s : Session} {clock last : Clock} {trace : List (Int × Int)}
    (h : s.run A clock = .ok (trace, last)) (hclock : 0 < clock.val) (hs : s.packets ≠ []) :
    ¬InStep trace := by
  obtain ⟨tb, packets, hordered⟩ := s
  cases packets with
  | nil => exact absurd rfl hs
  | cons pkt pkts =>
      obtain ⟨ticker', clock', rest, hprocess, -, -, rfl⟩ := runPackets_eq_ok h
      obtain ⟨-, hmodel⟩ := ClockTicker.processChecked_eq_ok hprocess
      have hfresh : TSRescaler.rescaleToClock A ⟨tb, clock.val, none⟩ clock pkt.pts =
          (clock.val, ⟨tb, clock.val, some pkt.pts⟩) := TSRescaler.rescaleToClock_fresh rfl
      have hclock' : clock' = clock.increment
          (TSRescaler.rescaleToClock A ⟨tb, clock.val, none⟩ clock pkt.pts).1 :=
        congrArg Prod.snd hmodel
      rw [hfresh, Clock.increment_of_nonneg (Int.le_of_lt hclock)] at hclock'
      intro hstep
      have hfirst : clock'.val =
          (TSRescaler.rescaleToClock A ⟨tb, clock.val, none⟩ clock' pkt.pts).1 :=
        hstep _ List.mem_cons_self
      rw [hclock', TSRescaler.rescaleToClock_fresh rfl] at hfirst
      have : clock.val + clock.val = clock.val := hfirst
      omega

/-! ## Several sessions -/

theorem runSessions_eq_ok {s : Session} {ss : List Session} {clock : Clock}
    {trace : List (Int × Int)} (h : runSessions A (s :: ss) clock = .ok trace) :
    ∃ first next rest, s.run A clock = .ok (first, next) ∧
      runSessions A ss next = .ok rest ∧ trace = first ++ rest := by
  obtain ⟨⟨first, next⟩, hfirst, h⟩ := of_bind_eq_ok h
  obtain ⟨rest, hrest, h⟩ := of_bind_eq_ok h
  cases h
  exact ⟨first, next, rest, hfirst, hrest, rfl⟩

theorem runSessions_cons {s : Session} {ss : List Session} {clock next : Clock}
    {first : List (Int × Int)} (h : s.run A clock = .ok (first, next)) :
    runSessions A (s :: ss) clock = (runSessions A ss next).map fun rest => first ++ rest := by
  rw [runSessions, h]
  rfl

theorem inStep_append {first rest : List (Int × Int)} :
    InStep (first ++ rest) ↔ InStep first ∧ InStep rest := List.forall_mem_append

/-- Once the clock has moved, the next session with a packet is out of step. -/
theorem runSessions_inStep_of_pos {ss : List Session} {clock : Clock} (hclock : 0 < clock.val) :
    (∃ trace, runSessions A ss clock = .ok trace ∧ InStep trace) ↔ ∀ s ∈ ss, s.packets = [] := by
  have hempty {s : Session} (hs : s.packets = []) : s.run A clock = .ok ([], clock) := by
    rw [Session.run, hs, runPackets]
  induction ss with
  | nil => exact iff_of_true ⟨[], rfl, List.forall_mem_nil _⟩ (List.forall_mem_nil _)
  | cons s ss ih =>
      rw [List.forall_mem_cons]
      constructor
      · intro h
        obtain ⟨trace, hrun, hstep⟩ := h
        obtain ⟨first, next, rest, hfirst, hrest, rfl⟩ := runSessions_eq_ok hrun
        obtain ⟨hstep, hstep'⟩ := inStep_append.mp hstep
        have hs : s.packets = [] := by
          by_contra hs
          exact Session.run_ahead hfirst hclock hs hstep
        rw [hempty hs] at hfirst
        cases hfirst
        exact ⟨hs, ih.mp ⟨rest, hrest, hstep'⟩⟩
      · intro h
        obtain ⟨trace, hrun, hstep⟩ := ih.mpr h.2
        refine ⟨trace, ?_, hstep⟩
        rw [runSessions_cons (hempty h.1), hrun]
        rfl

/-- A session on a clock at zero: the sessions behind it go on from what it takes. -/
theorem runSessions_inStep_cons {s : Session} {ss : List Session} {timeBase : TimeBase} :
    (∃ trace, runSessions A (s :: ss) ⟨0, timeBase⟩ = .ok trace ∧ InStep trace) ↔
      s.Room A timeBase ∧
        ∃ trace, runSessions A ss ⟨s.advance A timeBase, timeBase⟩ = .ok trace ∧ InStep trace := by
  constructor
  · intro h
    obtain ⟨trace, hrun, hstep⟩ := h
    obtain ⟨first, next, rest, hfirst, hrest, rfl⟩ := runSessions_eq_ok hrun
    have hroom := Session.room_of_run hfirst
    obtain ⟨first', hfirst', -⟩ := Session.run_of_room hroom
    rw [hfirst] at hfirst'
    cases hfirst'
    exact ⟨hroom, rest, hrest, (inStep_append.mp hstep).2⟩
  · intro h
    obtain ⟨hroom, rest, hrest, hstep⟩ := h
    obtain ⟨first, hfirst, hstep'⟩ := Session.run_of_room hroom
    refine ⟨first ++ rest, ?_, inStep_append.mpr ⟨hstep', hstep⟩⟩
    rw [runSessions_cons hfirst, hrest]
    rfl

/-- Sessions get through, and the clock and the packets stay together, exactly when every session
that a packet of a later session follows takes no time at all, and there is room for every
packet. -/
theorem runSessions_inStep_iff (ss : List Session) (timeBase : TimeBase) :
    (∃ trace, runSessions A ss ⟨0, timeBase⟩ = .ok trace ∧ InStep trace) ↔
      (ss.Pairwise fun s t => t.packets ≠ [] → s.advance A timeBase = 0) ∧
        ∀ s ∈ ss, s.Room A timeBase := by
  induction ss with
  | nil =>
      exact iff_of_true ⟨[], rfl, List.forall_mem_nil _⟩ ⟨List.Pairwise.nil, List.forall_mem_nil _⟩
  | cons s ss ih =>
      rw [runSessions_inStep_cons, List.pairwise_cons, List.forall_mem_cons]
      by_cases hzero : s.advance A timeBase = 0
      · rw [hzero, ih]
        constructor
        · intro h
          exact ⟨⟨fun _ _ _ => rfl, h.2.1⟩, h.1, h.2.2⟩
        · intro h
          exact ⟨h.2.1, h.1.2, h.2.2⟩
      · have hpos : 0 < s.advance A timeBase :=
          lt_of_le_of_ne (s.advance_nonneg timeBase) (Ne.symm hzero)
        rw [runSessions_inStep_of_pos hpos]
        constructor
        · intro h
          obtain ⟨hroom, hempty⟩ := h
          refine ⟨⟨fun t ht hne => absurd (hempty t ht) hne, ?_⟩, hroom,
            fun t ht first hfirst => ?_⟩
          · exact List.pairwise_of_forall_mem_list fun _ _ t ht hne => absurd (hempty t ht) hne
          · rw [hempty t ht] at hfirst
            cases hfirst
        · intro h
          obtain ⟨⟨hafter, -⟩, hroom, -⟩ := h
          refine ⟨hroom, fun t ht => ?_⟩
          by_contra hne
          exact hzero (hafter t ht hne)

/-- Two sessions of a stream in milliseconds, the first of them forty milliseconds long. -/
theorem runSessions_restart_ahead :
    ∃ ss trace, runSessions .nearest ss .init = .ok trace ∧ ¬InStep trace := by
  refine ⟨[⟨⟨1, 1000, by decide, by decide⟩, [⟨0, 0⟩, ⟨40, 0⟩], by simp⟩,
      ⟨⟨1, 1000, by decide, by decide⟩, [⟨0, 0⟩], by simp⟩],
    [(0, 0), (3600, 3600), (7200, 3600)], by rfl, ?_⟩
  intro h
  exact absurd (h (7200, 3600) (by decide)) (by decide)

end Proc
end Metamix
