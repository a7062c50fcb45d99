/-
Rewriting the NALUs of one packet.

This is the `try` block of `SeiInjector::process`: take the packet apart, copy the
NALUs that come first, rebuild the SEI NALU behind them with the found captions, and
copy the rest.  `remux_eq_ok` says what a rewritten packet is made of.  The picture
survives as long as the length in front of the rebuilt NALU is right, and the source's
captions, whatever the source's own reader makes of them, are gone as long as they all
sit in that one NALU.
-/
import Metamix.H264.NaluLength
import Metamix.H264.SeiReader
import Mathlib.Data.List.TakeWhile
import Mathlib.Data.Nat.Log
import Mathlib.Data.Nat.ModEq

namespace Metamix
namespace Proc

open Lib Binary BinaryParser H264

/-! ## The code -/

/-- All valid NALUs of a packet, in order.  Invalid ones are skipped with a warning. -/
def collectNalus (data : Bytes) : Except Fault (List Nalu) :=
  match drain avPacketNaluParser data with
  | (_, some f) => .error f
  | (nalus, none) => .ok (nalus.filter Nalu.isValid)

/-- NALUs which are expected to be first, before SEIs. -/
def isLeading (n : Nalu) : Bool := n.type == .aud || n.type == .sps || n.type == .pps

/-- Where the loop over the NALUs stops and what is done with each part. -/
structure Layout where
  leading : List Nalu
  sei : Option Nalu
  rest : List Nalu

def layout (nalus : List Nalu) : Layout :=
  let leading := nalus.takeWhile isLeading
  match nalus.dropWhile isLeading with
  | [] => ⟨leading, none, []⟩
  | n :: rest => if n.type = .sei then ⟨leading, some n, rest⟩ else ⟨leading, none, n :: rest⟩

def isCc (sei : SeiPayload) : Bool := sei.type == SeiType.userDataRegistered

def stripCc (n : Nalu) : Except Fault (List SeiPayload) := do
  let seis ← drainSeiNalu n.data
  return seis.filter fun sei => !isCc sei

def rebuild (found : List SeiPayload) : Option Nalu → Except Fault (List SeiPayload)
  | none => .ok found
  | some n => do
      let seis ← stripCc n
      return seis ++ found

def emitNalus : List Nalu → Except Fault Bytes
  | [] => .ok []
  | n :: nalus => do
      let bytes ← emitAvccNalu n
      let buf ← emitNalus nalus
      return bytes ++ buf

def remux (found : List SeiPayload) (data : Bytes) : Except Fault Bytes := do
  let nalus ← collectNalus data
  let l := layout nalus
  let head ← emitNalus l.leading
  let seis ← rebuild found l.sei
  if seis.isEmpty then .error .assertion
  else do
    let sei ← emitSeiPayloadsToAvccNalu seis
    let tail ← emitNalus l.rest
    return head ++ (sei ++ tail)

/-- The packet that `process` leaves behind: a parse error is logged and the packet stays
as it was, any other exception ends the injector. -/
def rewritePacket (found : List SeiPayload) (data : Bytes) : Except Fault Bytes :=
  match remux found data with
  | .error (.parse _) => .ok data
  | r => r

/-! ## What the parts write -/

theorem collectNalus_eq_ok {data : Bytes} {nalus : List Nalu} :
    collectNalus data = .ok nalus ↔
      ∃ all, Splits avPacketNaluParser all data ∧ nalus = all.filter Nalu.isValid := by
  unfold collectNalus
  cases hdrain : drain avPacketNaluParser data with
  | mk all fault =>
      cases fault with
      | some f =>
          simp only [reduceCtorEq, false_iff]
          intro h
          obtain ⟨all', hs, _⟩ := h
          rw [(drain_eq_none _).mpr hs] at hdrain
          cases hdrain
      | none =>
          constructor
          · intro h
            exact ⟨all, (drain_eq_none _).mp hdrain, (Except.ok.inj h).symm⟩
          · intro h
            obtain ⟨all', hs, rfl⟩ := h
            rw [(drain_eq_none _).mpr hs] at hdrain
            cases hdrain
            rfl

theorem layout_append (nalus : List Nalu) :
    nalus = (layout nalus).leading ++ ((layout nalus).sei.toList ++ (layout nalus).rest) := by
  have h := (List.takeWhile_append_dropWhile (p := isLeading) (l := nalus)).symm
  unfold layout
  cases hd : nalus.dropWhile isLeading with
  | nil =>
      rw [hd] at h
      exact h
  | cons n rest =>
      rw [hd] at h
      by_cases hn : n.type = .sei
      · simp only [if_pos hn]
        exact h
      · simp only [if_neg hn]
        exact h

theorem layout_leading {nalus : List Nalu} {n : Nalu} (h : n ∈ (layout nalus).leading) :
    isLeading n = true := by
  have hl : (layout nalus).leading = nalus.takeWhile isLeading := by
    unfold layout
    split
    · rfl
    · split <;> rfl
  rw [hl] at h
  exact List.mem_takeWhile_imp h

/-- The NALU that is replaced is a SEI NALU; if there is none, what comes next is neither
a leading NALU nor a SEI NALU. -/
theorem layout_sei (nalus : List Nalu) :
    (∃ n, (layout nalus).sei = some n ∧ n.type = .sei) ∨
      ((layout nalus).sei = none ∧
        ∀ n rest, (layout nalus).rest = n :: rest → isLeading n = false ∧ n.type ≠ .sei) := by
  unfold layout
  cases hd : nalus.dropWhile isLeading with
  | nil => exact .inr ⟨rfl, fun n rest h => absurd h (by simp)⟩
  | cons n rest =>
      by_cases hn : n.type = .sei
      · simp only [if_pos hn]
        exact .inl ⟨n, rfl, hn⟩
      · simp only [if_neg hn]
        refine .inr ⟨trivial, fun m rest' h => ?_⟩
        obtain ⟨rfl, rfl⟩ := List.cons.inj h
        have hhead := List.head?_dropWhile_not isLeading nalus
        rw [hd] at hhead
        exact ⟨by simpa using hhead, hn⟩

theorem emitAvccNalu_of_lt {n : Nalu} (h : n.size < Nalu.maxLength) :
    emitAvccNalu n = .ok (frame n) := by
  have hmax : Nalu.maxLength < 2 ^ 32 := by decide
  have hword : (UInt32.ofNat n.size).toNat = n.size := by
    rw [UInt32.toNat_ofNat', Nat.mod_eq_of_lt (by omega)]
  rw [emitAvccNalu, emitNaluLength, hword, if_pos h]
  rfl

theorem emitNalus_of_lt {nalus : List Nalu} (h : ∀ n ∈ nalus, n.size < Nalu.maxLength) :
    emitNalus nalus = .ok (nalus.flatMap frame) := by
  induction nalus with
  | nil => rfl
  | cons n nalus ih =>
      rw [emitNalus, emitAvccNalu_of_lt (h n (List.mem_cons_self ..)), ok_bind,
        ih fun m hm => h m (List.mem_cons_of_mem _ hm), ok_bind]
      rfl

theorem emitNalus_eq_ok {nalus : List Nalu} {bytes : Bytes}
    (hmax : ∀ n ∈ nalus, n.size ≤ Nalu.maxLength) (h : emitNalus nalus = .ok bytes) :
    bytes = nalus.flatMap frame := by
  induction nalus generalizing bytes with
  | nil =>
      cases h
      rfl
  | cons n nalus ih =>
      obtain ⟨first, hfirst, h⟩ := of_bind_eq_ok h
      obtain ⟨rest, hrest, h⟩ := of_bind_eq_ok h
      obtain ⟨length, hlength, hfirst⟩ := of_bind_eq_ok hfirst
      have hword : (UInt32.ofNat n.size).toNat = n.size := by
        have hbound : Nalu.maxLength < 2 ^ 32 := by decide
        have hn := hmax n (List.mem_cons_self ..)
        rw [UInt32.toNat_ofNat', Nat.mod_eq_of_lt (by omega)]
      rw [emitNaluLength, hword] at hlength
      split_ifs at hlength
      cases hlength
      cases hfirst
      cases h
      rw [ih (fun m hm => hmax m (List.mem_cons_of_mem _ hm)) hrest, List.flatMap_cons, frame]

theorem emitSeiPayloadsToAvccNalu_eq_ok {seis : List SeiPayload} {bytes : Bytes}
    (h : emitSeiPayloadsToAvccNalu seis = .ok bytes) :
    ∃ length, length < 2 ^ 32 ∧ bytes = beBytes 4 length ++ seiNalu seis := by
  by_cases hlt : (sizeHint seis).toNat < Nalu.maxLength
  · rw [emitSeiPayloadsToAvccNalu_of_lt hlt] at h
    exact ⟨_, (sizeHint seis).toNat_lt, (Except.ok.inj h).symm⟩
  · rw [emitSeiPayloadsToAvccNalu_of_not_lt hlt] at h
    cases h

/-- A rewritten packet is what is left of the old one around the new SEI NALU. -/
theorem remux_eq_ok {found : List SeiPayload} {data out : Bytes}
    (h : remux found data = .ok out) :
    ∃ nalus seis head sei tail, collectNalus data = .ok nalus ∧
      rebuild found (layout nalus).sei = .ok seis ∧ emitNalus (layout nalus).leading = .ok head ∧
      emitSeiPayloadsToAvccNalu seis = .ok sei ∧ emitNalus (layout nalus).rest = .ok tail ∧
      out = head ++ (sei ++ tail) := by
  obtain ⟨nalus, hnalus, h⟩ := of_bind_eq_ok h
  obtain ⟨head, hhead, h⟩ := of_bind_eq_ok h
  obtain ⟨seis, hseis, h⟩ := of_bind_eq_ok h
  split_ifs at h
  obtain ⟨sei, hsei, h⟩ := of_bind_eq_ok h
  obtain ⟨tail, htail, h⟩ := of_bind_eq_ok h
  exact ⟨nalus, seis, head, sei, tail, hnalus, hseis, hhead, hsei, htail, (Except.ok.inj h).symm⟩

/-! ## The existing captions -/

/-- The payloads a reader gets out of a NALU before it fails, if it fails. -/
def payloadsOf (n : Nalu) : List SeiPayload :=
  match copyEbspToSodb n.data with
  | .error _ => []
  | .ok sodb => (drain seiParser (sodb.drop 1)).1

/-- By the standard's syntax the NALU carries a closed caption. -/
def CarriesCc (n : Nalu) : Prop :=
  n.type = .sei ∧ ∃ m ∈ messages n.data, m.1 = SeiType.userDataRegistered.toNat

instance (n : Nalu) : Decidable (CarriesCc n) :=
  inferInstanceAs (Decidable (n.type = .sei ∧
    ∃ m ∈ messages n.data, m.1 = SeiType.userDataRegistered.toNat))

theorem drainSeiNalu_payloadsOf {n : Nalu} {seis : List SeiPayload}
    (h : drainSeiNalu n.data = .ok seis) : payloadsOf n = seis := by
  obtain ⟨sodb, hsodb, hdrain⟩ := drain_of_drainSeiNalu h
  simp only [payloadsOf, hsodb, hdrain]

/-- Every payload that goes into the new SEI NALU is a payload of the replaced NALU that is
no closed caption, or was found. -/
theorem rebuild_eq_ok {found seis : List SeiPayload} {sei : Option Nalu}
    (h : rebuild found sei = .ok seis) :
    seis = (sei.toList.flatMap payloadsOf).filter (fun s => !isCc s) ++ found := by
  cases sei with
  | none =>
      cases h
      rfl
  | some n =>
      obtain ⟨kept, hstrip, h⟩ := of_bind_eq_ok h
      obtain ⟨all, hread, hstrip⟩ := of_bind_eq_ok hstrip
      rw [← Except.ok.inj h, ← Except.ok.inj hstrip, Option.toList_some, List.flatMap_singleton,
        drainSeiNalu_payloadsOf hread]

def otherMessages (nalus : List Nalu) : List (Nat × Bytes) :=
  ((layout nalus).sei.toList.flatMap fun n => messages n.data).filter
    fun m => m.1 ≠ SeiType.userDataRegistered.toNat

/-- What is promised of a rewritten packet: it has one SEI NALU written into it, and what is in
front of it and what is behind it drain into NALUs without closed captions, leading ones only
those in front.  The payloads of the new NALU are the replaced one's that are no captions and
behind them the found ones. -/
def Stripped (found : List SeiPayload) (nalus : List Nalu) (out : Bytes) : Prop :=
  ∃ pre sei post front back others,
    out = pre ++ (sei ++ post) ∧ drain avPacketNaluParser pre = (front, none) ∧
    drain avPacketNaluParser post = (back, none) ∧ (∀ n ∈ front, isLeading n = true) ∧
    emitSeiPayloadsToAvccNalu (others ++ found) = .ok sei ∧
    others.map SeiPayload.message = otherMessages nalus ∧
    ∀ n ∈ front ++ back, ¬CarriesCc n

/-- Every NALU of the packet that carries a closed caption has only leading NALUs in
front of it. -/
def CaptionsFirst (nalus : List Nalu) : Prop :=
  nalus.Pairwise fun m n => CarriesCc n → isLeading m = true

instance (nalus : List Nalu) : Decidable (CaptionsFirst nalus) :=
  inferInstanceAs (Decidable (nalus.Pairwise fun m n => CarriesCc n → isLeading m = true))

theorem not_leading_of_sei {n : Nalu} (h : n.type = .sei) : isLeading n = false := by
  simp [isLeading, h]

/-- The copied NALUs are free of captions exactly when all captions come first. -/
theorem copied_iff {nalus : List Nalu} :
    (∀ n ∈ (layout nalus).leading ++ (layout nalus).rest, ¬CarriesCc n) ↔
      CaptionsFirst nalus := by
  have hfirst : CaptionsFirst nalus ↔ ((layout nalus).leading ++
      ((layout nalus).sei.toList ++ (layout nalus).rest)).Pairwise
        fun m n => CarriesCc n → isLeading m = true := by
    rw [← layout_append]
    rfl
  rw [hfirst, List.pairwise_append, List.pairwise_append]
  constructor
  · intro h
    have hrest : ∀ n ∈ (layout nalus).rest, ¬CarriesCc n := fun n hn =>
      h n (List.mem_append_right _ hn)
    have hlead : ∀ m ∈ (layout nalus).leading, isLeading m = true := fun m hm =>
      layout_leading hm
    refine ⟨?_, ⟨?_, ?_, ?_⟩, ?_⟩
    · exact List.pairwise_of_forall_mem_list fun m hm _ _ _ => hlead m hm
    · cases (layout nalus).sei <;> simp
    · exact List.pairwise_of_forall_mem_list fun _ _ n hn hcc => absurd hcc (hrest n hn)
    · exact fun _ _ n hn hcc => absurd hcc (hrest n hn)
    · exact fun m hm _ _ _ => hlead m hm
  · intro h n hn hcc
    obtain ⟨-, ⟨-, hpair, hsei⟩, -⟩ := h
    have hlead := not_leading_of_sei hcc.1
    rcases List.mem_append.mp hn with hn | hn
    · rw [layout_leading hn] at hlead
      cases hlead
    · rcases layout_sei nalus with ⟨m, hm, hmsei⟩ | ⟨_, hhead⟩
      · have hm' := hsei m (by rw [hm]; simp) n hn hcc
        rw [not_leading_of_sei hmsei] at hm'
        cases hm'
      · cases hrest : (layout nalus).rest with
        | nil =>
            rw [hrest] at hn
            cases hn
        | cons m rest =>
            obtain ⟨hm, hmsei⟩ := hhead m rest hrest
            rw [hrest] at hn hpair
            rcases List.mem_cons.mp hn with rfl | hn
            · exact hmsei hcc.1
            · rw [(List.pairwise_cons.mp hpair).1 n hn hcc] at hm
              cases hm

theorem frame_append_inj {m n : Nalu} {s t : Bytes} (hm : m.size ≤ Nalu.maxLength)
    (hn : n.size ≤ Nalu.maxLength) (h : frame m ++ s = frame n ++ t) : m = n ∧ s = t := by
  have hbound : Nalu.maxLength < 256 ^ 4 := by decide
  rw [frame, frame, List.append_assoc, List.append_assoc] at h
  obtain ⟨hlen, h⟩ := List.append_inj h (by simp)
  have hsize : m.size = n.size := beBytes_inj (by omega) (by omega) hlen
  obtain ⟨hdata, hst⟩ := List.append_inj h hsize
  refine ⟨?_, hst⟩
  cases m
  cases n
  cases hdata
  rfl

theorem frame_ne_seiNalu {m : Nalu} (hm : isLeading m = true) {length : Nat}
    {seis : List SeiPayload} {s t : Bytes} :
    beBytes 4 length ++ (seiNalu seis ++ s) ≠ frame m ++ t := by
  intro h
  rw [frame, List.append_assoc] at h
  obtain ⟨-, h⟩ := List.append_inj h (by simp)
  have hfront : m.front = seiNaluTypeByte := by
    obtain ⟨data, hne⟩ := m
    cases data with
    | nil => exact absurd rfl hne
    | cons b data => exact (List.cons.inj h).1.symm
  have hsei : m.type = .sei := by
    rw [Nalu.type, hfront]
    decide
  rw [not_leading_of_sei hsei] at hm
  cases hm

/-- Leading NALUs in front of a SEI NALU are found again. -/
theorem leading_unique {front lead : List Nalu} {length length' : Nat}
    {seis seis' : List SeiPayload} {s t : Bytes}
    (hfront : ∀ n ∈ front, isLeading n = true ∧ n.size ≤ Nalu.maxLength)
    (hlead : ∀ n ∈ lead, isLeading n = true ∧ n.size ≤ Nalu.maxLength)
    (h : front.flatMap frame ++ (beBytes 4 length ++ (seiNalu seis ++ s)) =
      lead.flatMap frame ++ (beBytes 4 length' ++ (seiNalu seis' ++ t))) : front = lead := by
  induction front generalizing lead with
  | nil =>
      cases lead with
      | nil => rfl
      | cons m lead =>
          simp only [List.flatMap_nil, List.nil_append, List.flatMap_cons, List.append_assoc] at h
          exact absurd h (frame_ne_seiNalu (hlead m (List.mem_cons_self ..)).1)
  | cons n front ih =>
      cases lead with
      | nil =>
          simp only [List.flatMap_nil, List.nil_append, List.flatMap_cons, List.append_assoc] at h
          exact absurd h.symm (frame_ne_seiNalu (hfront n (List.mem_cons_self ..)).1)
      | cons m lead =>
          simp only [List.flatMap_cons, List.append_assoc] at h
          obtain ⟨rfl, hrest⟩ := frame_append_inj (hfront n (List.mem_cons_self ..)).2
            (hlead m (List.mem_cons_self ..)).2 h
          rw [ih (fun k hk => hfront k (List.mem_cons_of_mem _ hk))
            (fun k hk => hlead k (List.mem_cons_of_mem _ hk)) hrest]

theorem collectNalus_size {data : Bytes} {nalus : List Nalu} (h : collectNalus data = .ok nalus) :
    ∀ n ∈ nalus, n.size ≤ Nalu.maxLength := by
  obtain ⟨all, hsplits, rfl⟩ := collectNalus_eq_ok.mp h
  intro n hn
  exact (splits_iff_frames.mp hsplits).2 n (List.mem_of_mem_filter hn)

theorem message_injective : Function.Injective SeiPayload.message := by
  intro s t h
  obtain ⟨htype, hdata⟩ := Prod.mk.inj h
  cases s
  cases t
  cases UInt32.toNat_inj.mp htype
  cases hdata
  rfl

/-- What the code keeps of the replaced NALU is what the standard has in it besides captions. -/
theorem rebuild_messages {found seis : List SeiPayload} {nalus : List Nalu}
    (hsize : ∀ n ∈ nalus, n.size ≤ Nalu.maxLength)
    (h : rebuild found (layout nalus).sei = .ok seis) :
    ∃ others, seis = others ++ found ∧ others.map SeiPayload.message = otherMessages nalus := by
  unfold otherMessages
  rcases layout_sei nalus with ⟨n, hn, htype⟩ | ⟨hnone, -⟩
  · rw [hn] at h ⊢
    obtain ⟨kept, hstrip, h⟩ := of_bind_eq_ok h
    obtain ⟨all, hread, hstrip⟩ := of_bind_eq_ok hstrip
    cases h
    cases hstrip
    have hmem : n ∈ nalus := by
      rw [layout_append nalus, hn]
      simp
    refine ⟨_, rfl, ?_⟩
    rw [Option.toList_some, List.flatMap_singleton,
      messages_of_drainSeiNalu htype (hsize n hmem) hread, List.filter_map]
    congr 1
    refine List.filter_congr fun s _ => ?_
    by_cases hcc : s.type = SeiType.userDataRegistered
    · simp [isCc, SeiPayload.message, hcc]
    · have hne : s.type.toNat ≠ SeiType.userDataRegistered.toNat :=
        fun h => hcc (UInt32.toNat_inj.mp h)
      simp [isCc, SeiPayload.message, hcc, hne]
  · rw [hnone] at h ⊢
    cases h
    exact ⟨[], rfl, rfl⟩

/-- In the bytes of a rewritten packet the captions are those of the NALUs that were copied. -/
theorem stripped_iff_copied {found : List SeiPayload} {data out : Bytes} {nalus : List Nalu}
    (h : remux found data = .ok out) (hnalus : collectNalus data = .ok nalus) :
    Stripped found nalus out ↔
      ∀ n ∈ (layout nalus).leading ++ (layout nalus).rest, ¬CarriesCc n := by
  obtain ⟨nalus', seis, head, sei, tail, hcollect, hrebuild, hhead, hsei, htail, rfl⟩ :=
    remux_eq_ok h
  rw [hnalus] at hcollect
  cases hcollect
  have hsize := collectNalus_size hnalus
  obtain ⟨others, rfl, hothers⟩ := rebuild_messages hsize hrebuild
  have happ := layout_append nalus
  have hleadSize : ∀ n ∈ (layout nalus).leading, n.size ≤ Nalu.maxLength := fun n hn =>
    hsize n (by rw [happ]; exact List.mem_append_left _ hn)
  have hrestSize : ∀ n ∈ (layout nalus).rest, n.size ≤ Nalu.maxLength := fun n hn =>
    hsize n (by rw [happ]; exact List.mem_append_right _ (List.mem_append_right _ hn))
  have hheadEq := emitNalus_eq_ok hleadSize hhead
  have htailEq := emitNalus_eq_ok hrestSize htail
  constructor
  · intro hs
    obtain ⟨pre, sei', post, front, back, others', hout, hpre, hpost, hfront, hsei', hothers',
      hfree⟩ := hs
    obtain ⟨rfl, hfrontSize⟩ := splits_iff_frames.mp ((drain_eq_none _).mp hpre)
    have hsame : others' = others :=
      message_injective.list_map (hothers'.trans hothers.symm)
    rw [hsame, hsei] at hsei'
    cases hsei'
    obtain ⟨length, -, hbytes⟩ := emitSeiPayloadsToAvccNalu_eq_ok hsei
    rw [hheadEq, hbytes] at hout
    simp only [List.append_assoc] at hout
    have hlead : (layout nalus).leading = front :=
      leading_unique (fun n hn => ⟨layout_leading hn, hleadSize n hn⟩)
        (fun n hn => ⟨hfront n hn, hfrontSize n hn⟩) hout
    rw [hlead, List.append_cancel_left_eq, List.append_cancel_left_eq,
      List.append_cancel_left_eq] at hout
    have hrest : drain avPacketNaluParser post = ((layout nalus).rest, none) :=
      (drain_eq_none _).mpr (splits_iff_frames.mpr ⟨hout ▸ htailEq, hrestSize⟩)
    rw [hpost] at hrest
    rw [hlead, ← (Prod.mk.inj hrest).1]
    exact hfree
  · intro hfree
    exact ⟨head, sei, tail, (layout nalus).leading, (layout nalus).rest, others, rfl,
      (drain_eq_none _).mpr (splits_iff_frames.mpr ⟨hheadEq, hleadSize⟩),
      (drain_eq_none _).mpr (splits_iff_frames.mpr ⟨htailEq, hrestSize⟩),
      fun n hn => layout_leading hn, hsei, hothers, hfree⟩

/-- A packet that was rewritten is free of the source's captions exactly when they were
all in the SEI NALU right behind the leading NALUs. -/
theorem remux_stripped_iff {found : List SeiPayload} {data out : Bytes} {nalus : List Nalu}
    (h : remux found data = .ok out) (hnalus : collectNalus data = .ok nalus) :
    Stripped found nalus out ↔ CaptionsFirst nalus :=
  (stripped_iff_copied h hnalus).trans copied_iff

/-- An access unit whose captions sit right behind the delimiter, with a message that is kept,
and in which a message of no bytes comes behind the slice. -/
theorem remux_stripped_delimiter :
    Stripped [⟨4, [181]⟩] [⟨[9, 16], by decide⟩, ⟨[6, 1, 1, 7, 4, 1, 182, 128], by decide⟩,
        ⟨[101, 7], by decide⟩, ⟨[6, 1, 0, 128], by decide⟩]
      ([0, 0, 0, 2, 9, 16] ++ ([0, 0, 0, 9, 6, 1, 1, 7, 128, 4, 1, 181, 128] ++
        ([0, 0, 0, 2, 101, 7] ++ [0, 0, 0, 4, 6, 1, 0, 128]))) :=
  have hremux : remux [⟨4, [181]⟩] ([0, 0, 0, 2, 9, 16] ++ ([0, 0, 0, 8, 6, 1, 1, 7, 4, 1, 182,
      128] ++ ([0, 0, 0, 2, 101, 7] ++ [0, 0, 0, 4, 6, 1, 0, 128]))) =
      .ok ([0, 0, 0, 2, 9, 16] ++ ([0, 0, 0, 9, 6, 1, 1, 7, 128, 4, 1, 181, 128] ++
        ([0, 0, 0, 2, 101, 7] ++ [0, 0, 0, 4, 6, 1, 0, 128]))) := by decide
  have hnalus : collectNalus _ = .ok [⟨[9, 16], by decide⟩,
      ⟨[6, 1, 1, 7, 4, 1, 182, 128], by decide⟩, ⟨[101, 7], by decide⟩,
      ⟨[6, 1, 0, 128], by decide⟩] := by decide
  (remux_stripped_iff hremux hnalus).mpr (by decide)

/-- The captions sit in the second of two SEI NALUs, behind a message of no bytes: the packet is
rewritten, and they are copied. -/
theorem remux_second_sei :
    ∃ out, remux [⟨4, [181]⟩] ([0, 0, 0, 5, 6, 1, 1, 7, 128] ++
        [0, 0, 0, 7, 6, 1, 0, 4, 1, 182, 128]) = .ok out ∧
      ¬Stripped [⟨4, [181]⟩] [⟨[6, 1, 1, 7, 128], by decide⟩,
        ⟨[6, 1, 0, 4, 1, 182, 128], by decide⟩] out := by
  have hremux : remux [⟨4, [181]⟩] ([0, 0, 0, 5, 6, 1, 1, 7, 128] ++
      [0, 0, 0, 7, 6, 1, 0, 4, 1, 182, 128]) = .ok ([0, 0, 0, 9, 6, 1, 1, 7, 128, 4, 1, 181, 128] ++
        [0, 0, 0, 7, 6, 1, 0, 4, 1, 182, 128]) := by decide
  have hnalus : collectNalus ([0, 0, 0, 5, 6, 1, 1, 7, 128] ++
      [0, 0, 0, 7, 6, 1, 0, 4, 1, 182, 128]) = .ok [⟨[6, 1, 1, 7, 128], by decide⟩,
        ⟨[6, 1, 0, 4, 1, 182, 128], by decide⟩] := by decide
  refine ⟨_, hremux, fun h => ?_⟩
  exact absurd (copied_iff.mp ((stripped_iff_copied hremux hnalus).mp h)) (by decide)

/-! ## The rest of the picture -/

/-- The estimate of the new SEI NALU is its length: over all payloads the escapes it misses
make up for the header bytes it invents, as far as 32 bits tell, and the NALU is not too
long. -/
def EstimateRight (seis : List SeiPayload) : Prop :=
  (seis.map fun s => missedEscapes s.data).sum ≡ (seis.map headerSurplus).sum [MOD 2 ^ 32] ∧
    1 + (seis.map payloadBytes).sum < Nalu.maxLength

theorem estimateRight_iff {seis : List SeiPayload} (hdata : ∀ s ∈ seis, s.data ≠ []) :
    EstimateRight seis ↔ LengthRight seis := by
  have hbytes : seis.map writtenBytes = seis.map payloadBytes := by
    refine List.map_congr_left fun s hs => ?_
    rw [writtenBytes, stopBits_of_ne_nil (hdata s hs), payloadBytes]
  have hsurplus : seis.map madeUp = seis.map headerSurplus := by
    refine List.map_congr_left fun s hs => ?_
    rw [madeUp, stopBits_of_ne_nil (hdata s hs)]
    rfl
  rw [EstimateRight, LengthRight, hbytes, hsurplus]

theorem sizeHint_eq_length_iff {seis : List SeiPayload} (hdata : ∀ s ∈ seis, s.data ≠ []) :
    ((sizeHint seis).toNat = (seiNalu seis).length ∧ (seiNalu seis).length < Nalu.maxLength) ↔
      EstimateRight seis := by
  rw [estimateRight_iff hdata, sizeHint_eq_seiNalu_length_iff]

theorem splits_data_ne_nil {seis : List SeiPayload} {data : Bytes}
    (h : Splits seiParser seis data) : ∀ s ∈ seis, s.data ≠ [] := by
  induction seis generalizing data with
  | nil => exact fun s hs => absurd hs List.not_mem_nil
  | cons s seis ih =>
      obtain ⟨w, t, hw, _, _, ht⟩ := splits_cons.mp h
      obtain ⟨_, _, _, _, _, _, hpos, _⟩ := hw
      intro u hu
      rcases List.mem_cons.mp hu with rfl | hu
      · exact List.length_pos_iff.mp hpos
      · exact ih ht u hu

def keptPayloads (nalus : List Nalu) : List SeiPayload :=
  ((layout nalus).sei.toList.flatMap payloadsOf).filter fun s => !isCc s

theorem drainSeiNalu_data_ne_nil {nalu : Bytes} {seis : List SeiPayload}
    (h : drainSeiNalu nalu = .ok seis) : ∀ s ∈ seis, s.data ≠ [] := by
  obtain ⟨sodb, -, hdrain⟩ := drain_of_drainSeiNalu h
  exact splits_data_ne_nil ((drain_eq_none _).mp hdrain)

/-- The NALU that is replaced, if there is one, is read without an error. -/
def SeiWellFormed (nalus : List Nalu) : Prop :=
  ∀ n, (layout nalus).sei = some n → ∃ seis, drainSeiNalu n.data = .ok seis

theorem rebuild_of_wellFormed (found : List SeiPayload) {nalus : List Nalu}
    (h : SeiWellFormed nalus) :
    rebuild found (layout nalus).sei = .ok (keptPayloads nalus ++ found) ∧
      ∀ s ∈ keptPayloads nalus, s.data ≠ [] := by
  unfold keptPayloads
  cases hsei : (layout nalus).sei with
  | none => exact ⟨rfl, by simp⟩
  | some n =>
      obtain ⟨seis, hread⟩ := h n hsei
      have hne := drainSeiNalu_data_ne_nil hread
      simp only [rebuild, stripCc, hread, ok_bind, pure, Except.pure, Option.toList_some,
        List.flatMap_singleton, drainSeiNalu_payloadsOf hread]
      exact ⟨trivial, fun s hs => hne s (List.mem_of_mem_filter hs)⟩

/-- What is promised of a packet that is rewritten: it drains into the NALUs it had, with
one SEI NALU in the place of the old one. -/
def Preserved (found : List SeiPayload) (data : Bytes) (nalus : List Nalu) : Prop :=
  ∃ out m, rewritePacket found data = .ok out ∧ m.type = .sei ∧
    drain avPacketNaluParser out = ((layout nalus).leading ++ m :: (layout nalus).rest, none)

theorem seiNalu_type (seis : List SeiPayload) :
    Nalu.type ⟨seiNalu seis, List.cons_ne_nil _ _⟩ = .sei := by
  show NaluType.ofByte (seiNaluTypeByte &&& 0b00011111) = .sei
  decide

/-- A NALU put between others is found again exactly when the length in front of it is its
length. -/
theorem drain_between_iff {pre post : List Nalu} {n : Nat} {nalu : Bytes} {m : Nalu}
    (hn : n < 2 ^ 32) (hpre : ∀ n ∈ pre, n.size ≤ Nalu.maxLength)
    (hpost : ∀ n ∈ post, n.size ≤ Nalu.maxLength) :
    drain avPacketNaluParser (pre.flatMap frame ++ (beBytes 4 n ++ nalu ++ post.flatMap frame)) =
        (pre ++ m :: post, none) ↔
      m.data = nalu ∧ n = nalu.length ∧ nalu.length ≤ Nalu.maxLength := by
  have hword : Nalu.maxLength < 256 ^ 4 := by decide
  rw [drain_eq_none, splits_iff_frames, List.flatMap_append, List.flatMap_cons,
    List.append_cancel_left_eq, List.append_cancel_right_eq, frame]
  constructor
  · intro h
    obtain ⟨hbytes, hall⟩ := h
    have hm : m.data.length ≤ Nalu.maxLength := hall m (by simp)
    obtain ⟨hlen, rfl⟩ := List.append_inj hbytes (by simp)
    exact ⟨rfl, beBytes_inj (by omega) (by omega) hlen, hm⟩
  · intro h
    obtain ⟨rfl, rfl, hm⟩ := h
    refine ⟨rfl, fun k hk => ?_⟩
    rcases List.mem_append.mp hk with hk | hk
    · exact hpre k hk
    · rcases List.mem_cons.mp hk with rfl | hk
      · exact hm
      · exact hpost k hk

/-- The picture survives the injection exactly when the estimate of the new SEI NALU is
right. -/
theorem rewritePacket_preserved_iff {found : List SeiPayload} {data : Bytes} {nalus : List Nalu}
    (hdrain : drain avPacketNaluParser data = (nalus, none))
    (hvalid : ∀ n ∈ nalus, n.isValid = true) (hmax : ∀ n ∈ nalus, n.size < Nalu.maxLength)
    (hsei : SeiWellFormed nalus) (hne : found ≠ []) (hdata : ∀ s ∈ found, s.data ≠ []) :
    Preserved found data nalus ↔ EstimateRight (keptPayloads nalus ++ found) := by
  obtain ⟨hrebuild, hkept⟩ := rebuild_of_wellFormed found hsei
  have hseis : ∀ s ∈ keptPayloads nalus ++ found, s.data ≠ [] := by
    intro s hs
    rcases List.mem_append.mp hs with hs | hs
    · exact hkept s hs
    · exact hdata s hs
  have hcollect : collectNalus data = .ok nalus :=
    collectNalus_eq_ok.mpr ⟨nalus, (drain_eq_none _).mp hdrain,
      (List.filter_eq_self.mpr hvalid).symm⟩
  have happ := layout_append nalus
  have hlead : ∀ n ∈ (layout nalus).leading, n.size < Nalu.maxLength := fun n hn =>
    hmax n (by rw [happ]; exact List.mem_append_left _ hn)
  have hrest : ∀ n ∈ (layout nalus).rest, n.size < Nalu.maxLength := fun n hn =>
    hmax n (by rw [happ]; exact List.mem_append_right _ (List.mem_append_right _ hn))
  have hempty : ¬(keptPayloads nalus ++ found).isEmpty = true := by simp [hne]
  generalize keptPayloads nalus ++ found = seis at *
  rw [← sizeHint_eq_length_iff hseis]
  unfold Preserved rewritePacket remux
  simp only [hcollect, ok_bind, emitNalus_of_lt hlead, hrebuild, if_neg hempty,
    emitNalus_of_lt hrest]
  by_cases hlt : (sizeHint seis).toNat < Nalu.maxLength
  · rw [emitSeiPayloadsToAvccNalu_of_lt hlt]
    simp only [ok_bind, pure, Except.pure, Except.ok.injEq]
    constructor
    · intro h
      obtain ⟨out, m, rfl, _, hout⟩ := h
      obtain ⟨_, hlen, _⟩ := (drain_between_iff (sizeHint seis).toNat_lt
        (fun n hn => Nat.le_of_lt (hlead n hn)) (fun n hn => Nat.le_of_lt (hrest n hn))).mp hout
      exact ⟨hlen, by omega⟩
    · intro h
      obtain ⟨hlen, hfits⟩ := h
      refine ⟨_, ⟨seiNalu seis, List.cons_ne_nil _ _⟩, rfl, seiNalu_type seis, ?_⟩
      exact (drain_between_iff (sizeHint seis).toNat_lt
        (fun n hn => Nat.le_of_lt (hlead n hn)) (fun n hn => Nat.le_of_lt (hrest n hn))).mpr
          ⟨rfl, hlen, Nat.le_of_lt hfits⟩
  · rw [emitSeiPayloadsToAvccNalu_of_not_lt hlt]
    simp only [error_bind, reduceCtorEq, false_and, exists_false, false_iff]
    intro h
    omega

/-- A picture with a short caption put in front of it. -/
theorem rewritePacket_preserved_slice :
    Preserved [⟨4, [181]⟩] [0, 0, 0, 2, 9, 16, 0, 0, 0, 2, 101, 7]
      [⟨[9, 16], by decide⟩, ⟨[101, 7], by decide⟩] :=
  (rewritePacket_preserved_iff (by decide) (by decide) (by decide)
    (by
      intro n hn
      rw [show (layout [⟨[9, 16], by decide⟩, ⟨[101, 7], by decide⟩]).sei = none by decide] at hn
      cases hn) (by decide) (by decide)).mpr ⟨rfl, by decide⟩

/-- A caption with three zero bytes: the length in front of the SEI NALU is one too small,
and its last byte is taken for the start of the next NALU. -/
theorem rewritePacket_misframed :
    ¬Preserved [⟨4, [0, 0, 0]⟩] [0, 0, 0, 2, 9, 16, 0, 0, 0, 2, 101, 7]
      [⟨[9, 16], by decide⟩, ⟨[101, 7], by decide⟩] := by
  intro h
  obtain ⟨out, m, hout, _, hdrain⟩ := h
  have hbytes : rewritePacket [⟨4, [0, 0, 0]⟩] [0, 0, 0, 2, 9, 16, 0, 0, 0, 2, 101, 7] =
      .ok [0, 0, 0, 2, 9, 16, 0, 0, 0, 7, 6, 4, 3, 0, 0, 3, 0, 128, 0, 0, 0, 2, 101, 7] := by
    decide
  rw [hbytes] at hout
  cases hout
  have hfault : (drain avPacketNaluParser [0, 0, 0, 2, 9, 16, 0, 0, 0, 7, 6, 4, 3, 0, 0, 3, 0,
      128, 0, 0, 0, 2, 101, 7]).2 ≠ none := by decide
  rw [hdrain] at hfault
  exact hfault rfl

end Proc
end Metamix
