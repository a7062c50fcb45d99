/-
Which stream is read for what.

`classify_streams` looks for one stream with captions and one with markers, and takes the stream
with the captions as the time source, or else the best video stream.  `classifyStreams_iff` says
when it succeeds and what it finds, and for every packet which processors see it: those of the time
source and of the captions see the same packets, in this order, whenever there are captions.
-/
import Metamix.Io.RemuxLoop

namespace Metamix
namespace Io

/-! ## Kinds of streams -/

/-- `StreamClassPack`. -/
inductive StreamKind where
  | timeSource
  | sei
  | scte
deriving DecidableEq, Repr

namespace StreamKind

def all : List StreamKind := [timeSource, sei, scte]

def description : StreamKind → String
  | timeSource => "System Time Source"
  | sei => "H.264 with 608/708 SEI"
  | scte => "SCTE-35"

end StreamKind

structure StreamClassification where
  timeSource : Option Nat := none
  sei : Option Nat := none
  scte : Option Nat := none
deriving DecidableEq, Repr

namespace StreamClassification

def index (sc : StreamClassification) : StreamKind → Option Nat
  | .timeSource => sc.timeSource
  | .sei => sc.sei
  | .scte => sc.scte

def set (sc : StreamClassification) (idx : Nat) : StreamKind → StreamClassification
  | .timeSource => { sc with timeSource := some idx }
  | .sei => { sc with sei := some idx }
  | .scte => { sc with scte := some idx }

@[simp] theorem index_set (sc : StreamClassification) (idx : Nat) (k j : StreamKind) :
    (sc.set idx k).index j = if j = k then some idx else sc.index j := by
  cases k <;> cases j <;> rfl

theorem ext_index {sc sc' : StreamClassification} (h : ∀ k, sc.index k = sc'.index k) :
    sc = sc' := by
  obtain ⟨timeSource, sei, scte⟩ := sc
  obtain ⟨timeSource', sei', scte'⟩ := sc'
  obtain rfl : timeSource = timeSource' := h .timeSource
  obtain rfl : sei = sei' := h .sei
  obtain rfl : scte = scte' := h .scte
  rfl

def classify (sc : StreamClassification) (idx : Nat) (k : StreamKind) :
    Except RuntimeError StreamClassification :=
  match sc.index k with
  | some _ => .error (.other ("Stream kind already registered: " ++ k.description))
  | none => .ok (sc.set idx k)

def require (sc : StreamClassification) (k : StreamKind) : Except RuntimeError Unit :=
  match sc.index k with
  | some _ => .ok ()
  | none => .error (.other ("Required stream kind has not been found: " ++ k.description))

/-- The processors of `remux_loop` that see a packet of a stream, in their order. -/
def processors (sc : StreamClassification) (streamIndex : Int) : List StreamKind :=
  StreamKind.all.filter fun k => decide (sc.index k = some (toSize streamIndex))

end StreamClassification

/-! ## FFmpeg -/

inductive CodecId where
  | h264
  | scte35
  | other
deriving DecidableEq, Repr

/-- The formats that FFmpeg was built with, each with its names. -/
structure Formats where
  demuxers : List String
  muxers : List String

/-- `find_iformat` and `find_oformat`: the first format with the name among its own. -/
def findFormat (formats : List String) (needle : String) : Option Nat :=
  formats.findIdx? fun names => decide (needle.toList ∈ names.toList.splitOn ',')

/-- What is read of an `AVFormatContext`.  A format is told by its place among the formats. -/
structure FormatContext where
  iformat : Option Nat
  oformat : Option Nat
  codecs : List CodecId
  /-- `av_find_best_stream`. -/
  findBestStream : Int

/-- H.264 of MPEG-TS is not framed as the parsers expect it. -/
def isMpegts (formats : Formats) (ctx : FormatContext) : Bool :=
  (findFormat formats.demuxers "mpegts" != none &&
      ctx.iformat == findFormat formats.demuxers "mpegts") ||
    (findFormat formats.muxers "mpegts" != none &&
      ctx.oformat == findFormat formats.muxers "mpegts")

def streamKind (mpegts : Bool) : CodecId → Option StreamKind
  | .h264 => if mpegts then none else some .sei
  | .scte35 => some .scte
  | .other => none

def classifyStream (mpegts : Bool) (sc : StreamClassification) (stream : CodecId × Nat) :
    Except RuntimeError StreamClassification :=
  match streamKind mpegts stream.1 with
  | some k => sc.classify stream.2 k
  | none => .ok sc

def classifyTimeSource (ctx : FormatContext) (sc : StreamClassification) :
    Except RuntimeError StreamClassification :=
  match sc.sei with
  | some i => sc.classify i .timeSource
  | none =>
      if ctx.findBestStream ≥ 0 then sc.classify ctx.findBestStream.toNat .timeSource else .ok sc

def classifyStreams (formats : Formats) (ctx : FormatContext) :
    Except RuntimeError StreamClassification :=
  match ctx.codecs.zipIdx.foldlM (classifyStream (isMpegts formats ctx)) {} with
  | .error e => .error e
  | .ok sc => classifyTimeSource ctx sc

/-! ## What is found -/

def found (mpegts : Bool) (streams : List (CodecId × Nat)) : List (StreamKind × Nat) :=
  streams.filterMap fun stream => (streamKind mpegts stream.1).map fun k => (k, stream.2)

theorem found_concat_none {mpegts : Bool} (streams : List (CodecId × Nat)) {stream : CodecId × Nat}
    (h : streamKind mpegts stream.1 = none) :
    found mpegts (streams ++ [stream]) = found mpegts streams := by
  unfold found
  rw [List.filterMap_append, List.filterMap_cons, h]
  exact List.append_nil _

theorem found_concat_some {mpegts : Bool} (streams : List (CodecId × Nat)) {stream : CodecId × Nat}
    {k : StreamKind} (h : streamKind mpegts stream.1 = some k) :
    found mpegts (streams ++ [stream]) = found mpegts streams ++ [(k, stream.2)] := by
  unfold found
  rw [List.filterMap_append, List.filterMap_cons, h]
  rfl

def ofFound (kinds : List (StreamKind × Nat)) : StreamClassification where
  timeSource := kinds.lookup .timeSource
  sei := kinds.lookup .sei
  scte := kinds.lookup .scte

theorem index_ofFound (kinds : List (StreamKind × Nat)) (k : StreamKind) :
    (ofFound kinds).index k = kinds.lookup k := by
  cases k <;> rfl

theorem ofFound_concat {kinds : List (StreamKind × Nat)} {k : StreamKind}
    (h : kinds.lookup k = none) (idx : Nat) :
    ofFound (kinds ++ [(k, idx)]) = (ofFound kinds).set idx k := by
  refine StreamClassification.ext_index fun j => ?_
  rw [index_ofFound, List.lookup_append, StreamClassification.index_set, index_ofFound]
  by_cases hj : j = k
  · subst hj
    rw [h, if_pos rfl, List.lookup_cons_self]
    rfl
  · rw [if_neg hj, List.lookup_cons, show (j == k) = false from decide_eq_false hj]
    exact Option.or_none

theorem lookup_eq_none_iff {kinds : List (StreamKind × Nat)} {k : StreamKind} :
    kinds.lookup k = none ↔ k ∉ kinds.map Prod.fst := by
  rw [List.lookup_eq_none_iff, List.mem_map]
  constructor
  · intro h hmem
    obtain ⟨x, hx, rfl⟩ := hmem
    exact bne_iff_ne.mp (h x hx) rfl
  · intro h x hx
    exact bne_iff_ne.mpr fun heq => h ⟨x, hx, heq.symm⟩

theorem classify_eq_ok_iff {sc sc' : StreamClassification} {idx : Nat} {k : StreamKind} :
    sc.classify idx k = .ok sc' ↔ sc.index k = none ∧ sc' = sc.set idx k := by
  unfold StreamClassification.classify
  cases sc.index k with
  | none => simp [eq_comm]
  | some i => simp

theorem foldlM_concat_eq_ok_iff {α β ε : Type} {f : β → α → Except ε β} {xs : List α} {x : α}
    {b c : β} : (xs ++ [x]).foldlM f b = .ok c ↔ ∃ b', xs.foldlM f b = .ok b' ∧ f b' x = .ok c := by
  rw [List.foldlM_append]
  cases xs.foldlM f b with
  | error e =>
    exact iff_of_false (fun h => by cases h) fun h => by (obtain ⟨b', h, -⟩ := h; cases h)
  | ok b' =>
      have hone : [x].foldlM f b' = f b' x := by
        rw [List.foldlM_cons]
        cases f b' x <;> rfl
      show [x].foldlM f b' = .ok c ↔ _
      rw [hone]
      simp only [Except.ok.injEq, exists_eq_left']

theorem foldlM_classifyStream_iff {mpegts : Bool} {streams : List (CodecId × Nat)}
    {sc : StreamClassification} :
    streams.foldlM (classifyStream mpegts) {} = .ok sc ↔
      ((found mpegts streams).map Prod.fst).Nodup ∧ sc = ofFound (found mpegts streams) := by
  induction streams using List.reverseRecOn generalizing sc with
  | nil =>
      constructor
      · intro h
        exact ⟨List.nodup_nil, (Except.ok.inj h).symm⟩
      · intro h
        rw [h.2]
        rfl
  | append_singleton streams stream ih =>
      rw [foldlM_concat_eq_ok_iff]
      simp only [ih]
      cases hkind : streamKind mpegts stream.1 with
      | none =>
          have hstep (b : StreamClassification) : classifyStream mpegts b stream = .ok b := by
            rw [classifyStream, hkind]
          rw [found_concat_none streams hkind]
          simp only [hstep, Except.ok.injEq, exists_eq_right]
      | some k =>
          have hstep (b : StreamClassification) :
              classifyStream mpegts b stream = b.classify stream.2 k := by
            rw [classifyStream, hkind]
          rw [found_concat_some streams hkind, List.map_append, List.map_singleton,
            List.nodup_append]
          simp only [hstep, classify_eq_ok_iff]
          constructor
          · intro h
            obtain ⟨b, ⟨hnodup, rfl⟩, hnone, rfl⟩ := h
            rw [index_ofFound] at hnone
            refine ⟨⟨hnodup, List.nodup_singleton _, fun a ha c hc hac => ?_⟩,
              (ofFound_concat hnone _).symm⟩
            rw [List.mem_singleton.mp hc] at hac
            exact lookup_eq_none_iff.mp hnone (hac ▸ ha)
          · intro h
            obtain ⟨⟨hnodup, -, hne⟩, rfl⟩ := h
            have hnone : (found mpegts streams).lookup k = none :=
              lookup_eq_none_iff.mpr fun hk => hne k hk k (List.mem_singleton_self k) rfl
            exact ⟨_, ⟨hnodup, rfl⟩, by (rw [index_ofFound]; exact hnone), ofFound_concat hnone _⟩

theorem lookup_timeSource (mpegts : Bool) (streams : List (CodecId × Nat)) :
    (found mpegts streams).lookup .timeSource = none := by
  rw [lookup_eq_none_iff]
  intro h
  obtain ⟨x, hx, hkind⟩ := List.mem_map.mp h
  obtain ⟨⟨codec, i⟩, -, hx⟩ := List.mem_filterMap.mp hx
  obtain ⟨k, hk, rfl⟩ := Option.map_eq_some_iff.mp hx
  obtain rfl : k = .timeSource := hkind
  cases codec with
  | h264 => cases mpegts <;> cases hk
  | scte35 => cases hk
  | other => cases hk

/-! ## What is classified -/

section Classified

variable (formats : Formats) (ctx : FormatContext)

def kindsOf : List (StreamKind × Nat) := found (isMpegts formats ctx) ctx.codecs.zipIdx

def bestStream : Option Nat :=
  if ctx.findBestStream ≥ 0 then some ctx.findBestStream.toNat else none

def expected : StreamKind → Option Nat
  | .timeSource => ((kindsOf formats ctx).lookup .sei).or (bestStream ctx)
  | k => (kindsOf formats ctx).lookup k

theorem classifyTimeSource_iff {sc : StreamClassification} :
    classifyTimeSource ctx (ofFound (kindsOf formats ctx)) = .ok sc ↔
      ∀ k, sc.index k = expected formats ctx k := by
  have hnone : (ofFound (kindsOf formats ctx)).index .timeSource = none := by
    rw [index_ofFound]
    exact lookup_timeSource _ _
  have hset (i : Nat) (hi : expected formats ctx .timeSource = some i) :
      (ofFound (kindsOf formats ctx)).classify i .timeSource = .ok sc ↔
        ∀ k, sc.index k = expected formats ctx k := by
    have hindex (k : StreamKind) : ((ofFound (kindsOf formats ctx)).set i .timeSource).index k =
        expected formats ctx k := by
      rw [StreamClassification.index_set]
      cases k with
      | timeSource => exact hi.symm
      | sei => rfl
      | scte => rfl
    rw [classify_eq_ok_iff, and_iff_right hnone]
    constructor
    · intro h k
      rw [h]
      exact hindex k
    · intro h
      exact StreamClassification.ext_index fun k => (h k).trans (hindex k).symm
  unfold classifyTimeSource
  cases hsei : (ofFound (kindsOf formats ctx)).sei with
  | some i =>
      refine hset i ?_
      rw [expected, show (kindsOf formats ctx).lookup .sei = some i from hsei, Option.some_or]
  | none =>
      have hbest : expected formats ctx .timeSource = bestStream ctx := by
        rw [expected, show (kindsOf formats ctx).lookup .sei = none from hsei, Option.none_or]
      simp only
      split_ifs with hge
      · refine hset _ ?_
        rw [hbest, bestStream, if_pos hge]
      · have hindex (k : StreamKind) :
            (ofFound (kindsOf formats ctx)).index k = expected formats ctx k := by
          cases k with
          | timeSource => rw [hnone, hbest, bestStream, if_neg hge]
          | sei => rfl
          | scte => rfl
        constructor
        · intro h k
          rw [← Except.ok.inj h]
          exact hindex k
        · intro h
          exact congrArg Except.ok (StreamClassification.ext_index fun k =>
            (hindex k).trans (h k).symm)

theorem classifyStreams_eq_ok_iff {sc : StreamClassification} :
    classifyStreams formats ctx = .ok sc ↔ ((kindsOf formats ctx).map Prod.fst).Nodup ∧
      ∀ k, sc.index k = expected formats ctx k := by
  have hloop (sc' : StreamClassification) :
      ctx.codecs.zipIdx.foldlM (classifyStream (isMpegts formats ctx)) {} = .ok sc' ↔
        ((kindsOf formats ctx).map Prod.fst).Nodup ∧ sc' = ofFound (kindsOf formats ctx) :=
    foldlM_classifyStream_iff
  unfold classifyStreams
  cases hresult : ctx.codecs.zipIdx.foldlM (classifyStream (isMpegts formats ctx)) {} with
  | error e =>
      refine iff_of_false (fun h => by cases h) fun h => ?_
      have hok := (hloop _).mpr ⟨h.1, rfl⟩
      rw [hresult] at hok
      cases hok
  | ok sc' =>
      obtain ⟨hnodup, rfl⟩ := (hloop sc').mp hresult
      exact (classifyTimeSource_iff formats ctx).trans (and_iff_right hnodup).symm

variable {formats ctx}

theorem codec_of_lookup {k : StreamKind} {i : Nat} (h : (kindsOf formats ctx).lookup k = some i) :
    ∃ codec, ctx.codecs[i]? = some codec ∧ streamKind (isMpegts formats ctx) codec = some k := by
  obtain ⟨before, after, hkinds, -⟩ := List.lookup_eq_some_iff.mp h
  have hmem : (k, i) ∈ kindsOf formats ctx := by
    rw [hkinds]
    exact List.mem_append_right _ List.mem_cons_self
  obtain ⟨⟨codec, j⟩, hcodec, hx⟩ := List.mem_filterMap.mp hmem
  obtain ⟨k', hk, hsame⟩ := Option.map_eq_some_iff.mp hx
  cases hsame
  exact ⟨codec, List.mem_zipIdx_iff_getElem?.mp hcodec, hk⟩

/-- Where there are captions, the processors of the time source and of the captions see the packets
of their stream, and the processor of the markers those of another stream. -/
theorem processors_of_captions {sc : StreamClassification}
    (h : ∀ k, sc.index k = expected formats ctx k) {i : Nat} (hsei : sc.sei = some i)
    (streamIndex : Int) : sc.processors streamIndex =
      if toSize streamIndex = i then [.timeSource, .sei]
      else if sc.scte = some (toSize streamIndex) then [.scte] else [] := by
  have hlookup : (kindsOf formats ctx).lookup .sei = some i := (h .sei).symm.trans hsei
  have htime : sc.timeSource = some i := by
    rw [show sc.timeSource = _ from h .timeSource, expected, hlookup, Option.some_or]
  have hother : sc.scte ≠ some i := by
    intro hscte
    obtain ⟨codec, hcodec, hkind⟩ := codec_of_lookup hlookup
    obtain ⟨codec', hcodec', hkind'⟩ := codec_of_lookup ((h .scte).symm.trans hscte)
    rw [hcodec] at hcodec'
    cases hcodec'
    rw [hkind] at hkind'
    cases hkind'
  unfold StreamClassification.processors StreamKind.all
  simp only [List.filter_cons, List.filter_nil, StreamClassification.index, htime, hsei,
    Option.some.injEq, decide_eq_true_eq]
  by_cases hi : toSize streamIndex = i
  · subst hi
    simp [hother]
  · simp [hi, Ne.symm hi]

/-- The streams are classified if no kind comes twice among them, the time source being the stream
with the captions or else the best video stream.  With captions, the processors of the time source
and of the captions see every packet together. -/
theorem classifyStreams_iff (formats : Formats) (ctx : FormatContext)
    (sc : StreamClassification) : classifyStreams formats ctx = .ok sc ↔
      ((kindsOf formats ctx).map Prod.fst).Nodup ∧
        (∀ k, sc.index k = expected formats ctx k) ∧
        ∀ i, sc.sei = some i → ∀ streamIndex, sc.processors streamIndex =
          if toSize streamIndex = i then [.timeSource, .sei]
          else if sc.scte = some (toSize streamIndex) then [.scte] else [] := by
  rw [classifyStreams_eq_ok_iff]
  refine and_congr_right fun _ => ?_
  constructor
  · intro h
    exact ⟨h, fun i hsei streamIndex => processors_of_captions h hsei streamIndex⟩
  · intro h
    exact h.1

/-- A film with captions, sound and markers. -/
example : classifyStreams ⟨["mpegts", "mov,mp4"], ["mp4", "mpegts"]⟩
    ⟨some 1, none, [.h264, .other, .scte35], 0⟩ = .ok ⟨some 0, some 0, some 2⟩ := by rfl

end Classified

end Io
end Metamix
