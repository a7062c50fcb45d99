/-
Packets of any bytes.

Both processors catch a `BinaryParseError` and nothing else, and three decoders are at work on
the bytes of a packet.  A SEI NALU is harmless when it ends with the stop bit and its payloads
can be drained, whether they parse or not; the injector also writes NALUs, and the lengths in
front of them are asserted to be in range.  `process_returns_iff` says that nothing else ends
a processor.
-/
import Metamix.Proc.Extractor
import Metamix.Queue.Runs

namespace Metamix

open Lib Binary BinaryParser

namespace H264

/-! ## A SEI NALU -/

/-- The NALU ends with the stop bit, and wherever the loop over its payloads comes to it makes
progress or finds a parse error. -/
def SeiReadable (nalu : Bytes) : Prop :=
  ∃ body, StopBit nalu body ∧
    ∀ pkts q, Calls seiParser (create ((unescape body).drop 1)) pkts q → q.hasNext = true →
      SeiAdvances q.left

end H264

namespace Proc

open H264 Time Queue

/-! ## The extractor -/

def EstimateFits (seis : List SeiPayload) : Prop :=
  (1 + (seis.map estimate).sum) % 2 ^ 32 < Nalu.maxLength

/-- The bytes can be rewritten: no NALU that is copied has the greatest length, the SEI NALU that
is replaced is harmless, and the new one is not estimated to be too long. -/
def Rewritable (found : List SeiPayload) (data : Bytes) : Prop :=
  ∀ nalus, collectNalus data = .ok nalus →
    (∀ n ∈ (layout nalus).leading, n.size ≠ Nalu.maxLength) ∧
    (∀ n, (layout nalus).sei = some n → SeiReadable n.data) ∧
    (SeiWellFormed nalus → EstimateFits (keptPayloads nalus ++ found) ∧
      ∀ n ∈ (layout nalus).rest, n.size ≠ Nalu.maxLength)

/-- The contents parse: the NALUs are framed, and the payloads of the SEI NALU that is replaced
come one behind the other. -/
def Parses (data : Bytes) : Prop := ∃ nalus, collectNalus data = .ok nalus ∧ SeiWellFormed nalus

theorem wellFormed_of_rebuild {found seis : List SeiPayload} {nalus : List Nalu}
    (h : rebuild found (layout nalus).sei = .ok seis) : SeiWellFormed nalus := by
  intro n hn
  rw [hn] at h
  obtain ⟨kept, hstrip, -⟩ := of_bind_eq_ok h
  obtain ⟨all, hread, -⟩ := of_bind_eq_ok hstrip
  exact ⟨all, hread⟩

theorem Rewritable.of_perm {found found' : List SeiPayload} {data : Bytes}
    (hperm : found.Perm found') (h : Rewritable found data) : Rewritable found' data := by
  intro nalus hcollect
  obtain ⟨hlead, hsei, hrest⟩ := h nalus hcollect
  refine ⟨hlead, hsei, fun hwell => ?_⟩
  obtain ⟨hfits, hcopied⟩ := hrest hwell
  refine ⟨?_, hcopied⟩
  have hsum := ((hperm.append_left (keptPayloads nalus)).map estimate).sum_eq
  rw [EstimateFits, ← hsum]
  exact hfits

namespace SeiInjector

variable {A : AvRescale} {H : Heap SeiPayload}

/-- What a packet is to be written with, as the injector and the queue stand: a reset if the input
is not the last packet's, and what the queue has of the input in the window, or an empty caption.
The clear input always resets. -/
def expected (A : AvRescale) (s : SeiInjector) (ctx : Context) (pkt : AVPacket)
    (q : MetadataQueue SeiPayload) : List SeiPayload :=
  (if some ctx.currentInput.id ≠ s.prevInputId then [resetSei] else []) ++
    match ctx.currentInput with
    | .clear _ => [resetSei]
    | .userDefined id =>
        let window :=
          q.filter (MetadataQueue.wanted id s.prevPts ((s.adjustedPts A ctx pkt.pts).1 + 1))
        if window.isEmpty then [emptySei] else window.map Metadata.val

end SeiInjector

end Proc
end Metamix
