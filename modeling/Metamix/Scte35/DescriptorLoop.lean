/-
The descriptor loop, and the one descriptor that depends on the compiler.

`parse_descriptors` moves the end pointer to the end of the loop and reads descriptors until it
gets there.  Written descriptors come back exactly when each of them does, so one DTMF
descriptor, or one time descriptor whose fields are read in another order, spoils the loop.
-/
import Metamix.Scte35.RoundTrip

namespace Metamix
namespace Scte35

open Lib Lib.Reader Binary

/-! ## The loop -/

theorem within_run {α : Type} {p : Reader α} {n : Nat} {v w : Bytes} (hn : v.length = n) :
    (within n p).run (v ++ w) = match p.run v with
      | .error f => .error f
      | .ok (a, t) => .ok (a, t ++ w) := by
  have happly := within_apply n p (v ++ w)
  rw [List.take_left' hn, List.drop_left' hn] at happly
  exact happly

theorem parseDescriptors_run (order : EvalOrder) {v t : Bytes} (ht : 0 < t.length) :
    (parseDescriptors order v.length).run (v ++ t) =
      (within v.length (parseDescriptorsLoop order v.length)).run (v ++ t) := by
  have hlt : v.length < (v ++ t).length := by
    rw [List.length_append]
    omega
  rw [parseDescriptors, run_bind_of_ok (available_run _),
    run_bind_of_ok (testConst_run _ _ _ _ _ hlt)]

/-- What is left is what stands behind the loop, and the descriptors are the ones written, if
and only if every one of them comes back. -/
theorem parseDescriptors_eq_ok (order : EvalOrder) {ds : List Descriptor} {t u : Bytes}
    (hfits : ∀ d ∈ ds, d.Fits) (ht : 0 < t.length) :
    (parseDescriptors order (ds.flatMap Descriptor.emit).length).run
        (ds.flatMap Descriptor.emit ++ t) = .ok (ds, u) ↔
      (∀ d ∈ ds, d.ReadsBack order) ∧ u = t := by
  have hloop := fun v => parseDescriptorsLoop_eq_ok (u := v) order hfits (Nat.le_refl _)
  rw [parseDescriptors_run order ht, within_run rfl]
  constructor
  · intro h
    split at h
    · cases h
    · rename_i ds' v hrun
      obtain ⟨rfl, rfl⟩ := Prod.mk.inj (Except.ok.inj h)
      obtain ⟨hall, rfl⟩ := (hloop v).mp hrun
      exact ⟨hall, rfl⟩
  · intro h
    obtain ⟨hall, rfl⟩ := h
    rw [(hloop []).mpr ⟨hall, rfl⟩]
    rfl

/-- The loop round trip: the parser gives the list back and stops at its end. -/
theorem parseDescriptors_emit_iff (order : EvalOrder) (ds : List Descriptor) (t : Bytes)
    (hfits : ∀ d ∈ ds, d.Fits) (ht : 0 < t.length) :
    (parseDescriptors order (ds.flatMap Descriptor.emit).length).run
        (ds.flatMap Descriptor.emit ++ t) = .ok (ds, t) ↔
      ∀ d ∈ ds, d.ReadsBack order := by
  rw [parseDescriptors_eq_ok order hfits ht, and_iff_left rfl]

/-- An avail, a segmentation and a time descriptor come back from left to right. -/
theorem parseDescriptors_emit_three :
    let ds : List Descriptor := [.avail ⟨7⟩, .segmentation ⟨[1, 2]⟩, .time ⟨1, 2, 3⟩]
    (parseDescriptors ⟨.abc, .leftFirst⟩ (ds.flatMap Descriptor.emit).length).run
      (ds.flatMap Descriptor.emit ++ [0]) = .ok (ds, [0]) := by
  have hsegmentation : (Descriptor.segmentation ⟨[1, 2]⟩).Fits := by
    show [1, 2].length ≤ 251
    decide
  have htime : (Descriptor.time ⟨1, 2, 3⟩).Fits := by
    show (1 : UInt64).toNat < 2 ^ 48
    decide
  have hback : (Descriptor.time ⟨1, 2, 3⟩).ReadsBack ⟨.abc, .leftFirst⟩ :=
    ⟨rfl, rfl, rfl, rfl, rfl, rfl⟩
  refine (parseDescriptors_emit_iff ⟨.abc, .leftFirst⟩ _ [0] ?_ (by decide)).mpr ?_
  · simp only [List.forall_mem_cons]
    exact ⟨trivial, hsegmentation, htime, fun d hd => absurd hd List.not_mem_nil⟩
  · simp only [List.forall_mem_cons]
    exact ⟨trivial, trivial, hback, fun d hd => absurd hd List.not_mem_nil⟩

/-- A DTMF descriptor of no characters says that its length is 6 and is asked for 5. -/
theorem parseDescriptors_dtmf : (parseDescriptors ⟨.abc, .leftFirst⟩
      ([Descriptor.dtmf ⟨0, []⟩].flatMap Descriptor.emit).length).run
        ([Descriptor.dtmf ⟨0, []⟩].flatMap Descriptor.emit ++ [0]) ≠
      .ok ([.dtmf ⟨0, []⟩], [0]) := by
  rw [Ne, parseDescriptors_eq_ok _ _ (by decide)]
  · intro h
    exact h.1 _ (List.mem_cons_self ..)
  · intro d hd
    rw [List.mem_singleton.mp hd]
    show ([] : Bytes).length ≤ 7
    decide

/-! ## Orders of evaluation -/

namespace TimeDescriptor

/-- `parse_time_descriptor` returns the descriptor and moves past it.  The tag, the length and
the identifier, six bytes, have been read before it is called. -/
def ReadIn (order : EvalOrder) (d : TimeDescriptor) : Prop :=
  Reads (parseTimeDescriptor order tag length descriptorIdentifier) (d.emit.drop 6) d

def Uniform (d : TimeDescriptor) : Prop := ∀ i, d.word i = d.utcOffset.toNat

theorem emit_drop (d : TimeDescriptor) : d.emit.drop 6 =
    write48 d.taiSeconds ++ (write32 d.taiNanoseconds ++ write16 d.utcOffset) := rfl

theorem readIn_iff {order : EvalOrder} {d : TimeDescriptor} (h : d.taiSeconds.toNat < 2 ^ 48) :
    d.ReadIn order ↔ d.ReadsBack order := by
  rw [← reread_eq_self h]
  unfold ReadIn Reads
  rw [emit_drop]
  constructor
  · intro hread
    have hrun := hread []
    rw [parse_run h] at hrun
    exact (Prod.mk.inj (Except.ok.inj hrun)).1
  · intro hself t
    rw [parse_run h, hself]

/-- Two of the twelve orders already see every word in the place of another. -/
theorem uniform_iff (d : TimeDescriptor) : (∀ order, d.ReadsBack order) ↔ d.Uniform := by
  constructor
  · intro h
    obtain ⟨h20, h21, -, h03, h04, -⟩ := h ⟨.bac, .rightFirst⟩
    obtain ⟨-, -, -, h43, h54, -⟩ := h ⟨.acb, .leftFirst⟩
    have hoffset : d.word 5 = d.utcOffset.toNat := rfl
    simp only [SumOrder.lowOffset, Nat.add_zero, Nat.zero_add, Nat.reduceAdd]
      at h20 h21 h03 h04 h43 h54
    intro i
    match i with
    | 0 => omega
    | 1 => omega
    | 2 => omega
    | 3 => omega
    | 4 => omega
    | _ + 5 => rfl
  · intro h order
    unfold Uniform at h
    unfold ReadsBack
    simp only [h, and_self]

/-- In every order of evaluation the descriptor comes back exactly if each word that is looked
at equals the one that belongs there; it comes back in all of them exactly if all its words are
the same. -/
theorem readIn_every_order_iff (d : TimeDescriptor) (h : d.taiSeconds.toNat < 2 ^ 48) :
    (∀ order, d.ReadIn order ↔ d.ReadsBack order) ∧ ((∀ order, d.ReadIn order) ↔ d.Uniform) := by
  refine ⟨fun order => readIn_iff h, ?_⟩
  simp only [readIn_iff h, uniform_iff]

theorem readIn_every_order_words :
    let d : TimeDescriptor := ⟨0x010201020102, 0x01020102, 0x0102⟩
    d.Uniform ∧ ∀ order, d.ReadIn order := by
  intro d
  have huniform : d.Uniform := by
    intro i
    match i with
    | 0 | 1 | 2 | 3 | 4 => decide
    | _ + 5 => rfl
  exact ⟨huniform, (readIn_every_order_iff d (by decide)).2.mpr huniform⟩

/-- One nanosecond, read from right to left: the offset takes the first word, which is right by
chance, and the nanoseconds the next two. -/
theorem not_readIn_one : ¬ (⟨0, 1, 0⟩ : TimeDescriptor).ReadIn ⟨.cba, .rightFirst⟩ := by
  rw [readIn_iff (by decide)]
  intro h
  exact absurd h.2.2.2.2.1 (by decide)

end TimeDescriptor
end Scte35
end Metamix
