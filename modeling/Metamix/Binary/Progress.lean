/-
The loop `while (parser) parser >> x`.

`operator>>` dereferences what `next()` returns without looking, so the loop is sound only
where every call on a parser that has something left throws or returns a packet.  A packet
that is returned takes at least a byte, and this is what ends the loop.  `drainsWhen` turns
a condition for one call into one for the whole loop; each format supplies the condition.
-/
import Metamix.Binary.Parser

namespace Metamix
namespace Binary

def Throws : Fault → Prop
  | .parse _ => True
  | .runtimeError _ => True
  | .lengthError => True
  | .assertion => False
  | .outOfBounds => False
  | .overread _ _ => True
  | .emptyOptional => False

theorem absorbs_throws : Absorbs Throws where
  parse := fun _ => trivial
  assertion := id
  outOfBounds := id
  emptyOptional := id

namespace BinaryParser

variable {Bounds Packet : Type} (E : Fault → Prop) (F : Format Bounds Packet)

/-- A call fails as `E` says, or returns a packet and takes bytes. -/
def Progress (p : BinaryParser) : Prop :=
  match p.next F with
  | (.ok (some _), q) => p.consumed < q.consumed
  | (.ok none, _) => False
  | (.error f, _) => E f

/-- The loop over a buffer ends, and stops before the end of the buffer only as `E` says. -/
def Drains (data : Bytes) : Prop :=
  (∀ n, data.length ≤ n → drainLoop F n (create data) = drain F data) ∧
    ∀ f, (drain F data).2 = some f → E f

/-- A call on a parser that has something left makes progress exactly when `A` holds of what is
left, and the loop is sound exactly when `A` holds wherever it comes to. -/
def DrainsWhen (A : Bytes → Prop) : Prop :=
  (∀ p : BinaryParser, p.hasNext = true → (Progress E F p ↔ A p.left)) ∧
    ∀ data, Drains E F data ↔
      ∀ pkts q, Calls F (create data) pkts q → q.hasNext = true → A q.left

variable {E}

/-! ## One call -/

theorem next_shorter {p q : BinaryParser} {pkt : Packet} (h : p.next F = (.ok (some pkt), q)) :
    p.consumed < q.consumed ∧ q.left.length < p.left.length := by
  obtain ⟨bounds, _, hle, hpos, _, rfl⟩ := (next_eq_some F).mp h
  simp only [shift, List.length_drop]
  omega

/-- A call makes progress when it finds bounds and fails, if it does, as `E` says. -/
theorem progress_iff {p : BinaryParser} (hp : p.hasNext = true) :
    Progress E F p ↔ F.Next p.left ≠ .ok none ∧ ∀ e, (p.next F).1 = .error e → E e := by
  have hnone : F.Next p.left = .ok none ↔ (p.next F).1 = .ok none := by
    rw [next, if_pos hp]
    cases F.Next p.left with
    | error f => simp
    | ok bounds? =>
        cases bounds? with
        | none => simp
        | some bounds =>
            dsimp only
            split_ifs
            · cases F.Pack bounds ((p.left.drop (F.toBounds bounds).start).take
                (F.toBounds bounds).length) <;> simp
            · simp
  rw [Progress, Ne, hnone]
  cases h : p.next F with
  | mk r q =>
      cases r with
      | error f => simp
      | ok pkt? =>
          cases pkt? with
          | none => simp
          | some pkt => simp [(next_shorter F h).1]

/-! ## The loop -/

theorem drainLoop_rounds {n : Nat} {p : BinaryParser} (h : p.left.length ≤ n) :
    drainLoop F n p = drainLoop F p.left.length p := by
  induction n using Nat.strongRecOn generalizing p with
  | ind n ih =>
      cases hlen : p.left.length with
      | zero =>
          have hempty : ¬p.hasNext = true := by
            simp [hasNext, List.length_eq_zero_iff.mp hlen]
          cases n with
          | zero => rfl
          | succ n => rw [drainLoop, drainLoop, if_neg hempty]
      | succ m =>
          obtain ⟨k, rfl⟩ : ∃ k, n = k + 1 := ⟨n - 1, by omega⟩
          rw [drainLoop, drainLoop]
          split_ifs
          · split
            · rfl
            · rfl
            · rename_i pkt q hnext
              have hlt := (next_shorter F hnext).2
              have hrest : drainLoop F k q = drainLoop F m q := by
                rw [ih k (by omega) (by omega), ih m (by omega) (by omega)]
              rw [hrest]
          · rfl

/-- The calls on `p` are the first one and those behind it. -/
theorem forall_calls_iff {p : BinaryParser} {Q : BinaryParser → Prop} :
    (∀ pkts q, Calls F p pkts q → Q q) ↔
      Q p ∧ ∀ pkt p', p.next F = (.ok (some pkt), p') → ∀ pkts q, Calls F p' pkts q → Q q := by
  constructor
  · intro h
    refine ⟨h [] p (.done p), fun pkt p' hnext pkts q hcalls => ?_⟩
    exact h (pkt :: pkts) q (.call hnext hcalls)
  · rintro ⟨hp, hrest⟩ pkts q hcalls
    cases hcalls with
    | done => exact hp
    | call hnext hcalls => exact hrest _ _ hnext _ q hcalls

/-- The loop stops as `E` says exactly when every call it makes makes progress. -/
theorem drainLoop_fails_iff (hE : Absorbs E) {n : Nat} {p : BinaryParser}
    (h : p.left.length ≤ n) : (∀ f, (drainLoop F n p).2 = some f → E f) ↔
      ∀ pkts q, Calls F p pkts q → q.hasNext = true → Progress E F q := by
  induction n generalizing p with
  | zero =>
      have hempty : p.left = [] := List.length_eq_zero_iff.mp (Nat.le_zero.mp h)
      have hstop : ∀ pkt p', p.next F ≠ (.ok (some pkt), p') := by
        intro pkt p' hnext
        have := (next_shorter F hnext).2
        omega
      rw [forall_calls_iff]
      refine iff_of_true (fun f hf => by cases hf) ⟨fun hp => ?_, fun pkt p' hnext => ?_⟩
      · simp [hasNext, hempty] at hp
      · exact absurd hnext (hstop pkt p')
  | succ n ih =>
      rw [forall_calls_iff]
      by_cases hp : p.hasNext = true
      · rw [drainLoop, if_pos hp, forall_prop_of_true hp]
        unfold Progress
        cases hnext : p.next F with
        | mk r q =>
            cases r with
            | error f => simp
            | ok pkt? =>
                cases pkt? with
                | none => simp [hE.emptyOptional]
                | some pkt =>
                    obtain ⟨hmoved, hlt⟩ := next_shorter F hnext
                    have hq := ih (p := q) (by omega)
                    unfold Progress at hq
                    simp only [hmoved, true_and, Prod.mk.injEq, Except.ok.injEq, Option.some.injEq,
                      and_imp]
                    refine hq.trans ⟨?_, fun h => h pkt q rfl rfl⟩
                    rintro h _ _ rfl rfl
                    exact h
      · have hnone : p.next F = (.ok none, p) := by
          rw [next, if_neg hp]
        rw [drainLoop, if_neg hp, hnone]
        simp [hp]

theorem drainsWhen (hE : Absorbs E) {A : Bytes → Prop}
    (hA : ∀ p : BinaryParser, p.hasNext = true → (Progress E F p ↔ A p.left)) :
    DrainsWhen E F A := by
  refine ⟨hA, fun data => ?_⟩
  unfold Drains
  have hrounds : ∀ n, data.length ≤ n → drainLoop F n (create data) = drain F data :=
    fun n hn => drainLoop_rounds F (p := create data) hn
  rw [and_iff_right hrounds]
  refine (drainLoop_fails_iff F hE (p := create data) (Nat.le_refl data.length)).trans ?_
  refine forall_congr' fun pkts => forall_congr' fun q => imp_congr_right fun _ => ?_
  exact forall_congr' (hA q)

end BinaryParser
end Binary
end Metamix
