/-
The pull parser every format is built on.

A parser is a cursor over a buffer with two plug-ins: `Next` finds where the next
packet lies and `Pack` turns those bytes into a value.  A pointer pair is modelled
by the bytes between the two pointers, and `Fault` collects every way in which a
call can end without a value: the parse error the callers catch, the other C++
exceptions they do not, a failed assertion, and a read outside the range the code
was handed.  Where the code goes on behind such a read, it is inside the buffer, and
ends in a parse error, both are kept together (`overread`).  Assertions are on, as in
the build the tests run in.
-/
import Metamix.Lib.Reader

namespace Metamix

abbrev Bytes := List UInt8

namespace Binary

/-- The one exception the packet processors catch. -/
structure BinaryParseError where
  what : String
  bytesConsumed : Nat
  bytesLeft : Nat
deriving DecidableEq, Repr

inductive Fault where
  /-- `BinaryParseError` is thrown. -/
  | parse (err : BinaryParseError)
  /-- `std::runtime_error` that is not a `BinaryParseError` is thrown. -/
  | runtimeError (what : String)
  /-- `std::length_error` is thrown, by a vector built from a reversed range. -/
  | lengthError
  /-- An `assert` fails. -/
  | assertion
  /-- A byte outside the range the code was handed is read. -/
  | outOfBounds
  /-- Bytes up to `count` behind the range are read, and then `BinaryParseError` is thrown. -/
  | overread (count : Nat) (err : BinaryParseError)
  /-- An empty `std::optional` is dereferenced. -/
  | emptyOptional
deriving DecidableEq, Repr

@[simp] theorem ok_bind {ε α β : Type} (a : α) (f : α → Except ε β) :
    ((.ok a : Except ε α) >>= f) = f a := rfl

@[simp] theorem error_bind {ε α β : Type} (e : ε) (f : α → Except ε β) :
    ((.error e : Except ε α) >>= f) = .error e := rfl

theorem of_bind_eq_ok {ε α β : Type} {x : Except ε α} {f : α → Except ε β} {b : β}
    (h : (x >>= f) = .ok b) : ∃ a, x = .ok a ∧ f a = .ok b := by
  cases x with
  | ok a => exact ⟨a, rfl, h⟩
  | error e => exact nomatch h

theorem of_bind_eq_error {ε α β : Type} {x : Except ε α} {f : α → Except ε β} {e : ε}
    (h : (x >>= f) = .error e) : x = .error e ∨ ∃ a, x = .ok a ∧ f a = .error e := by
  cases x with
  | ok a => exact .inr ⟨a, rfl, h⟩
  | error e' => exact .inl (congrArg Except.error (Except.error.inj h))

/-- A parse error as thrown, before `next` fills in the position. -/
def parseError (what : String) : Fault := .parse ⟨what, 0, 0⟩

/-- A call ends the way its callers are written for: with a value or with a
`BinaryParseError`. -/
def Contained {α : Type} : Except Fault α → Prop
  | .ok _ => True
  | .error (.parse _) => True
  | .error _ => False

instance {α : Type} (r : Except Fault α) : Decidable (Contained r) :=
  match r with
  | .ok _ => isTrue trivial
  | .error (.parse _) => isTrue trivial
  | .error (.runtimeError _) => isFalse id
  | .error .lengthError => isFalse id
  | .error .assertion => isFalse id
  | .error .outOfBounds => isFalse id
  | .error (.overread _ _) => isFalse id
  | .error .emptyOptional => isFalse id

/-- A kind of failure that has room for parse errors, but not for a failed assertion, a byte read
behind the end or an empty result that is used. -/
structure Absorbs (E : Fault → Prop) : Prop where
  parse : ∀ err, E (.parse err)
  assertion : ¬E .assertion
  outOfBounds : ¬E .outOfBounds
  emptyOptional : ¬E .emptyOptional

theorem Absorbs.parseError {E : Fault → Prop} (hE : Absorbs E) (what : String) :
    E (parseError what) := hE.parse _

def IsParse (f : Fault) : Prop := ∃ err, f = .parse err

theorem absorbs_isParse : Absorbs IsParse where
  parse := fun err => ⟨err, rfl⟩
  assertion := fun ⟨_, h⟩ => Fault.noConfusion h
  outOfBounds := fun ⟨_, h⟩ => Fault.noConfusion h
  emptyOptional := fun ⟨_, h⟩ => Fault.noConfusion h

theorem contained_iff {α : Type} {r : Except Fault α} :
    Contained r ↔ ∀ e, r = .error e → IsParse e := by
  cases r with
  | ok a => simp [Contained]
  | error e => cases e <;> simp [Contained, IsParse]

/-- Where a packet lies: `start` bytes past the cursor, `length` bytes long. -/
structure BinaryParserBounds where
  start : Nat
  length : Nat
deriving DecidableEq, Repr

/-- The plug-ins of a parser.  `Next` sees the bytes from the cursor to the end of
the buffer, `Pack` the bytes inside the bounds that `Next` returned. -/
structure Format (Bounds Packet : Type) where
  toBounds : Bounds → BinaryParserBounds
  Next : Bytes → Except Fault (Option Bounds)
  Pack : Bounds → Bytes → Except Fault Packet

/-- The cursor: what lies before it and what is left from it on. -/
structure BinaryParser where
  consumed : Nat
  left : Bytes
deriving DecidableEq, Repr

namespace BinaryParser

variable {Bounds Packet : Type} (F : Format Bounds Packet)

def create (data : Bytes) : BinaryParser := ⟨0, data⟩

def hasNext (p : BinaryParser) : Bool := !p.left.isEmpty

/-- The position is put into a parse error on its way out.  What is read behind the range lies in
what is left of the buffer, or behind the buffer. -/
def locate (p : BinaryParser) : Fault → Fault
  | .parse err => .parse { err with bytesConsumed := p.consumed, bytesLeft := p.left.length }
  | .overread count err =>
      if count ≤ p.left.length then
        .overread count { err with bytesConsumed := p.consumed, bytesLeft := p.left.length }
      else .outOfBounds
  | f => f

def shift (p : BinaryParser) (n : Nat) : BinaryParser :=
  ⟨p.consumed + n, p.left.drop n⟩

/-- One call of `next()`, with the state of the parser after it.  The cursor has
moved by the time `Pack` runs, so a packet that does not pack is skipped. -/
def next (p : BinaryParser) : Except Fault (Option Packet) × BinaryParser :=
  if p.hasNext then
    match F.Next p.left with
    | .error f => (.error (p.locate f), p)
    | .ok none => (.ok none, p)
    | .ok (some bounds) =>
        let b := F.toBounds bounds
        if b.start + b.length ≤ p.left.length ∧ b.length > 0 then
          let p' := p.shift (b.start + b.length)
          match F.Pack bounds ((p.left.drop b.start).take b.length) with
          | .error f => (.error (p'.locate f), p')
          | .ok pkt => (.ok (some pkt), p')
        else (.error .assertion, p)
  else (.ok none, p)

def after : Nat → BinaryParser → BinaryParser
  | 0, p => p
  | k + 1, p => after k (p.next F).2

/-- `while (parser) { parser >> x; }`: the packets read, and the fault that stopped
the loop, if any.  `operator>>` dereferences the result of `next()` unchecked.  The
first argument bounds the rounds. -/
def drainLoop : Nat → BinaryParser → List Packet × Option Fault
  | 0, _ => ([], none)
  | n + 1, p =>
      if p.hasNext then
        match p.next F with
        | (.error f, _) => ([], some f)
        | (.ok none, _) => ([], some .emptyOptional)
        | (.ok (some pkt), p') =>
            let r := drainLoop n p'
            (pkt :: r.1, r.2)
      else ([], none)

/-- Draining a buffer.  Every round that does not stop the loop takes at least one
byte, so as many rounds as there are bytes are enough. -/
def drain (data : Bytes) : List Packet × Option Fault :=
  drainLoop F data.length (create data)

/-! ## What a drained buffer is made of -/

/-- The buffer is the packets' bytes one after the other, with nothing left over. -/
def Splits : List Packet → Bytes → Prop
  | [], data => data = []
  | pkt :: pkts, data => ∃ bounds, F.Next data = .ok (some bounds) ∧
      (F.toBounds bounds).start + (F.toBounds bounds).length ≤ data.length ∧
      0 < (F.toBounds bounds).length ∧
      F.Pack bounds ((data.drop (F.toBounds bounds).start).take (F.toBounds bounds).length) =
        .ok pkt ∧
      Splits pkts (data.drop ((F.toBounds bounds).start + (F.toBounds bounds).length))

/-- A call that returns a packet has found bounds inside the buffer and packed the
bytes there. -/
theorem next_eq_some {p p' : BinaryParser} {pkt : Packet} :
    p.next F = (.ok (some pkt), p') ↔
      ∃ bounds, F.Next p.left = .ok (some bounds) ∧
        (F.toBounds bounds).start + (F.toBounds bounds).length ≤ p.left.length ∧
        0 < (F.toBounds bounds).length ∧
        F.Pack bounds ((p.left.drop (F.toBounds bounds).start).take
          (F.toBounds bounds).length) = .ok pkt ∧
        p' = p.shift ((F.toBounds bounds).start + (F.toBounds bounds).length) := by
  constructor
  · intro h
    unfold next at h
    split at h
    · split at h
      · cases h
      · cases h
      · rename_i bounds hnext
        dsimp only at h
        split at h
        · rename_i hb
          split at h
          · cases h
          · rename_i hpack
            cases h
            exact ⟨bounds, hnext, hb.1, hb.2, hpack, rfl⟩
        · cases h
    · cases h
  · rintro ⟨bounds, hnext, hle, hpos, hpack, rfl⟩
    have hne : p.hasNext = true := by
      unfold hasNext
      cases hp : p.left with
      | nil =>
          rw [hp, List.length_nil] at hle
          omega
      | cons b bs => rfl
    rw [next, if_pos hne, hnext]
    simp only [hle, hpos, and_self, if_true, hpack]

omit F in
/-- What comes out of a call located is absorbed as what goes in. -/
theorem absorbs_locate {E : Fault → Prop} (hE : Absorbs E) (p : BinaryParser) :
    Absorbs fun f => E (p.locate f) where
  parse := fun _ => hE.parse _
  assertion := hE.assertion
  outOfBounds := hE.outOfBounds
  emptyOptional := hE.emptyOptional

/-- A call fails as `E` says when its plug-ins do and the bounds are inside the buffer. -/
theorem next_fails_iff {E : Fault → Prop} (hassert : ¬E .assertion) {p : BinaryParser}
    (hp : p.hasNext = true) :
    (∀ e, (p.next F).1 = .error e → E e) ↔
      (∀ e, F.Next p.left = .error e → E (p.locate e)) ∧
        ∀ bounds, F.Next p.left = .ok (some bounds) →
          (F.toBounds bounds).start + (F.toBounds bounds).length ≤ p.left.length ∧
            0 < (F.toBounds bounds).length ∧
            ∀ e, F.Pack bounds ((p.left.drop (F.toBounds bounds).start).take
              (F.toBounds bounds).length) = .error e →
                E ((p.shift
                  ((F.toBounds bounds).start + (F.toBounds bounds).length)).locate e) := by
  rw [next, if_pos hp]
  cases hnext : F.Next p.left with
  | error f => simp
  | ok bounds? =>
      cases bounds? with
      | none => simp
      | some bounds =>
          dsimp only
          by_cases hb : (F.toBounds bounds).start + (F.toBounds bounds).length ≤ p.left.length ∧
              (F.toBounds bounds).length > 0
          · rw [if_pos hb]
            cases hpack : F.Pack bounds ((p.left.drop (F.toBounds bounds).start).take
                (F.toBounds bounds).length) with
            | error f => simp [hb.1, hb.2, hpack]
            | ok pkt => simp [hb.1, hb.2, hpack]
          · rw [if_neg hb]
            refine iff_of_false (fun h => hassert (h _ rfl)) fun h => hb ?_
            exact ⟨(h.2 bounds rfl).1, (h.2 bounds rfl).2.1⟩

theorem splits_nil {pkts : List Packet} : Splits F pkts [] ↔ pkts = [] := by
  cases pkts with
  | nil => exact iff_of_true rfl rfl
  | cons pkt pkts =>
      refine iff_of_false (fun h => ?_) (List.cons_ne_nil _ _)
      obtain ⟨bounds, -, hle, hpos, -⟩ := h
      rw [List.length_nil] at hle
      omega

theorem drainLoop_eq_none {n : Nat} {p : BinaryParser} {pkts : List Packet}
    (hn : p.left.length ≤ n) :
    drainLoop F n p = (pkts, none) ↔ Splits F pkts p.left := by
  induction n generalizing p pkts with
  | zero =>
      have hp : p.left = [] := List.length_eq_zero_iff.mp (by omega)
      rw [hp, splits_nil, drainLoop, Prod.mk.injEq, and_iff_left rfl, eq_comm]
  | succ n ih =>
      by_cases hempty : p.left = []
      · have hne : ¬p.hasNext = true := by simp [hasNext, hempty]
        rw [hempty, splits_nil, drainLoop, if_neg hne, Prod.mk.injEq, and_iff_left rfl, eq_comm]
      · have hne : p.hasNext = true := by simp [hasNext, hempty]
        rw [drainLoop, if_pos hne]
        constructor
        · intro h
          split at h
          · cases h
          · cases h
          · rename_i pkt p' hnext
            obtain ⟨bounds, hb, hle, hpos, hpack, hp'⟩ := (next_eq_some F).mp hnext
            have hlen : p'.left.length ≤ n := by
              rw [hp', shift, List.length_drop]
              omega
            obtain ⟨rfl, hnone⟩ := Prod.mk.inj h
            have htail : Splits F (drainLoop F n p').1 p'.left :=
              (ih hlen).mp (Prod.ext rfl hnone)
            have hleft : p'.left = p.left.drop ((F.toBounds bounds).start +
                (F.toBounds bounds).length) := by rw [hp']; rfl
            rw [hleft] at htail
            exact ⟨bounds, hb, hle, hpos, hpack, htail⟩
        · intro h
          cases pkts with
          | nil => exact absurd h hempty
          | cons pkt pkts =>
              obtain ⟨bounds, hb, hle, hpos, hpack, htail⟩ := h
              rw [(next_eq_some F).mpr ⟨bounds, hb, hle, hpos, hpack, rfl⟩]
              have hlen : (p.shift ((F.toBounds bounds).start +
                  (F.toBounds bounds).length)).left.length ≤ n := by
                rw [shift, List.length_drop]
                omega
              simp only
              rw [(ih hlen).mpr htail]

/-- Draining stops without a fault exactly on a buffer that splits. -/
theorem drain_eq_none {data : Bytes} {pkts : List Packet} :
    drain F data = (pkts, none) ↔ Splits F pkts data :=
  drainLoop_eq_none F (Nat.le_refl _)

inductive Calls : BinaryParser → List Packet → BinaryParser → Prop where
  | done (p : BinaryParser) : Calls p [] p
  | call {p q r : BinaryParser} {pkt : Packet} {pkts : List Packet}
      (hnext : p.next F = (.ok (some pkt), q)) (hrest : Calls q pkts r) : Calls p (pkt :: pkts) r

/-- On a buffer that splits the calls go on until nothing is left. -/
theorem Splits.calls {p : BinaryParser} {pkts : List Packet} (h : Splits F pkts p.left) :
    Calls F p pkts ⟨p.consumed + p.left.length, []⟩ := by
  induction pkts generalizing p with
  | nil =>
      have hleft : p.left = [] := h
      have hp : p = ⟨p.consumed + p.left.length, []⟩ := by
        obtain ⟨consumed, left⟩ := p
        cases hleft
        rfl
      rw [← hp]
      exact .done p
  | cons pkt pkts ih =>
      obtain ⟨bounds, hnext, hle, hpos, hpack, htail⟩ := h
      have hcall : p.next F = (.ok (some pkt), _) :=
        (next_eq_some F).mpr ⟨bounds, hnext, hle, hpos, hpack, rfl⟩
      have hrest := ih (p := p.shift ((F.toBounds bounds).start + (F.toBounds bounds).length)) htail
      have hend : p.consumed + ((F.toBounds bounds).start + (F.toBounds bounds).length) +
          (p.left.drop ((F.toBounds bounds).start + (F.toBounds bounds).length)).length =
            p.consumed + p.left.length := by
        rw [List.length_drop]
        omega
      rw [shift] at hrest
      simp only [hend] at hrest
      exact .call hcall hrest

end BinaryParser
end Binary
end Metamix
