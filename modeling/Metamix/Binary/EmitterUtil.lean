/-
Fixed-width field writers.

Each function returns the bytes it sends through the output iterator.  The masks
and shifts are those of the source, so a writer whose precedence goes wrong goes
wrong here too; the lemmas below say what each one writes.
-/
import Metamix.Lib.BigEndian
import Metamix.Binary.Parser

namespace Metamix
namespace Binary

open Lib

def write8 (value : UInt8) : Bytes := [value]

def write12Prefix (pfx : UInt8) (value : UInt16) : Bytes :=
  [((pfx &&& 0x0f) <<< 4) ||| ((value &&& 0x0f00) >>> 8).toUInt8,
    (value &&& 0x00ff).toUInt8]

/-- In the middle byte the shift binds tighter than the mask: the low value
contributes `low & 0x00f0`, not its four high bits. -/
def write12Pair (high low : UInt16) : Bytes :=
  [((high &&& 0x0ff0) >>> 4).toUInt8,
    ((high &&& 0x000f) <<< 4).toUInt8 ||| (low &&& ((0x0f00 : UInt16) >>> 4)).toUInt8,
    (low &&& 0x00ff).toUInt8]

def write16 (value : UInt16) : Bytes :=
  [((value &&& 0xff00) >>> 8).toUInt8, (value &&& 0x00ff).toUInt8]

def write32 (value : UInt32) : Bytes :=
  [((value &&& 0xff000000) >>> 24).toUInt8,
    ((value &&& 0x00ff0000) >>> 16).toUInt8,
    ((value &&& 0x0000ff00) >>> 8).toUInt8,
    (value &&& 0x000000ff).toUInt8]

def write33Prefix (pfx : UInt8) (value : UInt64) : Bytes :=
  write8 ((pfx &&& 0xfe).toUInt64 ||| ((value &&& 0x100000000) >>> 32)).toUInt8 ++
    write32 (value &&& 0xffffffff).toUInt32

def write48 (value : UInt64) : Bytes :=
  [((value &&& 0xff0000000000) >>> 40).toUInt8,
    ((value &&& 0x00ff00000000) >>> 32).toUInt8,
    ((value &&& 0x0000ff000000) >>> 24).toUInt8,
    ((value &&& 0x000000ff0000) >>> 16).toUInt8,
    ((value &&& 0x00000000ff00) >>> 8).toUInt8,
    (value &&& 0x0000000000ff).toUInt8]

@[simp] theorem write8_length (v : UInt8) : (write8 v).length = 1 := rfl

@[simp] theorem write12Prefix_length (p : UInt8) (v : UInt16) :
    (write12Prefix p v).length = 2 := rfl

@[simp] theorem write12Pair_length (h l : UInt16) : (write12Pair h l).length = 3 := rfl

@[simp] theorem write16_length (v : UInt16) : (write16 v).length = 2 := rfl

@[simp] theorem write32_length (v : UInt32) : (write32 v).length = 4 := rfl

@[simp] theorem write33Prefix_length (p : UInt8) (v : UInt64) :
    (write33Prefix p v).length = 5 := rfl

@[simp] theorem write48_length (v : UInt64) : (write48 v).length = 6 := rfl

/-! ## What the byte-aligned writers write -/

theorem write16_eq (v : UInt16) : write16 v = beBytes 2 v.toNat := by
  have h1 := and_byte_shiftRight v.toNat 8
  have h0 := mod_byte_and v.toNat
  simp only [write16, beBytes, List.cons.injEq, and_true]
  constructor <;> apply UInt8.toNat_inj.mp <;> simpa

theorem write32_eq (v : UInt32) : write32 v = beBytes 4 v.toNat := by
  have h3 := and_byte_shiftRight v.toNat 24
  have h2 := and_byte_shiftRight v.toNat 16
  have h1 := and_byte_shiftRight v.toNat 8
  have h0 := mod_byte_and v.toNat
  simp only [write32, beBytes, List.cons.injEq, and_true]
  refine ⟨?_, ?_, ?_, ?_⟩ <;> apply UInt8.toNat_inj.mp <;> simpa

theorem write48_eq (v : UInt64) : write48 v = beBytes 6 v.toNat := by
  have h5 := and_byte_shiftRight v.toNat 40
  have h4 := and_byte_shiftRight v.toNat 32
  have h3 := and_byte_shiftRight v.toNat 24
  have h2 := and_byte_shiftRight v.toNat 16
  have h1 := and_byte_shiftRight v.toNat 8
  have h0 := mod_byte_and v.toNat
  simp only [write48, beBytes, List.cons.injEq, and_true]
  refine ⟨?_, ?_, ?_, ?_, ?_, ?_⟩ <;> apply UInt8.toNat_inj.mp <;> simpa

end Binary
end Metamix
