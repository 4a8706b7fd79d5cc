import CellMachine.Bytes
import CellMachine.Opcode

/-!
# Instructions

An instruction is an opcode with an operand of its layout. `encoded` writes it as bytes.
-/

namespace CellMachine

/-- The operand of a layout. A double is kept as its bits. -/
@[reducible]
def Layout.Operand : Layout → Type
  | .none => Unit
  | .double => UInt64
  | .int => Int64
  | .id => UInt16
  | .contextSlot => UInt16 × UInt16
  | .jumpOffset => Int16

/-- The bytes of an operand. -/
def Layout.encoded : (l : Layout) → l.Operand → List UInt8
  | .none, () => []
  | .double, bits => littleEndian 8 bits.toNat
  | .int, n => littleEndian 8 n.toUInt64.toNat
  | .id, number => littleEndian 2 number.toNat
  | .contextSlot, (context, slot) => littleEndian 2 context.toNat ++ littleEndian 2 slot.toNat
  | .jumpOffset, offset => littleEndian 2 offset.toUInt16.toNat

@[simp] theorem Layout.length_encoded (l : Layout) (operand : l.Operand) :
    (l.encoded operand).length = l.width := by
  cases l <;> simp [Layout.encoded, Layout.width]

structure Instruction where
  opcode : Opcode
  operand : opcode.layout.Operand

namespace Instruction

/-- The tag byte and the operand. -/
def encoded (i : Instruction) : List UInt8 := i.opcode.tag :: i.opcode.layout.encoded i.operand

@[simp] theorem length_encoded (i : Instruction) : i.encoded.length = i.opcode.length := by
  simp [encoded, Opcode.length, Nat.add_comm]

/-- The instruction of an opcode and an operand, if the opcode takes operands of that layout. -/
def make? (op : Opcode) (l : Layout) (operand : l.Operand) : Option Instruction :=
  if h : op.layout = l then some ⟨op, cast (congrArg Layout.Operand h.symm) operand⟩ else none

theorem encoded_of_make? {op : Opcode} {l : Layout} {operand : l.Operand} {i : Instruction}
    (h : make? op l operand = some i) : i.encoded = op.tag :: l.encoded operand := by
  unfold make? at h
  split at h
  · rename_i hl
    subst hl
    cases h
    rfl
  · cases h

end Instruction

end CellMachine
