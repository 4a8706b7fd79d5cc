import CellMachine.Machine.Step
import CellMachine.Proofs.Code

/-!
# Instructions and their layouts

The machine reads each operand field by field, in the arm of its instruction. Main statement: whatever
the arm, it reads the operand that the layout of the opcode prescribes, all of it before the machine
changes, goes on behind it, and then does what the action of the instruction says.
-/

namespace CellMachine

/-- An instruction in its function: where it starts and where the next one does. -/
structure Site where
  function : Function
  offset : Nat
  next : Nat

namespace Machine

def perform (p : Program) (site : Site) : Action → Op Flow
  | .fail => throw .invalidInstruction
  | .push c => do
    onStack (OperandStack.push c)
    return .next site.next
  | .pushConstant id => do
    let t ← lookup (p.constant id)
    onStack (OperandStack.push (.text t))
    return .next site.next
  | .doubleOp o => do
    onStack (OperandStack.doubleOp o)
    return .next site.next
  | .intOp o => do
    onStack (OperandStack.intOp o)
    return .next site.next
  | .negate n => do
    onStack (OperandStack.negate n)
    return .next site.next
  | .print t => do
    printTop t
    return .next site.next
  | .convert c => do
    onStack (OperandStack.convert c)
    return .next site.next
  | .swap => do
    onStack OperandStack.swap
    return .next site.next
  | .pop => do
    let _ ← onStack OperandStack.pop
    return .next site.next
  | .load scope t slot => do
    let c ← load scope t slot
    onStack (OperandStack.push c)
    return .next site.next
  | .store scope t slot => do
    let c ← onStack (OperandStack.popTyped t.tag)
    store scope slot c
    return .next site.next
  | .compare n => do
    onStack (OperandStack.compare n)
    return .next site.next
  | .jump offset => do
    let target ← lookup (jumpTarget site.function.code site.next offset)
    return .next target
  | .jumpIf c offset => do
    let (lower, upper) ← onStack OperandStack.peekInts
    if c.holds lower upper then
      let target ← lookup (jumpTarget site.function.code site.next offset)
      return .next target
    else return .next site.next
  | .dump => do
    noted fun m => .dump m.stack.top?
    return .next site.next
  | .stop => return .stop
  | .call id => return .call id site.next
  | .callNative id => do
    callNative p id
    return .next site.next
  | .ret => return .next site.function.code.size
  | .breakpoint => do
    noted fun _ => .breakpoint site.function.id site.offset
    return .next site.next

/-! ### The operands that instructions read -/

theorem run_readField {α : Type} (code : Code) (width : Nat) (read : Nat → Option α) (pos : Nat) :
    (readField code width read).run pos = do
      let value ← lookup (code.field width pos (read pos))
      return (value, pos + width) := rfl

theorem run_jumpBy (code : Code) (offset : Int16) (pos : Nat) :
    (jumpBy code offset).run pos = do
      let target ← lookup (jumpTarget code pos offset)
      return ((), target) := rfl

theorem lookup_ok {α : Type} (value : α) : lookup (.ok value) = pure value := rfl

/-- Two fields one after the other are the operand made of both. -/
theorem lookup_contextSlot (code : Code) (pos : Nat) :
    @lookup (UInt16 × UInt16) (code.operandAt pos .contextSlot) = do
      let context ← lookup (code.field 2 pos (code.uint16? pos))
      let slot ← lookup (code.field 2 (pos + 2) (code.uint16? (pos + 2)))
      return (context, slot) := by
  unfold Code.operandAt
  cases code.field 2 pos (code.uint16? pos) with
  | error cause => rfl
  | ok context => cases code.field 2 (pos + 2) (code.uint16? (pos + 2)) <;> rfl

theorem loadCached_eq (t : ValueType) (index : UInt16) : loadCached t index = load .top t index := by
  funext m
  simp only [loadCached, load, FrameStack.loadCached, FrameStack.loadTagged_tag]

/-- Every arm reads what the layout of its opcode says before it does anything else, ends behind that
unless it jumps or returns, and does what the action of the instruction does. -/
theorem carryOut_by_layout (p : Program) (f : Function) (op : Opcode) (pos : Nat) :
    (do
      let (control, pos) ← (carryOut p f op).run pos
      return control.flow pos) = (do
      let operand ← lookup (f.code.operandAt pos op.layout)
      perform p ⟨f, pos - 1, pos + op.layout.width⟩ (op.action operand)) := by
  cases op with
  | invalid => rfl
  | literal t =>
    cases t <;>
      simp [carryOut, Opcode.layout, Layout.width, Code.operandAt, Opcode.action, perform, Control.flow,
        readDouble, readInt64, readUInt16, run_readField]
  | one n | minusOne n =>
    cases n <;>
      simp [carryOut, Opcode.layout, Layout.width, Code.operandAt, Opcode.action, perform, Control.flow,
        lookup_ok]
  | loadContext t | storeContext t =>
    simp [carryOut, Opcode.layout, Layout.width, lookup_contextSlot, Opcode.action, perform, Control.flow,
      readUInt16, run_readField, pushVariable, popVariable]
  | jumpIf c =>
    simp only [carryOut, Opcode.layout, Layout.width, Code.operandAt, Opcode.action, perform, readInt16,
      StateT.run_bind, run_readField, bind_assoc, pure_bind, StateT.run_monadLift]
    refine congrArg (lookup _ >>= ·) (funext fun offset => ?_)
    refine congrArg (onStack OperandStack.peekInts >>= ·) (funext fun operands => ?_)
    obtain ⟨lower, upper⟩ := operands
    dsimp only
    split <;> simp [run_jumpBy, Control.flow]
  | _ =>
    simp [carryOut, Opcode.layout, Layout.width, Code.operandAt, Opcode.action, perform, Control.flow,
      readUInt16, readInt16, run_readField, run_jumpBy, lookup_ok, pushVariable, popVariable, pushCached,
      popCached, loadCached_eq, storeCached]

/-- An instruction is carried out as its layout and its action say. -/
theorem execute_by_layout (p : Program) (f : Function) (cursor : Nat) :
    execute p f cursor = (do
      let op ← lookup (f.code.opcodeAt cursor)
      noted fun m => .dispatch f.id cursor op m.stack.depth
      let operand ← lookup (f.code.operandAt (cursor + 1) op.layout)
      perform p ⟨f, cursor, cursor + op.length⟩ (op.action operand)) := by
  unfold execute
  refine congrArg (lookup _ >>= ·) (funext fun op => ?_)
  refine congrArg (noted _ >>= ·) (funext fun _ => ?_)
  rw [carryOut_by_layout, Opcode.length, ← Nat.add_assoc, Nat.add_sub_cancel]

end Machine

end CellMachine
