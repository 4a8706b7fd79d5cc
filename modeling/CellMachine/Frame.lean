import CellMachine.Stack
import CellMachine.Fault

/-!
# Frames

Every active call has a frame with its variables. A slot holds one value of each type at once, and
zeros until it is written. Frames lie on a stack, the innermost on top. A variable is addressed in
the top frame or in the innermost frame of a function; under recursion the outer calls of a function
are out of reach.
-/

namespace CellMachine

/-- Which frame a variable is in: that of the executing call, or that of the innermost active call
of a function. -/
inductive Scope
  | top
  | context (function : UInt16)
deriving DecidableEq, Repr

/-- The variables of one number: one of each type. -/
structure Slot where
  int : Int64 := 0
  double : Float := 0.0
  text : Text := Text.empty
deriving DecidableEq, Inhabited

namespace Slot

def get (s : Slot) : ValueType → Cell
  | .int => .int s.int
  | .double => .double s.double
  | .text => .text s.text

/-- Writes the variable of the cell's type. -/
def set (s : Slot) : Cell → Slot
  | .int n => { s with int := n }
  | .double d => { s with double := d }
  | .text t => { s with text := t }

@[simp] theorem get_set_same (s : Slot) (c : Cell) : (s.set c).get c.type = c := by
  cases c <;> rfl

theorem get_set_of_ne (s : Slot) {c : Cell} {t : ValueType} (h : t ≠ c.type) :
    (s.set c).get t = s.get t := by
  cases c <;> cases t <;> first | rfl | exact absurd rfl h

@[simp] theorem get_zero (t : ValueType) : ({} : Slot).get t = Cell.zero t := by
  cases t <;> rfl

end Slot

/-- The variables of one call. -/
structure Frame where
  function : UInt16
  /-- The number of the call in the order in which calls began. -/
  invocation : Nat
  slots : Array Slot
deriving DecidableEq, Inhabited

namespace Frame

def fresh (function : UInt16) (invocation : Nat) (locals : UInt16) : Frame :=
  ⟨function, invocation, Array.replicate locals.toNat {}⟩

def locals (f : Frame) : Nat := f.slots.size

/-- A frame without the values in it. -/
structure Outline where
  function : UInt16
  invocation : Nat
  locals : Nat

def outline (f : Frame) : Outline := ⟨f.function, f.invocation, f.locals⟩

def outOfRange (f : Frame) (slot : UInt16) : Cause := .slotOutOfRange slot f.function f.locals

def load (f : Frame) (t : ValueType) (slot : UInt16) : Except Cause Cell :=
  match f.slots[slot.toNat]? with
  | some s => .ok (s.get t)
  | none => .error (f.outOfRange slot)

/-- Reads at a type by its name, which must be a type of values. -/
def loadTagged (f : Frame) (tag : TypeTag) (slot : UInt16) : Except Cause Cell :=
  match tag.valueType? with
  | some t => f.load t slot
  | none => .error (.noBank tag)

/-- Writes a slot that exists. -/
def write (f : Frame) (slot : UInt16) (c : Cell) : Frame :=
  match f with
  | ⟨function, invocation, slots⟩ => ⟨function, invocation, slots.modify slot.toNat (·.set c)⟩

end Frame

/-- The frames of the active calls. -/
structure FrameStack where
  frames : Stack Frame
  /-- The number of the next call. -/
  next : Nat

/-- Whether a scope means a frame, for one that lies above all others it means. -/
def Scope.selects : Scope → Frame → Bool
  | .top, _ => true
  | .context function, f => f.function == function

/-- Why a scope means no frame. -/
def Scope.missing : Scope → Cause
  | .top => .noActiveFrame
  | .context function => .inactiveContext function

namespace FrameStack

def empty : FrameStack := ⟨Stack.empty, 0⟩

instance : Inhabited FrameStack := ⟨empty⟩

def depth (s : FrameStack) : Nat := s.frames.depth

def push (s : FrameStack) (function locals : UInt16) : FrameStack :=
  ⟨s.frames.push (Frame.fresh function s.next locals), s.next + 1⟩

def pop? (s : FrameStack) : Option (Frame × FrameStack) :=
  match s.frames.pop? with
  | some (f, rest) => some (f, ⟨rest, s.next⟩)
  | none => none

def frame (s : FrameStack) (scope : Scope) : Except Cause Frame :=
  match s.frames.items.find? scope.selects with
  | some f => .ok f
  | none => .error scope.missing

def load (s : FrameStack) (scope : Scope) (t : ValueType) (slot : UInt16) : Except Cause Cell :=
  match s.frame scope with
  | .ok f => f.load t slot
  | .error cause => .error cause

def loadTagged (s : FrameStack) (scope : Scope) (tag : TypeTag) (slot : UInt16) :
    Except Cause Cell :=
  match s.frame scope with
  | .ok f => f.loadTagged tag slot
  | .error cause => .error cause

/-- A read at a type of values is a read at its name. -/
theorem loadTagged_tag (s : FrameStack) (scope : Scope) (t : ValueType) (slot : UInt16) :
    s.loadTagged scope t.tag slot = s.load scope t slot := by
  unfold loadTagged load
  cases s.frame scope with
  | error cause => rfl
  | ok fr => simp only [Frame.loadTagged, ValueType.valueType?_tag]

/-- Whether a variable can be written, or why not. -/
def checkSlot (s : FrameStack) (scope : Scope) (slot : UInt16) : Except Cause Unit :=
  match s.frame scope with
  | .ok f => if slot.toNat < f.locals then .ok () else .error (f.outOfRange slot)
  | .error cause => .error cause

def write (s : FrameStack) (scope : Scope) (slot : UInt16) (c : Cell) : FrameStack :=
  match s with
  | ⟨frames, next⟩ => ⟨frames.update scope.selects (·.write slot c), next⟩

/-- Writes the variable of the cell's type, if it exists. -/
def store (s : FrameStack) (scope : Scope) (slot : UInt16) (c : Cell) : Except Cause FrameStack :=
  match s.checkSlot scope slot with
  | .error cause => .error cause
  | .ok () => .ok (s.write scope slot c)

/-! ### Other accesses -/

def get (s : FrameStack) (t : ValueType) (slot : UInt16) : Except Cause Cell := s.load .top t slot

def set (s : FrameStack) (slot : UInt16) (c : Cell) : Except Cause FrameStack := s.store .top slot c

def getIn (s : FrameStack) (function : UInt16) (t : ValueType) (slot : UInt16) : Except Cause Cell :=
  s.load (.context function) t slot

def setIn (s : FrameStack) (function slot : UInt16) (c : Cell) : Except Cause FrameStack :=
  s.store (.context function) slot c

/-- Reads one of the first four variables of the top frame. -/
def loadCached (s : FrameStack) (tag : TypeTag) (index : UInt16) : Except Cause Cell :=
  s.loadTagged .top tag index

def storeCached (s : FrameStack) (index : UInt16) (c : Cell) : Except Cause FrameStack :=
  s.store .top index c

/-- Stores into a frame that was looked up before. -/
def storeInFrame (s : FrameStack) (scope : Scope) (slot : UInt16) (c : Cell) :
    Except Cause FrameStack :=
  match s.frame scope with
  | .error cause => .error cause
  | .ok f =>
    if slot.toNat < f.locals then .ok (s.write scope slot c) else .error (f.outOfRange slot)

/-! ### Operations -/

/-- What can be done with the frames of the active calls. -/
inductive Operation
  | push (function locals : UInt16)
  | pop
  | load (scope : Scope) (tag : TypeTag) (slot : UInt16)
  | store (scope : Scope) (slot : UInt16) (c : Cell)
  | storeInFrame (scope : Scope) (slot : UInt16) (c : Cell)
  | loadCached (tag : TypeTag) (index : Fin 4)
  | storeCached (index : Fin 4) (c : Cell)
  | get (t : ValueType) (slot : UInt16)
  | set (slot : UInt16) (c : Cell)
  | getIn (function : UInt16) (t : ValueType) (slot : UInt16)
  | setIn (function : UInt16) (slot : UInt16) (c : Cell)

inductive Reply
  | began (invocation : Nat)
  | ended (frame : Frame.Outline)
  | value (c : Cell)
  | stored

def loading (s : FrameStack) (read : Except Cause Cell) : Except Cause Reply × FrameStack :=
  (read.map .value, s)

/-- A store that is refused leaves the frames as they are. -/
def storing (s : FrameStack) : Except Cause FrameStack → Except Cause Reply × FrameStack
  | .ok written => (.ok .stored, written)
  | .error cause => (.error cause, s)

def perform (s : FrameStack) : Operation → Except Cause Reply × FrameStack
  | .push function locals => (.ok (.began s.next), s.push function locals)
  | .pop =>
    match s.pop? with
    | some (f, rest) => (.ok (.ended f.outline), rest)
    | none => (.error .noFrameToPop, s)
  | .load scope tag slot => s.loading (s.loadTagged scope tag slot)
  | .loadCached tag index => s.loading (s.loadCached tag (UInt16.ofNat index))
  | .get t slot => s.loading (s.get t slot)
  | .getIn function t slot => s.loading (s.getIn function t slot)
  | .store scope slot c => s.storing (s.store scope slot c)
  | .storeInFrame scope slot c => s.storing (s.storeInFrame scope slot c)
  | .storeCached index c => s.storing (s.storeCached (UInt16.ofNat index) c)
  | .set slot c => s.storing (s.set slot c)
  | .setIn function slot c => s.storing (s.setIn function slot c)

end FrameStack

end CellMachine
