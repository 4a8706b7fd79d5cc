import CellMachine.Code
import CellMachine.Native

/-!
# Programs

A program is a table of functions, a pool of constant texts and a table of natives, each addressed
by 16-bit ids, and the id of the function to start with. The ids of the functions are their
positions, and the entry is one of them, by the type.
-/

namespace CellMachine

structure Function where
  id : UInt16
  name : String
  signature : Signature
  /-- Variables of each type in a frame of this function. -/
  locals : UInt16
  code : Code
deriving DecidableEq, Inhabited

/-- Ids of functions and natives are below this number. -/
def idSpace : Nat := 65536

structure Program where
  functions : Array Function
  constants : Array Text
  natives : Array Native
  entry : UInt16
  functions_fit : functions.size ≤ idSpace
  natives_fit : natives.size ≤ idSpace
  id_eq_position : ∀ (i : Nat) (h : i < functions.size), functions[i].id.toNat = i
  entry_lt : entry.toNat < functions.size

namespace Program

/-- The first function whose id is not its position, with that position. -/
def misplaced? : (functions : List Function) → (position : Nat) → Option (Function × Nat)
  | [], _ => none
  | f :: rest, position =>
    if f.id.toNat = position then misplaced? rest (position + 1) else some (f, position)

theorem id_of_misplaced?_eq_none {functions : List Function} {position : Nat}
    (h : misplaced? functions position = none) (i : Nat) (hi : i < functions.length) :
    functions[i].id.toNat = position + i := by
  induction functions generalizing position i with
  | nil => simp at hi
  | cons f rest ih =>
    unfold misplaced? at h
    split at h
    · rename_i hf
      cases i with
      | zero => simpa using hf
      | succ i =>
        have := ih h i (by simpa using hi)
        simp only [List.getElem_cons_succ, this]
        omega
    · cases h

/-- The program of the given parts, or what keeps them from being one. -/
def make (functions : Array Function) (constants : Array Text) (natives : Array Native)
    (entry : UInt16) : Except Cause Program :=
  if functions_fit : functions.size ≤ idSpace then
    if natives_fit : natives.size ≤ idSpace then
      match placed : misplaced? functions.toList 0 with
      | some (f, position) => .error (.misplacedFunction f.name f.id position)
      | none =>
        if entry_lt : entry.toNat < functions.size then
          .ok { functions, constants, natives, entry, functions_fit, natives_fit, entry_lt
                id_eq_position := fun i h => by
                  have := id_of_misplaced?_eq_none placed i (by simpa using h)
                  rwa [Array.getElem_toList, Nat.zero_add] at this }
        else .error (.undefinedEntry entry functions.size)
    else .error (.tooManyNatives natives.size)
  else .error (.tooManyFunctions functions.size)

/-- The function a run starts with. -/
def entryFunction (p : Program) : Function :=
  have := p.entry_lt
  p.functions[p.entry.toNat]

def function (p : Program) (id : UInt16) : Except Cause Function :=
  match p.functions[id.toNat]? with
  | some f => .ok f
  | none => .error (.undefinedFunction id)

def constant (p : Program) (id : UInt16) : Except Cause Text :=
  match p.constants[id.toNat]? with
  | some t => .ok t
  | none => .error (.undefinedConstant id)

def native (p : Program) (id : UInt16) : Except Cause Native :=
  match p.natives[id.toNat]? with
  | some n => .ok n
  | none => .error (.undefinedNative id)

/-- A function that was looked up has the id it was looked up by. -/
theorem id_of_function {p : Program} {id : UInt16} {f : Function} (h : p.function id = .ok f) :
    f.id = id := by
  unfold function at h
  split at h
  · rename_i g hg
    cases h
    obtain ⟨hi, rfl⟩ := Array.getElem?_eq_some_iff.1 hg
    exact UInt16.toNat_inj.1 (p.id_eq_position _ hi)
  · cases h

theorem function_entry (p : Program) : p.function p.entry = .ok p.entryFunction := by
  simp [function, entryFunction, p.entry_lt]

end Program

end CellMachine
