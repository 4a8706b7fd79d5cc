import CellMachine.Journal
import CellMachine.Native

/-!
# Natives of the host

The natives that every program can use. A declaration is served only if its name and its types are
those of a native in the table. Registers are filled from the last argument on, so the second
argument of `pow` is in the first register.
-/

namespace CellMachine.Host

/-- A native that this host provides. -/
structure Entry where
  name : String
  signature : Signature
  code : NativeCode

/-- A native that maps a double to a double. -/
def unary (name : String) (f : Float → Float) : Entry where
  name := name
  signature := { result := .double, params := [.double] }
  code := fun r => { float := f (r.float 0) }

def power : Entry where
  name := "pow"
  signature := { result := .double, params := [.double, .double] }
  code := fun r => { float := Float.pow (r.float 1) (r.float 0) }

/-- The absolute value of the least integer is that integer. -/
def absolute : Entry where
  name := "labs"
  signature := { result := .int, params := [.int] }
  code := fun r =>
    match r.int 0 with
    | .int n => { int := if n < 0 then -n else n }
    | .text _ => {}

def textLength : Entry where
  name := "strlen"
  signature := { result := .int, params := [.string] }
  code := fun r =>
    match r.int 0 with
    | .text t => { int := Int64.ofNat t.length }
    | .int _ => {}

def entries : List Entry := [
  unary "sqrt" Float.sqrt, unary "sin" Float.sin, unary "cos" Float.cos, unary "exp" Float.exp,
  unary "log" Float.log, unary "fabs" Float.abs, unary "floor" Float.floor,
  power, absolute, textLength]

def names : List String := entries.map Entry.name

/-- The code for a declaration, or the event that tells why there is none. -/
def find (name : String) (signature : Signature) : Except Event NativeCode :=
  match entries.find? fun e => e.name == name with
  | none => .error (.unknownNative name)
  | some e => if signature = e.signature then .ok e.code else .error (.nativeMismatch name)

def resolver : Resolver := fun name signature => (find name signature).toOption

/-- Records why the host does not serve a declaration, if it does not. -/
def explain (journal : Journal) (name : String) (signature : Signature) : Journal :=
  match find name signature with
  | .ok _ => journal
  | .error e => journal.record e

end CellMachine.Host
