import CellMachine.Argument
import CellMachine.Machine

/-!
# The command line

Options are long, such as `--budget 9` or `--budget=9`, or short, such as `-f p`, `-fp` or `-f=p`;
short options without a value may share one dash. An option gets the next word as its value unless
that word looks like an option itself. A value is looked at when the next option comes, so that of
two mistakes the earlier one is reported. There are no other arguments.
-/

namespace CellMachine.CommandLine

inductive Refusal
  | unknownArgument
  /-- A value is missing, or empty where it may not be. -/
  | invalidValue
  /-- A value is not of the form it must have. -/
  | valueValidation
  /-- An option is given twice. -/
  | argumentConflict
  /-- An option without a value is given one. -/
  | tooManyValues
  | displayHelp
  | displayVersion
deriving DecidableEq, Repr

def Refusal.message : Refusal → String
  | unknownArgument => "unexpected argument"
  | invalidValue => "a value is required"
  | valueValidation => "invalid value"
  | argumentConflict => "the argument cannot be used multiple times"
  | tooManyValues => "unexpected value"
  | displayHelp => "help requested"
  | displayVersion => "version requested"

inductive Setting
  | file | arg | maxStack | maxCalls | budget
deriving DecidableEq, Repr

inductive Flag
  | verbose | help | version
deriving DecidableEq, Repr

inductive Key
  | setting (s : Setting)
  | flag (f : Flag)
deriving DecidableEq, Repr

def long? (name : String) : Option Key :=
  if name = "file" then some (.setting .file)
  else if name = "arg" then some (.setting .arg)
  else if name = "max-stack" then some (.setting .maxStack)
  else if name = "max-calls" then some (.setting .maxCalls)
  else if name = "budget" then some (.setting .budget)
  else if name = "verbose" then some (.flag .verbose)
  else if name = "help" then some (.flag .help)
  else if name = "version" then some (.flag .version)
  else none

def short? : Char → Option Key
  | 'f' => some (.setting .file)
  | 'v' => some (.flag .verbose)
  | 'h' => some (.flag .help)
  | 'V' => some (.flag .version)
  | _ => none

/-- A number of 64 bits without a sign, or after a plus. -/
def number? (value : String) : Option Nat :=
  let digits :=
    match value.toList with
    | '+' :: rest => rest
    | cs => cs
  match Argument.natural? digits with
  | some n => if n < UInt64.size then some n else none
  | none => none

def numberOnce (current : Option Nat) (value : String) : Except Refusal (Option Nat) :=
  if current.isSome then .error .argumentConflict
  else
    match number? value with
    | some n => .ok (some n)
    | none => .error .valueValidation

def assign (c : CommandLine) (setting : Setting) (value : String) : Except Refusal CommandLine :=
  match setting with
  | .arg => .ok { c with args := c.args ++ [value] }
  | .file =>
    if c.file.isSome then .error .argumentConflict
    else if value = "" then .error .invalidValue
    else .ok { c with file := some value }
  | .maxStack => (numberOnce c.maxStack value).map fun n => { c with maxStack := n }
  | .maxCalls => (numberOnce c.maxCalls value).map fun n => { c with maxCalls := n }
  | .budget => (numberOnce c.budget value).map fun n => { c with budget := n }

/-- A command line of which some words were read. An option whose value is still to be looked at is open,
with its value if that was there. -/
structure Reading where
  read : CommandLine := {}
  opened : Option (Setting × Option String) := none

namespace Reading

def settle (p : Reading) : Except Refusal CommandLine :=
  match p.opened with
  | none => .ok p.read
  | some (_, none) => .error .invalidValue
  | some (setting, some value) => p.read.assign setting value

/-- An option with its value, or one whose value is the next word. -/
def withSetting (p : Reading) (setting : Setting) : (value? : Option String) → Except Refusal Reading
  | none => p.settle.map fun read => { read, opened := some (setting, none) }
  | some value => do
    let read ← p.settle
    let read ← read.assign setting value
    return { read }

def withFlag (p : Reading) (flag : Flag) : Except Refusal Reading := do
  let read ← p.settle
  match flag with
  | .help => throw .displayHelp
  | .version => throw .displayVersion
  | .verbose =>
    if read.verbose then throw .argumentConflict
    else return { read := { read with verbose := true } }

def withLong (p : Reading) (name : String) (value? : Option String) : Except Refusal Reading :=
  match long? name with
  | none => .error .unknownArgument
  | some (.setting setting) => p.withSetting setting value?
  | some (.flag flag) => if value?.isSome then .error .tooManyValues else p.withFlag flag

/-- What follows a short option in its word, as a value of that option. -/
def attached? : List Char → Option String
  | [] => none
  | '=' :: value => some (String.ofList value)
  | value => some (String.ofList value)

def withShort (p : Reading) : List Char → Except Refusal Reading
  | [] => .ok p
  | c :: rest =>
    match short? c with
    | none => .error .unknownArgument
    | some (.setting setting) => p.withSetting setting (attached? rest)
    | some (.flag flag) => do
      let p ← p.withFlag flag
      p.withShort rest

/-- A word that is no option: the value of the open option, if that has none. -/
def withValue (p : Reading) (value : String) : Except Refusal Reading :=
  match p.opened with
  | some (setting, none) => .ok { p with opened := some (setting, some value) }
  | _ => .error .unknownArgument

def withWord (p : Reading) (word : String) : Except Refusal Reading :=
  match word.toList with
  | '-' :: '-' :: long =>
    let name := String.ofList (long.takeWhile (· ≠ '='))
    let value? :=
      match long.dropWhile (· ≠ '=') with
      | [] => none
      | _ :: value => some (String.ofList value)
    p.withLong name value?
  | '-' :: c :: rest => p.withShort (c :: rest)
  | _ => p.withValue word

def withWords (p : Reading) : List String → Except Refusal CommandLine
  | [] => p.settle
  | word :: words =>
    -- After two dashes alone there are no options, so nothing may follow.
    if word = "--" then if words = [] then p.settle else .error .unknownArgument
    else do
      let p ← p.withWord word
      p.withWords words

end Reading

def parse (words : List String) : Except Refusal CommandLine := Reading.withWords {} words

def limits (c : CommandLine) : Limits where
  maxStack := c.maxStack.getD ({} : Limits).maxStack
  maxCalls := c.maxCalls.getD ({} : Limits).maxCalls
  budget := c.budget

end CellMachine.CommandLine
