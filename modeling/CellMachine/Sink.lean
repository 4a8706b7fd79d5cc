/-!
# Sinks

Where print instructions write. Of the bytes it is offered a device takes as many as it likes, and it
can refuse them; a flush asks it to pass on what it took. Its answers may depend on everything that was
asked of it before, which stands for whatever state it has. An output is a device with the record of
what happened to it. A sink is a device of a common kind: it has room for a limited number of bytes and
takes what fits.
-/

namespace CellMachine

/-! ### Devices -/

inductive Output.Request
  | write (bytes : List UInt8)
  | flush
deriving DecidableEq

structure Output.Record where
  /-- What was asked, the latest first. -/
  requests : List Output.Request := []
  /-- What was taken. -/
  written : Array UInt8 := #[]
deriving DecidableEq, Inhabited

structure Device where
  /-- How many of the bytes it takes, or why none. -/
  write : Output.Record → List UInt8 → Except String Nat
  flush : Output.Record → Except String Unit

/-! ### Sinks -/

/-- How a sink without room answers a write: with an error, or by taking nothing. -/
inductive Refusal
  | closed | full
deriving DecidableEq, Repr, Inhabited

structure Sink where
  /-- How many bytes it takes in all, without bound if there is no number. -/
  room : Option Nat := none
  refusal : Refusal := .closed
  flushable : Bool := true
deriving DecidableEq, Inhabited

namespace Sink

/-- Takes what fits, and refuses when nothing does. -/
def device (s : Sink) : Device where
  write record bytes :=
    match s.room with
    | none => .ok bytes.length
    | some room =>
      if record.written.size < room then .ok (min (room - record.written.size) bytes.length)
      else
        match s.refusal with
        | .closed => .error "sink closed"
        | .full => .ok 0
  flush _ := if s.flushable then .ok () else .error "flush refused"

end Sink

/-! ### Outputs -/

structure Output extends Output.Record where
  device : Device := ({} : Sink).device
deriving Inhabited

def Sink.output (s : Sink) : Output := { device := s.device }

instance : Coe Sink Output := ⟨Sink.output⟩

namespace Output

def flushes (o : Output) : Nat := o.requests.count .flush

/-- Offers bytes once. No device takes more than it is offered. -/
def offer (bytes : List UInt8) : EStateM String Output Nat := fun o =>
  match o with
  | ⟨⟨requests, written⟩, device⟩ =>
    match device.write ⟨requests, written⟩ bytes with
    | .error reason => .error reason ⟨⟨.write bytes :: requests, written⟩, device⟩
    | .ok count =>
      let taken := bytes.take count
      .ok taken.length ⟨⟨.write bytes :: requests, written ++ taken⟩, device⟩

/-- What a device that takes nothing is said to have done. -/
def notWhole : String := "failed to write whole buffer"

/-- Offers what is left over again, in at most so many rounds. -/
def writeRounds : (rounds : Nat) → List UInt8 → EStateM String Output Unit
  | _, [] | 0, _ => pure ()
  | rounds + 1, bytes => do
    let count ← offer bytes
    if count = 0 then throw notWhole
    else writeRounds rounds (bytes.drop count)

/-- Writes all bytes, or as many as the device takes. Every round but the last takes one at least. -/
def writeAll (bytes : List UInt8) : EStateM String Output Unit := writeRounds bytes.length bytes

def print : (pieces : List (List UInt8)) → EStateM String Output Unit
  | [] => pure ()
  | bytes :: pieces => do
    writeAll bytes
    print pieces

/-- Has the device pass on what it took. -/
def flush : EStateM String Output Unit := fun o =>
  match o with
  | ⟨⟨requests, written⟩, device⟩ =>
    match device.flush ⟨requests, written⟩ with
    | .ok () => .ok () ⟨⟨.flush :: requests, written⟩, device⟩
    | .error reason => .error reason ⟨⟨.flush :: requests, written⟩, device⟩

end Output

end CellMachine
