import CellMachine.Proofs.Machine.CallStructure
import CellMachine.Proofs.Machine.Parallel

/-!
# Instructions in two forms

Some instructions can be written in two ways. Main statements: a short form does in every state what the
instruction does that it abbreviates, and in every state of a run on a fresh machine a variable of the
executing function is the same whether it is addressed by the id of that function or without it.
-/

namespace CellMachine

namespace Machine

/-! ### The same effect -/

/-- What two instructions come to that do the same to operands, frames and output and are refused for the
same causes. They only go on at different places. -/
inductive SameEffect (next next' : Nat) :
    EStateM.Result Cause Machine Flow → EStateM.Result Cause Machine Flow → Prop
  | done {m n : Machine} (h : Alike Eq Eq Eq m n) :
    SameEffect next next' (.ok (.next next) m) (.ok (.next next') n)
  | refused (cause : Cause) {m n : Machine} (h : Alike Eq Eq Eq m n) :
    SameEffect next next' (.error cause m) (.error cause n)

/-- Wherever the one instruction is in the code of a function and the other in that of another, the
machine does the same with both. -/
def Interchangeable (p : Program) (m : Machine) (bytes bytes' : List UInt8) : Prop :=
  ∀ (f g : Function) (cursor cursor' : Nat),
    f.code.slice? bytes.length cursor = some bytes →
    g.code.slice? bytes'.length cursor' = some bytes' →
    SameEffect (cursor + bytes.length) (cursor' + bytes'.length)
      (execute p f cursor m) (execute p g cursor' m)

/-- What pushes and accesses of variables do, before control goes on behind them. -/
def effect? : Action → Option (Op Unit)
  | .push c => some (onStack (OperandStack.push c))
  | .load scope t slot =>
    some (load scope t slot >>= fun c => onStack (OperandStack.push c))
  | .store scope t slot =>
    some (onStack (OperandStack.popTyped t.tag) >>= fun c => store scope slot c)
  | _ => none

variable {p : Program} {m n : Machine} {x y : Op Unit}

theorem perform_of_effect? {action : Action} (h : effect? action = some x) (site : Site) :
    perform p site action = x >>= fun _ => pure (.next site.next) := by
  cases action with
  | push c =>
    cases h
    rfl
  | load scope t slot =>
    cases h
    exact (bind_assoc _ _ _).symm
  | store scope t slot =>
    cases h
    exact (bind_assoc _ _ _).symm
  | _ => cases h

theorem kept_alike : Kept (fun _ => False) (Alike Eq Eq Eq) :=
  SideBySide.kept_of_parts (.same _) (FramesKept.same _).toVariablesKept (.same _)

theorem respects_of_effect? {action : Action} (h : effect? action = some x) :
    Respects (fun _ => False) (Alike Eq Eq Eq) x := by
  cases action with
  | push c =>
    cases h
    exact kept_alike.push c
  | load scope t slot =>
    cases h
    exact .bind (kept_alike.load scope t slot) kept_alike.push
  | store scope t slot =>
    cases h
    exact .bind (kept_alike.popAs _ _) (kept_alike.store scope slot)
  | _ => cases h

theorem sameEffect_of_respects (hx : Respects (fun _ => False) (Alike Eq Eq Eq) x)
    (h : Alike Eq Eq Eq m n) (next next' : Nat) :
    SameEffect next next' ((x >>= fun _ => pure (.next next)) m)
      ((x >>= fun _ => pure (.next next')) n) := by
  have hr := hx m n h
  show SameEffect next next' (EStateM.bind x _ m) (EStateM.bind x _ n)
  unfold EStateM.bind
  generalize x m = r at hr
  generalize x n = r' at hr
  cases hr with
  | ok _ h => exact .done h
  | error cause h => exact .refused cause h
  | excused _ h => exact h.elim

theorem bind_congr_at {α β : Type} {x y : Op α} (h : x m = y m) (f : α → Op β) :
    (x >>= f) m = (y >>= f) m := by
  show EStateM.bind x f m = EStateM.bind y f m
  simp only [EStateM.bind, h]

/-- Instructions are interchangeable if their effects agree on all machines with these frames. -/
theorem interchangeable_of_effects {i j : Instruction} (hi : effect? i.action = some x)
    (hj : effect? j.action = some y) (h : ∀ n, n.frames = m.frames → x n = y n) :
    Interchangeable p m i.encoded j.encoded := by
  intro f g cursor cursor' hf hg
  rw [Instruction.length_encoded] at hf hg
  rw [execute_of_instructionAt (Code.instructionAt_eq_ok_iff.2 hf),
    execute_of_instructionAt (Code.instructionAt_eq_ok_iff.2 hg), perform_of_effect? hi,
    perform_of_effect? hj, Instruction.length_encoded, Instruction.length_encoded]
  -- reading an instruction is recorded, but that leaves the frames alone
  have hnoted (e : Event) : x (m.note e) = y (m.note e) := h _ rfl
  have halike (e e' : Event) : Alike Eq Eq Eq (m.note e) (m.note e') := ⟨rfl, rfl, rfl, rfl, rfl⟩
  rw [bind_congr_at (hnoted _)]
  exact sameEffect_of_respects (respects_of_effect? hj) (halike _ _) _ _

end Machine

/-! ### Short forms -/

/-- The instruction that has a number in the code and pushes it. -/
def Numeric.literal (int : Int64) (double : Float) : Numeric → Instruction
  | .int => ⟨.literal .int, int⟩
  | .double => ⟨.literal .double, double.toBits⟩

def Numeric.cell (int : Int64) (double : Float) : Numeric → Cell
  | .int => .int int
  | .double => .double double

/-- Tags of instructions without an operand, and the instructions that they abbreviate. The tags for
the first four variables of a type follow each other. -/
inductive Abbreviates : UInt8 → Instruction → Prop
  | zero (n : Numeric) : Abbreviates (Opcode.zero n.type).tag (n.literal 0 0.0)
  | one (n : Numeric) : Abbreviates (Opcode.one n).tag (n.literal 1 1.0)
  | minusOne (n : Numeric) : Abbreviates (Opcode.minusOne n).tag (n.literal (-1) (-1.0))
  | load (t : ValueType) (k : Fin 4) :
    Abbreviates ((Opcode.loadShort t 0).tag + UInt8.ofNat k) ⟨.load t, UInt16.ofNat k⟩
  | store (t : ValueType) (k : Fin 4) :
    Abbreviates ((Opcode.storeShort t 0).tag + UInt8.ofNat k) ⟨.store t, UInt16.ofNat k⟩

theorem Opcode.tag_loadShort (t : ValueType) (k : Fin 4) :
    (loadShort t k).tag = (loadShort t 0).tag + UInt8.ofNat k := by
  simp [tag]

theorem Opcode.tag_storeShort (t : ValueType) (k : Fin 4) :
    (storeShort t k).tag = (storeShort t 0).tag + UInt8.ofNat k := by
  simp [tag]

/-- A double that survives being written into the code is pushed by its literal. -/
theorem Numeric.action_literal (n : Numeric) (int : Int64) {double : Float}
    (h : Float.ofBits double.toBits = double) :
    (n.literal int double).action = .push (n.cell int double) := by
  cases n with
  | int => rfl
  | double =>
    show Action.push (.double (Float.ofBits double.toBits)) = _
    rw [h]
    rfl

/-- The one byte of a short form is an instruction that acts as the long one. -/
theorem Abbreviates.exists_short {tag : UInt8} {long : Instruction} (h : Abbreviates tag long) :
    ∃ short : Instruction, short.encoded = [tag] ∧ short.action = long.action ∧
      (Machine.effect? long.action).isSome := by
  cases h with
  | zero n =>
    rw [n.action_literal 0 (by decide +kernel)]
    exact ⟨⟨.zero n.type, ()⟩, rfl, by cases n <;> rfl, rfl⟩
  | one n =>
    rw [n.action_literal 1 (by decide +kernel)]
    exact ⟨⟨.one n, ()⟩, rfl, by cases n <;> rfl, rfl⟩
  | minusOne n =>
    rw [n.action_literal (-1) (by decide +kernel)]
    exact ⟨⟨.minusOne n, ()⟩, rfl, by cases n <;> rfl, rfl⟩
  | load t k => exact ⟨⟨.loadShort t k, ()⟩, by rw [← Opcode.tag_loadShort]; rfl, rfl, rfl⟩
  | store t k => exact ⟨⟨.storeShort t k, ()⟩, by rw [← Opcode.tag_storeShort]; rfl, rfl, rfl⟩

namespace Machine

/-- A short form does in every state what the instruction does that it abbreviates. -/
theorem interchangeable_shortForm {tag : UInt8} {long : Instruction} (h : Abbreviates tag long)
    (p : Program) (m : Machine) : Interchangeable p m [tag] long.encoded := by
  obtain ⟨short, hshort, haction, heffect⟩ := h.exists_short
  obtain ⟨x, hx⟩ := Option.isSome_iff_exists.1 heffect
  rw [← hshort]
  exact interchangeable_of_effects (haction ▸ hx) hx fun _ _ => rfl

def readsTwice : Program := .single 3 ⟨#[39, (Opcode.load .int).tag, 2, 0]⟩

def countedUp : Machine :=
  { fresh {} {} {} with
    frames := ((FrameStack.empty.push 0 3).write .top 1 (.int 20)).write .top 2 (.int 30) }

theorem interchangeable_shortForm_readsTwice :
    Abbreviates 39 ⟨.load .int, (2 : UInt16)⟩ ∧
      SameEffect 1 4 (execute readsTwice readsTwice.entryFunction 0 countedUp)
        (execute readsTwice readsTwice.entryFunction 1 countedUp) ∧
      ∃ n, execute readsTwice readsTwice.entryFunction 1 countedUp = .ok (.next 4) n ∧
        n.stack.cells.items = [.int 30] := by
  have habbreviates : Abbreviates 39 ⟨.load .int, (2 : UInt16)⟩ := .load .int 2
  have hsame := interchangeable_shortForm habbreviates readsTwice countedUp
  exact ⟨habbreviates, hsame readsTwice.entryFunction readsTwice.entryFunction 0 1 rfl rfl, _, rfl, rfl⟩

end Machine

/-! ### Variables of the executing function -/

/-- Accesses to a variable by the id of a function, and the accesses to the same slot of the executing
call. -/
inductive Localises (function : UInt16) : Instruction → Instruction → Prop
  | load (t : ValueType) (slot : UInt16) :
    Localises function ⟨.loadContext t, (function, slot)⟩ ⟨.load t, slot⟩
  | store (t : ValueType) (slot : UInt16) :
    Localises function ⟨.storeContext t, (function, slot)⟩ ⟨.store t, slot⟩

namespace FrameStack

/-- The frames of the active calls, of which the innermost is one of a function. -/
def Executes (s : FrameStack) (function : UInt16) : Prop :=
  ∃ fr rest, s.frames.items = fr :: rest ∧ fr.function = function

variable {s : FrameStack} {function : UInt16}

/-- The search for a frame of the executing function ends at the innermost frame. -/
theorem Executes.frame (h : s.Executes function) : s.frame (.context function) = s.frame .top := by
  obtain ⟨fr, rest, hitems, hfunction⟩ := h
  have hown : (Scope.context function).selects fr = true := by simp [Scope.selects, hfunction]
  have htop : Scope.top.selects fr = true := rfl
  simp only [FrameStack.frame, hitems, List.find?_cons, hown, htop]

theorem Executes.load (h : s.Executes function) (t : ValueType) (slot : UInt16) :
    s.load (.context function) t slot = s.load .top t slot := by
  simp only [FrameStack.load, h.frame]

theorem Executes.write (h : s.Executes function) (slot : UInt16) (c : Cell) :
    s.write (.context function) slot c = s.write .top slot c := by
  obtain ⟨⟨items, depth, depth_eq⟩, next⟩ := s
  obtain ⟨fr, rest, rfl, hfunction⟩ := h
  have hown : (Scope.context function).selects fr = true := by simp [Scope.selects, hfunction]
  have htop : Scope.top.selects fr = true := rfl
  simp only [FrameStack.write, Stack.update, Stack.updateFirst_cons, hown, htop, if_true]

theorem Executes.store (h : s.Executes function) (slot : UInt16) (c : Cell) :
    s.store (.context function) slot c = s.store .top slot c := by
  simp only [FrameStack.store, checkSlot, h.frame, h.write]

end FrameStack

namespace Machine

variable {p : Program} {m n : Machine} {f : Function}

theorem load_own (h : n.frames.Executes f.id) (t : ValueType) (slot : UInt16) :
    load (.context f.id) t slot n = load .top t slot n := by
  simp only [load, h.load]

theorem store_own (h : n.frames.Executes f.id) (slot : UInt16) (c : Cell) :
    store (.context f.id) slot c n = store .top slot c n := by
  simp only [store_eq, h.store]

/-- Where a function executes, an access by its id does what the access without it does. -/
theorem interchangeable_of_executes (hm : m.frames.Executes f.id) {own plain : Instruction}
    (h : Localises f.id own plain) : Interchangeable p m own.encoded plain.encoded := by
  cases h with
  | load t slot =>
    refine interchangeable_of_effects rfl rfl fun n hn => bind_congr_at ?_ _
    exact load_own (hn ▸ hm) t slot
  | store t slot =>
    refine interchangeable_of_effects rfl rfl fun n hn => ?_
    -- the value is taken first, which leaves the frames alone
    show EStateM.bind _ _ n = EStateM.bind _ _ n
    cases hpop : onStack (OperandStack.popTyped t.tag) n with
    | error cause n' => simp only [EStateM.bind, hpop]
    | ok c n' =>
      have hframes : n'.frames = m.frames := (frames_of_onStack hpop).trans hn
      simp only [EStateM.bind, hpop]
      exact store_own (hframes ▸ hm) slot c

theorem executes_of_aligned {s : Position × Machine} (h : Aligned p s) :
    s.2.frames.Executes s.1.function.id := by
  obtain ⟨o, rest, houtline, hfunction⟩ := h.2.top
  obtain ⟨fr, frames, hitems, rfl, -⟩ := List.map_eq_cons_iff.1 houtline
  exact ⟨fr, frames, hitems, hfunction⟩

/-- In every state of a run on a fresh machine, however many calls of the executing function are active,
the instruction that addresses a variable by the id of that function, and the one that addresses it in
the executing call, do the same. -/
theorem interchangeable_ownContext {limits : Limits} {args : List Cell} {sink : Output}
    {journal : Journal} {cursor : Nat}
    (hv : Visits p limits args (fresh limits sink journal) (⟨f, cursor⟩, m))
    {own plain : Instruction} (h : Localises f.id own plain) :
    Interchangeable p { m with executed := m.executed + 1 } own.encoded plain.encoded := by
  have hexecutes : m.frames.Executes f.id := executes_of_aligned (aligned_of_visits hv)
  have hcounted : ({ m with executed := m.executed + 1 } : Machine).frames.Executes f.id := hexecutes
  exact interchangeable_of_executes hcounted h

def callsItself : Program := .single 1 ⟨#[Opcode.call.tag, 0, 0]⟩

def readsOwn : Function :=
  ⟨0, "main", {}, 1, ⟨#[(Opcode.loadContext .int).tag, 0, 0, 0, 0, (Opcode.load .int).tag, 0, 0]⟩⟩

theorem interchangeable_ownContext_callsItself : ∃ f m,
    Visits callsItself {} [.int 7] (fresh {} {} {}) (⟨f, 0⟩, m) ∧ m.activations.length = 2 ∧
      Localises f.id ⟨.loadContext .int, (0, 0)⟩ ⟨.load .int, (0 : UInt16)⟩ ∧
      SameEffect 5 8 (execute callsItself readsOwn 0 { m with executed := m.executed + 1 })
        (execute callsItself readsOwn 5 { m with executed := m.executed + 1 }) := by
  have hv : Visits callsItself {} [.int 7] (fresh {} {} {}) (⟨callsItself.entryFunction, 0⟩, _) :=
    ⟨_, rfl, .single (Turn.of_advance rfl)⟩
  have hlocalises : Localises callsItself.entryFunction.id ⟨.loadContext .int, (0, 0)⟩
      ⟨.load .int, (0 : UInt16)⟩ := .load .int 0
  have hsame := interchangeable_ownContext hv hlocalises
  exact ⟨_, _, hv, rfl, hlocalises, hsame readsOwn readsOwn 0 5 rfl rfl⟩

end Machine

end CellMachine
