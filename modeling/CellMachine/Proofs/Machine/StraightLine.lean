import CellMachine.Proofs.Machine.Budget
import CellMachine.Proofs.Machine.Traceless

/-!
# Straight-line code

Instructions that work on operands alone, one after the other. Main statement: where they stand in the
code of a function, a run goes through all of them if each can be carried out on the operands that the
one before leaves.
-/

namespace CellMachine

namespace Machine

/-! ### One instruction -/

/-- What an action does that works on operands alone. -/
def operandOp? : Action → Option (OperandStack.Op Unit)
  | .push c => some (OperandStack.push c)
  | .doubleOp o => some (OperandStack.doubleOp o)
  | .intOp o => some (OperandStack.intOp o)
  | .negate n => some (OperandStack.negate n)
  | .convert c => some (OperandStack.convert c)
  | .swap => some OperandStack.swap
  | .pop => some (OperandStack.pop >>= fun _ => pure ())
  | .compare n => some (OperandStack.compare n)
  | _ => none

variable {p : Program} {limits : Limits} {f : Function} {cursor : Nat} {m n : Machine}
  {i : Instruction} {x : OperandStack.Op Unit} {t u : OperandStack}

theorem perform_of_operandOp? {action : Action} (h : operandOp? action = some x) (site : Site) :
    perform p site action = onStack x >>= fun _ => pure (.next site.next) := by
  cases action with
  | pop =>
    cases h
    rw [onStack_bind, bind_assoc]
    rfl
  | push _ | doubleOp _ | intOp _ | negate _ | convert _ | swap | compare _ =>
    cases h
    rfl
  | _ => cases h

theorem execute_of_operands (hi : f.code.instructionAt cursor = .ok i)
    (hop : operandOp? i.action = some x) (hx : x m.stack = .ok () t) :
    ∃ n, execute p f cursor m = .ok (.next (cursor + i.opcode.length)) n ∧
      Untouched { m with stack := t } n := by
  let noted : Machine := m.note (.dispatch f.id cursor i.opcode m.stack.depth)
  have hstack : onStack x noted = .ok () { noted with stack := t } := onStack_of_ok hx
  refine ⟨{ noted with stack := t }, ?_, ⟨rfl, rfl, rfl, rfl⟩⟩
  rw [execute_of_instructionAt hi, perform_of_operandOp? hop, bind_of_ok hstack]
  rfl

theorem execute_of_operands_refused {cause : Cause} (hi : f.code.instructionAt cursor = .ok i)
    (hop : operandOp? i.action = some x) (hx : x m.stack = .error cause t) :
    ∃ n, execute p f cursor m = .error cause n ∧ Untouched { m with stack := t } n := by
  let noted : Machine := m.note (.dispatch f.id cursor i.opcode m.stack.depth)
  have hstack : onStack x noted = .error cause { noted with stack := t } := onStack_of_error hx
  refine ⟨{ noted with stack := t }, ?_, ⟨rfl, rfl, rfl, rfl⟩⟩
  rw [execute_of_instructionAt hi, perform_of_operandOp? hop, bind_of_error hstack]

/-! ### Instructions one after the other -/

/-- Instructions that work on operands alone take a stack to another. -/
inductive Computes : List Instruction → OperandStack → OperandStack → Prop
  | nil (s : OperandStack) : Computes [] s s
  | cons {i : Instruction} {is : List Instruction} {x : OperandStack.Op Unit} {s t u : OperandStack}
    (hop : operandOp? i.action = some x) (hx : x s = .ok () t) (rest : Computes is t u) :
    Computes (i :: is) s u

/-- The bytes of instructions that follow each other. -/
def encodedAll (is : List Instruction) : List UInt8 := is.flatMap Instruction.encoded

theorem encodedAll_cons (i : Instruction) (is : List Instruction) :
    encodedAll (i :: is) = i.encoded ++ encodedAll is := List.flatMap_cons

/-- The code has these instructions from a position on. -/
def Stands (code : Code) (cursor : Nat) (is : List Instruction) : Prop :=
  code.slice? (encodedAll is).length cursor = some (encodedAll is)

theorem stands_cons {code : Code} {is : List Instruction} (h : Stands code cursor (i :: is)) :
    code.instructionAt cursor = .ok i ∧ Stands code (cursor + i.opcode.length) is := by
  unfold Stands at h
  rw [encodedAll_cons, List.length_append, Code.slice?_append rfl] at h
  obtain ⟨hfirst, hrest⟩ := h
  rw [Instruction.length_encoded] at hfirst hrest
  exact ⟨Code.instructionAt_eq_ok_iff.2 hfirst, hrest⟩

theorem turn_of_next {c : Nat} (inside : cursor < f.code.size) (unspent : m.spent? limits = none)
    (h : execute p f cursor { m with executed := m.executed + 1 } = .ok (.next c) n) :
    Turn p limits (⟨f, cursor⟩, m) (⟨f, c⟩, n) := by
  show m.advance p limits ⟨f, cursor⟩ = .running ⟨f, c⟩ n
  simp only [advance, if_neg (Nat.not_le.2 inside), unspent, dispatch, h]

/-- A run that comes to instructions which compute goes on behind them. -/
theorem reaches_of_computes {is : List Instruction} {s : OperandStack} (h : Computes is s t)
    (hs : m.stack = s) (hcode : Stands f.code cursor is)
    (hbudget : ∀ b ∈ limits.budget, m.executed + is.length ≤ b) :
    ∃ n, Reaches p limits (⟨f, cursor⟩, m) (⟨f, cursor + (encodedAll is).length⟩, n) ∧
      Untouched { m with stack := t } n ∧ n.executed = m.executed + is.length := by
  -- The first instruction leaves another machine, so the stack alone is not enough to go on from.
  induction h generalizing cursor m with
  | nil s =>
    subst hs
    exact ⟨m, .refl, .refl m, rfl⟩
  | @cons i is x s v u hop hx _ ih =>
    obtain ⟨hi, hrest⟩ := stands_cons hcode
    have inside : cursor < f.code.size := by
      have hend := Code.end_le_of_instructionAt hi
      omega
    have unspent : m.spent? limits = none := by
      refine unspent_of_lt fun b hb => ?_
      have hle := hbudget b hb
      rw [List.length_cons] at hle
      omega
    have hcounted : x ({ m with executed := m.executed + 1 } : Machine).stack = .ok () v := by
      rw [← hx, ← hs]
    obtain ⟨k, hk, huntouched⟩ := execute_of_operands (p := p) hi hop hcounted
    have hexecuted : k.executed = m.executed + 1 := (executed_of_execute hk).1
    obtain ⟨n, hn, hsame, hcount⟩ := ih huntouched.stack hrest (by
      intro b hb
      have hle := hbudget b hb
      rw [List.length_cons] at hle
      omega)
    refine ⟨n, ?_, ?_, ?_⟩
    · rw [encodedAll_cons, List.length_append, Instruction.length_encoded, ← Nat.add_assoc]
      exact .head (turn_of_next inside unspent hk) hn
    · exact ⟨hsame.stack, hsame.frames.trans huntouched.frames,
        hsame.continuations.trans huntouched.continuations, hsame.sink.trans huntouched.sink⟩
    · rw [hcount, hexecuted, List.length_cons]
      omega

/-- A function with no caller ends the run at the end of its code. -/
theorem advance_of_outermost (atEnd : f.code.size ≤ cursor) {frame : Frame} {frames : FrameStack}
    (hframes : m.frames.pop? = some (frame, frames)) (hcalls : m.continuations.pop? = none) :
    ∃ n, m.advance p limits ⟨f, cursor⟩ = .ended none n ∧ n.stack = m.stack := by
  let left := ({ m with frames }).note (.popFrame frame.function frame.invocation frames.depth)
  have hleave : m.leave? = some left := by simp only [leave?, hframes, left]
  have hpop : left.continuations.pop? = none := hcalls
  exact ⟨left, by simp only [advance, if_pos atEnd, endCall, hleave, hpop], rfl⟩

/-- A program that only computes comes to the top of the stack that it computes. -/
theorem comesTo_of_computes {is : List Instruction} {sink : Output} {journal : Journal}
    (h : Computes is (.empty limits.maxStack) t)
    (hcode : p.entryFunction.code = ⟨(encodedAll is).toArray⟩)
    (hbudget : ∀ b ∈ limits.budget, is.length ≤ b) :
    ∃ o, ComesTo p limits [] (fresh limits sink journal) o ∧ o.ending = .value t.top? := by
  let entered := (fresh limits sink journal).enter p.entryFunction
  have hsize : p.entryFunction.code.size = (encodedAll is).length := by
    rw [hcode]
    exact List.size_toArray
  have hstands : Stands p.entryFunction.code 0 is := by
    refine Code.slice?_eq_some_iff.2 ⟨by omega, ?_⟩
    rw [hcode]
    exact List.take_length
  have hcost : ∀ b ∈ limits.budget, entered.executed + is.length ≤ b := by
    intro b hb
    have hle := hbudget b hb
    show 0 + is.length ≤ b
    omega
  obtain ⟨n, hn, hsame, -⟩ := reaches_of_computes (p := p) (m := entered) h rfl hstands hcost
  have hframes : n.frames.pop? = entered.frames.pop? := congrArg FrameStack.pop? hsame.frames
  have hcalls : n.continuations.pop? = none := congrArg Stack.pop? hsame.continuations
  have atEnd : p.entryFunction.code.size ≤ 0 + (encodedAll is).length := by omega
  obtain ⟨last, hlast, hstack⟩ : ∃ last,
      n.advance p limits ⟨p.entryFunction, 0 + (encodedAll is).length⟩ = .ended none last ∧
        last.stack = n.stack := advance_of_outermost atEnd hframes hcalls
  refine ⟨outcome none last, comesTo_of_visits ⟨entered, rfl, hn⟩ hlast, ?_⟩
  show Ending.value last.stack.top? = .value t.top?
  rw [hstack, hsame.stack]

end Machine

end CellMachine
