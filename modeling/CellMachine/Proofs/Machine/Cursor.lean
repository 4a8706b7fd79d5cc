import CellMachine.Proofs.Machine.OperandRoom
import CellMachine.Proofs.Machine.Reuse

/-!
# The cursor

Where control goes on after an instruction, whatever bytes the code is made of. Main statement: in
every state of every run an operand that crosses the end of the code is refused before the machine
matters, an instruction that is carried out leads behind itself, to the target of its jump or to the
end, and the cursor never leaves the code.
-/

namespace CellMachine

/-! ### Where an instruction leads -/

/-- The offset of a jump that is taken. A conditional jump asks the two topmost cells, which have to be
integers, the upper one first. -/
def Action.taken? (s : OperandStack) : Action → Option Int16
  | .jump offset => some offset
  | .jumpIf c offset =>
    match s.cells.items with
    | .int upper :: .int lower :: _ => if c.holds lower upper then some offset else none
    | _ => none
  | _ => none

/-- How control goes on at a cursor: a call comes back to it. -/
def Action.flow (cursor : Nat) : Action → Flow
  | .call callee => .call callee cursor
  | .stop => .stop
  | _ => .next cursor

/-- The cursor behind an instruction at `cursor` of `f` that is carried out with these operands. -/
inductive Follows (f : Function) (cursor : Nat) (s : OperandStack) (i : Instruction) : Nat → Prop
  | jump {offset : Int16} {next : Nat} (taken : i.action.taken? s = some offset)
    (target : (next : Int) = (cursor + 3 : Nat) + offset.toInt) : Follows f cursor s i next
  | ret (action : i.action = .ret) : Follows f cursor s i f.code.size
  | behind (noJump : i.action.taken? s = none) (noRet : i.action ≠ .ret) :
    Follows f cursor s i (cursor + i.opcode.length)

/-- An instruction is read at `cursor` of `f`, and `next` follows it within the code. -/
structure LeadsTo (f : Function) (cursor : Nat) (s : OperandStack) (i : Instruction) (next : Nat) :
    Prop where
  read : f.code.instructionAt cursor = .ok i
  follows : Follows f cursor s i next
  within : next ≤ f.code.size

theorem Instruction.length_of_jump {i : Instruction} {offset : Int16}
    (h : i.action = .jump offset ∨ ∃ c, i.action = .jumpIf c offset) : i.opcode.length = 3 := by
  obtain ⟨op, hop⟩ := Instruction.of_jump_action h
  rw [Opcode.length, Instruction.layout_of_make? hop]
  rfl

theorem Action.jump_of_taken? {action : Action} {s : OperandStack} {offset : Int16}
    (h : action.taken? s = some offset) :
    action = .jump offset ∨ ∃ c, action = .jumpIf c offset := by
  unfold taken? at h
  split at h
  · cases h
    exact .inl rfl
  · rename_i c _
    split at h
    · split at h
      · cases h
        exact .inr ⟨c, rfl⟩
      · cases h
    · cases h
  · cases h

theorem Action.taken?_jumpIf {s : OperandStack} {c : Comparison} {offset : Int16} {upper lower : Int64}
    {rest : List Cell} (h : s.cells.items = .int upper :: .int lower :: rest) :
    (jumpIf c offset).taken? s = if c.holds lower upper then some offset else none := by
  simp only [taken?, h]

theorem Action.taken?_jumpIf_eq_none {s : OperandStack} {c : Comparison} {offset : Int16}
    (h : ∀ upper lower rest, s.cells.items ≠ .int upper :: .int lower :: rest) :
    (jumpIf c offset).taken? s = none := by
  unfold taken?
  dsimp only
  split
  · rename_i hitems
    exact (h _ _ _ hitems).elim
  · rfl

theorem Action.eq_call_of_flow {action : Action} {next back : Nat} {callee : UInt16}
    (h : Flow.call callee back = action.flow next) : action = .call callee ∧ back = next := by
  cases action with
  | call id =>
    cases h
    exact ⟨rfl, rfl⟩
  | _ => cases h

theorem Action.eq_of_flow_next {action : Action} {next c : Nat}
    (h : Flow.next c = action.flow next) : c = next := by
  cases action with
  | call id => cases h
  | stop => cases h
  | _ =>
    cases h
    rfl

theorem Follows.target {f : Function} {cursor next : Nat} {s : OperandStack} {i : Instruction}
    {offset : Int16} (h : Follows f cursor s i next) (taken : i.action.taken? s = some offset) :
    (next : Int) = (cursor + 3 : Nat) + offset.toInt := by
  cases h with
  | jump taken' target =>
    cases taken.symm.trans taken'
    exact target
  | ret action =>
    rw [action] at taken
    cases taken
  | behind noJump noRet => cases taken.symm.trans noJump

/-! ### The operands of a conditional jump -/

namespace OperandStack

theorem popInt_items (items : List Cell) :
    Triple (fun s => s.cells.items = items) popInt
      (fun n s => items = .int n :: s.cells.items) fun _ => ∀ n rest, items ≠ .int n :: rest := by
  intro s hs
  unfold popInt popAs
  cases hp : s.cells.pop? with
  | none => simp [← hs, Stack.pop?_eq_none_iff.1 hp]
  | some r =>
    obtain ⟨c, rest⟩ := r
    have hitems := Stack.pop?_eq_some_iff.1 hp
    cases c <;> simp [← hs, hitems, Cell.int?]

/-- An integer is taken if it is on top, and leaves its room. -/
theorem popInt_within (count : Nat) (items : List Cell) :
    Triple (fun s => s.HasRoom count ∧ s.cells.items = items) popInt
      (fun n s => (∃ rest, items = .int n :: rest) ∧
        s.HasRoom (count + 1) ∧ s.cells.items = items.tail)
      fun _ => ∀ n rest, items ≠ .int n :: rest :=
  ((popAs_within count _ _).and (popInt_items items)).mono (fun _ hs => hs)
    (fun _ _ hs => ⟨⟨_, hs.2⟩, hs.1, by rw [hs.2, List.tail_cons]⟩) fun _ hk => hk.2

theorem push_succeeds (count : Nat) (c : Cell) :
    Triple (HasRoom (count + 1)) (push c) (fun _ => HasRoom count) fun _ => False :=
  ((push_within count c).and (Triple.of_outcomes (push_refused c) True)).mono
    (fun _ hs => ⟨hs, trivial⟩) (fun _ _ hs => hs.1)
    fun _ hk => hk.1 (List.mem_singleton.1 hk.2)

/-- With room for what it puts back, only the operands can be wrong. -/
theorem peekInts_items (items : List Cell) :
    Triple (fun s => s.HasRoom 0 ∧ s.cells.items = items) peekInts
      (fun operands _ => ∃ rest, items = .int operands.2 :: .int operands.1 :: rest)
      fun _ => ∀ upper lower rest, items ≠ .int upper :: .int lower :: rest := by
  refine ((popInt_within 0 items).mono (fun _ hs => hs) (fun _ _ hs => hs) ?_).bind fun upper =>
    .given fun hupper => ?_
  · exact fun _ hk upper lower rest => hk upper _
  obtain ⟨below, rfl⟩ := hupper
  refine ((popInt_within 1 below).mono (fun _ hs => hs) (fun _ _ hs => hs) ?_).bind fun lower =>
    .given fun hlower => ?_
  · rintro _ hk upper' lower rest heq
    exact hk lower rest (List.cons.inj heq).2
  obtain ⟨rest, rfl⟩ := hlower
  exact ((push_succeeds 1 (.int lower)).bind fun _ => (push_succeeds 0 (.int upper)).bind fun _ =>
    .pure fun _ _ => ⟨rest, rfl⟩).mono (fun _ hs => hs.1) (fun _ _ hs => hs) fun _ hk => hk.elim

end OperandStack

namespace Machine

/-- The operation cannot decode what it should carry out. -/
def FailsDecoding {α : Type} (x : Op α) (m : Machine) : Prop :=
  ∃ cause n, x m = .error cause n ∧ cause.kind = .decode

variable {p : Program} {limits : Limits} {f : Function} {cursor : Nat} {m n : Machine}
  {i : Instruction} {s : OperandStack} {args : List Cell}

/-! ### One instruction -/

/-- An instruction leads to a cursor that follows, and a jump that is taken is refused only if it
leaves the code. -/
theorem perform_follows (hi : f.code.instructionAt cursor = .ok i) (hroom : s.HasRoom 0) :
    Triple (fun m => m.stack = s) (perform p (siteOf f cursor i) i.action)
      (fun flow _ => ∃ next, LeadsTo f cursor s i next ∧ flow = i.action.flow next)
      fun cause => i.action.taken? s ≠ none → cause.kind = .decode := by
  have hend := (Code.end_le_of_instructionAt hi).2
  have hleads := Triple.results (perform_outcomes p (siteOf f cursor i) i.action) fun m => m.stack = s
  have hjump : ∀ {offset : Int16} {target : Nat}, i.action.taken? s = some offset →
      jumpTarget f.code (siteOf f cursor i).next offset = .ok target →
      LeadsTo f cursor s i target := by
    intro offset target htaken htarget
    obtain ⟨heq, hle⟩ := jumpTarget_eq_ok_iff.1 htarget
    have hlength := Instruction.length_of_jump (Action.jump_of_taken? htaken)
    exact ⟨hi, .jump htaken (by rw [heq, siteOf, hlength]), hle⟩
  cases ha : i.action with
  | jump offset =>
    have htaken : i.action.taken? s = some offset := by rw [ha]; rfl
    refine (lookup_triple fun cause h _ => jumpTarget_refused h).bind fun target => .given fun h => ?_
    exact .pure fun _ _ => ⟨target, hjump htaken h, rfl⟩
  | jumpIf c offset =>
    have hoperands (m : Machine) (hm : m.stack = s) :
        m.stack.HasRoom 0 ∧ m.stack.cells.items = s.cells.items := by
      rw [hm]
      exact ⟨hroom, rfl⟩
    refine ((onStack_triple (OperandStack.peekInts_items s.cells.items)).mono hoperands
      (fun _ _ hrest => ⟨hrest, trivial⟩)
      fun _ hno htaken => (htaken (Action.taken?_jumpIf_eq_none hno)).elim).bind fun operands =>
        .given fun hitems => ?_
    obtain ⟨lower, upper⟩ := operands
    obtain ⟨rest, hitems⟩ := hitems
    have htaken : i.action.taken? s = if c.holds lower upper then some offset else none := by
      rw [ha]
      exact Action.taken?_jumpIf hitems
    dsimp only
    split
    · rename_i hholds
      rw [if_pos hholds] at htaken
      refine (lookup_triple fun cause h _ => jumpTarget_refused h).bind fun target =>
        .given fun h => ?_
      exact .pure fun _ _ => ⟨target, hjump htaken h, rfl⟩
    · rename_i hholds
      rw [if_neg hholds] at htaken
      exact .pure fun _ _ => ⟨_, ⟨hi, .behind htaken (by simp [ha]), hend⟩, rfl⟩
  | ret =>
    exact .pure fun _ _ => ⟨_, ⟨hi, .ret ha, Nat.le_refl _⟩, rfl⟩
  | fail =>
    rw [ha] at hleads
    exact hleads.mono (fun _ h => h) (fun _ _ h => h.elim) fun _ _ h => (h rfl).elim
  | _ =>
    rw [ha] at hleads
    refine hleads.mono (fun _ h => h) (fun flow m hflow => ?_) fun _ _ h => (h rfl).elim
    exact ⟨_, ⟨hi, .behind (by rw [ha]; rfl) (by simp [ha]), hend⟩, hflow⟩

theorem execute_follows {flow : Flow} (hroom : m.stack.HasRoom 0)
    (h : execute p f cursor m = .ok flow n) :
    ∃ i next, LeadsTo f cursor m.stack i next ∧ flow = i.action.flow next := by
  obtain ⟨i, hi, -⟩ := (execute_outcomes p f cursor).of_ok h
  rw [execute_of_instructionAt hi] at h
  have hnoted (e : Event) : (m.note e).stack = m.stack := rfl
  obtain ⟨next, hleads⟩ := (perform_follows hi hroom).of_ok (hnoted _) h
  exact ⟨i, next, hleads⟩

/-- A jump that would leave the code fails. -/
theorem failsDecoding_of_outside (hroom : m.stack.HasRoom 0) (hi : f.code.instructionAt cursor = .ok i)
    {offset : Int16} (taken : i.action.taken? m.stack = some offset)
    (houtside : (cursor + 3 : Nat) + offset.toInt < 0 ∨
      f.code.size < (cursor + 3 : Nat) + offset.toInt) :
    FailsDecoding (execute p f cursor) m := by
  cases hx : execute p f cursor m with
  | ok flow n =>
    obtain ⟨i', next, ⟨hi', hfollows, hnext⟩, -⟩ := execute_follows hroom hx
    cases hi.symm.trans hi'
    have htarget := hfollows.target taken
    omega
  | error cause n =>
    refine ⟨cause, n, hx, ?_⟩
    rw [execute_of_instructionAt hi] at hx
    have hnoted (e : Event) : (m.note e).stack = m.stack := rfl
    exact (perform_follows hi hroom).of_error (hnoted _) hx (by simp [taken])

/-- An operand that crosses the end of the code fails on every machine. -/
theorem failsDecoding_of_truncated {op : Opcode} (hop : f.code.opcode? cursor = some op)
    (hend : f.code.size < cursor + op.length) (m : Machine) :
    FailsDecoding (execute p f cursor) m := by
  have hread : ∀ i, f.code.instructionAt cursor ≠ .ok i := by
    intro i hi
    have hin := (Code.end_le_of_instructionAt hi).2
    cases hop.symm.trans (Code.opcode?_of_instructionAt hi)
    omega
  have hinside := (Code.opcodeAt_of_opcode? hop).1
  cases hx : execute p f cursor m with
  | ok flow n =>
    obtain ⟨i, hi, -⟩ := (execute_outcomes p f cursor).of_ok hx
    exact (hread i hi).elim
  | error cause n =>
    rcases (execute_outcomes p f cursor).of_error hx with hi | ⟨i, hi, -⟩
    · exact ⟨cause, n, hx, (Code.instructionAt_refused hinside hi).1⟩
    · exact (hread i hi).elim

theorem execute_ne_pastEnd (inside : cursor < f.code.size) :
    execute p f cursor m ≠ .error .pastEnd n := by
  intro h
  rcases (execute_outcomes p f cursor).of_error h with hi | ⟨i, hi, hrefuses⟩
  · exact Code.instructionAt_ne_pastEnd inside hi
  · rcases hrefuses with ⟨-, hcause⟩ | ⟨offset, -, htarget⟩ | hkind
    · cases hcause
    · unfold jumpTarget at htarget
      dsimp only at htarget
      split at htarget <;> cases htarget
    · exact (kind_of_mem_refusals hkind).1 rfl

theorem hasRoom_of_afterRuns (h : AfterRuns p m) : m.stack.HasRoom 0 := by
  induction h with
  | none limits sink journal => exact hasRoom_fresh limits sink journal
  | run h limits args ho sink ih => exact hasRoom_of_comesTo ih ho

/-! ### The law -/

/-- Where control goes on in one state at the head of the loop. -/
structure CursorLaw (p : Program) (limits : Limits) (f : Function) (cursor : Nat) (m : Machine) :
    Prop where
  within : cursor ≤ f.code.size
  /-- An operand that crosses the end fails, whatever the machine is. -/
  truncated {op : Opcode} (hop : f.code.opcode? cursor = some op)
    (hend : f.code.size < cursor + op.length) (n : Machine) : FailsDecoding (execute p f cursor) n
  carriedOut {flow : Flow} {n : Machine}
    (h : execute p f cursor { m with executed := m.executed + 1 } = .ok flow n) :
    ∃ i next, LeadsTo f cursor m.stack i next ∧ flow = i.action.flow next
  /-- A jump that is taken and would leave the code fails. -/
  outside {i : Instruction} {offset : Int16} (hi : f.code.instructionAt cursor = .ok i)
    (taken : i.action.taken? m.stack = some offset)
    (h : (cursor + 3 : Nat) + offset.toInt < 0 ∨ f.code.size < (cursor + 3 : Nat) + offset.toInt) :
    FailsDecoding (execute p f cursor) { m with executed := m.executed + 1 }
  /-- The loop goes on where the instruction leads to, or in a function that comes back there. -/
  goesOn {q : Position} {n : Machine} (inside : cursor < f.code.size)
    (h : m.advance p limits ⟨f, cursor⟩ = .running q n) :
    ∃ i next, LeadsTo f cursor m.stack i next ∧
      (q = ⟨f, next⟩ ∨ ∃ callee g, i.action = .call callee ∧ p.function callee = .ok g ∧
        q = ⟨g, 0⟩ ∧ n.continuations = m.continuations.push ⟨next, f.id⟩)
  notPastEnd {fault : Fault} {n : Machine}
    (h : m.advance p limits ⟨f, cursor⟩ = .ended (some fault) n) : fault.cause ≠ .pastEnd

theorem goesOn_of_advance (hroom : m.stack.HasRoom 0) {q : Position} (inside : cursor < f.code.size)
    (h : m.advance p limits ⟨f, cursor⟩ = .running q n) :
    ∃ i next, LeadsTo f cursor m.stack i next ∧
      (q = ⟨f, next⟩ ∨ ∃ callee g, i.action = .call callee ∧ p.function callee = .ok g ∧
        q = ⟨g, 0⟩ ∧ n.continuations = m.continuations.push ⟨next, f.id⟩) := by
  have hcounted : ({ m with executed := m.executed + 1 } : Machine).stack.HasRoom 0 := hroom
  have ha : Advance p limits f cursor m (.running q n) := advance_of_eq h
  cases ha with
  | returned atEnd hl hk hf => omega
  | next _ hs he =>
    obtain ⟨i, next, hleads, hflow⟩ := execute_follows hcounted he
    cases Action.eq_of_flow_next hflow
    exact ⟨i, _, hleads, .inl rfl⟩
  | called _ hs he hf hd =>
    obtain ⟨i, next, hleads, hflow⟩ := execute_follows hcounted he
    obtain ⟨haction, rfl⟩ := Action.eq_call_of_flow hflow
    refine ⟨i, _, hleads, .inr ⟨_, _, haction, hf, rfl, ?_⟩⟩
    rw [continuations_enter, ← (executed_of_execute he).2]

theorem cause_ne_pastEnd {fault : Fault}
    (h : m.advance p limits ⟨f, cursor⟩ = .ended (some fault) n) : fault.cause ≠ .pastEnd := by
  have hbounds : ∀ {cause : Cause}, cause.kind = .bounds → cause ≠ .pastEnd := by
    rintro cause hk rfl
    cases hk
  have ha : Advance p limits f cursor m (.ended (some fault) n) := advance_of_eq h
  cases ha with
  | noFrame atEnd hl => simp
  | callerLost atEnd hl hk hf => exact hbounds (function_refused hf)
  | spent inside hs => nofun
  | refused inside hs he =>
    rintro rfl
    exact execute_ne_pastEnd inside he
  | undefined inside hs he hf => exact hbounds (function_refused hf)
  | tooDeep inside hs he hf hd => nofun

/-- One turn does not leave the code: what is not led to there is the end of a function, which goes
on at a continuation. -/
theorem within_turn {s t : Position × Machine} (hs : Balanced p s) (hroom : s.2.stack.HasRoom 0)
    (ht : Turn p limits s t) : t.1.cursor ≤ t.1.function.code.size := by
  obtain ⟨⟨f, cursor⟩, m⟩ := s
  obtain ⟨q, n⟩ := t
  by_cases inside : cursor < f.code.size
  · obtain ⟨i, next, hleads, rfl | ⟨callee, g, -, -, rfl, -⟩⟩ := goesOn_of_advance hroom inside ht
    · exact hleads.within
    · exact Nat.zero_le _
  · have ha : Advance p limits f cursor m (.running q n) := advance_of_eq ht
    cases ha with
    | next hin hs he => exact (inside hin).elim
    | called hin hs he hf hd => exact (inside hin).elim
    | @returned n k ks caller atEnd hl hk hf =>
      obtain ⟨caller', hcaller, hle⟩ := hs.returns k (mem_of_leave? hl hk)
      cases hf.symm.trans hcaller
      exact hle

theorem within_of_visits (hm : Restartable p m) (hroom : m.stack.HasRoom 0) {s : Position × Machine}
    (hv : Visits p limits args m s) : s.1.cursor ≤ s.1.function.code.size := by
  obtain ⟨entered, hentered, hr⟩ := hv
  rcases hr.cases_tail with rfl | ⟨t, ht, hturn⟩
  · exact Nat.zero_le _
  · have hbefore : Visits p limits args m t := ⟨entered, hentered, ht⟩
    exact within_turn (hm.visits hbefore) (hasRoom_of_visits hroom hbefore) hturn

/-- In every state of every run the cursor is in the code or at its end, and follows the law there. No
run ends because its cursor is past the end of the code. -/
theorem cursorLaw_of_afterRuns (h : AfterRuns p m) (limits : Limits) (args : List Cell) :
    (∀ f cursor n, Visits p limits args m (⟨f, cursor⟩, n) → CursorLaw p limits f cursor n) ∧
    ∀ o fault, ComesTo p limits args m o → o.ending = .fault fault → fault.cause ≠ .pastEnd := by
  have hm := restartable_of_afterRuns h
  have hroom := hasRoom_of_afterRuns h
  constructor
  · intro f cursor n hv
    have hn : n.stack.HasRoom 0 := hasRoom_of_visits hroom hv
    have hcounted : ({ n with executed := n.executed + 1 } : Machine).stack.HasRoom 0 := hn
    exact {
      within := within_of_visits hm hroom hv
      truncated := failsDecoding_of_truncated
      carriedOut := execute_follows hcounted
      outside := fun hi taken houtside => failsDecoding_of_outside hcounted hi taken houtside
      goesOn := goesOn_of_advance hn
      notPastEnd := cause_ne_pastEnd }
  · intro o fault ho hf
    rcases ho.fault_cases hf with ⟨cause, n, hn, rfl⟩ | ⟨q, n, hv, ha⟩
    · rintro rfl
      cases List.mem_singleton.1 ((storeArguments_refused args.length args 0).of_error hn)
    · exact cause_ne_pastEnd ha

/-- A jump into its own operand, whose bytes are no opcode. -/
def jumpsIntoOperand : Program := .single 0 ⟨#[Opcode.jump.tag, 254, 255]⟩

theorem cursorLaw_of_afterRuns_jumpsIntoOperand :
    (∃ f n, Visits jumpsIntoOperand {} [] (fresh {} {} {}) (⟨f, 1⟩, n) ∧
      CursorLaw jumpsIntoOperand {} f 1 n) ∧
    ∃ fault, ((fresh {} {} {}).run jumpsIntoOperand { budget := some 9 } []).ending = .fault fault ∧
      fault.kind = .decode ∧ fault.cause ≠ .pastEnd := by
  have hm : AfterRuns jumpsIntoOperand (fresh {} {} {}) := .none {} {} {}
  have hv : Visits jumpsIntoOperand {} [] (fresh {} {} {}) (⟨_, 1⟩, _) :=
    ⟨_, rfl, .single (Turn.of_advance rfl)⟩
  have hbudget : ({ budget := some 9 } : Limits).budget = some 9 := rfl
  have hend : ((fresh {} {} {}).run jumpsIntoOperand { budget := some 9 } []).ending =
      .fault (Fault.located (.unknownOpcode 254) 0 1) := by decide +kernel
  obtain ⟨hlaw, -⟩ := cursorLaw_of_afterRuns hm {} []
  obtain ⟨-, hfaults⟩ := cursorLaw_of_afterRuns hm { budget := some 9 } []
  exact ⟨⟨_, _, hv, hlaw _ _ _ hv⟩, _, hend, rfl,
    hfaults _ _ (comesTo_run (run_finishes hbudget)) hend⟩

end Machine

end CellMachine
