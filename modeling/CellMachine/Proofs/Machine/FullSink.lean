import CellMachine.Proofs.Code
import CellMachine.Proofs.Machine.Output

/-!
# Sinks that fill up

A run on a sink with limited room beside the same run on a sink that takes everything. Main statement:
if there is room for the whole output, the two runs do the same; otherwise the first one ends at the
print instruction with the first byte that has no room, and the sink has all bytes before that one.
-/

namespace CellMachine

/-- A print that the sink refused. -/
def Cause.RefusesPrint (cause : Cause) : Prop := ∃ reason, cause = .printRefused reason

namespace Output

theorem sinksKept_confined (total : Nat) (refusal : Refusal) (flushable : Bool) :
    SinksKept Cause.RefusesPrint (Confined total refusal flushable) := by
  refine sinksKept_of_writeAll fun bytes s t h => ?_
  rcases Nat.lt_or_ge total (t.written.size + bytes.length) with hover | hfits
  · obtain ⟨s', hs', -⟩ := h.write_overflowing hover
    rw [hs']
    exact .excused _ ⟨_, rfl⟩
  · obtain ⟨s', t', hs', ht', hkept, -⟩ := h.write_fitting hfits
    rw [hs', ht']
    exact .ok () hkept

end Output

/-! ### Print instructions -/

namespace Machine

variable {p : Program} {limits : Limits}

theorem print_of_output {action : Action} (h : .output ∈ refusals action) : ∃ t, action = .print t := by
  cases action with
  | print t => exact ⟨t, rfl⟩
  | _ => simp [refusals] at h

def withCells (m : Machine) (cells : Stack Cell) : Machine := { m with stack := { m.stack with cells } }

theorem printTop_of_top {m : Machine} {c : Cell} {rest : Stack Cell}
    (h : m.stack.cells.pop? = some (c, rest)) :
    printTop c.type m = print c.pieces (m.withCells rest) := by
  have hpop : onStack (OperandStack.popTyped c.type.tag) m = .ok c (m.withCells rest) := by
    have htag : c.tag = c.type.tag := rfl
    simp only [onStack, OperandStack.popTyped, OperandStack.popAs, h, if_pos htag]
    rfl
  exact bind_of_ok hpop _

theorem printTop_cases (t : ValueType) (m : Machine) :
    (∃ cause, cause.kind = .stackDiscipline ∧ printTop t m = .error cause m) ∨
      ∃ c rest, m.stack.cells.pop? = some (c, rest) ∧ c.type = t := by
  cases hp : m.stack.cells.pop? with
  | none =>
    refine .inl ⟨.popTypedFromEmpty t.tag, rfl, ?_⟩
    show EStateM.bind _ _ m = _
    simp only [EStateM.bind, onStack, OperandStack.popTyped, OperandStack.popAs, hp]
  | some r =>
    obtain ⟨c, rest⟩ := r
    by_cases htag : c.tag = t.tag
    · exact .inr ⟨c, rest, rfl, ValueType.eq_of_tag htag⟩
    · refine .inl ⟨.wrongType t.tag c.tag, rfl, ?_⟩
      show EStateM.bind _ _ m = _
      simp only [EStateM.bind, onStack, OperandStack.popTyped, OperandStack.popAs, hp, if_neg htag]

theorem print_eq (pieces : List (List UInt8)) (m : Machine) :
    print pieces m = match Output.print pieces m.sink with
      | .ok _ sink => .ok () { m with sink }
      | .error reason sink => .error (.printRefused reason) { m with sink } := by
  obtain ⟨stack, frames, continuations, executed, sink, journal⟩ := m
  simp only [print]
  cases Output.print pieces sink with
  | ok _ sink => rfl
  | error reason sink => rfl

/-- A print instruction and the cell that it prints. -/
structure PrintsAt (f : Function) (cursor : Nat) (m : Machine) (c : Cell) : Prop where
  inside : cursor < f.code.size
  instruction : f.code.instructionAt cursor = .ok ⟨.print c.type, ()⟩
  top : m.stack.top? = some c

theorem pop?_of_top? {stack : OperandStack} {c : Cell} (h : stack.top? = some c) :
    ∃ rest, stack.cells.pop? = some (c, rest) := by
  cases hp : stack.cells.pop? with
  | none =>
    rw [OperandStack.top?, Stack.top?, Stack.pop?_eq_none_iff.1 hp] at h
    cases h
  | some r =>
    rw [OperandStack.top?, Stack.top?, Stack.pop?_eq_some_iff.1 hp] at h
    cases h
    exact ⟨r.2, rfl⟩

theorem PrintsAt.execute {f : Function} {cursor : Nat} {m : Machine} {c : Cell}
    (h : PrintsAt f cursor m c) {flushable : Bool} (hopen : m.sink.IsOpen flushable) :
    ∃ n, execute p f cursor m = .ok (.next (cursor + 1)) n ∧
      n.sink.written.toList = m.sink.written.toList ++ c.printed := by
  obtain ⟨rest, hp⟩ := pop?_of_top? h.top
  rw [execute_of_instructionAt h.instruction]
  generalize Event.dispatch f.id cursor _ m.stack.depth = e
  have hp' : (m.note e).stack.cells.pop? = some (c, rest) := hp
  obtain ⟨o, hwrite, -, hwritten⟩ := hopen.print c.pieces
  have hwrite : Output.print c.pieces ((m.note e).withCells rest).sink = .ok () o := hwrite
  rw [c.flatten_pieces] at hwritten
  refine ⟨{ (m.note e).withCells rest with sink := o }, ?_, hwritten⟩
  show EStateM.bind (printTop c.type) _ (m.note e) = _
  simp only [EStateM.bind, printTop_of_top hp', print_eq, hwrite]
  rfl

theorem PrintsAt.advance {q : Position} {m : Machine} {c : Cell}
    (h : PrintsAt q.function q.cursor m c) (hs : m.spent? limits = none) {flushable : Bool}
    (hopen : m.sink.IsOpen flushable) :
    ∃ m', m.advance p limits q = .running ⟨q.function, q.cursor + 1⟩ m' ∧
      m'.sink.written.toList = m.sink.written.toList ++ c.printed := by
  have hcounted : PrintsAt q.function q.cursor { m with executed := m.executed + 1 } c :=
    ⟨h.inside, h.instruction, h.top⟩
  obtain ⟨m', he, hwritten⟩ := hcounted.execute (p := p) hopen
  have hinside : ¬ q.function.code.size ≤ q.cursor := Nat.not_le.2 h.inside
  refine ⟨m', ?_, hwritten⟩
  simp only [Machine.advance, if_neg hinside, hs, dispatch, he]

/-- An integer is printed with its decimal digits, a double with six of them, and a text as it is. -/
theorem PrintsAt.advance_prints {q : Position} {m : Machine} {c : Cell}
    (h : PrintsAt q.function q.cursor m c) (hs : m.spent? limits = none) {flushable : Bool}
    (hopen : m.sink.IsOpen flushable) :
    ∃ m', m.advance p limits q = .running ⟨q.function, q.cursor + 1⟩ m' ∧
      m'.sink.written.toList = m.sink.written.toList ++
        match c with
        | .int n => utf8Bytes (String.ofList (Decimal.ofInt n.toInt))
        | .double d => utf8Bytes (String.ofList (Decimal.ofBits d.toBits))
        | .text t => t.bytes := by
  obtain ⟨m', ha, hwritten⟩ := h.advance (p := p) hs hopen
  refine ⟨m', ha, ?_⟩
  cases c <;> exact hwritten

theorem printTop_of_perform {site : Site} {t : ValueType} {m n : Machine} {cause : Cause}
    (h : perform p site (.print t) m = .error cause n) : printTop t m = .error cause n := by
  have hbind : EStateM.bind (printTop t) (fun _ => pure (Flow.next site.next)) m =
      .error cause n := h
  simp only [EStateM.bind] at hbind
  cases hr : printTop t m with
  | ok _ n' =>
    simp only [hr] at hbind
    cases hbind
  | error cause' n' =>
    simp only [hr] at hbind
    cases hbind
    rfl

/-- What a sink refuses is a print of the cell on top of the operand stack. -/
theorem printsAt_of_refused {f : Function} {cursor : Nat} {m n : Machine} {cause : Cause}
    (inside : cursor < f.code.size) (hcause : cause.RefusesPrint)
    (h : execute p f cursor m = .error cause n) :
    ∃ c reason, PrintsAt f cursor m c ∧ Output.print c.pieces m.sink = .error reason n.sink ∧
      cause = .printRefused reason := by
  obtain ⟨reason, rfl⟩ := hcause
  rcases perform_of_execute_error h with hread | ⟨i, e, hi, hperform⟩
  · cases (Code.instructionAt_refused inside hread).1
  rcases (perform_outcomes p (siteOf f cursor i) i.action).of_error hperform with
    ⟨-, hinvalid⟩ | ⟨distance, -, htarget⟩ | hmem
  · cases hinvalid
  · cases jumpTarget_refused htarget
  obtain ⟨t, haction⟩ := print_of_output hmem
  cases Instruction.eq_of_action haction rfl
  have hprint := printTop_of_perform hperform
  rcases printTop_cases t (m.note e) with ⟨cause, hk, hr⟩ | ⟨c, rest, hp, rfl⟩
  · cases hr.symm.trans hprint
    cases hk
  rw [printTop_of_top hp, print_eq] at hprint
  have htop : m.stack.top? = some c := by
    rw [OperandStack.top?, Stack.top?, Stack.pop?_eq_some_iff.1 (show m.stack.cells.pop? = _ from hp)]
    rfl
  have hsink : ((m.note e).withCells rest).sink = m.sink := rfl
  rw [hsink] at hprint
  cases hw : Output.print c.pieces m.sink with
  | ok _ sink =>
    rw [hw] at hprint
    cases hprint
  | error reason' sink =>
    rw [hw] at hprint
    cases hprint
    exact ⟨c, _, ⟨inside, hi, htop⟩, hw, rfl⟩

/-! ### Two runs -/

theorem sideBySide_confined (limits : Limits) (total : Nat) (refusal : Refusal) (flushable : Bool) :
    SideBySide Cause.RefusesPrint limits limits Eq Eq (Output.Confined total refusal flushable) where
  operands := .same _
  frames := .same _
  sinks := Output.sinksKept_confined total refusal flushable
  budget := rfl
  calls := .inl rfl

/-- A print instruction at which a run on a sink that takes everything goes on, and where what it has
printed comes to more than `total` bytes. -/
structure FillsAt (p : Program) (limits : Limits) (total : Nat) (q : Position) (m : Machine)
    (c : Cell) : Prop where
  prints : PrintsAt q.function q.cursor m c
  before : m.sink.written.size ≤ total
  after : total < m.sink.written.size + c.printed.length
  goesOn : ∃ m', m.advance p limits q = .running ⟨q.function, q.cursor + 1⟩ m' ∧
    m'.sink.written.toList = m.sink.written.toList ++ c.printed

theorem execute_of_located {q : Position} {m left : Machine} {cause : Cause}
    (hcause : cause.RefusesPrint)
    (h : m.advance p limits q = .ended (some (Fault.located cause q.function.id q.cursor)) left) :
    q.cursor < q.function.code.size ∧ m.spent? limits = none ∧
      execute p q.function q.cursor { m with executed := m.executed + 1 } = .error cause left := by
  obtain ⟨reason, rfl⟩ := hcause
  generalize hf : some (Fault.located (.printRefused reason) q.function.id q.cursor) = fault? at h
  cases advance_of_eq h with
  | refused inside hs he =>
    cases hf
    exact ⟨inside, hs, he⟩
  | undefined inside hs he hfunction =>
    cases hf
    cases function_refused hfunction
  | finished | stopped | noFrame | callerLost | spent | tooDeep => cases hf

/-- Where a confined sink refuses a print, the run beside it goes on with more than that sink can have. -/
theorem fillsAt_of_refused {total : Nat} {refusal : Refusal} {flushable : Bool} {q : Position}
    {m n left : Machine} {cause : Cause} (hmn : Alike Eq Eq (Output.Confined total refusal flushable) m n)
    (hcause : cause.RefusesPrint)
    (h : m.advance p limits q = .ended (some (Fault.located cause q.function.id q.cursor)) left) :
    ∃ c, FillsAt p limits total q n c ∧ cause = .printRefused refusal.reason ∧
      left.executed = n.executed + 1 ∧
      left.sink.written.toList = (n.sink.written.toList ++ c.printed).take total := by
  obtain ⟨inside, hunspent, he⟩ := execute_of_located hcause h
  obtain ⟨c, reason, hprints, hwrite, rfl⟩ := printsAt_of_refused inside hcause he
  have hwrite : Output.print c.pieces m.sink = .error reason left.sink := hwrite
  have htop : n.stack.top? = some c := hmn.stack ▸ hprints.top
  have hprints' : PrintsAt q.function q.cursor n c := ⟨inside, hprints.instruction, htop⟩
  -- A print for which there was room would not have been refused.
  have hover : total < n.sink.written.size + c.printed.length := by
    refine Nat.lt_of_not_le fun hfits => ?_
    rw [← c.flatten_pieces] at hfits
    obtain ⟨s', hs'⟩ := hmn.sink.print_fitting hfits
    cases hs'.symm.trans hwrite
  have hpieces : total < n.sink.written.size + c.pieces.flatten.length := by rwa [c.flatten_pieces]
  obtain ⟨s', hs', hwritten⟩ := hmn.sink.print_overflowing hpieces
  rw [c.flatten_pieces] at hwritten
  cases hs'.symm.trans hwrite
  have hgoesOn : ∃ m', n.advance p limits q = .running ⟨q.function, q.cursor + 1⟩ m' ∧
      m'.sink.written.toList = n.sink.written.toList ++ c.printed := by
    have hunspent' : n.spent? limits = none := hmn.spent? rfl ▸ hunspent
    exact hprints'.advance (p := p) hunspent' hmn.sink.opened
  have hexecuted : left.executed = n.executed + 1 := by
    have hx : left.executed = m.executed + 1 :=
      congrArg Skeleton.executed (execute_skeleton_of_error he)
    rw [hx, hmn.executed]
  exact ⟨c, ⟨hprints', hmn.sink.fits, hover, hgoesOn⟩, rfl, hexecuted, hwritten⟩

theorem FillsAt.output {total : Nat} {q : Position} {m n : Machine} {c : Cell} {fault? : Option Fault}
    (h : FillsAt p limits total q m c) (he : EndsAs p limits (q, m) fault? n) :
    m.sink.written.toList ++ c.printed <+: n.sink.written.toList := by
  obtain ⟨m', ha, hwritten⟩ := h.goesOn
  rw [← hwritten]
  exact (extends_of_endsAs (he.of_reached (.single (.of_advance ha)))).written

/-- The print instruction with the first byte of the output `w` that has no room, in the run on `start`
with a sink that takes everything. -/
structure Overflows (p : Program) (limits : Limits) (total : Nat) (args : List Cell) (start : Machine)
    (w : List UInt8) (q : Position) (m : Machine) (c : Cell) : Prop where
  visited : Visits p limits args start (q, m)
  fills : FillsAt p limits total q m c
  output : m.sink.written.toList ++ c.printed <+: w

section Overflows

variable {total : Nat} {args : List Cell} {start : Machine} {w : List UInt8} {q : Position}
  {m : Machine} {c : Cell}

theorem Overflows.room (h : Overflows p limits total args start w q m c) :
    total < (m.sink.written.toList ++ c.printed).length := by
  have hafter := h.fills.after
  simp only [List.length_append, Array.length_toList]
  exact hafter

theorem Overflows.lt (h : Overflows p limits total args start w q m c) : total < w.length :=
  Nat.lt_of_lt_of_le h.room h.output.length_le

theorem Overflows.take (h : Overflows p limits total args start w q m c) :
    w.take total = (m.sink.written.toList ++ c.printed).take total := by
  obtain ⟨rest, hrest⟩ := h.output
  rw [← hrest, List.take_append_of_le_length (Nat.le_of_lt h.room)]

end Overflows

/-- How a run that its sink has cut off ends. -/
structure CutOff (total : Nat) (refusal : Refusal) (w : List UInt8) (q : Position) (m : Machine)
    (cut : Outcome) : Prop where
  written : cut.machine.sink.written.toList = w.take total
  ending : cut.ending =
    .fault (Fault.located (.printRefused refusal.reason) q.function.id q.cursor)
  executed : cut.machine.executed = m.executed + 1

theorem cutOff_of_endsAs {total : Nat} {refusal : Refusal} {flushable : Bool} {args : List Cell}
    {start m n left left' : Machine} {fault? fault?' : Option Fault}
    (hn : storeArguments args.length args 0 (start.enter p.entryFunction) = .ok () n)
    (hmn : Alike Eq Eq (Output.Confined total refusal flushable) m n)
    (he : EndsAs p limits (⟨p.entryFunction, 0⟩, m) fault? left)
    (he' : EndsAs p limits (⟨p.entryFunction, 0⟩, n) fault?' left') :
    (fault? = fault?' ∧ Alike Eq Eq (Output.Confined total refusal flushable) left left') ∨
      ∃ q n' c, Overflows p limits total args start left'.sink.written.toList q n' c ∧
        CutOff total refusal left'.sink.written.toList q n' (outcome fault? left) := by
  cases (sideBySide_confined limits total refusal flushable).endsAs hmn he with
  | alike hsame hleft =>
    obtain ⟨rfl, rfl⟩ := he'.unique hsame
    exact .inl ⟨rfl, hleft⟩
  | @excused q m₁ n₁ cause first second halike hc last hf =>
    obtain ⟨c, hfills, rfl, hexecuted, hwritten⟩ := fillsAt_of_refused halike hc last
    have hover : Overflows p limits total args start left'.sink.written.toList q n₁ c :=
      ⟨⟨n, hn, second⟩, hfills, hfills.output (he'.of_reached second)⟩
    refine .inr ⟨q, n₁, c, hover, ?_, ?_, ?_⟩
    · rw [outcome_machine, hwritten, hover.take]
    · rw [hf]
      rfl
    · rw [outcome_machine, hexecuted]

/-- Two runs, one on a confined sink: they do the same, or the sink cuts off the one that writes to it. -/
theorem run_confined {budget total : Nat} (hb : limits.budget = some budget) {refusal : Refusal}
    {flushable : Bool} (args : List Cell) {m n : Machine}
    (hmn : Alike Eq Eq (Output.Confined total refusal flushable) m n) :
    let cut := m.run p limits args
    let whole := n.run p limits args
    (cut.ending = whole.ending ∧
      Alike Eq Eq (Output.Confined total refusal flushable) cut.machine whole.machine) ∨
    ∃ q n' c, Overflows p limits total args n whole.machine.sink.written.toList q n' c ∧
      CutOff total refusal whole.machine.sink.written.toList q n' cut := by
  intro cut whole
  have hcut : ComesTo p limits args m cut := (comesTo_iff_run hb).2 rfl
  have hwhole : ComesTo p limits args n whole := (comesTo_iff_run hb).2 rfl
  have hstart := (sideBySide_confined limits total refusal flushable).storeArguments (p := p) hmn args
  generalize hn : storeArguments args.length args 0 (n.enter p.entryFunction) = r at hstart
  rcases comesTo_iff.1 hcut with ⟨cause, left, hm, hcut⟩ | ⟨entered, fault?, left, hm, he, hcut⟩
  · rw [hm] at hstart
    cases hstart with
    | @error _ _ left' hleft =>
      have hwhole : whole = ⟨.fault { cause }, left'⟩ := by simp only [whole, run, hn]
      rw [hcut, hwhole]
      exact .inl ⟨rfl, hleft⟩
    | excused _ hex =>
      obtain ⟨reason, rfl⟩ := hex
      have hbounds := (storeArguments_refused args.length args 0).of_error hm
      simp [Cause.kind] at hbounds
  · rw [hm] at hstart
    cases hstart with
    | ok _ hentered =>
      rcases comesTo_iff.1 hwhole with ⟨_, _, hn', -⟩ | ⟨_, fault?', left', hn', he', hwhole⟩
      · cases hn.symm.trans hn'
      cases hn.symm.trans hn'
      rw [hcut, hwhole, outcome_machine fault?']
      rcases cutOff_of_endsAs hn hentered he he' with ⟨rfl, hleft⟩ | hcutOff
      · refine .inl ⟨?_, by simpa only [outcome_machine] using hleft⟩
        cases fault? with
        | none => exact congrArg Ending.value (congrArg OperandStack.top? hleft.stack)
        | some fault => rfl
      · exact .inr hcutOff

end Machine

end CellMachine
