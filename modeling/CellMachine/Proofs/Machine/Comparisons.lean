import CellMachine.Proofs.Machine.StraightLine

/-!
# Comparisons

Comparing takes the two topmost integers and puts them back. Main statement: a conditional jump leaves
the operands as they are and is taken exactly if the cell that the comparison of the same operands adds
is in the relation to zero that the jump asks for.
-/

namespace CellMachine

/-! ### Signs -/

def Comparison.asks (c : Comparison) (n : Int) : Prop :=
  match c with
  | ne => n ≠ 0
  | eq => n = 0
  | gt => 0 < n
  | ge => 0 ≤ n
  | lt => n < 0
  | le => n ≤ 0

theorem Comparison.holds_iff (c : Comparison) (lower upper : Int64) :
    c.holds lower upper = true ↔ c.asks (lower.toInt - upper.toInt) := by
  have heq : lower = upper ↔ lower.toInt = upper.toInt := Int64.toInt_inj.symm
  cases c with
  | ne =>
    simp only [holds, asks, bne_iff_ne, ne_eq, heq]
    omega
  | eq =>
    simp only [holds, asks, beq_iff_eq, heq]
    omega
  | gt | lt =>
    simp only [holds, asks, decide_eq_true_eq, Int64.lt_iff_toInt_lt]
    omega
  | ge | le =>
    simp only [holds, asks, decide_eq_true_eq, Int64.le_iff_toInt_le]
    omega

theorem Comparison.asks_sign (c : Comparison) (n : Int) : c.asks n.sign ↔ c.asks n := by
  rcases Int.lt_trichotomy n 0 with hneg | hzero | hpos
  · rw [Int.sign_eq_neg_one_of_neg hneg]
    cases c <;> simp only [asks] <;> omega
  · rw [hzero, Int.sign_zero]
  · rw [Int.sign_eq_one_of_pos hpos]
    cases c <;> simp only [asks] <;> omega

/-- The difference is that of the numbers, not the one that wraps around. -/
theorem toInt_compareInts (lower upper : Int64) :
    (compareInts lower upper).toInt = (lower.toInt - upper.toInt).sign := by
  unfold compareInts
  by_cases hlt : lower < upper
  · have hneg : lower.toInt < upper.toInt := Int64.lt_iff_toInt_lt.1 hlt
    rw [if_pos hlt, Int.sign_eq_neg_one_of_neg (by omega)]
    rfl
  · have hle : ¬ lower.toInt < upper.toInt := fun h => hlt (Int64.lt_iff_toInt_lt.2 h)
    rw [if_neg hlt]
    by_cases heq : lower = upper
    · rw [if_pos heq, heq, Int.sub_self]
      rfl
    · have hne : lower.toInt ≠ upper.toInt := fun h => heq (Int64.toInt_inj.1 h)
      rw [if_neg heq, Int.sign_eq_one_of_pos (by omega)]
      rfl

theorem compareInts_cases (lower upper : Int64) :
    compareInts lower upper = -1 ∨ compareInts lower upper = 0 ∨ compareInts lower upper = 1 := by
  unfold compareInts
  split
  · exact .inl rfl
  · split
    · exact .inr (.inl rfl)
    · exact .inr (.inr rfl)

/-- A condition holds of two operands if the result of their comparison is as it asks. -/
theorem Comparison.holds_iff_asks (c : Comparison) (lower upper : Int64) :
    c.holds lower upper = true ↔ c.asks (compareInts lower upper).toInt := by
  rw [holds_iff, toInt_compareInts, asks_sign]

/-! ### Operands that stay -/

namespace OperandStack

variable {s : OperandStack} {lower upper : Int64} {rest : List Cell}

theorem peekInts_of_operands (hroom : s.HasRoom 0)
    (h : s.cells.items = .int upper :: .int lower :: rest) : peekInts s = .ok (lower, upper) s := by
  rw [peekInts_eq]
  exact putBack_of_operands .int int?_eq_some_iff hroom h

theorem compare_of_room (hroom : s.depth < s.limit)
    (h : s.cells.items = .int upper :: .int lower :: rest) :
    compare .int s = .ok () (s.under (.int (compareInts lower upper))) := by
  have hpeek : peekInts s = .ok (lower, upper) s := peekInts_of_operands (Nat.le_of_lt hroom) h
  simp only [compare, Bind.bind, EStateM.bind, hpeek, push_eq, if_neg (Nat.not_le.2 hroom)]

end OperandStack

namespace Machine

variable {p : Program} {f : Function} {cursor : Nat} {m : Machine} {lower upper : Int64}
  {rest : List Cell}

/-- What a conditional jump comes to: where control goes on, or that it cannot go on there. The machine
stays as it is. -/
inductive Branches (f : Function) (cursor : Nat) (offset : Int16) (m : Machine) (taken : Prop) :
    EStateM.Result Cause Machine Flow → Prop
  | passed {n : Machine} (hno : ¬ taken) (same : Untouched m n) :
    Branches f cursor offset m taken (.ok (.next (cursor + 3)) n)
  | jumped {target : Nat} {n : Machine} (htaken : taken)
    (distance : (target : Int) = (cursor + 3 : Nat) + offset.toInt) (within : target ≤ f.code.size)
    (same : Untouched m n) : Branches f cursor offset m taken (.ok (.next target) n)
  | rejected {cause : Cause} {n : Machine} (htaken : taken)
    (outside : (cursor + 3 : Nat) + offset.toInt < 0 ∨
      f.code.size < (cursor + 3 : Nat) + offset.toInt)
    (hkind : cause.kind = .decode) (same : Untouched m n) :
    Branches f cursor offset m taken (.error cause n)

/-- Instructions that compare the two topmost integers of a machine, and the result that they share. -/
structure ComparesAs (p : Program) (m : Machine) (lower upper sign : Int64) : Prop where
  cases : sign = -1 ∨ sign = 0 ∨ sign = 1
  difference : sign.toInt = (lower.toInt - upper.toInt).sign
  adds {f : Function} {cursor : Nat} (hi : f.code.instructionAt cursor = .ok ⟨.compare .int, ()⟩)
    (hroom : m.stack.depth < m.stack.limit) :
    ∃ n, execute p f cursor m = .ok (.next (cursor + 1)) n ∧
      Untouched { m with stack := m.stack.under (.int sign) } n
  overflows {f : Function} {cursor : Nat}
    (hi : f.code.instructionAt cursor = .ok ⟨.compare .int, ()⟩)
    (hfull : m.stack.depth = m.stack.limit) :
    ∃ cause n, execute p f cursor m = .error cause n ∧ cause.kind = .stackOverflow ∧ Untouched m n
  branches {f : Function} {cursor : Nat} {c : Comparison} {offset : Int16}
    (hi : f.code.instructionAt cursor = .ok ⟨.jumpIf c, offset⟩) :
    Branches f cursor offset m (c.asks sign.toInt) (execute p f cursor m)
  truncated {f : Function} {cursor : Nat} {c : Comparison} {cause : Cause}
    (hop : f.code.opcode? cursor = some (.jumpIf c))
    (hi : f.code.instructionAt cursor = .error cause) :
    ∃ n, execute p f cursor m = .error cause n ∧ cause.kind = .decode ∧ Untouched m n

theorem perform_jumpIf {site : Site} {c : Comparison} {offset : Int16}
    (hpeek : onStack OperandStack.peekInts m = .ok (lower, upper) m) :
    perform p site (.jumpIf c offset) m =
      if c.holds lower upper then
        (lookup (jumpTarget site.function.code site.next offset) >>= fun target =>
          pure (.next target)) m
      else .ok (.next site.next) m := by
  show (onStack OperandStack.peekInts >>= _) m = _
  rw [bind_of_ok hpeek]
  dsimp only
  split
  · rfl
  · rfl

/-- Both operands are back before the jump is looked at. -/
theorem branches_of_operands {c : Comparison} {offset : Int16}
    (hi : f.code.instructionAt cursor = .ok ⟨.jumpIf c, offset⟩) (hroom : m.stack.HasRoom 0)
    (h : m.stack.cells.items = .int upper :: .int lower :: rest) :
    Branches f cursor offset m (c.holds lower upper = true) (execute p f cursor m) := by
  let noted : Machine := m.note (.dispatch f.id cursor (.jumpIf c) m.stack.depth)
  have hsame : Untouched m noted := ⟨rfl, rfl, rfl, rfl⟩
  have hpeek : onStack OperandStack.peekInts noted = .ok (lower, upper) noted :=
    onStack_of_ok (OperandStack.peekInts_of_operands (s := noted.stack) hroom h)
  have hperform : execute p f cursor m = perform p ⟨f, cursor, cursor + 3⟩ (.jumpIf c offset) noted :=
    execute_of_instructionAt hi m
  rw [hperform, perform_jumpIf hpeek]
  by_cases htaken : c.holds lower upper = true
  · rw [if_pos htaken]
    cases htarget : jumpTarget f.code (cursor + 3) offset with
    | ok target =>
      obtain ⟨hdistance, hwithin⟩ := jumpTarget_eq_ok_iff.1 htarget
      exact .jumped htaken hdistance hwithin hsame
    | error cause =>
      exact .rejected htaken (jumpTarget_outside htarget) (jumpTarget_refused htarget) hsame
  · rw [if_neg htaken]
    exact .passed htaken hsame

theorem Branches.congr {offset : Int16} {taken taken' : Prop}
    {result : EStateM.Result Cause Machine Flow} (h : Branches f cursor offset m taken result)
    (hiff : taken ↔ taken') : Branches f cursor offset m taken' result :=
  propext hiff ▸ h

/-- Comparing two integers and jumping on them agree, whatever stands beneath them, and neither takes
them away. -/
theorem comparesAs_of_operands (hroom : m.stack.HasRoom 0)
    (h : m.stack.cells.items = .int upper :: .int lower :: rest) :
    ∃ sign, ComparesAs p m lower upper sign := by
  refine ⟨compareInts lower upper, ?_⟩
  constructor
  case cases => exact compareInts_cases lower upper
  case difference => exact toInt_compareInts lower upper
  case adds =>
    intro f cursor hi hlt
    exact execute_of_operands hi rfl (OperandStack.compare_of_room hlt h)
  case overflows =>
    intro f cursor hi hfull
    have hx : OperandStack.compare .int m.stack = .error (.stackLimit m.stack.limit) m.stack :=
      OperandStack.compare_of_full h rfl rfl hfull
    obtain ⟨n, hn, hsame⟩ := execute_of_operands_refused hi rfl hx
    exact ⟨_, n, hn, rfl, hsame⟩
  case branches =>
    intro f cursor c offset hi
    exact (branches_of_operands hi hroom h).congr (c.holds_iff_asks lower upper)
  case truncated =>
    intro f cursor c cause hop hi
    have inside : cursor < f.code.size := (Code.opcodeAt_of_opcode? hop).1
    obtain ⟨journal, hn⟩ := execute_of_unreadable hi m
    exact ⟨_, hn, (Code.instructionAt_refused inside hi).1, ⟨rfl, rfl, rfl, rfl⟩⟩

theorem comparesAs_of_operands_farApart :
    let stack : OperandStack := ⟨.ofList [.int 1, .int Int64.minValue], 2⟩
    stack.HasRoom 0 ∧ 0 < Int64.minValue - 1 ∧
      ∃ sign, ComparesAs (Program.single 0 ⟨#[(Opcode.compare .int).tag]⟩)
        { fresh {} {} {} with stack := stack } Int64.minValue 1 sign ∧ sign.toInt = -1 := by
  intro stack
  have hroom : stack.HasRoom 0 := Nat.le_refl 2
  obtain ⟨sign, h⟩ := comparesAs_of_operands (p := .single 0 ⟨#[(Opcode.compare .int).tag]⟩)
    (m := { fresh {} {} {} with stack := stack }) hroom rfl
  exact ⟨hroom, by decide, sign, h, h.difference⟩

end Machine

end CellMachine
