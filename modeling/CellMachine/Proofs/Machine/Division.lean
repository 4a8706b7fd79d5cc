import CellMachine.Proofs.Machine.StraightLine

/-!
# Division

Integers wrap around, and one quotient does not fit. Main statement: quotient and remainder together
are the dividend again, for every divisor but zero, and code that computes this from its operands comes
to the dividend.
-/

namespace CellMachine

/-! ### Numbers -/

/-- A quotient that is truncated toward zero, and its remainder. -/
structure DividesAs (a b q r : Int64) : Prop where
  identity : q * b + r = a
  smaller : r.toInt.natAbs < b.toInt.natAbs
  sign : r = 0 ∨ r.toInt.sign = a.toInt.sign
  truncated (hfits : ¬ (a = Int64.minValue ∧ b = -1)) : q.toInt = a.toInt.tdiv b.toInt
  wraps (ha : a = Int64.minValue) (hb : b = -1) : q = Int64.minValue ∧ r = 0

variable {a b : Int64}

theorem toInt_ne_zero (hb : b ≠ 0) : b.toInt ≠ 0 := fun h => hb (Int64.toInt_inj.1 h)

/-- The one quotient that does not fit wraps around, and the product takes that back. -/
theorem div_mul_add_mod (a b : Int64) : a / b * b + a % b = a := by
  have hint : a.toInt.tdiv b.toInt * b.toInt + a.toInt.tmod b.toInt = a.toInt :=
    Int.tdiv_mul_add_tmod a.toInt b.toInt
  refine Int64.toInt_inj.1 ?_
  rw [Int64.toInt_add, Int64.toInt_mul, Int64.toInt_div, Int64.toInt_mod, Int.bmod_mul_bmod,
    Int.bmod_add_bmod, hint, Int64.toInt_bmod]

theorem natAbs_mod_lt (hb : b ≠ 0) : (a % b).toInt.natAbs < b.toInt.natAbs := by
  rw [Int64.toInt_mod, Int.natAbs_tmod]
  exact Nat.mod_lt _ (Int.natAbs_pos.2 (toInt_ne_zero hb))

theorem sign_mod (a b : Int64) : a % b = 0 ∨ (a % b).toInt.sign = a.toInt.sign := by
  by_cases hzero : a % b = 0
  · exact .inl hzero
  · have hne : a.toInt.tmod b.toInt ≠ 0 := by
      rw [← Int64.toInt_mod]
      exact toInt_ne_zero hzero
    refine .inr ?_
    rw [Int64.toInt_mod, Int.sign_tmod, if_neg]
    exact fun h => hne (Int.tmod_eq_zero_of_dvd h)

theorem dividesAs_div_mod (hb : b ≠ 0) : DividesAs a b (a / b) (a % b) := by
  constructor
  case identity => exact div_mul_add_mod a b
  case smaller => exact natAbs_mod_lt hb
  case sign => exact sign_mod a b
  case truncated =>
    intro hfits
    by_cases ha : a = Int64.minValue
    · exact Int64.toInt_div_of_ne_right _ _ fun h => hfits ⟨ha, h⟩
    · exact Int64.toInt_div_of_ne_left _ _ ha
  case wraps =>
    intro ha hb
    rw [ha, hb]
    exact ⟨rfl, rfl⟩

/-! ### Operands -/

namespace OperandStack

variable {s : OperandStack} {lower upper result : Int64} {rest : List Cell}

theorem push_of_room {c : Cell} (h : s.HasRoom 1) : push c s = .ok () (s.under c) := by
  have hlt : s.depth + 1 ≤ s.limit := h
  rw [push_eq, if_neg (by omega)]

theorem under_under_of_items {c d : Cell} (h : s.cells.items = d :: c :: rest) :
    s = ((s.below 2).under c).under d := by
  obtain ⟨cells, limit⟩ := s
  have hcells : cells = ((Stack.ofList (cells.items.drop 2)).push c).push d := by
    refine Stack.ext ?_
    rw [Stack.items_push, Stack.items_push, Stack.items_ofList]
    have hitems : cells.items = d :: c :: rest := h
    rw [hitems]
    rfl
  exact congrArg (OperandStack.mk · limit) hcells

theorem popInt_under (n : Int64) : popInt (s.under (.int n)) = .ok n s := rfl

theorem intOp_of_ok {o : IntOp} (hroom : s.HasRoom 1) (h : o.apply lower upper = .ok result) :
    intOp o ((s.under (.int lower)).under (.int upper)) = .ok () (s.under (.int result)) := by
  simp only [intOp, Bind.bind, EStateM.bind, popInt_under, h, push_of_room hroom]

theorem intOp_of_error {o : IntOp} {cause : Cause} (h : o.apply lower upper = .error cause) :
    intOp o ((s.under (.int lower)).under (.int upper)) = .error cause s := by
  simp only [intOp, Bind.bind, EStateM.bind, popInt_under, h]
  rfl

theorem HasRoom.under {count : Nat} (h : s.HasRoom (count + 1)) (c : Cell) :
    (s.under c).HasRoom count := by
  have hle : s.depth + (count + 1) ≤ s.limit := h
  show s.depth + 1 + count ≤ s.limit
  omega

theorem hasRoom_below (hroom : s.HasRoom 0) {c d : Cell} (h : s.cells.items = d :: c :: rest) :
    (s.below 2).HasRoom 2 := by
  have hdepth : s.depth = (d :: c :: rest).length := by rw [← h, ← s.cells.depth_eq]; rfl
  have hle : s.depth + 0 ≤ s.limit := hroom
  show (s.below 2).depth + 2 ≤ s.limit
  rw [depth_below]
  simp only [List.length_cons] at hdepth
  omega

end OperandStack

namespace Machine

variable {p : Program} {lower upper result : Int64}

/-- The instruction of an integer operation replaces its operands by a number, wherever it stands and
whatever is beneath them. -/
def Leaves (p : Program) (o : IntOp) (lower upper result : Int64) : Prop :=
  ∀ {f : Function} {cursor : Nat} {m : Machine} {rest : List Cell},
    f.code.instructionAt cursor = .ok ⟨.intOp o, ()⟩ → m.stack.HasRoom 0 →
    m.stack.cells.items = .int upper :: .int lower :: rest →
    ∃ n, execute p f cursor m = .ok (.next (cursor + 1)) n ∧
      Untouched { m with stack := (m.stack.below 2).under (.int result) } n

/-- The instruction of an integer operation is refused. -/
def Raises (p : Program) (o : IntOp) (lower upper : Int64) (kind : FaultKind) : Prop :=
  ∀ {f : Function} {cursor : Nat} {m : Machine} {rest : List Cell},
    f.code.instructionAt cursor = .ok ⟨.intOp o, ()⟩ →
    m.stack.cells.items = .int upper :: .int lower :: rest →
    ∃ cause n, execute p f cursor m = .error cause n ∧ cause.kind = kind

theorem leaves_of_ok {o : IntOp} (h : o.apply lower upper = .ok result) :
    Leaves p o lower upper result := by
  intro f cursor m rest hi hroom hitems
  have hbelow : (m.stack.below 2).HasRoom 1 :=
    (OperandStack.hasRoom_below hroom hitems).weaken (by omega)
  have hx : OperandStack.intOp o m.stack = .ok () ((m.stack.below 2).under (.int result)) := by
    rw [OperandStack.under_under_of_items hitems]
    exact OperandStack.intOp_of_ok hbelow h
  exact execute_of_operands hi rfl hx

theorem raises_of_error {o : IntOp} {cause : Cause} (h : o.apply lower upper = .error cause) :
    Raises p o lower upper cause.kind := by
  intro f cursor m rest hi hitems
  have hx : OperandStack.intOp o m.stack = .error cause (m.stack.below 2) := by
    rw [OperandStack.under_under_of_items hitems]
    exact OperandStack.intOp_of_error h
  obtain ⟨n, hn, -⟩ := execute_of_operands_refused hi rfl hx
  exact ⟨cause, n, hn, rfl⟩

/-! ### Code that divides and takes it back -/

/-- Computes quotient times divisor plus remainder. -/
def recomposition (a b : Int64) : List Instruction :=
  [⟨.literal .int, a⟩, ⟨.literal .int, b⟩, ⟨.intOp .div, ()⟩, ⟨.literal .int, b⟩, ⟨.intOp .mul, ()⟩,
    ⟨.literal .int, a⟩, ⟨.literal .int, b⟩, ⟨.intOp .mod, ()⟩, ⟨.intOp .add, ()⟩]

theorem computes_recomposition (hb : b ≠ 0) {s : OperandStack} (hroom : s.HasRoom 3) :
    Computes (recomposition a b) s (s.under (.int a)) := by
  have hdiv : IntOp.div.apply a b = .ok (a / b) := if_neg hb
  have hmod : IntOp.mod.apply a b = .ok (a % b) := if_neg hb
  have hadd : IntOp.add.apply (a / b * b) (a % b) = .ok a := congrArg Except.ok (div_mul_add_mod a b)
  have hroom₁ {c : Cell} : (s.under c).HasRoom 2 := hroom.under c
  have hroom₂ {c d : Cell} : ((s.under c).under d).HasRoom 1 := hroom₁.under d
  have one : s.HasRoom 1 := hroom.weaken (by omega)
  have hpush {n : Int64} : OperandStack.push (.int n) s = .ok () (s.under (.int n)) :=
    OperandStack.push_of_room one
  have hpush₁ {c : Cell} {n : Int64} :
      OperandStack.push (.int n) (s.under c) = .ok () ((s.under c).under (.int n)) :=
    OperandStack.push_of_room (hroom₁.weaken (by omega))
  have hpush₂ {c d : Cell} {n : Int64} : OperandStack.push (.int n) ((s.under c).under d) =
      .ok () (((s.under c).under d).under (.int n)) := OperandStack.push_of_room hroom₂
  refine .cons rfl hpush (.cons rfl hpush₁ ?_)
  refine .cons rfl (OperandStack.intOp_of_ok one hdiv) ?_
  refine .cons rfl hpush₁ (.cons rfl (OperandStack.intOp_of_ok one rfl) ?_)
  -- The product waits beneath the operands of the remainder.
  refine .cons rfl hpush₁ (.cons rfl hpush₂ ?_)
  refine .cons rfl (OperandStack.intOp_of_ok (hroom₁.weaken (by omega)) hmod) ?_
  exact .cons rfl (OperandStack.intOp_of_ok one hadd) (.nil _)

/-- Code that comes to the dividend, wherever it stands, and as the code of a program. -/
structure Recomposes (p : Program) (a b : Int64) : Prop where
  reaches {limits : Limits} {f : Function} {cursor : Nat} {m : Machine}
    (hcode : Stands f.code cursor (recomposition a b)) (hroom : m.stack.HasRoom 3)
    (hbudget : ∀ budget ∈ limits.budget, m.executed + 9 ≤ budget) :
    ∃ n, Reaches p limits (⟨f, cursor⟩, m) (⟨f, cursor + 49⟩, n) ∧
      Untouched { m with stack := m.stack.under (.int a) } n
  comesTo {limits : Limits} {sink : Output} {journal : Journal}
    (hcode : p.entryFunction.code = ⟨(encodedAll (recomposition a b)).toArray⟩)
    (hroom : 3 ≤ limits.maxStack) (hbudget : ∀ budget ∈ limits.budget, 9 ≤ budget) :
    ∃ o, ComesTo p limits [] (fresh limits sink journal) o ∧ o.ending = .value (some (.int a))

theorem length_encodedAll_recomposition (a b : Int64) :
    (encodedAll (recomposition a b)).length = 49 := by
  simp only [encodedAll, recomposition, List.length_flatMap, List.map_cons, List.map_nil,
    Instruction.length_encoded]
  rfl

theorem recomposes_of_ne (p : Program) (a : Int64) (hb : b ≠ 0) : Recomposes p a b := by
  constructor
  case reaches =>
    intro limits f cursor m hcode hroom hbudget
    obtain ⟨n, hn, hsame, -⟩ :=
      reaches_of_computes (p := p) (computes_recomposition hb hroom) rfl hcode hbudget
    rw [length_encodedAll_recomposition] at hn
    exact ⟨n, hn, hsame⟩
  case comesTo =>
    intro limits sink journal hcode hroom hbudget
    have hempty : (OperandStack.empty limits.maxStack).HasRoom 3 := by
      show 0 + 3 ≤ limits.maxStack
      omega
    exact comesTo_of_computes (computes_recomposition hb hempty) hcode hbudget

/-- Dividing is refused for zero and for no other divisor, not even where the quotient wraps around. -/
theorem division_laws (p : Program) (a b : Int64) :
    (b ≠ 0 → ∃ q r, DividesAs a b q r ∧ Leaves p .div a b q ∧ Leaves p .mod a b r ∧
      Recomposes p a b) ∧
    (b = 0 → Raises p .div a b .arithmetic ∧ Raises p .mod a b .arithmetic) := by
  constructor
  · intro hb
    have hdiv : IntOp.div.apply a b = .ok (a / b) := if_neg hb
    have hmod : IntOp.mod.apply a b = .ok (a % b) := if_neg hb
    exact ⟨a / b, a % b, dividesAs_div_mod hb, leaves_of_ok hdiv, leaves_of_ok hmod,
      recomposes_of_ne p a hb⟩
  · intro hb
    have hdiv : IntOp.div.apply a b = .error .divisionByZero := if_pos hb
    have hmod : IntOp.mod.apply a b = .error .moduloByZero := if_pos hb
    exact ⟨raises_of_error hdiv, raises_of_error hmod⟩

/-- The quotient that does not fit. -/
theorem division_laws_minByMinusOne :
    let p : Program := .single 0 ⟨(encodedAll (recomposition Int64.minValue (-1))).toArray⟩
    DividesAs Int64.minValue (-1) Int64.minValue 0 ∧
      ∃ o, ComesTo p {} [] (fresh {} {} {}) o ∧ o.ending = .value (some (.int Int64.minValue)) := by
  intro p
  obtain ⟨q, r, hdivides, -, -, hcode⟩ := (division_laws p Int64.minValue (-1)).1 (by decide)
  obtain ⟨rfl, rfl⟩ := hdivides.wraps rfl rfl
  exact ⟨hdivides, hcode.comesTo rfl (by decide) fun _ h => by cases h⟩

end Machine

end CellMachine
