import CellMachine.Proofs.Machine.Blame
import CellMachine.Proofs.Machine.Cursor
import CellMachine.Proofs.Native.Call

/-!
# Failures that leave no trace

Instructions that compare take their operands and put them back, and some are refused only after that.
Main statement: an instruction that cannot be decoded, finds no room, is denied by the budget or by the
host, or names what there is not, leaves the machine as it found it, unless it writes a variable.
-/

namespace CellMachine

/-! ### Operands that are put back -/

namespace OperandStack

variable {α : Type} {value? : Cell → Option α} {wrap : α → Cell} {s : OperandStack}

/-- Takes two operands of one type and pushes them again. -/
def putBack (tag : TypeTag) (value? : Cell → Option α) (wrap : α → Cell) : Op (α × α) := do
  let upper ← popAs tag value?
  let lower ← popAs tag value?
  push (wrap lower)
  push (wrap upper)
  return (lower, upper)

theorem peekInts_eq : peekInts = putBack .int Cell.int? .int := rfl

theorem peekDoubles_eq : peekDoubles = putBack .double Cell.double? .double := rfl

theorem popAs_cases (tag : TypeTag) (value? : Cell → Option α) (s : OperandStack) :
    (∃ c rest a, s.cells.items = c :: rest ∧ value? c = some a ∧
      popAs tag value? s = .ok a (s.below 1)) ∨
    (∀ c rest, s.cells.items = c :: rest → value? c = none) ∧
      ∃ cause, popAs tag value? s = .error cause s ∧ cause.kind = .stackDiscipline := by
  unfold popAs
  cases hp : s.cells.pop? with
  | none =>
    refine .inr ⟨fun c rest h => ?_, _, rfl, rfl⟩
    cases (Stack.pop?_eq_none_iff.1 hp).symm.trans h
  | some r =>
    obtain ⟨c, rest⟩ := r
    have hitems := Stack.pop?_eq_some_iff.1 hp
    dsimp only
    cases hv : value? c with
    | none =>
      refine .inr ⟨fun c' rest' h => ?_, _, rfl, rfl⟩
      cases hitems.symm.trans h
      exact hv
    | some a =>
      have hrest : rest = .ofList (s.cells.items.drop 1) := Stack.ext (by rw [hitems]; rfl)
      exact .inl ⟨c, rest.items, a, hitems, hv, by rw [hrest]; rfl⟩

/-- A cell that was taken can be pushed again. -/
theorem push_below (hroom : s.HasRoom 0) {count : Nat} {c : Cell} {rest : List Cell}
    (h : (s.below count).cells.items = c :: rest) :
    push c (s.below (count + 1)) = .ok () (s.below count) := by
  rw [items_below] at h
  have hrest : s.cells.items.drop (count + 1) = rest := by rw [← List.tail_drop, h, List.tail_cons]
  have hlt : count < s.depth := by
    have hlength := congrArg List.length h
    rw [List.length_drop, ← s.cells.depth_eq, List.length_cons] at hlength
    show count < s.cells.depth
    omega
  have hfits : ¬ (s.below (count + 1)).limit ≤ (s.below (count + 1)).depth := by
    rw [limit_below, depth_below]
    have hle : s.depth + 0 ≤ s.limit := hroom
    omega
  have hcells : (s.below (count + 1)).cells.push c = (s.below count).cells := by
    refine Stack.ext ?_
    rw [Stack.items_push, items_below, items_below, hrest, h]
  rw [push_eq, if_neg hfits, under, hcells]
  rfl

/-- Operands that are put back are where they were. What is not there is all that can be wrong. -/
theorem putBack_cases (tag : TypeTag) (hwrap : ∀ c a, value? c = some a ↔ c = wrap a)
    (hroom : s.HasRoom 0) :
    (∃ upper lower rest, s.cells.items = wrap upper :: wrap lower :: rest ∧
      putBack tag value? wrap s = .ok (lower, upper) s) ∨
    (∀ upper lower rest, s.cells.items ≠ wrap upper :: wrap lower :: rest) ∧
      ∃ cause t, putBack tag value? wrap s = .error cause t ∧ cause.kind = .stackDiscipline := by
  have hnone {c : Cell} (h : value? c = none) (a : α) : c ≠ wrap a := by
    rintro rfl
    cases h.symm.trans ((hwrap _ a).2 rfl)
  rcases popAs_cases tag value? s with ⟨c, below, upper, hitems, hc, hpop⟩ | ⟨hno, cause, hpop, hkind⟩
  · have hbelow : (s.below 1).cells.items = below := by
      rw [items_below, hitems]
      rfl
    rcases popAs_cases tag value? (s.below 1) with
      ⟨d, rest, lower, hitems', hd, hpop'⟩ | ⟨hno, cause, hpop', hkind⟩
    · obtain rfl := (hwrap c upper).1 hc
      obtain rfl := (hwrap d lower).1 hd
      have hlower := push_below hroom hitems'
      have hupper : push (wrap upper) (s.below 1) = .ok () (s.below 0) := push_below hroom hitems
      rw [below_zero] at hupper
      refine .inl ⟨upper, lower, rest, by rw [hitems, ← hbelow, hitems'], ?_⟩
      simp only [putBack, Bind.bind, EStateM.bind, hpop, hpop', below_below, hlower, hupper]
      rfl
    · refine .inr ⟨fun upper' lower rest h => ?_, cause, s.below 1, ?_, hkind⟩
      · have hbelow' : below = wrap lower :: rest := (List.cons.inj (hitems.symm.trans h)).2
        exact hnone (hno _ _ (hbelow.trans hbelow')) lower rfl
      · simp only [putBack, Bind.bind, EStateM.bind, hpop, hpop']
  · refine .inr ⟨fun upper lower rest h => hnone (hno _ _ h) upper rfl, cause, s, ?_, hkind⟩
    simp only [putBack, Bind.bind, EStateM.bind, hpop]

theorem putBack_of_operands (tag : TypeTag) (hwrap : ∀ c a, value? c = some a ↔ c = wrap a)
    (hroom : s.HasRoom 0) {upper lower : α} {rest : List Cell}
    (h : s.cells.items = wrap upper :: wrap lower :: rest) :
    putBack tag value? wrap s = .ok (lower, upper) s := by
  have hinj : ∀ {a b : α}, wrap a = wrap b → a = b := by
    intro a b hab
    have ha : value? (wrap b) = some a := (hwrap _ a).2 hab.symm
    exact Option.some.inj (ha.symm.trans ((hwrap _ b).2 rfl))
  rcases putBack_cases tag hwrap hroom with ⟨upper', lower', rest', h', hx⟩ | ⟨hno, -⟩
  · obtain ⟨hupper, hbelow⟩ := List.cons.inj (h.symm.trans h')
    obtain ⟨hlower, -⟩ := List.cons.inj hbelow
    rw [hinj hupper, hinj hlower]
    exact hx
  · exact (hno _ _ _ h).elim

theorem int?_eq_some_iff (c : Cell) (n : Int64) : c.int? = some n ↔ c = .int n := by
  cases c <;> simp [Cell.int?]

theorem double?_eq_some_iff (c : Cell) (d : Float) : c.double? = some d ↔ c = .double d := by
  cases c <;> simp [Cell.double?]

/-- The result of a comparison needs room of its own. -/
theorem compare_of_full {n : Numeric} {upper lower : Cell} {rest : List Cell}
    (h : s.cells.items = upper :: lower :: rest) (hupper : upper.type = n.type)
    (hlower : lower.type = n.type) (hfull : s.depth = s.limit) :
    compare n s = .error (.stackLimit s.limit) s := by
  have hroom : s.HasRoom 0 := Nat.le_of_eq hfull
  have hpush (c : Cell) : push c s = .error (.stackLimit s.limit) s := by
    rw [push_eq, if_pos (Nat.le_of_eq hfull.symm)]
  cases n with
  | int =>
    cases upper <;> cases hupper
    cases lower <;> cases hlower
    have hx := putBack_of_operands .int int?_eq_some_iff hroom h
    rw [compare, peekInts_eq]
    simp only [Bind.bind, EStateM.bind, hx, hpush]
  | double =>
    cases upper <;> cases hupper
    cases lower <;> cases hlower
    have hx := putBack_of_operands .double double?_eq_some_iff hroom h
    rw [compare, peekDoubles_eq]
    simp only [Bind.bind, EStateM.bind, hx, hpush]

end OperandStack

/-- Whether an action writes a variable. -/
def Action.writes : Action → Bool
  | .store .. => true
  | _ => false

theorem Instruction.writes_action (i : Instruction) : i.action.writes = i.opcode.storesVariable := by
  obtain ⟨op, operand⟩ := i
  cases op with
  | literal t => cases t <;> rfl
  | one n | minusOne n => cases n <;> rfl
  | _ => rfl

namespace Machine

/-- Nothing that a run works with is different: not an operand, a variable, a pending call or a byte of
the output. -/
structure Untouched (m n : Machine) : Prop where
  stack : n.stack = m.stack
  frames : n.frames = m.frames
  continuations : n.continuations = m.continuations
  sink : n.sink = m.sink

/-- The kinds of failure after which something may be gone. Where a variable is written, the cell for it
is taken before the variable is looked for. -/
def MayTrace (writes : Bool) (kind : FaultKind) : Prop :=
  kind ∈ [.stackDiscipline, .arithmetic, .output, .nativeSignature] ∨ kind = .bounds ∧ writes

/-- A refusal that leaves the machine as it was before, if its kind does not excuse it. -/
def Restores (before : Machine) (writes : Bool) (cause : Cause) (n : Machine) : Prop :=
  MayTrace writes cause.kind ∨ Untouched before n

variable {p : Program} {limits : Limits} {before m n : Machine}

theorem Untouched.refl (m : Machine) : Untouched m m := ⟨rfl, rfl, rfl, rfl⟩

theorem Untouched.note (h : Untouched before m) (e : Event) : Untouched before (m.note e) :=
  ⟨h.stack, h.frames, h.continuations, h.sink⟩

/-! ### Parts of instructions -/

section Parts

variable {α : Type} {writes : Bool}

theorem lookup_yields (found : Except Cause α) :
    Yields (Untouched before) (lookup found) (fun _ => Untouched before) (Restores before writes) := by
  intro m hm
  cases found with
  | ok a => exact hm
  | error cause => exact .inr hm

theorem load_yields (scope : Scope) (t : ValueType) (slot : UInt16) :
    Yields (Untouched before) (load scope t slot) (fun _ => Untouched before)
      (Restores before writes) := by
  intro m hm
  unfold load
  cases m.frames.load scope t slot with
  | ok c => exact hm
  | error cause => exact .inr hm

theorem noted_yields (e : Machine → Event) :
    Yields (Untouched before) (noted e) (fun _ => Untouched before) (Restores before writes) :=
  fun m hm => hm.note (e m)

/-- A push is the last change of an action. It is refused on the stack as it is. -/
theorem push_yields (c : Cell) :
    Yields (Untouched before) (onStack (OperandStack.push c)) (fun _ _ => True)
      (Restores before writes) := by
  intro m hm
  obtain ⟨stack, frames, continuations, executed, sink, journal⟩ := m
  simp only [onStack, OperandStack.push_eq]
  by_cases hfull : stack.limit ≤ stack.depth
  · rw [if_pos hfull]
    exact .inr hm
  · rw [if_neg hfull]
    trivial

theorem putBack_yields (hroom : before.stack.HasRoom 0) {tag : TypeTag} {value? : Cell → Option α}
    {wrap : α → Cell} (hwrap : ∀ c a, value? c = some a ↔ c = wrap a) :
    Yields (Untouched before) (onStack (OperandStack.putBack tag value? wrap))
      (fun _ => Untouched before) (Restores before writes) := by
  intro m hm
  rw [← hm.stack] at hroom
  obtain ⟨stack, frames, continuations, executed, sink, journal⟩ := m
  simp only [onStack]
  rcases OperandStack.putBack_cases tag hwrap hroom with
    ⟨upper, lower, rest, -, hx⟩ | ⟨-, cause, t, hx, hkind⟩
  · rw [hx]
    exact hm
  · rw [hx]
    exact .inl (.inl (by simp [hkind]))

theorem peekInts_yields (hroom : before.stack.HasRoom 0) :
    Yields (Untouched before) (onStack OperandStack.peekInts) (fun _ => Untouched before)
      (Restores before writes) := by
  rw [OperandStack.peekInts_eq]
  exact putBack_yields hroom OperandStack.int?_eq_some_iff

theorem peekDoubles_yields (hroom : before.stack.HasRoom 0) :
    Yields (Untouched before) (onStack OperandStack.peekDoubles) (fun _ => Untouched before)
      (Restores before writes) := by
  rw [OperandStack.peekDoubles_eq]
  exact putBack_yields hroom OperandStack.double?_eq_some_iff

theorem compare_yields (hroom : before.stack.HasRoom 0) (n : Numeric) :
    Yields (Untouched before) (onStack (OperandStack.compare n)) (fun _ _ => True)
      (Restores before writes) := by
  cases n with
  | int =>
    rw [OperandStack.compare, onStack_bind]
    exact (peekInts_yields hroom).bind fun _ => push_yields _
  | double =>
    rw [OperandStack.compare, onStack_bind]
    exact (peekDoubles_yields hroom).bind fun _ => push_yields _

/-- A call is one of the native at this moment, with a record of it. -/
theorem callNative_eq {id : UInt16} {native : Native} (h : p.native id = .ok native) (m : Machine) :
    ∃ journal, callNative p id m = onStack (native.atMoment m.executed).call { m with journal } := by
  obtain ⟨stack, frames, continuations, executed, sink, journal⟩ := m
  simp only [callNative, lookup, h, Bind.bind, EStateM.bind, onStack, noted, moment,
    Native.call_atMoment]
  cases native.prepare stack with
  | error cause t => exact ⟨journal, rfl⟩
  | ok x t => exact ⟨journal.record (.nativeCall native.name), rfl⟩

theorem callNative_yields (hroom : before.stack.HasRoom 0) (id : UInt16) :
    Yields (Untouched before) (callNative p id) (fun _ _ => True) (Restores before writes) := by
  cases hn : p.native id with
  | error cause =>
    intro m hm
    simp only [callNative, Bind.bind, EStateM.bind, lookup, hn]
    exact .inr hm
  | ok native =>
    intro m hm
    obtain ⟨journal, hcall⟩ := callNative_eq hn m
    rw [hcall]
    obtain ⟨stack, frames, continuations, executed, sink, _⟩ := m
    have hroom : stack.HasRoom 0 := by
      rw [show stack = before.stack from hm.stack]
      exact hroom
    have hcalls := Native.callsTo_call (native.atMoment executed) hroom
    simp only [onStack]
    generalize (native.atMoment executed).call stack = r at hcalls ⊢
    -- of the four refusals only that of marshalling takes operands
    cases hcalls with
    | unavailable | invalid | noRoom => exact .inr ⟨hm.stack, hm.frames, hm.continuations, hm.sink⟩
    | refused _ _ hmarshal =>
      refine .inl (.inl ?_)
      have hkind := (Native.collect_refused _ _ _).of_error hmarshal
      rcases List.mem_cons.1 hkind with hk | hk
      · simp [hk]
      · simp [List.mem_singleton.1 hk]
    | answered | silent => trivial

end Parts

/-! ### One instruction -/

/-- A refusal that cannot be for lack of room is excused, unless the action leads out of the code. -/
theorem perform_excused {site : Site} {action : Action} (hroom : before.stack.HasRoom 0)
    (hadds : addsCell action = false) (hfails : action ≠ .fail)
    (hjumps : ∀ offset, ¬ (action = .jump offset ∨ ∃ c, action = .jumpIf c offset))
    (hkinds : ∀ kind ∈ refusals action, kind = .stackOverflow ∨ MayTrace action.writes kind) :
    Yields (Untouched before) (perform p site action) (fun _ _ => True)
      (Restores before action.writes) := by
  intro m hm
  have hroom : m.stack.HasRoom 0 := by
    rw [hm.stack]
    exact hroom
  cases hr : perform p site action m with
  | ok flow n => trivial
  | error cause n =>
    have hne := (perform_within p site hadds).of_error hroom hr
    rcases (perform_outcomes p site action).of_error hr with ⟨hfail, -⟩ | ⟨offset, hjump, -⟩ | hmem
    · exact (hfails hfail).elim
    · exact (hjumps offset hjump).elim
    · rcases hkinds _ hmem with hk | hk
      · exact (hne hk).elim
      · exact .inl hk

theorem perform_yields (site : Site) (hroom : before.stack.HasRoom 0) (action : Action) :
    Yields (Untouched before) (perform p site action) (fun _ _ => True)
      (Restores before action.writes) := by
  cases action with
  | fail => exact .throw fun _ hm => .inr hm
  | push c => exact (push_yields c).bind fun _ => .pure fun _ h => h
  | pushConstant id =>
    exact (lookup_yields _).bind fun t => (push_yields _).bind fun _ => .pure fun _ h => h
  | load scope t slot =>
    exact (load_yields scope t slot).bind fun c => (push_yields c).bind fun _ => .pure fun _ h => h
  | compare n => exact (compare_yields hroom n).bind fun _ => .pure fun _ h => h
  | jump offset => exact (lookup_yields _).bind fun _ => .pure fun _ _ => trivial
  | jumpIf c offset =>
    refine (peekInts_yields hroom).bind fun operands => ?_
    obtain ⟨lower, upper⟩ := operands
    dsimp only
    split
    · exact (lookup_yields _).bind fun _ => .pure fun _ _ => trivial
    · exact .pure fun _ _ => trivial
  | callNative id => exact (callNative_yields hroom id).bind fun _ => .pure fun _ h => h
  | dump | breakpoint => exact (noted_yields _).bind fun _ => .pure fun _ _ => trivial
  | stop | call id | ret => exact .pure fun _ _ => trivial
  -- these do not put back what they take, and make room for what they push
  | doubleOp _ | intOp _ | negate _ | print _ | convert _ | swap | pop | store _ _ _ =>
    exact perform_excused hroom rfl (by simp) (by simp) (by simp [refusals, MayTrace, Action.writes])

/-- What cannot be read changes nothing but the record of what was tried. -/
theorem execute_of_unreadable {f : Function} {cursor : Nat} {cause : Cause}
    (h : f.code.instructionAt cursor = .error cause) (m : Machine) :
    ∃ journal, execute p f cursor m = .error cause { m with journal } := by
  unfold Code.instructionAt at h
  cases hop : f.code.opcodeAt cursor with
  | error cause' =>
    simp only [hop] at h
    cases h
    refine ⟨m.journal, ?_⟩
    simp only [execute_by_layout, Bind.bind, EStateM.bind, lookup, hop]
  | ok op =>
    cases hoperand : f.code.operandAt (cursor + 1) op.layout with
    | ok operand => simp [hop, hoperand] at h
    | error cause' =>
      simp only [hop, hoperand] at h
      cases h
      refine ⟨(m.note (.dispatch f.id cursor op m.stack.depth)).journal, ?_⟩
      simp only [execute_by_layout, Bind.bind, EStateM.bind, lookup, noted, hop, hoperand]
      rfl

/-- The failures that leave no trace, of whatever stands at a cursor. -/
def Traceless (f : Function) (cursor : Nat) (kind : FaultKind) : Prop :=
  kind ∈ [.decode, .stackOverflow, .unsupportedNative, .instructionBudget] ∨
    kind = .bounds ∧ ∀ op, f.code.opcode? cursor = some op → op.storesVariable = false

variable {f : Function} {cursor : Nat} {i : Instruction}

theorem Traceless.not_mayTrace {kind : FaultKind} (h : Traceless f cursor kind)
    (hi : f.code.instructionAt cursor = .ok i) : ¬ MayTrace i.action.writes kind := by
  have hop : f.code.opcode? cursor = some i.opcode := Code.opcode?_of_instructionAt hi
  rw [i.writes_action]
  rcases h with hmem | ⟨rfl, hstores⟩
  · rintro (hmem' | ⟨rfl, -⟩)
    · cases kind <;> simp at hmem hmem'
    · simp at hmem
  · rw [hstores _ hop]
    simp [MayTrace]

theorem untouched_of_execute_error {cause : Cause} (hroom : m.stack.HasRoom 0)
    (h : execute p f cursor { m with executed := m.executed + 1 } = .error cause n)
    (hkind : Traceless f cursor cause.kind) : Untouched m n := by
  cases hi : f.code.instructionAt cursor with
  | error cause' =>
    obtain ⟨journal, hx⟩ := execute_of_unreadable (p := p) hi { m with executed := m.executed + 1 }
    cases hx.symm.trans h
    exact ⟨rfl, rfl, rfl, rfl⟩
  | ok i =>
    rw [execute_of_instructionAt hi] at h
    have hm (e : Event) : Untouched m (note { m with executed := m.executed + 1 } e) :=
      ⟨rfl, rfl, rfl, rfl⟩
    rcases (perform_yields (siteOf f cursor i) hroom i.action).of_error (hm _) h with hmay | huntouched
    · exact (hkind.not_mayTrace hi hmay).elim
    · exact huntouched

/-- A call does nothing before it is known whether it can begin. -/
theorem untouched_of_execute_call {callee : UInt16} {back : Nat}
    (h : execute p f cursor { m with executed := m.executed + 1 } = .ok (.call callee back) n) :
    Untouched m n := by
  rw [execute_of_instructionAt (call_of_execute h).1] at h
  cases h
  exact ⟨rfl, rfl, rfl, rfl⟩

/-! ### The law -/

/-- Failures that come after an instruction has done some of its work, or after all of it. -/
inductive FailsLate (p : Program) (limits : Limits) (site : Site) (m : Machine) :
    Action → FaultKind → Prop
  | comparing {t : Numeric} {upper lower : Cell} {rest : List Cell}
    (operands : m.stack.cells.items = upper :: lower :: rest) (hupper : upper.type = t.type)
    (hlower : lower.type = t.type) (full : m.stack.depth = m.stack.limit) :
    FailsLate p limits site m (.compare t) .stackOverflow
  | jumping {c : Comparison} {distance : Int16}
    (taken : (Action.jumpIf c distance).taken? m.stack = some distance)
    (outside : (site.next : Int) + distance.toInt < 0 ∨
      (site.function.code.size : Int) < site.next + distance.toInt) :
    FailsLate p limits site m (.jumpIf c distance) .decode
  | calling {callee : UInt16} {g : Function} (defined : p.function callee = .ok g)
    (deep : limits.maxCalls ≤ m.continuations.depth) :
    FailsLate p limits site m (.call callee) .stackOverflow
  | answering {id : UInt16} {native : Native} (declared : p.native id = .ok native)
    (hcode : native.code ≠ none)
    (result : native.signature.result = .int ∨ native.signature.result = .double ∨
      native.signature.result = .string)
    (params : native.signature.params = []) (full : m.stack.depth = m.stack.limit) :
    FailsLate p limits site m (.callNative id) .stackOverflow

/-- What holds of failures at a cursor of a run. -/
structure FailureLaw (p : Program) (limits : Limits) (f : Function) (cursor : Nat) (m : Machine) :
    Prop where
  untouched {fault : Fault} {n : Machine}
    (h : m.advance p limits ⟨f, cursor⟩ = .ended (some fault) n)
    (hkind : Traceless f cursor fault.kind) : Untouched m n
  late {i : Instruction} {kind : FaultKind} (hi : f.code.instructionAt cursor = .ok i)
    (unspent : m.spent? limits = none) (h : FailsLate p limits (siteOf f cursor i) m i.action kind) :
    ∃ fault n, m.advance p limits ⟨f, cursor⟩ = .ended (some fault) n ∧ fault.kind = kind ∧
      Untouched m n

theorem untouched_of_advance {args : List Cell} {sink : Output} {journal : Journal} {fault : Fault}
    (hv : Visits p limits args (fresh limits sink journal) (⟨f, cursor⟩, m))
    (h : m.advance p limits ⟨f, cursor⟩ = .ended (some fault) n)
    (hkind : Traceless f cursor fault.kind) : Untouched m n := by
  have hroom : m.stack.HasRoom 0 := hasRoom_of_visits (hasRoom_fresh _ _ _) hv
  have hinside : cursor < f.code.size := (blamed_of_ended hv h).inside
  cases advance_of_eq h with
  | noFrame atEnd hl => exact (Nat.not_lt.2 atEnd hinside).elim
  | callerLost atEnd hl hk hf => exact (Nat.not_lt.2 atEnd hinside).elim
  | spent inside hs => exact .refl m
  | refused inside hs he => exact untouched_of_execute_error hroom he hkind
  | undefined inside hs he hf => exact untouched_of_execute_call he
  | tooDeep inside hs he hf hd => exact untouched_of_execute_call he

theorem advance_of_execute_error {cause : Cause} (hi : f.code.instructionAt cursor = .ok i)
    (unspent : m.spent? limits = none)
    (h : execute p f cursor { m with executed := m.executed + 1 } = .error cause n) :
    m.advance p limits ⟨f, cursor⟩ = .ended (some (Fault.located cause f.id cursor)) n := by
  have hinside : ¬ f.code.size ≤ cursor := by
    have hend := Code.end_le_of_instructionAt hi
    omega
  simp only [advance, if_neg hinside, unspent, dispatch, h]

theorem FailsLate.kind_mem {site : Site} {action : Action} {kind : FaultKind}
    (h : FailsLate p limits site m action kind) :
    kind ∈ [.decode, .stackOverflow, .unsupportedNative, .instructionBudget] := by
  cases h <;> simp

theorem advance_of_failsLate {kind : FaultKind} (hroom : m.stack.HasRoom 0)
    (hi : f.code.instructionAt cursor = .ok i) (unspent : m.spent? limits = none)
    (h : FailsLate p limits (siteOf f cursor i) m i.action kind) :
    ∃ fault n, m.advance p limits ⟨f, cursor⟩ = .ended (some fault) n ∧ fault.kind = kind := by
  let counted : Machine := { m with executed := m.executed + 1 }
  let noted : Machine := counted.note (.dispatch f.id cursor i.opcode m.stack.depth)
  have hexecute : execute p f cursor counted = perform p (siteOf f cursor i) i.action noted :=
    execute_of_instructionAt hi counted
  have of_error {cause : Cause} (h : ∃ n, execute p f cursor counted = .error cause n)
      (hkind : cause.kind = kind) :
      ∃ fault n, m.advance p limits ⟨f, cursor⟩ = .ended (some fault) n ∧ fault.kind = kind := by
    obtain ⟨n, hn⟩ := h
    exact ⟨_, n, advance_of_execute_error hi unspent hn, hkind⟩
  generalize ha : i.action = action at h hexecute
  cases h with
  | comparing operands hupper hlower full =>
    have hfull : OperandStack.compare _ m.stack = .error (.stackLimit m.stack.limit) m.stack :=
      OperandStack.compare_of_full operands hupper hlower full
    have hx := hexecute.trans (bind_of_error (onStack_of_error (m := noted) hfull) _)
    exact of_error ⟨_, hx⟩ rfl
  | jumping taken outside =>
    have hthree : (siteOf f cursor i).next = cursor + 3 := by
      rw [siteOf, Instruction.length_of_jump (.inr ⟨_, ha⟩)]
    rw [hthree] at outside
    rw [← ha] at taken
    obtain ⟨cause, n, hn, hkind⟩ : FailsDecoding (execute p f cursor) counted :=
      failsDecoding_of_outside hroom hi taken outside
    exact of_error ⟨n, hn⟩ hkind
  | calling defined deep =>
    have hinside : ¬ f.code.size ≤ cursor := by
      have hend := Code.end_le_of_instructionAt hi
      omega
    refine ⟨Fault.located (.callDepth limits.maxCalls) f.id cursor, noted, ?_, rfl⟩
    simp only [advance, if_neg hinside, unspent, dispatch]
    rw [hexecute]
    show beginCall p limits f cursor _ _ noted = _
    simp only [beginCall, defined]
    exact if_pos deep
  | answering declared hcode result params full =>
    obtain ⟨journal, hcall⟩ := callNative_eq declared noted
    have hcode := Native.code_atMoment_ne_none hcode noted.executed
    have hfull := Native.call_of_callsTo hroom (.noRoom hcode result params full)
    have hcall := hcall.trans (onStack_of_error (m := { noted with journal }) hfull)
    have hx := hexecute.trans (bind_of_error hcall _)
    exact of_error ⟨_, hx⟩ rfl

/-- In every state of every run of a fresh machine failures follow the law. -/
theorem failureLaw_of_visits {args : List Cell} {sink : Output} {journal : Journal}
    (hv : Visits p limits args (fresh limits sink journal) (⟨f, cursor⟩, m)) :
    FailureLaw p limits f cursor m where
  untouched h hkind := untouched_of_advance hv h hkind
  late hi unspent h := by
    have hroom : m.stack.HasRoom 0 := hasRoom_of_visits (hasRoom_fresh _ _ _) hv
    obtain ⟨fault, n, hadvance, hkind⟩ := advance_of_failsLate hroom hi unspent h
    have htraceless : Traceless f cursor fault.kind := by
      rw [hkind]
      exact .inl h.kind_mem
    exact ⟨fault, n, hadvance, hkind, untouched_of_advance hv hadvance htraceless⟩

/-- A program that compares two integers and has no room for the result. -/
def comparesWithoutRoom : Program :=
  .single 0 ⟨#[(Opcode.one .int).tag, (Opcode.one .int).tag, (Opcode.compare .int).tag]⟩

theorem failureLaw_of_visits_comparesWithoutRoom : ∃ f m,
    Visits comparesWithoutRoom { maxStack := 2 } [] (fresh { maxStack := 2 } {} {}) (⟨f, 2⟩, m) ∧
    FailureLaw comparesWithoutRoom { maxStack := 2 } f 2 m ∧
    m.stack.cells.items = [.int 1, .int 1] ∧
    ∃ fault n, m.advance comparesWithoutRoom { maxStack := 2 } ⟨f, 2⟩ = .ended (some fault) n ∧
      fault.kind = .stackOverflow ∧ Untouched m n := by
  have hv : Visits comparesWithoutRoom { maxStack := 2 } [] (fresh { maxStack := 2 } {} {})
      (⟨_, 2⟩, _) :=
    ⟨_, rfl, .tail (.single (Turn.of_advance rfl)) (Turn.of_advance rfl)⟩
  have hlaw := failureLaw_of_visits hv
  have hlate := hlaw.late (i := ⟨.compare .int, ()⟩) rfl rfl (.comparing rfl rfl rfl rfl)
  exact ⟨_, _, hv, hlaw, rfl, hlate⟩

end Machine

end CellMachine
