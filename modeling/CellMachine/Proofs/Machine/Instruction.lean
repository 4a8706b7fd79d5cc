import CellMachine.Proofs.Machine.Lockstep
import CellMachine.Proofs.Machine.Refusals

/-!
# What one instruction does

Main statements: `execute_outcomes` says how control can go on after an instruction and for which
causes it can be refused; `execute_skeleton` says what no instruction touches: which frames there
are, the continuations and the count of executed instructions.
-/

namespace CellMachine

/-! ### Refusals of the machine -/

namespace Machine

theorem onStack_outcomes {α : Type} {P : α → Prop} {Q : Cause → Prop} {x : OperandStack.Op α}
    (h : Outcomes P Q x) : Outcomes P Q (onStack x) := by
  intro m _
  obtain ⟨stack, frames, continuations, executed, sink, journal⟩ := m
  have hs := h stack trivial
  simp only [onStack]
  cases hx : x stack with
  | ok a stack =>
    rw [hx] at hs
    exact hs
  | error cause stack =>
    rw [hx] at hs
    exact hs

theorem lookup_outcomes {α : Type} {found : Except Cause α} {P : α → Prop} {Q : Cause → Prop}
    (hP : ∀ a, found = .ok a → P a) (hQ : ∀ cause, found = .error cause → Q cause) :
    Outcomes P Q (lookup found) := by
  intro m _
  cases found with
  | ok a => exact hP a rfl
  | error cause => exact hQ cause rfl

theorem frame_refused {s : FrameStack} {scope : Scope} {cause : Cause}
    (h : s.frame scope = .error cause) : cause.kind = .bounds := by
  unfold FrameStack.frame at h
  split at h
  · cases h
  · cases h
    cases scope <;> rfl

theorem load_refused (scope : Scope) (t : ValueType) (slot : UInt16) :
    RefusedAs [.bounds] (load scope t slot) := by
  intro m _
  unfold load FrameStack.load
  cases hf : m.frames.frame scope with
  | error cause => simp [frame_refused hf]
  | ok f =>
    simp only [Frame.load]
    cases f.slots[slot.toNat]? with
    | none => simp [Frame.outOfRange, Cause.kind]
    | some s => trivial

theorem store_refused (scope : Scope) (slot : UInt16) (c : Cell) :
    RefusedAs [.bounds] (store scope slot c) := by
  intro m _
  unfold store FrameStack.checkSlot
  cases hf : m.frames.frame scope with
  | error cause => simp [frame_refused hf]
  | ok f =>
    by_cases hs : slot.toNat < f.locals
    · simp [hs]
    · simp [hs, Frame.outOfRange, Cause.kind]

theorem print_refused (pieces : List (List UInt8)) : RefusedAs [.output] (print pieces) := by
  intro m _
  obtain ⟨stack, frames, continuations, executed, sink, journal⟩ := m
  simp only [print]
  cases Output.print pieces sink with
  | ok _ sink => trivial
  | error reason sink => simp [Cause.kind]

theorem noted_outcomes {Q : Cause → Prop} (e : Machine → Event) :
    Outcomes (fun _ => True) Q (noted e) := fun _ _ => trivial

theorem moment_outcomes {Q : Cause → Prop} : Outcomes (fun _ => True) Q moment := fun _ _ => trivial

theorem printTop_refused (t : ValueType) : RefusedAs [.stackDiscipline, .output] (printTop t) :=
  .bind (onStack_outcomes ((OperandStack.popAs_refused _ _).widen (by simp))) fun _ _ =>
    (print_refused _).widen (by simp)

theorem native_refused {p : Program} {id : UInt16} {cause : Cause}
    (h : p.native id = .error cause) : cause.kind = .bounds := by
  unfold Program.native at h
  split at h <;> cases h
  rfl

theorem function_refused {p : Program} {id : UInt16} {cause : Cause}
    (h : p.function id = .error cause) : cause.kind = .bounds := by
  unfold Program.function at h
  split at h <;> cases h
  rfl

theorem constant_refused {p : Program} {id : UInt16} {cause : Cause}
    (h : p.constant id = .error cause) : cause.kind = .bounds := by
  unfold Program.constant at h
  split at h <;> cases h
  rfl

theorem callNative_refused (p : Program) (id : UInt16) :
    RefusedAs [.bounds, .unsupportedNative, .nativeSignature, .stackDiscipline, .stackOverflow]
      (callNative p id) := by
  have hn : RefusedAs _ (lookup (p.native id)) :=
    lookup_outcomes (fun _ _ => trivial) fun cause h => List.mem_singleton.2 (native_refused h)
  refine .bind (hn.widen (by simp)) fun native _ => ?_
  exact .bind (onStack_outcomes (native.prepare_refused.widen (by simp))) fun _ _ =>
    .bind (noted_outcomes _) fun _ _ => .bind moment_outcomes fun _ _ =>
      onStack_outcomes ((native.deliver_refused _).widen (by simp))

theorem jumpTarget_refused {code : Code} {start : Nat} {offset : Int16} {cause : Cause}
    (h : jumpTarget code start offset = .error cause) : cause.kind = .decode := by
  unfold jumpTarget at h
  dsimp only at h
  split at h
  · cases h
  · cases h
    rfl

theorem jumpTarget_eq_ok_iff {code : Code} {start target : Nat} {offset : Int16} :
    jumpTarget code start offset = .ok target ↔
      (target : Int) = start + offset.toInt ∧ target ≤ code.size := by
  unfold jumpTarget
  dsimp only
  split
  · rw [Except.ok.injEq]
    omega
  · simp only [reduceCtorEq, false_iff]
    omega

/-! ### Parts whose result is known -/

section KnownResults

variable {α β : Type} {m n : Machine} {a : α} {cause : Cause}

theorem bind_of_ok {x : Op α} (h : x m = .ok a n) (rest : α → Op β) :
    (x >>= rest) m = rest a n := by
  simp only [Bind.bind, EStateM.bind, h]

theorem bind_of_error {x : Op α} (h : x m = .error cause n) (rest : α → Op β) :
    (x >>= rest) m = .error cause n := by
  simp only [Bind.bind, EStateM.bind, h]

theorem onStack_of_ok {x : OperandStack.Op α} {t : OperandStack} (h : x m.stack = .ok a t) :
    onStack x m = .ok a { m with stack := t } := by
  obtain ⟨stack, frames, continuations, executed, sink, journal⟩ := m
  simp only [onStack, h]

theorem onStack_of_error {x : OperandStack.Op α} {t : OperandStack}
    (h : x m.stack = .error cause t) : onStack x m = .error cause { m with stack := t } := by
  obtain ⟨stack, frames, continuations, executed, sink, journal⟩ := m
  simp only [onStack, h]

end KnownResults

/-! ### How control goes on -/

/-- How control can go on after an action. -/
def Leads (site : Site) : Action → Flow → Prop
  | .fail, _ => False
  | .jump offset, flow =>
    ∃ target, jumpTarget site.function.code site.next offset = .ok target ∧ flow = .next target
  | .jumpIf _ offset, flow =>
    flow = .next site.next ∨
      ∃ target, jumpTarget site.function.code site.next offset = .ok target ∧ flow = .next target
  | .stop, flow => flow = .stop
  | .call id, flow => flow = .call id site.next
  | .ret, flow => flow = .next site.function.code.size
  | _, flow => flow = .next site.next

theorem Leads.of_call {site : Site} {action : Action} {callee : UInt16} {back : Nat}
    (h : Leads site action (.call callee back)) : action = .call callee ∧ back = site.next := by
  cases action with
  | call id => cases h; exact ⟨rfl, rfl⟩
  | fail => exact h.elim
  | jump offset =>
    obtain ⟨target, -, hflow⟩ := h
    cases hflow
  | jumpIf c offset =>
    rcases h with hflow | ⟨target, -, hflow⟩
    · cases hflow
    · cases hflow
  | _ => cases h

theorem Leads.next_cases {site : Site} {action : Action} {cursor : Nat}
    (h : Leads site action (.next cursor)) :
    cursor = site.next ∨ cursor = site.function.code.size ∨
      ∃ offset, (action = .jump offset ∨ ∃ c, action = .jumpIf c offset) ∧
        jumpTarget site.function.code site.next offset = .ok cursor := by
  cases action with
  | fail => exact h.elim
  | jump offset =>
    obtain ⟨target, ht, hflow⟩ := h
    cases hflow
    exact .inr (.inr ⟨offset, .inl rfl, ht⟩)
  | jumpIf c offset =>
    rcases h with hflow | ⟨target, ht, hflow⟩
    · cases hflow
      exact .inl rfl
    · cases hflow
      exact .inr (.inr ⟨offset, .inr ⟨c, rfl⟩, ht⟩)
  | ret =>
    cases h
    exact .inr (.inl rfl)
  | stop => cases h
  | call id => cases h
  | _ =>
    cases h
    exact .inl rfl

/-- The kinds with which an action can be refused, a jump out of the code apart. -/
def refusals : Action → List FaultKind
  | .fail | .jump _ | .dump | .stop | .call _ | .ret | .breakpoint => []
  | .push _ => [.stackOverflow]
  | .pushConstant _ | .load .. => [.bounds, .stackOverflow]
  | .doubleOp _ | .negate _ | .convert _ | .compare _ | .jumpIf .. =>
    [.stackDiscipline, .stackOverflow]
  | .intOp _ => [.arithmetic, .stackDiscipline, .stackOverflow]
  | .print _ => [.stackDiscipline, .output]
  | .swap | .pop => [.stackDiscipline]
  | .store .. => [.stackDiscipline, .bounds]
  | .callNative _ =>
    [.bounds, .unsupportedNative, .nativeSignature, .stackDiscipline, .stackOverflow]

/-- No action is refused as if it could not be read or the budget were spent. -/
theorem kind_of_mem_refusals {action : Action} {kind : FaultKind} (h : kind ∈ refusals action) :
    kind ≠ .decode ∧ kind ≠ .instructionBudget := by
  constructor <;>
  · intro hk
    subst hk
    cases action <;> simp [refusals] at h

def Refuses (site : Site) (action : Action) (cause : Cause) : Prop :=
  (action = .fail ∧ cause = .invalidInstruction) ∨
  (∃ offset, (action = .jump offset ∨ ∃ c, action = .jumpIf c offset) ∧
    jumpTarget site.function.code site.next offset = .error cause) ∨
  cause.kind ∈ refusals action

/-- A part of an action that is refused with some of the kinds of the action. -/
theorem part_outcomes {α : Type} {site : Site} {action : Action} {kinds : List FaultKind} {x : Op α}
    {rest : α → Op Flow} (hx : RefusedAs kinds x)
    (hr : ∀ a, Outcomes (Leads site action) (Refuses site action) (rest a))
    (hk : kinds ⊆ refusals action := by simp [refusals]) :
    Outcomes (Leads site action) (Refuses site action) (x >>= rest) :=
  .bind (hx.mono (fun _ h => h) fun _ h => .inr (.inr (hk h))) fun a _ => hr a

theorem perform_outcomes (p : Program) (site : Site) (action : Action) :
    Outcomes (Leads site action) (Refuses site action) (perform p site action) := by
  cases action with
  | fail => exact .throw (.inl ⟨rfl, rfl⟩)
  | push c =>
    exact part_outcomes (onStack_outcomes (OperandStack.push_refused c)) fun _ => .pure rfl
  | pushConstant id =>
    have hc : RefusedAs _ (lookup (p.constant id)) :=
      lookup_outcomes (fun _ _ => trivial) fun cause h => List.mem_singleton.2 (constant_refused h)
    exact part_outcomes hc fun t =>
      part_outcomes (onStack_outcomes (OperandStack.push_refused _)) fun _ => .pure rfl
  | doubleOp o =>
    exact part_outcomes (onStack_outcomes (OperandStack.doubleOp_refused o)) fun _ => .pure rfl
  | intOp o =>
    exact part_outcomes (onStack_outcomes (OperandStack.intOp_refused o)) fun _ => .pure rfl
  | negate n =>
    exact part_outcomes (onStack_outcomes (OperandStack.negate_refused n)) fun _ => .pure rfl
  | print t => exact part_outcomes (printTop_refused t) fun _ => .pure rfl
  | convert c =>
    exact part_outcomes (onStack_outcomes (OperandStack.convert_refused c)) fun _ => .pure rfl
  | swap => exact part_outcomes (onStack_outcomes OperandStack.swap_refused) fun _ => .pure rfl
  | pop => exact part_outcomes (onStack_outcomes OperandStack.pop_refused) fun _ => .pure rfl
  | load scope t slot =>
    exact part_outcomes (load_refused scope t slot) fun c =>
      part_outcomes (onStack_outcomes (OperandStack.push_refused c)) fun _ => .pure rfl
  | store scope t slot =>
    exact part_outcomes (onStack_outcomes (OperandStack.popAs_refused _ _)) fun c =>
      part_outcomes (store_refused scope slot c) fun _ => .pure rfl
  | compare n =>
    exact part_outcomes (onStack_outcomes (OperandStack.compare_refused n)) fun _ => .pure rfl
  | jump offset =>
    exact .bind (lookup_outcomes (fun _ h => h) fun _ h => .inr (.inl ⟨offset, .inl rfl, h⟩))
      fun target h => .pure ⟨target, h, rfl⟩
  | jumpIf c offset =>
    refine part_outcomes (onStack_outcomes OperandStack.peekInts_refused) fun operands => ?_
    obtain ⟨lower, upper⟩ := operands
    dsimp only
    split
    · exact .bind (lookup_outcomes (fun _ h => h) fun _ h => .inr (.inl ⟨offset, .inr ⟨c, rfl⟩, h⟩))
        fun target h => .pure (.inr ⟨target, h, rfl⟩)
    · exact .pure (.inl rfl)
  | dump => exact .bind (noted_outcomes _) fun _ _ => .pure rfl
  | stop => exact .pure rfl
  | call id => exact .pure rfl
  | callNative id => exact part_outcomes (callNative_refused p id) fun _ => .pure rfl
  | ret => exact .pure rfl
  | breakpoint => exact .bind (noted_outcomes _) fun _ _ => .pure rfl

def siteOf (f : Function) (cursor : Nat) (i : Instruction) : Site :=
  ⟨f, cursor, cursor + i.opcode.length⟩

/-- An instruction that is carried out can be read and leads on as its action does; one that is
refused cannot be read, for the same cause, or its action is refused. -/
theorem execute_outcomes (p : Program) (f : Function) (cursor : Nat) :
    Outcomes
      (fun flow => ∃ i, f.code.instructionAt cursor = .ok i ∧ Leads (siteOf f cursor i) i.action flow)
      (fun cause => f.code.instructionAt cursor = .error cause ∨
        ∃ i, f.code.instructionAt cursor = .ok i ∧ Refuses (siteOf f cursor i) i.action cause)
      (execute p f cursor) := by
  rw [execute_by_layout]
  refine .bind (lookup_outcomes (fun _ h => h) fun cause h => ?_) fun op hop => ?_
  · exact .inl (by simp [Code.instructionAt, h])
  refine .bind (noted_outcomes _) fun _ _ => ?_
  refine .bind (lookup_outcomes (fun _ h => h) fun cause h => ?_) fun operand hoperand => ?_
  · exact .inl (by simp [Code.instructionAt, hop, h])
  have hi : f.code.instructionAt cursor = .ok ⟨op, operand⟩ := by
    simp [Code.instructionAt, hop, hoperand]
  exact (perform_outcomes p (siteOf f cursor ⟨op, operand⟩) (op.action operand)).mono
    (fun flow h => ⟨_, hi, h⟩) fun cause h => .inr ⟨_, hi, h⟩

/-- An instruction that can be read is recorded and carried out. -/
theorem execute_of_instructionAt {p : Program} {f : Function} {cursor : Nat} {i : Instruction}
    (hi : f.code.instructionAt cursor = .ok i) (m : Machine) :
    execute p f cursor m = perform p (siteOf f cursor i) i.action
      (m.note (.dispatch f.id cursor i.opcode m.stack.depth)) := by
  unfold Code.instructionAt at hi
  cases hop : f.code.opcodeAt cursor with
  | error cause => simp [hop] at hi
  | ok op =>
    cases hoperand : f.code.operandAt (cursor + 1) op.layout with
    | error cause => simp [hop, hoperand] at hi
    | ok operand =>
      simp only [hop, hoperand] at hi
      cases hi
      simp only [execute_by_layout, Bind.bind, EStateM.bind, lookup, noted, hop, hoperand]
      rfl

/-- An instruction that is refused cannot be read, or its action is refused once its reading has been
recorded. -/
theorem perform_of_execute_error {p : Program} {f : Function} {cursor : Nat} {m n : Machine}
    {cause : Cause} (h : execute p f cursor m = .error cause n) :
    f.code.instructionAt cursor = .error cause ∨ ∃ i e, f.code.instructionAt cursor = .ok i ∧
      perform p (siteOf f cursor i) i.action (m.note e) = .error cause n := by
  rcases (execute_outcomes p f cursor).of_error h with hread | ⟨i, hi, -⟩
  · exact .inl hread
  · rw [execute_of_instructionAt hi] at h
    exact .inr ⟨i, _, hi, h⟩

end Machine

/-! ### What instructions leave alone -/

theorem Frame.outline_write (f : Frame) (slot : UInt16) (c : Cell) :
    (f.write slot c).outline = f.outline := by
  obtain ⟨function, invocation, slots⟩ := f
  simp [Frame.write, Frame.outline, Frame.locals]

namespace FrameStack

def outline (s : FrameStack) : List Frame.Outline := s.frames.items.map Frame.outline

@[simp] theorem outline_push (s : FrameStack) (function locals : UInt16) :
    (s.push function locals).outline = ⟨function, s.next, locals.toNat⟩ :: s.outline := by
  simp [outline, push, Frame.outline, Frame.fresh, Frame.locals]

@[simp] theorem outline_write (s : FrameStack) (scope : Scope) (slot : UInt16) (c : Cell) :
    (s.write scope slot c).outline = s.outline := by
  obtain ⟨⟨items, depth, depth_eq⟩, next⟩ := s
  show (Stack.updateFirst scope.selects (·.write slot c) items).map Frame.outline =
    items.map Frame.outline
  clear depth_eq
  induction items with
  | nil => rfl
  | cons f rest ih =>
    rw [Stack.updateFirst_cons]
    split
    · simp [Frame.outline_write]
    · simp [ih]

end FrameStack

/-- What there is of a machine besides operands, values of variables, output and journal. -/
structure Machine.Skeleton where
  frames : List Frame.Outline
  next : Nat
  continuations : Stack Continuation
  executed : Nat

namespace Machine

def skeleton (m : Machine) : Skeleton :=
  ⟨m.frames.outline, m.frames.next, m.continuations, m.executed⟩

/-- An operation that keeps a property of the machine, whether it is refused or not. -/
abbrev Preserves {α : Type} (I : Machine → Prop) (x : Op α) : Prop :=
  Respects (fun _ => False) (fun m n => m = n ∧ I m) x

theorem Preserves.of_ok {α : Type} {I : Machine → Prop} {x : Op α} (h : Preserves I x)
    {m n : Machine} {a : α} (hm : I m) (hx : x m = .ok a n) : I n := by
  have hr := h m m ⟨rfl, hm⟩
  rw [hx] at hr
  cases hr with
  | ok _ hn => exact hn.2

theorem Preserves.of_error {α : Type} {I : Machine → Prop} {x : Op α} (h : Preserves I x)
    {m n : Machine} {cause : Cause} (hm : I m) (hx : x m = .error cause n) : I n := by
  have hr := h m m ⟨rfl, hm⟩
  rw [hx] at hr
  cases hr with
  | error _ hn => exact hn.2
  | excused _ he => exact he.elim

theorem onStack_keeps {α : Type} (I : FrameStack → Stack Continuation → Nat → Prop)
    (x : OperandStack.Op α) :
    Preserves (fun m => I m.frames m.continuations m.executed) (onStack x) := by
  intro m n hmn
  obtain ⟨rfl, hs⟩ := hmn
  obtain ⟨stack, frames, continuations, executed, sink, journal⟩ := m
  simp only [onStack]
  cases x stack with
  | ok a stack => exact .ok a ⟨rfl, hs⟩
  | error cause stack => exact .error cause ⟨rfl, hs⟩

/-- But for the write of a variable, primitive changes leave frames, continuations and count alone. -/
theorem keptUnstored (I : FrameStack → Stack Continuation → Nat → Prop) :
    KeptUnstored (fun _ => False) (fun m n => m = n ∧ I m.frames m.continuations m.executed) where
  push c := onStack_keeps I _
  pop := onStack_keeps I _
  popAs tag value? := onStack_keeps I _
  swap := onStack_keeps I _
  load scope t slot := by
    intro m n hmn
    obtain ⟨rfl, hs⟩ := hmn
    unfold load
    cases m.frames.load scope t slot with
    | ok c => exact .ok c ⟨rfl, hs⟩
    | error cause => exact .error cause ⟨rfl, hs⟩
  print pieces := by
    intro m n hmn
    obtain ⟨rfl, hs⟩ := hmn
    obtain ⟨stack, frames, continuations, executed, sink, journal⟩ := m
    simp only [print]
    cases Output.print pieces sink with
    | ok _ sink => exact .ok () ⟨rfl, hs⟩
    | error reason sink => exact .error _ ⟨rfl, hs⟩
  noted e _ := by
    intro m n hmn
    obtain ⟨rfl, hs⟩ := hmn
    exact .ok () ⟨rfl, hs⟩
  moment := by
    intro m n hmn
    obtain ⟨rfl, hs⟩ := hmn
    exact .ok _ ⟨rfl, hs⟩

theorem store_eq (scope : Scope) (slot : UInt16) (c : Cell) (m : Machine) :
    store scope slot c m =
      match m.frames.store scope slot c with
      | .ok frames => .ok () { m with frames }
      | .error cause => .error cause m := by
  unfold store FrameStack.store
  cases m.frames.checkSlot scope slot with
  | ok _ => rfl
  | error cause => rfl

theorem kept_skeleton (s : Skeleton) :
    Kept (fun _ => False) (fun m n => m = n ∧ m.skeleton = s) where
  toKeptUnstored := keptUnstored fun frames continuations executed =>
    (⟨frames.outline, frames.next, continuations, executed⟩ : Skeleton) = s
  store scope slot c := by
    intro m n hmn
    obtain ⟨rfl, hs⟩ := hmn
    unfold store
    cases m.frames.checkSlot scope slot with
    | error cause => exact .error cause ⟨rfl, hs⟩
    | ok _ =>
      refine .ok () ⟨rfl, ?_⟩
      rw [← hs]
      simp only [skeleton, FrameStack.outline_write]
      rfl

theorem execute_skeleton {p : Program} {f : Function} {cursor : Nat} {m n : Machine} {flow : Flow}
    (h : execute p f cursor m = .ok flow n) : n.skeleton = m.skeleton :=
  Preserves.of_ok ((kept_skeleton m.skeleton).execute p f cursor) rfl h

theorem execute_skeleton_of_error {p : Program} {f : Function} {cursor : Nat} {m n : Machine}
    {cause : Cause} (h : execute p f cursor m = .error cause n) : n.skeleton = m.skeleton :=
  Preserves.of_error ((kept_skeleton m.skeleton).execute p f cursor) rfl h

theorem frames_of_onStack {α : Type} {x : OperandStack.Op α} {m n : Machine} {a : α}
    (h : onStack x m = .ok a n) : n.frames = m.frames :=
  Preserves.of_ok (onStack_keeps (fun frames _ _ => frames = m.frames) x) rfl h

/-- An action leaves the frames as they are, or is a store that writes a cell of its type. -/
theorem frames_of_perform {p : Program} {site : Site} {action : Action} {m n : Machine} {flow : Flow}
    (h : perform p site action m = .ok flow n) :
    n.frames = m.frames ∨ ∃ scope t slot c, action = .store scope t slot ∧ c.type = t ∧
      m.frames.store scope slot c = .ok n.frames := by
  by_cases hstores : ∃ scope t slot, action = .store scope t slot
  · obtain ⟨scope, t, slot, rfl⟩ := hstores
    have hbind : EStateM.bind (onStack (OperandStack.popTyped t.tag))
        (fun c => store scope slot c >>= fun _ => pure (Flow.next site.next)) m = .ok flow n := h
    simp only [EStateM.bind] at hbind
    cases hpop : onStack (OperandStack.popTyped t.tag) m with
    | error cause m' => simp [hpop] at hbind
    | ok c m' =>
      have hframes := frames_of_onStack hpop
      have htype : c.type = t :=
        (onStack_outcomes (OperandStack.popTyped_type t)).of_ok hpop
      have hstore : EStateM.bind (store scope slot c) (fun _ => pure (Flow.next site.next)) m' =
          .ok flow n := by
        rw [hpop] at hbind
        exact hbind
      simp only [EStateM.bind, store_eq, hframes] at hstore
      cases hs : m.frames.store scope slot c with
      | error cause => simp [hs] at hstore
      | ok frames =>
        rw [hs] at hstore
        cases hstore
        exact .inr ⟨scope, t, slot, c, rfl, htype, hs⟩
  · refine .inl ?_
    have hkept := (keptUnstored fun frames _ _ => frames = m.frames).perform p site action
      fun scope t slot ha => (hstores ⟨scope, t, slot, ha⟩).elim
    exact Preserves.of_ok hkept rfl h

theorem frames_of_execute {p : Program} {f : Function} {cursor : Nat} {m n : Machine} {flow : Flow}
    (h : execute p f cursor m = .ok flow n) :
    n.frames = m.frames ∨ ∃ i scope t slot c, f.code.instructionAt cursor = .ok i ∧
      i.action = .store scope t slot ∧ c.type = t ∧ m.frames.store scope slot c = .ok n.frames := by
  obtain ⟨i, hi, -⟩ := (execute_outcomes p f cursor).of_ok h
  rw [execute_of_instructionAt hi] at h
  rcases frames_of_perform h with hsame | ⟨scope, t, slot, c, ha, htype, hstore⟩
  · exact .inl hsame
  · exact .inr ⟨i, scope, t, slot, c, hi, ha, htype, hstore⟩

/-- A call is begun by a `CALL` and returns behind the three bytes of it. -/
theorem call_of_execute {p : Program} {f : Function} {cursor : Nat} {m n : Machine} {callee : UInt16}
    {back : Nat} (h : execute p f cursor m = .ok (.call callee back) n) :
    f.code.instructionAt cursor = .ok ⟨.call, callee⟩ ∧ back = cursor + 3 := by
  obtain ⟨i, hi, hleads⟩ := (execute_outcomes p f cursor).of_ok h
  obtain ⟨haction, hback⟩ := hleads.of_call
  cases Instruction.eq_of_action haction rfl
  exact ⟨hi, hback⟩

end Machine

end CellMachine
