import CellMachine.Proofs.Machine.Action

/-!
# Machines in lockstep

Two machines in a relation go through one instruction together: they do the same thing, or are
refused for the same cause, and are in the relation again. Main statement: `execute` keeps every
relation that the primitive changes of a machine keep. With a relation that holds only of equal
machines this says what an instruction leaves alone.
-/

namespace CellMachine

/-! ### Operations in lockstep -/

variable {ε σ τ α β : Type}

/-- Results with the same value or the same cause, and with states in a relation. A refusal that is
excused agrees with everything. -/
inductive Agree (excused : ε → Prop) (R : σ → τ → Prop) :
    EStateM.Result ε σ α → EStateM.Result ε τ α → Prop
  | ok (a : α) {s : σ} {t : τ} (h : R s t) : Agree excused R (.ok a s) (.ok a t)
  | error (e : ε) {s : σ} {t : τ} (h : R s t) : Agree excused R (.error e s) (.error e t)
  | excused {e : ε} {s : σ} (r : EStateM.Result ε τ α) (h : excused e) :
    Agree excused R (.error e s) r

theorem Agree.mono {excused : ε → Prop} {R R' : σ → τ → Prop} {x : EStateM.Result ε σ α}
    {y : EStateM.Result ε τ α} (h : Agree excused R x y) (hR : ∀ s t, R s t → R' s t) :
    Agree excused R' x y := by
  cases h with
  | ok a h => exact .ok a (hR _ _ h)
  | error e h => exact .error e (hR _ _ h)
  | excused _ h => exact .excused _ h

/-- From states in a relation, two operations come to results that agree. -/
def Lockstep (excused : ε → Prop) (R : σ → τ → Prop) (x : EStateM ε σ α) (y : EStateM ε τ α) :
    Prop :=
  ∀ s t, R s t → Agree excused R (x s) (y t)

abbrev Respects (excused : ε → Prop) (R : σ → σ → Prop) (x : EStateM ε σ α) : Prop :=
  Lockstep excused R x x

namespace Lockstep

variable {excused : ε → Prop} {R : σ → τ → Prop}

theorem pure (a : α) :
    Lockstep excused R (Pure.pure a : EStateM ε σ α) (Pure.pure a : EStateM ε τ α) :=
  fun _ _ h => .ok a h

theorem throw (e : ε) :
    Lockstep excused R (MonadExcept.throw e : EStateM ε σ α) (MonadExcept.throw e : EStateM ε τ α) :=
  fun _ _ h => .error e h

theorem bind {x : EStateM ε σ α} {y : EStateM ε τ α} {f : α → EStateM ε σ β} {g : α → EStateM ε τ β}
    (hx : Lockstep excused R x y) (hf : ∀ a, Lockstep excused R (f a) (g a)) :
    Lockstep excused R (x >>= f) (y >>= g) := by
  intro s t h
  have hr := hx s t h
  show Agree excused R (EStateM.bind x f s) (EStateM.bind y g t)
  unfold EStateM.bind
  generalize x s = r at hr
  generalize y t = r' at hr
  cases hr with
  | ok a h => exact hf a _ _ h
  | error e h => exact .error e h
  | excused _ h => exact .excused _ h

end Lockstep

/-- Whether an event tells of one instruction, and not of a call or of a whole run. -/
def Event.ofInstruction : Event → Bool
  | dispatch .. | nativeCall _ | dump _ | breakpoint .. => true
  | _ => false

namespace Machine

/-! ### Relations that primitive changes keep -/

/-- Every primitive change of a machine but the write of a variable respects the relation. What is
recorded is of one instruction and may tell something of the operand stack. -/
structure KeptUnstored (excused : Cause → Prop) (R : Machine → Machine → Prop) : Prop where
  push (c : Cell) : Respects excused R (onStack (OperandStack.push c))
  pop : Respects excused R (onStack OperandStack.pop)
  popAs {α : Type} (tag : TypeTag) (value? : Cell → Option α) :
    Respects excused R (onStack (OperandStack.popAs tag value?))
  swap : Respects excused R (onStack OperandStack.swap)
  load (scope : Scope) (t : ValueType) (slot : UInt16) : Respects excused R (load scope t slot)
  print (pieces : List (List UInt8)) : Respects excused R (print pieces)
  noted (e : OperandStack → Event) (he : ∀ s, (e s).ofInstruction) :
    Respects excused R (noted fun m => e m.stack)
  moment : Respects excused R moment

/-- Every primitive change of a machine respects the relation. -/
structure Kept (excused : Cause → Prop) (R : Machine → Machine → Prop) : Prop extends
    KeptUnstored excused R where
  store (scope : Scope) (slot : UInt16) (c : Cell) : Respects excused R (store scope slot c)

/-- Changes of the operand stack one after the other are changes of the machine one after the other. -/
theorem onStack_bind {α β : Type} (x : OperandStack.Op α) (f : α → OperandStack.Op β) :
    onStack (x >>= f) = onStack x >>= fun a => onStack (f a) := by
  funext m
  obtain ⟨stack, frames, continuations, executed, sink, journal⟩ := m
  show onStack (EStateM.bind x f) _ = EStateM.bind (onStack x) (fun a => onStack (f a)) _
  simp only [onStack, EStateM.bind]
  cases x stack with
  | ok a stack => rfl
  | error cause stack => rfl

namespace KeptUnstored

variable {excused : Cause → Prop} {R : Machine → Machine → Prop} (h : KeptUnstored excused R)

include h

/-! ### Operations on the operand stack -/

theorem doubleOp (o : DoubleOp) :
    Respects excused R (onStack (OperandStack.doubleOp o)) := by
  unfold OperandStack.doubleOp
  simp only [onStack_bind]
  exact .bind (h.popAs _ _) fun _ => .bind (h.popAs _ _) fun _ => h.push _

theorem intOp (o : IntOp) : Respects excused R (onStack (OperandStack.intOp o)) := by
  unfold OperandStack.intOp
  simp only [onStack_bind]
  refine .bind (h.popAs _ _) fun upper => .bind (h.popAs _ _) fun lower => ?_
  cases o.apply lower upper with
  | ok n => exact h.push _
  | error cause => exact .throw cause

theorem negate (n : Numeric) : Respects excused R (onStack (OperandStack.negate n)) := by
  cases n <;> simp only [OperandStack.negate, onStack_bind] <;>
    exact .bind (h.popAs _ _) fun _ => h.push _

theorem convert (c : Conversion) :
    Respects excused R (onStack (OperandStack.convert c)) := by
  cases c <;> simp only [OperandStack.convert, onStack_bind] <;>
    exact .bind (h.popAs _ _) fun _ => h.push _

theorem peekInts : Respects excused R (onStack OperandStack.peekInts) := by
  unfold OperandStack.peekInts
  simp only [onStack_bind]
  exact .bind (h.popAs _ _) fun _ => .bind (h.popAs _ _) fun _ => .bind (h.push _) fun _ =>
    .bind (h.push _) fun _ => .pure _

theorem peekDoubles : Respects excused R (onStack OperandStack.peekDoubles) := by
  unfold OperandStack.peekDoubles
  simp only [onStack_bind]
  exact .bind (h.popAs _ _) fun _ => .bind (h.popAs _ _) fun _ => .bind (h.push _) fun _ =>
    .bind (h.push _) fun _ => .pure _

theorem compare (n : Numeric) :
    Respects excused R (onStack (OperandStack.compare n)) := by
  cases n with
  | double =>
    simp only [OperandStack.compare, onStack_bind]
    exact .bind h.peekDoubles fun _ => h.push _
  | int =>
    simp only [OperandStack.compare, onStack_bind]
    exact .bind h.peekInts fun _ => h.push _

/-! ### Calls of natives -/

theorem collect (native : String) (params : List (TypeTag × Nat)) (registers : Registers) :
    Respects excused R (onStack (Native.collect native params registers)) := by
  induction params generalizing registers with
  | nil => exact .pure registers
  | cons param params ih =>
    obtain ⟨type, position⟩ := param
    unfold Native.collect
    cases type.valueType? with
    | none => exact .throw _
    | some _ =>
      simp only [onStack_bind]
      refine .bind (h.popAs _ _) fun argument => ?_
      cases registers.add argument with
      | error bank => exact .throw _
      | ok registers => exact ih registers

theorem prepare (n : Native) :
    Respects excused R (onStack n.prepare) := by
  unfold Native.prepare
  cases n.code with
  | none => exact .throw _
  | some code =>
    dsimp only
    split
    · exact .throw _
    · simp only [onStack_bind]
      exact .bind (h.collect _ _ _) fun _ => .pure _

theorem deliver (n : Native) (answer : Answer) :
    Respects excused R (onStack (n.deliver answer)) := by
  unfold Native.deliver
  cases Native.result? answer n.signature.result with
  | none => exact .pure _
  | some c => exact h.push c

omit h in
theorem lookup {α : Type} (found : Except Cause α) :
    Respects excused R (Machine.lookup found) := by
  intro m n hmn
  cases found with
  | ok value => exact .ok value hmn
  | error cause => exact .error cause hmn

theorem callNative (p : Program) (id : UInt16) :
    Respects excused R (Machine.callNative p id) := by
  unfold Machine.callNative
  exact .bind (lookup _) fun native => .bind (h.prepare native) fun _ =>
    .bind (h.noted (fun _ => .nativeCall native.name) fun _ => rfl) fun _ =>
      .bind h.moment fun _ => h.deliver native _

/-! ### One instruction -/

theorem perform (p : Program) (site : Site) (action : Action)
    (hstore : ∀ scope t slot, action = .store scope t slot →
      ∀ c, Respects excused R (Machine.store scope slot c)) :
    Respects excused R (Machine.perform p site action) := by
  cases action with
  | fail => exact .throw _
  | push c => exact .bind (h.push c) fun _ => .pure _
  | pushConstant id => exact .bind (lookup _) fun t => .bind (h.push (.text t)) fun _ => .pure _
  | doubleOp o => exact .bind (h.doubleOp o) fun _ => .pure _
  | intOp o => exact .bind (h.intOp o) fun _ => .pure _
  | negate n => exact .bind (h.negate n) fun _ => .pure _
  | print t =>
    exact .bind (.bind (h.popAs _ _) fun c => h.print c.pieces) fun _ => .pure _
  | convert c => exact .bind (h.convert c) fun _ => .pure _
  | swap => exact .bind h.swap fun _ => .pure _
  | pop => exact .bind h.pop fun _ => .pure _
  | load scope t slot =>
    exact .bind (h.load scope t slot) fun c => .bind (h.push c) fun _ => .pure _
  | store scope t slot =>
    exact .bind (h.popAs _ _) fun c => .bind (hstore scope t slot rfl c) fun _ => .pure _
  | compare n => exact .bind (h.compare n) fun _ => .pure _
  | jump offset => exact .bind (lookup _) fun _ => .pure _
  | jumpIf c offset =>
    refine .bind h.peekInts fun operands => ?_
    obtain ⟨lower, upper⟩ := operands
    dsimp only
    split
    · exact .bind (lookup _) fun _ => .pure _
    · exact .pure _
  | dump => exact .bind (h.noted (fun s => .dump s.top?) fun _ => rfl) fun _ => .pure _
  | stop => exact .pure _
  | call id => exact .pure _
  | callNative id => exact .bind (h.callNative p id) fun _ => .pure _
  | ret => exact .pure _
  | breakpoint =>
    exact .bind (h.noted (fun _ => .breakpoint site.function.id site.offset) fun _ => rfl)
      fun _ => .pure _

end KeptUnstored

/-- One instruction keeps every relation that the primitive changes keep. -/
theorem Kept.execute {excused : Cause → Prop} {R : Machine → Machine → Prop} (h : Kept excused R)
    (p : Program) (f : Function) (cursor : Nat) : Respects excused R (Machine.execute p f cursor) := by
  rw [execute_by_layout]
  exact .bind (KeptUnstored.lookup _) fun op =>
    .bind (h.noted (fun s => .dispatch f.id cursor op s.depth) fun _ => rfl) fun _ =>
      .bind (KeptUnstored.lookup _) fun _ => h.perform p _ _ fun scope _ slot _ => h.store scope slot

end Machine

end CellMachine
