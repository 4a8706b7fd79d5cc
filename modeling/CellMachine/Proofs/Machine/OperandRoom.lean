import CellMachine.Proofs.Machine.Parallel

/-!
# Room on the operand stack

An operation that takes operands makes room for what it pushes. Main statements: no run makes the
operand stack deeper than its limit, and an instruction that does not add a cell to it is never refused
for lack of room.
-/

namespace CellMachine

/-! ### Room -/

namespace OperandStack

/-- There is room for `count` more cells. -/
def HasRoom (count : Nat) (s : OperandStack) : Prop := s.depth + count ≤ s.limit

theorem HasRoom.weaken {count count' : Nat} {s : OperandStack} (h : s.HasRoom count)
    (hle : count' ≤ count) : s.HasRoom count' :=
  Nat.le_trans (Nat.add_le_add_left hle _) h

/-- The stack has this limit and is not deeper. -/
def Within (limit : Nat) (s : OperandStack) : Prop := s.limit = limit ∧ s.depth ≤ limit

/-- Given room for some cells, the operation leaves room for some, and is not refused for lack of it. -/
abbrev WithinRoom {α : Type} (count left : Nat) (x : Op α) : Prop :=
  Triple (HasRoom count) x (fun _ => HasRoom left) fun cause => cause.kind ≠ .stackOverflow

theorem depth_of_pop? {s : OperandStack} {c : Cell} {rest : Stack Cell}
    (h : s.cells.pop? = some (c, rest)) : s.depth = rest.depth + 1 := by
  rw [depth, s.cells.depth_eq, rest.depth_eq, Stack.pop?_eq_some_iff.1 h]
  rfl

theorem push_within (count : Nat) (c : Cell) : WithinRoom (count + 1) count (push c) := by
  intro s hs
  have hroom : s.depth + (count + 1) ≤ s.limit := hs
  have hfits : ¬ s.limit ≤ s.depth := by omega
  simp only [push, if_neg hfits]
  show s.depth + 1 + count ≤ s.limit
  omega

theorem popAs_within {α : Type} (count : Nat) (tag : TypeTag) (value? : Cell → Option α) :
    WithinRoom count (count + 1) (popAs tag value?) := by
  intro s hs
  unfold popAs
  cases hp : s.cells.pop? with
  | none => simp [Cause.kind]
  | some r =>
    obtain ⟨c, rest⟩ := r
    cases hv : value? c with
    | none => simp [hv, Cause.kind]
    | some a =>
      have hdepth := depth_of_pop? hp
      have hroom : s.depth + count ≤ s.limit := hs
      simp only [hv]
      show rest.depth + (count + 1) ≤ s.limit
      omega

theorem doubleOp_within (o : DoubleOp) : WithinRoom 0 1 (doubleOp o) :=
  .bind (popAs_within 0 _ _) fun _ => .bind (popAs_within 1 _ _) fun _ => push_within 1 _

theorem intOp_within (o : IntOp) : WithinRoom 0 1 (intOp o) := by
  refine .bind (popAs_within 0 _ _) fun upper => .bind (popAs_within 1 _ _) fun lower => ?_
  cases ho : o.apply lower upper with
  | ok n => exact push_within 1 _
  | error cause => exact .throw (by simp [(IntOp.apply_refused ho).1])

theorem negate_within (n : Numeric) : WithinRoom 0 0 (negate n) := by
  cases n <;> exact .bind (popAs_within 0 _ _) fun _ => push_within 0 _

theorem convert_within (c : Conversion) : WithinRoom 0 0 (convert c) := by
  cases c <;> exact .bind (popAs_within 0 _ _) fun _ => push_within 0 _

theorem peekInts_within : WithinRoom 0 0 peekInts :=
  .bind (popAs_within 0 _ _) fun _ => .bind (popAs_within 1 _ _) fun _ =>
    .bind (push_within 1 _) fun _ => .bind (push_within 0 _) fun _ => .pure fun _ hs => hs

/-! ### The divisor -/

theorem popInt_top (top? : Option Cell) :
    Triple (fun s => s.top? = top?) popInt (fun n _ => top? = some (.int n))
      fun cause => cause.kind = .stackDiscipline := by
  intro s hs
  unfold popInt popAs
  cases hp : s.cells.pop? with
  | none => rfl
  | some r =>
    obtain ⟨c, rest⟩ := r
    have htop : top? = some c := by
      rw [← hs, OperandStack.top?, Stack.top?, Stack.pop?_eq_some_iff.1 hp]
      rfl
    cases c with
    | int n => exact htop
    | double d => rfl
    | text t => rfl

/-- An integer operation that fails arithmetically is a division by the zero on top of the stack. -/
theorem intOp_divisor (o : IntOp) (top? : Option Cell) :
    Triple (fun s => s.top? = top?) (intOp o) (fun _ _ => True) fun cause =>
      cause.kind = .arithmetic → (o = .div ∨ o = .mod) ∧ top? = some (.int 0) := by
  refine ((popInt_top top?).mono (fun _ h => h) (fun _ _ h => h) ?_).bind fun upper => ?_
  · intro cause hk hk'
    cases hk.symm.trans hk'
  refine ((Triple.of_outcomes (popAs_refused _ _) _).mono (fun _ h => h) (fun _ _ h => h) ?_).bind
    fun lower => ?_
  · intro cause hk hk'
    cases hk'.symm.trans (List.mem_singleton.1 hk)
  cases ho : o.apply lower upper with
  | ok n =>
    refine (Triple.of_outcomes (push_refused _) _).mono (fun _ h => h) (fun _ _ _ => trivial) ?_
    intro cause hk hk'
    cases hk'.symm.trans (List.mem_singleton.1 hk)
  | error cause =>
    intro s htop hk
    obtain ⟨-, hdivides, hzero⟩ := IntOp.apply_refused ho
    rw [htop, hzero]
    exact ⟨hdivides, rfl⟩

end OperandStack

/-! ### Natives -/

namespace Native

open OperandStack (HasRoom WithinRoom popAs_within push_within)

/-- Every argument that a native takes leaves room for one more cell. -/
theorem collect_within (native : String) (params : List (TypeTag × Nat)) (registers : Registers)
    (count : Nat) : WithinRoom count (count + params.length) (collect native params registers) := by
  induction params generalizing registers count with
  | nil => exact .pure fun _ hs => hs
  | cons param params ih =>
    obtain ⟨type, position⟩ := param
    unfold collect
    cases type.valueType? with
    | none => exact .throw (by simp [Cause.kind])
    | some _ =>
      refine .bind (popAs_within count _ _) fun argument => ?_
      cases registers.add argument with
      | error bank => exact .throw (by simp [Cause.kind])
      | ok registers =>
        have hrest := ih registers (count + 1)
        have hcount : count + 1 + params.length = count + (params.length + 1) := by omega
        rw [hcount] at hrest
        exact hrest

theorem prepare_within (n : Native) : WithinRoom 0 n.signature.params.length n.prepare := by
  unfold prepare
  cases n.code with
  | none => exact .throw (by simp [Cause.kind])
  | some code =>
    dsimp only
    split
    · exact .throw (by simp [Cause.kind])
    · have hmarshal := collect_within n.name n.signature.params.zipIdx.reverse {} 0
      simp only [List.length_reverse, List.length_zipIdx, Nat.zero_add] at hmarshal
      exact .bind hmarshal fun _ => .pure fun _ hs => hs

theorem deliver_within (n : Native) (answer : Answer) (count : Nat) :
    WithinRoom (count + 1) count (n.deliver answer) := by
  unfold deliver
  cases result? answer n.signature.result with
  | none => exact .pure fun _ hs => hs.weaken (Nat.le_succ count)
  | some c => exact push_within count c

theorem prepare_refused_of_no_params {n : Native} (h : n.signature.params = []) :
    RefusedAs [.unsupportedNative, .nativeSignature] n.prepare := by
  unfold prepare
  cases n.code with
  | none => exact .throw (by simp [Cause.kind])
  | some code =>
    dsimp only
    split
    · exact .throw (by simp [Cause.kind])
    · simp only [marshal, h]
      exact .pure trivial

end Native

namespace Machine

theorem onStack_triple {α : Type} {P : OperandStack → Prop} {R : α → OperandStack → Prop}
    {Q : Cause → Prop} {x : OperandStack.Op α} (h : Triple P x R Q) :
    Triple (fun m => P m.stack) (onStack x) (fun a m => R a m.stack) Q := by
  intro m hm
  obtain ⟨stack, frames, continuations, executed, sink, journal⟩ := m
  have hx := h stack hm
  simp only [onStack]
  cases hr : x stack with
  | ok a stack =>
    rw [hr] at hx
    exact hx
  | error cause stack =>
    rw [hr] at hx
    exact hx

theorem lookup_triple {α : Type} {P : Machine → Prop} {Q : Cause → Prop} {found : Except Cause α}
    (h : ∀ cause, found = .error cause → Q cause) :
    Triple P (lookup found) (fun a m => found = .ok a ∧ P m) Q := by
  intro m hm
  cases found with
  | ok a => exact ⟨rfl, hm⟩
  | error cause => exact h cause rfl

/-! ### One instruction -/

/-- How a call of a native can be refused for what is on the operand stack. -/
structure RefusesNative (p : Program) (id : UInt16) (cause : Cause) : Prop where
  overflow (hk : cause.kind = .stackOverflow) :
    ∃ native, p.native id = .ok native ∧ native.signature.params = []
  discipline (hk : cause.kind = .stackDiscipline) :
    ∃ native, p.native id = .ok native ∧ native.signature.params ≠ []

/-- A native with parameters has made room for its result, and only such a native can miss its
arguments. -/
theorem callNative_refuses (p : Program) (id : UInt16) :
    Triple (fun m => m.stack.HasRoom 0) (callNative p id) (fun _ _ => True) (RefusesNative p id) := by
  refine (lookup_triple ?_).bind fun native => .given fun hnative => ?_
  · intro cause h
    have hk := native_refused h
    exact ⟨fun hk' => (by cases hk.symm.trans hk'), fun hk' => (by cases hk.symm.trans hk')⟩
  by_cases hparams : native.signature.params = []
  · have hprepare : RefusedAs [.unsupportedNative, .nativeSignature, .stackOverflow]
        native.prepare := (native.prepare_refused_of_no_params hparams).widen (by simp)
    have hcall := Outcomes.bind (onStack_outcomes hprepare) fun prepared _ =>
      .bind (noted_outcomes fun _ => .nativeCall native.name) fun _ _ =>
        .bind moment_outcomes fun moment _ =>
          onStack_outcomes ((native.deliver_refused
            (prepared.1 { prepared.2 with moment })).widen (by simp))
    refine (Triple.of_outcomes hcall True).mono (fun _ _ => trivial) (fun _ _ h => h) ?_
    intro cause hmem
    refine ⟨fun _ => ⟨native, hnative, hparams⟩, fun hk => ?_⟩
    simp [hk] at hmem
  · obtain ⟨count, hcount⟩ : ∃ count, native.signature.params.length = count + 1 :=
      Nat.exists_eq_succ_of_ne_zero fun h => hparams (List.length_eq_zero_iff.1 h)
    have hprepare := native.prepare_within
    rw [hcount] at hprepare
    have hnoted : Triple (fun m => m.stack.HasRoom (count + 1))
        (noted fun _ => .nativeCall native.name) (fun _ m => m.stack.HasRoom (count + 1))
        fun cause : Cause => cause.kind ≠ .stackOverflow := fun _ hm => hm
    have hmoment : Triple (fun m => m.stack.HasRoom (count + 1)) moment
        (fun _ m => m.stack.HasRoom (count + 1))
        fun cause : Cause => cause.kind ≠ .stackOverflow := fun _ hm => hm
    refine ((onStack_triple hprepare).bind fun prepared => hnoted.bind fun _ => hmoment.bind fun _ =>
      onStack_triple (native.deliver_within _ count)).mono (fun _ h => h) (fun _ _ _ => trivial) ?_
    intro cause hk
    exact ⟨fun hk' => (hk hk').elim, fun _ => ⟨native, hnative, hparams⟩⟩

def addsCell : Action → Bool
  | .push _ | .pushConstant _ | .load .. | .compare _ | .callNative _ => true
  | _ => false

/-- What adds no cell is not refused for lack of room. -/
theorem perform_within (p : Program) (site : Site) {action : Action} (h : addsCell action = false) :
    Triple (fun m => m.stack.HasRoom 0) (perform p site action) (fun _ _ => True) fun cause =>
      cause.kind ≠ .stackOverflow := by
  have hpart : ∀ {α : Type} {count : Nat} {x : OperandStack.Op α} {rest : α → Op Flow},
      OperandStack.WithinRoom 0 count x →
      (∀ a, Outcomes (fun _ => True) (fun cause => cause.kind ≠ .stackOverflow) (rest a)) →
      Triple (fun m => m.stack.HasRoom 0) (onStack x >>= rest) (fun _ _ => True) fun cause =>
        cause.kind ≠ .stackOverflow := by
    intro α count x rest hx hrest
    refine (onStack_triple hx).bind fun a => ?_
    exact (Triple.of_outcomes (hrest a) True).mono (fun _ _ => trivial) (fun _ _ h => h) fun _ h => h
  by_cases hmem : .stackOverflow ∈ refusals action
  · cases action with
    | doubleOp o => exact hpart (OperandStack.doubleOp_within o) fun _ => .pure trivial
    | intOp o => exact hpart (OperandStack.intOp_within o) fun _ => .pure trivial
    | negate n => exact hpart (OperandStack.negate_within n) fun _ => .pure trivial
    | convert c => exact hpart (OperandStack.convert_within c) fun _ => .pure trivial
    | jumpIf c offset =>
      refine hpart OperandStack.peekInts_within fun operands => ?_
      obtain ⟨lower, upper⟩ := operands
      dsimp only
      split
      · refine .bind (lookup_outcomes (fun _ _ => trivial) ?_) fun _ _ => .pure trivial
        intro cause hjump
        simp [jumpTarget_refused hjump]
      · exact .pure trivial
    | push _ | pushConstant _ | load _ _ _ | compare _ | callNative _ => cases h
    | _ => simp [refusals] at hmem
  · refine (Triple.of_outcomes (perform_outcomes p site action) True).mono (fun _ _ => trivial)
      (fun _ _ h => h) ?_
    intro cause hrefuses hk
    rcases hrefuses with ⟨-, rfl⟩ | ⟨offset, -, hjump⟩ | hkind
    · cases hk
    · cases hk.symm.trans (jumpTarget_refused hjump)
    · rw [hk] at hkind
      exact hmem hkind

/-! ### Whole runs -/

theorem stacksKept_within (limit : Nat) :
    StacksKept (fun _ => False) (fun s t => s = t ∧ s.Within limit) where
  push c := by
    refine .of_invariant fun s hs => ?_
    obtain ⟨hlimit, hle⟩ := hs
    unfold OperandStack.push
    by_cases hfull : s.limit ≤ s.depth
    · rw [if_pos hfull]
      exact ⟨hlimit, hle⟩
    · rw [if_neg hfull]
      refine ⟨hlimit, ?_⟩
      show s.depth + 1 ≤ limit
      omega
  pop := by
    refine .of_invariant fun s hs => ?_
    obtain ⟨hlimit, hle⟩ := hs
    unfold OperandStack.pop
    cases hp : s.cells.pop? with
    | none => exact ⟨hlimit, hle⟩
    | some r =>
      have hdepth := OperandStack.depth_of_pop? hp
      refine ⟨hlimit, ?_⟩
      show r.2.depth ≤ limit
      omega
  popAs tag value? := by
    refine .of_invariant fun s hs => ?_
    obtain ⟨hlimit, hle⟩ := hs
    unfold OperandStack.popAs
    cases hp : s.cells.pop? with
    | none => exact ⟨hlimit, hle⟩
    | some r =>
      obtain ⟨c, rest⟩ := r
      have hdepth := OperandStack.depth_of_pop? hp
      dsimp only
      cases value? c with
      | none => exact ⟨hlimit, hle⟩
      | some a =>
        refine ⟨hlimit, ?_⟩
        show rest.depth ≤ limit
        omega
  swap := by
    refine .of_invariant fun s hs => ?_
    obtain ⟨hlimit, hle⟩ := hs
    unfold OperandStack.swap
    cases hp : s.cells.pop? with
    | none => exact ⟨hlimit, hle⟩
    | some r =>
      obtain ⟨upper, rest⟩ := r
      have hdepth := OperandStack.depth_of_pop? hp
      dsimp only
      cases hp' : rest.pop? with
      | none => exact ⟨hlimit, hle⟩
      | some r =>
        obtain ⟨lower, rest'⟩ := r
        have hdepth' : rest.depth = rest'.depth + 1 := by
          rw [rest.depth_eq, rest'.depth_eq, Stack.pop?_eq_some_iff.1 hp']
          rfl
        refine ⟨hlimit, ?_⟩
        show rest'.depth + 1 + 1 ≤ limit
        omega

/-- A run beside itself: its operand stack keeps its limit. -/
theorem sideBySide_within (limits : Limits) (limit : Nat) :
    SideBySide (fun _ => False) limits limits (fun s t => s = t ∧ s.Within limit) Eq Eq :=
  ⟨stacksKept_within limit, .same _, .same _, rfl, .inl rfl⟩

section Runs

variable {p : Program} {limits : Limits} {args : List Cell} {m : Machine}

theorem alike_of_hasRoom (h : m.stack.HasRoom 0) :
    Alike (fun s t => s = t ∧ s.Within m.stack.limit) Eq Eq m m :=
  ⟨⟨rfl, rfl, h⟩, rfl, rfl, rfl, rfl⟩

theorem hasRoom_of_alike {limit : Nat} {n : Machine}
    (h : Alike (fun s t => s = t ∧ s.Within limit) Eq Eq m n) : m.stack.HasRoom 0 := by
  obtain ⟨-, hlimit, hle⟩ := h.stack
  show m.stack.depth ≤ m.stack.limit
  omega

theorem hasRoom_fresh (limits : Limits) (sink : Output) (journal : Journal) :
    (fresh limits sink journal).stack.HasRoom 0 := Nat.zero_le _

/-- At the head of the loop the operand stack is within its limit if it was so before the run. -/
theorem hasRoom_of_visits (hm : m.stack.HasRoom 0) {s : Position × Machine}
    (h : Visits p limits args m s) : s.2.stack.HasRoom 0 := by
  obtain ⟨_, -, halike⟩ := (sideBySide_within limits m.stack.limit).visits (alike_of_hasRoom hm) h
  exact hasRoom_of_alike halike

/-- A run leaves the operand stack within its limit. -/
theorem hasRoom_of_comesTo (hm : m.stack.HasRoom 0) {o : Outcome} (h : ComesTo p limits args m o) :
    o.machine.stack.HasRoom 0 := by
  obtain ⟨⟨turns, rfl⟩, -⟩ := h
  exact hasRoom_of_alike ((sideBySide_within limits m.stack.limit).runWithin (p := p)
    (alike_of_hasRoom hm) args turns).machine

end Runs

end Machine

end CellMachine
