import CellMachine.Machine.Step

/-!
# Refusals

The values that an operation can come to, and the causes for which it can be refused, whatever the
state it starts in. Main statements: the kinds of refusal of everything that instructions do with
the operand stack, calls of natives among it.
-/

namespace CellMachine

/-! ### What an operation comes to -/

section Yields

variable {ε σ α β : Type}

/-- From a state with a precondition an operation comes to a value and a state with a postcondition, or
is refused, which leaves a state that goes with the cause. -/
def Yields (P : σ → Prop) (x : EStateM ε σ α) (R : α → σ → Prop) (E : ε → σ → Prop) : Prop :=
  ∀ s, P s → match x s with
    | .ok a t => R a t
    | .error e t => E e t

namespace Yields

variable {P P' : σ → Prop} {R R' : α → σ → Prop} {E E' : ε → σ → Prop} {x : EStateM ε σ α}

theorem pure {a : α} (h : ∀ s, P s → R a s) : Yields P (Pure.pure a : EStateM ε σ α) R E := h

theorem throw {e : ε} (h : ∀ s, P s → E e s) :
    Yields P (MonadExcept.throw e : EStateM ε σ α) R E := h

theorem bind {R' : β → σ → Prop} {f : α → EStateM ε σ β} (hx : Yields P x R E)
    (hf : ∀ a, Yields (R a) (f a) R' E) : Yields P (x >>= f) R' E := by
  intro s hs
  have h := hx s hs
  show match EStateM.bind x f s with | .ok a t => R' a t | .error e t => E e t
  unfold EStateM.bind
  cases hr : x s with
  | ok a t =>
    rw [hr] at h
    exact hf a t h
  | error e t =>
    rw [hr] at h
    exact h

theorem mono (h : Yields P x R E) (hP : ∀ s, P' s → P s) (hR : ∀ a s, R a s → R' a s)
    (hE : ∀ e s, E e s → E' e s) : Yields P' x R' E' := by
  intro s hs
  have hx := h s (hP s hs)
  cases hr : x s with
  | ok a t =>
    rw [hr] at hx
    exact hR a t hx
  | error e t =>
    rw [hr] at hx
    exact hE e t hx

theorem and (h : Yields P x R E) (h' : Yields P' x R' E') :
    Yields (fun s => P s ∧ P' s) x (fun a s => R a s ∧ R' a s) fun e s => E e s ∧ E' e s := by
  intro s hs
  have hx := h s hs.1
  have hx' := h' s hs.2
  cases hr : x s with
  | ok a t =>
    rw [hr] at hx hx'
    exact ⟨hx, hx'⟩
  | error e t =>
    rw [hr] at hx hx'
    exact ⟨hx, hx'⟩

/-- A fact that the precondition holds in every state is there to use. -/
theorem given {A : Prop} (h : A → Yields P x R E) : Yields (fun s => A ∧ P s) x R E :=
  fun s hs => h hs.1 s hs.2

theorem of_ok (h : Yields P x R E) {s t : σ} {a : α} (hs : P s) (hx : x s = .ok a t) : R a t := by
  have hr := h s hs
  rwa [hx] at hr

theorem of_error (h : Yields P x R E) {s t : σ} {e : ε} (hs : P s) (hx : x s = .error e t) :
    E e t := by
  have hr := h s hs
  rwa [hx] at hr

end Yields

/-- The same where only the cause of a refusal matters. -/
abbrev Triple (P : σ → Prop) (x : EStateM ε σ α) (R : α → σ → Prop) (Q : ε → Prop) : Prop :=
  Yields P x R fun e _ => Q e

/-- Every value of an operation satisfies one predicate and every cause of a refusal another, whatever
the state. -/
abbrev Outcomes (A : α → Prop) (Q : ε → Prop) (x : EStateM ε σ α) : Prop :=
  Triple (fun _ => True) x (fun a _ => A a) Q

namespace Triple

variable {P P' : σ → Prop} {R R' : α → σ → Prop} {Q Q' : ε → Prop} {A : α → Prop}
  {x : EStateM ε σ α}

theorem throw {e : ε} (h : Q e) : Triple P (MonadExcept.throw e : EStateM ε σ α) R Q :=
  Yields.throw fun _ _ => h

theorem bind {R' : β → σ → Prop} {f : α → EStateM ε σ β} (hx : Triple P x R Q)
    (hf : ∀ a, Triple (R a) (f a) R' Q) : Triple P (x >>= f) R' Q := Yields.bind hx hf

theorem mono (h : Triple P x R Q) (hP : ∀ s, P' s → P s) (hR : ∀ a s, R a s → R' a s)
    (hQ : ∀ e, Q e → Q' e) : Triple P' x R' Q' :=
  Yields.mono h hP hR fun e _ => hQ e

theorem and (h : Triple P x R Q) (h' : Triple P' x R' Q') :
    Triple (fun s => P s ∧ P' s) x (fun a s => R a s ∧ R' a s) fun e => Q e ∧ Q' e :=
  Yields.and h h'

theorem of_outcomes (h : Outcomes A Q x) (B : Prop) : Triple (fun _ => B) x (fun _ _ => B) Q := by
  have hkept : Yields (fun _ => B) x (fun _ _ => B) fun _ _ => True := by
    intro s hB
    cases x s with
    | ok a t => exact hB
    | error e t => trivial
  exact (Yields.and h hkept).mono (fun _ hB => ⟨trivial, hB⟩) (fun _ _ h => h.2) fun _ _ h => h.1

theorem results (h : Outcomes A Q x) (P : σ → Prop) : Triple P x (fun a _ => A a) Q :=
  h.mono (fun _ _ => trivial) (fun _ _ h => h) fun _ h => h

end Triple

namespace Outcomes

variable {A A' : α → Prop} {Q Q' : ε → Prop} {x : EStateM ε σ α}

theorem pure {a : α} (h : A a) : Outcomes A Q (Pure.pure a : EStateM ε σ α) :=
  Yields.pure fun _ _ => h

theorem bind {B : β → Prop} {f : α → EStateM ε σ β} (hx : Outcomes A Q x)
    (hf : ∀ a, A a → Outcomes B Q (f a)) : Outcomes B Q (x >>= f) :=
  Yields.bind hx fun a => fun s ha => hf a ha s trivial

theorem mono (h : Outcomes A Q x) (hA : ∀ a, A a → A' a) (hQ : ∀ e, Q e → Q' e) : Outcomes A' Q' x :=
  Triple.mono h (fun _ hs => hs) (fun a _ => hA a) hQ

theorem of_ok (h : Outcomes A Q x) {s t : σ} {a : α} (hx : x s = .ok a t) : A a :=
  Yields.of_ok h trivial hx

theorem of_error (h : Outcomes A Q x) {s t : σ} {e : ε} (hx : x s = .error e t) : Q e :=
  Yields.of_error h trivial hx

end Outcomes

end Yields

/-- Operations that are refused with one of the given kinds only. -/
abbrev RefusedAs {σ α : Type} (kinds : List FaultKind) (x : EStateM Cause σ α) : Prop :=
  Outcomes (fun _ => True) (fun cause => cause.kind ∈ kinds) x

theorem RefusedAs.widen {σ α : Type} {kinds kinds' : List FaultKind} {x : EStateM Cause σ α}
    (h : RefusedAs kinds x) (hk : kinds ⊆ kinds') : RefusedAs kinds' x :=
  h.mono (fun _ _ => trivial) fun _ he => hk he

/-! ### Refusals of the operand stack -/

/-- Only a division by zero has no result. -/
theorem IntOp.apply_refused {o : IntOp} {lower upper : Int64} {cause : Cause}
    (h : o.apply lower upper = .error cause) :
    cause.kind = .arithmetic ∧ (o = .div ∨ o = .mod) ∧ upper = 0 := by
  cases o with
  | add | sub | mul | or | and | xor => cases h
  | div =>
    simp only [IntOp.apply] at h
    split at h
    · cases h
      exact ⟨rfl, .inl rfl, ‹_›⟩
    · cases h
  | mod =>
    simp only [IntOp.apply] at h
    split at h
    · cases h
      exact ⟨rfl, .inr rfl, ‹_›⟩
    · cases h

theorem ValueType.eq_of_tag {t t' : ValueType} (h : t.tag = t'.tag) : t = t' := by
  have htypes : t.tag.valueType? = t'.tag.valueType? := by rw [h]
  rw [ValueType.valueType?_tag, ValueType.valueType?_tag] at htypes
  exact Option.some.inj htypes

namespace OperandStack

theorem popTyped_type (t : ValueType) :
    Outcomes (fun c => c.type = t) (fun _ => True) (popTyped t.tag) := by
  intro s _
  unfold popTyped popAs
  cases s.cells.pop? with
  | none => trivial
  | some r =>
    obtain ⟨c, rest⟩ := r
    by_cases htag : c.tag = t.tag
    · simpa [htag] using ValueType.eq_of_tag htag
    · simp [htag]

theorem push_refused (c : Cell) : RefusedAs [.stackOverflow] (push c) := by
  intro s _
  unfold push
  by_cases h : s.limit ≤ s.depth <;> simp [h, Cause.kind]

theorem pop_refused : RefusedAs [.stackDiscipline] pop := by
  intro s _
  unfold pop
  cases s.cells.pop? with
  | none => simp [Cause.kind]
  | some r => trivial

theorem popAs_refused {α : Type} (tag : TypeTag) (value? : Cell → Option α) :
    RefusedAs [.stackDiscipline] (popAs tag value?) := by
  intro s _
  unfold popAs
  cases s.cells.pop? with
  | none => simp [Cause.kind]
  | some r =>
    obtain ⟨c, rest⟩ := r
    cases hv : value? c <;> simp [hv, Cause.kind]

theorem swap_refused : RefusedAs [.stackDiscipline] swap := by
  intro s _
  unfold swap
  cases s.cells.pop? with
  | none => simp [Cause.kind]
  | some r =>
    obtain ⟨upper, rest⟩ := r
    dsimp only
    cases rest.pop? with
    | none => simp [Cause.kind]
    | some r => trivial

/-- Kinds of refusal of an operation that takes operands and puts a result in their place. -/
abbrev operandKinds : List FaultKind := [.stackDiscipline, .stackOverflow]

theorem push_refused_as_operands (c : Cell) : RefusedAs operandKinds (push c) :=
  (push_refused c).widen (by simp)

theorem popAs_refused_as_operands {α : Type} (tag : TypeTag) (value? : Cell → Option α) :
    RefusedAs operandKinds (popAs tag value?) :=
  (popAs_refused tag value?).widen (by simp)

theorem doubleOp_refused (o : DoubleOp) : RefusedAs operandKinds (doubleOp o) :=
  .bind (popAs_refused_as_operands _ _) fun _ _ => .bind (popAs_refused_as_operands _ _) fun _ _ =>
    push_refused_as_operands _

theorem intOp_refused (o : IntOp) : RefusedAs (.arithmetic :: operandKinds) (intOp o) := by
  refine .bind ((popAs_refused _ _).widen (by simp)) fun upper _ =>
    .bind ((popAs_refused _ _).widen (by simp)) fun lower _ => ?_
  cases ho : o.apply lower upper with
  | ok n => exact (push_refused _).widen (by simp)
  | error cause => exact .throw (by simp [(IntOp.apply_refused ho).1])

theorem negate_refused (n : Numeric) : RefusedAs operandKinds (negate n) := by
  cases n <;>
    exact .bind (popAs_refused_as_operands _ _) fun _ _ => push_refused_as_operands _

theorem convert_refused (c : Conversion) : RefusedAs operandKinds (convert c) := by
  cases c <;>
    exact .bind (popAs_refused_as_operands _ _) fun _ _ => push_refused_as_operands _

theorem peekInts_refused : RefusedAs operandKinds peekInts :=
  .bind (popAs_refused_as_operands _ _) fun _ _ => .bind (popAs_refused_as_operands _ _) fun _ _ =>
    .bind (push_refused_as_operands _) fun _ _ => .bind (push_refused_as_operands _) fun _ _ =>
      .pure trivial

theorem peekDoubles_refused : RefusedAs operandKinds peekDoubles :=
  .bind (popAs_refused_as_operands _ _) fun _ _ => .bind (popAs_refused_as_operands _ _) fun _ _ =>
    .bind (push_refused_as_operands _) fun _ _ => .bind (push_refused_as_operands _) fun _ _ =>
      .pure trivial

theorem compare_refused (n : Numeric) : RefusedAs operandKinds (compare n) := by
  cases n with
  | double => exact .bind peekDoubles_refused fun _ _ => push_refused_as_operands _
  | int => exact .bind peekInts_refused fun _ _ => push_refused_as_operands _

end OperandStack

/-! ### Refusals of natives -/

namespace Native

open OperandStack (popAs_refused push_refused)

theorem collect_refused (native : String) (params : List (TypeTag × Nat)) (registers : Registers) :
    RefusedAs [.nativeSignature, .stackDiscipline] (collect native params registers) := by
  induction params generalizing registers with
  | nil => exact .pure trivial
  | cons param params ih =>
    obtain ⟨type, position⟩ := param
    unfold collect
    cases type.valueType? with
    | none => exact .throw (by simp [Cause.kind])
    | some _ =>
      refine .bind ((popAs_refused _ _).widen (by simp)) fun argument _ => ?_
      cases registers.add argument with
      | error bank => exact .throw (by simp [Cause.kind])
      | ok registers => exact ih registers

theorem prepare_refused (n : Native) :
    RefusedAs [.unsupportedNative, .nativeSignature, .stackDiscipline] n.prepare := by
  unfold prepare
  cases n.code with
  | none => exact .throw (by simp [Cause.kind])
  | some code =>
    dsimp only
    split
    · exact .throw (by simp [Cause.kind])
    · exact .bind ((collect_refused _ _ _).widen (by simp)) fun _ _ => .pure trivial

theorem deliver_refused (n : Native) (answer : Answer) :
    RefusedAs [.stackOverflow] (n.deliver answer) := by
  unfold deliver
  cases result? answer n.signature.result with
  | none => exact .pure trivial
  | some c => exact push_refused c

end Native

end CellMachine
