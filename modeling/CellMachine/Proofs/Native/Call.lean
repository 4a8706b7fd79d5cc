import CellMachine.Proofs.Machine.OperandRoom
import CellMachine.Proofs.Native.Marshalling

/-!
# A call of a native from end to end

In which order a call is checked, what it takes off the operand stack and what it leaves there. Main
statement: on a stack within its limit a call comes to exactly what `CallsTo` lists.
-/

namespace CellMachine

/-! ### Registers as code finds them -/

namespace Registers

/-- All integer registers of a call. -/
def intBank (r : Registers) : Vector Word registersPerBank := .ofFn fun i => r.int i

/-- All float registers of a call. -/
def floatBank (r : Registers) : Vector Float registersPerBank := .ofFn fun i => r.float i

end Registers

/-- Code that depends on nothing but what is in the registers. -/
def NativeCode.ofBanks
    (f : Vector Word registersPerBank → Vector Float registersPerBank → Answer) : NativeCode :=
  fun r => f r.intBank r.floatBank

/-- The registers of a bank, in the order in which arguments went into them, then zeros. -/
def zeroFilled {α : Type} (zero : α) (values : List α) : List α :=
  values ++ List.replicate (registersPerBank - values.length) zero

theorem toList_ofFn_getD {α : Type} {values : List α} (h : values.length ≤ registersPerBank)
    (zero : α) : (Vector.ofFn fun i : Fin registersPerBank => values.getD i zero).toList =
      zeroFilled zero values := by
  apply List.ext_getElem
  · simp [zeroFilled]
    omega
  · intro i hi _
    by_cases hvalue : i < values.length
    · simp [zeroFilled, hvalue]
    · simp [zeroFilled, List.getElem_append_right (Nat.le_of_not_lt hvalue), hvalue]

namespace OperandStack

/-- The stack with one more cell on top. -/
def under (s : OperandStack) (c : Cell) : OperandStack := { s with cells := s.cells.push c }

theorem push_eq (c : Cell) (s : OperandStack) :
    push c s = if s.limit ≤ s.depth then .error (.stackLimit s.limit) s else .ok () (s.under c) := rfl

theorem depth_below (s : OperandStack) (count : Nat) : (s.below count).depth = s.depth - count := by
  show (s.cells.items.drop count).length = s.cells.depth - count
  rw [List.length_drop, s.cells.depth_eq]

theorem Serves.length_le {s : OperandStack} {params : List TypeTag} (h : s.Serves params) :
    params.length ≤ s.depth := by
  have hlength := congrArg List.length h.arguments
  simp only [topmost, List.length_map, List.length_reverse, List.length_take] at hlength
  rw [depth, s.cells.depth_eq]
  omega

end OperandStack

namespace Native

open OperandStack (Serves HasRoom push)

/-- The cell that a result of a type comes to. The null pointer is the empty text. -/
inductive Leaves (answer : Answer) : TypeTag → Cell → Prop
  | int : Leaves answer .int (.int answer.int)
  | double : Leaves answer .double (.double answer.float)
  | text {t : Text} (h : answer.text = some t) : Leaves answer .string (.text t)
  | null (h : answer.text = none) : Leaves answer .string (.text Text.empty)

/-- What a call of a native on a stack comes to. -/
inductive CallsTo (n : Native) (s : OperandStack) :
    EStateM.Result Cause OperandStack Unit → Prop
  | unavailable (hcode : n.code = none) : CallsTo n s (.error (.nativeUnavailable n.name) s)
  | invalid (hcode : n.code ≠ none) (hresult : n.signature.result = .invalid) :
    CallsTo n s (.error (.nativeResult n.name .invalid) s)
  | refused {cause : Cause} {t : OperandStack} (hcode : n.code ≠ none)
    (hresult : n.signature.result ≠ .invalid) (hmarshal : n.marshal s = .error cause t) :
    CallsTo n s (.error cause t)
  | noRoom (hcode : n.code ≠ none)
    (hresult : n.signature.result = .int ∨ n.signature.result = .double ∨ n.signature.result = .string)
    (hparams : n.signature.params = []) (hfull : s.depth = s.limit) :
    CallsTo n s (.error (.stackLimit s.limit) s)
  | answered {code : NativeCode} {c : Cell} (hcode : n.code = some code)
    (hserves : s.Serves n.signature.params)
    (hroom : n.signature.params ≠ [] ∨ s.depth < s.limit)
    (hc : Leaves (code (.filled (s.topmost n.signature.params.length).reverse)) n.signature.result c) :
    CallsTo n s (.ok () ((s.below n.signature.params.length).under c))
  | silent (hcode : n.code ≠ none) (hserves : s.Serves n.signature.params)
    (hresult : n.signature.result = .void) :
    CallsTo n s (.ok () (s.below n.signature.params.length))

/-! ### Results -/

theorem result?_eq_some_iff {answer : Answer} {type : TypeTag} {c : Cell} :
    result? answer type = some c ↔ Leaves answer type c := by
  constructor
  · intro h
    cases type with
    | int =>
      cases h
      exact .int
    | double =>
      cases h
      exact .double
    | string =>
      cases h
      cases ht : answer.text with
      | none => exact .null ht
      | some t => exact .text ht
    | void | invalid => cases h
  · intro h
    cases h with
    | int | double => rfl
    | text h | null h => simp [result?, h]

theorem result?_isSome_iff {answer : Answer} {type : TypeTag} :
    (result? answer type).isSome ↔ type = .int ∨ type = .double ∨ type = .string := by
  cases type <;> simp [result?]

theorem deliver_of_void {n : Native} (h : n.signature.result = .void) (answer : Answer)
    (s : OperandStack) : n.deliver answer s = .ok () s := by
  simp only [deliver, h, result?]
  rfl

theorem deliver_of_leaves {n : Native} {answer : Answer} {c : Cell}
    (h : Leaves answer n.signature.result c) : n.deliver answer = push c := by
  simp only [deliver, result?_eq_some_iff.2 h]

/-- Only a call without arguments can lack room for its result. -/
theorem full_below_iff {s : OperandStack} {params : List TypeTag} (hroom : s.HasRoom 0)
    (h : s.Serves params) :
    (s.below params.length).limit ≤ (s.below params.length).depth ↔
      params = [] ∧ s.depth = s.limit := by
  have hlength := h.length_le
  have hroom : s.depth + 0 ≤ s.limit := hroom
  rw [OperandStack.limit_below, OperandStack.depth_below, ← List.length_eq_zero_iff]
  omega

/-! ### The order of the checks -/

section Order

variable {n : Native} {code : NativeCode} {s t : OperandStack} {cause : Cause}

theorem call_of_unavailable (hcode : n.code = none) (s : OperandStack) :
    n.call s = .error (.nativeUnavailable n.name) s := by
  show EStateM.bind n.prepare _ s = _
  simp only [EStateM.bind, prepare, hcode]
  rfl

theorem call_of_invalid (hcode : n.code = some code) (hresult : n.signature.result = .invalid)
    (s : OperandStack) : n.call s = .error (.nativeResult n.name .invalid) s := by
  show EStateM.bind n.prepare _ s = _
  simp only [EStateM.bind, prepare, hcode, hresult]
  rfl

theorem prepare_eq_marshal (hcode : n.code = some code) (hresult : n.signature.result ≠ .invalid) :
    n.prepare = (do return (code, ← n.marshal)) := by
  simp only [prepare, hcode, if_neg hresult]

theorem call_of_marshal_error (hcode : n.code = some code) (hresult : n.signature.result ≠ .invalid)
    (h : n.marshal s = .error cause t) : n.call s = .error cause t := by
  show EStateM.bind n.prepare _ s = _
  rw [prepare_eq_marshal hcode hresult]
  simp only [EStateM.bind, Bind.bind, h]

theorem call_of_marshal_ok {registers : Registers} (hcode : n.code = some code)
    (hresult : n.signature.result ≠ .invalid) (h : n.marshal s = .ok registers t) :
    n.call s = n.deliver (code registers) t := by
  show EStateM.bind n.prepare _ s = _
  rw [prepare_eq_marshal hcode hresult]
  simp only [EStateM.bind, Bind.bind, h]
  rfl

theorem call_of_callsTo (hroom : s.HasRoom 0) {r : EStateM.Result Cause OperandStack Unit}
    (h : CallsTo n s r) : n.call s = r := by
  cases h with
  | unavailable hcode => exact call_of_unavailable hcode s
  | invalid hcode hresult =>
    obtain ⟨code, hcode⟩ := Option.ne_none_iff_exists'.1 hcode
    exact call_of_invalid hcode hresult s
  | refused hcode hresult hmarshal =>
    obtain ⟨code, hcode⟩ := Option.ne_none_iff_exists'.1 hcode
    exact call_of_marshal_error hcode hresult hmarshal
  | noRoom hcode hresult hparams hfull =>
    obtain ⟨code, hcode⟩ := Option.ne_none_iff_exists'.1 hcode
    have hserves : s.Serves n.signature.params := hparams ▸ s.serves_nil
    have hvalid : n.signature.result ≠ .invalid := by
      rcases hresult with h | h | h <;> simp [h]
    rw [call_of_marshal_ok hcode hvalid (marshal_of_serves hserves)]
    obtain ⟨c, hc⟩ := Option.isSome_iff_exists.1 (result?_isSome_iff.2 hresult)
    rw [deliver_of_leaves (result?_eq_some_iff.1 hc), OperandStack.push_eq,
      if_pos ((full_below_iff hroom hserves).2 ⟨hparams, hfull⟩), hparams, List.length_nil,
      OperandStack.below_zero]
  | answered hcode hserves hspace hc =>
    have hvalid : n.signature.result ≠ .invalid := by
      intro h
      rw [h] at hc
      cases hc
    have hfits : ¬ (n.signature.params = [] ∧ s.depth = s.limit) := by
      rintro ⟨hparams, hfull⟩
      rcases hspace with h | h
      · exact h hparams
      · omega
    rw [call_of_marshal_ok hcode hvalid (marshal_of_serves hserves), deliver_of_leaves hc,
      OperandStack.push_eq, if_neg fun h => hfits ((full_below_iff hroom hserves).1 h)]
  | silent hcode hserves hresult =>
    obtain ⟨code, hcode⟩ := Option.ne_none_iff_exists'.1 hcode
    have hvalid : n.signature.result ≠ .invalid := by simp [hresult]
    rw [call_of_marshal_ok hcode hvalid (marshal_of_serves hserves), deliver_of_void hresult]

theorem callsTo_call (n : Native) (hroom : s.HasRoom 0) : CallsTo n s (n.call s) := by
  suffices h : ∃ r, CallsTo n s r by
    obtain ⟨r, hr⟩ := h
    rwa [call_of_callsTo hroom hr]
  cases hcode : n.code with
  | none => exact ⟨_, .unavailable hcode⟩
  | some code =>
    have hsome : n.code ≠ none := by simp [hcode]
    by_cases hinvalid : n.signature.result = .invalid
    · exact ⟨_, .invalid hsome hinvalid⟩
    cases hmarshal : n.marshal s with
    | error cause t => exact ⟨_, .refused hsome hinvalid hmarshal⟩
    | ok registers t =>
      have hserves : s.Serves n.signature.params :=
        (n.marshal_by_signature s).1.1 ⟨registers, t, hmarshal⟩
      by_cases hvoid : n.signature.result = .void
      · exact ⟨_, .silent hsome hserves hvoid⟩
      have hvalue : n.signature.result = .int ∨ n.signature.result = .double ∨
          n.signature.result = .string := by
        cases hr : n.signature.result <;> simp_all
      by_cases hfull : n.signature.params = [] ∧ s.depth = s.limit
      · exact ⟨_, .noRoom hsome hvalue hfull.1 hfull.2⟩
      · obtain ⟨c, hc⟩ := Option.isSome_iff_exists.1 (result?_isSome_iff.2 hvalue)
        have hle : s.depth + 0 ≤ s.limit := hroom
        have hspace : n.signature.params ≠ [] ∨ s.depth < s.limit := by
          by_cases hparams : n.signature.params = []
          · have hne : s.depth ≠ s.limit := fun h => hfull ⟨hparams, h⟩
            exact .inr (by omega)
          · exact .inl hparams
        exact ⟨_, .answered hcode hserves hspace (result?_eq_some_iff.1 hc)⟩

end Order

/-! ### Moments -/

/-- A native with the moment of a call put into its registers. -/
def atMoment (n : Native) (moment : Nat) : Native where
  name := n.name
  signature := n.signature
  code :=
    match n.code with
    | none => none
    | some code => some fun registers => code { registers with moment }

theorem code_atMoment_ne_none {n : Native} (h : n.code ≠ none) (moment : Nat) :
    (n.atMoment moment).code ≠ none := by
  obtain ⟨code, hcode⟩ := Option.ne_none_iff_exists'.1 h
  simp [atMoment, hcode]

theorem call_atMoment (n : Native) (moment : Nat) :
    (n.atMoment moment).call = (do
      let (code, registers) ← n.prepare
      n.deliver (code { registers with moment })) := by
  unfold call prepare
  cases hcode : n.code with
  | none => simp only [atMoment, hcode]; rfl
  | some code =>
    simp only [atMoment, hcode]
    split
    · rfl
    · simp only [bind_assoc, pure_bind]
      rfl

/-! ### Conventions -/

/-- What code answers by the convention of a result type: a cell, or nothing where there is no result.
The invalid type has no convention. -/
def answerBy (code : NativeCode) (registers : Registers) : TypeTag → Except String (Option Cell)
  | .double => .ok (some (.double (code registers).float))
  | .string => .ok (some (.text ((code registers).text.getD Text.empty)))
  | .int => .ok (some (.int (code registers).int))
  | .void => .ok none
  | .invalid => .error "invalid return type"

/-- A call that finds out only after it has taken the arguments that a result has no convention. -/
def callByConvention (n : Native) : OperandStack.Op Unit := do
  let (code, registers) ← n.prepare
  match answerBy code registers n.signature.result with
  | .error reason => throw (.stated .unsupportedNative s!"cannot call native '{n.name}': {reason}")
  | .ok (some c) => push c
  | .ok none => return

theorem answerBy_eq {type : TypeTag} (h : type ≠ .invalid) (code : NativeCode)
    (registers : Registers) : answerBy code registers type = .ok (result? (code registers) type) := by
  cases type with
  | invalid => exact (h rfl).elim
  | _ => rfl

theorem result_of_prepare {n : Native} {s t : OperandStack} {x : NativeCode × Registers}
    (h : n.prepare s = .ok x t) : n.signature.result ≠ .invalid := by
  intro hresult
  unfold prepare at h
  cases hcode : n.code with
  | none =>
    rw [hcode] at h
    cases h
  | some code =>
    rw [hcode] at h
    simp only [hresult, if_true] at h
    cases h

/-- By then the type of the result has been checked. -/
theorem callByConvention_eq (n : Native) : n.callByConvention = n.call := by
  funext s
  show EStateM.bind n.prepare _ s = EStateM.bind n.prepare _ s
  unfold EStateM.bind
  cases hprepare : n.prepare s with
  | error cause t => rfl
  | ok x t =>
    obtain ⟨code, registers⟩ := x
    simp only [answerBy_eq (result_of_prepare hprepare), deliver]
    cases result? (code registers) n.signature.result with
    | none => rfl
    | some c => rfl

/-! ### The whole call -/

/-- What holds of a call of a native on a stack. -/
structure CallLaw (n : Native) (s : OperandStack) : Prop where
  comesTo (r : EStateM.Result Cause OperandStack Unit) : n.call s = r ↔ CallsTo n s r
  /-- Code finds the arguments in the registers and zeros behind them. -/
  banks (h : s.Serves n.signature.params) : ∃ ints floats,
    ints.toList = zeroFilled (.int 0)
      ((s.topmost n.signature.params.length).reverse.filterMap Cell.word?) ∧
    floats.toList = zeroFilled 0.0
      ((s.topmost n.signature.params.length).reverse.filterMap Cell.double?) ∧
    ∀ f, NativeCode.ofBanks f (.filled (s.topmost n.signature.params.length).reverse) = f ints floats
  /-- No call gets to the convention that the invalid type lacks. -/
  convention : n.callByConvention = n.call ∧ ∀ code registers t,
    n.prepare s = .ok (code, registers) t → ∀ reason,
      answerBy code registers n.signature.result ≠ .error reason

theorem banks_of_serves {s : OperandStack} {params : List TypeTag} (h : s.Serves params) :
    (Registers.filled (s.topmost params.length).reverse).intBank.toList =
      zeroFilled (.int 0) ((s.topmost params.length).reverse.filterMap Cell.word?) ∧
    (Registers.filled (s.topmost params.length).reverse).floatBank.toList =
      zeroFilled 0.0 ((s.topmost params.length).reverse.filterMap Cell.double?) := by
  have hneed (bank : RegisterBank) :
      bank.need ((s.topmost params.length).reverse.map Cell.tag) ≤ registersPerBank := by
    rw [List.map_reverse, RegisterBank.need_reverse, h.arguments]
    exact h.fits bank
  constructor
  · refine toList_ofFn_getD ?_ _
    have hints := hneed .integer
    rw [← Registers.length_ints_filled] at hints
    exact hints
  · refine toList_ofFn_getD ?_ _
    have hfloats := hneed .float
    rw [← Registers.length_floats_filled] at hfloats
    exact hfloats

/-- A call on a stack within its limit follows the law. -/
theorem callLaw_of_hasRoom (n : Native) (s : OperandStack) (hroom : s.HasRoom 0) : CallLaw n s where
  comesTo r := by
    constructor
    · intro h
      rw [← h]
      exact callsTo_call n hroom
    · exact call_of_callsTo hroom
  banks h := by
    obtain ⟨hints, hfloats⟩ := banks_of_serves h
    exact ⟨_, _, hints, hfloats, fun _ => rfl⟩
  convention := by
    refine ⟨n.callByConvention_eq, fun code registers t hprepare reason => ?_⟩
    rw [answerBy_eq (result_of_prepare hprepare)]
    nofun

/-- A native that subtracts the second argument from the first. Arguments are found last first. -/
def subtracts : Native where
  name := "subtracts"
  signature := { result := .int, params := [.int, .int] }
  code := some (.ofBanks fun ints _ =>
    match ints[0], ints[1] with
    | .int second, .int first => { int := first - second }
    | _, _ => {})

theorem callLaw_of_hasRoom_subtracts :
    ∃ s : OperandStack, s.cells.items = [.int 3, .int 10] ∧ s.limit = 2 ∧ s.HasRoom 0 ∧
      CallLaw subtracts s ∧ subtracts.call s = .ok () ((s.below 2).under (.int 7)) := by
  have hroom : OperandStack.HasRoom 0 ⟨.ofList [.int 3, .int 10], 2⟩ := Nat.le_refl 2
  have hlaw := callLaw_of_hasRoom subtracts _ hroom
  have hserves : OperandStack.Serves ⟨.ofList [.int 3, .int 10], 2⟩ subtracts.signature.params :=
    ⟨by decide, by rintro (_ | _) <;> decide, by decide⟩
  have hcalls : CallsTo subtracts ⟨.ofList [.int 3, .int 10], 2⟩ (.ok () _) :=
    .answered rfl hserves (.inl (by decide)) .int
  exact ⟨_, rfl, rfl, hroom, hlaw, (hlaw.comesTo _).2 hcalls⟩

end Native

end CellMachine
