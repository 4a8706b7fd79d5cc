import CellMachine.Native

/-!
# Arguments in registers

Which operands a native can be called with, and what is left of them if it cannot. Main statement:
marshalling succeeds exactly on operands that serve the parameters, and fails at the last parameter that
they do not serve.
-/

namespace CellMachine

/-- The bank that arguments of a type go to, if the type has values. -/
def TypeTag.bank? : TypeTag → Option RegisterBank
  | .int | .string => some .integer
  | .double => some .float
  | .void | .invalid => none

theorem TypeTag.valueType?_eq_none_iff {type : TypeTag} :
    type.valueType? = none ↔ type.bank? = none := by
  cases type <;> simp [valueType?, bank?]

/-- How many registers of the bank the parameters need. -/
def RegisterBank.need (bank : RegisterBank) (params : List TypeTag) : Nat :=
  params.countP fun type => type.bank? = some bank

namespace Cell

/-- What the cell puts into an integer register. -/
def word? : Cell → Option Word
  | int n => some (.int n)
  | text t => some (.text t)
  | double _ => none

def bank : Cell → RegisterBank
  | int _ | text _ => .integer
  | double _ => .float

@[simp] theorem bank?_tag (c : Cell) : c.tag.bank? = some c.bank := by
  cases c <;> rfl

@[simp] theorem isSome_word? (c : Cell) : c.word?.isSome = decide (c.bank = .integer) := by
  cases c <;> rfl

@[simp] theorem isSome_double? (c : Cell) : c.double?.isSome = decide (c.bank = .float) := by
  cases c <;> rfl

end Cell

namespace RegisterBank

theorem need_cons (bank : RegisterBank) (type : TypeTag) (params : List TypeTag) :
    bank.need (type :: params) = bank.need params + if type.bank? = some bank then 1 else 0 := by
  simp [need, List.countP_cons]

theorem need_reverse (bank : RegisterBank) (params : List TypeTag) :
    bank.need params.reverse = bank.need params := List.countP_reverse

theorem need_tags (bank : RegisterBank) (args : List Cell) :
    bank.need (args.map Cell.tag) = args.countP fun c => c.bank = bank := by
  simp [need, List.countP_map, Function.comp_def]

end RegisterBank

/-! ### Banks -/

namespace Registers

/-- The registers after arguments went into them in this order. -/
def filled (args : List Cell) : Registers where
  ints := args.filterMap Cell.word?
  floats := args.filterMap Cell.double?

theorem length_ints_filled (args : List Cell) :
    (filled args).ints.length = RegisterBank.integer.need (args.map Cell.tag) := by
  simp [filled, List.length_filterMap_eq_countP, RegisterBank.need_tags]

theorem length_floats_filled (args : List Cell) :
    (filled args).floats.length = RegisterBank.float.need (args.map Cell.tag) := by
  simp [filled, List.length_filterMap_eq_countP, RegisterBank.need_tags]

/-- An argument finds a register if those before it have left one in its bank. -/
theorem add_filled (args : List Cell) (c : Cell) :
    (filled args).add c =
      if c.bank.need (args.map Cell.tag) < registersPerBank then .ok (filled (args ++ [c]))
      else .error c.bank := by
  cases c with
  | int n =>
    simp only [add, length_ints_filled]
    simp [filled, List.filterMap_cons, Cell.word?, Cell.double?, Cell.bank]
  | text t =>
    simp only [add, length_ints_filled]
    simp [filled, List.filterMap_cons, Cell.word?, Cell.double?, Cell.bank]
  | double d =>
    simp only [add, length_floats_filled]
    simp [filled, List.filterMap_cons, Cell.word?, Cell.double?, Cell.bank]

end Registers

/-! ### Operands -/

namespace OperandStack

/-- The topmost cells, the lowest of them first; all cells if there are not so many. -/
def topmost (s : OperandStack) (count : Nat) : List Cell := (s.cells.items.take count).reverse

/-- The stack without its topmost cells. -/
def below (s : OperandStack) (count : Nat) : OperandStack :=
  { s with cells := .ofList (s.cells.items.drop count) }

@[simp] theorem items_below (s : OperandStack) (count : Nat) :
    (s.below count).cells.items = s.cells.items.drop count := rfl

@[simp] theorem limit_below (s : OperandStack) (count : Nat) : (s.below count).limit = s.limit := rfl

@[simp] theorem below_zero (s : OperandStack) : s.below 0 = s := by
  obtain ⟨cells, limit⟩ := s
  exact congrArg (OperandStack.mk · limit) (Stack.ext rfl)

@[simp] theorem below_below (s : OperandStack) (count more : Nat) :
    (s.below count).below more = s.below (count + more) := by
  simp [below, List.drop_drop]

theorem popTyped_of_nil {s : OperandStack} (h : s.cells.items = []) (tag : TypeTag) :
    popTyped tag s = .error (.popTypedFromEmpty tag) s := by
  simp only [popTyped, popAs, Stack.pop?_eq_none_iff.2 h]

theorem popTyped_of_cons {s : OperandStack} {c : Cell} {rest : List Cell}
    (h : s.cells.items = c :: rest) (tag : TypeTag) :
    popTyped tag s = if c.tag = tag then .ok c (s.below 1) else .error (.wrongType tag c.tag) s := by
  have hpop : s.cells.pop? = some (c, .ofList (s.cells.items.drop 1)) := by
    rw [Stack.pop?_eq_some_iff, h]
    rfl
  by_cases htag : c.tag = tag
  · simp only [popTyped, popAs, hpop, if_pos htag]
    rfl
  · simp only [popTyped, popAs, hpop, if_neg htag]

/-- The topmost cells are arguments for the parameters, the last one on top, and both banks have
registers for them. -/
structure Serves (s : OperandStack) (params : List TypeTag) : Prop where
  typed : ∀ type ∈ params, type.bank? ≠ none
  fits : ∀ bank : RegisterBank, bank.need params ≤ registersPerBank
  /-- There are as many cells as parameters, each of the type of its own. -/
  arguments : (s.topmost params.length).map Cell.tag = params

end OperandStack

namespace OperandStack

variable {s : OperandStack} {type : TypeTag} {params : List TypeTag}

theorem serves_nil (s : OperandStack) : s.Serves [] := ⟨by simp, fun _ => Nat.zero_le _, rfl⟩

theorem topmost_succ {c : Cell} {rest : List Cell} {count : Nat}
    (h : s.cells.items.drop count = c :: rest) : s.topmost (count + 1) = c :: s.topmost count := by
  have hget : s.cells.items[count]? = some c := by
    rw [← List.head?_drop, h, List.head?_cons]
  simp [topmost, List.take_add_one, hget]

/-- One parameter more is served by the cell below, if that has its type and finds a register. -/
theorem serves_cons_iff :
    s.Serves (type :: params) ↔ s.Serves params ∧ ∃ c rest,
      (s.below params.length).cells.items = c :: rest ∧ c.tag = type ∧
        c.bank.need params < registersPerBank := by
  constructor
  · intro h
    obtain ⟨typed, fits, arguments⟩ := h
    cases hrest : s.cells.items.drop params.length with
    | nil =>
      have hlength := congrArg List.length arguments
      have hshort : s.cells.items.length ≤ params.length := List.drop_eq_nil_iff.1 hrest
      simp only [topmost, List.length_map, List.length_reverse, List.length_take, List.length_cons]
        at hlength
      omega
    | cons c rest =>
      rw [List.length_cons, topmost_succ hrest, List.map_cons, List.cons.injEq] at arguments
      obtain ⟨htag, arguments⟩ := arguments
      have hneed := fits c.bank
      rw [RegisterBank.need_cons, ← htag, Cell.bank?_tag, if_pos rfl] at hneed
      refine ⟨⟨fun t ht => typed t (List.mem_cons_of_mem _ ht), fun bank => ?_, arguments⟩,
        c, rest, hrest, htag, hneed⟩
      have hbank := fits bank
      rw [RegisterBank.need_cons] at hbank
      omega
  · rintro ⟨⟨typed, fits, arguments⟩, c, rest, hrest, rfl, hneed⟩
    refine ⟨fun t ht => ?_, fun bank => ?_, ?_⟩
    · rcases List.mem_cons.1 ht with rfl | ht
      · simp
      · exact typed t ht
    · rw [RegisterBank.need_cons, Cell.bank?_tag]
      by_cases hbank : c.bank = bank
      · subst hbank
        rw [if_pos rfl]
        exact hneed
      · rw [if_neg (by simpa using hbank)]
        exact fits bank
    · rw [List.length_cons, topmost_succ hrest, List.map_cons, arguments]

theorem exists_first_unserved (h : ¬ s.Serves params) :
    ∃ before type behind, params = before ++ type :: behind ∧ s.Serves behind ∧
      ¬ s.Serves (type :: behind) := by
  induction params with
  | nil => exact (h s.serves_nil).elim
  | cons type params ih =>
    by_cases hserves : s.Serves params
    · exact ⟨[], type, params, rfl, hserves, h⟩
    · obtain ⟨before, type', behind, rfl, hbehind, hoffends⟩ := ih hserves
      exact ⟨type :: before, type', behind, rfl, hbehind, hoffends⟩

/-! ### The parameter that fails -/

/-- How a parameter fails on the stack that the parameters behind it have left: with a cause of a kind,
and leaving a stack. -/
inductive Offends (native : String) (behind : List TypeTag) (type : TypeTag) (position : Nat)
    (s : OperandStack) : FaultKind → Cause → OperandStack → Prop
  | noValues (h : type.bank? = none) :
    Offends native behind type position s .nativeSignature (.nativeParameter native position type) s
  | missing (h : type.bank? ≠ none) (hs : s.cells.items = []) :
    Offends native behind type position s .stackDiscipline (.popTypedFromEmpty type) s
  | mistyped {c : Cell} {rest : List Cell} (h : type.bank? ≠ none) (hs : s.cells.items = c :: rest)
    (htag : c.tag ≠ type) :
    Offends native behind type position s .stackDiscipline (.wrongType type c.tag) s
  | full {bank : RegisterBank} {c : Cell} {rest : List Cell} (h : type.bank? = some bank)
    (hs : s.cells.items = c :: rest) (htag : c.tag = type)
    (hfull : bank.need behind = registersPerBank) :
    Offends native behind type position s .nativeSignature (.nativeRegisters native bank) (s.below 1)

theorem exists_offends {behind : List TypeTag} (hbehind : s.Serves behind)
    (h : ¬ s.Serves (type :: behind)) (native : String) (position : Nat) :
    ∃ cause t, Offends native behind type position (s.below behind.length) cause.kind cause t := by
  cases hbank : type.bank? with
  | none => exact ⟨.nativeParameter native position type, _, .noValues hbank⟩
  | some bank =>
    have hvalues : type.bank? ≠ none := by simp [hbank]
    cases hrest : (s.below behind.length).cells.items with
    | nil => exact ⟨.popTypedFromEmpty type, _, .missing hvalues hrest⟩
    | cons c rest =>
      by_cases htag : c.tag = type
      · have hc : c.bank = bank := by
          rw [← htag, Cell.bank?_tag] at hbank
          exact Option.some.inj hbank
        have hfits := hbehind.fits bank
        have hnone : ¬ c.bank.need behind < registersPerBank := fun hneed =>
          h (serves_cons_iff.2 ⟨hbehind, c, rest, hrest, htag, hneed⟩)
        have hfull : bank.need behind = registersPerBank := by
          rw [hc] at hnone
          omega
        exact ⟨.nativeRegisters native bank, _, .full hbank hrest htag hfull⟩
      · exact ⟨.wrongType type c.tag, _, .mistyped hvalues hrest htag⟩

end OperandStack

namespace Native

open OperandStack (Serves Offends popTyped)

variable {s t : OperandStack} {native : String} {cause : Cause}

theorem collect_cons {type : TypeTag} (h : type.bank? ≠ none) (position : Nat)
    (params : List (TypeTag × Nat)) (registers : Registers) (s : OperandStack) :
    collect native ((type, position) :: params) registers s =
      match popTyped type s with
      | .error cause t => .error cause t
      | .ok c t =>
        match registers.add c with
        | .error bank => .error (.nativeRegisters native bank) t
        | .ok registers => collect native params registers t := by
  rw [collect]
  cases hv : type.valueType? with
  | none => exact (h (TypeTag.valueType?_eq_none_iff.1 hv)).elim
  | some v =>
    show EStateM.bind (popTyped type) _ s = _
    unfold EStateM.bind
    cases popTyped type s with
    | error cause t => rfl
    | ok c t =>
      dsimp only
      cases registers.add c with
      | error bank => rfl
      | ok registers => rfl

/-- Parameters that are served are marshalled, before any others are looked at. -/
theorem collect_served {params : List TypeTag} (h : s.Serves params) (position : Nat)
    (before : List (TypeTag × Nat)) :
    collect native ((params.zipIdx position).reverse ++ before) {} s =
      collect native before (.filled (s.topmost params.length).reverse) (s.below params.length) := by
  induction params generalizing position before with
  | nil =>
    rw [List.length_nil, OperandStack.below_zero]
    rfl
  | cons type params ih =>
    obtain ⟨hserves, c, rest, hrest, htag, hneed⟩ := OperandStack.serves_cons_iff.1 h
    have hwalked : params = (s.topmost params.length).map Cell.tag := hserves.arguments.symm
    have htyped : type.bank? ≠ none := h.typed type List.mem_cons_self
    rw [List.zipIdx_cons, List.reverse_cons, List.append_assoc, ih hserves, List.singleton_append,
      collect_cons htyped, OperandStack.popTyped_of_cons hrest, if_pos htag]
    have hneed' : c.bank.need ((s.topmost params.length).reverse.map Cell.tag) < registersPerBank := by
      rw [List.map_reverse, RegisterBank.need_reverse, ← hwalked]
      exact hneed
    simp only [Registers.add_filled, if_pos hneed', OperandStack.below_below, List.length_cons,
      OperandStack.topmost_succ hrest, List.reverse_cons]

theorem collect_offended {behind : List TypeTag} {type : TypeTag} {position : Nat} {kind : FaultKind}
    {args : List Cell} (hargs : ∀ bank : RegisterBank, bank.need (args.map Cell.tag) = bank.need behind)
    (h : Offends native behind type position s kind cause t) (before : List (TypeTag × Nat)) :
    collect native ((type, position) :: before) (.filled args) s = .error cause t := by
  cases h with
  | noValues h =>
    rw [collect, TypeTag.valueType?_eq_none_iff.2 h]
    rfl
  | missing h hs => rw [collect_cons h, OperandStack.popTyped_of_nil hs]
  | mistyped h hs htag => rw [collect_cons h, OperandStack.popTyped_of_cons hs, if_neg htag]
  | @full bank c rest h hs htag hfull =>
    have hc : c.bank = bank := by
      rw [← htag, Cell.bank?_tag] at h
      exact Option.some.inj h
    have hnone : ¬ bank.need (args.map Cell.tag) < registersPerBank := by
      rw [hargs]
      omega
    rw [collect_cons (by simp [h]), OperandStack.popTyped_of_cons hs, if_pos htag]
    simp only [Registers.add_filled, hc, if_neg hnone]

/-! ### Marshalling -/

theorem marshal_of_serves {n : Native} (h : s.Serves n.signature.params) :
    n.marshal s = .ok (.filled (s.topmost n.signature.params.length).reverse)
      (s.below n.signature.params.length) := by
  have hcollect :
      collect n.name ((n.signature.params.zipIdx 0).reverse ++ []) {} s = _ := collect_served h 0 []
  rw [List.append_nil] at hcollect
  exact hcollect

/-- The parameters before the last one that is not served do not matter. -/
theorem marshal_of_offends {n : Native} {before behind : List TypeTag} {type : TypeTag}
    {kind : FaultKind} (hparams : n.signature.params = before ++ type :: behind)
    (hbehind : s.Serves behind)
    (h : Offends n.name behind type before.length (s.below behind.length) kind cause t) :
    n.marshal s = .error cause t := by
  have hwalked : behind = (s.topmost behind.length).map Cell.tag := hbehind.arguments.symm
  have hargs (bank : RegisterBank) :
      bank.need ((s.topmost behind.length).reverse.map Cell.tag) = bank.need behind := by
    rw [List.map_reverse, RegisterBank.need_reverse, ← hwalked]
  rw [marshal, hparams, List.zipIdx_append, List.zipIdx_cons, List.reverse_append, List.reverse_cons,
    List.append_assoc, Nat.zero_add, collect_served hbehind]
  exact collect_offended hargs h _

/-- Marshalling takes the arguments that serve the parameters, each bank filled from the last argument to
the first. Where they do not all serve, the last parameter that is not served decides how it fails, and
what the parameters behind it took is gone. -/
theorem marshal_by_signature (n : Native) (s : OperandStack) :
    ((∃ registers t, n.marshal s = .ok registers t) ↔ s.Serves n.signature.params) ∧
    (∀ registers t, n.marshal s = .ok registers t →
      t = s.below n.signature.params.length ∧
        registers.ints = (s.topmost n.signature.params.length).reverse.filterMap Cell.word? ∧
        registers.floats = (s.topmost n.signature.params.length).reverse.filterMap Cell.double?) ∧
    ∀ cause t, n.marshal s = .error cause t ↔ ∃ before type behind,
      n.signature.params = before ++ type :: behind ∧ s.Serves behind ∧
        Offends n.name behind type before.length (s.below behind.length) cause.kind cause t := by
  by_cases hserves : s.Serves n.signature.params
  · have hok := marshal_of_serves hserves
    refine ⟨⟨fun _ => hserves, fun _ => ⟨_, _, hok⟩⟩, fun registers t h => ?_, fun cause t => ?_⟩
    · cases hok.symm.trans h
      exact ⟨rfl, rfl, rfl⟩
    · constructor
      · intro h
        cases hok.symm.trans h
      · rintro ⟨before, type, behind, hparams, hbehind, hoffends⟩
        exact marshal_of_offends hparams hbehind hoffends
  · obtain ⟨before, type, behind, hparams, hbehind, hnext⟩ :=
      OperandStack.exists_first_unserved hserves
    obtain ⟨cause, t, hoffends⟩ := OperandStack.exists_offends hbehind hnext n.name before.length
    have herror := marshal_of_offends hparams hbehind hoffends
    refine ⟨⟨fun ⟨registers, t', h⟩ => ?_, fun h => (hserves h).elim⟩, fun registers t' h => ?_,
      fun cause' t' => ?_⟩
    · cases herror.symm.trans h
    · cases herror.symm.trans h
    · constructor
      · intro h
        cases herror.symm.trans h
        exact ⟨before, type, behind, hparams, hbehind, hoffends⟩
      · rintro ⟨before', type', behind', hparams', hbehind', hoffends'⟩
        exact marshal_of_offends hparams' hbehind' hoffends'

end Native

end CellMachine
