import CellMachine.Host
import CellMachine.Proofs.Machine.OperandRoom

/-!
# Calls of natives

A native that keeps to the calling convention has a parameter at least, no more of them than a bank has
registers, all of types that cells have, and a result in a register. Main statements: a call of such a
native takes the cells of its parameters and leaves its result, unless the cells are not there; and
every native of the host keeps to the convention.
-/

namespace CellMachine

namespace Signature

structure Conventional (s : Signature) : Prop where
  takes : s.params ≠ []
  few : s.params.length ≤ registersPerBank
  typed : ∀ t ∈ s.params, t.valueType? ≠ none
  result : s.result = .int ∨ s.result = .double

instance (s : Signature) : Decidable s.Conventional :=
  decidable_of_iff (s.params ≠ [] ∧ s.params.length ≤ registersPerBank ∧
    (∀ t ∈ s.params, t.valueType? ≠ none) ∧ (s.result = .int ∨ s.result = .double))
    ⟨fun ⟨takes, few, typed, result⟩ => ⟨takes, few, typed, result⟩,
      fun h => ⟨h.takes, h.few, h.typed, h.result⟩⟩

/-- The cells, topmost first, are arguments for the parameters. -/
def Accepts (s : Signature) (args : List Cell) : Prop := args.map Cell.tag = s.params.reverse

/-- The topmost cells are arguments for the parameters. -/
def ServedBy (s : Signature) (cells : List Cell) : Prop :=
  ∃ args rest, cells = args ++ rest ∧ s.Accepts args

end Signature

/-! ### Arguments -/

theorem Registers.add_of_lt {r : Registers} (h : r.ints.length + r.floats.length < registersPerBank)
    (c : Cell) :
    ∃ r', r.add c = .ok r' ∧ r'.ints.length + r'.floats.length = r.ints.length + r.floats.length + 1 := by
  have hints : r.ints.length < registersPerBank := by omega
  have hfloats : r.floats.length < registersPerBank := by omega
  cases c with
  | int n =>
    refine ⟨{ r with ints := r.ints ++ [.int n] }, if_pos hints, ?_⟩
    simp only [List.length_append, List.length_singleton]
    omega
  | text t =>
    refine ⟨{ r with ints := r.ints ++ [.text t] }, if_pos hints, ?_⟩
    simp only [List.length_append, List.length_singleton]
    omega
  | double d =>
    refine ⟨{ r with floats := r.floats ++ [d] }, if_pos hfloats, ?_⟩
    simp only [List.length_append, List.length_singleton]
    omega

theorem OperandStack.popTyped_takes (tag : TypeTag) (cells : List Cell) :
    Triple (fun s => s.cells.items = cells) (popTyped tag)
      (fun c s => c.tag = tag ∧ cells = c :: s.cells.items)
      fun cause => cause.kind = .stackDiscipline ∧ ∀ c rest, cells = c :: rest → c.tag ≠ tag := by
  intro s hs
  unfold popTyped popAs
  cases hp : s.cells.pop? with
  | none =>
    refine ⟨rfl, fun c rest hcells => ?_⟩
    cases (Stack.pop?_eq_none_iff.1 hp).symm.trans (hs.trans hcells)
  | some x =>
    obtain ⟨c, rest⟩ := x
    have hitems : cells = c :: rest.items := hs.symm.trans (Stack.pop?_eq_some_iff.1 hp)
    by_cases htag : c.tag = tag
    · simp only [if_pos htag]
      exact ⟨htag, hitems⟩
    · simp only [if_neg htag]
      refine ⟨rfl, fun c' rest' hcells => ?_⟩
      cases hitems.symm.trans hcells
      exact htag

namespace Native

open OperandStack (HasRoom push)

/-- Arguments are taken from the top, one for each parameter, as long as they have its type. -/
theorem collect_takes (native : String) {params : List (TypeTag × Nat)}
    (typed : ∀ x ∈ params, x.1.valueType? ≠ none) {registers : Registers}
    (few : registers.ints.length + registers.floats.length + params.length ≤ registersPerBank)
    (cells : List Cell) :
    Triple (fun s => s.cells.items = cells) (collect native params registers)
      (fun _ s => ∃ args, cells = args ++ s.cells.items ∧ args.map Cell.tag = params.map Prod.fst)
      fun cause => cause.kind = .stackDiscipline ∧
        ¬ ∃ args rest, cells = args ++ rest ∧ args.map Cell.tag = params.map Prod.fst := by
  induction params generalizing registers cells with
  | nil =>
    refine .pure fun s hs => ⟨[], ?_, rfl⟩
    rw [hs, List.nil_append]
  | cons param params ih =>
    obtain ⟨type, position⟩ := param
    rw [List.length_cons] at few
    unfold collect
    cases htype : type.valueType? with
    | none => exact (typed _ List.mem_cons_self htype).elim
    | some t =>
      refine ((OperandStack.popTyped_takes type cells).mono (fun _ hs => hs) (fun _ _ h => h) ?_).bind
        fun c => ?_
      · intro cause hrefused
        obtain ⟨hkind, hother⟩ := hrefused
        refine ⟨hkind, fun hserved => ?_⟩
        obtain ⟨args, rest, hcells, htags⟩ := hserved
        cases args with
        | nil => cases htags
        | cons c args => exact hother c (args ++ rest) hcells (List.cons.inj htags).1
      obtain ⟨registers', hadd, hcount⟩ := Registers.add_of_lt (r := registers) (by omega) c
      have few' : registers'.ints.length + registers'.floats.length + params.length ≤
          registersPerBank := by omega
      rw [hadd]
      intro s hs
      obtain ⟨htag, hcells⟩ := hs
      have hrest := ih (fun x hx => typed x (List.mem_cons_of_mem _ hx)) few' s.cells.items
      refine hrest.mono (fun _ hs => hs) ?_ ?_ s rfl
      · intro _ s' hs'
        obtain ⟨args, hargs, htags⟩ := hs'
        refine ⟨c :: args, ?_, ?_⟩
        · rw [hcells, hargs, List.cons_append]
        · rw [List.map_cons, htags, htag, List.map_cons]
      · intro cause hrefused
        obtain ⟨hkind, hmissing⟩ := hrefused
        refine ⟨hkind, fun hserved => hmissing ?_⟩
        obtain ⟨args, rest, hcells', htags⟩ := hserved
        cases args with
        | nil => cases htags
        | cons c' args =>
          exact ⟨args, rest, (List.cons.inj (hcells.symm.trans hcells')).2, (List.cons.inj htags).2⟩

/-- Why a call of a native is refused on some operands. -/
inductive Refuses (n : Native) (cells : List Cell) : Cause → Prop
  | unavailable (h : n.code = none) : Refuses n cells (.nativeUnavailable n.name)
  | unserved {cause : Cause} (hcode : n.code ≠ none) (hkind : cause.kind = .stackDiscipline)
    (h : ¬ n.signature.ServedBy cells) : Refuses n cells cause

/-- A call that came back has taken its arguments and left its result in their place. -/
def Answers (n : Native) (cells cells' : List Cell) : Prop :=
  ∃ args rest c, cells = args ++ rest ∧ n.signature.Accepts args ∧ cells' = c :: rest ∧
    c.tag = n.signature.result

/-- Code is there only for a signature that keeps to the convention. -/
def Conventional (n : Native) : Prop := n.code ≠ none → n.signature.Conventional

theorem prepare_takes {n : Native} (h : n.Conventional) (cells : List Cell) :
    Triple (fun s => s.cells.items = cells) n.prepare
      (fun _ s => n.code ≠ none ∧ ∃ args, cells = args ++ s.cells.items ∧ n.signature.Accepts args)
      (n.Refuses cells) := by
  unfold prepare
  cases hcode : n.code with
  | none => exact .throw (.unavailable hcode)
  | some code =>
    have hsome : n.code ≠ none := by simp [hcode]
    obtain ⟨-, few, typed, result⟩ := h hsome
    have hresult : n.signature.result ≠ .invalid := by
      rcases result with hr | hr <;> simp [hr]
    have htags : n.signature.params.zipIdx.reverse.map Prod.fst = n.signature.params.reverse := by
      rw [List.map_reverse, List.zipIdx_map_fst]
    have htyped : ∀ x ∈ n.signature.params.zipIdx.reverse, x.1.valueType? ≠ none := by
      intro x hx
      refine typed x.1 ?_
      rw [← List.mem_reverse, ← htags]
      exact List.mem_map_of_mem hx
    have hfew : ({} : Registers).ints.length + ({} : Registers).floats.length +
        n.signature.params.zipIdx.reverse.length ≤ registersPerBank := by simpa using few
    have hcollect := (collect_takes n.name htyped hfew cells).mono (fun _ hs => hs)
      (fun _ _ h => h) fun cause hrefused => Refuses.unserved (n := n) hsome hrefused.1 (htags ▸ hrefused.2)
    dsimp only
    rw [if_neg hresult]
    refine hcollect.bind fun _ => .pure fun s hs => ?_
    obtain ⟨args, hcells, hargs⟩ := hs
    exact ⟨by simp, args, hcells, hargs.trans htags⟩

theorem result?_of_conventional {s : Signature} (h : s.Conventional) (answer : Answer) :
    ∃ c, result? answer s.result = some c ∧ c.tag = s.result := by
  rcases h.result with hr | hr
  · exact ⟨.int answer.int, by rw [hr]; rfl, hr.symm⟩
  · exact ⟨.double answer.float, by rw [hr]; rfl, hr.symm⟩

theorem deliver_leaves {n : Native} (h : n.signature.Conventional) (answer : Answer) (rest : List Cell) :
    Triple (fun s => s.cells.items = rest ∧ s.HasRoom 1) (n.deliver answer)
      (fun _ s => ∃ c, s.cells.items = c :: rest ∧ c.tag = n.signature.result) fun _ => False := by
  intro s hs
  obtain ⟨hrest, hroom⟩ := hs
  obtain ⟨c, hc, htag⟩ := result?_of_conventional h answer
  have hroom : s.depth + 1 ≤ s.limit := hroom
  have hfits : ¬ s.limit ≤ s.depth := by omega
  simp only [deliver, hc, push, if_neg hfits]
  exact ⟨c, by rw [Stack.items_push, hrest], htag⟩

end Native

/-! ### Natives of the host -/

namespace Host

theorem conventional_of_mem : ∀ e ∈ entries, e.signature.Conventional := by decide

theorem conventional_of_resolver {name : String} {s : Signature} {code : NativeCode}
    (h : resolver name s = some code) : s.Conventional := by
  unfold resolver find at h
  cases he : entries.find? fun e => e.name == name with
  | none =>
    rw [he] at h
    cases h
  | some e =>
    rw [he] at h
    dsimp only at h
    split at h
    · rename_i hs
      rw [hs]
      exact conventional_of_mem e (List.mem_of_find?_eq_some he)
    · cases h

end Host

end CellMachine
