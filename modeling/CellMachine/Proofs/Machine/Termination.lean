import CellMachine.Proofs.Machine.Budget
import CellMachine.Proofs.Machine.CallStructure
import Mathlib.Algebra.Order.BigOperators.Group.List
import Mathlib.Algebra.Order.Group.Nat
import Mathlib.Data.Finset.Card
import Mathlib.Tactic.IntervalCases

/-!
# Programs that come to an end

Code whose jumps lead forward and whose calls lead to functions of smaller rank, at every byte, cannot
run forever: a turn takes something of the work that the executing function and all that wait for it
can have left. Main statement: one budget is enough for all runs of such a program, and no more calls
are pending than there are other functions.
-/

namespace CellMachine

/-- No jump leads back and every call to a function of smaller rank, wherever in the code a run may
find one. -/
structure ForwardOnly {α : Type*} [Preorder α] (p : Program) (rank : UInt16 → α) : Prop where
  jumps {f : Function} {pos : Nat} {op : Opcode} {offset : Int16} (hf : f ∈ p.functions)
    (hop : f.code.opcode? pos = some op) (hjump : op.isJump)
    (hoffset : f.code.int16? (pos + 1) = some offset) : 0 ≤ offset.toInt
  calls {f g : Function} {pos : Nat} (hf : f ∈ p.functions) (hg : g ∈ p.functions)
    (hop : f.code.opcode? pos = some .call) (hid : f.code.uint16? (pos + 1) = some g.id) :
    rank g.id < rank f.id

theorem Program.getElem?_of_function {p : Program} {id : UInt16} {f : Function}
    (h : p.function id = .ok f) : p.functions[id.toNat]? = some f := by
  unfold Program.function at h
  split at h
  · rename_i g hg
    cases h
    exact hg
  · cases h

theorem Program.mem_functions {p : Program} {id : UInt16} {f : Function} (h : p.function id = .ok f) :
    f ∈ p.functions :=
  Array.mem_of_getElem? (getElem?_of_function h)

/-! ### What stands at a position -/

namespace Code

variable {code : Code} {pos : Nat}

theorem opcode?_of_slice? {op : Opcode} (h : code.slice? 1 pos = some [op.tag]) :
    code.opcode? pos = some op := by
  unfold opcode?
  rw [byte?_eq_some_iff.2 h]
  exact Opcode.ofTag?_tag op

theorem of_jump_action {i : Instruction} {offset : Int16} (hi : code.instructionAt pos = .ok i)
    (hjump : i.action = .jump offset ∨ ∃ c, i.action = .jumpIf c offset) :
    i.opcode.isJump ∧ code.int16? (pos + 1) = some offset := by
  obtain ⟨op, hmake⟩ := Instruction.of_jump_action hjump
  have hlayout : i.opcode.layout = .jumpOffset := Instruction.layout_of_make? hmake
  have hlength : i.opcode.length = 1 + 2 := by
    unfold Opcode.length
    rw [hlayout]
    rfl
  have hbytes : code.slice? (1 + 2) pos =
      some ([op.tag] ++ littleEndian 2 offset.toUInt16.toNat) := by
    rw [← hlength, instructionAt_eq_ok_iff.1 hi, Instruction.encoded_of_make? hmake]
    rfl
  have htag : [op.tag].length = 1 := rfl
  refine ⟨by simp only [Opcode.isJump, hlayout, beq_self_eq_true], ?_⟩
  exact int16?_eq_some_iff.2 ((slice?_append htag).1 hbytes).2

theorem CallEndsAt.call {callee : UInt16} (h : code.CallEndsAt pos callee) :
    code.opcode? (pos - 3) = some .call ∧ code.uint16? (pos - 3 + 1) = some callee := by
  obtain ⟨-, -, hbytes⟩ := h
  have hparts : code.slice? (1 + 2) (pos - 3) =
      some ([Opcode.call.tag] ++ littleEndian 2 callee.toNat) := hbytes
  have hlength : [Opcode.call.tag].length = 1 := rfl
  obtain ⟨htag, hid⟩ := (slice?_append hlength).1 hparts
  exact ⟨opcode?_of_slice? htag, uint16?_eq_some_iff.2 hid⟩

end Code

/-! ### Heights -/

section Heights

variable {α : Type*} [Preorder α] {p : Program} {rank : UInt16 → α} {a b : UInt16} {f : Function}

open Classical in
/-- How many functions have a smaller rank. -/
noncomputable def Program.height (p : Program) (rank : UInt16 → α) (id : UInt16) : Nat :=
  ((Finset.range p.functions.size).filter fun i => rank (UInt16.ofNat i) < rank id).card

theorem Program.toNat_lt_size (h : p.function a = .ok f) : a.toNat < p.functions.size :=
  (Array.getElem?_eq_some_iff.1 (getElem?_of_function h)).1

theorem Program.height_lt (ha : p.function a = .ok f) (h : rank a < rank b) :
    p.height rank a < p.height rank b := by
  classical
  refine Finset.card_lt_card ((Finset.ssubset_iff_of_subset ?_).2 ⟨a.toNat, ?_, ?_⟩)
  · intro i hi
    rw [Finset.mem_filter] at hi ⊢
    exact ⟨hi.1, hi.2.trans h⟩
  · rw [Finset.mem_filter, UInt16.ofNat_toNat]
    exact ⟨Finset.mem_range.2 (toNat_lt_size ha), h⟩
  · rw [Finset.mem_filter, UInt16.ofNat_toNat]
    exact fun hmem => lt_irrefl _ hmem.2

theorem Program.height_lt_size (ha : p.function a = .ok f) : p.height rank a < p.functions.size := by
  classical
  rw [← Finset.card_range p.functions.size]
  refine Finset.card_lt_card (Finset.filter_ssubset.2 ⟨a.toNat, ?_, ?_⟩)
  · exact Finset.mem_range.2 (toNat_lt_size ha)
  · rw [UInt16.ofNat_toNat]
    exact lt_irrefl _

end Heights

/-! ### Work that is left -/

/-- Turns that a call can take, if each of so many bytes can be a call and calls nest as deep as the
height of the caller. -/
def callCost (bytes : Nat) : (height : Nat) → Nat
  | 0 => 0
  | height + 1 => bytes * (callCost bytes height + 1) + 1

theorem callCost_mono (bytes : Nat) : Monotone (callCost bytes) := by
  refine monotone_nat_of_le_succ fun height => ?_
  induction height with
  | zero => exact Nat.zero_le _
  | succ height ih =>
    have hmul : bytes * (callCost bytes height + 1) ≤ bytes * (callCost bytes (height + 1) + 1) :=
      Nat.mul_le_mul_left bytes (Nat.succ_le_succ ih)
    exact Nat.succ_le_succ hmul

/-- Bytes of code in all functions. -/
def Program.codeSize (p : Program) : Nat := (p.functions.toList.map fun f => f.code.size).sum

theorem Program.size_le_codeSize {p : Program} {f : Function} (h : f ∈ p.functions) :
    f.code.size ≤ p.codeSize :=
  List.le_sum_of_mem (List.mem_map_of_mem (Array.mem_toList_iff.2 h))

namespace Machine

variable {α : Type*} [Preorder α] {p : Program} {rank : UInt16 → α} {limits : Limits} {f g : Function}

/-- Turns from a position to the end of its function, whatever its calls may take. -/
noncomputable def workFrom (p : Program) (rank : UInt16 → α) (q : Position) : Nat :=
  (q.function.code.size - q.cursor) * (callCost p.codeSize (p.height rank q.function.id) + 1) + 1

noncomputable def workPending (p : Program) (rank : UInt16 → α) (k : Continuation) : Nat :=
  match p.function k.caller with
  | .ok f => workFrom p rank ⟨f, k.cursor⟩
  | .error _ => 0

/-- Turns that a run can still take. -/
noncomputable def workLeft (p : Program) (rank : UInt16 → α) (s : Position × Machine) : Nat :=
  workFrom p rank s.1 + (s.2.continuations.items.map (workPending p rank)).sum

theorem workLeft_mk (q : Position) (m : Machine) : workLeft p rank (q, m) =
    workFrom p rank q + (m.continuations.items.map (workPending p rank)).sum := rfl

theorem workPending_of_function {k : Continuation} (h : p.function k.caller = .ok f) :
    workPending p rank k = workFrom p rank ⟨f, k.cursor⟩ := by
  simp only [workPending, h]

/-- Going on at a later cursor leaves enough for a call in between. -/
theorem workFrom_add_call_lt {cursor next : Nat} (inside : cursor < f.code.size)
    (forward : cursor < next) :
    workFrom p rank ⟨f, next⟩ + callCost p.codeSize (p.height rank f.id) <
      workFrom p rank ⟨f, cursor⟩ := by
  let unit := callCost p.codeSize (p.height rank f.id) + 1
  have hless : f.code.size - next + 1 ≤ f.code.size - cursor := by omega
  have hwork : (f.code.size - next + 1) * unit ≤ (f.code.size - cursor) * unit :=
    Nat.mul_le_mul_right unit hless
  rw [Nat.succ_mul] at hwork
  show (f.code.size - next) * unit + 1 + callCost p.codeSize (p.height rank f.id) <
    (f.code.size - cursor) * unit + 1
  have hunit : unit = callCost p.codeSize (p.height rank f.id) + 1 := rfl
  omega

/-- A function of smaller rank takes no more than what a call is taken to. -/
theorem workFrom_zero_le (hg : p.function g.id = .ok g) (h : rank g.id < rank f.id) :
    workFrom p rank ⟨g, 0⟩ ≤ callCost p.codeSize (p.height rank f.id) := by
  have hheight : p.height rank g.id + 1 ≤ p.height rank f.id := Program.height_lt hg h
  have hsize : g.code.size ≤ p.codeSize := Program.size_le_codeSize (Program.mem_functions hg)
  calc workFrom p rank ⟨g, 0⟩
      ≤ callCost p.codeSize (p.height rank g.id + 1) :=
        Nat.succ_le_succ (Nat.mul_le_mul_right _ hsize)
    _ ≤ callCost p.codeSize (p.height rank f.id) := callCost_mono p.codeSize hheight

/-! ### Where control goes -/

theorem lt_of_next {cursor c : Nat} {m n : Machine} (h : ForwardOnly p rank)
    (hf : f ∈ p.functions) (inside : cursor < f.code.size)
    (he : execute p f cursor m = .ok (.next c) n) : cursor < c := by
  obtain ⟨i, hi, hleads⟩ := (execute_outcomes p f cursor).of_ok he
  have hlength : cursor < cursor + i.opcode.length := (Code.end_le_of_instructionAt hi).1
  rcases hleads.next_cases with hnext | hend | ⟨offset, hjump, htarget⟩
  · rw [hnext]
    exact hlength
  · rw [hend]
    exact inside
  · obtain ⟨hop, hoffset⟩ := Code.of_jump_action hi hjump
    have hforward : 0 ≤ offset.toInt := h.jumps hf (Code.opcode?_of_instructionAt hi) hop hoffset
    have hdistance : (c : Int) = (cursor + i.opcode.length : Nat) + offset.toInt :=
      (jumpTarget_eq_ok_iff.1 htarget).1
    omega

theorem rank_lt_of_callEndsAt {back : Nat} (h : ForwardOnly p rank) (hf : f ∈ p.functions)
    (hg : g ∈ p.functions) (hends : f.code.CallEndsAt back g.id) : rank g.id < rank f.id :=
  h.calls hf hg hends.call.1 hends.call.2

/-! ### The work of a run -/

/-- The step of the measure. A call takes its own work from that of its caller, which waits with what
is left. -/
theorem workLeft_lt_of_turn {s t : Position × Machine} (h : ForwardOnly p rank) (ha : Aligned p s)
    (ht : Turn p limits s t) : workLeft p rank t < workLeft p rank s := by
  obtain ⟨⟨f, cursor⟩, m⟩ := s
  obtain ⟨q, n⟩ := t
  have hf : p.function f.id = .ok f := ha.1
  have hmem : f ∈ p.functions := Program.mem_functions hf
  have hadvance : Advance p limits f cursor m (.running q n) := advance_of_eq ht
  cases hadvance with
  | @next c n inside hs he =>
    have hless : workFrom p rank ⟨f, c⟩ + callCost p.codeSize (p.height rank f.id) <
        workFrom p rank ⟨f, cursor⟩ := workFrom_add_call_lt inside (lt_of_next h hmem inside he)
    have hks : n.continuations = m.continuations := (executed_of_execute he).2
    rw [workLeft_mk, workLeft_mk, hks]
    omega
  | @returned n k ks caller atEnd hl hk hcaller =>
    have hitems : m.continuations.items = k :: ks.items := continuations_of_leave? hl hk
    have hlast : 0 < workFrom p rank ⟨f, cursor⟩ := Nat.succ_pos _
    rw [workLeft_mk, workLeft_mk, hitems, List.map_cons, List.sum_cons,
      workPending_of_function hcaller]
    show workFrom p rank ⟨caller, k.cursor⟩ + (ks.items.map (workPending p rank)).sum < _
    omega
  | @called id back g n inside hs he hg hd =>
    have hks : n.continuations = m.continuations := (executed_of_execute he).2
    obtain ⟨hi, hback⟩ := call_of_execute he
    have hgid : p.function g.id = .ok g := Program.function_id hg
    have hends : f.code.CallEndsAt back g.id := by
      rw [hback, Program.id_of_function hg]
      exact Code.callEndsAt_of_instructionAt hi
    have hrank : rank g.id < rank f.id :=
      rank_lt_of_callEndsAt h hmem (Program.mem_functions hgid) hends
    have hforward : cursor < back := by omega
    -- The call instruction pays for the callee, and what is behind it is left to the caller.
    have hcallee := workFrom_zero_le hgid hrank
    have hless : workFrom p rank ⟨f, back⟩ + callCost p.codeSize (p.height rank f.id) <
        workFrom p rank ⟨f, cursor⟩ := workFrom_add_call_lt inside hforward
    have hwaits : workPending p rank ⟨back, f.id⟩ = workFrom p rank ⟨f, back⟩ :=
      workPending_of_function hf
    rw [workLeft_mk, workLeft_mk, continuations_enter, Stack.items_push, List.map_cons,
      List.sum_cons, hwaits, hks]
    omega

theorem executed_le_of_turn {s t : Position × Machine} (ht : Turn p limits s t) :
    t.2.executed ≤ s.2.executed + 1 := by
  have hadvance : s.2.advance p limits s.1 = .running t.1 t.2 := ht
  have hx : (machineAfter (s.2.advance p limits s.1)).executed = _ := executed_of_advance s.1 s.2
  rw [hadvance] at hx
  show (machineAfter (.running t.1 t.2)).executed ≤ s.2.executed + 1
  rw [hx]
  split <;> omega

theorem executed_add_workLeft_le {s t : Position × Machine} (h : ForwardOnly p rank)
    (ha : Aligned p s) (hr : Reaches p limits s t) :
    Aligned p t ∧ t.2.executed + workLeft p rank t ≤ s.2.executed + workLeft p rank s := by
  induction hr with
  | refl => exact ⟨ha, Nat.le_refl _⟩
  | tail _ ht ih =>
    obtain ⟨hu, hle⟩ := ih
    have hless := workLeft_lt_of_turn h hu ht
    have hone := executed_le_of_turn ht
    exact ⟨aligned_turn hu ht, by omega⟩

theorem endsAs_of_aligned {s : Position × Machine} (h : ForwardOnly p rank) (ha : Aligned p s) :
    ∃ fault? n, EndsAs p limits s fault? n := by
  -- The induction is on the work itself, which a turn lowers by any amount.
  generalize hwork : workLeft p rank s = work
  induction work using Nat.strong_induction_on generalizing s with
  | _ work ih =>
    cases hadvance : s.2.advance p limits s.1 with
    | ended fault? n => exact ⟨fault?, n, s, .refl, hadvance⟩
    | running q n =>
      have ht : Turn p limits s (q, n) := hadvance
      have hless := workLeft_lt_of_turn h ha ht
      obtain ⟨fault?, last, hlast⟩ := ih _ (by omega) (aligned_turn ha ht) rfl
      exact ⟨fault?, last, .of_reaches (.single ht) hlast⟩

/-! ### Calls that are pending -/

/-- The heights of the functions that wait grow outwards. -/
theorem height_of_linked {next : Nat} {function : UInt16} {frames : List Frame.Outline}
    {ks : List Continuation} (h : ForwardOnly p rank) (hl : Linked p next function frames ks) :
    p.height rank function + ks.length < p.functions.size := by
  induction hl with
  | entry hf hi => exact Program.height_lt_size hf
  | @call next invocation back f caller frames ks hf hi hcaller hback rest ih =>
    have hrank : rank f.id < rank caller.id := rank_lt_of_callEndsAt h
      (Program.mem_functions hcaller) (Program.mem_functions hf) hback
    have hheight := Program.height_lt hf hrank
    rw [List.length_cons]
    omega

theorem depth_of_aligned {s : Position × Machine} (h : ForwardOnly p rank) (ha : Aligned p s) :
    s.2.continuations.depth < p.functions.size := by
  have hheight := height_of_linked h ha.2
  rw [← s.2.continuations.depth_eq] at hheight
  omega

theorem depth_of_runWithin (h : ForwardOnly p rank) (limits : Limits) (args : List Cell) (sink : Output)
    (journal : Journal) (turns : Nat) :
    ((fresh limits sink journal).runWithin p limits args turns).machine.continuations.depth <
      p.functions.size := by
  unfold runWithin
  cases hn : storeArguments args.length args 0
    ((fresh limits sink journal).enter p.entryFunction) with
  | error cause n =>
    have hks : n.continuations = Stack.empty :=
      congrArg Skeleton.continuations (storeArguments_skeleton_of_error hn)
    show n.continuations.depth < p.functions.size
    rw [hks]
    exact Nat.zero_lt_of_lt p.entry_lt
  | ok _ entered =>
    refine proceed_induct (I := Aligned p) (J := fun n => n.continuations.depth < p.functions.size)
      (fun s hs => depth_of_aligned h hs) (fun s t hs ht => aligned_turn hs ht) ?_ turns
      (aligned_start (storeArguments_skeleton hn))
    intro s fault? n hs hended
    have hbelow : n.continuations.items.length ≤ s.2.continuations.items.length :=
      (continuations_sublist_of_ended hended).length_le
    rw [← n.continuations.depth_eq, ← s.2.continuations.depth_eq] at hbelow
    exact Nat.lt_of_le_of_lt hbelow (depth_of_aligned h hs)

/-! ### Runs -/

variable {args : List Cell} {sink : Output} {journal : Journal}

theorem comesTo_of_forwardOnly (h : ForwardOnly p rank) :
    ∃ o, ComesTo p limits args (fresh limits sink journal) o := by
  cases hn : storeArguments args.length args 0
    ((fresh limits sink journal).enter p.entryFunction) with
  | error cause n => exact ⟨_, comesTo_iff.2 (.inl ⟨cause, n, hn, rfl⟩)⟩
  | ok _ entered =>
    obtain ⟨fault?, n, hends⟩ := endsAs_of_aligned h (aligned_start (storeArguments_skeleton hn))
    exact ⟨_, comesTo_iff.2 (.inr ⟨entered, fault?, n, hn, hends, rfl⟩)⟩

/-- What is left of the work is at least the turn that a run has not taken. -/
theorem executed_lt_of_visits {s : Position × Machine} (h : ForwardOnly p rank)
    (hv : Visits p limits args (fresh limits sink journal) s) :
    s.2.executed < workFrom p rank ⟨p.entryFunction, 0⟩ := by
  obtain ⟨q, m⟩ := s
  obtain ⟨entered, hentered, hr⟩ := hv
  have hskeleton := storeArguments_skeleton hentered
  have hexecuted : entered.executed = 0 := congrArg Skeleton.executed hskeleton
  have hcalls : entered.continuations = Stack.empty := congrArg Skeleton.continuations hskeleton
  have hnone : ((Stack.empty : Stack Continuation).items.map (workPending p rank)).sum = 0 := rfl
  obtain ⟨-, hwork⟩ := executed_add_workLeft_le h (aligned_start hskeleton) hr
  rw [workLeft_mk, workLeft_mk, hcalls, hnone] at hwork
  have hleft : 0 < workFrom p rank q := Nat.succ_pos _
  dsimp only at hwork ⊢
  omega

theorem kind_ne_budget_of_enough {budget : Nat} (h : ForwardOnly p rank)
    (hb : limits.budget = some budget) (henough : workFrom p rank ⟨p.entryFunction, 0⟩ ≤ budget) :
    ((fresh limits sink journal).run p limits args).ending.kind? ≠ some .instructionBudget := by
  intro hk
  cases hending : ((fresh limits sink journal).run p limits args).ending with
  | value top => cases (congrArg Ending.kind? hending).symm.trans hk
  | unfinished => cases (congrArg Ending.kind? hending).symm.trans hk
  | fault fault =>
    have hkind : fault.kind = .instructionBudget :=
      Option.some.inj ((congrArg Ending.kind? hending).symm.trans hk)
    have hrun : ComesTo p limits args (fresh limits sink journal)
        ((fresh limits sink journal).run p limits args) := (comesTo_iff_run hb).2 rfl
    rcases hrun.fault_cases hending with ⟨cause, n, hn, rfl⟩ | ⟨q, n, hv, hlast⟩
    · have hbounds : cause.kind = .bounds :=
        List.mem_singleton.1 ((storeArguments_refused _ _ _).of_error hn)
      cases hbounds.symm.trans hkind
    · have hspent : n.spent? limits ≠ none := (spent_of_kind hlast hkind).2
      refine hspent (unspent_of_lt fun b hmem => ?_)
      cases hb.symm.trans hmem
      exact Nat.lt_of_lt_of_le (executed_lt_of_visits h hv) henough

/-- A program that only leads forward comes to an end, and one budget is enough for all its runs. Every
pending call is of another function than those within it. -/
theorem terminates_of_forwardOnly (h : ForwardOnly p rank) :
    (∃ enough, ∀ limits args sink journal,
      (∃ o, ComesTo p (limits.within none) args (fresh limits sink journal) o) ∧
      ∀ budget, enough ≤ budget →
        ((fresh limits sink journal).run p (limits.within (some budget)) args).ending.kind? ≠
          some .instructionBudget) ∧
    ∀ limits args sink journal turns,
      ((fresh limits sink journal).runWithin p limits args turns).machine.continuations.depth + 1 ≤
        p.functions.size := by
  constructor
  · refine ⟨workFrom p rank ⟨p.entryFunction, 0⟩, fun limits args sink journal => ⟨?_, ?_⟩⟩
    · exact comesTo_of_forwardOnly h
    · intro budget henough
      exact kind_ne_budget_of_enough h rfl henough
  · intro limits args sink journal turns
    exact depth_of_runWithin h limits args sink journal turns

/-- A program that jumps over one call of its second function to another one. -/
def jumpsOverCall : Program where
  functions := #[⟨0, "main", {}, 0,
      ⟨#[Opcode.jump.tag, 3, 0, Opcode.call.tag, 1, 0, Opcode.call.tag, 1, 0]⟩⟩,
    ⟨1, "callee", {}, 0, ⟨#[Opcode.ret.tag]⟩⟩]
  constants := #[]
  natives := #[]
  entry := 0
  functions_fit := by decide
  natives_fit := Nat.zero_le _
  id_eq_position := by decide
  entry_lt := by decide

theorem forwardOnly_jumpsOverCall :
    ForwardOnly jumpsOverCall fun id => if id = 0 then 1 else 0 := by
  constructor
  case jumps =>
    intro f pos op offset hf hop hjump hoffset
    have hpos : pos < f.code.size := (Code.opcodeAt_of_opcode? hop).1
    simp only [jumpsOverCall, List.mem_toArray, List.mem_cons, List.not_mem_nil, or_false] at hf
    rcases hf with rfl | rfl
    · have hpos : pos < 9 := hpos
      interval_cases pos <;> cases hop <;> cases hjump
      cases hoffset
      decide
    · have hpos : pos < 1 := hpos
      interval_cases pos
      cases hop
      cases hjump
  case calls =>
    intro f g pos hf hg hop hid
    have hpos : pos < f.code.size := (Code.opcodeAt_of_opcode? hop).1
    simp only [jumpsOverCall, List.mem_toArray, List.mem_cons, List.not_mem_nil, or_false] at hf hg
    rcases hf with rfl | rfl
    · have hpos : pos < 9 := hpos
      interval_cases pos <;> cases hop <;> rcases hg with rfl | rfl
      all_goals first | decide | cases hid
    · have hpos : pos < 1 := hpos
      interval_cases pos
      cases hop

theorem terminates_of_forwardOnly_jumpsOverCall :
    let rank : UInt16 → Nat := fun id => if id = 0 then 1 else 0
    ForwardOnly jumpsOverCall rank ∧
      (∃ enough, ∀ budget, enough ≤ budget →
        ((fresh {} {} {}).run jumpsOverCall (Limits.within {} (some budget)) []).ending.kind? ≠
          some .instructionBudget) ∧
      ∀ turns, ((fresh {} {} {}).runWithin jumpsOverCall {} [] turns).machine.continuations.depth ≤ 1 := by
  intro rank
  obtain ⟨⟨enough, hruns⟩, hdepth⟩ := terminates_of_forwardOnly forwardOnly_jumpsOverCall
  refine ⟨forwardOnly_jumpsOverCall, ⟨enough, (hruns {} [] {} {}).2⟩, fun turns => ?_⟩
  exact Nat.le_of_succ_le_succ (hdepth {} [] {} {} turns)

end Machine

end CellMachine
