import CellMachine.Machine.Run
import CellMachine.Proofs.Machine.Instruction
import Mathlib.Logic.Relation

/-!
# Turns of the loop

`Advance` lists what one turn can do, with all the guards that lead there, and `Reaches` is any
number of turns that do not end the run. Main statement: with a budget, `proceed` comes to the end
of a run within the turns that `run` gives it.
-/

namespace CellMachine

theorem Program.function_id {p : Program} {id : UInt16} {f : Function} (h : p.function id = .ok f) :
    p.function f.id = .ok f := by rw [id_of_function h, h]

namespace Machine

@[simp] theorem continuations_note (m : Machine) (e : Event) :
    (m.note e).continuations = m.continuations := rfl

@[simp] theorem frames_note (m : Machine) (e : Event) : (m.note e).frames = m.frames := rfl

@[simp] theorem executed_note (m : Machine) (e : Event) : (m.note e).executed = m.executed := rfl

@[simp] theorem continuations_enter (m : Machine) (f : Function) :
    (m.enter f).continuations = m.continuations := rfl

@[simp] theorem executed_enter (m : Machine) (f : Function) : (m.enter f).executed = m.executed := rfl

@[simp] theorem frames_enter (m : Machine) (f : Function) :
    (m.enter f).frames = m.frames.push f.id f.locals := rfl

/-- A call ends if its frame is there, and nothing but the frame goes. -/
theorem leave?_eq_some {m n : Machine} (h : m.leave? = some n) :
    n.continuations = m.continuations ∧ n.executed = m.executed ∧
      ∃ f, m.frames.pop? = some (f, n.frames) := by
  unfold leave? at h
  split at h
  · cases h
  · rename_i f frames hp
    cases h
    exact ⟨rfl, rfl, f, hp⟩

/-- Where a call ends that another waits for, the continuation of this one is on top. -/
theorem continuations_of_leave? {m n : Machine} {k : Continuation} {ks : Stack Continuation}
    (hl : m.leave? = some n) (hk : n.continuations.pop? = some (k, ks)) :
    m.continuations.items = k :: ks.items := by
  rw [← (leave?_eq_some hl).1, Stack.pop?_eq_some_iff.1 hk]

/-! ### The start of a run -/

/-- Arguments go into variables of the top frame and nowhere else. -/
theorem storeArguments_respects {excused : Cause → Prop} {R : Machine → Machine → Prop}
    (hstore : ∀ slot c, Respects excused R (store .top slot c)) (count : Nat) (args : List Cell)
    (slot : Nat) : Respects excused R (storeArguments count args slot) := by
  induction args generalizing slot with
  | nil => exact .pure ()
  | cons c args ih =>
    unfold storeArguments
    split
    · exact .bind (hstore _ _) fun _ => ih (slot + 1)
    · exact .throw _

theorem Kept.storeArguments {excused : Cause → Prop} {R : Machine → Machine → Prop}
    (K : Kept excused R) (count : Nat) (args : List Cell) (slot : Nat) :
    Respects excused R (storeArguments count args slot) :=
  storeArguments_respects (K.store .top) count args slot

theorem storeArguments_refused (count : Nat) (args : List Cell) (slot : Nat) :
    RefusedAs [.bounds] (storeArguments count args slot) := by
  induction args generalizing slot with
  | nil => exact .pure trivial
  | cons c args ih =>
    unfold storeArguments
    split
    · exact .bind (store_refused _ _ _) fun _ _ => ih (slot + 1)
    · exact .throw (List.mem_singleton.2 rfl)

theorem storeArguments_skeleton_of_error {count slot : Nat} {args : List Cell} {m n : Machine}
    {cause : Cause} (h : storeArguments count args slot m = .error cause n) :
    n.skeleton = m.skeleton :=
  Preserves.of_error ((kept_skeleton m.skeleton).storeArguments count args slot) rfl h

theorem storeArguments_skeleton {count slot : Nat} {args : List Cell} {m n : Machine}
    (h : storeArguments count args slot m = .ok () n) : n.skeleton = m.skeleton :=
  Preserves.of_ok ((kept_skeleton m.skeleton).storeArguments count args slot) rfl h

/-! ### One turn -/

/-- What one turn at `cursor` of `f` can do. -/
inductive Advance (p : Program) (limits : Limits) (f : Function) (cursor : Nat) (m : Machine) :
    Progress → Prop
  | noFrame (atEnd : f.code.size ≤ cursor) (hl : m.leave? = none) :
    Advance p limits f cursor m (.ended (some { cause := .noFrameToPop }) m)
  | finished {n : Machine} (atEnd : f.code.size ≤ cursor) (hl : m.leave? = some n)
    (hk : n.continuations.pop? = none) : Advance p limits f cursor m (.ended none n)
  | returned {n : Machine} {k : Continuation} {ks : Stack Continuation} {caller : Function}
    (atEnd : f.code.size ≤ cursor) (hl : m.leave? = some n)
    (hk : n.continuations.pop? = some (k, ks)) (hf : p.function k.caller = .ok caller) :
    Advance p limits f cursor m (.running ⟨caller, k.cursor⟩
      ({ n with continuations := ks }.note (.ret f.id k.caller k.cursor)))
  | callerLost {n : Machine} {k : Continuation} {ks : Stack Continuation} {cause : Cause}
    (atEnd : f.code.size ≤ cursor) (hl : m.leave? = some n)
    (hk : n.continuations.pop? = some (k, ks)) (hf : p.function k.caller = .error cause) :
    Advance p limits f cursor m (.ended (some { cause })
      ({ n with continuations := ks }.note (.ret f.id k.caller k.cursor)))
  | spent {budget : Nat} (inside : cursor < f.code.size) (hs : m.spent? limits = some budget) :
    Advance p limits f cursor m (.ended (some (Fault.located (.budgetSpent budget) f.id cursor)) m)
  | refused {cause : Cause} {n : Machine} (inside : cursor < f.code.size)
    (hs : m.spent? limits = none)
    (he : execute p f cursor { m with executed := m.executed + 1 } = .error cause n) :
    Advance p limits f cursor m (.ended (some (Fault.located cause f.id cursor)) n)
  | next {c : Nat} {n : Machine} (inside : cursor < f.code.size) (hs : m.spent? limits = none)
    (he : execute p f cursor { m with executed := m.executed + 1 } = .ok (.next c) n) :
    Advance p limits f cursor m (.running ⟨f, c⟩ n)
  | stopped {n : Machine} (inside : cursor < f.code.size) (hs : m.spent? limits = none)
    (he : execute p f cursor { m with executed := m.executed + 1 } = .ok .stop n) :
    Advance p limits f cursor m (.ended none n)
  | undefined {id : UInt16} {back : Nat} {cause : Cause} {n : Machine}
    (inside : cursor < f.code.size) (hs : m.spent? limits = none)
    (he : execute p f cursor { m with executed := m.executed + 1 } = .ok (.call id back) n)
    (hf : p.function id = .error cause) :
    Advance p limits f cursor m (.ended (some (Fault.located cause f.id cursor)) n)
  | tooDeep {id : UInt16} {back : Nat} {g : Function} {n : Machine}
    (inside : cursor < f.code.size) (hs : m.spent? limits = none)
    (he : execute p f cursor { m with executed := m.executed + 1 } = .ok (.call id back) n)
    (hf : p.function id = .ok g) (hd : limits.maxCalls ≤ n.continuations.depth) :
    Advance p limits f cursor m
      (.ended (some (Fault.located (.callDepth limits.maxCalls) f.id cursor)) n)
  | called {id : UInt16} {back : Nat} {g : Function} {n : Machine}
    (inside : cursor < f.code.size) (hs : m.spent? limits = none)
    (he : execute p f cursor { m with executed := m.executed + 1 } = .ok (.call id back) n)
    (hf : p.function id = .ok g) (hd : n.continuations.depth < limits.maxCalls) :
    Advance p limits f cursor m (.running ⟨g, 0⟩
      ({ n.note (.call f.id g.id g.name) with
          continuations := n.continuations.push ⟨back, f.id⟩ }.enter g))

theorem advance_spec (p : Program) (limits : Limits) (f : Function) (cursor : Nat) (m : Machine) :
    Advance p limits f cursor m (m.advance p limits ⟨f, cursor⟩) := by
  unfold advance
  dsimp only
  split
  · rename_i atEnd
    unfold endCall
    split
    · rename_i hl
      exact .noFrame atEnd hl
    · rename_i n hl
      split
      · rename_i hk
        exact .finished atEnd hl hk
      · rename_i k ks hk
        dsimp only
        split
        · rename_i caller hf
          exact .returned atEnd hl hk hf
        · rename_i cause hf
          exact .callerLost atEnd hl hk hf
  · rename_i inside
    have inside : cursor < f.code.size := by omega
    split
    · rename_i budget hs
      exact .spent inside hs
    · rename_i hs
      unfold dispatch
      split
      · rename_i cause n he
        exact .refused inside hs he
      · rename_i c n he
        exact .next inside hs he
      · rename_i id back n he
        unfold beginCall
        split
        · rename_i cause hf
          exact .undefined inside hs he hf
        · rename_i g hf
          split
          · rename_i hd
            exact .tooDeep inside hs he hf hd
          · rename_i hd
            exact .called inside hs he hf (by omega)
      · rename_i n he
        exact .stopped inside hs he

theorem advance_of_eq {p : Program} {limits : Limits} {q : Position} {m : Machine} {r : Progress}
    (h : m.advance p limits q = r) : Advance p limits q.function q.cursor m r :=
  h ▸ advance_spec p limits q.function q.cursor m

/-! ### Any number of turns -/

/-- One turn that does not end the run. -/
def Turn (p : Program) (limits : Limits) (s t : Position × Machine) : Prop :=
  s.2.advance p limits s.1 = .running t.1 t.2

theorem Turn.of_advance {p : Program} {limits : Limits} {q q' : Position} {m m' : Machine}
    (h : m.advance p limits q = .running q' m') : Turn p limits (q, m) (q', m') := h

/-- Turns, none of which ends the run. -/
abbrev Reaches (p : Program) (limits : Limits) : Position × Machine → Position × Machine → Prop :=
  Relation.ReflTransGen (Turn p limits)

/-- After some turns the run ends, with a fault or without, and leaves a machine. -/
def EndsAs (p : Program) (limits : Limits) (s : Position × Machine) (fault? : Option Fault)
    (n : Machine) : Prop :=
  ∃ t, Reaches p limits s t ∧ t.2.advance p limits t.1 = .ended fault? n

theorem EndsAs.of_reaches {p : Program} {limits : Limits} {s t : Position × Machine}
    {fault? : Option Fault} {n : Machine} (h : Reaches p limits s t)
    (he : EndsAs p limits t fault? n) : EndsAs p limits s fault? n := by
  obtain ⟨u, hu, hn⟩ := he
  exact ⟨u, h.trans hu, hn⟩

/-- A state at the head of the loop in a run that was started on `m`. -/
def Visits (p : Program) (limits : Limits) (args : List Cell) (m : Machine) (s : Position × Machine) :
    Prop :=
  ∃ entered, storeArguments args.length args 0 (m.enter p.entryFunction) = .ok () entered ∧
    Reaches p limits (⟨p.entryFunction, 0⟩, entered) s

/-- What holds when the entry function begins and is kept by every turn holds in the whole run. -/
theorem Visits.induct {p : Program} {limits : Limits} {args : List Cell} {m : Machine}
    {I : Position × Machine → Prop} {s : Position × Machine} (h : Visits p limits args m s)
    (start : ∀ entered, entered.skeleton = (m.enter p.entryFunction).skeleton →
      I (⟨p.entryFunction, 0⟩, entered))
    (turn : ∀ s t, I s → Turn p limits s t → I t) : I s := by
  obtain ⟨entered, he, hr⟩ := h
  induction hr with
  | refl => exact start entered (storeArguments_skeleton he)
  | tail _ ht ih => exact turn _ _ ih ht

/-- A machine that was not used, or that runs of the program have left, however they ended. Each run
can have its own limits, arguments and sink. -/
inductive LeftBy (p : Program) : Machine → Prop
  | fresh (limits : Limits) (sink : Output) (journal : Journal) : LeftBy p (fresh limits sink journal)
  | run {m : Machine} (h : LeftBy p m) (limits : Limits) (args : List Cell) (sink : Output) :
    LeftBy p { (m.run p limits args).machine with sink := sink }

/-- What every turn keeps, the last one too, holds of the machine that is left. -/
theorem proceed_induct {p : Program} {limits : Limits} {I : Position × Machine → Prop}
    {J : Machine → Prop} (leave : ∀ s, I s → J s.2) (turn : ∀ s t, I s → Turn p limits s t → I t)
    (last : ∀ s fault? n, I s → s.2.advance p limits s.1 = .ended fault? n → J n) (turns : Nat)
    {q : Position} {m : Machine} (h : I (q, m)) : J (m.proceed p limits turns q).machine := by
  induction turns generalizing q m with
  | zero => exact leave (q, m) h
  | succ turns ih =>
    unfold proceed
    split
    · rename_i q' m' ha
      exact ih (turn (q, m) (q', m') h ha)
    · rename_i n ha
      exact last (q, m) none n h ha
    · rename_i fault n ha
      exact last (q, m) (some fault) n h ha

theorem continuations_sublist_of_ended {p : Program} {limits : Limits} {q : Position}
    {m n : Machine} {fault? : Option Fault} (h : m.advance p limits q = .ended fault? n) :
    n.continuations.items.Sublist m.continuations.items := by
  obtain ⟨f, cursor⟩ := q
  have hsame : ∀ {n' : Machine}, n'.continuations = m.continuations →
      n'.continuations.items.Sublist m.continuations.items := by
    intro n' hk
    exact congrArg Stack.items hk ▸ List.Sublist.refl _
  have hskeleton : ∀ {n' : Machine},
      n'.skeleton = ({ m with executed := m.executed + 1 } : Machine).skeleton →
        n'.continuations.items.Sublist m.continuations.items :=
    fun hs => hsame (congrArg Skeleton.continuations hs)
  cases advance_of_eq h with
  | noFrame atEnd hl => exact List.Sublist.refl _
  | spent inside hs => exact List.Sublist.refl _
  | finished atEnd hl hk => exact hsame (leave?_eq_some hl).1
  | callerLost atEnd hl hk hf =>
    rw [continuations_of_leave? hl hk]
    exact List.sublist_cons_self _ _
  | refused inside hs he => exact hskeleton (execute_skeleton_of_error he)
  | stopped inside hs he => exact hskeleton (execute_skeleton he)
  | undefined inside hs he hf => exact hskeleton (execute_skeleton he)
  | tooDeep inside hs he hf hd => exact hskeleton (execute_skeleton he)

def outcome (fault? : Option Fault) (m : Machine) : Outcome :=
  match fault? with
  | none => ⟨.value m.stack.top?, m⟩
  | some fault => ⟨.fault fault, m⟩

theorem proceed_succ_of_turn {p : Program} {limits : Limits} {s t : Position × Machine}
    (h : Turn p limits s t) (turns : Nat) :
    s.2.proceed p limits (turns + 1) s.1 = t.2.proceed p limits turns t.1 := by
  have ha : s.2.advance p limits s.1 = .running t.1 t.2 := h
  simp only [proceed, ha]

theorem proceed_succ_of_ended {p : Program} {limits : Limits} {q : Position} {m n : Machine}
    {fault? : Option Fault} (h : m.advance p limits q = .ended fault? n) (turns : Nat) :
    m.proceed p limits (turns + 1) q = outcome fault? n := by
  cases fault? <;> simp only [proceed, h, outcome]

/-! ### Enough turns -/

theorem executed_of_execute {p : Program} {f : Function} {cursor : Nat} {m n : Machine} {flow : Flow}
    (h : execute p f cursor { m with executed := m.executed + 1 } = .ok flow n) :
    n.executed = m.executed + 1 ∧ n.continuations = m.continuations := by
  have hs := execute_skeleton h
  exact ⟨congrArg Skeleton.executed hs, congrArg Skeleton.continuations hs⟩

def machineAfter : Progress → Machine
  | .running _ m => m
  | .ended _ m => m

/-- A turn executes one instruction, unless it ends a function or the budget is spent. -/
theorem executed_of_advance {p : Program} {limits : Limits} (q : Position) (m : Machine) :
    (machineAfter (m.advance p limits q)).executed =
      if q.function.code.size ≤ q.cursor ∨ m.spent? limits ≠ none then m.executed
      else m.executed + 1 := by
  obtain ⟨f, cursor⟩ := q
  have ha := advance_spec p limits f cursor m
  generalize m.advance p limits ⟨f, cursor⟩ = r at ha
  cases ha with
  | noFrame atEnd hl =>
    rw [if_pos (.inl atEnd)]
    rfl
  | finished atEnd hl hk | returned atEnd hl hk hf | callerLost atEnd hl hk hf =>
    rw [if_pos (.inl atEnd)]
    exact (leave?_eq_some hl).2.1
  | spent inside hs =>
    rw [if_pos (.inr (by simp [hs]))]
    rfl
  | refused inside hs he =>
    rw [if_neg (by simp [hs, inside])]
    exact congrArg Skeleton.executed (execute_skeleton_of_error he)
  | next inside hs he | stopped inside hs he | undefined inside hs he hf
  | tooDeep inside hs he hf hd | called inside hs he hf hd =>
    rw [if_neg (by simp [hs, inside])]
    exact (executed_of_execute he).1

theorem Advance.executed_le {p : Program} {limits : Limits} {f : Function} {cursor : Nat}
    {m : Machine} {r : Progress} (h : Advance p limits f cursor m r) :
    m.executed ≤ (machineAfter r).executed := by
  cases h with
  | noFrame atEnd hl => exact Nat.le_refl _
  | spent inside hs => exact Nat.le_refl _
  | finished atEnd hl hk => exact Nat.le_of_eq (leave?_eq_some hl).2.1.symm
  | returned atEnd hl hk hf => exact Nat.le_of_eq (leave?_eq_some hl).2.1.symm
  | callerLost atEnd hl hk hf => exact Nat.le_of_eq (leave?_eq_some hl).2.1.symm
  | refused inside hs he =>
    have hx := congrArg Skeleton.executed (execute_skeleton_of_error he)
    exact Nat.le_of_lt (Nat.lt_of_lt_of_eq (Nat.lt_succ_self _) hx.symm)
  | next inside hs he | stopped inside hs he | undefined inside hs he hf
  | tooDeep inside hs he hf hd | called inside hs he hf hd =>
    exact Nat.le_of_lt (Nat.lt_of_lt_of_eq (Nat.lt_succ_self _) (executed_of_execute he).1.symm)

theorem executed_le_of_reaches {p : Program} {limits : Limits} {s t : Position × Machine}
    (h : Reaches p limits s t) : s.2.executed ≤ t.2.executed := by
  induction h with
  | refl => exact Nat.le_refl _
  | tail _ ht ih => exact Nat.le_trans ih (advance_of_eq ht).executed_le

theorem executed_le_of_endsAs {p : Program} {limits : Limits} {s : Position × Machine}
    {fault? : Option Fault} {n : Machine} (h : EndsAs p limits s fault? n) :
    s.2.executed ≤ n.executed := by
  obtain ⟨t, hr, ha⟩ := h
  exact Nat.le_trans (executed_le_of_reaches hr) (advance_of_eq ha).executed_le

theorem executed_lt_of_unspent {limits : Limits} {budget : Nat} {m : Machine}
    (hb : limits.budget = some budget) (hs : m.spent? limits = none) : m.executed < budget := by
  simp only [spent?, hb] at hs
  split at hs
  · cases hs
  · omega

/-- Every turn takes something of the turns that are left: an instruction one unit of the budget,
the end of a function one continuation. -/
theorem turns_lt_of_turn {p : Program} {limits : Limits} {budget : Nat}
    (hb : limits.budget = some budget) {s t : Position × Machine} (h : Turn p limits s t) :
    t.2.turns limits < s.2.turns limits := by
  obtain ⟨⟨f, cursor⟩, m⟩ := s
  obtain ⟨q, n⟩ := t
  have ha : Advance p limits f cursor m (.running q n) := advance_of_eq h
  show n.turns limits < m.turns limits
  simp only [turns, hb]
  cases ha with
  | @returned n k ks caller atEnd hl hk hf =>
    obtain ⟨hc, he, -⟩ := leave?_eq_some hl
    have hd : n.continuations.depth = ks.depth + 1 := Stack.depth_of_pop? hk
    rw [hc] at hd
    simp only [executed_note, continuations_note, he]
    omega
  | next inside hs he =>
    obtain ⟨hx, hc⟩ := executed_of_execute he
    have hlt := executed_lt_of_unspent hb hs
    simp only [hx, hc]
    omega
  | @called id back g n inside hs he hf hd =>
    obtain ⟨hx, hc⟩ := executed_of_execute he
    have hlt := executed_lt_of_unspent hb hs
    have hp : (n.continuations.push ⟨back, f.id⟩).depth = m.continuations.depth + 1 := by
      rw [← hc]
      rfl
    simp only [executed_enter, continuations_enter, executed_note, hx, hp]
    omega

/-- With a budget, the turns that a run is given are enough for it to end. -/
theorem proceed_of_endsAs {p : Program} {limits : Limits} {budget : Nat}
    (hb : limits.budget = some budget) {s : Position × Machine} {fault? : Option Fault} {n : Machine}
    (h : EndsAs p limits s fault? n) {turns : Nat} (ht : s.2.turns limits ≤ turns) :
    s.2.proceed p limits turns s.1 = outcome fault? n := by
  obtain ⟨t, hr, ha⟩ := h
  -- From the front, since the first turn is the first that is counted.
  induction hr using Relation.ReflTransGen.head_induction_on generalizing turns with
  | refl =>
    obtain ⟨turns, rfl⟩ : ∃ k, turns = k + 1 := by
      simp only [Machine.turns, hb] at ht
      exact ⟨turns - 1, by omega⟩
    exact proceed_succ_of_ended ha turns
  | head hst _ ih =>
    have hlt := turns_lt_of_turn hb hst
    obtain ⟨turns, rfl⟩ : ∃ k, turns = k + 1 := ⟨turns - 1, by omega⟩
    rw [proceed_succ_of_turn hst]
    exact ih (by omega)

end Machine

end CellMachine
