import CellMachine.Proofs.Machine.Turns

/-!
# How runs end

`run` gives a run as many turns as it may need. `ComesTo` is what a run comes to in whatever number of
turns that takes. Main statements: there is at most one such outcome, `run` comes to it unless it
leaves the run unfinished, and with a budget it never does.
-/

namespace CellMachine

/-- The kind of the fault that a run ended with, if it ended with one. -/
def Ending.kind? : Ending → Option FaultKind
  | .fault f => some f.kind
  | .value _ | .unfinished => none

namespace Machine

variable {p : Program} {limits : Limits}

/-! ### Turns leave no choice -/

theorem Turn.unique {s t t' : Position × Machine} (h : Turn p limits s t) (h' : Turn p limits s t') :
    t = t' := by
  have hrunning : Progress.running t.1 t.2 = .running t'.1 t'.2 := Eq.trans (Eq.symm h) h'
  injection hrunning with hposition hmachine
  exact Prod.ext hposition hmachine

/-- Whatever an ending run has reached, it ends from there as it does from its start. -/
theorem EndsAs.of_reached {s t : Position × Machine} {fault? : Option Fault} {n : Machine}
    (h : EndsAs p limits s fault? n) (hr : Reaches p limits s t) : EndsAs p limits t fault? n := by
  induction hr with
  | refl => exact h
  | tail _ ht ih =>
    obtain ⟨u, hu, ha⟩ := ih
    rcases Relation.ReflTransGen.cases_head hu with rfl | ⟨c, hc, hcu⟩
    · cases Eq.trans (Eq.symm ht) ha
    · rw [hc.unique ht] at hcu
      exact ⟨u, hcu, ha⟩

theorem EndsAs.unique {s : Position × Machine} {fault? fault?' : Option Fault} {n n' : Machine}
    (h : EndsAs p limits s fault? n) (h' : EndsAs p limits s fault?' n') :
    fault? = fault?' ∧ n = n' := by
  obtain ⟨t, ht, ha⟩ := h
  obtain ⟨u, hu, hb⟩ := h'.of_reached ht
  rcases Relation.ReflTransGen.cases_head hu with rfl | ⟨c, hc, -⟩
  · cases ha.symm.trans hb
    exact ⟨rfl, rfl⟩
  · cases Eq.trans (Eq.symm ha) hc

/-! ### Turns and their number -/

theorem outcome_ne_unfinished (fault? : Option Fault) (n : Machine) :
    (outcome fault? n).ending ≠ .unfinished := by
  cases fault? <;> simp [outcome]

@[simp] theorem outcome_machine (fault? : Option Fault) (n : Machine) :
    (outcome fault? n).machine = n := by
  cases fault? <;> rfl

theorem outcome_ending_congr (fault? : Option Fault) {m n : Machine} (h : m.stack = n.stack) :
    (outcome fault? m).ending = (outcome fault? n).ending := by
  cases fault? with
  | some fault => rfl
  | none => exact congrArg (fun s => Ending.value s.top?) h

theorem endsAs_of_finished {turns : Nat} {q : Position} {m : Machine}
    (h : (m.proceed p limits turns q).ending ≠ .unfinished) :
    ∃ fault? n, m.proceed p limits turns q = outcome fault? n ∧
      EndsAs p limits (q, m) fault? n := by
  induction turns generalizing q m with
  | zero => exact (h rfl).elim
  | succ turns ih =>
    cases ha : m.advance p limits q with
    | running q' m' =>
      have ht : Turn p limits (q, m) (q', m') := ha
      have hp : m.proceed p limits (turns + 1) q = m'.proceed p limits turns q' :=
        proceed_succ_of_turn ht turns
      rw [hp] at h ⊢
      obtain ⟨fault?, n, hn, he⟩ := ih h
      exact ⟨fault?, n, hn, .of_reaches (.single ht) he⟩
    | ended fault? n =>
      have hp := proceed_succ_of_ended ha turns
      exact ⟨fault?, n, hp, (q, m), .refl, ha⟩

theorem EndsAs.exists_proceed {s : Position × Machine} {fault? : Option Fault} {n : Machine}
    (h : EndsAs p limits s fault? n) :
    ∃ turns, s.2.proceed p limits turns s.1 = outcome fault? n := by
  obtain ⟨t, hr, ha⟩ := h
  induction hr using Relation.ReflTransGen.head_induction_on with
  | refl => exact ⟨1, proceed_succ_of_ended ha 0⟩
  | head hst _ ih =>
    obtain ⟨turns, hturns⟩ := ih
    exact ⟨turns + 1, (proceed_succ_of_turn hst turns).trans hturns⟩

/-- With a budget a run cannot use up the turns that it is given. -/
theorem proceed_finishes {budget : Nat} (hb : limits.budget = some budget) {turns : Nat}
    {q : Position} {m : Machine} (ht : m.turns limits ≤ turns) :
    (m.proceed p limits turns q).ending ≠ .unfinished := by
  induction turns generalizing q m with
  | zero =>
    simp only [Machine.turns, hb] at ht
    omega
  | succ turns ih =>
    cases ha : m.advance p limits q with
    | running q' m' =>
      have hturn : Turn p limits (q, m) (q', m') := ha
      have hless : m'.turns limits < m.turns limits := turns_lt_of_turn hb hturn
      have hp : m.proceed p limits (turns + 1) q = m'.proceed p limits turns q' :=
        proceed_succ_of_turn hturn turns
      rw [hp]
      exact ih (by omega)
    | ended fault? n =>
      rw [proceed_succ_of_ended ha]
      exact outcome_ne_unfinished fault? n

/-! ### Runs and their outcomes -/

/-- A run that is given a number of turns, whatever its limits are. -/
def runWithin (p : Program) (limits : Limits) (args : List Cell) (turns : Nat) (m : Machine) :
    Outcome :=
  match storeArguments args.length args 0 (m.enter p.entryFunction) with
  | .error cause m => ⟨.fault { cause }, m⟩
  | .ok () m => m.proceed p limits turns ⟨p.entryFunction, 0⟩

/-- What a run comes to, in whatever number of turns. -/
def ComesTo (p : Program) (limits : Limits) (args : List Cell) (m : Machine) (o : Outcome) : Prop :=
  (∃ turns, m.runWithin p limits args turns = o) ∧ o.ending ≠ .unfinished

variable {args : List Cell} {m : Machine}

theorem run_eq_runWithin (p : Program) (limits : Limits) (args : List Cell) (m : Machine) :
    m.run p limits args = m.runWithin p limits args (m.turns limits) := by
  unfold run runWithin
  cases hn : storeArguments args.length args 0 (m.enter p.entryFunction) with
  | error cause n => rfl
  | ok _ n =>
    have hs : n.skeleton = (m.enter p.entryFunction).skeleton := storeArguments_skeleton hn
    have hx : n.executed = m.executed := congrArg Skeleton.executed hs
    have hk : n.continuations = m.continuations := congrArg Skeleton.continuations hs
    have ht : n.turns limits = m.turns limits := by simp only [Machine.turns, hx, hk]
    simp only [ht]

/-- A run comes to an end if its arguments cannot be stored, or as its turns do. -/
theorem comesTo_iff {o : Outcome} :
    ComesTo p limits args m o ↔
      (∃ cause n, storeArguments args.length args 0 (m.enter p.entryFunction) = .error cause n ∧
        o = ⟨.fault { cause }, n⟩) ∨
      ∃ entered fault? n,
        storeArguments args.length args 0 (m.enter p.entryFunction) = .ok () entered ∧
          EndsAs p limits (⟨p.entryFunction, 0⟩, entered) fault? n ∧ o = outcome fault? n := by
  unfold ComesTo runWithin
  cases hn : storeArguments args.length args 0 (m.enter p.entryFunction) with
  | error cause n =>
    constructor
    · rintro ⟨⟨turns, rfl⟩, -⟩
      exact .inl ⟨cause, n, rfl, rfl⟩
    · rintro (⟨cause', n', heq, rfl⟩ | ⟨entered, fault?, n', heq, -⟩)
      · cases heq
        exact ⟨⟨0, rfl⟩, by simp⟩
      · cases heq
  | ok _ entered =>
    constructor
    · rintro ⟨⟨turns, rfl⟩, hfinished⟩
      obtain ⟨fault?, n', hp, he⟩ := endsAs_of_finished hfinished
      exact .inr ⟨entered, fault?, n', rfl, he, hp⟩
    · rintro (⟨cause', n', heq, -⟩ | ⟨entered', fault?, n', heq, he, rfl⟩)
      · cases heq
      · cases heq
        exact ⟨he.exists_proceed, outcome_ne_unfinished fault? n'⟩

theorem comesTo_of_visits {s : Position × Machine} {fault? : Option Fault} {n : Machine}
    (hv : Visits p limits args m s) (ha : s.2.advance p limits s.1 = .ended fault? n) :
    ComesTo p limits args m (outcome fault? n) := by
  obtain ⟨entered, hentered, hr⟩ := hv
  exact comesTo_iff.2 (.inr ⟨entered, fault?, n, hentered, ⟨s, hr, ha⟩, rfl⟩)

theorem ComesTo.unique {o o' : Outcome} (h : ComesTo p limits args m o)
    (h' : ComesTo p limits args m o') : o = o' := by
  rcases comesTo_iff.1 h with ⟨cause, n, hn, rfl⟩ | ⟨entered, fault?, n, hn, he, rfl⟩ <;>
  rcases comesTo_iff.1 h' with ⟨cause', n', hn', rfl⟩ | ⟨entered', fault?', n', hn', he', rfl⟩ <;>
  cases hn.symm.trans hn'
  · rfl
  · obtain ⟨rfl, rfl⟩ := he.unique he'
    rfl

theorem comesTo_run (h : (m.run p limits args).ending ≠ .unfinished) :
    ComesTo p limits args m (m.run p limits args) :=
  ⟨⟨_, (run_eq_runWithin p limits args m).symm⟩, h⟩

theorem run_finishes {budget : Nat} (hb : limits.budget = some budget) :
    (m.run p limits args).ending ≠ .unfinished := by
  unfold run
  cases hn : storeArguments args.length args 0 (m.enter p.entryFunction) with
  | error cause n => simp
  | ok _ n => exact proceed_finishes hb (Nat.le_refl _)

/-- A fault is of the arguments, or the last turn of the run ended with it. -/
theorem ComesTo.fault_cases {o : Outcome} (h : ComesTo p limits args m o) {fault : Fault}
    (hf : o.ending = .fault fault) :
    (∃ cause n, storeArguments args.length args 0 (m.enter p.entryFunction) = .error cause n ∧
      fault = { cause }) ∨
    ∃ q n, Visits p limits args m (q, n) ∧ n.advance p limits q = .ended (some fault) o.machine := by
  rcases comesTo_iff.1 h with ⟨cause, n, hn, rfl⟩ | ⟨entered, fault?, n, hn, ⟨t, hr, ha⟩, rfl⟩
  · cases hf
    exact .inl ⟨cause, n, hn, rfl⟩
  · cases fault? with
    | none => cases hf
    | some fault' =>
      cases hf
      exact .inr ⟨t.1, t.2, ⟨entered, hn, hr⟩, ha⟩

/-- With a budget `run` finds what the run comes to, and nothing else. -/
theorem comesTo_iff_run {budget : Nat} (hb : limits.budget = some budget) {o : Outcome} :
    ComesTo p limits args m o ↔ m.run p limits args = o := by
  have hrun : ComesTo p limits args m (m.run p limits args) := comesTo_run (run_finishes hb)
  constructor
  · exact fun h => hrun.unique h
  · intro h
    rw [← h]
    exact hrun

end Machine

/-- A program of one function. -/
def Program.single (locals : UInt16) (code : Code) : Program where
  functions := #[⟨0, "main", {}, locals, code⟩]
  constants := #[]
  natives := #[]
  entry := 0
  functions_fit := by simp [idSpace]
  natives_fit := Nat.zero_le _
  id_eq_position i h := by
    have hi : i = 0 := Nat.lt_one_iff.1 h
    subst hi
    rfl
  entry_lt := Nat.zero_lt_one

end CellMachine
