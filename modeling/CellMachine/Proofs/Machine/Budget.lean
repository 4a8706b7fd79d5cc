import CellMachine.Proofs.Code
import CellMachine.Proofs.Machine.Output

/-!
# Budgets

A run under a budget and the same run under a looser one, or under none. Main statement: a budget cuts
a run short or makes no difference to it, and where it cuts is decided by the number of instructions
that the run has.
-/

namespace CellMachine

/-- The limits with another budget. -/
def Limits.within (limits : Limits) (budget : Option Nat) : Limits := { limits with budget }

namespace Machine

variable {p : Program} {limits : Limits}

/-! ### Instructions of a turn -/

theorem executed_le_budget {budget : Nat} (hb : limits.budget = some budget) {q : Position}
    {m : Machine} (hm : m.executed ≤ budget) :
    (machineAfter (m.advance p limits q)).executed ≤ budget := by
  rw [executed_of_advance]
  split
  · exact hm
  · rename_i h
    have hs : m.spent? limits = none := Classical.not_not.1 (not_or.1 h).2
    exact executed_lt_of_unspent hb hs

theorem executed_le_budget_of_reaches {budget : Nat} (hb : limits.budget = some budget)
    {s t : Position × Machine} (h : Reaches p limits s t) (hs : s.2.executed ≤ budget) :
    t.2.executed ≤ budget := by
  induction h with
  | refl => exact hs
  | @tail t u _ ht ih =>
    have ha := executed_le_budget (p := p) hb (q := t.1) ih
    rw [show t.2.advance p limits t.1 = .running u.1 u.2 from ht] at ha
    exact ha

theorem executed_after_le_of_endsAs {s : Position × Machine} {fault? : Option Fault} {n : Machine}
    (h : EndsAs p limits s fault? n) :
    (machineAfter (s.2.advance p limits s.1)).executed ≤ n.executed := by
  obtain ⟨t, hr, ha⟩ := h
  rcases Relation.ReflTransGen.cases_head hr with rfl | ⟨u, hu, hut⟩
  · rw [ha]
    exact Nat.le_refl _
  · rw [show s.2.advance p limits s.1 = .running u.1 u.2 from hu]
    exact executed_le_of_endsAs ⟨t, hut, ha⟩

/-! ### Faults of a spent budget -/

theorem kind_ne_budget_of_execute {f : Function} {cursor : Nat} {m n : Machine} {cause : Cause}
    (inside : cursor < f.code.size) (h : execute p f cursor m = .error cause n) :
    cause.kind ≠ .instructionBudget := by
  intro hk
  rcases (execute_outcomes p f cursor).of_error h with hread | ⟨i, -, hrefuses⟩
  · have hdecode := (Code.instructionAt_refused inside hread).1
    cases hk.symm.trans hdecode
  rcases hrefuses with ⟨-, rfl⟩ | ⟨offset, -, hjump⟩ | hmem
  · cases hk
  · cases hk.symm.trans (jumpTarget_refused hjump)
  · exact (kind_of_mem_refusals hmem).2 hk

theorem spent_of_kind {q : Position} {m n : Machine} {fault : Fault}
    (h : m.advance p limits q = .ended (some fault) n) (hk : fault.kind = .instructionBudget) :
    q.cursor < q.function.code.size ∧ m.spent? limits ≠ none := by
  obtain ⟨f, cursor⟩ := q
  cases advance_of_eq h with
  | spent inside hs => exact ⟨inside, by simp [hs]⟩
  | noFrame atEnd hl => cases hk
  | callerLost atEnd hl hks hf => cases (function_refused hf).symm.trans hk
  | undefined inside hs he hf => cases (function_refused hf).symm.trans hk
  | tooDeep inside hs he hf hd => cases hk
  | refused inside hs he => exact (kind_ne_budget_of_execute inside he hk).elim

/-! ### Two budgets -/

section TwoBudgets

variable {B : Nat} {B' : Option Nat}

/-- Budgets make no difference to the end of a function, nor where neither of them is spent. -/
theorem advance_congr_budget {q : Position} {m : Machine}
    (h : q.function.code.size ≤ q.cursor ∨
      m.spent? (limits.within (some B)) = m.spent? (limits.within B')) :
    m.advance p (limits.within (some B)) q = m.advance p (limits.within B') q := by
  unfold advance
  split
  · rfl
  · rename_i inside
    rcases h with atEnd | hs
    · exact (inside atEnd).elim
    · rw [hs]
      rfl

/-- Where the tighter budget cuts a run. -/
def CutAt (B : Nat) (s : Position × Machine) : Prop :=
  s.1.cursor < s.1.function.code.size ∧ B ≤ s.2.executed

theorem spent?_of_le {m : Machine} (h : B ≤ m.executed) :
    m.spent? (limits.within (some B)) = some B := by
  simp [spent?, Limits.within, h]

theorem spent?_of_lt {m : Machine} (h : ∀ b ∈ B', m.executed < b) :
    m.spent? (limits.within B') = none := by
  cases B' with
  | none => rfl
  | some b =>
    have hlt : m.executed < b := h b rfl
    have hb : ¬ b ≤ m.executed := Nat.not_le.2 hlt
    simp [spent?, Limits.within, hb]

theorem unspent_of_lt {m : Machine} (h : ∀ b ∈ limits.budget, m.executed < b) :
    m.spent? limits = none := spent?_of_lt h

theorem advance_of_cut {s : Position × Machine} (h : CutAt B s) :
    s.2.advance p (limits.within (some B)) s.1 =
      .ended (some (Fault.located (.budgetSpent B) s.1.function.id s.1.cursor)) s.2 := by
  have hinside : ¬ s.1.function.code.size ≤ s.1.cursor := Nat.not_le.2 h.1
  simp only [advance, if_neg hinside, spent?_of_le h.2]

theorem advance_of_not_cut (hB : ∀ b ∈ B', B ≤ b) {s : Position × Machine} (h : ¬ CutAt B s) :
    s.2.advance p (limits.within (some B)) s.1 = s.2.advance p (limits.within B') s.1 := by
  refine advance_congr_budget ?_
  rcases Nat.lt_or_ge s.1.cursor s.1.function.code.size with inside | atEnd
  · have hlt : s.2.executed < B := Nat.lt_of_not_le fun hle => h ⟨inside, hle⟩
    have hlt' : ∀ b ∈ B', s.2.executed < b := fun b hb => Nat.lt_of_lt_of_le hlt (hB b hb)
    have hB₁ : ∀ b ∈ some B, s.2.executed < b := by
      intro b hb
      cases hb
      exact hlt
    exact .inr ((spent?_of_lt hB₁).trans (spent?_of_lt hlt').symm)
  · exact .inl atEnd

theorem turn_of_tighter (hB : ∀ b ∈ B', B ≤ b) {s t : Position × Machine}
    (h : Turn p (limits.within (some B)) s t) : Turn p (limits.within B') s t := by
  have ha : s.2.advance p (limits.within (some B)) s.1 = .running t.1 t.2 := h
  have hcut : ¬ CutAt B s := by
    intro hcut
    rw [advance_of_cut hcut] at ha
    cases ha
  rw [advance_of_not_cut hB hcut] at ha
  exact ha

/-- How a run under a budget ends beside the same run under a looser one: the same way, or cut where
the other has executed as many instructions and is about to execute one more. -/
inductive EndsWithin (p : Program) (limits : Limits) (B : Nat) (B' : Option Nat)
    (s : Position × Machine) : Option Fault → Machine → Option Fault → Machine → Prop
  | same {fault? : Option Fault} {n : Machine} (hle : n.executed ≤ B)
    (hkind : fault?.map Fault.kind ≠ some .instructionBudget) :
    EndsWithin p limits B B' s fault? n fault? n
  | cut {t : Position × Machine} {fault?' : Option Fault} {n' : Machine}
    (hr : Reaches p (limits.within B') s t) (hat : CutAt B t) (hx : t.2.executed = B)
    (he : EndsAs p (limits.within B') t fault?' n') :
    EndsWithin p limits B B' s
      (some (Fault.located (.budgetSpent B) t.1.function.id t.1.cursor)) t.2 fault?' n'

theorem endsWithin (hB : ∀ b ∈ B', B ≤ b) {s : Position × Machine} (hs : s.2.executed ≤ B)
    {fault? fault?' : Option Fault} {n n' : Machine}
    (he : EndsAs p (limits.within (some B)) s fault? n)
    (he' : EndsAs p (limits.within B') s fault?' n') :
    EndsWithin p limits B B' s fault? n fault?' n' := by
  obtain ⟨t, hr, ha⟩ := he
  have hb : (limits.within (some B)).budget = some B := rfl
  have hle : t.2.executed ≤ B := executed_le_budget_of_reaches hb hr hs
  have hr' : Reaches p (limits.within B') s t :=
    Relation.ReflTransGen.mono (fun _ _ => turn_of_tighter hB) _ _ hr
  by_cases hat : CutAt B t
  · rw [advance_of_cut hat] at ha
    cases ha
    exact .cut hr' hat (Nat.le_antisymm hle hat.2) (he'.of_reached hr')
  · have hlast : n.executed ≤ B := by
      have hafter := executed_le_budget (p := p) hb (q := t.1) hle
      rw [ha] at hafter
      exact hafter
    have hkind : fault?.map Fault.kind ≠ some .instructionBudget := by
      intro hk
      obtain ⟨fault, rfl, hfault⟩ := Option.map_eq_some_iff.1 hk
      obtain ⟨inside, hspent⟩ := spent_of_kind ha hfault
      have hlt : t.2.executed < B := Nat.lt_of_not_le fun hge => hat ⟨inside, hge⟩
      refine hspent (spent?_of_lt fun b hmem => ?_)
      cases hmem
      exact hlt
    rw [advance_of_not_cut hB hat] at ha
    obtain ⟨rfl, rfl⟩ := he'.unique ⟨t, hr', ha⟩
    exact .same hlast hkind

/-- Past a cut, a run whose budget is not spent there executes one more instruction. -/
theorem executed_past_cut {t : Position × Machine} (hat : CutAt B t) (hx : t.2.executed = B)
    (hlt : ∀ b ∈ B', B < b) :
    (machineAfter (t.2.advance p (limits.within B') t.1)).executed = B + 1 := by
  have hunspent : t.2.spent? (limits.within B') = none := spent?_of_lt (hx ▸ hlt)
  rw [executed_of_advance, if_neg (by simp [hunspent, hat.1]), hx]

/-- A run goes no further than a cut only if its budget is the same one. -/
theorem budget_of_executed_le (hB : ∀ b ∈ B', B ≤ b) {t : Position × Machine} (hat : CutAt B t)
    (hx : t.2.executed = B) {fault? : Option Fault} {n : Machine}
    (he : EndsAs p (limits.within B') t fault? n) (hle : n.executed ≤ B) : B' = some B := by
  by_cases hlt : ∀ b ∈ B', B < b
  · have hafter := executed_after_le_of_endsAs he
    rw [executed_past_cut hat hx hlt] at hafter
    omega
  · obtain ⟨b, hmem, hge⟩ : ∃ b, b ∈ B' ∧ ¬ B < b := by simpa using hlt
    rw [Option.mem_def.1 hmem, Nat.le_antisymm (Nat.le_of_not_lt hge) (hB b hmem)]

end TwoBudgets

/-- How a run that its budget has cut stands to the same run under a looser budget: that run comes by
the very machine that is left here, where it is about to execute an instruction, and executes it if
its own budget is not spent too. -/
structure CutShort (p : Program) (limits : Limits) (B : Nat) (B' : Option Nat) (args : List Cell)
    (m : Machine) (cut whole : Outcome) : Prop where
  executed : cut.machine.executed = B
  output : cut.machine.sink.written.toList <+: whole.machine.sink.written.toList
  next : ∃ q, Visits p (limits.within B') args m (q, cut.machine) ∧
    q.cursor < q.function.code.size ∧
    cut.ending = .fault (Fault.located (.budgetSpent B) q.function.id q.cursor) ∧
    ((∀ b ∈ B', B < b) →
      (machineAfter (cut.machine.advance p (limits.within B') q)).executed = B + 1)

/-- Both runs start alike: arguments are stored before any budget is looked at. -/
theorem run_within_cases {B : Nat} {B' : Option Nat} (hB : ∀ b ∈ B', B ≤ b) {args : List Cell}
    {m : Machine} (hm : m.executed ≤ B) {whole : Outcome}
    (hw : ComesTo p (limits.within B') args m whole) :
    (m.run p (limits.within (some B)) args = whole ∧ whole.machine.executed ≤ B ∧
      whole.ending.kind? ≠ some .instructionBudget) ∨
    ∃ entered fault? n fault?' n',
      storeArguments args.length args 0 (m.enter p.entryFunction) = .ok () entered ∧
        m.run p (limits.within (some B)) args = outcome fault? n ∧ whole = outcome fault?' n' ∧
        EndsWithin p limits B B' (⟨p.entryFunction, 0⟩, entered) fault? n fault?' n' := by
  have hcut : ComesTo p (limits.within (some B)) args m (m.run p (limits.within (some B)) args) :=
    (comesTo_iff_run rfl).2 rfl
  rcases comesTo_iff.1 hw with ⟨cause, n, hn, rfl⟩ | ⟨entered, fault?', n', hn, he', rfl⟩
  · have hx : n.executed = m.executed :=
      congrArg Skeleton.executed (storeArguments_skeleton_of_error hn)
    have hkind : cause.kind = .bounds :=
      List.mem_singleton.1 ((storeArguments_refused args.length args 0).of_error hn)
    refine .inl ⟨by simp only [run, hn], ?_, ?_⟩
    · rw [hx]
      exact hm
    · simp [Ending.kind?, Fault.kind, hkind]
  · rcases comesTo_iff.1 hcut with ⟨cause, n, hno, -⟩ | ⟨entered₁, fault?, n, hn₁, he, hrun⟩
    · cases hn.symm.trans hno
    cases hn.symm.trans hn₁
    have hx : entered.executed = m.executed :=
      congrArg Skeleton.executed (storeArguments_skeleton hn)
    have hle : entered.executed ≤ B := by
      rw [hx]
      exact hm
    exact .inr ⟨entered, fault?, n, fault?', n', hn, hrun, rfl, endsWithin hB hle he he'⟩

theorem kind?_outcome (fault? : Option Fault) (n : Machine) :
    (outcome fault? n).ending.kind? = fault?.map Fault.kind := by
  cases fault? <;> rfl

/-- The budget only cuts a run. A run under the budget `B` ends after at most `B` instructions. Unless
it ends because the budget is spent, it is the run under any looser budget or under none; otherwise it
is cut short. Which of the two it is depends on whether that other run has more than `B` instructions. -/
theorem run_within (p : Program) (limits : Limits) (args : List Cell) (sink : Output)
    (journal : Journal) {B : Nat} {B' : Option Nat} (hB : ∀ b ∈ B', B ≤ b) {whole : Outcome}
    (hw : ComesTo p (limits.within B') args (fresh limits sink journal) whole) :
    let cut := (fresh limits sink journal).run p (limits.within (some B)) args
    ComesTo p (limits.within (some B)) args (fresh limits sink journal) cut ∧
      cut.machine.executed ≤ B ∧
      (cut.ending.kind? ≠ some .instructionBudget → cut = whole) ∧
      (cut.ending.kind? = some .instructionBudget →
        CutShort p limits B B' args (fresh limits sink journal) cut whole) ∧
      (whole.machine.executed ≤ B → cut = whole) ∧
      (B < whole.machine.executed → cut.ending.kind? = some .instructionBudget) := by
  intro cut
  have hcut : ComesTo p (limits.within (some B)) args (fresh limits sink journal) cut :=
    (comesTo_iff_run rfl).2 rfl
  rcases run_within_cases hB (Nat.zero_le B) hw with
    ⟨hsame, hle, hkind⟩ | ⟨entered, fault?, n, fault?', n', hn, hrun, hwhole, hends⟩
  · have hsame : cut = whole := hsame
    rw [hsame]
    exact ⟨hsame ▸ hcut, hle, fun _ => rfl, fun h => (hkind h).elim, fun _ => rfl, by omega⟩
  have hrun : cut = outcome fault? n := hrun
  cases hends with
  | same hle hkind =>
    have hsame : cut = whole := hrun.trans hwhole.symm
    rw [hsame, hwhole, outcome_machine, kind?_outcome]
    exact ⟨hwhole ▸ hsame ▸ hcut, hle, fun _ => rfl, fun h => (hkind h).elim, fun _ => rfl, by omega⟩
  | @cut t _ _ hr hat hx he =>
    have hshort : CutShort p limits B B' args (fresh limits sink journal)
        (outcome (some (Fault.located (.budgetSpent B) t.1.function.id t.1.cursor)) t.2)
        (outcome fault?' n') := by
      refine ⟨hx, ?_, t.1, ⟨entered, hn, hr⟩, hat.1, rfl, executed_past_cut hat hx⟩
      rw [outcome_machine, outcome_machine]
      exact (extends_of_endsAs he).written
    have hfurther : whole.machine.executed ≤ B → cut = whole := by
      intro hwle
      rw [hwhole, outcome_machine] at hwle
      rw [budget_of_executed_le hB hat hx he hwle] at hw
      exact hcut.unique hw
    have hle : cut.machine.executed ≤ B := by
      rw [hrun]
      exact Nat.le_of_eq hx
    have hkind : cut.ending.kind? = some .instructionBudget := by
      rw [hrun]
      rfl
    rw [← hrun, ← hwhole] at hshort
    exact ⟨hcut, hle, fun h => (h hkind).elim, fun _ => hshort, hfurther, fun _ => hkind⟩

/-- A program that prints a one. -/
def printsOne : Program := .single 0 ⟨#[(Opcode.one .int).tag, (Opcode.print .int).tag]⟩

/-- A budget of one instruction cuts the program before it prints. -/
theorem run_within_printsOne : ∃ cut whole : Outcome,
    ComesTo printsOne {} [] (fresh {} {} {}) whole ∧ whole.machine.executed = 2 ∧
      cut.ending.kind? = some .instructionBudget ∧
      CutShort printsOne {} 1 none [] (fresh {} {} {}) cut whole := by
  have hw : ComesTo printsOne {} [] (fresh {} {} {}) ((fresh {} {} {}).runWithin printsOne {} [] 4) :=
    ⟨⟨4, rfl⟩, by decide +kernel⟩
  have hx : ((fresh {} {} {}).runWithin printsOne {} [] 4).machine.executed = 2 := by decide +kernel
  have hB : ∀ b ∈ (none : Option Nat), 1 ≤ b := fun b hb => nomatch hb
  obtain ⟨-, -, -, hcut, -, hlonger⟩ := run_within printsOne {} [] {} {} hB hw
  have hkind := hlonger (by rw [hx]; decide)
  exact ⟨_, _, hw, hx, hkind, hcut hkind⟩

end Machine

end CellMachine
