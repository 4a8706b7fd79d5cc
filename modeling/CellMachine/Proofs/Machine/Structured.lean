import CellMachine.Proofs.Machine.Turns

/-!
# Structured evaluation

A reference for runs in which calls nest: the body of a called function is evaluated as a whole
inside the evaluation of its caller, and nothing is kept on a stack of continuations. Main
statement: with a budget, a run on a fresh machine ends as the structured evaluation does, with the
same operands, frames, output, journal and count of instructions.
-/

namespace CellMachine

/-- How the evaluation of a function body is over: at its end, by an instruction that stops the
program, or with a fault. -/
inductive Completion
  | returned
  | stopped
  | failed (fault : Fault)

namespace Completion

def fault? : Completion → Option Fault
  | returned | stopped => none
  | failed fault => some fault

def ending (m : Machine) : Completion → Ending
  | returned | stopped => .value m.stack.top?
  | failed fault => .fault fault

end Completion

namespace Machine

/-! ### The reference -/

/-- Evaluates the body of `f` from `cursor` on, to its end and the end of its frame. A call evaluates
the body of the callee on a new frame and then goes on behind the call; any other completion of the
callee completes its caller too. `depth` calls are open. Without `fuel` for the instructions in a row
there is no result. -/
def evaluate (p : Program) (limits : Limits) : (fuel depth : Nat) → Function → (cursor : Nat) →
    Machine → Option (Completion × Machine)
  | 0, _, _, _, _ => none
  | fuel + 1, depth, f, cursor, m =>
    if f.code.size ≤ cursor then
      match m.leave? with
      | some m => some (.returned, m)
      | none => some (.failed { cause := .noFrameToPop }, m)
    else
      match m.spent? limits with
      | some budget => some (.failed (Fault.located (.budgetSpent budget) f.id cursor), m)
      | none =>
        match execute p f cursor { m with executed := m.executed + 1 } with
        | .error cause m => some (.failed (Fault.located cause f.id cursor), m)
        | .ok .stop m => some (.stopped, m)
        | .ok (.next cursor) m => evaluate p limits fuel depth f cursor m
        | .ok (.call callee back) m =>
          match p.function callee with
          | .error cause => some (.failed (Fault.located cause f.id cursor), m)
          | .ok g =>
            if limits.maxCalls ≤ depth then
              some (.failed (Fault.located (.callDepth limits.maxCalls) f.id cursor), m)
            else do
              let m := (m.note (.call f.id g.id g.name)).enter g
              let (completion, m) ← evaluate p limits fuel (depth + 1) g 0 m
              match completion with
              | .returned => evaluate p limits fuel depth f back (m.note (.ret g.id f.id back))
              | completion => some (completion, m)

/-- A `CALL` that can be carried out: once its callee has returned, the evaluation of the caller goes on
three bytes behind the start of the instruction. -/
theorem evaluate_call {p : Program} {limits : Limits} {fuel depth cursor : Nat} {f g : Function}
    {m : Machine} {callee : UInt16} (inside : ¬ f.code.size ≤ cursor)
    (hi : f.code.instructionAt cursor = .ok ⟨.call, callee⟩) (hs : m.spent? limits = none)
    (hg : p.function callee = .ok g) (hd : ¬ limits.maxCalls ≤ depth) :
    evaluate p limits (fuel + 1) depth f cursor m = (do
      let m := { m with executed := m.executed + 1 }.note (.dispatch f.id cursor .call m.stack.depth)
      let m := (m.note (.call f.id g.id g.name)).enter g
      let (completion, m) ← evaluate p limits fuel (depth + 1) g 0 m
      match completion with
      | .returned =>
        evaluate p limits fuel depth f (cursor + 3) (m.note (.ret g.id f.id (cursor + 3)))
      | completion => some (completion, m)) := by
  have he : execute p f cursor { m with executed := m.executed + 1 } = .ok (.call callee (cursor + 3))
      ({ m with executed := m.executed + 1 }.note (.dispatch f.id cursor .call m.stack.depth)) :=
    execute_of_instructionAt hi _
  rw [evaluate, if_neg inside]
  simp only [hs, he, hg, if_neg hd]

/-- Evaluates a program: its arguments are stored into the frame of the entry function, and then the
body of that function is evaluated. -/
def evaluateProgram (p : Program) (limits : Limits) (fuel : Nat) (args : List Cell) (m : Machine) :
    Option Outcome :=
  match storeArguments args.length args 0 (m.enter p.entryFunction) with
  | .error cause m => some ⟨.fault { cause }, m⟩
  | .ok () m => do
    let (completion, m) ← evaluate p limits fuel 0 p.entryFunction 0 m
    return ⟨completion.ending m, m⟩

/-! ### Continuations do not matter to an instruction -/

def withContinuations (m : Machine) (ks : Stack Continuation) : Machine :=
  { m with continuations := ks }

theorem onStack_withContinuations {α : Type} (ks : Stack Continuation) (x : OperandStack.Op α) :
    Respects (fun _ => False) (fun m n => n = m.withContinuations ks) (onStack x) := by
  rintro ⟨stack, frames, continuations, executed, sink, journal⟩ _ rfl
  simp only [onStack, withContinuations]
  cases x stack with
  | ok a stack => exact .ok a rfl
  | error cause stack => exact .error cause rfl

theorem kept_withContinuations (ks : Stack Continuation) :
    Kept (fun _ => False) (fun m n => n = m.withContinuations ks) where
  push c := onStack_withContinuations ks _
  pop := onStack_withContinuations ks _
  popAs tag value? := onStack_withContinuations ks _
  swap := onStack_withContinuations ks _
  load scope t slot := by
    rintro m _ rfl
    simp only [load, withContinuations]
    cases m.frames.load scope t slot with
    | ok c => exact .ok c rfl
    | error cause => exact .error cause rfl
  store scope slot c := by
    rintro m _ rfl
    simp only [store, withContinuations]
    cases m.frames.checkSlot scope slot with
    | ok _ => exact .ok () rfl
    | error cause => exact .error cause rfl
  print pieces := by
    rintro ⟨stack, frames, continuations, executed, sink, journal⟩ _ rfl
    simp only [print, withContinuations]
    cases Output.print pieces sink with
    | ok _ sink => exact .ok () rfl
    | error reason sink => exact .error _ rfl
  noted e _ := by
    rintro m _ rfl
    exact .ok () rfl
  moment := by
    rintro m _ rfl
    exact .ok _ rfl

theorem execute_withContinuations {p : Program} {f : Function} {cursor : Nat} {m n : Machine}
    {flow : Flow} (h : execute p f cursor m = .ok flow n) (ks : Stack Continuation) :
    execute p f cursor (m.withContinuations ks) = .ok flow (n.withContinuations ks) := by
  have hr := (kept_withContinuations ks).execute p f cursor m _ rfl
  rw [h] at hr
  generalize execute p f cursor (m.withContinuations ks) = r at hr ⊢
  cases hr with
  | ok _ hn => rw [hn]

theorem execute_withContinuations_of_error {p : Program} {f : Function} {cursor : Nat}
    {m n : Machine} {cause : Cause} (h : execute p f cursor m = .error cause n)
    (ks : Stack Continuation) :
    execute p f cursor (m.withContinuations ks) = .error cause (n.withContinuations ks) := by
  have hr := (kept_withContinuations ks).execute p f cursor m _ rfl
  rw [h] at hr
  generalize execute p f cursor (m.withContinuations ks) = r at hr ⊢
  cases hr with
  | error _ hn => rw [hn]
  | excused _ he => exact he.elim

theorem leave?_withContinuations (m : Machine) (ks : Stack Continuation) :
    (m.withContinuations ks).leave? = m.leave?.map (·.withContinuations ks) := by
  simp only [leave?, withContinuations]
  cases m.frames.pop? with
  | none => rfl
  | some r => rfl

/-! ### The loop does what the reference does -/

/-- The loop, started at `s` in a body of `f` with the continuations `ks`, comes to what an
evaluation of that body has come to. -/
def Realised (p : Program) (limits : Limits) (ks : Stack Continuation) (s : Position × Machine)
    (f : Function) : Completion → Machine → Prop
  | .returned, n => ∃ cursor m, Reaches p limits s (⟨f, cursor⟩, m) ∧ f.code.size ≤ cursor ∧
      m.leave? = some (n.withContinuations ks)
  | .stopped, n => ∃ ks', EndsAs p limits s none (n.withContinuations ks')
  | .failed fault, n => ∃ ks', EndsAs p limits s (some fault) (n.withContinuations ks')

theorem Realised.of_reaches {p : Program} {limits : Limits} {ks : Stack Continuation}
    {s t : Position × Machine} {f : Function} {completion : Completion} {n : Machine}
    (h : Reaches p limits s t) (hr : Realised p limits ks t f completion n) :
    Realised p limits ks s f completion n := by
  cases completion with
  | returned =>
    obtain ⟨cursor, m, ht, hc, hl⟩ := hr
    exact ⟨cursor, m, h.trans ht, hc, hl⟩
  | stopped =>
    obtain ⟨ks', he⟩ := hr
    exact ⟨ks', .of_reaches h he⟩
  | failed fault =>
    obtain ⟨ks', he⟩ := hr
    exact ⟨ks', .of_reaches h he⟩

section Loop

variable {p : Program} {limits : Limits} {f g : Function} {cursor back : Nat} {m n : Machine}
  {ks : Stack Continuation}

theorem advance_end (atEnd : f.code.size ≤ cursor) :
    m.advance p limits ⟨f, cursor⟩ = m.endCall p f := by
  simp only [advance, if_pos atEnd]

theorem advance_of_ok (inside : ¬ f.code.size ≤ cursor) (hs : m.spent? limits = none) {flow : Flow}
    (he : execute p f cursor { m with executed := m.executed + 1 } = .ok flow n) :
    (m.withContinuations ks).advance p limits ⟨f, cursor⟩ =
      match flow with
      | .next c => .running ⟨f, c⟩ (n.withContinuations ks)
      | .call id back => (n.withContinuations ks).beginCall p limits f cursor id back
      | .stop => .ended none (n.withContinuations ks) := by
  have hs' : (m.withContinuations ks).spent? limits = none := hs
  have he' : execute p f cursor
      { m.withContinuations ks with executed := (m.withContinuations ks).executed + 1 } =
        .ok flow (n.withContinuations ks) := execute_withContinuations he ks
  simp only [advance, if_neg inside, hs', dispatch, he']
  cases flow <;> rfl

theorem advance_of_error (inside : ¬ f.code.size ≤ cursor) (hs : m.spent? limits = none)
    {cause : Cause}
    (he : execute p f cursor { m with executed := m.executed + 1 } = .error cause n) :
    (m.withContinuations ks).advance p limits ⟨f, cursor⟩ =
      .ended (some (Fault.located cause f.id cursor)) (n.withContinuations ks) := by
  have hs' : (m.withContinuations ks).spent? limits = none := hs
  have he' : execute p f cursor
      { m.withContinuations ks with executed := (m.withContinuations ks).executed + 1 } =
        .error cause (n.withContinuations ks) := execute_withContinuations_of_error he ks
  simp only [advance, if_neg inside, hs', dispatch, he']

/-- A call in the loop: the machine of the reference, with one continuation more. -/
theorem beginCall_eq {id : UInt16} (hg : p.function id = .ok g)
    (hd : ¬ limits.maxCalls ≤ ks.depth) :
    (n.withContinuations ks).beginCall p limits f cursor id back =
      .running ⟨g, 0⟩ (((n.note (.call f.id g.id g.name)).enter g).withContinuations
        (ks.push ⟨back, f.id⟩)) := by
  have hk : ¬ limits.maxCalls ≤ (n.withContinuations ks).continuations.depth := hd
  simp only [beginCall, hg, if_neg hk]
  rfl

theorem Realised.of_leave (atEnd : f.code.size ≤ cursor) (hn : m.leave? = some n) :
    Realised p limits ks (⟨f, cursor⟩, m.withContinuations ks) f .returned n := by
  have hl := leave?_withContinuations m ks
  rw [hn] at hl
  exact ⟨cursor, _, .refl, atEnd, hl⟩

theorem Realised.of_noFrame (atEnd : f.code.size ≤ cursor) (hn : m.leave? = none) :
    Realised p limits ks (⟨f, cursor⟩, m.withContinuations ks) f
      (.failed { cause := .noFrameToPop }) m := by
  have hl := leave?_withContinuations m ks
  rw [hn] at hl
  refine ⟨ks, _, .refl, ?_⟩
  rw [advance_end atEnd]
  simp only [endCall, hl, Option.map_none]

/-- The return from a call: the caller goes on behind the call, with one continuation less. -/
theorem Realised.return {s : Position × Machine} (hf : p.function f.id = .ok f)
    (h : Realised p limits (ks.push ⟨back, f.id⟩) s g .returned n) :
    Reaches p limits s (⟨f, back⟩, (n.note (.ret g.id f.id back)).withContinuations ks) := by
  obtain ⟨cursor, m, hr, atEnd, hl⟩ := h
  have hp : (ks.push ⟨back, f.id⟩).pop? = some (⟨back, f.id⟩, ks) := Stack.pop?_eq_some_iff.2 rfl
  have hret : Turn p limits (⟨g, cursor⟩, m)
      (⟨f, back⟩, (n.note (.ret g.id f.id back)).withContinuations ks) := by
    unfold Turn
    simp only [advance, if_pos atEnd, endCall, hl, withContinuations, hp, hf]
    rfl
  exact hr.tail hret

end Loop

/-- Whatever the reference comes to, the loop comes to with every continuation stack of the same
depth. The induction is on the fuel: a call contributes the turns of the callee's body, under one
continuation more, and after them those of the rest of the caller's. -/
theorem realised_of_evaluate {p : Program} {limits : Limits} {fuel depth : Nat} {f : Function}
    {cursor : Nat} {m : Machine} {r : Completion × Machine}
    (h : evaluate p limits fuel depth f cursor m = some r) (hf : p.function f.id = .ok f)
    (ks : Stack Continuation) (hk : ks.depth = depth) :
    Realised p limits ks (⟨f, cursor⟩, m.withContinuations ks) f r.1 r.2 := by
  induction fuel generalizing depth f cursor m r ks with
  | zero => cases h
  | succ fuel ih =>
    rw [evaluate] at h
    split at h
    · -- What the loop does behind the end of a body depends on the continuations below it.
      rename_i atEnd
      split at h
      · rename_i n hn
        cases h
        exact .of_leave atEnd hn
      · rename_i hn
        cases h
        exact .of_noFrame atEnd hn
    rename_i inside
    split at h
    · rename_i budget hs
      cases h
      have hs' : (m.withContinuations ks).spent? limits = some budget := hs
      exact ⟨ks, _, .refl, by simp only [advance, if_neg inside, hs']⟩
    rename_i hs
    split at h
    · rename_i cause n he
      cases h
      exact ⟨ks, _, .refl, advance_of_error inside hs he⟩
    · rename_i n he
      cases h
      exact ⟨ks, _, .refl, advance_of_ok inside hs he⟩
    · rename_i c n he
      have ht : Turn p limits (⟨f, cursor⟩, m.withContinuations ks)
          (⟨f, c⟩, n.withContinuations ks) := advance_of_ok inside hs he
      exact .of_reaches (.single ht) (ih h hf ks hk)
    rename_i id back n he
    have ha : (m.withContinuations ks).advance p limits ⟨f, cursor⟩ =
        (n.withContinuations ks).beginCall p limits f cursor id back := advance_of_ok inside hs he
    split at h
    · rename_i cause hg
      cases h
      refine ⟨ks, _, .refl, ha.trans ?_⟩
      simp only [beginCall, hg]
    rename_i g hg
    split at h
    · rename_i hd
      cases h
      have hd' : limits.maxCalls ≤ (n.withContinuations ks).continuations.depth := hk ▸ hd
      refine ⟨ks, _, .refl, ha.trans ?_⟩
      simp only [beginCall, hg, if_pos hd']
    rename_i hd
    have hcall : Turn p limits (⟨f, cursor⟩, m.withContinuations ks)
        (⟨g, 0⟩, ((n.note (.call f.id g.id g.name)).enter g).withContinuations
          (ks.push ⟨back, f.id⟩)) := ha.trans (beginCall_eq hg (hk ▸ hd))
    obtain ⟨⟨completion, n'⟩, hbody, hrest⟩ := Option.bind_eq_some_iff.1 h
    have hgid : p.function g.id = .ok g := Program.function_id hg
    have hdepth : (ks.push ⟨back, f.id⟩).depth = depth + 1 := by
      rw [← hk]
      rfl
    refine .of_reaches (.single hcall) ?_
    have hcallee := ih hbody hgid _ hdepth
    -- A callee that does not return leaves its continuations on the machine, and so does its caller.
    cases completion with
    | returned => exact .of_reaches (hcallee.return hf) (ih hrest hf ks hk)
    | stopped =>
      cases hrest
      exact hcallee
    | failed fault =>
      cases hrest
      exact hcallee

/-! ### The reference comes to something -/

theorem executed_le_of_evaluate {p : Program} {limits : Limits} {fuel depth : Nat} {f : Function}
    {cursor : Nat} {m : Machine} {r : Completion × Machine}
    (h : evaluate p limits fuel depth f cursor m = some r) (hf : p.function f.id = .ok f) :
    m.executed ≤ r.2.executed := by
  obtain ⟨completion, n⟩ := r
  have hk : (Stack.ofList (List.replicate depth (default : Continuation))).depth = depth := by
    simp [Stack.ofList]
  have hr := realised_of_evaluate h hf _ hk
  cases completion with
  | returned =>
    obtain ⟨cursor', m', ht, -, hl⟩ := hr
    have hx : n.executed = m'.executed := (leave?_eq_some hl).2.1
    have hle : m.executed ≤ m'.executed := executed_le_of_reaches ht
    exact hx ▸ hle
  | stopped =>
    obtain ⟨ks', he⟩ := hr
    exact executed_le_of_endsAs he
  | failed fault =>
    obtain ⟨ks', he⟩ := hr
    exact executed_le_of_endsAs he

/-- With a budget the reference comes to something: every instruction, those of callees too, uses a
unit of what is left of the budget. -/
theorem exists_evaluate {p : Program} {limits : Limits} {budget : Nat}
    (hb : limits.budget = some budget) {fuel : Nat} (depth : Nat) {f : Function}
    (hf : p.function f.id = .ok f) (cursor : Nat) (m : Machine)
    (hfuel : budget - m.executed < fuel) :
    ∃ r, evaluate p limits fuel depth f cursor m = some r := by
  induction fuel generalizing depth f cursor m with
  | zero => cases hfuel
  | succ fuel ih =>
    rw [evaluate]
    split
    · split
      · exact ⟨_, rfl⟩
      · exact ⟨_, rfl⟩
    split
    · exact ⟨_, rfl⟩
    rename_i hs
    have hlt := executed_lt_of_unspent hb hs
    split
    · exact ⟨_, rfl⟩
    · exact ⟨_, rfl⟩
    · rename_i c n he
      have hx := (executed_of_execute he).1
      exact ih depth hf c n (by omega)
    rename_i id back n he
    have hx := (executed_of_execute he).1
    split
    · exact ⟨_, rfl⟩
    rename_i g hg
    split
    · exact ⟨_, rfl⟩
    have hgid : p.function g.id = .ok g := Program.function_id hg
    have hin : ((n.note (.call f.id g.id g.name)).enter g).executed = n.executed := rfl
    obtain ⟨⟨completion, n'⟩, hbody⟩ :=
      ih (depth + 1) hgid 0 ((n.note (.call f.id g.id g.name)).enter g) (by omega)
    have hle : n.executed ≤ n'.executed := executed_le_of_evaluate hbody hgid
    have hback : (n'.note (.ret g.id f.id back)).executed = n'.executed := rfl
    simp only [hbody, Option.bind_eq_bind, Option.bind_some]
    cases completion with
    | returned => exact ih depth hf back _ (by omega)
    | stopped => exact ⟨_, rfl⟩
    | failed fault => exact ⟨_, rfl⟩

/-! ### Runs -/

/-- With no continuations below it the end of the body is the end of the run. -/
theorem Realised.endsAs {p : Program} {limits : Limits} {s : Position × Machine} {f : Function}
    {completion : Completion} {n : Machine}
    (h : Realised p limits Stack.empty s f completion n) :
    ∃ ks, EndsAs p limits s completion.fault? (n.withContinuations ks) := by
  cases completion with
  | returned =>
    obtain ⟨cursor, m, hr, atEnd, hl⟩ := h
    refine ⟨Stack.empty, _, hr, ?_⟩
    rw [advance_end atEnd]
    simp only [endCall, hl]
    rfl
  | stopped => exact h
  | failed fault => exact h

theorem outcome_fault? (completion : Completion) (n : Machine) (ks : Stack Continuation) :
    outcome completion.fault? (n.withContinuations ks) =
      ⟨completion.ending n, n.withContinuations ks⟩ := by
  cases completion <;> rfl

/-- With a budget, a run on a fresh machine ends as the structured evaluation does, which needs no more
fuel than the budget: both come to the same value or to the same fault, at the same place, and leave
the same operands, frames, output and journal after the same number of instructions. -/
theorem run_eq_evaluateProgram (p : Program) (limits : Limits) (budget : Nat) (args : List Cell)
    (sink : Output) (journal : Journal) (spare : Nat) :
    let limits := { limits with budget := some budget }
    let start := fresh limits sink journal
    let actual := start.run p limits args
    ∃ reference, evaluateProgram p limits (budget + 1 + spare) args start = some reference ∧
      actual.ending = reference.ending ∧ actual.ending ≠ .unfinished ∧
      actual.machine.sink = reference.machine.sink ∧
      actual.machine.stack = reference.machine.stack ∧
      actual.machine.executed = reference.machine.executed ∧
      actual.machine.frames = reference.machine.frames ∧
      actual.machine.journal = reference.machine.journal := by
  intro limits start actual
  cases hm : storeArguments args.length args 0 (start.enter p.entryFunction) with
  | error cause m =>
    have hrun : actual = ⟨.fault { cause }, m⟩ := by simp only [actual, run, hm]
    have href : evaluateProgram p limits (budget + 1 + spare) args start =
        some ⟨.fault { cause }, m⟩ := by
      simp only [evaluateProgram, hm]
    rw [hrun]
    exact ⟨_, href, rfl, by simp, rfl, rfl, rfl, rfl, rfl⟩
  | ok _ m =>
    have hentry := Program.function_id p.function_entry
    have hk : m.continuations = Stack.empty :=
      congrArg Skeleton.continuations (storeArguments_skeleton hm)
    have hm' : m.withContinuations Stack.empty = m := by rw [← hk]; rfl
    have hb : limits.budget = some budget := rfl
    have hfuel : budget - m.executed < budget + 1 + spare := by omega
    obtain ⟨⟨completion, n⟩, he⟩ := exists_evaluate hb 0 hentry 0 m hfuel
    obtain ⟨ks, hends⟩ := (realised_of_evaluate he hentry Stack.empty rfl).endsAs
    rw [hm'] at hends
    have hrun : actual = ⟨completion.ending n, n.withContinuations ks⟩ := by
      simp only [actual, run, hm]
      rw [proceed_of_endsAs hb hends (Nat.le_refl _)]
      exact outcome_fault? completion n ks
    have href : evaluateProgram p limits (budget + 1 + spare) args start =
        some ⟨completion.ending n, n⟩ := by
      simp only [evaluateProgram, hm, he]
      rfl
    rw [hrun]
    refine ⟨_, href, rfl, ?_, rfl, rfl, rfl, rfl, rfl⟩
    cases completion <;> simp [Completion.ending]

end Machine

end CellMachine
