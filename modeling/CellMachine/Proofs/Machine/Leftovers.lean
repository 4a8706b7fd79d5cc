import CellMachine.Proofs.Machine.Parallel
import CellMachine.Proofs.Machine.Reuse
import CellMachine.Proofs.Machine.Simulation
import Mathlib.Data.List.Forall2

/-!
# Runs upon leftover frames

A run begins its frames on top of those that earlier runs left. Main statement: on a machine without
continuations the frames beneath make no difference and stay as they are, unless the run without them
ends because a context has no active frame.
-/

namespace CellMachine

/-- Frames that differ at most in the number of their call. -/
structure Frame.HoldsSame (f g : Frame) : Prop where
  function : f.function = g.function
  slots : f.slots = g.slots

namespace Frame.HoldsSame

variable {f g : Frame} (h : f.HoldsSame g)

include h

theorem selects (scope : Scope) : scope.selects f = scope.selects g := by
  cases scope with
  | top => rfl
  | context id => simp only [Scope.selects, h.function]

theorem locals : f.locals = g.locals := by
  simp only [Frame.locals, h.slots]

theorem outOfRange (slot : UInt16) : f.outOfRange slot = g.outOfRange slot := by
  simp only [Frame.outOfRange, h.function, h.locals]

theorem load (t : ValueType) (slot : UInt16) : f.load t slot = g.load t slot := by
  simp only [Frame.load, h.slots, h.outOfRange]

theorem write (slot : UInt16) (c : Cell) : (f.write slot c).HoldsSame (g.write slot c) where
  function := h.function
  slots := congrArg (·.modify slot.toNat (·.set c)) h.slots

end Frame.HoldsSame

namespace FrameStack

/-- The second stack has the frames of the first upon `below`. -/
def IsUpon (below : List Frame) (s t : FrameStack) : Prop :=
  ∃ upper, t.frames.items = upper ++ below ∧ List.Forall₂ Frame.HoldsSame s.frames.items upper

def RunsUpon (below : List Frame) (s t : FrameStack) : Prop :=
  IsUpon below s t ∧ s.frames.items ≠ []

/-- A lookup for a scope that finds nothing in the frames of a run. -/
def ReachesBelow (scope : Scope) (cause : Cause) : Prop :=
  ∃ id, scope = .context id ∧ cause = .inactiveContext id

variable {below : List Frame} {s t : FrameStack}

theorem find?_same {xs ys : List Frame} (h : List.Forall₂ Frame.HoldsSame xs ys) (scope : Scope) :
    Option.Rel Frame.HoldsSame (xs.find? scope.selects) (ys.find? scope.selects) := by
  induction h with
  | nil => exact .none
  | cons hfr _ ih =>
    rw [List.find?_cons, List.find?_cons, hfr.selects]
    split
    · exact .some hfr
    · exact ih

theorem updateFirst_upon {xs ys : List Frame} (h : List.Forall₂ Frame.HoldsSame xs ys) {scope : Scope}
    {fr : Frame} (hmem : fr ∈ xs) (hselected : scope.selects fr = true) (slot : UInt16) (c : Cell)
    (below : List Frame) :
    ∃ zs, Stack.updateFirst scope.selects (·.write slot c) (ys ++ below) = zs ++ below ∧
      List.Forall₂ Frame.HoldsSame (Stack.updateFirst scope.selects (·.write slot c) xs) zs := by
  induction h with
  | nil => cases hmem
  | @cons x y xs ys hxy hrest ih =>
    rw [List.cons_append, Stack.updateFirst_cons, Stack.updateFirst_cons, hxy.selects]
    by_cases hy : scope.selects y
    · rw [if_pos hy, if_pos hy]
      exact ⟨y.write slot c :: ys, rfl, .cons (hxy.write slot c) hrest⟩
    · rw [if_neg hy, if_neg hy]
      rcases List.mem_cons.1 hmem with rfl | hmem
      · exact (hy (hxy.selects scope ▸ hselected)).elim
      · obtain ⟨zs, hzs, hsame⟩ := ih hmem
        exact ⟨y :: zs, by rw [hzs, List.cons_append], .cons hxy hsame⟩

namespace IsUpon

theorem push (h : IsUpon below s t) (function locals : UInt16) :
    IsUpon below (s.push function locals) (t.push function locals) := by
  obtain ⟨upper, ht, hsame⟩ := h
  refine ⟨Frame.fresh function t.next locals :: upper, ?_, .cons ⟨rfl, rfl⟩ hsame⟩
  rw [items_push, ht, List.cons_append]

/-- A pop does not get to the frames below as long as there is one above. -/
theorem pop (h : IsUpon below s t) (hs : s.frames.items ≠ []) :
    Option.Rel (fun x y => IsUpon below x.2 y.2) s.pop? t.pop? := by
  obtain ⟨upper, ht, hsame⟩ := h
  cases hp : s.pop? with
  | none => exact (hs (pop?_eq_none hp)).elim
  | some x =>
    rw [(pop?_eq_some hp).1] at hsame
    cases hsame with
    | cons _ hrest =>
      rw [List.cons_append] at ht
      cases hp' : t.pop? with
      | none => cases (pop?_eq_none hp').symm.trans ht
      | some y =>
        have hitems := (pop?_eq_some hp').1.symm.trans ht
        exact .some ⟨_, (List.cons.inj hitems).2, hrest⟩

theorem frame (h : IsUpon below s t) (hs : s.frames.items ≠ []) (scope : Scope) :
    Matched (ReachesBelow scope) Frame.HoldsSame (s.frame scope) (t.frame scope) := by
  obtain ⟨upper, ht, hsame⟩ := h
  have hfind := find?_same hsame scope
  unfold FrameStack.frame
  rw [ht, List.find?_append]
  cases hx : s.frames.items.find? scope.selects with
  | some fr =>
    rw [hx] at hfind
    generalize upper.find? scope.selects = y at hfind
    cases hfind with
    | some hfr => exact .ok hfr
  | none =>
    cases scope with
    | context id => exact .excused _ ⟨id, rfl, rfl⟩
    | top =>
      obtain ⟨fr, hfr⟩ := List.exists_mem_of_ne_nil _ hs
      cases List.find?_eq_none.1 hx fr hfr rfl

theorem load (h : IsUpon below s t) (hs : s.frames.items ≠ []) (scope : Scope) (type : ValueType)
    (slot : UInt16) :
    Matched (ReachesBelow scope) Eq (s.load scope type slot) (t.load scope type slot) := by
  have hframe := h.frame hs scope
  unfold FrameStack.load
  generalize s.frame scope = x at hframe
  generalize t.frame scope = y at hframe
  cases hframe with
  | error cause => exact .error cause
  | excused r hex => exact .excused _ hex
  | ok hfr =>
    dsimp only
    rw [hfr.load]
    exact .same _

theorem write (h : IsUpon below s t) {scope : Scope} {fr : Frame} (hfr : s.frame scope = .ok fr)
    (slot : UInt16) (c : Cell) :
    RunsUpon below (s.write scope slot c) (t.write scope slot c) := by
  obtain ⟨upper, ht, hsame⟩ := h
  obtain ⟨above, rest, hr⟩ := resolves_of_frame hfr
  obtain ⟨upper', hupper, hsame'⟩ := updateFirst_upon hsame (mem_of_frame hfr) hr.selected slot c below
  refine ⟨⟨upper', ?_, hsame'⟩, ?_⟩
  · rw [← hupper, ← ht]
    rfl
  · show Stack.updateFirst scope.selects (·.write slot c) s.frames.items ≠ []
    rw [hr.items, Stack.updateFirst_of_split hr.passed hr.selected]
    exact List.append_ne_nil_of_right_ne_nil _ (List.cons_ne_nil _ _)

theorem store (h : IsUpon below s t) (hs : s.frames.items ≠ []) (scope : Scope) (slot : UInt16)
    (c : Cell) :
    Matched (ReachesBelow scope) (RunsUpon below) (s.store scope slot c) (t.store scope slot c) := by
  have hframe := h.frame hs scope
  unfold FrameStack.store checkSlot
  cases hx : s.frame scope with
  | error cause =>
    rw [hx] at hframe
    generalize t.frame scope = y at hframe
    cases hframe with
    | error _ => exact .error cause
    | excused r hex => exact .excused _ hex
  | ok fr =>
    rw [hx] at hframe
    generalize t.frame scope = y at hframe
    cases hframe with
    | @ok _ fr' hfr =>
      dsimp only
      rw [hfr.locals, hfr.outOfRange]
      by_cases hslot : slot.toNat < fr'.locals
      · rw [if_pos hslot]
        exact .ok (h.write hx slot c)
      · rw [if_neg hslot]
        exact .error _

end IsUpon

/-- As long as the run has frames of its own, only a context can reach below them. -/
theorem variablesKept_runsUpon (below : List Frame) :
    VariablesKept (fun cause => ∃ id, cause = .inactiveContext id) (RunsUpon below) where
  load h scope type slot := (h.1.load h.2 scope type slot).mono fun _ ⟨id, _, hc⟩ => ⟨id, hc⟩
  store h scope slot c := (h.1.store h.2 scope slot c).mono fun _ ⟨id, _, hc⟩ => ⟨id, hc⟩

end FrameStack

namespace Machine

open FrameStack (IsUpon RunsUpon)

variable {p : Program} {limits : Limits} {args : List Cell} {m n : Machine} {below : List Frame}

/-- The machine with no frames, as if its next call were the one with this number. -/
def withoutFrames (m : Machine) (next : Nat) : Machine := { m with frames := ⟨Stack.empty, next⟩ }

/-- The next turn ends the run because a context has no active frame. -/
def EndsBelow (p : Program) (limits : Limits) (s : Position × Machine) : Prop :=
  ∃ id n, s.2.advance p limits s.1 =
    .ended (some (Fault.located (.inactiveContext id) s.1.function.id s.1.cursor)) n

/-! ### One turn -/

theorem alike_of_runsUpon (h : Alike Eq (RunsUpon below) Eq m n) : Alike Eq (IsUpon below) Eq m n :=
  ⟨h.stack, h.frames.1, h.continuations, h.executed, h.sink⟩

/-- The step of the simulation. That there are more frames than continuations keeps the end of a call
from reaching below. -/
theorem simulates_isUpon (below : List Frame) :
    Simulates p p limits limits
      (fun s t => s.1 = t.1 ∧ Alike Eq (IsUpon below) Eq s.2 t.2 ∧ Balanced p s)
      (fun s _ => EndsBelow p limits s) (Alike Eq (IsUpon below) Eq) := by
  intro s t hst
  obtain ⟨q, m⟩ := s
  obtain ⟨q', n⟩ := t
  obtain ⟨hq, hmn, hbalanced⟩ := hst
  obtain rfl : q = q' := hq
  have hmn : Alike Eq (IsUpon below) Eq m n := hmn
  have hoccupied : m.frames.frames.items ≠ [] := hbalanced.occupied
  have hleave : Option.Rel (Alike Eq (IsUpon below) Eq) m.leave? n.leave? :=
    leave_alike hmn (hmn.frames.pop hoccupied)
  have hkept := SideBySide.kept_of_parts (.same _) (FrameStack.variablesKept_runsUpon below) (.same _)
  have hexecute := hkept.execute p q.function q.cursor
    { m with executed := m.executed + 1 } { n with executed := n.executed + 1 }
    ⟨hmn.stack, ⟨hmn.frames, hoccupied⟩, hmn.continuations, congrArg (· + 1) hmn.executed, hmn.sink⟩
  have hstep : InStep _ (Alike Eq (IsUpon below) Eq) q (m.advance p limits q) (n.advance p limits q) :=
    advance_inStep (fun h => h.push) (.inl rfl) rfl hmn q hleave
      (hexecute.mono fun _ _ => alike_of_runsUpon)
  show _ ∨ Together _ _ (m.advance p limits q) (n.advance p limits q)
  cases ha : m.advance p limits q with
  | running q₁ m₁ =>
    rw [ha] at hstep
    generalize n.advance p limits q = r at hstep ⊢
    cases hstep with
    | running _ h => exact .inr (.running ⟨rfl, h, balanced_turn hbalanced (Turn.of_advance ha)⟩)
  | ended fault? m₁ =>
    rw [ha] at hstep
    generalize n.advance p limits q = r at hstep ⊢
    cases hstep with
    | ended _ h => exact .inr (.ended fault? h)
    | excused _ _ hex =>
      obtain ⟨id, rfl⟩ := hex
      exact .inl ⟨id, m₁, ha⟩

/-! ### Whole runs -/

/-- The arguments go into the frame that the run has begun. -/
theorem storeArguments_isUpon (hmn : Alike Eq (IsUpon below) Eq m n) (f : Function) (args : List Cell) :
    Agree (fun _ => False) (Alike Eq (IsUpon below) Eq)
      (storeArguments args.length args 0 (m.enter f)) (storeArguments args.length args 0 (n.enter f)) := by
  have hstore : ∀ slot c, Respects (fun _ => False) (Alike Eq (RunsUpon below) Eq) (store .top slot c) :=
    fun slot c => SideBySide.store fun hst =>
      (hst.1.store hst.2 .top slot c).mono fun _ ⟨_, htop, _⟩ => nomatch htop
  have hbegin : Alike Eq (RunsUpon below) Eq (m.enter f) (n.enter f) :=
    ⟨hmn.stack, ⟨hmn.frames.push f.id f.locals, List.cons_ne_nil _ _⟩, hmn.continuations,
      hmn.executed, hmn.sink⟩
  exact (storeArguments_respects hstore args.length args 0 _ _ hbegin).mono fun _ _ => alike_of_runsUpon

/-- The frames of earlier runs lie beneath a run that does not look for them, unseen and untouched.
How calls are numbered makes no difference either. -/
theorem run_upon_leftovers {budget : Nat} (hb : limits.budget = some budget) (m : Machine)
    (hk : m.continuations.items = []) (next : Nat) (args : List Cell)
    (hinside : ∀ fault, ((m.withoutFrames next).run p limits args).ending = .fault fault →
      ∀ id, fault.cause ≠ .inactiveContext id) :
    (m.run p limits args).ending = ((m.withoutFrames next).run p limits args).ending ∧
    Alike Eq (IsUpon m.frames.frames.items) Eq ((m.withoutFrames next).run p limits args).machine
      (m.run p limits args).machine := by
  have hmn : Alike Eq (IsUpon m.frames.frames.items) Eq (m.withoutFrames next) m :=
    ⟨rfl, ⟨[], rfl, .nil⟩, rfl, rfl, rfl⟩
  have hrestart : Restartable p (m.withoutFrames next) := by
    have hks : (m.withoutFrames next).continuations.items = [] := hk
    refine ⟨?_, by simp [hks]⟩
    rw [(m.withoutFrames next).continuations.depth_eq, hks]
    exact Nat.zero_le _
  have hrun : ComesTo p limits args (m.withoutFrames next) _ := comesTo_run (run_finishes hb)
  rcases (simulates_isUpon m.frames.frames.items).comesTo (storeArguments_isUpon hmn p.entryFunction args)
      (fun a b ha hab => ⟨rfl, hab, balanced_start hrestart (storeArguments_skeleton ha)⟩)
      (fun _ _ hab => hab) hrun with
    ⟨s, t, hs, -, -, id, n, hbelow⟩ | ⟨fault?, a, b, ha, hb', hab⟩
  · have hends := (comesTo_iff_run hb).1 (comesTo_of_visits hs hbelow)
    exact (hinside _ (by rw [hends]; rfl) id rfl).elim
  · rw [ha, (comesTo_iff_run hb).1 hb']
    exact ⟨outcome_ending_congr fault? hab.stack.symm, by simpa using hab⟩

/-- A program that adds one to a variable and does not return. -/
def incrementsVariable : Program :=
  .single 1 ⟨#[(Opcode.load .int).tag, 0, 0, (Opcode.one .int).tag, (Opcode.intOp .add).tag,
    (Opcode.store .int).tag, 0, 0, (Opcode.load .int).tag, 0, 0, Opcode.stop.tag]⟩

def leftByIncrement : Machine :=
  ((fresh {} {} {}).run incrementsVariable { budget := some 20 } []).machine

/-- The second run has a variable of its own, which holds nothing yet. -/
theorem run_upon_leftovers_incrementsVariable :
    leftByIncrement.frames.depth = 1 ∧
    (leftByIncrement.run incrementsVariable { budget := some 20 } []).ending = .value (some (.int 1)) ∧
    IsUpon leftByIncrement.frames.frames.items
      ((leftByIncrement.withoutFrames 0).run incrementsVariable { budget := some 20 } []).machine.frames
      (leftByIncrement.run incrementsVariable { budget := some 20 } []).machine.frames := by
  have hbudget : ({ budget := some 20 } : Limits).budget = some 20 := rfl
  have hks : leftByIncrement.continuations.items = [] := by decide +kernel
  have hwithout : ((leftByIncrement.withoutFrames 0).run incrementsVariable
      { budget := some 20 } []).ending = .value (some (.int 1)) := by decide +kernel
  obtain ⟨hending, halike⟩ := run_upon_leftovers hbudget leftByIncrement hks 0 []
    fun fault hf => nomatch hwithout.symm.trans hf
  exact ⟨by decide +kernel, hending.trans hwithout, halike.frames⟩

end Machine

end CellMachine
