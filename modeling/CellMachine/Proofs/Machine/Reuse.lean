import CellMachine.Proofs.Machine.CallStructure
import CellMachine.Proofs.Machine.Endings

/-!
# Machines that run again

A run that stops inside a call or ends with a fault leaves frames and continuations, and a later run of
the program can return through them. Main statement: however the runs before ended, there are more
frames than continuations at the head of the loop, so that the end of a function finds both a frame to
pop and a function to go on with.
-/

namespace CellMachine

def Continuation.ReturnsInto (p : Program) (k : Continuation) : Prop :=
  ∃ f, p.function k.caller = .ok f ∧ k.cursor ≤ f.code.size

namespace Machine

/-- A machine that was not used, or on which runs of the program have ended. Each run can have its own
limits, arguments and sink. -/
inductive AfterRuns (p : Program) : Machine → Prop
  | none (limits : Limits) (sink : Output) (journal : Journal) : AfterRuns p (fresh limits sink journal)
  | run {m : Machine} (h : AfterRuns p m) (limits : Limits) (args : List Cell) {o : Outcome}
    (ho : ComesTo p limits args m o) (sink : Output) : AfterRuns p { o.machine with sink := sink }

/-- What a run leaves. Stopped calls can leave as many frames as continuations beneath the others. -/
structure Restartable (p : Program) (m : Machine) : Prop where
  depth : m.continuations.depth ≤ m.frames.depth
  returns : ∀ k ∈ m.continuations.items, k.ReturnsInto p

structure Balanced (p : Program) (s : Position × Machine) : Prop where
  function : p.function s.1.function.id = .ok s.1.function
  depth : s.2.continuations.depth < s.2.frames.depth
  returns : ∀ k ∈ s.2.continuations.items, k.ReturnsInto p

/-- The innermost call can end: there is a frame to pop, and a function to go on with if one waits. -/
def CanReturn (p : Program) (m : Machine) : Prop :=
  ∃ n, m.leave? = some n ∧
    ∀ k ks, n.continuations.pop? = some (k, ks) → ∃ caller, p.function k.caller = .ok caller

variable {p : Program} {limits : Limits} {args : List Cell} {m n : Machine} {q : Position}

/-! ### One turn -/

theorem Balanced.restartable (h : Balanced p (q, m)) : Restartable p m :=
  ⟨Nat.le_of_lt h.depth, h.returns⟩

theorem restartable_of_skeleton (hs : n.skeleton = m.skeleton) (h : Restartable p m) :
    Restartable p n := by
  obtain ⟨hframes, hks⟩ := depths_of_skeleton hs
  refine ⟨?_, ?_⟩
  · rw [hframes, hks]
    exact h.depth
  · rw [hks]
    exact h.returns

theorem balanced_of_skeleton {f : Function} {c c' : Nat} (hs : n.skeleton = m.skeleton)
    (h : Balanced p (⟨f, c⟩, m)) : Balanced p (⟨f, c'⟩, n) := by
  obtain ⟨hframes, hks⟩ := depths_of_skeleton hs
  refine ⟨h.function, ?_, ?_⟩
  · show n.continuations.depth < n.frames.depth
    rw [hframes, hks]
    exact h.depth
  · show ∀ k ∈ n.continuations.items, k.ReturnsInto p
    rw [hks]
    exact h.returns

theorem balanced_start (h : Restartable p m)
    (hs : n.skeleton = (m.enter p.entryFunction).skeleton) :
    Balanced p (⟨p.entryFunction, 0⟩, n) :=
  balanced_of_skeleton (m := m.enter p.entryFunction) (c := 0) hs
    ⟨Program.function_id p.function_entry, Nat.lt_succ_of_le h.depth, h.returns⟩

theorem Balanced.occupied (h : Balanced p (q, m)) : m.frames.frames.items ≠ [] := by
  intro hitems
  have hdepth : m.continuations.depth < m.frames.depth := h.depth
  rw [FrameStack.depth, m.frames.frames.depth_eq, hitems] at hdepth
  exact Nat.not_lt_zero _ hdepth

/-- The continuation at which a call goes on was there before the frame of the called function went. -/
theorem mem_of_leave? {k : Continuation} {ks : Stack Continuation} (hl : m.leave? = some n)
    (hk : n.continuations.pop? = some (k, ks)) : k ∈ m.continuations.items := by
  rw [continuations_of_leave? hl hk]
  exact List.mem_cons_self

theorem Balanced.canReturn (h : Balanced p (q, m)) : CanReturn p m := by
  cases hl : m.leave? with
  | none => exact (h.occupied (leave?_eq_none hl)).elim
  | some n =>
    refine ⟨n, hl, fun k ks hk => ?_⟩
    obtain ⟨caller, hcaller, -⟩ := h.returns k (mem_of_leave? hl hk)
    exact ⟨caller, hcaller⟩

/-- The step of the invariant. A call pushes on both stacks, and the end of a function that goes on
pops from both. -/
theorem balanced_turn {s t : Position × Machine} (h : Balanced p s) (ht : Turn p limits s t) :
    Balanced p t := by
  obtain ⟨⟨f, cursor⟩, m⟩ := s
  obtain ⟨q, n⟩ := t
  have hcounted : Balanced p (⟨f, cursor⟩, { m with executed := m.executed + 1 }) :=
    ⟨h.function, h.depth, h.returns⟩
  have ha : Advance p limits f cursor m (.running q n) := advance_of_eq ht
  cases ha with
  | next inside hs he => exact balanced_of_skeleton (execute_skeleton he) hcounted
  | @returned n k ks caller atEnd hl hk hf =>
    obtain ⟨hks, hframes⟩ := depth_of_leave? hl
    have hpop : m.continuations.depth = ks.depth + 1 := hks ▸ Stack.depth_of_pop? hk
    have hitems := continuations_of_leave? hl hk
    have hdepth : m.continuations.depth < m.frames.depth := h.depth
    refine ⟨Program.function_id hf, ?_, fun k' hk' => h.returns k' ?_⟩
    · show ks.depth < n.frames.depth
      omega
    · rw [hitems]
      exact List.mem_cons_of_mem _ hk'
  | @called id back g n inside hs he hf hd =>
    obtain ⟨hcode, hdepth, hreturns⟩ : Balanced p (⟨f, cursor⟩, n) :=
      balanced_of_skeleton (execute_skeleton he) hcounted
    obtain ⟨hi, rfl⟩ := call_of_execute he
    obtain ⟨-, hinside, -⟩ := Code.callEndsAt_of_instructionAt hi
    refine ⟨Program.function_id hf, Nat.succ_lt_succ hdepth, fun k hk => ?_⟩
    rcases List.mem_cons.1 hk with rfl | hk
    · exact ⟨f, hcode, hinside⟩
    · exact hreturns k hk

/-- The last turn pops no more continuations than frames, and all its faults are located. -/
theorem Balanced.ended {fault? : Option Fault} (h : Balanced p (q, m))
    (ha : m.advance p limits q = .ended fault? n) :
    Restartable p n ∧
      ∀ fault, fault? = some fault → fault.function ≠ none ∧ fault.offset ≠ none := by
  obtain ⟨f, cursor⟩ := q
  have hleft : ∀ {n : Machine}, n.skeleton = ({ m with executed := m.executed + 1 } : Machine).skeleton →
      Restartable p n := fun hs => restartable_of_skeleton hs ⟨Nat.le_of_lt h.depth, h.returns⟩
  have hlocated : ∀ (cause : Cause) (fault : Fault), some (Fault.located cause f.id cursor) = some fault →
      fault.function ≠ none ∧ fault.offset ≠ none := by
    intro cause fault hfault
    cases hfault
    exact ⟨Option.some_ne_none _, Option.some_ne_none _⟩
  obtain ⟨n', hl', hcaller⟩ := h.canReturn
  cases advance_of_eq ha with
  | noFrame atEnd hl => cases hl'.symm.trans hl
  | callerLost atEnd hl hk hf =>
    cases hl'.symm.trans hl
    obtain ⟨caller, hcaller⟩ := hcaller _ _ hk
    cases hcaller.symm.trans hf
  | finished atEnd hl hk =>
    obtain ⟨hks, hframes⟩ := depth_of_leave? hl
    have hdepth : m.continuations.depth < m.frames.depth := h.depth
    refine ⟨⟨?_, ?_⟩, nofun⟩
    · rw [hks]
      omega
    · rw [hks]
      exact h.returns
  | spent inside hs => exact ⟨h.restartable, hlocated _⟩
  | refused inside hs he => exact ⟨hleft (execute_skeleton_of_error he), hlocated _⟩
  | stopped inside hs he => exact ⟨hleft (execute_skeleton he), nofun⟩
  | undefined inside hs he hf => exact ⟨hleft (execute_skeleton he), hlocated _⟩
  | tooDeep inside hs he hf hd => exact ⟨hleft (execute_skeleton he), hlocated _⟩

/-! ### Runs one after the other -/

theorem Restartable.visits (h : Restartable p m) {s : Position × Machine}
    (hv : Visits p limits args m s) : Balanced p s :=
  hv.induct (fun _ hs => balanced_start h hs) fun _ _ hs ht => balanced_turn hs ht

theorem Restartable.comesTo (h : Restartable p m) {o : Outcome} (ho : ComesTo p limits args m o) :
    Restartable p o.machine := by
  rcases comesTo_iff.1 ho with
    ⟨cause, n, hn, rfl⟩ | ⟨entered, fault?, n, hentered, ⟨s, hr, ha⟩, rfl⟩
  · have hbegin : Restartable p (m.enter p.entryFunction) :=
      ⟨Nat.le_succ_of_le h.depth, h.returns⟩
    exact restartable_of_skeleton (storeArguments_skeleton_of_error hn) hbegin
  · have hbalanced : Balanced p s := h.visits ⟨entered, hentered, hr⟩
    rw [outcome_machine]
    exact (Balanced.ended hbalanced ha).1

theorem restartable_of_afterRuns (h : AfterRuns p m) : Restartable p m := by
  induction h with
  | none limits sink journal => exact ⟨Nat.le_refl _, nofun⟩
  | run h limits args ho sink ih =>
    obtain ⟨hdepth, hreturns⟩ := ih.comesTo ho
    exact ⟨hdepth, hreturns⟩

/-- Whatever runs have left behind, the end of a function finds its frame and its caller, and a fault
without a place is that of an argument that could not be stored. -/
theorem canReturn_of_afterRuns (h : AfterRuns p m) (limits : Limits) (args : List Cell) :
    (∀ s, Visits p limits args m s → Balanced p s ∧ CanReturn p s.2) ∧
    ∀ o fault, ComesTo p limits args m o → o.ending = .fault fault →
      fault.function = none ∨ fault.offset = none →
      ∃ cause n, storeArguments args.length args 0 (m.enter p.entryFunction) = .error cause n ∧
        fault = { cause } ∧ fault.kind = .bounds := by
  have hm := restartable_of_afterRuns h
  refine ⟨fun s hv => ⟨hm.visits hv, (hm.visits hv).canReturn⟩, ?_⟩
  intro o fault ho hf hplace
  rcases ho.fault_cases hf with ⟨cause, n, hn, rfl⟩ | ⟨q, n, hv, ha⟩
  · have hkind := (storeArguments_refused args.length args 0).of_error hn
    exact ⟨cause, n, hn, rfl, List.mem_singleton.1 hkind⟩
  · obtain ⟨hfunction, hoffset⟩ := ((hm.visits hv).ended ha).2 fault rfl
    rcases hplace with hnone | hnone
    · exact (hfunction hnone).elim
    · exact (hoffset hnone).elim

def loadsInCall : Program where
  functions := #[⟨0, "main", {}, 1, ⟨#[Opcode.call.tag, 1, 0]⟩⟩,
    ⟨1, "callee", {}, 0, ⟨#[(Opcode.one .int).tag]⟩⟩]
  constants := #[]
  natives := #[]
  entry := 0
  functions_fit := by decide
  natives_fit := Nat.zero_le _
  id_eq_position := by decide
  entry_lt := by decide

/-- A machine on which a run of `loadsInCall` spent its budget before the number was loaded. -/
def stoppedInCall : Machine :=
  { ((fresh {} {} {}).run loadsInCall { budget := some 1 } []).machine with sink := {} }

/-- The next run returns to its entry function, and from there to the one that the first run left. -/
theorem canReturn_of_afterRuns_loadsInCall :
    AfterRuns loadsInCall stoppedInCall ∧ stoppedInCall.pending = [⟨3, 0⟩] ∧
    (∃ s, Visits loadsInCall {} [.int 7] stoppedInCall s ∧ s.2.pending = [⟨3, 0⟩, ⟨3, 0⟩] ∧
      CanReturn loadsInCall s.2) ∧
    ∃ fault, (stoppedInCall.run loadsInCall { budget := some 9 } [.int 7, .int 8]).ending = .fault fault ∧
      fault.kind = .bounds := by
  have hspent : ({ budget := some 1 } : Limits).budget = some 1 := rfl
  have hbudget : ({ budget := some 9 } : Limits).budget = some 9 := rfl
  have hfirst : ComesTo loadsInCall { budget := some 1 } [] (fresh {} {} {}) _ :=
    comesTo_run (run_finishes hspent)
  have hm : AfterRuns loadsInCall stoppedInCall := .run (.none {} {} {}) _ _ hfirst {}
  have hv : Visits loadsInCall {} [.int 7] stoppedInCall (_, _) :=
    ⟨_, rfl, .single (Turn.of_advance rfl)⟩
  have hrun : ComesTo loadsInCall { budget := some 9 } [.int 7, .int 8] stoppedInCall _ :=
    comesTo_run (run_finishes hbudget)
  have hend : (stoppedInCall.run loadsInCall { budget := some 9 } [.int 7, .int 8]).ending =
      .fault { cause := .slotOutOfRange 1 0 1 } := by decide +kernel
  obtain ⟨hvisits, -⟩ := canReturn_of_afterRuns hm {} [.int 7]
  obtain ⟨-, hfaults⟩ := canReturn_of_afterRuns hm { budget := some 9 } [.int 7, .int 8]
  obtain ⟨cause, n, -, -, hkind⟩ := hfaults _ _ hrun hend (.inl rfl)
  exact ⟨hm, by decide +kernel, ⟨_, hv, by decide +kernel, (hvisits _ hv).2⟩, _, hend, hkind⟩

end Machine

end CellMachine
