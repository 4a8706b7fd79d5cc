import CellMachine.Proofs.Machine.CallStructure
import CellMachine.Proofs.Machine.Recording

/-!
# The trace of calls

The log tells when frames come and go and when calls begin and end. It is read from its beginning on,
with pushed frames as opening brackets and popped frames as closing ones. Main statement: the log of a
run is well nested, and what is left open in it is what is left on the machine.
-/

namespace CellMachine

namespace CallTrace

/-! ### Reading a log -/

structure Opening where
  function : UInt16
  invocation : Nat
  depth : Nat

structure Call where
  caller : UInt16
  callee : UInt16

/-- What a log leaves open, the latest first: frames that are not popped again, and calls from which
there is no return. -/
structure Reading where
  frames : List Opening
  calls : List Call

/-- Takes one more event into account. -/
def Reading.next (r : Reading) : Event → Reading
  | .pushFrame function invocation _ depth =>
    { r with frames := ⟨function, invocation, depth⟩ :: r.frames }
  | .popFrame .. => { r with frames := r.frames.tail }
  | .call caller callee _ => { r with calls := ⟨caller, callee⟩ :: r.calls }
  | .ret .. => { r with calls := r.calls.tail }
  | _ => r

def reading (log : List Event) : Reading := log.foldl Reading.next ⟨[], []⟩

def unclosed (log : List Event) : List Opening := (reading log).frames

def unreturned (log : List Event) : List Call := (reading log).calls

/-- What an event owes to the log before it and behind it. A popped frame closes the frame that was
opened last and is one less deep. Behind a call comes the frame of the callee. A return comes behind
the popped frame of the function that it is from, and belongs to the last call that has none yet. -/
def Lawful (before : List Event) (e : Event) (after : List Event) : Prop :=
  match e with
  | .popFrame function invocation depth =>
    ∃ outer, unclosed before = ⟨function, invocation, depth + 1⟩ :: outer
  | .call _ callee _ =>
    ∃ invocation locals depth rest, after = .pushFrame callee invocation locals depth :: rest
  | .ret callee caller _ =>
    (∃ earlier invocation depth, before = earlier ++ [.popFrame callee invocation depth]) ∧
      ∃ outer, unreturned before = ⟨caller, callee⟩ :: outer
  | _ => True

/-- A log in which all events keep their place. -/
def WellNested (log : List Event) : Prop :=
  ∀ before e after, log = before ++ e :: after → Lawful before e after

/-! ### Logs that grow -/

section Growth

variable {log more before after : List Event} {e : Event}

theorem reading_append (log more : List Event) :
    reading (log ++ more) = more.foldl Reading.next (reading log) :=
  List.foldl_append

theorem next_of_ofInstruction (h : e.ofInstruction) (r : Reading) : r.next e = r := by
  cases e with
  | dispatch | nativeCall | dump | breakpoint => rfl
  | _ => cases h

theorem lawful_of_ofInstruction (h : e.ofInstruction) : Lawful before e after := by
  cases e with
  | dispatch | nativeCall | dump | breakpoint => trivial
  | _ => cases h

/-- Instructions open and close nothing. -/
theorem reading_append_instruction (h : ∀ e ∈ more, e.ofInstruction) :
    reading (log ++ more) = reading log := by
  rw [reading_append]
  induction more with
  | nil => rfl
  | cons e more ih =>
    rw [List.foldl_cons, next_of_ofInstruction (h e List.mem_cons_self)]
    exact ih fun e he => h e (List.mem_cons_of_mem _ he)

theorem Lawful.append (h : Lawful before e after) (more : List Event) :
    Lawful before e (after ++ more) := by
  cases e with
  | call caller callee name =>
    obtain ⟨invocation, locals, depth, rest, rfl⟩ := h
    exact ⟨invocation, locals, depth, rest ++ more, rfl⟩
  | _ => exact h

theorem wellNested_nil : WellNested [] := by
  intro before e after h
  simp at h

theorem WellNested.append (h : WellNested log)
    (hmore : ∀ before e after, more = before ++ e :: after → Lawful (log ++ before) e after) :
    WellNested (log ++ more) := by
  intro before e after heq
  rcases List.append_eq_append_iff.1 heq with ⟨early, rfl, hlater⟩ | ⟨late, hlog, hafter⟩
  · exact hmore early e after hlater
  · cases late with
    | nil =>
      rw [List.append_nil] at hlog
      subst hlog
      have hfirst := hmore [] e after (by rw [hafter]; rfl)
      rwa [List.append_nil] at hfirst
    | cons e' late =>
      obtain ⟨rfl, rfl⟩ := List.cons.inj hafter
      exact (h before e late hlog).append more

theorem WellNested.concat (h : WellNested log) (he : Lawful log e []) : WellNested (log ++ [e]) := by
  refine h.append fun before e' after heq => ?_
  obtain ⟨rfl, hone⟩ | ⟨-, hone⟩ := List.singleton_eq_append_iff.1 heq
  · obtain ⟨rfl, rfl⟩ := List.cons.inj hone
    rwa [List.append_nil]
  · cases hone

/-- Behind a call only one event is lawful, so the two come together. -/
theorem WellNested.call (h : WellNested log) (caller callee : UInt16) (name : String)
    (invocation locals depth : Nat) :
    WellNested (log ++
      [.call caller callee name, .pushFrame callee invocation locals depth]) := by
  refine h.append fun before e after heq => ?_
  rcases List.cons_eq_append_iff.1 heq with ⟨rfl, hfirst⟩ | ⟨early, rfl, hlater⟩
  · obtain ⟨rfl, rfl⟩ := List.cons.inj hfirst
    exact ⟨invocation, locals, depth, [], rfl⟩
  · rcases List.singleton_eq_append_iff.1 hlater with ⟨rfl, hsecond⟩ | ⟨-, hnone⟩
    · obtain ⟨rfl, rfl⟩ := List.cons.inj hsecond
      trivial
    · cases hnone

end Growth

/-! ### The frames and calls of a machine -/

def openings : List Frame.Outline → List Opening
  | [] => []
  | fr :: outer => ⟨fr.function, fr.invocation, outer.length + 1⟩ :: openings outer

/-- Calls as the log tells of them: each called the function of a frame, for a caller that goes on at a
continuation. -/
def calls (ks : List Continuation) (frames : List Frame.Outline) : List Call :=
  List.zipWith (fun k fr => ⟨k.caller, fr.function⟩) ks frames

theorem length_openings (frames : List Frame.Outline) : (openings frames).length = frames.length := by
  induction frames with
  | nil => rfl
  | cons fr outer ih => rw [openings, List.length_cons, ih, List.length_cons]

/-- A log that is well nested and leaves open what there is of frames and calls. -/
structure Traces (log : List Event) (frames : List Frame.Outline) (ks : List Continuation) : Prop where
  nested : WellNested log
  opened : reading log = ⟨openings frames, calls ks frames⟩

section Steps

variable {log more : List Event} {frames : List Frame.Outline} {fr : Frame.Outline}
  {ks : List Continuation} {k : Continuation}

theorem traces_entry (function : UInt16) (invocation locals : Nat) :
    Traces [.pushFrame function invocation locals 1] [⟨function, invocation, locals⟩] [] :=
  ⟨wellNested_nil.concat trivial, rfl⟩

theorem Traces.instruction (h : Traces log frames ks) (hmore : ∀ e ∈ more, e.ofInstruction) :
    Traces (log ++ more) frames ks where
  nested := h.nested.append fun before e _ heq =>
    lawful_of_ofInstruction (hmore e (heq ▸ List.mem_append_right before List.mem_cons_self))
  opened := (reading_append_instruction hmore).trans h.opened

theorem Traces.call (h : Traces log frames ks) (fr : Frame.Outline) (caller : UInt16) (name : String)
    (back : Nat) :
    Traces (log ++ [.call caller fr.function name,
        .pushFrame fr.function fr.invocation fr.locals (frames.length + 1)])
      (fr :: frames) (⟨back, caller⟩ :: ks) where
  nested := h.nested.call caller fr.function name fr.invocation fr.locals (frames.length + 1)
  opened := by
    rw [reading_append, h.opened]
    rfl

/-- The end of the innermost call closes its frame. -/
theorem Traces.pop (h : Traces log (fr :: frames) ks) :
    WellNested (log ++ [.popFrame fr.function fr.invocation frames.length]) ∧
      reading (log ++ [.popFrame fr.function fr.invocation frames.length]) =
        ⟨openings frames, calls ks (fr :: frames)⟩ := by
  have hopen : unclosed log = ⟨fr.function, fr.invocation, frames.length + 1⟩ :: openings frames :=
    congrArg Reading.frames h.opened
  refine ⟨h.nested.concat ⟨_, hopen⟩, ?_⟩
  rw [reading_append, h.opened]
  rfl

theorem Traces.ret (h : Traces log (fr :: frames) (k :: ks)) :
    Traces (log ++ [.popFrame fr.function fr.invocation frames.length,
      .ret fr.function k.caller k.cursor]) frames ks := by
  obtain ⟨hnested, hopen⟩ := h.pop
  have hcalls : unreturned (log ++ [.popFrame fr.function fr.invocation frames.length]) =
      ⟨k.caller, fr.function⟩ :: calls ks frames := congrArg Reading.calls hopen
  have hret := hnested.concat (e := .ret fr.function k.caller k.cursor)
    ⟨⟨log, fr.invocation, frames.length, rfl⟩, _, hcalls⟩
  rw [List.append_assoc] at hret
  refine ⟨hret, ?_⟩
  rw [← List.singleton_append, ← List.append_assoc, reading_append, hopen]
  rfl

end Steps

end CallTrace

namespace Machine

open CallTrace

variable {p : Program} {limits : Limits} {args : List Cell} {f : Function} {cursor : Nat}
  {m n : Machine} {j : Journal} {log : List Event}

/-! ### One turn -/

def EntryOutermost (p : Program) (frames : List Frame.Outline) : Prop :=
  ∃ inner fr, frames = inner ++ [fr] ∧ fr.function = p.entryFunction.id

theorem EntryOutermost.push {frames : List Frame.Outline} (h : EntryOutermost p frames)
    (fr : Frame.Outline) : EntryOutermost p (fr :: frames) := by
  obtain ⟨inner, entry, rfl, hentry⟩ := h
  exact ⟨fr :: inner, entry, rfl, hentry⟩

theorem EntryOutermost.pop {fr : Frame.Outline} {frames : List Frame.Outline}
    (h : EntryOutermost p (fr :: frames)) (hne : frames ≠ []) : EntryOutermost p frames := by
  obtain ⟨inner, entry, heq, hentry⟩ := h
  cases inner with
  | nil => exact (hne (List.cons.inj heq).2).elim
  | cons fr' inner => exact ⟨inner, entry, (List.cons.inj heq).2, hentry⟩

theorem EntryOutermost.sole {fr : Frame.Outline} (h : EntryOutermost p [fr]) :
    fr.function = p.entryFunction.id := by
  obtain ⟨inner, entry, heq, hentry⟩ := h
  rcases List.singleton_eq_append_iff.1 heq with ⟨-, hone⟩ | ⟨-, hnone⟩
  · exact (List.cons.inj hone).1 ▸ hentry
  · cases hnone

/-- A machine in a run whose journal has got a log since `j` that traces its calls. -/
structure Traced (p : Program) (j : Journal) (log : List Event) (m : Machine) : Prop where
  journal : m.journal = j.append log
  traces : Traces log m.frames.outline m.continuations.items
  length : m.frames.outline.length = m.continuations.items.length + 1
  outermost : EntryOutermost p m.frames.outline

/-- An instruction, carried out or refused, adds to the log what traces nothing. -/
theorem Traced.instruction (h : Traced p j log m)
    (hs : n.skeleton = ({ m with executed := m.executed + 1 } : Machine).skeleton)
    (hx : ({ m with executed := m.executed + 1 } : Machine).journal.Extends (·.ofInstruction)
      n.journal) : ∃ more, Traced p j (log ++ more) n := by
  have hframes : n.frames.outline = m.frames.outline := congrArg Skeleton.frames hs
  have hks : n.continuations = m.continuations := congrArg Skeleton.continuations hs
  obtain ⟨more, hn, hmore⟩ := hx.exists_append
  have hjournal : n.journal = j.append (log ++ more) := by
    rw [hn, ← Journal.append_append, ← h.journal]
  refine ⟨more, hjournal, ?_, ?_, hframes ▸ h.outermost⟩
  · rw [hframes, hks]
    exact h.traces.instruction hmore
  · rw [hframes, hks]
    exact h.length

theorem traced_of_execute (h : Traced p j log m) {flow : Flow}
    (he : execute p f cursor { m with executed := m.executed + 1 } = .ok flow n) :
    ∃ more, Traced p j (log ++ more) n :=
  h.instruction (execute_skeleton he) (extends_of_execute he)

theorem traced_of_execute_error (h : Traced p j log m) {cause : Cause}
    (he : execute p f cursor { m with executed := m.executed + 1 } = .error cause n) :
    ∃ more, Traced p j (log ++ more) n :=
  h.instruction (execute_skeleton_of_error he) (extends_of_execute_error he)

/-- The end of the innermost call records its frame, which is of the function that was executed. -/
theorem journal_of_leave (hf : Aligned p (⟨f, cursor⟩, m)) (h : Traced p j log m)
    (hd : j.admits .debug) (hl : m.leave? = some n) :
    ∃ fr, m.frames.outline = fr :: n.frames.outline ∧ fr.function = f.id ∧
      n.journal =
        j.append (log ++ [.popFrame fr.function fr.invocation n.frames.outline.length]) := by
  obtain ⟨fr, hp, hn⟩ := journal_of_leave? hl
  have houtline : m.frames.outline = fr.outline :: n.frames.outline :=
    congrArg (List.map Frame.outline) (FrameStack.pop?_eq_some hp).1
  obtain ⟨top, outer, htop, hfunction⟩ := hf.2.top
  obtain ⟨rfl, -⟩ := List.cons.inj (houtline.symm.trans htop)
  refine ⟨fr.outline, houtline, hfunction, ?_⟩
  rw [hn, depth_frames, h.journal]
  exact Journal.record_append hd log

/-- A call records itself and then, before anything else, the frame of the function that it calls. -/
theorem Traced.call (h : Traced p j log m) (hd : j.admits .debug) (f g : Function) (back : Nat) :
    Traced p j (log ++ [.call f.id g.id g.name,
        .pushFrame g.id m.frames.next g.locals.toNat (m.frames.outline.length + 1)])
      ({ m.note (.call f.id g.id g.name) with
          continuations := m.continuations.push ⟨back, f.id⟩ }.enter g) where
  journal := by
    rw [journal_enter]
    show (m.journal.record (.call f.id g.id g.name)).record
      (.pushFrame g.id m.frames.next g.locals.toNat (m.frames.depth + 1)) = _
    rw [h.journal, Journal.record_append hd, Journal.record_append hd, List.append_assoc,
      depth_frames]
    rfl
  traces := by
    simp only [frames_enter, frames_note, continuations_enter, FrameStack.outline_push,
      Stack.items_push]
    exact h.traces.call ⟨g.id, m.frames.next, g.locals.toNat⟩ f.id g.name back
  length := by
    simp only [frames_enter, frames_note, continuations_enter, FrameStack.outline_push,
      Stack.items_push, List.length_cons, h.length]
  outermost := by
    simp only [frames_enter, frames_note, FrameStack.outline_push]
    exact h.outermost.push _

theorem traced_turn (hd : j.admits .debug) {s t : Position × Machine} (hs : Aligned p s)
    (h : Traced p j log s.2) (ht : Turn p limits s t) : ∃ more, Traced p j (log ++ more) t.2 := by
  obtain ⟨⟨f, cursor⟩, m⟩ := s
  obtain ⟨q, n⟩ := t
  have ha : Advance p limits f cursor m (.running q n) := advance_of_eq ht
  cases ha with
  | next inside hspent he => exact traced_of_execute h he
  | @returned n k ks caller atEnd hl hk hf =>
    obtain ⟨fr, houtline, hfr, hn⟩ := journal_of_leave hs h hd hl
    have hitems : m.continuations.items = k :: ks.items := continuations_of_leave? hl hk
    have htraces : Traces log (fr :: n.frames.outline) (k :: ks.items) := by
      rw [← houtline, ← hitems]
      exact h.traces
    have hlength : n.frames.outline.length = ks.items.length + 1 := by
      have hlength := h.length
      rw [houtline, hitems, List.length_cons, List.length_cons] at hlength
      exact Nat.succ.inj hlength
    have houter : EntryOutermost p (fr :: n.frames.outline) := houtline ▸ h.outermost
    refine ⟨_, ?_, htraces.ret, hlength, houter.pop (List.ne_nil_of_length_eq_add_one hlength)⟩
    show n.journal.record (.ret f.id k.caller k.cursor) = _
    rw [hn, ← hfr, Journal.record_append hd, List.append_assoc]
    rfl
  | @called id back g n inside hspent he hf hcalls =>
    obtain ⟨more, hn⟩ := traced_of_execute h he
    have hentered := hn.call hd f g back
    rw [List.append_assoc] at hentered
    exact ⟨_, hentered⟩

/-! ### Whole runs -/

section Run

variable {sink : Output} {journal : Journal}

theorem traced_start (hd : journal.admits .debug)
    (hs : n.skeleton = ((fresh limits sink journal).enter p.entryFunction).skeleton)
    (hj : n.journal = ((fresh limits sink journal).enter p.entryFunction).journal) :
    ∃ log, Traced p journal log n := by
  have hframes : n.frames.outline = [⟨p.entryFunction.id, 0, p.entryFunction.locals.toNat⟩] :=
    (congrArg Skeleton.frames hs).trans (FrameStack.outline_push _ _ _)
  have hks : n.continuations = Stack.empty := congrArg Skeleton.continuations hs
  refine ⟨[.pushFrame p.entryFunction.id 0 p.entryFunction.locals.toNat 1], ?_, ?_, ?_, ?_⟩
  · rw [hj, journal_enter]
    exact Journal.record_of_admits hd
  · rw [hframes, hks]
    exact traces_entry _ _ _
  · rw [hframes, hks]
    rfl
  · exact ⟨[], _, hframes, rfl⟩

theorem traced_of_visits (hd : journal.admits .debug) {s : Position × Machine}
    (h : Visits p limits args (fresh limits sink journal) s) : ∃ log, Traced p journal log s.2 := by
  obtain ⟨entered, he, hr⟩ := h
  induction hr with
  | refl =>
    have hkept := storeArguments_unrecorded
      (· = ((fresh limits sink journal).enter p.entryFunction).journal) args.length args 0
    exact traced_start hd (storeArguments_skeleton he) (hkept.of_ok rfl he)
  | tail hr ht ih =>
    obtain ⟨log, hlog⟩ := ih
    obtain ⟨more, hmore⟩ := traced_turn hd (aligned_of_visits ⟨entered, he, hr⟩) hlog ht
    exact ⟨_, hmore⟩

/-- A run leaves a machine when its entry function has come to the end. -/
def ReturnsFromEntry (p : Program) (limits : Limits) (args : List Cell) (m n : Machine) : Prop :=
  ∃ position last, Visits p limits args m (position, last) ∧
    position.function = p.entryFunction ∧ position.function.code.size ≤ position.cursor ∧
    last.advance p limits position = .ended none n

/-- What a log tells of the calls of a run that was started on `m` and left `n`. -/
structure TellsCalls (p : Program) (limits : Limits) (args : List Cell) (m n : Machine)
    (log : List Event) : Prop where
  events : n.journal.events = m.journal.events ++ log
  nested : WellNested log
  frames : unclosed log = openings n.frames.outline
  unclosed : (unclosed log).length = n.frames.depth
  returned (h : ReturnsFromEntry p limits args m n) : n.frames.depth = 0
  waiting (h : ¬ ReturnsFromEntry p limits args m n) :
    n.frames.depth = (unreturned log).length + 1

theorem length_calls {ks : List Continuation} {frames : List Frame.Outline}
    (h : frames.length = ks.length + 1) : (calls ks frames).length = ks.length := by
  rw [calls, List.length_zipWith, h]
  omega

/-- What the last turn leaves when the entry function has come to its end: no frame, and a log in which
all frames are closed. -/
structure Closed (p : Program) (j : Journal) (f : Function) (cursor : Nat) (n : Machine)
    (log : List Event) : Prop where
  entry : f = p.entryFunction
  atEnd : f.code.size ≤ cursor
  journal : n.journal = j.append log
  nested : WellNested log
  closed : CallTrace.unclosed log = []
  frames : n.frames.outline = []

/-- The last turn ends the entry function, or there is an instruction left at the cursor. -/
theorem traced_of_ended (hd : j.admits .debug) (hs : Aligned p (⟨f, cursor⟩, m))
    (h : Traced p j log m) {fault? : Option Fault}
    (ha : m.advance p limits ⟨f, cursor⟩ = .ended fault? n) :
    (cursor < f.code.size ∧ ∃ more, Traced p j (log ++ more) n) ∨
      fault? = none ∧ ∃ more, Closed p j f cursor n (log ++ more) := by
  cases advance_of_eq ha with
  | spent inside hspent => exact .inl ⟨inside, [], by rwa [List.append_nil]⟩
  | refused inside hspent he => exact .inl ⟨inside, traced_of_execute_error h he⟩
  | stopped inside hspent he => exact .inl ⟨inside, traced_of_execute h he⟩
  | undefined inside hspent he hf => exact .inl ⟨inside, traced_of_execute h he⟩
  | tooDeep inside hspent he hf hdepth => exact .inl ⟨inside, traced_of_execute h he⟩
  | noFrame atEnd hl =>
    -- There is one frame more than there are continuations, so there is one.
    have hnone : m.frames.outline = [] := congrArg (List.map Frame.outline) (leave?_eq_none hl)
    have hlength := h.length
    rw [hnone] at hlength
    cases hlength
  | @callerLost n k ks cause atEnd hl hk hf =>
    -- Whoever waits at a continuation is a function of the program.
    have hlinked := hs.2
    rw [continuations_of_leave? hl hk] at hlinked
    obtain ⟨caller, hcaller⟩ := caller_of_linked hlinked
    cases hcaller.symm.trans hf
  | finished atEnd hl hk =>
    obtain ⟨fr, houtline, hfr, hn⟩ := journal_of_leave hs h hd hl
    have hitems : m.continuations.items = [] := by
      rw [← (leave?_eq_some hl).1]
      exact Stack.pop?_eq_none_iff.1 hk
    have hnone : n.frames.outline = [] := by
      have hlength := h.length
      rw [houtline, hitems] at hlength
      exact List.length_eq_zero_iff.1 (Nat.succ.inj hlength)
    -- The last frame is the outermost one, and what is executed is the function of the last frame.
    have hentry : f = p.entryFunction := by
      have houter : EntryOutermost p [fr] := hnone ▸ houtline ▸ h.outermost
      have hid : p.entryFunction.id = f.id := houter.sole.symm.trans hfr
      have hf : p.function p.entryFunction.id = .ok f := hid ▸ hs.1
      exact Except.ok.inj (hf.symm.trans (Program.function_id p.function_entry))
    have htraces : Traces log [fr] [] := by
      rw [← hnone, ← houtline, ← hitems]
      exact h.traces
    obtain ⟨hnested, hopen⟩ := htraces.pop
    rw [hnone] at hn
    exact .inr ⟨rfl, _, hentry, atEnd, hn, hnested, congrArg Reading.frames hopen, hnone⟩

theorem closed_of_returnsFromEntry (hd : journal.admits .debug)
    (h : ReturnsFromEntry p limits args (fresh limits sink journal) n) : n.frames.outline = [] := by
  obtain ⟨⟨f, cursor⟩, m, hv, -, hend, ha⟩ := h
  obtain ⟨log, hm⟩ := traced_of_visits hd hv
  rcases traced_of_ended hd (aligned_of_visits hv) hm ha with ⟨inside, -⟩ | ⟨-, more, hclosed⟩
  · exact (Nat.not_lt.2 hend inside).elim
  · exact hclosed.frames

theorem tellsCalls_of_closed {position : Position} {last : Machine}
    (hv : Visits p limits args (fresh limits sink journal) (position, last))
    (ha : last.advance p limits position = .ended none n)
    (h : Closed p journal position.function position.cursor n log) :
    TellsCalls p limits args (fresh limits sink journal) n log := by
  have hreturns : ReturnsFromEntry p limits args (fresh limits sink journal) n :=
    ⟨position, last, hv, h.entry, h.atEnd, ha⟩
  have hdepth : n.frames.depth = 0 := by rw [depth_frames, h.frames]; rfl
  refine ⟨?_, h.nested, ?_, ?_, fun _ => hdepth, fun hopen => (hopen hreturns).elim⟩
  · rw [h.journal, Journal.events_append]
    rfl
  · rw [h.closed, h.frames]
    rfl
  · rw [h.closed, hdepth]
    rfl

/-- While a run goes on, and when it ends elsewhere, one frame more is open than calls are. -/
theorem tellsCalls_of_traced (hd : journal.admits .debug) (h : Traced p journal log n) :
    TellsCalls p limits args (fresh limits sink journal) n log := by
  have hopen : ¬ ReturnsFromEntry p limits args (fresh limits sink journal) n := by
    intro hreturns
    have hlength := h.length
    rw [closed_of_returnsFromEntry hd hreturns] at hlength
    cases hlength
  have hframes : unclosed log = openings n.frames.outline := congrArg Reading.frames h.traces.opened
  have hcalls : unreturned log = calls n.continuations.items n.frames.outline :=
    congrArg Reading.calls h.traces.opened
  refine ⟨?_, h.traces.nested, hframes, ?_, fun hreturns => (hopen hreturns).elim, fun _ => ?_⟩
  · rw [h.journal, Journal.events_append]
    rfl
  · rw [hframes, length_openings, depth_frames]
  · rw [hcalls, length_calls h.length, depth_frames, h.length]

theorem tellsCalls_of_runWithin (hd : journal.admits .debug) (turns : Nat) :
    ∃ log, TellsCalls p limits args (fresh limits sink journal)
      ((fresh limits sink journal).runWithin p limits args turns).machine log := by
  have hkept := storeArguments_unrecorded
    (· = ((fresh limits sink journal).enter p.entryFunction).journal) args.length args 0
  unfold runWithin
  cases hn : storeArguments args.length args 0
    ((fresh limits sink journal).enter p.entryFunction) with
  | error cause n =>
    obtain ⟨log, hlog⟩ := traced_start hd (storeArguments_skeleton_of_error hn)
      (hkept.of_error rfl hn)
    exact ⟨log, tellsCalls_of_traced hd hlog⟩
  | ok _ entered =>
    refine proceed_induct (I := Visits p limits args (fresh limits sink journal))
      (J := fun n => ∃ log, TellsCalls p limits args (fresh limits sink journal) n log)
      (fun s hv => ?_) (fun s t hv ht => ?_) (fun s fault? n hv ha => ?_) turns ⟨entered, hn, .refl⟩
    · obtain ⟨log, hlog⟩ := traced_of_visits hd hv
      exact ⟨log, tellsCalls_of_traced hd hlog⟩
    · obtain ⟨entered, hentered, hr⟩ := hv
      exact ⟨entered, hentered, hr.tail ht⟩
    · obtain ⟨position, last⟩ := s
      obtain ⟨log, hlog⟩ := traced_of_visits hd hv
      rcases traced_of_ended hd (aligned_of_visits hv) hlog ha with
        ⟨-, more, hmore⟩ | ⟨rfl, more, hclosed⟩
      · exact ⟨_, tellsCalls_of_traced hd hmore⟩
      · exact ⟨_, tellsCalls_of_closed hv ha hclosed⟩

/-- The log of a run is a trace of its calls, in however many turns: every popped frame closes the frame
that was pushed last, every call and every return stands beside its frame, and what the log leaves open
is what the run leaves. -/
theorem tellsCalls_of_fresh (p : Program) (limits : Limits) (args : List Cell) (sink : Output)
    {journal : Journal} (hd : journal.admits .debug) :
    (∃ log, TellsCalls p limits args (fresh limits sink journal)
      ((fresh limits sink journal).run p limits args).machine log) ∧
    ∀ turns, ∃ log, TellsCalls p limits args (fresh limits sink journal)
      ((fresh limits sink journal).runWithin p limits args turns).machine log := by
  refine ⟨?_, fun turns => tellsCalls_of_runWithin hd turns⟩
  rw [run_eq_runWithin]
  exact tellsCalls_of_runWithin hd _

end Run

def stopsInSecondCall : Program where
  functions := #[
    ⟨0, "main", {}, 0, ⟨#[Opcode.call.tag, 1, 0, Opcode.call.tag, 2, 0]⟩⟩,
    ⟨1, "returns", {}, 3, Code.empty⟩,
    ⟨2, "stops", {}, 0, ⟨#[Opcode.dump.tag, Opcode.stop.tag]⟩⟩]
  constants := #[]
  natives := #[]
  entry := 0
  functions_fit := by decide
  natives_fit := Nat.zero_le _
  id_eq_position := by decide
  entry_lt := by decide

theorem tellsCalls_of_fresh_stopsInSecondCall :
    let start := fresh { budget := some 9 } {} { level := some .debug }
    let left := (start.run stopsInSecondCall { budget := some 9 } []).machine
    ∃ log, TellsCalls stopsInSecondCall { budget := some 9 } [] start left log ∧
      log = [.pushFrame 0 0 0 1, .call 0 1 "returns", .pushFrame 1 1 3 2, .popFrame 1 1 1,
        .ret 1 0 3, .call 0 2 "stops", .pushFrame 2 2 0 2, .dump none] ∧
      left.frames.depth = 2 := by
  intro start left
  have hd : Journal.admits { level := some .debug } .debug = true := rfl
  obtain ⟨⟨log, h⟩, -⟩ := tellsCalls_of_fresh stopsInSecondCall { budget := some 9 } [] {} hd
  have hevents : left.journal.events = [.pushFrame 0 0 0 1, .call 0 1 "returns", .pushFrame 1 1 3 2,
      .popFrame 1 1 1, .ret 1 0 3, .call 0 2 "stops", .pushFrame 2 2 0 2, .dump none] := by
    decide +kernel
  have hlog : left.journal.events = log := h.events
  exact ⟨log, h, hlog.symm.trans hevents, by decide +kernel⟩

end Machine

end CellMachine
