import CellMachine.Proofs.Code
import CellMachine.Proofs.Frame.Variables
import CellMachine.Proofs.Machine.Turns

/-!
# Frames and continuations

The frames of the active calls and the continuations of those that wait are two stacks. Main
statement: at the head of the loop they stay aligned, every frame with the call that made it.
-/

namespace CellMachine

/-- The three bytes that end at `back` are a call of `callee`. -/
def Code.CallEndsAt (code : Code) (back : Nat) (callee : UInt16) : Prop :=
  3 ≤ back ∧ back ≤ code.size ∧
    code.slice? 3 (back - 3) = some (Opcode.call.tag :: littleEndian 2 callee.toNat)

theorem Code.callEndsAt_of_instructionAt {code : Code} {pos : Nat} {callee : UInt16}
    (h : code.instructionAt pos = .ok ⟨.call, callee⟩) : code.CallEndsAt (pos + 3) callee := by
  have hb : code.slice? 3 pos = some (Opcode.call.tag :: littleEndian 2 callee.toNat) :=
    instructionAt_eq_ok_iff.1 h
  have hin : pos + 3 ≤ code.size := (slice?_eq_some_iff.1 hb).1
  have hpos : pos + 3 - 3 = pos := by omega
  refine ⟨Nat.le_add_left 3 pos, hin, ?_⟩
  show code.slice? 3 (pos + 3 - 3) = _
  rw [hpos, hb]

namespace Machine

/-! ### Depths -/

theorem depth_frames (m : Machine) : m.frames.depth = m.frames.outline.length := by
  rw [FrameStack.depth, m.frames.frames.depth_eq, FrameStack.outline, List.length_map]

theorem depths_of_skeleton {m n : Machine} (hs : n.skeleton = m.skeleton) :
    n.frames.depth = m.frames.depth ∧ n.continuations = m.continuations := by
  have hframes : n.frames.outline = m.frames.outline := congrArg Skeleton.frames hs
  refine ⟨?_, congrArg Skeleton.continuations hs⟩
  rw [depth_frames, hframes, ← depth_frames]

theorem depth_of_leave? {m n : Machine} (h : m.leave? = some n) :
    n.continuations = m.continuations ∧ m.frames.depth = n.frames.depth + 1 := by
  obtain ⟨hks, -, fr, hp⟩ := leave?_eq_some h
  refine ⟨hks, ?_⟩
  rw [FrameStack.depth, m.frames.frames.depth_eq, (FrameStack.pop?_eq_some hp).1, List.length_cons,
    ← n.frames.frames.depth_eq]
  rfl

/-- Only a machine without frames cannot leave a call. -/
theorem leave?_eq_none {m : Machine} (h : m.leave? = none) : m.frames.frames.items = [] := by
  unfold leave? at h
  split at h
  · rename_i hp
    exact FrameStack.pop?_eq_none hp
  · cases h

/-! ### The chain of calls -/

/-- The outlines of frames and the continuations, innermost first, of a machine that executes
`function`. The invocations are below `next`. -/
inductive Linked (p : Program) :
    (next : Nat) → (function : UInt16) → List Frame.Outline → List Continuation → Prop
  | entry {next invocation : Nat} {f : Function} (hf : p.function f.id = .ok f)
    (hi : invocation < next) : Linked p next f.id [⟨f.id, invocation, f.locals.toNat⟩] []
  | call {next invocation back : Nat} {f caller : Function} {frames : List Frame.Outline}
    {ks : List Continuation} (hf : p.function f.id = .ok f) (hi : invocation < next)
    (hcaller : p.function caller.id = .ok caller) (hback : caller.code.CallEndsAt back f.id)
    (rest : Linked p invocation caller.id frames ks) :
    Linked p next f.id (⟨f.id, invocation, f.locals.toNat⟩ :: frames) (⟨back, caller.id⟩ :: ks)

theorem Linked.mono {p : Program} {next next' : Nat} {function : UInt16}
    {frames : List Frame.Outline} {ks : List Continuation} (h : Linked p next function frames ks)
    (hn : next ≤ next') : Linked p next' function frames ks := by
  cases h with
  | entry hf hi => exact .entry hf (Nat.lt_of_lt_of_le hi hn)
  | call hf hi hcaller hback rest => exact .call hf (Nat.lt_of_lt_of_le hi hn) hcaller hback rest

theorem Linked.of_cons {p : Program} {next : Nat} {function : UInt16} {fr : Frame.Outline}
    {frames : List Frame.Outline} {k : Continuation} {ks : List Continuation}
    (h : Linked p next function (fr :: frames) (k :: ks)) : Linked p next k.caller frames ks := by
  cases h with
  | call hf hi hcaller hback rest => exact rest.mono (Nat.le_of_lt hi)

theorem caller_of_linked {p : Program} {next : Nat} {function : UInt16} {frames : List Frame.Outline}
    {k : Continuation} {ks : List Continuation} (h : Linked p next function frames (k :: ks)) :
    ∃ caller, p.function k.caller = .ok caller := by
  cases h with
  | call hf hi hcaller hback rest => exact ⟨_, hcaller⟩

/-- Frames and continuations at the head of the loop. -/
def Aligned (p : Program) (s : Position × Machine) : Prop :=
  p.function s.1.function.id = .ok s.1.function ∧
    Linked p s.2.frames.next s.1.function.id s.2.frames.outline s.2.continuations.items

theorem aligned_of_skeleton {p : Program} {f : Function} {c c' : Nat} {m n : Machine}
    (hs : n.skeleton = m.skeleton) (h : Aligned p (⟨f, c⟩, m)) : Aligned p (⟨f, c'⟩, n) := by
  have hframes : n.frames.outline = m.frames.outline := congrArg Skeleton.frames hs
  have hnext : n.frames.next = m.frames.next := congrArg Skeleton.next hs
  have hks : n.continuations = m.continuations := congrArg Skeleton.continuations hs
  refine ⟨h.1, ?_⟩
  show Linked p n.frames.next f.id n.frames.outline n.continuations.items
  rw [hframes, hnext, hks]
  exact h.2

theorem aligned_start {p : Program} {limits : Limits} {sink : Output} {journal : Journal}
    {m : Machine} (hs : m.skeleton = ((fresh limits sink journal).enter p.entryFunction).skeleton) :
    Aligned p (⟨p.entryFunction, 0⟩, m) := by
  have hentry := Program.function_id p.function_entry
  have hbegin : Aligned p
      (⟨p.entryFunction, 0⟩, (fresh limits sink journal).enter p.entryFunction) := by
    refine ⟨hentry, ?_⟩
    simp only [frames_enter, FrameStack.outline_push]
    exact .entry hentry (Nat.lt_succ_self _)
  exact aligned_of_skeleton hs hbegin

/-- The step of the invariant. A call pushes on both stacks and the end of a function pops from
both; every other turn leaves both alone. -/
theorem aligned_turn {p : Program} {limits : Limits} {s t : Position × Machine} (h : Aligned p s)
    (ht : Turn p limits s t) : Aligned p t := by
  obtain ⟨⟨f, cursor⟩, m⟩ := s
  obtain ⟨q, n⟩ := t
  have ha : Advance p limits f cursor m (.running q n) := advance_of_eq ht
  cases ha with
  | next inside hs he => exact aligned_of_skeleton (execute_skeleton he) h
  | @returned n k ks caller atEnd hl hk hf =>
    obtain ⟨-, -, fr, hp⟩ := leave?_eq_some hl
    obtain ⟨hitems, hnext⟩ := FrameStack.pop?_eq_some hp
    have hframes : m.frames.outline = fr.outline :: n.frames.outline :=
      congrArg (List.map Frame.outline) hitems
    have hks := continuations_of_leave? hl hk
    have hlinked :
        Linked p n.frames.next f.id (fr.outline :: n.frames.outline) (k :: ks.items) := by
      rw [← hframes, ← hnext, ← hks]
      exact h.2
    have hid : caller.id = k.caller := Program.id_of_function hf
    refine ⟨Program.function_id hf, ?_⟩
    show Linked p n.frames.next caller.id n.frames.outline ks.items
    rw [hid]
    exact hlinked.of_cons
  | @called id back g n inside hs he hf hd =>
    obtain ⟨hcode, hlinked⟩ : Aligned p (⟨f, cursor⟩, n) :=
      aligned_of_skeleton (execute_skeleton he) h
    obtain ⟨hi, rfl⟩ := call_of_execute he
    -- The frame of `g` comes on top with a number that no frame had, and `f` will go on behind the call.
    have hends : f.code.CallEndsAt (cursor + 3) id := Code.callEndsAt_of_instructionAt hi
    have hid : g.id = id := Program.id_of_function hf
    have hg := Program.function_id hf
    refine ⟨hg, ?_⟩
    simp only [frames_enter, frames_note, continuations_enter, FrameStack.outline_push,
      Stack.items_push]
    exact .call hg (Nat.lt_succ_self _) hcode (hid ▸ hends) hlinked

theorem aligned_of_visits {p : Program} {limits : Limits} {args : List Cell} {sink : Output}
    {journal : Journal} {s : Position × Machine}
    (h : Visits p limits args (fresh limits sink journal) s) : Aligned p s :=
  h.induct (fun _ hs => aligned_start hs) fun _ _ hs ht => aligned_turn hs ht

/-! ### Frame by frame -/

/-- The frames, outermost first. -/
def activations (m : Machine) : List Frame := m.frames.frames.items.reverse

/-- The continuations, outermost first. -/
def pending (m : Machine) : List Continuation := m.continuations.items.reverse

/-- A continuation between the frame that waits with it and the frame above, which its call made. -/
def Joins (p : Program) (k : Continuation) (waiting called : UInt16) : Prop :=
  waiting = k.caller ∧
    ∃ caller, p.function k.caller = .ok caller ∧ caller.code.CallEndsAt k.cursor called

/-- How frames and continuations belong together at the head of the loop. -/
structure CallStructure (p : Program) (position : Position) (m : Machine) : Prop where
  executing : p.function position.function.id = .ok position.function
  depth : m.activations.length = m.pending.length + 1
  joined : ∀ (i : Nat) (k : Continuation), m.pending[i]? = some k →
    ∃ waiting called, m.activations[i]? = some waiting ∧ m.activations[i + 1]? = some called ∧
      Joins p k waiting.function called.function
  top : ∃ fr, m.activations.getLast? = some fr ∧ fr.function = position.function.id
  locals : ∀ fr ∈ m.activations, ∃ f, p.function fr.function = .ok f ∧ fr.locals = f.locals.toNat
  increasing : (m.activations.map Frame.invocation).Pairwise (· < ·)
  numbered : ∀ fr ∈ m.activations, fr.invocation < m.frames.next

namespace Linked

variable {p : Program} {next : Nat} {function : UInt16} {frames : List Frame.Outline}
  {ks : List Continuation}

theorem length (h : Linked p next function frames ks) : frames.length = ks.length + 1 := by
  induction h with
  | entry hf hi => rfl
  | call hf hi hcaller hback rest ih => simp only [List.length_cons, ih]

theorem top (h : Linked p next function frames ks) :
    ∃ fr rest, frames = fr :: rest ∧ fr.function = function := by
  cases h with
  | entry hf hi => exact ⟨_, _, rfl, rfl⟩
  | call hf hi hcaller hback rest => exact ⟨_, _, rfl, rfl⟩

theorem locals (h : Linked p next function frames ks) :
    ∀ fr ∈ frames, ∃ f, p.function fr.function = .ok f ∧ fr.locals = f.locals.toNat := by
  induction h with
  | entry hf hi =>
    intro fr hfr
    rw [List.mem_singleton.1 hfr]
    exact ⟨_, hf, rfl⟩
  | call hf hi hcaller hback rest ih =>
    intro fr hfr
    rcases List.mem_cons.1 hfr with rfl | hfr
    · exact ⟨_, hf, rfl⟩
    · exact ih fr hfr

theorem numbered (h : Linked p next function frames ks) : ∀ fr ∈ frames, fr.invocation < next := by
  induction h with
  | entry hf hi =>
    intro fr hfr
    rw [List.mem_singleton.1 hfr]
    exact hi
  | call hf hi hcaller hback rest ih =>
    intro fr hfr
    rcases List.mem_cons.1 hfr with rfl | hfr
    · exact hi
    · exact Nat.lt_trans (ih fr hfr) hi

theorem decreasing (h : Linked p next function frames ks) :
    (frames.map Frame.Outline.invocation).Pairwise (· > ·) := by
  induction h with
  | entry hf hi => exact List.pairwise_singleton _ _
  | call hf hi hcaller hback rest ih =>
    refine List.pairwise_cons.2 ⟨fun invocation hm => ?_, ih⟩
    obtain ⟨fr, hfr, rfl⟩ := List.mem_map.1 hm
    exact rest.numbered fr hfr

/-- Counted from the bottom, the induction adds the topmost frame and the topmost continuation at the
ends of the two lists. -/
theorem joined (h : Linked p next function frames ks) (i : Nat) (k : Continuation)
    (hk : ks.reverse[i]? = some k) :
    ∃ waiting called, frames.reverse[i]? = some waiting ∧ frames.reverse[i + 1]? = some called ∧
      Joins p k waiting.function called.function := by
  induction h with
  | entry hf hi => simp at hk
  | @call next invocation back f caller frames ks hf hi hcaller hback rest ih =>
    have hlen := rest.length
    rw [List.reverse_cons] at hk ⊢
    rcases Nat.lt_or_ge i ks.length with hlt | hge
    · rw [List.getElem?_append_left (by simpa using hlt)] at hk
      obtain ⟨waiting, called, hw, hc, hj⟩ := ih hk
      refine ⟨waiting, called, ?_, ?_, hj⟩
      · rw [List.getElem?_append_left (by simp; omega), hw]
      · rw [List.getElem?_append_left (by simp; omega), hc]
    · obtain ⟨below, frames', rfl, hbelow⟩ := rest.top
      have hi : i = ks.length := by
        have hlt := (List.getElem?_eq_some_iff.1 hk).1
        simp only [List.length_append, List.length_reverse, List.length_singleton] at hlt
        omega
      subst hi
      have hlen' : frames'.length = ks.length := by simpa using hlen
      have hk' : k = ⟨back, caller.id⟩ := by
        rw [List.getElem?_append_right (by simp)] at hk
        simpa using hk.symm
      subst hk'
      refine ⟨below, ⟨f.id, invocation, f.locals.toNat⟩, ?_, ?_, hbelow, caller, hcaller, hback⟩
      · rw [List.getElem?_append_left (by simp; omega), List.reverse_cons,
          List.getElem?_append_right (by simp; omega)]
        simp [hlen']
      · rw [List.getElem?_append_right (by simp; omega)]
        simp [hlen']

end Linked

theorem outline_activations (m : Machine) :
    m.activations.map Frame.outline = m.frames.outline.reverse :=
  List.map_reverse

theorem outline_mem {m : Machine} {fr : Frame} (h : fr ∈ m.activations) :
    fr.outline ∈ m.frames.outline :=
  List.mem_map_of_mem (List.mem_reverse.1 h)

theorem activation_of_outline {m : Machine} {i : Nat} {o : Frame.Outline}
    (h : m.frames.outline.reverse[i]? = some o) :
    ∃ fr, m.activations[i]? = some fr ∧ fr.outline = o := by
  rw [← outline_activations, List.getElem?_map] at h
  exact Option.map_eq_some_iff.1 h

theorem invocations_of_aligned {p : Program} {q : Position} {m : Machine} (h : Aligned p (q, m)) :
    (m.frames.frames.items.map Frame.invocation).Pairwise (· > ·) := by
  have hdecreasing := h.2.decreasing
  rwa [FrameStack.outline, List.map_map] at hdecreasing

theorem callStructure_of_aligned {p : Program} {q : Position} {m : Machine}
    (h : Aligned p (q, m)) : CallStructure p q m := by
  obtain ⟨hcode, hlinked⟩ := h
  refine ⟨hcode, ?_, ?_, ?_, ?_, ?_, ?_⟩
  · have hlen := hlinked.length
    have hout : m.frames.outline.length = m.frames.frames.items.length := List.length_map _
    rw [hout] at hlen
    simpa only [activations, pending, List.length_reverse] using hlen
  · intro i k hk
    obtain ⟨o, o', ho, ho', hj⟩ := hlinked.joined i k hk
    obtain ⟨waiting, hw, rfl⟩ := activation_of_outline ho
    obtain ⟨called, hc, rfl⟩ := activation_of_outline ho'
    exact ⟨waiting, called, hw, hc, hj⟩
  · obtain ⟨o, rest, ho, hfunction⟩ := hlinked.top
    obtain ⟨fr, frames, hitems, rfl, -⟩ := List.map_eq_cons_iff.1 ho
    refine ⟨fr, ?_, hfunction⟩
    rw [activations, hitems, List.getLast?_reverse, List.head?_cons]
  · exact fun fr hfr => hlinked.locals _ (outline_mem hfr)
  · rw [activations, List.map_reverse, List.pairwise_reverse]
    exact invocations_of_aligned ⟨hcode, hlinked⟩
  · exact fun fr hfr => hlinked.numbered _ (outline_mem hfr)

/-- In every state at the head of the loop of a run on a fresh machine, frames and continuations
belong together. -/
theorem callStructure_of_visits {p : Program} {limits : Limits} {args : List Cell} {sink : Output}
    {journal : Journal} {position : Position} {m : Machine}
    (h : Visits p limits args (fresh limits sink journal) (position, m)) :
    CallStructure p position m :=
  callStructure_of_aligned (aligned_of_visits h)

/-- A program that does nothing but call its second function. -/
def oneCall : Program where
  functions := #[⟨0, "main", {}, 1, ⟨#[Opcode.call.tag, 1, 0]⟩⟩, ⟨1, "callee", {}, 2, Code.empty⟩]
  constants := #[]
  natives := #[]
  entry := 0
  functions_fit := by decide
  natives_fit := Nat.zero_le _
  id_eq_position := by decide
  entry_lt := by decide

theorem callStructure_of_oneCall : ∃ position m,
    Visits oneCall {} [.int 7] (fresh {} {} {}) (position, m) ∧ m.pending = [⟨3, 0⟩] ∧
      CallStructure oneCall position m := by
  have hv : Visits oneCall {} [.int 7] (fresh {} {} {}) (_, _) :=
    ⟨_, rfl, .single (Turn.of_advance rfl)⟩
  exact ⟨_, _, hv, rfl, callStructure_of_visits hv⟩

end Machine

end CellMachine
