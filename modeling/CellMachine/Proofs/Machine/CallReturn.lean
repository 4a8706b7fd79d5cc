import CellMachine.Proofs.Machine.CallStructure
import CellMachine.Proofs.Machine.Endings
import Mathlib.Data.List.Forall2

/-!
# Calls and their returns

Main statement: when a call returns, its caller goes on behind the call, with the continuations and the
frames that it had. A variable of these frames has another value only if an instruction in between has
stored into it, in the frame of the latest call of its function.
-/

namespace CellMachine

theorem Stack.depth_lt_of_items {α : Type} {s t : Stack α} {above : List α} {item : α}
    (h : t.items = above ++ item :: s.items) : s.depth < t.depth := by
  rw [s.depth_eq, t.depth_eq, h, List.length_append, List.length_cons]
  omega

/-! ### Frames that are the same but for some variables -/

structure Frame.SameBut (stored : ValueType → UInt16 → Prop) (fr fr' : Frame) : Prop where
  outline : fr'.outline = fr.outline
  values (t : ValueType) (slot : UInt16) : fr'.load t slot = fr.load t slot ∨ stored t slot

/-- Frame by frame, where `stored` tells the variables of a call by the number of the call. -/
def SameFrames (stored : Nat → ValueType → UInt16 → Prop) : (frs frs' : List Frame) → Prop :=
  List.Forall₂ fun fr fr' => fr.SameBut (stored fr.invocation) fr'

namespace SameFrames

variable {stored stored' stored'' : Nat → ValueType → UInt16 → Prop} {frs frs' frs'' : List Frame}

theorem refl (stored : Nat → ValueType → UInt16 → Prop) (frs : List Frame) :
    SameFrames stored frs frs :=
  List.forall₂_same.2 fun _ _ => ⟨rfl, fun _ _ => .inl rfl⟩

theorem trans (h : SameFrames stored frs frs') (h' : SameFrames stored' frs' frs'')
    (hs : ∀ invocation t slot, stored invocation t slot → stored'' invocation t slot)
    (hs' : ∀ invocation t slot, stored' invocation t slot → stored'' invocation t slot) :
    SameFrames stored'' frs frs'' := by
  unfold SameFrames at *
  induction h generalizing frs'' with
  | nil =>
    cases h' with
    | nil => exact .nil
  | @cons fr fr' frs frs' hfr _ ih =>
    cases h' with
    | @cons _ fr'' _ frs'' hfr' hrest =>
      have hinvocation : fr'.invocation = fr.invocation :=
        congrArg Frame.Outline.invocation hfr.outline
      refine .cons ⟨hfr'.outline.trans hfr.outline, fun t slot => ?_⟩ (ih hrest)
      rcases hfr'.values t slot with hsame | hst
      · rcases hfr.values t slot with hsame' | hst'
        · exact .inl (hsame.trans hsame')
        · exact .inr (hs _ _ _ hst')
      · exact .inr (hs' _ _ _ (hinvocation ▸ hst))

end SameFrames

theorem Frame.sameBut_write {fr : Frame} {slot : UInt16} (h : slot.toNat < fr.locals) (c : Cell) :
    fr.SameBut (fun t slot' => t = c.type ∧ slot' = slot) (fr.write slot c) where
  outline := fr.outline_write slot c
  values t slot' := by
    rw [Frame.load_write h]
    by_cases hw : slot' = slot ∧ t = c.type
    · exact .inr ⟨hw.2, hw.1⟩
    · exact .inl (if_neg hw)

namespace FrameStack

theorem context_of_passed {s : FrameStack} {scope : Scope} {above below : List Frame} {fr : Frame}
    (h : s.Resolves scope above fr below) (ha : above ≠ []) : ∃ context, scope = .context context := by
  cases scope with
  | context context => exact ⟨context, rfl⟩
  | top =>
    obtain ⟨fr', hfr'⟩ := List.exists_mem_of_ne_nil above ha
    cases h.passed fr' hfr'

/-- The variable that a store writes in the scope of a function, by the number of the call. -/
def ContextWrites (s : FrameStack) (scope : Scope) (slot : UInt16) (c : Cell) (invocation : Nat)
    (t : ValueType) (slot' : UInt16) : Prop :=
  ∃ context fr, scope = .context context ∧ s.frame scope = .ok fr ∧ fr.invocation = invocation ∧
    t = c.type ∧ slot' = slot

theorem sameFrames_of_store {s s' : FrameStack} {scope : Scope} {slot : UInt16} {c : Cell}
    (h : s.store scope slot c = .ok s') {xs ys : List Frame} (hitems : s.frames.items = xs ++ ys)
    (hxs : xs ≠ []) :
    ∃ xs' ys', s'.frames.items = xs' ++ ys' ∧ xs'.length = xs.length ∧
      SameFrames (s.ContextWrites scope slot c) ys ys' := by
  -- The frame that is written lies among `ys` or among `xs`, where the top frame always is.
  obtain ⟨above, fr, below, hr, hslot, hnew, -⟩ := store_eq_ok h
  have hsplit : above ++ fr :: below = xs ++ ys := hr.items.symm.trans hitems
  have hbeneath : ∀ bs, above = xs ++ bs → ys = bs ++ fr :: below →
      SameFrames (s.ContextWrites scope slot c) ys (bs ++ fr.write slot c :: below) := by
    intro bs habove hys
    obtain ⟨context, hcontext⟩ : ∃ context, scope = .context context := by
      refine context_of_passed hr ?_
      rw [habove]
      exact List.append_ne_nil_of_left_ne_nil hxs bs
    have hwritten := fr.sameBut_write hslot c
    have hfr : fr.SameBut (s.ContextWrites scope slot c fr.invocation) (fr.write slot c) := by
      refine ⟨hwritten.outline, fun t slot' => ?_⟩
      rcases hwritten.values t slot' with hsame | hst
      · exact .inl hsame
      · exact .inr ⟨context, fr, hcontext, hr.frame, rfl, hst⟩
    have hsame := SameFrames.refl (s.ContextWrites scope slot c)
    rw [hys]
    exact List.rel_append (hsame bs) (.cons hfr (hsame below))
  rcases List.append_eq_append_iff.1 hsplit with ⟨as, hxs', hrest⟩ | ⟨bs, habove, hys⟩
  · cases as with
    | nil =>
      rw [List.append_nil] at hxs'
      rw [List.nil_append] at hrest
      refine ⟨xs, fr.write slot c :: below, ?_, rfl, hbeneath [] ?_ hrest.symm⟩
      · rw [hnew, hxs']
      · rw [hxs', List.append_nil]
    | cons a as =>
      obtain ⟨rfl, hbelow⟩ := List.cons_eq_cons.1 hrest
      refine ⟨above ++ fr.write slot c :: as, ys, ?_, ?_, SameFrames.refl _ ys⟩
      · rw [hnew, hbelow, List.append_assoc]
        rfl
      · rw [hxs', List.length_append, List.length_append]
        rfl
  · refine ⟨xs, bs ++ fr.write slot c :: below, ?_, rfl, hbeneath bs habove hys⟩
    rw [hnew, habove, List.append_assoc]

end FrameStack

namespace Machine

variable {p : Program} {limits : Limits}

/-! ### The turns of a call -/

/-- Turns after each of which more than `depth` continuations are left. -/
abbrev Above (p : Program) (limits : Limits) (depth : Nat) :
    Position × Machine → Position × Machine → Prop :=
  Relation.ReflTransGen fun s t => Turn p limits s t ∧ depth < t.2.continuations.depth

/-- A call by the instruction at `s` that is carried out, and the turn at `last` that takes away the
continuation of the call, after turns that did not. -/
structure CallSpan (p : Program) (limits : Limits) (s first last : Position × Machine) : Prop where
  instruction : ∃ callee, s.1.function.code.instructionAt s.1.cursor = .ok ⟨.call, callee⟩
  begins : Turn p limits s first
  within : Above p limits s.2.continuations.depth first last
  ends : (machineAfter (last.2.advance p limits last.1)).continuations.depth ≤
    s.2.continuations.depth

/-- The active calls of a function include the one with the number `invocation`, and none of them began
after it. -/
def LatestCall (frs : List Frame) (function : UInt16) (invocation : Nat) : Prop :=
  (∃ fr ∈ frs, fr.function = function ∧ fr.invocation = invocation) ∧
    ∀ fr ∈ frs, fr.function = function → fr.invocation ≤ invocation

/-- The instruction at `s` stores into a variable of the call with the number `invocation`, the latest
one of the function that the instruction names. -/
def StoresInto (s : Position × Machine) (invocation : Nat) (t : ValueType) (slot : UInt16) : Prop :=
  ∃ context, s.1.function.code.instructionAt s.1.cursor = .ok ⟨.storeContext t, (context, slot)⟩ ∧
    LatestCall s.2.frames.frames.items context invocation

/-- One of the turns from `first` to `last` has carried out such an instruction. -/
def StoredBetween (p : Program) (limits : Limits) (depth : Nat) (first last : Position × Machine)
    (invocation : Nat) (t : ValueType) (slot : UInt16) : Prop :=
  ∃ u v, Above p limits depth first u ∧ Turn p limits u v ∧ Above p limits depth v last ∧
    StoresInto u invocation t slot

/-- How the caller at `s` goes on after a call from `first` to `last`. -/
structure Resumed (p : Program) (limits : Limits) (s first last s' : Position × Machine) : Prop where
  turn : Turn p limits last s'
  function : s'.1.function = s.1.function
  cursor : s'.1.cursor = s.1.cursor + Opcode.call.length
  continuations : s'.2.continuations = s.2.continuations
  frames : SameFrames (StoredBetween p limits s.2.continuations.depth first last)
    s.2.frames.frames.items s'.2.frames.frames.items

theorem sameFrames_of_execute {f : Function} {cursor : Nat} {m n : Machine} {flow : Flow}
    (h : execute p f cursor { m with executed := m.executed + 1 } = .ok flow n)
    (hordered : (m.frames.frames.items.map Frame.invocation).Pairwise (· > ·)) {xs ys : List Frame}
    (hitems : m.frames.frames.items = xs ++ ys) (hxs : xs ≠ []) :
    ∃ xs' ys', n.frames.frames.items = xs' ++ ys' ∧ xs'.length = xs.length ∧
      SameFrames (StoresInto (⟨f, cursor⟩, m)) ys ys' := by
  rcases frames_of_execute h with hsame | ⟨i, scope, t, slot, c, hi, ha, rfl, hstore⟩
  · exact ⟨xs, ys, hsame ▸ hitems, rfl, SameFrames.refl _ ys⟩
  · obtain ⟨xs', ys', hitems', hlength, hframes⟩ := FrameStack.sameFrames_of_store hstore hitems hxs
    refine ⟨xs', ys', hitems', hlength, hframes.trans (SameFrames.refl _ ys') ?_ fun _ _ _ h => h⟩
    intro invocation t slot' hst
    obtain ⟨context, fr, rfl, hfr, rfl, rfl, rfl⟩ := hst
    cases Instruction.eq_of_action ha rfl
    have hlatest := FrameStack.latest_of_frame hordered hfr
    exact ⟨context, hi, ⟨fr, FrameStack.mem_of_frame hfr, hlatest.1, rfl⟩, hlatest.2⟩

/-! ### What lies beneath a call -/

/-- Where the caller at `s` goes on. -/
def back (s : Position × Machine) : Continuation :=
  ⟨s.1.cursor + Opcode.call.length, s.1.function.id⟩

/-- At `t` the frames and continuations of the caller at `s` lie beneath those of the calls since
`first`, of which there is one frame more. -/
def Beneath (p : Program) (limits : Limits) (s first t : Position × Machine) : Prop :=
  ∃ ks xs ys, t.2.continuations.items = ks ++ back s :: s.2.continuations.items ∧
    t.2.frames.frames.items = xs ++ ys ∧ xs.length = ks.length + 1 ∧
    SameFrames (StoredBetween p limits s.2.continuations.depth first t) s.2.frames.frames.items ys

theorem beneath_of_call {s first : Position × Machine} {callee : UInt16}
    (hi : s.1.function.code.instructionAt s.1.cursor = .ok ⟨.call, callee⟩)
    (h : Turn p limits s first) : Beneath p limits s first first := by
  obtain ⟨⟨f, cursor⟩, m⟩ := s
  obtain ⟨q, n⟩ := first
  have hi : f.code.instructionAt cursor = .ok ⟨.call, callee⟩ := hi
  have hinside : cursor + 3 ≤ f.code.size := (Code.callEndsAt_of_instructionAt hi).2.1
  have hleads : ∀ {flow : Flow} {n' : Machine},
      execute p f cursor { m with executed := m.executed + 1 } = .ok flow n' →
        flow = .call callee (cursor + Opcode.call.length) := by
    intro flow n' he
    rw [execute_of_instructionAt hi] at he
    cases he
    rfl
  have ha : Advance p limits f cursor m (.running q n) := advance_of_eq h
  cases ha with
  | returned atEnd hl hk hf => omega
  | next inside hs he => cases hleads he
  | @called id back' g n inside hs he hf hd =>
    cases hleads he
    have hframes : n.frames = m.frames := by
      rcases frames_of_execute he with hsame | ⟨i, scope, t, slot, c, hi', ha, -⟩
      · exact hsame
      · cases hi.symm.trans hi'
        cases ha
    refine ⟨[], [Frame.fresh g.id n.frames.next g.locals], m.frames.frames.items, ?_, ?_, rfl,
      SameFrames.refl _ _⟩
    · simp only [continuations_enter, Stack.items_push, (executed_of_execute he).2]
      rfl
    · simp only [frames_enter, frames_note, FrameStack.items_push, ← hframes]
      rfl

theorem sameFrames_of_turn {first t u : Position × Machine} {frs ys ys' : List Frame} {depth : Nat}
    (h : SameFrames (StoredBetween p limits depth first t) frs ys) (hft : Above p limits depth first t)
    (htu : Turn p limits t u) (hdepth : depth < u.2.continuations.depth)
    (h' : SameFrames (StoresInto t) ys ys') :
    SameFrames (StoredBetween p limits depth first u) frs ys' := by
  refine h.trans h' ?_ ?_
  · intro invocation t' slot hst
    obtain ⟨v, w, hv, hvw, hw, hinto⟩ := hst
    exact ⟨v, w, hv, hvw, hw.tail ⟨htu, hdepth⟩, hinto⟩
  · intro invocation t' slot hst
    exact ⟨t, u, hft, htu, .refl, hst⟩

theorem popped_cases {s : Position × Machine} {m n : Machine} {ks : List Continuation}
    {xs ys : List Frame} {k : Continuation} {rest : Stack Continuation}
    (hks : m.continuations.items = ks ++ back s :: s.2.continuations.items)
    (hfs : m.frames.frames.items = xs ++ ys) (hlength : xs.length = ks.length + 1)
    (hl : m.leave? = some n) (hk : n.continuations.pop? = some (k, rest)) :
    (k = back s ∧ rest = s.2.continuations ∧ n.frames.frames.items = ys) ∨
    ∃ ks' xs', rest.items = ks' ++ back s :: s.2.continuations.items ∧
      n.frames.frames.items = xs' ++ ys ∧ xs'.length = ks'.length + 1 := by
  obtain ⟨-, -, fr, hp⟩ := leave?_eq_some hl
  obtain ⟨x, xs, rfl⟩ := List.exists_cons_of_length_eq_add_one hlength
  have hlength : xs.length = ks.length := Nat.succ.inj hlength
  have hframes : fr :: n.frames.frames.items = x :: (xs ++ ys) :=
    (FrameStack.pop?_eq_some hp).1.symm.trans hfs
  have hitems : k :: rest.items = ks ++ back s :: s.2.continuations.items := by
    rw [← hks, continuations_of_leave? hl hk]
  obtain ⟨-, hframes⟩ := List.cons_eq_cons.1 hframes
  -- What goes belongs to the call itself or to a call since.
  cases ks with
  | nil =>
    obtain ⟨hback, hrest⟩ := List.cons_eq_cons.1 hitems
    cases List.length_eq_zero_iff.1 hlength
    exact .inl ⟨hback, Stack.ext hrest, hframes⟩
  | cons k' ks =>
    obtain ⟨-, hrest⟩ := List.cons_eq_cons.1 hitems
    exact .inr ⟨ks, xs, hrest, hframes, hlength⟩

/-- The step of the invariant. What belongs to the caller stays beneath, with its continuation, until
the turn that resumes the caller. -/
theorem beneath_of_advance {s first t : Position × Machine}
    (hf : p.function s.1.function.id = .ok s.1.function) (ht : Aligned p t)
    (hft : Above p limits s.2.continuations.depth first t) (h : Beneath p limits s first t) :
    (s.2.continuations.depth < (machineAfter (t.2.advance p limits t.1)).continuations.depth ∧
      ∀ u, Turn p limits t u → Beneath p limits s first u) ∨
    ∃ s', Resumed p limits s first t s' := by
  obtain ⟨ks, xs, ys, hks, hfs, hlength, hsame⟩ := h
  obtain ⟨⟨g, cursor⟩, m⟩ := t
  have hxs : xs ≠ [] := List.ne_nil_of_length_eq_add_one hlength
  have hordered := invocations_of_aligned ht
  have hkeeps : ∀ {n : Machine}, n.continuations = m.continuations →
      s.2.continuations.depth < n.continuations.depth := by
    intro n hn
    exact Stack.depth_lt_of_items (hn ▸ hks)
  have hadvance := advance_spec p limits g cursor m
  generalize hr : m.advance p limits ⟨g, cursor⟩ = r at hadvance
  cases hadvance with
  | noFrame atEnd hl => exact .inl ⟨hkeeps rfl, fun u hu => by cases hr.symm.trans hu⟩
  | spent inside hs => exact .inl ⟨hkeeps rfl, fun u hu => by cases hr.symm.trans hu⟩
  | finished atEnd hl hk =>
    exact .inl ⟨hkeeps (leave?_eq_some hl).1, fun u hu => by cases hr.symm.trans hu⟩
  | refused inside hs he =>
    have hsk := congrArg Skeleton.continuations (execute_skeleton_of_error he)
    exact .inl ⟨hkeeps hsk, fun u hu => by cases hr.symm.trans hu⟩
  | stopped inside hs he | undefined inside hs he hg | tooDeep inside hs he hg hd =>
    exact .inl ⟨hkeeps (executed_of_execute he).2, fun u hu => by cases hr.symm.trans hu⟩
  | @next c n inside hs he =>
    have hn := (executed_of_execute he).2
    obtain ⟨xs', ys', hfs', hlength', hstores⟩ := sameFrames_of_execute he hordered hfs hxs
    refine .inl ⟨hkeeps hn, fun u hu => ?_⟩
    obtain ⟨q, n'⟩ := u
    cases hr.symm.trans hu
    exact ⟨ks, xs', ys', hn ▸ hks, hfs', hlength'.trans hlength,
      sameFrames_of_turn hsame hft hu (hkeeps hn) hstores⟩
  | @called id ret f n inside hs he hg hd =>
    have hn := (executed_of_execute he).2
    obtain ⟨xs', ys', hfs', hlength', hstores⟩ := sameFrames_of_execute he hordered hfs hxs
    have hitems : (n.continuations.push ⟨ret, g.id⟩).items =
        (⟨ret, g.id⟩ :: ks) ++ back s :: s.2.continuations.items := by
      rw [Stack.items_push, hn, hks, List.cons_append]
    have hdepth : s.2.continuations.depth < (n.continuations.push ⟨ret, g.id⟩).depth :=
      Nat.lt_succ_of_lt (hkeeps hn)
    refine .inl ⟨hdepth, fun u hu => ?_⟩
    obtain ⟨q, n'⟩ := u
    cases hr.symm.trans hu
    -- A continuation and a frame more, both above what belongs to the caller.
    refine ⟨⟨ret, g.id⟩ :: ks, Frame.fresh f.id n.frames.next f.locals :: xs', ys', hitems, ?_, ?_,
      sameFrames_of_turn hsame hft hu hdepth hstores⟩
    · simp only [frames_note, FrameStack.items_push, hfs', List.cons_append]
    · rw [List.length_cons, List.length_cons, hlength', hlength]
  | @returned n k rest caller atEnd hl hk hg =>
    rcases popped_cases hks hfs hlength hl hk with ⟨rfl, rfl, hys⟩ | ⟨ks', xs', hks', hfs', hlength'⟩
    · cases hf.symm.trans hg
      refine .inr ⟨_, Turn.of_advance hr, rfl, rfl, rfl, ?_⟩
      show SameFrames _ _ n.frames.frames.items
      rw [hys]
      exact hsame
    · have hdepth : s.2.continuations.depth < rest.depth := Stack.depth_lt_of_items hks'
      refine .inl ⟨hdepth, fun u hu => ?_⟩
      obtain ⟨q, n'⟩ := u
      cases hr.symm.trans hu
      exact ⟨ks', xs', ys, hks', hfs', hlength',
        sameFrames_of_turn hsame hft hu hdepth (SameFrames.refl _ ys)⟩
  | @callerLost n k rest cause atEnd hl hk hg =>
    rcases popped_cases hks hfs hlength hl hk with ⟨rfl, rfl, -⟩ | ⟨ks', xs', hks', -⟩
    · cases hf.symm.trans hg
    · exact .inl ⟨Stack.depth_lt_of_items hks', fun u hu => by cases hr.symm.trans hu⟩

theorem aligned_of_above {first t : Position × Machine} {depth : Nat} (hfirst : Aligned p first)
    (h : Above p limits depth first t) : Aligned p t := by
  induction h with
  | refl => exact hfirst
  | tail _ htu ih => exact aligned_turn ih htu.1

theorem beneath_of_above {s first t : Position × Machine}
    (hf : p.function s.1.function.id = .ok s.1.function) (haligned : Aligned p first)
    (hfirst : Beneath p limits s first first) (h : Above p limits s.2.continuations.depth first t) :
    Beneath p limits s first t := by
  induction h with
  | refl => exact hfirst
  | @tail t u hft htu ih =>
    rcases beneath_of_advance hf (aligned_of_above haligned hft) hft ih with
      ⟨-, hbeneath⟩ | ⟨s', hresumed⟩
    · exact hbeneath u htu.1
    · cases Turn.unique htu.1 hresumed.turn
      exact absurd htu.2 (by rw [hresumed.continuations]; exact Nat.lt_irrefl _)

/-- A call and its return. Between a call that is carried out, in whatever state of a run, and the turn
that takes its continuation away, other calls may nest, of the same functions too. After that turn the
caller goes on behind the call with its continuations and its frames, and a variable of one of these
frames has the value from before the call unless an instruction in between has stored into it. -/
theorem resumed_of_callSpan {args : List Cell} {sink : Output} {journal : Journal}
    {s first last : Position × Machine} (hs : Visits p limits args (fresh limits sink journal) s)
    (h : CallSpan p limits s first last) : ∃ s', Resumed p limits s first last s' := by
  have hf : p.function s.1.function.id = .ok s.1.function := (aligned_of_visits hs).1
  have hfirst : Aligned p first := aligned_turn (aligned_of_visits hs) h.begins
  obtain ⟨callee, hi⟩ := h.instruction
  have hlast := beneath_of_above hf hfirst (beneath_of_call hi h.begins) h.within
  rcases beneath_of_advance hf (aligned_of_above hfirst h.within) h.within hlast with ⟨hdepth, -⟩ | hresumed
  · exact absurd h.ends (Nat.not_le.2 hdepth)
  · exact hresumed

/-- A program whose second function stores a one into a variable of the first. -/
def storesIntoCaller : Program where
  functions := #[⟨0, "main", {}, 1, ⟨#[Opcode.call.tag, 1, 0]⟩⟩,
    ⟨1, "callee", {}, 0, ⟨#[(Opcode.one .int).tag, (Opcode.storeContext .int).tag, 0, 0, 0, 0]⟩⟩]
  constants := #[]
  natives := #[]
  entry := 0
  functions_fit := by decide
  natives_fit := Nat.zero_le _
  id_eq_position := by decide
  entry_lt := by decide

theorem resumed_of_storesIntoCaller : ∃ s first last s',
    Visits storesIntoCaller {} [] (fresh {} {} {}) s ∧
      CallSpan storesIntoCaller {} s first last ∧
      Resumed storesIntoCaller {} s first last s' ∧
      s.2.frames.load .top .int 0 = .ok (.int 0) ∧ s'.2.frames.load .top .int 0 = .ok (.int 1) := by
  have hcall : ∃ s first last s', Visits storesIntoCaller {} [] (fresh {} {} {}) s ∧
      CallSpan storesIntoCaller {} s first last ∧ Turn storesIntoCaller {} last s' ∧
      s.2.frames.load .top .int 0 = .ok (.int 0) ∧ s'.2.frames.load .top .int 0 = .ok (.int 1) :=
    ⟨(_, _), (_, _), (_, _), (_, _), ⟨_, rfl, .refl⟩,
      ⟨⟨(1 : UInt16), rfl⟩, .of_advance rfl,
        .tail (.tail .refl ⟨.of_advance rfl, by decide⟩) ⟨.of_advance rfl, by decide⟩,
        by decide +kernel⟩,
      .of_advance rfl, rfl, rfl⟩
  obtain ⟨s, first, last, s', hs, hspan, hturn, hbefore, hafter⟩ := hcall
  obtain ⟨resumed, hresumed⟩ := resumed_of_callSpan hs hspan
  cases hturn.unique hresumed.turn
  exact ⟨s, first, last, s', hs, hspan, hresumed, hbefore, hafter⟩

end Machine

end CellMachine
