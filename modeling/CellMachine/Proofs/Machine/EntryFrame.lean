import CellMachine.Proofs.Machine.Blame

/-!
# The entry frame

Arguments are stored one after the other into the first slots of the entry frame, each into the variable
of its own type. Main statement: a run begins if every argument has a slot, and then those variables
hold the arguments and all others are zero; otherwise the first argument without a slot is refused.
-/

namespace CellMachine

/-! ### Frames and arguments -/

namespace Frame

/-- The frame with arguments in its variables, from a slot on. -/
def filled (f : Frame) : (args : List Cell) → (slot : Nat) → Frame
  | [], _ => f
  | c :: args, slot => (f.write (UInt16.ofNat slot) c).filled args (slot + 1)

variable {f : Frame} {args : List Cell} {slot : Nat}

@[simp] theorem outline_filled (f : Frame) (args : List Cell) (slot : Nat) :
    (f.filled args slot).outline = f.outline := by
  induction args generalizing f slot with
  | nil => rfl
  | cons c args ih =>
    unfold filled
    rw [ih, outline_write]

theorem load_filled_of_ne {target : UInt16} {t : ValueType} (hsmall : f.locals < UInt16.size)
    (hfit : slot + args.length ≤ f.locals)
    (hne : ∀ i c, args[i]? = some c → target.toNat = slot + i → t ≠ c.type) :
    (f.filled args slot).load t target = f.load t target := by
  induction args generalizing f slot with
  | nil => rfl
  | cons c args ih =>
    rw [List.length_cons] at hfit
    have hslot : (UInt16.ofNat slot).toNat = slot := UInt16.toNat_ofNat_of_lt (by omega)
    have hwrite : ¬ (target = UInt16.ofNat slot ∧ t = c.type) := by
      intro h
      refine hne 0 c rfl ?_ h.2
      rw [h.1, hslot, Nat.add_zero]
    unfold filled
    rw [ih (by rwa [locals_write]) (by rw [locals_write]; omega), load_write (by omega), if_neg hwrite]
    intro i c' hc' htarget
    exact hne (i + 1) c' hc' (by omega)

/-- No later argument takes the place of one that is stored. -/
theorem load_filled {i : Nat} {c : Cell} (hsmall : f.locals < UInt16.size)
    (hfit : slot + args.length ≤ f.locals) (hi : args[i]? = some c) :
    (f.filled args slot).load c.type (UInt16.ofNat (slot + i)) = .ok c := by
  induction args generalizing f slot i with
  | nil => cases hi
  | cons d args ih =>
    rw [List.length_cons] at hfit
    have hslot : (UInt16.ofNat slot).toNat = slot := UInt16.toNat_ofNat_of_lt (by omega)
    have hsmall' : (f.write (UInt16.ofNat slot) d).locals < UInt16.size := by rwa [locals_write]
    have hfit' : slot + 1 + args.length ≤ (f.write (UInt16.ofNat slot) d).locals := by
      rw [locals_write]
      omega
    unfold filled
    cases i with
    | zero =>
      -- Stored at once, and all that is stored afterwards goes into higher slots.
      cases hi
      have hlater : ∀ i c', args[i]? = some c' → (UInt16.ofNat slot).toNat = slot + 1 + i →
          c.type ≠ c'.type := by
        intro i c' _ htarget
        omega
      show ((f.write (UInt16.ofNat slot) c).filled args (slot + 1)).load c.type (.ofNat slot) = .ok c
      rw [load_filled_of_ne hsmall' hfit' hlater, load_write (by omega), if_pos ⟨rfl, rfl⟩]
    | succ i =>
      have hshift : slot + (i + 1) = slot + 1 + i := by omega
      rw [hshift]
      exact ih hsmall' hfit' hi

end Frame

/-! ### Storing the arguments -/

def FrameStack.sole (fr : Frame) : FrameStack := ⟨Stack.empty.push fr, 1⟩

theorem FrameStack.store_sole (fr : Frame) (slot : UInt16) (c : Cell) :
    (sole fr).store .top slot c =
      if slot.toNat < fr.locals then .ok (sole (fr.write slot c)) else .error (fr.outOfRange slot) := by
  have hframe : (sole fr).frame .top = .ok fr := rfl
  have hwrite : (sole fr).write .top slot c = sole (fr.write slot c) := by
    refine congrArg (FrameStack.mk · 1) (Stack.ext ?_)
    have hnone : ∀ above ∈ ([] : List Frame), Scope.top.selects above = false := by simp
    rw [Stack.items_update]
    exact Stack.updateFirst_of_split hnone rfl
  unfold store checkSlot
  rw [hframe]
  dsimp only
  by_cases hslot : slot.toNat < fr.locals
  · rw [if_pos hslot, if_pos hslot]
    exact congrArg Except.ok hwrite
  · rw [if_neg hslot, if_neg hslot]

namespace Machine

variable {p : Program} {limits : Limits} {args : List Cell} {m : Machine} {fr : Frame}
  {count slot : Nat}

theorem store_sole (hm : m.frames = .sole fr) (slot : UInt16) (c : Cell) :
    store .top slot c m =
      if slot.toNat < fr.locals then .ok () { m with frames := .sole (fr.write slot c) }
      else .error (fr.outOfRange slot) m := by
  rw [store_eq, hm, FrameStack.store_sole]
  by_cases hslot : slot.toNat < fr.locals
  · rw [if_pos hslot, if_pos hslot]
  · rw [if_neg hslot, if_neg hslot]

theorem storeArguments_cons (c : Cell) (hm : m.frames = .sole fr) (hsmall : fr.locals < UInt16.size)
    (hslot : slot < fr.locals) :
    storeArguments count (c :: args) slot m = storeArguments count args (slot + 1)
      { m with frames := .sole (fr.write (UInt16.ofNat slot) c) } := by
  have hlt : slot < UInt16.size := by omega
  have htoNat : (UInt16.ofNat slot).toNat = slot := UInt16.toNat_ofNat_of_lt hlt
  have hstore : store .top (UInt16.ofNat slot) c m =
      .ok () { m with frames := .sole (fr.write (UInt16.ofNat slot) c) } := by
    rw [store_sole hm, if_pos (by omega)]
  rw [storeArguments, if_pos hlt, bind_of_ok hstore]

theorem storeArguments_of_le (hm : m.frames = .sole fr) (hsmall : fr.locals < UInt16.size)
    (hfit : slot + args.length ≤ fr.locals) :
    storeArguments count args slot m = .ok () { m with frames := .sole (fr.filled args slot) } := by
  induction args generalizing m fr slot with
  | nil =>
    show EStateM.Result.ok () m = .ok () { m with frames := .sole fr }
    rw [← hm]
  | cons c args ih =>
    rw [List.length_cons] at hfit
    rw [storeArguments_cons c hm hsmall (by omega)]
    exact ih rfl (by rwa [Frame.locals_write]) (by rw [Frame.locals_write]; omega)

/-- The check of the index comes first, but the slots of a frame end where the indices do or before. -/
theorem storeArguments_of_gt (hm : m.frames = .sole fr) (hsmall : fr.locals < UInt16.size)
    (hslot : slot ≤ fr.locals) (hexceeds : fr.locals < slot + args.length) :
    ∃ frames, storeArguments count args slot m =
      .error (fr.outOfRange (UInt16.ofNat fr.locals)) { m with frames } := by
  induction args generalizing m fr slot with
  | nil => exact absurd hexceeds (by simpa using hslot)
  | cons c args ih =>
    rw [List.length_cons] at hexceeds
    by_cases hlast : slot = fr.locals
    -- Even the slot behind the last one has a number of 16 bits.
    · have hlt : slot < UInt16.size := by omega
      have htoNat : (UInt16.ofNat slot).toNat = slot := UInt16.toNat_ofNat_of_lt hlt
      have hstore : store .top (UInt16.ofNat slot) c m =
          .error (fr.outOfRange (UInt16.ofNat slot)) m := by
        rw [store_sole hm, if_neg (by omega)]
      refine ⟨m.frames, ?_⟩
      rw [storeArguments, if_pos hlt, ← hlast, bind_of_error hstore]
    · let stored : Machine := { m with frames := .sole (fr.write (UInt16.ofNat slot) c) }
      have hstored : stored.frames = .sole (fr.write (UInt16.ofNat slot) c) := rfl
      have hlocals := fr.locals_write (UInt16.ofNat slot) c
      have hnext : slot + 1 ≤ (fr.write (UInt16.ofNat slot) c).locals := by omega
      obtain ⟨frames, hframes⟩ := ih hstored (by omega) hnext (by omega)
      refine ⟨frames, ?_⟩
      rw [storeArguments_cons c hm hsmall (by omega), hframes, hlocals, Frame.outOfRange_write]

/-! ### The beginning of a run -/

/-- The machine before the first instruction. Arguments are in the variables of the only frame. -/
structure Begun (p : Program) (args : List Cell) (m entered : Machine) (fr : Frame) : Prop where
  frames : entered.frames.frames.items = [fr]
  outline : fr.outline = ⟨p.entryFunction.id, 0, p.entryFunction.locals.toNat⟩
  arguments {i : Nat} {c : Cell} (h : args[i]? = some c) : fr.load c.type (UInt16.ofNat i) = .ok c
  zeros {slot : UInt16} {t : ValueType} (hslot : slot.toNat < p.entryFunction.locals.toNat)
    (hne : ∀ c, args[slot.toNat]? = some c → t ≠ c.type) : fr.load t slot = .ok (Cell.zero t)
  stack : entered.stack = m.stack
  continuations : entered.continuations = m.continuations
  executed : entered.executed = m.executed
  sink : entered.sink = m.sink

/-- The cause that the first argument without a slot is refused for. -/
def excessArgument (f : Function) : Cause := .slotOutOfRange f.locals f.id f.locals.toNat

/-- How a run begins with arguments, or that it does not. -/
structure ArgumentLaw (p : Program) (limits : Limits) (args : List Cell) (m : Machine) : Prop where
  begins : (∃ s, Visits p limits args m s) ↔ args.length ≤ p.entryFunction.locals.toNat
  fits (h : args.length ≤ p.entryFunction.locals.toNat) : ∃ entered fr, Begun p args m entered fr ∧
    Visits p limits args m (⟨p.entryFunction, 0⟩, entered) ∧
    m.run p limits args = entered.proceed p limits (m.turns limits) ⟨p.entryFunction, 0⟩
  exceeds (h : p.entryFunction.locals.toNat < args.length) : ∃ n,
    m.run p limits args = ⟨.fault { cause := excessArgument p.entryFunction }, n⟩ ∧
    (excessArgument p.entryFunction).kind = .bounds ∧ n.executed = m.executed ∧
    n.sink = m.sink ∧ n.journal = (m.enter p.entryFunction).journal

def blankFrame (p : Program) : Frame :=
  Frame.fresh p.entryFunction.id 0 p.entryFunction.locals

theorem locals_blankFrame (p : Program) : (blankFrame p).locals = p.entryFunction.locals.toNat :=
  Array.size_replicate

theorem locals_blankFrame_lt (p : Program) : (blankFrame p).locals < UInt16.size := by
  rw [locals_blankFrame]
  exact p.entryFunction.locals.toNat_lt_size

theorem frames_enter_fresh (p : Program) (limits : Limits) (sink : Output) (journal : Journal) :
    ((fresh limits sink journal).enter p.entryFunction).frames = .sole (blankFrame p) := rfl

theorem storeArguments_fresh_of_le (h : args.length ≤ p.entryFunction.locals.toNat)
    (limits : Limits) (sink : Output) (journal : Journal) :
    ∃ entered fr, storeArguments args.length args 0
        ((fresh limits sink journal).enter p.entryFunction) = .ok () entered ∧
      Begun p args (fresh limits sink journal) entered fr := by
  have hlocals := locals_blankFrame p
  have hsmall := locals_blankFrame_lt p
  have hfit : 0 + args.length ≤ (blankFrame p).locals := by omega
  have hframes := frames_enter_fresh p limits sink journal
  refine ⟨_, (blankFrame p).filled args 0, storeArguments_of_le hframes hsmall hfit, ?_⟩
  constructor
  case outline =>
    rw [Frame.outline_filled, ← hlocals]
    rfl
  case arguments =>
    intro i c hi
    have hload := Frame.load_filled hsmall hfit hi
    rwa [Nat.zero_add] at hload
  case zeros =>
    intro slot t hslot hne
    have hload : ((blankFrame p).filled args 0).load t slot = (blankFrame p).load t slot := by
      refine Frame.load_filled_of_ne hsmall hfit fun i c hi htarget => ?_
      rw [Nat.zero_add] at htarget
      exact hne c (htarget ▸ hi)
    rw [hload]
    exact Frame.load_fresh p.entryFunction.id 0 hslot t
  all_goals rfl

theorem storeArguments_fresh_of_gt (h : p.entryFunction.locals.toNat < args.length)
    (limits : Limits) (sink : Output) (journal : Journal) :
    ∃ frames, storeArguments args.length args 0
        ((fresh limits sink journal).enter p.entryFunction) =
      .error (excessArgument p.entryFunction)
        { (fresh limits sink journal).enter p.entryFunction with frames } := by
  have hlocals := locals_blankFrame p
  have hframes := frames_enter_fresh p limits sink journal
  have hcause : (blankFrame p).outOfRange (UInt16.ofNat (blankFrame p).locals) =
      excessArgument p.entryFunction := by
    rw [Frame.outOfRange, hlocals, UInt16.ofNat_toNat]
    rfl
  rw [← hcause]
  exact storeArguments_of_gt hframes (locals_blankFrame_lt p) (Nat.zero_le _) (by omega)

/-- A run on a fresh machine begins if there is a slot for every argument. The number of arguments
does not matter otherwise, not even where it is no index of a slot. -/
theorem argumentLaw_of_fresh (p : Program) (limits : Limits) (args : List Cell) (sink : Output)
    (journal : Journal) : ArgumentLaw p limits args (fresh limits sink journal) := by
  constructor
  case begins =>
    constructor
    · intro hvisits
      obtain ⟨s, entered, hentered, -⟩ := hvisits
      refine Nat.le_of_not_lt fun hexceeds => ?_
      obtain ⟨frames, hrefused⟩ := storeArguments_fresh_of_gt hexceeds limits sink journal
      cases hentered.symm.trans hrefused
    · intro hfits
      obtain ⟨entered, -, hentered, -⟩ := storeArguments_fresh_of_le hfits limits sink journal
      exact ⟨_, entered, hentered, .refl⟩
  case fits =>
    intro hfits
    obtain ⟨entered, fr, hentered, hbegun⟩ := storeArguments_fresh_of_le hfits limits sink journal
    refine ⟨entered, fr, hbegun, ⟨entered, hentered, .refl⟩, ?_⟩
    rw [run_eq_runWithin, runWithin, hentered]
  case exceeds =>
    intro hexceeds
    obtain ⟨frames, hrefused⟩ := storeArguments_fresh_of_gt hexceeds limits sink journal
    refine ⟨{ (fresh limits sink journal).enter p.entryFunction with frames }, ?_, rfl, rfl, rfl, rfl⟩
    rw [run, hrefused]

/-- More arguments than there are indices of slots, for a function with as many slots as there can be. -/
theorem argumentLaw_of_fresh_moreThanIndices :
    ∃ n, (fresh {} {} {}).run (.single 65535 Code.empty) {} (List.replicate 70000 (.int 0)) =
      ⟨.fault { cause := .slotOutOfRange 65535 0 65535 }, n⟩ := by
  obtain ⟨n, hn, -⟩ := (argumentLaw_of_fresh (.single 65535 Code.empty) {}
    (List.replicate 70000 (.int 0)) {} {}).exceeds (by rw [List.length_replicate]; decide)
  exact ⟨n, hn⟩

end Machine

end CellMachine
