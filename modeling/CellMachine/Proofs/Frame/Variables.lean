import CellMachine.Proofs.Machine.Instruction

/-!
# Variables of frames

Reads and writes of variables, frame by frame. Main statements: a write that is not refused changes one
variable of one frame, the first one that its scope means; a read or a write is refused if there is no
such frame or no such slot in it, and for no other cause.
-/

namespace CellMachine

theorem Stack.updateFirst_of_split {α : Type} {chosen : α → Bool} {change : α → α} {above below : List α}
    {item : α} (habove : ∀ a ∈ above, chosen a = false) (hitem : chosen item = true) :
    updateFirst chosen change (above ++ item :: below) = above ++ change item :: below := by
  induction above with
  | nil => rw [List.nil_append, updateFirst_cons, if_pos hitem, List.nil_append]
  | cons a above ih =>
    have ha : chosen a = false := habove a List.mem_cons_self
    have hrest : ∀ b ∈ above, chosen b = false := fun b hb => habove b (List.mem_cons_of_mem a hb)
    rw [List.cons_append, updateFirst_cons, ha, ih hrest]
    rfl

namespace Frame

theorem load_of_lt {f : Frame} {slot : UInt16} (h : slot.toNat < f.locals) (t : ValueType) :
    ∃ c, f.load t slot = .ok c := by
  have hs : f.slots[slot.toNat]? = some f.slots[slot.toNat] := Array.getElem?_eq_getElem h
  exact ⟨f.slots[slot.toNat].get t, by simp only [load, hs]⟩

theorem load_of_le {f : Frame} {slot : UInt16} (h : f.locals ≤ slot.toNat) (t : ValueType) :
    f.load t slot = .error (f.outOfRange slot) := by
  have hs : f.slots[slot.toNat]? = none := Array.getElem?_eq_none h
  simp only [load, hs]

theorem load_fresh (function : UInt16) (invocation : Nat) {locals slot : UInt16}
    (h : slot.toNat < locals.toNat) (t : ValueType) :
    (fresh function invocation locals).load t slot = .ok (Cell.zero t) := by
  have hs : (Array.replicate locals.toNat ({} : Slot))[slot.toNat]? = some {} := by
    rw [Array.getElem?_replicate, if_pos h]
  simp only [load, fresh, hs, Slot.get_zero]

@[simp] theorem locals_write (f : Frame) (slot : UInt16) (c : Cell) :
    (f.write slot c).locals = f.locals :=
  congrArg Frame.Outline.locals (f.outline_write slot c)

@[simp] theorem invocation_write (f : Frame) (slot : UInt16) (c : Cell) :
    (f.write slot c).invocation = f.invocation :=
  congrArg Frame.Outline.invocation (f.outline_write slot c)

@[simp] theorem outOfRange_write (f : Frame) (slot : UInt16) (c : Cell) (slot' : UInt16) :
    (f.write slot c).outOfRange slot' = f.outOfRange slot' := by
  have ho := f.outline_write slot c
  simp only [outline, Outline.mk.injEq] at ho
  simp only [outOfRange, ho.1, ho.2.2]

/-- A write changes the variable of its slot and of its cell's type. -/
theorem load_write {f : Frame} {slot : UInt16} (h : slot.toNat < f.locals) (c : Cell) (t : ValueType)
    (slot' : UInt16) :
    (f.write slot c).load t slot' = if slot' = slot ∧ t = c.type then .ok c else f.load t slot' := by
  have hslots : (f.write slot c).slots = f.slots.modify slot.toNat (·.set c) := rfl
  simp only [load, outOfRange_write, hslots, Array.getElem?_modify]
  by_cases hslot : slot' = slot
  · subst hslot
    have hs : f.slots[slot'.toNat]? = some f.slots[slot'.toNat] := Array.getElem?_eq_getElem h
    by_cases ht : t = c.type
    · subst ht
      simp [hs]
    · simp [hs, ht, Slot.get_set_of_ne]
  · have hne : slot.toNat ≠ slot'.toNat := fun he => hslot (UInt16.toNat_inj.1 he.symm)
    simp only [if_neg hne, hslot, false_and, if_false]

end Frame

namespace FrameStack

@[simp] theorem items_push (s : FrameStack) (function locals : UInt16) :
    (s.push function locals).frames.items =
      Frame.fresh function s.next locals :: s.frames.items := rfl

/-- A pop takes the topmost frame and gives no number back. -/
theorem pop?_eq_some {s t : FrameStack} {fr : Frame} (h : s.pop? = some (fr, t)) :
    s.frames.items = fr :: t.frames.items ∧ s.next = t.next := by
  unfold pop? at h
  split at h
  · rename_i fr' rest hp
    cases h
    exact ⟨Stack.pop?_eq_some_iff.1 hp, rfl⟩
  · cases h

theorem pop?_eq_none {s : FrameStack} (h : s.pop? = none) : s.frames.items = [] := by
  unfold pop? at h
  split at h
  · cases h
  · rename_i hp
    exact Stack.pop?_eq_none_iff.1 hp

/-- The frame that a scope means, with the frames above and below it. -/
structure Resolves (s : FrameStack) (scope : Scope) (above : List Frame) (fr : Frame)
    (below : List Frame) : Prop where
  items : s.frames.items = above ++ fr :: below
  passed : ∀ f ∈ above, scope.selects f = false
  selected : scope.selects fr = true

theorem Resolves.frame {s : FrameStack} {scope : Scope} {above below : List Frame} {fr : Frame}
    (h : s.Resolves scope above fr below) : s.frame scope = .ok fr := by
  have hfind : s.frames.items.find? scope.selects = some fr := by
    rw [List.find?_eq_some_iff_append]
    refine ⟨h.selected, above, below, h.items, fun f hf => ?_⟩
    rw [h.passed f hf]
    rfl
  simp only [FrameStack.frame, hfind]

theorem resolves_of_frame {s : FrameStack} {scope : Scope} {fr : Frame} (h : s.frame scope = .ok fr) :
    ∃ above below, s.Resolves scope above fr below := by
  unfold FrameStack.frame at h
  split at h
  · rename_i f hfind
    cases h
    obtain ⟨hselected, above, below, hitems, hpassed⟩ := List.find?_eq_some_iff_append.1 hfind
    refine ⟨above, below, hitems, fun f hf => ?_, hselected⟩
    simpa using hpassed f hf
  · cases h

theorem mem_of_frame {s : FrameStack} {scope : Scope} {fr : Frame} (h : s.frame scope = .ok fr) :
    fr ∈ s.frames.items := by
  obtain ⟨above, below, hr⟩ := resolves_of_frame h
  rw [hr.items]
  exact List.mem_append_right above List.mem_cons_self

/-- Where the numbers of calls grow towards the top, the frame of a function that is found is the one of
its latest call. -/
theorem latest_of_frame {s : FrameStack}
    (hordered : (s.frames.items.map Frame.invocation).Pairwise (· > ·)) {function : UInt16} {fr : Frame}
    (hf : s.frame (.context function) = .ok fr) :
    fr.function = function ∧
      ∀ other ∈ s.frames.items, other.function = function → other.invocation ≤ fr.invocation := by
  obtain ⟨above, below, hr⟩ := resolves_of_frame hf
  refine ⟨by simpa [Scope.selects] using hr.selected, fun other hother hfunction => ?_⟩
  rw [hr.items, List.map_append, List.map_cons, List.pairwise_append, List.pairwise_cons] at hordered
  rw [hr.items, List.mem_append, List.mem_cons] at hother
  rcases hother with hm | rfl | hm
  · have hpassed := hr.passed other hm
    simp [Scope.selects, hfunction] at hpassed
  · exact Nat.le_refl _
  · exact Nat.le_of_lt (hordered.2.1.1 _ (List.mem_map_of_mem hm))

theorem selects_of_frame_error {s : FrameStack} {scope : Scope} {cause : Cause}
    (h : s.frame scope = .error cause) : ∀ fr ∈ s.frames.items, scope.selects fr = false := by
  unfold FrameStack.frame at h
  split at h
  · cases h
  · rename_i hfind
    intro fr hfr
    simpa using List.find?_eq_none.1 hfind fr hfr

/-! ### Writes -/

theorem store_eq_ok {s s' : FrameStack} {scope : Scope} {slot : UInt16} {c : Cell}
    (h : s.store scope slot c = .ok s') :
    ∃ above fr below, s.Resolves scope above fr below ∧ slot.toNat < fr.locals ∧
      s'.frames.items = above ++ fr.write slot c :: below ∧ s'.next = s.next := by
  unfold store checkSlot at h
  cases hf : s.frame scope with
  | error cause => simp [hf] at h
  | ok fr =>
    by_cases hslot : slot.toNat < fr.locals
    · simp only [hf, if_pos hslot] at h
      cases h
      obtain ⟨above, below, hr⟩ := resolves_of_frame hf
      refine ⟨above, fr, below, hr, hslot, ?_, rfl⟩
      show Stack.updateFirst scope.selects (·.write slot c) s.frames.items = _
      rw [hr.items, Stack.updateFirst_of_split hr.passed hr.selected]
    · simp [hf, hslot] at h

theorem store_of_frame {s : FrameStack} {scope : Scope} {slot : UInt16} {fr : Frame}
    (hf : s.frame scope = .ok fr) (hslot : slot.toNat < fr.locals) (c : Cell) :
    ∃ s', s.store scope slot c = .ok s' := by
  refine ⟨s.write scope slot c, ?_⟩
  simp only [store, checkSlot, hf, if_pos hslot]

theorem store_of_le {s : FrameStack} {scope : Scope} {slot : UInt16} {fr : Frame}
    (hf : s.frame scope = .ok fr) (hslot : fr.locals ≤ slot.toNat) (c : Cell) :
    s.store scope slot c = .error (fr.outOfRange slot) := by
  simp only [store, checkSlot, hf, if_neg (Nat.not_lt.2 hslot)]

theorem store_of_missing {s : FrameStack} {scope : Scope} {cause : Cause}
    (hf : s.frame scope = .error cause) (slot : UInt16) (c : Cell) :
    s.store scope slot c = .error cause := by
  simp only [store, checkSlot, hf]

end FrameStack

end CellMachine
