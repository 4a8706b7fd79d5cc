import CellMachine.Proofs.Code
import CellMachine.Proofs.Machine.CallStructure
import CellMachine.Proofs.Machine.Endings
import CellMachine.Proofs.Machine.OperandRoom

/-!
# Blame

Where a fault of a run is located, and which instruction stands there. Main statement: a run that was
given no more arguments than its entry function has variables blames the instruction that it was at,
and that is an instruction which can fail in this way.
-/

namespace CellMachine

namespace Opcode

def loadsLiteral : Opcode → Bool
  | literal _ | zero _ | one _ | minusOne _ => true
  | _ => false

def loadsVariable : Opcode → Bool
  | loadShort .. | load _ | loadContext _ => true
  | _ => false

def storesVariable : Opcode → Bool
  | storeShort .. | store _ | storeContext _ => true
  | _ => false

/-- Whether an instruction takes cells off the operand stack. A call of a native takes its arguments. -/
def takesOperands : Opcode → Bool
  | doubleOp _ | intOp _ | negate _ | print _ | convert _ | swap | pop | compare _ | jumpIf _
  | callNative => true
  | op => op.storesVariable

end Opcode

/-- At `pos` there is a byte that is no tag, or an instruction whose operand crosses the end. -/
def Code.Unreadable (code : Code) (pos : Nat) : Prop :=
  (∃ tag, code.byte? pos = some tag ∧ Opcode.ofTag? tag = none) ∨
    ∃ op, code.opcode? pos = some op ∧ code.size < pos + op.length

namespace Machine

variable {p : Program} {limits : Limits}

/-! ### What can fail how -/

/-- Whether a jump leads before the start of the code or behind its end. -/
def JumpsOutside (site : Site) (i : Instruction) : Prop :=
  ∃ distance : Int16, (i.action = .jump distance ∨ ∃ c, i.action = .jumpIf c distance) ∧
    ((site.next : Int) + distance.toInt < 0 ∨
      (site.function.code.size : Int) < site.next + distance.toInt)

/-- What an instruction that fails with a kind has to be, and the state of the machine with it. -/
def CanFail (p : Program) (site : Site) (i : Instruction) (m : Machine) : FaultKind → Prop
  | .decode => i.opcode = .invalid ∨ JumpsOutside site i
  | .arithmetic =>
    (i.opcode = .intOp .div ∨ i.opcode = .intOp .mod) ∧ m.stack.top? = some (.int 0)
  | .output => ∃ t, i.opcode = .print t
  | .nativeSignature | .unsupportedNative => i.opcode = .callNative
  | .stackOverflow =>
    i.opcode.loadsLiteral ∨ i.opcode.loadsVariable ∨ (∃ n, i.opcode = .compare n) ∨
      i.opcode = .call ∨
      ∃ id native, i = ⟨.callNative, id⟩ ∧ p.native id = .ok native ∧ native.signature.params = []
  | .bounds =>
    i.opcode = .literal .text ∨ i.opcode.loadsVariable ∨ i.opcode.storesVariable ∨
      i.opcode = .call ∨ i.opcode = .callNative
  | .stackDiscipline =>
    i.opcode.takesOperands ∧ ∀ id, i = ⟨.callNative, id⟩ →
      ∃ native, p.native id = .ok native ∧ native.signature.params ≠ []
  | .instructionBudget => False

/-- What stands at `offset` of `f`, where a run comes to a fault of a kind on `m`. -/
def Fits (p : Program) (limits : Limits) (f : Function) (offset : Nat) (m : Machine)
    (kind : FaultKind) : Prop :=
  (kind = .instructionBudget ∧ m.spent? limits ≠ none) ∨
  (kind = .decode ∧ f.code.Unreadable offset) ∨
  ∃ i, f.code.instructionAt offset = .ok i ∧ CanFail p (siteOf f offset i) i m kind

theorem jumpTarget_outside {code : Code} {start : Nat} {distance : Int16} {cause : Cause}
    (h : jumpTarget code start distance = .error cause) :
    (start : Int) + distance.toInt < 0 ∨ (code.size : Int) < start + distance.toInt := by
  unfold jumpTarget at h
  dsimp only at h
  split at h
  · cases h
  · omega

/-- What is known of an action that was refused, whichever opcode it is of. -/
structure RefusedOn (p : Program) (stack : OperandStack) (action : Action) (kind : FaultKind) :
    Prop where
  mem : kind ∈ refusals action
  room : addsCell action = false → kind ≠ .stackOverflow
  divisor : ∀ o, action = .intOp o → kind = .arithmetic →
    (o = .div ∨ o = .mod) ∧ stack.top? = some (.int 0)
  overflow : ∀ id, action = .callNative id → kind = .stackOverflow →
    ∃ native, p.native id = .ok native ∧ native.signature.params = []
  discipline : ∀ id, action = .callNative id → kind = .stackDiscipline →
    ∃ native, p.native id = .ok native ∧ native.signature.params ≠ []

theorem perform_divisor (p : Program) (site : Site) (o : IntOp) (top? : Option Cell) :
    Triple (fun m => m.stack.top? = top?) (perform p site (.intOp o)) (fun _ _ => True) fun cause =>
      cause.kind = .arithmetic → (o = .div ∨ o = .mod) ∧ top? = some (.int 0) :=
  (onStack_triple (OperandStack.intOp_divisor o top?)).bind fun _ => .pure fun _ _ => trivial

theorem perform_callNative (p : Program) (site : Site) (id : UInt16) :
    Triple (fun m => m.stack.HasRoom 0) (perform p site (.callNative id)) (fun _ _ => True)
      (RefusesNative p id) :=
  (callNative_refuses p id).bind fun _ => .pure fun _ _ => trivial

theorem refusedOn {site : Site} {action : Action} {m n : Machine} {cause : Cause}
    (hroom : m.stack.HasRoom 0) (h : perform p site action m = .error cause n)
    (hmem : cause.kind ∈ refusals action) : RefusedOn p m.stack action cause.kind where
  mem := hmem
  room hadds := (perform_within p site hadds).of_error hroom h
  divisor o ho := by
    subst ho
    exact (perform_divisor p site o _).of_error rfl h
  overflow id hid := by
    subst hid
    exact ((perform_callNative p site id).of_error hroom h).overflow
  discipline id hid := by
    subst hid
    exact ((perform_callNative p site id).of_error hroom h).discipline

/-- Opcode by opcode, the kinds of refusal that are left. -/
theorem RefusedOn.canFail {site : Site} {i : Instruction} {m : Machine} {kind : FaultKind}
    (h : RefusedOn p m.stack i.action kind) : CanFail p site i m kind := by
  obtain ⟨op, operand⟩ := i
  have hmem := h.mem
  cases op with
  | invalid | jump | dump | stop | call | ret | breakpoint => cases hmem
  | zero t =>
    cases List.mem_singleton.1 hmem
    exact .inl rfl
  | one n | minusOne n =>
    cases n <;>
    · cases List.mem_singleton.1 hmem
      exact .inl rfl
  | literal t =>
    cases t with
    | double | int =>
      cases List.mem_singleton.1 hmem
      exact .inl rfl
    | text =>
      rcases List.mem_cons.1 hmem with rfl | hmem
      · exact .inl rfl
      · cases List.mem_singleton.1 hmem
        exact .inl rfl
  | loadShort t slot | load t | loadContext t =>
    rcases List.mem_cons.1 hmem with rfl | hmem
    · exact .inr (.inl rfl)
    · cases List.mem_singleton.1 hmem
      exact .inr (.inl rfl)
  | storeShort t slot | store t | storeContext t =>
    rcases List.mem_cons.1 hmem with rfl | hmem
    · exact ⟨rfl, nofun⟩
    · cases List.mem_singleton.1 hmem
      exact .inr (.inr (.inl rfl))
  | doubleOp _ | negate _ | convert _ | jumpIf _ =>
    rcases List.mem_cons.1 hmem with rfl | hmem
    · exact ⟨rfl, nofun⟩
    · exact (h.room rfl (List.mem_singleton.1 hmem)).elim
  | compare n =>
    rcases List.mem_cons.1 hmem with rfl | hmem
    · exact ⟨rfl, nofun⟩
    · cases List.mem_singleton.1 hmem
      exact .inr (.inr (.inl ⟨n, rfl⟩))
  | swap | pop =>
    cases List.mem_singleton.1 hmem
    exact ⟨rfl, nofun⟩
  | print t =>
    rcases List.mem_cons.1 hmem with rfl | hmem
    · exact ⟨rfl, nofun⟩
    · cases List.mem_singleton.1 hmem
      exact ⟨t, rfl⟩
  | intOp o =>
    rcases List.mem_cons.1 hmem with rfl | hmem
    · obtain ⟨hdivides, hzero⟩ := h.divisor o rfl rfl
      rcases hdivides with rfl | rfl
      · exact ⟨.inl rfl, hzero⟩
      · exact ⟨.inr rfl, hzero⟩
    rcases List.mem_cons.1 hmem with rfl | hmem
    · exact ⟨rfl, nofun⟩
    · exact (h.room rfl (List.mem_singleton.1 hmem)).elim
  | callNative =>
    rcases List.mem_cons.1 hmem with rfl | hmem
    · exact .inr (.inr (.inr (.inr rfl)))
    rcases List.mem_cons.1 hmem with rfl | hmem
    · rfl
    rcases List.mem_cons.1 hmem with rfl | hmem
    · rfl
    rcases List.mem_cons.1 hmem with rfl | hmem
    · refine ⟨rfl, fun id hid => ?_⟩
      cases hid
      exact h.discipline operand rfl rfl
    · cases List.mem_singleton.1 hmem
      obtain ⟨native, hnative, hparams⟩ := h.overflow operand rfl rfl
      exact .inr (.inr (.inr (.inr ⟨operand, native, rfl, hnative, hparams⟩)))

theorem fits_of_execute_error {f : Function} {cursor : Nat} {m n : Machine} {cause : Cause}
    (inside : cursor < f.code.size) (hroom : m.stack.HasRoom 0)
    (h : execute p f cursor { m with executed := m.executed + 1 } = .error cause n) :
    Fits p limits f cursor m cause.kind := by
  rcases perform_of_execute_error h with hread | ⟨i, e, hi, hperform⟩
  · obtain ⟨hkind, hunreadable⟩ := Code.instructionAt_refused inside hread
    exact .inr (.inl ⟨hkind, hunreadable⟩)
  refine .inr (.inr ⟨i, hi, ?_⟩)
  rcases (perform_outcomes p (siteOf f cursor i) i.action).of_error hperform with
    ⟨hfail, rfl⟩ | ⟨distance, hjump, htarget⟩ | hmem
  · exact .inl (congrArg Instruction.opcode (Instruction.eq_of_action hfail rfl))
  · rw [jumpTarget_refused htarget]
    exact .inr ⟨distance, hjump, jumpTarget_outside htarget⟩
  · have hrefused : RefusedOn p m.stack i.action cause.kind :=
      refusedOn (m := note { m with executed := m.executed + 1 } e) hroom hperform hmem
    exact hrefused.canFail

/-! ### Where a run fails -/

/-- The instruction that a fault blames: the run was at it, and its next turn ended with the fault. -/
structure Blamed (p : Program) (limits : Limits) (args : List Cell) (start : Machine) (fault : Fault)
    (left : Machine) (f : Function) (offset : Nat) (m : Machine) : Prop where
  defined : p.function f.id = .ok f
  named : fault.function = some f.id
  placed : fault.offset = some offset
  inside : offset < f.code.size
  visited : Visits p limits args start (⟨f, offset⟩, m)
  last : m.advance p limits ⟨f, offset⟩ = .ended (some fault) left
  fits : Fits p limits f offset m fault.kind

theorem leave?_isSome {m : Machine} {function : UInt16} {next : Nat} {ks : List Continuation}
    (h : Linked p next function m.frames.outline ks) : m.leave? ≠ none := by
  intro hl
  obtain ⟨o, rest, ho, -⟩ := h.top
  obtain ⟨fr, frames, hitems, -, -⟩ := List.map_eq_cons_iff.1 ho
  cases (leave?_eq_none hl).symm.trans hitems

theorem blamed_of_ended {args : List Cell} {sink : Output} {journal : Journal} {f : Function}
    {cursor : Nat} {m n : Machine} {fault : Fault}
    (hv : Visits p limits args (fresh limits sink journal) (⟨f, cursor⟩, m))
    (h : m.advance p limits ⟨f, cursor⟩ = .ended (some fault) n) :
    Blamed p limits args (fresh limits sink journal) fault n f cursor m := by
  obtain ⟨hdefined, hlinked⟩ : Aligned p (⟨f, cursor⟩, m) := aligned_of_visits hv
  have hroom : m.stack.HasRoom 0 := hasRoom_of_visits (hasRoom_fresh _ _ _) hv
  cases advance_of_eq h with
  | noFrame atEnd hl => exact (leave?_isSome hlinked hl).elim
  | callerLost atEnd hl hk hf =>
    dsimp only at hlinked
    rw [continuations_of_leave? hl hk] at hlinked
    obtain ⟨caller, hcaller⟩ := caller_of_linked hlinked
    cases hcaller.symm.trans hf
  | spent inside hs => exact ⟨hdefined, rfl, rfl, inside, hv, h, .inl ⟨rfl, by simp [hs]⟩⟩
  | refused inside hs he =>
    exact ⟨hdefined, rfl, rfl, inside, hv, h, fits_of_execute_error inside hroom he⟩
  | @undefined id back cause n inside hs he hf =>
    refine ⟨hdefined, rfl, rfl, inside, hv, h, .inr (.inr ⟨_, (call_of_execute he).1, ?_⟩)⟩
    show CanFail p _ _ m cause.kind
    rw [function_refused hf]
    exact .inr (.inr (.inr (.inl rfl)))
  | tooDeep inside hs he hf hd =>
    refine ⟨hdefined, rfl, rfl, inside, hv, h, .inr (.inr ⟨_, (call_of_execute he).1, ?_⟩)⟩
    exact .inr (.inr (.inr (.inl rfl)))

/-! ### Arguments -/

theorem store_top {m : Machine} {o : Frame.Outline} {rest : List Frame.Outline}
    (htop : m.frames.outline = o :: rest) {slot : UInt16} (hslot : slot.toNat < o.locals) (c : Cell) :
    ∃ n, store .top slot c m = .ok () n := by
  obtain ⟨fr, frames, hitems, rfl, -⟩ := List.map_eq_cons_iff.1 htop
  have hframe : m.frames.frame .top = .ok fr := by
    unfold FrameStack.frame
    rw [hitems]
    rfl
  have hcheck : m.frames.checkSlot .top slot = .ok () := by
    unfold FrameStack.checkSlot
    rw [hframe]
    exact if_pos hslot
  unfold store
  rw [hcheck]
  exact ⟨_, rfl⟩

/-- As many arguments as the top frame has variables can be stored. -/
theorem storeArguments_succeeds {count slot : Nat} {args : List Cell} {m : Machine}
    {o : Frame.Outline} {rest : List Frame.Outline} (htop : m.frames.outline = o :: rest)
    (hfit : slot + args.length ≤ o.locals) (hsmall : o.locals < UInt16.size) :
    ∃ n, storeArguments count args slot m = .ok () n := by
  induction args generalizing slot m with
  | nil => exact ⟨m, rfl⟩
  | cons c args ih =>
    simp only [List.length_cons] at hfit
    have hlt : slot < UInt16.size := by omega
    have hslot : (UInt16.ofNat slot).toNat = slot := UInt16.toNat_ofNat_of_lt hlt
    obtain ⟨n, hn⟩ : ∃ n, store .top (UInt16.ofNat slot) c m = .ok () n :=
      store_top htop (by omega) c
    have hskeleton : n.skeleton = m.skeleton :=
      Preserves.of_ok ((kept_skeleton m.skeleton).store .top (UInt16.ofNat slot) c) rfl hn
    have htop' : n.frames.outline = o :: rest := (congrArg Skeleton.frames hskeleton).trans htop
    obtain ⟨n', hn'⟩ : ∃ n', storeArguments count args (slot + 1) n = .ok () n' :=
      ih htop' (by omega)
    refine ⟨n', ?_⟩
    rw [storeArguments, if_pos hlt, bind_of_ok hn]
    exact hn'

/-- A run that fails blames an instruction that it was at and that can fail in this way. -/
theorem blamed_of_fault (p : Program) (limits : Limits) (args : List Cell) (sink : Output)
    (journal : Journal) (hargs : args.length ≤ p.entryFunction.locals.toNat) {o : Outcome}
    (hrun : ComesTo p limits args (fresh limits sink journal) o) {fault : Fault}
    (hfault : o.ending = .fault fault) :
    ∃ f offset m, Blamed p limits args (fresh limits sink journal) fault o.machine f offset m := by
  rcases hrun.fault_cases hfault with ⟨cause, n, hn, -⟩ | ⟨q, m, hv, hlast⟩
  · have htop : ((fresh limits sink journal).enter p.entryFunction).frames.outline =
        [⟨p.entryFunction.id, 0, p.entryFunction.locals.toNat⟩] := by
      rw [frames_enter, FrameStack.outline_push]
      rfl
    have hfit : 0 + args.length ≤ p.entryFunction.locals.toNat := by omega
    obtain ⟨n', hn'⟩ : ∃ n', storeArguments args.length args 0
        ((fresh limits sink journal).enter p.entryFunction) = .ok () n' :=
      storeArguments_succeeds htop hfit p.entryFunction.locals.toNat_lt
    cases hn.symm.trans hn'
  · exact ⟨q.function, q.cursor, m, blamed_of_ended hv hlast⟩

/-- A program that divides its argument by zero. -/
def dividesByZero : Program :=
  .single 1 ⟨#[(Opcode.loadShort .int ⟨0, by decide⟩).tag, (Opcode.zero .int).tag,
    (Opcode.intOp .div).tag]⟩

theorem blamed_of_dividesByZero : ∃ left f m,
    Blamed dividesByZero {} [.int 7] (fresh {} {} {}) (Fault.located .divisionByZero 0 2) left f 2 m := by
  have hrun : ComesTo dividesByZero {} [.int 7] (fresh {} {} {})
      ((fresh {} {} {}).runWithin dividesByZero {} [.int 7] 4) := ⟨⟨4, rfl⟩, by decide +kernel⟩
  have hfault : ((fresh {} {} {}).runWithin dividesByZero {} [.int 7] 4).ending =
      .fault (Fault.located .divisionByZero 0 2) := by decide +kernel
  obtain ⟨f, offset, m, hblamed⟩ :=
    blamed_of_fault dividesByZero {} [.int 7] {} {} (by decide) hrun hfault
  cases Option.some.inj hblamed.placed
  exact ⟨_, f, m, hblamed⟩

end Machine

end CellMachine
