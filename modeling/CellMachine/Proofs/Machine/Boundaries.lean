import CellMachine.Proofs.Assembler.Emission
import CellMachine.Proofs.Machine.Endings

/-!
# Boundaries

Runs of programs whose code was emitted. Main statement: in every state of every run the cursor and
all continuations are at the start of an emitted instruction or at the end of the code, so that no
instruction can fail to be read and no jump can leave the code.
-/

namespace CellMachine

namespace Machine

open Listing Assembler

/-! ### One instruction of emitted code -/

section Step

variable {ds : List Directive} {p : Program} {f : Function} {cursor : Nat} {m n : Machine}

/-- Inside emitted code a boundary is the start of a directive whose instruction is read there. -/
theorem directive_of_boundary (he : Emitted ds f.code) (hb : Boundary ds cursor)
    (inside : cursor < f.code.size) : ∃ d, At ds d cursor ∧ 0 < d.size := by
  rcases hb with hd | hend
  · exact hd
  · rw [he.size_eq, hend] at inside
    exact (Nat.lt_irrefl _ inside).elim

theorem jumpTarget_of_emitted (he : Emitted ds f.code) (hb : Boundary ds cursor)
    (inside : cursor < f.code.size) {i : Instruction} (hi : f.code.instructionAt cursor = .ok i)
    {offset : Int16} (ha : i.action = .jump offset ∨ ∃ c, i.action = .jumpIf c offset) :
    ∃ target, Boundary ds target ∧
      jumpTarget f.code (cursor + i.opcode.length) offset = .ok target := by
  obtain ⟨d, hat, hs⟩ := directive_of_boundary he hb inside
  obtain ⟨target, hbt, htarget⟩ := he.boundary_of_jump hat hs hi ha
  have hle : target ≤ f.code.size := by
    rw [he.size_eq]
    rcases hbt with ⟨e, hate, -⟩ | hend
    · exact Nat.le_trans (Nat.le_add_right _ _) hate.end_le
    · exact Nat.le_of_eq hend
  exact ⟨target, hbt, jumpTarget_eq_ok_iff.2 ⟨htarget, hle⟩⟩

theorem boundary_behind (he : Emitted ds f.code) (hb : Boundary ds cursor)
    (inside : cursor < f.code.size) {i : Instruction} (hi : f.code.instructionAt cursor = .ok i) :
    Boundary ds (cursor + i.opcode.length) := by
  obtain ⟨d, hat, hs⟩ := directive_of_boundary he hb inside
  obtain ⟨offset, j, -, hread, hlen, -⟩ := he.instructionAt hat hs
  cases hi.symm.trans hread
  rw [hlen]
  exact hat.boundary_end

theorem boundary_of_next (he : Emitted ds f.code) (hb : Boundary ds cursor)
    (inside : cursor < f.code.size) {c : Nat} (hx : execute p f cursor m = .ok (.next c) n) :
    Boundary ds c := by
  obtain ⟨i, hi, hleads⟩ := (execute_outcomes p f cursor).of_ok hx
  rcases hleads.next_cases with rfl | rfl | ⟨offset, ha, ht⟩
  · exact boundary_behind he hb inside hi
  · exact .inr he.size_eq
  · obtain ⟨target, hbt, htarget⟩ := jumpTarget_of_emitted he hb inside hi ha
    cases ht.symm.trans htarget
    exact hbt

/-- At a boundary the only instruction that fails with a decoding fault is the invalid one. -/
theorem invalid_of_decode (he : Emitted ds f.code) (hb : Boundary ds cursor)
    (inside : cursor < f.code.size) {cause : Cause} (hx : execute p f cursor m = .error cause n)
    (hk : cause.kind = .decode) :
    cause = .invalidInstruction ∧ At ds (.plain .invalid) cursor := by
  obtain ⟨d, hat, hs⟩ := directive_of_boundary he hb inside
  obtain ⟨offset, j, -, hread, -, -⟩ := he.instructionAt hat hs
  rcases (execute_outcomes p f cursor).of_error hx with hno | ⟨i, hi, hrefuses⟩
  · cases hno.symm.trans hread
  rcases hrefuses with ⟨hfail, hcause⟩ | ⟨offset, ha, ht⟩ | hmem
  · cases he.eq_invalid_of_fail hat hs hi hfail
    exact ⟨hcause, hat⟩
  · obtain ⟨target, -, htarget⟩ := jumpTarget_of_emitted he hb inside hi ha
    cases ht.symm.trans htarget
  · rw [hk] at hmem
    exact ((kind_of_mem_refusals hmem).1 rfl).elim

end Step

/-! ### Runs of emitted programs -/

/-- Every function of the program has code that was emitted by the directives of its id. -/
def EmittedProgram (p : Program) (source : UInt16 → List Directive) : Prop :=
  ∀ id f, p.function id = .ok f → Emitted (source id) f.code

section Run

variable {p : Program} {source : UInt16 → List Directive} {limits : Limits}

def ReturnsToBoundary (p : Program) (source : UInt16 → List Directive) (k : Continuation) : Prop :=
  ∃ caller, p.function k.caller = .ok caller ∧ Boundary (source k.caller) k.cursor

def OnBoundaries (p : Program) (source : UInt16 → List Directive) (s : Position × Machine) : Prop :=
  p.function s.1.function.id = .ok s.1.function ∧ Boundary (source s.1.function.id) s.1.cursor ∧
    ∀ k ∈ s.2.continuations.items, ReturnsToBoundary p source k

theorem onBoundaries_turn (hp : EmittedProgram p source) {s t : Position × Machine}
    (h : OnBoundaries p source s) (ht : Turn p limits s t) : OnBoundaries p source t := by
  obtain ⟨⟨f, cursor⟩, m⟩ := s
  obtain ⟨q, n⟩ := t
  obtain ⟨hf, hb, hks⟩ := h
  have he : Emitted (source f.id) f.code := hp f.id f hf
  have ha : Advance p limits f cursor m (.running q n) := advance_of_eq ht
  cases ha with
  | @next c n inside hs hx =>
    have hk : n.continuations = m.continuations := (executed_of_execute hx).2
    refine ⟨hf, boundary_of_next he hb inside hx, ?_⟩
    show ∀ k ∈ n.continuations.items, _
    rw [hk]
    exact hks
  | @returned n k ks caller atEnd hl hk hcaller =>
    have hitems := continuations_of_leave? hl hk
    have hk' := hks k (by rw [hitems]; exact List.mem_cons_self)
    obtain ⟨caller', hcaller', hback⟩ := hk'
    have hid : caller.id = k.caller := Program.id_of_function hcaller
    refine ⟨Program.function_id hcaller, hid ▸ hback, fun k' hm => hks k' ?_⟩
    rw [hitems]
    exact List.mem_cons_of_mem _ hm
  | @called id back g n inside hs hx hg hd =>
    obtain ⟨i, hi, hleads⟩ := (execute_outcomes p f cursor).of_ok hx
    have hback : back = cursor + i.opcode.length := hleads.of_call.2
    have hk : n.continuations = m.continuations := (executed_of_execute hx).2
    refine ⟨Program.function_id hg, boundary_zero _, fun k' hm => ?_⟩
    rcases List.mem_cons.1 hm with rfl | hm
    · exact ⟨f, hf, hback ▸ boundary_behind he hb inside hi⟩
    · exact hks k' (hk ▸ hm)

theorem onBoundaries_start {m n : Machine}
    (hk : ∀ k ∈ m.continuations.items, ReturnsToBoundary p source k)
    (hs : n.skeleton = (m.enter p.entryFunction).skeleton) :
    OnBoundaries p source (⟨p.entryFunction, 0⟩, n) := by
  have hn : n.continuations = m.continuations := congrArg Skeleton.continuations hs
  refine ⟨Program.function_id p.function_entry, boundary_zero _, ?_⟩
  show ∀ k ∈ n.continuations.items, _
  rw [hn]
  exact hk

/-- Whatever machine runs of the program leave, its continuations are at boundaries. -/
theorem returnsToBoundary_of_leftBy (hp : EmittedProgram p source) {m : Machine} (h : LeftBy p m) :
    ∀ k ∈ m.continuations.items, ReturnsToBoundary p source k := by
  induction h with
  | fresh limits sink journal => exact fun k hk => (List.not_mem_nil hk).elim
  | @run m _ limits args sink ih =>
    show ∀ k ∈ (m.run p limits args).machine.continuations.items, _
    unfold Machine.run
    split
    · rename_i cause n hn
      have hk : n.continuations = m.continuations :=
        congrArg Skeleton.continuations (storeArguments_skeleton_of_error hn)
      rw [hk]
      exact ih
    · rename_i n hn
      have hstart := onBoundaries_start ih (storeArguments_skeleton hn)
      refine proceed_induct (I := OnBoundaries p source)
        (J := fun n => ∀ k ∈ n.continuations.items, ReturnsToBoundary p source k)
        (fun s hs => hs.2.2) (fun s t hs ht => onBoundaries_turn hp hs ht) ?_ _ hstart
      exact fun s fault? n hs ha k hk => hs.2.2 k ((continuations_sublist_of_ended ha).subset hk)

theorem onBoundaries_of_visits (hp : EmittedProgram p source) {m : Machine} (hm : LeftBy p m)
    {args : List Cell} {s : Position × Machine} (h : Visits p limits args m s) :
    OnBoundaries p source s :=
  h.induct (fun _ hs => onBoundaries_start (returnsToBoundary_of_leftBy hp hm) hs)
    fun _ _ hs ht => onBoundaries_turn hp hs ht

/-- The fault of an invalid instruction that was emitted. -/
def IsEmittedInvalid (p : Program) (source : UInt16 → List Directive) (fault : Fault) : Prop :=
  ∃ f cursor, p.function f.id = .ok f ∧ Writes (source f.id) cursor (.plain .invalid) ∧
    fault = Fault.located .invalidInstruction f.id cursor

theorem invalid_of_ended (hp : EmittedProgram p source) {s : Position × Machine} {n : Machine}
    {fault : Fault} (h : OnBoundaries p source s)
    (hx : s.2.advance p limits s.1 = .ended (some fault) n) (hk : fault.kind = .decode) :
    IsEmittedInvalid p source fault := by
  obtain ⟨⟨f, cursor⟩, m⟩ := s
  obtain ⟨hf, hb, -⟩ := h
  have ha : Advance p limits f cursor m (.ended (some fault) n) := advance_of_eq hx
  cases ha with
  | noFrame atEnd hl => cases hk
  | spent inside hs => cases hk
  | tooDeep inside hs he hg hd => cases hk
  | callerLost atEnd hl hks hcaller =>
    cases (function_refused hcaller).symm.trans hk
  | undefined inside hs he hg =>
    cases (function_refused hg).symm.trans hk
  | refused inside hs he =>
    have hemitted := hp f.id f hf
    obtain ⟨rfl, hat⟩ := invalid_of_decode hemitted hb inside he hk
    exact ⟨f, cursor, hf, hemitted.writes hat, rfl⟩

theorem invalid_of_run (hp : EmittedProgram p source) {m : Machine} (hm : LeftBy p m)
    {args : List Cell} {fault : Fault} (hend : (m.run p limits args).ending = .fault fault)
    (hk : fault.kind = .decode) : IsEmittedInvalid p source fault := by
  have hrun : ComesTo p limits args m (m.run p limits args) := comesTo_run (by simp [hend])
  rcases hrun.fault_cases hend with ⟨cause, n, hn, rfl⟩ | ⟨q, n, hv, hlast⟩
  · -- An argument that cannot be stored is refused for a bound.
    have hkind := (storeArguments_refused args.length args 0).of_error hn
    rw [show cause.kind = .decode from hk] at hkind
    cases List.mem_singleton.1 hkind
  · exact invalid_of_ended hp (onBoundaries_of_visits hp hm hv) hlast hk

/-- The start of an emitted instruction of a function, or the end of its code. -/
def AtInstruction (source : UInt16 → List Directive) (f : Function) (cursor : Nat) : Prop :=
  (∃ d, d.IsInstruction ∧ Writes (source f.id) cursor d) ∨ cursor = f.code.size

theorem atInstruction_of_boundary (hp : EmittedProgram p source) {f : Function}
    (hf : p.function f.id = .ok f) {cursor : Nat} (hb : Boundary (source f.id) cursor) :
    AtInstruction source f cursor := by
  have he := hp f.id f hf
  rcases hb with ⟨d, hat, hs⟩ | hend
  · exact .inl ⟨d, he.isInstruction hat hs, he.writes hat⟩
  · exact .inr (hend.trans he.size_eq.symm)

/-- Emitted code never derails a run. On a machine that is fresh or was left by earlier runs of the
program, the cursor of every state and all its continuations are at emitted instructions or at the end
of the code. A turn from there ends a run with a decoding fault only at an emitted invalid
instruction, and so does a run, whatever its limits are. -/
theorem atInstruction_of_emittedProgram (hp : EmittedProgram p source) {m : Machine}
    (hm : LeftBy p m) (limits : Limits) (args : List Cell) :
    (∀ position n, Visits p limits args m (position, n) →
      AtInstruction source position.function position.cursor ∧
        (∀ k ∈ n.continuations.items, ∃ caller, p.function k.caller = .ok caller ∧
          AtInstruction source caller k.cursor) ∧
        ∀ fault n', n.advance p limits position = .ended (some fault) n' → fault.kind = .decode →
          IsEmittedInvalid p source fault) ∧
    ∀ fault, (m.run p limits args).ending = .fault fault → fault.kind = .decode →
      IsEmittedInvalid p source fault := by
  refine ⟨fun position n hv => ?_, fun fault hend hk => invalid_of_run hp hm hend hk⟩
  have hon := onBoundaries_of_visits hp hm hv
  refine ⟨atInstruction_of_boundary hp hon.1 hon.2.1, fun k hmem => ?_, fun fault n' hx hk => ?_⟩
  · obtain ⟨caller, hcaller, hback⟩ := hon.2.2 k hmem
    have hid : caller.id = k.caller := Program.id_of_function hcaller
    exact ⟨caller, hcaller,
      atInstruction_of_boundary hp (Program.function_id hcaller) (hid.symm ▸ hback)⟩
  · exact invalid_of_ended hp hon hx hk

end Run

def jumpToInvalidSource (_ : UInt16) : List Directive :=
  [.newLabel, .jump .jump 0, .plain .stop, .bind 0, .plain .invalid]

def jumpToInvalidCode : Code :=
  ⟨#[Opcode.jump.tag, 1, 0, Opcode.stop.tag, Opcode.invalid.tag]⟩

/-- A program that jumps over an instruction to one that is invalid. -/
def jumpToInvalid : Program where
  functions := #[⟨0, "main", {}, 0, jumpToInvalidCode⟩]
  constants := #[]
  natives := #[]
  entry := 0
  functions_fit := by decide
  natives_fit := Nat.zero_le _
  id_eq_position := by decide
  entry_lt := by decide

theorem emittedProgram_jumpToInvalid : EmittedProgram jumpToInvalid jumpToInvalidSource := by
  intro id f hf
  have hsize : jumpToInvalid.functions.size = 1 := rfl
  unfold Program.function at hf
  split at hf
  · rename_i g hg
    cases hf
    obtain ⟨hlt, rfl⟩ := Array.getElem?_eq_some_iff.1 hg
    have hid : id = 0 := UInt16.toNat_inj.1 (Nat.lt_one_iff.1 (hsize ▸ hlt))
    subst hid
    have hfollow : empty.followAll? (jumpToInvalidSource 0) =
        some ⟨jumpToInvalidCode.bytes, #[⟨some 4, []⟩], none⟩ := by decide +kernel
    have hfinish : (⟨jumpToInvalidCode.bytes, #[⟨some 4, []⟩], none⟩ : Assembler).finish =
        .ok jumpToInvalidCode := by simp [Assembler.finish]
    exact ⟨by simp [jumpToInvalidSource, Directive.IsChecked], _, hfollow, hfinish⟩
  · cases hf

theorem atInstruction_of_jumpToInvalid :
    EmittedProgram jumpToInvalid jumpToInvalidSource ∧ LeftBy jumpToInvalid (fresh {} {} {}) ∧
      (∀ position n, Visits jumpToInvalid { budget := some 9 } [] (fresh {} {} {}) (position, n) →
        AtInstruction jumpToInvalidSource position.function position.cursor) ∧
      ∃ fault, ((fresh {} {} {}).run jumpToInvalid { budget := some 9 } []).ending = .fault fault ∧
        IsEmittedInvalid jumpToInvalid jumpToInvalidSource fault := by
  have hp := emittedProgram_jumpToInvalid
  have hm : LeftBy jumpToInvalid (fresh {} {} {}) := .fresh {} {} {}
  obtain ⟨hv, hfault⟩ := atInstruction_of_emittedProgram hp hm { budget := some 9 } []
  have hend : ((fresh {} {} {}).run jumpToInvalid { budget := some 9 } []).ending =
      .fault (Fault.located .invalidInstruction 0 4) := by decide +kernel
  exact ⟨hp, hm, fun position n h => (hv position n h).1, _, hend, hfault _ hend rfl⟩

end Machine

end CellMachine
