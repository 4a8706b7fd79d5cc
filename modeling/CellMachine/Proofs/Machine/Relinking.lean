import CellMachine.Proofs.Code
import CellMachine.Proofs.Image.Canonical
import CellMachine.Proofs.Machine.Parallel
import CellMachine.Proofs.Machine.Simulation

/-!
# Programs with other natives

Two programs of the same code with other code for their natives, as two resolvers make of one image.
Main statement: their runs are the same, or come in the same state to a call of a native for which the
programs have different code.
-/

namespace CellMachine

/-- Functions that a run does not tell apart: name and declared types have no part in it. -/
structure Function.RunsLike (f g : Function) : Prop where
  id : f.id = g.id
  locals : f.locals = g.locals
  code : f.code = g.code

structure Native.DeclaredLike (n n' : Native) : Prop where
  name : n.name = n'.name
  signature : n.signature = n'.signature

theorem Native.DeclaredLike.eq {n n' : Native} (h : n.DeclaredLike n') (hcode : n.code = n'.code) :
    n = n' := by
  obtain ⟨name, signature, code⟩ := n
  obtain ⟨name', signature', code'⟩ := n'
  obtain ⟨rfl, rfl⟩ := h
  cases hcode
  rfl

namespace Program

/-- Programs that differ at most in names and declared types of functions and in the code of natives. -/
structure SameButNatives (p p' : Program) : Prop where
  entry : p.entry = p'.entry
  constants : p.constants = p'.constants
  functions : p.functions.map (fun f => (f.locals, f.code)) =
    p'.functions.map fun f => (f.locals, f.code)
  natives : p.natives.map (fun n => (n.name, n.signature)) =
    p'.natives.map fun n => (n.name, n.signature)

/-- Whatever two resolvers find, they make such programs of one image. -/
theorem sameButNatives_of_ofBytes {resolve resolve' : Resolver} {bytes : List UInt8} {p p' : Program}
    (h : ofBytes resolve bytes = .ok p) (h' : ofBytes resolve' bytes = .ok p') :
    p.SameButNatives p' := by
  obtain ⟨image, hread, hload⟩ := Image.bind_eq_ok_iff.1 h
  obtain ⟨image', hread', hload'⟩ := Image.bind_eq_ok_iff.1 h'
  cases hread.symm.trans hread'
  have himage : p.image = p'.image := by rw [image_of_ofImage hload, image_of_ofImage hload']
  have hfunctions : p.functions = p'.functions := congrArg Image.functions himage
  have hnatives := congrArg (Array.map fun d => (d.name, d.signature)) (congrArg Image.natives himage)
  simp only [Program.image, Array.map_map, Function.comp_def] at hnatives
  exact ⟨congrArg Image.entry himage, congrArg Image.constants himage, by rw [hfunctions], hnatives⟩

/-! ### What is looked up -/

theorem getElem?_of_map_eq {α β : Type} {f : α → β} {as bs : Array α} (h : as.map f = bs.map f)
    (i : Nat) :
    (∃ a b, as[i]? = some a ∧ bs[i]? = some b ∧ f a = f b) ∨ (as[i]? = none ∧ bs[i]? = none) := by
  have hat : (as.map f)[i]? = (bs.map f)[i]? := by rw [h]
  rw [Array.getElem?_map, Array.getElem?_map] at hat
  cases ha : as[i]? with
  | none =>
    rw [ha] at hat
    exact .inr ⟨rfl, Option.map_eq_none_iff.1 hat.symm⟩
  | some a =>
    rw [ha] at hat
    obtain ⟨b, hb, hab⟩ := Option.map_eq_some_iff.1 hat.symm
    exact .inl ⟨a, b, rfl, hb, hab.symm⟩

namespace SameButNatives

variable {p p' : Program} (h : p.SameButNatives p')

include h

theorem constant (id : UInt16) : p.constant id = p'.constant id := by
  simp only [Program.constant, h.constants]

theorem function (id : UInt16) :
    Matched (fun _ => False) Function.RunsLike (p.function id) (p'.function id) := by
  rcases getElem?_of_map_eq h.functions id.toNat with ⟨f, g, hf, hg, hfg⟩ | ⟨hf, hg⟩
  · have hpf : p.function id = .ok f := by simp only [Program.function, hf]
    have hpg : p'.function id = .ok g := by simp only [Program.function, hg]
    have hid : f.id = g.id := (id_of_function hpf).trans (id_of_function hpg).symm
    rw [hpf, hpg]
    exact .ok ⟨hid, congrArg Prod.fst hfg, congrArg Prod.snd hfg⟩
  · simp only [Program.function, hf, hg]
    exact .error _

theorem native (id : UInt16) :
    Matched (fun _ => False) Native.DeclaredLike (p.native id) (p'.native id) := by
  rcases getElem?_of_map_eq h.natives id.toNat with ⟨n, n', hn, hn', heq⟩ | ⟨hn, hn'⟩
  · simp only [Program.native, hn, hn']
    exact .ok ⟨congrArg Prod.fst heq, congrArg Prod.snd heq⟩
  · simp only [Program.native, hn, hn']
    exact .error _

theorem entryFunction : p.entryFunction.RunsLike p'.entryFunction := by
  have hentry := h.function p.entry
  rw [p.function_entry, h.entry, p'.function_entry] at hentry
  cases hentry with
  | ok hfunctions => exact hfunctions

end SameButNatives

end Program

structure Position.RunsLike (q q' : Position) : Prop where
  function : q.function.RunsLike q'.function
  cursor : q.cursor = q'.cursor

namespace Machine

variable {p p' : Program} {limits : Limits} {f g : Function} {m n : Machine}

/-! ### One instruction -/

theorem perform_congr (h : p.SameButNatives p') (hf : f.RunsLike g) (offset next : Nat)
    {action : Action} (hnative : ∀ id, action = .callNative id → p.native id = p'.native id) :
    perform p ⟨f, offset, next⟩ action = perform p' ⟨g, offset, next⟩ action := by
  cases action with
  | pushConstant id => simp only [perform, h.constant]
  | jump distance => simp only [perform, hf.code]
  | jumpIf c distance => simp only [perform, hf.code]
  | callNative id => simp only [perform, callNative, hnative id rfl]
  | ret => simp only [perform, hf.code]
  | breakpoint => simp only [perform, hf.id]
  | _ => rfl

/-- An instruction does the same in both programs unless it calls a native that they know differently. -/
theorem execute_congr (h : p.SameButNatives p') (hf : f.RunsLike g) {cursor : Nat}
    (hnative : ∀ id, f.code.instructionAt cursor = .ok ⟨.callNative, id⟩ →
      p.native id = p'.native id) :
    execute p f cursor = execute p' g cursor := by
  funext m
  cases hi : f.code.instructionAt cursor with
  | ok i =>
    have hi' : g.code.instructionAt cursor = .ok i := hf.code ▸ hi
    have hperform : perform p (siteOf f cursor i) i.action = perform p' (siteOf g cursor i) i.action :=
      perform_congr h hf _ _ fun id ha => hnative id (i.eq_of_action ha rfl ▸ hi)
    rw [execute_of_instructionAt hi, execute_of_instructionAt hi', hperform, hf.id]
  | error cause =>
    unfold Code.instructionAt at hi
    rw [execute_by_layout, execute_by_layout]
    rw [← hf.code, ← hf.id]
    cases hop : f.code.opcodeAt cursor with
    | error cause => rfl
    | ok op =>
      cases hoperand : f.code.operandAt (cursor + 1) op.layout with
      | error cause =>
        simp only [Bind.bind, EStateM.bind, lookup, noted, hoperand]
      | ok operand => simp [hop, hoperand] at hi

/-! ### One turn -/

def SameState (s t : Position × Machine) : Prop :=
  s.1.RunsLike t.1 ∧ Alike Eq Eq Eq s.2 t.2

/-- The next instruction calls a native, and there is budget for it. -/
structure CallsNative (limits : Limits) (s : Position × Machine) (id : UInt16) : Prop where
  unspent : s.2.spent? limits = none
  reads : s.1.function.code.instructionAt s.1.cursor = .ok ⟨.callNative, id⟩

/-- Both are about to call one native, for which the programs have different code. -/
def PartAtNative (p p' : Program) (limits : Limits) (s t : Position × Machine) : Prop :=
  ∃ id n n', CallsNative limits s id ∧ CallsNative limits t id ∧ p.native id = .ok n ∧
    p'.native id = .ok n' ∧ n.code ≠ n'.code

theorem sideBySide_same (limits : Limits) : SideBySide (fun _ => False) limits limits Eq Eq Eq :=
  ⟨.same _, .same _, .same _, rfl, .inl rfl⟩

theorem enter_alike (hmn : Alike Eq Eq Eq m n) (hf : f.RunsLike g) :
    Alike Eq Eq Eq (m.enter f) (n.enter g) := by
  refine ⟨hmn.stack, ?_, hmn.continuations, hmn.executed, hmn.sink⟩
  simp only [frames_enter, hmn.frames, hf.id, hf.locals]

section Turn

variable (h : p.SameButNatives p')

include h

theorem endCall_together (hmn : Alike Eq Eq Eq m n) :
    Together SameState (Alike Eq Eq Eq) (m.endCall p f) (n.endCall p' g) := by
  have hleave := (sideBySide_same {}).leave hmn
  unfold endCall
  generalize m.leave? = x at hleave
  generalize n.leave? = y at hleave
  cases hleave with
  | none => exact .ended _ hmn
  | @some m' n' hmn' =>
    dsimp only
    rw [hmn'.continuations]
    cases n'.continuations.pop? with
    | none => exact .ended none hmn'
    | some x =>
      obtain ⟨k, ks⟩ := x
      have hback : Alike Eq Eq Eq { m' with continuations := ks } { n' with continuations := ks } :=
        ⟨hmn'.stack, hmn'.frames, rfl, hmn'.executed, hmn'.sink⟩
      have hcaller := h.function k.caller
      dsimp only
      generalize p.function k.caller = r at hcaller
      generalize p'.function k.caller = r' at hcaller
      cases hcaller with
      | ok hlike => exact .running ⟨⟨hlike, rfl⟩, hback.note _ _⟩
      | error cause => exact .ended _ (hback.note _ _)
      | excused _ hex => exact hex.elim

theorem beginCall_together (hf : f.RunsLike g) (hmn : Alike Eq Eq Eq m n) (cursor : Nat)
    (callee : UInt16) (back : Nat) :
    Together SameState (Alike Eq Eq Eq) (m.beginCall p limits f cursor callee back)
      (n.beginCall p' limits g cursor callee back) := by
  have hcallee := h.function callee
  unfold beginCall
  rw [hf.id]
  generalize p.function callee = r at hcallee
  generalize p'.function callee = r' at hcallee
  cases hcallee with
  | error cause => exact .ended _ hmn
  | excused _ hex => exact hex.elim
  | @ok f' g' hlike =>
    have hdepth : m.continuations.depth = n.continuations.depth := by rw [hmn.continuations]
    dsimp only
    rw [hdepth]
    split
    · exact .ended _ hmn
    · have hks : m.continuations.push ⟨back, g.id⟩ = n.continuations.push ⟨back, g.id⟩ := by
        rw [hmn.continuations]
      exact .running ⟨⟨hlike, rfl⟩,
        enter_alike ⟨hmn.stack, hmn.frames, hks, hmn.executed, hmn.sink⟩ hlike⟩

/-- The step of the simulation: from states that are the same, both turns come to the same, unless
they call a native that the programs know differently. -/
theorem simulates_of_sameButNatives :
    Simulates p p' limits limits SameState (PartAtNative p p' limits) (Alike Eq Eq Eq) := by
  intro s t hst
  obtain ⟨⟨f, cursor⟩, m⟩ := s
  obtain ⟨⟨g, cursor'⟩, n⟩ := t
  obtain ⟨⟨hf, hcursor⟩, hmn⟩ := hst
  obtain rfl : cursor = cursor' := hcursor
  have hf : f.RunsLike g := hf
  have hmn : Alike Eq Eq Eq m n := hmn
  by_cases hparts : PartAtNative p p' limits (⟨f, cursor⟩, m) (⟨g, cursor⟩, n)
  · exact .inl hparts
  refine .inr ?_
  have hspent : m.spent? limits = n.spent? limits := hmn.spent? rfl
  dsimp only [advance]
  rw [← hf.code, hspent]
  split
  · exact endCall_together h hmn
  cases hs : n.spent? limits with
  | some budget =>
    rw [hf.id]
    exact .ended _ hmn
  | none =>
    have hnative : ∀ id, f.code.instructionAt cursor = .ok ⟨.callNative, id⟩ →
        p.native id = p'.native id := by
      intro id hi
      have hboth := h.native id
      generalize ho : p.native id = r at hboth
      generalize hn : p'.native id = r' at hboth
      cases hboth with
      | error cause => rfl
      | excused _ hex => exact hex.elim
      | @ok n₁ n₂ hlike =>
        by_cases hcode : n₁.code = n₂.code
        · rw [hlike.eq hcode]
        · exact (hparts
            ⟨id, n₁, n₂, ⟨hspent.trans hs, hi⟩, ⟨hs, hf.code ▸ hi⟩, ho, hn, hcode⟩).elim
    have hr := (sideBySide_same limits).kept.execute p' g cursor _ _ hmn.count
    dsimp only
    unfold dispatch
    rw [execute_congr h hf hnative, hf.id]
    generalize execute p' g cursor { m with executed := m.executed + 1 } = r at hr
    generalize execute p' g cursor { n with executed := n.executed + 1 } = r' at hr
    cases hr with
    | error cause hmn' => exact .ended _ hmn'
    | excused r hex => exact hex.elim
    | ok flow hmn' =>
      cases flow with
      | next c => exact .running ⟨⟨hf, rfl⟩, hmn'⟩
      | call callee back => exact beginCall_together h hf hmn' cursor callee back
      | stop => exact .ended none hmn'

end Turn

/-! ### Whole runs -/

/-- Other code for its natives makes no difference to a run until one of them is called. -/
theorem run_relinked (h : p.SameButNatives p') {budget : Nat} (hb : limits.budget = some budget)
    (args : List Cell) (m : Machine) :
    ((m.run p limits args).ending = (m.run p' limits args).ending ∧
      Alike Eq Eq Eq (m.run p limits args).machine (m.run p' limits args).machine) ∨
    ∃ s t, Visits p limits args m s ∧ Visits p' limits args m t ∧ SameState s t ∧
      PartAtNative p p' limits s t := by
  have hstart : Agree (fun _ => False) (Alike Eq Eq Eq)
      (storeArguments args.length args 0 (m.enter p.entryFunction))
      (storeArguments args.length args 0 (m.enter p'.entryFunction)) :=
    (sideBySide_same limits).kept.storeArguments _ _ _ _ _
      (enter_alike ⟨rfl, rfl, rfl, rfl, rfl⟩ h.entryFunction)
  have hrun : ComesTo p limits args m (m.run p limits args) := comesTo_run (run_finishes hb)
  rcases (simulates_of_sameButNatives h).comesTo hstart
      (fun _ _ _ hab => ⟨⟨h.entryFunction, rfl⟩, hab⟩) (fun _ _ hab => hab) hrun with
    ⟨s, t, hs, ht, hsame, hparts⟩ | ⟨fault?, a, b, ha, hb', hab⟩
  · exact .inr ⟨s, t, hs, ht, hsame, hparts⟩
  · rw [ha, (comesTo_iff_run hb).1 hb']
    exact .inl ⟨outcome_ending_congr fault? hab.stack, by simpa using hab⟩

def callsNative (code : Option NativeCode) : Program :=
  { Program.single 0 ⟨#[Opcode.callNative.tag, 0, 0]⟩ with
    natives := #[⟨"answer", { result := .int }, code⟩], natives_fit := by simp [idSpace] }

/-- Without code for the native the run ends where it is called. -/
theorem run_relinked_callsNative :
    ∃ s t, Visits (callsNative none) { budget := some 1 } [] (fresh {} {} {}) s ∧
      Visits (callsNative (some fun _ => { int := 42 })) { budget := some 1 } [] (fresh {} {} {}) t ∧
      SameState s t ∧
      PartAtNative (callsNative none) (callsNative (some fun _ => { int := 42 })) { budget := some 1 }
        s t := by
  have h : (callsNative none).SameButNatives (callsNative (some fun _ => { int := 42 })) :=
    ⟨rfl, rfl, rfl, by simp [callsNative]⟩
  have hbudget : ({ budget := some 1 } : Limits).budget = some 1 := rfl
  have hdiffer :
      ((fresh {} {} {}).run (callsNative none) { budget := some 1 } []).ending ≠
        ((fresh {} {} {}).run (callsNative (some fun _ => { int := 42 }))
          { budget := some 1 } []).ending := by decide +kernel
  rcases run_relinked h hbudget [] (fresh {} {} {}) with hsame | hparts
  · exact (hdiffer hsame.1).elim
  · exact hparts

end Machine

end CellMachine
