import CellMachine.Proofs.Image.Canonical
import CellMachine.Proofs.Machine.Blame
import CellMachine.Proofs.NativeCall

/-!
# Calls of the host

What an image declares is not checked when it is loaded: a native that the host does not have under
this name and these types has no code. Main statement: no image brings a run to a call of a native that
the calling convention has no place for. A call is refused because it cannot be read, for what it
names, or for its operands, and never for lack of room.
-/

namespace CellMachine

/-- A call of a native that cannot be read is cut off by the end of the code. -/
theorem Code.callNative_cases {code : Code} {pos : Nat} (h : code.opcode? pos = some .callNative) :
    (∃ id : UInt16, code.instructionAt pos = .ok ⟨.callNative, id⟩) ∨
      code.size < pos + 3 ∧
        code.instructionAt pos = .error (.truncatedOperand 2 (pos + 1) code.size) := by
  obtain ⟨-, hop⟩ := opcodeAt_of_opcode? h
  have hread : code.operandAt (pos + 1) .id = code.field 2 (pos + 1) (code.uint16? (pos + 1)) := rfl
  cases hid : code.uint16? (pos + 1) with
  | some id =>
    refine .inl ⟨id, ?_⟩
    simp only [instructionAt, hop, Opcode.layout, hread, hid, field]
  | none =>
    refine .inr ⟨?_, ?_⟩
    · have hlt := nat?_eq_none_iff.1 (Option.map_eq_none_iff.1 hid)
      omega
    · simp only [instructionAt, hop, Opcode.layout, hread, hid, field]

namespace Machine

open OperandStack (HasRoom)

variable {p : Program} {limits : Limits}

/-- Why a call of the native `id` is refused on some operands. -/
inductive RefusesCall (p : Program) (id : UInt16) (cells : List Cell) : Cause → Prop
  | unregistered (h : p.native id = .error (.undefinedNative id)) :
    RefusesCall p id cells (.undefinedNative id)
  | native {n : Native} {cause : Cause} (hn : p.native id = .ok n) (h : n.Refuses cells cause) :
    RefusesCall p id cells cause

/-- Why a call of a native at `offset` of `f` is refused on some operands. -/
inductive CallRefused (p : Program) (f : Function) (offset : Nat) (cells : List Cell) : Cause → Prop
  | truncated (h : f.code.size < offset + 3) :
    CallRefused p f offset cells (.truncatedOperand 2 (offset + 1) f.code.size)
  | refused {id : UInt16} {cause : Cause} (hi : f.code.instructionAt offset = .ok ⟨.callNative, id⟩)
    (h : RefusesCall p id cells cause) : CallRefused p f offset cells cause

theorem CallRefused.kind_mem {f : Function} {offset : Nat} {cells : List Cell} {cause : Cause}
    (h : CallRefused p f offset cells cause) :
    cause.kind ∈ [FaultKind.decode, .bounds, .unsupportedNative, .stackDiscipline] := by
  cases h with
  | truncated h => simp [Cause.kind]
  | refused hi h =>
    cases h with
    | unregistered h => simp [Cause.kind]
    | native hn h =>
      cases h with
      | unavailable h => simp [Cause.kind]
      | unserved hcode hkind h => simp [hkind]

/-! ### One call -/

theorem callNative_answers {id : UInt16} (h : ∀ n, p.native id = .ok n → n.Conventional)
    (cells : List Cell) :
    Triple (fun m => m.stack.cells.items = cells ∧ m.stack.HasRoom 0) (callNative p id)
      (fun _ m => ∃ n, p.native id = .ok n ∧ n.code ≠ none ∧ n.Answers cells m.stack.cells.items)
      (RefusesCall p id cells) := by
  refine (lookup_triple ?_).bind fun n => .given fun hn => ?_
  · intro cause hcause
    have hnone : p.native id = .error (.undefinedNative id) := by
      unfold Program.native at hcause ⊢
      split at hcause
      · cases hcause
      · rfl
    cases hcause.symm.trans hnone
    exact .unregistered hnone
  have hprepare := onStack_triple ((Native.prepare_takes (h n hn) cells).and n.prepare_within)
  refine (hprepare.mono (fun _ hs => hs) (fun _ _ hs => hs) fun _ hc => .native hn hc.1).bind
    fun prepared => ?_
  obtain ⟨code, registers⟩ := prepared
  intro m hm
  obtain ⟨⟨hcode, args, hcells, hargs⟩, hroom⟩ := hm
  have hconventional : n.signature.Conventional := h n hn hcode
  have hone : 1 ≤ n.signature.params.length := List.length_pos_iff.2 hconventional.takes
  have hdeliver := onStack_triple (Native.deliver_leaves hconventional
    (code { registers with moment := m.executed }) m.stack.cells.items)
  refine hdeliver.mono (fun _ hs => hs) ?_ (fun _ hf => hf.elim)
    (m.note (.nativeCall n.name)) ⟨rfl, hroom.weaken hone⟩
  intro _ m' hm'
  obtain ⟨c, hitems, htag⟩ := hm'
  exact ⟨n, hn, hcode, args, _, c, hcells, hargs, hitems, htag⟩

theorem perform_answers {id : UInt16} (h : ∀ n, p.native id = .ok n → n.Conventional) (site : Site)
    (cells : List Cell) :
    Triple (fun m => m.stack.cells.items = cells ∧ m.stack.HasRoom 0) (perform p site (.callNative id))
      (fun _ m => ∃ n, p.native id = .ok n ∧ n.code ≠ none ∧ n.Answers cells m.stack.cells.items)
      (RefusesCall p id cells) :=
  (callNative_answers h cells).bind fun _ => .pure fun _ hs => hs

section Calls

variable (hp : ∀ id n, p.native id = .ok n → n.Conventional)

include hp

theorem answers_of_turn {s t : Position × Machine} {id : UInt16} (hroom : s.2.stack.HasRoom 0)
    (ht : Turn p limits s t)
    (hi : s.1.function.code.instructionAt s.1.cursor = .ok ⟨.callNative, id⟩) :
    ∃ n, p.native id = .ok n ∧ n.code ≠ none ∧
      n.Answers s.2.stack.cells.items t.2.stack.cells.items := by
  obtain ⟨⟨f, cursor⟩, m⟩ := s
  obtain ⟨q, m'⟩ := t
  have hin : cursor < f.code.size := (Code.opcodeAt_of_opcode? (Code.opcode?_of_instructionAt hi)).1
  have hi : f.code.instructionAt cursor = .ok ⟨.callNative, id⟩ := hi
  have ha : Advance p limits f cursor m (.running q m') := advance_of_eq ht
  cases ha with
  | returned atEnd hl hk hf => exact (Nat.not_lt.2 atEnd hin).elim
  | called inside hs he hf hd => cases hi.symm.trans (call_of_execute he).1
  | next inside hs he =>
    rw [execute_of_instructionAt hi] at he
    refine (perform_answers (hp id) _ m.stack.cells.items).of_ok ?_ he
    exact ⟨rfl, hroom⟩

theorem callRefused_of_ended {f : Function} {cursor : Nat} {m n : Machine} {fault : Fault}
    (hroom : m.stack.HasRoom 0) (hop : f.code.opcode? cursor = some .callNative)
    (hkind : fault.kind ≠ .instructionBudget)
    (ha : m.advance p limits ⟨f, cursor⟩ = .ended (some fault) n) :
    CallRefused p f cursor m.stack.cells.items fault.cause := by
  have hin : cursor < f.code.size := (Code.opcodeAt_of_opcode? hop).1
  have hnocall : ∀ callee, f.code.instructionAt cursor ≠ .ok ⟨.call, callee⟩ := by
    intro callee hi
    cases hop.symm.trans (Code.opcode?_of_instructionAt hi)
  cases advance_of_eq ha with
  | noFrame atEnd hl => exact (Nat.not_lt.2 atEnd hin).elim
  | callerLost atEnd hl hk hf => exact (Nat.not_lt.2 atEnd hin).elim
  | spent inside hs => exact (hkind rfl).elim
  | undefined inside hs he hf => exact (hnocall _ (call_of_execute he).1).elim
  | tooDeep inside hs he hf hd => exact (hnocall _ (call_of_execute he).1).elim
  | @refused cause n inside hs he =>
    rcases perform_of_execute_error he with hread | ⟨i, e, hi, hperform⟩
    · rcases Code.callNative_cases hop with ⟨id, hid⟩ | ⟨hlt, htruncated⟩
      · cases hid.symm.trans hread
      · cases htruncated.symm.trans hread
        exact .truncated hlt
    · obtain ⟨id, hid⟩ : ∃ id : UInt16, f.code.instructionAt cursor = .ok ⟨.callNative, id⟩ := by
        rcases Code.callNative_cases hop with hid | ⟨-, htruncated⟩
        · exact hid
        · cases htruncated.symm.trans hi
      cases hid.symm.trans hi
      refine .refused hid ((perform_answers (hp id) _ m.stack.cells.items).of_error ?_ hperform)
      exact ⟨rfl, hroom⟩

end Calls

/-! ### Images that the host loads -/

theorem conventional_of_ofBytes {bytes : List UInt8} (h : Program.ofBytes Host.resolver bytes = .ok p)
    (id : UInt16) (n : Native) (hn : p.native id = .ok n) : n.Conventional := by
  intro hcode
  obtain ⟨code, hsome⟩ := Option.ne_none_iff_exists'.1 hcode
  exact Host.conventional_of_resolver ((Program.code_of_ofBytes h hn).symm.trans hsome)

/-- Whatever an image declares, a run of it keeps to the calling convention of the host: no fault says
that a signature is unusable, a call is refused for one of four reasons and where it stands, and one
that succeeds takes its arguments and leaves one number. -/
theorem hostCalls_conventional {bytes : List UInt8} (h : Program.ofBytes Host.resolver bytes = .ok p)
    (limits : Limits) (args : List Cell) (sink : Output) (journal : Journal) :
    (∀ o fault, ComesTo p limits args (fresh limits sink journal) o → o.ending = .fault fault →
      fault.kind ≠ .nativeSignature ∧
      ∀ f offset, p.function f.id = .ok f → fault.function = some f.id → fault.offset = some offset →
        f.code.opcode? offset = some .callNative → fault.kind ≠ .instructionBudget →
        fault.kind ∈ [FaultKind.decode, .bounds, .unsupportedNative, .stackDiscipline] ∧
        ∃ m, Visits p limits args (fresh limits sink journal) (⟨f, offset⟩, m) ∧
          CallRefused p f offset m.stack.cells.items fault.cause) ∧
    ∀ s t (id : UInt16), Visits p limits args (fresh limits sink journal) s → Turn p limits s t →
      s.1.function.code.instructionAt s.1.cursor = .ok ⟨.callNative, id⟩ →
      ∃ n, p.native id = .ok n ∧ (n.signature.result = .int ∨ n.signature.result = .double) ∧
        n.Answers s.2.stack.cells.items t.2.stack.cells.items := by
  have hp := conventional_of_ofBytes h
  refine ⟨?_, ?_⟩
  · intro o fault ho hf
    rcases ho.fault_cases hf with ⟨cause, n, hn, rfl⟩ | ⟨q, m, hv, ha⟩
    · have hkind := List.mem_singleton.1 ((storeArguments_refused args.length args 0).of_error hn)
      refine ⟨fun hsignature => ?_, fun f offset _ hfunction => nomatch hfunction⟩
      cases hkind.symm.trans hsignature
    have hroom : m.stack.HasRoom 0 := hasRoom_of_visits (hasRoom_fresh _ _ _) hv
    have hblamed := blamed_of_ended hv ha
    refine ⟨fun hsignature => ?_, fun f offset hdefined hfunction hoffset hop hbudget => ?_⟩
    · rcases hblamed.fits with ⟨hk, -⟩ | ⟨hk, -⟩ | ⟨i, hi, hcan⟩
      · cases hk.symm.trans hsignature
      · cases hk.symm.trans hsignature
      · rw [hsignature] at hcan
        have hop : q.function.code.opcode? q.cursor = some .callNative :=
          (Code.opcode?_of_instructionAt hi).trans (congrArg some hcan)
        have hmem := (callRefused_of_ended hp hroom hop (by rw [hsignature]; decide) ha).kind_mem
        rw [show fault.cause.kind = .nativeSignature from hsignature] at hmem
        exact absurd hmem (by decide)
    · have hid : q.function.id = f.id := Option.some.inj (hblamed.named.symm.trans hfunction)
      have hcursor : q.cursor = offset := Option.some.inj (hblamed.placed.symm.trans hoffset)
      have hsame : q.function = f := by
        have hdefined' := hblamed.defined
        rw [hid] at hdefined'
        exact Except.ok.inj (hdefined'.symm.trans hdefined)
      subst hsame hcursor
      have hrefused := callRefused_of_ended hp hroom hop hbudget ha
      exact ⟨hrefused.kind_mem, m, hv, hrefused⟩
  · intro s t id hv ht hi
    obtain ⟨n, hn, hcode, hanswers⟩ := answers_of_turn hp (hasRoom_of_visits (hasRoom_fresh _ _ _) hv) ht hi
    exact ⟨n, hn, (hp id n hn hcode).result, hanswers⟩

/-- Calls `labs` and then `pow`, which the host does not have with one parameter. -/
def callsHostCode : Code :=
  ⟨#[(Opcode.minusOne .int).tag, Opcode.callNative.tag, 0, 0, Opcode.callNative.tag, 1, 0]⟩

def callsHostImage : List UInt8 :=
  Image.magic ++ [Image.version, 0, 0] ++ [0, 0, 0, 0] ++
    [2, 0] ++ [4, 0, 108, 97, 98, 115, 3, 1, 3] ++ [3, 0, 112, 111, 119, 2, 1, 2] ++
    [1, 0, 0, 0, 1, 0, 0, 0, 7, 0, 0, 0] ++ callsHostCode.bytes.toList

def callsHost : Program where
  functions := #[⟨0, "", {}, 0, callsHostCode⟩]
  constants := #[]
  natives := #[⟨"labs", Host.absolute.signature, some Host.absolute.code⟩,
    ⟨"pow", ⟨.double, [.double]⟩, none⟩]
  entry := 0
  functions_fit := by decide
  natives_fit := by decide
  id_eq_position := by decide
  entry_lt := by decide

theorem toBytes_callsHost : callsHost.toBytes = .ok callsHostImage := by
  have himage : callsHost.toBytes.toOption = some callsHostImage := by decide +kernel
  cases hbytes : callsHost.toBytes with
  | error cause =>
    rw [hbytes] at himage
    cases himage
  | ok bytes =>
    rw [hbytes] at himage
    exact congrArg Except.ok (Option.some.inj himage)

theorem ofBytes_callsHostImage : Program.ofBytes Host.resolver callsHostImage = .ok callsHost := by
  have habsolute : Host.resolver "labs" Host.absolute.signature = some Host.absolute.code := rfl
  have hpower : Host.resolver "pow" ⟨.double, [.double]⟩ = none := rfl
  refine Program.ofBytes_of_toBytes toBytes_callsHost ?_
  simp [Program.resolved, callsHost, habsolute, hpower]

theorem hostCalls_conventional_callsHost :
    (∃ f m, Visits callsHost { budget := some 9 } [] (fresh {} {} {}) (⟨f, 4⟩, m) ∧
      CallRefused callsHost f 4 m.stack.cells.items (.nativeUnavailable "pow")) ∧
    ∃ s t n, Visits callsHost { budget := some 9 } [] (fresh {} {} {}) s ∧
      Turn callsHost { budget := some 9 } s t ∧ callsHost.native 0 = .ok n ∧
      n.Answers s.2.stack.cells.items t.2.stack.cells.items := by
  obtain ⟨hfaults, hanswers⟩ :=
    hostCalls_conventional ofBytes_callsHostImage { budget := some 9 } [] {} {}
  have hbudget : ({ budget := some 9 } : Limits).budget = some 9 := rfl
  have hrun : ComesTo callsHost { budget := some 9 } [] (fresh {} {} {}) _ :=
    comesTo_run (run_finishes hbudget)
  have hend : ((fresh {} {} {}).run callsHost { budget := some 9 } []).ending =
      .fault (Fault.located (.nativeUnavailable "pow") 0 4) := by decide +kernel
  obtain ⟨s, t, hv, ht, hi⟩ : ∃ s t, Visits callsHost { budget := some 9 } [] (fresh {} {} {}) s ∧
      Turn callsHost { budget := some 9 } s t ∧
      s.1.function.code.instructionAt s.1.cursor = .ok ⟨.callNative, (0 : UInt16)⟩ :=
    ⟨(_, _), (_, _), ⟨_, rfl, .single (Turn.of_advance rfl)⟩, Turn.of_advance rfl, rfl⟩
  obtain ⟨-, hlocated⟩ := hfaults _ _ hrun hend
  obtain ⟨-, m, hm, hrefused⟩ :=
    hlocated callsHost.entryFunction 4 rfl rfl rfl (by decide +kernel) (by decide)
  obtain ⟨n, hn, -, hn'⟩ := hanswers s t 0 hv ht hi
  exact ⟨⟨_, m, hm, hrefused⟩, s, t, n, hv, ht, hn, hn'⟩

end Machine

end CellMachine
