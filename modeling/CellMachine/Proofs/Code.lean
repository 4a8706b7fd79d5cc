import CellMachine.Code
import CellMachine.Frame
import CellMachine.Instruction

/-!
# Reading code

What is read at a position is what is written there. Main statement: an instruction can be read at a
position exactly if the code has the bytes of that instruction there. The layout of an opcode says
which operand is read, and its action what it does: short and long forms of an instruction are one
action, so that each effect is dealt with once.
-/

namespace CellMachine

/-! ### Instructions by what they do -/

/-- What an instruction does, whichever of its forms it was written in. -/
inductive Action
  | fail
  | push (c : Cell)
  | pushConstant (id : UInt16)
  | doubleOp (o : DoubleOp)
  | intOp (o : IntOp)
  | negate (n : Numeric)
  | print (t : ValueType)
  | convert (c : Conversion)
  | swap
  | pop
  | load (scope : Scope) (t : ValueType) (slot : UInt16)
  | store (scope : Scope) (t : ValueType) (slot : UInt16)
  | compare (n : Numeric)
  | jump (offset : Int16)
  | jumpIf (c : Comparison) (offset : Int16)
  | dump
  | stop
  | call (function : UInt16)
  | callNative (native : UInt16)
  | ret
  | breakpoint
deriving DecidableEq

/-- The action of an opcode with its operand. -/
def Opcode.action : (op : Opcode) → op.layout.Operand → Action
  | .invalid, _ => .fail
  | .literal .double, bits => .push (.double (Float.ofBits bits))
  | .literal .int, n => .push (.int n)
  | .literal .text, id => .pushConstant id
  | .zero t, _ => .push (Cell.zero t)
  | .one .double, _ => .push (.double 1.0)
  | .one .int, _ => .push (.int 1)
  | .minusOne .double, _ => .push (.double (-1.0))
  | .minusOne .int, _ => .push (.int (-1))
  | .doubleOp o, _ => .doubleOp o
  | .intOp o, _ => .intOp o
  | .negate n, _ => .negate n
  | .print t, _ => .print t
  | .convert c, _ => .convert c
  | .swap, _ => .swap
  | .pop, _ => .pop
  | .loadShort t slot, _ => .load .top t (UInt16.ofNat slot.val)
  | .storeShort t slot, _ => .store .top t (UInt16.ofNat slot.val)
  | .load t, slot => .load .top t slot
  | .store t, slot => .store .top t slot
  | .loadContext t, (context, slot) => .load (.context context) t slot
  | .storeContext t, (context, slot) => .store (.context context) t slot
  | .compare n, _ => .compare n
  | .jump, offset => .jump offset
  | .jumpIf c, offset => .jumpIf c offset
  | .dump, _ => .dump
  | .stop, _ => .stop
  | .call, id => .call id
  | .callNative, id => .callNative id
  | .ret, _ => .ret
  | .breakpoint, _ => .breakpoint

/-- The action of an instruction. -/
def Instruction.action (i : Instruction) : Action := i.opcode.action i.operand

/-- The instruction of an action, unless there are several: cells, and variables of the executing call,
have short and long forms. -/
def Action.form? : Action → Option Instruction
  | .push _ | .load .top _ _ | .store .top _ _ => none
  | .fail => some ⟨.invalid, ()⟩
  | .pushConstant id => some ⟨.literal .text, id⟩
  | .doubleOp o => some ⟨.doubleOp o, ()⟩
  | .intOp o => some ⟨.intOp o, ()⟩
  | .negate n => some ⟨.negate n, ()⟩
  | .print t => some ⟨.print t, ()⟩
  | .convert c => some ⟨.convert c, ()⟩
  | .swap => some ⟨.swap, ()⟩
  | .pop => some ⟨.pop, ()⟩
  | .load (.context context) t slot => some ⟨.loadContext t, (context, slot)⟩
  | .store (.context context) t slot => some ⟨.storeContext t, (context, slot)⟩
  | .compare n => some ⟨.compare n, ()⟩
  | .jump offset => some ⟨.jump, offset⟩
  | .jumpIf c offset => some ⟨.jumpIf c, offset⟩
  | .dump => some ⟨.dump, ()⟩
  | .stop => some ⟨.stop, ()⟩
  | .call function => some ⟨.call, function⟩
  | .callNative native => some ⟨.callNative, native⟩
  | .ret => some ⟨.ret, ()⟩
  | .breakpoint => some ⟨.breakpoint, ()⟩

theorem Instruction.eq_of_action {i j : Instruction} {action : Action} (h : i.action = action)
    (hform : action.form? = some j) : i = j := by
  obtain ⟨op, operand⟩ := i
  subst h
  cases op with
  | literal t => cases t <;> cases hform; rfl
  | one n | minusOne n => cases n <;> cases hform
  | _ => cases hform <;> rfl

/-! ### Instructions by their opcode and operand -/

theorem Instruction.make?_isSome {op : Opcode} {l : Layout} {x : l.Operand} {i : Instruction}
    (h : make? op l x = some i) (y : l.Operand) : ∃ j, make? op l y = some j := by
  unfold make? at h ⊢
  split at h
  · rename_i hl
    exact ⟨_, dif_pos hl⟩
  · cases h

theorem Instruction.layout_of_make? {op : Opcode} {l : Layout} {x : l.Operand} {i : Instruction}
    (h : make? op l x = some i) : i.opcode.layout = l := by
  unfold make? at h
  split at h
  · cases h
    assumption
  · cases h

theorem Instruction.opcode_of_make? {op : Opcode} {l : Layout} {x : l.Operand} {i : Instruction}
    (h : make? op l x = some i) : i.opcode = op := by
  unfold make? at h
  split at h
  · cases h
    rfl
  · cases h

theorem Instruction.make?_inj {op op' : Opcode} {l : Layout} {x y : l.Operand} {i : Instruction}
    (hx : make? op l x = some i) (hy : make? op' l y = some i) : x = y := by
  unfold make? at hx hy
  split at hx
  · rename_i hl
    subst hl
    cases hx
    split at hy
    · cases hy
      rfl
    · cases hy
  · cases hx

/-- An instruction that jumps has its offset as operand. -/
theorem Instruction.of_jump_action {i : Instruction} {offset : Int16}
    (h : i.action = .jump offset ∨ ∃ c, i.action = .jumpIf c offset) :
    ∃ op, make? op .jumpOffset offset = some i := by
  rcases h with h | ⟨c, h⟩
  · exact ⟨.jump, by rw [i.eq_of_action h rfl]; rfl⟩
  · exact ⟨.jumpIf c, by rw [i.eq_of_action h rfl]; rfl⟩

namespace Code

/-! ### Instructions at a position -/

/-- The operand of a layout whose first byte is at `pos`. -/
def operandAt (code : Code) (pos : Nat) : (l : Layout) → Except Cause l.Operand
  | .none => .ok ()
  | .double => code.field 8 pos (code.uint64? pos)
  | .int => code.field 8 pos (code.int64? pos)
  | .id => code.field 2 pos (code.uint16? pos)
  | .contextSlot =>
    match code.field 2 pos (code.uint16? pos) with
    | .error cause => .error cause
    | .ok context =>
      match code.field 2 (pos + 2) (code.uint16? (pos + 2)) with
      | .error cause => .error cause
      | .ok slot => .ok (context, slot)
  | .jumpOffset => code.field 2 pos (code.int16? pos)

/-- The instruction whose tag is at `pos`. -/
def instructionAt (code : Code) (pos : Nat) : Except Cause Instruction :=
  match code.opcodeAt pos with
  | .error cause => .error cause
  | .ok op =>
    match code.operandAt (pos + 1) op.layout with
    | .error cause => .error cause
    | .ok operand => .ok ⟨op, operand⟩

variable {code : Code}

/-! ### Slices -/

theorem slice?_eq_some_iff {width pos : Nat} {bytes : List UInt8} :
    code.slice? width pos = some bytes ↔
      pos + width ≤ code.size ∧ (code.bytes.toList.drop pos).take width = bytes := by
  unfold slice?
  have hl : (code.bytes.extract pos (pos + width)).toList =
      (code.bytes.toList.drop pos).take width := by
    simp [Array.toList_extract, List.extract_eq_take_drop]
  rw [hl]
  split
  · rename_i h
    simp only [Option.some.injEq, h, true_and]
  · rename_i h
    simp only [h, false_and, reduceCtorEq]

theorem slice?_length {width pos : Nat} {bytes : List UInt8}
    (h : code.slice? width pos = some bytes) : bytes.length = width := by
  obtain ⟨hle, rfl⟩ := slice?_eq_some_iff.1 h
  have hs : code.size = code.bytes.toList.length := Array.length_toList.symm
  rw [List.length_take, List.length_drop]
  omega

theorem slice?_zero {pos : Nat} (h : pos ≤ code.size) : code.slice? 0 pos = some [] :=
  slice?_eq_some_iff.2 ⟨h, List.take_zero⟩

/-- Bytes that follow each other are read one after the other. -/
theorem slice?_append {pos v w : Nat} {xs ys : List UInt8} (hx : xs.length = v) :
    code.slice? (v + w) pos = some (xs ++ ys) ↔
      code.slice? v pos = some xs ∧ code.slice? w (pos + v) = some ys := by
  subst hx
  simp only [slice?_eq_some_iff, List.take_add, List.drop_drop]
  constructor
  · rintro ⟨hle, h⟩
    have hl : ((code.bytes.toList.drop pos).take xs.length).length = xs.length := by
      have hs : code.size = code.bytes.toList.length := Array.length_toList.symm
      rw [List.length_take, List.length_drop]
      omega
    obtain ⟨h1, h2⟩ := List.append_inj h hl
    exact ⟨⟨by omega, h1⟩, by omega, h2⟩
  · rintro ⟨⟨_, h1⟩, hle, h2⟩
    exact ⟨by omega, by rw [h1, h2]⟩

/-- What a part of the code is, is read where it is. -/
theorem slice?_of_toList_eq {before bytes after : List UInt8}
    (h : code.bytes.toList = before ++ (bytes ++ after)) :
    code.slice? bytes.length before.length = some bytes := by
  have hs : code.size = code.bytes.toList.length := Array.length_toList.symm
  refine slice?_eq_some_iff.2 ⟨?_, ?_⟩
  · rw [hs, h, List.length_append, List.length_append]
    omega
  · rw [h, List.drop_left, List.take_left]

/-! ### Bytes and words -/

theorem byte?_eq_some_iff {pos : Nat} {b : UInt8} :
    code.byte? pos = some b ↔ code.slice? 1 pos = some [b] := by
  unfold byte?
  rw [slice?_eq_some_iff, ← Array.getElem?_toList]
  have hs : code.size = code.bytes.toList.length := Array.length_toList.symm
  rw [hs]
  generalize code.bytes.toList = bytes
  constructor
  · intro h
    obtain ⟨hlt, hb⟩ := List.getElem?_eq_some_iff.1 h
    refine ⟨hlt, ?_⟩
    rw [List.drop_eq_getElem_cons hlt, hb]
    rfl
  · rintro ⟨hlt, h⟩
    have hlt : pos < bytes.length := hlt
    rw [List.drop_eq_getElem_cons hlt] at h
    cases h
    exact List.getElem?_eq_getElem hlt

theorem nat?_eq_some_iff {width pos n : Nat} :
    code.nat? width pos = some n ↔
      n < Nat.pow 256 width ∧ code.slice? width pos = some (littleEndian width n) := by
  unfold nat?
  constructor
  · intro h
    obtain ⟨bytes, hb, rfl⟩ := Option.map_eq_some_iff.1 h
    have hl := slice?_length hb
    subst hl
    exact ⟨ofLittleEndian_lt bytes, by rw [hb, littleEndian_ofLittleEndian]⟩
  · rintro ⟨hn, hb⟩
    rw [hb, Option.map_some, ofLittleEndian_littleEndian, Nat.mod_eq_of_lt hn]

theorem uint16?_eq_some_iff {pos : Nat} {n : UInt16} :
    code.uint16? pos = some n ↔ code.slice? 2 pos = some (littleEndian 2 n.toNat) := by
  unfold uint16?
  constructor
  · intro h
    obtain ⟨v, hv, rfl⟩ := Option.map_eq_some_iff.1 h
    obtain ⟨hlt, hb⟩ := nat?_eq_some_iff.1 hv
    rwa [UInt16.toNat_ofNat_of_lt' hlt]
  · intro h
    have hv : code.nat? 2 pos = some n.toNat := nat?_eq_some_iff.2 ⟨n.toNat_lt, h⟩
    rw [hv, Option.map_some, UInt16.ofNat_toNat]

theorem int16?_eq_some_iff {pos : Nat} {n : Int16} :
    code.int16? pos = some n ↔ code.slice? 2 pos = some (littleEndian 2 n.toUInt16.toNat) := by
  unfold int16?
  rw [← uint16?_eq_some_iff, Option.map_eq_some_iff]
  constructor
  · rintro ⟨v, hv, rfl⟩
    rw [hv, UInt16.toUInt16_toInt16]
  · intro h
    exact ⟨_, h, Int16.toInt16_toUInt16 n⟩

theorem uint64?_eq_some_iff {pos : Nat} {n : UInt64} :
    code.uint64? pos = some n ↔ code.slice? 8 pos = some (littleEndian 8 n.toNat) := by
  unfold uint64?
  constructor
  · intro h
    obtain ⟨v, hv, rfl⟩ := Option.map_eq_some_iff.1 h
    obtain ⟨hlt, hb⟩ := nat?_eq_some_iff.1 hv
    rwa [UInt64.toNat_ofNat_of_lt' hlt]
  · intro h
    have hv : code.nat? 8 pos = some n.toNat := nat?_eq_some_iff.2 ⟨n.toNat_lt, h⟩
    rw [hv, Option.map_some, UInt64.ofNat_toNat]

theorem int64?_eq_some_iff {pos : Nat} {n : Int64} :
    code.int64? pos = some n ↔ code.slice? 8 pos = some (littleEndian 8 n.toUInt64.toNat) := by
  unfold int64?
  rw [← uint64?_eq_some_iff, Option.map_eq_some_iff]
  constructor
  · rintro ⟨v, hv, rfl⟩
    rw [hv, UInt64.toUInt64_toInt64]
  · intro h
    exact ⟨_, h, Int64.toInt64_toUInt64 n⟩

/-! ### Instructions -/

theorem opcodeAt_eq_ok_iff {pos : Nat} {op : Opcode} :
    code.opcodeAt pos = .ok op ↔ code.slice? 1 pos = some [op.tag] := by
  rw [← byte?_eq_some_iff]
  unfold opcodeAt
  cases hb : code.byte? pos with
  | none => simp
  | some tag =>
    dsimp only
    cases ho : Opcode.ofTag? tag with
    | none =>
      simp only [reduceCtorEq, Option.some.injEq, false_iff]
      rintro rfl
      rw [Opcode.ofTag?_tag] at ho
      cases ho
    | some op' =>
      have ht := Opcode.tag_of_ofTag? ho
      simp only [Except.ok.injEq, Option.some.injEq, ← ht]
      refine ⟨fun h => by rw [h], fun h => ?_⟩
      have hop : Opcode.ofTag? op'.tag = Opcode.ofTag? op.tag := by rw [h]
      rw [Opcode.ofTag?_tag, Opcode.ofTag?_tag] at hop
      exact Option.some.inj hop

theorem field_eq_ok_iff {α : Type} {width pos : Nat} {read : Option α} {value : α} :
    code.field width pos read = .ok value ↔ read = some value := by
  cases read <;> simp [field]

/-- The operand of each layout is read as it is written. -/
theorem operandAt_eq_ok_iff {pos : Nat} (hpos : pos ≤ code.size) {l : Layout} {operand : l.Operand} :
    code.operandAt pos l = .ok operand ↔ code.slice? l.width pos = some (l.encoded operand) := by
  cases l with
  | none => simp [operandAt, Layout.width, Layout.encoded, slice?_zero hpos]
  | double => exact field_eq_ok_iff.trans uint64?_eq_some_iff
  | int => exact field_eq_ok_iff.trans int64?_eq_some_iff
  | id => exact field_eq_ok_iff.trans uint16?_eq_some_iff
  | jumpOffset => exact field_eq_ok_iff.trans int16?_eq_some_iff
  | contextSlot =>
    obtain ⟨context, slot⟩ := operand
    have hl : (littleEndian 2 context.toNat).length = 2 := length_littleEndian 2 _
    show _ ↔ code.slice? (2 + 2) pos = some (littleEndian 2 context.toNat ++ littleEndian 2 slot.toNat)
    rw [slice?_append hl, ← uint16?_eq_some_iff, ← uint16?_eq_some_iff]
    unfold operandAt
    cases hc : code.uint16? pos with
    | none => simp [field]
    | some context' =>
      cases hs : code.uint16? (pos + 2) with
      | none => simp [field]
      | some slot' => simp [field]

/-- An instruction is read exactly where its bytes are. -/
theorem instructionAt_eq_ok_iff {pos : Nat} {i : Instruction} :
    code.instructionAt pos = .ok i ↔ code.slice? i.opcode.length pos = some i.encoded := by
  obtain ⟨op, operand⟩ := i
  have htag : [op.tag].length = 1 := rfl
  show _ ↔ code.slice? (1 + op.layout.width) pos = some ([op.tag] ++ op.layout.encoded operand)
  rw [slice?_append htag, ← opcodeAt_eq_ok_iff]
  unfold instructionAt
  cases ho : code.opcodeAt pos with
  | error cause => simp
  | ok op' =>
    have hin : pos + 1 ≤ code.size := (slice?_eq_some_iff.1 (opcodeAt_eq_ok_iff.1 ho)).1
    dsimp only
    constructor
    · intro h
      cases hx : code.operandAt (pos + 1) op'.layout with
      | error cause =>
        rw [hx] at h
        cases h
      | ok operand' =>
        rw [hx] at h
        cases h
        exact ⟨rfl, (operandAt_eq_ok_iff hin).1 hx⟩
    · rintro ⟨hop, hx⟩
      cases hop
      rw [(operandAt_eq_ok_iff hin).2 hx]

theorem end_le_of_instructionAt {pos : Nat} {i : Instruction} (h : code.instructionAt pos = .ok i) :
    pos < pos + i.opcode.length ∧ pos + i.opcode.length ≤ code.size := by
  have hend : pos + i.opcode.length ≤ code.size :=
    (slice?_eq_some_iff.1 (instructionAt_eq_ok_iff.1 h)).1
  unfold Opcode.length at *
  omega

/-! ### What cannot be read -/

theorem field_refused {α : Type} {width pos : Nat} {read : Option α} {cause : Cause}
    (h : code.field width pos read = .error cause) : cause.kind = .decode ∧ read = none := by
  cases read with
  | some value => cases h
  | none =>
    cases h
    exact ⟨rfl, rfl⟩

theorem operandAt_ne_pastEnd {pos : Nat} {l : Layout} : code.operandAt pos l ≠ .error .pastEnd := by
  have hfield : ∀ {α : Type} {width pos : Nat} {read : Option α},
      code.field width pos read ≠ .error .pastEnd := by
    intro α width pos read
    cases read <;> simp [field]
  cases l with
  | none => simp [operandAt]
  | contextSlot =>
    unfold operandAt
    split
    · rename_i hcontext
      exact fun h => hfield (hcontext.trans (congrArg _ (Except.error.inj h)))
    · split
      · rename_i hslot
        exact fun h => hfield (hslot.trans (congrArg _ (Except.error.inj h)))
      · simp
  | _ => exact hfield

theorem nat?_eq_none_iff {width pos : Nat} : code.nat? width pos = none ↔ code.size < pos + width := by
  unfold nat? slice?
  rw [Option.map_eq_none_iff]
  split
  · rename_i hle
    simp only [reduceCtorEq, false_iff]
    omega
  · rename_i hlt
    simp only [true_iff]
    omega

/-- Only an operand that crosses the end of the code cannot be read. -/
theorem operandAt_refused {pos : Nat} {l : Layout} {cause : Cause}
    (h : code.operandAt pos l = .error cause) :
    cause.kind = .decode ∧ code.size < pos + l.width := by
  have hword : ∀ {pos : Nat}, code.uint16? pos = none → code.size < pos + 2 :=
    fun hn => nat?_eq_none_iff.1 (Option.map_eq_none_iff.1 hn)
  have hlong : ∀ {pos : Nat}, code.uint64? pos = none → code.size < pos + 8 :=
    fun hn => nat?_eq_none_iff.1 (Option.map_eq_none_iff.1 hn)
  cases l with
  | none => cases h
  | double =>
    obtain ⟨hk, hn⟩ := field_refused h
    exact ⟨hk, hlong hn⟩
  | int =>
    obtain ⟨hk, hn⟩ := field_refused h
    exact ⟨hk, hlong (Option.map_eq_none_iff.1 hn)⟩
  | id =>
    obtain ⟨hk, hn⟩ := field_refused h
    exact ⟨hk, hword hn⟩
  | jumpOffset =>
    obtain ⟨hk, hn⟩ := field_refused h
    exact ⟨hk, hword (Option.map_eq_none_iff.1 hn)⟩
  | contextSlot =>
    simp only [operandAt] at h
    show cause.kind = .decode ∧ code.size < pos + 4
    split at h
    · rename_i hcontext
      cases h
      obtain ⟨hk, hn⟩ := field_refused hcontext
      have hlt := hword hn
      exact ⟨hk, by omega⟩
    · split at h
      · rename_i hslot
        cases h
        obtain ⟨hk, hn⟩ := field_refused hslot
        have hlt := hword hn
        exact ⟨hk, by omega⟩
      · cases h

/-- Inside of the code no instruction is missing. -/
theorem instructionAt_ne_pastEnd {pos : Nat} (hin : pos < code.size) :
    code.instructionAt pos ≠ .error .pastEnd := by
  intro h
  obtain ⟨tag, hbyte⟩ : ∃ tag, code.byte? pos = some tag := ⟨_, Array.getElem?_eq_getElem hin⟩
  unfold instructionAt opcodeAt at h
  rw [hbyte] at h
  cases htag : Opcode.ofTag? tag with
  | none => simp [htag] at h
  | some op =>
    simp only [htag] at h
    split at h
    · rename_i cause hoperand
      cases h
      exact operandAt_ne_pastEnd hoperand
    · cases h

theorem opcodeAt_of_opcode? {pos : Nat} {op : Opcode} (h : code.opcode? pos = some op) :
    pos < code.size ∧ code.opcodeAt pos = .ok op := by
  obtain ⟨tag, hbyte, htag⟩ := Option.bind_eq_some_iff.1 h
  refine ⟨(Array.getElem?_eq_some_iff.1 hbyte).1, ?_⟩
  simp only [opcodeAt, hbyte, htag]

theorem opcode?_of_instructionAt {pos : Nat} {i : Instruction} (h : code.instructionAt pos = .ok i) :
    code.opcode? pos = some i.opcode := by
  unfold instructionAt opcodeAt at h
  unfold opcode?
  cases hbyte : code.byte? pos with
  | none => simp [hbyte] at h
  | some tag =>
    simp only [hbyte] at h
    cases htag : Opcode.ofTag? tag with
    | none => simp [htag] at h
    | some op =>
      simp only [htag] at h
      split at h
      · cases h
      · cases h
        exact htag

/-- An instruction that cannot be read has a tag of no opcode, or an operand that crosses the end. -/
theorem instructionAt_refused {pos : Nat} {cause : Cause} (hin : pos < code.size)
    (h : code.instructionAt pos = .error cause) :
    cause.kind = .decode ∧
      ((∃ tag, code.byte? pos = some tag ∧ Opcode.ofTag? tag = none) ∨
        ∃ op, code.opcode? pos = some op ∧ code.size < pos + op.length) := by
  obtain ⟨tag, hbyte⟩ : ∃ tag, code.byte? pos = some tag := ⟨_, Array.getElem?_eq_getElem hin⟩
  unfold instructionAt opcodeAt at h
  simp only [opcode?, hbyte, Option.bind_some] at h ⊢
  cases htag : Opcode.ofTag? tag with
  | none =>
    simp only [htag] at h
    cases h
    exact ⟨rfl, .inl ⟨tag, rfl, htag⟩⟩
  | some op =>
    simp only [htag] at h
    split at h
    · rename_i hoperand
      cases h
      obtain ⟨hk, hlt⟩ := operandAt_refused hoperand
      refine ⟨hk, .inr ⟨op, rfl, ?_⟩⟩
      unfold Opcode.length
      omega
    · cases h

end Code

end CellMachine
