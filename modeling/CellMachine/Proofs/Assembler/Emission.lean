import CellMachine.Proofs.Assembler.Labels
import CellMachine.Proofs.Code

/-!
# Emission

Finished code read back. Main statement: in code that was written without raw bytes, an instruction
is read wherever one was written, and what it leads to is again the start of an instruction or the
end.
-/

namespace CellMachine

namespace Directive

def IsInstruction : Directive → Prop
  | byte _ | newLabel | bind _ => False
  | _ => True

/-- A directive that leaves what is written to the assembler: no raw byte, no offset of its own. -/
def IsChecked : Directive → Prop
  | byte _ | jumpBy .. => False
  | _ => True

theorem isInstruction_of_checked {d : Directive} (hd : d.IsChecked) (hs : 0 < d.size) :
    d.IsInstruction := by
  cases d with
  | byte b => exact hd
  | newLabel => cases hs
  | bind label => cases hs
  | _ => trivial

end Directive

namespace Listing

/-- The start of a directive with bytes, or the end. -/
def Boundary (ds : List Directive) (pos : Nat) : Prop :=
  (∃ d, At ds d pos ∧ 0 < d.size) ∨ pos = size ds

/-- Where some directives end, the next one with bytes starts, if there is one. -/
theorem boundary_of_split {ds : List Directive} (before after : List Directive)
    (h : ds = before ++ after) : Boundary ds (size before) := by
  induction after generalizing before with
  | nil => exact .inr (by rw [h, List.append_nil])
  | cons d after ih =>
    rcases Nat.eq_zero_or_pos d.size with hz | hp
    · -- A directive without bytes ends where it starts.
      have hnext := ih (before ++ [d]) (by simp [h])
      rwa [size_append, size_cons, hz, size_nil, Nat.add_zero] at hnext
    · exact .inl ⟨d, ⟨before, after, h, rfl⟩, hp⟩

theorem boundary_zero (ds : List Directive) : Boundary ds 0 := boundary_of_split [] ds rfl

theorem At.boundary {ds : List Directive} {d : Directive} {pos : Nat} (h : At ds d pos) :
    Boundary ds pos := by
  obtain ⟨before, after, hds, rfl⟩ := h
  exact boundary_of_split before (d :: after) hds

theorem At.boundary_end {ds : List Directive} {d : Directive} {pos : Nat} (h : At ds d pos) :
    Boundary ds (pos + d.size) := by
  obtain ⟨before, after, hds, rfl⟩ := h
  have hb : Boundary ds (size (before ++ [d])) := boundary_of_split _ after (by simp [hds])
  rwa [size_append, size_cons, size_nil, Nat.add_zero] at hb

end Listing

namespace Assembler

open Listing

/-- Follows directives one after the other, if none is refused. -/
def followAll? (a : Assembler) (ds : List Directive) : Option Assembler := ds.foldlM follow? a

theorem followAll?_cons {a a' : Assembler} {d : Directive} {ds : List Directive}
    (h : a.followAll? (d :: ds) = some a') :
    ∃ b, a.follow? d = some b ∧ b.followAll? ds = some a' :=
  Option.bind_eq_some_iff.1 (List.foldlM_cons.symm.trans h)

theorem followAll?_append {a a' : Assembler} {ds es : List Directive}
    (h : a.followAll? (ds ++ es) = some a') :
    ∃ b, a.followAll? ds = some b ∧ b.followAll? es = some a' :=
  Option.bind_eq_some_iff.1 (List.foldlM_append.symm.trans h)

theorem Listed.followAll {ds es : List Directive} {a a' : Assembler} (h : Listed ds a)
    (hf : a.followAll? es = some a') : Listed (ds ++ es) a' := by
  induction es generalizing ds a with
  | nil =>
    cases hf
    rwa [List.append_nil]
  | cons d es ih =>
    obtain ⟨b, hb, hf⟩ := followAll?_cons hf
    have hrest := ih (h.follow hb) hf
    rwa [List.append_assoc] at hrest

theorem listed_of_followAll? {ds : List Directive} {a : Assembler}
    (h : empty.followAll? ds = some a) : Listed ds a := listed_empty.followAll h

/-- A directive that was followed and writes an instruction has one, whatever the offsets are. -/
theorem instruction?_of_follow? {a a' : Assembler} {d : Directive} (h : a.follow? d = some a')
    (hd : d.IsInstruction) (offset : Nat → Int16) : ∃ i, d.instruction? offset = some i := by
  cases d with
  | byte b => exact hd.elim
  | newLabel => exact hd.elim
  | bind label => exact hd.elim
  | jump op label =>
    simp only [follow?, jump?] at h
    split at h
    · cases h
    split at h
    · cases h
    rename_i hemit
    obtain ⟨i, hi, -⟩ := Option.map_eq_some_iff.1 hemit
    exact Instruction.make?_isSome hi _
  | int n => exact ⟨⟨.literal .int, n⟩, rfl⟩
  | double bits => exact ⟨⟨.literal .double, bits⟩, rfl⟩
  | _ =>
    obtain ⟨i, hi, -⟩ := Option.map_eq_some_iff.1 h
    exact ⟨i, hi⟩

theorem instruction?_of_at {ds : List Directive} {a : Assembler} (h : empty.followAll? ds = some a)
    {d : Directive} {pos : Nat} (hat : At ds d pos) (hd : d.IsInstruction) (offset : Nat → Int16) :
    ∃ i, d.instruction? offset = some i := by
  obtain ⟨before, after, rfl, -⟩ := hat
  obtain ⟨b, -, hb⟩ := followAll?_append h
  obtain ⟨c, hc, -⟩ := followAll?_cons hb
  exact instruction?_of_follow? hc hd offset

theorem waiting_eq_nil {a : Assembler} (h : a.labels.findIdx? (fun s => !s.pending.isEmpty) = none)
    (label : Nat) : a.waiting label = [] := by
  unfold waiting state
  cases hs : a.labels[label]? with
  | none => rfl
  | some old =>
    have hmem : old ∈ a.labels := Array.mem_of_getElem? hs
    have hno := Array.findIdx?_eq_none_iff.1 h old hmem
    simpa using hno

/-- When code can be finished, every jump to a label is filled in with its distance. -/
theorem Listed.finish {ds : List Directive} {a : Assembler} {code : Code} (h : Listed ds a)
    (hf : a.finish = .ok code) :
    code.bytes = a.code ∧ ∀ op label pos, At ds (.jump op label) pos →
      ∃ target, At ds (.bind label) target ∧ InReach (distance (pos + 1) target) ∧
        a.offsets (pos + 1) label = Int16.ofInt (distance (pos + 1) target) := by
  unfold Assembler.finish at hf
  split at hf
  · cases hf
  rename_i hfar
  split at hf
  · cases hf
  rename_i hempty
  cases hf
  refine ⟨rfl, fun op label pos hat => ?_⟩
  cases ht : a.target? label with
  | some target =>
    have hr := h.reach.1 hfar op label pos target hat ht
    refine ⟨target, (h.bound label target).1 ht, hr, ?_⟩
    rw [offsets, ht, fieldOffset, if_pos hr]
  | none =>
    have hwait : pos + 1 ∈ a.waiting label := (h.pending label _).2 ⟨ht, op, pos, hat, rfl⟩
    rw [waiting_eq_nil hempty] at hwait
    cases hwait

/-- `d` is written at `pos`: the position of the assembler when it comes to `d`. -/
def Writes (ds : List Directive) (pos : Nat) (d : Directive) : Prop :=
  ∃ before after a, ds = before ++ d :: after ∧ empty.followAll? before = some a ∧ a.position = pos

theorem writes_of_at {ds : List Directive} {a : Assembler} (h : empty.followAll? ds = some a)
    {d : Directive} {pos : Nat} (hat : At ds d pos) : Writes ds pos d := by
  obtain ⟨before, after, rfl, hpos⟩ := hat
  obtain ⟨b, hb, -⟩ := followAll?_append h
  exact ⟨before, after, b, rfl, hb, (listed_of_followAll? hb).position.trans hpos⟩

theorem at_of_writes {ds : List Directive} {pos : Nat} {d : Directive} (h : Writes ds pos d) :
    At ds d pos := by
  obtain ⟨before, after, a, rfl, hfollow, rfl⟩ := h
  exact ⟨before, after, rfl, (listed_of_followAll? hfollow).position.symm⟩

/-! ### Finished code -/

section Finished

variable {ds : List Directive} {a : Assembler} {code : Code} {d : Directive} {pos : Nat}

theorem size_of_finish (hfollow : empty.followAll? ds = some a) (hfinish : a.finish = .ok code) :
    code.size = size ds := by
  have hl := listed_of_followAll? hfollow
  show code.bytes.size = size ds
  rw [(hl.finish hfinish).1]
  exact hl.position

/-- Where a directive stands its bytes are. -/
theorem encoded_of_finish (hfollow : empty.followAll? ds = some a) (hfinish : a.finish = .ok code)
    (hat : At ds d pos) : code.slice? d.size pos = some (d.encoded (a.offsets (pos + 1))) := by
  have hl := listed_of_followAll? hfollow
  obtain ⟨before, after, rfl, hrender⟩ := render_at hat a.offsets
  have hcode : code.bytes.toList =
      before ++ (d.encoded (a.offsets (before.length + 1)) ++ after) := by
    rw [(hl.finish hfinish).1, hl.code, hrender]
  have hslice := Code.slice?_of_toList_eq hcode
  rwa [Directive.length_encoded] at hslice

/-- Where a directive that is an instruction stands, this instruction is read. -/
theorem instructionAt_of_finish (hfollow : empty.followAll? ds = some a)
    (hfinish : a.finish = .ok code) (hat : At ds d pos) (hd : d.IsInstruction) :
    ∃ i, d.instruction? (a.offsets (pos + 1)) = some i ∧ code.instructionAt pos = .ok i ∧
      i.opcode.length = d.size := by
  obtain ⟨i, hi⟩ := instruction?_of_at hfollow hat hd (a.offsets (pos + 1))
  have henc := Directive.encoded_of_instruction? hi
  have hlen : i.opcode.length = d.size := by
    rw [← Instruction.length_encoded, ← henc, Directive.length_encoded]
  refine ⟨i, hi, Code.instructionAt_eq_ok_iff.2 ?_, hlen⟩
  rw [hlen, ← henc]
  exact encoded_of_finish hfollow hfinish hat

/-- The offset of a jump is its distance to where its label was put. -/
theorem offset_of_finish (hfollow : empty.followAll? ds = some a) (hfinish : a.finish = .ok code)
    {op : Opcode} {label : Nat} (hat : At ds (.jump op label) pos) :
    ∃ target, At ds (.bind label) target ∧
      (a.offsets (pos + 1) label).toInt = distance (pos + 1) target := by
  obtain ⟨-, hjumps⟩ := (listed_of_followAll? hfollow).finish hfinish
  obtain ⟨target, hbind, ⟨hlow, hhigh⟩, hoffset⟩ := hjumps op label pos hat
  refine ⟨target, hbind, ?_⟩
  rw [hoffset]
  exact Int16.toInt_ofInt_of_le (by omega) (by omega)

end Finished

/-- Code that was written by directives which leave all bytes and offsets to the assembler. -/
structure Emitted (ds : List Directive) (code : Code) : Prop where
  checked : ∀ d ∈ ds, d.IsChecked
  finished : ∃ a, empty.followAll? ds = some a ∧ a.finish = .ok code

namespace Emitted

variable {ds : List Directive} {code : Code} {d : Directive} {pos : Nat}

theorem size_eq (h : Emitted ds code) : code.size = size ds := by
  obtain ⟨a, hfollow, hfinish⟩ := h.finished
  exact size_of_finish hfollow hfinish

theorem writes (h : Emitted ds code) (hat : At ds d pos) : Writes ds pos d := by
  obtain ⟨a, hfollow, -⟩ := h.finished
  exact writes_of_at hfollow hat

theorem isInstruction (h : Emitted ds code) (hat : At ds d pos) (hs : 0 < d.size) :
    d.IsInstruction :=
  Directive.isInstruction_of_checked (h.checked d hat.mem) hs

/-- Where a directive with bytes stands its instruction is read. A jump has the offset that leads to
where its label was put. -/
theorem instructionAt (h : Emitted ds code) (hat : At ds d pos) (hs : 0 < d.size) :
    ∃ offset i, d.instruction? offset = some i ∧ code.instructionAt pos = .ok i ∧
      i.opcode.length = d.size ∧
      ∀ op label, d = .jump op label → ∃ target, At ds (.bind label) target ∧
        (offset label).toInt = distance (pos + 1) target := by
  obtain ⟨a, hfollow, hfinish⟩ := h.finished
  obtain ⟨i, hi, hread, hlen⟩ :=
    instructionAt_of_finish hfollow hfinish hat (h.isInstruction hat hs)
  refine ⟨a.offsets (pos + 1), i, hi, hread, hlen, ?_⟩
  rintro op label rfl
  exact offset_of_finish hfollow hfinish hat

theorem boundary_of_jump (h : Emitted ds code) (hat : At ds d pos) (hs : 0 < d.size)
    {i : Instruction} (hi : code.instructionAt pos = .ok i) {offset : Int16}
    (ha : i.action = .jump offset ∨ ∃ c, i.action = .jumpIf c offset) :
    ∃ target, Boundary ds target ∧ (target : Int) = (pos + i.opcode.length : Nat) + offset.toInt := by
  obtain ⟨offsets, j, hj, hread, hlen, hjumps⟩ := h.instructionAt hat hs
  cases hi.symm.trans hread
  obtain ⟨op, hop⟩ := Instruction.of_jump_action ha
  have hlayout := Instruction.layout_of_make? hop
  cases d with
  | jump op' label =>
    have hoffset : offsets label = offset := Instruction.make?_inj hj hop
    obtain ⟨target, hbind, htarget⟩ := hjumps op' label rfl
    refine ⟨target, hbind.boundary, ?_⟩
    rw [hlen, Directive.size_jump, ← hoffset, htarget, distance]
    omega
  | jumpBy op' given => exact (h.checked _ hat.mem).elim
  | byte b => cases hj
  | newLabel => cases hj
  | bind label => cases hj
  | int n => cases hj; cases hlayout
  | double bits => cases hj; cases hlayout
  | _ =>
    have hother := Instruction.layout_of_make? hj
    rw [hlayout] at hother
    cases hother

theorem eq_invalid_of_fail (h : Emitted ds code) (hat : At ds d pos) (hs : 0 < d.size)
    {i : Instruction} (hi : code.instructionAt pos = .ok i) (ha : i.action = .fail) :
    d = .plain .invalid := by
  obtain ⟨offsets, j, hj, hread, -, -⟩ := h.instructionAt hat hs
  cases hi.symm.trans hread
  have hop := congrArg Instruction.opcode (i.eq_of_action ha rfl)
  have hlayout : i.opcode.layout = .none := by rw [hop]; rfl
  cases d with
  | plain op => rw [← Instruction.opcode_of_make? hj, hop]
  | byte b => cases hj
  | newLabel => cases hj
  | bind label => cases hj
  | int n => cases hj; cases hlayout
  | double bits => cases hj; cases hlayout
  | _ =>
    have hother := Instruction.layout_of_make? hj
    rw [hlayout] at hother
    cases hother

end Emitted

end Assembler

end CellMachine
