import CellMachine.Proofs.Assembler.Emission
import Mathlib.Data.List.Forall2

/-!
# Reading code from its start

Code is read from the start, one instruction behind the other. Main statement: code that was written
without raw bytes is read to its end, as the instructions that were written, each at the position that
the assembler had before it.
-/

namespace CellMachine

namespace Code

variable {code : Code} {pos : Nat} {i : Instruction}

/-- The instructions from `pos` up to the end of the code, each with the position of its tag. -/
def instructionsFrom (code : Code) (pos : Nat) : Except Cause (List (Nat × Instruction)) :=
  if pos = code.size then .ok []
  else
    match _ : code.instructionAt pos with
    | .error cause => .error cause
    | .ok i =>
      match code.instructionsFrom (pos + i.opcode.length) with
      | .error cause => .error cause
      | .ok rest => .ok ((pos, i) :: rest)
termination_by code.size - pos
decreasing_by
  have hend := end_le_of_instructionAt (by assumption)
  omega

theorem instructionsFrom_size (code : Code) : code.instructionsFrom code.size = .ok [] := by
  rw [instructionsFrom, if_pos rfl]

theorem instructionsFrom_cons {rest : List (Nat × Instruction)} (h : code.instructionAt pos = .ok i)
    (hrest : code.instructionsFrom (pos + i.opcode.length) = .ok rest) :
    code.instructionsFrom pos = .ok ((pos, i) :: rest) := by
  have hend := end_le_of_instructionAt h
  rw [instructionsFrom, if_neg (by omega)]
  split
  · rename_i herror
    cases h.symm.trans herror
  · rename_i i' hi
    cases h.symm.trans hi
    rw [hrest]

end Code

namespace Directive

instance : DecidablePred IsInstruction
  | byte _ | newLabel | bind _ => .isFalse id
  | plain _ | int _ | double _ | withId .. | withContext .. | jump .. | jumpBy .. => .isTrue trivial

/-- Without raw bytes, what is no instruction has no bytes. -/
theorem size_eq_zero {d : Directive} (hraw : ∀ b, d ≠ .byte b) (hd : ¬ d.IsInstruction) :
    d.size = 0 := by
  cases d with
  | byte b => exact (hraw b rfl).elim
  | newLabel => rfl
  | bind label => rfl
  | _ => exact (hd trivial).elim

end Directive

namespace Assembler

open Listing

variable {ds : List Directive} {a : Assembler} {code : Code}

theorem followAll?_concat {a b c : Assembler} {d : Directive} (h : a.followAll? ds = some b)
    (hd : b.follow? d = some c) : a.followAll? (ds ++ [d]) = some c := by
  unfold followAll? at *
  rw [List.foldlM_append, h]
  simp [hd]

/-- The directives with an instruction, each with the position of the assembler before it. -/
def emitted (a : Assembler) : List Directive → List (Nat × Directive)
  | [] => []
  | d :: ds =>
    match a.follow? d with
    | none => []
    | some b => if d.IsInstruction then (a.position, d) :: b.emitted ds else b.emitted ds

/-- An instruction is read where a directive was written, and it is the one of the directive. A jump to
a label has the distance to where the label was put. -/
def ReadsAs (ds : List Directive) (written : Nat × Directive) (read : Nat × Instruction) : Prop :=
  read.1 = written.1 ∧ ∃ offset, written.2.instruction? offset = some read.2 ∧
    ∀ op label, written.2 = .jump op label → ∃ target, Writes ds target (.bind label) ∧
      (offset label).toInt = distance (written.1 + 1) target

theorem readsAs_of_at (hfollow : empty.followAll? ds = some a) (hfinish : a.finish = .ok code)
    {d : Directive} {pos : Nat} (hat : At ds d pos) (hd : d.IsInstruction) :
    ∃ i, code.instructionAt pos = .ok i ∧ i.opcode.length = d.size ∧
      ReadsAs ds (pos, d) (pos, i) := by
  obtain ⟨i, hi, hread, hlength⟩ := instructionAt_of_finish hfollow hfinish hat hd
  refine ⟨i, hread, hlength, rfl, a.offsets (pos + 1), hi, ?_⟩
  rintro op label rfl
  obtain ⟨target, hbind, hoffset⟩ := offset_of_finish hfollow hfinish hat
  exact ⟨target, writes_of_at hfollow hbind, hoffset⟩

/-- What is left of the directives is read from where the assembler came to it. -/
theorem instructionsFrom_position (hfollow : empty.followAll? ds = some a)
    (hfinish : a.finish = .ok code) (hraw : ∀ b, Directive.byte b ∉ ds) {before after : List Directive}
    {b : Assembler} (hds : ds = before ++ after) (hbefore : empty.followAll? before = some b)
    (hafter : b.followAll? after = some a) :
    ∃ listing, code.instructionsFrom b.position = .ok listing ∧
      List.Forall₂ (ReadsAs ds) (b.emitted after) listing := by
  induction after generalizing before b with
  | nil =>
    cases hafter
    rw [(listed_of_followAll? hfollow).position, ← size_of_finish hfollow hfinish]
    exact ⟨[], code.instructionsFrom_size, .nil⟩
  | cons d after ih =>
    obtain ⟨c, hc, hafter⟩ := followAll?_cons hafter
    have hconcat := followAll?_concat hbefore hc
    obtain ⟨rest, hrest, hreads⟩ := ih (by simp [hds]) hconcat hafter
    have hbpos := (listed_of_followAll? hbefore).position
    have hcpos := (listed_of_followAll? hconcat).position
    rw [size_append, ← hbpos, size_cons, size_nil, Nat.add_zero] at hcpos
    have hat : At ds d b.position := ⟨before, after, hds, hbpos.symm⟩
    simp only [emitted, hc]
    split
    · rename_i hd
      obtain ⟨i, hread, hlength, hreadsAs⟩ := readsAs_of_at hfollow hfinish hat hd
      rw [hcpos, ← hlength] at hrest
      exact ⟨_, Code.instructionsFrom_cons hread hrest, .cons hreadsAs hreads⟩
    · -- A label takes no bytes: the same position is read for the next directive.
      rename_i hd
      have hempty : d.size = 0 := Directive.size_eq_zero (fun x hx => hraw x (hx ▸ hat.mem)) hd
      rw [hempty, Nat.add_zero] at hcpos
      rw [← hcpos]
      exact ⟨rest, hrest, hreads⟩

/-- Code that was written without raw bytes is read from its start to its end without a fault, as
exactly the instructions that were written, each at the position that the assembler had before it. -/
theorem instructionsFrom_of_finish (hfollow : empty.followAll? ds = some a)
    (hfinish : a.finish = .ok code) (hraw : ∀ b, Directive.byte b ∉ ds) :
    ∃ listing, code.instructionsFrom 0 = .ok listing ∧
      List.Forall₂ (ReadsAs ds) (empty.emitted ds) listing :=
  instructionsFrom_position hfollow hfinish hraw (List.nil_append ds).symm rfl hfollow

/-- A jump over an instruction, and a jump back by a given offset. -/
def jumpsBothWays : List Directive :=
  [.newLabel, .int (-2), .jump .jump 0, .withContext (.loadContext .int) 1 2, .bind 0,
    .jumpBy (.jumpIf .lt) (-8), .plain .stop]

def jumpsBothWaysCode : Code :=
  ⟨#[2, 254, 255, 255, 255, 255, 255, 255, 255, 71, 5, 0, 64, 1, 0, 2, 0, 76, 248, 255, 79]⟩

theorem instructionsFrom_of_finish_jumpsBothWays : ∃ a listing,
    empty.followAll? jumpsBothWays = some a ∧ a.finish = .ok jumpsBothWaysCode ∧
      jumpsBothWaysCode.instructionsFrom 0 = .ok listing ∧
      listing.map Prod.fst = [0, 9, 12, 17, 20] := by
  have hfollow : empty.followAll? jumpsBothWays =
      some ⟨jumpsBothWaysCode.bytes, #[⟨some 17, []⟩], none⟩ := by decide +kernel
  have hfinish : (⟨jumpsBothWaysCode.bytes, #[⟨some 17, []⟩], none⟩ : Assembler).finish =
      .ok jumpsBothWaysCode := by
    simp [Assembler.finish, List.findIdx?_cons]
  obtain ⟨listing, hlisting, hreads⟩ :=
    instructionsFrom_of_finish hfollow hfinish (by simp [jumpsBothWays])
  have hpositions : listing.map Prod.fst = (empty.emitted jumpsBothWays).map Prod.fst := by
    rw [← List.forall₂_eq_eq_eq, List.forall₂_map_left_iff, List.forall₂_map_right_iff]
    exact hreads.flip.imp fun _ _ h => h.1
  exact ⟨_, listing, hfollow, hfinish, hlisting, hpositions.trans (by decide +kernel)⟩

end Assembler

end CellMachine
