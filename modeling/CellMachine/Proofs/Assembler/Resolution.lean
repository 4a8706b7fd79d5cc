import CellMachine.Proofs.Assembler.Emission

/-!
# Resolution of labels

Which code can be finished, and what stands in the offset fields of its jumps. Main statement: code
can be finished exactly if every label that is jumped to was put somewhere within reach of the jump;
then every jump has the distance to where its label was put, and otherwise the fault names a jump that
is too long, if there is one.
-/

namespace CellMachine

namespace Assembler

open Listing

variable {ds es : List Directive} {a b : Assembler} {d : Directive}

/-! ### Jumps that are too long -/

/-- A jump of the directives that does not reach where its label was put. -/
def IsTooLong (ds : List Directive) (jump : LongJump) : Prop :=
  ∃ op label target, At ds (.jump op label) jump.position ∧ At ds (.bind label) target ∧
    jump.distance = distance (jump.position + 1) target ∧ ¬ InReach jump.distance

/-- What an assembler remembers as too long is a jump that is. -/
def RemembersTooLong (ds : List Directive) (a : Assembler) : Prop :=
  ∀ jump, a.tooFar = some jump → IsTooLong ds jump

theorem IsTooLong.append {jump : LongJump} (h : IsTooLong ds jump) (es : List Directive) :
    IsTooLong (ds ++ es) jump := by
  obtain ⟨op, label, target, hjump, hbind, hdistance⟩ := h
  exact ⟨op, label, target, hjump.append es, hbind.append es, hdistance⟩

theorem remembersTooLong_of_tooFar_eq (h : RemembersTooLong ds a) (hb : b.tooFar = a.tooFar) :
    RemembersTooLong (ds ++ [d]) b :=
  fun jump hjump => (h jump (hb.symm.trans hjump)).append [d]

/-- Filling a field adds to what is remembered at most the jump with that field. -/
theorem tooFar_of_fill {field target : Nat} {jump : LongJump}
    (h : (a.fill field target).tooFar = some jump) :
    a.tooFar = some jump ∨
      (jump = ⟨field - 1, distance field target⟩ ∧ ¬ InReach (distance field target)) := by
  unfold fill at h
  dsimp only at h
  split at h
  · exact .inl h
  · rename_i hreach
    cases hold : a.tooFar with
    | some old =>
      rw [hold] at h
      exact .inl h
    | none =>
      rw [hold] at h
      cases h
      exact .inr ⟨rfl, hreach⟩

theorem tooFar_of_foldl_fill {fields : List Nat} {target : Nat} {jump : LongJump}
    (h : (fields.foldl (fun a field => a.fill field target) a).tooFar = some jump) :
    a.tooFar = some jump ∨ ∃ field ∈ fields,
      jump = ⟨field - 1, distance field target⟩ ∧ ¬ InReach (distance field target) := by
  induction fields generalizing a with
  | nil => exact .inl h
  | cons field fields ih =>
    rcases ih h with hstep | ⟨field', hmem, hjump⟩
    · rcases tooFar_of_fill hstep with hold | hjump
      · exact .inl hold
      · exact .inr ⟨field, List.mem_cons_self, hjump⟩
    · exact .inr ⟨field', List.mem_cons_of_mem _ hmem, hjump⟩

theorem remembersTooLong_bind {label : Nat} (hl : Listed ds a) (h : RemembersTooLong ds a)
    (hf : a.bind? label = some b) : RemembersTooLong (ds ++ [.bind label]) b := by
  unfold bind? at hf
  split at hf
  · cases hf
  rename_i old hold
  split at hf
  · cases hf
  cases hf
  intro jump hjump
  rcases tooFar_of_foldl_fill hjump with hremembered | ⟨field, hmem, rfl, hreach⟩
  · exact (h jump hremembered).append _
  · have hwaits : field ∈ a.waiting label := by
      rw [waiting, state_of_some hold]
      exact List.mem_reverse.1 hmem
    obtain ⟨-, op, pos, hat, rfl⟩ := (hl.pending label field).1 hwaits
    have hhere : At (ds ++ [.bind label]) (.bind label) a.position :=
      at_concat_iff.2 (.inr ⟨rfl, hl.position⟩)
    exact ⟨op, label, a.position, hat.append _, hhere, rfl, hreach⟩

theorem remembersTooLong_jump {op : Opcode} {label : Nat} (hl : Listed ds a)
    (h : RemembersTooLong ds a) (hf : a.jump? op label = some b) :
    RemembersTooLong (ds ++ [.jump op label]) b := by
  unfold jump? at hf
  split at hf
  · cases hf
  rename_i old hold
  split at hf
  · cases hf
  rename_i emitted hemit
  obtain rfl := emit?_eq_some hemit
  dsimp only at hf
  split at hf
  · rename_i target hposition
    cases hf
    intro jump hjump
    rcases tooFar_of_fill hjump with hremembered | ⟨rfl, hreach⟩
    · exact (h jump hremembered).append _
    · have hbound : At ds (.bind label) target :=
        (hl.bound label target).1 (by rw [target?, state_of_some hold, hposition])
      have hhere : At (ds ++ [.jump op label]) (.jump op label) a.position :=
        at_concat_iff.2 (.inr ⟨rfl, hl.position⟩)
      exact ⟨op, label, target, hhere, hbound.append _, rfl, hreach⟩
  · cases hf
    exact remembersTooLong_of_tooFar_eq h rfl

theorem remembersTooLong_follow (hl : Listed ds a) (h : RemembersTooLong ds a)
    (hf : a.follow? d = some b) : RemembersTooLong (ds ++ [d]) b := by
  cases d with
  | newLabel =>
    cases hf
    exact remembersTooLong_of_tooFar_eq h rfl
  | bind label => exact remembersTooLong_bind hl h hf
  | jump op label => exact remembersTooLong_jump hl h hf
  | _ =>
    rw [follow?_of_plain id hf fun _ => 0]
    exact remembersTooLong_of_tooFar_eq h rfl

theorem remembersTooLong_followAll (hl : Listed ds a) (h : RemembersTooLong ds a)
    (hf : a.followAll? es = some b) : RemembersTooLong (ds ++ es) b := by
  induction es generalizing ds a with
  | nil =>
    cases hf
    rwa [List.append_nil]
  | cons d es ih =>
    obtain ⟨c, hc, hf⟩ := followAll?_cons hf
    have hrest := ih (hl.follow hc) (remembersTooLong_follow hl h hc) hf
    rwa [List.append_assoc] at hrest

/-! ### What can be finished -/

theorem waiting_ne_nil {label : Nat}
    (h : a.labels.findIdx? (fun state => !state.pending.isEmpty) = some label) :
    a.waiting label ≠ [] := by
  obtain ⟨hlt, hpending, -⟩ := Array.findIdx?_eq_some_iff_getElem.1 h
  have hstate : a.state label = a.labels[label] :=
    state_of_some (Array.getElem?_eq_getElem hlt)
  rw [waiting, hstate]
  intro hnil
  simp [hnil] at hpending

/-- Code can be finished if no jump was too long and nothing waits. -/
theorem finish_eq_ok_iff :
    (∃ code, a.finish = .ok code) ↔ a.tooFar = none ∧ ∀ label, a.waiting label = [] := by
  unfold Assembler.finish
  cases a.tooFar with
  | some jump => simp
  | none =>
    cases hfind : a.labels.findIdx? fun state => !state.pending.isEmpty with
    | none => simp [waiting_eq_nil hfind]
    | some label =>
      have hwaits := waiting_ne_nil hfind
      simp only [reduceCtorEq, exists_false, true_and, false_iff]
      exact fun hnone => hwaits (hnone label)

/-- Every label that is jumped to was put within reach of the jump. -/
def Resolvable (ds : List Directive) : Prop :=
  ∀ op label pos, Writes ds pos (.jump op label) →
    ∃ target, Writes ds target (.bind label) ∧ InReach (distance (pos + 1) target)

theorem writes_iff_at (h : empty.followAll? ds = some a) {pos : Nat} :
    Writes ds pos d ↔ At ds d pos :=
  ⟨at_of_writes, writes_of_at h⟩

theorem finish_ok_iff_resolvable (h : empty.followAll? ds = some a) :
    (∃ code, a.finish = .ok code) ↔ Resolvable ds := by
  have hl := listed_of_followAll? h
  rw [finish_eq_ok_iff, hl.reach]
  simp only [Resolvable, writes_iff_at h]
  constructor
  · rintro ⟨hreach, hnone⟩ op label pos hat
    cases htarget : a.target? label with
    | some target => exact ⟨target, (hl.bound label target).1 htarget,
        hreach op label pos target hat htarget⟩
    | none =>
      have hwaits : pos + 1 ∈ a.waiting label :=
        (hl.pending label _).2 ⟨htarget, op, pos, hat, rfl⟩
      rw [hnone label] at hwaits
      cases hwaits
  · intro hall
    refine ⟨fun op label pos target hat htarget => ?_, fun label => ?_⟩
    · obtain ⟨target', hbind, hreach⟩ := hall op label pos hat
      cases htarget.symm.trans ((hl.bound label target').2 hbind)
      exact hreach
    · rw [List.eq_nil_iff_forall_not_mem]
      intro field hwaits
      obtain ⟨hunbound, op, pos, hat, -⟩ := (hl.pending label field).1 hwaits
      obtain ⟨target, hbind, -⟩ := hall op label pos hat
      cases hunbound.symm.trans ((hl.bound label target).2 hbind)

/-! ### What finishing reports -/

/-- The fault says something that is true of the directives. -/
def Reports (ds : List Directive) : Fault → Prop
  | .tooFar jump => ∃ op label target, Writes ds jump.position (.jump op label) ∧
      Writes ds target (.bind label) ∧ jump.distance = distance (jump.position + 1) target ∧
      ¬ InReach jump.distance
  | .unbound label =>
    (∃ op pos, Writes ds pos (.jump op label)) ∧ ∀ target, ¬ Writes ds target (.bind label)

theorem reports_of_finish (h : empty.followAll? ds = some a) {fault : Fault}
    (hf : a.finish = .error fault) : Reports ds fault := by
  have hl := listed_of_followAll? h
  have hremembers : RemembersTooLong ([] ++ ds) a :=
    remembersTooLong_followAll listed_empty nofun h
  unfold Assembler.finish at hf
  split at hf
  · rename_i jump hjump
    cases hf
    simp only [Reports, writes_iff_at h]
    exact hremembers jump hjump
  · split at hf
    · rename_i label hfind
      cases hf
      simp only [Reports, writes_iff_at h]
      obtain ⟨field, hwaits⟩ := List.exists_mem_of_ne_nil _ (waiting_ne_nil hfind)
      obtain ⟨hunbound, op, pos, hat, -⟩ := (hl.pending label field).1 hwaits
      refine ⟨⟨op, pos, hat⟩, fun target hbind => ?_⟩
      cases hunbound.symm.trans ((hl.bound label target).2 hbind)
    · cases hf

/-- A jump that is too long is reported, whatever else is wrong. -/
theorem finish_of_tooLong (h : empty.followAll? ds = some a) {op : Opcode} {label pos target : Nat}
    (hjump : Writes ds pos (.jump op label)) (hbind : Writes ds target (.bind label))
    (hreach : ¬ InReach (distance (pos + 1) target)) :
    ∃ jump, a.finish = .error (.tooFar jump) := by
  have hl := listed_of_followAll? h
  cases hfar : a.tooFar with
  | some jump =>
    refine ⟨jump, ?_⟩
    unfold Assembler.finish
    rw [hfar]
  | none =>
    have htarget := (hl.bound label target).2 (at_of_writes hbind)
    exact (hreach (hl.reach.1 hfar op label pos target (at_of_writes hjump) htarget)).elim

/-- The number in the offset field of a jump is its distance to where its label was put. -/
theorem int16?_of_finish (h : empty.followAll? ds = some a) {code : Code}
    (hf : a.finish = .ok code) {op : Opcode} {label pos target : Nat}
    (hjump : Writes ds pos (.jump op label)) (hbind : Writes ds target (.bind label)) :
    ∃ offset, code.int16? (pos + 1) = some offset ∧ offset.toInt = distance (pos + 1) target := by
  have hl := listed_of_followAll? h
  have hat := at_of_writes hjump
  obtain ⟨target', hbind', hoffset⟩ := offset_of_finish h hf hat
  have hslice := encoded_of_finish h hf hat
  rw [Directive.size_jump] at hslice
  have htag : [op.tag].length = 1 := rfl
  have hfield : code.slice? 2 (pos + 1) =
      some (Layout.jumpOffset.encoded (a.offsets (pos + 1) label)) :=
    ((Code.slice?_append htag).1 hslice).2
  have htarget : target' = target := by
    have hsame := (hl.bound label target').2 hbind'
    rw [(hl.bound label target).2 (at_of_writes hbind)] at hsame
    exact (Option.some.inj hsame).symm
  rw [htarget] at hoffset
  exact ⟨_, Code.int16?_eq_some_iff.2 hfield, hoffset⟩

/-- Labels are resolved exactly, whatever else is written. Code can be finished if and only if every
label that is jumped to was put within reach of the jump. Then each jump has in its field the distance
from the end of the field to its label. A jump that is too long is reported even if there are labels
without a position, and whatever is reported is so. -/
theorem finish_resolves (h : empty.followAll? ds = some a) :
    ((∃ code, a.finish = .ok code) ↔ Resolvable ds) ∧
      (∀ code, a.finish = .ok code → ∀ op label pos target, Writes ds pos (.jump op label) →
        Writes ds target (.bind label) → ∃ offset, code.int16? (pos + 1) = some offset ∧
          offset.toInt = distance (pos + 1) target ∧ (pos + 3 : Nat) + offset.toInt = target) ∧
      (∀ op label pos target, Writes ds pos (.jump op label) → Writes ds target (.bind label) →
        ¬ InReach (distance (pos + 1) target) → ∃ jump, a.finish = .error (.tooFar jump)) ∧
      ∀ fault, a.finish = .error fault → Reports ds fault := by
  refine ⟨finish_ok_iff_resolvable h, ?_, ?_, fun fault hf => reports_of_finish h hf⟩
  · intro code hf op label pos target hjump hbind
    obtain ⟨offset, hread, hoffset⟩ := int16?_of_finish h hf hjump hbind
    refine ⟨offset, hread, hoffset, ?_⟩
    rw [hoffset, distance]
    omega
  · exact fun op label pos target hjump hbind hreach => finish_of_tooLong h hjump hbind hreach

/-- Two jumps that cross each other, with a raw byte between them that both of them skip. -/
def crossingJumps : List Directive :=
  [.newLabel, .newLabel, .bind 0, .jump .jump 1, .byte 255, .jump (.jumpIf .eq) 0, .bind 1]

theorem finish_resolves_crossingJumps : ∃ a code,
    empty.followAll? crossingJumps = some a ∧ a.finish = .ok code ∧ Resolvable crossingJumps ∧
      ∃ offset, code.int16? 5 = some offset ∧ offset.toInt = -7 := by
  have hfollow : empty.followAll? crossingJumps =
      some ⟨#[71, 4, 0, 255, 73, 249, 255], #[⟨some 0, []⟩, ⟨some 7, []⟩], none⟩ := by decide +kernel
  have hfinish : (⟨#[71, 4, 0, 255, 73, 249, 255], #[⟨some 0, []⟩, ⟨some 7, []⟩], none⟩ :
      Assembler).finish = .ok ⟨#[71, 4, 0, 255, 73, 249, 255]⟩ := by
    simp [Assembler.finish, List.findIdx?_cons]
  have hjump : Writes crossingJumps 4 (.jump (.jumpIf .eq) 0) := (writes_iff_at hfollow).2
    ⟨[.newLabel, .newLabel, .bind 0, .jump .jump 1, .byte 255], [.bind 1], rfl, by decide⟩
  have hbind : Writes crossingJumps 0 (.bind 0) := (writes_iff_at hfollow).2
    ⟨[.newLabel, .newLabel], [.jump .jump 1, .byte 255, .jump (.jumpIf .eq) 0, .bind 1], rfl,
      by decide⟩
  obtain ⟨hresolvable, hoffsets, -, -⟩ := finish_resolves hfollow
  obtain ⟨offset, hread, hoffset, -⟩ := hoffsets _ hfinish _ _ _ _ hjump hbind
  exact ⟨_, _, hfollow, hfinish, hresolvable.1 ⟨_, hfinish⟩, offset, hread, hoffset⟩

end Assembler

end CellMachine
