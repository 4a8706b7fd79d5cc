import CellMachine.Proofs.Assembler.Listing

/-!
# Labels

What the assembler knows after some directives, told by the directives themselves. Main statement:
finished code is the listing of its directives, and every jump in it goes to where its label was put.
-/

namespace CellMachine

namespace Assembler

open Listing

/-! ### Labels of an assembler -/

/-- The state of a label. One that does not exist has no position and nothing waits for it. -/
def state (a : Assembler) (label : Nat) : Label := a.labels[label]?.getD {}

/-- The position of a label that has one. -/
def target? (a : Assembler) (label : Nat) : Option Nat := (a.state label).position

def waiting (a : Assembler) (label : Nat) : List Nat := (a.state label).pending

theorem state_of_some {a : Assembler} {label : Nat} {old : Label}
    (hold : a.labels[label]? = some old) : a.state label = old := by
  rw [state, hold, Option.getD_some]

theorem state_of_labels_eq {a b : Assembler} (h : b.labels = a.labels) : b.state = a.state := by
  funext label
  rw [state, h, state]

theorem state_push (a : Assembler) : state { a with labels := a.labels.push {} } = a.state := by
  funext label
  unfold state
  rw [Array.getElem?_push]
  split
  · rename_i hl
    subst hl
    simp
  · rfl

theorem state_of_set {a b : Assembler} {label : Nat} {old new : Label}
    (hold : a.labels[label]? = some old) (hb : b.labels = a.labels.setIfInBounds label new)
    (l : Nat) : b.state l = if l = label then new else a.state l := by
  have hlt : label < a.labels.size := (Array.getElem?_eq_some_iff.1 hold).1
  unfold state
  rw [hb, Array.getElem?_setIfInBounds]
  by_cases hl : l = label
  · subst hl
    simp [hlt]
  · simp [hl, Ne.symm hl]

/-- How far a jump goes whose offset field is at `field`. -/
def distance (field target : Nat) : Int := target - (field + 2 : Nat)

/-- What stands in an offset field: nothing before the label has a position, and nothing for a target
out of reach. -/
def fieldOffset (field : Nat) : Option Nat → Int16
  | some target => if InReach (distance field target) then Int16.ofInt (distance field target) else 0
  | none => 0

def offsets (a : Assembler) (field label : Nat) : Int16 := fieldOffset field (a.target? label)

theorem offsets_congr {a b : Assembler} (h : ∀ label, b.target? label = a.target? label) :
    b.offsets = a.offsets := by
  funext field label
  rw [offsets, h, offsets]

/-- All jumps are in reach whose label has a position. -/
def AllInReach (ds : List Directive) (target? : Nat → Option Nat) : Prop :=
  ∀ op label pos target, At ds (.jump op label) pos → target? label = some target →
    InReach (distance (pos + 1) target)

/-- The assembler has followed the directives `ds`: its code is their listing, the labels that were
put somewhere have that position, the others have all jumps to them waiting, and no jump was too far
if all are in reach. -/
structure Listed (ds : List Directive) (a : Assembler) : Prop where
  code : a.code.toList = render a.offsets 0 ds
  bound : ∀ label pos, a.target? label = some pos ↔ At ds (.bind label) pos
  pending : ∀ label field, field ∈ a.waiting label ↔
    a.target? label = none ∧ ∃ op pos, At ds (.jump op label) pos ∧ field = pos + 1
  reach : a.tooFar = none ↔ AllInReach ds a.target?

theorem Listed.position {ds : List Directive} {a : Assembler} (h : Listed ds a) :
    a.position = size ds := by
  show a.code.size = size ds
  rw [← Array.length_toList, h.code, length_render]

theorem listed_empty : Listed [] empty := by
  have hat : ∀ d pos, ¬ At [] d pos := fun d pos h => List.not_mem_nil h.mem
  refine ⟨rfl, fun label pos => ?_, fun label field => ?_, ?_⟩
  · simp [target?, state, empty, hat]
  · simp [waiting, state, empty, hat]
  · simp [AllInReach, empty, hat]

/-! ### Directives that leave the labels alone -/

/-- Where labels were put, after a directive that puts none. -/
theorem Listed.bound_concat {ds : List Directive} {a b : Assembler} {d : Directive}
    (h : Listed ds a) (hd : ∀ label, d ≠ .bind label)
    (htarget : ∀ label, b.target? label = a.target? label) (label pos : Nat) :
    b.target? label = some pos ↔ At (ds ++ [d]) (.bind label) pos := by
  rw [htarget, at_concat_of_ne (hd label).symm]
  exact h.bound label pos

/-- A directive at the end that neither puts a label nor jumps to one writes its bytes. -/
theorem Listed.concat {ds : List Directive} {a b : Assembler} {d : Directive} (h : Listed ds a)
    (hbind : ∀ label, d ≠ .bind label) (hjump : ∀ op label, d ≠ .jump op label)
    (hcode : b.code.toList = a.code.toList ++ d.encoded (a.offsets (size ds + 1)))
    (hstate : b.state = a.state) (hfar : b.tooFar = a.tooFar) : Listed (ds ++ [d]) b := by
  have htarget : b.target? = a.target? := by
    funext label
    rw [target?, hstate, target?]
  have hwaiting : b.waiting = a.waiting := by
    funext label
    rw [waiting, hstate, waiting]
  have hat : ∀ op label pos, At (ds ++ [d]) (.jump op label) pos ↔ At ds (.jump op label) pos :=
    fun op label _ => at_concat_of_ne (hjump op label).symm
  refine ⟨?_, h.bound_concat hbind (congrFun htarget), fun label field => ?_, ?_⟩
  · rw [hcode, h.code, offsets_congr (congrFun htarget), render_append, render_singleton,
      Nat.zero_add]
  · simp only [htarget, hwaiting, hat]
    exact h.pending label field
  · simp only [htarget, hfar, AllInReach, hat]
    exact h.reach

theorem toList_append (a : Assembler) (bytes : List UInt8) :
    (a.append bytes).code.toList = a.code.toList ++ bytes := by
  simp [append]

theorem emit?_eq_some {a a' : Assembler} {op : Opcode} {l : Layout} {operand : l.Operand}
    (h : a.emit? op l operand = some a') : a' = a.append (op.tag :: l.encoded operand) := by
  obtain ⟨i, hi, rfl⟩ := Option.map_eq_some_iff.1 h
  rw [Instruction.encoded_of_make? hi]

def UsesLabels : Directive → Prop
  | .newLabel | .bind _ | .jump .. => True
  | _ => False

theorem follow?_of_plain {a a' : Assembler} {d : Directive} (hd : ¬ UsesLabels d)
    (h : a.follow? d = some a') (offset : Nat → Int16) : a' = a.append (d.encoded offset) := by
  cases d with
  | newLabel => exact (hd trivial).elim
  | bind label => exact (hd trivial).elim
  | jump op label => exact (hd trivial).elim
  | byte b => cases h; rfl
  | _ => exact emit?_eq_some h

theorem Listed.append {ds : List Directive} {a : Assembler} {d : Directive} (h : Listed ds a)
    (hd : ¬ UsesLabels d) :
    Listed (ds ++ [d]) (a.append (d.encoded (a.offsets (size ds + 1)))) := by
  have hbind : ∀ label, d ≠ .bind label := by
    rintro label rfl
    exact hd trivial
  have hjump : ∀ op label, d ≠ .jump op label := by
    rintro op label rfl
    exact hd trivial
  exact h.concat hbind hjump (toList_append a _) rfl rfl

theorem Listed.newLabel {ds : List Directive} {a : Assembler} (h : Listed ds a) :
    Listed (ds ++ [.newLabel]) { a with labels := a.labels.push {} } :=
  h.concat nofun nofun (List.append_nil _).symm (state_push a) rfl

/-! ### Filling offset fields -/

/-- Bytes take the place of as many others. -/
theorem toList_overwrite {code : Array UInt8} {before old after bytes : List UInt8}
    (h : code.toList = before ++ (old ++ after)) (hl : old.length = bytes.length) :
    (overwrite code before.length bytes).toList = before ++ (bytes ++ after) := by
  induction bytes generalizing code before old with
  | nil =>
    cases List.length_eq_zero_iff.1 hl
    exact h
  | cons b bytes ih =>
    obtain ⟨b', old, rfl⟩ := List.exists_cons_of_length_eq_add_one hl
    have hset : (code.setIfInBounds before.length b).toList =
        (before ++ [b]) ++ (old ++ after) := by
      rw [Array.toList_setIfInBounds, h, List.set_append_right _ _ (Nat.le_refl _), Nat.sub_self]
      simp
    have hpos : before.length + 1 = (before ++ [b]).length := by simp
    rw [overwrite, hpos, ih hset (Nat.succ.inj hl)]
    simp

theorem labels_fill (a : Assembler) (field target : Nat) : (a.fill field target).labels = a.labels := by
  unfold fill
  dsimp only
  split <;> rfl

theorem tooFar_fill (a : Assembler) (field target : Nat) :
    (a.fill field target).tooFar = none ↔ a.tooFar = none ∧ InReach (distance field target) := by
  unfold fill
  dsimp only
  split
  · rename_i hr
    exact ⟨fun h => ⟨h, hr⟩, And.left⟩
  · rename_i hr
    have hno : ¬ InReach (distance field target) := hr
    cases a.tooFar <;> simp [hno]

/-- The offsets after the fields of `fields` were filled for a target. -/
def filled (offset : Nat → Nat → Int16) (fields : List Nat) (target : Nat) : Nat → Nat → Int16 :=
  fun field label =>
    if field ∈ fields ∧ InReach (distance field target) then Int16.ofInt (distance field target)
    else offset field label

theorem filled_cons (offset : Nat → Nat → Int16) (field : Nat) (fields : List Nat) (target : Nat) :
    filled (filled offset [field] target) fields target = filled offset (field :: fields) target := by
  funext f label
  by_cases hr : InReach (distance f target)
  · by_cases hm : f ∈ fields
    · simp [filled, hm, hr]
    · simp [filled, hm, hr]
  · simp [filled, hr]

theorem code_fill {ds : List Directive} {a : Assembler} {offset : Nat → Nat → Int16} {op : Opcode}
    {label pos : Nat} (hc : a.code.toList = render offset 0 ds) (h : At ds (.jump op label) pos)
    (target : Nat) :
    (a.fill (pos + 1) target).code.toList = render (filled offset [pos + 1] target) 0 ds := by
  unfold fill
  dsimp only
  split
  · rename_i hr
    have hr : InReach (distance (pos + 1) target) := hr
    have hset : filled offset [pos + 1] target =
        setField offset (pos + 1) (Int16.ofInt (distance (pos + 1) target)) := by
      funext field l
      by_cases hf : field = pos + 1
      · subst hf
        simp [filled, setField, hr]
      · simp [filled, setField, hf]
    obtain ⟨before, after, hb, hold, hnew⟩ :=
      render_setField h offset (Int16.ofInt (distance (pos + 1) target))
    have hlen : (Layout.jumpOffset.encoded (offset (pos + 1) label)).length =
        (offsetBytes (distance (pos + 1) target)).length := by simp [offsetBytes]
    rw [hset, hnew, ← hb]
    rw [← hb] at hlen hold
    exact toList_overwrite (hc.trans hold) hlen
  · rename_i hr
    have hr : ¬ InReach (distance (pos + 1) target) := hr
    rw [hc]
    refine render_congr fun op' label' at' _ => (if_neg ?_).symm
    rintro ⟨hf, hd⟩
    rw [List.mem_singleton.1 hf] at hd
    exact hr hd

/-- Filling one field after the other. The induction is on the fields that are left. -/
theorem foldl_fill {ds : List Directive} {fields : List Nat} (target : Nat) (a : Assembler)
    {offset : Nat → Nat → Int16} (hc : a.code.toList = render offset 0 ds)
    (hf : ∀ field ∈ fields, ∃ op label pos, At ds (.jump op label) pos ∧ field = pos + 1) :
    let filledIn := fields.foldl (fun a field => a.fill field target) a
    filledIn.labels = a.labels ∧
      filledIn.code.toList = render (filled offset fields target) 0 ds ∧
      (filledIn.tooFar = none ↔
        a.tooFar = none ∧ ∀ field ∈ fields, InReach (distance field target)) := by
  induction fields generalizing a offset with
  | nil =>
    refine ⟨rfl, ?_, by simp⟩
    rw [List.foldl_nil, hc]
    exact render_congr fun op label pos _ => (if_neg (by simp)).symm
  | cons field fields ih =>
    obtain ⟨op, label, pos, hat, rfl⟩ := hf _ List.mem_cons_self
    have hstep := code_fill hc hat target
    obtain ⟨hlabels, hcode, hfar⟩ := ih _ hstep fun f hm => hf f (List.mem_cons_of_mem _ hm)
    refine ⟨?_, ?_, ?_⟩
    · rw [List.foldl_cons, hlabels, labels_fill]
    · rw [List.foldl_cons, hcode, filled_cons]
    · rw [List.foldl_cons, hfar, tooFar_fill, and_assoc]
      simp

/-! ### Putting a label -/

section Put

variable {ds : List Directive} {a b : Assembler} {label : Nat} {fields : List Nat}

/-- The offset fields of all jumps to a label. -/
def FieldsOf (ds : List Directive) (label : Nat) (fields : List Nat) : Prop :=
  ∀ field, field ∈ fields ↔ ∃ op pos, At ds (.jump op label) pos ∧ field = pos + 1

theorem Listed.fieldsOf (h : Listed ds a) (hnone : a.target? label = none) :
    FieldsOf ds label (a.waiting label).reverse := by
  intro field
  rw [List.mem_reverse, h.pending label field]
  exact and_iff_right hnone

theorem at_concat_bind_iff {op : Opcode} {l pos : Nat} :
    At (ds ++ [.bind label]) (.jump op l) pos ↔ At ds (.jump op l) pos :=
  at_concat_of_ne nofun

/-- A field of a jump to another label is none of the fields. -/
theorem FieldsOf.not_mem (hfields : FieldsOf ds label fields) {op : Opcode} {l pos : Nat}
    (hat : At ds (.jump op l) pos) (hl : l ≠ label) : pos + 1 ∉ fields := by
  intro hin
  obtain ⟨op', pos', hat', hpos⟩ := (hfields _).1 hin
  have hsame : pos = pos' := Nat.succ.inj hpos
  subst hsame
  have hd := hat.unique hat' (by simp) (by simp)
  cases hd
  exact hl rfl

variable (htarget : ∀ l, b.target? l = if l = label then some a.position else a.target? l)

include htarget

/-- The fields that waited now lead to the label, the others lead where they did. -/
theorem offsets_put (hnone : a.target? label = none) (hfields : FieldsOf ds label fields)
    {op : Opcode} {l pos : Nat} (hat : At ds (.jump op l) pos) :
    b.offsets (pos + 1) l = filled a.offsets fields a.position (pos + 1) l := by
  rw [offsets, htarget]
  by_cases hl : l = label
  · subst hl
    have hin : pos + 1 ∈ fields := (hfields _).2 ⟨op, pos, hat, rfl⟩
    have hzero : a.offsets (pos + 1) l = 0 := by rw [offsets, hnone, fieldOffset]
    simp only [filled, hin, true_and, hzero, if_pos, fieldOffset]
  · rw [if_neg hl]
    exact (if_neg fun hc => hfields.not_mem hat hl hc.1).symm

theorem Listed.bound_put (h : Listed ds a) (hnone : a.target? label = none) (l pos : Nat) :
    b.target? l = some pos ↔ At (ds ++ [.bind label]) (.bind l) pos := by
  rw [htarget, at_concat_iff]
  by_cases hl : l = label
  · subst hl
    have hno : ¬ At ds (.bind l) pos := by
      intro hat
      have hs := (h.bound l pos).2 hat
      rw [hnone] at hs
      cases hs
    rw [if_pos rfl, ← h.position]
    simp only [hno, false_or, true_and, Option.some.injEq]
    exact eq_comm
  · rw [if_neg hl, h.bound l pos]
    simp [hl]

theorem Listed.reach_put (h : Listed ds a) (hnone : a.target? label = none)
    (hfields : FieldsOf ds label fields) (hfar : b.tooFar = none ↔
      a.tooFar = none ∧ ∀ field ∈ fields, InReach (distance field a.position)) :
    b.tooFar = none ↔ AllInReach (ds ++ [.bind label]) b.target? := by
  rw [hfar, h.reach]
  simp only [AllInReach, at_concat_bind_iff, htarget]
  constructor
  · rintro ⟨hold, hnew⟩ op l pos target hat hs
    by_cases hl : l = label
    · subst hl
      rw [if_pos rfl] at hs
      cases hs
      exact hnew _ ((hfields _).2 ⟨op, pos, hat, rfl⟩)
    · rw [if_neg hl] at hs
      exact hold op l pos target hat hs
  · intro hall
    refine ⟨fun op l pos target hat hs => ?_, fun field hm => ?_⟩
    · have hl : l ≠ label := by
        rintro rfl
        rw [hnone] at hs
        cases hs
      exact hall op l pos target hat (by rw [if_neg hl, hs])
    · obtain ⟨op, pos, hat, rfl⟩ := (hfields field).1 hm
      exact hall op label pos a.position hat (if_pos rfl)

end Put

/-- A label without a position is put at the end, and all jumps that wait for it are filled in. -/
theorem Listed.bind {ds : List Directive} {a a' : Assembler} {label : Nat} (h : Listed ds a)
    (hf : a.bind? label = some a') : Listed (ds ++ [.bind label]) a' := by
  unfold bind? at hf
  split at hf
  · cases hf
  rename_i old hold
  split at hf
  · cases hf
  rename_i hposition
  cases hf
  have hnone : a.target? label = none := by rw [target?, state_of_some hold, hposition]
  have hfields : FieldsOf ds label old.pending.reverse := by
    have hwaiting := h.fieldsOf hnone
    rwa [waiting, state_of_some hold] at hwaiting
  obtain ⟨hlabels, hcode, hfar⟩ := foldl_fill a.position
    { a with labels := a.labels.setIfInBounds label { position := some a.position } } h.code
    fun field hm => by
      obtain ⟨op, pos, hat, hpos⟩ := (hfields field).1 hm
      exact ⟨op, label, pos, hat, hpos⟩
  generalize hb : old.pending.reverse.foldl (fun a' field => a'.fill field a.position)
    { a with labels := a.labels.setIfInBounds label { position := some a.position } } = b
    at hlabels hcode hfar ⊢
  have hstate := state_of_set hold hlabels
  have htarget : ∀ l, b.target? l = if l = label then some a.position else a.target? l := by
    intro l
    rw [target?, hstate]
    split <;> rfl
  refine ⟨?_, h.bound_put htarget hnone, fun l field => ?_, h.reach_put htarget hnone hfields hfar⟩
  · rw [render_append, render_singleton, Directive.encoded, List.append_nil, hcode]
    refine render_congr fun op l pos hat => ?_
    rw [Nat.zero_add]
    exact (offsets_put htarget hnone hfields hat).symm
  · -- Nothing waits for this label any more, and the others keep what waits for them.
    rw [htarget, waiting, hstate]
    by_cases hl : l = label
    · simp [hl]
    · simp only [if_neg hl, at_concat_bind_iff]
      exact h.pending l field

/-! ### Jumping to a label -/

section Jump

variable {ds : List Directive} {a b : Assembler} {op : Opcode} {label : Nat}

theorem at_concat_jump_iff {op' : Opcode} {l pos : Nat} :
    At (ds ++ [.jump op label]) (.jump op' l) pos ↔
      At ds (.jump op' l) pos ∨ (op' = op ∧ l = label ∧ pos = size ds) := by
  simp [at_concat_iff, and_assoc]

theorem allInReach_concat_jump {target? : Nat → Option Nat} :
    AllInReach (ds ++ [.jump op label]) target? ↔ AllInReach ds target? ∧
      ∀ target, target? label = some target → InReach (distance (size ds + 1) target) := by
  simp only [AllInReach, at_concat_jump_iff]
  constructor
  · intro hall
    exact ⟨fun op' l pos target hat => hall op' l pos target (.inl hat),
      fun target => hall op label (size ds) target (.inr ⟨rfl, rfl, rfl⟩)⟩
  · rintro ⟨hold, hnew⟩ op' l pos target (hat | ⟨rfl, rfl, rfl⟩) hs
    · exact hold op' l pos target hat hs
    · exact hnew target hs

/-- The code with a jump at the end, whose offset field is not filled yet. -/
theorem Listed.code_append_jump (h : Listed ds a) :
    (a.append (op.tag :: Layout.jumpOffset.encoded 0)).code.toList =
      render (setField a.offsets (size ds + 1) 0) 0 (ds ++ [.jump op label]) := by
  have hzero : setField a.offsets (size ds + 1) 0 (size ds + 1) label = 0 := if_pos rfl
  rw [toList_append, h.code, render_append, render_singleton, Nat.zero_add]
  simp only [Directive.encoded, hzero]
  refine congrArg (· ++ _) (render_congr fun op' l pos hat => (if_neg ?_).symm)
  have hle := hat.end_le
  rw [Directive.size_jump] at hle
  omega

/-- Filling the field of the last jump gives it the offset to its label. -/
theorem filled_setField {target : Nat} (ht : a.target? label = some target) {op' : Opcode}
    {l pos : Nat}
    (hat : At (ds ++ [.jump op label]) (.jump op' l) pos) :
    filled (setField a.offsets (size ds + 1) 0) [size ds + 1] target (pos + 1) l =
      a.offsets (pos + 1) l := by
  by_cases hf : pos + 1 = size ds + 1
  · have hpos : pos = size ds := Nat.succ.inj hf
    subst hpos
    have hlast : At (ds ++ [.jump op label]) (.jump op label) (size ds) :=
      at_concat_iff.2 (.inr ⟨rfl, rfl⟩)
    cases hat.unique hlast (by simp) (by simp)
    simp only [filled, setField, offsets, ht, fieldOffset, List.mem_singleton, true_and, if_true]
  · simp only [filled, setField, hf, List.mem_singleton, false_and, if_false]

/-- A jump at the end, to a label with a position. -/
theorem Listed.jumpBack {target : Nat} (h : Listed ds a) (ht : a.target? label = some target) :
    Listed (ds ++ [.jump op label])
      ((a.append (op.tag :: Layout.jumpOffset.encoded 0)).fill (a.position + 1) target) := by
  have hlast : At (ds ++ [.jump op label]) (.jump op label) (size ds) :=
    at_concat_iff.2 (.inr ⟨rfl, rfl⟩)
  have hcode := code_fill h.code_append_jump hlast target
  rw [← h.position] at hcode
  generalize hc : a.append (op.tag :: Layout.jumpOffset.encoded 0) = c at hcode ⊢
  have hstate : (c.fill (a.position + 1) target).state = a.state := by
    refine state_of_labels_eq ((labels_fill c (a.position + 1) target).trans ?_)
    rw [← hc]
    rfl
  have hfar : c.tooFar = a.tooFar := by
    rw [← hc]
    rfl
  have htarget : (c.fill (a.position + 1) target).target? = a.target? := by
    funext l
    rw [target?, hstate, target?]
  refine ⟨?_, h.bound_concat nofun (congrFun htarget), fun l field => ?_, ?_⟩
  · rw [hcode, offsets_congr (congrFun htarget), h.position]
    refine render_congr fun op' l pos hat => ?_
    rw [Nat.zero_add]
    exact filled_setField ht hat
  · rw [waiting, hstate, htarget]
    refine (h.pending l field).trans (and_congr_right fun hl => ?_)
    have hne : l ≠ label := by
      rintro rfl
      rw [ht] at hl
      cases hl
    simp only [at_concat_jump_iff, hne, false_and, and_false, or_false]
  · rw [tooFar_fill, hfar, htarget, allInReach_concat_jump, h.reach, h.position]
    simp only [ht, Option.some.injEq, forall_eq']

/-- A jump at the end, to a label without a position, which the jump then waits for. -/
theorem Listed.jumpAhead {old : Label} (h : Listed ds a) (hold : a.labels[label]? = some old)
    (hposition : old.position = none)
    (hcode : b.code = (a.append (op.tag :: Layout.jumpOffset.encoded 0)).code)
    (hlabels : b.labels =
      a.labels.setIfInBounds label { old with pending := (a.position + 1) :: old.pending })
    (hfar : b.tooFar = a.tooFar) : Listed (ds ++ [.jump op label]) b := by
  have hnone : a.target? label = none := by rw [target?, state_of_some hold, hposition]
  have hstate := state_of_set hold hlabels
  have htarget : b.target? = a.target? := by
    funext l
    rw [target?, hstate]
    split
    · rename_i hl
      rw [hl, hnone, hposition]
    · rfl
  refine ⟨?_, h.bound_concat nofun (congrFun htarget), fun l field => ?_, ?_⟩
  · have hzero : a.offsets (size ds + 1) label = 0 := by rw [offsets, hnone, fieldOffset]
    rw [hcode, toList_append, h.code, offsets_congr (congrFun htarget), render_append,
      render_singleton, Nat.zero_add]
    simp only [Directive.encoded, hzero]
  · rw [waiting, hstate, htarget]
    by_cases hl : l = label
    · subst hl
      have hp := h.pending l field
      rw [waiting, state_of_some hold] at hp
      simp only [if_true, List.mem_cons, hp, hnone, true_and, at_concat_jump_iff, h.position]
      constructor
      · rintro (rfl | ⟨op', pos, hat, rfl⟩)
        · exact ⟨op, size ds, .inr ⟨rfl, rfl⟩, rfl⟩
        · exact ⟨op', pos, .inl hat, rfl⟩
      · rintro ⟨op', pos, hat | ⟨-, rfl⟩, rfl⟩
        · exact .inr ⟨op', pos, hat, rfl⟩
        · exact .inl rfl
    · simp only [at_concat_jump_iff, hl, false_and, and_false, or_false]
      exact h.pending l field
  · rw [hfar, htarget, allInReach_concat_jump, h.reach]
    simp only [hnone, reduceCtorEq, false_implies, implies_true, and_true]

end Jump

theorem Listed.jump {ds : List Directive} {a a' : Assembler} {op : Opcode} {label : Nat}
    (h : Listed ds a) (hf : a.jump? op label = some a') : Listed (ds ++ [.jump op label]) a' := by
  unfold jump? at hf
  split at hf
  · cases hf
  rename_i old hold
  split at hf
  · cases hf
  rename_i a₁ hemit
  have ha₁ : a₁ = a.append (op.tag :: Layout.jumpOffset.encoded 0) := emit?_eq_some hemit
  subst ha₁
  dsimp only at hf
  split at hf
  · rename_i target hposition
    cases hf
    have ht : a.target? label = some target := by rw [target?, state_of_some hold, hposition]
    exact h.jumpBack ht
  · rename_i hposition
    cases hf
    exact h.jumpAhead hold hposition rfl (by rw [hposition]; rfl) rfl

theorem Listed.follow {ds : List Directive} {a a' : Assembler} {d : Directive} (h : Listed ds a)
    (hf : a.follow? d = some a') : Listed (ds ++ [d]) a' := by
  cases d with
  | newLabel => cases hf; exact h.newLabel
  | bind label => exact h.bind hf
  | jump op label => exact h.jump hf
  | _ =>
    rw [follow?_of_plain id hf (a.offsets (size ds + 1))]
    exact h.append id

end Assembler

end CellMachine
