import CellMachine.Assembler

/-!
# Listings

What a list of directives writes, each directive at the position where those before it end. The
offsets of jumps to labels are a parameter: the offset of each jump can be changed by itself.
-/

namespace CellMachine

namespace Directive

/-- The bytes of a directive. A jump to a label has the offset that is given for the label. -/
def encoded (offset : Nat → Int16) : Directive → List UInt8
  | plain op => op.tag :: Layout.none.encoded ()
  | byte b => [b]
  | int n => (Opcode.literal .int).tag :: Layout.int.encoded n
  | double bits => (Opcode.literal .double).tag :: Layout.double.encoded bits
  | withId op id => op.tag :: Layout.id.encoded id
  | withContext op context slot => op.tag :: Layout.contextSlot.encoded (context, slot)
  | newLabel | bind _ => []
  | jump op label => op.tag :: Layout.jumpOffset.encoded (offset label)
  | jumpBy op given => op.tag :: Layout.jumpOffset.encoded given

def instruction? (offset : Nat → Int16) : Directive → Option Instruction
  | plain op => Instruction.make? op .none ()
  | int n => Instruction.make? (.literal .int) .int n
  | double bits => Instruction.make? (.literal .double) .double bits
  | withId op id => Instruction.make? op .id id
  | withContext op context slot => Instruction.make? op .contextSlot (context, slot)
  | jump op label => Instruction.make? op .jumpOffset (offset label)
  | jumpBy op given => Instruction.make? op .jumpOffset given
  | byte _ | newLabel | bind _ => none

theorem encoded_of_instruction? {offset : Nat → Int16} {d : Directive} {i : Instruction}
    (h : d.instruction? offset = some i) : d.encoded offset = i.encoded := by
  cases d with
  | byte b => cases h
  | newLabel => cases h
  | bind label => cases h
  | _ => exact (Instruction.encoded_of_make? h).symm

def size (d : Directive) : Nat := (d.encoded fun _ => 0).length

@[simp] theorem length_encoded (d : Directive) (offset : Nat → Int16) :
    (d.encoded offset).length = d.size := by
  cases d <;> simp [size, encoded]

@[simp] theorem size_jump (op : Opcode) (label : Nat) : (jump op label).size = 3 := by
  simp [size, encoded, Layout.width]

end Directive

namespace Listing

def size : List Directive → Nat
  | [] => 0
  | d :: ds => d.size + size ds

/-- The bytes of directives from `pos` on. `offset` gives the offset of a jump by its offset field and
its label. -/
def render (offset : Nat → Nat → Int16) : (pos : Nat) → List Directive → List UInt8
  | _, [] => []
  | pos, d :: ds => d.encoded (offset (pos + 1)) ++ render offset (pos + d.size) ds

@[simp] theorem size_nil : size [] = 0 := rfl

@[simp] theorem size_cons (d : Directive) (ds : List Directive) :
    size (d :: ds) = d.size + size ds := rfl

@[simp] theorem size_append (xs ys : List Directive) : size (xs ++ ys) = size xs + size ys := by
  induction xs with
  | nil => exact (Nat.zero_add _).symm
  | cons d xs ih => rw [List.cons_append, size_cons, size_cons, ih, Nat.add_assoc]

@[simp] theorem length_render (offset : Nat → Nat → Int16) (pos : Nat) (ds : List Directive) :
    (render offset pos ds).length = size ds := by
  induction ds generalizing pos with
  | nil => rfl
  | cons d ds ih => simp only [render, List.length_append, Directive.length_encoded, ih, size_cons]

theorem render_append (offset : Nat → Nat → Int16) (pos : Nat) (xs ys : List Directive) :
    render offset pos (xs ++ ys) = render offset pos xs ++ render offset (pos + size xs) ys := by
  induction xs generalizing pos with
  | nil => simp [render]
  | cons d xs ih =>
    simp only [List.cons_append, render, ih, size_cons, List.append_assoc, Nat.add_assoc]

theorem render_singleton (offset : Nat → Nat → Int16) (pos : Nat) (d : Directive) :
    render offset pos [d] = d.encoded (offset (pos + 1)) := by
  simp [render]

/-! ### Where a directive stands -/

/-- A directive of a list stands where the directives before it end. -/
def At (ds : List Directive) (d : Directive) (pos : Nat) : Prop :=
  ∃ before after, ds = before ++ d :: after ∧ size before = pos

theorem At.head (d : Directive) (ds : List Directive) : At (d :: ds) d 0 := ⟨[], ds, rfl, rfl⟩

theorem At.cons {ds : List Directive} {e : Directive} {pos : Nat} (h : At ds e pos) (d : Directive) :
    At (d :: ds) e (d.size + pos) := by
  obtain ⟨before, after, rfl, rfl⟩ := h
  exact ⟨d :: before, after, rfl, size_cons d before⟩

theorem At.append {ds : List Directive} {d : Directive} {pos : Nat} (h : At ds d pos)
    (es : List Directive) : At (ds ++ es) d pos := by
  obtain ⟨before, after, rfl, hpos⟩ := h
  exact ⟨before, after ++ es, by simp, hpos⟩

theorem At.mem {ds : List Directive} {d : Directive} {pos : Nat} (h : At ds d pos) : d ∈ ds := by
  obtain ⟨before, after, rfl, -⟩ := h
  exact List.mem_append_right _ List.mem_cons_self

theorem At.end_le {ds : List Directive} {d : Directive} {pos : Nat} (h : At ds d pos) :
    pos + d.size ≤ size ds := by
  obtain ⟨before, after, rfl, rfl⟩ := h
  simp only [size_append, size_cons]
  omega

theorem at_concat_iff {ds : List Directive} {d e : Directive} {pos : Nat} :
    At (ds ++ [e]) d pos ↔ At ds d pos ∨ (d = e ∧ pos = size ds) := by
  constructor
  · rintro ⟨before, after, h, rfl⟩
    rcases List.eq_nil_or_concat after with rfl | ⟨after', e', rfl⟩
    · obtain ⟨rfl, hlast⟩ := List.append_inj' h rfl
      cases hlast
      exact .inr ⟨rfl, rfl⟩
    · rw [List.concat_eq_append, ← List.cons_append, ← List.append_assoc] at h
      obtain ⟨rfl, -⟩ := List.append_inj' h rfl
      exact .inl ⟨before, after', rfl, rfl⟩
  · rintro (⟨before, after, rfl, rfl⟩ | ⟨rfl, rfl⟩)
    · exact ⟨before, after ++ [e], by simp, rfl⟩
    · exact ⟨ds, [], rfl, rfl⟩

theorem at_concat_of_ne {ds : List Directive} {d e : Directive} {pos : Nat} (h : d ≠ e) :
    At (ds ++ [e]) d pos ↔ At ds d pos :=
  at_concat_iff.trans (or_iff_left fun hlast => h hlast.1)

/-- Two directives with bytes do not stand at one position. -/
theorem At.unique {ds : List Directive} {d e : Directive} {pos : Nat} (hd : At ds d pos)
    (he : At ds e pos) (hds : 0 < d.size) (hes : 0 < e.size) : d = e := by
  obtain ⟨before, after, rfl, hpos⟩ := hd
  obtain ⟨before', after', h, rfl⟩ := he
  rcases List.append_eq_append_iff.1 h with ⟨c, hb, hc⟩ | ⟨c, hb, hc⟩
  · cases c with
    | nil => exact (List.cons.inj hc).1
    | cons x c =>
      obtain ⟨rfl, -⟩ := List.cons.inj hc
      simp only [hb, size_append, size_cons] at hpos
      omega
  · cases c with
    | nil => exact (List.cons.inj hc).1.symm
    | cons x c =>
      obtain ⟨rfl, -⟩ := List.cons.inj hc
      simp only [hb, size_append, size_cons] at hpos
      omega

/-! ### Changing offsets -/

/-- Only the offsets of the jumps that are there matter. -/
theorem render_congr {offset offset' : Nat → Nat → Int16} {pos : Nat} {ds : List Directive}
    (h : ∀ op label at', At ds (.jump op label) at' →
      offset (pos + at' + 1) label = offset' (pos + at' + 1) label) :
    render offset pos ds = render offset' pos ds := by
  induction ds generalizing pos with
  | nil => rfl
  | cons d ds ih =>
    have hrest : render offset (pos + d.size) ds = render offset' (pos + d.size) ds := by
      refine ih fun op label at' hat => ?_
      have hcons := h op label _ (hat.cons d)
      rwa [← Nat.add_assoc] at hcons
    have hhead : d.encoded (offset (pos + 1)) = d.encoded (offset' (pos + 1)) := by
      cases d with
      | jump op label => simp only [Directive.encoded, h op label 0 (.head _ _)]
      | _ => rfl
    rw [render, render, hhead, hrest]

theorem render_at {ds : List Directive} {d : Directive} {pos : Nat} (h : At ds d pos)
    (offset : Nat → Nat → Int16) :
    ∃ before after, before.length = pos ∧
      render offset 0 ds = before ++ (d.encoded (offset (pos + 1)) ++ after) := by
  obtain ⟨before, after, rfl, rfl⟩ := h
  refine ⟨render offset 0 before, render offset (size before + d.size) after, by simp, ?_⟩
  rw [render_append, render, Nat.zero_add]

/-- The offsets with another one in one field. -/
def setField (offset : Nat → Nat → Int16) (field : Nat) (x : Int16) : Nat → Nat → Int16 :=
  fun f label => if f = field then x else offset f label

/-- Another offset in the field of one jump changes the two bytes of that field. -/
theorem render_setField {ds : List Directive} {op : Opcode} {label pos : Nat}
    (h : At ds (.jump op label) pos) (offset : Nat → Nat → Int16) (x : Int16) :
    ∃ before after, before.length = pos + 1 ∧
      render offset 0 ds =
        before ++ (Layout.jumpOffset.encoded (offset (pos + 1) label) ++ after) ∧
      render (setField offset (pos + 1) x) 0 ds =
        before ++ (Layout.jumpOffset.encoded x ++ after) := by
  obtain ⟨before, after, rfl, rfl⟩ := h
  have hbefore : render (setField offset (size before + 1) x) 0 before = render offset 0 before := by
    refine render_congr fun op' label' at' hat => ?_
    have hle := hat.end_le
    rw [Directive.size_jump] at hle
    exact if_neg (by omega)
  have hafter : render (setField offset (size before + 1) x) (size before + 3) after =
      render offset (size before + 3) after :=
    render_congr fun op' label' at' hat => if_neg (by omega)
  have hx : setField offset (size before + 1) x (size before + 1) label = x := if_pos rfl
  refine ⟨render offset 0 before ++ [op.tag], render offset (size before + 3) after, by simp, ?_, ?_⟩
  · rw [render_append, render, Nat.zero_add, Directive.size_jump]
    simp only [Directive.encoded, List.append_assoc, List.cons_append, List.nil_append]
  · rw [render_append, render, Nat.zero_add, Directive.size_jump, hbefore, hafter]
    simp only [Directive.encoded, hx, List.append_assoc, List.cons_append, List.nil_append]

end Listing

end CellMachine
