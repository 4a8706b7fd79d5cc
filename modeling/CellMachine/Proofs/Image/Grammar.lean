import CellMachine.Image.Reader
import CellMachine.Image.Writer

/-!
# What readers accept

A reader is described by the bytes that it takes for each value. Main statement: every reader of a
part of an image takes for a value exactly the bytes that the writer of that part makes of it.
-/

namespace CellMachine

namespace Image

/-! ### Writers -/

theorem bind_eq_ok_iff {α β : Type} {x : Except Cause α} {f : α → Except Cause β} {b : β} :
    (x >>= f) = .ok b ↔ ∃ a, x = .ok a ∧ f a = .ok b := by
  cases x with
  | error cause =>
    constructor
    · intro h; cases h
    · rintro ⟨a, ha, -⟩
      cases ha
  | ok a =>
    constructor
    · exact fun h => ⟨a, rfl, h⟩
    · rintro ⟨a', ha, hb⟩
      cases ha
      exact hb

theorem writeField_eq_ok_iff {field : Field} {value : Nat} {b : List UInt8} :
    writeField field value = .ok b ↔ value < field.limit ∧ b = littleEndian field.width value := by
  unfold writeField
  split
  · rename_i h
    simp only [Except.ok.injEq, h, true_and]
    exact eq_comm
  · rename_i h
    simp only [reduceCtorEq, h, false_and]

theorem writeBlob_eq_ok_iff {field : Field} {bytes b : List UInt8} :
    writeBlob field bytes = .ok b ↔
      bytes.length < field.limit ∧ b = littleEndian field.width bytes.length ++ bytes := by
  unfold writeBlob
  rw [bind_eq_ok_iff]
  constructor
  · rintro ⟨length, hl, hb⟩
    obtain ⟨hlt, rfl⟩ := writeField_eq_ok_iff.1 hl
    cases hb
    exact ⟨hlt, rfl⟩
  · rintro ⟨hlt, rfl⟩
    exact ⟨_, writeField_eq_ok_iff.2 ⟨hlt, rfl⟩, rfl⟩

/-- Items one after the other from a position on, each with its bytes. -/
inductive ItemsAt {α : Type} (R : Nat → α → List UInt8 → Prop) : Nat → List α → List UInt8 → Prop
  | nil (pos : Nat) : ItemsAt R pos [] []
  | cons {pos : Nat} {v : α} {b : List UInt8} {vs : List α} {bs : List UInt8} (head : R pos v b)
    (tail : ItemsAt R (pos + 1) vs bs) : ItemsAt R pos (v :: vs) (b ++ bs)

/-- The items of a written table: each is written, and each fits its position. -/
theorem itemsAt_iff_mapM {α : Type} {Q : Nat → α → Prop} {write : α → Except Cause (List UInt8)}
    {pos : Nat} {vs : List α} {bs : List UInt8} :
    ItemsAt (fun pos v b => Q pos v ∧ write v = .ok b) pos vs bs ↔
      (∀ (i : Nat) (h : i < vs.length), Q (pos + i) vs[i]) ∧
        ∃ parts, vs.mapM write = .ok parts ∧ bs = parts.flatten := by
  constructor
  · intro h
    induction h with
    | nil pos => exact ⟨fun i hi => (Nat.not_lt_zero i hi).elim, [], rfl, rfl⟩
    | @cons pos v b vs bs head tail ih =>
      obtain ⟨hq, parts, hparts, rfl⟩ := ih
      refine ⟨fun i hi => ?_, b :: parts, ?_, rfl⟩
      · cases i with
        | zero => exact head.1
        | succ i =>
          have hrest := hq i (Nat.lt_of_succ_lt_succ hi)
          rw [show pos + 1 + i = pos + (i + 1) by omega] at hrest
          exact hrest
      · rw [List.mapM_cons, head.2, hparts]
        rfl
  · rintro ⟨hq, parts, hparts, rfl⟩
    induction vs generalizing pos parts with
    | nil =>
      cases hparts
      exact .nil pos
    | cons v vs ih =>
      rw [List.mapM_cons] at hparts
      obtain ⟨b, hb, hrest⟩ := bind_eq_ok_iff.1 hparts
      obtain ⟨parts', hparts', hpure⟩ := bind_eq_ok_iff.1 hrest
      cases hpure
      refine .cons ⟨hq 0 (Nat.succ_pos _), hb⟩ (ih (fun i hi => ?_) parts' hparts')
      have hnext := hq (i + 1) (Nat.succ_lt_succ hi)
      rw [show pos + (i + 1) = pos + 1 + i by omega] at hnext
      exact hnext

theorem writeTable_eq_ok_iff {α : Type} {field : Field} {write : α → Except Cause (List UInt8)}
    {vs : List α} {b : List UInt8} :
    writeTable field write vs = .ok b ↔ vs.length < field.limit ∧ ∃ parts, vs.mapM write = .ok parts ∧
      b = littleEndian field.width vs.length ++ parts.flatten := by
  unfold writeTable
  rw [bind_eq_ok_iff]
  constructor
  · rintro ⟨count, hc, hrest⟩
    obtain ⟨hlt, rfl⟩ := writeField_eq_ok_iff.1 hc
    obtain ⟨parts, hparts, hb⟩ := bind_eq_ok_iff.1 hrest
    cases hb
    exact ⟨hlt, parts, hparts, rfl⟩
  · rintro ⟨hlt, parts, hparts, rfl⟩
    exact ⟨_, writeField_eq_ok_iff.2 ⟨hlt, rfl⟩, bind_eq_ok_iff.2 ⟨parts, hparts, rfl⟩⟩

namespace Reader

/-! ### Readers in general -/

theorem run_eq_ok_iff {α β : Type} {x : Reader α} {f : α → Reader β} {c : Cursor} {r : β × Cursor} :
    (x >>= f) c = .ok r ↔ ∃ a d, x c = .ok (a, d) ∧ f a d = .ok r := by
  constructor
  · intro h
    cases hx : x c with
    | error cause =>
      simp only [Bind.bind, hx, reduceCtorEq] at h
    | ok y =>
      simp only [Bind.bind, hx] at h
      exact ⟨y.1, y.2, rfl, h⟩
  · rintro ⟨a, d, hx, h⟩
    simp only [Bind.bind, hx, h]

/-- The reader takes the bytes `b` for the value `v` if `R v b`, wherever they stand and whatever
follows them, and never does anything else. -/
def Parses {α : Type} (read : Reader α) (R : α → List UInt8 → Prop) : Prop :=
  ∀ (c : Cursor) (v : α) (c' : Cursor), read c = .ok (v, c') ↔
    ∃ b, R v b ∧ c.rest = b ++ c'.rest ∧ c'.offset = c.offset + b.length

namespace Parses

variable {α β : Type} {R R' : α → List UInt8 → Prop}

theorem congr {read : Reader α} (h : Parses read R) (hR : ∀ v b, R v b ↔ R' v b) :
    Parses read R' := by
  intro c v c'
  rw [h c v c']
  exact exists_congr fun b => and_congr_left fun _ => hR v b

theorem pure (a : α) : Parses (Pure.pure a : Reader α) (fun v b => v = a ∧ b = []) := by
  rintro ⟨offset, rest⟩ v ⟨offset', rest'⟩
  have hrun : (Pure.pure a : Reader α) ⟨offset, rest⟩ = .ok (a, ⟨offset, rest⟩) := rfl
  rw [hrun]
  constructor
  · intro h
    cases h
    exact ⟨[], ⟨rfl, rfl⟩, rfl, rfl⟩
  · rintro ⟨b, ⟨rfl, rfl⟩, hrest, hoffset⟩
    cases hrest
    cases hoffset
    rfl

theorem fail (cause : Cause) : Parses (Reader.fail cause : Reader α) (fun _ _ => False) := by
  intro c v c'
  constructor
  · intro h; cases h
  · rintro ⟨b, hno, -⟩
    exact hno.elim

theorem bind {S : α → β → List UInt8 → Prop} {x : Reader α} {f : α → Reader β} (hx : Parses x R)
    (hf : ∀ a, Parses (f a) (S a)) :
    Parses (x >>= f) (fun v b => ∃ a b₁ b₂, R a b₁ ∧ S a v b₂ ∧ b = b₁ ++ b₂) := by
  intro c v c'
  rw [run_eq_ok_iff]
  constructor
  · rintro ⟨a, d, hd, h⟩
    obtain ⟨b₁, hr, hrest₁, hoffset₁⟩ := (hx c a d).1 hd
    obtain ⟨b₂, hs, hrest₂, hoffset₂⟩ := (hf a d v c').1 h
    refine ⟨b₁ ++ b₂, ⟨a, b₁, b₂, hr, hs, rfl⟩, ?_, ?_⟩
    · rw [hrest₁, hrest₂, List.append_assoc]
    · rw [hoffset₂, hoffset₁, List.length_append, Nat.add_assoc]
  · rintro ⟨_, ⟨a, b₁, b₂, hr, hs, rfl⟩, hrest, hoffset⟩
    have hd : x c = .ok (a, ⟨c.offset + b₁.length, b₂ ++ c'.rest⟩) :=
      (hx c a _).2 ⟨b₁, hr, by rw [hrest, List.append_assoc], rfl⟩
    refine ⟨a, _, hd, (hf a _ v c').2 ⟨b₂, hs, rfl, ?_⟩⟩
    rw [hoffset, List.length_append, Nat.add_assoc]

theorem ite {P : Prop} [Decidable P] {read : Reader α} (h : Parses read R) (cause : Cause) :
    Parses (if P then read else Reader.fail cause) (fun v b => P ∧ R v b) := by
  by_cases hP : P
  · rw [if_pos hP]
    exact h.congr fun v b => (and_iff_right hP).symm
  · rw [if_neg hP]
    exact (fail cause).congr fun v b => by simp [hP]

/-- A value that is looked up or refused. -/
theorem ofOption {read : Reader α} {o : Option α} (hs : ∀ a, o = some a → read = Pure.pure a)
    (hn : o = none → ∃ cause, read = Reader.fail cause) :
    Parses read (fun v b => o = some v ∧ b = []) := by
  cases o with
  | some a =>
    rw [hs a rfl]
    refine (pure a).congr fun v b => ?_
    simp only [Option.some.injEq]
    exact and_congr_left fun _ => eq_comm
  | none =>
    obtain ⟨cause, hc⟩ := hn rfl
    rw [hc]
    exact (fail cause).congr fun v b => by simp

theorem ofExcept {ε : Type} {read : Reader α} {x : Except ε α}
    (ho : ∀ a, x = .ok a → read = Pure.pure a)
    (he : ∀ e, x = .error e → ∃ cause, read = Reader.fail cause) :
    Parses read (fun v b => x = .ok v ∧ b = []) := by
  cases x with
  | ok a =>
    rw [ho a rfl]
    refine (pure a).congr fun v b => ?_
    simp only [Except.ok.injEq]
    exact and_congr_left fun _ => eq_comm
  | error e =>
    obtain ⟨cause, hc⟩ := he e rfl
    rw [hc]
    exact (fail cause).congr fun v b => by simp

end Parses

/-! ### Numbers and blobs -/

theorem parses_take (n : Nat) : Parses (take n) (fun v b => v = b ∧ b.length = n) := by
  rintro ⟨offset, rest⟩ v ⟨offset', rest'⟩
  unfold take
  dsimp only
  constructor
  · intro h
    split at h
    · rename_i hl
      cases h
      exact ⟨rest.take n, ⟨rfl, hl⟩, (List.take_append_drop n rest).symm, by rw [hl]⟩
    · cases h
  · rintro ⟨b, ⟨rfl, rfl⟩, hrest, hoffset⟩
    subst hrest hoffset
    rw [List.take_left, List.drop_left, if_pos rfl]

theorem parses_nat (width : Nat) :
    Parses (nat width) (fun v b => v < Nat.pow 256 width ∧ b = littleEndian width v) := by
  refine ((parses_take width).bind fun bytes => .pure _).congr fun v b => ?_
  constructor
  · rintro ⟨bytes, b₁, b₂, ⟨rfl, rfl⟩, ⟨rfl, rfl⟩, rfl⟩
    exact ⟨ofLittleEndian_lt _, by rw [littleEndian_ofLittleEndian, List.append_nil]⟩
  · rintro ⟨hlt, rfl⟩
    refine ⟨_, _, [], ⟨rfl, length_littleEndian width v⟩, ⟨?_, rfl⟩, (List.append_nil _).symm⟩
    rw [ofLittleEndian_littleEndian, Nat.mod_eq_of_lt hlt]

theorem parses_blob (field : Field) :
    Parses (blob field) (fun v b => writeBlob field v = .ok b) := by
  refine ((parses_nat field.width).bind fun length => parses_take length).congr fun v b => ?_
  rw [writeBlob_eq_ok_iff]
  constructor
  · rintro ⟨length, b₁, b₂, ⟨hlt, rfl⟩, ⟨rfl, rfl⟩, rfl⟩
    exact ⟨hlt, rfl⟩
  · rintro ⟨hlt, rfl⟩
    exact ⟨_, _, _, ⟨hlt, rfl⟩, ⟨rfl, rfl⟩, rfl⟩

/-! ### Tables -/

theorem parses_items {α : Type} {item : Nat → Reader α} {R : Nat → α → List UInt8 → Prop}
    (h : ∀ pos, Parses (item pos) (R pos)) (count : Nat) (before : Array α) :
    Parses (items item count before) (fun v b => ∃ vs, v.toList = before.toList ++ vs ∧
      vs.length = count ∧ ItemsAt R before.size vs b) := by
  induction count generalizing before with
  | zero =>
    refine (Parses.pure before).congr fun v b => ?_
    constructor
    · rintro ⟨rfl, rfl⟩
      exact ⟨[], (List.append_nil _).symm, rfl, .nil _⟩
    · rintro ⟨vs, hv, hl, hitems⟩
      cases List.length_eq_zero_iff.1 hl
      cases hitems
      rw [List.append_nil] at hv
      exact ⟨Array.toList_inj.1 hv, rfl⟩
  | succ count ih =>
    have hstep := (h before.size).bind fun value => ih (before.push value)
    refine hstep.congr fun v b => ?_
    simp only [Array.size_push, Array.toList_push, List.append_assoc, List.singleton_append]
    constructor
    · rintro ⟨a, b₁, b₂, hr, ⟨vs, hv, hl, hitems⟩, rfl⟩
      exact ⟨a :: vs, hv, by rw [List.length_cons, hl], .cons hr hitems⟩
    · rintro ⟨vs, hv, hl, hitems⟩
      cases hitems with
      | nil => cases hl
      | cons head tail => exact ⟨_, _, _, head, ⟨_, hv, Nat.succ.inj hl, tail⟩, rfl⟩

/-- A table is read as it is written, if its items are. -/
theorem parses_table {α : Type} {field : Field} {item : Nat → Reader α}
    {write : α → Except Cause (List UInt8)} {Q : Nat → α → Prop}
    (h : ∀ pos, Parses (item pos) (fun v b => Q pos v ∧ write v = .ok b)) :
    Parses (table field item) (fun v b =>
      (∀ (i : Nat) (h : i < v.toList.length), Q i v.toList[i]) ∧
        writeTable field write v.toList = .ok b) := by
  refine ((parses_nat field.width).bind fun count => parses_items h count #[]).congr fun v b => ?_
  rw [writeTable_eq_ok_iff]
  have hitems : ∀ vs bs,
      ItemsAt (fun pos v b => Q pos v ∧ write v = .ok b) (#[] : Array α).size vs bs ↔
        (∀ (i : Nat) (h : i < vs.length), Q i vs[i]) ∧
          ∃ parts, vs.mapM write = .ok parts ∧ bs = parts.flatten := by
    intro vs bs
    have hzero := @itemsAt_iff_mapM α Q write 0 vs bs
    simpa only [Array.size_empty, Nat.zero_add] using hzero
  constructor
  · rintro ⟨count, b₁, b₂, ⟨hlt, rfl⟩, ⟨vs, hv, rfl, hat⟩, rfl⟩
    obtain ⟨hq, parts, hparts, rfl⟩ := (hitems vs b₂).1 hat
    rw [List.nil_append] at hv
    rw [hv]
    exact ⟨hq, hlt, parts, hparts, rfl⟩
  · rintro ⟨hq, hlt, parts, hparts, rfl⟩
    exact ⟨_, _, _, ⟨hlt, rfl⟩, ⟨v.toList, (List.nil_append _).symm, rfl,
      (hitems _ _).2 ⟨hq, parts, hparts, rfl⟩⟩, rfl⟩

/-- The same for items that are read alike at every position. -/
theorem parses_plainTable {α : Type} {field : Field} {item : Nat → Reader α}
    {write : α → Except Cause (List UInt8)}
    (h : ∀ pos, Parses (item pos) (fun v b => write v = .ok b)) :
    Parses (table field item) (fun v b => writeTable field write v.toList = .ok b) := by
  have hitem : ∀ pos, Parses (item pos) (fun v b => True ∧ write v = .ok b) :=
    fun pos => (h pos).congr fun v b => by rw [true_and]
  exact (parses_table hitem).congr fun v b => and_iff_right fun _ _ => trivial

/-! ### Parts of an image -/

theorem parses_type : Parses type (fun t b => b = [t.code]) := by
  unfold type
  refine ((parses_nat 1).bind fun code => .ofOption (o := TypeTag.ofCode? (UInt8.ofNat code))
    (fun t ht => by rw [ht]) fun hn => ⟨_, by rw [hn]⟩).congr fun t b => ?_
  constructor
  · rintro ⟨code, b₁, b₂, ⟨hlt, rfl⟩, ⟨ht, rfl⟩, rfl⟩
    rw [TypeTag.code_of_ofCode? ht]
    rfl
  · rintro rfl
    refine ⟨t.code.toNat, _, [], ⟨t.code.toNat_lt, rfl⟩, ⟨?_, rfl⟩, ?_⟩
    · rw [UInt8.ofNat_toNat, TypeTag.ofCode?_code]
    · simp [littleEndian]

theorem parses_name : Parses name (fun s b => writeName s = .ok b) := by
  unfold name
  refine ((parses_blob .nameLength).bind fun bytes => .ofExcept (x := Utf8.decode bytes)
    (fun s hs => by rw [hs]) fun fault he => ⟨_, by rw [he]⟩).congr fun s b => ?_
  constructor
  · rintro ⟨bytes, b₁, b₂, hb, ⟨hs, rfl⟩, rfl⟩
    rw [writeName, Utf8.utf8Bytes_of_decode hs, List.append_nil, hb]
  · intro h
    exact ⟨_, _, [], h, ⟨Utf8.decode_utf8Bytes s, rfl⟩, (List.append_nil b).symm⟩

theorem mapM_singleton {α β : Type} (code : α → β) (vs : List α) :
    vs.mapM (fun v => (.ok [code v] : Except Cause (List β))) = .ok (vs.map fun v => [code v]) := by
  induction vs with
  | nil => rfl
  | cons v vs ih =>
    rw [List.mapM_cons, ih]
    rfl

theorem parses_signature : Parses signature (fun s b => writeSignature s = .ok b) := by
  have htype : ∀ pos : Nat, Parses type (fun t b => (.ok [t.code] : Except Cause _) = .ok b) :=
    fun _ => parses_type.congr fun t b => by simp [eq_comm]
  refine (parses_type.bind fun result =>
    (parses_plainTable htype).bind fun params => .pure _).congr fun s b => ?_
  unfold writeSignature
  rw [bind_eq_ok_iff]
  constructor
  · rintro ⟨result, b₁, b₂, rfl, ⟨params, b₃, b₄, hp, ⟨rfl, rfl⟩, rfl⟩, rfl⟩
    obtain ⟨hlt, parts, hparts, rfl⟩ := writeTable_eq_ok_iff.1 hp
    rw [mapM_singleton] at hparts
    cases hparts
    refine ⟨_, writeField_eq_ok_iff.2 ⟨hlt, rfl⟩, ?_⟩
    rw [List.append_nil, ← List.flatMap_def, ← List.map_eq_flatMap]
    rfl
  · rintro ⟨count, hc, hb⟩
    cases hb
    obtain ⟨hlt, rfl⟩ := writeField_eq_ok_iff.1 hc
    have hp : writeTable .parameterCount (fun t => .ok [TypeTag.code t]) s.params =
        .ok (littleEndian Field.parameterCount.width s.params.length ++ s.params.map TypeTag.code) :=
      writeTable_eq_ok_iff.2 ⟨hlt, _, mapM_singleton _ _, by
        rw [← List.flatMap_def, ← List.map_eq_flatMap]⟩
    exact ⟨_, _, _, rfl, ⟨s.params.toArray, _, [], hp, ⟨rfl, rfl⟩,
      (List.append_nil _).symm⟩, rfl⟩

theorem parses_constant (pos : Nat) :
    Parses (constant pos) (fun t b => writeConstant t = .ok b) := by
  unfold constant
  refine ((parses_blob .constantLength).bind fun bytes => .ofExcept (x := Text.ofBytes bytes)
    (fun t ht => by rw [ht]) fun position he => ⟨_, by rw [he]⟩).congr fun t b => ?_
  constructor
  · rintro ⟨bytes, b₁, b₂, hb, ⟨ht, rfl⟩, rfl⟩
    rw [writeConstant, ← Text.ofBytes_eq_ok_iff.1 ht, List.append_nil, hb]
  · intro h
    exact ⟨_, _, [], h, ⟨Text.ofBytes_bytes t, rfl⟩, (List.append_nil b).symm⟩

theorem parses_native : Parses native (fun d b => writeNative d = .ok b) := by
  refine (parses_name.bind fun name => parses_signature.bind fun signature => .pure _).congr
    fun d b => ?_
  unfold writeNative
  simp only [bind_eq_ok_iff]
  constructor
  · rintro ⟨name, b₁, b₂, hn, ⟨signature, b₃, b₄, hs, ⟨rfl, rfl⟩, rfl⟩, rfl⟩
    exact ⟨_, hn, _, hs, by rw [List.append_nil]; rfl⟩
  · rintro ⟨b₁, hn, b₂, hs, hb⟩
    cases hb
    exact ⟨_, _, _, hn, ⟨_, _, [], hs, ⟨rfl, rfl⟩, (List.append_nil _).symm⟩, rfl⟩

/-- A function is read with the id of its position, whatever its id was. -/
theorem parses_function (pos : Nat) :
    Parses (function pos) (fun f b => f.id = UInt16.ofNat pos ∧ writeFunction f = .ok b) := by
  refine (parses_name.bind fun name => parses_signature.bind fun signature =>
    (parses_nat 2).bind fun locals => (parses_blob .codeLength).bind fun code => .pure _).congr
      fun f b => ?_
  unfold writeFunction
  simp only [bind_eq_ok_iff]
  constructor
  · rintro ⟨name, b₁, _, hn, ⟨signature, b₂, _, hs, ⟨locals, _, _, ⟨hlt, rfl⟩,
      ⟨code, b₃, _, hc, ⟨rfl, rfl⟩, rfl⟩, rfl⟩, rfl⟩, rfl⟩
    refine ⟨rfl, _, hn, _, hs, _, hc, ?_⟩
    have hl : (UInt16.ofNat locals).toNat = locals := UInt16.toNat_ofNat_of_lt' hlt
    simp only [hl, List.append_nil, List.append_assoc]
    rfl
  · rintro ⟨hid, b₁, hn, b₂, hs, b₃, hc, hb⟩
    cases hb
    have hlt : f.locals.toNat < Nat.pow 256 2 := f.locals.toNat_lt
    refine ⟨_, _, _, hn, ⟨_, _, _, hs, ⟨_, _, _, ⟨hlt, rfl⟩,
      ⟨_, _, _, hc, ⟨?_, rfl⟩, rfl⟩, rfl⟩, rfl⟩, ?_⟩
    · obtain ⟨id, name, signature, locals, ⟨bytes⟩⟩ := f
      obtain rfl : id = UInt16.ofNat pos := hid
      simp
    · simp only [List.append_nil, List.append_assoc]

/-- What every image starts with. -/
def front (entry : UInt16) : List UInt8 := magic ++ version :: littleEndian 2 entry.toNat

theorem parses_entry : Parses entry (fun id b => b = front id) := by
  have hid : Parses (nat 2 >>= fun n => Pure.pure (UInt16.ofNat n))
      (fun id b => b = littleEndian 2 id.toNat) := by
    refine ((parses_nat 2).bind fun n => .pure (UInt16.ofNat n)).congr fun id b => ?_
    constructor
    · rintro ⟨n, b₁, b₂, ⟨hlt, rfl⟩, ⟨rfl, rfl⟩, rfl⟩
      rw [UInt16.toNat_ofNat_of_lt' hlt, List.append_nil]
    · rintro rfl
      exact ⟨_, _, [], ⟨id.toNat_lt, rfl⟩, ⟨UInt16.ofNat_toNat.symm, rfl⟩, (List.append_nil _).symm⟩
  have hversion := (parses_nat 1).bind fun found =>
    hid.ite (P := UInt8.ofNat found = version) (.unsupportedVersion (UInt8.ofNat found))
  have hmagic := (parses_take magic.length).bind fun start =>
    hversion.ite (P := start = magic) .badMagic
  refine hmagic.congr fun id b => ?_
  constructor
  · rintro ⟨start, b₁, _, ⟨rfl, hl⟩, ⟨rfl, found, b₂, _, ⟨hlt, rfl⟩, ⟨hv, rfl⟩, rfl⟩, rfl⟩
    rw [front, ← hv]
    rfl
  · rintro rfl
    have hfound : UInt8.ofNat version.toNat = version := UInt8.ofNat_toNat
    exact ⟨magic, magic, _, ⟨rfl, rfl⟩, ⟨rfl, version.toNat, _, _, ⟨version.toNat_lt, rfl⟩,
      ⟨hfound, rfl⟩, rfl⟩, rfl⟩

end Reader

end Image

end CellMachine
