import CellMachine.Proofs.Image.Grammar

/-!
# Round trips

Main statements: bytes are read as an image exactly if they are what is written of it, a program can
be written exactly if all its counts and lengths fit their fields, and a program that was written is
read back with the natives that the resolver finds.
-/

namespace CellMachine

namespace Image

/-! ### Whole images -/

namespace Reader

/-- The reader takes all the bytes there are, for the value `v` if `R v` holds of them. -/
def Exhausts {α : Type} (read : Reader α) (R : α → List UInt8 → Prop) : Prop :=
  ∀ (c : Cursor) (v : α), (∃ c', read c = .ok (v, c')) ↔ R v c.rest

namespace Exhausts

variable {α β : Type} {R R' : α → List UInt8 → Prop}

theorem congr {read : Reader α} (h : Exhausts read R) (hR : ∀ v b, R v b ↔ R' v b) :
    Exhausts read R' :=
  fun c v => (h c v).trans (hR v c.rest)

theorem bind {S : α → β → List UInt8 → Prop} {x : Reader α} {f : α → Reader β} (hx : Parses x R)
    (hf : ∀ a, Exhausts (f a) (S a)) :
    Exhausts (x >>= f) (fun v b => ∃ a b₁ b₂, R a b₁ ∧ S a v b₂ ∧ b = b₁ ++ b₂) := by
  intro c v
  simp only [run_eq_ok_iff]
  constructor
  · rintro ⟨c', a, d, hd, h⟩
    obtain ⟨b, hr, hrest, -⟩ := (hx c a d).1 hd
    exact ⟨a, b, d.rest, hr, (hf a d v).1 ⟨c', h⟩, hrest⟩
  · rintro ⟨a, b₁, b₂, hr, hs, hrest⟩
    have hd : x c = .ok (a, ⟨c.offset + b₁.length, b₂⟩) := (hx c a _).2 ⟨b₁, hr, hrest, rfl⟩
    obtain ⟨c', h⟩ := (hf a ⟨c.offset + b₁.length, b₂⟩ v).2 hs
    exact ⟨c', a, _, hd, h⟩

theorem finish_pure (a : α) :
    Exhausts (finish >>= fun _ => (pure a : Reader α)) (fun v b => v = a ∧ b = []) := by
  rintro ⟨offset, rest⟩ v
  cases rest with
  | nil =>
    constructor
    · rintro ⟨c', h⟩
      cases h
      exact ⟨rfl, rfl⟩
    · rintro ⟨rfl, -⟩
      exact ⟨⟨offset, []⟩, rfl⟩
  | cons b rest =>
    constructor
    · rintro ⟨c', h⟩
      cases h
    · rintro ⟨-, h⟩
      cases h

end Exhausts

/-- The functions of an image have the ids of their positions. -/
def Placed (image : Image) : Prop :=
  ∀ (i : Nat) (h : i < image.functions.toList.length),
    (image.functions.toList[i]).id = UInt16.ofNat i

theorem exhausts_image :
    Exhausts Reader.image (fun image b => Placed image ∧ image.write = .ok b) := by
  unfold Reader.image
  refine (Exhausts.bind parses_entry fun entry => .bind (parses_plainTable parses_constant)
    fun constants => .bind (parses_plainTable fun _ => parses_native) fun natives =>
      .bind (parses_table parses_function) fun functions => .finish_pure _).congr fun image b => ?_
  unfold Image.write
  simp only [bind_eq_ok_iff]
  constructor
  · rintro ⟨entry, _, _, rfl, ⟨constants, b₁, _, hc, ⟨natives, b₂, _, hn,
      ⟨functions, b₃, _, ⟨hids, hf⟩, ⟨rfl, rfl⟩, rfl⟩, rfl⟩, rfl⟩, rfl⟩
    refine ⟨hids, _, hc, _, hn, _, hf, ?_⟩
    simp only [List.append_nil, front, List.append_assoc]
    rfl
  · rintro ⟨hids, b₁, hc, b₂, hn, b₃, hf, hb⟩
    cases hb
    refine ⟨_, _, _, rfl, ⟨_, _, _, hc, ⟨_, _, _, hn,
      ⟨_, _, _, ⟨hids, hf⟩, ⟨rfl, rfl⟩, rfl⟩, rfl⟩, rfl⟩, ?_⟩
    simp only [List.append_nil, front, List.append_assoc]

end Reader

/-- Bytes are an image exactly if they are what is written of it. -/
theorem read_eq_ok_iff {bytes : List UInt8} {image : Image} :
    read bytes = .ok image ↔ Reader.Placed image ∧ image.write = .ok bytes := by
  refine Iff.trans ?_ (Reader.exhausts_image ⟨0, bytes⟩ image)
  unfold read
  cases Reader.image ⟨0, bytes⟩ with
  | error cause => simp
  | ok r =>
    obtain ⟨image', c'⟩ := r
    simp only [Except.ok.injEq, Prod.mk.injEq, exists_and_left, exists_eq', and_true]

/-! ### What can be written -/

/-- Succeeds if `P` holds, and is refused for a bound otherwise. -/
def SucceedsIff {α : Type} (P : Prop) : Except Cause α → Prop
  | .ok _ => P
  | .error cause => ¬ P ∧ cause.kind = .bounds

namespace SucceedsIff

variable {α β : Type} {P Q : Prop}

theorem congr {x : Except Cause α} (h : SucceedsIff P x) (hP : P ↔ Q) : SucceedsIff Q x := by
  cases x with
  | ok a => exact hP.1 h
  | error cause => exact ⟨fun hq => h.1 (hP.2 hq), h.2⟩

theorem bind {x : Except Cause α} {f : α → Except Cause β} (hx : SucceedsIff P x)
    (hf : ∀ a, SucceedsIff Q (f a)) : SucceedsIff (P ∧ Q) (x >>= f) := by
  cases x with
  | error cause => exact ⟨fun h => hx.1 h.1, hx.2⟩
  | ok a =>
    have hfa := hf a
    show SucceedsIff (P ∧ Q) (f a)
    cases hb : f a with
    | ok b =>
      rw [hb] at hfa
      exact ⟨hx, hfa⟩
    | error cause =>
      rw [hb] at hfa
      exact ⟨fun h => hfa.1 h.2, hfa.2⟩

theorem bind_pure {x : Except Cause α} (hx : SucceedsIff P x) (f : α → β) :
    SucceedsIff P (x >>= fun a => pure (f a)) := by
  cases x with
  | ok a => exact hx
  | error cause => exact hx

theorem mapM {P : α → Prop} {write : α → Except Cause β} (h : ∀ v, SucceedsIff (P v) (write v))
    (vs : List α) : SucceedsIff (∀ v ∈ vs, P v) (vs.mapM write) := by
  induction vs with
  | nil => exact fun v hv => (List.not_mem_nil hv).elim
  | cons v vs ih =>
    rw [List.mapM_cons]
    refine ((h v).bind fun b => ih.bind_pure fun bs => b :: bs).congr ?_
    exact List.forall_mem_cons.symm

theorem ok_iff {x : Except Cause α} (h : SucceedsIff P x) : P ↔ ∃ a, x = .ok a := by
  cases x with
  | ok a => exact ⟨fun _ => ⟨a, rfl⟩, fun _ => h⟩
  | error cause =>
    refine ⟨fun hp => (h.1 hp).elim, ?_⟩
    rintro ⟨a, ha⟩
    cases ha

theorem bounds {x : Except Cause α} (h : SucceedsIff P x) (hp : ¬ P) :
    ∃ cause, x = .error cause ∧ cause.kind = .bounds := by
  cases x with
  | ok a => exact (hp h).elim
  | error cause => exact ⟨cause, rfl, h.2⟩

end SucceedsIff

theorem writeField_succeeds (field : Field) (value : Nat) :
    SucceedsIff (value < field.limit) (writeField field value) := by
  unfold writeField
  split
  · assumption
  · rename_i h
    exact ⟨h, rfl⟩

theorem writeBlob_succeeds (field : Field) (bytes : List UInt8) :
    SucceedsIff (bytes.length < field.limit) (writeBlob field bytes) :=
  (writeField_succeeds field bytes.length).bind_pure _

theorem writeSignature_succeeds (s : Signature) :
    SucceedsIff (s.params.length < Field.parameterCount.limit) (writeSignature s) :=
  (writeField_succeeds .parameterCount s.params.length).bind_pure _

theorem writeTable_succeeds {α : Type} {P : α → Prop} {write : α → Except Cause (List UInt8)}
    (h : ∀ v, SucceedsIff (P v) (write v)) (field : Field) (vs : List α) :
    SucceedsIff (vs.length < field.limit ∧ ∀ v ∈ vs, P v) (writeTable field write vs) :=
  (writeField_succeeds field vs.length).bind fun count =>
    (SucceedsIff.mapM h vs).bind_pure fun parts => count ++ parts.flatten

/-- A name and a signature that fit their fields. -/
def HeadFits (name : String) (s : Signature) : Prop :=
  (utf8Bytes name).length < Field.nameLength.limit ∧ s.params.length < Field.parameterCount.limit

theorem writeNative_succeeds (d : Declaration) :
    SucceedsIff (HeadFits d.name d.signature) (writeNative d) :=
  (writeBlob_succeeds .nameLength (utf8Bytes d.name)).bind fun name =>
    (writeSignature_succeeds d.signature).bind_pure fun signature => name ++ signature

theorem writeFunction_succeeds (f : Function) :
    SucceedsIff (HeadFits f.name f.signature ∧ f.code.bytes.toList.length < Field.codeLength.limit)
      (writeFunction f) := by
  have hparts := (writeBlob_succeeds .nameLength (utf8Bytes f.name)).bind fun name =>
    (writeSignature_succeeds f.signature).bind fun signature =>
      (writeBlob_succeeds .codeLength f.code.bytes.toList).bind_pure fun code =>
        name ++ signature ++ littleEndian 2 f.locals.toNat ++ code
  exact hparts.congr and_assoc.symm

theorem write_succeeds (image : Image) :
    SucceedsIff
      ((image.constants.toList.length < Field.constantCount.limit ∧
          ∀ t ∈ image.constants.toList, t.bytes.length < Field.constantLength.limit) ∧
        (image.natives.toList.length < Field.nativeCount.limit ∧
          ∀ d ∈ image.natives.toList, HeadFits d.name d.signature) ∧
        image.functions.toList.length < Field.functionCount.limit ∧
          ∀ f ∈ image.functions.toList,
            HeadFits f.name f.signature ∧ f.code.bytes.toList.length < Field.codeLength.limit)
      image.write := by
  have hconstants := writeTable_succeeds (fun t => writeBlob_succeeds .constantLength t.bytes)
    .constantCount image.constants.toList
  have hnatives := writeTable_succeeds writeNative_succeeds .nativeCount image.natives.toList
  have hfunctions := writeTable_succeeds writeFunction_succeeds .functionCount image.functions.toList
  exact hconstants.bind fun constants => hnatives.bind fun natives =>
    hfunctions.bind_pure fun functions =>
      magic ++ version :: littleEndian 2 image.entry.toNat ++ constants ++ natives ++ functions

end Image

namespace Program

/-- All counts and lengths of the program fit their fields of an image. -/
structure Fits (p : Program) : Prop where
  constantCount : p.constants.size ≤ 4294967295
  constants : ∀ t ∈ p.constants, t.length ≤ 4294967295
  nativeCount : p.natives.size ≤ 65535
  natives : ∀ n ∈ p.natives, (utf8Bytes n.name).length ≤ 65535 ∧ n.signature.params.length ≤ 255
  functionCount : p.functions.size ≤ 65535
  functions : ∀ f ∈ p.functions, (utf8Bytes f.name).length ≤ 65535 ∧
    f.signature.params.length ≤ 255 ∧ f.code.size ≤ 4294967295

/-- A program can be written if it fits, and is refused for a bound otherwise. -/
theorem toBytes_succeeds (p : Program) : Image.SucceedsIff p.Fits p.toBytes := by
  have h1 : ∀ n, n < Image.Field.parameterCount.limit ↔ n ≤ 255 := fun n => Nat.lt_succ_iff
  have h2 : ∀ n, n < 65536 ↔ n ≤ 65535 := fun n => Nat.lt_succ_iff
  have h4 : ∀ n, n < 4294967296 ↔ n ≤ 4294967295 := fun n => Nat.lt_succ_iff
  refine (Image.write_succeeds p.image).congr ?_
  have hnatives : (∀ d ∈ p.image.natives.toList, Image.HeadFits d.name d.signature) ↔
      ∀ n ∈ p.natives, Image.HeadFits n.name n.signature := by
    simp only [image, Array.toList_map, List.forall_mem_map, Array.mem_toList_iff]
  have hcount : p.image.natives.toList.length = p.natives.size := by
    simp only [image, Array.length_toList, Array.size_map]
  rw [hnatives, hcount]
  simp only [image, Array.length_toList, Array.mem_toList_iff, Image.HeadFits, h1,
    show Image.Field.constantCount.limit = 4294967296 from rfl,
    show Image.Field.constantLength.limit = 4294967296 from rfl,
    show Image.Field.codeLength.limit = 4294967296 from rfl,
    show Image.Field.nativeCount.limit = 65536 from rfl,
    show Image.Field.nameLength.limit = 65536 from rfl,
    show Image.Field.functionCount.limit = 65536 from rfl, h2, h4, and_assoc]
  constructor
  · rintro ⟨hc, hcs, hn, hns, hf, hfs⟩
    exact ⟨hc, hcs, hn, hns, hf, hfs⟩
  · intro h
    exact ⟨h.constantCount, h.constants, h.nativeCount, h.natives, h.functionCount, h.functions⟩

/-! ### Writing and reading back -/

theorem misplaced?_eq_none {functions : List Function} {position : Nat}
    (h : ∀ (i : Nat) (hi : i < functions.length), functions[i].id.toNat = position + i) :
    misplaced? functions position = none := by
  induction functions generalizing position with
  | nil => rfl
  | cons f rest ih =>
    have hf : f.id.toNat = position := h 0 (Nat.succ_pos _)
    rw [misplaced?, if_pos hf]
    refine ih fun i hi => ?_
    have hnext := h (i + 1) (Nat.succ_lt_succ hi)
    rw [List.getElem_cons_succ] at hnext
    omega

/-- The parts of a program make a program, also with other natives. -/
theorem make_eq_ok (p : Program) {natives : Array Native} (h : natives.size ≤ idSpace) :
    make p.functions p.constants natives p.entry = .ok { p with natives, natives_fit := h } := by
  have hplaced : misplaced? p.functions.toList 0 = none := by
    refine misplaced?_eq_none fun i hi => ?_
    rw [Array.length_toList] at hi
    rw [Array.getElem_toList, p.id_eq_position i hi, Nat.zero_add]
  unfold make
  rw [dif_pos p.functions_fit, dif_pos h]
  split
  · rename_i f position hm
    rw [hplaced] at hm
    cases hm
  · rw [dif_pos p.entry_lt]

theorem placed_image (p : Program) : Image.Reader.Placed p.image := by
  intro i hi
  have hi' : i < p.functions.size := by simpa only [image, Array.length_toList] using hi
  have hid := p.id_eq_position i hi'
  show (p.functions.toList[i]).id = UInt16.ofNat i
  rw [Array.getElem_toList]
  calc p.functions[i].id = UInt16.ofNat p.functions[i].id.toNat := UInt16.ofNat_toNat.symm
    _ = UInt16.ofNat i := by rw [hid]

/-- The natives of the program with the code that a resolver finds for them. -/
def resolved (p : Program) (resolve : Resolver) : Array Native :=
  p.natives.map fun n => ⟨n.name, n.signature, resolve n.name n.signature⟩

/-- Decoding undoes encoding. A program can be written exactly if it fits an image, and is refused for
a bound otherwise; and the bytes of a program are read, with every resolver, as the program with the
natives that this resolver finds. -/
theorem ofBytes_toBytes (p : Program) :
    (p.Fits ↔ ∃ bytes, p.toBytes = .ok bytes) ∧
      (¬ p.Fits → ∃ cause, p.toBytes = .error cause ∧ cause.kind = .bounds) ∧
      ∀ bytes, p.toBytes = .ok bytes → ∀ resolve, ∃ q, Program.ofBytes resolve bytes = .ok q ∧
        q.entry = p.entry ∧ q.constants = p.constants ∧ q.functions = p.functions ∧
        q.natives = p.resolved resolve := by
  refine ⟨p.toBytes_succeeds.ok_iff, p.toBytes_succeeds.bounds, fun bytes hb resolve => ?_⟩
  have hread : Image.read bytes = .ok p.image := Image.read_eq_ok_iff.2 ⟨p.placed_image, hb⟩
  have hsize : (p.resolved resolve).size ≤ idSpace := by
    rw [resolved, Array.size_map]
    exact p.natives_fit
  have hnatives : p.image.natives.map
      (fun d => Native.mk d.name d.signature (resolve d.name d.signature)) = p.resolved resolve := by
    simp only [image, Array.map_map, resolved]
    rfl
  -- An image has no code of natives, so that only this is not what it was.
  refine ⟨{ p with natives := p.resolved resolve, natives_fit := hsize }, ?_, rfl, rfl, rfl, rfl⟩
  unfold Program.ofBytes
  rw [hread]
  show ofImage resolve p.image = _
  unfold ofImage
  dsimp only
  rw [hnatives]
  exact p.make_eq_ok hsize

/-- A program with something in each of its tables. -/
def smallest : Program where
  functions := #[⟨0, "main", ⟨.int, [.double]⟩, 1, ⟨#[Opcode.stop.tag]⟩⟩]
  constants := #[⟨[104, 105], by decide⟩]
  natives := #[⟨"id", ⟨.int, [.int]⟩, none⟩]
  entry := 0
  functions_fit := by decide
  natives_fit := by decide
  id_eq_position := by decide
  entry_lt := by decide

theorem ofBytes_toBytes_smallest : ∃ bytes q, smallest.toBytes = .ok bytes ∧
    Program.ofBytes .none bytes = .ok q ∧ q.functions = smallest.functions := by
  obtain ⟨hfits, -, hback⟩ := ofBytes_toBytes smallest
  have hmain : (utf8Bytes "main").length = 4 := by decide +kernel
  have hid : (utf8Bytes "id").length = 2 := by decide +kernel
  have h : smallest.Fits := by
    constructor <;> simp [smallest, hmain, hid, Text.length, Code.size]
  obtain ⟨bytes, hb⟩ := hfits.1 h
  obtain ⟨q, hq, -, -, hfunctions, -⟩ := hback bytes hb .none
  exact ⟨bytes, q, hb, hq, hfunctions⟩

end Program

end CellMachine
