import CellMachine.Proofs.Image.Canonical

/-!
# Rejected images

Which bytes do not load as a program, and why. Main statement: what is wrong with bytes is a decoding
fault, unless they are a whole image that starts with a function it does not have; and bytes that are
a whole image stop being one as soon as some are cut off or added at the end.
-/

namespace CellMachine

namespace Image

namespace Reader

/-! ### Faults of readers -/

/-- Whatever makes the reader fail is a decoding fault. -/
def FailsDecoding {α : Type} (read : Reader α) : Prop :=
  ∀ c cause, read c = .error cause → cause.kind = .decode

namespace FailsDecoding

variable {α β : Type}

theorem pure (a : α) : FailsDecoding (Pure.pure a : Reader α) := nofun

theorem fail {cause : Cause} (h : cause.kind = .decode) :
    FailsDecoding (Reader.fail cause : Reader α) := by
  intro c cause' hc
  cases hc
  exact h

theorem bind {x : Reader α} {f : α → Reader β} (hx : FailsDecoding x)
    (hf : ∀ a, FailsDecoding (f a)) : FailsDecoding (x >>= f) := by
  intro c cause h
  cases hread : x c with
  | error cause' =>
    simp only [Bind.bind, hread] at h
    cases h
    exact hx c _ hread
  | ok r =>
    obtain ⟨a, d⟩ := r
    simp only [Bind.bind, hread] at h
    exact hf a d cause h

theorem take (n : Nat) : FailsDecoding (Reader.take n) := by
  intro c cause h
  unfold Reader.take at h
  dsimp only at h
  split at h
  · cases h
  · cases h
    rfl

theorem nat (width : Nat) : FailsDecoding (Reader.nat width) := (take width).bind fun _ => .pure _

theorem type : FailsDecoding Reader.type := by
  refine (nat 1).bind fun code => ?_
  cases TypeTag.ofCode? (UInt8.ofNat code) with
  | some t => exact .pure t
  | none => exact .fail rfl

theorem blob (field : Field) : FailsDecoding (Reader.blob field) :=
  (nat field.width).bind fun length => take length

theorem name : FailsDecoding Reader.name := by
  refine (blob .nameLength).bind fun bytes => ?_
  cases Utf8.decode bytes with
  | ok s => exact .pure s
  | error fault => exact .fail rfl

theorem items {item : Nat → Reader α} (h : ∀ pos, FailsDecoding (item pos)) (count : Nat)
    (before : Array α) : FailsDecoding (Reader.items item count before) := by
  induction count generalizing before with
  | zero => exact .pure before
  | succ count ih => exact (h before.size).bind fun value => ih (before.push value)

theorem table (field : Field) {item : Nat → Reader α} (h : ∀ pos, FailsDecoding (item pos)) :
    FailsDecoding (Reader.table field item) :=
  (nat field.width).bind fun count => items h count #[]

theorem signature : FailsDecoding Reader.signature :=
  type.bind fun _ => (table .parameterCount fun _ => type).bind fun _ => .pure _

theorem constant (position : Nat) : FailsDecoding (Reader.constant position) := by
  refine (blob .constantLength).bind fun bytes => ?_
  cases Text.ofBytes bytes with
  | ok text => exact .pure text
  | error _ => exact .fail rfl

theorem native : FailsDecoding Reader.native := name.bind fun _ => signature.bind fun _ => .pure _

theorem function (position : Nat) : FailsDecoding (Reader.function position) :=
  name.bind fun _ => signature.bind fun _ => (nat 2).bind fun _ => (blob .codeLength).bind fun _ =>
    .pure _

theorem entry : FailsDecoding Reader.entry := by
  refine (take magic.length).bind fun start => ?_
  split
  · refine (nat 1).bind fun found => ?_
    split
    · exact (nat 2).bind fun _ => .pure _
    · exact .fail rfl
  · exact .fail rfl

theorem finish : FailsDecoding Reader.finish := by
  intro c cause h
  unfold Reader.finish at h
  split at h
  · cases h
  · cases h
    rfl

theorem image : FailsDecoding Reader.image :=
  entry.bind fun _ => (table .constantCount constant).bind fun _ =>
    (table .nativeCount fun _ => native).bind fun _ =>
      (table .functionCount function).bind fun _ => finish.bind fun _ => .pure _

end FailsDecoding

end Reader

/-! ### Sections -/

open Reader

/-- The sections of an image stand at the front of `bytes`, each where the one before it ends, and
`rest` is what follows them. -/
def Sections (bytes : List UInt8) (image : Image) (rest : List UInt8) : Prop :=
  ∃ c₁ c₂ c₃ c₄ : Cursor,
    Reader.entry ⟨0, bytes⟩ = .ok (image.entry, c₁) ∧
    table .constantCount constant c₁ = .ok (image.constants, c₂) ∧
    table .nativeCount (fun _ => native) c₂ = .ok (image.natives, c₃) ∧
    table .functionCount function c₃ = .ok (image.functions, c₄) ∧ c₄.rest = rest

/-- What a reader takes does not depend on what follows it. -/
theorem Reader.Parses.append {α : Type} {read : Reader α} {R : α → List UInt8 → Prop}
    (h : Parses read R) {c c' : Cursor} {v : α} (hc : read c = .ok (v, c')) (more : List UInt8) :
    read ⟨c.offset, c.rest ++ more⟩ = .ok (v, ⟨c'.offset, c'.rest ++ more⟩) := by
  obtain ⟨b, hr, hrest, hoffset⟩ := (h c v c').1 hc
  exact (h _ v _).2 ⟨b, hr, by rw [hrest, List.append_assoc], hoffset⟩

namespace Sections

variable {bytes rest rest' : List UInt8} {image image' : Image}

theorem append (h : Sections bytes image rest) (more : List UInt8) :
    Sections (bytes ++ more) image (rest ++ more) := by
  obtain ⟨c₁, c₂, c₃, c₄, hentry, hconstants, hnatives, hfunctions, rfl⟩ := h
  exact ⟨_, _, _, _, parses_entry.append hentry more,
    (parses_plainTable parses_constant).append hconstants more,
    (parses_plainTable fun _ => parses_native).append hnatives more,
    (parses_table parses_function).append hfunctions more, rfl⟩

theorem rest_unique (h : Sections bytes image rest) (h' : Sections bytes image' rest') :
    rest = rest' := by
  obtain ⟨entry, constants, natives, functions⟩ := image
  obtain ⟨entry', constants', natives', functions'⟩ := image'
  obtain ⟨c₁, c₂, c₃, c₄, hentry, hconstants, hnatives, hfunctions, rfl⟩ := h
  obtain ⟨d₁, d₂, d₃, d₄, hentry', hconstants', hnatives', hfunctions', rfl⟩ := h'
  cases hentry.symm.trans hentry'
  cases hconstants.symm.trans hconstants'
  cases hnatives.symm.trans hnatives'
  cases hfunctions.symm.trans hfunctions'
  rfl

end Sections

theorem run_image_iff {bytes : List UInt8} {image : Image} :
    (∃ c, Reader.image ⟨0, bytes⟩ = .ok (image, c)) ↔ Sections bytes image [] := by
  unfold Reader.image Sections
  simp only [run_eq_ok_iff]
  constructor
  · rintro ⟨c, entry, c₁, hentry, constants, c₂, hconstants, natives, c₃, hnatives, functions, c₄,
      hfunctions, _, c₅, hfinish, himage⟩
    cases himage
    refine ⟨c₁, c₂, c₃, c₄, hentry, hconstants, hnatives, hfunctions, ?_⟩
    unfold finish at hfinish
    split at hfinish
    · assumption
    · cases hfinish
  · rintro ⟨c₁, c₂, c₃, c₄, hentry, hconstants, hnatives, hfunctions, hrest⟩
    exact ⟨c₄, _, c₁, hentry, _, c₂, hconstants, _, c₃, hnatives, _, c₄, hfunctions, (), c₄,
      if_pos hrest, rfl⟩

theorem read_eq_ok_iff_sections {bytes : List UInt8} {image : Image} :
    read bytes = .ok image ↔ Sections bytes image [] := by
  rw [← run_image_iff]
  unfold read
  cases Reader.image ⟨0, bytes⟩ with
  | error cause => simp
  | ok r =>
    obtain ⟨image', c⟩ := r
    simp

theorem kind_of_read_error {bytes : List UInt8} {cause : Cause} (h : read bytes = .error cause) :
    cause.kind = .decode := by
  unfold read at h
  split at h
  · cases h
  · rename_i hread
    cases h
    exact FailsDecoding.image _ _ hread

/-- Bytes behind an image are not part of one. -/
theorem read_append {bytes more : List UInt8} {image image' : Image} (h : read bytes = .ok image)
    (h' : read (bytes ++ more) = .ok image') : more = [] := by
  have hlonger := (read_eq_ok_iff_sections.1 h).append more
  exact hlonger.rest_unique (read_eq_ok_iff_sections.1 h')

/-- Of two images, neither starts with the other. -/
theorem eq_of_read {bytes other : List UInt8} {image image' : Image} (h : read bytes = .ok image)
    (h' : read other = .ok image') (hstart : other <+: bytes ∨ bytes <+: other) : other = bytes := by
  rcases hstart with ⟨more, rfl⟩ | ⟨more, rfl⟩
  · rw [read_append h' h, List.append_nil]
  · rw [read_append h h', List.append_nil]

end Image

namespace Program

open Image

/-- The bytes do not load as a program, for a fault of this kind. -/
def Rejected (kind : FaultKind) (resolve : Resolver) (bytes : List UInt8) : Prop :=
  ∃ cause, ofBytes resolve bytes = .error cause ∧ cause.kind = kind

/-- Of the parts of a program, an image can only get the entry wrong. Its counts have fields that are
no wider than ids, and its functions have the ids of their positions. -/
theorem ofImage_of_read {bytes : List UInt8} {image : Image} (h : read bytes = .ok image)
    (resolve : Resolver) :
    (image.entry.toNat < image.functions.size → ∃ p, ofImage resolve image = .ok p) ∧
      (image.functions.size ≤ image.entry.toNat →
        ofImage resolve image = .error (.undefinedEntry image.entry image.functions.size)) := by
  obtain ⟨hplaced, hwrite⟩ := read_eq_ok_iff.1 h
  obtain ⟨-, ⟨hnatives, -⟩, hfunctions, -⟩ := (write_succeeds image).ok_iff.2 ⟨bytes, hwrite⟩
  have hnatives : image.natives.size < 65536 := hnatives
  have hfunctions : image.functions.size < 65536 := hfunctions
  have hids : misplaced? image.functions.toList 0 = none := by
    refine misplaced?_eq_none fun i hi => ?_
    rw [hplaced i hi, Nat.zero_add]
    rw [Array.length_toList] at hi
    exact UInt16.toNat_ofNat_of_lt' (Nat.lt_trans hi hfunctions)
  have hfit : image.functions.size ≤ idSpace := Nat.le_of_lt hfunctions
  have hfit' : (image.natives.map fun d =>
      Native.mk d.name d.signature (resolve d.name d.signature)).size ≤ idSpace := by
    rw [Array.size_map]
    exact Nat.le_of_lt hnatives
  unfold ofImage make
  dsimp only
  rw [dif_pos hfit, dif_pos hfit']
  split
  · rename_i hmisplaced
    cases hids.symm.trans hmisplaced
  · refine ⟨fun hlt => ?_, fun hle => ?_⟩
    · rw [dif_pos hlt]
      exact ⟨_, rfl⟩
    · rw [dif_neg (Nat.not_lt.2 hle)]

theorem ofBytes_of_read {bytes : List UInt8} {image : Image} (h : read bytes = .ok image)
    (resolve : Resolver) : ofBytes resolve bytes = ofImage resolve image := by
  unfold ofBytes
  rw [h]
  rfl

theorem ofBytes_of_unreadable {bytes : List UInt8} {cause : Cause} (h : read bytes = .error cause)
    (resolve : Resolver) : ofBytes resolve bytes = .error cause := by
  unfold ofBytes
  rw [h]
  rfl

/-- What becomes of bytes that are to be loaded. -/
inductive Loading (bytes : List UInt8) : Except Cause Program → Prop
  | unreadable {cause : Cause} (kind : cause.kind = .decode)
    (unread : ¬ ∃ image, Sections bytes image []) : Loading bytes (.error cause)
  | noEntry {image : Image} (whole : Sections bytes image [])
    (entry : image.functions.size ≤ image.entry.toNat) :
    Loading bytes (.error (.undefinedEntry image.entry image.functions.size))
  | loaded {image : Image} {p : Program} (whole : Sections bytes image [])
    (entry : image.entry.toNat < image.functions.size) : Loading bytes (.ok p)

theorem loading_ofBytes (resolve : Resolver) (bytes : List UInt8) :
    Loading bytes (ofBytes resolve bytes) := by
  cases hread : read bytes with
  | error cause =>
    rw [ofBytes_of_unreadable hread]
    refine .unreadable (kind_of_read_error hread) ?_
    rintro ⟨image, hsections⟩
    cases hread.symm.trans (read_eq_ok_iff_sections.2 hsections)
  | ok image =>
    have hsections := read_eq_ok_iff_sections.1 hread
    obtain ⟨hload, hentry⟩ := ofImage_of_read hread resolve
    rw [ofBytes_of_read hread]
    rcases Nat.lt_or_ge image.entry.toNat image.functions.size with hlt | hge
    · obtain ⟨p, hp⟩ := hload hlt
      rw [hp]
      exact .loaded hsections hlt
    · rw [hentry hge]
      exact .noEntry hsections hge

/-- Whether bytes are rejected for how they are encoded does not depend on the resolver. -/
theorem rejected_decode_iff {resolve : Resolver} {bytes : List UInt8} :
    Rejected .decode resolve bytes ↔ ¬ ∃ image, Sections bytes image [] := by
  have hloading := loading_ofBytes resolve bytes
  unfold Rejected
  generalize ofBytes resolve bytes = loaded at hloading
  cases hloading with
  | unreadable kind unread => exact ⟨fun _ => unread, fun _ => ⟨_, rfl, kind⟩⟩
  | noEntry whole entry =>
    refine ⟨?_, fun hno => (hno ⟨_, whole⟩).elim⟩
    rintro ⟨cause, hcause, hkind⟩
    cases hcause
    cases hkind
  | loaded whole entry =>
    refine ⟨?_, fun hno => (hno ⟨_, whole⟩).elim⟩
    rintro ⟨cause, hcause, -⟩
    cases hcause

/-- Of bytes that are not rejected for how they are encoded, none start with others. -/
theorem eq_of_kept {resolve resolve' : Resolver} {bytes other : List UInt8}
    (h : ¬ Rejected .decode resolve bytes) (h' : ¬ Rejected .decode resolve' other)
    (hstart : other <+: bytes ∨ bytes <+: other) : other = bytes := by
  rw [rejected_decode_iff] at h h'
  obtain ⟨image, hread⟩ := Classical.not_not.1 h
  obtain ⟨image', hread'⟩ := Classical.not_not.1 h'
  exact eq_of_read (read_eq_ok_iff_sections.2 hread) (read_eq_ok_iff_sections.2 hread') hstart

theorem rejected_bounds_iff {resolve : Resolver} {bytes : List UInt8} :
    Rejected .bounds resolve bytes ↔
      ∃ image, Sections bytes image [] ∧ image.functions.size ≤ image.entry.toNat := by
  have hloading := loading_ofBytes resolve bytes
  unfold Rejected
  generalize ofBytes resolve bytes = loaded at hloading
  cases hloading with
  | unreadable kind unread =>
    refine ⟨?_, fun ⟨image, whole, _⟩ => (unread ⟨image, whole⟩).elim⟩
    rintro ⟨cause, hcause, hkind⟩
    cases hcause
    cases hkind.symm.trans kind
  | noEntry whole entry => exact ⟨fun _ => ⟨_, whole, entry⟩, fun _ => ⟨_, rfl, rfl⟩⟩
  | loaded whole entry =>
    constructor
    · rintro ⟨cause, hcause, -⟩
      cases hcause
    · rintro ⟨image', whole', entry'⟩
      cases (read_eq_ok_iff_sections.2 whole).symm.trans (read_eq_ok_iff_sections.2 whole')
      exact (Nat.not_lt.2 entry' entry).elim

/-- Rejections are of two kinds. Bytes are rejected for a bound exactly if they are the sections of an
image up to the last byte and the entry is none of its functions, and it is always the entry that is
reported. And images are prefix-free: bytes that are not rejected for how they are encoded have no
proper prefix and no proper extension that is not, whatever natives a resolver finds. -/
theorem ofBytes_rejections (resolve : Resolver) (bytes : List UInt8) :
    ((∃ p, ofBytes resolve bytes = .ok p) ∨ Rejected .decode resolve bytes ∨
        Rejected .bounds resolve bytes) ∧
      (Rejected .bounds resolve bytes ↔
        ∃ image, Sections bytes image [] ∧ image.functions.size ≤ image.entry.toNat) ∧
      (∀ cause, ofBytes resolve bytes = .error cause → cause.kind = .bounds →
        ∃ id functions, cause = .undefinedEntry id functions) ∧
      (¬ Rejected .decode resolve bytes → ∀ (resolve' : Resolver) (other : List UInt8),
        other ≠ bytes → other <+: bytes ∨ bytes <+: other → Rejected .decode resolve' other) := by
  refine ⟨?_, rejected_bounds_iff, ?_, ?_⟩
  · have hloading := loading_ofBytes resolve bytes
    unfold Rejected
    generalize ofBytes resolve bytes = loaded at hloading
    cases hloading with
    | unreadable kind unread => exact .inr (.inl ⟨_, rfl, kind⟩)
    | noEntry whole entry => exact .inr (.inr ⟨_, rfl, rfl⟩)
    | loaded whole entry => exact .inl ⟨_, rfl⟩
  · intro cause hcause hkind
    have hloading := loading_ofBytes resolve bytes
    rw [hcause] at hloading
    cases hloading with
    | unreadable kind unread => cases hkind.symm.trans kind
    | noEntry whole entry => exact ⟨_, _, rfl⟩
  · intro hkept resolve' other hne hstart
    exact Classical.byContradiction fun hkept' => hne (eq_of_kept hkept hkept' hstart)

/-- An image without constants, natives and functions. -/
def withoutFunctions : List UInt8 :=
  magic ++ [version, 0, 0] ++ [0, 0, 0, 0] ++ [0, 0] ++ [0, 0]

theorem ofBytes_rejections_withoutFunctions :
    Rejected .bounds .none withoutFunctions ∧ ¬ Rejected .decode .none withoutFunctions ∧
      Rejected .decode .none withoutFunctions.dropLast ∧
      Rejected .decode .none (withoutFunctions ++ [0]) := by
  have hread : read withoutFunctions = .ok ⟨0, #[], #[], #[]⟩ := rfl
  have hbounds : ofBytes .none withoutFunctions = .error (.undefinedEntry 0 0) :=
    (ofBytes_of_read hread .none).trans ((ofImage_of_read hread .none).2 (Nat.le_refl 0))
  have hkept : ¬ Rejected .decode .none withoutFunctions := by
    rintro ⟨cause, hcause, hkind⟩
    cases hbounds.symm.trans hcause
    cases hkind
  obtain ⟨-, -, -, hprefixFree⟩ := ofBytes_rejections .none withoutFunctions
  exact ⟨⟨_, hbounds, rfl⟩, hkept,
    hprefixFree hkept .none _ (by decide) (.inl (List.dropLast_prefix _)),
    hprefixFree hkept .none _ (by decide) (.inr (List.prefix_append _ _))⟩

end Program

end CellMachine
