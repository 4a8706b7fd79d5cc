import CellMachine.Proofs.Image.RoundTrip

/-!
# One image for each program

A program that was loaded keeps everything that was read of it. Main statement: bytes that load as a
program are the bytes that this program is written with, whatever natives the resolver found, and so
different bytes load as programs that differ in something an image keeps.
-/

namespace CellMachine

namespace Program

theorem parts_of_make {functions : Array Function} {constants : Array Text} {natives : Array Native}
    {entry : UInt16} {p : Program} (h : make functions constants natives entry = .ok p) :
    p.functions = functions ∧ p.constants = constants ∧ p.natives = natives ∧ p.entry = entry := by
  unfold make at h
  split at h
  · split at h
    · split at h
      · cases h
      · split at h
        · cases h
          exact ⟨rfl, rfl, rfl, rfl⟩
        · cases h
    · cases h
  · cases h

theorem image_of_ofImage {resolve : Resolver} {image : Image} {p : Program}
    (h : ofImage resolve image = .ok p) : p.image = image := by
  obtain ⟨hfunctions, hconstants, hnatives, hentry⟩ := parts_of_make h
  have hdeclared : p.natives.map (fun n => Declaration.mk n.name n.signature) = image.natives := by
    rw [hnatives, Array.map_map]
    exact Array.map_id image.natives
  unfold Program.image
  rw [hdeclared, hfunctions, hconstants, hentry]

theorem toBytes_of_ofBytes {resolve : Resolver} {bytes : List UInt8} {p : Program}
    (h : ofBytes resolve bytes = .ok p) : p.toBytes = .ok bytes := by
  obtain ⟨image, hread, hload⟩ := Image.bind_eq_ok_iff.1 h
  have hwrite : image.write = .ok bytes := (Image.read_eq_ok_iff.1 hread).2
  rw [toBytes, image_of_ofImage hload, hwrite]

/-- A resolver that finds the code that the natives have loads the program as it was written. -/
theorem ofBytes_of_toBytes {resolve : Resolver} {bytes : List UInt8} {p : Program}
    (h : p.toBytes = .ok bytes) (hresolved : p.resolved resolve = p.natives) :
    ofBytes resolve bytes = .ok p := by
  have hread : Image.read bytes = .ok p.image := Image.read_eq_ok_iff.2 ⟨p.placed_image, h⟩
  have hnatives : p.image.natives.map
      (fun d => Native.mk d.name d.signature (resolve d.name d.signature)) = p.natives := by
    rw [← hresolved, image, Array.map_map]
    rfl
  unfold ofBytes
  rw [hread]
  show ofImage resolve p.image = _
  unfold ofImage
  dsimp only
  rw [hnatives]
  exact p.make_eq_ok p.natives_fit

/-- A program that was loaded has for its natives what the resolver found. -/
theorem code_of_ofBytes {resolve : Resolver} {bytes : List UInt8} {p : Program} {id : UInt16}
    {n : Native} (h : ofBytes resolve bytes = .ok p) (hn : p.native id = .ok n) :
    n.code = resolve n.name n.signature := by
  obtain ⟨image, -, hload⟩ := Image.bind_eq_ok_iff.1 h
  obtain ⟨-, -, hnatives, -⟩ := parts_of_make hload
  unfold native at hn
  split at hn
  · rename_i n' hget
    cases hn
    rw [hnatives, Array.getElem?_map] at hget
    obtain ⟨d, -, rfl⟩ := Option.map_eq_some_iff.1 hget
    rfl
  · cases hn

theorem image_congr {p q : Program} (hentry : p.entry = q.entry)
    (hconstants : p.constants = q.constants) (hfunctions : p.functions = q.functions)
    (hnatives : p.natives.map (fun n => (n.name, n.signature)) =
      q.natives.map fun n => (n.name, n.signature)) : p.image = q.image := by
  have hdeclared := congrArg (Array.map fun d : String × Signature => Declaration.mk d.1 d.2) hnatives
  simp only [Array.map_map, Function.comp_def] at hdeclared
  unfold Program.image
  rw [hentry, hconstants, hfunctions, hdeclared]

/-- The encoding is canonical. Whatever bytes load as a program are written again byte for byte, with
every resolver; and bytes that load as programs with the same entry, constants and functions and with
natives of the same names and signatures are the same bytes. -/
theorem ofBytes_canonical :
    (∀ (resolve : Resolver) (bytes : List UInt8) (p : Program),
      ofBytes resolve bytes = .ok p → p.toBytes = .ok bytes) ∧
    ∀ (resolve resolve' : Resolver) (bytes bytes' : List UInt8) (p q : Program),
      ofBytes resolve bytes = .ok p → ofBytes resolve' bytes' = .ok q →
      p.entry = q.entry → p.constants = q.constants → p.functions = q.functions →
      p.natives.map (fun n => (n.name, n.signature)) =
        q.natives.map (fun n => (n.name, n.signature)) →
      bytes = bytes' := by
  refine ⟨fun resolve bytes p h => toBytes_of_ofBytes h, ?_⟩
  intro resolve resolve' bytes bytes' p q hp hq hentry hconstants hfunctions hnatives
  have himage : p.image = q.image := image_congr hentry hconstants hfunctions hnatives
  have hwrite : p.toBytes = q.toBytes := congrArg Image.write himage
  rw [toBytes_of_ofBytes hp, toBytes_of_ofBytes hq] at hwrite
  exact Except.ok.inj hwrite

/-- An image with a constant, a native without a name and a function that stops. -/
def loadable : List UInt8 :=
  Image.magic ++ [Image.version, 0, 0] ++
    [1, 0, 0, 0, 2, 0, 0, 0, 104, 105] ++
    [1, 0, 0, 0, 3, 1, 3] ++
    [1, 0, 0, 0, 1, 0, 7, 0, 1, 0, 0, 0, Opcode.stop.tag]

/-- Bytes of which something can be computed that needs the program are loaded as one. -/
theorem exists_ofBytes {α : Type} {resolve : Resolver} {bytes : List UInt8} {g : Program → α} {a : α}
    (h : (ofBytes resolve bytes).toOption.map g = some a) :
    ∃ p, ofBytes resolve bytes = .ok p ∧ g p = a := by
  cases hp : ofBytes resolve bytes with
  | error cause =>
    rw [hp] at h
    cases h
  | ok p =>
    rw [hp] at h
    exact ⟨p, rfl, Option.some.inj h⟩

theorem ofBytes_loadable {resolve : Resolver} {resolved : Array Bool}
    (h : (ofBytes resolve loadable).toOption.map (fun p => p.natives.map fun n => n.code.isSome) =
      some resolved) :
    ∃ p, ofBytes resolve loadable = .ok p ∧ p.natives.map (fun n => n.code.isSome) = resolved :=
  exists_ofBytes h

theorem ofBytes_canonical_loadable : ∃ p q,
    ofBytes .none loadable = .ok p ∧ ofBytes (fun _ _ => some fun _ => {}) loadable = .ok q ∧
      p.natives.map (fun n => n.code.isSome) ≠ q.natives.map (fun n => n.code.isSome) ∧
      p.toBytes = .ok loadable ∧ q.toBytes = .ok loadable := by
  obtain ⟨p, hp, hnone⟩ : ∃ p, ofBytes .none loadable = .ok p ∧
      p.natives.map (fun n => n.code.isSome) = #[false] := ofBytes_loadable (by decide +kernel)
  obtain ⟨q, hq, hsome⟩ : ∃ q, ofBytes (fun _ _ => some fun _ => {}) loadable = .ok q ∧
      q.natives.map (fun n => n.code.isSome) = #[true] := ofBytes_loadable (by decide +kernel)
  refine ⟨p, q, hp, hq, ?_, ofBytes_canonical.1 _ _ _ hp, ofBytes_canonical.1 _ _ _ hq⟩
  rw [hnone, hsome]
  decide

end Program

end CellMachine
