import CellMachine.Draft
import CellMachine.Proofs.Image.Canonical

/-!
# Ids of a draft

What a program owes the calls it was drafted by. Ids wrap around at 2^16, so while a draft grows too
large two of its functions can have one id; only a draft that can be built is known to have kept them
apart. Main statement: a draft can be built exactly if its functions and natives fit the ids and its
entry is one of them, and then every id that was handed out finds what it was handed out for; calls
that fail change nothing.
-/

namespace CellMachine

/-- The function with another body, if there is one. -/
def Function.withBody (f : Function) : Option (UInt16 × Code) → Function
  | none => f
  | some (locals, code) => { f with locals, code }

@[simp] theorem Function.id_withBody (f : Function) (body : Option (UInt16 × Code)) :
    (f.withBody body).id = f.id := by
  cases body <;> rfl

theorem Function.withBody_withBody (f : Function) (body : Option (UInt16 × Code)) (locals : UInt16)
    (code : Code) :
    { f.withBody body with locals, code } = f.withBody (some (locals, code)) := by
  cases body <;> rfl

namespace Draft

/-! ### Calls and replies -/

/-- A call on a draft. -/
inductive Edit where
  | addConstant (value : String)
  | addFunction (name : String) (signature : Signature) (locals : UInt16) (code : Code)
  | declareFunction (name : String) (signature : Signature)
  | defineFunction (id : UInt16) (locals : UInt16) (code : Code)
  | addNative (native : Native)

/-- The reply to a call, which is an id unless a body was given, and the draft it leaves. -/
def perform (d : Draft) : Edit → Except Cause (Option UInt16) × Draft
  | .addConstant value =>
    match d.addConstant value with
    | .ok (id, d') => (.ok (some id), d')
    | .error cause => (.error cause, d)
  | .addFunction name signature locals code =>
    let (id, d') := d.addFunction name signature locals code
    (.ok (some id), d')
  | .declareFunction name signature =>
    let (id, d') := d.declareFunction name signature
    (.ok (some id), d')
  | .defineFunction id locals code =>
    match d.defineFunction id locals code with
    | .ok d' => (.ok none, d')
    | .error cause => (.error cause, d)
  | .addNative native =>
    let (id, d') := d.addNative native
    (.ok (some id), d')

/-- The function that a call makes under the id. -/
def Edit.function? (id : UInt16) : Edit → Option Function
  | .addFunction name signature locals code => some { id, name, signature, locals, code }
  | .declareFunction name signature => some { id, name, signature, locals := 0, code := .empty }
  | _ => none

def Edit.addsFunction : Edit → Bool
  | .addFunction .. | .declareFunction .. => true
  | _ => false

def Edit.addsNative : Edit → Bool
  | .addNative _ => true
  | _ => false

/-- A call that was made. -/
structure Entry where
  edit : Edit
  reply : Except Cause (Option UInt16)

namespace Entry

/-- The function that was made, under the id of the reply. -/
def function? (e : Entry) : Option Function :=
  match e.reply with
  | .ok (some id) => e.edit.function? id
  | _ => none

/-- The native that was added, with the id of the reply. -/
def native? : Entry → Option (UInt16 × Native)
  | ⟨.addNative native, .ok (some id)⟩ => some (id, native)
  | _ => none

/-- The body that the function with the id was given. -/
def body? (id : UInt16) : Entry → Option (UInt16 × Code)
  | ⟨.defineFunction defined locals code, .ok _⟩ => if defined = id then some (locals, code) else none
  | _ => none

end Entry

/-- The functions that were made, in order. -/
def made (log : List Entry) : List Function := log.filterMap Entry.function?

/-- The natives that were added, in order. -/
def added (log : List Entry) : List (UInt16 × Native) := log.filterMap Entry.native?

/-- The body that the function with the id was given last. -/
def lastBody? (log : List Entry) (id : UInt16) : Option (UInt16 × Code) :=
  log.reverse.findSome? (Entry.body? id)

/-- A draft with the calls that led to it. -/
structure Drafting where
  log : List Entry := []
  draft : Draft := empty

def Drafting.step (s : Drafting) (e : Edit) : Drafting :=
  let (reply, draft) := s.draft.perform e
  { log := s.log ++ [⟨e, reply⟩], draft }

def drafted (edits : List Edit) : Drafting := edits.foldl Drafting.step {}

/-! ### What a call does -/

/-- The ways in which a call fails. -/
inductive Refused (d : Draft) : Edit → Cause → Prop where
  | nul (value : String) : '\x00' ∈ value.toList →
      Refused d (.addConstant value) (.constantNul value)
  | full (value : String) : '\x00' ∉ value.toList →
      (∀ t ∈ d.constants, t.bytes ≠ utf8Bytes value) → idSpace ≤ d.constants.size →
      Refused d (.addConstant value) .constantPoolFull
  | undeclared (id locals : UInt16) (code : Code) : d.functions.size ≤ id.toNat →
      Refused d (.defineFunction id locals code) (.undeclaredFunction id)

/-- What calls do to a draft. -/
inductive Change (d : Draft) : Entry → Draft → Prop where
  | shared (value : String) (k : Nat) (t : Text) : d.constants[k]? = some t →
      t.bytes = utf8Bytes value → Change d ⟨.addConstant value, .ok (some (.ofNat k))⟩ d
  | constant (value : String) (t : Text) : t.bytes = utf8Bytes value → t ∉ d.constants →
      d.constants.size < idSpace →
      Change d ⟨.addConstant value, .ok (some (.ofNat d.constants.size))⟩
        { d with constants := d.constants.push t }
  | function (e : Edit) (f : Function) : e.function? (.ofNat d.functions.size) = some f →
      Change d ⟨e, .ok (some f.id)⟩ { d with functions := d.functions.push f }
  | body (f : Function) (id locals : UInt16) (code : Code) : d.functions[id.toNat]? = some f →
      Change d ⟨.defineFunction id locals code, .ok none⟩
        { d with functions := d.functions.setIfInBounds id.toNat { f with locals, code } }
  | native (n : Native) :
      Change d ⟨.addNative n, .ok (some (.ofNat d.natives.size))⟩
        { d with natives := d.natives.push n }
  | refused (e : Edit) (cause : Cause) : Refused d e cause → Change d ⟨e, .error cause⟩ d

theorem change_addConstant (d : Draft) (value : String) :
    Change d ⟨.addConstant value, (d.perform (.addConstant value)).1⟩
      (d.perform (.addConstant value)).2 := by
  simp only [perform, addConstant]
  cases htext : Text.ofBytes (utf8Bytes value) with
  | error position =>
    exact .refused _ _ (.nul value (zero_mem_utf8Bytes.1 (Text.ofBytes_eq_error_iff.1 htext).1))
  | ok t =>
    have hbytes : utf8Bytes value = t.bytes := Text.ofBytes_eq_ok_iff.1 htext
    dsimp only
    cases hfind : d.constants.findIdx? (fun u => u.bytes == t.bytes) with
    | some k =>
      obtain ⟨hk, hsame, -⟩ := Array.findIdx?_eq_some_iff_getElem.1 hfind
      exact .shared value k _ (Array.getElem?_eq_getElem hk) ((eq_of_beq hsame).trans hbytes.symm)
    | none =>
      have hnew : ∀ u ∈ d.constants, u.bytes ≠ t.bytes := by
        simpa using Array.findIdx?_eq_none_iff.1 hfind
      by_cases hsize : d.constants.size < idSpace
      · simp only [if_pos hsize]
        exact .constant value t hbytes.symm (fun ht => hnew t ht rfl) hsize
      · simp only [if_neg hsize]
        have hnul : '\x00' ∉ value.toList := by
          rw [← zero_mem_utf8Bytes, hbytes]
          exact t.noNul
        exact .refused _ _ (.full value hnul (hbytes ▸ hnew) (Nat.le_of_not_lt hsize))

theorem change_perform (d : Draft) (e : Edit) : Change d ⟨e, (d.perform e).1⟩ (d.perform e).2 := by
  cases e with
  | addConstant value => exact d.change_addConstant value
  | addFunction name signature locals code =>
    exact .function (.addFunction name signature locals code) _ rfl
  | declareFunction name signature => exact .function (.declareFunction name signature) _ rfl
  | addNative n => exact .native n
  | defineFunction id locals code =>
    simp only [perform, defineFunction]
    cases hf : d.functions[id.toNat]? with
    | none => exact .refused _ _ (.undeclared id locals code (Array.getElem?_eq_none_iff.1 hf))
    | some f => exact .body f id locals code hf

theorem Change.of_error {d d' : Draft} {e : Edit} {cause : Cause}
    (h : Change d ⟨e, .error cause⟩ d') : Refused d e cause ∧ d' = d := by
  cases h with
  | refused _ _ hrefused => exact ⟨hrefused, rfl⟩

theorem perform_eq_error_iff {d : Draft} {e : Edit} {cause : Cause} :
    (d.perform e).1 = .error cause ↔ Refused d e cause := by
  constructor
  · intro h
    exact (h ▸ d.change_perform e : Change d ⟨e, .error cause⟩ _).of_error.1
  · intro h
    cases h with
    | nul value h0 =>
      obtain ⟨position, ht⟩ : ∃ position, Text.ofBytes (utf8Bytes value) = .error position :=
        ⟨_, Text.ofBytes_eq_error_iff.2 ⟨zero_mem_utf8Bytes.2 h0, rfl⟩⟩
      simp only [perform, addConstant, ht]
    | full value h0 hnew hsize =>
      have ht : Text.ofBytes (utf8Bytes value) = .ok ⟨utf8Bytes value, mt zero_mem_utf8Bytes.1 h0⟩ :=
        Text.ofBytes_eq_ok_iff.2 rfl
      have hfind : d.constants.findIdx? (fun u => u.bytes == utf8Bytes value) = none := by
        simpa using hnew
      simp only [perform, addConstant, ht, hfind, if_neg (Nat.not_lt.2 hsize)]
    | undeclared id locals code hid =>
      simp only [perform, defineFunction, Array.getElem?_eq_none hid]

theorem perform_of_error {d : Draft} {e : Edit} {cause : Cause}
    (h : (d.perform e).1 = .error cause) : (d.perform e).2 = d :=
  (h ▸ d.change_perform e : Change d ⟨e, .error cause⟩ _).of_error.2

/-- Drafts that calls lead to. -/
inductive Results : List Entry → Draft → Prop where
  | empty : Results [] empty
  | step {log : List Entry} {e : Entry} {d d' : Draft} :
      Results log d → Change d e d' → Results (log ++ [e]) d'

theorem results_foldl (edits : List Edit) {s : Drafting} (h : Results s.log s.draft) :
    Results (edits.foldl Drafting.step s).log (edits.foldl Drafting.step s).draft := by
  induction edits generalizing s with
  | nil => exact h
  | cons e edits ih => exact ih (h.step (s.draft.change_perform e))

theorem results_drafted (edits : List Edit) :
    Results (drafted edits).log (drafted edits).draft :=
  results_foldl edits .empty

theorem edits_foldl (edits : List Edit) (s : Drafting) :
    (edits.foldl Drafting.step s).log.map Entry.edit = s.log.map Entry.edit ++ edits := by
  induction edits generalizing s with
  | nil => simp
  | cons e edits ih => simp [ih, Drafting.step]

/-- Every call is recorded. -/
theorem edits_drafted (edits : List Edit) : (drafted edits).log.map Entry.edit = edits :=
  edits_foldl edits {}

/-! ### Numbering -/

/-- The items have their positions for ids, counted modulo the number of ids. -/
def Numbered {α : Type} (id : α → UInt16) (items : List α) : Prop :=
  ∀ k a, items[k]? = some a → id a = UInt16.ofNat k

namespace Numbered

variable {α : Type} {id : α → UInt16} {items : List α} {a : α}

theorem nil : Numbered id [] := fun _ _ h => nomatch h

theorem concat (h : Numbered id items) (ha : id a = UInt16.ofNat items.length) :
    Numbered id (items ++ [a]) := by
  intro k b hb
  rw [List.getElem?_append] at hb
  split at hb
  · exact h k b hb
  · rename_i hk
    obtain ⟨hlast, rfl⟩ := List.getElem?_eq_some_iff.1 hb
    rw [List.length_singleton] at hlast
    have : k = items.length := by omega
    simpa [this] using ha

theorem toNat (h : Numbered id items) (hfit : items.length ≤ idSpace) {k : Nat}
    (hk : items[k]? = some a) : (id a).toNat = k := by
  obtain ⟨hlt, -⟩ := List.getElem?_eq_some_iff.1 hk
  rw [h k a hk, UInt16.toNat_ofNat_of_lt' (Nat.lt_of_lt_of_le hlt hfit)]

theorem get (h : Numbered id items) (hfit : items.length ≤ idSpace) (ha : a ∈ items) :
    items[(id a).toNat]? = some a := by
  obtain ⟨k, hk⟩ := List.getElem?_of_mem ha
  rwa [h.toNat hfit hk]

theorem nodup (h : Numbered id items) (hfit : items.length ≤ idSpace) :
    (items.map id).Nodup := by
  refine List.pairwise_map.2 (List.pairwise_iff_getElem.2 fun i j hi hj hij heq => ?_)
  have hi' := h.toNat hfit (List.getElem?_eq_getElem hi)
  have hj' := h.toNat hfit (List.getElem?_eq_getElem hj)
  rw [heq] at hi'
  omega

end Numbered

/-! ### Functions -/

@[simp] theorem made_concat (log : List Entry) (e : Entry) :
    made (log ++ [e]) = made log ++ e.function?.toList := by
  cases h : e.function? <;> simp [made, h]

@[simp] theorem lastBody?_concat (log : List Entry) (e : Entry) (id : UInt16) :
    lastBody? (log ++ [e]) id = (e.body? id).or (lastBody? log id) := by
  simp only [lastBody?, List.reverse_append, List.reverse_singleton, List.singleton_append,
    List.findSome?_cons]
  cases e.body? id <;> rfl

theorem lastBody?_of_other {e : Entry} (h : ∀ id, e.body? id = none) (log : List Entry) :
    lastBody? (log ++ [e]) = lastBody? log := by
  funext id
  rw [lastBody?_concat, h, Option.none_or]

@[simp] theorem Entry.body?_error (id : UInt16) (e : Edit) (cause : Cause) :
    Entry.body? id ⟨e, .error cause⟩ = none := by
  cases e <;> rfl

@[simp] theorem Entry.native?_error (e : Edit) (cause : Cause) :
    Entry.native? ⟨e, .error cause⟩ = none := by
  cases e <;> rfl

theorem Edit.id_of_function? {e : Edit} {id : UInt16} {f : Function} (h : e.function? id = some f) :
    f.id = id := by
  cases e <;> cases h <;> rfl

/-- The functions of a draft are those that were made, with the bodies they were given since. Beyond
the number of ids nothing is said, since a body given there is that of another function. -/
structure FunctionsOf (log : List Entry) (functions : Array Function) : Prop where
  size : functions.size = (made log).length
  numbered : Numbered Function.id (made log)
  present : ∀ k < idSpace, functions[k]? = (made log)[k]?.map fun f => f.withBody (lastBody? log f.id)
  defined : ∀ id, (lastBody? log id).isSome → id.toNat < functions.size

namespace FunctionsOf

variable {log : List Entry} {functions : Array Function} {e : Entry} {f : Function}

theorem concat (h : FunctionsOf log functions) (hf : e.function? = none)
    (hb : ∀ id, e.body? id = none) : FunctionsOf (log ++ [e]) functions := by
  have hmade : made (log ++ [e]) = made log := by simp [hf]
  have hlast : lastBody? (log ++ [e]) = lastBody? log := lastBody?_of_other hb log
  constructor
  · rw [hmade, h.size]
  · rw [hmade]
    exact h.numbered
  · rw [hmade, hlast]
    exact h.present
  · rw [hlast]
    exact h.defined

theorem push (h : FunctionsOf log functions) (hf : e.function? = some f)
    (hid : f.id = UInt16.ofNat functions.size) (hb : ∀ id, e.body? id = none) :
    FunctionsOf (log ++ [e]) (functions.push f) := by
  have hmade : made (log ++ [e]) = made log ++ [f] := by simp [hf]
  have hlast : lastBody? (log ++ [e]) = lastBody? log := lastBody?_of_other hb log
  refine ⟨?_, ?_, ?_, ?_⟩
  · rw [hmade, Array.size_push, h.size, List.length_append, List.length_singleton]
  · rw [hmade]
    exact h.numbered.concat (h.size ▸ hid)
  · intro k hk
    rw [hmade, hlast, Array.getElem?_push]
    by_cases hk' : k = functions.size
    · have htoNat : f.id.toNat = k := by rw [hid, ← hk', UInt16.toNat_ofNat_of_lt' hk]
      have hnone : lastBody? log f.id = none := by
        cases hbody : lastBody? log f.id with
        | none => rfl
        | some body =>
          -- a body was given only to a function that was there
          have : f.id.toNat < functions.size := h.defined f.id (by rw [hbody]; rfl)
          omega
      simp [hk', h.size, hnone, Function.withBody]
    · rw [if_neg hk', h.present k hk]
      by_cases hlt : k < (made log).length
      · rw [List.getElem?_append_left hlt]
      · have hsize := h.size
        rw [List.getElem?_eq_none (by omega), List.getElem?_eq_none (by simp; omega)]
  · intro id hsome
    rw [hlast] at hsome
    rw [Array.size_push]
    exact Nat.lt_succ_of_lt (h.defined id hsome)

theorem define (h : FunctionsOf log functions) {id locals : UInt16} {code : Code}
    (hf : e.function? = none)
    (hb : ∀ i, e.body? i = if id = i then some (locals, code) else none)
    (hget : functions[id.toNat]? = some f) :
    FunctionsOf (log ++ [e]) (functions.setIfInBounds id.toNat { f with locals, code }) := by
  have hmade : made (log ++ [e]) = made log := by simp [hf]
  have hlast : ∀ i, lastBody? (log ++ [e]) i =
      if id = i then some (locals, code) else lastBody? log i := by
    intro i
    rw [lastBody?_concat, hb]
    split <;> rfl
  refine ⟨?_, ?_, ?_, ?_⟩
  · rw [hmade, Array.size_setIfInBounds, h.size]
  · rw [hmade]
    exact h.numbered
  · intro k hk
    rw [hmade, Array.getElem?_setIfInBounds]
    by_cases hk' : id.toNat = k
    · subst hk'
      have hpresent := h.present _ hk
      rw [hget] at hpresent
      obtain ⟨g, hg, rfl⟩ := Option.map_eq_some_iff.1 hpresent.symm
      have hid : id = g.id := by rw [h.numbered _ g hg, UInt16.ofNat_toNat]
      have hlt : id.toNat < functions.size := (Array.getElem?_eq_some_iff.1 hget).1
      rw [if_pos rfl, if_pos hlt, hg, Option.map_some, hlast, if_pos hid, g.withBody_withBody]
    · rw [if_neg hk', h.present k hk]
      refine Option.map_congr fun g hg => ?_
      have hid : id ≠ g.id := by
        intro heq
        rw [heq, h.numbered k g hg, UInt16.toNat_ofNat_of_lt' hk] at hk'
        exact hk' rfl
      rw [hlast, if_neg hid]
  · intro i hsome
    rw [Array.size_setIfInBounds]
    rw [hlast] at hsome
    split at hsome
    · rename_i hid
      exact hid ▸ (Array.getElem?_eq_some_iff.1 hget).1
    · exact h.defined i hsome

end FunctionsOf

theorem functionsOf_results {log : List Entry} {d : Draft} (h : Results log d) :
    FunctionsOf log d.functions := by
  induction h with
  | empty => exact ⟨rfl, Numbered.nil, fun _ _ => rfl, fun _ h => nomatch h⟩
  | step _ hchange ih =>
    cases hchange with
    | shared | constant | native => exact ih.concat rfl fun _ => rfl
    | function e f hf =>
      have hid : f.id = UInt16.ofNat _ := Edit.id_of_function? hf
      have hbody : ∀ id, Entry.body? id ⟨e, .ok (some f.id)⟩ = none := by
        intro id
        cases e with
        | defineFunction => cases hf
        | _ => rfl
      exact ih.push (hid ▸ hf) hid hbody
    | body f id locals code hget => exact ih.define rfl (fun _ => rfl) hget
    | refused e cause => exact ih.concat rfl fun id => Entry.body?_error id e cause

/-! ### Natives -/

@[simp] theorem added_concat (log : List Entry) (e : Entry) :
    added (log ++ [e]) = added log ++ e.native?.toList := by
  cases h : e.native? <;> simp [added, h]

/-- The natives of a draft are those that were added. -/
structure NativesOf (log : List Entry) (natives : Array Native) : Prop where
  eq : natives.toList = (added log).map Prod.snd
  numbered : Numbered Prod.fst (added log)

namespace NativesOf

variable {log : List Entry} {natives : Array Native} {e : Entry}

theorem concat (h : NativesOf log natives) (he : e.native? = none) :
    NativesOf (log ++ [e]) natives := by
  have hadded : added (log ++ [e]) = added log := by simp [he]
  constructor
  · rw [hadded, h.eq]
  · rw [hadded]
    exact h.numbered

theorem size (h : NativesOf log natives) : natives.size = (added log).length := by
  rw [← Array.length_toList, h.eq, List.length_map]

theorem push (h : NativesOf log natives) {n : Native}
    (he : e.native? = some (UInt16.ofNat natives.size, n)) :
    NativesOf (log ++ [e]) (natives.push n) := by
  have hadded : added (log ++ [e]) = added log ++ [(UInt16.ofNat natives.size, n)] := by simp [he]
  constructor
  · rw [hadded, Array.toList_push, h.eq, List.map_append, List.map_singleton]
  · rw [hadded]
    exact h.numbered.concat (congrArg UInt16.ofNat h.size)

end NativesOf

theorem nativesOf_results {log : List Entry} {d : Draft} (h : Results log d) :
    NativesOf log d.natives := by
  induction h with
  | empty => exact ⟨rfl, Numbered.nil⟩
  | step _ hchange ih =>
    cases hchange with
    | shared | constant | body => exact ih.concat rfl
    | function e f hf =>
      refine ih.concat ?_
      cases e with
      | addNative => cases hf
      | _ => rfl
    | native n => exact ih.push rfl
    | refused e cause => exact ih.concat (Entry.native?_error e cause)

/-! ### Constants -/

/-- The constants of a draft are different, and every id that was handed out for one finds it. -/
structure ConstantsOf (log : List Entry) (constants : Array Text) : Prop where
  fit : constants.size ≤ idSpace
  nodup : constants.toList.Nodup
  found : ∀ value id, ⟨.addConstant value, .ok (some id)⟩ ∈ log →
    ∃ t, constants[id.toNat]? = some t ∧ t.bytes = utf8Bytes value

namespace ConstantsOf

variable {log : List Entry} {constants : Array Text} {e : Entry} {value : String} {t : Text}

theorem concat (h : ConstantsOf log constants)
    (he : ∀ value id, e = ⟨.addConstant value, .ok (some id)⟩ →
      ∃ t, constants[id.toNat]? = some t ∧ t.bytes = utf8Bytes value) :
    ConstantsOf (log ++ [e]) constants := by
  refine ⟨h.fit, h.nodup, fun value id hmem => ?_⟩
  rw [List.mem_append, List.mem_singleton] at hmem
  cases hmem with
  | inl hmem => exact h.found value id hmem
  | inr heq => exact he value id heq.symm

theorem push (h : ConstantsOf log constants) (hnew : t ∉ constants)
    (hsize : constants.size < idSpace) : ConstantsOf log (constants.push t) := by
  refine ⟨?_, ?_, fun value id hmem => ?_⟩
  · rw [Array.size_push]
    exact hsize
  · rw [Array.toList_push, List.nodup_append]
    refine ⟨h.nodup, List.pairwise_singleton _ t, fun u hu v hv huv => hnew ?_⟩
    rw [List.mem_singleton.1 hv] at huv
    exact huv ▸ Array.mem_toList_iff.1 hu
  · obtain ⟨u, hu, hbytes⟩ := h.found value id hmem
    obtain ⟨hid, rfl⟩ := Array.getElem?_eq_some_iff.1 hu
    exact ⟨_, Array.getElem?_push_lt hid, hbytes⟩

/-- Ids that were handed out for constants are the same exactly if the constants are. -/
theorem id_inj (h : ConstantsOf log constants) {v w : String} {i j : UInt16}
    (hv : ⟨.addConstant v, .ok (some i)⟩ ∈ log) (hw : ⟨.addConstant w, .ok (some j)⟩ ∈ log) :
    i = j ↔ v = w := by
  obtain ⟨t, ht, htv⟩ := h.found v i hv
  obtain ⟨u, hu, huw⟩ := h.found w j hw
  constructor
  · rintro rfl
    obtain rfl : t = u := Option.some.inj (ht.symm.trans hu)
    exact utf8Bytes_inj.1 (htv.symm.trans huw)
  · rintro rfl
    obtain rfl : t = u := Text.bytes_inj.1 (htv.trans huw.symm)
    rw [← Array.getElem?_toList] at ht hu
    have hi : i.toNat < constants.toList.length := (List.getElem?_eq_some_iff.1 ht).1
    exact UInt16.toNat_inj.1 ((List.getElem?_inj hi h.nodup).1 (ht.trans hu.symm))

end ConstantsOf

theorem constantsOf_results {log : List Entry} {d : Draft} (h : Results log d) :
    ConstantsOf log d.constants := by
  induction h with
  | empty => exact ⟨Nat.zero_le _, List.Pairwise.nil, fun _ _ h => nomatch h⟩
  | step _ hchange ih =>
    cases hchange with
    | shared value k t ht hbytes =>
      refine ih.concat fun value' id heq => ?_
      cases heq
      have hk : k < idSpace :=
        Nat.lt_of_lt_of_le (Array.getElem?_eq_some_iff.1 ht).1 ih.fit
      exact ⟨t, by rwa [UInt16.toNat_ofNat_of_lt' hk], hbytes⟩
    | constant value t hbytes hnew hsize =>
      refine (ih.push hnew hsize).concat fun value' id heq => ?_
      cases heq
      exact ⟨t, by rw [UInt16.toNat_ofNat_of_lt' hsize, Array.getElem?_push_size], hbytes⟩
    | function e f hf =>
      refine ih.concat fun value id heq => ?_
      cases heq
      cases hf
    | body | native => exact ih.concat fun _ _ heq => nomatch heq
    | refused => exact ih.concat fun _ _ heq => nomatch heq

/-! ### Counts -/

theorem countP_results {log : List Entry} {d : Draft} (h : Results log d) :
    (log.map Entry.edit).countP Edit.addsFunction = d.functions.size ∧
      (log.map Entry.edit).countP Edit.addsNative = d.natives.size := by
  induction h with
  | empty => exact ⟨rfl, rfl⟩
  | step _ hchange ih =>
    obtain ⟨hf, hn⟩ := ih
    cases hchange with
    | refused e cause hrefused => cases hrefused <;> simp [Edit.addsFunction, Edit.addsNative, hf, hn]
    | function e f hf => cases e <;> simp_all [Edit.addsFunction, Edit.addsNative, Edit.function?]
    | _ => simp [Edit.addsFunction, Edit.addsNative, hf, hn]

/-! ### Programs -/

/-- What a program owes the calls it was drafted by: every id that was handed out finds what it was
handed out for, and no two functions, natives or different constants share one. -/
structure Keeps (log : List Entry) (p : Program) : Prop where
  function : ∀ e ∈ log, ∀ f, e.function? = some f →
    p.function f.id = .ok (f.withBody (lastBody? log f.id))
  functionIds : ((made log).map Function.id).Nodup
  native : ∀ e ∈ log, ∀ id n, e.native? = some (id, n) → p.native id = .ok n
  nativeIds : ((added log).map Prod.fst).Nodup
  constant : ∀ value id, ⟨.addConstant value, .ok (some id)⟩ ∈ log →
    ∃ t, p.constant id = .ok t ∧ t.bytes = utf8Bytes value
  constantIds : ∀ v w i j, ⟨.addConstant v, .ok (some i)⟩ ∈ log →
    ⟨.addConstant w, .ok (some j)⟩ ∈ log → (i = j ↔ v = w)
  constants : p.constants.toList.Nodup

end Draft

theorem Program.exists_make_iff {functions : Array Function} {constants : Array Text}
    {natives : Array Native} {entry : UInt16} :
    (∃ p, make functions constants natives entry = .ok p) ↔
      functions.size ≤ idSpace ∧ natives.size ≤ idSpace ∧
        (∀ (k : Nat) (h : k < functions.size), functions[k].id.toNat = k) ∧
          entry.toNat < functions.size := by
  constructor
  · rintro ⟨p, h⟩
    obtain ⟨rfl, rfl, rfl, rfl⟩ := parts_of_make h
    exact ⟨p.functions_fit, p.natives_fit, p.id_eq_position, p.entry_lt⟩
  · rintro ⟨hfunctions, hnatives, hplaced, hentry⟩
    let p : Program := ⟨functions, constants, natives, entry, hfunctions, hnatives, hplaced, hentry⟩
    exact ⟨p, p.make_eq_ok hnatives⟩

namespace Draft

variable {log : List Entry} {d : Draft} {entry : UInt16}

theorem placed_of_results (h : Results log d) (hfit : d.functions.size ≤ idSpace) (k : Nat)
    (hk : k < d.functions.size) : d.functions[k].id.toNat = k := by
  have hfunctions := functionsOf_results h
  have hpresent := hfunctions.present k (Nat.lt_of_lt_of_le hk hfit)
  rw [Array.getElem?_eq_getElem hk] at hpresent
  obtain ⟨f, hf, heq⟩ := Option.map_eq_some_iff.1 hpresent.symm
  rw [← heq, Function.id_withBody]
  exact hfunctions.numbered.toNat (hfunctions.size ▸ hfit) hf

theorem exists_build_iff (h : Results log d) :
    (∃ p, d.build entry = .ok p) ↔
      d.functions.size ≤ idSpace ∧ d.natives.size ≤ idSpace ∧ entry.toNat < d.functions.size := by
  unfold build
  rw [Program.exists_make_iff]
  constructor
  · rintro ⟨hfunctions, hnatives, -, hentry⟩
    exact ⟨hfunctions, hnatives, hentry⟩
  · rintro ⟨hfunctions, hnatives, hentry⟩
    exact ⟨hfunctions, hnatives, placed_of_results h hfunctions, hentry⟩

theorem keeps_of_build {p : Program} (h : Results log d) (hp : d.build entry = .ok p) :
    Keeps log p := by
  obtain ⟨hf, hc, hn, -⟩ := Program.parts_of_make hp
  have hfunctions : FunctionsOf log p.functions := hf ▸ functionsOf_results h
  have hnatives : NativesOf log p.natives := hn ▸ nativesOf_results h
  have hconstants : ConstantsOf log p.constants := hc ▸ constantsOf_results h
  have hmade : (made log).length ≤ idSpace := hfunctions.size ▸ p.functions_fit
  have hadded : (added log).length ≤ idSpace := hnatives.size ▸ p.natives_fit
  constructor
  case functionIds => exact hfunctions.numbered.nodup hmade
  case nativeIds => exact hnatives.numbered.nodup hadded
  case constants => exact hconstants.nodup
  case constantIds => exact fun v w i j hv hw => hconstants.id_inj hv hw
  case function =>
    intro e he f hef
    have hget := hfunctions.numbered.get hmade (List.mem_filterMap.2 ⟨e, he, hef⟩)
    have hpresent := hfunctions.present f.id.toNat f.id.toNat_lt
    rw [hget, Option.map_some] at hpresent
    simp only [Program.function, hpresent]
  case native =>
    intro e he id n hen
    have hget := hnatives.numbered.get hadded (List.mem_filterMap.2 ⟨e, he, hen⟩)
    have hpresent : p.natives[id.toNat]? = some n := by
      rw [← Array.getElem?_toList, hnatives.eq, List.getElem?_map, hget, Option.map_some]
    simp only [Program.native, hpresent]
  case constant =>
    intro value id hmem
    obtain ⟨t, ht, hbytes⟩ := hconstants.found value id hmem
    exact ⟨t, by simp only [Program.constant, ht], hbytes⟩

/-- Ids never alias. Whatever calls are made on a draft, it can be built exactly if its functions and
natives fit the ids and the entry is one of the functions, and the program then keeps to every id that
was handed out. Calls fail only for a NUL, a full pool or an id that no function has yet, and change
nothing then. -/
theorem ids_of_drafted (edits : List Edit) (entry : UInt16) :
    ((∃ p, (drafted edits).draft.build entry = .ok p) ↔
      edits.countP Edit.addsFunction ≤ idSpace ∧ edits.countP Edit.addsNative ≤ idSpace ∧
        entry.toNat < edits.countP Edit.addsFunction) ∧
    (∀ p, (drafted edits).draft.build entry = .ok p →
      p.entry = entry ∧ Keeps (drafted edits).log p) ∧
    ∀ d e cause, ((perform d e).1 = .error cause ↔ Refused d e cause) ∧
      ((perform d e).1 = .error cause → (perform d e).2 = d) := by
  have h := results_drafted edits
  obtain ⟨hf, hn⟩ := countP_results h
  rw [edits_drafted] at hf hn
  refine ⟨?_, fun p hp => ⟨?_, keeps_of_build h hp⟩, fun d e cause => ?_⟩
  · rw [hf, hn]
    exact exists_build_iff h
  · exact (Program.parts_of_make hp).2.2.2
  · exact ⟨perform_eq_error_iff, perform_of_error⟩

example : ∃ p, (drafted [.declareFunction "f" {}, .addFunction "main" {} 0 .empty,
    .defineFunction 0 3 ⟨#[1, 2]⟩]).draft.build 1 = .ok p ∧
      p.function 0 = .ok ⟨0, "f", {}, 3, ⟨#[1, 2]⟩⟩ :=
  ⟨_, rfl, rfl⟩

end Draft

end CellMachine
