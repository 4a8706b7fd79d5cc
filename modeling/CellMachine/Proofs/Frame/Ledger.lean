import CellMachine.Proofs.Frame.Variables

/-!
# Frames as a store

Frames beside a ledger: which calls are active, and what was written to which variable of which call.
Main statement: whatever is done to the frames, every operation answers what the ledger answers, so
that a read gives the cell that was written last to the same variable of the same call.
-/

namespace CellMachine

/-! ### Operations -/

def FrameStack.Reply.began? : Except Cause Reply → Option Nat
  | .ok (.began invocation) => some invocation
  | _ => none

namespace FrameStack

def after (s : FrameStack) : List Operation → FrameStack
  | [] => s
  | op :: ops => (s.perform op).2.after ops

def answers (s : FrameStack) : List Operation → List (Except Cause Reply)
  | [] => []
  | op :: ops => (s.perform op).1 :: (s.perform op).2.answers ops

end FrameStack

open FrameStack (Operation Reply)

/-- What there is to ask of a store of variables. -/
inductive Request
  | begin (function locals : UInt16)
  | finish
  | read (scope : Scope) (tag : TypeTag) (slot : UInt16)
  | write (scope : Scope) (slot : UInt16) (c : Cell)

def FrameStack.Operation.request : Operation → Request
  | .push function locals => .begin function locals
  | .pop => .finish
  | .load scope tag slot => .read scope tag slot
  | .loadCached tag index => .read .top tag (UInt16.ofNat index)
  | .get t slot => .read .top t.tag slot
  | .getIn function t slot => .read (.context function) t.tag slot
  | .store scope slot c | .storeInFrame scope slot c => .write scope slot c
  | .storeCached index c => .write .top (UInt16.ofNat index) c
  | .set slot c => .write .top slot c
  | .setIn function slot c => .write (.context function) slot c

/-! ### The ledger -/

/-- A cell that was written to a variable of a call. -/
structure Ledger.Entry where
  invocation : Nat
  slot : UInt16
  cell : Cell

structure Ledger where
  /-- The active calls, the innermost first. -/
  active : List Frame.Outline
  /-- Calls that have begun. -/
  begun : Nat
  /-- What was written, the latest first. -/
  written : List Ledger.Entry

def Scope.means : Scope → Frame.Outline → Bool
  | .top, _ => true
  | .context function, call => call.function == function

namespace Ledger

def empty : Ledger := ⟨[], 0, []⟩

/-- The cell that was written last to a variable, or the zero of its type. -/
def value (l : Ledger) (invocation : Nat) (t : ValueType) (slot : UInt16) : Cell :=
  match l.written.find? fun e => e.invocation = invocation ∧ e.slot = slot ∧ e.cell.type = t with
  | some e => e.cell
  | none => Cell.zero t

/-- The call that a scope means. -/
def call (l : Ledger) (scope : Scope) : Except Cause Frame.Outline :=
  match l.active.find? scope.means with
  | some call => .ok call
  | none => .error scope.missing

/-- The call that a scope means, if it has the slot. -/
def place (l : Ledger) (scope : Scope) (slot : UInt16) : Except Cause Frame.Outline :=
  match l.call scope with
  | .error cause => .error cause
  | .ok call =>
    if slot.toNat < call.locals then .ok call
    else .error (.slotOutOfRange slot call.function call.locals)

def read (l : Ledger) (scope : Scope) (tag : TypeTag) (slot : UInt16) : Except Cause Cell :=
  match tag.valueType? with
  | some t => (l.place scope slot).map fun call => l.value call.invocation t slot
  | none => (l.call scope).bind fun _ => .error (.noBank tag)

def answer (l : Ledger) : Request → Except Cause Reply × Ledger
  | .begin function locals =>
    (.ok (.began l.begun), ⟨⟨function, l.begun, locals.toNat⟩ :: l.active, l.begun + 1, l.written⟩)
  | .finish =>
    match l.active with
    | [] => (.error .noFrameToPop, l)
    | call :: rest => (.ok (.ended call), { l with active := rest })
  | .read scope tag slot => ((l.read scope tag slot).map .value, l)
  | .write scope slot c =>
    match l.place scope slot with
    | .ok call => (.ok .stored, { l with written := ⟨call.invocation, slot, c⟩ :: l.written })
    | .error cause => (.error cause, l)

def after (l : Ledger) : List Operation → Ledger
  | [] => l
  | op :: ops => (l.answer op.request).2.after ops

def answers (l : Ledger) : List Operation → List (Except Cause Reply)
  | [] => []
  | op :: ops => (l.answer op.request).1 :: (l.answer op.request).2.answers ops

theorem value_write (l : Ledger) (written : Nat) (slot : UInt16) (c : Cell) (invocation : Nat)
    (t : ValueType) (slot' : UInt16) :
    { l with written := ⟨written, slot, c⟩ :: l.written : Ledger }.value invocation t slot' =
      if written = invocation ∧ slot' = slot ∧ t = c.type then c else l.value invocation t slot' := by
  by_cases h : written = invocation ∧ slot = slot' ∧ c.type = t
  · have h' : written = invocation ∧ slot' = slot ∧ t = c.type := ⟨h.1, h.2.1.symm, h.2.2.symm⟩
    rw [if_pos h', value, List.find?_cons_of_pos (by simpa using h)]
  · have h' : ¬ (written = invocation ∧ slot' = slot ∧ t = c.type) := by
      intro hw
      exact h ⟨hw.1, hw.2.1.symm, hw.2.2.symm⟩
    rw [if_neg h', value, List.find?_cons_of_neg (by simpa using h)]
    rfl

/-- A call to which nothing was written has zeros. -/
theorem value_of_unwritten {l : Ledger} {invocation : Nat}
    (h : ∀ e ∈ l.written, e.invocation < invocation) (t : ValueType) (slot : UInt16) :
    l.value invocation t slot = Cell.zero t := by
  have hnone : (l.written.find? fun e =>
      e.invocation = invocation ∧ e.slot = slot ∧ e.cell.type = t) = none := by
    refine List.find?_eq_none.2 fun e he => ?_
    have hne : e.invocation ≠ invocation := Nat.ne_of_lt (h e he)
    simp [hne]
  rw [value, hnone]

end Ledger

/-! ### Frames that agree with a ledger -/

/-- The frames hold what the ledger says. The numbers of calls grow towards the innermost one, and
nothing is written to a call that has not begun. -/
structure Ledger.Describes (l : Ledger) (s : FrameStack) : Prop where
  active : s.outline = l.active
  begun : s.next = l.begun
  values : ∀ fr ∈ s.frames.items, ∀ t slot, slot.toNat < fr.locals →
    fr.load t slot = .ok (l.value fr.invocation t slot)
  ordered : (s.frames.items.map Frame.invocation).Pairwise (· > ·)
  earlier : ∀ fr ∈ s.frames.items, fr.invocation < s.next
  past : ∀ e ∈ l.written, e.invocation < l.begun

namespace Ledger.Describes

variable {l : Ledger} {s : FrameStack}

theorem empty : Ledger.empty.Describes FrameStack.empty where
  active := rfl
  begun := rfl
  values := nofun
  ordered := .nil
  earlier := nofun
  past := nofun

theorem call (h : l.Describes s) (scope : Scope) : l.call scope = (s.frame scope).map Frame.outline := by
  have hmeans : scope.means ∘ Frame.outline = scope.selects := by
    funext fr
    cases scope <;> rfl
  have hfind : l.active.find? scope.means = (s.frames.items.find? scope.selects).map Frame.outline := by
    rw [← h.active, FrameStack.outline, List.find?_map, hmeans]
  unfold Ledger.call FrameStack.frame
  rw [hfind]
  cases s.frames.items.find? scope.selects <;> rfl

theorem place_of_lt (h : l.Describes s) {scope : Scope} {fr : Frame} (hf : s.frame scope = .ok fr)
    {slot : UInt16} (hslot : slot.toNat < fr.locals) : l.place scope slot = .ok fr.outline := by
  have hcall : l.call scope = .ok fr.outline := by rw [h.call, hf]; rfl
  simp only [place, hcall]
  exact if_pos hslot

theorem place_of_le (h : l.Describes s) {scope : Scope} {fr : Frame} (hf : s.frame scope = .ok fr)
    {slot : UInt16} (hslot : fr.locals ≤ slot.toNat) :
    l.place scope slot = .error (fr.outOfRange slot) := by
  have hcall : l.call scope = .ok fr.outline := by rw [h.call, hf]; rfl
  simp only [place, hcall]
  exact if_neg (Nat.not_lt.2 hslot)

theorem place_of_missing (h : l.Describes s) {scope : Scope} {cause : Cause}
    (hf : s.frame scope = .error cause) (slot : UInt16) : l.place scope slot = .error cause := by
  have hcall : l.call scope = .error cause := by rw [h.call, hf]; rfl
  simp only [place, hcall]

/-- Reads agree, whatever the type is called. -/
theorem read (h : l.Describes s) (scope : Scope) (tag : TypeTag) (slot : UInt16) :
    s.loadTagged scope tag slot = l.read scope tag slot := by
  unfold FrameStack.loadTagged Ledger.read
  cases hf : s.frame scope with
  | error cause =>
    cases tag.valueType? with
    | none => simp only [h.call, hf]; rfl
    | some t => simp only [h.place_of_missing hf]; rfl
  | ok fr =>
    dsimp only
    unfold Frame.loadTagged
    cases tag.valueType? with
    | none => simp only [h.call, hf]; rfl
    | some t =>
      rcases Nat.lt_or_ge slot.toNat fr.locals with hslot | hslot
      · simp only [h.place_of_lt hf hslot, h.values fr (FrameStack.mem_of_frame hf) t slot hslot]
        rfl
      · simp only [h.place_of_le hf hslot, Frame.load_of_le hslot]
        rfl

theorem push (h : l.Describes s) (function locals : UInt16) :
    (l.answer (.begin function locals)).2.Describes (s.push function locals) where
  active := by
    rw [FrameStack.outline_push, h.active, h.begun]
    rfl
  begun := congrArg (· + 1) h.begun
  values := by
    intro fr hfr t slot hslot
    rcases List.mem_cons.1 hfr with rfl | hfr
    · have hlt : slot.toNat < locals.toNat := by simpa [Frame.fresh, Frame.locals] using hslot
      have hpast : ∀ e ∈ l.written, e.invocation < s.next := by
        rw [h.begun]
        exact h.past
      rw [Frame.load_fresh function s.next hlt]
      exact congrArg Except.ok (Ledger.value_of_unwritten hpast t slot).symm
    · exact h.values fr hfr t slot hslot
  ordered := by
    refine List.pairwise_cons.2 ⟨fun invocation hm => ?_, h.ordered⟩
    obtain ⟨fr, hfr, rfl⟩ := List.mem_map.1 hm
    exact h.earlier fr hfr
  earlier := by
    intro fr hfr
    rcases List.mem_cons.1 hfr with rfl | hfr
    · exact Nat.lt_succ_self s.next
    · exact Nat.lt_succ_of_lt (h.earlier fr hfr)
  past e he := Nat.lt_succ_of_lt (h.past e he)

theorem pop (h : l.Describes s) {fr : Frame} {rest : FrameStack} (hp : s.pop? = some (fr, rest)) :
    l.active = fr.outline :: rest.outline ∧ { l with active := rest.outline }.Describes rest := by
  obtain ⟨hitems, hnext⟩ := FrameStack.pop?_eq_some hp
  refine ⟨?_, rfl, hnext ▸ h.begun, ?_, ?_, ?_, h.past⟩
  · rw [← h.active, FrameStack.outline, hitems]
    rfl
  · intro fr' hfr'
    exact h.values fr' (hitems ▸ List.mem_cons_of_mem fr hfr')
  · have hordered := h.ordered
    rw [hitems, List.map_cons] at hordered
    exact (List.pairwise_cons.1 hordered).2
  · intro fr' hfr'
    exact hnext ▸ h.earlier fr' (hitems ▸ List.mem_cons_of_mem fr hfr')

/-- A write goes to one call only, since no two calls have a number in common. -/
theorem write (h : l.Describes s) {scope : Scope} {slot : UInt16} {c : Cell} {s' : FrameStack}
    (hs : s.store scope slot c = .ok s') :
    ∃ fr, s.frame scope = .ok fr ∧ slot.toNat < fr.locals ∧
      { l with written := ⟨fr.invocation, slot, c⟩ :: l.written }.Describes s' := by
  obtain ⟨above, fr, below, hr, hslot, hitems, hnext⟩ := FrameStack.store_eq_ok hs
  have hinvocations : s'.frames.items.map Frame.invocation = s.frames.items.map Frame.invocation := by
    rw [hitems, hr.items]
    simp
  have houtline : s'.outline = s.outline := by
    unfold FrameStack.outline
    rw [hitems, hr.items]
    simp [Frame.outline_write]
  have hordered := h.ordered
  rw [hr.items, List.map_append, List.map_cons, List.pairwise_append, List.pairwise_cons] at hordered
  obtain ⟨-, ⟨hbelow, -⟩, habove⟩ := hordered
  have hother : ∀ other, other ∈ above ∨ other ∈ below → fr.invocation ≠ other.invocation := by
    intro other hm
    rcases hm with hm | hm
    · exact Nat.ne_of_lt (habove _ (List.mem_map_of_mem hm) _ List.mem_cons_self)
    · exact Nat.ne_of_gt (hbelow _ (List.mem_map_of_mem hm))
  refine ⟨fr, hr.frame, hslot, houtline.trans h.active, hnext.trans h.begun, ?_, ?_, ?_, ?_⟩
  · intro fr' hfr' t slot' hslot'
    rw [Ledger.value_write]
    rw [hitems, List.mem_append, List.mem_cons] at hfr'
    have hkept : fr' ∈ above ∨ fr' ∈ below → fr'.load t slot' = .ok
        (if fr.invocation = fr'.invocation ∧ slot' = slot ∧ t = c.type then c
          else l.value fr'.invocation t slot') := by
      intro hm
      rw [if_neg (fun hw => hother fr' hm hw.1)]
      refine h.values fr' ?_ t slot' hslot'
      rw [hr.items, List.mem_append, List.mem_cons]
      rcases hm with hm | hm
      · exact .inl hm
      · exact .inr (.inr hm)
    rcases hfr' with hm | rfl | hm
    · exact hkept (.inl hm)
    · have hold := h.values fr (FrameStack.mem_of_frame hr.frame) t slot' (by simpa using hslot')
      rw [Frame.load_write hslot, Frame.invocation_write, hold]
      by_cases hw : slot' = slot ∧ t = c.type
      · rw [if_pos hw, if_pos ⟨rfl, hw⟩]
      · rw [if_neg hw, if_neg (fun hw' => hw hw'.2)]
    · exact hkept (.inr hm)
  · rw [hinvocations]
    exact h.ordered
  · intro fr' hfr'
    have hm : fr'.invocation ∈ s.frames.items.map Frame.invocation :=
      hinvocations ▸ List.mem_map_of_mem hfr'
    obtain ⟨old, hold, he⟩ := List.mem_map.1 hm
    rw [← he, hnext]
    exact h.earlier old hold
  · intro e he
    rcases List.mem_cons.1 he with rfl | he
    · have hlt := h.earlier fr (FrameStack.mem_of_frame hr.frame)
      rw [h.begun] at hlt
      exact hlt
    · exact h.past e he

end Ledger.Describes

/-! ### Runs of operations -/

namespace FrameStack

def serve (s : FrameStack) : Request → Except Cause Reply × FrameStack
  | .begin function locals => (.ok (.began s.next), s.push function locals)
  | .finish =>
    match s.pop? with
    | some (f, rest) => (.ok (.ended f.outline), rest)
    | none => (.error .noFrameToPop, s)
  | .read scope tag slot => s.loading (s.loadTagged scope tag slot)
  | .write scope slot c => s.storing (s.store scope slot c)

theorem storeInFrame_eq_store (s : FrameStack) (scope : Scope) (slot : UInt16) (c : Cell) :
    s.storeInFrame scope slot c = s.store scope slot c := by
  unfold storeInFrame store checkSlot
  cases s.frame scope with
  | error cause => rfl
  | ok f =>
    dsimp only
    split <;> rfl

theorem perform_eq_serve (s : FrameStack) (op : Operation) : s.perform op = s.serve op.request := by
  cases op with
  | get t slot | getIn function t slot =>
    simp only [perform, serve, get, getIn, Operation.request, loadTagged_tag]
  | storeInFrame scope slot c =>
    simp only [perform, serve, Operation.request, storeInFrame_eq_store]
  | _ => rfl

variable {l : Ledger} {s : FrameStack}

theorem serve_answers (h : l.Describes s) (r : Request) :
    (s.serve r).1 = (l.answer r).1 ∧ (l.answer r).2.Describes (s.serve r).2 := by
  cases r with
  | begin function locals => exact ⟨congrArg (Except.ok ∘ Reply.began) h.begun, h.push function locals⟩
  | finish =>
    cases hp : s.pop? with
    | some x =>
      obtain ⟨fr, rest⟩ := x
      obtain ⟨hactive, hrest⟩ := h.pop hp
      simp only [serve, Ledger.answer, hp, hactive]
      exact ⟨trivial, hrest⟩
    | none =>
      have hitems : s.frames.items = [] := by
        unfold pop? at hp
        split at hp
        · cases hp
        · rename_i hpop
          exact Stack.pop?_eq_none_iff.1 hpop
      have hactive : l.active = [] := by rw [← h.active, outline, hitems]; rfl
      simp only [serve, Ledger.answer, hp, hactive]
      exact ⟨trivial, h⟩
  | read scope tag slot => exact ⟨congrArg (Except.map Reply.value) (h.read scope tag slot), h⟩
  | write scope slot c =>
    cases hs : s.store scope slot c with
    | ok s' =>
      obtain ⟨fr, hf, hslot, hwritten⟩ := h.write hs
      simp only [serve, Ledger.answer, hs, h.place_of_lt hf hslot]
      exact ⟨rfl, hwritten⟩
    | error cause =>
      have hplace : l.place scope slot = .error cause := by
        cases hf : s.frame scope with
        | error cause' =>
          rw [store_of_missing hf] at hs
          cases hs
          exact h.place_of_missing hf slot
        | ok fr =>
          rcases Nat.lt_or_ge slot.toNat fr.locals with hslot | hslot
          · obtain ⟨s', hs'⟩ := store_of_frame hf hslot c
            cases hs.symm.trans hs'
          · rw [store_of_le hf hslot] at hs
            cases hs
            exact h.place_of_le hf hslot
      simp only [serve, Ledger.answer, hs, hplace]
      exact ⟨rfl, h⟩

/-- The induction over the operations. -/
theorem answers_describes (h : l.Describes s) (ops : List Operation) :
    s.answers ops = l.answers ops ∧ (l.after ops).Describes (s.after ops) := by
  induction ops generalizing l s with
  | nil => exact ⟨rfl, h⟩
  | cons op ops ih =>
    obtain ⟨hreply, hnext⟩ := serve_answers h op.request
    rw [← perform_eq_serve] at hreply hnext
    obtain ⟨hreplies, hlast⟩ := ih hnext
    refine ⟨?_, hlast⟩
    rw [answers, Ledger.answers, hreply, hreplies]

end FrameStack

namespace Ledger

theorem begun_answer (l : Ledger) (r : Request) :
    (Reply.began? (l.answer r).1 = some l.begun ∧ (l.answer r).2.begun = l.begun + 1) ∨
      (Reply.began? (l.answer r).1 = none ∧ (l.answer r).2.begun = l.begun) := by
  cases r with
  | begin function locals => exact .inl ⟨rfl, rfl⟩
  | finish =>
    cases ha : l.active <;> simp [answer, ha, Reply.began?]
  | read scope tag slot =>
    cases hr : l.read scope tag slot <;> simp [answer, hr, Except.map, Reply.began?]
  | write scope slot c =>
    cases hp : l.place scope slot <;> simp [answer, hp, Reply.began?]

/-- Calls get numbers in the order in which they begin. -/
theorem began_answers (l : Ledger) (ops : List Operation) :
    ((l.answers ops).filterMap Reply.began?).Pairwise (· < ·) ∧
      ∀ n ∈ (l.answers ops).filterMap Reply.began?, l.begun ≤ n := by
  induction ops generalizing l with
  | nil => exact ⟨.nil, nofun⟩
  | cons op ops ih =>
    obtain ⟨hordered, hlater⟩ := ih (l.answer op.request).2
    rcases l.begun_answer op.request with ⟨hbegan, hnext⟩ | ⟨hbegan, hnext⟩
    · rw [hnext] at hlater
      rw [answers, List.filterMap_cons_some hbegan]
      refine ⟨List.pairwise_cons.2 ⟨fun n hn => hlater n hn, hordered⟩, fun n hn => ?_⟩
      rcases List.mem_cons.1 hn with rfl | hn
      · exact Nat.le_refl _
      · exact Nat.le_of_succ_le (hlater n hn)
    · rw [hnext] at hlater
      rw [answers, List.filterMap_cons_none hbegan]
      exact ⟨hordered, hlater⟩

end Ledger

namespace FrameStack

/-! ### What an access does to frames -/

/-- The cell in a variable of a frame, which is given by its distance from the innermost one. -/
def cell? (s : FrameStack) (distance : Nat) (t : ValueType) (slot : UInt16) : Option Cell :=
  s.frames.items[distance]?.bind fun fr => (fr.load t slot).toOption

/-- One variable of one frame is changed, and nothing else. -/
structure ChangesOne (s s' : FrameStack) (scope : Scope) (slot : UInt16) (c : Cell) : Prop where
  outline : s'.outline = s.outline
  next : s'.next = s.next
  cells : ∃ distance fr, s.frame scope = .ok fr ∧ s.frames.items[distance]? = some fr ∧
    slot.toNat < fr.locals ∧ ∀ i t slot', s'.cell? i t slot' =
      if i = distance ∧ slot' = slot ∧ t = c.type then some c else s.cell? i t slot'

theorem changesOne_of_store {s s' : FrameStack} {scope : Scope} {slot : UInt16} {c : Cell}
    (h : s.store scope slot c = .ok s') : s.ChangesOne s' scope slot c := by
  obtain ⟨above, fr, below, hr, hslot, hitems, hnext⟩ := store_eq_ok h
  refine ⟨?_, hnext, above.length, fr, hr.frame, ?_, hslot, fun i t slot' => ?_⟩
  · unfold FrameStack.outline
    rw [hitems, hr.items]
    simp [Frame.outline_write]
  · rw [hr.items, List.getElem?_append_right (Nat.le_refl _), Nat.sub_self]
    rfl
  · unfold cell?
    rw [hitems, hr.items]
    rcases Nat.lt_trichotomy i above.length with hi | rfl | hi
    · rw [if_neg (fun hw => Nat.ne_of_lt hi hw.1), List.getElem?_append_left hi,
        List.getElem?_append_left hi]
    · rw [List.getElem?_append_right (Nat.le_refl _), List.getElem?_append_right (Nat.le_refl _),
        Nat.sub_self, List.getElem?_cons_zero, List.getElem?_cons_zero, Option.bind_some,
        Option.bind_some, Frame.load_write hslot]
      by_cases hw : slot' = slot ∧ t = c.type
      · rw [if_pos hw, if_pos ⟨rfl, hw⟩]
        rfl
      · rw [if_neg hw, if_neg (fun hw' => hw hw'.2)]
    · obtain ⟨k, hk⟩ : ∃ k, i - above.length = k + 1 := ⟨i - above.length - 1, by omega⟩
      rw [if_neg (fun hw => Nat.ne_of_gt hi hw.1), List.getElem?_append_right (Nat.le_of_lt hi),
        List.getElem?_append_right (Nat.le_of_lt hi), hk, List.getElem?_cons_succ,
        List.getElem?_cons_succ]

/-! ### When an access is refused -/

/-- Requests for a variable, at a type that has values. -/
def Accesses (scope : Scope) (slot : UInt16) (r : Request) : Prop :=
  (∃ t : ValueType, r = .read scope t.tag slot) ∨ ∃ c, r = .write scope slot c

section Accesses

variable {s : FrameStack} {scope : Scope} {slot : UInt16} {r : Request}

theorem serve_of_lt (hr : Accesses scope slot r) {fr : Frame} (hf : s.frame scope = .ok fr)
    (hslot : slot.toNat < fr.locals) : ∃ reply, (s.serve r).1 = .ok reply := by
  rcases hr with ⟨t, rfl⟩ | ⟨c, rfl⟩
  · obtain ⟨c, hc⟩ := Frame.load_of_lt hslot t
    refine ⟨.value c, ?_⟩
    simp only [serve, loading, loadTagged_tag, load, hf, hc]
    rfl
  · obtain ⟨s', hs'⟩ := store_of_frame hf hslot c
    exact ⟨.stored, by simp only [serve, storing, hs']⟩

theorem serve_of_le (hr : Accesses scope slot r) {fr : Frame} (hf : s.frame scope = .ok fr)
    (hslot : fr.locals ≤ slot.toNat) : (s.serve r).1 = .error (fr.outOfRange slot) := by
  rcases hr with ⟨t, rfl⟩ | ⟨c, rfl⟩
  · simp only [serve, loading, loadTagged_tag, load, hf, Frame.load_of_le hslot]
    rfl
  · simp only [serve, storing, store_of_le hf hslot]

theorem serve_of_missing (hr : Accesses scope slot r) {cause : Cause}
    (hf : s.frame scope = .error cause) : (s.serve r).1 = .error cause := by
  rcases hr with ⟨t, rfl⟩ | ⟨c, rfl⟩
  · simp only [serve, loading, loadTagged_tag, load, hf]
    rfl
  · simp only [serve, storing, store_of_missing hf]

theorem bounds_iff (hr : Accesses scope slot r) :
    (∃ cause, (s.serve r).1 = .error cause ∧ cause.kind = .bounds) ↔
      (∀ fr ∈ s.frames.items, scope.selects fr = false) ∨
        ∃ fr, s.frame scope = .ok fr ∧ fr.locals ≤ slot.toNat := by
  cases hf : s.frame scope with
  | error cause =>
    have hnone : ∀ fr ∈ s.frames.items, scope.selects fr = false := selects_of_frame_error hf
    refine ⟨fun _ => .inl hnone, fun _ => ⟨cause, serve_of_missing hr hf, Machine.frame_refused hf⟩⟩
  | ok fr =>
    rcases Nat.lt_or_ge slot.toNat fr.locals with hslot | hslot
    · obtain ⟨reply, hreply⟩ := serve_of_lt hr hf hslot
      obtain ⟨above, below, hresolves⟩ := resolves_of_frame hf
      constructor
      · intro hrefused
        obtain ⟨cause, hcause, -⟩ := hrefused
        cases hreply.symm.trans hcause
      · intro hreason
        rcases hreason with hnone | ⟨fr', hf', hle⟩
        · cases (hnone fr (mem_of_frame hf)).symm.trans hresolves.selected
        · cases hf'
          exact (Nat.not_lt.2 hle hslot).elim
    · exact ⟨fun _ => .inr ⟨fr, rfl, hslot⟩, fun _ => ⟨_, serve_of_le hr hf hslot, rfl⟩⟩

theorem serve_of_error {cause : Cause} (h : (s.serve r).1 = .error cause) : (s.serve r).2 = s := by
  cases r with
  | begin function locals => cases h
  | finish =>
    cases hp : s.pop? with
    | some x => simp [serve, hp] at h
    | none => simp only [serve, hp]
  | read scope tag slot => rfl
  | write scope slot c =>
    cases hs : s.store scope slot c with
    | ok s' => simp [serve, storing, hs] at h
    | error cause => simp only [serve, storing, hs]

end Accesses

/-- Frames as a store of cells by call, type and slot, where a ledger knows what was written last. -/
structure StoresAs (s : FrameStack) (l : Ledger) : Prop where
  replies (op : Operation) : (s.perform op).1 = (l.answer op.request).1
  reads {op : Operation} {scope : Scope} {t : ValueType} {slot : UInt16} {c : Cell}
    (hop : op.request = .read scope t.tag slot) (hr : (s.perform op).1 = .ok (.value c)) :
    (s.perform op).2 = s ∧ ∃ fr, s.frame scope = .ok fr ∧ c = l.value fr.invocation t slot
  latest {function : UInt16} {fr : Frame} (hf : s.frame (.context function) = .ok fr) :
    fr ∈ s.frames.items ∧ fr.function = function ∧
      ∀ other ∈ s.frames.items, other.function = function → other.invocation ≤ fr.invocation
  writes {op : Operation} {scope : Scope} {slot : UInt16} {c : Cell}
    (hop : op.request = .write scope slot c) (hr : (s.perform op).1 = .ok .stored) :
    s.ChangesOne (s.perform op).2 scope slot c
  bounds {op : Operation} {scope : Scope} {slot : UInt16} (hop : Accesses scope slot op.request) :
    (∃ cause, (s.perform op).1 = .error cause ∧ cause.kind = .bounds) ↔
      (∀ fr ∈ s.frames.items, scope.selects fr = false) ∨
        ∃ fr, s.frame scope = .ok fr ∧ fr.locals ≤ slot.toNat
  refused {op : Operation} {cause : Cause} (hr : (s.perform op).1 = .error cause) : (s.perform op).2 = s

theorem storesAs_of_describes {l : Ledger} {s : FrameStack} (h : l.Describes s) : s.StoresAs l where
  replies op := by
    rw [perform_eq_serve]
    exact (serve_answers h op.request).1
  reads {op scope t slot c} hop hr := by
    rw [perform_eq_serve, hop] at hr ⊢
    refine ⟨rfl, ?_⟩
    have hread : (s.load scope t slot).map Reply.value = .ok (.value c) := by
      rw [← loadTagged_tag]
      exact hr
    cases hf : s.frame scope with
    | error cause =>
      simp only [load, hf] at hread
      cases hread
    | ok fr =>
      rcases Nat.lt_or_ge slot.toNat fr.locals with hslot | hslot
      · simp only [load, hf, h.values fr (mem_of_frame hf) t slot hslot] at hread
        cases hread
        exact ⟨fr, rfl, rfl⟩
      · simp only [load, hf, Frame.load_of_le hslot] at hread
        cases hread
  latest hf := ⟨mem_of_frame hf, latest_of_frame h.ordered hf⟩
  writes {op scope slot c} hop hr := by
    rw [perform_eq_serve, hop] at hr ⊢
    cases hs : s.store scope slot c with
    | ok s' =>
      simp only [serve, storing, hs]
      exact changesOne_of_store hs
    | error cause => simp [serve, storing, hs] at hr
  bounds hop := by
    rw [perform_eq_serve]
    exact bounds_iff hop
  refused hr := by
    rw [perform_eq_serve] at hr ⊢
    exact serve_of_error hr

/-- Whatever is done to frames from the empty stack on, every reply is the one of the ledger, numbers
of calls are never given out twice, and what is left is a store that the ledger describes. -/
theorem storesAs_ledger (ops : List Operation) :
    empty.answers ops = Ledger.empty.answers ops ∧
      ((empty.answers ops).filterMap Reply.began?).Nodup ∧
      (empty.after ops).StoresAs (Ledger.empty.after ops) := by
  obtain ⟨hreplies, hdescribes⟩ := answers_describes Ledger.Describes.empty ops
  refine ⟨hreplies, ?_, storesAs_of_describes hdescribes⟩
  rw [hreplies]
  exact (Ledger.empty.began_answers ops).1.imp fun hlt => Nat.ne_of_lt hlt

/-- Two calls of a function: the variable of the inner one is out of sight when it has ended. -/
example : empty.answers [.push 2 1, .set 0 (.int 5), .push 2 1, .getIn 2 .int 0, .setIn 2 0 (.int 7),
      .loadCached .int 0, .pop, .getIn 2 .int 0] =
    [.ok (.began 0), .ok .stored, .ok (.began 1), .ok (.value (.int 0)), .ok .stored,
      .ok (.value (.int 7)), .ok (.ended ⟨2, 1, 1⟩), .ok (.value (.int 5))] := rfl

end FrameStack

end CellMachine
