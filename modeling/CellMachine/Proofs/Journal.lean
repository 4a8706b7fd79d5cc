import CellMachine.Journal

/-!
# Journals

What a journal comes to when events happen one after the other. Main statement: behind what it had it
keeps those of the events that it admits, in their order.
-/

namespace CellMachine.Journal

variable {kind kind' : Event → Prop} {j k l : Journal}

/-- A journal after events have happened. -/
def recordAll (j : Journal) (es : List Event) : Journal := es.foldl record j

/-- Those of the events that a journal keeps. -/
def admitted (j : Journal) (es : List Event) : List Event := es.filter fun e => j.admits e.level

/-- A journal with more events in it, which come after all that it has. -/
def append (j : Journal) (log : List Event) : Journal :=
  { j with recorded := log.reverse ++ j.recorded }

theorem append_append (j : Journal) (log more : List Event) :
    (j.append log).append more = j.append (log ++ more) := by
  simp [append]

@[simp] theorem events_append (j : Journal) (log : List Event) :
    (j.append log).events = j.events ++ log := by
  simp [append, events]

theorem record_of_admits {e : Event} (h : j.admits e.level) : j.record e = j.append [e] := by
  rw [record, if_pos h]
  rfl

theorem record_append {e : Event} (h : j.admits e.level) (log : List Event) :
    (j.append log).record e = j.append (log ++ [e]) := by
  rw [record_of_admits (j := j.append log) h, append_append]

theorem record_of_not_admits {e : Event} (h : ¬ j.admits e.level) : j.record e = j := by
  rw [record, if_neg h]

theorem recordAll_eq (j : Journal) (es : List Event) : j.recordAll es = j.append (j.admitted es) := by
  induction es generalizing j with
  | nil => rfl
  | cons e es ih =>
    show (j.record e).recordAll es = _
    by_cases h : j.admits e.level
    · have hall : j.admitted (e :: es) = [e] ++ j.admitted es := List.filter_cons_of_pos h
      rw [record_of_admits h, ih, append_append, hall]
      rfl
    · have hall : j.admitted (e :: es) = j.admitted es := List.filter_cons_of_neg h
      rw [record_of_not_admits h, ih, hall]

theorem events_recordAll (j : Journal) (es : List Event) :
    (j.recordAll es).events = j.events ++ j.admitted es := by
  rw [recordAll_eq, events_append]

theorem recordAll_append (j : Journal) (es more : List Event) :
    j.recordAll (es ++ more) = (j.recordAll es).recordAll more :=
  List.foldl_append

/-! ### Events of one kind -/

/-- A journal after events of one kind have happened. -/
def Extends (kind : Event → Prop) (j k : Journal) : Prop :=
  ∃ es, k = j.recordAll es ∧ ∀ e ∈ es, kind e

theorem Extends.refl (kind : Event → Prop) (j : Journal) : j.Extends kind j :=
  ⟨[], rfl, fun _ he => (List.not_mem_nil he).elim⟩

theorem Extends.trans (h : j.Extends kind k) (h' : k.Extends kind l) : j.Extends kind l := by
  obtain ⟨es, rfl, hes⟩ := h
  obtain ⟨more, rfl, hmore⟩ := h'
  refine ⟨es ++ more, (recordAll_append j es more).symm, fun e he => ?_⟩
  rcases List.mem_append.1 he with he | he
  · exact hes e he
  · exact hmore e he

theorem Extends.record (h : j.Extends kind k) {e : Event} (he : kind e) :
    j.Extends kind (k.record e) :=
  h.trans ⟨[e], rfl, fun _ hmem => List.mem_singleton.1 hmem ▸ he⟩

theorem Extends.mono (h : j.Extends kind k) (hkind : ∀ e, kind e → kind' e) :
    j.Extends kind' k := by
  obtain ⟨es, hk, hes⟩ := h
  exact ⟨es, hk, fun e he => hkind e (hes e he)⟩

theorem Extends.exists_append (h : j.Extends kind k) :
    ∃ log, k = j.append log ∧ ∀ e ∈ log, kind e := by
  obtain ⟨es, rfl, hes⟩ := h
  exact ⟨_, recordAll_eq j es, fun e he => hes e (List.mem_filter.1 he).1⟩

end CellMachine.Journal
