/-!
# Stacks

Items on top of each other, the topmost first. A stack keeps its depth, so that limits on it are
checked in constant time; that the depth is the number of items holds by the type.
-/

namespace CellMachine

structure Stack (α : Type) where
  items : List α
  depth : Nat
  depth_eq : depth = items.length

namespace Stack

variable {α : Type}

def empty : Stack α := ⟨[], 0, rfl⟩

instance : Inhabited (Stack α) := ⟨empty⟩

def ofList (items : List α) : Stack α := ⟨items, items.length, rfl⟩

def push (s : Stack α) (item : α) : Stack α :=
  ⟨item :: s.items, s.depth + 1, by simp [s.depth_eq]⟩

def top? (s : Stack α) : Option α := s.items.head?

/-- The top item and the stack below it. -/
def pop? (s : Stack α) : Option (α × Stack α) :=
  match s with
  | ⟨[], _, _⟩ => none
  | ⟨item :: rest, depth, depth_eq⟩ => some (item, ⟨rest, depth - 1, by simp [depth_eq]⟩)

/-- Changes the topmost item that is chosen. -/
def updateFirst (chosen : α → Bool) (change : α → α) (items : List α) : List α :=
  items.modify (items.findIdx chosen) change

@[simp] theorem updateFirst_nil (chosen : α → Bool) (change : α → α) :
    updateFirst chosen change [] = [] := rfl

theorem updateFirst_cons (chosen : α → Bool) (change : α → α) (item : α) (rest : List α) :
    updateFirst chosen change (item :: rest) =
      if chosen item then change item :: rest else item :: updateFirst chosen change rest := by
  by_cases h : chosen item <;> simp [updateFirst, List.findIdx_cons, List.modify_cons, h]

@[simp] theorem length_updateFirst (chosen : α → Bool) (change : α → α) (items : List α) :
    (updateFirst chosen change items).length = items.length := by
  simp [updateFirst]

def update (s : Stack α) (chosen : α → Bool) (change : α → α) : Stack α :=
  match s with
  | ⟨items, depth, depth_eq⟩ => ⟨updateFirst chosen change items, depth, by simp [depth_eq]⟩

/-! ### What each operation does to the items -/

@[ext] theorem ext {s t : Stack α} (h : s.items = t.items) : s = t := by
  obtain ⟨_, _, rfl⟩ := s
  obtain ⟨_, _, rfl⟩ := t
  cases h
  rfl

@[simp] theorem items_empty : (empty : Stack α).items = [] := rfl

@[simp] theorem items_ofList (items : List α) : (ofList items).items = items := rfl

@[simp] theorem items_push (s : Stack α) (item : α) : (s.push item).items = item :: s.items := rfl

@[simp] theorem items_update (s : Stack α) (chosen : α → Bool) (change : α → α) :
    (s.update chosen change).items = updateFirst chosen change s.items := rfl

@[simp] theorem depth_update (s : Stack α) (chosen : α → Bool) (change : α → α) :
    (s.update chosen change).depth = s.depth := rfl

theorem pop?_eq_some_iff {s t : Stack α} {item : α} :
    s.pop? = some (item, t) ↔ s.items = item :: t.items := by
  obtain ⟨items, depth, rfl⟩ := s
  cases items with
  | nil => simp [pop?]
  | cons head rest =>
    simp only [pop?, Option.some.injEq, Prod.mk.injEq, List.cons.injEq]
    refine and_congr_right fun _ => ⟨fun h => ?_, fun h => ?_⟩
    · rw [← h]
    · exact ext h

theorem pop?_eq_none_iff {s : Stack α} : s.pop? = none ↔ s.items = [] := by
  obtain ⟨items, depth, rfl⟩ := s
  cases items <;> simp [pop?]

theorem depth_of_pop? {s t : Stack α} {item : α} (h : s.pop? = some (item, t)) :
    s.depth = t.depth + 1 := by
  rw [s.depth_eq, t.depth_eq, pop?_eq_some_iff.1 h, List.length_cons]

end Stack

end CellMachine
