import CellMachine.Sink

/-!
# What sinks take

What a device takes of the bytes it is offered, it keeps. Main statements: a sink that takes everything
has all that was printed; and one with limited room takes the same while there is room, and the bytes
that fill it when there is none.
-/

namespace CellMachine

/-- What a print is refused with by a sink that is full. -/
def Refusal.reason : Refusal → String
  | closed => "sink closed"
  | full => Output.notWhole

namespace Output

variable {before o s t : Output}

/-! ### What is written stays written -/

/-- An output after more was written to it. Its device was asked for nothing but writes. -/
structure Extends (before o : Output) : Prop where
  device : o.device = before.device
  written : before.written.toList <+: o.written.toList
  requests : ∃ writes, o.requests = writes ++ before.requests ∧ .flush ∉ writes

theorem Extends.refl (o : Output) : o.Extends o := ⟨rfl, List.prefix_refl _, [], rfl, by simp⟩

theorem Extends.trans (h : before.Extends o) (h' : o.Extends t) : before.Extends t := by
  obtain ⟨writes, hrequests, hwrites⟩ := h.requests
  obtain ⟨writes', hrequests', hwrites'⟩ := h'.requests
  refine ⟨h'.device.trans h.device, h.written.trans h'.written, writes' ++ writes, ?_, ?_⟩
  · rw [hrequests', hrequests, List.append_assoc]
  · simp [hwrites, hwrites']

theorem Extends.flushes (h : before.Extends o) : o.flushes = before.flushes := by
  obtain ⟨writes, hrequests, hwrites⟩ := h.requests
  rw [Output.flushes, hrequests, List.count_append, List.count_eq_zero.2 hwrites, Nat.zero_add]
  rfl

/-- Once bytes were offered of which as many were taken. -/
def took (o : Output) (bytes : List UInt8) (count : Nat) : Output :=
  ⟨⟨.write bytes :: o.requests, o.written ++ bytes.take count⟩, o.device⟩

@[simp] theorem written_took (o : Output) (bytes : List UInt8) (count : Nat) :
    (o.took bytes count).written.toList = o.written.toList ++ bytes.take count := by
  simp [took]

@[simp] theorem size_took (o : Output) (bytes : List UInt8) (count : Nat) :
    (o.took bytes count).written.size = o.written.size + (bytes.take count).length := by
  rw [← Array.length_toList, written_took, List.length_append, Array.length_toList]

theorem extends_took (o : Output) (bytes : List UInt8) (count : Nat) :
    o.Extends (o.took bytes count) := by
  refine ⟨rfl, ?_, [.write bytes], rfl, by simp⟩
  rw [written_took]
  exact List.prefix_append _ _

/-- Offered bytes are taken from their beginning, or not at all. -/
theorem offer_cases (bytes : List UInt8) (o : Output) :
    (∃ reason, o.device.write o.toRecord bytes = .error reason ∧
      offer bytes o = .error reason (o.took bytes 0)) ∨
    ∃ count, o.device.write o.toRecord bytes = .ok count ∧
      offer bytes o = .ok (min count bytes.length) (o.took bytes count) := by
  obtain ⟨⟨requests, written⟩, device⟩ := o
  simp only [offer, took, List.take_zero]
  cases device.write ⟨requests, written⟩ bytes with
  | error reason => exact .inl ⟨reason, rfl, by simp⟩
  | ok count => exact .inr ⟨count, rfl, by simp⟩

/-- Once it was asked to pass on what was taken. -/
def flushed (o : Output) : Output := ⟨⟨.flush :: o.requests, o.written⟩, o.device⟩

theorem flush_eq (o : Output) :
    flush o = match o.device.flush o.toRecord with
      | .ok () => .ok () o.flushed
      | .error reason => .error reason o.flushed := rfl

/-! ### Writing everything -/

theorem writeRounds_congr {rounds rounds' : Nat} {bytes : List UInt8} (h : bytes.length ≤ rounds)
    (h' : bytes.length ≤ rounds') : writeRounds rounds bytes = writeRounds rounds' bytes := by
  induction rounds generalizing rounds' bytes with
  | zero =>
    obtain rfl := List.length_eq_zero_iff.1 (Nat.le_zero.1 h)
    cases rounds' <;> rfl
  | succ rounds ih =>
    cases bytes with
    | nil => cases rounds' <;> rfl
    | cons b bytes =>
      obtain ⟨rounds', rfl⟩ : ∃ r, rounds' = r + 1 := ⟨rounds' - 1, by simp at h'; omega⟩
      refine congrArg (offer (b :: bytes) >>= ·) (funext fun count => ?_)
      split
      · rfl
      · -- what is left is shorter, so that the rounds left are enough
        have hlength : ((b :: bytes).drop count).length = bytes.length + 1 - count :=
          List.length_drop
        simp only [List.length_cons] at h h'
        exact ih (by omega) (by omega)

/-- The bytes are offered, then those that were not taken, until none are left. -/
theorem writeAll_eq {bytes : List UInt8} (h : bytes ≠ []) :
    writeAll bytes = (do
      let count ← offer bytes
      if count = 0 then throw notWhole else writeAll (bytes.drop count)) := by
  obtain ⟨b, bytes, rfl⟩ := List.exists_cons_of_ne_nil h
  refine congrArg (offer (b :: bytes) >>= ·) (funext fun count => ?_)
  split
  · rfl
  · refine writeRounds_congr ?_ (Nat.le_refl _)
    simp only [List.length_drop, List.length_cons]
    omega

theorem writeAll_of_taken {bytes : List UInt8} {count : Nat}
    (hw : o.device.write o.toRecord bytes = .ok count) (hcount : 0 < count) (h : bytes ≠ []) :
    writeAll bytes o = writeAll (bytes.drop count) (o.took bytes count) := by
  have hlength : 0 < bytes.length := List.length_pos_iff.2 h
  rw [writeAll_eq h]
  rcases offer_cases bytes o with ⟨reason, hw', -⟩ | ⟨count', hw', hoffer⟩
  · cases hw.symm.trans hw'
  · cases hw.symm.trans hw'
    have hne : ¬ min count bytes.length = 0 := by omega
    show EStateM.bind _ _ o = _
    simp only [EStateM.bind, hoffer, if_neg hne]
    rcases Nat.le_total count bytes.length with hle | hle
    · rw [Nat.min_eq_left hle]
    · rw [Nat.min_eq_right hle, List.drop_length, List.drop_eq_nil_of_le hle]

theorem writeAll_of_whole {bytes : List UInt8}
    (hw : o.device.write o.toRecord bytes = .ok bytes.length) (h : bytes ≠ []) :
    writeAll bytes o = .ok () (o.took bytes bytes.length) := by
  rw [writeAll_of_taken hw (List.length_pos_iff.2 h) h, List.drop_length]
  rfl

/-! ### Sinks that take everything -/

variable {flushable : Bool} {total : Nat} {refusal : Refusal}

/-- The device is that of a sink which takes everything. -/
def IsOpen (flushable : Bool) (o : Output) : Prop := o.device = ({ flushable } : Sink).device

theorem IsOpen.print (h : o.IsOpen flushable) (pieces : List (List UInt8)) :
    ∃ o', Output.print pieces o = .ok () o' ∧ o'.IsOpen flushable ∧
      o'.written.toList = o.written.toList ++ pieces.flatten := by
  induction pieces generalizing o with
  | nil => exact ⟨o, rfl, h, by simp⟩
  | cons bytes pieces ih =>
    by_cases hbytes : bytes = []
    · subst hbytes
      exact ih h
    · have hw : o.device.write o.toRecord bytes = .ok bytes.length := by rw [h]; rfl
      obtain ⟨o', hprint, ho', hwritten⟩ := ih (o := o.took bytes bytes.length) h
      refine ⟨o', ?_, ho', ?_⟩
      · show EStateM.bind _ _ o = _
        simp only [EStateM.bind, writeAll_of_whole hw hbytes, hprint]
      · rw [hwritten, written_took, List.take_length, List.flatten_cons, List.append_assoc]

/-! ### Sinks with limited room -/

/-- A sink that takes `total` bytes in all, beside one that takes everything, while both have taken the
same. -/
structure Confined (total : Nat) (refusal : Refusal) (flushable : Bool) (s t : Output) : Prop where
  confined : s.device = ({ room := some total, refusal, flushable } : Sink).device
  opened : t.IsOpen flushable
  same : s.toRecord = t.toRecord
  fits : t.written.size ≤ total

theorem Confined.write_fitting (h : Confined total refusal flushable s t) {bytes : List UInt8}
    (hfits : t.written.size + bytes.length ≤ total) :
    ∃ s' t', writeAll bytes s = .ok () s' ∧ writeAll bytes t = .ok () t' ∧
      Confined total refusal flushable s' t' ∧
      t'.written.size = t.written.size + bytes.length ∧
      t'.written.toList = t.written.toList ++ bytes := by
  by_cases hbytes : bytes = []
  · subst hbytes
    exact ⟨s, t, rfl, rfl, h, rfl, by simp⟩
  have hlength : 0 < bytes.length := List.length_pos_iff.2 hbytes
  have hs : s.device.write s.toRecord bytes = .ok bytes.length := by
    rw [h.confined, h.same]
    simp only [Sink.device]
    rw [if_pos (by omega), Nat.min_eq_right (by omega)]
  have ht : t.device.write t.toRecord bytes = .ok bytes.length := by rw [h.opened]; rfl
  have hsize : (t.took bytes bytes.length).written.size = t.written.size + bytes.length := by
    rw [size_took, List.take_length]
  refine ⟨_, _, writeAll_of_whole hs hbytes, writeAll_of_whole ht hbytes, ?_, hsize, by simp⟩
  refine ⟨h.confined, h.opened, ?_, by omega⟩
  have hsame := h.same
  simp only [took, ← hsame]

/-- A sink with no room left refuses what is offered. -/
theorem writeAll_of_full {bytes : List UInt8}
    (hdevice : s.device = ({ room := some total, refusal, flushable } : Sink).device)
    (hfull : total ≤ s.written.size) (h : bytes ≠ []) :
    writeAll bytes s = .error refusal.reason (s.took bytes 0) := by
  rw [writeAll_eq h]
  show EStateM.bind _ _ s = _
  rcases offer_cases bytes s with ⟨reason, hw, hoffer⟩ | ⟨count, hw, hoffer⟩
  · cases refusal with
    | closed =>
      have hreason : reason = "sink closed" := by
        simpa [hdevice, Sink.device, Nat.not_lt.2 hfull, eq_comm] using hw
      simp only [EStateM.bind, hoffer, hreason]
      rfl
    | full => simp [hdevice, Sink.device, Nat.not_lt.2 hfull] at hw
  · cases refusal with
    | closed => simp [hdevice, Sink.device, Nat.not_lt.2 hfull] at hw
    | full =>
      have hcount : count = 0 := by
        simpa [hdevice, Sink.device, Nat.not_lt.2 hfull, eq_comm] using hw
      subst hcount
      simp only [EStateM.bind, hoffer, Nat.zero_min, if_true]
      rfl

/-- A write that has no room leaves the bytes that fill the sink. -/
theorem Confined.write_overflowing (h : Confined total refusal flushable s t) {bytes : List UInt8}
    (hover : total < t.written.size + bytes.length) :
    ∃ s', writeAll bytes s = .error refusal.reason s' ∧
      s'.written.toList = (t.written.toList ++ bytes).take total := by
  have hfits := h.fits
  have hbytes : bytes ≠ [] := by
    rintro rfl
    simp only [List.length_nil] at hover
    omega
  have hwritten : s.written = t.written := congrArg Record.written h.same
  have htake : (t.written.toList ++ bytes).take total =
      t.written.toList ++ bytes.take (total - t.written.size) := by
    have hall : t.written.toList.take total = t.written.toList :=
      List.take_of_length_le (by rw [Array.length_toList]; exact hfits)
    rw [List.take_append, hall, Array.length_toList]
  rcases Nat.lt_or_ge t.written.size total with hroom | hfull
  · -- some of the bytes fit, and the rest is offered to a full sink
    have hw : s.device.write s.toRecord bytes = .ok (total - t.written.size) := by
      rw [h.confined, h.same]
      simp only [Sink.device]
      rw [if_pos hroom, Nat.min_eq_left (by omega)]
    have hsize : (s.took bytes (total - t.written.size)).written.size = total := by
      rw [size_took, hwritten, List.length_take]
      omega
    have hrest : bytes.drop (total - t.written.size) ≠ [] := by
      rw [Ne, List.drop_eq_nil_iff]
      omega
    have hfull := writeAll_of_full (s := s.took bytes _) h.confined (Nat.le_of_eq hsize.symm) hrest
    refine ⟨_, (writeAll_of_taken hw (by omega) hbytes).trans hfull, ?_⟩
    rw [written_took, written_took, hwritten, List.take_zero, List.append_nil, htake]
  · refine ⟨_, writeAll_of_full h.confined (hwritten ▸ hfull) hbytes, ?_⟩
    rw [written_took, hwritten, htake, Nat.sub_eq_zero_of_le hfull, List.take_zero]

theorem print_cons {bytes : List UInt8} {pieces : List (List UInt8)} {s s' : Output}
    (h : writeAll bytes s = .ok () s') : print (bytes :: pieces) s = print pieces s' := by
  show EStateM.bind _ _ s = _
  simp only [EStateM.bind, h]

theorem Confined.print_fitting (h : Confined total refusal flushable s t) {pieces : List (List UInt8)}
    (hfits : t.written.size + pieces.flatten.length ≤ total) : ∃ s', print pieces s = .ok () s' := by
  induction pieces generalizing s t with
  | nil => exact ⟨s, rfl⟩
  | cons bytes pieces ih =>
    rw [List.flatten_cons, List.length_append] at hfits
    have hfirst : t.written.size + bytes.length ≤ total := by omega
    obtain ⟨s', t', hs', -, hkept, hsize, -⟩ := h.write_fitting hfirst
    rw [print_cons hs']
    exact ih hkept (by omega)

/-- Of a print that has no room, the bytes that have some are taken, whatever piece they are in. -/
theorem Confined.print_overflowing (h : Confined total refusal flushable s t)
    {pieces : List (List UInt8)} (hover : total < t.written.size + pieces.flatten.length) :
    ∃ s', print pieces s = .error refusal.reason s' ∧
      s'.written.toList = (t.written.toList ++ pieces.flatten).take total := by
  induction pieces generalizing s t with
  | nil =>
    have hfits := h.fits
    simp only [List.flatten_nil, List.length_nil] at hover
    omega
  | cons bytes pieces ih =>
    rw [List.flatten_cons, List.length_append] at hover
    rcases Nat.lt_or_ge total (t.written.size + bytes.length) with hnow | hlater
    · obtain ⟨s', hs', hwritten⟩ := h.write_overflowing hnow
      refine ⟨s', ?_, ?_⟩
      · show EStateM.bind _ _ s = _
        simp only [EStateM.bind, hs']
      · have hle : total ≤ (t.written.toList ++ bytes).length := by
          rw [List.length_append, Array.length_toList]
          omega
        rw [hwritten, List.flatten_cons, ← List.append_assoc, List.take_append_of_le_length hle]
    · obtain ⟨s', t', hs', -, hkept, hsize, hwritten⟩ := h.write_fitting hlater
      rw [print_cons hs', List.flatten_cons, ← List.append_assoc, ← hwritten]
      exact ih hkept (by omega)

end Output

end CellMachine
