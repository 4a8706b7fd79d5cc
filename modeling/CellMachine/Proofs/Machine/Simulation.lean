import CellMachine.Proofs.Machine.Endings

/-!
# Simulations

Two runs, which may be of different programs, in states that a relation describes. Main statement: if
the next turns keep the relation wherever it holds and the runs do not part there, then both runs come
to the same, or to two states in the relation, after as many turns, where they part.
-/

namespace CellMachine

namespace Machine

variable {p p' : Program} {limits limits' : Limits}
  {R Parts : Position × Machine → Position × Machine → Prop} {J : Machine → Machine → Prop}

/-- Turns of two runs that come to states with the relation, or that end both runs in the same way. -/
inductive Together (R : Position × Machine → Position × Machine → Prop)
    (J : Machine → Machine → Prop) : Progress → Progress → Prop
  | running {q q' : Position} {m n : Machine} (h : R (q, m) (q', n)) :
    Together R J (.running q m) (.running q' n)
  | ended (fault? : Option Fault) {m n : Machine} (h : J m n) :
    Together R J (.ended fault? m) (.ended fault? n)

/-- What a simulation has to show of two states with the relation. -/
def Simulates (p p' : Program) (limits limits' : Limits)
    (R Parts : Position × Machine → Position × Machine → Prop) (J : Machine → Machine → Prop) :
    Prop :=
  ∀ s t, R s t →
    Parts s t ∨ Together R J (s.2.advance p limits s.1) (t.2.advance p' limits' t.1)

theorem Simulates.endsAs (step : Simulates p p' limits limits' R Parts J)
    {s t : Position × Machine} (h : R s t) {fault? : Option Fault} {m : Machine}
    (he : EndsAs p limits s fault? m) :
    (∃ s' t', Reaches p limits s s' ∧ Reaches p' limits' t t' ∧ R s' t' ∧ Parts s' t') ∨
      ∃ n, EndsAs p' limits' t fault? n ∧ J m n := by
  obtain ⟨u, hr, ha⟩ := he
  -- From the front: the second run has made no turn yet that the first has not made too.
  induction hr using Relation.ReflTransGen.head_induction_on generalizing t with
  | refl =>
    rcases step u t h with hparts | hturn
    · exact .inl ⟨u, t, .refl, .refl, h, hparts⟩
    rw [ha] at hturn
    generalize hb : t.2.advance p' limits' t.1 = r at hturn
    cases hturn with
    | ended _ hleft => exact .inr ⟨_, ⟨t, .refl, hb⟩, hleft⟩
  | @head s s₁ hst _ ih =>
    rcases step s t h with hparts | hturn
    · exact .inl ⟨s, t, .refl, .refl, h, hparts⟩
    have hs : s.2.advance p limits s.1 = .running s₁.1 s₁.2 := hst
    rw [hs] at hturn
    generalize hb : t.2.advance p' limits' t.1 = r at hturn
    cases hturn with
    | @running _ q' _ n h' =>
      have htt : Turn p' limits' t (q', n) := hb
      rcases ih h' with ⟨s', t', hs', ht', hrel, hparts⟩ | ⟨n', hn', hleft⟩
      · exact .inl ⟨s', t', .head hst hs', .head htt ht', hrel, hparts⟩
      · exact .inr ⟨n', .of_reaches (.single htt) hn', hleft⟩

/-- Runs that have stored their arguments alike: both come to the same, or visit states where they
part. -/
theorem Simulates.comesTo (step : Simulates p p' limits limits' R Parts J) {args : List Cell}
    {m n : Machine} {E : Machine → Machine → Prop}
    (hstart : Agree (fun _ => False) E
      (storeArguments args.length args 0 (m.enter p.entryFunction))
      (storeArguments args.length args 0 (n.enter p'.entryFunction)))
    (hR : ∀ a b, storeArguments args.length args 0 (m.enter p.entryFunction) = .ok () a → E a b →
      R (⟨p.entryFunction, 0⟩, a) (⟨p'.entryFunction, 0⟩, b))
    (hJ : ∀ a b, E a b → J a b) {o : Outcome} (ho : ComesTo p limits args m o) :
    (∃ s t, Visits p limits args m s ∧ Visits p' limits' args n t ∧ R s t ∧ Parts s t) ∨
      ∃ fault? a b, o = outcome fault? a ∧ ComesTo p' limits' args n (outcome fault? b) ∧ J a b := by
  rcases comesTo_iff.1 ho with ⟨cause, a, ha, rfl⟩ | ⟨entered, fault?, a, ha, he, rfl⟩
  · rw [ha] at hstart
    generalize hb : storeArguments args.length args 0 (n.enter p'.entryFunction) = r at hstart
    cases hstart with
    | @error _ _ b hab =>
      exact .inr ⟨some { cause }, a, b, rfl, comesTo_iff.2 (.inl ⟨cause, b, hb, rfl⟩), hJ a b hab⟩
    | excused _ hex => exact hex.elim
  · rw [ha] at hstart
    generalize hb : storeArguments args.length args 0 (n.enter p'.entryFunction) = r at hstart
    cases hstart with
    | @ok _ _ entered' hentered =>
      rcases step.endsAs (hR _ _ ha hentered) he with ⟨s, t, hs, ht, hrel, hparts⟩ | ⟨b, hends, hleft⟩
      · exact .inl ⟨s, t, ⟨entered, ha, hs⟩, ⟨entered', hb, ht⟩, hrel, hparts⟩
      · exact .inr ⟨fault?, a, b, rfl,
          comesTo_iff.2 (.inr ⟨entered', fault?, b, hb, hends, rfl⟩), hleft⟩

end Machine

end CellMachine
