import Stencil.Journal
import Stencil.Proofs.Comparison.Rules

namespace Stencil

namespace Level

theorem le_refl (a : Level) : a ≤ a := Nat.le_refl a.rank

theorem le_trans {a b c : Level} (h : a ≤ b) (h' : b ≤ c) : a ≤ c := Nat.le_trans h h'

theorem not_lt {a b : Level} : ¬ a < b ↔ b ≤ a := Nat.not_lt

theorem not_le {a b : Level} : ¬ a ≤ b ↔ b < a := Nat.not_le

end Level

namespace Journal

variable {j j' : Journal} {d : Diagnostic}

theorem outcome_emit (d : Diagnostic) (j : Journal) :
    (emit d).outcome j =
      if d.level = .none then (.ok (), j)
      else if d.level = .error then
        if j.strict then (.error (.raised d), j.countError.record d)
        else (.ok (), j.countError.publishFrom d)
      else (.ok (), j.publishFrom d) := by
  unfold Attempt.outcome emit
  cases d.level with
  | error => cases j.strict <;> rfl
  | _ => rfl

theorem outcome_reported {α : Type} (location : Option Location) (message : String) (j : Journal) :
    (reported location message : Attempt Journal α).outcome j =
      if j.strict then
        (.error (.raised ⟨.error, message, location⟩), j.countError.record ⟨.error, message, location⟩)
      else (.error (.reported ⟨.error, message, location⟩),
        j.countError.publishFrom ⟨.error, message, location⟩) := by
  unfold reported
  rw [Attempt.outcome_bind, outcome_emit]
  cases j.strict <;> rfl

theorem outcome_fatal {α : Type} (location : Option Location) (message : String) (j : Journal) :
    (fatal location message : Attempt Journal α).outcome j =
      (.error (.fatal ⟨.error, message, location⟩), j.publishFatal ⟨.error, message, location⟩) := rfl

/-- An error passes every threshold that lets errors pass. -/
theorem records_publishFrom (h : j.threshold ≤ d.level) :
    (j.publishFrom d).records = j.records ++ [d] := by
  unfold publishFrom
  rw [if_neg (Level.not_lt.mpr h)]
  rfl

/-- A later journal of the same run. -/
structure Onward (j j' : Journal) : Prop where
  threshold : j'.threshold = j.threshold
  strict : j'.strict = j.strict
  errors : j.errors ≤ j'.errors
  records : j.records <+: j'.records

namespace Onward

theorem refl (j : Journal) : Onward j j := ⟨rfl, rfl, Nat.le_refl _, List.prefix_refl _⟩

theorem trans {j₁ j₂ j₃ : Journal} (h : Onward j₁ j₂) (h' : Onward j₂ j₃) : Onward j₁ j₃ :=
  ⟨h'.threshold.trans h.threshold, h'.strict.trans h.strict, Nat.le_trans h.errors h'.errors,
    h.records.trans h'.records⟩

theorem record (j : Journal) (d : Diagnostic) : Onward j (j.record d) :=
  ⟨rfl, rfl, Nat.le_refl _, List.prefix_append _ _⟩

theorem mention (j : Journal) (level : Level) (text : String) : Onward j (j.mention level text) :=
  ⟨rfl, rfl, Nat.le_refl _, List.prefix_refl _⟩

theorem countError (j : Journal) : Onward j j.countError :=
  ⟨rfl, rfl, Nat.le_succ _, List.prefix_refl _⟩

theorem publish (j : Journal) (d : Diagnostic) : Onward j (j.publish d) :=
  (record j d).trans (mention _ _ _)

theorem publishFrom (j : Journal) (d : Diagnostic) : Onward j (j.publishFrom d) := by
  unfold Journal.publishFrom
  split
  · exact refl j
  · exact publish j d

theorem publishFatal (j : Journal) (d : Diagnostic) : Onward j (j.publishFatal d) :=
  (countError j).trans (publish _ d)

theorem emit (j : Journal) (d : Diagnostic) : Onward j ((Journal.emit d).outcome j).2 := by
  rw [outcome_emit]
  split
  · exact refl j
  · split
    · split
      · exact (countError j).trans (record _ d)
      · exact (countError j).trans (publishFrom _ d)
    · exact publishFrom j d

theorem reported {α : Type} (j : Journal) (location : Option Location) (message : String) :
    Onward j ((Journal.reported location message : Attempt Journal α).outcome j).2 := by
  rw [outcome_reported]
  split
  · exact (countError j).trans (record _ _)
  · exact (countError j).trans (publishFrom _ _)

end Onward

end Journal

end Stencil
