import Stencil.Proofs.Triple

/-! Two runs of one step, side by side. They go on abreast, giving the same values and failing with
the same failures, until the first run may be cut off; from there on the second only has to stay
ahead of where the first one ended. -/

namespace Stencil

variable {σ α β γ : Type}

namespace Attempt

theorem outcome_bind (x : Attempt σ α) (f : α → Attempt σ β) (s : σ) :
    (x >>= f).outcome s = match x.outcome s with
      | (.ok a, t) => (f a).outcome t
      | (.error e, t) => (.error e, t) := by
  unfold outcome
  simp only [Bind.bind, EStateM.bind]
  cases x s <;> rfl

/-- A step that ends ends in both of its parts. -/
theorem outcome_bind_eq_ok_iff {x : Attempt σ α} {f : α → Attempt σ β} {s u : σ} {b : β} :
    (x >>= f).outcome s = (.ok b, u) ↔
      ∃ a t, x.outcome s = (.ok a, t) ∧ (f a).outcome t = (.ok b, u) := by
  rw [outcome_bind]
  constructor
  · intro h
    split at h
    · next a t hx => exact ⟨a, t, hx, h⟩
    · cases h
  · rintro ⟨a, t, hx, hf⟩
    rw [hx]
    exact hf

theorem outcome_caught (x : Attempt σ α) (s : σ) :
    x.caught.outcome s = (.ok (x.outcome s).1, (x.outcome s).2) := by
  unfold outcome caught
  cases x s <;> rfl

end Attempt

/-- Three kinds of failures end a run. -/
@[elab_as_elim]
theorem Failure.ending_cases {motive : Failure → Prop} {e : Failure} (he : e.endsRun = true)
    (fatal : ∀ d, motive (.fatal d)) (raised : ∀ d, motive (.raised d))
    (occupied : ∀ destination, motive (.occupied destination)) : motive e := by
  cases e with
  | fatal d => exact fatal d
  | raised d => exact raised d
  | occupied destination => exact occupied destination
  | _ => cases he

/-- How the states of two runs are compared. -/
structure Comparison (σ : Type) where
  /-- The two runs have come equally far. -/
  abreast : σ → σ → Prop
  /-- The first run ended where the second has gone on from. -/
  passed : σ → σ → Prop

namespace Comparison

/-- How two runs end that were abreast: alike, or with the first one cut off by a failure that is
recorded and ends the run. Where they fail alike, the failure is one of `F`. -/
inductive Ends (C : Comparison σ) (F : Failure → Prop) :
    Except Failure α × σ → Except Failure α × σ → Prop
  | value {a : α} {s t : σ} (h : C.abreast s t) : Ends C F (.ok a, s) (.ok a, t)
  | failure {e : Failure} {s t : σ} (he : F e) (h : C.abreast s t) :
    Ends C F (.error e, s) (.error e, t)
  | cut {e : Failure} {s t : σ} {result : Except Failure α} (hends : e.endsRun = true)
    (hrecorded : e.isRecorded = true) (h : C.passed s t) : Ends C F (.error e, s) (result, t)

end Comparison

/-- A step under which runs that are abreast end alike or with the first one cut off, and under which
a run that has passed another stays ahead. -/
structure Matched (C : Comparison σ) (F : Failure → Prop) (x : Attempt σ α) : Prop where
  ends : ∀ s t, C.abreast s t → C.Ends F (x.outcome s) (x.outcome t)
  ahead : ∀ s t, C.passed s t → C.passed s (x.outcome t).2

namespace Matched

variable {C : Comparison σ} {F G : Failure → Prop} {x : Attempt σ α}

theorem mono (h : Matched C F x) (hF : ∀ e, F e → G e) : Matched C G x := by
  refine ⟨fun s t hst => ?_, h.ahead⟩
  have hends := h.ends s t hst
  generalize x.outcome s = left, x.outcome t = right at hends
  cases hends with
  | value h => exact .value h
  | failure he h => exact .failure (hF _ he) h
  | cut hends hrecorded h => exact .cut hends hrecorded h

/-- Where no run is passed, only how runs end that were abreast counts. -/
theorem of_ends (hC : ∀ s t, ¬ C.passed s t)
    (h : ∀ s t, C.abreast s t → C.Ends F (x.outcome s) (x.outcome t)) : Matched C F x :=
  ⟨h, fun s t hst => absurd hst (hC s t)⟩

theorem pure (a : α) : Matched C F (Pure.pure a : Attempt σ α) :=
  ⟨fun _ _ h => .value h, fun _ _ h => h⟩

theorem throw {e : Failure} (he : F e) : Matched C F (MonadExcept.throw e : Attempt σ α) :=
  ⟨fun _ _ h => .failure he h, fun _ _ h => h⟩

theorem ofExcept {y : Except Failure α} (h : ∀ e, y = .error e → F e) :
    Matched C F (Attempt.ofExcept y : Attempt σ α) := by
  cases y with
  | ok a => exact pure a
  | error e => exact throw (h e rfl)

theorem bind {f : α → Attempt σ β} (hx : Matched C F x) (hf : ∀ a, Matched C F (f a)) :
    Matched C F (x >>= f) := by
  constructor
  · intro s t hst
    have hends := hx.ends s t hst
    rw [Attempt.outcome_bind, Attempt.outcome_bind]
    generalize x.outcome s = left, x.outcome t = right at hends
    cases hends with
    | value h => exact (hf _).ends _ _ h
    | failure he h => exact .failure he h
    | @cut e s' t' result hends hrecorded h =>
      -- the second run may go on, and then stays ahead
      cases result with
      | ok a => exact .cut hends hrecorded ((hf a).ahead _ _ h)
      | error e' => exact .cut hends hrecorded h
  · intro s t hst
    have hahead := hx.ahead s t hst
    rw [Attempt.outcome_bind]
    generalize x.outcome t = right at hahead
    obtain ⟨result, t'⟩ := right
    cases result with
    | ok a => exact (hf a).ahead _ _ hahead
    | error e => exact hahead

/-- A failure that is caught may be passed on, and one that ends the run has to be. What is left to
fail with, `G`, may depend on what was caught. -/
theorem caught_bind {f : Except Failure α → Attempt σ β} {H : Except Failure α → Failure → Prop}
    (hx : Matched C F x) (hf : ∀ result, Matched C (H result) (f result))
    (hH : ∀ result, (∀ e, result = .error e → F e) → ∀ e, H result e → G e)
    (hthrow : ∀ e, e.endsRun = true → f (.error e) = MonadExcept.throw e) :
    Matched C G (x.caught >>= f) := by
  constructor
  · intro s t hst
    have hends := hx.ends s t hst
    rw [Attempt.outcome_bind, Attempt.outcome_bind, Attempt.outcome_caught, Attempt.outcome_caught]
    generalize x.outcome s = left, x.outcome t = right at hends
    cases hends with
    | @value a _ _ h =>
      exact ((hf (.ok a)).mono (hH _ fun e he => nomatch he)).ends _ _ h
    | @failure e _ _ he h =>
      refine ((hf (.error e)).mono (hH _ fun e' he' => ?_)).ends _ _ h
      cases he'
      exact he
    | @cut e s' t' result hends hrecorded h =>
      simp only [hthrow e hends]
      exact .cut hends hrecorded ((hf result).ahead _ _ h)
  · intro s t hst
    rw [Attempt.outcome_bind, Attempt.outcome_caught]
    exact (hf _).ahead _ _ (hx.ahead s t hst)

theorem ite {c : Prop} [Decidable c] {y : Attempt σ α} (hx : c → Matched C F x)
    (hy : ¬ c → Matched C F y) : Matched C F (if c then x else y) := by
  split
  · next h => exact hx h
  · next h => exact hy h

theorem mapM {f : γ → Attempt σ α} (h : ∀ c, Matched C F (f c)) (l : List γ) :
    Matched C F (l.mapM f) := by
  induction l with
  | nil => exact pure []
  | cons c l ih =>
    rw [List.mapM_cons]
    exact (h c).bind fun _ => ih.bind fun _ => pure _

theorem forM {f : γ → Attempt σ PUnit} (h : ∀ c, Matched C F (f c)) (l : List γ) :
    Matched C F (l.forM f) := by
  induction l with
  | nil => exact pure _
  | cons c l ih => exact (h c).bind fun _ => ih

theorem foldlM {f : β → γ → Attempt σ β} (h : ∀ b c, Matched C F (f b c)) (l : List γ) (b : β) :
    Matched C F (l.foldlM f b) := by
  induction l generalizing b with
  | nil => exact pure b
  | cons c l ih =>
    rw [List.foldlM_cons]
    exact (h b c).bind fun b' => ih b'

end Matched

end Stencil
