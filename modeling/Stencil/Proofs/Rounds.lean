import Stencil.Proofs.Comparison.Rules
import Stencil.Proofs.Triple

namespace Stencil

variable {σ τ γ δ α : Type} {step step' : γ → σ → σ → Prop} {c : γ} {l : List γ} {s t u : σ}

/-- Rounds taken one after the other, each from where the one before it led. -/
inductive Linked (step : γ → σ → σ → Prop) : List γ → σ → σ → Prop
  | nil {s : σ} : Linked step [] s s
  | cons {c : γ} {l : List γ} {s t u : σ} (first : step c s t) (rest : Linked step l t u) :
    Linked step (c :: l) s u

namespace Linked

/-- What a round keeps holds at its start, and may say more of what the round does. -/
theorem mono_kept {I : σ → Prop} (h : Linked step l s t) (hs : I s)
    (hstep : ∀ c ∈ l, ∀ s t, I s → step c s t → step' c s t ∧ I t) : Linked step' l s t ∧ I t := by
  induction h with
  | nil => exact ⟨.nil, hs⟩
  | cons first _ ih =>
    obtain ⟨hfirst, hkept⟩ := hstep _ List.mem_cons_self _ _ hs first
    obtain ⟨hrest, hlast⟩ := ih hkept fun c hc => hstep c (List.mem_cons_of_mem _ hc)
    exact ⟨.cons hfirst hrest, hlast⟩

/-- What every round keeps is kept by all of them. -/
theorem keeps {I : σ → Prop} (h : Linked step l s t) (hs : I s)
    (hstep : ∀ c ∈ l, ∀ s t, I s → step c s t → I t) : I t :=
  (h.mono_kept hs fun c hc s t hI hround => (⟨hround, hstep c hc s t hI hround⟩ : step c s t ∧ I t)).2

/-- Rounds that are all taken are taken up to any of them. -/
theorem split {l l' : List γ} (h : Linked step (l ++ l') s u) :
    ∃ t, Linked step l s t ∧ Linked step l' t u := by
  induction l generalizing s with
  | nil => exact ⟨s, .nil, h⟩
  | cons c l ih =>
    cases h with
    | cons first rest =>
      obtain ⟨t, hfront, hback⟩ := ih rest
      exact ⟨t, .cons first hfront, hback⟩

/-- Two rows of rounds over one list, each round of the one beside that of the other: what relates
their states after any of the rounds relates them after all. -/
theorem together {beside : γ → τ → τ → Prop} {I : List γ → σ → τ → Prop} {s' t' : τ}
    (h : Linked step l s t) (h' : Linked beside l s' t') {done : List γ} (hstart : I done s s')
    (hround : ∀ done c, c ∈ l → ∀ s t s' t', I done s s' → step c s t → beside c s' t' →
      I (done ++ [c]) t t') : I (done ++ l) t t' := by
  induction h generalizing done s' with
  | nil =>
    cases h'
    rwa [List.append_nil]
  | cons first _ ih =>
    cases h' with
    | cons first' rest' =>
      have hnext := hround _ _ List.mem_cons_self _ _ _ _ hstart first first'
      rw [List.append_cons]
      exact ih rest' hnext fun done c hc => hround done c (List.mem_cons_of_mem _ hc)

theorem of_map {g : δ → γ} {l : List δ} (h : Linked (fun d => step (g d)) l s t) :
    Linked step (l.map g) s t := by
  induction h with
  | nil => exact .nil
  | cons first _ ih => exact .cons first ih

end Linked

/-- Whether a step leads from one state to another, whatever its result. -/
def Attempt.Runs (x : Attempt σ α) (s t : σ) : Prop := ∃ result, x.outcome s = (result, t)

/-- A loop that ends takes all its rounds to their ends. -/
theorem Linked.of_forM {l : List γ} {f : γ → Attempt σ PUnit} {s t : σ}
    (h : Attempt.outcome (l.forM f) s = (.ok ⟨⟩, t)) :
    Linked (fun c s t => (f c).outcome s = (.ok ⟨⟩, t)) l s t := by
  induction l generalizing s with
  | nil =>
    cases h
    exact .nil
  | cons c l ih =>
    have hbind : Attempt.outcome ((c :: l).forM f) s =
        Attempt.outcome (f c >>= fun _ => l.forM f) s := rfl
    rw [hbind, Attempt.outcome_bind] at h
    split at h
    · next a s' hfirst => exact .cons hfirst (ih h)
    · cases h

/-- As `Linked.of_forM`, with a value that is handed on. -/
theorem Linked.of_foldlM {l : List γ} {f : α → γ → Attempt σ α} {a b : α} {s t : σ}
    (h : Attempt.outcome (l.foldlM f a) s = (.ok b, t)) :
    Linked (fun c p q => (f p.1 c).outcome p.2 = (.ok q.1, q.2)) l (a, s) (b, t) := by
  induction l generalizing a s with
  | nil =>
    cases h
    exact .nil
  | cons c l ih =>
    rw [List.foldlM_cons, Attempt.outcome_bind] at h
    split at h
    · next next s' hfirst => exact .cons (t := (next, s')) hfirst (ih h)
    · cases h

namespace Triple

variable {P : σ → Prop} {E : σ → Prop}

theorem runs (x : Attempt σ α) (s : σ) : Triple (· = s) x (fun _ => x.Runs s) (x.Runs s) := by
  rintro _ rfl
  unfold Attempt.Runs Attempt.outcome
  split
  · next h => exact ⟨_, by rw [h]⟩
  · next h => exact ⟨_, by rw [h]⟩

/-- A loop that ends takes all its rounds, and one that fails takes some of the first. -/
theorem forM_linked (l : List γ) (f : γ → Attempt σ PUnit) (s : σ) :
    Triple (· = s) (l.forM f) (fun _ => Linked (fun c => (f c).Runs) l s)
      (fun t => ∃ taken, taken <+: l ∧ Linked (fun c => (f c).Runs) taken s t) := by
  induction l generalizing s with
  | nil =>
    rintro _ rfl
    exact .nil
  | cons c l ih =>
    refine ((runs (f c) s).mono_error fun t ht => ?_).bind fun _ t ht => ?_
    · exact ⟨[c], List.prefix_append [c] l, .cons ht .nil⟩
    · refine ((ih t).mono (fun _ h => h) (fun _ _ hrest => .cons ht hrest) fun u hrest => ?_) t rfl
      obtain ⟨taken, hprefix, hlinked⟩ := hrest
      exact ⟨c :: taken, List.cons_prefix_cons.mpr ⟨rfl, hprefix⟩, .cons ht hlinked⟩

end Triple

end Stencil
