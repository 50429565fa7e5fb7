import Stencil.Journal

namespace Stencil

variable {ε σ α β : Type}

theorem bind_eq_ok_iff {x : Except ε α} {f : α → Except ε β} {b : β} :
    x >>= f = .ok b ↔ ∃ a, x = .ok a ∧ f a = .ok b := by
  constructor
  · intro h
    cases x with
    | error e => cases h
    | ok a => exact ⟨a, rfl, h⟩
  · rintro ⟨a, rfl, h⟩
    exact h

/-- A value that something is known of is there. -/
theorem exists_of_toOption {x : Except ε α} {f : α → β} {b : β} (h : x.toOption.map f = some b) :
    ∃ a, x = .ok a ∧ f a = b := by
  cases x with
  | error e => cases h
  | ok a => exact ⟨a, rfl, Option.some.inj h⟩

def failureOf? : Except ε α → Option ε
  | .error e => some e
  | .ok _ => none

theorem eq_error_of_failureOf? {x : Except ε α} {e : ε} (h : failureOf? x = some e) : x = .error e := by
  cases x with
  | error e' => rw [Option.some.inj h]
  | ok a => cases h

/-- What holds of a value, or of the failure in its place. -/
def Ends (x : Except ε α) (Q : α → Prop) (E : ε → Prop) : Prop :=
  match x with
  | .ok a => Q a
  | .error e => E e

namespace Ends

variable {x : Except ε α} {Q Q' : α → Prop} {E : ε → Prop}

theorem mono (h : Ends x Q E) (hQ : ∀ a, Q a → Q' a) : Ends x Q' E := by
  cases x with
  | ok a => exact hQ a h
  | error e => exact h

theorem bind {f : α → Except ε β} {R : β → Prop} (hx : Ends x Q E) (hf : ∀ a, Q a → Ends (f a) R E) :
    Ends (x >>= f) R E := by
  cases x with
  | ok a => exact hf a hx
  | error e => exact hx

theorem of_ok {a : α} (h : Ends x Q E) (hx : x = .ok a) : Q a := by
  rwa [hx] at h

theorem of_error {e : ε} (h : Ends x Q E) (hx : x = .error e) : E e := by
  rwa [hx] at h

end Ends

/-- Started where `P` holds, the step ends where `Q` holds of its value, or fails where `E` holds. -/
def Triple (P : σ → Prop) (x : EStateM ε σ α) (Q : α → σ → Prop) (E : σ → Prop) : Prop :=
  ∀ s, P s → match x s with
    | .ok a t => Q a t
    | .error _ t => E t

namespace Triple

variable {P P' : σ → Prop} {x : EStateM ε σ α} {Q Q' : α → σ → Prop} {E E' : σ → Prop}

theorem mono (h : Triple P x Q E) (hP : ∀ s, P' s → P s) (hQ : ∀ a s, Q a s → Q' a s)
    (hE : ∀ s, E s → E' s) : Triple P' x Q' E' := by
  intro s hs
  have ht := h s (hP s hs)
  split at ht
  · exact hQ _ _ ht
  · exact hE _ ht

theorem mono_error (h : Triple P x Q E) (hE : ∀ s, E s → E' s) : Triple P x Q E' :=
  h.mono (fun _ h => h) (fun _ _ h => h) hE

section

variable {y : Attempt σ α} {s t : σ} (h : Triple P y Q E) (hs : P s)
include h hs

theorem at_outcome : match y.outcome s with
    | (.ok a, t) => Q a t
    | (.error _, t) => E t := by
  have ht := h s hs
  unfold Attempt.outcome
  split at ht
  · next hrun =>
    rw [hrun]
    exact ht
  · next hrun =>
    rw [hrun]
    exact ht

theorem of_outcome {a : α} (hy : y.outcome s = (.ok a, t)) : Q a t := by
  have ht := h.at_outcome hs
  rwa [hy] at ht

theorem of_outcome_error {e : Failure} (hy : y.outcome s = (.error e, t)) : E t := by
  have ht := h.at_outcome hs
  rwa [hy] at ht

end

/-- A step that ends was run from where it was started. -/
theorem ran (y : Attempt σ α) : Triple P y (fun a t => ∃ s, P s ∧ y.outcome s = (.ok a, t))
    fun _ => True := by
  intro s hs
  split
  · next hrun => exact ⟨s, hs, by rw [Attempt.outcome, hrun]⟩
  · exact True.intro

/-- What holds after a step, whether or not it fails. -/
theorem after {y : Attempt σ α} (h : Triple P y (fun _ => E) E) {s : σ} (hs : P s) :
    E (y.outcome s).2 := by
  cases hy : y.outcome s with
  | mk result t =>
    cases result with
    | ok a => exact h.of_outcome hs hy
    | error e => exact h.of_outcome_error hs hy

theorem pure {a : α} (h : ∀ s, P s → Q a s) : Triple P (Pure.pure a : EStateM ε σ α) Q E := h

theorem bind {f : α → EStateM ε σ β} {R : β → σ → Prop} (hx : Triple P x Q E)
    (hf : ∀ a, Triple (Q a) (f a) R E) : Triple P (x >>= f) R E := by
  intro s hs
  have ht := hx s hs
  change match EStateM.bind x f s with | .ok a t => R a t | .error _ t => E t
  unfold EStateM.bind
  cases hrun : x s with
  | ok a t =>
    rw [hrun] at ht
    exact hf a t ht
  | error e t =>
    rw [hrun] at ht
    exact ht

/-- What is known of a step from two sides. -/
theorem and {Q₂ : α → σ → Prop} {E₂ : σ → Prop} (h : Triple P x Q E) (h' : Triple P' x Q₂ E₂) :
    Triple (fun s => P s ∧ P' s) x (fun a s => Q a s ∧ Q₂ a s) fun s => E s ∧ E₂ s := by
  intro s hs
  have ht := h s hs.1
  have ht' := h' s hs.2
  cases hrun : x s with
  | ok a t =>
    rw [hrun] at ht ht'
    exact ⟨ht, ht'⟩
  | error e t =>
    rw [hrun] at ht ht'
    exact ⟨ht, ht'⟩

theorem of_and {φ : Prop} (h : φ → Triple P x Q E) : Triple (fun s => P s ∧ φ) x Q E :=
  fun s hs => h hs.2 s hs.1

theorem trivial (P : σ → Prop) (x : EStateM ε σ α) :
    Triple P x (fun _ _ => True) fun _ => True := by
  intro s _
  split <;> exact True.intro

theorem ite {c : Prop} [Decidable c] {y : EStateM ε σ α} (hx : c → Triple P x Q E)
    (hy : ¬ c → Triple P y Q E) : Triple P (if c then x else y) Q E := by
  split
  · next h => exact hx h
  · next h => exact hy h

/-- What holds of the result that is caught tells whether the step failed. -/
theorem caught_result {y : Attempt σ α} (h : Triple P y Q E) :
    Triple P y.caught (fun result s => match result with
      | .ok a => Q a s
      | .error _ => E s) E' := by
  intro s hs
  have ht := h s hs
  unfold Attempt.caught
  cases hy : y s with
  | ok a t =>
    rw [hy] at ht
    exact ht
  | error e t =>
    rw [hy] at ht
    exact ht

/-- A failure that is caught is a value. -/
theorem caught {I : σ → Prop} {y : Attempt σ α} (h : Triple P y (fun _ => I) I) :
    Triple P y.caught (fun _ => I) I := by
  refine (caught_result h).mono (fun _ hs => hs) (fun result _ hs => ?_) fun _ hs => hs
  cases result with
  | ok a => exact hs
  | error e => exact hs

theorem ofExcept {y : Except Failure α} :
    Triple P (Attempt.ofExcept y) (fun a s => P s ∧ y = .ok a) P := by
  intro s hs
  cases y with
  | ok a => exact ⟨hs, rfl⟩
  | error e => exact hs

/-- What one round keeps is kept by all of them. -/
theorem forM {γ : Type} {l : List γ} {f : γ → EStateM ε σ PUnit}
    (h : ∀ c ∈ l, Triple P (f c) (fun _ => P) E) : Triple P (l.forM f) (fun _ => P) E := by
  induction l with
  | nil => exact fun _ hs => hs
  | cons c l ih =>
    exact (h c List.mem_cons_self).bind fun _ => ih fun d hd => h d (List.mem_cons_of_mem _ hd)

/-- What a round adds to what earlier ones have done, all of them add one after the other. -/
theorem forM_done {γ : Type} {I : List γ → σ → Prop} {l : List γ} {f : γ → EStateM ε σ PUnit}
    (h : ∀ done, ∀ c ∈ l, Triple (I done) (f c) (fun _ => I (done ++ [c])) E) (done : List γ) :
    Triple (I done) (l.forM f) (fun _ => I (done ++ l)) E := by
  induction l generalizing done with
  | nil => exact Triple.pure fun _ hs => by simpa using hs
  | cons c l ih =>
    refine (h done c List.mem_cons_self).bind fun _ => ?_
    have hrest := ih (fun done d hd => h done d (List.mem_cons_of_mem _ hd)) (done ++ [c])
    simpa using hrest

/-- What one round keeps, of the state and of the value that is handed on, all of them keep. -/
theorem foldlM {γ : Type} {I : β → σ → Prop} {l : List γ} {f : β → γ → EStateM ε σ β}
    (h : ∀ b, ∀ c ∈ l, Triple (I b) (f b c) I E) (b : β) : Triple (I b) (l.foldlM f b) I E := by
  induction l generalizing b with
  | nil => exact fun _ hs => hs
  | cons c l ih =>
    rw [List.foldlM_cons]
    exact (h b c List.mem_cons_self).bind fun b' =>
      ih (fun b d hd => h b d (List.mem_cons_of_mem _ hd)) b'

end Triple

end Stencil
