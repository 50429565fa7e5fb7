import Stencil.Proofs.Comparison.Rules
import Stencil.Proofs.Triple
import Stencil.Run

namespace Stencil

variable {σ τ α β γ : Type} {get : σ → τ}

/-- A step after which a part of the state is what it was. -/
def Leaves (get : σ → τ) (x : Attempt σ α) : Prop := ∀ s, get (x.outcome s).2 = get s

namespace Leaves

theorem of_outcome {x : Attempt σ α} (h : Leaves get x) {s t : σ} {result : Except Failure α}
    (hx : x.outcome s = (result, t)) : get t = get s := by
  have hs := h s
  rwa [hx] at hs

theorem triple {x : Attempt σ α} (h : Leaves get x) (part : τ) :
    Triple (fun s => get s = part) x (fun _ s => get s = part) fun s => get s = part := by
  rintro s rfl
  have hs := h s
  unfold Attempt.outcome at hs
  cases hx : x s with
  | ok a s' =>
    rw [hx] at hs
    exact hs
  | error e s' =>
    rw [hx] at hs
    exact hs

theorem bind {x : Attempt σ α} {f : α → Attempt σ β} (hx : Leaves get x)
    (hf : ∀ a, Leaves get (f a)) : Leaves get (x >>= f) := by
  intro s
  have hs := hx s
  rw [Attempt.outcome_bind]
  split
  · next a s' hrun => rw [hf a s', ← hs, hrun]
  · next e s' hrun => rw [← hs, hrun]

theorem caught {x : Attempt σ α} (hx : Leaves get x) : Leaves get x.caught := by
  intro s
  rw [Attempt.outcome_caught]
  exact hx s

theorem foldlM {f : β → γ → Attempt σ β} (hf : ∀ b c, Leaves get (f b c)) (b : β) (l : List γ) :
    Leaves get (l.foldlM f b) := by
  induction l generalizing b with
  | nil => exact fun _ => rfl
  | cons c l ih =>
    rw [List.foldlM_cons]
    exact (hf b c).bind fun b => ih b

theorem ite {c : Prop} [Decidable c] {x y : Attempt σ α} (hx : Leaves get x) (hy : Leaves get y) :
    Leaves get (if c then x else y) := by
  split
  · exact hx
  · exact hy

theorem pure (a : α) : Leaves get (Pure.pure a : Attempt σ α) := fun _ => rfl

theorem mapM {f : β → Attempt σ α} (hf : ∀ b, Leaves get (f b)) (l : List β) :
    Leaves get (l.mapM f) := by
  induction l with
  | nil => exact pure []
  | cons b l ih =>
    rw [List.mapM_cons]
    exact (hf b).bind fun _ => ih.bind fun _ => pure _

theorem forM {f : β → Attempt σ PUnit} (hf : ∀ b, Leaves get (f b)) (l : List β) :
    Leaves get (l.forM f) := by
  induction l with
  | nil => exact pure _
  | cons b l ih => exact (hf b).bind fun _ => ih

theorem throw (e : Failure) : Leaves get (MonadExcept.throw e : Attempt σ α) := fun _ => rfl

theorem ofExcept (x : Except Failure α) : Leaves get (Attempt.ofExcept x) := by
  intro s
  cases x <;> rfl

section

variable {get : Run → τ} (hget : ∀ s expansion, get { s with expansion } = get s)
include hget

theorem expanding (x : Attempt Expansion α) : Leaves get (Run.expanding x) := by
  intro s
  unfold Attempt.outcome Run.expanding Attempt.onPart
  cases x s.expansion <;> exact hget s _

theorem say (level : Level) (message : String) : Leaves get (Run.say level message) := by
  unfold Run.say Run.journaled
  exact expanding hget _

theorem detail (message : String) : Leaves get (Run.detail message) := by
  unfold Run.detail Run.journaled
  exact expanding hget _

end

theorem onFiles {get : Run → τ} (hget : ∀ s files, get { s with files } = get s) (x : FileStep α) :
    Leaves get (Run.onFiles x) := by
  intro s
  unfold Attempt.outcome Run.onFiles
  cases x s.files <;> exact hget s _

theorem looking {get : Run → τ} (x : FileSystem → Except FileFault α) :
    Leaves get (Run.looking x) := by
  intro s
  unfold Attempt.outcome Run.looking
  cases x s.files <;> rfl

theorem currentFiles {get : Run → τ} : Leaves get Run.currentFiles := fun _ => rfl

end Leaves

end Stencil
