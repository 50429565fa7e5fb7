import Stencil.Proofs.Path.Denotation

namespace Stencil.Path

open Text

theorem placeFrom_eq (p : Path) (place : List String) :
    p.placeFrom place = leads (if p.isRooted then [] else place) p.moves := by
  unfold placeFrom components moves
  cases p.isRooted
  · by_cases hd : p.segments.head? = some "."
    · simp [hd, Component.lead]
    · simp [hd]
  · simp [Component.lead]

theorem moving_moves (p : Path) : Moving p.moves := fun _ hc => eq_up_or_name_of_mem_moves hc

theorem moves_empty : (Path.mk "").moves = [] := rfl

theorem isPrefixOf_iff {start text : String} :
    start.isPrefixOf text = true ↔ start.toList <+: text.toList := by
  unfold String.isPrefixOf
  rw [String.startsWith_string_iff]

/-- A component whose text is read as that component. -/
def Written (c : Component) : Prop := step? c.text = some c ∧ '/' ∉ c.text.toList

theorem written_up : Written .up := ⟨rfl, by decide⟩

theorem written_of_mem_moves {p : Path} {c : Component} (h : c ∈ p.moves) : Written c := by
  obtain ⟨segment, hmem, hstep⟩ := List.mem_filterMap.mp h
  have hc : c.text = segment := by
    simp only [step?] at hstep
    split at hstep
    · simp at hstep
    · split at hstep
      · next hup => rw [← Option.some.inj hstep, hup, Component.text]
      · rw [← Option.some.inj hstep, Component.text]
  exact ⟨hc ▸ hstep, hc ▸ slash_notMem_of_mem_segments hmem⟩

theorem moves_ofComponents {way : List Component} (h : ∀ c ∈ way, Written c) :
    (ofComponents way).moves = way := by
  rw [ofComponents, moves_intercalate]
  · induction way with
    | nil => rfl
    | cons c way ih =>
      simp only [List.map_cons, List.filterMap_cons, (h c List.mem_cons_self).1]
      rw [ih fun x hx => h x (List.mem_cons_of_mem _ hx)]
  · intro part hp
    obtain ⟨c, hc, rfl⟩ := List.mem_map.mp hp
    exact (h c hc).2

theorem isRooted_ofComponents {way : List Component} (h : ∀ c ∈ way, Written c) :
    (ofComponents way).isRooted = false := by
  cases way with
  | nil => decide
  | cons c way =>
    obtain ⟨hstep, hfree⟩ := h c List.mem_cons_self
    have hne : c.text.toList ≠ [] := by
      intro hnil
      have ht : c.text = "" := String.toList_injective hnil
      simp [step?, ht] at hstep
    obtain ⟨x, xs, hx⟩ := List.exists_cons_of_ne_nil hne
    have hslash : x ≠ '/' := fun he => hfree (by simp [hx, he])
    cases way <;> simp [isRooted, ofComponents, String.toList_intercalate, hx, hslash]

theorem ofComponents_singleton (c : Component) : ofComponents [c] = ⟨c.text⟩ := by
  rw [ofComponents, List.map_singleton, String.intercalate_singleton]

/-- Joining the components of a path one after the other appends its moves. -/
theorem moves_foldl_join {p start : Path} (h : start.isRooted = true) (way : List Component)
    (hway : ∀ c ∈ way, c ∈ p.moves) :
    (way.foldl (fun q c => q.join ⟨c.text⟩) start).moves = start.moves ++ way ∧
      (way.foldl (fun q c => q.join ⟨c.text⟩) start).isRooted = true := by
  induction way generalizing start with
  | nil => simp [h]
  | cons c way ih =>
    have hw : ∀ x ∈ [c], Written x := by
      simpa using written_of_mem_moves (hway c List.mem_cons_self)
    have hm : (Path.mk c.text).moves = [c] := by
      rw [← ofComponents_singleton, moves_ofComponents hw]
    have hr : (Path.mk c.text).isRooted = false := by
      rw [← ofComponents_singleton, isRooted_ofComponents hw]
    have hjoin := ih (isRooted_join h ⟨c.text⟩) fun x hx => hway x (List.mem_cons_of_mem _ hx)
    simp only [List.foldl_cons]
    rw [hjoin.1, moves_join start hr, hm]
    exact ⟨by simp, hjoin.2⟩

/-- The absolute form of a path that is not empty goes on from the working directory, or from the
root if the path is rooted. -/
theorem absolute?_eq_some {p workingDirectory : Path} (hp : p.text ≠ "")
    (hw : workingDirectory.isRooted = true) :
    ∃ whole, p.absolute? workingDirectory = some whole ∧ whole.isRooted = true ∧
      whole.moves = (if p.isRooted then [] else workingDirectory.moves) ++ p.moves := by
  let doubled := "//".isPrefixOf p.text && !"///".isPrefixOf p.text
  let start : Path := if doubled then ⟨"//"⟩ else if p.isRooted then ⟨"/"⟩ else workingDirectory
  have hdoubled : doubled = true → p.isRooted = true := by
    intro hd
    obtain ⟨rest, hrest⟩ := isPrefixOf_iff.mp (Bool.and_eq_true_iff.mp hd).1
    exact isRooted_iff.mpr ⟨'/' :: rest, hrest.symm⟩
  -- the three forms of the start, two slashes, one slash and the working directory
  have hstart : start.isRooted = true ∧
      start.moves = if p.isRooted then [] else workingDirectory.moves := by
    by_cases hd : doubled = true
    · simp only [start, hd, hdoubled hd, if_true]
      decide
    · by_cases hr : p.isRooted = true
      · simp only [start, hd, hr, if_true]
        decide
      · simp [start, hd, hr, hw]
  obtain ⟨hmoves, hrooted⟩ := moves_foldl_join (p := p) hstart.1 p.moves fun c hc => hc
  refine ⟨_, by rw [absolute?, if_neg hp], ?_, ?_⟩
  · split
    · exact isRooted_join hrooted _
    · exact hrooted
  · rw [← hstart.2, ← hmoves]
    split
    · rw [moves_join _ (by decide), moves_empty, List.append_nil]
      rfl
    · rfl

/-- Absolute paths denote what the path denotes from the working directory. -/
theorem placeFrom_absolute {p workingDirectory whole : Path} (hw : workingDirectory.isRooted = true)
    (h : p.absolute? workingDirectory = some whole) (place : List String) :
    whole.placeFrom place = p.placeFrom (workingDirectory.placeFrom []) := by
  have hp : p.text ≠ "" := by
    intro ht
    simp [absolute?, ht] at h
  obtain ⟨whole', h', hr, hm⟩ := absolute?_eq_some hp hw
  obtain rfl := Option.some.inj (h.symm.trans h')
  simp only [placeFrom_eq, hr, hw, hm, if_true]
  cases p.isRooted <;> simp

/-- What a joined path denotes is what its second part denotes from the first. -/
theorem placeFrom_join {p : Path} (hp : p.isRooted = true) (q : Path) (place : List String) :
    (p.join q).placeFrom place = q.placeFrom (p.placeFrom place) := by
  cases hq : q.isRooted with
  | true =>
    rw [join, if_pos hq, placeFrom_eq, placeFrom_eq, hq]
    rfl
  | false => simp [placeFrom_eq, hp, hq, isRooted_join hp, moves_join p hq]

theorem fileName?_eq_some_iff {p : Path} {name : String} :
    p.fileName? = some name ↔ p.moves.getLast? = some (.name name) := by
  have hlast : p.components.getLast? = p.moves.getLast?.or
      (if p.isRooted then [Component.root] else if p.segments.head? = some "." then [.here]
        else []).getLast? := List.getLast?_append
  unfold fileName?
  rw [hlast]
  cases p.moves.getLast? with
  | some c => cases c <;> simp
  | none =>
    simp only [Option.none_or, reduceCtorEq, iff_false]
    split
    · next h =>
      revert h
      split <;> [skip; split] <;> simp
    · simp

/-- A path that ends in a name denotes an entry of what its parent denotes. -/
theorem placeFrom_parent {p r : Path} (h : p.parent? = some r) {name : String}
    (hn : p.fileName? = some name) (place : List String) :
    p.placeFrom place = r.placeFrom place ++ [name] := by
  obtain ⟨front, hf⟩ := List.getLast?_eq_some_iff.mp (fileName?_eq_some_iff.mp hn)
  have hr : r.moves = front := by rw [moves_parent h, hf, List.dropLast_concat]
  calc p.placeFrom place
      = leads (if p.isRooted then [] else place) (r.moves ++ [.name name]) := by
        rw [placeFrom_eq, hf, hr]
    _ = leads (if r.isRooted then [] else place) r.moves ++ [name] := by
        rw [leads_append, isRooted_parent h]
        rfl
    _ = r.placeFrom place ++ [name] := by rw [placeFrom_eq r]

end Stencil.Path
