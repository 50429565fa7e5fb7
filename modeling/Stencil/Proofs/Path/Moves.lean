import Mathlib.Data.List.Induction
import Stencil.Path
import Stencil.Proofs.Text.Parts

namespace Stencil.Path

open Text

/-- The components of a path behind its front. -/
def moves (p : Path) : List Component := p.segments.filterMap step?

theorem components_of_isRooted {p : Path} (h : p.isRooted = true) :
    p.components = .root :: p.moves := by
  simp [components, moves, h]

theorem isRooted_iff {p : Path} : p.isRooted = true ↔ ∃ rest, p.text.toList = '/' :: rest := by
  simp only [isRooted, decide_eq_true_eq]
  cases p.text.toList with
  | nil => simp
  | cons c rest => simp

theorem isRooted_append {a b : String} (h : (Path.mk a).isRooted = true) :
    (Path.mk (a ++ b)).isRooted = true := by
  obtain ⟨rest, hr⟩ := isRooted_iff.mp h
  exact isRooted_iff.mpr ⟨rest ++ b.toList, by
    simp only [String.toList_append] at hr ⊢
    simp [hr]⟩

theorem isRooted_append_of_ne {a b : String} (ha : a ≠ "")
    (h : (Path.mk a).isRooted = false) : (Path.mk (a ++ b)).isRooted = false := by
  have hne : a.toList ≠ [] := fun hnil => ha (String.toList_injective (by simpa using hnil))
  obtain ⟨c, cs, hc⟩ := List.exists_cons_of_ne_nil hne
  simpa [isRooted, hc] using h

/-- Only names and steps upwards are moves. -/
theorem eq_up_or_name_of_step {segment : String} {c : Component} (h : step? segment = some c) :
    c = .up ∨ ∃ text, c = .name text := by
  simp only [step?] at h
  split at h
  · simp at h
  · split at h
    · exact Or.inl (Option.some.inj h).symm
    · exact Or.inr ⟨segment, (Option.some.inj h).symm⟩

theorem eq_up_or_name_of_mem_moves {p : Path} {c : Component} (h : c ∈ p.moves) :
    c = .up ∨ ∃ text, c = .name text := by
  obtain ⟨segment, -, hs⟩ := List.mem_filterMap.mp h
  exact eq_up_or_name_of_step hs

/-- A path that never goes up takes its named segments as steps. -/
theorem moves_of_up_notMem {p : Path} (h : ".." ∉ p.segments) :
    p.moves = (p.segments.filter fun segment => segment ≠ "" && segment ≠ ".").map .name := by
  unfold moves
  generalize p.segments = segments at h
  induction segments with
  | nil => rfl
  | cons segment segments ih =>
    have hrest := ih fun hmem => h (List.mem_cons_of_mem _ hmem)
    have hup : segment ≠ ".." := fun heq => h (heq ▸ List.mem_cons_self)
    by_cases hempty : segment = ""
    · simpa [step?, hempty] using hrest
    · by_cases hpoint : segment = "."
      · simpa [step?, hpoint] using hrest
      · simpa [step?, hempty, hpoint, hup] using hrest

theorem slash_notMem_of_mem_segments {p : Path} {segment : String} (h : segment ∈ p.segments) :
    '/' ∉ segment.toList := by
  obtain ⟨part, hp, rfl⟩ := List.mem_map.mp h
  intro hc
  simpa using free_of_mem_splitChars hp '/' (by simpa using hc)

theorem segments_slash (a b : String) :
    (Path.mk (a ++ "/" ++ b)).segments = (Path.mk a).segments ++ (Path.mk b).segments := by
  have hcut : (a ++ "/" ++ b).toList = a.toList ++ '/' :: b.toList := by simp
  simp only [segments, split, hcut]
  rw [splitChars_append (by simp), List.map_append]

theorem moves_slash (a b : String) :
    (Path.mk (a ++ "/" ++ b)).moves = (Path.mk a).moves ++ (Path.mk b).moves := by
  simp only [moves, segments_slash, List.filterMap_append]

theorem moves_slash_front (b : String) : (Path.mk ("/" ++ b)).moves = (Path.mk b).moves := by
  rw [← String.empty_append (s := "/"), moves_slash]
  rfl

theorem segments_intercalate {parts : List String} (hne : parts ≠ [])
    (h : ∀ part ∈ parts, '/' ∉ part.toList) :
    (Path.mk ("/".intercalate parts)).segments = parts := by
  have hs : splitChars (· == '/') (List.intercalate ['/'] (parts.map String.toList)) =
      parts.map String.toList := splitChars_intercalate (by simpa using hne)
    (by simpa using h)
  simp only [segments, split, String.toList_intercalate]
  rw [show "/".toList = ['/'] from rfl, hs]
  simp [Function.comp_def]

/-- Parts between slashes are the moves of the text that they make up. -/
theorem moves_intercalate {parts : List String} (h : ∀ part ∈ parts, '/' ∉ part.toList) :
    (Path.mk ("/".intercalate parts)).moves = parts.filterMap step? := by
  cases parts with
  | nil => rfl
  | cons part parts => rw [moves, segments_intercalate (by simp) h]

theorem isRooted_join {p : Path} (h : p.isRooted = true) (q : Path) :
    (p.join q).isRooted = true := by
  unfold join
  split
  · assumption
  · split
    · exact isRooted_append h
    · exact isRooted_append (isRooted_append h)

/-- What is read off the segments of a joined path, as long as empty segments count for nothing. -/
theorem filterMap_segments_join {β : Type} {f : String → Option β} (hempty : f "" = none) (p : Path)
    {q : Path} (h : q.isRooted = false) :
    (p.join q).segments.filterMap f = p.segments.filterMap f ++ q.segments.filterMap f := by
  unfold join
  simp only [h, Bool.false_eq_true, if_false]
  split
  · next hp =>
    rcases hp with hp | hp
    · have hm : p.segments.filterMap f = [] := by simp [segments, split, splitChars, hempty, hp]
      rw [hm, hp, String.empty_append, List.nil_append]
    · -- the slash at the end of `p` is the one between the two
      obtain ⟨front, hf⟩ := List.getLast?_eq_some_iff.mp hp
      have ht : p.text = String.ofList front ++ "/" ++ "" := by
        apply String.toList_injective
        simpa using hf
      have hp' : p.segments.filterMap f = (Path.mk (String.ofList front)).segments.filterMap f := by
        have hsegments := segments_slash (String.ofList front) ""
        rw [← ht] at hsegments
        rw [show p.segments = _ from hsegments]
        simp [segments, split, splitChars, hempty]
      have hq : p.text ++ q.text = String.ofList front ++ "/" ++ q.text := by simp [ht]
      rw [hp', hq, segments_slash, List.filterMap_append]
  · rw [segments_slash, List.filterMap_append]

theorem moves_join (p : Path) {q : Path} (h : q.isRooted = false) :
    (p.join q).moves = p.moves ++ q.moves := filterMap_segments_join rfl p h

theorem dropIdle_concat (segments : List String) (segment : String) :
    dropIdle (segments ++ [segment]) =
      if step? segment = none then dropIdle segments else segments ++ [segment] := by
  cases h : step? segment <;> simp [dropIdle, h]

theorem dropIdle_isPrefix (segments : List String) : dropIdle segments <+: segments := by
  induction segments using List.reverseRecOn with
  | nil => exact List.prefix_refl _
  | append_singleton segments segment ih =>
    rw [dropIdle_concat]
    split
    · exact ih.trans (List.prefix_append _ _)
    · exact List.prefix_refl _

theorem filterMap_dropIdle (segments : List String) :
    (dropIdle segments).filterMap step? = segments.filterMap step? := by
  induction segments using List.reverseRecOn with
  | nil => rfl
  | append_singleton segments segment ih =>
    rw [dropIdle_concat]
    split
    · next h => simp [ih, h]
    · rfl

theorem filterMap_dropLast_dropIdle (segments : List String) :
    (dropIdle segments).dropLast.filterMap step? = (segments.filterMap step?).dropLast := by
  induction segments using List.reverseRecOn with
  | nil => rfl
  | append_singleton segments segment ih =>
    rw [dropIdle_concat]
    split
    · next h => simp [ih, h]
    · next h =>
      obtain ⟨c, hc⟩ := Option.ne_none_iff_exists'.mp h
      simp [hc]

/-- What `parent?` keeps of the segments behind the front. -/
theorem filterMap_kept (segments : List String) :
    (dropIdle (dropIdle segments).dropLast).filterMap step? =
      (segments.filterMap step?).dropLast := by
  rw [filterMap_dropIdle, filterMap_dropLast_dropIdle]

theorem mem_of_mem_kept {segments : List String} {segment : String}
    (h : segment ∈ dropIdle (dropIdle segments).dropLast) : segment ∈ segments :=
  (dropIdle_isPrefix _).subset (List.dropLast_subset _ ((dropIdle_isPrefix _).subset h))

theorem segments_of_isRooted {p : Path} (h : p.isRooted = true) :
    ∃ rest : List Char, p.text.toList = '/' :: rest ∧
      p.segments = "" :: (Path.mk (String.ofList rest)).segments := by
  obtain ⟨rest, hr⟩ := isRooted_iff.mp h
  exact ⟨rest, hr, by simp [segments, split, hr, splitChars]⟩

theorem head?_segments_eq_empty {p : Path} (h : p.segments.head? = some "") :
    p.text = "" ∨ p.isRooted = true := by
  cases ht : p.text.toList with
  | nil => exact Or.inl (String.toList_injective (by simpa using ht))
  | cons c rest =>
    by_cases hc : c = '/'
    · exact Or.inr (isRooted_iff.mpr ⟨rest, by rw [ht, hc]⟩)
    · simp only [segments, split, ht, splitChars, beq_eq_false_iff_ne.mpr hc] at h
      cases hs : splitChars (· == '/') rest with
      | nil => exact absurd hs (splitChars_ne_nil _ rest)
      | cons part parts => simp [hs] at h

/-- A text of segments from the front of a path that is not rooted is not rooted either. -/
theorem isRooted_intercalate {p : Path} (hp : p.isRooted = false) (ht : p.text ≠ "")
    {parts : List String} (h : parts <+: p.segments) :
    (Path.mk ("/".intercalate parts)).isRooted = false := by
  by_contra hr
  rw [Bool.not_eq_false] at hr
  cases parts with
  | nil => exact absurd hr (by decide)
  | cons part parts =>
    obtain ⟨rest, -, hs⟩ := segments_of_isRooted hr
    rw [segments_intercalate (by simp)
      fun s hs => slash_notMem_of_mem_segments (h.subset hs)] at hs
    obtain ⟨more, hm⟩ := h
    have hhead : p.segments.head? = some "" := by
      rw [← hm, (List.cons.inj hs).1]
      rfl
    rcases head?_segments_eq_empty hhead with he | he
    · exact ht he
    · simp [hp] at he

/-! The three forms of a parent, by the front of the path. -/

theorem parent?_of_isRooted {p : Path} (h : p.isRooted = true) :
    p.parent? = if dropIdle p.segments.tail = [] then none
      else some ⟨"/" ++ "/".intercalate (dropIdle (dropIdle p.segments.tail).dropLast)⟩ := by
  simp [parent?, h]

theorem parent?_of_here {p : Path} (h : p.isRooted = false) (hd : p.segments.head? = some ".") :
    p.parent? = if dropIdle p.segments.tail = [] then some ⟨""⟩
      else if dropIdle (dropIdle p.segments.tail).dropLast = [] then some ⟨"."⟩
      else some ⟨"." ++ "/" ++ "/".intercalate (dropIdle (dropIdle p.segments.tail).dropLast)⟩ := by
  by_cases hk : dropIdle (dropIdle p.segments.tail).dropLast = []
  · simp [parent?, h, hd, hk]
  · simp [parent?, h, hd, hk]

theorem parent?_of_bare {p : Path} (h : p.isRooted = false) (hd : p.segments.head? ≠ some ".") :
    p.parent? = if dropIdle p.segments = [] then none
      else some ⟨"/".intercalate (dropIdle (dropIdle p.segments).dropLast)⟩ := by
  simp [parent?, h, hd]

theorem moves_of_isRooted {p : Path} (h : p.isRooted = true) :
    p.moves = p.segments.tail.filterMap step? := by
  obtain ⟨rest, -, hs⟩ := segments_of_isRooted h
  simp [moves, hs, step?]

theorem moves_of_here {p : Path} (h : p.segments.head? = some ".") :
    p.moves = p.segments.tail.filterMap step? := by
  obtain ⟨tail, ht⟩ := List.head?_eq_some_iff.mp h
  simp [moves, ht, step?]

theorem moves_kept {p : Path} {segments : List String} (h : segments ⊆ p.segments) :
    (Path.mk ("/".intercalate (dropIdle (dropIdle segments).dropLast))).moves =
      (segments.filterMap step?).dropLast := by
  rw [moves_intercalate fun part hp => slash_notMem_of_mem_segments (h (mem_of_mem_kept hp)),
    filterMap_kept]

/-- The parent has the moves of the path without the last one. -/
theorem moves_parent {p r : Path} (h : p.parent? = some r) : r.moves = p.moves.dropLast := by
  -- one case for each front; a point in front is no move
  cases hp : p.isRooted with
  | true =>
    rw [parent?_of_isRooted hp] at h
    split at h
    · simp at h
    · rw [← Option.some.inj h, moves_slash_front, moves_kept (List.tail_sublist _).subset,
        moves_of_isRooted hp]
  | false =>
    by_cases hd : p.segments.head? = some "."
    · have hk := moves_kept (List.tail_sublist p.segments).subset
      rw [parent?_of_here hp hd] at h
      split at h
      · next hrest =>
        rw [← Option.some.inj h, moves_of_here hd, ← filterMap_dropIdle, hrest]
        rfl
      · split at h
        · next hkept =>
          rw [hkept] at hk
          rw [← Option.some.inj h, moves_of_here hd, ← hk]
          rfl
        · rw [← Option.some.inj h, moves_slash, hk, moves_of_here hd]
          rfl
    · rw [parent?_of_bare hp hd] at h
      split at h
      · simp at h
      · rw [← Option.some.inj h, moves_kept (List.Subset.refl _), moves]

/-- The parent is rooted if the path is. -/
theorem isRooted_parent {p r : Path} (h : p.parent? = some r) : r.isRooted = p.isRooted := by
  cases hp : p.isRooted with
  | true =>
    rw [parent?_of_isRooted hp] at h
    split at h
    · simp at h
    · rw [← Option.some.inj h]
      exact isRooted_append (by decide)
  | false =>
    by_cases hd : p.segments.head? = some "."
    · rw [parent?_of_here hp hd] at h
      split at h
      · rw [← Option.some.inj h]
        decide
      · split at h
        · rw [← Option.some.inj h]
          decide
        · rw [← Option.some.inj h]
          exact isRooted_append_of_ne (by decide) (isRooted_append_of_ne (by decide) (by decide))
    · rw [parent?_of_bare hp hd] at h
      split at h
      · simp at h
      · next hrest =>
        -- what is left is a text of the first segments
        rw [← Option.some.inj h]
        refine isRooted_intercalate hp ?_
          ((dropIdle_isPrefix _).trans ((List.dropLast_prefix _).trans (dropIdle_isPrefix _)))
        intro ht
        exact hrest (by simp [segments, split, splitChars, ht, dropIdle, step?])

/-- Only a path without moves has no parent. -/
theorem moves_eq_nil_of_parent {p : Path} (h : p.parent? = none) : p.moves = [] := by
  cases hp : p.isRooted with
  | true =>
    rw [parent?_of_isRooted hp] at h
    split at h
    · next hrest =>
      rw [moves_of_isRooted hp, ← filterMap_dropIdle, hrest]
      rfl
    · simp at h
  | false =>
    by_cases hd : p.segments.head? = some "."
    · rw [parent?_of_here hp hd] at h
      split at h
      · simp at h
      · split at h <;> simp at h
    · rw [parent?_of_bare hp hd] at h
      split at h
      · next hrest =>
        rw [moves, ← filterMap_dropIdle, hrest]
        rfl
      · simp at h

end Stencil.Path
