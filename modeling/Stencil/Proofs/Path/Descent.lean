import Stencil.FileSystem
import Stencil.Proofs.Path.Absolute

namespace Stencil.Path

open Text

/-- A rooted path whose steps are names, with no `.` and no `..` among them. -/
structure Descends (p : Path) (names : List String) : Prop where
  isRooted : p.isRooted = true
  pointless : "." ∉ p.segments
  moves : p.moves = names.map .name

variable {p q r base workingDirectory : Path} {names : List String} {last : String}

/-- Without points the steps of a path are the texts of its moves. -/
theorem stepsOf_eq_map_text (h : "." ∉ p.segments) :
    FileSystem.stepsOf p = p.moves.map Component.text := by
  unfold FileSystem.stepsOf moves
  generalize p.segments = segments at h
  induction segments with
  | nil => rfl
  | cons segment segments ih =>
    have hrest := ih fun hm => h (List.mem_cons_of_mem _ hm)
    have hpoint : segment ≠ "." := fun he => h (he ▸ List.mem_cons_self)
    by_cases hempty : segment = ""
    · simpa [hempty, step?] using hrest
    · by_cases hup : segment = ".."
      · simpa [hup, step?, Component.text] using hrest
      · simpa [hempty, hpoint, hup, step?, Component.text] using hrest

theorem named_of_written (h : Written (.name name)) : name ≠ "." ∧ name ≠ ".." := by
  constructor
  · rintro rfl
    simp [Written, step?, Component.text] at h
  · rintro rfl
    simp [Written, step?, Component.text] at h

/-- Names lead down. -/
theorem leads_map_name (place names : List String) :
    leads place (names.map Component.name) = place ++ names := by
  induction names generalizing place with
  | nil => simp
  | cons name names ih => simp [ih, Component.lead]

namespace Descends

theorem stepsOf (h : p.Descends names) : FileSystem.stepsOf p = names := by
  have htext : (Component.text ∘ Component.name : String → String) = id := rfl
  rw [stepsOf_eq_map_text h.pointless, h.moves, List.map_map, htext, List.map_id]

theorem placeFrom (h : p.Descends names) (place : List String) : p.placeFrom place = names := by
  rw [placeFrom_eq, h.isRooted, h.moves, leads_map_name]
  rfl

theorem named (h : p.Descends names) : ∀ name ∈ names, name ≠ "." ∧ name ≠ ".." := by
  intro name hname
  have hmem : Component.name name ∈ p.moves := h.moves ▸ List.mem_map_of_mem hname
  exact named_of_written (written_of_mem_moves hmem)

end Descends

theorem dropIdle_eq_nil_iff {segments : List String} :
    dropIdle segments = [] ↔ segments.filterMap step? = [] := by
  constructor
  · intro h
    rw [← filterMap_dropIdle, h]
    rfl
  · intro h
    induction segments using List.reverseRecOn with
    | nil => rfl
    | append_singleton segments segment ih =>
      rw [List.filterMap_append, List.append_eq_nil_iff] at h
      have hidle : step? segment = none := by simpa using h.2
      rw [dropIdle_concat, if_pos hidle]
      exact ih h.1

/-- The parent of a rooted path is what stands before some slash. -/
theorem text_parent (h : p.isRooted = true) (hr : p.parent? = some r) :
    r.text.toList <+: p.text.toList ∧ r.segments ⊆ p.segments := by
  obtain ⟨rest, htext, hsegments⟩ := segments_of_isRooted h
  -- the segments that the parent keeps are a front of those behind the root
  let kept := dropIdle (dropIdle p.segments.tail).dropLast
  have hkept : kept <+: p.segments.tail :=
    (dropIdle_isPrefix _).trans ((List.dropLast_prefix _).trans (dropIdle_isPrefix _))
  have hr' : r = ⟨"" ++ "/" ++ "/".intercalate kept⟩ := by
    rw [parent?_of_isRooted h] at hr
    split at hr
    · cases hr
    · exact (Option.some.inj hr).symm
  subst hr'
  have htail : p.segments.tail.map String.toList = splitChars (· == '/') rest := by
    rw [hsegments, List.tail_cons, segments, split, List.map_map]
    simp [Function.comp_def]
  constructor
  · have hfront := intercalate_isPrefix (c := '/') (hkept.map String.toList)
    rw [htail, intercalate_splitChars] at hfront
    rw [htext]
    simpa [String.toList_intercalate] using hfront
  · rw [segments_slash]
    intro segment hs
    rcases List.mem_append.mp hs with hs | hs
    · rw [hsegments]
      have hempty : segment = "" := by simpa [segments, split, splitChars] using hs
      exact hempty ▸ List.mem_cons_self
    · by_cases hnil : kept = []
      · have hempty : segment = "" := by simpa [hnil, segments, split, splitChars] using hs
        exact hsegments ▸ hempty ▸ List.mem_cons_self
      · rw [segments_intercalate hnil fun part hp =>
          slash_notMem_of_mem_segments (List.mem_of_mem_tail (hkept.subset hp))] at hs
        exact List.mem_of_mem_tail (hkept.subset hs)

theorem Descends.exists_parent (h : p.Descends (names ++ [last])) :
    ∃ r, p.parent? = some r ∧ r.Descends names := by
  cases hr : p.parent? with
  | none =>
    have hmoves := moves_eq_nil_of_parent hr
    rw [h.moves] at hmoves
    simp at hmoves
  | some r =>
    refine ⟨r, rfl, (isRooted_parent hr).trans h.isRooted, ?_, ?_⟩
    · exact fun hpoint => h.pointless ((text_parent h.isRooted hr).2 hpoint)
    · rw [moves_parent hr, h.moves, ← List.map_dropLast, List.dropLast_concat]

theorem text_ne_empty (h : p.isRooted = true) : p.text ≠ "" := by
  intro hempty
  simp [isRooted, hempty] at h

/-- A path that leads down by some name is neither empty nor without a parent. -/
theorem Descends.hasParent (h : p.Descends (names ++ [last])) :
    ¬ (p.text = "" ∨ p.parent?.isNone = true) := by
  obtain ⟨r, hr, -⟩ := h.exists_parent
  simp [text_ne_empty h.isRooted, hr]

/-- What leads nowhere has no parent. -/
theorem Descends.parent_eq_none (h : p.Descends []) : p.parent? = none := by
  have htail : p.segments.tail.filterMap step? = [] := by
    rw [← moves_of_isRooted h.isRooted, h.moves]
    rfl
  rw [parent?_of_isRooted h.isRooted, if_pos (dropIdle_eq_nil_iff.mpr htail)]

theorem exists_ancestorsUpTo_eq_cons (n : Nat) (p : Path) :
    ∃ above, p.ancestorsUpTo n = p :: above := by
  cases n with
  | zero => exact ⟨[], rfl⟩
  | succ n =>
    unfold ancestorsUpTo
    cases p.parent? with
    | none => exact ⟨[], rfl⟩
    | some r => exact ⟨_, rfl⟩

theorem exists_ancestors_eq_cons (p : Path) : ∃ above, p.ancestors = p :: above :=
  exists_ancestorsUpTo_eq_cons _ p

theorem ancestorsUpTo_succ (hr : p.parent? = some r) (n : Nat) :
    p.ancestorsUpTo (n + 1) = p :: r.ancestorsUpTo n := by
  rw [ancestorsUpTo, hr]

theorem Descends.length_le (h : p.Descends names) : names.length ≤ p.segments.length := by
  rw [← h.stepsOf]
  exact List.length_filter_le _ _

theorem segments_join (p q : Path) : (p.join q).segments ⊆ p.segments ++ q.segments := by
  unfold join
  split
  · exact List.subset_append_right _ _
  · split
    · next hp =>
      rcases hp with hp | hp
      · rw [hp, String.empty_append]
        exact List.subset_append_right _ _
      · -- the slash at the end of `p` is the one between the two
        obtain ⟨front, hf⟩ := List.getLast?_eq_some_iff.mp hp
        have ht : p.text = String.ofList front ++ "/" ++ "" := by
          apply String.toList_injective
          simpa using hf
        have hp' := segments_slash (String.ofList front) ""
        rw [← ht] at hp'
        have hq : p.text ++ q.text = String.ofList front ++ "/" ++ q.text := by simp [ht]
        rw [hq, segments_slash, show p.segments = _ from hp']
        exact List.append_subset.mpr ⟨fun s hs => List.mem_append_left _ (List.mem_append_left _ hs),
          List.subset_append_right _ _⟩
    · rw [segments_slash]
      exact List.Subset.refl _

/-- Joining names and steps upwards brings no points in. -/
theorem pointless_foldl_join {way : List Component} (hway : ∀ c ∈ way, Written c) (start : Path)
    (h : "." ∉ start.segments) :
    "." ∉ (way.foldl (fun q c => q.join ⟨c.text⟩) start).segments := by
  induction way generalizing start with
  | nil => exact h
  | cons c way ih =>
    obtain ⟨hstep, hfree⟩ := hway c List.mem_cons_self
    have hsegments : (Path.mk c.text).segments = [c.text] := by
      have hone : (Path.mk ("/".intercalate [c.text])).segments = [c.text] :=
        segments_intercalate (by simp) (by simpa using hfree)
      rwa [String.intercalate_singleton] at hone
    refine ih (fun x hx => hway x (List.mem_cons_of_mem _ hx)) _ fun hpoint => ?_
    rcases List.mem_append.mp (segments_join _ _ hpoint) with hs | hs
    · exact h hs
    · rw [hsegments, List.mem_singleton] at hs
      rw [← hs] at hstep
      simp [step?] at hstep

/-- Seen from a directory that names lead down to, a path without steps upwards leads down too. -/
theorem descends_absolute {place : List String} (hw : workingDirectory.Descends place)
    (hup : .up ∉ p.moves) (h : p.absolute? workingDirectory = some base) :
    ∃ names, base.Descends names := by
  have hp : p.text ≠ "" := by
    intro ht
    simp [absolute?, ht] at h
  obtain ⟨whole, hwhole, hrooted, hmoves⟩ := absolute?_eq_some hp hw.isRooted
  obtain rfl := Option.some.inj (h.symm.trans hwhole)
  -- a step upwards could only come from the path itself, for the directory in front has none
  have hnames : ∀ c ∈ base.moves, ∃ name, c = .name name := by
    intro c hc
    rcases moving_moves base c hc with rfl | hname
    · rw [hmoves] at hc
      rcases List.mem_append.mp hc with hc | hc
      · split at hc
        · cases hc
        · simp [hw.moves] at hc
      · exact absurd hc hup
    · exact hname
  refine ⟨base.moves.map Component.text, hrooted, ?_, ?_⟩
  · have hwritten : ∀ c ∈ p.segments.filterMap step?, Written c := fun c hc => written_of_mem_moves hc
    rw [absolute?, if_neg hp] at h
    rw [← Option.some.inj h]
    split
    · intro hpoint
      rcases List.mem_append.mp (segments_join _ _ hpoint) with hs | hs
      · revert hs
        apply pointless_foldl_join hwritten
        split <;> [decide; split <;> [decide; exact hw.pointless]]
      · revert hs
        decide
    · apply pointless_foldl_join hwritten
      split <;> [decide; split <;> [decide; exact hw.pointless]]
  · rw [List.map_map]
    refine (List.map_id _).symm.trans (List.map_congr_left fun c hc => ?_)
    obtain ⟨name, rfl⟩ := hnames c hc
    rfl

theorem text_ofComponents_cons (c d : Component) (way : List Component) :
    (ofComponents (c :: d :: way)).text = c.text ++ "/" ++ (ofComponents (d :: way)).text := by
  simp [ofComponents, String.append_assoc]

theorem getLast?_append_of_ne {front text : String} (hne : text ≠ "") :
    (front ++ text).toList.getLast? = text.toList.getLast? := by
  have hlist : text.toList ≠ [] := fun hnil => hne (String.toList_eq_nil_iff.mp hnil)
  rw [String.toList_append, List.getLast?_append]
  cases hlast : text.toList.getLast? with
  | none => exact absurd (List.getLast?_eq_none_iff.mp hlast) hlist
  | some x => rfl

/-- A text of components is not empty and ends in no slash. -/
theorem text_ofComponents {way : List Component} (hway : ∀ c ∈ way, Written c) (hne : way ≠ []) :
    (ofComponents way).text ≠ "" ∧ (ofComponents way).text.toList.getLast? ≠ some '/' := by
  induction way with
  | nil => exact absurd rfl hne
  | cons c way ih =>
    cases way with
    | nil =>
      obtain ⟨hstep, hfree⟩ := hway c List.mem_cons_self
      rw [ofComponents_singleton]
      refine ⟨fun hempty => ?_, fun hlast => hfree (List.mem_of_getLast? hlast)⟩
      rw [show c.text = "" from hempty] at hstep
      simp [step?] at hstep
    | cons d way =>
      obtain ⟨hempty, hlast⟩ := ih (fun x hx => hway x (List.mem_cons_of_mem _ hx))
        (List.cons_ne_nil _ _)
      rw [text_ofComponents_cons, getLast?_append_of_ne hempty]
      exact ⟨by simp, hlast⟩

/-- Components that are joined one after the other stand with a slash before each. -/
theorem foldl_join_eq {way : List Component} (hway : ∀ c ∈ way, Written c) (hne : way ≠ [])
    {front : Path} (hempty : front.text ≠ "") (hslash : front.text.toList.getLast? ≠ some '/') :
    way.foldl (fun q c => q.join ⟨c.text⟩) front = ⟨front.text ++ "/" ++ (ofComponents way).text⟩ := by
  induction way generalizing front with
  | nil => exact absurd rfl hne
  | cons c way ih =>
    have hone : ∀ x ∈ [c], Written x := fun x hx =>
      List.mem_singleton.mp hx ▸ hway c List.mem_cons_self
    have hrooted := isRooted_ofComponents hone
    obtain ⟨hcne, hclast⟩ := text_ofComponents hone (List.cons_ne_nil _ _)
    rw [ofComponents_singleton] at hrooted hcne hclast
    have hjoin : front.join ⟨c.text⟩ = ⟨front.text ++ "/" ++ c.text⟩ := by
      simp [join, hrooted, hempty, hslash]
    rw [List.foldl_cons, hjoin]
    cases way with
    | nil => rw [ofComponents_singleton, List.foldl_nil]
    | cons d way =>
      rw [ih (fun x hx => hway x (List.mem_cons_of_mem _ hx)) (List.cons_ne_nil _ _) (by simp)
        (by rwa [getLast?_append_of_ne hcne]), text_ofComponents_cons]
      simp only [String.append_assoc]

/-- A path of names and steps upwards, seen from a directory. -/
theorem absolute?_ofComponents {way : List Component} (hway : ∀ c ∈ way, Written c) (hne : way ≠ [])
    (hempty : workingDirectory.text ≠ "") (hslash : workingDirectory.text.toList.getLast? ≠ some '/') :
    (ofComponents way).absolute? workingDirectory =
      some ⟨workingDirectory.text ++ "/" ++ (ofComponents way).text⟩ := by
  obtain ⟨htext, hlast⟩ := text_ofComponents hway hne
  have hrooted := isRooted_ofComponents hway
  have hdoubled : "//".isPrefixOf (ofComponents way).text = false := by
    rw [Bool.eq_false_iff, ne_eq, isPrefixOf_iff]
    rintro ⟨rest, hrest⟩
    have hroot := isRooted_iff.mpr ⟨'/' :: rest, hrest.symm⟩
    rw [hrooted] at hroot
    cases hroot
  have hmoves : (ofComponents way).segments.filterMap step? = way := moves_ofComponents hway
  simp only [absolute?, htext, hlast, hdoubled, hrooted, hmoves, Bool.false_and, Bool.false_eq_true,
    if_false]
  rw [foldl_join_eq hway hne hempty hslash]

end Stencil.Path
