import Stencil.Proofs.Path.Absolute
import Stencil.Proofs.Precedence
import Stencil.Proofs.Text.Trimmed

/-! The arguments after the destination are sorted by their file names, before a pair is looked for. A
path of a solution is always taken for one. So is a pair whose value ends in such a file name; where no
value does, sorting undoes how the arguments were written. -/

namespace Stencil

open Text (sameWord splitAtFirst splitChars)

/-- What may follow a file name in a path: nothing, or slashes and single points between them. -/
def Idle (cs : List Char) : Prop :=
  cs = [] ∨ ∃ rest, cs = '/' :: rest ∧ ∀ part ∈ splitChars (· == '/') rest, part = [] ∨ part = ['.']

theorem Idle.eq_of_mem {cs : List Char} (h : Idle cs) {c : Char} (hc : c ∈ cs) : c = '/' ∨ c = '.' := by
  obtain rfl | ⟨rest, rfl, hrest⟩ := h
  · cases hc
  · by_cases hslash : c = '/'
    · exact .inl hslash
    · have hmem := (List.mem_cons.mp hc).resolve_left hslash
      obtain ⟨part, hpart, hin⟩ :=
        @Text.exists_mem_splitChars (· == '/') rest c hmem (beq_eq_false_iff_ne.mpr hslash)
      rcases hrest part hpart with rfl | rfl
      · cases hin
      · exact .inr (List.mem_singleton.mp hin)

/-- A text ends in a file name with the extension of a solution, in any case. -/
def EndsInSolution (cs : List Char) : Prop :=
  ∃ front extension idle, cs = front ++ '.' :: extension ++ idle ∧
    (∃ c, front.getLast? = some c ∧ c ≠ '/') ∧
    sameWord (String.ofList extension) "sln" = true ∧ Idle idle

namespace Text

theorem notMem_of_mem_splitChars {c : Char} {cs part : List Char}
    (h : part ∈ splitChars (· == c) cs) : c ∉ part := by
  intro hc
  have hfree := free_of_mem_splitChars h c hc
  simp at hfree

/-- Parts that are found on both sides of a separator are those of two texts with it between them. -/
theorem exists_of_splitChars_eq_append {c : Char} {cs : List Char} {front back : List (List Char)}
    (h : splitChars (· == c) cs = front ++ back) (hfront : front ≠ []) (hback : back ≠ []) :
    ∃ before after, cs = before ++ c :: after ∧ splitChars (· == c) before = front ∧
      splitChars (· == c) after = back := by
  have hfree (part : List Char) (hpart : part ∈ front ++ back) : c ∉ part :=
    notMem_of_mem_splitChars (h ▸ hpart)
  have hbefore := splitChars_intercalate hfront fun part hp => hfree part (List.mem_append_left _ hp)
  have hafter := splitChars_intercalate hback fun part hp => hfree part (List.mem_append_right _ hp)
  refine ⟨_, _, ?_, hbefore, hafter⟩
  -- both texts are made up of the same parts
  have hboth : splitChars (· == c) ([c].intercalate front ++ c :: [c].intercalate back) = _ :=
    splitChars_append (by simp) _ _
  rw [hbefore, hafter, ← h] at hboth
  rw [← intercalate_splitChars c cs, ← hboth, intercalate_splitChars]

theorem eq_of_splitChars_eq_singleton {c : Char} {cs part : List Char}
    (h : splitChars (· == c) cs = [part]) : cs = part := by
  rw [← intercalate_splitChars c cs, h]
  simp [List.intercalate]

/-- A text is cut behind the last place where a character stands. -/
theorem exists_last_part (c : Char) (cs : List Char) : ∃ front base, cs = front ++ base ∧
    (front = [] ∨ ∃ above, front = above ++ [c]) ∧ c ∉ base := by
  induction cs with
  | nil => exact ⟨[], [], rfl, .inl rfl, List.not_mem_nil⟩
  | cons x cs ih =>
    obtain ⟨front, base, rfl, rfl | ⟨above, rfl⟩, hbase⟩ := ih
    · by_cases hx : x = c
      · exact ⟨[x], base, rfl, .inr ⟨[], by rw [hx]; rfl⟩, hbase⟩
      · exact ⟨[], x :: base, rfl, .inl rfl, by simp [Ne.symm hx, hbase]⟩
    · exact ⟨x :: (above ++ [c]), base, rfl, .inr ⟨x :: above, rfl⟩, hbase⟩

end Text

namespace Path

theorem step_eq_none_iff {part : List Char} :
    step? (String.ofList part) = none ↔ part = [] ∨ part = ['.'] := by
  have hpoint : String.ofList part = "." ↔ part = ['.'] := by
    rw [← String.toList_inj, String.toList_ofList]
    rfl
  simp only [step?, String.ofList_eq_empty_iff, hpoint]
  split
  · simpa
  · next h => split <;> simp [h]

theorem eq_of_step_eq_name {segment name : String} (h : step? segment = some (.name name)) :
    segment = name := by
  simp only [step?] at h
  split at h
  · cases h
  · split at h
    · cases h
    · cases h
      rfl

theorem step_eq_name {stem extension : List Char} (hstem : stem ≠ []) (hextension : extension ≠ []) :
    step? (String.ofList (stem ++ '.' :: extension)) =
      some (.name (String.ofList (stem ++ '.' :: extension))) := by
  have hlong : 2 < (stem ++ '.' :: extension).length := by
    have := List.length_pos_iff.mpr hstem
    have := List.length_pos_iff.mpr hextension
    rw [List.length_append, List.length_cons]
    omega
  have hne {text : String} (h : text.toList.length ≤ 2) :
      String.ofList (stem ++ '.' :: extension) ≠ text := by
    rintro rfl
    rw [String.toList_ofList] at h
    omega
  rw [step?, if_neg (not_or.mpr ⟨hne (by decide), hne (by decide)⟩), if_neg (hne (by decide))]

/-- The file name of a path is its last part that names a step. -/
theorem fileName?_iff_parts {p : Path} {name : String} :
    p.fileName? = some name ↔ ∃ front back, splitChars (· == '/') p.text.toList =
      front ++ name.toList :: back ∧ step? name = some (.name name) ∧
      ∀ part ∈ back, part = [] ∨ part = ['.'] := by
  have hmoves : p.moves = (splitChars (· == '/') p.text.toList).filterMap
      (step? ∘ String.ofList) := by
    rw [← List.filterMap_map]
    rfl
  rw [fileName?_eq_some_iff, List.getLast?_eq_some_iff, hmoves]
  constructor
  · rintro ⟨earlier, h⟩
    obtain ⟨before, others, hsplit, -, hlast⟩ := List.filterMap_eq_append_iff.mp h
    obtain ⟨idle, part, back, hothers, -, hpart, hback⟩ := List.filterMap_eq_cons_iff.mp hlast
    obtain rfl := eq_of_step_eq_name hpart
    refine ⟨before ++ idle, back, by simp [hsplit, hothers], hpart, fun other hother => ?_⟩
    exact step_eq_none_iff.mp (List.filterMap_eq_nil_iff.mp hback other hother)
  · rintro ⟨front, back, hsplit, hname, hback⟩
    have hnone : back.filterMap (step? ∘ String.ofList) = [] :=
      List.filterMap_eq_nil_iff.mpr fun part hpart => step_eq_none_iff.mpr (hback part hpart)
    refine ⟨front.filterMap (step? ∘ String.ofList), ?_⟩
    rw [hsplit, List.filterMap_append, List.filterMap_cons_some (b := .name name) (by simpa), hnone]

/-- A file name stands at the front of a path or behind a slash, and only what is idle follows it. -/
theorem fileName?_iff_text {p : Path} {name : String} :
    p.fileName? = some name ↔ ∃ front idle, p.text.toList = front ++ name.toList ++ idle ∧
      (front = [] ∨ ∃ above, front = above ++ ['/']) ∧ '/' ∉ name.toList ∧
      step? name = some (.name name) ∧ Idle idle := by
  rw [fileName?_iff_parts]
  constructor
  · rintro ⟨front, back, hparts, hname, hback⟩
    have hfree : '/' ∉ name.toList :=
      Text.notMem_of_mem_splitChars (hparts ▸ List.mem_append_right _ List.mem_cons_self)
    -- behind the name only empty parts and single points are left
    have hrest {cs : List Char} (h : splitChars (· == '/') cs = name.toList :: back) :
        ∃ idle, cs = name.toList ++ idle ∧ Idle idle := by
      by_cases hlast : back = []
      · subst hlast
        exact ⟨[], by simpa using Text.eq_of_splitChars_eq_singleton h, .inl rfl⟩
      · rw [← List.singleton_append] at h
        obtain ⟨start, rest, rfl, hstart, hrest⟩ :=
          Text.exists_of_splitChars_eq_append h (by simp) hlast
        rw [Text.eq_of_splitChars_eq_singleton hstart]
        exact ⟨_, rfl, .inr ⟨rest, rfl, hrest ▸ hback⟩⟩
    by_cases hfirst : front = []
    · subst hfirst
      obtain ⟨idle, htext, hidle⟩ := hrest hparts
      exact ⟨[], idle, by simpa using htext, .inl rfl, hfree, hname, hidle⟩
    · obtain ⟨above, rest, htext, -, hback⟩ :=
        Text.exists_of_splitChars_eq_append hparts hfirst (by simp)
      obtain ⟨idle, rfl, hidle⟩ := hrest hback
      exact ⟨above ++ ['/'], idle, by simpa using htext, .inr ⟨above, rfl⟩, hfree, hname, hidle⟩
  · rintro ⟨front, idle, htext, hfront, hfree, hname, hidle⟩
    have halone : splitChars (· == '/') name.toList = [name.toList] :=
      Text.splitChars_of_free fun c hc => beq_eq_false_iff_ne.mpr fun h => hfree (h ▸ hc)
    -- the name is cut off where the idle end begins, for its own characters have no slash
    obtain ⟨back, hrest, hback⟩ : ∃ back, splitChars (· == '/') (name.toList ++ idle) =
        name.toList :: back ∧ ∀ part ∈ back, part = [] ∨ part = ['.'] := by
      rcases hidle with rfl | ⟨rest, rfl, hback⟩
      · exact ⟨[], by rw [List.append_nil, halone], nofun⟩
      · exact ⟨_, by rw [Text.splitChars_append (by simp), halone]; rfl, hback⟩
    rcases hfront with rfl | ⟨above, rfl⟩
    · exact ⟨[], back, by rw [htext]; exact hrest, hname, hback⟩
    · refine ⟨splitChars (· == '/') above, back, ?_, hname, hback⟩
      rw [htext, ← hrest, ← Text.splitChars_append (c := '/') (by simp)]
      simp

theorem splitName_eq_some_iff {name stem extension : String} :
    splitName name = some (stem, extension) ↔
      stem ≠ "" ∧ '.' ∉ extension.toList ∧ name.toList = stem.toList ++ '.' :: extension.toList := by
  unfold splitName
  constructor
  · intro h
    split at h
    · next after first before hcut =>
      cases h
      obtain ⟨hfree, hreverse⟩ := Text.splitAtFirst_eq_some_iff.mp hcut
      rw [List.reverse_eq_iff] at hreverse
      exact ⟨by simp, by simpa using hfree, by simpa using hreverse⟩
    · cases h
  · rintro ⟨hstem, hfree, hname⟩
    have hcut : splitAtFirst '.' name.toList.reverse =
        some (extension.toList.reverse, stem.toList.reverse) :=
      Text.splitAtFirst_eq_some_iff.mpr ⟨by simpa using hfree, by simp [hname]⟩
    obtain ⟨first, before, hfirst⟩ := List.exists_cons_of_ne_nil
      (l := stem.toList.reverse) (by simpa using hstem)
    rw [hcut, hfirst]
    simp only [← hfirst, List.reverse_reverse, String.ofList_toList]

end Path

namespace Trailing

/-- What has the extension of a solution has no point, no slash and no colon in it. -/
theorem notMem_of_sameWord {c : Char} (hc : c ∈ ['.', '/', ':']) {extension : String}
    (h : sameWord extension "sln" = true) : c ∉ extension.toList := by
  intro hmem
  have hlower : c.toLower ∈ "sln".toList.map Char.toLower :=
    beq_iff_eq.mp h ▸ List.mem_map_of_mem hmem
  revert hlower
  obtain rfl | rfl | rfl : c = '.' ∨ c = '/' ∨ c = ':' := by simpa using hc
  all_goals decide

theorem isSolution_iff_extension {argument : String} :
    isSolution argument = true ↔ ∃ name stem extension,
      (Path.mk argument).fileName? = some name ∧ Path.splitName name = some (stem, extension) ∧
      sameWord extension "sln" = true := by
  unfold isSolution Path.extension?
  cases (Path.mk argument).fileName? with
  | none => simp
  | some name =>
    cases hsplit : Path.splitName name with
    | none => simp [hsplit]
    | some parts =>
      obtain ⟨stem, extension⟩ := parts
      simp [hsplit]

/-- An argument is taken for a solution if it ends in the name of one, whatever stands before. -/
theorem isSolution_iff {argument : String} :
    isSolution argument = true ↔ EndsInSolution argument.toList := by
  rw [isSolution_iff_extension]
  constructor
  · rintro ⟨name, stem, extension, hname, hsplit, hword⟩
    obtain ⟨front, idle, htext, -, hfree, -, hidle⟩ := Path.fileName?_iff_text.mp hname
    obtain ⟨hstem, -, hparts⟩ := Path.splitName_eq_some_iff.mp hsplit
    refine ⟨front ++ stem.toList, extension.toList, idle, ?_, ?_, by simpa using hword, hidle⟩
    · simpa [hparts] using htext
    · have hlast := List.getLast?_eq_some_getLast (l := stem.toList) (by simpa using hstem)
      refine ⟨_, by rw [List.getLast?_append, hlast]; rfl, fun hslash => hfree ?_⟩
      rw [hparts, ← hslash]
      exact List.mem_append_left _ (List.getLast_mem _)
  · rintro ⟨start, extension, idle, htext, ⟨c, hlast, hslash⟩, hword, hidle⟩
    -- the file name begins behind the last slash before the extension
    obtain ⟨front, stem, rfl, hfront, hfree⟩ := Text.exists_last_part '/' start
    have hstem : stem ≠ [] := by
      rintro rfl
      rcases hfront with rfl | ⟨above, rfl⟩
      · simp at hlast
      · exact hslash (by simpa using hlast.symm)
    have hpoint := notMem_of_sameWord (c := '.') (by simp) hword
    have hword' := notMem_of_sameWord (c := '/') (by simp) hword
    have hext : extension ≠ [] := by
      rintro rfl
      exact absurd hword (by decide)
    rw [String.toList_ofList] at hpoint hword'
    refine ⟨String.ofList (stem ++ '.' :: extension), String.ofList stem, String.ofList extension,
      Path.fileName?_iff_text.mpr ⟨front, idle, ?_, hfront, ?_, ?_, hidle⟩,
      Path.splitName_eq_some_iff.mpr ⟨by simpa using hstem, by simpa using hpoint, by simp⟩, hword⟩
    · simpa using htext
    · simp [hfree, hword']
    · exact Path.step_eq_name hstem hext

instance (cs : List Char) : Decidable (EndsInSolution cs) :=
  decidable_of_iff (isSolution (String.ofList cs) = true) (by rw [isSolution_iff, String.toList_ofList])

/-- A pair is taken for a solution if its value is the end of the name of one. -/
theorem isSolution_pair_iff {key value : String} :
    isSolution (key ++ ":" ++ value) = true ↔ EndsInSolution (':' :: value.toList) := by
  rw [isSolution_iff]
  have htext : (key ++ ":" ++ value).toList = key.toList ++ ':' :: value.toList := by simp
  rw [htext]
  constructor
  · rintro ⟨front, extension, idle, hsplit, ⟨c, hlast, hslash⟩, hword, hidle⟩
    -- the colon stands before the extension, and so does all of the key
    have hcolon : ':' ∉ '.' :: extension ++ idle := by
      have hfree := notMem_of_sameWord (c := ':') (by simp) hword
      rw [String.toList_ofList] at hfree
      have hrest : ':' ∉ idle := fun hmem => absurd (hidle.eq_of_mem hmem) (by decide)
      simp [hfree, hrest]
    rw [List.append_assoc] at hsplit
    rcases List.append_eq_append_iff.mp hsplit with ⟨rest, rfl, hrest⟩ | ⟨rest, -, hrest⟩
    · have hne : rest ≠ [] := by
        rintro rfl
        exact absurd (List.cons.inj hrest).1 (by decide)
      rw [List.getLast?_append, List.getLast?_eq_some_getLast hne, Option.some_or,
        ← List.getLast?_eq_some_getLast hne] at hlast
      exact ⟨rest, extension, idle, by simpa using hrest, ⟨c, hlast, hslash⟩, hword, hidle⟩
    · exact absurd (hrest ▸ List.mem_append_right _ List.mem_cons_self) hcolon
  · -- whatever the key is, it only comes to what stands before the extension
    rintro ⟨front, extension, idle, hsplit, ⟨c, hlast, hslash⟩, hword, hidle⟩
    refine ⟨key.toList ++ front, extension, idle, by simp [hsplit], ⟨c, ?_, hslash⟩, hword, hidle⟩
    rw [List.getLast?_append, hlast]
    rfl

theorem pairs_cons_solution {argument : String} (h : isSolution argument = true)
    (rest : List String) : pairs (argument :: rest) = pairs rest := by
  simp [pairs, h]

theorem pairs_cons_pair {argument : String} {pair : String × String}
    (h : ¬ isSolution argument = true) (hpair : Overrides.pairOfArgument argument = .ok pair)
    (rest : List String) : pairs (argument :: rest) = pair :: pairs rest := by
  simp [pairs, h, hpair, Except.toOption]

/-- Where each argument is a solution or a pair, only a second solution stops the sorting. -/
theorem foldlM_add {arguments : List String} (h : ∀ argument ∈ arguments,
    isSolution argument = true ∨ ∃ pair, Overrides.pairOfArgument argument = .ok pair) (t : Trailing) :
    arguments.foldlM add t =
      match t.solution.toList.map Path.text ++ arguments.filter isSolution with
      | _ :: second :: _ => .error (.secondSolution second)
      | taken => .ok ⟨taken.head?.map Path.mk, t.overrides.putAll (pairs arguments)⟩ := by
  induction arguments generalizing t with
  | nil =>
    obtain ⟨solution, overrides⟩ := t
    cases solution <;> rfl
  | cons argument rest ih =>
    have hrest := ih fun other hother => h other (List.mem_cons_of_mem _ hother)
    obtain ⟨solution, overrides⟩ := t
    rw [List.foldlM_cons, add]
    by_cases hsolution : isSolution argument = true
    · rw [if_pos hsolution, List.filter_cons_of_pos hsolution, pairs_cons_solution hsolution]
      cases solution with
      | some first => rfl
      | none => exact hrest ⟨some ⟨argument⟩, overrides⟩
    · obtain ⟨pair, hpair⟩ := (h argument List.mem_cons_self).resolve_left hsolution
      rw [if_neg hsolution, List.filter_cons_of_neg hsolution, pairs_cons_pair hsolution hpair, hpair]
      exact hrest ⟨solution, overrides.put pair.1 pair.2⟩

section Classify

variable {arguments : List String} (h : ∀ argument ∈ arguments,
  isSolution argument = true ∨ ∃ pair, Overrides.pairOfArgument argument = .ok pair)

include h

theorem classify_eq_ok (hone : (arguments.filter isSolution).length ≤ 1) : classify arguments =
    .ok ⟨(arguments.filter isSolution).head?.map Path.mk, Dictionary.ofPairs (pairs arguments)⟩ := by
  have hfold : classify arguments = _ := foldlM_add h {}
  rw [hfold, Option.toList_none, List.map_nil, List.nil_append]
  cases htaken : arguments.filter isSolution with
  | nil => rfl
  | cons first rest =>
    rw [htaken] at hone
    obtain rfl : rest = [] := List.eq_nil_of_length_eq_zero (by simpa using hone)
    rfl

theorem classify_eq_error (htwo : 2 ≤ (arguments.filter isSolution).length) :
    ∃ second, classify arguments = .error (.secondSolution second) := by
  have hfold : classify arguments = _ := foldlM_add h {}
  rw [hfold, Option.toList_none, List.map_nil, List.nil_append]
  match htaken : arguments.filter isSolution with
  | [] | [_] =>
    rw [htaken] at htwo
    exact absurd htwo (by simp)
  | _ :: second :: _ => exact ⟨second, rfl⟩

end Classify

end Trailing

namespace Dictionary

variable {α : Type}

theorem names_put (entries : Dictionary α) (name : String) (value : α) :
    (entries.put name value).map (·.1) =
      if name ∈ entries.map (·.1) then entries.map (·.1) else entries.map (·.1) ++ [name] := by
  induction entries with
  | nil => rfl
  | cons entry rest ih =>
    obtain ⟨first, old⟩ := entry
    rw [put]
    by_cases hfirst : first = name
    · simp [hfirst]
    · rw [if_neg hfirst, List.map_cons, ih]
      simp only [List.map_cons, List.mem_cons, Ne.symm hfirst, false_or]
      split <;> rfl

/-- Names stand in the order in which they first occur. -/
theorem names_ofPairs (pairs : List (String × α)) :
    (ofPairs pairs).map (·.1) = (pairs.map (·.1)).eraseDups := by
  -- pairs are put one after the other, so the last one comes to what the others make
  induction pairs using List.reverseRecOn with
  | nil => rfl
  | append_singleton pairs pair ih =>
    have hput : ofPairs (pairs ++ [pair]) = (ofPairs pairs).put pair.1 pair.2 := by
      rw [ofPairs, putAll, List.foldl_append]
      rfl
    have hone : [pair.1].eraseDups = [pair.1] := rfl
    rw [hput, names_put, ih, List.map_append, List.eraseDups_append, List.removeAll]
    by_cases hname : pair.1 ∈ pairs.map (·.1)
    · simp [hname]
    · simp [hname, hone]

end Dictionary

/-- An argument after the destination, by what it is meant for. -/
inductive Argument where
  /-- A value for a variable. -/
  | pair (key value : String)
  /-- The path of a solution. -/
  | solution (path : String)
deriving DecidableEq, Repr

namespace Argument

def text : Argument → String
  | pair key value => key ++ ":" ++ value
  | solution path => path

/-- Neither a key nor a path has a colon. A key is not blank, and a path has the extension of a
solution, in any case. -/
def WellFormed : Argument → Prop
  | pair key _ => ':' ∉ key.toList ∧ Text.isBlankText key = false
  | solution path => ':' ∉ path.toList ∧
      ((Path.mk path).extension?.any fun extension => sameWord extension "sln") = true

instance : DecidablePred WellFormed
  | pair _ _ => inferInstanceAs (Decidable (_ ∧ _))
  | solution _ => inferInstanceAs (Decidable (_ ∧ _))

/-- The paths among arguments. -/
def paths (arguments : List Argument) : List Path :=
  arguments.filterMap fun
    | pair _ _ => none
    | solution path => some ⟨path⟩

/-- The values among arguments, under their trimmed keys. -/
def values (arguments : List Argument) : List (String × String) :=
  arguments.filterMap fun
    | pair key value => some (Text.trim key, value)
    | solution _ => none

theorem exists_of_mem_values {arguments : List Argument} {entry : String × String}
    (h : entry ∈ values arguments) :
    ∃ key value, pair key value ∈ arguments ∧ entry = (Text.trim key, value) := by
  obtain ⟨argument, hmem, heq⟩ := List.mem_filterMap.mp h
  cases argument with
  | pair key value => exact ⟨key, value, hmem, (Option.some.inj heq).symm⟩
  | solution _ => cases heq

theorem pairOfArgument_of_wellFormed {key value : String} (h : (pair key value).WellFormed) :
    Overrides.pairOfArgument (pair key value).text = .ok (Text.trim key, value) := by
  obtain ⟨hcolon, hblank⟩ := h
  have hcut : splitAtFirst ':' (key ++ ":" ++ value).toList = some (key.toList, value.toList) := by
    have htext : (key ++ ":" ++ value).toList = key.toList ++ ':' :: value.toList := by simp
    rw [htext, Text.splitAtFirst_append hcolon]
  have hname : Text.trim key ≠ "" := by
    intro hempty
    have hnil : Text.trimChars key.toList = [] := by
      rw [← Text.toList_trim, hempty]
      rfl
    rw [Text.isBlankText, List.all_eq_true.mpr (Text.trimChars_eq_nil_iff.mp hnil)] at hblank
    cases hblank
  simp only [Overrides.pairOfArgument, text, hcut, String.ofList_toList, if_neg hname]

theorem isSolution_of_wellFormed {path : String} (h : (solution path).WellFormed) :
    Trailing.isSolution path = true := by
  obtain ⟨-, hextension⟩ := h
  unfold Trailing.isSolution
  cases hpath : (Path.mk path).extension? with
  | none => simp [hpath] at hextension
  | some extension => simpa [hpath] using hextension

variable {arguments : List Argument}

theorem readable_of_wellFormed (h : ∀ argument ∈ arguments, argument.WellFormed) :
    ∀ written ∈ arguments.map text, Trailing.isSolution written = true ∨
      ∃ pair, Overrides.pairOfArgument written = .ok pair := by
  intro written hwritten
  obtain ⟨argument, hmem, rfl⟩ := List.mem_map.mp hwritten
  cases argument with
  | pair key value => exact .inr ⟨_, pairOfArgument_of_wellFormed (h _ hmem)⟩
  | solution path => exact .inl (isSolution_of_wellFormed (h _ hmem))

/-- Each path is taken for a solution. -/
theorem paths_sublist (h : ∀ argument ∈ arguments, argument.WellFormed) :
    ((paths arguments).map Path.text).Sublist ((arguments.map text).filter Trailing.isSolution) := by
  induction arguments with
  | nil => exact List.Sublist.slnil
  | cons argument rest ih =>
    have hrest := ih fun other hother => h other (List.mem_cons_of_mem _ hother)
    cases argument with
    | pair key value =>
      rw [List.map_cons, List.filter_cons]
      split
      · exact hrest.cons _
      · exact hrest
    | solution path =>
      have hsolution := isSolution_of_wellFormed (h _ List.mem_cons_self)
      rw [List.map_cons, text, List.filter_cons_of_pos hsolution]
      exact hrest.cons_cons _

/-- Where no pair is taken for a solution, each argument is taken for what it is. -/
theorem taken_eq (h : ∀ argument ∈ arguments, argument.WellFormed)
    (hvalues : ∀ pair ∈ values arguments, ¬ EndsInSolution (':' :: pair.2.toList)) :
    (arguments.map text).filter Trailing.isSolution = (paths arguments).map Path.text ∧
      Trailing.pairs (arguments.map text) = values arguments := by
  induction arguments with
  | nil => exact ⟨rfl, rfl⟩
  | cons argument rest ih =>
    have hrest := fun other hother => h other (List.mem_cons_of_mem _ hother)
    have hwell := h argument List.mem_cons_self
    cases argument with
    | pair key value =>
      obtain ⟨htaken, hpairs⟩ := ih hrest fun pair hpair => hvalues pair (List.mem_cons_of_mem _ hpair)
      have hsolution : ¬ Trailing.isSolution (pair key value).text = true := fun hsolution =>
        hvalues (Text.trim key, value) List.mem_cons_self (Trailing.isSolution_pair_iff.mp hsolution)
      rw [List.map_cons, List.filter_cons_of_neg hsolution,
        Trailing.pairs_cons_pair hsolution (pairOfArgument_of_wellFormed hwell), htaken, hpairs]
      exact ⟨rfl, rfl⟩
    | solution path =>
      obtain ⟨htaken, hpairs⟩ := ih hrest hvalues
      have hsolution := isSolution_of_wellFormed hwell
      rw [List.map_cons, text, List.filter_cons_of_pos hsolution,
        Trailing.pairs_cons_solution hsolution, htaken, hpairs]
      exact ⟨rfl, rfl⟩

/-- The only path is the solution. Each name has the value of its last pair, and the names stand in the
order in which they first occur. -/
structure SortedAs (arguments : List Argument) (t : Trailing) : Prop where
  solution : t.solution = (paths arguments).head?
  value : ∀ name, t.overrides.lookup name = (values arguments).reverse.lookup name
  order : t.overrides.map (·.1) = ((values arguments).map (·.1)).eraseDups

/-- What sorting does with arguments. With at most one path they are restored exactly if no value ends in
the name of a solution; with more than one path they are refused. -/
structure Sorting (arguments : List Argument) : Prop where
  restored : (paths arguments).length ≤ 1 →
    ((∃ t, Trailing.classify (arguments.map text) = .ok t ∧ SortedAs arguments t) ↔
      ∀ pair ∈ values arguments, ¬ EndsInSolution (':' :: pair.2.toList))
  refused : 2 ≤ (paths arguments).length →
    ∃ second, Trailing.classify (arguments.map text) = .error (.secondSolution second)

theorem sorting_of_wellFormed (h : ∀ argument ∈ arguments, argument.WellFormed) :
    Sorting arguments := by
  have hread := readable_of_wellFormed h
  constructor
  · intro hone
    constructor
    · rintro ⟨t, ht, hsorted⟩ entry hentry hends
      obtain ⟨key, value, hmem, rfl⟩ := exists_of_mem_values hentry
      have htaken : (pair key value).text ∈ (arguments.map text).filter Trailing.isSolution :=
        List.mem_filter.mpr ⟨List.mem_map_of_mem hmem, Trailing.isSolution_pair_iff.mpr hends⟩
      by_cases hsole : ((arguments.map text).filter Trailing.isSolution).length ≤ 1
      · -- the pair is what was taken for the solution, but no path has a colon
        obtain ⟨first, hfirst⟩ := List.length_eq_one_iff.mp
          (le_antisymm hsole (List.length_pos_of_mem htaken))
        rw [hfirst, List.mem_singleton] at htaken
        rw [Trailing.classify_eq_ok hread hsole, hfirst, ← htaken] at ht
        have hpath : ⟨(pair key value).text⟩ ∈ paths arguments := by
          apply List.mem_of_head?
          rw [← hsorted.solution, ← Except.ok.inj ht]
          rfl
        obtain ⟨argument, hargument, heq⟩ := List.mem_filterMap.mp hpath
        cases argument with
        | pair _ _ => cases heq
        | solution path =>
          obtain rfl : path = (pair key value).text := congrArg Path.text (Option.some.inj heq)
          exact (h _ hargument).1 (by simp [text])
      · obtain ⟨second, herror⟩ := Trailing.classify_eq_error hread (Nat.lt_of_not_le hsole)
        rw [herror] at ht
        cases ht
    · intro hvalues
      -- each argument is taken for what it is, so the results are those of its kind
      obtain ⟨htaken, hpairs⟩ := taken_eq h hvalues
      have hsole : ((arguments.map text).filter Trailing.isSolution).length ≤ 1 := by
        rw [htaken, List.length_map]
        exact hone
      refine ⟨_, Trailing.classify_eq_ok hread hsole, ?_, fun name => ?_, ?_⟩
      · rw [htaken, List.head?_map, Option.map_map]
        exact Option.map_id'
      · rw [hpairs, Dictionary.lookup_ofPairs]
      · rw [hpairs, Dictionary.names_ofPairs]
  · intro htwo
    refine Trailing.classify_eq_error hread (htwo.trans ?_)
    simpa using (paths_sublist h).length_le

/-- Pairs around a path: keys are trimmed, a value is cut no further, and the last value counts. -/
theorem sorting_around_path :
    let arguments := [pair " Name " "a:b.sln/c", solution "dir/App.SLN", pair "Out" "", pair "Name" "x"]
    (∀ argument ∈ arguments, argument.WellFormed) ∧
      Trailing.classify (arguments.map text) =
        .ok ⟨some ⟨"dir/App.SLN"⟩, [("Name", "x"), ("Out", "")]⟩ ∧
      ∃ t, Trailing.classify (arguments.map text) = .ok t ∧ SortedAs arguments t := by
  intro arguments
  have hwell : ∀ argument ∈ arguments, argument.WellFormed := by decide
  have hvalues : ∀ pair ∈ values arguments, ¬ EndsInSolution (':' :: pair.2.toList) := by decide
  exact ⟨hwell, by decide +kernel, ((sorting_of_wellFormed hwell).restored (by decide)).mpr hvalues⟩

/-- Behind the path of a solution, a value that is the name of another one is taken for a second path. -/
theorem sorting_refuses_pair :
    let arguments := [solution "App.sln", pair "out" "Game.sln"]
    (∀ argument ∈ arguments, argument.WellFormed) ∧ paths arguments = [⟨"App.sln"⟩] ∧
      Trailing.classify (arguments.map text) = .error (.secondSolution "out:Game.sln") ∧
      ¬ ∃ t, Trailing.classify (arguments.map text) = .ok t ∧ SortedAs arguments t := by
  intro arguments
  have hrefused : Trailing.classify (arguments.map text) =
      .error (.secondSolution "out:Game.sln") := by decide +kernel
  refine ⟨by decide, rfl, hrefused, ?_⟩
  rintro ⟨t, ht, -⟩
  rw [hrefused] at ht
  cases ht

end Argument

end Stencil
