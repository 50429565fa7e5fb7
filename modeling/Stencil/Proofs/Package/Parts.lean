import Stencil.Proofs.Package.Writing

namespace Stencil

open FileSystem (Grown Keeps Retains Wrote)

variable {fs fs' made : FileSystem} {base place : List String} {p : Path} {r : Renderer}
  {content : ByteArray}

/-- What is put into an output. -/
inductive Part where
  | file (names : List String) (file : PackageFile)
  | asset (source : Path)
  | descriptor (text : String)

namespace Part

/-- The names that lead from the output to a part. -/
def way : Part → List String
  | .file names _ => names
  | .asset source => [source.fileName?.getD ""]
  | .descriptor _ => [Descriptor.fileName]

/-- What is noted of a part. Only files of the layout are. -/
def note? (output : Path) : Part → Option WrittenFile
  | .file names f => some ⟨f.source, output.join (pathOfNames names)⟩
  | _ => none

/-- What a part holds once it is put at a place. -/
def Filled (r : Renderer) (fs : FileSystem) (place : List String) (content : ByteArray) : Part → Prop
  | .file _ f => f.Filled r fs place content
  | .asset source => source.fileName?.isSome = true ∧ fs.Copied source place content
  | .descriptor text => content = text.toUTF8

/-- What a part is to hold, by what its source holds. -/
def Reads (r : Renderer) (fs : FileSystem) (content : ByteArray) : Part → Prop
  | .file _ f =>
    if f.raw then fs.read f.source = .ok content
    else ∃ text rendered, fs.readText f.source = .ok text ∧ r.Renders f.source text rendered ∧
      content = rendered.toUTF8
  | .asset source => source.fileName?.isSome = true ∧ fs.read source = .ok content
  | .descriptor text => content = text.toUTF8

end Part

/-- A copy that was put where no file was holds what its source held, and holds. -/
theorem FileSystem.Copied.read (h : fs.Copied p place content) (hkeeps : fs.Keeps fs')
    (hfree : ∀ content, fs.at? place ≠ some (some content)) : fs'.read p = .ok content := by
  obtain ⟨origin, original, hresolve, hcontent⟩ := h
  have hne : place ≠ origin := by
    rintro rfl
    exact hfree _ (FileSystem.at?_eq_file_iff.mpr (FileSystem.get?_of_resolve hresolve))
  rw [if_neg hne] at hcontent
  subst hcontent
  exact bind_eq_ok_iff.mpr ⟨_, hkeeps.resolve hresolve, rfl⟩

/-- What was put where no file was is what the source of the part still holds. -/
theorem Part.Filled.reads {part : Part} (h : part.Filled r fs place content) (hkeeps : fs.Keeps fs')
    (hfree : ∀ content, fs.at? place ≠ some (some content)) : part.Reads r fs' content := by
  cases part with
  | file names file =>
    simp only [Part.Filled, PackageFile.Filled] at h
    simp only [Part.Reads]
    split at h
    · next hraw =>
      rw [if_pos hraw]
      exact h.read hkeeps hfree
    · next hraw =>
      rw [if_neg hraw]
      obtain ⟨text, rendered, htext, hrendered⟩ := h
      exact ⟨text, rendered, hkeeps.readText htext, hrendered⟩
  | asset source => exact ⟨h.1, h.2.read hkeeps hfree⟩
  | descriptor text => exact h

/-- Parts were put below a base one after the other, and directories were made. -/
inductive Shipped (r : Renderer) (base : List String) (made : FileSystem) :
    List Part → FileSystem → Prop
  | start : Shipped r base made [] made
  | grow {parts : List Part} {fs fs' : FileSystem} (h : Shipped r base made parts fs)
    (hgrown : Grown fs fs') : Shipped r base made parts fs'
  | put {parts : List Part} {fs fs' : FileSystem} {part : Part} {target : Path}
    {content : ByteArray} (h : Shipped r base made parts fs)
    (hfilled : part.Filled r fs (base ++ part.way) content)
    (hwrote : Wrote fs target (base ++ part.way) content fs') :
    Shipped r base made (parts ++ [part]) fs'

namespace Shipped

variable {parts : List Part} {part : Part} (h : Shipped r base made parts fs)
include h

theorem retains : Retains made fs := by
  induction h with
  | start => exact Retains.refl made
  | grow _ hgrown ih => exact ih.trans hgrown.retains
  | put _ _ hwrote ih => exact ih.trans hwrote.retains

/-- Where no part was put all files are as before. -/
theorem elsewhere (hplace : ∀ part ∈ parts, place ≠ base ++ part.way) :
    fs.at? place = some (some content) ↔ made.at? place = some (some content) := by
  induction h with
  | start => exact Iff.rfl
  | grow _ hgrown ih => exact hgrown.file_iff.trans (ih hplace)
  | put _ _ hwrote ih =>
    have hlast := hplace _ (List.mem_append_right _ List.mem_cons_self)
    rw [hwrote.at?, if_neg hlast]
    exact ih fun part hpart => hplace part (List.mem_append_left _ hpart)

theorem present (hpart : part ∈ parts) :
    ∃ content, fs.at? (base ++ part.way) = some (some content) := by
  induction h with
  | start => cases hpart
  | grow _ hgrown ih =>
    obtain ⟨content, hc⟩ := ih hpart
    exact ⟨content, hgrown.file_iff.mpr hc⟩
  | @put _ _ _ last _ content _ _ hwrote ih =>
    rcases List.mem_append.mp hpart with hpart | hpart
    · obtain ⟨content', hc⟩ := ih hpart
      exact hwrote.retains.file _ content' hc
    · obtain rfl := List.mem_singleton.mp hpart
      exact ⟨content, (hwrote.at? _).trans (if_pos rfl)⟩

/-- The part that was put last holds what it was filled with. -/
theorem last {front : List Part} (hparts : parts = front ++ [part]) :
    ∃ before content, part.Filled r before (base ++ part.way) content ∧
      fs.at? (base ++ part.way) = some (some content) := by
  induction h with
  | start => simp at hparts
  | grow _ hgrown ih =>
    obtain ⟨before, content, hfilled, hc⟩ := ih hparts
    exact ⟨before, content, hfilled, hgrown.file_iff.mpr hc⟩
  | @put _ before _ _ _ content _ hfilled hwrote _ =>
    obtain ⟨rfl⟩ := (List.cons.inj (List.append_inj' hparts rfl).2).1
    exact ⟨before, content, hfilled, (hwrote.at? _).trans (if_pos rfl)⟩

/-- The files are those that were there before and the parts. -/
theorem file_iff : (∃ content, fs.at? place = some (some content)) ↔
    (∃ part ∈ parts, place = base ++ part.way) ∨ ∃ content, made.at? place = some (some content) := by
  constructor
  · rintro ⟨content, hc⟩
    by_cases hput : ∃ part ∈ parts, place = base ++ part.way
    · exact Or.inl hput
    · have hnone : ∀ part ∈ parts, place ≠ base ++ part.way :=
        fun part hpart heq => hput ⟨part, hpart, heq⟩
      exact Or.inr ⟨content, (h.elsewhere hnone).mp hc⟩
  · rintro (⟨part, hpart, rfl⟩ | ⟨content, hc⟩)
    · exact h.present hpart
    · exact h.retains.file _ content hc

/-- If all parts go to places of their own, where no file was before, each of them was put where
nothing was, and nothing was put over it later. -/
theorem intact (hfree : ∀ part ∈ parts, ∀ content, made.at? (base ++ part.way) ≠ some (some content))
    (hapart : (parts.map Part.way).Nodup) (hpart : part ∈ parts) :
    ∃ before content, part.Filled r before (base ++ part.way) content ∧ before.Keeps fs ∧
      (∀ content, before.at? (base ++ part.way) ≠ some (some content)) ∧
      fs.at? (base ++ part.way) = some (some content) := by
  induction h with
  | start => cases hpart
  | grow _ hgrown ih =>
    obtain ⟨before, content, hfilled, hkeeps, hnone, hc⟩ := ih hfree hapart hpart
    exact ⟨before, content, hfilled, hkeeps.trans (.of_grown hgrown), hnone, hgrown.file_iff.mpr hc⟩
  | @put parts fs fs' last target content hparts hfilled hwrote ih =>
    rw [List.map_append, List.nodup_append] at hapart
    obtain ⟨hnodup, -, hlast⟩ := hapart
    -- the last part goes where neither a part nor a file of old stands
    have hnew : ∀ content, fs.at? (base ++ last.way) ≠ some (some content) := by
      intro content hc
      rcases hparts.file_iff.mp ⟨content, hc⟩ with ⟨other, hother, heq⟩ | ⟨content', hc'⟩
      · have hway : other.way = last.way := (List.append_cancel_left heq).symm
        exact hlast _ (List.mem_map_of_mem hother) _ (List.mem_singleton_self _) hway
      · exact hfree last (List.mem_append_right _ List.mem_cons_self) content' hc'
    have hkept : fs.Keeps fs' := .of_wrote hwrote hnew
    rcases List.mem_append.mp hpart with hpart | hpart
    · obtain ⟨before, content', hfilled', hkeeps, hnone, hc⟩ :=
        ih (fun part hpart => hfree part (List.mem_append_left _ hpart)) hnodup hpart
      exact ⟨before, content', hfilled', hkeeps.trans hkept, hnone, hkept.file _ _ hc⟩
    · obtain rfl := List.mem_singleton.mp hpart
      exact ⟨fs, content, hfilled, hkept, hnew, (hwrote.at? _).trans (if_pos rfl)⟩

end Shipped

end Stencil
