import Stencil.Proofs.Generation.Course
import Stencil.Template.Description

/-! Which files a generation keeps. A turn looks whether anything stands at its target before it makes
directories, and writes after that. Behind a directory that was missing an upward step leads to other
places than the look found, so a file may be written over; where no step leads up behind a name,
every earlier file stays as it was. -/

namespace Stencil

open FileSystem (Grown Wrote Passes Retains Denotes)

/-- The place that a written file stands at. -/
def WrittenFile.place (file : WrittenFile) : List String := file.destination.placeFrom []

variable {fs fs' made files : FileSystem} {base target : Path} {place : List String}

/-- Where a target goes up below the destination, it does so before it goes down. -/
def Straight (base target : Path) : Prop :=
  .up ∉ (target.moves.drop base.moves.length).dropWhile (· = .up)

instance (base target : Path) : Decidable (Straight base target) :=
  inferInstanceAs (Decidable (¬ _))

theorem leads_isPrefix_of_up {front : List Component} (h : ∀ c ∈ front, c = .up)
    (place : List String) : leads place front <+: place := by
  rw [List.eq_replicate_iff.mpr ⟨rfl, h⟩, leads_replicate_up]
  exact List.take_prefix _ _

theorem up_notMem_of_dropWhile {front rest : List Component}
    (h : Component.up ∉ (front ++ rest).dropWhile (· = .up)) :
    (∀ c ∈ front, c = .up) ∨ .up ∉ rest := by
  induction front with
  | nil => exact Or.inl fun c hc => absurd hc List.not_mem_nil
  | cons c front ih =>
    by_cases hc : c = .up
    · subst hc
      rw [List.cons_append, List.dropWhile_cons_of_pos (by simp)] at h
      rcases ih h with hall | hrest
      · exact Or.inl fun d hd => (List.mem_cons.mp hd).elim id (hall d)
      · exact Or.inr hrest
    · rw [List.cons_append, List.dropWhile_cons_of_neg (by simpa using hc)] at h
      exact Or.inr fun hup => h (List.mem_cons_of_mem _ (List.mem_append_right _ hup))

/-- On a way that goes up only at first, everything exists if its two ends do. -/
theorem passes_of_straight {way : List Component} (hway : Moving way)
    (hs : .up ∉ way.dropWhile (· = .up)) (hstart : (fs.at? place).isSome = true)
    (hend : (fs.at? (leads place way)).isSome = true) : fs.Passes place way := by
  rintro front ⟨rest, rfl⟩
  -- a front that only goes up ends above the start, any other one above the end
  rcases up_notMem_of_dropWhile hs with hall | hrest
  · exact FileSystem.at?_of_prefix hstart (leads_isPrefix_of_up hall place)
  · rw [leads_append] at hend
    obtain ⟨names, hnames, -⟩ :=
      leads_eq_append (fun c hc => hway c (List.mem_append_right _ hc)) hrest (leads place front)
    rw [hnames] at hend
    exact (FileSystem.at?_of_append hend).1

theorem passes_append {way more : List Component} (h : fs.Passes place way)
    (h' : fs.Passes (leads place way) more) : fs.Passes place (way ++ more) := by
  rintro front ⟨rest, hrest⟩
  rcases List.append_eq_append_iff.mp hrest with ⟨rest', rfl, -⟩ | ⟨front', rfl, rfl⟩
  · exact h front (List.prefix_append _ _)
  · rw [leads_append]
    exact h' front' (List.prefix_append _ _)

theorem startOf_of_isRooted {p : Path} (h : p.isRooted = true) (fs : FileSystem) :
    fs.startOf p = [] := by
  rw [FileSystem.startOf, if_pos h]

theorem placeFrom_of_isRooted {p : Path} (h : p.isRooted = true) (place : List String) :
    p.placeFrom place = leads [] p.moves := by
  rw [Path.placeFrom_eq, if_pos h]

/-- The look at a target that was written finds something if all on the way there existed. -/
theorem has_of_passes (ht : target.isRooted = true) (hgrown : Grown fs made) {content : ByteArray}
    (hwrote : Wrote made target place content fs') (hp : fs.Passes [] target.moves) :
    fs.has target = true := by
  have hplace : place = leads [] target.moves := by
    rw [hwrote.place_eq, placeFrom_of_isRooted ht]
  obtain ⟨above, last, hsite, hslash, rfl⟩ := hwrote.site
  have hsome : (made.at? (above ++ [last])).isSome = true := by
    rw [hplace]
    exact hgrown.retains.isSome (hp _ (List.prefix_refl _))
  have hdenotes := hsite.denotes hsome fun hs => absurd hs (by simp [hslash])
  rw [← startOf_of_isRooted ht fs] at hp
  exact FileSystem.has_iff.mpr ⟨_, hdenotes.of_retained hgrown.retains hp⟩

/-- Where a look found nothing, a straight target is written to a place without a file. -/
theorem no_file_of_straight (hb : base.isRooted = true) (hbase : fs.Passes [] base.moves)
    {relative : Path} (hr : relative.isRooted = false) (hfree : fs.has (base.join relative) = false)
    (hgrown : Grown fs made) {content : ByteArray}
    (hwrote : Wrote made (base.join relative) place content fs')
    (hs : Straight base (base.join relative)) (c : ByteArray) : fs.at? place ≠ some (some c) := by
  intro hfile
  have ht := Path.isRooted_join hb relative
  have hmoves := Path.moves_join base hr
  have hplace : place = leads (leads [] base.moves) relative.moves :=
    calc place
        = leads [] (base.join relative).moves := by
          rw [hwrote.place_eq, placeFrom_of_isRooted ht]
      _ = leads (leads [] base.moves) relative.moves := by rw [hmoves, leads_append]
  rw [Straight, hmoves, List.drop_left] at hs
  have hpasses : fs.Passes [] (base.join relative).moves := by
    rw [hmoves]
    apply passes_append hbase
    apply passes_of_straight (Path.moving_moves relative) hs (hbase _ (List.prefix_refl _))
    rw [← hplace]
    exact Option.isSome_of_eq_some hfile
  rw [has_of_passes ht hgrown hwrote hpasses] at hfree
  cases hfree

/-- What holds after any number of turns. Files change only where one was written, and where no
target went up behind a name, all of them were written to places without a file. -/
structure Progress (base : Path) (files fs : FileSystem) (written : List WrittenFile) : Prop where
  retains : Retains files fs
  kept : ∀ place content, files.at? place = some (some content) →
    fs.at? place = some (some content) ∨ ∃ w ∈ written, w.place = place
  found : ∀ w ∈ written, fs.Denotes w.destination w.place ∧
    ∃ content, fs.at? w.place = some (some content)
  apart : written.Pairwise fun a b => Straight base b.destination → a.place ≠ b.place
  fresh : ∀ w ∈ written, Straight base w.destination →
    ∀ content, files.at? w.place ≠ some (some content)

namespace Progress

variable {written : List WrittenFile}

theorem start (base : Path) (h : Grown files fs) : Progress base files fs [] where
  retains := h.retains
  kept := fun place content hc => Or.inl (h.file_iff.mpr hc)
  found := by simp
  apart := List.Pairwise.nil
  fresh := by simp

theorem grow (h : Progress base files fs written) (hg : Grown fs fs') :
    Progress base files fs' written where
  retains := h.retains.trans hg.retains
  kept := by
    intro place content hc
    rcases h.kept place content hc with hsame | hw
    · exact Or.inl (hg.file_iff.mpr hsame)
    · exact Or.inr hw
  found := by
    intro w hw
    obtain ⟨hdenotes, content, hc⟩ := h.found w hw
    exact ⟨hdenotes.mono hg.retains, content, hg.file_iff.mpr hc⟩
  apart := h.apart
  fresh := h.fresh

theorem write (h : Progress base files fs written) (hb : base.isRooted = true)
    (hbase : fs.Passes [] base.moves) {source relative : Path} {content : ByteArray}
    (hr : relative.isRooted = false) (hfree : fs.has (base.join relative) = false)
    (hg : Grown fs made) (hwrote : Wrote made (base.join relative) place content fs') :
    Progress base files fs' (written ++ [⟨source, base.join relative⟩]) := by
  have hmade := h.grow hg
  have hplace : WrittenFile.place ⟨source, base.join relative⟩ = place := by
    have ht := Path.isRooted_join hb relative
    rw [hwrote.place_eq, placeFrom_of_isRooted ht, WrittenFile.place, placeFrom_of_isRooted ht]
  have hnew : fs'.at? place = some (some content) := by rw [hwrote.at?, if_pos rfl]
  -- nothing stood at the place of a straight target, so it is no earlier file's
  have hnone (hs : Straight base (base.join relative)) (c : ByteArray) :
      fs.at? place ≠ some (some c) := no_file_of_straight hb hbase hr hfree hg hwrote hs c
  constructor
  · exact hmade.retains.trans hwrote.retains
  · intro p c hc
    by_cases hp : p = place
    · rw [← hplace] at hp
      exact Or.inr ⟨_, List.mem_append_right _ List.mem_cons_self, hp.symm⟩
    · rcases hmade.kept p c hc with hsame | ⟨w, hw, hwp⟩
      · exact Or.inl (by rw [hwrote.at?, if_neg hp, hsame])
      · exact Or.inr ⟨w, List.mem_append_left _ hw, hwp⟩
  · intro w hw
    rcases List.mem_append.mp hw with hw | hw
    · obtain ⟨hdenotes, c, hc⟩ := hmade.found w hw
      exact ⟨hdenotes.mono hwrote.retains, hwrote.retains.file _ c hc⟩
    · obtain rfl := List.mem_singleton.mp hw
      rw [hplace]
      exact ⟨hwrote.denotes, content, hnew⟩
  · refine List.pairwise_append.mpr ⟨h.apart, List.pairwise_singleton _ _, fun a ha b hmem hs => ?_⟩
    obtain rfl := List.mem_singleton.mp hmem
    rw [hplace]
    intro heq
    obtain ⟨-, c, hc⟩ := h.found a ha
    exact hnone hs c (heq ▸ hc)
  · intro w hw hs c hc
    rcases List.mem_append.mp hw with hw | hw
    · exact h.fresh w hw hs c hc
    · obtain rfl := List.mem_singleton.mp hw
      rw [hplace] at hc
      obtain ⟨c', hc'⟩ := h.retains.file _ c hc
      exact hnone hs c' hc'

/-- By induction on the turns, of which each keeps what was reached before. -/
theorem of_turns {begin : FileSystem} (hgrown : Grown files begin) (hb : base.isRooted = true)
    (hbase : begin.Passes [] base.moves) {last : FileSystem × List WrittenFile}
    (h : Relation.ReflTransGen (Turn base) (begin, []) last) :
    Progress base files last.1 last.2 ∧ Retains begin last.1 := by
  induction h with
  | refl => exact ⟨start base hgrown, Retains.refl _⟩
  | tail _ hturn ih =>
    obtain ⟨hprogress, hretains⟩ := ih
    cases hturn with
    | grow hg => exact ⟨hprogress.grow hg, hretains.trans hg.retains⟩
    | write hr hfree hg hwrote =>
      exact ⟨hprogress.write hb (hbase.mono hretains) hr hfree hg hwrote,
        hretains.trans (hg.retains.trans hwrote.retains)⟩

end Progress

/-- What holds when a generation ended, for whatever reason. -/
structure Ended (q : GenerationRequest) (files fs : FileSystem) (written : List WrittenFile) :
    Prop where
  kept : ∀ place content, files.at? place = some (some content) →
    fs.at? place = some (some content) ∨ (∃ w ∈ written, w.place = place) ∨
      ∃ path ∈ q.solution, fs.Denotes path place
  found : ∀ w ∈ written, fs.Denotes w.destination w.place ∧
    ∃ content, fs.at? w.place = some (some content)
  apart : ∀ base, q.destination.absolute? files.workingPath = some base →
    (written.Pairwise fun a b => Straight base b.destination → a.place ≠ b.place) ∧
      ∀ w ∈ written, Straight base w.destination →
        ∀ content, files.at? w.place ≠ some (some content)

variable {q : GenerationRequest} {written : List WrittenFile}

theorem Progress.ended (h : Progress base files fs written)
    (hbase : q.destination.absolute? files.workingPath = some base) : Ended q files fs written where
  kept := fun place content hc => (h.kept place content hc).imp_right Or.inl
  found := h.found
  apart := by
    intro base' hbase'
    rw [hbase] at hbase'
    cases hbase'
    exact ⟨h.apart, h.fresh⟩

/-- The solution's file takes the place of no file but one at the solution's path. -/
theorem Ended.settle {path : Path} (h : Ended q files fs written) (hq : q.solution = some path)
    (hs : Solution.Settles path fs fs')
    (hgrow : ∀ made, Grown fs made → Ended q files made written) : Ended q files fs' written := by
  obtain ⟨made, hg, rfl | ⟨place, content, hwrote⟩⟩ := hs
  · exact hgrow _ hg
  · have hmade := hgrow made hg
    refine ⟨fun p c hc => ?_, fun w hw => ?_, h.apart⟩
    · by_cases hp : p = place
      · exact Or.inr (Or.inr ⟨path, hq, hp ▸ hwrote.denotes⟩)
      · rcases hmade.kept p c hc with hsame | hw | ⟨path', hq', hdenotes⟩
        · exact Or.inl (by rw [hwrote.at?, if_neg hp, hsame])
        · exact Or.inr (Or.inl hw)
        · exact Or.inr (Or.inr ⟨path', hq', hdenotes.mono hwrote.retains⟩)
    · obtain ⟨hdenotes, c, hc⟩ := hmade.found w hw
      exact ⟨hdenotes.mono hwrote.retains, hwrote.retains.file _ c hc⟩

theorem ended_of_course (h : Generation.Course q files (fs, written)) :
    Ended q files fs written := by
  cases h with
  | idle hg =>
    refine ⟨fun place content hc => Or.inl (hg.file_iff.mpr hc), by simp, by simp⟩
  | turned hbase hg hpasses hturns =>
    have hprogress := (Progress.of_turns hg (Generation.isRooted_absolute hbase) hpasses hturns).1
    exact hprogress.ended hbase
  | settled hbase hg hpasses hturns hsolution hsettles =>
    have hprogress := (Progress.of_turns hg (Generation.isRooted_absolute hbase) hpasses hturns).1
    exact (hprogress.ended hbase).settle hsolution hsettles fun made hmade =>
      (hprogress.grow hmade).ended hbase

/-- Every file that was there before, but for one at the solution's path, holds what it held, and no
two written files denote the same place. -/
def Preserves (solution : Option Path) (before after : FileSystem) (written : List WrittenFile) :
    Prop :=
  (∀ place content, before.at? place = some (some content) →
    (∀ path ∈ solution, ¬ after.Denotes path place) → after.at? place = some (some content)) ∧
  written.Pairwise fun a b => ∀ place, after.Denotes a.destination place →
    ¬ after.Denotes b.destination place

/-- No two targets lead to the same place, and where a target leads to an earlier file, this is the
solution's or holds what it held. -/
def Clear (solution : Option Path) (before after : FileSystem) (written : List WrittenFile) : Prop :=
  (written.Pairwise fun a b => a.place ≠ b.place) ∧
  ∀ w ∈ written, ∀ content, before.at? w.place = some (some content) →
    (∀ path ∈ solution, ¬ after.Denotes path w.place) → after.at? w.place = some (some content)

theorem Ended.preserves_iff (h : Ended q files fs written) :
    Preserves q.solution files fs written ↔ Clear q.solution files fs written := by
  have hplace {w : WrittenFile} (hw : w ∈ written) {place : List String}
      (hd : fs.Denotes w.destination place) : place = w.place := by
    rw [hd.eq_placeFrom, (h.found w hw).1.eq_placeFrom]
  constructor
  · rintro ⟨hkept, hapart⟩
    refine ⟨hapart.imp_of_mem fun {a b} ha hb hab heq => ?_, fun w _ content hc hn =>
      hkept w.place content hc hn⟩
    exact hab a.place (h.found a ha).1 (heq ▸ (h.found b hb).1)
  · rintro ⟨hapart, hclear⟩
    refine ⟨fun place content hc hn => ?_, hapart.imp_of_mem fun {a b} ha hb hab place hda hdb => ?_⟩
    · rcases h.kept place content hc with hsame | ⟨w, hw, rfl⟩ | ⟨path, hpath, hd⟩
      · exact hsame
      · exact hclear w hw content hc hn
      · exact absurd hd (hn path hpath)
    · exact hab ((hplace ha hda).symm.trans (hplace hb hdb))

/-- A generation keeps all earlier files and writes each of its own to a place of its own exactly if
no two of its targets lead to one place and none leads to an earlier file. A target that does not go
up behind a name never leads to an earlier file, nor to one that was written before it. -/
theorem generate_preserves_iff (t : Template) (settings : Settings) (year : Nat)
    (q : GenerationRequest) (files : FileSystem) (guids : GuidSource) :
    (∀ w ∈ (generate t settings year q files guids).1.written, ∃ content,
      (generate t settings year q files guids).2.files.resolve w.destination =
        .ok (w.destination.placeFrom [], .file content)) ∧
    (Preserves q.solution files (generate t settings year q files guids).2.files
        (generate t settings year q files guids).1.written ↔
      Clear q.solution files (generate t settings year q files guids).2.files
        (generate t settings year q files guids).1.written) ∧
    ∀ base, q.destination.absolute? files.workingPath = some base →
      (((generate t settings year q files guids).1.written.Pairwise fun a b =>
          Straight base b.destination → a.place ≠ b.place) ∧
        ∀ w ∈ (generate t settings year q files guids).1.written, Straight base w.destination →
          ∀ content, files.at? w.place ≠ some (some content)) ∧
      ((∀ w ∈ (generate t settings year q files guids).1.written, Straight base w.destination) →
        Preserves q.solution files (generate t settings year q files guids).2.files
          (generate t settings year q files guids).1.written) := by
  have hended := ended_of_course (course_generate t settings year q files guids)
  refine ⟨fun w hw => ?_, hended.preserves_iff, fun base hbase => ⟨hended.apart base hbase, ?_⟩⟩
  · obtain ⟨hdenotes, content, hc⟩ := hended.found w hw
    exact ⟨content, hdenotes.resolve_file hc⟩
  · intro hs
    obtain ⟨hapart, hfresh⟩ := hended.apart base hbase
    apply hended.preserves_iff.mpr
    refine ⟨hapart.imp_of_mem fun _ hb hab => hab (hs _ hb), fun w hw content hc => ?_⟩
    exact absurd hc (hfresh w hw (hs w hw) content)

/-- A target beside the destination is written, and the file there that has its name is not. -/
theorem generate_preserves_beside :
    ∃ (files : FileSystem) (t : Template) (report : Report) (last : Run),
      files = ⟨.directory [("work", .directory [("keep.txt", .file "mine".toUTF8),
        ("a.txt", .file "theirs".toUTF8)])], ["work"]⟩ ∧
      t.projects = [⟨⟨"a.txt", ["/work/a.txt"], "../new.txt", false, ⟨1, 1⟩⟩,
        [⟨"a.txt", ["/work/a.txt"], "../keep.txt", false, ⟨2, 1⟩⟩]⟩] ∧
      generate t {} 2031 ⟨⟨"out"⟩, none, [], .cSharp⟩ files ⟨0, 0⟩ = (report, last) ∧
      report.written.map (·.place) = [["work", "new.txt"]] ∧
      Preserves none files last.files report.written := by
  let files : FileSystem := ⟨.directory [("work", .directory [("keep.txt", .file "mine".toUTF8),
    ("a.txt", .file "theirs".toUTF8)])], ["work"]⟩
  let t : Template := ⟨⟨"/work/t.xml"⟩, none, none, none, none, [⟨"/work"⟩], {},
    [⟨⟨"a.txt", ["/work/a.txt"], "../new.txt", false, ⟨1, 1⟩⟩,
      [⟨"a.txt", ["/work/a.txt"], "../keep.txt", false, ⟨2, 1⟩⟩]⟩]⟩
  refine ⟨files, t, _, _, rfl, rfl, rfl, by decide +kernel, ?_⟩
  exact ((generate_preserves_iff t {} 2031 ⟨⟨"out"⟩, none, [], .cSharp⟩ files ⟨0, 0⟩).2.2
    ⟨"/work/out"⟩ (by decide +kernel)).2 (by decide +kernel)

/-- A target that goes up behind a directory that is yet to be made leads to an earlier file, and the
file is written over. -/
theorem generate_writes_over :
    ∃ (files : FileSystem) (t : Template) (report : Report) (last : Run),
      files = ⟨.directory [("work", .directory [("keep.txt", .file "mine".toUTF8),
        ("src", .directory [("a.txt", .file "theirs".toUTF8)])])], ["work"]⟩ ∧
      ((Template.parse files ⟨"/work/t.xml"⟩ ("<Template><SrcFolder>src</SrcFolder>" ++
        "<Project src=\"a.txt\" dst=\"new/../../keep.txt\"/></Template>")).outcome {}).1.toOption =
          some t ∧
      generate t {} 2031 ⟨⟨"out"⟩, none, [], .cSharp⟩ files ⟨0, 0⟩ = (report, last) ∧
      files.at? ["work", "keep.txt"] = some (some "mine".toUTF8) ∧
      last.files.at? ["work", "keep.txt"] = some (some "theirs".toUTF8) ∧
      ¬ Preserves none files last.files report.written := by
  let files : FileSystem := ⟨.directory [("work", .directory [("keep.txt", .file "mine".toUTF8),
    ("src", .directory [("a.txt", .file "theirs".toUTF8)])])], ["work"]⟩
  let t : Template := ⟨⟨"/work/t.xml"⟩, none, none, none, none, [⟨"/work/src"⟩],
    ⟨[⟨"_sourceExt", some "Extension of source files.", "cs", none, .string, true⟩]⟩,
    [⟨⟨"a.txt", ["/work/src/a.txt"], "new/../../keep.txt", false, ⟨1, 37⟩⟩, []⟩]⟩
  have hbefore : files.at? ["work", "keep.txt"] = some (some "mine".toUTF8) := rfl
  have hafter : (generate t {} 2031 ⟨⟨"out"⟩, none, [], .cSharp⟩ files ⟨0, 0⟩).2.files.at?
      ["work", "keep.txt"] = some (some "theirs".toUTF8) := by decide +kernel
  refine ⟨files, t, _, _, rfl, by decide +kernel, rfl, hbefore, hafter, ?_⟩
  intro hpreserves
  have hsame := (hpreserves.1 _ _ hbefore (by simp)).symm.trans hafter
  revert hsame
  decide +kernel

end Stencil
