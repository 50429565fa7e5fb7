import Stencil.Generation
import Stencil.Package
import Stencil.Proofs.Comparison.Lifting
import Stencil.Proofs.Generation.Completion
import Stencil.Proofs.Path.Moves
import Stencil.Proofs.Substitution.Composition
import Stencil.Proofs.Template.Completeness

/-! Where the source of an entry is found. A candidate is expanded as a whole, with the directory that it
lies in. As long as no token is opened in the directories that are looked into, the source is the one in
the first of them that holds it; a directory with a token in its path is not looked into, but what its
path expands to. -/

namespace Stencil

variable {a b text source : String} {t : Template} {e : Entry} {fs : FileSystem} {r : Renderer}

/-- A text in which no token is opened. -/
def Tokenless (text : String) : Prop := ¬ tokenOpen <:+: text.toList

instance (text : String) : Decidable (Tokenless text) := inferInstanceAs (Decidable (¬ _))

theorem firstAt_eq_none_iff {delimiter cs : List Char} (h : delimiter ≠ []) :
    firstAt delimiter cs = none ↔ ¬ delimiter <:+: cs := by
  induction cs with
  | nil => simp [firstAt, h]
  | cons c cs ih =>
    rw [firstAt_cons, List.infix_cons_iff, not_or, ← ih, ← List.isPrefixOf_iff_prefix]
    split
    · next hstart => simp [hstart]
    · next hstart => simp [hstart]

theorem firstAt_of_tokenless (h : Tokenless text) : firstAt tokenOpen text.toList = none :=
  (firstAt_eq_none_iff (by decide)).mpr h

/-- A text without tokens expands to itself, and nothing is said about it. -/
theorem Renderer.renderAt_of_tokenless (h : Tokenless text) (file : Path) (origin : Position) :
    r.renderAt file origin text = pure text := by
  have hwhole : Fragment.ofText text = [.literal text] := by
    rw [Fragment.ofText_eq_cut, Fragment.cut_of_plain (firstAt_of_tokenless h), String.ofList_toList]
  rw [renderAt, hwhole]
  simp [fragment, String.join]

/-- No token is opened where two texts meet, unless a brace stands on both sides. -/
theorem Tokenless.append (ha : Tokenless a) (hb : Tokenless b)
    (hborder : a.toList.getLast? ≠ some '{' ∨ b.toList.head? ≠ some '{') : Tokenless (a ++ b) := by
  have hmeet : ¬(a.toList.getLast? = some '{' ∧ b.toList.head? = some '{') := by
    rintro ⟨hlast, hhead⟩
    exact hborder.elim (· hlast) (· hhead)
  have hnone := firstAt_append_of_none (firstAt_of_tokenless ha) hmeet
  rw [firstAt_of_tokenless hb, Option.map_none, firstAt_eq_none_iff (by decide)] at hnone
  rwa [Tokenless, String.toList_append]

/-- A slash keeps a directory and what lies in it apart. -/
theorem Tokenless.join {p q : Path} (hp : Tokenless p.text) (hq : Tokenless q.text)
    (hrooted : q.isRooted = false) : Tokenless (p.join q).text := by
  rw [Path.join, hrooted, if_neg Bool.false_ne_true]
  split
  · next hempty =>
    refine hp.append hq (.inl ?_)
    rcases hempty with hempty | hslash
    · simp [hempty]
    · simp [hslash]
  · refine (hp.append (b := "/") (by decide) (.inr (by decide))).append hq (.inl ?_)
    simp

namespace Template

open Markup (Element)

variable {path : Path} {directories : List Path}

/-- Whatever the journal is like, an entry has its source in each source directory. -/
theorem wellFormed_of_entryOf {element : Element} {j j' : Journal}
    (h : (entryOf path directories element).outcome j = (.ok (some e), j')) :
    WellFormed directories e := by
  unfold entryOf at h
  dsimp only at h
  split at h
  · obtain ⟨_, _, -, h⟩ := Attempt.outcome_bind_eq_ok_iff.mp h
    cases h
  · next source hfilter =>
    obtain ⟨-, hsource⟩ := Option.filter_eq_some_iff.mp hfilter
    split at h
    · next hdestination =>
      cases h
      exact ⟨isRelative_iff.mp hsource, isRelative_iff.mp hdestination, rfl⟩
    · obtain ⟨_, _, -, h⟩ := Attempt.outcome_bind_eq_ok_iff.mp h
      cases h

theorem wellFormed_of_entriesOf {elements : List Element} {entries : List Entry} {j j' : Journal}
    (h : (entriesOf path directories elements).outcome j = (.ok entries, j')) :
    ∀ e ∈ entries, WellFormed directories e := by
  induction elements generalizing entries j with
  | nil =>
    cases h
    nofun
  | cons element rest ih =>
    unfold entriesOf at h
    obtain ⟨made?, _, hentry, h⟩ := Attempt.outcome_bind_eq_ok_iff.mp h
    obtain ⟨others, _, hothers, h⟩ := Attempt.outcome_bind_eq_ok_iff.mp h
    cases h
    intro e hmem
    rcases List.mem_append.mp hmem with hmem | hmem
    · obtain rfl := Option.mem_toList.mp hmem
      exact wellFormed_of_entryOf hentry
    · exact ih hothers e hmem

theorem wellFormed_of_projectsOf {elements : List Element} {projects : List Project}
    {j j' : Journal} (h : (projectsOf path directories elements).outcome j = (.ok projects, j')) :
    ∀ e ∈ projects.flatMap Project.entries, WellFormed directories e := by
  induction elements generalizing projects j with
  | nil =>
    cases h
    nofun
  | cons element rest ih =>
    unfold projectsOf at h
    obtain ⟨made?, _, hentry, h⟩ := Attempt.outcome_bind_eq_ok_iff.mp h
    cases made? with
    | none => exact ih h
    | some entry =>
      dsimp only at h
      obtain ⟨files, _, hfiles, h⟩ := Attempt.outcome_bind_eq_ok_iff.mp h
      obtain ⟨_, _, -, h⟩ := Attempt.outcome_bind_eq_ok_iff.mp h
      obtain ⟨others, _, hothers, h⟩ := Attempt.outcome_bind_eq_ok_iff.mp h
      cases h
      intro e hmem
      rcases List.mem_append.mp hmem with hmem | hmem
      · -- the project file, and the files that belong to it
        rcases List.mem_cons.mp hmem with rfl | hmem
        · exact wellFormed_of_entryOf hentry
        · exact wellFormed_of_entriesOf hfiles e hmem
      · exact ih hothers e hmem

/-- All entries of a template that is read have their source in each of its source directories. -/
theorem wellFormed_of_parse {fs : FileSystem} {source : String} {j j' : Journal}
    (h : (parse fs path source).outcome j = (.ok t, j')) :
    ∀ e ∈ t.projects.flatMap Project.entries, WellFormed t.sourceDirectories e := by
  unfold parse at h
  split at h
  · cases h
  · next root hroot =>
    unfold ofElement at h
    dsimp only at h
    split at h
    · cases h
    · obtain ⟨_, _, -, h⟩ := Attempt.outcome_bind_eq_ok_iff.mp h
      obtain ⟨_, _, -, h⟩ := Attempt.outcome_bind_eq_ok_iff.mp h
      obtain ⟨store, _, -, h⟩ := Attempt.outcome_bind_eq_ok_iff.mp h
      obtain ⟨projects, _, hprojects, h⟩ := Attempt.outcome_bind_eq_ok_iff.mp h
      cases h
      exact wellFormed_of_projectsOf hprojects

end Template

/-- Whether no token is opened in the path of a directory that is looked into for a source: these are
all up to the first one that holds it. -/
def LooksPlain (fs : FileSystem) (source : String) : List Path → Prop
  | [] => True
  | directory :: rest => Tokenless directory.text ∧
    (fs.isFile (directory.join ⟨source⟩) = false → LooksPlain fs source rest)

instance decidableLooksPlain (fs : FileSystem) (source : String) :
    (directories : List Path) → Decidable (LooksPlain fs source directories)
  | [] => .isTrue trivial
  | directory :: rest =>
    have := decidableLooksPlain fs source rest
    inferInstanceAs (Decidable (Tokenless directory.text ∧
      (fs.isFile (directory.join ⟨source⟩) = false → LooksPlain fs source rest)))

/-- The first directory that holds a source. -/
def holderOf (fs : FileSystem) (source : String) (directories : List Path) : Option Path :=
  directories.find? fun directory => fs.isFile (directory.join ⟨source⟩)

namespace Entry

/-- What is said when an entry's source is not found. -/
def missing (t : Template) (e : Entry) : Diagnostic :=
  ⟨.error, s!"Source file '{e.source}' not found.", some ⟨t.path, e.position⟩⟩

/-- What a journal is after a search that found nothing: one error is reported. -/
def unfound (t : Template) (e : Entry) (j : Journal) : Journal :=
  (j.publishFrom e.search).countError.publishFrom (e.missing t)

theorem firstSource_eq_find (hsource : Tokenless e.source)
    (hrooted : (Path.mk e.source).isRooted = false) {directories : List Path}
    (h : LooksPlain fs e.source directories) :
    e.firstSource fs r t (directories.map fun directory => (directory.join ⟨e.source⟩).text) =
      match holderOf fs e.source directories with
      | some directory => pure (directory.join ⟨e.source⟩)
      | none => Expansion.reported ⟨t.path, e.position⟩ s!"Source file '{e.source}' not found." := by
  induction directories with
  | nil => rfl
  | cons directory rest ih =>
    obtain ⟨hdirectory, hrest⟩ := h
    have hplain := Renderer.renderAt_of_tokenless (r := r) (hdirectory.join hsource hrooted) t.path
      e.position
    rw [List.map_cons, firstSource, hplain, pure_bind, holderOf, List.find?_cons]
    cases hfile : fs.isFile (directory.join ⟨e.source⟩) with
    | true => simp [hfile]
    | false =>
      simp only [hfile]
      exact ih (hrest hfile)

/-- A search without tokens in its way asks for the source in each directory, in order. -/
theorem resolveSource_eq_find (hformed : Template.WellFormed t.sourceDirectories e)
    (hsource : Tokenless e.source) (h : LooksPlain fs e.source t.sourceDirectories) :
    e.resolveSource fs r t = (do
      Expansion.say e.search.level e.search.message
      match holderOf fs e.source t.sourceDirectories with
      | some directory => return directory.join ⟨e.source⟩
      | none => Expansion.reported ⟨t.path, e.position⟩ (e.missing t).message) := by
  unfold resolveSource
  rw [hformed.candidates, firstSource_eq_find hsource hformed.source.2 h]
  rw [search, hformed.candidates]
  rfl

/-- The outcome of a search that finds nothing, in a state that goes on after errors. -/
theorem outcome_unfound {x : Expansion} (hlenient : x.journal.strict = false)
    (h : e.resolveSource fs r t = (do
      Expansion.say e.search.level e.search.message
      Expansion.reported ⟨t.path, e.position⟩ (e.missing t).message)) :
    (e.resolveSource fs r t).outcome x =
      (.error (.reported (e.missing t)), { x with journal := e.unfound t x.journal }) := by
  have hsay : (Expansion.say e.search.level e.search.message).outcome x =
      (.ok (), x.under (x.journal.publishFrom e.search)) := by
    rw [Expansion.say, Expansion.outcome_journaled, Journal.say, Journal.outcome_emit]
    rfl
  have hstays : (x.journal.publishFrom e.search).strict = false :=
    (Journal.Onward.publishFrom x.journal e.search).strict.trans hlenient
  rw [h, Attempt.outcome_bind, hsay]
  dsimp only
  rw [Expansion.reported, Expansion.outcome_journaled, Journal.outcome_reported, if_neg]
  · rfl
  · rw [Expansion.under, hstays]
    exact Bool.false_ne_true

end Entry

/-- An entry whose source is reported missing is left out of a generation. -/
theorem Generation.tryEntry_of_reported {base : Path} {s : Run} {d : Diagnostic} {after : Expansion}
    (h : (e.resolveSource s.files r t).outcome s.expansion = (.error (.reported d), after)) :
    (tryEntry r t base e).outcome s = (.ok none, { s with expansion := after }) := by
  have hfiles : Run.currentFiles.outcome s = (.ok s.files, s) := rfl
  have hmake : (makeEntry r t base e).outcome s =
      (.error (.reported d), { s with expansion := after }) := by
    unfold makeEntry
    rw [Attempt.outcome_bind, hfiles]
    dsimp only
    rw [Attempt.outcome_bind, Run.outcome_expanding, h]
  unfold tryEntry
  rw [Attempt.outcome_bind, Attempt.outcome_caught, hmake]
  rfl

/-- An entry whose source is reported missing gets no place in a package. -/
theorem Package.resolve_of_reported {x after : Expansion} {d : Diagnostic}
    (h : (e.resolveSource fs r t).outcome x = (.error (.reported d), after)) :
    (resolve fs r t e).outcome x = (.ok none, after) := by
  unfold resolve
  rw [Attempt.outcome_bind, Attempt.outcome_caught, Attempt.outcome_bind, h]
  rfl

/-- How the source of an entry is found: in the first source directory that holds it. If there is none,
one error is reported and the entry is left out, with everything else as it was. -/
structure Entry.FoundInOrder (fs : FileSystem) (t : Template) (e : Entry) : Prop where
  finds (r : Renderer) : e.resolveSource fs r t = (do
    Expansion.say e.search.level e.search.message
    match holderOf fs e.source t.sourceDirectories with
    | some directory => return directory.join ⟨e.source⟩
    | none => Expansion.reported ⟨t.path, e.position⟩ (e.missing t).message)
  skips (r : Renderer) (base : Path) (s : Run) : s.files = fs → s.expansion.journal.strict = false →
    holderOf fs e.source t.sourceDirectories = none →
    (Generation.tryEntry r t base e).outcome s = (.ok none, { s with
      expansion := { s.expansion with journal := e.unfound t s.expansion.journal } })
  omits (r : Renderer) (x : Expansion) : x.journal.strict = false →
    holderOf fs e.source t.sourceDirectories = none →
    (Package.resolve fs r t e).outcome x = (.ok none, { x with journal := e.unfound t x.journal })

/-- As long as no token is opened in the source itself, nor in the path of a directory that is looked
into, the source of an entry is the one in the first source directory that holds it, whoever reads the
template and whatever its variables are. -/
theorem Entry.found_in_order {fs₀ fs : FileSystem} {path : Path} {text : String} {t : Template}
    {j j' : Journal} {e : Entry} (hparse : (Template.parse fs₀ path text).outcome j = (.ok t, j'))
    (hentry : e ∈ t.projects.flatMap Project.entries) (hsource : Tokenless e.source)
    (hplain : LooksPlain fs e.source t.sourceDirectories) : e.FoundInOrder fs t := by
  have hformed := Template.wellFormed_of_parse hparse e hentry
  have hfinds (r : Renderer) := resolveSource_eq_find (r := r) hformed hsource hplain
  have hnone (r : Renderer) (hmissing : holderOf fs e.source t.sourceDirectories = none) :
      e.resolveSource fs r t = (do
        Expansion.say e.search.level e.search.message
        Expansion.reported ⟨t.path, e.position⟩ (e.missing t).message) := by
    rw [hfinds r, hmissing]
  refine ⟨hfinds, fun r base s hfiles hlenient hmissing => ?_, fun r x hlenient hmissing => ?_⟩
  · subst hfiles
    exact Generation.tryEntry_of_reported (outcome_unfound hlenient (hnone r hmissing))
  · exact Package.resolve_of_reported (outcome_unfound hlenient (hnone r hmissing))

/-- Three source directories. The second is the first one that holds the source, and so it does not matter
that a token is opened in the path of the third. -/
theorem Entry.found_in_second :
    let files : FileSystem := ⟨.directory [("work", .directory [("one", .directory []),
      ("two", .directory [("a.txt", .file "2".toUTF8)]),
      ("\x7b\x7bx\x7d\x7d", .directory [("a.txt", .file "3".toUTF8)])])], ["work"]⟩
    let text := "<Template><SrcFolder>one</SrcFolder><SrcFolder>two</SrcFolder>" ++
      "<SrcFolder>\x7b\x7bx\x7d\x7d</SrcFolder><Project src=\"a.txt\"/></Template>"
    ∃ t e j', (Template.parse files ⟨"/work/t.xml"⟩ text).outcome {} = (.ok t, j') ∧
      e ∈ t.projects.flatMap Project.entries ∧ Tokenless e.source ∧
      LooksPlain files e.source t.sourceDirectories ∧ e.FoundInOrder files t ∧
      holderOf files e.source t.sourceDirectories = some ⟨"/work/two"⟩ := by
  intro files text
  let e : Entry := ⟨"a.txt", ["/work/one/a.txt", "/work/two/a.txt", "/work/\x7b\x7bx\x7d\x7d/a.txt"],
    "a.txt", false, ⟨1, 91⟩⟩
  have hread : let parsed := (Template.parse files ⟨"/work/t.xml"⟩ text).outcome {}
      parsed.1.toOption.map (fun t => (t.sourceDirectories, t.projects.flatMap Project.entries)) =
        some ([⟨"/work/one"⟩, ⟨"/work/two"⟩, ⟨"/work/\x7b\x7bx\x7d\x7d"⟩], [e]) := by
    decide +kernel
  obtain ⟨t, hparse, hparts⟩ := exists_of_toOption hread
  obtain ⟨hdirectories, hentries⟩ := Prod.mk.inj hparts
  have hparsed : (Template.parse files ⟨"/work/t.xml"⟩ text).outcome {} =
      (.ok t, ((Template.parse files ⟨"/work/t.xml"⟩ text).outcome {}).2) := Prod.ext hparse rfl
  have hmem : e ∈ t.projects.flatMap Project.entries := by
    rw [show t.projects.flatMap Project.entries = [e] from hentries]
    exact List.mem_cons_self
  have hsource : Tokenless e.source := by decide
  have hplain : LooksPlain files e.source t.sourceDirectories := by
    rw [show t.sourceDirectories = _ from hdirectories]
    decide +kernel
  refine ⟨t, e, _, hparsed, hmem, hsource, hplain, Entry.found_in_order hparsed hmem hsource hplain, ?_⟩
  rw [show t.sourceDirectories = _ from hdirectories]
  decide +kernel

/-- A template in a directory whose name reads as a token, with the source of its entry beside it. The
search looks beside where the name expands to nothing, and the entry is reported missing. -/
theorem Entry.missed_beside_token :
    let files : FileSystem := ⟨.directory [("work", .directory [
      ("\x7b\x7bx\x7d\x7d", .directory [("a.txt", .file "a".toUTF8)])])], ["work"]⟩
    ∃ t e, ((Template.parse files ⟨"/work/\x7b\x7bx\x7d\x7d/t.xml"⟩
        "<Template><Project src=\"a.txt\"/></Template>").outcome {}).1.toOption = some t ∧
      e ∈ t.projects.flatMap Project.entries ∧ Tokenless e.source ∧
      holderOf files e.source t.sourceDirectories = some ⟨"/work/\x7b\x7bx\x7d\x7d"⟩ ∧
      ∀ expander, ∃ last, (e.resolveSource files ⟨t.store, expander, .proceed, 2031⟩ t).outcome
        { journal := {}, guids := ⟨0, 0⟩ } = (.error (.reported (e.missing t)), last) := by
  intro files
  let e : Entry := ⟨"a.txt", ["/work/\x7b\x7bx\x7d\x7d/a.txt"], "a.txt", false, ⟨1, 11⟩⟩
  let t : Template := ⟨⟨"/work/\x7b\x7bx\x7d\x7d/t.xml"⟩, none, none, none, none,
    [⟨"/work/\x7b\x7bx\x7d\x7d"⟩],
    ⟨[⟨"_sourceExt", some "Extension of source files.", "cs", none, .string, true⟩]⟩, [⟨e, []⟩]⟩
  refine ⟨t, e, ?_, List.mem_cons_self, by decide, ?_, fun expander => ⟨_, Prod.ext ?_ rfl⟩⟩
  · decide +kernel
  · decide +kernel
  · have hmissing : ∀ expander ∈ [Expander.values, .parameters],
        failureOf? ((e.resolveSource files ⟨t.store, expander, .proceed, 2031⟩ t).outcome
          { journal := {}, guids := ⟨0, 0⟩ }).1 = some (.reported (e.missing t)) := by
      decide +kernel
    have hexpander : expander ∈ [Expander.values, .parameters] := by
      cases expander
      · exact .head _
      · exact .tail _ (.head _)
    exact eq_error_of_failureOf? (hmissing expander hexpander)

end Stencil
