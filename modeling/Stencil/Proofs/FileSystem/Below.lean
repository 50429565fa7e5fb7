import Stencil.Package.Layout
import Stencil.Proofs.FileSystem.Making

namespace Stencil.FileSystem

open Stencil.Path (Written named_of_written)

variable {fs fs' : FileSystem} {base above names : List String} {last name : String} {p output : Path}

theorem stepsOf_join (p : Path) {q : Path} (h : q.isRooted = false) :
    stepsOf (p.join q) = stepsOf p ++ stepsOf q := by
  have hfilter (q : Path) : stepsOf q = q.segments.filterMap (Option.guard (· ≠ "")) :=
    (congrFun List.filterMap_eq_filter _).symm
  rw [hfilter, hfilter, hfilter, Path.filterMap_segments_join (by simp) p h]

theorem ne_empty_of_written (h : Written (.name name)) : name ≠ "" := by
  rintro rfl
  simp [Written, Path.step?, Component.text] at h

theorem pathOfNames_eq (names : List String) :
    pathOfNames names = Path.ofComponents (names.map .name) := by
  simp [pathOfNames, Path.ofComponents, Function.comp_def, Component.text]

theorem stepsOf_pathOfNames (h : ∀ n ∈ names, Written (.name n)) :
    stepsOf (pathOfNames names) = names ∧ (pathOfNames names).isRooted = false ∧
      (pathOfNames names).moves = names.map .name := by
  have hof := pathOfNames_eq names
  have hwritten : ∀ c ∈ names.map Component.name, Written c := by simpa using h
  refine ⟨?_, hof ▸ Path.isRooted_ofComponents hwritten, hof ▸ Path.moves_ofComponents hwritten⟩
  cases names with
  | nil => rfl
  | cons name rest =>
    unfold stepsOf pathOfNames
    rw [Path.segments_intercalate (by simp) fun n hn => (h n hn).2]
    exact List.filter_eq_self.mpr fun n hn => by simpa using ne_empty_of_written (h n hn)

/-- A rooted path leads to a directory. -/
structure Opens (fs : FileSystem) (output : Path) (base : List String) : Prop where
  isRooted : output.isRooted = true
  walk : fs.walk [] (stepsOf output) = .ok base
  directory : fs.at? base = some none

theorem Opens.mono (h : fs.Opens output base) (hr : Retains fs fs') : fs'.Opens output base :=
  ⟨h.isRooted, walk_mono hr h.walk, hr.directory _ h.directory⟩

theorem opens_of_isDirectory (hrooted : p.isRooted = true) (h : fs.isDirectory p = true) :
    fs.Opens p (p.placeFrom []) := by
  obtain ⟨place, hdenotes, hdir⟩ := isDirectory_iff.mp h
  obtain ⟨-, hwalk, -⟩ := denotes_iff.mp hdenotes
  have hplace : place = p.placeFrom [] := by
    rw [hdenotes.eq_placeFrom, Path.placeFrom_eq, Path.placeFrom_eq, hrooted]
    rfl
  rw [startOf, if_pos hrooted] at hwalk
  refine ⟨hrooted, ?_, hplace ▸ hdir⟩
  split at hwalk
  · -- the point behind a slash at the end does not lead on
    obtain ⟨q, hq, hstep⟩ := walk_concat_eq_ok_iff.mp hwalk
    have hsame := hstep.eq_leads (by decide)
    rw [hq, ← hplace, hsame]
    rfl
  · rw [List.append_nil] at hwalk
    rw [hwalk, hplace]

/-- The output itself is joined with no names. -/
theorem Opens.of_join (h : fs.Opens (output.join (pathOfNames [])) base)
    (hrooted : output.isRooted = true) : fs.Opens output base := by
  have hsteps := stepsOf_join output (q := pathOfNames []) (by decide)
  refine ⟨hrooted, ?_, h.directory⟩
  have hwalk := h.walk
  rwa [hsteps, show stepsOf (pathOfNames []) = [] from rfl, List.append_nil] at hwalk

theorem Opens.base_eq (h : fs.Opens output base) : base = output.placeFrom [] := by
  rw [eq_leads_of_walk (empty_notMem_stepsOf output) h.walk, wayOf_stepsOf, Path.placeFrom_eq,
    h.isRooted]
  rfl

/-- Where names below an output lead to. -/
theorem placeFrom_below (hrooted : output.isRooted = true) (hnames : ∀ n ∈ names, Written (.name n))
    (place : List String) :
    (output.join (pathOfNames names)).placeFrom place = output.placeFrom [] ++ names := by
  obtain ⟨-, hrelative, hmoves⟩ := stepsOf_pathOfNames hnames
  rw [Path.placeFrom_eq, Path.isRooted_join hrooted, Path.moves_join output hrelative, hmoves,
    leads_append, Path.leads_map_name, Path.placeFrom_eq, hrooted]
  rfl

theorem Opens.placeFrom_below (h : fs.Opens output base) (hnames : ∀ n ∈ names, Written (.name n))
    (place : List String) : (output.join (pathOfNames names)).placeFrom place = base ++ names := by
  rw [h.base_eq]
  exact FileSystem.placeFrom_below h.isRooted hnames place

/-- A climb starts by making what is asked for, unless the directory above is missing. -/
theorem climb_of_ensureDirectory {paths : List Path} (hp : ¬ (p.text = "" ∨ p.parent?.isNone = true)) :
    (ensureDirectory p fs = .ok () fs' → climb (p :: paths) fs = .ok [] fs') ∧
      ∀ fault, ensureDirectory p fs = .error fault fs' → fault ≠ .notFound →
        climb (p :: paths) fs = .error fault fs' := by
  unfold ensureDirectory climb
  simp only [hp, if_false]
  cases hmake : makeDirectory p fs with
  | ok _ made => simp
  | error fault same =>
    cases fault with
    | «exists» =>
      by_cases hdir : same.isDirectory p = true
      · simp [hdir]
      · simp [hdir]
    | notFound =>
      refine ⟨by simp, fun fault h hne => ?_⟩
      cases h
      exact absurd rfl hne
    | _ => simp

theorem createDirectories_of_ensureDirectory (hp : ¬ (p.text = "" ∨ p.parent?.isNone = true)) :
    (ensureDirectory p fs = .ok () fs' → createDirectories p fs = .ok () fs') ∧
      ∀ fault, ensureDirectory p fs = .error fault fs' → fault ≠ .notFound →
        createDirectories p fs = .error fault fs' := by
  obtain ⟨paths, hancestors⟩ := Path.exists_ancestors_eq_cons p
  rw [createDirectories_eq hp, hancestors]
  simp only [Bind.bind, EStateM.bind]
  constructor
  · intro h
    rw [(climb_of_ensureDirectory hp).1 h]
    rfl
  · intro fault h hne
    rw [(climb_of_ensureDirectory hp).2 fault h hne]

/-- A directory can be made at names below an output, once the directory above it is there. -/
structure Room (fs : FileSystem) (output : Path) (names : List String) : Prop where
  check : check (output.join (pathOfNames names)) = .ok ()
  short : ∀ n ∈ names, ¬ nameLimit < n.utf8ByteSize
  free : ∀ content, fs.at? (output.placeFrom [] ++ names) ≠ some (some content)

/-- A file can be written at names below an output, once the directory above it is there. -/
structure Slot (fs : FileSystem) (output : Path) (names : List String) : Prop where
  check : check (output.join (pathOfNames names)) = .ok ()
  short : ∀ n ∈ names, ¬ nameLimit < n.utf8ByteSize
  free : fs.at? (output.placeFrom [] ++ names) ≠ some none

theorem endsInSlash_below (hnames : ∀ n ∈ above ++ [last], Written (.name n)) :
    endsInSlash (output.join (pathOfNames (above ++ [last]))) = false := by
  have hwritten : ∀ c ∈ (above ++ [last]).map Component.name, Written c := by
    rintro c hc
    obtain ⟨n, hn, rfl⟩ := List.mem_map.mp hc
    exact hnames n hn
  have hof := pathOfNames_eq (above ++ [last])
  obtain ⟨hempty, hlast⟩ := Path.text_ofComponents hwritten (by simp)
  have hrelative := Path.isRooted_ofComponents hwritten
  rw [← hof] at hempty hlast hrelative
  unfold endsInSlash Path.join
  simp only [hrelative, Bool.false_eq_true, if_false, decide_eq_false_iff_not]
  split <;> rwa [Path.getLast?_append_of_ne hempty]

/-- Where no directory stands a file can. -/
theorem Site.filePlace (h : fs.Site p above last) (hslash : endsInSlash p = false)
    (hfree : fs.at? (above ++ [last]) ≠ some none) : fs.filePlace p = .ok (above ++ [last]) := by
  obtain ⟨directory, hholder, hget⟩ := h.holder
  have hchild (entries : List (String × Node)) : directory.child? last ≠ some (.directory entries) := by
    intro hc
    refine hfree (at?_eq_directory_iff.mpr ⟨entries, ?_⟩)
    simp [Node.get?_append, hget, Node.get?, hc]
  -- `hchild` leaves only the last case of the match
  simp only [FileSystem.filePlace, hholder, h.named.1, h.named.2, hslash, h.short, bind, Except.bind,
    or_self, Bool.false_eq_true, if_false]
  rfl

section

variable (h : fs.Opens output base) (hnames : ∀ n ∈ above ++ [last], Written (.name n))
include h hnames

theorem Opens.hasParent :
    ¬ ((output.join (pathOfNames (above ++ [last]))).text = "" ∨
      (output.join (pathOfNames (above ++ [last]))).parent?.isNone = true) := by
  obtain ⟨-, hrelative, hmoves⟩ := stepsOf_pathOfNames hnames
  have hrooted := Path.isRooted_join h.isRooted (pathOfNames (above ++ [last]))
  refine not_or.mpr ⟨Path.text_ne_empty hrooted, fun hnone => ?_⟩
  have hnil := Path.moves_eq_nil_of_parent (Option.isNone_iff_eq_none.mp hnone)
  rw [Path.moves_join output hrelative, hmoves] at hnil
  simp at hnil

variable (hdir : fs.at? (base ++ above) = some none)
  (hshort : ∀ n ∈ above, ¬ nameLimit < n.utf8ByteSize)
include hdir hshort

theorem Opens.walk_above : ∃ front, stepsOf (output.join (pathOfNames (above ++ [last]))) =
    front ++ [last] ∧
      fs.walk (fs.startOf (output.join (pathOfNames (above ++ [last])))) front =
        .ok (base ++ above) := by
  obtain ⟨hsteps, hrelative, -⟩ := stepsOf_pathOfNames hnames
  refine ⟨stepsOf output ++ above, ?_, ?_⟩
  · rw [stepsOf_join output hrelative, hsteps, List.append_assoc]
  · rw [startOf, if_pos (Path.isRooted_join h.isRooted _), walk_append, h.walk]
    exact walk_of_directory hdir
      (fun n hn => named_of_written (hnames n (List.mem_append_left _ hn))) hshort

/-- The entry that names below an output lead to. -/
theorem Opens.site (hcheck : check (output.join (pathOfNames (above ++ [last]))) = .ok ())
    (hlast : ¬ nameLimit < last.utf8ByteSize) :
    fs.Site (output.join (pathOfNames (above ++ [last]))) (base ++ above) last :=
  ⟨hcheck, h.walk_above hnames hdir hshort, hdir,
    named_of_written (hnames last (List.mem_append_right _ List.mem_cons_self)), hlast⟩

/-- Where there is room, a directory is made. -/
theorem Opens.createDirectories (hroom : fs.Room output (above ++ [last])) :
    ∃ fs', createDirectories (output.join (pathOfNames (above ++ [last]))) fs = .ok () fs' ∧
      Grown fs fs' ∧
      ∀ q, fs'.at? q = if q = base ++ (above ++ [last]) then some none else fs.at? q := by
  have hsite := h.site hnames hdir hshort hroom.check
    (hroom.short last (List.mem_append_right _ List.mem_cons_self))
  have hfree := hroom.free
  rw [← h.base_eq, ← List.append_assoc] at hfree
  obtain ⟨fs', hensure, hgrown, hplaces⟩ := hsite.ensureDirectory hfree
  rw [List.append_assoc] at hplaces
  exact ⟨fs', (createDirectories_of_ensureDirectory (h.hasParent hnames)).1 hensure, hgrown, hplaces⟩

/-- Where there is no room, no directory can be made. -/
theorem Opens.createDirectories_error (hroom : ¬ fs.Room output (above ++ [last])) :
    ∃ fault, FileSystem.createDirectories (output.join (pathOfNames (above ++ [last]))) fs =
      .error fault fs := by
  have hrooted := Path.isRooted_join h.isRooted (pathOfNames (above ++ [last]))
  suffices hensure : ∃ fault, ensureDirectory (output.join (pathOfNames (above ++ [last]))) fs =
      .error fault fs ∧ fault ≠ .notFound by
    obtain ⟨fault, hensure, hne⟩ := hensure
    exact ⟨fault, (createDirectories_of_ensureDirectory (h.hasParent hnames)).2 fault hensure hne⟩
  cases hcheck : check (output.join (pathOfNames (above ++ [last]))) with
  | error fault =>
    obtain ⟨hmissing, hexists⟩ := ne_of_check_error hcheck (Path.text_ne_empty hrooted)
    refine ⟨fault, ?_, hmissing⟩
    have hmake : makeDirectory (output.join (pathOfNames (above ++ [last]))) fs = .error fault fs := by
      simp [makeDirectory, newDirectoryPlace, holder, hcheck, bind, Except.bind]
    unfold ensureDirectory
    rw [hmake]
    cases fault <;> simp_all
  | ok _ =>
    by_cases hlast : nameLimit < last.utf8ByteSize
    · obtain ⟨directory, hholder, -⟩ :=
        holder_of_walk hcheck (h.walk_above hnames hdir hshort) hdir
      have hnamed := named_of_written (hnames last (List.mem_append_right _ List.mem_cons_self))
      refine ⟨.nameTooLong, ?_, by simp⟩
      simp [ensureDirectory, makeDirectory, newDirectoryPlace, hholder, hnamed, hlast, bind,
        Except.bind, throw, throwThe, MonadExceptOf.throw]
    · have hsite := h.site hnames hdir hshort hcheck hlast
      -- with a short name only a file can be in the way
      have hfile : ∃ content, fs.at? (base ++ above ++ [last]) = some (some content) := by
        by_contra hnone
        refine hroom ⟨hcheck, fun n hn => ?_, fun content hc => hnone ⟨content, ?_⟩⟩
        · rcases List.mem_append.mp hn with hn | hn
          · exact hshort n hn
          · exact List.mem_singleton.mp hn ▸ hlast
        · rwa [← h.base_eq, ← List.append_assoc] at hc
      obtain ⟨content, hc⟩ := hfile
      have hmake := hsite.makeDirectory_taken (Option.isSome_of_eq_some hc)
      have hdirectory : fs.isDirectory (output.join (pathOfNames (above ++ [last]))) = false := by
        rw [Bool.eq_false_iff, ne_eq, isDirectory_iff]
        rintro ⟨place, hdenotes, hplace⟩
        rw [hdenotes.eq_placeFrom, ← hsite.place_eq, hc] at hplace
        cases hplace
      exact ⟨.exists, by simp [ensureDirectory, hmake, hdirectory], by simp⟩

/-- A file is written exactly where there is a slot. -/
theorem Opens.write_iff (content : ByteArray) :
    (∃ fs', write (output.join (pathOfNames (above ++ [last]))) content fs = .ok () fs') ↔
      fs.Slot output (above ++ [last]) := by
  have hplace := h.placeFrom_below hnames
  constructor
  · rintro ⟨fs', hwrite⟩
    have hwrote := write_triple fs (output.join (pathOfNames (above ++ [last]))) content fs rfl
    rw [hwrite] at hwrote
    obtain ⟨place, hwrote⟩ := hwrote
    obtain ⟨above', last', hsite, -⟩ := hwrote.site
    -- the site is the one that the names lead to
    have hlast : last' = last := by
      have heq := hsite.place_eq.trans (hplace fs.workingDirectory)
      rw [← List.append_assoc] at heq
      exact (List.append_inj' heq rfl).2 |> List.cons.inj |>.1
    refine ⟨hsite.check, fun n hn => ?_, ?_⟩
    · rcases List.mem_append.mp hn with hn | hn
      · exact hshort n hn
      · rw [List.mem_singleton.mp hn, ← hlast]
        exact hsite.short
    · rw [← h.base_eq, ← hplace fs.workingDirectory, ← hwrote.place_eq]
      exact hwrote.notDirectory
  · intro hslot
    have hlast := hslot.short last (List.mem_append_right _ List.mem_cons_self)
    have hfree := hslot.free
    rw [← h.base_eq, ← List.append_assoc] at hfree
    have hfile := (h.site hnames hdir hshort hslot.check hlast).filePlace (endsInSlash_below hnames)
      hfree
    exact ⟨_, by rw [write, hfile]⟩

end

end Stencil.FileSystem
