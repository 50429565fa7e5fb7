import Stencil.Proofs.FileSystem.Below

namespace Stencil

namespace Node

theorem putEntry_same {name : String} {child : Node} {entries : List (String × Node)}
    (h : entries.lookup name = some child) : putEntry name child entries = entries := by
  induction entries with
  | nil => cases h
  | cons entry rest ih =>
    obtain ⟨other, node⟩ := entry
    unfold putEntry
    rw [List.lookup_cons] at h
    split
    · next hsame =>
      subst hsame
      rw [beq_self_eq_true] at h
      cases h
      rfl
    · next hne =>
      rw [beq_eq_false_iff_ne.mpr hne] at h
      rw [ih h]

/-- Putting a node where it stands changes nothing. -/
theorem set_same {n node : Node} {names : List String} (h : n.get? names = some node) :
    n.set node names = n := by
  induction names generalizing n with
  | nil => exact (Option.some.inj h).symm
  | cons name rest ih =>
    simp only [get?] at h
    obtain ⟨child, hchild, hbelow⟩ := Option.bind_eq_some_iff.mp h
    simp only [set, hchild, ih hbelow]
    cases n with
    | file content => rfl
    | directory entries => exact congrArg directory (putEntry_same hchild)

end Node

namespace FileSystem

variable {fs fs' : FileSystem} {place above : List String} {p : Path} {last : String}
  {content : ByteArray}

/-- Above the last step of a path that denotes something there is a directory. -/
theorem Denotes.walk_front {front : List String} (h : fs.Denotes p place)
    (hsteps : stepsOf p = front ++ [last]) :
    ∃ above next, fs.walk (fs.startOf p) front = .ok above ∧ fs.Reaches above last next := by
  obtain ⟨-, hwalk, -⟩ := denotes_iff.mp h
  have hall : ∃ next, fs.walk (fs.startOf p) (stepsOf p) = .ok next := by
    split at hwalk
    · obtain ⟨next, hnext, -⟩ := walk_concat_eq_ok_iff.mp hwalk
      exact ⟨next, hnext⟩
    · exact ⟨place, by rwa [List.append_nil] at hwalk⟩
  obtain ⟨next, hnext⟩ := hall
  rw [hsteps] at hnext
  obtain ⟨above, habove, hlast⟩ := walk_concat_eq_ok_iff.mp hnext
  exact ⟨above, next, habove, hlast⟩

theorem Reaches.directory {step : String} {q : List String} (h : fs.Reaches place step q) :
    fs.at? place = some none := by
  cases h with
  | stay hdir => exact hdir
  | up hdir => exact hdir
  | down hdir => exact hdir

/-- Nothing is made where a path denotes something. -/
theorem Denotes.makeDirectory (h : fs.Denotes p place) :
    FileSystem.makeDirectory p fs = .error .exists fs := by
  obtain ⟨hcheck, -, -⟩ := denotes_iff.mp h
  suffices hplace : fs.newDirectoryPlace p = .error .exists by
    unfold FileSystem.makeDirectory
    rw [hplace]
  cases hlast : (stepsOf p).getLast? with
  | none => simp [newDirectoryPlace, FileSystem.holder, hcheck, hlast, bind, Except.bind, pure,
      Except.pure, throw, throwThe, MonadExceptOf.throw]
  | some last =>
    obtain ⟨front, hsteps⟩ := List.getLast?_eq_some_iff.mp hlast
    obtain ⟨above, next, habove, hreaches⟩ := h.walk_front hsteps
    obtain ⟨directory, hholder, hget⟩ :=
      holder_of_walk hcheck ⟨front, hsteps, habove⟩ hreaches.directory
    cases hreaches with
    | stay => simp [newDirectoryPlace, hholder, bind, Except.bind, throw, throwThe,
        MonadExceptOf.throw]
    | up => simp [newDirectoryPlace, hholder, bind, Except.bind, throw, throwThe,
        MonadExceptOf.throw]
    | down hdir hstay hup hlimit hfound =>
      rw [at?_concat_isSome, hget, Option.bind_some] at hfound
      obtain ⟨child, hchild⟩ := Option.isSome_iff_exists.mp hfound
      simp [newDirectoryPlace, hholder, hstay, hup, hlimit, hchild, bind, Except.bind, throw,
        throwThe, MonadExceptOf.throw]

/-- A directory that is there is made without a change. -/
theorem createDirectories_again (h : ¬ (p.text = "" ∨ p.parent?.isNone = true) →
    fs.isDirectory p = true) : createDirectories p fs = .ok () fs := by
  by_cases hstop : p.text = "" ∨ p.parent?.isNone = true
  · unfold createDirectories
    simp only [hstop, if_true]
    rfl
  · obtain ⟨place, hdenotes, -⟩ := isDirectory_iff.mp (h hstop)
    refine (createDirectories_of_ensureDirectory hstop).1 ?_
    unfold ensureDirectory
    rw [hdenotes.makeDirectory]
    simp only [h hstop, if_true]

/-- A file that holds a text is written over with it without a change. -/
theorem Site.write_again (h : fs.Site p above last) (hslash : endsInSlash p = false)
    (hcontent : fs.at? (above ++ [last]) = some (some content)) : write p content fs = .ok () fs := by
  have hplace := h.filePlace hslash (by simp [hcontent])
  have hput : fs.put (above ++ [last]) (.file content) = fs := by
    rw [put, Node.set_same (at?_eq_file_iff.mp hcontent)]
  unfold write
  rw [hplace]
  simp only [hput]

/-- What was written stays written when it is written again. -/
theorem Wrote.again (h : Wrote fs p place content fs') : write p content fs' = .ok () fs' := by
  obtain ⟨above, last, hsite, hslash, rfl⟩ := h.site
  exact (hsite.mono h.retains).write_again hslash ((h.at? _).trans (if_pos rfl))

/-- The text that was written is read. -/
theorem Wrote.readText {text : String} (h : Wrote fs p place text.toUTF8 fs') :
    fs'.isFile p = true ∧ fs'.readText p = .ok text := by
  have hfile := (h.at? place).trans (if_pos rfl)
  refine ⟨isFile_iff.mpr ⟨place, h.denotes, _, hfile⟩, ?_⟩
  have hread : fs'.read p = .ok text.toUTF8 :=
    bind_eq_ok_iff.mpr ⟨_, h.denotes.resolve_file hfile, rfl⟩
  have htext : String.fromUTF8? text.toUTF8 = some text := dif_pos text.isValidUTF8
  exact bind_eq_ok_iff.mpr ⟨_, hread, by rw [htext]; rfl⟩

/-- Where the root is a file, a path denotes it only if it did so all along. -/
theorem Retains.isFile (h : Retains fs fs') (hfile : fs.isFile p = true) : fs'.isFile p = true := by
  obtain ⟨place, hdenotes, hat⟩ := isFile_iff.mp hfile
  exact isFile_iff.mpr ⟨place, hdenotes.mono h, h.fileAt hat⟩

theorem Retains.has (h : Retains fs fs') (hfound : fs.has p = true) : fs'.has p = true := by
  obtain ⟨place, hdenotes⟩ := has_iff.mp hfound
  exact has_iff.mpr ⟨place, hdenotes.mono h⟩

theorem Retains.isFile_of_root (h : Retains fs fs') (hroot : fs'.FileAt [])
    (hfile : fs'.isFile p = true) : fs.isFile p = true := by
  obtain ⟨place, hdenotes, -⟩ := isFile_iff.mp hfile
  -- nothing stands below a file
  have hnil (q : List String) (hq : (fs'.at? q).isSome = true) : q = [] := by
    obtain ⟨content, hcontent⟩ := hroot
    by_contra hne
    have hbelow : (fs'.at? ([] ++ q)).isSome = true := hq
    have hdir := (at?_of_append hbelow).2 hne
    rw [hcontent] at hdir
    cases hdir
  have hfirst : ∃ kind, fs.at? [] = some kind := ⟨_, rfl⟩
  obtain ⟨kind, hkind⟩ := hfirst
  have hpasses : fs.Passes (fs.startOf p) p.moves := by
    intro front hf
    have hsome := hdenotes.passes front hf
    rw [startOf_eq h.workingDirectory] at hsome
    rw [hnil _ hsome]
    exact Option.isSome_of_eq_some hkind
  have hbefore := hdenotes.of_retained h hpasses
  obtain ⟨-, -, hsome⟩ := denotes_iff.mp hdenotes
  obtain rfl := hnil _ hsome
  refine isFile_iff.mpr ⟨[], hbefore, ?_⟩
  cases kind with
  | none =>
    obtain ⟨content, hcontent⟩ := hroot
    rw [h.directory [] hkind] at hcontent
    cases hcontent
  | some content => exact ⟨content, hkind⟩

end FileSystem

end Stencil
