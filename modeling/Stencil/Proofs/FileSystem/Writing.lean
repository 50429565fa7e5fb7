import Stencil.Proofs.FileSystem.Walk
import Stencil.Proofs.Path.Descent

namespace Stencil.FileSystem

variable {fs fs' : FileSystem} {place above : List String} {last : String} {p : Path}

theorem empty_notMem_stepsOf (p : Path) : "" ∉ stepsOf p := by
  simp [stepsOf]

theorem wayOf_stepsOf (p : Path) : wayOf (stepsOf p) = p.moves := by
  unfold wayOf stepsOf Path.moves
  rw [List.filterMap_filter]
  congr 1
  funext segment
  by_cases h : segment = ""
  · simp [h, Path.step?]
  · simp [h]

theorem leads_startOf (fs : FileSystem) (p : Path) :
    leads (fs.startOf p) p.moves = p.placeFrom fs.workingDirectory :=
  (Path.placeFrom_eq p fs.workingDirectory).symm

theorem denotes_iff : fs.Denotes p place ↔ check p = .ok () ∧
    fs.walk (fs.startOf p) (stepsOf p ++ if endsInSlash p then ["."] else []) = .ok place ∧
      (fs.at? place).isSome = true := by
  unfold Denotes resolve at?
  rw [Option.isSome_map]
  constructor
  · rintro ⟨node, h⟩
    obtain ⟨_, hcheck, h⟩ := bind_eq_ok_iff.mp h
    obtain ⟨found, hwalk, h⟩ := bind_eq_ok_iff.mp h
    split at h
    · next hget =>
      cases h
      exact ⟨hcheck, hwalk, Option.isSome_of_eq_some hget⟩
    · cases h
  · rintro ⟨hcheck, hwalk, hsome⟩
    obtain ⟨node, hget⟩ := Option.isSome_iff_exists.mp hsome
    refine ⟨node, ?_⟩
    simp only [hcheck, bind, Except.bind, hwalk, hget]
    rfl

theorem empty_notMem_steps (p : Path) :
    "" ∉ stepsOf p ++ if endsInSlash p then ["."] else [] := by
  have hne := empty_notMem_stepsOf p
  split <;> simp [hne]

theorem wayOf_steps (p : Path) :
    wayOf (stepsOf p ++ if endsInSlash p then ["."] else []) = p.moves := by
  rw [← wayOf_stepsOf]
  unfold wayOf
  rw [List.filterMap_append]
  split <;> simp [Path.step?]

/-- A path leads to a place that can be read off its text. -/
theorem Denotes.eq_placeFrom (h : fs.Denotes p place) : place = p.placeFrom fs.workingDirectory := by
  obtain ⟨-, hwalk, -⟩ := denotes_iff.mp h
  rw [eq_leads_of_walk (empty_notMem_steps p) hwalk, wayOf_steps, leads_startOf]

theorem Denotes.passes (h : fs.Denotes p place) : fs.Passes (fs.startOf p) p.moves := by
  obtain ⟨-, hwalk, hsome⟩ := denotes_iff.mp h
  rw [← wayOf_steps]
  exact passes_of_walk (empty_notMem_steps p) hwalk hsome

theorem startOf_eq (h : fs'.workingDirectory = fs.workingDirectory) (p : Path) :
    fs'.startOf p = fs.startOf p := by
  unfold startOf
  rw [h]

theorem Denotes.mono (hr : Retains fs fs') (h : fs.Denotes p place) : fs'.Denotes p place := by
  obtain ⟨hcheck, hwalk, hsome⟩ := denotes_iff.mp h
  rw [← startOf_eq hr.workingDirectory] at hwalk
  exact denotes_iff.mpr ⟨hcheck, walk_mono hr hwalk, hr.isSome hsome⟩

/-- A path that denotes something later did so before if all that it passes existed. -/
theorem Denotes.of_retained (h : Retains fs fs') (hd : fs'.Denotes p place)
    (hp : fs.Passes (fs.startOf p) p.moves) : fs.Denotes p place := by
  have hplace := hd.eq_placeFrom
  obtain ⟨hcheck, hwalk, -⟩ := denotes_iff.mp hd
  rw [startOf_eq h.workingDirectory] at hwalk
  refine denotes_iff.mpr ⟨hcheck, ?_, ?_⟩
  · exact walk_of_retained h (empty_notMem_steps p) hwalk ((wayOf_steps p).symm ▸ hp)
  · rw [hplace, h.workingDirectory, ← leads_startOf]
    exact hp _ (List.prefix_refl _)

theorem get?_of_resolve {node : Node} (h : fs.resolve p = .ok (place, node)) :
    fs.root.get? place = some node := by
  unfold resolve at h
  cases hcheck : check p with
  | error fault => rw [hcheck] at h; cases h
  | ok _ =>
    rw [hcheck] at h
    simp only [bind, Except.bind] at h
    split at h
    · cases h
    · split at h
      · next hget =>
        cases h
        exact hget
      · cases h

theorem Denotes.resolve_file (h : fs.Denotes p place) {content : ByteArray}
    (hc : fs.at? place = some (some content)) : fs.resolve p = .ok (place, .file content) := by
  obtain ⟨node, hnode⟩ := h
  have hget := get?_of_resolve hnode
  rw [at?_eq_file_iff.mp hc] at hget
  cases hget
  exact hnode

theorem has_iff : fs.has p = true ↔ ∃ place, fs.Denotes p place := by
  unfold has Denotes
  cases fs.resolve p with
  | error fault => simp [Except.isOk, Except.toBool]
  | ok found =>
    obtain ⟨place, node⟩ := found
    simp [Except.isOk, Except.toBool]

theorem isFile_iff : fs.isFile p = true ↔ ∃ place, fs.Denotes p place ∧ fs.FileAt place := by
  unfold isFile
  constructor
  · intro h
    split at h
    · next place content hresolve =>
      exact ⟨place, ⟨_, hresolve⟩, content, at?_eq_file_iff.mpr (get?_of_resolve hresolve)⟩
    · cases h
  · rintro ⟨place, hdenotes, content, hc⟩
    rw [hdenotes.resolve_file hc]

theorem isDirectory_iff :
    fs.isDirectory p = true ↔ ∃ place, fs.Denotes p place ∧ fs.at? place = some none := by
  unfold isDirectory
  constructor
  · intro h
    split at h
    · next place entries hresolve =>
      exact ⟨place, ⟨_, hresolve⟩, at?_eq_directory_iff.mpr ⟨entries, get?_of_resolve hresolve⟩⟩
    · cases h
  · rintro ⟨place, ⟨node, hnode⟩, hdir⟩
    obtain ⟨entries, hget⟩ := at?_eq_directory_iff.mp hdir
    rw [get?_of_resolve hnode] at hget
    cases hget
    rw [hnode]

/-- A path that only goes down denotes the directory that it leads to. -/
theorem denotes_of_down (hcheck : check p = .ok ()) (hup : .up ∉ p.moves)
    (hshort : ∀ name, .name name ∈ p.moves → ¬ nameLimit < name.utf8ByteSize)
    (hdir : fs.at? (p.placeFrom fs.workingDirectory) = some none) :
    fs.Denotes p (p.placeFrom fs.workingDirectory) := by
  rw [← leads_startOf, ← wayOf_steps] at hdir ⊢
  rw [← wayOf_steps] at hup hshort
  have hwalk := walk_of_down (empty_notMem_steps p) hup hshort hdir
  exact denotes_iff.mpr ⟨hcheck, hwalk, Option.isSome_of_eq_some hdir⟩

theorem isDirectory_mono (hr : Retains fs fs') (h : fs.isDirectory p = true) :
    fs'.isDirectory p = true := by
  obtain ⟨place, hdenotes, hdir⟩ := isDirectory_iff.mp h
  exact isDirectory_iff.mpr ⟨place, hdenotes.mono hr, hr.directory _ hdir⟩

/-- The directory and the name under which what a path denotes stands, or would stand. -/
structure Site (fs : FileSystem) (p : Path) (above : List String) (last : String) : Prop where
  check : check p = .ok ()
  walk : ∃ front, stepsOf p = front ++ [last] ∧ fs.walk (fs.startOf p) front = .ok above
  directory : fs.at? above = some none
  named : last ≠ "." ∧ last ≠ ".."
  short : ¬ nameLimit < last.utf8ByteSize

theorem holder_eq_ok {directory : Node} (h : fs.holder p = .ok (some (above, directory, last))) :
    check p = .ok () ∧ fs.at? above = some none ∧ fs.root.get? above = some directory ∧
      ∃ front, stepsOf p = front ++ [last] ∧ fs.walk (fs.startOf p) front = .ok above := by
  obtain ⟨_, hcheck, h⟩ := bind_eq_ok_iff.mp h
  split at h
  · cases h
  · next final hlast =>
    obtain ⟨found, hwalk, h⟩ := bind_eq_ok_iff.mp h
    obtain ⟨node, hdir, h⟩ := bind_eq_ok_iff.mp h
    cases h
    obtain ⟨front, hfront⟩ := List.getLast?_eq_some_iff.mp hlast
    rw [hfront, List.dropLast_concat] at hwalk
    obtain ⟨hget, hat⟩ := directoryAt_eq_ok hdir
    exact ⟨hcheck, hat, hget, front, hfront, hwalk⟩

theorem newDirectoryPlace_eq_ok (h : fs.newDirectoryPlace p = .ok place) :
    ∃ above last, fs.Site p above last ∧ place = above ++ [last] ∧ fs.at? place = none := by
  obtain ⟨found, hholder, h⟩ := bind_eq_ok_iff.mp h
  split at h
  · cases h
  · next above directory last =>
    obtain ⟨hcheck, hat, hget, hwalk⟩ := holder_eq_ok hholder
    split at h
    · cases h
    · next hnamed =>
      split at h
      · cases h
      · next hshort =>
        split at h
        · cases h
        · next hchild =>
          cases h
          refine ⟨above, last, ⟨hcheck, hwalk, hat, not_or.mp hnamed, hshort⟩, rfl, ?_⟩
          rw [← Option.not_isSome_iff_eq_none, at?_concat_isSome, hget, Option.bind_some, hchild]
          simp

theorem filePlace_eq_ok (h : fs.filePlace p = .ok place) :
    ∃ above last, fs.Site p above last ∧ endsInSlash p = false ∧ place = above ++ [last] ∧
      fs.at? place ≠ some none := by
  obtain ⟨found, hholder, h⟩ := bind_eq_ok_iff.mp h
  split at h
  · cases h
  · next above directory last =>
    obtain ⟨hcheck, hat, hget, hwalk⟩ := holder_eq_ok hholder
    split at h
    · cases h
    · next hnamed =>
      rw [not_or, not_or] at hnamed
      split at h
      · cases h
      · next hshort =>
        split at h
        · cases h
        · next hchild =>
          cases h
          refine ⟨above, last, ⟨hcheck, hwalk, hat, ⟨hnamed.1, hnamed.2.1⟩, hshort⟩,
            by simpa using hnamed.2.2, rfl, ?_⟩
          -- a directory there would be the child that is excluded
          intro hdir
          obtain ⟨entries, hentries⟩ := at?_eq_directory_iff.mp hdir
          rw [Node.get?_append, hget] at hentries
          simp only [Option.bind_some, Node.get?] at hentries
          cases hnode : directory.child? last with
          | none => simp [hnode] at hentries
          | some child =>
            simp only [hnode, Option.bind_some, Option.some.injEq] at hentries
            exact hchild _ (hentries ▸ hnode)

theorem Site.place_eq (h : fs.Site p above last) :
    above ++ [last] = p.placeFrom fs.workingDirectory := by
  obtain ⟨front, hsteps, hwalk⟩ := h.walk
  have hne : "" ∉ front ++ [last] := hsteps ▸ empty_notMem_stepsOf p
  have habove := eq_leads_of_walk (fun he => hne (List.mem_append_left _ he)) hwalk
  have hlast : wayOf [last] = [.name last] := by
    have hl : last ≠ "" := fun he => hne (List.mem_append_right _ (by simp [he]))
    simp [wayOf, Path.step?, hl, h.named.1, h.named.2]
  have hway : p.moves = wayOf front ++ [.name last] := by
    rw [← wayOf_stepsOf, hsteps, ← hlast]
    exact List.filterMap_append
  calc above ++ [last]
      = leads (leads (fs.startOf p) (wayOf front)) [.name last] := by
        rw [← habove]
        rfl
    _ = leads (fs.startOf p) p.moves := by rw [hway, leads_append]
    _ = p.placeFrom fs.workingDirectory := leads_startOf fs p

/-- A path denotes what stands at its site; one that ends in a slash denotes only directories. -/
theorem Site.denotes (h : fs.Site p above last) (hfound : (fs.at? (above ++ [last])).isSome = true)
    (hslash : endsInSlash p = true → fs.at? (above ++ [last]) = some none) :
    fs.Denotes p (above ++ [last]) := by
  obtain ⟨front, hsteps, hwalk⟩ := h.walk
  have hlast : fs.walk (fs.startOf p) (stepsOf p) = .ok (above ++ [last]) := by
    rw [hsteps]
    exact walk_concat_eq_ok_iff.mpr
      ⟨above, hwalk, .down h.directory h.named.1 h.named.2 h.short hfound⟩
  refine denotes_iff.mpr ⟨h.check, ?_, hfound⟩
  split
  · next hs => exact walk_concat_eq_ok_iff.mpr ⟨_, hlast, .stay (hslash hs)⟩
  · rwa [List.append_nil]

theorem Site.mono (hr : Retains fs fs') (h : fs.Site p above last) : fs'.Site p above last := by
  obtain ⟨front, hsteps, hwalk⟩ := h.walk
  refine ⟨h.check, ⟨front, hsteps, ?_⟩, hr.directory _ h.directory, h.named, h.short⟩
  rw [startOf_eq hr.workingDirectory]
  exact walk_mono hr hwalk

theorem makeDirectory_ok (h : makeDirectory p fs = .ok () fs') :
    Grown fs fs' ∧ fs'.isDirectory p = true := by
  unfold makeDirectory at h
  split at h
  · next place hplace =>
    cases h
    obtain ⟨above, last, hsite, rfl, hfree⟩ := newDirectoryPlace_eq_ok hplace
    have hne : fs.at? (above ++ [last]) ≠ some none := by simp [hfree]
    have hat := at?_put hsite.directory hne (rfl : (Node.directory []).entries = [])
    have hgrown : Grown fs (fs.put (above ++ [last]) (.directory [])) := by
      refine ⟨rfl, fun q => ?_⟩
      rw [hat]
      split
      · next hq => exact Or.inr ⟨hq ▸ hfree, rfl⟩
      · exact Or.inl rfl
    have hself : (fs.put (above ++ [last]) (.directory [])).at? (above ++ [last]) = some none := by
      rw [hat, if_pos rfl]
      rfl
    refine ⟨hgrown, isDirectory_iff.mpr ⟨_, ?_, hself⟩⟩
    exact (hsite.mono hgrown.retains).denotes (Option.isSome_of_eq_some hself) fun _ => hself
  · cases h

theorem makeDirectory_error {fault : FileFault} (h : makeDirectory p fs = .error fault fs') :
    fs' = fs := by
  unfold makeDirectory at h
  split at h
  · cases h
  · cases h
    rfl

/-- Making one directory fails without a trace, or leaves this directory. -/
theorem ensureDirectory_triple (start : FileSystem) (p : Path) :
    Triple (Grown start) (ensureDirectory p)
      (fun _ fs => Grown start fs ∧ fs.isDirectory p = true) (Grown start) := by
  intro fs hfs
  unfold ensureDirectory
  cases hmake : makeDirectory p fs with
  | ok _ made =>
    obtain ⟨hgrown, hdir⟩ := makeDirectory_ok hmake
    exact ⟨hfs.trans hgrown, hdir⟩
  | error fault same =>
    rw [makeDirectory_error hmake]
    cases fault with
    | «exists» =>
      by_cases hdir : fs.isDirectory p = true
      · simp only [hdir, if_true]
        exact ⟨hfs, trivial⟩
      · simp only [hdir]
        exact hfs
    | _ => exact hfs

/-- Climbing makes at most one directory. It comes back empty only from a path that is one then, and
starts with the path otherwise. -/
theorem climb_triple (start : FileSystem) (paths : List Path) :
    Triple (Grown start) (climb paths)
      (fun missing fs => Grown start fs ∧ ∀ p above, paths = p :: above →
        ¬ (p.text = "" ∨ p.parent?.isNone = true) →
          fs.isDirectory p = true ∨ missing.head? = some p)
      (Grown start) := by
  induction paths with
  | nil => exact fun fs hfs => ⟨hfs, fun p above h => nomatch h⟩
  | cons p above ih =>
    intro fs hfs
    unfold climb
    by_cases hstop : p.text = "" ∨ p.parent?.isNone = true
    · simp only [hstop, if_true]
      refine ⟨hfs, fun q rest hq hne => ?_⟩
      cases hq
      exact absurd hstop hne
    · simp only [hstop, if_false]
      cases hmake : makeDirectory p fs with
      | ok _ made =>
        obtain ⟨hgrown, hdir⟩ := makeDirectory_ok hmake
        refine ⟨hfs.trans hgrown, fun q rest hq _ => ?_⟩
        cases hq
        exact Or.inl hdir
      | error fault same =>
        -- only where the directory above is missing does the climb go on
        have hsame := makeDirectory_error hmake
        subst hsame
        have hrest := ih same hfs
        cases fault with
        | notFound =>
          simp only
          cases hclimb : climb above same with
          | ok missing made =>
            rw [hclimb] at hrest
            refine ⟨hrest.1, fun q rest hq _ => ?_⟩
            cases hq
            exact Or.inr rfl
          | error fault made =>
            rw [hclimb] at hrest
            exact hrest
        | «exists» =>
          by_cases hdir : same.isDirectory p = true
          · simp only [hdir, if_true]
            refine ⟨hfs, fun q rest hq _ => ?_⟩
            cases hq
            exact Or.inl hdir
          · simp only [hdir]
            exact hfs
        | _ => exact hfs

/-- Making a directory and those above it changes nothing that existed, however far it gets. -/
theorem createDirectories_triple (start : FileSystem) (p : Path) :
    Triple (Grown start) (createDirectories p)
      (fun _ fs => Grown start fs ∧
        (¬ (p.text = "" ∨ p.parent?.isNone = true) → fs.isDirectory p = true))
      (Grown start) := by
  unfold createDirectories
  by_cases hstop : p.text = "" ∨ p.parent?.isNone = true
  · simp only [hstop, if_true]
    exact fun fs hfs => ⟨hfs, fun hne => absurd trivial hne⟩
  · simp only [hstop, if_false]
    obtain ⟨above, hancestors⟩ := Path.exists_ancestors_eq_cons p
    rw [hancestors]
    refine (climb_triple start (p :: above)).bind fun missing => ?_
    intro fs hpre
    obtain ⟨hfs, hfirst⟩ := hpre
    have hensure (begin : FileSystem) (l : List Path) : Triple (Grown begin)
        (l.forM ensureDirectory) (fun _ => Grown begin) (Grown begin) :=
      Triple.forM fun q _ => (ensureDirectory_triple begin q).mono (fun _ h => h)
        (fun _ _ h => h.1) (fun _ h => h)
    rcases hfirst p above rfl hstop with hdir | hhead
    · -- the directory is there already, and stays whatever else is made
      refine (hensure fs missing.reverse).mono (fun _ h => h) (fun _ t ht => ?_)
        (fun t ht => hfs.trans ht) fs (Grown.refl fs)
      exact ⟨hfs.trans ht, fun _ => isDirectory_mono ht.retains hdir⟩
    · -- the directory is the last to be made
      obtain ⟨rest, rfl⟩ := List.head?_eq_some_iff.mp hhead
      have hlast : (rest.reverse ++ [p]).forM ensureDirectory =
          (do rest.reverse.forM ensureDirectory; [p].forM ensureDirectory) := List.forM_append
      rw [List.reverse_cons, hlast]
      refine ((hensure start rest.reverse).bind fun _ => ?_) fs hfs
      refine (ensureDirectory_triple start p).bind fun _ => ?_
      exact Triple.pure fun t ht => ⟨ht.1, fun _ => ht.2⟩

/-- A file was written: at its place it holds what was written, all other places are as before. -/
structure Wrote (fs : FileSystem) (p : Path) (place : List String) (content : ByteArray)
    (fs' : FileSystem) : Prop where
  workingDirectory : fs'.workingDirectory = fs.workingDirectory
  place_eq : place = p.placeFrom fs.workingDirectory
  notDirectory : fs.at? place ≠ some none
  site : ∃ above last, fs.Site p above last ∧ endsInSlash p = false ∧ place = above ++ [last]
  at? : ∀ q, fs'.at? q = if q = place then some (some content) else fs.at? q

theorem wrote_put (h : fs.filePlace p = .ok place) (content : ByteArray) :
    Wrote fs p place content (fs.put place (.file content)) := by
  obtain ⟨above, last, hsite, hslash, rfl, hne⟩ := filePlace_eq_ok h
  exact ⟨rfl, hsite.place_eq, hne, ⟨above, last, hsite, hslash, rfl⟩,
    at?_put hsite.directory hne rfl⟩

theorem Wrote.retains {content : ByteArray} (h : Wrote fs p place content fs') :
    Retains fs fs' := by
  refine ⟨h.workingDirectory, fun q hd => ?_, fun q c hc => ?_⟩
  · have hq : q ≠ place := by
      rintro rfl
      exact h.notDirectory hd
    rw [h.at?, if_neg hq, hd]
  · by_cases hq : q = place
    · exact ⟨content, by rw [h.at?, if_pos hq]⟩
    · exact ⟨c, by rw [h.at?, if_neg hq, hc]⟩

/-- A file that is written is new, or takes the place of an earlier one. -/
theorem Wrote.fileAt_iff {target : List String} {content : ByteArray}
    (h : Wrote fs p target content fs') : fs'.FileAt place ↔ fs.FileAt place ∨ place = target := by
  constructor
  · rintro ⟨found, hfound⟩
    rw [h.at?] at hfound
    split at hfound
    · next hp => exact Or.inr hp
    · exact Or.inl ⟨found, hfound⟩
  · rintro (hp | rfl)
    · exact h.retains.fileAt hp
    · exact ⟨content, by rw [h.at?, if_pos rfl]⟩

/-- What was written is found where it was written to. -/
theorem Wrote.denotes {content : ByteArray} (h : Wrote fs p place content fs') :
    fs'.Denotes p place := by
  obtain ⟨above, last, hsite, hslash, rfl⟩ := h.site
  apply (hsite.mono h.retains).denotes
  · exact Option.isSome_of_eq_some ((h.at? _).trans (if_pos rfl))
  · intro hs
    rw [hslash] at hs
    cases hs

theorem write_triple (start : FileSystem) (p : Path) (content : ByteArray) :
    Triple (· = start) (write p content)
      (fun _ fs => ∃ place, Wrote start p place content fs) (· = start) := by
  rintro fs rfl
  unfold write
  split
  · next a made hrun =>
    split at hrun
    · next place hplace =>
      cases hrun
      exact ⟨place, wrote_put hplace content⟩
    · cases hrun
  · next fault made hrun =>
    split at hrun
    · cases hrun
    · cases hrun
      rfl

/-- What a copy of a source holds at a place: nothing, if the source stands there itself. -/
def Copied (fs : FileSystem) (source : Path) (place : List String) (content : ByteArray) : Prop :=
  ∃ origin original, fs.resolve source = .ok (origin, .file original) ∧
    content = if place = origin then .empty else original

theorem copy_copied (start : FileSystem) (source target : Path) :
    Triple (· = start) (copy source target)
      (fun _ fs => ∃ place content, Wrote start target place content fs ∧
        start.Copied source place content) (· = start) := by
  rintro fs rfl
  unfold copy
  cases hsource : fs.resolve source with
  | error fault => rfl
  | ok found =>
    obtain ⟨origin, node⟩ := found
    cases node with
    | directory entries => rfl
    | file content =>
      cases hplace : fs.filePlace target with
      | error fault => simp only
      | ok place =>
        simp only
        exact ⟨place, _, wrote_put hplace _, origin, content, hsource, rfl⟩

theorem copy_triple (start : FileSystem) (source target : Path) :
    Triple (· = start) (copy source target)
      (fun _ fs => ∃ place content, Wrote start target place content fs) (· = start) :=
  (copy_copied start source target).mono (fun _ h => h)
    (fun _ _ ⟨place, content, hwrote, _⟩ => ⟨place, content, hwrote⟩) fun _ h => h

/-- Everything is still there, and every file holds what it held. -/
structure Keeps (fs fs' : FileSystem) : Prop where
  retains : Retains fs fs'
  file : ∀ place content, fs.at? place = some (some content) → fs'.at? place = some (some content)

namespace Keeps

variable {content : ByteArray}

theorem trans {fs₁ fs₂ fs₃ : FileSystem} (h : fs₁.Keeps fs₂) (h' : fs₂.Keeps fs₃) : fs₁.Keeps fs₃ :=
  ⟨h.retains.trans h'.retains, fun place content hc => h'.file place content (h.file place content hc)⟩

theorem of_grown (h : Grown fs fs') : fs.Keeps fs' := ⟨h.retains, fun _ _ hc => h.file_iff.mpr hc⟩

/-- Writing where no file was leaves all files as they were. -/
theorem of_wrote (h : Wrote fs p place content fs')
    (hfree : ∀ content, fs.at? place ≠ some (some content)) : fs.Keeps fs' := by
  refine ⟨h.retains, fun q original hq => ?_⟩
  have hne : q ≠ place := by
    rintro rfl
    exact hfree original hq
  rw [h.at?, if_neg hne, hq]

variable (h : fs.Keeps fs')
include h

/-- What a path denotes as a file it still denotes. -/
theorem resolve (hp : fs.resolve p = .ok (place, .file content)) :
    fs'.resolve p = .ok (place, .file content) := by
  have hdenotes : fs.Denotes p place := ⟨_, hp⟩
  have hfile := at?_eq_file_iff.mpr (get?_of_resolve hp)
  exact (hdenotes.mono h.retains).resolve_file (h.file _ _ hfile)

theorem read (hp : fs.read p = .ok content) : fs'.read p = .ok content := by
  obtain ⟨⟨place, node⟩, hresolve, hnode⟩ := bind_eq_ok_iff.mp hp
  cases node with
  | directory entries => cases hnode
  | file original =>
    cases hnode
    exact bind_eq_ok_iff.mpr ⟨_, h.resolve hresolve, rfl⟩

theorem readText {text : String} (hp : fs.readText p = .ok text) : fs'.readText p = .ok text := by
  obtain ⟨content, hread, htext⟩ := bind_eq_ok_iff.mp hp
  exact bind_eq_ok_iff.mpr ⟨content, h.read hread, htext⟩

end Keeps

end Stencil.FileSystem
