import Stencil.Proofs.FileSystem.Writing

/-! What making a directory with those above it leaves behind when it fails. The missing directories
are made from the top, so those above a name that is too long stay. -/

namespace Stencil.FileSystem

variable {fs fs' : FileSystem} {place above front names rest : List String} {name last : String}
  {p r : Path}

theorem holder_of_walk (hcheck : check p = .ok ())
    (hwalk : ∃ front, stepsOf p = front ++ [last] ∧ fs.walk (fs.startOf p) front = .ok above)
    (hdir : fs.at? above = some none) :
    ∃ directory, fs.holder p = .ok (some (above, directory, last)) ∧
      fs.root.get? above = some directory := by
  obtain ⟨front, hsteps, hwalk⟩ := hwalk
  obtain ⟨directory, hdirectory, hget⟩ := directoryAt_of_at? hdir
  refine ⟨directory, ?_, hget⟩
  simp [FileSystem.holder, hcheck, hsteps, hwalk, hdirectory, bind, Except.bind, pure, Except.pure]

theorem Site.holder (h : fs.Site p above last) :
    ∃ directory, fs.holder p = .ok (some (above, directory, last)) ∧
      fs.root.get? above = some directory := holder_of_walk h.check h.walk h.directory

theorem Site.makeDirectory_free (h : fs.Site p above last)
    (hfree : fs.at? (above ++ [last]) = none) :
    makeDirectory p fs = .ok () (fs.put (above ++ [last]) (.directory [])) := by
  obtain ⟨directory, hholder, hget⟩ := h.holder
  have hchild : directory.child? last = none := by
    have hsome := at?_concat_isSome fs above last
    rw [hfree, hget, Option.bind_some] at hsome
    exact Option.isNone_iff_eq_none.mp (by simpa using hsome.symm)
  simp [makeDirectory, newDirectoryPlace, hholder, h.named, h.short, hchild, bind, Except.bind,
    pure, Except.pure]

theorem Site.makeDirectory_taken (h : fs.Site p above last)
    (htaken : (fs.at? (above ++ [last])).isSome = true) :
    makeDirectory p fs = .error .exists fs := by
  obtain ⟨directory, hholder, hget⟩ := h.holder
  rw [at?_concat_isSome, hget, Option.bind_some] at htaken
  obtain ⟨child, hchild⟩ := Option.isSome_iff_exists.mp htaken
  simp [makeDirectory, newDirectoryPlace, hholder, h.named, h.short, hchild, bind, Except.bind,
    throw, throwThe, MonadExceptOf.throw]

/-- Where a directory can stand and no file does, there is one afterwards, and nothing else changed. -/
theorem Site.ensureDirectory (h : fs.Site p above last)
    (hfile : ∀ content, fs.at? (above ++ [last]) ≠ some (some content)) :
    ∃ fs', ensureDirectory p fs = .ok () fs' ∧ Grown fs fs' ∧
      ∀ q, fs'.at? q = if q = above ++ [last] then some none else fs.at? q := by
  cases hat : fs.at? (above ++ [last]) with
  | none =>
    have hmake := h.makeDirectory_free hat
    exact ⟨_, by simp [FileSystem.ensureDirectory, hmake], (makeDirectory_ok hmake).1,
      at?_put h.directory (by simp [hat]) rfl⟩
  | some kind =>
    cases kind with
    | some content => exact absurd hat (hfile content)
    | none =>
      have hmake := h.makeDirectory_taken (Option.isSome_of_eq_some hat)
      have hdir : fs.isDirectory p = true :=
        isDirectory_iff.mpr ⟨_, h.denotes (Option.isSome_of_eq_some hat) fun _ => hat, hat⟩
      refine ⟨fs, by simp [FileSystem.ensureDirectory, hmake, hdir], Grown.refl fs, fun q => ?_⟩
      split
      · next hq => rw [hq, hat]
      · rfl

/-- The place where a way down breaks off: a directory that has no entry of the next name. -/
structure Gap (fs : FileSystem) (front : List String) (name : String) : Prop where
  directory : fs.at? front = some none
  free : fs.at? (front ++ [name]) = none
  short : ∀ n ∈ front ++ [name], ¬ nameLimit < n.utf8ByteSize

/-- A path leads over a gap, and behind it there is a name that no entry can have. -/
def Overreaches (fs : FileSystem) (p : Path) : Prop :=
  check p = .ok () ∧ ∃ front name rest, p.placeFrom fs.workingDirectory = front ++ name :: rest ∧
    fs.Gap front name ∧ ∃ n ∈ rest, nameLimit < n.utf8ByteSize

theorem walk_of_directory (hdir : fs.at? (place ++ names) = some none)
    (hnamed : ∀ n ∈ names, n ≠ "." ∧ n ≠ "..") (hshort : ∀ n ∈ names, ¬ nameLimit < n.utf8ByteSize) :
    fs.walk place names = .ok (place ++ names) := by
  induction names using List.reverseRecOn with
  | nil => simp [walk, pure, Except.pure]
  | append_singleton names name ih =>
    have hlast : name ∈ names ++ [name] := List.mem_append_right _ List.mem_cons_self
    rw [← List.append_assoc] at hdir ⊢
    have habove := (at?_of_append (Option.isSome_of_eq_some hdir)).2 (List.cons_ne_nil _ _)
    refine walk_concat_eq_ok_iff.mpr ⟨place ++ names, ?_, ?_⟩
    · exact ih habove (fun n hn => hnamed n (List.mem_append_left _ hn))
        fun n hn => hshort n (List.mem_append_left _ hn)
    · exact .down habove (hnamed _ hlast).1 (hnamed _ hlast).2 (hshort _ hlast)
        (Option.isSome_of_eq_some hdir)

theorem walk_append (fs : FileSystem) (place steps more : List String) :
    fs.walk place (steps ++ more) = fs.walk place steps >>= fun q => fs.walk q more :=
  List.foldlM_append

theorem isSome_of_walk (hplace : (fs.at? place).isSome = true) {q : List String}
    (h : fs.walk place names = .ok q) : (fs.at? q).isSome = true := by
  induction names generalizing place with
  | nil =>
    cases h
    exact hplace
  | cons name names ih =>
    obtain ⟨next, hstep, hrest⟩ := walk_cons_eq_ok_iff.mp h
    refine ih ?_ hrest
    cases hstep with
    | stay hd => exact hplace
    | up hd => exact at?_of_prefix hplace (List.dropLast_prefix _)
    | down _ _ _ _ hfound => exact hfound

/-- No walk takes a step by a name that is too long. -/
theorem short_of_walk (hnamed : ∀ n ∈ names, n ≠ "." ∧ n ≠ "..") {q : List String}
    (h : fs.walk place names = .ok q) : ∀ n ∈ names, ¬ nameLimit < n.utf8ByteSize := by
  induction names generalizing place with
  | nil => simp
  | cons name names ih =>
    obtain ⟨next, hstep, hrest⟩ := walk_cons_eq_ok_iff.mp h
    obtain ⟨hpoint, hup⟩ := hnamed name List.mem_cons_self
    intro n hn
    rcases List.mem_cons.mp hn with rfl | hn
    · cases hstep with
      | stay _ => exact absurd rfl hpoint
      | up _ => exact absurd rfl hup
      | down _ _ _ hlimit _ => exact hlimit
    · exact ih (fun m hm => hnamed m (List.mem_cons_of_mem _ hm)) hrest n hn

/-- A walk over a gap finds nothing. -/
theorem Gap.walk (h : fs.Gap front name) (hnamed : ∀ n ∈ front ++ [name], n ≠ "." ∧ n ≠ "..") :
    fs.walk [] (front ++ name :: rest) = .error .notFound := by
  have hfront : fs.walk [] front = .ok front :=
    walk_of_directory h.directory (fun n hn => hnamed n (List.mem_append_left _ hn))
      fun n hn => h.short n (List.mem_append_left _ hn)
  obtain ⟨directory, hdirectory, hget⟩ := directoryAt_of_at? h.directory
  have hchild : directory.child? name = none := by
    have hsome := at?_concat_isSome fs front name
    rw [h.free, hget, Option.bind_some] at hsome
    exact Option.isNone_iff_eq_none.mp (by simpa using hsome.symm)
  have hmem : name ∈ front ++ [name] := List.mem_append_right _ List.mem_cons_self
  have hstep : fs.stepFrom front name = .error .notFound := by
    simp [stepFrom, hdirectory, (hnamed _ hmem).1, (hnamed _ hmem).2, h.short _ hmem, hchild, bind,
      Except.bind, throw, throwThe, MonadExceptOf.throw]
  rw [walk_append, hfront]
  simp [FileSystem.walk, hstep, bind, Except.bind]

/-- A walk that finds nothing comes to a gap. -/
theorem exists_gap_of_walk (hplace : (fs.at? place).isSome = true)
    (hnamed : ∀ n ∈ names, n ≠ "." ∧ n ≠ "..") (hshort : ∀ n ∈ place, ¬ nameLimit < n.utf8ByteSize)
    (h : fs.walk place names = .error .notFound) :
    ∃ front name rest, place ++ names = front ++ name :: rest ∧ fs.Gap front name := by
  induction names generalizing place with
  | nil => cases h
  | cons name names ih =>
    obtain ⟨hpoint, hup⟩ := hnamed name List.mem_cons_self
    cases hat : fs.at? place with
    | none => simp [hat] at hplace
    | some kind =>
      cases kind with
      | some content =>
        -- a step from a file fails for another reason
        have hdir : fs.directoryAt place = .error .notADirectory := by
          simp [directoryAt, at?_eq_file_iff.mp hat, Node.isDirectory]
        simp [walk, stepFrom, hdir, bind, Except.bind] at h
      | none =>
        obtain ⟨directory, hdirectory, hget⟩ := directoryAt_of_at? hat
        by_cases hlong : nameLimit < name.utf8ByteSize
        · simp [walk, stepFrom, hdirectory, hpoint, hup, hlong, bind, Except.bind, throw, throwThe,
            MonadExceptOf.throw] at h
        · have hshort' : ∀ n ∈ place ++ [name], ¬ nameLimit < n.utf8ByteSize := by
            intro n hn
            rcases List.mem_append.mp hn with hn | hn
            · exact hshort n hn
            · exact List.mem_singleton.mp hn ▸ hlong
          cases hfound : fs.at? (place ++ [name]) with
          | none => exact ⟨place, name, names, rfl, hat, hfound, hshort'⟩
          | some kind =>
            have hsome := Option.isSome_of_eq_some hfound
            have hrest : fs.walk (place ++ [name]) names = .error .notFound := by
              have hstep := stepFrom_eq_ok_iff.mpr (.down hat hpoint hup hlong hsome)
              simpa [walk, hstep, bind, Except.bind] using h
            obtain ⟨front, next, rest, hsplit, hgap⟩ :=
              ih hsome (fun n hn => hnamed n (List.mem_cons_of_mem _ hn)) hshort' hrest
            exact ⟨front, next, rest, by simpa using hsplit, hgap⟩

theorem check_eq_ok_iff : check p = .ok () ↔
    '\x00' ∉ p.text.toList ∧ p.text ≠ "" ∧ p.text.utf8ByteSize < pathLimit := by
  unfold check
  split
  · next hnul => simp_all
  · next hnul =>
    split
    · next hempty => simp [hempty]
    · next hempty =>
      split
      · next hlong => simp [Nat.not_lt.mpr hlong]
      · next hlong => simp_all

theorem ne_of_check_error {fault : FileFault} (h : check p = .error fault) (hp : p.text ≠ "") :
    fault ≠ .notFound ∧ fault ≠ .exists := by
  unfold check at h
  simp only [hp, if_false] at h
  split at h
  · cases h
    exact ⟨nofun, nofun⟩
  · split at h
    · cases h
      exact ⟨nofun, nofun⟩
    · cases h

/-- The front of a text that can be a path can be one. -/
theorem check_of_append {front more : String} (hfront : front ≠ "")
    (h : check ⟨front ++ more⟩ = .ok ()) : check ⟨front⟩ = .ok () := by
  obtain ⟨hnul, -, hlong⟩ := check_eq_ok_iff.mp h
  refine check_eq_ok_iff.mpr ⟨fun hmem => hnul ?_, hfront, ?_⟩
  · rw [String.toList_append]
    exact List.mem_append_left _ hmem
  · rw [String.utf8ByteSize_append] at hlong
    change front.utf8ByteSize < pathLimit
    omega

theorem check_parent (hrooted : p.isRooted = true) (hr : p.parent? = some r)
    (h : check p = .ok ()) : check r = .ok () := by
  obtain ⟨more, hmore⟩ := (Path.text_parent hrooted hr).1
  have htext : p.text = r.text ++ String.ofList more := by
    apply String.toList_injective
    simpa using hmore.symm
  have hne := Path.text_ne_empty ((Path.isRooted_parent hr).trans hrooted)
  have hwhole : check ⟨r.text ++ String.ofList more⟩ = .ok () := by rwa [← htext]
  exact check_of_append hne hwhole

/-- The entry that a path leads down to, once the directory above it is there. -/
theorem site_of_descends (hp : p.Descends (above ++ [last])) (hcheck : check p = .ok ())
    (hdir : fs.at? above = some none)
    (hshort : ∀ n ∈ above ++ [last], ¬ nameLimit < n.utf8ByteSize) : fs.Site p above last := by
  have hlast : last ∈ above ++ [last] := List.mem_append_right _ List.mem_cons_self
  refine ⟨hcheck, ⟨above, hp.stepsOf, ?_⟩, hdir, hp.named _ hlast, hshort _ hlast⟩
  rw [startOf, if_pos hp.isRooted]
  exact walk_of_directory hdir (fun n hn => hp.named n (List.mem_append_left _ hn))
    fun n hn => hshort n (List.mem_append_left _ hn)

theorem newDirectoryPlace_of_walk {fault : FileFault} (hp : p.Descends (above ++ [last]))
    (hcheck : check p = .ok ()) (hwalk : fs.walk [] above = .error fault) :
    fs.newDirectoryPlace p = .error fault := by
  simp [newDirectoryPlace, holder, hcheck, hp.stepsOf, startOf, hp.isRooted, hwalk, bind,
    Except.bind]

/-- A directory below a gap cannot be made. -/
theorem Gap.makeDirectory (h : fs.Gap front name) (hp : p.Descends (front ++ name :: rest ++ [last]))
    (hcheck : check p = .ok ()) : makeDirectory p fs = .error .notFound fs := by
  have hnamed : ∀ n ∈ front ++ [name], n ≠ "." ∧ n ≠ ".." := fun n hn => hp.named n (by
    rcases List.mem_append.mp hn with hn | hn <;> simp_all)
  have hwalk : fs.walk [] (front ++ name :: rest) = .error .notFound := h.walk hnamed
  rw [FileSystem.makeDirectory, newDirectoryPlace_of_walk hp hcheck hwalk]

/-- Only behind a gap is there no directory to make one in. -/
theorem exists_gap_of_makeDirectory (hp : p.Descends (above ++ [last]))
    (h : makeDirectory p fs = .error .notFound fs') :
    check p = .ok () ∧ ∃ front name rest, above = front ++ name :: rest ∧ fs.Gap front name := by
  have hplace : fs.newDirectoryPlace p = .error .notFound := by
    unfold FileSystem.makeDirectory at h
    split at h
    · cases h
    · next hfault =>
      cases h
      exact hfault
  have hnamed : ∀ n ∈ above, n ≠ "." ∧ n ≠ ".." := fun n hn =>
    hp.named n (List.mem_append_left _ hn)
  have hlast := hp.named last (List.mem_append_right _ List.mem_cons_self)
  have hcheck : check p = .ok () := by
    cases hcheck : check p with
    | ok _ => rfl
    | error fault =>
      have hne := Path.text_ne_empty hp.isRooted
      have hfault : fault = .notFound := by
        simpa [newDirectoryPlace, holder, hcheck, bind, Except.bind] using hplace
      exact absurd hfault (ne_of_check_error hcheck hne).1
  refine ⟨hcheck, ?_⟩
  cases hwalk : fs.walk [] above with
  | error fault =>
    rw [newDirectoryPlace_of_walk hp hcheck hwalk] at hplace
    cases hplace
    have hnone : ∀ n ∈ ([] : List String), ¬ nameLimit < n.utf8ByteSize := nofun
    obtain ⟨front, name, rest, hsplit, hgap⟩ := exists_gap_of_walk rfl hnamed hnone hwalk
    exact ⟨front, name, rest, by simpa using hsplit, hgap⟩
  | ok place =>
    -- what the walk ends at exists, so the entry is refused for another reason
    have hholder : fs.holder p =
        fs.directoryAt place >>= fun directory => pure (some (place, directory, last)) := by
      simp [holder, hcheck, hp.stepsOf, startOf, hp.isRooted, hwalk, bind, Except.bind]
    obtain ⟨node, hnode⟩ := Option.isSome_iff_exists.mp
      (isSome_of_walk rfl hwalk)
    cases hdirectory : fs.directoryAt place with
    | error fault =>
      have hfault : fault = .notADirectory := by
        unfold at? at hnode
        unfold directoryAt at hdirectory
        split at hdirectory
        · split at hdirectory <;> cases hdirectory
          rfl
        · next hnone => simp [hnone] at hnode
      simp [newDirectoryPlace, hholder, hdirectory, hfault, bind, Except.bind] at hplace
    | ok directory =>
      by_cases hlong : nameLimit < last.utf8ByteSize
      · simp [newDirectoryPlace, hholder, hdirectory, hlast, hlong, bind, Except.bind, pure,
          Except.pure, throw, throwThe, MonadExceptOf.throw] at hplace
      · cases hchild : directory.child? last <;>
          simp [newDirectoryPlace, hholder, hdirectory, hlast, hlong, hchild, bind, Except.bind, pure,
            Except.pure, throw, throwThe, MonadExceptOf.throw] at hplace

theorem climb_error {paths : List Path} {fault : FileFault} (h : climb paths fs = .error fault fs') :
    fs' = fs := by
  induction paths generalizing fs with
  | nil => cases h
  | cons p above ih =>
    unfold climb at h
    split at h
    · cases h
    · cases hmake : makeDirectory p fs with
      | ok _ made => simp [hmake] at h
      | error fault' same =>
        have hsame := makeDirectory_error hmake
        subst hsame
        rw [hmake] at h
        cases fault' with
        | notFound =>
          cases hclimb : climb above same with
          | ok missing made => simp [hclimb] at h
          | error fault made =>
            simp only [hclimb] at h
            cases h
            exact ih hclimb
        | «exists» =>
          by_cases hdir : same.isDirectory p = true <;> simp [hdir] at h
          exact h.2.symm
        | _ =>
          simp at h
          exact h.2.symm

/-- Climbing from below a gap makes the first missing directory. The others can be made after it if
their names are short enough. -/
theorem Gap.climb (h : fs.Gap front name) (hp : p.Descends (front ++ name :: rest))
    (hcheck : check p = .ok ()) {n : Nat} (hn : rest.length ≤ n) :
    ∃ missing made, climb (p.ancestorsUpTo n) fs = .ok missing made ∧ Grown fs made ∧
      made.at? (front ++ [name]) = some none ∧
      ((∀ m ∈ rest, ¬ nameLimit < m.utf8ByteSize) → ∃ fs',
        missing.reverse.forM FileSystem.ensureDirectory made = .ok () fs' ∧ Grown fs fs' ∧
          fs'.at? (front ++ name :: rest) = some none) := by
  induction rest using List.reverseRecOn generalizing p n with
  | nil =>
    obtain ⟨above, habove⟩ := Path.exists_ancestorsUpTo_eq_cons n p
    have hmake := (site_of_descends hp hcheck h.directory h.short).makeDirectory_free h.free
    have hself : (fs.put (front ++ [name]) (.directory [])).at? (front ++ [name]) = some none := by
      rw [at?_put h.directory (by simp [h.free]) rfl, if_pos rfl]
      rfl
    refine ⟨[], _, ?_, (makeDirectory_ok hmake).1, hself, fun _ => ?_⟩
    · rw [habove, FileSystem.climb]
      simp only [Path.Descends.hasParent hp, if_false, hmake]
    · exact ⟨_, rfl, (makeDirectory_ok hmake).1, hself⟩
  | append_singleton rest last ih =>
    rw [List.length_append, List.length_singleton] at hn
    obtain ⟨n, rfl⟩ := Nat.exists_eq_add_of_lt (Nat.lt_of_lt_of_le (Nat.lt_succ_self _) hn)
    have hsplit : front ++ name :: (rest ++ [last]) = front ++ name :: rest ++ [last] := by simp
    rw [hsplit] at hp ⊢
    obtain ⟨r, hr, hdescends⟩ := hp.exists_parent
    have hcheckr := check_parent hp.isRooted hr hcheck
    obtain ⟨missing, made, hclimb, hgrown, hmade, hensure⟩ :=
      ih hdescends hcheckr (n := rest.length + n) (Nat.le_add_right _ _)
    refine ⟨p :: missing, made, ?_, hgrown, hmade, fun hshort => ?_⟩
    · rw [Path.ancestorsUpTo_succ hr, FileSystem.climb]
      simp only [hp.hasParent, if_false, h.makeDirectory hp hcheck, hclimb]
    · obtain ⟨fs', hrun, hgrown', hdir⟩ := hensure fun m hm => hshort m (List.mem_append_left _ hm)
      -- nothing was below the gap, so at the last name there is no file
      have hnone : fs.at? (front ++ name :: rest ++ [last]) = none := by
        cases hat : fs.at? (front ++ name :: rest ++ [last]) with
        | none => rfl
        | some kind =>
          have hprefix : front ++ [name] <+: front ++ name :: rest ++ [last] :=
            ⟨rest ++ [last], by simp⟩
          have hsome := at?_of_prefix (Option.isSome_of_eq_some hat) hprefix
          simp [h.free] at hsome
      have hfile (content : ByteArray) :
          fs'.at? (front ++ name :: rest ++ [last]) ≠ some (some content) := by
        intro hc
        rw [hgrown'.file_iff, hnone] at hc
        cases hc
      have hshort' : ∀ m ∈ front ++ name :: rest ++ [last], ¬ nameLimit < m.utf8ByteSize := by
        intro m hm
        rw [← hsplit, show front ++ name :: (rest ++ [last]) = front ++ [name] ++ (rest ++ [last]) by
          simp] at hm
        exact (List.mem_append.mp hm).elim (h.short m) (hshort m)
      obtain ⟨last', hlast, hgrown'', hplaces⟩ :=
        (site_of_descends hp hcheck hdir hshort').ensureDirectory hfile
      refine ⟨last', ?_, hgrown'.trans hgrown'', (hplaces _).trans (if_pos rfl)⟩
      have hmore : (missing.reverse ++ [p]).forM FileSystem.ensureDirectory =
          (do
            missing.reverse.forM FileSystem.ensureDirectory
            [p].forM FileSystem.ensureDirectory) := List.forM_append
      have hone : [p].forM FileSystem.ensureDirectory fs' = .ok () last' := by
        change EStateM.bind (FileSystem.ensureDirectory p) (fun _ => pure ()) fs' = _
        rw [EStateM.bind, hlast]
        rfl
      rw [List.reverse_cons, hmore]
      simpa only [Bind.bind, EStateM.bind, hrun] using hone

theorem createDirectories_eq (h : ¬ (p.text = "" ∨ p.parent?.isNone = true)) :
    createDirectories p = FileSystem.climb p.ancestors >>= fun missing =>
      missing.reverse.forM FileSystem.ensureDirectory := by
  simp only [createDirectories, h, if_false]

/-- Only a path below a gap is climbed from and left for later. -/
theorem makeDirectory_of_climb {paths missing : List Path} {made : FileSystem}
    (h : FileSystem.climb (p :: paths) fs = .ok missing made) (hne : missing ≠ []) :
    makeDirectory p fs = .error .notFound fs := by
  unfold FileSystem.climb at h
  split at h
  · cases h
    exact absurd rfl hne
  · cases hmake : makeDirectory p fs with
    | ok _ made =>
      simp only [hmake] at h
      cases h
      exact absurd rfl hne
    | error fault same =>
      rw [makeDirectory_error hmake]
      rw [hmake] at h
      cases fault with
      | notFound => rfl
      | «exists» =>
        by_cases hdir : same.isDirectory p = true <;> simp [hdir] at h
        exact absurd h.1 hne
      | _ => cases h

theorem length_rest_le (hp : p.Descends (front ++ name :: rest)) :
    rest.length ≤ p.segments.length := by
  have hle := hp.length_le
  simp only [List.length_append, List.length_cons] at hle
  omega

/-- A path that overreaches cannot be made, and the first missing directory is left. -/
theorem Overreaches.createDirectories (hp : p.Descends names) (h : fs.Overreaches p) :
    ∃ fault fs', createDirectories p fs = .error fault fs' ∧
      ∃ place, fs.at? place = none ∧ fs'.at? place = some none := by
  obtain ⟨hcheck, front, name, rest, hplace, hgap, n, hn, hlong⟩ := h
  rw [hp.placeFrom] at hplace
  rw [hplace] at hp
  have hparent : ¬ (p.text = "" ∨ p.parent?.isNone = true) := by
    rcases List.eq_nil_or_concat rest with rfl | ⟨more, last, rfl⟩
    · cases hn
    · rw [List.concat_eq_append, ← List.cons_append, ← List.append_assoc] at hp
      exact hp.hasParent
  cases hmake : FileSystem.createDirectories p fs with
  | ok _ made =>
    -- a directory that was made is reached by short names
    have hmade := createDirectories_triple fs p fs (Grown.refl fs)
    rw [hmake] at hmade
    obtain ⟨place, hdenotes, -⟩ := isDirectory_iff.mp (hmade.2 hparent)
    obtain ⟨-, hwalk, -⟩ := denotes_iff.mp hdenotes
    rw [walk_append, hp.stepsOf] at hwalk
    obtain ⟨q, hwalk, -⟩ := bind_eq_ok_iff.mp hwalk
    have hmem : n ∈ front ++ name :: rest :=
      List.mem_append_right _ (List.mem_cons_of_mem _ hn)
    exact absurd hlong (short_of_walk hp.named hwalk n hmem)
  | error fault fs' =>
    refine ⟨fault, fs', rfl, front ++ [name], hgap.free, ?_⟩
    obtain ⟨missing, made, hclimb, -, hmade, -⟩ := hgap.climb hp hcheck (length_rest_le hp)
    have hensure : Triple (Grown made) (missing.reverse.forM FileSystem.ensureDirectory)
        (fun _ => Grown made) (Grown made) :=
      Triple.forM fun q _ => (ensureDirectory_triple made q).mono (fun _ h => h)
        (fun _ _ h => h.1) fun _ h => h
    have hgrown := hensure made (Grown.refl made)
    rw [createDirectories_eq hparent] at hmake
    rw [show missing.reverse.forM FileSystem.ensureDirectory made = .error fault fs' by
      simpa only [Bind.bind, EStateM.bind, show FileSystem.climb p.ancestors fs = _ from hclimb]
        using hmake] at hgrown
    exact hgrown.retains.directory _ hmade

/-- What cannot be made is given up without a trace, unless a directory was missing above a name
that is too long. -/
theorem ne_iff_overreaches (hp : p.Descends names) {fault : FileFault}
    (h : createDirectories p fs = .error fault fs') : fs' ≠ fs ↔ fs.Overreaches p := by
  rcases List.eq_nil_or_concat names with rfl | ⟨above, last, rfl⟩
  · have hroot : createDirectories p fs = .ok () fs := by
      simp only [createDirectories, hp.parent_eq_none, Option.isNone_none, or_true, if_true]
      rfl
    rw [hroot] at h
    cases h
  rw [List.concat_eq_append] at hp
  constructor
  · intro hchanged
    rw [createDirectories_eq hp.hasParent] at h
    -- a climb that comes to an end is followed by making what it left
    have hrest {missing : List Path} {made : FileSystem}
        (hclimb : FileSystem.climb p.ancestors fs = .ok missing made) :
        missing.reverse.forM FileSystem.ensureDirectory made = .error fault fs' := by
      simpa only [Bind.bind, EStateM.bind, hclimb] using h
    cases hclimb : FileSystem.climb p.ancestors fs with
    | error fault' made =>
      simp only [Bind.bind, EStateM.bind, hclimb] at h
      cases h
      exact absurd (climb_error hclimb) hchanged
    | ok missing made =>
      have hne : missing ≠ [] := by
        rintro rfl
        cases hrest hclimb
      obtain ⟨paths, hancestors⟩ := Path.exists_ancestors_eq_cons p
      rw [hancestors] at hclimb
      obtain ⟨hcheck, front, name, rest, rfl, hgap⟩ :=
        exists_gap_of_makeDirectory hp (makeDirectory_of_climb hclimb hne)
      have hsplit : front ++ name :: rest ++ [last] = front ++ name :: (rest ++ [last]) := by simp
      rw [hsplit] at hp
      refine ⟨hcheck, front, name, rest ++ [last], hp.placeFrom _, hgap, ?_⟩
      -- with names that are all short enough nothing would have failed
      by_contra hshort
      obtain ⟨missing', made', hclimb', -, -, hensure⟩ := hgap.climb hp hcheck (length_rest_le hp)
      obtain ⟨fs'', hrun, -⟩ := hensure fun m hm hlong => hshort ⟨m, hm, hlong⟩
      rw [hrest hclimb'] at hrun
      cases hrun
  · intro hover hsame
    obtain ⟨fault', made, hmake, place, hfree, hmade⟩ := hover.createDirectories hp
    rw [h] at hmake
    cases hmake
    rw [hsame, hfree] at hmade
    cases hmade

end Stencil.FileSystem
