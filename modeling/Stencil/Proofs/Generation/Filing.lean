import Stencil.Proofs.Generation.Preservation
import Stencil.Proofs.Rounds

namespace Stencil

open FileSystem (Grown Wrote Passes)

namespace Run

variable {α : Type} {s : Run}

/-- States that differ at most in what expanding texts needs. -/
def Alike (s s' : Run) : Prop := ∃ expansion, s' = { s with expansion }

/-- As `Alike`, but for directories where nothing was. -/
def Grows (s s' : Run) : Prop :=
  ∃ expansion files, Grown s.files files ∧ s' = { s with expansion, files }

theorem Alike.refl (s : Run) : s.Alike s := ⟨s.expansion, rfl⟩

theorem Alike.grows {s' : Run} (h : s.Alike s') : s.Grows s' := by
  obtain ⟨expansion, rfl⟩ := h
  exact ⟨expansion, s.files, Grown.refl _, rfl⟩

/-- A step of expanding texts is run on the part that it changes. -/
theorem expanding_ran (x : Attempt Expansion α) (before : Expansion) :
    Triple (fun s' => s.Alike s' ∧ s'.expansion = before) (expanding x)
      (fun a s' => s.Alike s' ∧ x.outcome before = (.ok a, s'.expansion)) s.Grows := by
  rintro _ ⟨⟨_, rfl⟩, rfl⟩
  unfold expanding Attempt.onPart Attempt.outcome
  simp only
  cases x _ with
  | ok a after => exact ⟨⟨after, rfl⟩, rfl⟩
  | error e after => exact Alike.grows ⟨after, rfl⟩

theorem currentFiles_alike :
    Triple s.Alike currentFiles (fun files s' => s.Alike s' ∧ files = s.files) s.Grows := by
  rintro _ ⟨expansion, rfl⟩
  exact ⟨⟨expansion, rfl⟩, rfl⟩

/-- What does not depend on what expanding texts needs is kept by expanding texts. -/
theorem expanding_keeps {P : Run → Prop} (x : Attempt Expansion α)
    (hP : ∀ s expansion, P s → P { s with expansion }) :
    Triple P (expanding x) (fun _ => P) P := by
  intro s hs
  unfold expanding Attempt.onPart
  cases x s.expansion with
  | ok a after => exact hP s after hs
  | error e after => exact hP s after hs

theorem expanding_alike (x : Attempt Expansion α) :
    Triple s.Alike (expanding x) (fun _ => s.Alike) s.Alike :=
  expanding_keeps x fun _ expansion ⟨_, h⟩ => ⟨expansion, h ▸ rfl⟩

theorem expanding_grows (x : Attempt Expansion α) :
    Triple s.Grows (expanding x) (fun _ => s.Grows) s.Grows :=
  expanding_keeps x fun _ expansion ⟨_, files, hgrown, h⟩ => ⟨expansion, files, hgrown, h ▸ rfl⟩

/-- Making directories is all that happens to the files. -/
theorem createDirectories_grows (p : Path) :
    Triple s.Grows (onFiles (FileSystem.createDirectories p)) (fun _ => s.Grows) s.Grows := by
  rintro _ ⟨expansion, files, hgrown, rfl⟩
  have ht := FileSystem.createDirectories_triple files p files (Grown.refl _)
  unfold onFiles
  simp only
  cases hx : FileSystem.createDirectories p files with
  | ok _ more =>
    rw [hx] at ht
    exact ⟨expansion, more, hgrown.trans ht.1, rfl⟩
  | error fault more =>
    rw [hx] at ht
    exact ⟨expansion, more, hgrown.trans ht, rfl⟩

/-- Expanding a source changes no file, so what is read is what the files hold afterwards. -/
theorem expandSource_grows (r : Renderer) (source : Path) :
    Triple s.Grows (expandSource r source)
      (fun rendered s' => s.Grows s' ∧ ∃ text before after, s'.files.readText source = .ok text ∧
        (r.render source text).outcome before = (.ok rendered, after)) s.Grows := by
  refine Triple.bind (Q := fun text s' => s.Grows s' ∧ s'.files.readText source = .ok text) ?_
    fun text => ?_
  · intro s' hs
    unfold looking
    simp only
    cases hread : s'.files.readText source with
    | ok text => exact ⟨hs, hread⟩
    | error fault => exact hs
  · rintro s₁ ⟨⟨expansion, files, hgrown, rfl⟩, htext⟩
    unfold expanding Attempt.onPart
    simp only
    cases hrender : r.render source text expansion with
    | ok rendered after =>
      refine ⟨⟨after, files, hgrown, rfl⟩, text, expansion, after, htext, ?_⟩
      rw [Attempt.outcome, hrender]
    | error e after => exact ⟨after, files, hgrown, rfl⟩

/-- What is said for information never fails. -/
theorem say_info_triple {P : Run → Prop} (message : String)
    (hP : ∀ s expansion, P s → P { s with expansion }) :
    Triple P (say .info message) (fun _ => P) fun _ => False :=
  fun s hs => hP s _ hs

end Run

/-- How an entry's file is filled: with the bytes of its source, with nothing if it is its own source,
which only some targets can be, or with the expansion of its source's text. -/
inductive Filled (r : Renderer) (raw : Bool) (source : Path) (fs : FileSystem) (place : List String)
    (content : ByteArray) (own : Prop) : Prop
  | copied {origin : List String} (hraw : raw = true)
    (hsource : fs.resolve source = .ok (origin, .file content)) (hapart : place ≠ origin)
  | emptied {original : ByteArray} (hraw : raw = true) (hown : own)
    (hsource : fs.resolve source = .ok (place, .file original)) (hcontent : content = .empty)
  | expanded {text rendered : String} {before after : Expansion} (hraw : raw = false)
    (htext : fs.readText source = .ok text)
    (hrender : (r.render source text).outcome before = (.ok rendered, after))
    (hcontent : content = rendered.toUTF8)

theorem Filled.mono {r : Renderer} {raw : Bool} {source : Path} {fs : FileSystem}
    {place : List String} {content : ByteArray} {own own' : Prop}
    (h : Filled r raw source fs place content own)
    (hown : ∀ original, fs.resolve source = .ok (place, .file original) → own') :
    Filled r raw source fs place content own' := by
  cases h with
  | copied hraw hsource hapart => exact .copied hraw hsource hapart
  | emptied hraw _ hsource hcontent => exact .emptied hraw (hown _ hsource) hsource hcontent
  | expanded hraw htext hrender hcontent => exact .expanded hraw htext hrender hcontent

/-- How the file of an entry is made: its source and destination are looked up, nothing is found at
the target, and the file is filled once directories were made on the way. Only a target that goes up
behind a name can be the source itself. -/
structure Made (r : Renderer) (t : Template) (base : Path) (e : Entry) (source target : Path)
    (s : Run) (fs : FileSystem) : Prop where
  resolved : ∃ relative after last,
    (e.resolveSource s.files r t).outcome s.expansion = (.ok source, after) ∧
      (e.resolveDestination r t).outcome after = (.ok relative, last) ∧
      target = base.join ⟨relative⟩
  free : s.files.has target = false
  wrote : ∃ made place content, Grown s.files made ∧
    Filled r e.raw source made place content (¬ Straight base target) ∧
    Wrote made target place content fs

/-- What taking up an entry does. -/
inductive Filed (r : Renderer) (t : Template) (base : Path) (e : Entry) (s s' : Run) : Prop
  | left (h : s.Grows s')
  | made {source target : Path} (h : Made r t base e source target s s'.files)
    (hwritten : s'.written = s.written ++ [⟨source, target⟩])
    (hobserved : s'.observed = s.observed ++ [⟨source, target⟩])
    (hprojects : s'.projects = s.projects ++ if isProjectFile target then [target] else [])

namespace Generation

variable {r : Renderer} {t : Template} {base : Path} {e : Entry} {s : Run}

/-- A file was written where only directories had been made before. -/
structure Puts (r : Renderer) (raw : Bool) (source target : Path) (s s' : Run) : Prop where
  wrote : ∃ made place content, Grown s.files made ∧
    Filled r raw source made place content True ∧ Wrote made target place content s'.files
  records : s'.written = s.written ∧ s'.observed = s.observed ∧ s'.projects = s.projects

/-- A step that writes a file or leaves the files alone, run where only directories were made. -/
theorem onFiles_puts {raw : Bool} {source target : Path} {C : FileSystem → Prop} {x : FileStep Unit}
    (hx : ∀ made, C made → Triple (· = made) x (fun _ fs => ∃ place content,
      Wrote made target place content fs ∧ Filled r raw source made place content True)
      (· = made)) :
    Triple (fun s' => s.Grows s' ∧ C s'.files) (Run.onFiles x) (fun _ => Puts r raw source target s)
      s.Grows := by
  rintro _ ⟨⟨expansion, made, hgrown, rfl⟩, hC⟩
  have ht := hx made hC made rfl
  unfold Run.onFiles
  simp only
  cases hrun : x made with
  | ok _ files =>
    rw [hrun] at ht
    obtain ⟨place, content, hwrote, hfilled⟩ := ht
    exact ⟨⟨made, place, content, hgrown, hfilled, hwrote⟩, rfl, rfl, rfl⟩
  | error fault files =>
    rw [hrun] at ht
    exact ⟨expansion, made, hgrown, by rw [ht]⟩

/-- Writing an entry fails without a trace, or fills its target. -/
theorem writeEntry_puts (r : Renderer) (raw : Bool) (source target : Path) (s : Run) :
    Triple s.Grows (writeEntry r raw source target) (fun _ => Puts r raw source target s) s.Grows := by
  have hsay (message : String) :
      Triple s.Grows (Run.say .info message) (fun _ => s.Grows) s.Grows := by
    unfold Run.say Run.journaled
    exact Run.expanding_grows _
  unfold writeEntry
  refine Triple.ite (fun hraw => ?_) fun hraw => ?_
  · refine (hsay _).bind fun _ => ?_
    refine (onFiles_puts (C := fun _ => True) fun made _ => ?_).mono (fun _ h => ⟨h, trivial⟩)
      (fun _ _ h => h) fun _ h => h
    refine (FileSystem.copy_copied made source target).mono (fun _ h => h) (fun _ fs h => ?_)
      fun _ h => h
    obtain ⟨place, content, hwrote, origin, original, hresolve, hcontent⟩ := h
    refine ⟨place, content, hwrote, ?_⟩
    -- a file that is copied onto itself is emptied
    by_cases hplace : place = origin
    · rw [if_pos hplace] at hcontent
      exact .emptied hraw trivial (hplace ▸ hresolve) hcontent
    · rw [if_neg hplace] at hcontent
      exact .copied hraw (hcontent ▸ hresolve) hplace
  · refine (hsay _).bind fun _ => ?_
    refine (Run.expandSource_grows r source).bind fun rendered => ?_
    refine Triple.bind (Q := fun _ s' => s.Grows s' ∧ ∃ text before after,
        s'.files.readText source = .ok text ∧
        (r.render source text).outcome before = (.ok rendered, after)) ?_ fun _ => ?_
    · rintro _ ⟨⟨expansion, files, hgrown, rfl⟩, hread⟩
      exact ⟨⟨_, files, hgrown, rfl⟩, hread⟩
    · refine onFiles_puts (C := fun made => ∃ text before after, made.readText source = .ok text ∧
        (r.render source text).outcome before = (.ok rendered, after)) fun made hread => ?_
      obtain ⟨text, before, after, htext, hrender⟩ := hread
      refine (FileSystem.write_triple made target _).mono (fun _ h => h) (fun _ fs h => ?_)
        fun _ h => h
      obtain ⟨place, hwrote⟩ := h
      exact ⟨place, _, hwrote, .expanded (by simpa using hraw) htext hrender rfl⟩

/-- Making an entry's file changes nothing but directories, or writes and announces it. -/
theorem makeEntry_made (r : Renderer) (t : Template) (e : Entry) (hb : base.isRooted = true)
    (hbase : s.files.Passes [] base.moves) :
    Triple (· = s) (makeEntry r t base e)
      (fun result s' => match result with
        | none => s.Grows s'
        | some target => ∃ source, Made r t base e source target s s'.files ∧
            s'.written = s.written ++ [⟨source, target⟩] ∧
            s'.observed = s.observed ++ [⟨source, target⟩] ∧ s'.projects = s.projects)
      s.Grows := by
  have hmake {source : Path} {relative : String} (hfree : s.files.has (base.join ⟨relative⟩) = false)
      (hresolved : ∃ after last,
        (e.resolveSource s.files r t).outcome s.expansion = (.ok source, after) ∧
          (e.resolveDestination r t).outcome after = (.ok relative, last)) :
      Triple s.Grows
        (writeTarget r e source (base.join ⟨relative⟩))
        (fun result s' => match result with
          | none => s.Grows s'
          | some target => ∃ source, Made r t base e source target s s'.files ∧
              s'.written = s.written ++ [⟨source, target⟩] ∧
              s'.observed = s.observed ++ [⟨source, target⟩] ∧ s'.projects = s.projects)
        s.Grows := by
    unfold writeTarget
    refine (writeEntry_puts r e.raw source (base.join ⟨relative⟩) s).bind fun _ s' hputs => ?_
    obtain ⟨hwrote, hwritten, hobserved, hprojects⟩ := hputs
    obtain ⟨after, last, hsource, hrelative⟩ := hresolved
    obtain ⟨made, place, content, hgrown, hfilled, hwrote⟩ := hwrote
    -- a target that was free is its own source only if it is reached by a detour
    have hown (original : ByteArray) (hresolve : made.resolve source = .ok (place, .file original)) :
        ¬ Straight base (base.join ⟨relative⟩) := by
      intro hstraight
      have hr := (Entry.resolveDestination_triple r t e).of_outcome trivial hrelative
      have hfile := FileSystem.at?_eq_file_iff.mpr (FileSystem.get?_of_resolve hresolve)
      exact no_file_of_straight hb hbase hr hfree hgrown hwrote hstraight _ (hgrown.file_iff.mp hfile)
    exact ⟨source, ⟨⟨relative, after, last, hsource, hrelative, rfl⟩, hfree,
        made, place, content, hgrown, hfilled.mono hown, hwrote⟩,
      congrArg (· ++ [_]) hwritten, congrArg (· ++ [_]) hobserved, hprojects⟩
  unfold makeEntry makeFrom
  refine Triple.bind (Q := fun files s' => (s.Alike s' ∧ s'.expansion = s.expansion) ∧
    files = s.files) ?_ fun files => Triple.of_and fun hfiles => ?_
  · rintro s rfl
    exact ⟨⟨Run.Alike.refl s, rfl⟩, rfl⟩
  subst hfiles
  refine (Run.expanding_ran (e.resolveSource s.files r t) s.expansion).bind fun source => ?_
  rintro s₁ ⟨halike₁, hsource⟩
  refine ((Run.expanding_ran (e.resolveDestination r t) s₁.expansion).bind fun relative => ?_) s₁
    ⟨halike₁, rfl⟩
  rintro s₂ ⟨halike₂, hrelative⟩
  refine (Run.currentFiles_alike.bind fun files => Triple.of_and fun hfiles => ?_) s₂ halike₂
  subst hfiles
  refine Triple.ite (fun _ => ?_) fun hfree => ?_
  · refine Triple.bind (Q := fun _ => s.Alike) ?_ fun _ => Triple.pure fun _ h => h.grows
    unfold Run.sayAt Run.journaled
    exact (Run.expanding_alike _).mono_error fun _ h => h.grows
  · have hwrite := hmake (by simpa using hfree) ⟨_, _, hsource, hrelative⟩
    refine fillTarget_cases (p := fun x => Triple _ x _ _) (fun parent _ => ?_) fun _ => ?_
    · exact ((Run.createDirectories_grows parent).mono (fun _ h => h.grows) (fun _ _ h => h)
        fun _ h => h).bind fun _ => hwrite
    · exact hwrite.mono (fun _ h => h.grows) (fun _ _ h => h) fun _ h => h

/-- Taking up an entry leaves it out, or makes its file and notes it everywhere. -/
theorem addEntry_filed (r : Renderer) (t : Template) (kind : String) (e : Entry)
    (hb : base.isRooted = true) (hbase : s.files.Passes [] base.moves) :
    Triple (· = s) (addEntry r t base kind e) (fun _ => Filed r t base e s)
      (Filed r t base e s) := by
  have hleft {α : Type} {x : Attempt Run α} (hx : Triple s.Grows x (fun _ => s.Grows) s.Grows) :
      Triple s.Grows x (fun _ => s.Grows) (Filed r t base e s) := hx.mono_error fun _ h => .left h
  unfold addEntry
  refine Triple.bind (Q := fun result s' => match result with
    | none => s.Grows s'
    | some target => ∃ source, Made r t base e source target s s'.files ∧
        s'.written = s.written ++ [⟨source, target⟩] ∧
        s'.observed = s.observed ++ [⟨source, target⟩] ∧ s'.projects = s.projects) ?_ fun result => ?_
  · unfold tryEntry
    refine (makeEntry_made r t e hb hbase).caught_result.bind fun result => ?_
    cases result with
    | ok target => exact Triple.pure fun _ h => h
    | error failure =>
      simp only
      split
      · next h => cases h
      · exact Triple.pure fun _ h => h
      · refine Triple.ite (fun _ s' h => .left h) fun _ => ?_
        unfold Run.sayAt Run.journaled
        exact (hleft (Run.expanding_grows _)).bind fun _ => Triple.pure fun _ h => h
  · cases result with
    | none => exact Triple.pure fun _ h => .left h
    | some target =>
      refine Triple.bind ((Run.say_info_triple _ fun _ _ h => h).mono_error fun _ h => h.elim)
        fun _ => ?_
      -- a project file is noted as one, any other is not
      refine Triple.ite (fun hproject => ?_) fun hproject => ?_
      · rintro s' ⟨source, hmade, hwritten, hobserved, hprojects⟩
        exact Filed.made hmade hwritten hobserved (by
          rw [if_pos hproject]
          exact congrArg (· ++ [target]) hprojects)
      · rintro s' ⟨source, hmade, hwritten, hobserved, hprojects⟩
        exact Filed.made hmade hwritten hobserved (by rw [if_neg hproject, hprojects, List.append_nil])

end Generation

end Stencil
