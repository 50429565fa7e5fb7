import Stencil.Proofs.Package.Loading
import Stencil.Proofs.Package.Readback
import Stencil.Proofs.Package.Remarks

namespace Stencil

open Markup (Element)
open Stencil.Path (Written)

variable {entries : PackageEntries} {project names : List String} {file : PackageFile}

namespace Package

/-- The files that lie outside the directory of the project file. -/
def outsiders (entries : PackageEntries) (project : List String) : List (List String) :=
  (entries.files.map Prod.fst).filter fun names => !project.dropLast.isPrefixOf names

def outsideRemark (names : List String) : Diagnostic :=
  let path := "/".intercalate names
  ⟨.warning, s!"'{path}' is outside the project directory and is not listed in the descriptor.", none⟩

/-- The remarks about some files, as far as they pass a threshold. -/
def remarksOn (threshold : Level) (files : List (List String)) : List Diagnostic :=
  if threshold ≤ .warning then files.map outsideRemark else []

theorem remarksOn_append (θ : Level) (a b : List (List String)) :
    remarksOn θ (a ++ b) = remarksOn θ a ++ remarksOn θ b := by
  unfold remarksOn
  split
  · exact List.map_append
  · rfl

theorem remarked_publishFrom_outside (j : Journal) (names : List String) :
    (j.publishFrom (outsideRemark names)).remarked =
      (j.threshold, j.remarks ++ remarksOn j.threshold [names]) := by
  have hpassing : j.threshold.passing [outsideRemark names] = remarksOn j.threshold [names] :=
    Level.passing_warnings _ fun d hd => List.mem_singleton.mp hd ▸ rfl
  rw [← hpassing]
  exact Journal.picked_publishFrom_self rfl

/-- What is said of one file. -/
def warnOf (project : List String) (f : List String × PackageFile) : Attempt Run Unit :=
  if project.dropLast.isPrefixOf f.1 then pure ()
  else Run.say .warning (outsideRemark f.1).message

theorem warnOfOutsiders_eq (entries : PackageEntries) (project : List String) :
    warnOfOutsiders entries project = entries.files.forM (warnOf project) := rfl

/-- A warning for each outsider, in the order of the layout; none of them ends the run. -/
theorem outcome_warnOfOutsiders {θ : Level} {before : List Diagnostic} {s : Run}
    (hs : s.expansion.journal.remarked = (θ, before)) (entries : PackageEntries)
    (project : List String) : ∃ t, (warnOfOutsiders entries project).outcome s = (.ok (), t) ∧
      t.expansion.journal.remarked = (θ, before ++ remarksOn θ (outsiders entries project)) := by
  rw [warnOfOutsiders_eq, outsiders]
  induction entries.files generalizing s before with
  | nil =>
    refine ⟨s, rfl, ?_⟩
    rw [hs, List.map_nil, List.filter_nil, remarksOn, List.map_nil, ite_self, List.append_nil]
  | cons f files ih =>
    have hbind : Attempt.outcome ((f :: files).forM (warnOf project)) s =
        Attempt.outcome (warnOf project f >>= fun _ => files.forM (warnOf project)) s := rfl
    rw [hbind, Attempt.outcome_bind, List.map_cons]
    by_cases hin : project.dropLast.isPrefixOf f.1 = true
    · rw [warnOf, if_pos hin, List.filter_cons_of_neg (by simp [hin])]
      exact ih hs
    · obtain ⟨rfl, rfl⟩ := Prod.mk.inj hs
      rw [warnOf, if_neg hin, List.filter_cons_of_pos (by simp [hin]), ← List.singleton_append,
        remarksOn_append, ← List.append_assoc]
      exact ih (s := s.under (s.expansion.journal.publishFrom (outsideRemark f.1)))
        (remarked_publishFrom_outside _ _)

/-- A remark tells which file it is about. -/
theorem outsideRemark_inj {names names' : List String} (hne : names ≠ []) (hne' : names' ≠ [])
    (hwritten : ∀ n ∈ names, Written (.name n)) (hwritten' : ∀ n ∈ names', Written (.name n))
    (h : outsideRemark names = outsideRemark names') : names = names' := by
  have hmessage : (outsideRemark names).message.toList = (outsideRemark names').message.toList :=
    congrArg (fun d : Diagnostic => d.message.toList) h
  have hpath : "/".intercalate names = "/".intercalate names' :=
    String.toList_inj.mp (by simpa [outsideRemark, toString] using hmessage)
  calc names
      = (Path.mk ("/".intercalate names)).segments :=
        (Path.segments_intercalate hne fun n hn => (hwritten n hn).2).symm
    _ = (Path.mk ("/".intercalate names')).segments := by rw [hpath]
    _ = names' := Path.segments_intercalate hne' fun n hn => (hwritten' n hn).2

/-- Of a file in the directory of the project file nothing is said, of every other file one thing. -/
theorem count_outsideRemark (hproper : PackageEntries.ProperFrom entries)
    (hfile : (names, file) ∈ entries.files) (θ : Level) :
    (remarksOn θ (outsiders entries project)).count (outsideRemark names) =
      if project.dropLast <+: names ∨ ¬ θ ≤ .warning then 0 else 1 := by
  have hnamed {names : List String} (h : ∃ file, (names, file) ∈ entries.files) :
      names ≠ [] ∧ ∀ n ∈ names, Written (.name n) := by
    obtain ⟨file, hmem⟩ := h
    obtain ⟨name, more, rfl, hwritten⟩ := PackageEntries.names_of_mem_filesFrom hproper hmem
    exact ⟨by simp, hwritten⟩
  have hinj {names names' : List String} (h : ∃ file, (names, file) ∈ entries.files)
      (h' : ∃ file, (names', file) ∈ entries.files) (heq : outsideRemark names = outsideRemark names') :
      names = names' :=
    outsideRemark_inj (hnamed h).1 (hnamed h').1 (hnamed h).2 (hnamed h').2 heq
  have hmem (names : List String) : names ∈ outsiders entries project ↔
      (∃ file, (names, file) ∈ entries.files) ∧ ¬ project.dropLast <+: names := by
    simp [outsiders, ← List.isPrefixOf_iff_prefix]
  -- the files of a layout have names of their own, so no two of them are remarked on alike
  have hnodup : ((outsiders entries project).map outsideRemark).Nodup :=
    ((PackageEntries.nodup_filesFrom [] entries hproper).filter _).map_on fun a ha b hb =>
      hinj ((hmem a).mp ha).1 ((hmem b).mp hb).1
  have hremarked : outsideRemark names ∈ (outsiders entries project).map outsideRemark ↔
      ¬ project.dropLast <+: names := by
    constructor
    · intro h
      obtain ⟨found, hfound, heq⟩ := List.mem_map.mp h
      obtain ⟨hexists, hout⟩ := (hmem found).mp hfound
      exact hinj hexists ⟨file, hfile⟩ heq ▸ hout
    · exact fun hout => List.mem_map_of_mem ((hmem names).mpr ⟨⟨file, hfile⟩, hout⟩)
  unfold remarksOn
  by_cases hpasses : θ ≤ .warning
  · by_cases hin : project.dropLast <+: names
    · rw [if_pos hpasses, if_pos (Or.inl hin)]
      exact List.count_eq_zero_of_not_mem fun h => hremarked.mp h hin
    · rw [if_pos hpasses, if_neg (by simp [hin, hpasses])]
      exact List.count_eq_one_of_mem hnodup (hremarked.mpr hin)
  · rw [if_neg hpasses, if_pos (Or.inr hpasses), List.count_nil]

/-- The remarks of an export that came to its end. -/
theorem remarks_of_steps {t : Template} {settings : Settings} {year : Nat} {q : ExportRequest}
    {s last : Run} (h : (steps t settings year q).outcome s = (.ok (), last)) :
    ∃ p, ((plan t settings year q).outcome s).1 = .ok p ∧
      last.expansion.journal.remarks = s.expansion.journal.remarks ++
        remarksOn s.expansion.journal.threshold (outsiders p.2.1 p.2.2) := by
  rw [steps_eq] at h
  obtain ⟨⟨output, entries, project⟩, s₁, hplan, h⟩ := Attempt.outcome_bind_eq_ok_iff.mp h
  simp only [writeOut, writeNode_eq_forM] at h
  obtain ⟨_, s₂, hnode, h⟩ := Attempt.outcome_bind_eq_ok_iff.mp h
  obtain ⟨_, s₃, hicon, h⟩ := Attempt.outcome_bind_eq_ok_iff.mp h
  obtain ⟨_, s₄, hpreview, h⟩ := Attempt.outcome_bind_eq_ok_iff.mp h
  obtain ⟨_, s₅, hwarn, hdescriptor⟩ := Attempt.outcome_bind_eq_ok_iff.mp h
  -- neither what comes before the warnings nor what comes after them gives a remark
  have hP := Diagnostic.OfText.not_isRemark
  have hbefore : s₄.expansion.journal.remarked = s.expansion.journal.remarked :=
    calc s₄.expansion.journal.remarked
        = s₃.expansion.journal.remarked := (spares_copyAsset t hP output _).of_outcome hpreview
      _ = s₂.expansion.journal.remarked := (spares_copyAsset t hP output _).of_outcome hicon
      _ = s₁.expansion.journal.remarked :=
        (Leaves.forM (spares_writePiece _ hP output) _).of_outcome hnode
      _ = s.expansion.journal.remarked := (unremarked_plan t settings year q).of_outcome hplan
  obtain ⟨s₅', hwarn', hremarked⟩ := outcome_warnOfOutsiders hbefore entries project
  obtain rfl := (Prod.mk.inj (hwarn.symm.trans hwarn')).2
  have hafter := (spares_writeDescriptor t hP q.language output entries project).of_outcome hdescriptor
  exact ⟨(output, entries, project), by rw [hplan], (Prod.mk.inj (hafter.trans hremarked)).2⟩

theorem layOut_inserted (fs : FileSystem) (r : Renderer) (t : Template) (e : Entry)
    (h : entries.Inserted) :
    Triple (fun _ => True) (layOut fs r t entries e) (fun laid _ => laid.1.Inserted)
      (fun _ => True) := by
  unfold layOut
  refine (Triple.trivial _ _).bind fun found => ?_
  split
  · exact Triple.pure fun _ _ => h
  · split
    · next hinsert => exact Triple.pure fun _ _ => h.insert hinsert
    · exact (Triple.trivial _ _).bind fun _ => Triple.pure fun _ _ => h

theorem layOutProject_inserted (fs : FileSystem) (r : Renderer) (t : Template) (p : Project) :
    Triple (fun _ => True) (layOutProject fs r t p) (fun laid _ => laid.1.Inserted)
      (fun _ => True) := by
  unfold layOutProject
  refine (layOut_inserted fs r t p.entry .empty).bind fun found => ?_
  obtain ⟨entries, place⟩ := found
  cases place with
  | none => exact fun _ _ => trivial
  | some names =>
    refine Triple.bind (Q := fun full _ => full.Inserted) ?_ fun full => Triple.pure fun _ h => h
    intro s hs
    refine Triple.foldlM (I := fun (full : PackageEntries) _ => full.Inserted) (E := fun _ => True)
      (fun full e _ => ?_) entries s hs
    intro s' hfull
    refine ((layOut_inserted fs r t e hfull).bind fun laid => ?_) s' trivial
    exact Triple.pure fun _ h => h

/-- The layout of an export comes from inserting the files of its project. -/
theorem plan_inserted (t : Template) (settings : Settings) (year : Nat) (q : ExportRequest) :
    Triple (fun _ => True) (plan t settings year q) (fun p _ => p.2.1.Inserted) (fun _ => True) := by
  unfold plan
  refine (Triple.trivial _ _).bind fun _ => (Triple.trivial _ _).bind fun _ => ?_
  refine (Triple.trivial _ _).bind fun _ => (Triple.trivial _ _).bind fun project => ?_
  refine (Triple.trivial _ _).bind fun fs => ?_
  refine (Run.expanding_triple (P := fun _ _ => True)
    (layOutProject_inserted fs (renderer t settings year q) t project)).bind fun laid => ?_
  exact Triple.pure fun _ h => h.2

end Package

namespace Package

/-- What becomes of a file: it is the project file, or it is listed once, or it lies outside the
directory of the project file and is warned of, once if warnings are let pass. -/
def Settled (project names : List String) (threshold : Level) (listed warned : Nat) : Prop :=
  (names = project ∧ listed = 0 ∧ warned = 0) ∨
  (names ≠ project ∧ project.dropLast <+: names ∧ listed = 1 ∧ warned = 0) ∨
  (¬ project.dropLast <+: names ∧ listed = 0 ∧ warned = if threshold ≤ .warning then 1 else 0)

theorem settled_of_counts {project names : List String} {threshold : Level} {listed warned : Nat}
    (hlisted : listed = if project.dropLast <+: names ∧ names ≠ project then 1 else 0)
    (hwarned : warned = if project.dropLast <+: names ∨ ¬ threshold ≤ .warning then 0 else 1) :
    Settled project names threshold listed warned := by
  subst hlisted hwarned
  by_cases hin : project.dropLast <+: names
  · by_cases hself : names = project
    · exact Or.inl ⟨hself, by simp [hself], by simp [hin]⟩
    · exact Or.inr (Or.inl ⟨hself, hin, by simp [hself, hin], by simp [hin]⟩)
  · refine Or.inr (Or.inr ⟨hin, by simp [hin], ?_⟩)
    by_cases hpasses : threshold ≤ .warning <;> simp [hin, hpasses]

variable {inner : PackageEntries} {directory : List String} {last : String} {found : PackageFile}

/-- What the descriptor lists and what is warned of split the files between them. -/
theorem settled_remarksOn (hproper : PackageEntries.ProperFrom entries)
    (h : entries.Around inner directory last file) (hfound : (names, found) ∈ entries.files)
    (θ : Level) :
    Settled (directory ++ [last]) names θ
      ((Descriptor.Item.allPlaces directory
        (Descriptor.items (inner.filter (·.1 ≠ last)))).count names)
      ((remarksOn θ (outsiders entries (directory ++ [last]))).count (outsideRemark names)) := by
  refine settled_of_counts ?_ (count_outsideRemark hproper hfound θ)
  rw [List.dropLast_concat]
  exact Descriptor.count_places h hfound

theorem count_outsideRemark_records (j : Journal) (names : List String) :
    j.records.count (outsideRemark names) = j.remarks.count (outsideRemark names) :=
  (List.count_filter rfl).symm

/-- Whatever was said before, warning of the outsiders puts the remarks about them on record. -/
theorem count_warnOfOutsiders (entries : PackageEntries) (project : List String) (s : Run) :
    ∃ s', (warnOfOutsiders entries project).outcome s = (.ok (), s') ∧
      ∀ names, s'.expansion.journal.records.count (outsideRemark names) =
        s.expansion.journal.records.count (outsideRemark names) +
          (remarksOn s.expansion.journal.threshold (outsiders entries project)).count
            (outsideRemark names) := by
  obtain ⟨s', houtcome, hremarked⟩ := outcome_warnOfOutsiders (s := s) rfl entries project
  have hremarks : s'.expansion.journal.remarks = s.expansion.journal.remarks ++
      remarksOn s.expansion.journal.threshold (outsiders entries project) :=
    (Prod.mk.inj hremarked).2
  refine ⟨s', houtcome, fun names => ?_⟩
  rw [count_outsideRemark_records, count_outsideRemark_records, hremarks, List.count_append]

end Package

/-- A descriptor that is read back gives the layout that it was written for: whatever texts the
template and the layout hold, the reading succeeds, and the elements tell the same texts, the project
file, and all names and flags in the directory of the project file. Each file of the layout is the
project file, or it is listed once, or it is outside of that directory and is warned of once when the
outsiders are warned of. An export that comes to its end writes that descriptor and gives these
warnings. -/
theorem descriptor_restates :
    (∀ (entries : PackageEntries) (directory : List String) (last : String) (file : PackageFile)
      (t : Template) (language : Language), entries.Inserted →
      (directory ++ [last], file) ∈ entries.files →
      ∃ inner, entries.directory? directory = some inner ∧ ∃ root data content p,
        Element.ofText (Descriptor.text t language entries (directory ++ [last]) file) = .ok root ∧
        Descriptor.Restated t language (directory ++ [last]) file
          (Descriptor.items (inner.filter (·.1 ≠ last))) root data content p ∧
        ∀ s : Run, ∃ s', (Package.warnOfOutsiders entries (directory ++ [last])).outcome s =
            (.ok (), s') ∧
          ∀ names found, (names, found) ∈ entries.files → ∃ warned,
            s'.expansion.journal.records.count (Package.outsideRemark names) =
              s.expansion.journal.records.count (Package.outsideRemark names) + warned ∧
            Package.Settled (directory ++ [last]) names s.expansion.journal.threshold
              ((Descriptor.Item.allPlaces directory
                (Descriptor.items (inner.filter (·.1 ≠ last)))).count names) warned) ∧
    ∀ (t : Template) (settings : Settings) (year : Nat) (q : ExportRequest) (files : FileSystem)
      (guids : GuidSource),
      (exportPackage t settings year q files guids).1.outcome = .fatal ∨
      ∃ output entries directory last file inner,
        ((Package.plan t settings year q).outcome (Run.start files guids settings)).1 =
          .ok (output, entries, directory ++ [last]) ∧
        entries.Inserted ∧ (directory ++ [last], file) ∈ entries.files ∧
        entries.directory? directory = some inner ∧
        (exportPackage t settings year q files guids).2.files.at?
            (output.placeFrom [] ++ [Descriptor.fileName]) =
          some (some (Descriptor.text t q.language entries (directory ++ [last]) file).toUTF8) ∧
        ∀ names found, (names, found) ∈ entries.files →
          Package.Settled (directory ++ [last]) names settings.threshold
            ((Descriptor.Item.allPlaces directory
              (Descriptor.items (inner.filter (·.1 ≠ last)))).count names)
            ((exportPackage t settings year q files guids).1.diagnostics.count
              (Package.outsideRemark names)) := by
  constructor
  · intro entries directory last file t language hinserted hfile
    obtain ⟨inner, haround⟩ := PackageEntries.exists_around hinserted.proper hfile
    obtain ⟨root, data, content, p, hread, hrestated⟩ :=
      Descriptor.exists_restated haround t language
    refine ⟨inner, haround.found, root, data, content, p, hread, hrestated, fun s => ?_⟩
    obtain ⟨s', houtcome, hcount⟩ :=
      Package.count_warnOfOutsiders entries (directory ++ [last]) s
    exact ⟨s', houtcome, fun names found hfound => ⟨_, hcount names,
      Package.settled_remarksOn hinserted.proper haround hfound _⟩⟩
  · intro t settings year q files guids
    refine or_iff_not_imp_left.mpr fun hfatal => ?_
    obtain ⟨run, hsteps⟩ := Run.exists_of_not_fatal hfatal
    obtain ⟨⟨output, entries, project⟩, hplan, -, hproper, file, hlookup, laid, copied, hloaded⟩ :=
      Package.exists_loaded hsteps
    obtain ⟨p, hplan', hremarks⟩ := Package.remarks_of_steps hsteps
    obtain rfl := Except.ok.inj (hplan.symm.trans hplan')
    have hinserted := (Package.plan_inserted t settings year q).of_outcome trivial (Prod.ext hplan rfl)
    have hfile : (project, file) ∈ entries.files := PackageEntries.mem_of_lookup hlookup
    obtain ⟨directory, last, rfl⟩ : ∃ directory last, project = directory ++ [last] := by
      obtain ⟨first, more, hnames, -⟩ := PackageEntries.names_of_mem_filesFrom hproper hfile
      exact ⟨_, _, (List.dropLast_append_getLast (by simp [hnames])).symm⟩
    obtain ⟨inner, haround⟩ := PackageEntries.exists_around hproper hfile
    refine ⟨output, entries, directory, last, file, inner, hplan, hinserted, hfile, haround.found, ?_,
      fun names found hfound => ?_⟩
    · have hfiles : (exportPackage t settings year q files guids).2.files = run.files :=
        Run.files_finish hsteps
      rw [hfiles]
      exact Package.descriptor_of_packed hloaded.packed
    · have hwarned : (exportPackage t settings year q files guids).1.diagnostics.count
          (Package.outsideRemark names) = (Package.remarksOn settings.threshold
            (Package.outsiders entries (directory ++ [last]))).count (Package.outsideRemark names) :=
        calc (exportPackage t settings year q files guids).1.diagnostics.count
              (Package.outsideRemark names)
            = run.expansion.journal.records.count (Package.outsideRemark names) :=
              congrArg (List.count _) (Run.diagnostics_finish hsteps)
          _ = run.expansion.journal.remarks.count (Package.outsideRemark names) :=
              Package.count_outsideRemark_records _ _
          _ = _ := by rw [hremarks]; rfl
      rw [hwarned]
      exact Package.settled_remarksOn hproper haround hfound _

/-- Names and texts with quotes, brackets and ampersands in them, an icon in a directory of its own, and
a file beside the project's directory. -/
theorem descriptor_restates_marks :
    ∃ (files : FileSystem) (t : Template) (entries : PackageEntries) (file : PackageFile)
      (root data content p : Element),
      files = ⟨.directory [("work", .directory [("a.txt", .file "a".toUTF8),
        ("img", .directory [("lo&go.png", .file "i".toUTF8)])])], ["work"]⟩ ∧
      t.name = some "A & <B>" ∧ t.icon = some "img//lo&go.png" ∧ entries.Inserted ∧
      (["src", "a & b.txt"], file) ∈ entries.files ∧
      Element.ofText (Descriptor.text t .cSharp entries ["src", "a & b.txt"] file) = .ok root ∧
      Descriptor.Restated t .cSharp ["src", "a & b.txt"] file [.folder "sub" [.file "<c>.txt" false]]
        root data content p ∧
      data.children.map (fun e => (e.name, e.text)) = [("Name", "A & <B>"), ("Description", ""),
        ("ProjectType", "CSharp"), ("NumberOfParentCategoriesToRollUp", "1"), ("DefaultName", "AB"),
        ("Icon", "lo&go.png")] ∧
      (exportPackage t {} 2031 ⟨⟨"out"⟩, [], .cSharp⟩ files ⟨0, 0⟩).1.outcome = .success ∧
      (exportPackage t {} 2031 ⟨⟨"out"⟩, [], .cSharp⟩ files ⟨0, 0⟩).1.diagnostics.count
        (Package.outsideRemark ["other", "\"d\".txt"]) = 1 := by
  let files : FileSystem := ⟨.directory [("work", .directory [("a.txt", .file "a".toUTF8),
    ("img", .directory [("lo&go.png", .file "i".toUTF8)])])], ["work"]⟩
  let t : Template := ⟨⟨"/work/t.xml"⟩, some "A & <B>", none, some "img//lo&go.png", none, [⟨"/work"⟩], {},
    [⟨⟨"a.txt", ["/work/a.txt"], "src/a & b.txt", false, ⟨1, 1⟩⟩,
      [⟨"a.txt", ["/work/a.txt"], "src/sub/<c>.txt", true, ⟨2, 1⟩⟩,
        ⟨"a.txt", ["/work/a.txt"], "other/\"d\".txt", false, ⟨3, 1⟩⟩]⟩]⟩
  let file : PackageFile := ⟨⟨"/work/a.txt"⟩, false⟩
  let entries : PackageEntries := [("src", .directory [("a & b.txt", .file file),
    ("sub", .directory [("<c>.txt", .file ⟨⟨"/work/a.txt"⟩, true⟩)])]),
    ("other", .directory [("\"d\".txt", .file file)])]
  have hproject : PackageEntries.insert [] "src/a & b.txt" file =
      .ok ([("src", .directory [("a & b.txt", .file file)])], ["src", "a & b.txt"]) := rfl
  have hbelow : PackageEntries.insert [("src", .directory [("a & b.txt", .file file)])]
      "src/sub/<c>.txt" ⟨⟨"/work/a.txt"⟩, true⟩ =
        .ok ([("src", .directory [("a & b.txt", .file file),
          ("sub", .directory [("<c>.txt", .file ⟨⟨"/work/a.txt"⟩, true⟩)])])],
            ["src", "sub", "<c>.txt"]) := rfl
  have hbeside : PackageEntries.insert [("src", .directory [("a & b.txt", .file file),
      ("sub", .directory [("<c>.txt", .file ⟨⟨"/work/a.txt"⟩, true⟩)])])] "other/\"d\".txt" file =
        .ok (entries, ["other", "\"d\".txt"]) := rfl
  have hinserted : entries.Inserted := ((PackageEntries.Inserted.empty.insert hproject).insert
    hbelow).insert hbeside
  have hfile : (["src"] ++ ["a & b.txt"], file) ∈ entries.files := List.mem_cons_self
  obtain ⟨inner, hinner, root, data, content, p, hread, hrestated, -⟩ :=
    descriptor_restates.1 entries ["src"] "a & b.txt" file t .cSharp hinserted hfile
  obtain rfl := Option.some.inj hinner
  exact ⟨files, t, entries, file, root, data, content, p, rfl, rfl, rfl, hinserted, hfile, hread,
    hrestated, hrestated.texts.trans (by decide +kernel), by decide +kernel, by decide +kernel⟩

end Stencil
