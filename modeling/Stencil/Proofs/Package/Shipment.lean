import Stencil.Proofs.Package.Loading

/-! What a successful export leaves. Below an output where nothing was before there are the files that
were noted, the assets and the descriptor, and nothing else. Only the layout sees to it that its files
have places of their own: an asset is copied and the descriptor is written over what has their names. -/

namespace Stencil

open Stencil.Path (Written)

namespace Package

variable {t : Template} {entries : PackageEntries} {text : String}

/-- The names of the assets and of the descriptor are those of no other part. -/
structure Apart (t : Template) (entries : PackageEntries) : Prop where
  descriptor : ∀ file, ([Descriptor.fileName], file) ∉ entries.files
  named : ∀ source ∈ assets t, source.fileName?.getD "" ≠ Descriptor.fileName ∧
    ∀ file, ([source.fileName?.getD ""], file) ∉ entries.files
  distinct : ((assets t).map fun source => source.fileName?.getD "").Nodup

theorem map_way_parts (laid : List (List String × PackageFile)) (copied : List Path)
    (text : String) : (parts laid copied text).map Part.way =
      laid.map Prod.fst ++ ((copied.map fun source => [source.fileName?.getD ""]) ++
        [[Descriptor.fileName]]) := by
  simp [parts, contents, Part.way, Function.comp_def]

/-- The files of a layout never have one name, so this is all that keeps two parts from one place. -/
theorem nodup_way_iff (hproper : PackageEntries.ProperFrom entries) (t : Template) (text : String) :
    ((parts entries.files (assets t) text).map Part.way).Nodup ↔
      Apart t entries := by
  have hfiles : (entries.files.map Prod.fst).Nodup := PackageEntries.nodup_filesFrom [] entries hproper
  have hmem (names : List String) : names ∈ entries.files.map Prod.fst ↔
      ∃ file, (names, file) ∈ entries.files := by simp
  have hassets : ((assets t).map fun source => [source.fileName?.getD ""]).Nodup ↔
      ((assets t).map fun source => source.fileName?.getD "").Nodup := by
    have hmap : ((assets t).map fun source => [source.fileName?.getD ""]) =
        ((assets t).map fun source => source.fileName?.getD "").map fun name => [name] := by simp
    rw [hmap]
    exact List.nodup_map_iff fun a b h => (List.cons.inj h).1
  -- files, assets and the descriptor: each without a name twice, and no name in two of them
  rw [map_way_parts, List.nodup_append, List.nodup_append, hassets]
  constructor
  · rintro ⟨-, ⟨hdistinct, -, hdescriptor⟩, hapart⟩
    refine ⟨fun file hfile => ?_, fun source hsource => ⟨fun heq => ?_, fun file hfile => ?_⟩, hdistinct⟩
    · exact hapart _ ((hmem _).mpr ⟨file, hfile⟩) _ (by simp) rfl
    · exact hdescriptor _ (List.mem_map_of_mem hsource) _ (List.mem_singleton_self _) (by rw [heq])
    · exact hapart _ ((hmem _).mpr ⟨file, hfile⟩) _
        (List.mem_append_left _ (List.mem_map_of_mem hsource)) rfl
  · rintro ⟨hdescriptor, happart, hdistinct⟩
    refine ⟨hfiles, ⟨hdistinct, List.nodup_singleton _, ?_⟩, ?_⟩
    · rintro _ hname _ hlast rfl
      obtain ⟨source, hsource, heq⟩ := List.mem_map.mp hname
      exact (happart source hsource).1 (List.cons.inj (heq.trans (List.mem_singleton.mp hlast))).1
    · rintro names hnames _ hother rfl
      obtain ⟨file, hfile⟩ := (hmem _).mp hnames
      rcases List.mem_append.mp hother with hother | hother
      · obtain ⟨source, hsource, rfl⟩ := List.mem_map.mp hother
        exact (happart source hsource).2 file hfile
      · rw [List.mem_singleton.mp hother] at hfile
        exact hdescriptor file hfile

/-- What a successful export has left below its output, where nothing was before. -/
structure Shipment (t : Template) (r : Renderer) (p : Plan) (text : String) (files : FileSystem)
    (run : Report × Run) : Prop where
  written : run.1.written =
    p.2.1.files.map fun (names, file) => ⟨file.source, p.1.join (pathOfNames names)⟩
  found_iff : ∀ names,
    (∃ content, run.2.files.at? (p.1.placeFrom [] ++ names) = some (some content)) ↔
      (∃ w ∈ run.1.written, w.place = p.1.placeFrom [] ++ names) ∨
      (∃ source ∈ assets t, names = [source.fileName?.getD ""]) ∨ names = [Descriptor.fileName]
  elsewhere : ∀ place content, ¬ p.1.placeFrom [] <+: place →
    (run.2.files.at? place = some (some content) ↔ files.at? place = some (some content))
  descriptor :
    run.2.files.at? (p.1.placeFrom [] ++ [Descriptor.fileName]) = some (some text.toUTF8)
  apart_iff : ((parts p.2.1.files (assets t) text).map Part.way).Nodup ↔ Apart t p.2.1
  intact : Apart t p.2.1 → ∀ part ∈ parts p.2.1.files (assets t) text,
    ∃ content, part.Reads r run.2.files content ∧
      run.2.files.at? (p.1.placeFrom [] ++ part.way) = some (some content)

theorem shipment_of_packed {r : Renderer} {p : Plan} {text : String} {files : FileSystem}
    {run : Report × Run} {last : Run} (hrooted : p.1.isRooted = true)
    (hproper : PackageEntries.ProperFrom p.2.1) (hfree : files.at? (p.1.placeFrom []) = none)
    (h : Packed r p.1 files true (parts p.2.1.files (assets t) text) last)
    (hwritten : run.1.written = last.written) (hfiles : run.2.files = last.files) :
    Shipment t r p text files run := by
  -- nothing stood below the output
  have hnone (names : List String) (content : ByteArray) :
      files.at? (p.1.placeFrom [] ++ names) ≠ some (some content) := by
    intro hc
    have hthere := (FileSystem.at?_of_append (Option.isSome_of_eq_some hc)).1
    rw [hfree] at hthere
    cases hthere
  have hnames : ∀ f ∈ p.2.1.files, ∀ n ∈ f.1, Written (.name n) := fun f hf =>
    PackageEntries.written_of_mem_files hproper hf
  refine ⟨?_, fun names => ?_, fun place content hplace => ?_, ?_, nodup_way_iff hproper t text,
    fun hapart part hpart => ?_⟩
  · rw [hwritten]
    exact written_of_packed h
  · have hbefore : ¬ ∃ content, files.at? (p.1.placeFrom [] ++ names) = some (some content) :=
      fun ⟨content, hc⟩ => hnone names content hc
    rw [hfiles, hwritten, found_of_packed h hrooted hnames names]
    simp only [hbefore, or_false]
  · rw [hfiles]
    refine h.shipped.elsewhere fun part _ heq => hplace ?_
    exact heq ▸ List.prefix_append _ _
  · rw [hfiles]
    exact descriptor_of_packed h
  · have hnodup := (nodup_way_iff hproper t text).mpr hapart
    obtain ⟨before, content, hfilled, hkeeps, hfresh, hc⟩ :=
      h.shipped.intact (fun part _ => hnone part.way) hnodup hpart
    rw [hfiles]
    exact ⟨content, hfilled.reads hkeeps hfresh, hc⟩

end Package

/-- A successful export into an output that was missing has noted all files of the layout, and below
the output there are these files, the assets and the descriptor. If no asset and no descriptor takes
the name of another part, all of them hold what they were written with. -/
theorem exportPackage_shipment (t : Template) (settings : Settings) (year : Nat) (q : ExportRequest)
    (files : FileSystem) (guids : GuidSource) {output : Path}
    (houtput : q.output.absolute? files.workingPath = some output)
    (hfree : files.at? (output.placeFrom []) = none)
    (hsuccess : (exportPackage t settings year q files guids).1.outcome = .success) :
    ∃ entries project file, ((Package.plan t settings year q).outcome
        (Run.start files guids settings)).1 = .ok (output, entries, project) ∧
      entries.files.lookup project = some file ∧
      Package.Shipment t (Package.renderer t settings year q) (output, entries, project)
        (Descriptor.text t q.language entries project file) files
        (exportPackage t settings year q files guids) := by
  obtain ⟨⟨_, entries, project⟩, hplan, habsolute, hproper, file, hfile, last, hpacked, hwritten,
    hfiles⟩ := Package.exists_packed hsuccess
  obtain rfl := Option.some.inj (houtput.symm.trans habsolute)
  have hrooted : output.isRooted = true := Generation.isRooted_absolute houtput
  exact ⟨entries, project, file, hplan, hfile,
    Package.shipment_of_packed hrooted hproper hfree hpacked hwritten hfiles⟩

/-- An icon beside two files, one of them taken as it is: nothing is written over. -/
theorem exportPackage_shipment_apart :
    ∃ (files : FileSystem) (t : Template),
      ((Template.parse files ⟨"/work/t.xml"⟩
        ("<Template><Icon>img/icon.png</Icon><Project src=\"a.txt\">" ++
          "<File src=\"b.txt\" raw=\"true\"/></Project></Template>")).outcome {}).1.toOption = some t ∧
      (Path.mk "out").absolute? files.workingPath = some ⟨"/work/out"⟩ ∧
      files.at? ((Path.mk "/work/out").placeFrom []) = none ∧
      (exportPackage t {} 2031 ⟨⟨"out"⟩, [], .cSharp⟩ files ⟨0, 0⟩).1.outcome = .success ∧
      ∃ entries project file, ((Package.plan t {} 2031 ⟨⟨"out"⟩, [], .cSharp⟩).outcome
          (Run.start files ⟨0, 0⟩ {})).1 = .ok (⟨"/work/out"⟩, entries, project) ∧
        entries.files.lookup project = some file ∧
        Package.Shipment t (Package.renderer t {} 2031 ⟨⟨"out"⟩, [], .cSharp⟩)
          (⟨"/work/out"⟩, entries, project) (Descriptor.text t .cSharp entries project file) files
          (exportPackage t {} 2031 ⟨⟨"out"⟩, [], .cSharp⟩ files ⟨0, 0⟩) ∧
        Package.Apart t entries := by
  let files : FileSystem := ⟨.directory [("work", .directory [("a.txt", .file "a".toUTF8),
    ("b.txt", .file "\x7b\x7bx".toUTF8), ("img", .directory [("icon.png", .file "icon".toUTF8)])])],
    ["work"]⟩
  let t : Template := ⟨⟨"/work/t.xml"⟩, none, none, some "img/icon.png", none, [⟨"/work"⟩],
    ⟨[⟨"_sourceExt", some "Extension of source files.", "cs", none, .string, true⟩]⟩,
    [⟨⟨"a.txt", ["/work/a.txt"], "a.txt", false, ⟨1, 36⟩⟩,
      [⟨"b.txt", ["/work/b.txt"], "b.txt", true, ⟨1, 57⟩⟩]⟩]⟩
  have houtput : (Path.mk "out").absolute? files.workingPath = some ⟨"/work/out"⟩ := by decide +kernel
  have hfree : files.at? ((Path.mk "/work/out").placeFrom []) = none := by decide +kernel
  have hsuccess : (exportPackage t {} 2031 ⟨⟨"out"⟩, [], .cSharp⟩ files ⟨0, 0⟩).1.outcome =
      .success := by decide +kernel
  obtain ⟨entries, project, file, hplan, hfile, hshipment⟩ := exportPackage_shipment t {} 2031
    ⟨⟨"out"⟩, [], .cSharp⟩ files ⟨0, 0⟩ houtput hfree hsuccess
  have hfiles : ((Package.plan t {} 2031 ⟨⟨"out"⟩, [], .cSharp⟩).outcome
      (Run.start files ⟨0, 0⟩ {})).1.toOption.map (fun p => p.2.1.files) =
        some [(["a.txt"], ⟨⟨"/work/a.txt"⟩, false⟩), (["b.txt"], ⟨⟨"/work/b.txt"⟩, true⟩)] := by
    decide +kernel
  rw [hplan] at hfiles
  have hentries : entries.files = [(["a.txt"], ⟨⟨"/work/a.txt"⟩, false⟩),
      (["b.txt"], ⟨⟨"/work/b.txt"⟩, true⟩)] := Option.some.inj hfiles
  have hapart : Package.Apart t entries := by
    apply hshipment.apart_iff.mp
    rw [Package.map_way_parts]
    simp only [hentries]
    decide +kernel
  refine ⟨files, t, ?_, houtput, hfree, hsuccess, entries, project, file, hplan, hfile, hshipment,
    hapart⟩
  decide +kernel

/-- An icon with the name of the project file is copied over it. -/
theorem exportPackage_icon_overwrites :
    ∃ (files : FileSystem) (t : Template) (run : Report × Run),
      files = ⟨.directory [("work", .directory [("a.txt", .file "a".toUTF8),
        ("img", .directory [("a.txt", .file "icon".toUTF8)])])], ["work"]⟩ ∧
      ((Template.parse files ⟨"/work/t.xml"⟩
        "<Template><Icon>img/a.txt</Icon><Project src=\"a.txt\"/></Template>").outcome
          {}).1.toOption = some t ∧
      exportPackage t {} 2031 ⟨⟨"out"⟩, [], .cSharp⟩ files ⟨0, 0⟩ = run ∧
      run.1.outcome = .success ∧ files.at? ["work", "out"] = none ∧
      run.1.written = [⟨⟨"/work/a.txt"⟩, ⟨"/work/out/a.txt"⟩⟩] ∧
      run.2.files.at? ["work", "out", "a.txt"] = some (some "icon".toUTF8) ∧
      ¬ Package.Apart t [("a.txt", .file ⟨⟨"/work/a.txt"⟩, false⟩)] := by
  let files : FileSystem := ⟨.directory [("work", .directory [("a.txt", .file "a".toUTF8),
    ("img", .directory [("a.txt", .file "icon".toUTF8)])])], ["work"]⟩
  let t : Template := ⟨⟨"/work/t.xml"⟩, none, none, some "img/a.txt", none, [⟨"/work"⟩],
    ⟨[⟨"_sourceExt", some "Extension of source files.", "cs", none, .string, true⟩]⟩,
    [⟨⟨"a.txt", ["/work/a.txt"], "a.txt", false, ⟨1, 33⟩⟩, []⟩]⟩
  refine ⟨files, t, _, rfl, ?_, rfl, ?_, ?_, ?_, ?_, fun hapart => ?_⟩
  · decide +kernel
  · decide +kernel
  · decide +kernel
  · decide +kernel
  · decide +kernel
  · exact (hapart.named ⟨"/work/img/a.txt"⟩ (by decide +kernel)).2 ⟨⟨"/work/a.txt"⟩, false⟩
      (by decide +kernel)

end Stencil
