import ClosureLint.Proofs.Files.Target
import ClosureLint.Proofs.Report.Arrangement
import Mathlib

/-! How often a file is looked at. Spellings are told apart by their components, so a file is listed
once for each anchor with which it is spelled, and arguments with one anchor list it once. Then the
report has its findings once, and counts it once. -/

namespace ClosureLint

variable {files : FileSystem} {extensions : List String} {paths found : List Path}

theorem components_ne_collectFiles (h : collectFiles files extensions paths = .ok found) :
    found.Pairwise fun p q => p.components ≠ q.components := by
  refine (sorted_collectFiles h).imp fun {p q} hlt hcomponents => ?_
  rw [Path.compare, hcomponents,
    @Std.ReflCmp.compare_self _ Path.compareComponents _ q.components] at hlt
  cases hlt

/-- A file is listed once with each anchor. -/
theorem anchor_ne_collectFiles (h : collectFiles files extensions paths = .ok found) :
    found.Pairwise fun p q => p.target files.workingDirectory = q.target files.workingDirectory →
      p.anchor ≠ q.anchor :=
  (components_ne_collectFiles h).imp fun hne htarget hanchor =>
    hne (Path.components_eq_of_target hanchor htarget)

theorem exists_comes_collectFiles (hproper : files.Proper)
    (h : collectFiles files extensions paths = .ok found) {path : Path} (hpath : path ∈ found) :
    ∃ argument ∈ paths, files.Comes argument path := by
  obtain ⟨argument, hargument, listed, hlisted, hmem⟩ := exists_argument h hpath
  exact ⟨argument, hargument, comes_filesAt hproper hlisted hmem⟩

/-- Arguments with one anchor list each file once. -/
theorem nodup_target_collectFiles (hproper : files.Proper)
    (h : collectFiles files extensions paths = .ok found)
    (hanchor : ∀ p ∈ paths, ∀ q ∈ paths, p.anchor = q.anchor) :
    (found.map (Path.target files.workingDirectory)).Nodup := by
  refine List.pairwise_map.mpr ((anchor_ne_collectFiles h).imp_of_mem ?_)
  intro p q hp hq hne htarget
  obtain ⟨a, ha, hap⟩ := exists_comes_collectFiles hproper h hp
  obtain ⟨b, hb, hbq⟩ := exists_comes_collectFiles hproper h hq
  exact hne htarget (by rw [hap.anchor, hbq.anchor, hanchor a ha b hb])

/-- If each file is listed once, the findings in it are those under its spelling. -/
theorem Report.Arranges.filter_target {foundIn : Path → List Finding} {report : Report}
    (h : report.Arranges foundIn found) {start : Location}
    (hfound : (found.map (Path.target start)).Nodup) {path : Path} (hpath : path ∈ found) :
    report.findings.filter (fun f => (Path.mk f.path).target start = path.target start) =
      (foundIn path).mergeSort Finding.offsetLe := by
  rw [← h.own path hpath]
  refine List.filter_congr fun f hf => decide_eq_decide.mpr ⟨fun htarget => ?_, fun hspelling => ?_⟩
  · obtain ⟨other, hother, hspelling⟩ := h.within f hf
    rw [hspelling] at htarget ⊢
    rw [List.inj_on_of_nodup_map hfound hother hpath htarget]
  · rw [hspelling]

/-- How often a file is listed. What is listed leads to files and has the anchor of an argument. A
file is listed once for each anchor: twice only in spellings with different anchors, and also so
if arguments name it with different anchors. Arguments with one anchor list each file once, and a
report on them counts each file once and has its findings once. -/
theorem collectFiles_once (files : FileSystem) (extensions : List String) (paths found : List Path)
    (hproper : files.Proper) (h : collectFiles files extensions paths = .ok found) :
    (∀ p ∈ found, ∃ argument ∈ paths, files.Comes argument p) ∧
    found.Pairwise (fun p q => p.target files.workingDirectory = q.target files.workingDirectory →
      p.anchor ≠ q.anchor) ∧
    (∀ p ∈ paths, ∀ content, files.node p = .ok (.file content) → ∃ kept ∈ found,
      kept.anchor = p.anchor ∧
        kept.target files.workingDirectory = p.target files.workingDirectory) ∧
    ((∀ p ∈ paths, ∀ q ∈ paths, p.anchor = q.anchor) →
      (found.map (Path.target files.workingDirectory)).Nodup ∧
      ∀ (linter : Linter) highestOnly report, linter.extensions = extensions →
        Report.ofPaths linter files highestOnly paths = .ok report →
          report.files = found.length ∧ ∀ p ∈ found, ∃ content, files.read p = .ok content ∧
            report.findings.filter (fun f => (Path.mk f.path).target files.workingDirectory =
              p.target files.workingDirectory) =
                (linter.findingsIn highestOnly p content).mergeSort Finding.offsetLe) := by
  refine ⟨fun p => exists_comes_collectFiles hproper h, anchor_ne_collectFiles h, ?_, ?_⟩
  · intro p hp content hnode
    obtain ⟨kept, hkept, hsame⟩ := exists_kept h hp (filesAt_file hnode) (List.mem_singleton_self p)
    have hcomponents := Path.components_eq_of_compare hsame
    exact ⟨kept, hkept, by rw [Path.anchor, hcomponents, Path.anchor],
      by rw [Path.target, hcomponents, Path.target]⟩
  · intro hanchor
    have hfound := nodup_target_collectFiles hproper h hanchor
    refine ⟨hfound, fun linter highestOnly report hextensions hreport => ?_⟩
    obtain ⟨found', hfound', hread, rfl⟩ := Report.ofPaths_eq_ok_iff.mp hreport
    obtain rfl : found' = found := Except.ok.inj (hfound'.symm.trans (hextensions ▸ h))
    have harranges := Report.arranges_ofFiles
      (fun path f => @Linter.path_of_mem_findingsAt linter files highestOnly path f)
      (nodup_collectFiles h)
    refine ⟨harranges.files, fun p hp => ?_⟩
    obtain ⟨content, hcontent⟩ := hread p hp
    exact ⟨content, hcontent, by rw [harranges.filter_target hfound hp,
      Linter.findingsIn_eq hcontent]⟩

theorem proper_oneFile (text : Text) : (oneFile text).Proper := by
  intro location entries h
  cases location with
  | nil =>
    obtain rfl : [("a.rs", .file (.text text))] = entries := by simpa [oneFile, Node.at?] using h
    exact ⟨by simp, by simpa using ⟨by decide, by decide, by decide, by decide⟩⟩
  | cons name rest =>
    simp only [oneFile, Node.at?, List.lookup] at h
    split at h
    · cases rest <;> simp [Node.at?] at h
    · cases h

theorem resolve_oneFile : (oneFile threeLines).resolve ⟨"./a.rs"⟩ = .ok ["a.rs"] := by
  simp only [FileSystem.resolve, splitOn_slash]
  decide +kernel

theorem node_oneFile : (oneFile threeLines).node ⟨"./a.rs"⟩ = .ok (.file (.text threeLines)) :=
  FileSystem.node_eq_ok_iff.mpr ⟨_, resolve_oneFile, rfl⟩

theorem filesAt_oneFile : ∃ listed, filesAt (oneFile threeLines) ["rs"] ⟨"."⟩ = .ok listed ∧
    ∀ path ∈ listed, path = ⟨"./a.rs"⟩ := by
  have hjoin : (Path.mk ".").join "a.rs" = ⟨"./a.rs"⟩ := by decide +kernel
  refine ⟨_, @filesAt_root (oneFile threeLines) ["rs"] ⟨"."⟩
    [("a.rs", .file (.text threeLines))] (by cbv) (by cbv), fun path hpath => ?_⟩
  have hwalk := (List.mem_filter.mp hpath).1
  simp only [walkNode, walkEntries, walkEntry, List.append_nil, hjoin] at hwalk
  split at hwalk
  · cases hwalk
  · exact List.mem_singleton.mp hwalk

theorem eq_of_filesAt_oneFile {argument path : Path} {listed : List Path}
    (hargument : argument ∈ [⟨"."⟩, ⟨"./a.rs"⟩])
    (hlisted : filesAt (oneFile threeLines) ["rs"] argument = .ok listed) (hpath : path ∈ listed) :
    path = ⟨"./a.rs"⟩ := by
  rw [List.mem_cons, List.mem_singleton] at hargument
  rcases hargument with rfl | rfl
  · obtain ⟨listed', hlisted', hsame⟩ := filesAt_oneFile
    obtain rfl := Except.ok.inj (hlisted'.symm.trans hlisted)
    exact hsame path hpath
  · obtain rfl := Except.ok.inj ((filesAt_file node_oneFile).symm.trans hlisted)
    exact List.mem_singleton.mp hpath

theorem collectFiles_oneFile :
    collectFiles (oneFile threeLines) ["rs"] [⟨"."⟩, ⟨"./a.rs"⟩] = .ok [⟨"./a.rs"⟩] := by
  obtain ⟨listed, hlisted, -⟩ := filesAt_oneFile
  have hfile := @filesAt_file _ ["rs"] _ _ node_oneFile
  obtain ⟨found, hfound⟩ : ∃ found,
      collectFiles (oneFile threeLines) ["rs"] [⟨"."⟩, ⟨"./a.rs"⟩] = .ok found :=
    ⟨_, collectFiles_eq_ok_iff.mpr ⟨by simpa using ⟨⟨_, hlisted⟩, _, hfile⟩, rfl⟩⟩
  have hall : ∀ path ∈ found, path = ⟨"./a.rs"⟩ := by
    intro path hpath
    obtain ⟨argument, hargument, listed', hlisted', hmem⟩ := exists_argument hfound hpath
    exact eq_of_filesAt_oneFile hargument hlisted' hmem
  -- The file is found, and no spelling comes twice.
  obtain ⟨kept, hkept, -⟩ := exists_kept hfound (by simp) hfile (List.mem_singleton_self _)
  have hpos := List.length_pos_of_mem hkept
  have hcopies := List.eq_replicate_of_mem hall
  have hle := List.nodup_replicate.mp (hcopies ▸ (nodup_collectFiles hfound).of_map)
  rw [hfound, hcopies, show found.length = 1 by omega]
  rfl

/-- The directory and the file in it, which is listed and counted once, and has a warning and an
error. -/
theorem collectFiles_once_directory :
    collectFiles (oneFile threeLines) ["rs"] [⟨"."⟩, ⟨"./a.rs"⟩] = .ok [⟨"./a.rs"⟩] ∧
    ∃ report, Report.ofPaths (bodyLengthLinter ⟨0, some 1⟩) (oneFile threeLines) false
        [⟨"."⟩, ⟨"./a.rs"⟩] = .ok report ∧ report.files = 1 ∧
      (report.findings.filter fun f => (Path.mk f.path).target [] = ["a.rs"]).length = 2 := by
  have hanchor : (Path.mk "./a.rs").anchor = (Path.mk ".").anchor := by
    simp only [Path.anchor, Path.components, splitOn_slash]
    decide +kernel
  have htarget := (FileSystem.target_of_resolve resolve_oneFile).2
  have hrust : isRustPath ⟨"./a.rs"⟩ = true := by
    simp only [isRustPath, Path.extension?, Path.fileName?, Path.components, splitOn_slash]
    decide +kernel
  have hextensions : (bodyLengthLinter ⟨0, some 1⟩).extensions = ["rs"] := by decide +kernel
  have hread : (oneFile threeLines).read ⟨"./a.rs"⟩ = .ok (.text threeLines) := by
    rw [FileSystem.read, node_oneFile]
    rfl
  obtain ⟨report, hreport⟩ : ∃ report, Report.ofPaths (bodyLengthLinter ⟨0, some 1⟩)
      (oneFile threeLines) false [⟨"."⟩, ⟨"./a.rs"⟩] = .ok report :=
    ⟨_, Report.ofPaths_eq_ok_iff.mpr
      ⟨_, hextensions ▸ collectFiles_oneFile, by simpa using ⟨_, hread⟩, rfl⟩⟩
  obtain ⟨-, -, -, honce⟩ :=
    collectFiles_once _ _ _ _ (proper_oneFile threeLines) collectFiles_oneFile
  obtain ⟨hfiles, hfindings⟩ :=
    (honce (by simp [hanchor])).2 _ _ _ hextensions hreport
  obtain ⟨content, hcontent, hfilter⟩ := hfindings _ (List.mem_singleton_self _)
  obtain rfl := Except.ok.inj (hread.symm.trans hcontent)
  refine ⟨collectFiles_oneFile, report, hreport, hfiles, ?_⟩
  have hlength := congrArg List.length hfilter
  rw [List.length_mergeSort, length_findingsIn_threeLines hrust, htarget] at hlength
  exact hlength

/-- Two spellings of a file with different anchors. -/
example : (Path.mk "./a.rs").target [] = (Path.mk "a.rs").target [] ∧
    (Path.mk "./a.rs").anchor ≠ (Path.mk "a.rs").anchor := by
  simp only [Path.target, Path.anchor, Path.components, splitOn_slash]
  decide +kernel

end ClosureLint
