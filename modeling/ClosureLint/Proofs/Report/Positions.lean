import ClosureLint.Proofs.Report.Arrangement
import ClosureLint.Proofs.Source.Position

/-! The positions in a report. Findings are put in order by offset and printed with line and column.
The one order is the other, since positions go on with the offsets of a text, and all findings with
one path are in one text. -/

namespace ClosureLint

variable {linter : Linter} {files : FileSystem} {highestOnly : Bool}

namespace Finding

theorem position_le {path : String} {text : Text} {v w : Violation} (h : v.offset ≤ w.offset) :
    (locate path text v).position.key ≤ (locate path text w).position.key :=
  Text.position_mono text h

end Finding

theorem exists_locate_of_mem_ofFiles {found : List Path} {f : Finding}
    (h : f ∈ (Report.ofFiles (found.map (linter.findingsAt files highestOnly))).findings) :
    ∃ path text v, files.readText path = .ok text ∧ f = Finding.locate path.spelling text v := by
  obtain ⟨_, hfindings, hf⟩ := Report.mem_findings_ofFiles.mp h
  obtain ⟨path, -, rfl⟩ := List.mem_map.mp hfindings
  rw [Linter.findingsAt] at hf
  split at hf
  next text htext =>
    obtain ⟨v, -, rfl⟩ := List.mem_map.mp hf
    exact ⟨path, text, v, htext, rfl⟩
  next => cases hf

/-- The findings with one path are in the order of their positions. -/
theorem positions_ofFiles (found : List Path) :
    (Report.ofFiles (found.map (linter.findingsAt files highestOnly))).findings.Pairwise fun f g =>
      f.path = g.path → f.position.key ≤ g.position.key := by
  refine (Report.sorted_ofFiles _).imp_of_mem fun {f g} hf hg hle hpath => ?_
  obtain ⟨path, text, v, htext, rfl⟩ := exists_locate_of_mem_ofFiles hf
  obtain ⟨path', text', w, htext', rfl⟩ := exists_locate_of_mem_ofFiles hg
  -- The spelling is all there is to a path, so both findings are in one text.
  obtain rfl : path = path' := congrArg Path.mk hpath
  obtain rfl : text = text' := Except.ok.inj (htext.symm.trans htext')
  rcases Finding.le_iff_path.mp hle with hlt | ⟨-, hoffset⟩
  · exact absurd hpath hlt.ne
  · exact Finding.position_le hoffset

/-- Offsets, lines and printed positions agree. The position of an offset is that of the least
boundary which is not before it, or of the end of the text: the line is one more than the newlines
in front of that, and the column one more than the characters behind the last of them. It is the
line that the line index has for the offset, counted from 1 on. Positions increase from boundary to
boundary, so no two boundaries have one position, and findings in the order of their offsets are in
that of their positions; in any report, the findings in each file are. -/
theorem positions_exact :
    (∀ text : Text,
      (∀ offset, ∃ front back, text = front ++ back ∧
        IsLeast {n | text.isBoundary n = true ∧ min offset text.byteLength ≤ n} front.byteLength ∧
        text.position offset =
          ⟨1 + front.count '\n', 1 + (front.rtakeWhile (· ≠ '\n')).length⟩) ∧
      (∀ style offset line, (SourceText.ofText text style).lineOf? offset = some line →
        (text.position offset).line = line + 1) ∧
      StrictMonoOn (fun n => (text.position n).key) {n | text.isBoundary n = true} ∧
      Set.InjOn text.position {n | text.isBoundary n = true} ∧
      ∀ path (violations : List Violation),
        violations.Pairwise (fun v w => v.offset ≤ w.offset) →
          (violations.map (Finding.locate path text)).Pairwise fun f g =>
            f.position.key ≤ g.position.key) ∧
    ∀ (linter : Linter) files highestOnly paths report,
      Report.ofPaths linter files highestOnly paths = .ok report →
        report.findings.Pairwise fun f g => f.path = g.path → f.position.key ≤ g.position.key := by
  refine ⟨fun text => ?_, fun linter files highestOnly paths report h => ?_⟩
  · have hstrict : StrictMonoOn (fun n => (text.position n).key) {n | text.isBoundary n = true} :=
      fun m hm n hn => Text.position_lt text hm hn
    refine ⟨fun offset => ?_, fun style offset line => line_position, hstrict,
      fun m hm n hn h => hstrict.injOn hm hn (congrArg Position.key h), fun path violations h => ?_⟩
    · obtain ⟨front, back, htext, hcut, hposition⟩ := Text.exists_cutAt .origin text offset
      exact ⟨front, back, htext, hcut, hposition.trans (Position.behind_eq front)⟩
    · exact List.pairwise_map.mpr (h.imp Finding.position_le)
  · obtain ⟨found, -, -, rfl⟩ := Report.ofPaths_eq_ok_iff.mp h
    exact positions_ofFiles found

end ClosureLint
