import ClosureLint.Proofs.Comment.Padding
import ClosureLint.Proofs.Source.Measure

/-! Padding a closure with lines of blanks and comments does not change what is reported about it.
-/

namespace ClosureLint

theorem range'_cut {start cut stop : Nat} (h : start ≤ cut) (h' : cut ≤ stop) :
    List.range' start (stop - start) =
      List.range' start (cut - start) ++ List.range' cut (stop - cut) := by
  have hall := List.range'_append_1 (s := start) (m := cut - start) (n := stop - cut)
  rw [show start + (cut - start) = cut by omega,
    show cut - start + (stop - cut) = stop - start by omega] at hall
  exact hall.symm

/-- The marked lines of a range around a cut are as many as before, if those behind the cut move and
the range grows by the same number of lines. -/
theorem countP_moved {front back : List Nat} {cut : Nat} (hfront : ∀ n ∈ front, n < cut)
    (hback : ∀ n ∈ back, cut ≤ n) {start stop : Nat} (hstart : start ≤ cut) (hstop : cut ≤ stop)
    (d : Nat) :
    (List.range' start (stop + d + 1 - start)).countP
        (fun k => decide (k ∈ front ++ back.map (· + d))) =
      (List.range' start (stop + 1 - start)).countP fun k => decide (k ∈ front ++ back) := by
  have hnew : List.range' start (stop + d + 1 - start) =
      List.range' start (cut - start) ++
        (List.range' cut d ++ (List.range' cut (stop + 1 - cut)).map (d + ·)) := by
    have hcut := @range'_cut cut (cut + d) (stop + d + 1) (by omega) (by omega)
    rw [show cut + d - cut = d by omega,
      show stop + d + 1 - (cut + d) = stop + 1 - cut by omega] at hcut
    rw [List.map_add_range', Nat.add_comm d cut, ← hcut]
    exact range'_cut hstart (by omega)
  have hbefore : ∀ k ∈ List.range' start (cut - start),
      decide (k ∈ front ++ back.map (· + d)) = true ↔ decide (k ∈ front ++ back) = true := by
    intro k hk
    rw [List.mem_range'_1] at hk
    simp only [decide_eq_true_eq, List.mem_append, List.mem_map]
    refine or_congr_right ⟨?_, fun h => ?_⟩
    · rintro ⟨n, hn, rfl⟩
      have := hback n hn
      omega
    · have := hback k h
      omega
  have hbetween : (List.range' cut d).countP
      (fun k => decide (k ∈ front ++ back.map (· + d))) = 0 := by
    refine List.countP_eq_zero.mpr fun k hk h => ?_
    rw [List.mem_range'_1] at hk
    rw [decide_eq_true_eq, List.mem_append, List.mem_map] at h
    rcases h with h | ⟨n, hn, rfl⟩
    · have := hfront k h
      omega
    · have := hback n hn
      omega
  have hbehind : ∀ k ∈ List.range' cut (stop + 1 - cut),
      decide (d + k ∈ front ++ back.map (· + d)) = true ↔ decide (k ∈ front ++ back) = true := by
    intro k hk
    rw [List.mem_range'_1] at hk
    simp only [decide_eq_true_eq, List.mem_append, List.mem_map]
    constructor
    · rintro (h | ⟨n, hn, he⟩)
      · have := hfront _ h
        omega
      · obtain rfl : n = k := by omega
        exact .inr hn
    · rintro (h | h)
      · have := hfront _ h
        omega
      · exact .inr ⟨k, h, Nat.add_comm k d⟩
  rw [hnew, @range'_cut start cut (stop + 1) hstart (by omega), List.countP_append,
    List.countP_append, List.countP_append, hbetween, Nat.zero_add, List.countP_congr hbefore,
    List.countP_map, List.countP_congr (p := _ ∘ _) hbehind]

namespace BodyLength

open Comment (Padding Settles)

/-- The closure with a body that is longer by so many bytes. -/
def lengthen (closure : Closure) (n : Nat) : Closure :=
  { closure with body := { closure.body with length := closure.body.length + n } }

/-- Lines of blanks and comments inside the body of a closure do not change what is reported about
it. They stand behind a newline after which the pass is outside comments and literals and before
which there is no backslash close by; and the text is one whose bytes can be counted. -/
theorem evaluate_padded (a ins b : Text) (closure : Closure) (thresholds : List Threshold)
    (hline : a.getLast? = some '\n') (hscan : Settles .rust a b)
    (hslash : (0x5c : UInt8) ∉ a.utf8.reverse.take 12)
    (hpad : Padding ins) (hins : ins = [] ∨ ins.getLast? = some '\n')
    (hoffset : closure.offset < a.byteLength) (hstart : closure.body.offset < a.byteLength)
    (hstop : a.byteLength ≤ closure.body.offset + closure.body.length)
    (hbody : ((SourceText.ofText (a ++ b) .rust).lineRange? closure.body).isSome)
    (hlength : (a ++ ins ++ b).byteLength < offsetBound) :
    evaluate (.ofText (a ++ ins ++ b) .rust) (lengthen closure ins.byteLength) thresholds =
      evaluate (.ofText (a ++ b) .rust) closure thresholds := by
  obtain ⟨range, hrange⟩ := Option.isSome_iff_exists.mp hbody
  obtain ⟨u, v, w, htext, hspan, hbound, hfirst, hlast⟩ :=
    SourceText.lineRange?_eq_some_iff.mp hrange
  rw [hspan] at hstart hstop
  -- The cut lies inside the body.
  obtain ⟨e, rfl, hrest⟩ := Text.exists_append_of_byteLength_le
    (show u ++ (v ++ w) = a ++ b by rw [htext, List.append_assoc]) (Nat.le_of_lt hstart)
  obtain ⟨f, hv, rfl⟩ := Text.exists_append_of_byteLength_le
    (show (u ++ e) ++ b = (u ++ v) ++ w from htext) (by rwa [Text.byteLength_append u v])
  rw [List.append_assoc, List.append_cancel_left_eq] at hv
  subst hv
  obtain ⟨front, back, hfront, hback, hold, hnew⟩ := Comment.markedLines_padded (f ++ w) hline
    (Comment.slashesFar_of_not_mem hslash) hscan hpad hins
  have hpadded : (SourceText.ofText (u ++ e ++ ins ++ (f ++ w)) .rust).lineRange?
      (lengthen closure ins.byteLength).body =
        some ⟨range.start, range.stop + ins.count '\n', by have := range.start_le_stop; omega⟩ := by
    refine SourceText.lineRange?_eq_some_iff.mpr ⟨u, e ++ ins ++ f, w, by simp, ?_, ?_, hfirst, ?_⟩
    · simp only [lengthen, hspan, Text.byteLength_append, ByteSpan.mk.injEq, true_and]
      omega
    · simp only [Text.byteLength_append] at hlength ⊢
      omega
    · simp only [hlast, List.count_append]
      omega
  rw [evaluate_eq thresholds hrange, evaluate_eq thresholds hpadded]
  congr 1
  rw [SourceText.effectiveLines_eq, SourceText.effectiveLines_eq, hold, hnew]
  · refine countP_moved hfront hback ?_ ?_ (ins.count '\n')
    · rw [hfirst, List.count_append]
      omega
    · rw [hlast]
      simp only [List.count_append]
      omega
  · rw [hlast]
    simp only [List.count_append]
    omega
  · simp only [hlast, List.count_append]
    omega

def opened : Text := "|x| \x7b\n".toList

def closed : Text := "x\n\x7d".toList

/-- A line of blanks, a comment and a comment of two lines. -/
def padding : Text := " \n// one\n/* two\n*/\n".toList

theorem evaluate_padded_three : Settles .rust opened closed ∧ Padding padding ∧
    evaluate (.ofText (opened ++ closed) .rust) ⟨0, ⟨4, 5⟩⟩ [⟨.warning, 2⟩] ≠ [] ∧
      evaluate (.ofText (opened ++ padding ++ closed) .rust)
          (lengthen ⟨0, ⟨4, 5⟩⟩ padding.byteLength) [⟨.warning, 2⟩] =
        evaluate (.ofText (opened ++ closed) .rust) ⟨0, ⟨4, 5⟩⟩ [⟨.warning, 2⟩] := by
  have hscan : Settles .rust opened closed := ⟨by decide, by decide, by decide⟩
  have hbalanced : Comment.Balanced 1 " two\n*/".toList :=
    .other rfl rfl (.other rfl rfl (.other rfl rfl (.other rfl rfl (.other rfl rfl (.closing .nil)))))
  have hpad : Padding padding :=
    .blank rfl (.blank rfl (@Padding.lineComment " one".toList _ (by decide)
      (.blockComment hbalanced (.blank rfl .nil))))
  exact ⟨hscan, hpad, by decide, evaluate_padded opened padding closed ⟨0, ⟨4, 5⟩⟩ _ rfl hscan
    (by decide) hpad (.inr rfl) (by decide) (by decide) (by decide) (by decide) (by decide)⟩

end BodyLength

end ClosureLint
