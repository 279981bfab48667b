import ClosureLint.Proofs.Text.Utf8
import ClosureLint.Source

/-! Lines and offsets. A boundary cuts a text in two, and its line is the number of newlines in
front of it, so line ranges can be read off the way a text is put together. -/

namespace ClosureLint

namespace Text

theorem isBoundary_iff {t : Text} {n : Nat} :
    t.isBoundary n = true ↔ ∃ a b, t = a ++ b ∧ n = byteLength a := by
  constructor
  · intro h
    fun_induction isBoundary t n with
    | case1 t => exact ⟨[], t, rfl, rfl⟩
    | case2 n => cases h
    | case3 c t n ih =>
      rw [Bool.and_eq_true, decide_eq_true_eq] at h
      obtain ⟨a, b, rfl, hn⟩ := ih h.2
      refine ⟨c :: a, b, rfl, ?_⟩
      rw [byteLength_cons]
      omega
  · rintro ⟨a, b, rfl, rfl⟩
    induction a with
    | nil => simp [isBoundary]
    | cons c a ih =>
      have hpos : 0 < c.utf8Size := c.utf8Size_pos
      rw [List.cons_append, byteLength_cons]
      obtain ⟨n, hn⟩ : ∃ n, c.utf8Size + byteLength a = n + 1 := ⟨_, (Nat.succ_pred (by omega)).symm⟩
      rw [hn, isBoundary, Bool.and_eq_true, decide_eq_true_eq]
      refine ⟨by omega, ?_⟩
      rw [show n + 1 - c.utf8Size = byteLength a by omega]
      exact ih

theorem isBoundary_append (a b : Text) : (a ++ b).isBoundary a.byteLength = true :=
  isBoundary_iff.mpr ⟨a, b, rfl, rfl⟩

theorem le_of_isBoundary {t : Text} {n : Nat} (h : t.isBoundary n = true) : n ≤ t.byteLength := by
  obtain ⟨a, b, rfl, rfl⟩ := isBoundary_iff.mp h
  rw [byteLength_append]
  exact Nat.le_add_right _ _

/-- A cut of a text is known by its offset. -/
theorem append_inj_of_byteLength {a b c d : Text} (h : a ++ b = c ++ d)
    (hlen : byteLength a = byteLength c) : a = c ∧ b = d := by
  induction a generalizing c with
  | nil =>
    cases c with
    | nil => exact ⟨rfl, h⟩
    | cons x c =>
      have := x.utf8Size_pos
      rw [byteLength_nil, byteLength_cons] at hlen
      omega
  | cons y a ih =>
    cases c with
    | nil =>
      have := y.utf8Size_pos
      rw [byteLength_nil, byteLength_cons] at hlen
      omega
    | cons x c =>
      obtain ⟨rfl, htail⟩ := List.cons.inj h
      rw [byteLength_cons, byteLength_cons] at hlen
      obtain ⟨rfl, rfl⟩ := ih htail (by omega)
      exact ⟨rfl, rfl⟩

/-- Of two cuts, the one further behind lies in the second part of the other. -/
theorem exists_append_of_byteLength_le {a b c d : Text} (h : a ++ b = c ++ d)
    (hlen : byteLength a ≤ byteLength c) : ∃ e, c = a ++ e ∧ b = e ++ d := by
  rcases List.append_eq_append_iff.mp h with ⟨e, rfl, rfl⟩ | ⟨e, rfl, rfl⟩
  · exact ⟨e, rfl, rfl⟩
  · cases e with
    | nil => exact ⟨[], by simp, by simp⟩
    | cons x e =>
      have := x.utf8Size_pos
      rw [byteLength_append, byteLength_cons] at hlen
      omega

theorem count_take_utf8 (a b : Text) :
    ((a ++ b).utf8.take a.byteLength).count 0x0a = a.count '\n' := by
  rw [utf8_append, ← length_utf8, List.take_left, count_newline]

end Text

/-! ### Line starts -/

/-- The offsets just behind the newlines of a text that begins at `offset`, in order. -/
def newlineEnds (offset : Nat) : Text → List Nat
  | [] => []
  | c :: t =>
    if c = '\n' then (offset + c.utf8Size) :: newlineEnds (offset + c.utf8Size) t
    else newlineEnds (offset + c.utf8Size) t

theorem lineStartsFrom_toList (starts : Array Nat) (offset : Nat) (t : Text) :
    (lineStartsFrom starts offset t).toList = starts.toList ++ newlineEnds offset t := by
  induction t generalizing starts offset with
  | nil => simp [lineStartsFrom, newlineEnds]
  | cons c t ih =>
    rw [lineStartsFrom, ih, newlineEnds]
    split <;> simp

theorem lineStarts_toList (t : Text) : (lineStarts t).toList = 0 :: newlineEnds 0 t :=
  lineStartsFrom_toList _ _ _

theorem length_newlineEnds (offset : Nat) (t : Text) :
    (newlineEnds offset t).length = t.count '\n' := by
  induction t generalizing offset with
  | nil => rfl
  | cons c t ih =>
    rw [newlineEnds]
    split
    next h => rw [List.length_cons, ih, h, List.count_cons_self]
    next h => rw [ih, List.count_cons_of_ne h]

theorem lt_of_mem_newlineEnds {offset n : Nat} {t : Text} (h : n ∈ newlineEnds offset t) :
    offset < n ∧ n ≤ offset + t.byteLength := by
  induction t generalizing offset with
  | nil => cases h
  | cons c t ih =>
    have hpos := c.utf8Size_pos
    rw [Text.byteLength_cons]
    rw [newlineEnds] at h
    split at h
    · rcases List.mem_cons.mp h with rfl | h
      · omega
      · have := ih h
        omega
    · have := ih h
      omega

theorem size_lineStarts (t : Text) : (lineStarts t).size = t.count '\n' + 1 := by
  rw [← Array.length_toList, lineStarts_toList, List.length_cons, length_newlineEnds]

/-- Halving finds the first entry beyond `x`, once it lies between the bounds. -/
theorem partitionFrom_spec {entries : Array Nat} {x k : Nat}
    (hlow : ∀ i < k, entries.getD i 0 ≤ x)
    (hhigh : ∀ i, k ≤ i → i < entries.size → x < entries.getD i 0) (fuel lo hi : Nat)
    (hfuel : hi - lo ≤ fuel) (hlo : lo ≤ k) (hhi : k ≤ hi) (hsize : hi ≤ entries.size) :
    partitionFrom entries x fuel lo hi = k := by
  induction fuel generalizing lo hi with
  | zero =>
    rw [partitionFrom]
    omega
  | succ fuel ih =>
    rw [partitionFrom]
    by_cases hbounds : lo < hi
    · rw [if_pos hbounds]
      simp only
      by_cases hmid : entries.getD ((lo + hi) / 2) 0 ≤ x
      · rw [if_pos hmid]
        have hk : (lo + hi) / 2 < k := by
          refine Nat.lt_of_not_le fun hk => ?_
          have := hhigh _ hk (by omega)
          omega
        exact ih _ _ (by omega) (by omega) hhi hsize
      · rw [if_neg hmid]
        have hk : k ≤ (lo + hi) / 2 := Nat.le_of_not_lt fun hk => hmid (hlow _ hk)
        exact ih _ _ (by omega) hlo hk (by omega)
    · rw [if_neg hbounds]
      omega

theorem getElem_le_iff {l : List Nat} (h : l.Pairwise (· < ·)) {i : Nat} (hi : i < l.length)
    (x : Nat) : l[i] ≤ x ↔ i < l.countP (· ≤ x) := by
  induction l generalizing i with
  | nil => cases hi
  | cons y l ih =>
    obtain ⟨hy, hl⟩ := List.pairwise_cons.mp h
    by_cases hle : y ≤ x
    · rw [List.countP_cons_of_pos (by simpa using hle)]
      cases i with
      | zero => simpa using hle
      | succ i => simpa using ih hl (Nat.lt_of_succ_lt_succ hi)
    · have hnone : ∀ z ∈ l, ¬ z ≤ x := fun z hz hzx =>
        hle (Nat.le_trans (Nat.le_of_lt (hy z hz)) hzx)
      rw [List.countP_cons_of_neg (by simpa using hle), List.countP_eq_zero.mpr (by simpa using hnone)]
      cases i with
      | zero => simpa using hle
      | succ i => simpa using hnone _ (List.getElem_mem (Nat.lt_of_succ_lt_succ hi))

/-- Halving counts the entries of a sorted array up to a bound. -/
theorem partitionPoint_eq_countP {entries : Array Nat} (h : entries.toList.Pairwise (· < ·))
    (x : Nat) : partitionPoint entries x = entries.toList.countP (· ≤ x) := by
  have hget : ∀ i (hi : i < entries.toList.length), entries.getD i 0 = entries.toList[i] := by
    intro i hi
    rw [Array.getD_eq_getD_getElem?, ← Array.getElem?_toList, List.getElem?_eq_getElem hi,
      Option.getD_some]
  have hle : entries.toList.countP (· ≤ x) ≤ entries.toList.length := List.countP_le_length
  refine partitionFrom_spec (fun i hi => ?_) (fun i hi hsize => ?_) _ _ _ (Nat.le_refl _)
    (Nat.zero_le _) hle (Nat.le_refl _)
  · have hlength := Nat.lt_of_lt_of_le hi hle
    rw [hget i hlength]
    exact (getElem_le_iff h hlength x).mpr hi
  · rw [hget i hsize]
    exact Nat.lt_of_not_le fun hlex => absurd ((getElem_le_iff h hsize x).mp hlex) (by omega)

theorem newlineEnds_sorted (offset : Nat) (t : Text) : (newlineEnds offset t).Pairwise (· < ·) := by
  induction t generalizing offset with
  | nil => exact .nil
  | cons c t ih =>
    rw [newlineEnds]
    split
    · exact List.pairwise_cons.mpr ⟨fun n hn => (lt_of_mem_newlineEnds hn).1, ih _⟩
    · exact ih _

theorem lineStarts_sorted (t : Text) : (lineStarts t).toList.Pairwise (· < ·) := by
  rw [lineStarts_toList]
  exact List.pairwise_cons.mpr ⟨fun n hn => (lt_of_mem_newlineEnds hn).1, newlineEnds_sorted 0 t⟩

/-- The newlines that end up to a place are the newline bytes before it, even where the place is
inside a character or past the end. -/
theorem countP_newlineEnds (offset n : Nat) (t : Text) :
    (newlineEnds offset t).countP (· ≤ offset + n) = (t.utf8.take n).count 0x0a := by
  induction t generalizing offset n with
  | nil => simp [newlineEnds]
  | cons c t ih =>
    have hchar : (String.utf8EncodeChar c).count 0x0a = if c = '\n' then 1 else 0 := by
      have := Text.count_newline [c]
      simpa [List.count_singleton] using this
    rw [newlineEnds, Text.utf8_cons, List.take_append, List.count_append,
      String.length_utf8EncodeChar]
    rcases Nat.lt_or_ge n c.utf8Size with hn | hn
    · have hrest : (newlineEnds (offset + c.utf8Size) t).countP (· ≤ offset + n) = 0 := by
        refine List.countP_eq_zero.mpr fun m hm => ?_
        have := (lt_of_mem_newlineEnds hm).1
        simp only [decide_eq_true_eq]
        omega
      rw [Nat.sub_eq_zero_of_le (Nat.le_of_lt hn), List.take_zero, List.count_nil, Nat.add_zero]
      split
      next hc =>
        -- A newline has no inside, so the place is in front of it.
        have hsize : c.utf8Size = 1 := by rw [hc]; rfl
        rw [List.countP_cons_of_neg (by simp only [decide_eq_true_eq]; omega), hrest,
          show n = 0 by omega, List.take_zero, List.count_nil]
      next hc =>
        rw [if_neg hc] at hchar
        rw [hrest, eq_comm, List.count_eq_zero]
        exact fun hmem => List.count_eq_zero.mp hchar (List.mem_of_mem_take hmem)
    · obtain ⟨m, rfl⟩ := Nat.exists_eq_add_of_le hn
      have htail := ih (offset + c.utf8Size) m
      rw [Nat.add_assoc] at htail
      rw [List.take_of_length_le (by simp), hchar, Nat.add_sub_cancel_left, ← htail]
      split
      · rw [List.countP_cons_of_pos (by simp), Nat.add_comm]
      · rw [Nat.zero_add]

theorem partitionPoint_eq (t : Text) (offset : Nat) :
    partitionPoint (lineStarts t) offset = (t.utf8.take offset).count 0x0a + 1 := by
  have hends := countP_newlineEnds 0 offset t
  rw [Nat.zero_add] at hends
  rw [partitionPoint_eq_countP (lineStarts_sorted t), lineStarts_toList,
    List.countP_cons_of_pos (by simp), hends]

/-- In front of a cut there are as many line starts as newlines, and one more. -/
theorem partitionPoint_lineStarts (a b : Text) :
    partitionPoint (lineStarts (a ++ b)) a.byteLength = a.count '\n' + 1 := by
  rw [partitionPoint_eq, Text.count_take_utf8]

/-! ### Line ranges -/

namespace SourceText

variable {style : CommentStyle} {t : Text}

theorem lineOf?_eq_some_iff {n k : Nat} : (ofText t style).lineOf? n = some k ↔
    ∃ a b, t = a ++ b ∧ n = a.byteLength ∧ k = a.count '\n' := by
  have htext : (ofText t style).text = t := rfl
  have hstarts : (ofText t style).starts = lineStarts t := rfl
  rw [lineOf?, htext, hstarts]
  constructor
  · intro h
    split at h
    next hb =>
      obtain ⟨a, b, rfl, rfl⟩ := Text.isBoundary_iff.mp hb
      rw [partitionPoint_lineStarts, Nat.add_sub_cancel] at h
      exact ⟨a, b, rfl, rfl, (Option.some.inj h).symm⟩
    next => cases h
  · rintro ⟨a, b, rfl, rfl, rfl⟩
    rw [if_pos (Text.isBoundary_iff.mpr ⟨a, b, rfl, rfl⟩), partitionPoint_lineStarts,
      Nat.add_sub_cancel]

theorem lineOf?_mono {i j k l : Nat} (h : i ≤ j) (hi : (ofText t style).lineOf? i = some k)
    (hj : (ofText t style).lineOf? j = some l) : k ≤ l := by
  obtain ⟨a, b, rfl, rfl, rfl⟩ := lineOf?_eq_some_iff.mp hi
  obtain ⟨c, d, hcd, rfl, rfl⟩ := lineOf?_eq_some_iff.mp hj
  obtain ⟨e, rfl, -⟩ := Text.exists_append_of_byteLength_le hcd h
  rw [List.count_append]
  exact Nat.le_add_right _ _

/-- A span has the lines of its first byte and of its end, where both have one and its end is an
offset. -/
theorem lineRange?_eq_some_iff_lineOf? {span : ByteSpan} {range : LineRange} :
    (ofText t style).lineRange? span = some range ↔
      span.offset + span.length < offsetBound ∧
        (ofText t style).lineOf? span.offset = some range.start ∧
          (ofText t style).lineOf? (span.offset + span.length) = some range.stop := by
  obtain ⟨start, stop, hle⟩ := range
  simp only [lineRange?, Option.bind_eq_bind, Option.bind_eq_some_iff, ByteSpan.stop?,
    LineRange.ofBounds?, Option.ite_none_right_eq_some, Option.dite_none_right_eq_some,
    Option.some.injEq]
  constructor
  · rintro ⟨k, hk, n, ⟨hbound, rfl⟩, l, hl, hkl, hrange⟩
    cases hrange
    exact ⟨hbound, hk, hl⟩
  · rintro ⟨hbound, hstart, hstop⟩
    exact ⟨start, hstart, _, ⟨hbound, rfl⟩, stop, hstop, hle, rfl⟩

theorem lineRange?_of_lineOf? {span : ByteSpan} {start stop : Nat}
    (hbound : span.offset + span.length < offsetBound)
    (hstart : (ofText t style).lineOf? span.offset = some start)
    (hstop : (ofText t style).lineOf? (span.offset + span.length) = some stop) :
    (ofText t style).lineRange? span =
      some ⟨start, stop, lineOf?_mono (Nat.le_add_right _ _) hstart hstop⟩ :=
  lineRange?_eq_some_iff_lineOf?.mpr ⟨hbound, hstart, hstop⟩

/-- A span has a line range if it is a part of the text, and then the range is from the line in
which the part begins to the line in which it ends. -/
theorem lineRange?_eq_some_iff {span : ByteSpan} {range : LineRange} :
    (ofText t style).lineRange? span = some range ↔
      ∃ a b c, t = a ++ b ++ c ∧ span = ⟨a.byteLength, b.byteLength⟩ ∧
        (a ++ b).byteLength < offsetBound ∧
        range.start = a.count '\n' ∧ range.stop = (a ++ b).count '\n' := by
  rw [lineRange?_eq_some_iff_lineOf?, lineOf?_eq_some_iff, lineOf?_eq_some_iff]
  constructor
  · rintro ⟨hbound, ⟨a, u, rfl, ha, hstart⟩, d, c, hd, hlen, hstop⟩
    obtain ⟨b, rfl, rfl⟩ := Text.exists_append_of_byteLength_le hd (by omega)
    rw [hlen] at hbound
    rw [Text.byteLength_append] at hlen
    refine ⟨a, b, c, by rw [List.append_assoc], ?_, hbound, hstart, hstop⟩
    cases span
    simp only [ByteSpan.mk.injEq]
    simp only at ha hlen
    omega
  · rintro ⟨a, b, c, rfl, rfl, hbound, hstart, hstop⟩
    rw [Text.byteLength_append] at hbound
    exact ⟨hbound, ⟨a, b ++ c, by rw [List.append_assoc], rfl, hstart⟩, a ++ b, c, rfl,
      (Text.byteLength_append a b).symm, hstop⟩

theorem isSome_lineRange?_iff {span : ByteSpan} : ((ofText t style).lineRange? span).isSome ↔
    span.offset + span.length < offsetBound ∧ ((ofText t style).lineOf? span.offset).isSome ∧
      ((ofText t style).lineOf? (span.offset + span.length)).isSome := by
  constructor
  · intro hrange
    obtain ⟨range, hrange⟩ := Option.isSome_iff_exists.mp hrange
    obtain ⟨hbound, hstart, hstop⟩ := lineRange?_eq_some_iff_lineOf?.mp hrange
    exact ⟨hbound, Option.isSome_of_eq_some hstart, Option.isSome_of_eq_some hstop⟩
  · rintro ⟨hbound, hstart, hstop⟩
    obtain ⟨start, hstart⟩ := Option.isSome_iff_exists.mp hstart
    obtain ⟨stop, hstop⟩ := Option.isSome_iff_exists.mp hstop
    exact Option.isSome_of_eq_some (lineRange?_of_lineOf? hbound hstart hstop)

theorem isSome_lineRange? {span : ByteSpan} (hstart : t.isBoundary span.offset = true)
    (hstop : t.isBoundary (span.offset + span.length) = true)
    (hbound : span.offset + span.length < offsetBound) :
    ((ofText t style).lineRange? span).isSome = true := by
  have hsome : ∀ n, t.isBoundary n = true → ((ofText t style).lineOf? n).isSome = true :=
    fun n hn => Option.isSome_of_eq_some (if_pos hn)
  exact isSome_lineRange?_iff.mpr ⟨hbound, hsome _ hstart, hsome _ hstop⟩

/-- The line of an offset in bytes: only an offset between two characters or at an end has one, and it
is the number of newline bytes in front. -/
theorem lineOf?_eq_some_iff_count {offset line : Nat} :
    (ofText t style).lineOf? offset = some line ↔ offset ≤ t.byteLength ∧
      (∃ front back, t = front ++ back ∧ front.byteLength = offset) ∧
        line = (t.utf8.take offset).count 0x0a := by
  rw [lineOf?_eq_some_iff]
  constructor
  · rintro ⟨front, back, rfl, rfl, rfl⟩
    exact ⟨Text.le_of_isBoundary (Text.isBoundary_append front back), ⟨front, back, rfl, rfl⟩,
      (Text.count_take_utf8 front back).symm⟩
  · rintro ⟨-, ⟨front, back, rfl, rfl⟩, rfl⟩
    exact ⟨front, back, rfl, rfl, Text.count_take_utf8 front back⟩

/-- Lines are resolved exactly. The line starts of a text are increasing from 0 on, one more of them
than newlines. An offset has a line if and only if it is between two characters or at an end of the
text, and the line is the number of newlines before it; the search always finds a start, so taking
one off the number of starts is safe. A span has a line range if and only if its end is an offset
and both ends have a line; the range is from the one line to the other, which are in this order, so
a range is never refused for its bounds. -/
theorem resolution_exact (text : Text) (style : CommentStyle) :
    let file := SourceText.ofText text style
    (file.starts.toList.Pairwise (· < ·) ∧ file.starts[0]? = some 0 ∧
      file.starts.size = text.utf8.count 0x0a + 1) ∧
    (∀ offset, 0 < partitionPoint file.starts offset ∧
      ∀ line, file.lineOf? offset = some line ↔
        offset ≤ text.byteLength ∧
          (∃ front back, text = front ++ back ∧ front.byteLength = offset) ∧
            line = (text.utf8.take offset).count 0x0a) ∧
    ∀ span : ByteSpan,
      ((file.lineRange? span).isSome ↔ span.offset + span.length < offsetBound ∧
        (file.lineOf? span.offset).isSome ∧
          (file.lineOf? (span.offset + span.length)).isSome) ∧
      (∀ range, file.lineRange? span = some range →
        file.lineOf? span.offset = some range.start ∧
          file.lineOf? (span.offset + span.length) = some range.stop) ∧
      ∀ start stop, file.lineOf? span.offset = some start →
        file.lineOf? (span.offset + span.length) = some stop →
          start ≤ stop ∧ LineRange.ofBounds? start stop ≠ none := by
  intro file
  refine ⟨⟨lineStarts_sorted text, ?_, ?_⟩, fun offset => ⟨?_, fun line =>
    lineOf?_eq_some_iff_count⟩, fun span => ⟨isSome_lineRange?_iff, fun range hrange =>
      (lineRange?_eq_some_iff_lineOf?.mp hrange).2, fun start stop hstart hstop => ?_⟩⟩
  · change (lineStarts text)[0]? = some 0
    rw [← Array.getElem?_toList, lineStarts_toList, List.getElem?_cons_zero]
  · rw [Text.count_newline]
    exact size_lineStarts text
  · exact Nat.lt_of_lt_of_eq (Nat.succ_pos _) (partitionPoint_eq text offset).symm
  · have hle := lineOf?_mono (Nat.le_add_right _ _) hstart hstop
    exact ⟨hle, by rw [LineRange.ofBounds?, dif_pos hle]; exact Option.some_ne_none _⟩

end SourceText

end ClosureLint
