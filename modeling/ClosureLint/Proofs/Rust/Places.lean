import ClosureLint.Proofs.Rust.FrontEnd
import ClosureLint.Proofs.Rust.TokenPieces

/-! Where tokens and closures lie in a text. Every token has some bytes, and all of them are before
those of the next one, so tokens and closures are known by the byte at which they begin. -/

namespace ClosureLint.Rust

theorem take_ne_nil {t : Text} {n : Nat} (ht : t ≠ []) (hn : n ≠ 0) : t.take n ≠ [] := by
  rw [Ne, List.take_eq_nil_iff]
  exact not_or.mpr ⟨hn, ht⟩

theorem CommentAt.ne_zero {t : Text} {n : Nat} (h : CommentAt t n) : n ≠ 0 := by
  cases h with
  | line => exact Nat.succ_ne_zero _
  | block => exact Nat.succ_ne_zero _

theorem anyWord?_ne_zero {t : Text} {n : Nat} (h : anyWord? t = some n) : n ≠ 0 := by
  obtain ⟨w, rest, -, rfl, -, ⟨hne, -⟩ | ⟨v, rfl, -, -⟩⟩ := anyWord?_shape h
  · exact fun h0 => hne (List.length_eq_zero_iff.mp h0)
  · exact Nat.succ_ne_zero _

theorem literal?_ne_zero {t : Text} {kind : Literal} {n : Nat} (h : literal? t = some (kind, n)) :
    n ≠ 0 := by
  have hsuffixed : ∀ {digits? : Measure},
      (∀ m, digits? t = some m → Begins isNumberPart t m ∧ m ≠ 0) →
        suffixed? digits? t = some n → n ≠ 0 := by
    intro digits? hdigits h
    obtain ⟨front, w, rest, -, rfl, hne, -⟩ := suffixed?_shape hdigits h
    rw [List.length_append]
    have := List.length_pos_iff.mpr hne
    omega
  unfold literal? at h
  split at h
  next m hm =>
    obtain ⟨q, u, -, rfl, hq⟩ := quoted?_shape hm
    obtain ⟨v, c, rfl, -⟩ := hq.getLast
    cases h
    simp
  next =>
    split at h
    next m hm =>
      cases h
      exact hsuffixed (fun m => floatDigits?_shape) hm
    next =>
      obtain ⟨m, hm, he⟩ := Option.map_eq_some_iff.mp h
      cases he
      exact hsuffixed (fun m => integer?_shape) hm

theorem punctLexeme?_ne_zero {t : Text} {lexeme : Lexeme} {n : Nat}
    (h : punctLexeme? t = some (lexeme, n)) : n ≠ 0 := by
  have hnamed : ∀ rest m, lifetimeLexeme?.named rest m = some (lexeme, n) → n ≠ 0 := by
    intro rest m h
    unfold lifetimeLexeme?.named at h
    split at h
    · cases h
      decide
    · cases h
      exact Nat.succ_ne_zero m
  unfold punctLexeme? at h
  split at h
  next rest =>
    simp only [lifetimeLexeme?, Option.bind_eq_bind, Option.bind_eq_some_iff] at h
    obtain ⟨m, -, h⟩ := h
    split at h
    · cases h
    · split at h
      · exact hnamed rest m h
      · cases h
    · exact hnamed rest m h
  next =>
    split at h
    · cases h
      decide
    · cases h
  next => cases h

theorem leaf?_ne_zero {t : Text} {lexeme : Lexeme} {n : Nat} (h : leaf? t = some (lexeme, n)) :
    n ≠ 0 := by
  unfold leaf? at h
  split at h
  next kind m hliteral =>
    cases h
    exact literal?_ne_zero hliteral
  next =>
    split at h
    next found hpunct =>
      cases h
      exact punctLexeme?_ne_zero hpunct
    next =>
      split at h
      next m hword =>
        cases h
        unfold wordLexeme? at hword
        split at hword
        · cases hword
        · exact anyWord?_ne_zero hword
      next =>
        split at h
        · cases h
          decide
        · cases h

theorem partAt?_ne_zero {t : Text} {lexeme : Lexeme} {n : Nat}
    (h : partAt? t = some (some lexeme, n)) : n ≠ 0 := by
  unfold partAt? at h
  split at h
  · cases h
  · split at h
    next hdoc =>
      cases h
      exact (doc?_shape hdoc).ne_zero
    next =>
      split at h
      · cases h
        decide
      · cases h
        decide
      next =>
        obtain ⟨⟨lexeme', m⟩, hleaf, he⟩ := Option.map_eq_some_iff.mp h
        cases he
        exact leaf?_ne_zero hleaf

theorem doc?_of_partAt? {t : Text} {inner : Bool} {n : Nat}
    (h : partAt? t = some (some (.doc inner), n)) : (doc? t).isSome = true := by
  have hleaf : ∀ lexeme m, leaf? t = some (lexeme, m) → lexeme ≠ .doc inner := by
    rintro _ m hleaf rfl
    unfold leaf? at hleaf
    split at hleaf
    · cases hleaf
    · split at hleaf
      next found hpunct =>
        cases hleaf
        unfold punctLexeme? at hpunct
        split at hpunct
        · simp only [lifetimeLexeme?, Option.bind_eq_bind, Option.bind_eq_some_iff,
            lifetimeLexeme?.named] at hpunct
          grind
        · split at hpunct <;> cases hpunct
        · cases hpunct
      · split at hleaf
        · cases hleaf
        · split at hleaf <;> cases hleaf
  unfold partAt? at h
  split at h
  · cases h
  · split at h
    next hdoc =>
      rw [hdoc]
      rfl
    next =>
      split at h
      · cases h
      · cases h
      next =>
        obtain ⟨⟨lexeme, m⟩, hm, he⟩ := Option.map_eq_some_iff.mp h
        exact absurd (Option.some.inj (Prod.mk.inj he).1) (hleaf lexeme m hm)

/-- The lexemes of a text have bytes, and those of one come before those of the next. -/
theorem FallsInto.extents_ordered {t : Text} {parts : List Part} (h : FallsInto t parts)
    (offset : Nat) :
    (∀ e ∈ extents offset parts, e.lo < e.hi) ∧
      (extents offset parts).Pairwise fun e f => e.hi ≤ f.lo := by
  induction h generalizing offset with
  | nil => exact ⟨nofun, .nil⟩
  | @cons t lexeme? n parts hne hpart hrest ih =>
    obtain ⟨hbytes, hordered⟩ := ih (offset + Text.byteLength (t.take n))
    rw [extents]
    cases lexeme? with
    | none => exact ⟨hbytes, hordered⟩
    | some lexeme =>
      obtain ⟨c, u, hu⟩ := List.exists_cons_of_ne_nil (take_ne_nil hne (partAt?_ne_zero hpart))
      refine ⟨?_, .cons (fun e he => lo_of_mem_extents he) hordered⟩
      intro e he
      rcases List.mem_cons.mp he with rfl | he
      · have := c.utf8Size_pos
        simp only [hu, Text.byteLength_cons]
        omega
      · exact hbytes e he

theorem mem_extents {offset : Nat} {parts : List Part} {e : Extent} (h : e ∈ extents offset parts) :
    ∃ before p after, parts = before ++ p :: after ∧ p.lexeme? = some e.lexeme ∧
      e.lo = offset + (written before).byteLength ∧ e.hi = e.lo + p.text.byteLength := by
  induction parts generalizing offset with
  | nil => cases h
  | cons p parts ih =>
    rw [extents, List.mem_append, Option.mem_toList, Option.map_eq_some_iff] at h
    rcases h with ⟨lexeme, hlexeme, rfl⟩ | h
    · exact ⟨[], p, parts, rfl, hlexeme, rfl, rfl⟩
    · obtain ⟨before, q, after, rfl, hlexeme, hlo, hhi⟩ := ih h
      refine ⟨p :: before, q, after, rfl, hlexeme, ?_, hhi⟩
      rw [hlo, written_cons, Text.byteLength_append, Nat.add_assoc]

theorem part_of_token {tokens : Array Token} {offset : Nat} {parts : List Part}
    (h : tokens.toList.map Token.extent = extents offset parts) {i : Nat} (hi : i < tokens.size) :
    ∃ before p after, parts = before ++ p :: after ∧ p.lexeme? = some tokens[i].lexeme ∧
      tokens[i].lo = offset + (written before).byteLength ∧
        tokens[i].hi = tokens[i].lo + p.text.byteLength := by
  have hmem : tokens[i].extent ∈ tokens.toList.map Token.extent :=
    List.mem_map_of_mem (Array.getElem_mem_toList hi)
  rw [h] at hmem
  exact mem_extents hmem

/-- In front of the parts of a source there is no newline. -/
theorem exists_front {t code : Text}
    (h : (Preamble.split t).rest = bom (Preamble.split t).rest ++ code) :
    ∃ front, t = front ++ code ∧ front.count '\n' = 0 ∧
      front.byteLength = (Preamble.split t).length + (bom (Preamble.split t).rest).byteLength := by
  obtain ⟨front, ht, hlength, hline, -⟩ := split_front t
  refine ⟨front ++ bom (Preamble.split t).rest, ?_, ?_, ?_⟩
  · rw [List.append_assoc, ← h]
    exact ht
  · rw [List.count_append, List.count_eq_zero.mpr hline]
    unfold bom
    split <;> rfl
  · rw [Text.byteLength_append, hlength]

/-- A source falls into its preamble and parts, and each token is one of the parts. -/
theorem source_of_token {t : Text} {tokens : Array Token}
    (htokens : tokenize (Preamble.split t).rest = .ok tokens) {i : Nat} (hi : i < tokens.size) :
    ∃ front before p after, t = front ++ written before ++ p.text ++ written after ∧
      front.count '\n' = 0 ∧
      front.byteLength = (Preamble.split t).length + (bom (Preamble.split t).rest).byteLength ∧
      (Preamble.split t).rest = bom (Preamble.split t).rest ++ written (before ++ p :: after) ∧
      FallsInto (written (before ++ p :: after)) (before ++ p :: after) ∧
      p.lexeme? = some tokens[i].lexeme ∧
      (front ++ written before).byteLength = (Preamble.split t).length + tokens[i].lo ∧
      (front ++ written before ++ p.text).byteLength =
        (Preamble.split t).length + tokens[i].hi := by
  obtain ⟨parts, code, hcode, hparts, hextents⟩ := tokenize_parts htokens
  obtain ⟨front, ht, hcount, hlength⟩ := exists_front hcode
  obtain rfl := hparts.written_eq
  obtain ⟨before, p, after, rfl, hlexeme, hlo, hhi⟩ := part_of_token hextents hi
  have hfirst : (front ++ written before).byteLength =
      (Preamble.split t).length + tokens[i].lo := by
    rw [Text.byteLength_append, hlength, hlo, Nat.add_assoc]
  refine ⟨front, before, p, after, by rw [ht]; simp, hcount, hlength, hcode, hparts, hlexeme,
    hfirst, ?_⟩
  rw [Text.byteLength_append, hfirst, hhi, Nat.add_assoc]

theorem lo_lt_hi {t : Text} {tokens : Array Token} (h : tokenize t = .ok tokens) {i : Nat}
    (hi : i < tokens.size) : tokens[i].lo < tokens[i].hi := by
  obtain ⟨parts, rest, -, hparts, htokens⟩ := tokenize_parts h
  have hmem : tokens[i].extent ∈ tokens.toList.map Token.extent :=
    List.mem_map_of_mem (Array.getElem_mem_toList hi)
  rw [htokens] at hmem
  exact (hparts.extents_ordered _).1 _ hmem

theorem hi_le_lo {t : Text} {tokens : Array Token} (h : tokenize t = .ok tokens) {i j : Nat}
    (hij : i < j) (hj : j < tokens.size) : tokens[i].hi ≤ tokens[j].lo := by
  obtain ⟨parts, rest, -, hparts, htokens⟩ := tokenize_parts h
  have hordered := (hparts.extents_ordered (bom t).byteLength).2
  rw [← htokens, List.pairwise_map, List.pairwise_iff_getElem] at hordered
  exact hordered i j (by simpa using Nat.lt_trans hij hj) (by simpa using hj) hij

theorem lo_lt_hi_of_le {t : Text} {tokens : Array Token} (h : tokenize t = .ok tokens) {i j : Nat}
    (hij : i ≤ j) (hj : j < tokens.size) : tokens[i].lo < tokens[j].hi := by
  have := lo_lt_hi h hj
  rcases Nat.eq_or_lt_of_le hij with rfl | hij
  · exact this
  · have := lo_lt_hi h (Nat.lt_trans hij hj)
    have := hi_le_lo h hij hj
    omega

theorem firstByte_eq {tokens : Array Token} {i : Nat} (h : i < tokens.size) :
    firstByte tokens i = tokens[i].lo := by
  rw [firstByte, Array.getElem?_eq_getElem h]
  rfl

theorem lastByte_succ {tokens : Array Token} {i : Nat} (h : i < tokens.size) :
    lastByte tokens (i + 1) = tokens[i].hi := by
  rw [lastByte, Nat.add_sub_cancel, Array.getElem?_eq_getElem h]
  rfl

theorem firstByte_lt {t : Text} {tokens : Array Token} (h : tokenize t = .ok tokens) {i j : Nat}
    (hij : i < j) (hj : j < tokens.size) : firstByte tokens i < firstByte tokens j := by
  rw [firstByte_eq hj, firstByte_eq (Nat.lt_trans hij hj)]
  have := lo_lt_hi h (Nat.lt_trans hij hj)
  have := hi_le_lo h hij hj
  omega

theorem firstByte_lt_lastByte {t : Text} {tokens : Array Token} (h : tokenize t = .ok tokens)
    {i j : Nat} (hij : i < j) (hj : j ≤ tokens.size) : firstByte tokens i < lastByte tokens j := by
  obtain ⟨k, rfl⟩ : ∃ k, j = k + 1 := ⟨j - 1, by omega⟩
  rw [firstByte_eq (Nat.lt_of_lt_of_le hij hj), lastByte_succ hj]
  exact lo_lt_hi_of_le h (Nat.le_of_lt_succ hij) hj

theorem lastByte_le_firstByte {t : Text} {tokens : Array Token} (h : tokenize t = .ok tokens)
    {i j : Nat} (hi : 0 < i) (hij : i ≤ j) (hj : j < tokens.size) :
    lastByte tokens i ≤ firstByte tokens j := by
  obtain ⟨k, rfl⟩ : ∃ k, i = k + 1 := ⟨i - 1, by omega⟩
  rw [firstByte_eq hj, lastByte_succ (Nat.lt_of_le_of_lt (Nat.le_of_succ_le hij) hj)]
  exact hi_le_lo h hij hj

theorem lastByte_le_lastByte {t : Text} {tokens : Array Token} (h : tokenize t = .ok tokens)
    {i j : Nat} (hi : 0 < i) (hij : i ≤ j) (hj : j ≤ tokens.size) :
    lastByte tokens i ≤ lastByte tokens j := by
  rcases Nat.eq_or_lt_of_le hij with rfl | hij
  · exact Nat.le_refl _
  · have := lastByte_le_firstByte h hi (Nat.le_refl i) (Nat.lt_of_lt_of_le hij hj)
    have := firstByte_lt_lastByte h hij hj
    omega

/-- Of two closures one of which is listed first, neither begins where the other one does. -/
theorem ClosureRange.Precedes.start_ne {a b : ClosureRange} (h : a.Precedes b) :
    a.start ≠ b.start := by
  have := a.start_lt
  have := a.bodyStart_lt
  have := b.start_lt
  have := b.bodyStart_lt
  rcases h with h | h | h | h <;> omega

/-- A closure that is found is known by its first token. -/
theorem eq_of_start_eq {tokens : Array Token} {ranges : List ClosureRange}
    (h : closureRanges tokens = .ok ranges) {a b : ClosureRange} (ha : a ∈ ranges) (hb : b ∈ ranges)
    (hstart : a.start = b.start) : a = b := by
  have hprecedes := (closureRanges_ordered h).pairwise
  exact List.Pairwise.forall_of_forall_of_flip (R := fun a b => a.start = b.start → a = b)
    (fun _ _ _ => rfl) (hprecedes.imp fun hab he => absurd he hab.start_ne)
    (hprecedes.imp fun hab he => absurd he.symm hab.start_ne) ha hb hstart

theorem stop_le_size {tokens : Array Token} {ranges : List ClosureRange}
    (h : closureRanges tokens = .ok ranges) {range : ClosureRange} (hr : range ∈ ranges) :
    range.stop ≤ tokens.size :=
  ((closureRanges_ordered h).within range hr).2

theorem eq_of_offset_eq {t : Text} {tokens : Array Token} {ranges : List ClosureRange} {base : Nat}
    (htokens : tokenize t = .ok tokens) (hranges : closureRanges tokens = .ok ranges)
    {a b : ClosureRange} (ha : a ∈ ranges) (hb : b ∈ ranges)
    (hoffset : (closureAt base tokens a).offset = (closureAt base tokens b).offset) : a = b := by
  have hsize : ∀ c ∈ ranges, c.start < tokens.size := fun c hc =>
    Nat.lt_of_lt_of_le (Nat.lt_trans c.start_lt c.bodyStart_lt) (stop_le_size hranges hc)
  have hbyte : firstByte tokens a.start = firstByte tokens b.start := Nat.add_left_cancel hoffset
  refine eq_of_start_eq hranges ha hb ?_
  rcases Nat.lt_trichotomy a.start b.start with hlt | heq | hlt
  · exact absurd hbyte (Nat.ne_of_lt (firstByte_lt htokens hlt (hsize b hb)))
  · exact heq
  · exact absurd hbyte (Nat.ne_of_gt (firstByte_lt htokens hlt (hsize a ha)))

/-- A closure that the front end reports is known by its offset. -/
theorem closure_eq_of_offset_eq {t : Text} {closures : List Closure}
    (h : Rust.closures t = .ok closures) {c d : Closure} (hc : c ∈ closures) (hd : d ∈ closures)
    (hoffset : c.offset = d.offset) : c = d := by
  obtain ⟨tokens, ranges, htokens, hranges, rfl⟩ := closures_eq_ok_iff.mp h
  obtain ⟨a, ha, rfl⟩ := List.mem_map.mp hc
  obtain ⟨b, hb, rfl⟩ := List.mem_map.mp hd
  rw [eq_of_offset_eq htokens hranges ha hb hoffset]

end ClosureLint.Rust
