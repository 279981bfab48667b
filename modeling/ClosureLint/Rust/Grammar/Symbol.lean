import ClosureLint.Rust.Grammar.Basic

/-! How words and symbols begin and end. A symbol without a hash is no documentation, which counts
as the mark of an attribute. -/

namespace ClosureLint.Rust

namespace Parser

/-! ### Looking at tokens -/

instance still_position : position.Still := still_look _

instance still_atEnd : atEnd.Still := still_look _

instance still_symbolBehind (count : Nat) : (symbolBehind count).Still := still_look _

instance still_lexemeBehind (count : Nat) : (lexemeBehind count).Still := still_look _

instance still_symbolComes (count : Nat) (s : Text) : (symbolComes count s).Still := by
  unfold symbolComes
  infer_instance

instance still_comes (s : Text) : (comes s).Still := still_symbolComes 0 s

instance still_punctComes (c : Char) : (punctComes c).Still := still_comes [c]

instance still_comesAlone (s : Text) (others : List Text) : (comesAlone s others).Still := by
  unfold comesAlone
  infer_instance

instance still_wordBehind? (count : Nat) : (wordBehind? count).Still := by
  refine @Still.bind _ _ (lexemeBehind count) _ _ fun lexeme? => ?_
  split <;> infer_instance

instance still_wordComes (count : Nat) (w : Word) : (wordComes count w).Still := by
  unfold wordComes
  infer_instance

instance still_oneOf (words : List Word) : (oneOf words).Still := by
  unfold oneOf
  infer_instance

instance still_nameComes (count : Nat) : (nameComes count).Still := by
  unfold nameComes
  infer_instance

instance still_groupComes (count : Nat) (d : Delimiter) : (groupComes count d).Still := by
  unfold groupComes
  infer_instance

instance still_lifetimeComes (count : Nat) : (lifetimeComes count).Still := by
  unfold lifetimeComes
  infer_instance

instance still_literalComes : literalComes.Still := by
  refine @Still.bind _ _ (lexemeBehind 0) _ _ fun lexeme? => ?_
  split
  case h_4 =>
    refine @Still.bind _ _ (lexemeBehind 1) _ _ fun lexeme? => ?_
    split <;> infer_instance
  all_goals infer_instance

instance still_anyOf_nil : (anyOf []).Still := still_pure false

instance still_anyOf_cons {p : Parser Bool} {ps : List (Parser Bool)} [p.Still]
    [(anyOf ps).Still] : (anyOf (p :: ps)).Still := by
  unfold anyOf
  infer_instance

instance still_allOf_nil : (allOf []).Still := still_pure true

instance still_allOf_cons {p : Parser Bool} {ps : List (Parser Bool)} [p.Still]
    [(allOf ps).Still] : (allOf (p :: ps)).Still := by
  unfold allOf
  infer_instance

instance still_isNot {p : Parser Bool} [p.Still] : (isNot p).Still := by
  unfold isNot
  infer_instance

instance steady_onlyIf {c : Parser Bool} {p : Parser Unit} [c.Steady] [p.Steady] :
    (onlyIf c p).Steady := by
  unfold onlyIf
  infer_instance

/-! ### Reading tokens -/

theorem lt_trees {tokens : Array Token} {count pos stop : Nat} {r : Reading Unit} (hc : count ≠ 0)
    (h : (trees count).run tokens pos stop = .ok r) : pos < r.next := by
  obtain ⟨count, rfl⟩ := Nat.exists_eq_succ_of_ne_zero hc
  obtain ⟨a, b, ha, hb, rfl⟩ := run_bind h
  obtain ⟨hlt, rfl⟩ := run_tree ha
  exact Nat.lt_of_lt_of_le hlt ((trees count).sound hb).pos_le

theorem exists_of_lexemeAt {tokens : Array Token} {stop pos : Nat} {lexeme : Lexeme}
    (h : lexemeAt tokens stop pos = some lexeme) :
    ∃ token, tokens[pos]? = some token ∧ token.lexeme = lexeme := by
  unfold lexemeAt at h
  split at h
  · exact Option.map_eq_some_iff.mp h
  · cases h

/-- A character of a symbol is a token of its own, unless it is the hash that documentation counts
as. -/
theorem exists_punct_of_symbolAt {tokens : Array Token} {c : Char} {s : Text}
    {stop count pos : Nat} (hc : c ≠ '#')
    (h : (c :: s).isPrefixOf (symbolAt tokens stop (count + 1) pos) = true) :
    ∃ token d joint, tokens[pos]? = some token ∧ token.lexeme = .punct d joint ∧
      s.isPrefixOf (symbolAt tokens stop count (pos + 1)) = true := by
  unfold symbolAt at h
  split at h
  next d hlexeme =>
    obtain ⟨token, htoken, hpunct⟩ := exists_of_lexemeAt hlexeme
    exact ⟨token, d, true, htoken, hpunct, (Bool.and_eq_true_iff.mp h).2⟩
  next d hlexeme =>
    obtain ⟨token, htoken, hpunct⟩ := exists_of_lexemeAt hlexeme
    obtain rfl : s = [] := by simpa using (Bool.and_eq_true_iff.mp h).2
    exact ⟨token, d, false, htoken, hpunct, rfl⟩
  next => exact absurd (beq_iff_eq.mp (Bool.and_eq_true_iff.mp h).1) hc
  next => cases h

theorem treeEnd_of_punct {tokens : Array Token} {pos : Nat} {token : Token} {c : Char}
    {joint : Bool} (htoken : tokens[pos]? = some token) (hpunct : token.lexeme = .punct c joint) :
    treeEnd tokens pos = pos + 1 := by
  unfold treeEnd
  split
  next hopening =>
    rw [htoken] at hopening
    cases hopening
    cases hpunct
  next => rfl

/-- The tokens of a symbol without a hash are punctuation, and not documentation. -/
theorem firmAt_trees {tokens : Array Token} {s : Text} {count pos stop : Nat} {r : Reading Unit}
    (hhash : '#' ∉ s) (hs : s.isPrefixOf (symbolAt tokens stop count pos) = true)
    (hpos : s ≠ [] ∨ FirmAt tokens pos) (h : (trees s.length).run tokens pos stop = .ok r) :
    FirmAt tokens r.next := by
  induction s generalizing count pos r with
  | nil =>
    cases h
    exact hpos.resolve_left fun hne => hne rfl
  | cons c s ih =>
    obtain ⟨a, b, ha, hb, rfl⟩ := run_bind h
    obtain ⟨-, rfl⟩ := run_tree ha
    simp only [List.mem_cons, not_or] at hhash
    cases count with
    | zero => cases hs
    | succ count =>
      obtain ⟨token, d, joint, htoken, hpunct, hrest⟩ :=
        exists_punct_of_symbolAt (Ne.symm hhash.1) hs
      rw [treeEnd_of_punct htoken hpunct] at hb
      exact ih (r := b) hhash.2 hrest (.inr ⟨pos, rfl, token, htoken, by rw [hpunct]; rfl⟩) hb

theorem run_comes {tokens : Array Token} {pos stop : Nat} {s : Text} {r : Reading Bool}
    (h : (comes s).run tokens pos stop = .ok r) :
    r.value = s.isPrefixOf (symbolAt tokens stop symbolLength pos) ∧ r.next = pos := by
  obtain ⟨a, b, ha, hb, rfl⟩ := run_bind h
  cases ha
  cases hb
  exact ⟨rfl, rfl⟩

theorem run_symbol {tokens : Array Token} {pos stop : Nat} {s : Text} {r : Reading Unit}
    (h : (symbol s).run tokens pos stop = .ok r) :
    s.isPrefixOf (symbolAt tokens stop symbolLength pos) = true ∧
      ∃ b, (trees s.length).run tokens pos stop = .ok b ∧ r.next = b.next := by
  obtain ⟨a, b, ha, hb, rfl⟩ := run_bind h
  obtain ⟨hvalue, hnext⟩ := run_comes ha
  rw [hnext] at hb
  split at hb
  next hcomes => exact ⟨hvalue ▸ hcomes, b, hb, rfl⟩
  next => cases hb

theorem firm_symbol {s : Text} (hhash : '#' ∉ s) (hne : s ≠ []) : (symbol s).Firm := by
  constructor
  · intro tokens pos stop r h
    obtain ⟨-, b, hb, hnext⟩ := run_symbol h
    exact hnext ▸ lt_trees (fun h0 => hne (List.length_eq_zero_iff.mp h0)) hb
  · intro tokens pos stop r hm h
    obtain ⟨hcomes, b, hb, hnext⟩ := run_symbol h
    exact hnext ▸ firmAt_trees hhash hcomes (.inl hne) hb

theorem steady_symbol? {s : Text} (hhash : '#' ∉ s) : (symbol? s).Steady := by
  constructor
  intro tokens pos stop r hm h hpos
  obtain ⟨a, b, ha, hb, rfl⟩ := run_bind h
  obtain ⟨hvalue, hnext⟩ := run_comes ha
  rw [hnext] at hb
  split at hb
  next hcomes =>
    obtain ⟨c, d, hc, hd, rfl⟩ := run_bind hb
    cases hd
    exact firmAt_trees hhash (hvalue ▸ hcomes) (.inr hpos) hc
  next =>
    cases hb
    exact hpos

instance firm_word (w : Word) : (word w).Firm := firm_token fun _ => rfl

instance steady_word? (w : Word) : (word? w).Steady := by
  unfold word?
  infer_instance

instance firm_name : name.Firm := firm_token fun _ => rfl

instance firm_anyWord : anyWord.Firm := firm_token fun _ => rfl

instance firm_nameOr (words : List Word) : (nameOr words).Firm := firm_token fun _ => rfl

instance firm_lifetime : lifetime.Firm := firm_token fun _ => rfl

instance steady_lifetime? : lifetime?.Steady := by
  unfold lifetime?
  infer_instance

instance firm_literalToken : literalToken.Firm := firm_token fun _ => rfl

instance firm_literal : literal.Firm := by
  unfold literal
  infer_instance

theorem firmAt_group {tokens : Array Token} {pos stop : Nat} {d : Delimiter} {r : Reading Unit}
    (hm : Matched tokens) (hd : lexemeAt tokens stop pos = some (.opening d))
    (h : tree.run tokens pos stop = .ok r) : FirmAt tokens r.next := by
  obtain ⟨hlt, rfl⟩ := run_tree h
  obtain ⟨token, htoken, hopening⟩ := exists_of_lexemeAt hd
  exact firmAt_treeEnd hm htoken (by rw [hopening]; rfl) hlt

theorem firm_of_tree {α : Type} {p : Parser α}
    (h : ∀ {tokens pos stop r}, p.run tokens pos stop = .ok r →
      ∃ d b, lexemeAt tokens stop pos = some (.opening d) ∧ tree.run tokens pos stop = .ok b ∧
        r.next = b.next) : p.Firm := by
  constructor
  · intro tokens pos stop r hr
    obtain ⟨d, b, -, hb, hnext⟩ := h hr
    obtain ⟨hlt, rfl⟩ := run_tree hb
    exact hnext ▸ hlt
  · intro tokens pos stop r hm hr
    obtain ⟨d, b, hopening, hb, hnext⟩ := h hr
    exact hnext ▸ firmAt_group hm hopening hb

instance firm_anyGroup : anyGroup.Firm := by
  refine firm_of_tree fun {tokens pos stop r} h => ?_
  obtain ⟨a, b, ha, hb, rfl⟩ := run_bind h
  cases ha
  split at hb
  next d hd =>
    obtain ⟨c, e, hc, he, rfl⟩ := run_bind hb
    cases he
    exact ⟨d, c, hd, hc, rfl⟩
  next => cases hb

instance firm_rawGroup (d : Delimiter) : (rawGroup d).Firm := by
  refine firm_of_tree fun {tokens pos stop r} h => ?_
  obtain ⟨a, b, ha, hb, rfl⟩ := run_bind h
  obtain ⟨c, e, hc, he, rfl⟩ := run_bind ha
  cases hc
  cases he
  split at hb
  next hd => exact ⟨d, b, beq_iff_eq.mp hd, hb, rfl⟩
  next => cases hb

/-! ### Tokens without closures -/

instance quiet_trees (count : Nat) : (trees count).Quiet := by
  induction count with
  | zero => exact inferInstanceAs (pure () : Parser Unit).Quiet
  | succ count ih => exact inferInstanceAs (tree >>= fun _ => trees count).Quiet

instance quiet_symbol (s : Text) : (symbol s).Quiet := by
  unfold symbol
  infer_instance

instance quiet_punct (c : Char) : (punct c).Quiet := quiet_symbol [c]

instance quiet_word (w : Word) : (word w).Quiet := quiet_token _

instance quiet_word? (w : Word) : (word? w).Quiet := by
  unfold word?
  infer_instance

instance quiet_onlyIf {c : Parser Bool} {p : Parser Unit} [c.Quiet] [p.Quiet] :
    (onlyIf c p).Quiet := by
  unfold onlyIf
  infer_instance

end Parser

end ClosureLint.Rust
