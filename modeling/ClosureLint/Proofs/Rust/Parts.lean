import ClosureLint.Rust.Lexer

/-! How a text falls into parts for the lexer: separators, which leave no token behind, and the
characters of tokens. The tokens of a text lie where their parts do, in the same order. -/

namespace ClosureLint.Rust

/-- A part of a text: some characters, and the lexeme that they make, unless they separate
tokens. -/
structure Part where
  text : Text
  lexeme? : Option Lexeme
  deriving DecidableEq, Repr

/-- What the lexer makes of the front of a text: a lexeme or nothing, and its characters. -/
def partAt? (t : Text) : Option (Option Lexeme × Nat) :=
  match separator? t with
  | some n => some (none, n)
  | none =>
    match doc? t with
    | some (inner, n) => some (some (.doc inner), n)
    | none =>
      match opens? t, closes? t with
      | some d, _ => some (some (.opening d), 1)
      | none, some d => some (some (.closing d), 1)
      | none, none => (leaf? t).map fun (lexeme, n) => (some lexeme, n)

inductive FallsInto : Text → List Part → Prop
  | nil : FallsInto [] []
  | cons {t : Text} {lexeme? : Option Lexeme} {n : Nat} {parts : List Part} :
    t ≠ [] → partAt? t = some (lexeme?, n) → FallsInto (t.drop n) parts →
    FallsInto t (⟨t.take n, lexeme?⟩ :: parts)

/-- A lexeme with the place of its token. -/
structure Extent where
  lexeme : Lexeme
  lo : Nat
  hi : Nat
  deriving DecidableEq, Repr

def Token.extent (token : Token) : Extent := ⟨token.lexeme, token.lo, token.hi⟩

/-- The places of the lexemes of some parts, the first of which begins at `offset`. -/
def extents : (offset : Nat) → List Part → List Extent
  | _, [] => []
  | offset, p :: parts =>
    (p.lexeme?.map (⟨·, offset, offset + p.text.byteLength⟩)).toList ++
      extents (offset + p.text.byteLength) parts

/-- The text that some parts make up. -/
def written (parts : List Part) : Text := parts.flatMap (·.text)

@[simp] theorem written_nil : written [] = [] := rfl

@[simp] theorem written_cons (p : Part) (parts : List Part) :
    written (p :: parts) = p.text ++ written parts := rfl

@[simp] theorem written_append (parts parts' : List Part) :
    written (parts ++ parts') = written parts ++ written parts' := List.flatMap_append

theorem FallsInto.written_eq {t : Text} {parts : List Part} (h : FallsInto t parts) :
    written parts = t := by
  induction h with
  | nil => rfl
  | cons _ _ _ ih => rw [written_cons, ih, List.take_append_drop]

theorem FallsInto.unique {t : Text} {parts parts' : List Part} (h : FallsInto t parts)
    (h' : FallsInto t parts') : parts = parts' := by
  induction h generalizing parts' with
  | nil =>
    cases h' with
    | nil => rfl
    | cons hne => exact absurd rfl hne
  | cons hne hpart _ ih =>
    cases h' with
    | nil => exact absurd rfl hne
    | cons _ hpart' hrest' =>
      obtain ⟨rfl, rfl⟩ := Prod.mk.inj (Option.some.inj (hpart.symm.trans hpart'))
      rw [ih hrest']

/-- The parts that a text falls into, at most so many. -/
def partsOf? : (fuel : Nat) → Text → Option (List Part)
  | _, [] => some []
  | 0, _ => none
  | fuel + 1, t => do
    let (lexeme?, n) ← partAt? t
    let parts ← partsOf? fuel (t.drop n)
    return ⟨t.take n, lexeme?⟩ :: parts

theorem fallsInto_of_partsOf? {fuel : Nat} {t : Text} {parts : List Part}
    (h : partsOf? fuel t = some parts) : FallsInto t parts := by
  fun_induction partsOf? fuel t generalizing parts with
  | case1 => cases h; exact .nil
  | case2 => cases h
  | case3 fuel t hne ih =>
    simp only [Option.bind_eq_bind, Option.bind_eq_some_iff] at h
    obtain ⟨⟨lexeme?, n⟩, hpart, rest, hrest, h⟩ := h
    cases h
    exact .cons (fun h => hne h) hpart (ih _ hrest)

/-- Every part is what the lexer makes of the text from there on. -/
theorem FallsInto.partAt {t : Text} {before after : List Part} {p : Part}
    (h : FallsInto t (before ++ p :: after)) :
    ∃ n, partAt? (p.text ++ written after) = some (p.lexeme?, n) := by
  induction before generalizing t with
  | nil =>
    cases h with
    | @cons _ _ n _ _ hpart hrest =>
      rw [hrest.written_eq, List.take_append_drop]
      exact ⟨n, hpart⟩
  | cons b before ih =>
    cases h with
    | cons _ _ hrest => exact ih hrest

namespace Lexer

/-- The places of the tokens that have been made. -/
def placed (s : Lexer) : List Extent := s.tokens.toList.map Token.extent

theorem placed_push (s : Lexer) (lexeme : Lexeme) (n : Nat) : (s.push lexeme n).placed =
    s.placed ++ [⟨lexeme, s.offset, s.offset + Text.byteLength (s.rest.take n)⟩] := by
  obtain ⟨rest, offset, tokens, unclosed⟩ := s
  simp [placed, push, Token.extent]

theorem map_extent_modify (tokens : Array Token) (index : Nat) (partner : Nat) :
    (tokens.modify index fun token => { token with partner := partner }).toList.map Token.extent =
      tokens.toList.map Token.extent := by
  apply List.ext_getElem?
  intro i
  rw [List.getElem?_map, List.getElem?_map, Array.getElem?_toList, Array.getElem?_toList,
    Array.getElem?_modify]
  split
  · cases tokens[i]? <;> rfl
  · rfl

/-- A step of the lexer takes the part at the front of what is left. -/
theorem step_part {s next : Lexer} (h : s.step = .ok next) :
    ∃ lexeme? n, partAt? s.rest = some (lexeme?, n) ∧ next.rest = s.rest.drop n ∧
      next.offset = s.offset + Text.byteLength (s.rest.take n) ∧
      next.placed = s.placed ++
        (lexeme?.map (⟨·, s.offset, s.offset + Text.byteLength (s.rest.take n)⟩)).toList := by
  have hpush : ∀ lexeme n, (s.push lexeme n).rest = s.rest.drop n ∧
      (s.push lexeme n).offset = s.offset + Text.byteLength (s.rest.take n) ∧
      (s.push lexeme n).placed =
        s.placed ++ [⟨lexeme, s.offset, s.offset + Text.byteLength (s.rest.take n)⟩] :=
    fun lexeme n => ⟨rfl, rfl, placed_push s lexeme n⟩
  rw [step] at h
  split at h
  next n hsep =>
    cases h
    refine ⟨none, n, by rw [partAt?, hsep], rfl, rfl, ?_⟩
    obtain ⟨rest, offset, tokens, unclosed⟩ := s
    simp [placed, skip]
  next hsep =>
    split at h
    next inner n hdoc =>
      cases h
      exact ⟨some (.doc inner), n, by rw [partAt?, hsep, hdoc], hpush (.doc inner) n⟩
    next hdoc =>
      split at h
      next _ _ d hopens =>
        cases h
        exact ⟨some (.opening d), 1, by rw [partAt?, hsep, hdoc, hopens], hpush (.opening d) 1⟩
      next d hopens hcloses =>
        refine ⟨some (.closing d), 1, by rw [partAt?, hsep, hdoc, hopens, hcloses], ?_⟩
        rw [leave] at h
        split at h
        · cases h
        next opened index outer hunclosed =>
          split at h
          · cases h
            refine ⟨(hpush (.closing d) 1).1, (hpush (.closing d) 1).2.1, ?_⟩
            rw [placed, map_extent_modify]
            exact placed_push s (.closing d) 1
          · cases h
      next hopens hcloses =>
        split at h
        next lexeme n hleaf =>
          cases h
          exact ⟨some lexeme, n, by rw [partAt?, hsep, hdoc, hopens, hcloses, hleaf]; rfl,
            hpush lexeme n⟩
        · cases h

theorem run_parts {fuel : Nat} {s : Lexer} {tokens : Array Token} (h : s.run fuel = .ok tokens) :
    ∃ parts, FallsInto s.rest parts ∧
      tokens.toList.map Token.extent = s.placed ++ extents s.offset parts := by
  induction fuel generalizing s with
  | zero => cases h
  | succ fuel ih =>
    rw [run] at h
    split at h
    next hempty =>
      split at h
      · cases h
        refine ⟨[], ?_, (List.append_nil _).symm⟩
        rw [List.isEmpty_iff.mp hempty]
        exact .nil
      · cases h
    next hempty =>
      split at h
      next next hstep =>
        obtain ⟨lexeme?, n, hpart, hrest, hoffset, hplaced⟩ := step_part hstep
        obtain ⟨parts, hparts, htokens⟩ := ih h
        rw [hrest] at hparts
        refine ⟨_, .cons (by simpa using hempty) hpart hparts, ?_⟩
        rw [htokens, hplaced, hoffset, List.append_assoc]
        rfl
      · cases h

end Lexer

/-- The byte order mark that the lexer skips at the front of a text. -/
def bom (t : Text) : Text := if t.head? = some '\ufeff' then ['\ufeff'] else []

/-- The tokens of a text lie where its parts do. -/
theorem tokenize_parts {t : Text} {tokens : Array Token} (h : tokenize t = .ok tokens) :
    ∃ parts rest, t = bom t ++ rest ∧ FallsInto rest parts ∧
      tokens.toList.map Token.extent = extents (bom t).byteLength parts := by
  unfold tokenize at h
  simp only at h
  split at h
  next rest =>
    obtain ⟨parts, hparts, htokens⟩ := Lexer.run_parts h
    exact ⟨parts, rest, rfl, hparts, htokens⟩
  next hbom =>
    have hnone : bom t = [] := by
      refine if_neg fun hhead => ?_
      obtain ⟨rest, rfl⟩ := List.head?_eq_some_iff.mp hhead
      exact hbom rest rfl
    obtain ⟨parts, hparts, htokens⟩ := Lexer.run_parts h
    exact ⟨parts, t, by rw [hnone]; rfl, hparts, by rw [hnone]; exact htokens⟩

end ClosureLint.Rust
