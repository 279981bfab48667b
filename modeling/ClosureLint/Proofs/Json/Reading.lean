import ClosureLint.Json
import ClosureLint.Toml.Lexical

/-! Reading JSON texts, as far as they hold values of the kinds that are printed: blanks may stand
around every part, a string may escape any character, and a number has no sign and no fraction. The
main statement is that a printed value is read back, whatever stands behind it. -/

namespace ClosureLint.Json

open Toml (Reader)

/-! ### The reader -/

def isSpace (c : Char) : Bool := c == ' ' || c == '\t' || c == '\n' || c == '\r'

def skipSpace (t : Text) : Text := t.dropWhile isSpace

/-- The character that a letter or a sign behind a backslash stands for. -/
def escaped? : Char → Option Char
  | '"' => some '"'
  | '\\' => some '\\'
  | '/' => some '/'
  | 'b' => some '\x08'
  | 'f' => some '\x0c'
  | 'n' => some '\n'
  | 'r' => some '\r'
  | 't' => some '\t'
  | _ => none

/-- The content of a string, from behind the opening quote on, and the text behind the closing
one. -/
def content? : Text → Option (Text × Text)
  | [] => none
  | '"' :: rest => some ([], rest)
  | '\\' :: 'u' :: a :: b :: c :: d :: rest => do
    let (code, _) ← Toml.hexChar 4 [a, b, c, d]
    let (content, rest) ← content? rest
    some (code :: content, rest)
  | '\\' :: e :: rest => do
    let c ← escaped? e
    let (content, rest) ← content? rest
    some (c :: content, rest)
  | c :: rest =>
    if c = '\\' ∨ c.toNat < 0x20 then none
    else do
      let (content, rest) ← content? rest
      some (c :: content, rest)

/-- A number without needless zeros. -/
def number? : Reader Nat := fun t =>
  let digits := t.takeWhile Char.isDigit
  if digits.isEmpty || digits.head? = some '0' && 1 < digits.length then none
  else some (Nat.ofDigitChars 10 digits 0, t.dropWhile Char.isDigit)

mutual

/-- A value; `fuel` bounds the characters that are read. -/
def value? : (fuel : Nat) → Reader Json
  | 0, _ => none
  | fuel + 1, t =>
    match t with
    | '"' :: rest => (content? rest).map fun (s, rest) => (.string (String.ofList s), rest)
    | '[' :: rest =>
      match skipSpace rest with
      | ']' :: rest => some (.array [], rest)
      | t => (items? fuel t).map fun (items, rest) => (.array items, rest)
    | '\x7b' :: rest =>
      match skipSpace rest with
      | '\x7d' :: rest => some (.object [], rest)
      | t => (entries? fuel t).map fun (entries, rest) => (.object entries, rest)
    | 't' :: 'r' :: 'u' :: 'e' :: rest => some (.boolean true, rest)
    | 'f' :: 'a' :: 'l' :: 's' :: 'e' :: rest => some (.boolean false, rest)
    | _ => (number? t).map fun (n, rest) => (.number n, rest)

/-- The items of an array, up to its closing bracket. -/
def items? : (fuel : Nat) → Reader (List Json)
  | 0, _ => none
  | fuel + 1, t => do
    let (item, rest) ← value? fuel t
    match skipSpace rest with
    | ',' :: rest => do
      let (items, rest) ← items? fuel (skipSpace rest)
      some (item :: items, rest)
    | ']' :: rest => some ([item], rest)
    | _ => none

/-- The entries of an object, up to its closing brace. -/
def entries? : (fuel : Nat) → Reader (List (String × Json))
  | 0, _ => none
  | fuel + 1, t =>
    match t with
    | '"' :: rest => do
      let (key, rest) ← content? rest
      match skipSpace rest with
      | ':' :: rest => do
        let (value, rest) ← value? fuel (skipSpace rest)
        match skipSpace rest with
        | ',' :: rest => do
          let (entries, rest) ← entries? fuel (skipSpace rest)
          some ((String.ofList key, value) :: entries, rest)
        | '\x7d' :: rest => some ([(String.ofList key, value)], rest)
        | _ => none
      | _ => none
    | _ => none

end

/-- The value that a text holds, if it holds one and nothing else. -/
def ofText? (t : Text) : Option Json := do
  let (value, rest) ← value? (t.length + 1) (skipSpace t)
  guard (skipSpace rest).isEmpty
  some value

/-! ### Strings -/

theorem hexChar_escape {c : Char} (hc : c.toNat < 0x20) :
    Toml.hexChar 4 ['0', '0', hexDigit (c.toNat / 16), hexDigit (c.toNat % 16)] = some (c, []) := by
  have hall : ∀ n < 0x20, Toml.hexChar 4 ['0', '0', hexDigit (n / 16), hexDigit (n % 16)] =
      some (Char.ofNat n, []) := by decide
  rw [hall c.toNat hc, Char.ofNat_toNat]

theorem content?_escape (c : Char) (t : Text) : content? (escape c ++ t) =
    (content? t).map fun (content, rest) => (c :: content, rest) := by
  have hbind : ∀ result : Option (Text × Text),
      (do let (content, rest) ← result; some (c :: content, rest)) =
        result.map fun (content, rest) => (c :: content, rest) := by
    intro result
    cases result <;> rfl
  unfold escape
  split
  iterate 7 simp [content?, escaped?, ← hbind]
  next hquote hbackslash _ _ _ _ _ =>
    split
    next hcontrol =>
      simp [content?, hexChar_escape hcontrol, ← hbind]
    next hcontrol =>
      rw [← hbind, List.singleton_append, content?, if_neg (not_or.mpr ⟨hbackslash, hcontrol⟩)]
      · exact hquote
      · exact fun _ _ _ _ _ h _ => hbackslash h
      · exact fun _ _ h _ => hbackslash h

theorem content?_quote (s : String) (rest : Text) :
    content? ((quote s).tail ++ rest) = some (s.toList, rest) := by
  have hescaped : ∀ t : Text, content? (t.flatMap escape ++ '"' :: rest) = some (t, rest) := by
    intro t
    induction t with
    | nil => simp [content?]
    | cons c t ih => rw [List.flatMap_cons, List.append_assoc, content?_escape, ih]; rfl
  simpa [quote] using hescaped s.toList

/-! ### Numbers -/

/-- The digits of a number do not begin with a zero, but for the number zero itself. -/
theorem head?_toDigits {n : Nat} (hn : n ≠ 0) : (Nat.toDigits 10 n).head? ≠ some '0' := by
  induction n using Nat.strongRecOn with
  | ind n ih =>
    rcases Nat.lt_or_ge n 10 with hsmall | hlarge
    · rw [Nat.toDigits_of_lt_base hsmall]
      have hdigit : ∀ n < 10, n ≠ 0 → [n.digitChar].head? ≠ some '0' := by decide
      exact hdigit n hsmall hn
    · rw [Nat.toDigits_of_base_le (by decide) hlarge, List.head?_append,
        List.head?_eq_some_head Nat.toDigits_ne_nil, Option.some_or,
        ← List.head?_eq_some_head]
      exact ih (n / 10) (by omega) (by omega)

theorem toList_toString (n : Nat) : (toString n).toList = Nat.toDigits 10 n := by
  rw [Nat.toString_eq_ofList_toDigits, String.toList_ofList]

theorem isDigit_of_mem_toString {n : Nat} {c : Char} (hc : c ∈ (toString n).toList) :
    c.isDigit = true := by
  rw [toList_toString] at hc
  exact Nat.isDigit_of_mem_toDigits (by decide) (by decide) hc

theorem exists_toDigits_eq_cons (n : Nat) :
    ∃ c t, Nat.toDigits 10 n = c :: t ∧ c.isDigit = true := by
  obtain ⟨c, t, hdigits⟩ := List.exists_cons_of_ne_nil (Nat.toDigits_ne_nil (b := 10) (n := n))
  exact ⟨c, t, hdigits, isDigit_of_mem_toString (n := n) (by simp [hdigits])⟩

/-- A number is read back if no digit stands behind it. -/
theorem number?_toString (n : Nat) {rest : Text} (hrest : rest.head?.all (!·.isDigit)) :
    number? ((toString n).toList ++ rest) = some (n, rest) := by
  have htake : ((toString n).toList ++ rest).takeWhile Char.isDigit = (toString n).toList := by
    rw [List.takeWhile_append_of_pos fun _ => isDigit_of_mem_toString]
    cases rest with
    | nil => simp
    | cons c rest => simp [by simpa using hrest]
  have hdrop : ((toString n).toList ++ rest).dropWhile Char.isDigit = rest := by
    rw [List.dropWhile_append_of_pos fun _ => isDigit_of_mem_toString]
    cases rest with
    | nil => rfl
    | cons c rest => simp [by simpa using hrest]
  have hzero : (Nat.toDigits 10 n).head? = some '0' → (Nat.toDigits 10 n).length ≤ 1 := by
    intro hhead
    rcases Nat.eq_zero_or_pos n with rfl | hn
    · decide
    · exact absurd hhead (head?_toDigits (Nat.ne_of_gt hn))
  rw [number?, htake, hdrop, toList_toString]
  simpa [Nat.toDigits_ne_nil, Nat.ofDigitChars_ten_toDigits] using hzero

/-! ### Blanks -/

theorem skipSpace_newline (level : Nat) (t : Text) :
    skipSpace (newline level ++ t) = skipSpace t := by
  refine List.dropWhile_append_of_pos fun c hc => ?_
  rcases List.mem_cons.mp hc with rfl | hc
  · rfl
  · rw [List.eq_of_mem_replicate hc]
    rfl

theorem skipSpace_cons {c : Char} (hc : isSpace c = false) (t : Text) :
    skipSpace (c :: t) = c :: t := by
  rw [skipSpace, List.dropWhile_cons, if_neg (by simp [hc])]

theorem isSpace_of_isDigit {c : Char} (hc : c.isDigit = true) : isSpace c = false := by
  refine Bool.eq_false_iff.mpr fun hspace => ?_
  simp only [isSpace, Bool.or_eq_true, beq_iff_eq] at hspace
  rcases hspace with ((rfl | rfl) | rfl) | rfl <;> simp at hc

/-- A printed value begins neither with a blank nor like the end of an array. -/
theorem exists_render_eq_cons (level : Nat) (v : Json) :
    ∃ c t, render level v = c :: t ∧ isSpace c = false ∧ c ≠ ']' := by
  cases v with
  | boolean b => cases b <;> exact ⟨_, _, rfl, rfl, by decide⟩
  | number n =>
    obtain ⟨c, t, hdigits, hc⟩ := exists_toDigits_eq_cons n
    refine ⟨c, t, by rw [render, toList_toString, hdigits], ?_, ?_⟩
    · exact isSpace_of_isDigit hc
    · rintro rfl
      simp at hc
  | string s => exact ⟨_, _, rfl, rfl, by decide⟩
  | array items => cases items <;> (rw [render]; exact ⟨_, _, rfl, rfl, by decide⟩)
  | object entries => cases entries <;> (rw [render]; exact ⟨_, _, rfl, rfl, by decide⟩)

/-! ### Values -/

theorem value?_of_isDigit {c : Char} (hc : c.isDigit = true) (fuel : Nat) (t : Text) :
    value? (fuel + 1) (c :: t) =
      (number? (c :: t)).map fun (n, rest) => (.number n, rest) := by
  rw [value?]
  all_goals
    intro rest h
    obtain ⟨rfl, -⟩ := List.cons.inj h
    simp at hc

theorem skipSpace_render (level : Nat) (v : Json) (t : Text) :
    skipSpace (render level v ++ t) = render level v ++ t := by
  obtain ⟨c, u, hv, hspace, -⟩ := exists_render_eq_cons level v
  rw [hv]
  exact skipSpace_cons hspace _

theorem renderEntry_append (level : Nat) (key : String) (value : Json) (t : Text) :
    renderEntry level (key, value) ++ t =
      '"' :: ((quote key).tail ++ (':' :: ' ' :: (render level value ++ t))) := by
  simp [renderEntry, quote]

theorem skipSpace_renderEntry (level : Nat) (entry : String × Json) (t : Text) :
    skipSpace (renderEntry level entry ++ t) = renderEntry level entry ++ t := by
  rw [renderEntry_append]
  exact skipSpace_cons rfl _

/-- With so much fuel, a printed value that is shorter is read back, and so is what stands between
the brackets of an array or the braces of an object. -/
structure Reads (fuel : Nat) : Prop where
  value (level : Nat) (v : Json) {rest : Text} (hrest : rest.head?.all (!·.isDigit))
    (hfuel : (render level v).length < fuel) :
    value? fuel (render level v ++ rest) = some (v, rest)
  items (level outer : Nat) (item : Json) (items : List Json) (rest : Text)
    (hfuel : (render level item ++ renderItems level items).length + 1 < fuel) :
    items? fuel (render level item ++ renderItems level items ++ newline outer ++ ']' :: rest) =
      some (item :: items, rest)
  entries (level outer : Nat) (entry : String × Json) (entries : List (String × Json))
    (rest : Text)
    (hfuel : (renderEntry level entry ++ renderEntries level entries).length + 1 < fuel) :
    entries? fuel (renderEntry level entry ++ renderEntries level entries ++ newline outer ++
      '\x7d' :: rest) = some (entry :: entries, rest)

theorem value?_array_step {fuel : Nat} (h : Reads fuel) (level : Nat) (items : List Json)
    (rest : Text) (hfuel : (render level (.array items)).length < fuel + 1) :
    value? (fuel + 1) (render level (.array items) ++ rest) = some (.array items, rest) := by
  cases items with
  | nil => simp [render, value?, skipSpace, isSpace]
  | cons item items =>
    simp only [render, List.length_append, List.length_cons, List.append_assoc] at hfuel
    have hitems := h.items (level + 1) level item items rest (by rw [List.length_append]; omega)
    simp only [render, List.cons_append, List.append_assoc] at hitems ⊢
    rw [value?, skipSpace_newline, skipSpace_render]
    split
    next hopens =>
      obtain ⟨c, t, hitem, -, hclose⟩ := exists_render_eq_cons (level + 1) item
      rw [hitem] at hopens
      exact absurd (List.cons.inj hopens).1 hclose
    next =>
      rw [List.nil_append, hitems]
      rfl

theorem value?_object_step {fuel : Nat} (h : Reads fuel) (level : Nat)
    (entries : List (String × Json)) (rest : Text)
    (hfuel : (render level (.object entries)).length < fuel + 1) :
    value? (fuel + 1) (render level (.object entries) ++ rest) = some (.object entries, rest) := by
  cases entries with
  | nil => simp [render, value?, skipSpace, isSpace]
  | cons entry entries =>
    simp only [render, List.length_append, List.length_cons, List.append_assoc] at hfuel
    have hentries := h.entries (level + 1) level entry entries rest
      (by rw [List.length_append]; omega)
    simp only [render, List.cons_append, List.append_assoc] at hentries ⊢
    rw [value?, skipSpace_newline, skipSpace_renderEntry]
    split
    next hopens =>
      rw [renderEntry_append] at hopens
      exact absurd (List.cons.inj hopens).1 (by decide)
    next =>
      rw [List.nil_append, hentries]
      rfl

theorem value?_step {fuel : Nat} (h : Reads fuel) (level : Nat) (v : Json) {rest : Text}
    (hrest : rest.head?.all (!·.isDigit)) (hfuel : (render level v).length < fuel + 1) :
    value? (fuel + 1) (render level v ++ rest) = some (v, rest) := by
  cases v with
  | boolean b => cases b <;> rfl
  | number n =>
    have hnumber := number?_toString n hrest
    obtain ⟨c, t, hdigits, hc⟩ := exists_toDigits_eq_cons n
    rw [render]
    rw [toList_toString, hdigits] at hnumber ⊢
    rw [List.cons_append, value?_of_isDigit hc, ← List.cons_append, hnumber]
    rfl
  | string s =>
    have hquote : render level (.string s) ++ rest = '"' :: ((quote s).tail ++ rest) := by
      simp [render, quote]
    rw [hquote, value?, content?_quote]
    simp
  | array items => exact value?_array_step h level items rest hfuel
  | object entries => exact value?_object_step h level entries rest hfuel

theorem items?_step {fuel : Nat} (h : Reads fuel) (level outer : Nat) (item : Json)
    (items : List Json) (rest : Text)
    (hfuel : (render level item ++ renderItems level items).length + 1 < fuel + 1) :
    items? (fuel + 1) (render level item ++ renderItems level items ++ newline outer ++
      ']' :: rest) = some (item :: items, rest) := by
  cases items with
  | nil =>
    simp only [renderItems, List.append_nil, List.append_assoc] at hfuel ⊢
    rw [items?, h.value level item (by rfl) (by omega)]
    simp only [bind, Option.bind_some]
    rw [skipSpace_newline, skipSpace_cons (by rfl)]
    rfl
  | cons next items =>
    simp only [renderItems, List.length_append, List.length_cons] at hfuel
    have hitems := h.items level outer next items rest (by rw [List.length_append]; omega)
    simp only [renderItems, List.cons_append, List.append_assoc] at hitems ⊢
    rw [items?, h.value level item (by rfl) (by omega)]
    simp only [bind, Option.bind_some]
    rw [skipSpace_cons (by rfl)]
    simp only [skipSpace_newline, skipSpace_render, hitems, Option.bind_some]

theorem entries?_renderEntry {fuel : Nat} (h : Reads fuel) (level : Nat) (entry : String × Json)
    {t : Text} (ht : t.head?.all (!·.isDigit))
    (hfuel : (renderEntry level entry).length < fuel + 1) :
    entries? (fuel + 1) (renderEntry level entry ++ t) =
      match skipSpace t with
      | ',' :: rest =>
        (entries? fuel (skipSpace rest)).map fun (entries, rest) => (entry :: entries, rest)
      | '\x7d' :: rest => some ([entry], rest)
      | _ => none := by
  obtain ⟨key, value⟩ := entry
  have hvalue := h.value level value ht (by simp [renderEntry] at hfuel; omega)
  have hspace : skipSpace (' ' :: (render level value ++ t)) = render level value ++ t :=
    skipSpace_render level value t
  rw [renderEntry_append, entries?, content?_quote]
  simp only [bind, Option.bind_some]
  rw [skipSpace_cons (by rfl)]
  simp only [hspace, hvalue, Option.bind_some, String.ofList_toList]
  split
  next rest _ => cases entries? fuel (skipSpace rest) <;> rfl
  next => rfl
  next => rfl

theorem entries?_step {fuel : Nat} (h : Reads fuel) (level outer : Nat) (entry : String × Json)
    (entries : List (String × Json)) (rest : Text)
    (hfuel : (renderEntry level entry ++ renderEntries level entries).length + 1 < fuel + 1) :
    entries? (fuel + 1) (renderEntry level entry ++ renderEntries level entries ++ newline outer ++
      '\x7d' :: rest) = some (entry :: entries, rest) := by
  cases entries with
  | nil =>
    simp only [renderEntries, List.append_nil, List.append_assoc] at hfuel ⊢
    rw [entries?_renderEntry h level entry (by rfl) (by omega), skipSpace_newline,
      skipSpace_cons (by rfl)]
    rfl
  | cons next entries =>
    simp only [renderEntries, List.length_append, List.length_cons] at hfuel
    have hentries := h.entries level outer next entries rest (by rw [List.length_append]; omega)
    simp only [renderEntries, List.cons_append, List.append_assoc] at hentries ⊢
    rw [entries?_renderEntry h level entry (by rfl) (by omega), skipSpace_cons (by rfl)]
    simp only [skipSpace_newline, skipSpace_renderEntry, hentries, Option.map_some]

theorem reads (fuel : Nat) : Reads fuel := by
  induction fuel with
  | zero => exact ⟨nofun, nofun, nofun⟩
  | succ fuel ih => exact ⟨value?_step ih, items?_step ih, entries?_step ih⟩

/-- A printed value is read back. -/
theorem ofText?_render (v : Json) : ofText? (render 0 v) = some v := by
  obtain ⟨c, t, hcons, hspace, -⟩ := exists_render_eq_cons 0 v
  have hskip : skipSpace (render 0 v) = render 0 v := by
    rw [hcons]
    exact skipSpace_cons hspace t
  have hvalue : value? ((render 0 v).length + 1) (render 0 v ++ []) = some (v, []) :=
    (reads _).value 0 v (by rfl) (Nat.lt_succ_self _)
  rw [List.append_nil] at hvalue
  rw [ofText?, hskip, hvalue]
  rfl

end ClosureLint.Json
