import ClosureLint.Proofs.Comment.Byte

/-! The lexical grammar that the pass follows under the conventions of Rust, as it shows in the
characters of a text: blanks, comments, literals and everything else. A text can be cut into pieces
of these kinds where each of them fits between what is before it and what is behind it. -/

namespace ClosureLint.Comment

def mayBeginRaw : (behind : Text) → Bool
  | [] => true
  | 'b' :: before => before.head?.all (!isWordChar ·)
  | previous :: _ => !isWordChar previous

/-- Some hashes and a quote. -/
def OpensRaw (t : Text) : Prop := ∃ hashes tail, t = List.replicate hashes '#' ++ '"' :: tail

/-- What follows a quote that begins a character literal: a character and a quote, or an escaped
character with a quote near behind it. -/
inductive OpensChar : Text → Prop
  | plain {c : Char} {tail : Text} : c ≠ '\'' → c ≠ '\\' → c ≠ '\n' → OpensChar (c :: '\'' :: tail)
  | escaped {tail : Text} : 0x27 ∈ (tail.utf8.drop 1).take escapeReach → OpensChar ('\\' :: tail)

/-- Whether a comment may begin with a text. -/
def opensComment (t : Text) : Bool := ['/', '/'].isPrefixOf t || ['/', '*'].isPrefixOf t

/-- Read from the left, a text closes its open block comments exactly at its end, the number of
which is given. -/
inductive Balanced : Nat → Text → Prop
  | nil : Balanced 0 []
  | opening {depth : Nat} {t : Text} :
    Balanced (depth + 2) t → Balanced (depth + 1) ('/' :: '*' :: t)
  | closing {depth : Nat} {t : Text} : Balanced depth t → Balanced (depth + 1) ('*' :: '/' :: t)
  | other {depth : Nat} {c : Char} {t : Text} :
    ['/', '*'].isPrefixOf (c :: t) = false → ['*', '/'].isPrefixOf (c :: t) = false →
    Balanced (depth + 1) t → Balanced (depth + 1) (c :: t)

/-- What may stand between the quotes of a string: characters, and pairs of a backslash and a
character. -/
inductive StringContent : Text → Prop
  | nil : StringContent []
  | plain {c : Char} {t : Text} :
    c ≠ '"' → c ≠ '\\' → StringContent t → StringContent (c :: t)
  | pair {c : Char} {t : Text} : StringContent t → StringContent ('\\' :: c :: t)

/-- A piece of a text. -/
inductive Piece where
  | blank (c : Char)
  /-- A comment up to the end of its line. -/
  | lineComment (content : Text)
  /-- A comment whose content ends with the closing marker. -/
  | blockComment (content : Text)
  | string (content : Text)
  | rawString (hashes : Nat) (content : Text)
  | char (c : Char)
  /-- A character literal of an escaped character, with what follows that up to the quote. -/
  | escapedChar (c : Char) (tail : Text)
  /-- Any other character. -/
  | code (c : Char)
  deriving DecidableEq, Repr

namespace Piece

def text : Piece → Text
  | .blank c => [c]
  | .lineComment content => '/' :: '/' :: content
  | .blockComment content => '/' :: '*' :: content
  | .string content => '"' :: (content ++ ['"'])
  | .rawString hashes content =>
    'r' :: (List.replicate hashes '#' ++ '"' :: (content ++ '"' :: List.replicate hashes '#'))
  | .char c => ['\'', c, '\'']
  | .escapedChar c tail => '\'' :: '\\' :: c :: (tail ++ ['\''])
  | .code c => [c]

def isComment : Piece → Bool
  | .lineComment _ | .blockComment _ => true
  | _ => false

/-- A character that no other piece begins with. -/
structure IsCode (behind : Text) (c : Char) (rest : Text) : Prop where
  not_blank : isBlankChar c = false
  not_string : c ≠ '"'
  not_comment : opensComment (c :: rest) = false
  not_raw : c = 'r' → mayBeginRaw behind = true → ¬ OpensRaw rest
  not_char : c = '\'' → ¬ OpensChar rest

/-- Whether a piece may stand between the characters `behind` it, nearest first, and the `rest` of
the text. -/
def Fits (behind rest : Text) : Piece → Prop
  | .blank c => isBlankChar c = true
  | .lineComment content => '\n' ∉ content ∧ (rest = [] ∨ rest.head? = some '\n')
  | .blockComment content => Balanced 1 content
  | .string content => StringContent content
  | .rawString hashes content =>
    mayBeginRaw behind = true ∧ ¬ '"' :: List.replicate hashes '#' <:+: content
  | .char c => c ≠ '\'' ∧ c ≠ '\\' ∧ c ≠ '\n'
  | .escapedChar c tail =>
    c.toNat < 0x80 ∧ c ≠ '\n' ∧ Text.byteLength tail ≤ 9 ∧ '\'' ∉ tail ∧ '\n' ∉ tail
  | .code c => IsCode behind c rest

def spell (pieces : List Piece) : Text := pieces.flatMap text

@[simp] theorem spell_nil : spell [] = [] := rfl

@[simp] theorem spell_cons (p : Piece) (ps : List Piece) : spell (p :: ps) = p.text ++ spell ps :=
  rfl

@[simp] theorem spell_append (ps qs : List Piece) : spell (ps ++ qs) = spell ps ++ spell qs :=
  List.flatMap_append

/-- Whether pieces may stand one behind the other between the characters `behind` them and the
`rest` of the text. -/
def FitAll (rest : Text) : (behind : Text) → List Piece → Prop
  | _, [] => True
  | behind, p :: ps =>
    p.Fits behind (spell ps ++ rest) ∧ FitAll rest (p.text.reverse ++ behind) ps

end Piece

end ClosureLint.Comment
