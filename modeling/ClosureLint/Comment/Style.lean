import ClosureLint.Text

/-! The comment conventions of a language: as much of its lexical grammar as is needed to tell
comments from code. -/

namespace ClosureLint

/-- Comment markers and the literal forms in which such markers mean nothing. An empty marker
never occurs. -/
structure CommentStyle where
  /-- Opens a comment that ends with its line. -/
  line : Text
  blockOpen : Text
  blockClose : Text
  /-- An opener inside a block comment starts another one inside it. -/
  nestedBlocks : Bool
  /-- `r"..."` and `r#"..."#` are strings without escapes. -/
  rawStrings : Bool
  /-- `'x'` is a literal, as opposed to a lone quote. -/
  charLiterals : Bool
  deriving DecidableEq, Repr

def CommentStyle.rust : CommentStyle where
  line := ['/', '/']
  blockOpen := ['/', '*']
  blockClose := ['*', '/']
  nestedBlocks := true
  rawStrings := true
  charLiterals := true

end ClosureLint
