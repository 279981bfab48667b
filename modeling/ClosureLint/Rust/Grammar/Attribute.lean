import ClosureLint.Rust.Grammar.Symbol

/-! Attributes, and the plain paths that name them and name macros. Documentation stands for an
attribute. The value behind an equals sign is an expression; the tokens of any other argument
are kept unread. -/

namespace ClosureLint.Rust

open ClosureLint.Rust.Parser

def pathWords : List Word := [.kwSuper, .kwSelf, .kwSelfType, .kwCrate]

def pathWordComes : Parser Bool := do
  return (← wordBehind? 0).any fun w => w.isName || pathWords.contains w

def plainPath : Parser Unit := do
  discard (symbol? Symbol.path)
  unless ← pathWordComes do fail
  many do
    nameOr pathWords
    if ← symbol? Symbol.path then
      if ← pathWordComes then return true
      fail
    return false

def attributeContent (g : Grammar) : Parser Unit := do
  if ← wordComes 0 .kwUnsafe then word .kwUnsafe
  else plainPath
  match ← lexemeBehind 0 with
  | some (.opening _) => discard anyGroup
  | _ =>
    if ← punct? '=' then
      let lone ← ahead? do literal; atEnd
      if lone == some true then literal
      else if ← allOf [punctComes '#', groupComes 1 .bracket] then fail
      else discard (g.expr true)

/-- An attribute about what follows it. -/
def outerAttribute (g : Grammar) : Parser Unit := do
  match ← lexemeBehind 0 with
  | some (.doc false) => tree
  | some (.doc true) => fail
  | _ =>
    punct '#'
    group .bracket (attributeContent g)

def attributeComes : Parser Bool := punctComes '#'

instance still_attributeComes : attributeComes.Still := still_punctComes _

def outerAttributes (g : Grammar) : Parser Unit := many (onlyIf attributeComes (outerAttribute g))

/-- No closure begins with the mark of an attribute. -/
instance quiet_outerAttributes (g : Grammar) : (outerAttributes g).Quiet := by
  have : (outerAttribute g).Quiet := by
    refine @Quiet.bind _ _ (lexemeBehind 0) _ _ fun lexeme? => ?_
    split <;> infer_instance
  unfold outerAttributes
  infer_instance

def innerAttributeComes : Parser Bool := do
  match ← lexemeBehind 0 with
  | some (.doc inner) => return inner
  | _ => allOf [punctComes '#', symbolComes 1 ['!']]

/-- An attribute about what it stands in. -/
def innerAttribute (g : Grammar) : Parser Unit := do
  match ← lexemeBehind 0 with
  | some (.doc _) => tree
  | _ =>
    punct '#'
    punct '!'
    group .bracket (attributeContent g)

/-- Attributes about what they stand in; their closures come before all others in it. -/
def innerAttributes (g : Grammar) : Parser Unit :=
  asAttribute (many (onlyIf innerAttributeComes (innerAttribute g)))

end ClosureLint.Rust
