import ClosureLint.Text

/-! The words of Rust, told apart as far as the grammar asks: keywords, words that are keywords in
some places only, and all others. -/

namespace ClosureLint.Rust

inductive Word where
  | kwAs
  | kwAsync
  | kwAuto
  | kwAwait
  | kwBecome
  | kwBox
  | kwBreak
  | kwBuiltin
  | kwConst
  | kwContinue
  | kwCrate
  | kwDefault
  | kwDyn
  | kwElse
  | kwEnum
  | kwExtern
  | kwFalse
  | kwFn
  | kwFor
  | kwIf
  | kwImpl
  | kwIn
  | kwLet
  | kwLoop
  | kwMacro
  | kwMatch
  | kwMod
  | kwMove
  | kwMut
  | kwPub
  | kwRaw
  | kwRef
  | kwReturn
  | kwSafe
  | kwSelf
  | kwStatic
  | kwStruct
  | kwSuper
  | kwTrait
  | kwTrue
  | kwTry
  | kwType
  | kwUnion
  | kwUnsafe
  | kwUse
  | kwWhere
  | kwWhile
  | kwYield
  /-- `Self`, the type. -/
  | kwSelfType
  /-- A lone underscore. -/
  | underscore
  /-- A keyword without a meaning in the grammar. -/
  | reserved
  | other
  deriving DecidableEq, Repr

namespace Word

/-- The words with a meaning of their own. -/
def table : List (Text × Word) :=
  [(['a', 's'], .kwAs), (['a', 's', 'y', 'n', 'c'], .kwAsync), (['a', 'u', 't', 'o'], .kwAuto),
    (['a', 'w', 'a', 'i', 't'], .kwAwait), (['b', 'e', 'c', 'o', 'm', 'e'], .kwBecome),
    (['b', 'o', 'x'], .kwBox), (['b', 'r', 'e', 'a', 'k'], .kwBreak),
    (['b', 'u', 'i', 'l', 't', 'i', 'n'], .kwBuiltin), (['c', 'o', 'n', 's', 't'], .kwConst),
    (['c', 'o', 'n', 't', 'i', 'n', 'u', 'e'], .kwContinue),
    (['c', 'r', 'a', 't', 'e'], .kwCrate), (['d', 'e', 'f', 'a', 'u', 'l', 't'], .kwDefault),
    (['d', 'y', 'n'], .kwDyn), (['e', 'l', 's', 'e'], .kwElse), (['e', 'n', 'u', 'm'], .kwEnum),
    (['e', 'x', 't', 'e', 'r', 'n'], .kwExtern), (['f', 'a', 'l', 's', 'e'], .kwFalse),
    (['f', 'n'], .kwFn), (['f', 'o', 'r'], .kwFor), (['i', 'f'], .kwIf),
    (['i', 'm', 'p', 'l'], .kwImpl), (['i', 'n'], .kwIn), (['l', 'e', 't'], .kwLet),
    (['l', 'o', 'o', 'p'], .kwLoop), (['m', 'a', 'c', 'r', 'o'], .kwMacro),
    (['m', 'a', 't', 'c', 'h'], .kwMatch), (['m', 'o', 'd'], .kwMod),
    (['m', 'o', 'v', 'e'], .kwMove), (['m', 'u', 't'], .kwMut), (['p', 'u', 'b'], .kwPub),
    (['r', 'a', 'w'], .kwRaw), (['r', 'e', 'f'], .kwRef),
    (['r', 'e', 't', 'u', 'r', 'n'], .kwReturn), (['s', 'a', 'f', 'e'], .kwSafe),
    (['s', 'e', 'l', 'f'], .kwSelf), (['s', 't', 'a', 't', 'i', 'c'], .kwStatic),
    (['s', 't', 'r', 'u', 'c', 't'], .kwStruct), (['s', 'u', 'p', 'e', 'r'], .kwSuper),
    (['t', 'r', 'a', 'i', 't'], .kwTrait), (['t', 'r', 'u', 'e'], .kwTrue),
    (['t', 'r', 'y'], .kwTry), (['t', 'y', 'p', 'e'], .kwType),
    (['u', 'n', 'i', 'o', 'n'], .kwUnion), (['u', 'n', 's', 'a', 'f', 'e'], .kwUnsafe),
    (['u', 's', 'e'], .kwUse), (['w', 'h', 'e', 'r', 'e'], .kwWhere),
    (['w', 'h', 'i', 'l', 'e'], .kwWhile), (['y', 'i', 'e', 'l', 'd'], .kwYield),
    (['S', 'e', 'l', 'f'], .kwSelfType), (['_'], .underscore),
    (['a', 'b', 's', 't', 'r', 'a', 'c', 't'], .reserved), (['d', 'o'], .reserved),
    (['f', 'i', 'n', 'a', 'l'], .reserved),
    (['o', 'v', 'e', 'r', 'r', 'i', 'd', 'e'], .reserved), (['p', 'r', 'i', 'v'], .reserved),
    (['t', 'y', 'p', 'e', 'o', 'f'], .reserved),
    (['u', 'n', 's', 'i', 'z', 'e', 'd'], .reserved),
    (['v', 'i', 'r', 't', 'u', 'a', 'l'], .reserved)]

def ofText (t : Text) : Word := (table.lookup t).getD .other

def isName : Word → Bool
  | .kwAuto | .kwBuiltin | .kwDefault | .kwRaw | .kwSafe | .kwUnion | .other => true
  | _ => false

end Word

end ClosureLint.Rust
