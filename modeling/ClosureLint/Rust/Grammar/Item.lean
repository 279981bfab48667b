import ClosureLint.Rust.Grammar.Generics

/-! Items and the parts of items. What the grammar accepts but has no name for, such as a function
without a body outside a trait, is kept unread as a whole. The parsers for such things tell whether
that is so. -/

namespace ClosureLint.Rust

open ClosureLint.Rust.Parser

variable (g : Grammar)

/-! ### What items have in common -/

/-- An item, or a part of one, behind its attributes; `rest` tells whether all of it is kept
unread. -/
def behindAttributes (rest : Parser Bool) : Parser Unit :=
  discard <| attributed (outerAttributes g) (construct (unseenIf id rest)) .ofUnread

/-- The place that something is visible in, in parentheses. -/
def visiblePlace : Parser Unit := do
  if ← oneOf [.kwCrate, .kwSelf, .kwSuper] then
    anyWord
    unless ← atEnd do fail
  else
    word .kwIn
    plainPath

/-- Whether the place that something is visible in comes next. What is in the parentheses may be
a field of its own instead, unless it begins with `in`. -/
def visiblePlaceComes : Parser Bool := do
  let isPlace ← ahead? do
    group .parenthesis do
      if ← wordComes 0 .kwIn then trees 1
      else visiblePlace
  return isPlace.isSome

/-- The visibility of an item; tells whether it is given. -/
def visibility : Parser Bool :=
  onlyIf (wordComes 0 .kwPub) do
    word .kwPub
    if ← visiblePlaceComes then group .parenthesis visiblePlace

/-- A type behind an equals sign, if there is one; tells whether. -/
def definition? : Parser Bool :=
  onlyIf (punctComes '=') do
    punct '='
    discard (g.type true)

def value? : Parser Bool :=
  onlyIf (punctComes '=') do
    punct '='
    discard (g.expr true)

/-- The call of a macro in the place of an item. A name may stand behind the exclamation mark where
`named` says so. -/
def macroItem (named : Bool) : Parser Unit := do
  unless ← anyOf [nameComes 0, oneOf [.kwSelf, .kwSuper, .kwCrate], comes Symbol.path] do fail
  plainPath
  punct '!'
  if named && (← anyOf [nameComes 0, wordComes 0 .kwTry]) then anyWord
  unless (← anyGroup) = .brace do punct ';'

/-- A block of items or members behind its attributes. -/
def members (member : Parser Unit) : Parser Unit :=
  group .brace do
    innerAttributes g
    toEnd member

/-- A constant from its keyword on. It is kept unread with generic parameters or conditions, or
without a value where one is required. -/
def constantRest (required : Bool) : Parser Bool := do
  word .kwConst
  nameOr [.underscore]
  let generic ← generics? g
  punct ':'
  discard (g.type true)
  let valued ← value? g
  let conditional ← conditions? g
  punct ';'
  return generic || conditional || (required && !valued)

structure TypeParts where
  bounds : Bool
  definition : Bool

/-- A type from its keyword on. Conditions may stand on one side of the definition or on either,
but on one only. -/
def typeRest (before behind : Bool) : Parser TypeParts := do
  word .kwType
  name
  discard (generics? g)
  let bounds ← bounds? g (anyOf [wordComes 0 .kwWhere, punctComes '=', punctComes ';'])
  let conditional ← if before then conditions? g else pure false
  let definition ← definition? g
  if behind && !conditional then discard (conditions? g)
  punct ';'
  return ⟨bounds, definition⟩

def TypeParts.isAlias (parts : TypeParts) : Bool := parts.definition && !parts.bounds

/-! ### Functions and values -/

/-- A function; it is kept unread without a body. -/
def functionItem : Parser Bool := do
  discard (functionHead g false)
  if ← punct? ';' then return true
  attributedBlock g
  return false

/-- A static variable from its keyword on; it is kept unread without a type or without a value. -/
def staticItem : Parser Bool := do
  word .kwStatic
  discard (word? .kwMut)
  name
  if ← punctComes '=' then
    discard (value? g)
    punct ';'
    return true
  punct ':'
  discard (g.type true)
  if ← punct? ';' then return true
  punct '='
  discard (g.expr true)
  punct ';'
  return false

/-! ### Structs, enums and unions -/

/-- The type of a field without a name: one that is declared on the spot, which is kept unread, or
any other. -/
def unnamedFieldType : Parser Unit := do
  if ← anyOf [wordComes 0 .kwStruct, allOf [wordComes 0 .kwUnion, groupComes 1 .brace]] then
    unseenIf (fun _ => true) do
      anyWord
      group .brace g.fields
  else discard (g.type true)

def namedField : Parser Unit := do
  outerAttributes g
  discard visibility
  if ← word? .underscore then
    punct ':'
    unnamedFieldType g
  else
    name
    punct ':'
    discard (g.type true)

def fields : Parser Unit := commaList (namedField g)

/-- The fields of a struct without names, in parentheses. -/
def tupleFields : Parser Unit :=
  group .parenthesis <| commaList do
    outerAttributes g
    discard visibility
    discard (g.type true)

def structItem : Parser Unit := do
  word .kwStruct
  name
  discard (generics? g)
  let conditional ← conditions? g
  if !conditional && (← groupComes 0 .parenthesis) then
    tupleFields g
    discard (conditions? g)
    punct ';'
  else if ← groupComes 0 .brace then group .brace (fields g)
  else punct ';'

def variant : Parser Unit := do
  outerAttributes g
  discard visibility
  name
  if ← groupComes 0 .brace then group .brace (fields g)
  else if ← groupComes 0 .parenthesis then tupleFields g
  discard (value? g)

def enumItem : Parser Unit := do
  word .kwEnum
  name
  discard (generics? g)
  discard (conditions? g)
  group .brace (commaList (variant g))

def unionItem : Parser Unit := do
  word .kwUnion
  name
  discard (generics? g)
  discard (conditions? g)
  group .brace (fields g)

/-! ### Traits -/

def traitFunction : Parser Unit := do
  discard (functionHead g false)
  if ← groupComes 0 .brace then attributedBlock g
  else punct ';'

def traitMemberRest (marked : Bool) : Parser Bool := do
  if ← functionComes false then
    traitFunction g
    return false
  else if ← wordComes 0 .kwConst then
    if ← anyOf [wordComes 1 .kwAsync, wordComes 1 .kwUnsafe, wordComes 1 .kwExtern] then
      traitFunction g
      return false
    else constantRest g false
  else if ← wordComes 0 .kwType then
    discard (typeRest g false true)
    return false
  else if marked then fail
  else
    macroItem false
    return false

/-- A member of a trait. It is kept unread with a visibility or as a default. -/
def traitMember : Parser Unit :=
  behindAttributes g do
    let visible ← visibility
    let marked := (← word? .kwDefault) || visible
    return (← traitMemberRest g marked) || marked

/-- What follows the name and the generic parameters of a trait. -/
def traitRest : Parser Unit := do
  discard (bounds? g (anyOf [wordComes 0 .kwWhere, groupComes 0 .brace]))
  discard (conditions? g)
  members g (traitMember g)

def traitItem : Parser Unit := do
  discard (word? .kwUnsafe)
  discard (word? .kwAuto)
  word .kwTrait
  name
  discard (generics? g)
  traitRest g

/-- A trait, or a name for several bounds, from its keyword on. -/
def traitOrAlias : Parser Unit := do
  word .kwTrait
  name
  discard (generics? g)
  if ← anyOf [groupComes 0 .brace, punctComes ':', wordComes 0 .kwWhere] then traitRest g
  else
    punct '='
    sum (anyOf [wordComes 0 .kwWhere, punctComes ';']) (discard (g.bound false false))
    discard (conditions? g)
    punct ';'

/-! ### Implementations -/

def implMember : Parser Unit :=
  behindAttributes g do
    let visible ← visibility
    let marked ← onlyIf (allOf [wordComes 0 .kwDefault, isNot (symbolComes 1 ['!'])])
      (word .kwDefault)
    if ← functionComes false then functionItem g
    else if ← wordComes 0 .kwConst then constantRest g true
    else if ← wordComes 0 .kwType then return !(← typeRest g false true).isAlias
    else if visible || marked then fail
    else
      macroItem false
      return false

/-- Whether generic parameters come next and not a type in angle brackets. -/
def implGenericsCome : Parser Bool := do
  let behind ← symbolBehind 2
  let listed := [['>'], [','], ['=']].any (·.isPrefixOf behind) ||
    ([':'].isPrefixOf behind && !Symbol.path.isPrefixOf behind)
  allOf [punctComes '<',
    anyOf [symbolComes 1 ['>'], symbolComes 1 ['#'], wordComes 1 .kwConst,
      allOf [anyOf [lifetimeComes 1, nameComes 1], pure listed]]]

/-- An implementation from its first keyword on. It is kept unread if it is constant or if its trait
is no path. -/
def implItem : Parser Bool := do
  discard (word? .kwDefault)
  discard (word? .kwUnsafe)
  word .kwImpl
  if ← implGenericsCome then discard (generics? g)
  let isConst ← anyOf [wordComes 0 .kwConst, allOf [punctComes '?', wordComes 1 .kwConst]]
  if isConst then
    discard (punct? '?')
    word .kwConst
  let start ← position
  let negative ← onlyIf (allOf [punctComes '!', isNot (groupComes 1 .brace)]) (punct '!')
  let shape ← g.type true
  let forType ← word? .kwFor
  if forType then discard (g.type true)
  else if negative then failAt start
  discard (conditions? g)
  members g (implMember g)
  let isPath := match shape with
    | .path qualified _ => !qualified
    | _ => false
  return isConst || (forType && !isPath)

/-! ### Foreign items -/

/-- A function of a foreign module. It is kept unread if it is marked as safe or has a body. -/
def foreignFunction : Parser Bool := do
  let isSafe ← functionHead g true
  if ← groupComes 0 .brace then
    attributedBlock g
    return true
  punct ';'
  return isSafe

/-- A static variable of a foreign module. It is kept unread with a mark of its safety or with a
value. -/
def foreignStatic : Parser Bool := do
  let isUnsafe ← word? .kwUnsafe
  let isSafe ← if isUnsafe then pure false else word? .kwSafe
  word .kwStatic
  discard (word? .kwMut)
  name
  punct ':'
  discard (g.type true)
  let valued ← value? g
  punct ';'
  return isUnsafe || isSafe || valued

def foreignMember : Parser Unit :=
  behindAttributes g do
    let visible ← visibility
    if ← functionComes true then foreignFunction g
    else if ← anyOf [wordComes 0 .kwStatic,
        allOf [oneOf [.kwUnsafe, .kwSafe], wordComes 1 .kwStatic]] then foreignStatic g
    else if ← wordComes 0 .kwType then
      let parts ← typeRest g true true
      return parts.bounds || parts.definition
    else if visible then fail
    else
      macroItem false
      return false

/-- A foreign module from its first keyword on. It has no visibility of its own. -/
def foreignModule (start : Nat) (visible : Bool) : Parser Unit := do
  if visible then failAt start
  discard (word? .kwUnsafe)
  abi
  members g (foreignMember g)

/-! ### Modules and imports -/

def moduleItem : Parser Unit := do
  discard (word? .kwUnsafe)
  word .kwMod
  nameOr [.kwTry]
  if ← groupComes 0 .brace then members g g.item
  else punct ';'

/-- An external crate, or a foreign module. -/
def externItem (start : Nat) (visible : Bool) : Parser Unit := do
  let named := (← lexemeBehind 1) == some (.literal .string)
  if ← wordComes 1 .kwCrate then
    word .kwExtern
    word .kwCrate
    nameOr [.kwSelf]
    if ← word? .kwAs then nameOr [.underscore]
    punct ';'
  else if ← groupComes (if named then 2 else 1) .brace then foreignModule g start visible
  else
    abi
    fail

/-- The trees of an import in braces. Where `rooted` allows it, they may begin at the root of all
crates; then the import is kept unread. -/
def useTrees (rooted : Bool) : Parser Bool :=
  loop false fun unread => do
    if ← atEnd then return .inr unread
    let root ← if rooted then symbol? Symbol.path else pure false
    let unread := (← g.useTree (rooted && !root)) || root || unread
    if ← atEnd then return .inr unread
    punct ','
    return .inl unread

def useTree (rooted : Bool) : Parser Bool := do
  if ← punct? '*' then return false
  if ← groupComes 0 .brace then group .brace (useTrees g rooted)
  else
    nameOr [.kwSelf, .kwSuper, .kwCrate, .kwTry]
    if ← symbol? Symbol.path then g.useTree false
    else
      if ← word? .kwAs then nameOr [.underscore]
      return false

def useItem : Parser Bool := do
  word .kwUse
  let root ← symbol? Symbol.path
  let unread ← g.useTree (!root)
  punct ';'
  return unread

/-- The definition of a macro, which is kept unread. -/
def macroDefinition : Parser Unit := do
  word .kwMacro
  name
  if ← groupComes 0 .parenthesis then rawGroup .parenthesis
  rawGroup .brace

/-! ### Items -/

/-- What is not safe as a whole: a trait, an implementation, a foreign module or a module. -/
def unsafeItem (start : Nat) (visible : Bool) : Parser Bool := do
  if ← anyOf [wordComes 1 .kwTrait, allOf [wordComes 1 .kwAuto, wordComes 2 .kwTrait]] then
    traitItem g
    return false
  else if ← wordComes 1 .kwImpl then return (← implItem g) || visible
  else if ← wordComes 1 .kwExtern then
    foreignModule g start visible
    return false
  else if ← wordComes 1 .kwMod then
    moduleItem g
    return false
  else
    word .kwUnsafe
    fail

/-- An item that begins with a word that is a keyword in some places only, or a macro call. -/
def otherItem (visible : Bool) : Parser Bool := do
  if ← allOf [wordComes 0 .kwUnion, nameComes 1] then
    unionItem g
    return false
  else if ← allOf [wordComes 0 .kwAuto, wordComes 1 .kwTrait] then
    traitItem g
    return false
  else if ← allOf [wordComes 0 .kwDefault, isNot (symbolComes 1 ['!'])] then
    return (← implItem g) || visible
  else if visible then fail
  else
    macroItem true
    return false

/-- Reads something that is never kept unread. -/
def neverUnread (p : Parser Unit) : Parser Bool := do
  p
  return false

/-- An item behind its attributes; tells whether it is kept unread. -/
def itemRest : Parser Bool := do
  let start ← position
  let visible ← visibility
  if ← functionComes false then functionItem g
  else
    match ← wordBehind? 0 with
    | some .kwExtern => neverUnread (externItem g start visible)
    | some .kwUse => useItem g
    | some .kwStatic => staticItem g
    | some .kwConst => constantRest g true
    | some .kwUnsafe => unsafeItem g start visible
    | some .kwMod => neverUnread (moduleItem g)
    | some .kwType => return !(← typeRest g true false).isAlias
    | some .kwStruct => neverUnread (structItem g)
    | some .kwEnum => neverUnread (enumItem g)
    | some .kwTrait => neverUnread (traitOrAlias g)
    | some .kwImpl => return (← implItem g) || visible
    | some .kwMacro =>
      macroDefinition
      return true
    | _ => otherItem g visible

def item : Parser Unit := behindAttributes g (itemRest g)

end ClosureLint.Rust
