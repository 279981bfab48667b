import ClosureLint.Rust.Grammar.Expr

/-! Where expressions end. The last token of an expression is no documentation, since documentation
stands for an attribute, and behind an attribute there is always something that it belongs to. -/

namespace ClosureLint.Rust

-- A production is one instance, made of those of all its parts.
set_option synthInstance.maxSize 1000

open ClosureLint.Rust.Parser

variable (g : Grammar)

/-! ### Paths -/

instance steady_pathSymbol? : (symbol? Symbol.path).Steady := steady_symbol? (by decide)

instance firm_closingAngle : (punct '>').Firm := firm_symbol (by decide) (by decide)

instance firm_angleArguments : (angleArguments g).Firm := by
  unfold angleArguments
  infer_instance

instance firm_pathSegment (inExpr : Bool) : (pathSegment g inExpr).Firm := by
  unfold pathSegment
  infer_instance

instance firm_pathSegments (inExpr : Bool) (more : Parser Bool) [more.Steady] (before : PathShape) :
    (pathSegments g inExpr more before).Firm := by
  unfold pathSegments
  infer_instance

instance steady_nextSegment : nextSegment.Steady := by
  unfold nextSegment
  infer_instance

instance firm_path (inExpr : Bool) : (path g inExpr).Firm := by
  unfold path
  infer_instance

instance firm_qualifiedPath (inExpr : Bool) : (qualifiedPath g inExpr).Firm := by
  unfold qualifiedPath
  dsimp only
  infer_instance

instance steady_macroCall? (shape : PathShape) : (macroCall? shape).Steady := by
  unfold macroCall? bangComes
  infer_instance

instance firm_callArguments : (callArguments g).Firm := by
  refine @Firm.behind _ _ _ _ fun _ => @Firm.bind _ _ _ _ (firm_group ..) fun _ =>
    @Steady.bind _ _ _ _ (steady_returnType? g false) fun shape? => ?_
  split <;> infer_instance

instance still_callArgumentsCome : callArgumentsCome.Still := by
  unfold callArgumentsCome
  infer_instance

/-! ### Types -/

instance firm_captureList : captureList.Firm := by
  unfold captureList
  infer_instance

instance firm_traitBound (constants : Bool) : (traitBound g constants).Firm := by
  unfold traitBound
  dsimp only
  infer_instance

theorem firm_bound (captures constants : Bool) : (bound g captures constants).Firm := by
  unfold bound
  dsimp only
  infer_instance

instance steady_plus? : (punct? '+').Steady := steady_symbol? (by decide)

instance still_boundComes (constants : Bool) : (boundComes constants).Still := by
  refine @Still.bind _ _ (lexemeBehind 0) _ _ fun lexeme? => ?_
  split <;> infer_instance

instance steady_moreBounds (captures constants found : Bool) :
    (moreBounds g captures constants found).Steady := by
  unfold moreBounds
  infer_instance

instance firm_objectBounds (start : Nat) (sums captures constants : Bool) :
    (objectBounds g start sums captures constants).Firm := by
  unfold objectBounds
  infer_instance

instance steady_objectRest : (objectRest g).Steady := by
  unfold objectRest
  infer_instance

instance firm_parenthesizedType (sums : Bool) : (parenthesizedType g sums).Firm := by
  refine @Firm.bind _ _ _ _ (firm_group ..) fun contents => ?_
  split <;> infer_instance

instance firm_functionPointer : (functionPointer g).Firm := by
  unfold functionPointer
  infer_instance

instance firm_typePath : (typePath g).Firm := by
  unfold typePath
  infer_instance

instance firm_namedType (declared sums : Bool) : (namedType g declared sums).Firm := by
  unfold namedType
  dsimp only
  infer_instance

instance firm_wordType (declared sums : Bool) (w : Word) : (wordType g declared sums w).Firm := by
  unfold wordType
  infer_instance

instance firm_pointerType (c : Char) : (pointerType g c).Firm := by
  unfold pointerType
  infer_instance

theorem firm_type (sums : Bool) : (type g sums).Firm := by
  have : (punct '!').Firm := firm_symbol (by decide) (by decide)
  refine @Firm.behind _ _ _ _ fun named => ?_
  refine @Firm.ite _ _ _ _ _ (@Firm.behind _ _ _ _ fun _ => @Firm.behind _ _ _ _ fun w? => ?_)
    (@Firm.behind _ _ _ _ fun lexeme? => ?_)
  · split <;> infer_instance
  · split <;> infer_instance

/-! ### Operators -/

instance still_binaryOperator? : binaryOperator?.Still := by
  unfold binaryOperator?
  infer_instance

instance still_assignComes : assignComes.Still := still_comesAlone ..

instance still_pointComes : pointComes.Still := still_comesAlone ..

instance still_comingPrecedence : comingPrecedence.Still := by
  refine @Still.bind _ _ binaryOperator? _ _ fun operator? => ?_
  split <;> infer_instance

instance firm_rightSide (structs : Bool) (precedence : Precedence) :
    (rightSide g structs precedence).Firm := by
  unfold rightSide
  infer_instance

instance firm_rangeSymbol : (rangeSymbol false).Firm := by
  have : (symbol Symbol.rangeTo).Firm := firm_symbol (by decide) (by decide)
  have : (symbol Symbol.range).Firm := firm_symbol (by decide) (by decide)
  unfold rangeSymbol
  simp only [Bool.false_eq_true, if_false]
  infer_instance

instance still_rangeStaysOpen (structs : Bool) : (rangeStaysOpen structs).Still := by
  unfold rangeStaysOpen
  infer_instance

instance firm_rangeTail (structs : Bool) : (rangeTail g structs).Firm := by
  unfold rangeTail
  infer_instance

instance firm_castTail : (castTail g).Firm := by
  unfold castTail
  infer_instance

theorem steady_operators (left : ExprShape) (structs : Bool) (base : Precedence) :
    (operators g left structs base).Steady := by
  refine @Steady.loop _ _ _ _ fun left => @Steady.ite _ _ _ _ _ inferInstance ?_
  refine @Steady.bind _ _ binaryOperator? _ _ fun operator? => ?_
  split
  · dsimp only
    infer_instance
  · infer_instance

/-! ### Behind an operand -/

instance firm_member : member.Firm := by
  refine @Firm.behind _ _ _ _ fun lexeme? => ?_
  split
  · dsimp only
    infer_instance
  · infer_instance

instance firm_joinedFields (digits : Text) : (joinedFields digits).Firm := by
  unfold joinedFields
  infer_instance

instance steady_memberTail : (memberTail g).Steady := by
  unfold memberTail
  dsimp only
  infer_instance

instance steady_trailer : (trailer g).Steady := by
  have : (punct '.').Firm := firm_symbol (by decide) (by decide)
  have : (punct '?').Firm := firm_symbol (by decide) (by decide)
  have htail : ∀ lexeme? : Option Lexeme, (match lexeme? with
      | some (.literal (.float digits)) => do
        if ← joinedFields digits then
          memberTail g
          return true
        else return true
      | _ => do
        memberTail g
        return true : Parser Bool).Steady := by
    intro lexeme?
    split <;> infer_instance
  unfold trailer
  dsimp only
  infer_instance

instance steady_trailers (operand : ExprShape) : (trailers g operand).Steady := by
  unfold trailers
  infer_instance

/-! ### Expressions -/

instance still_exprComes : exprComes.Still := by
  refine @Still.bind _ _ (lexemeBehind 0) _ _ fun lexeme? => ?_
  split <;> infer_instance

instance steady_jumpValue : (jumpValue g).Steady := by
  unfold jumpValue
  infer_instance

instance firm_breakExpr (structs : Bool) : (breakExpr g structs).Firm := by
  unfold breakExpr
  dsimp only
  infer_instance

instance firm_builtinExpr : builtinExpr.Firm := by
  unfold builtinExpr
  infer_instance

instance firm_becomeExpr : (becomeExpr g).Firm := by
  unfold becomeExpr
  infer_instance

instance firm_letExpr (structs : Bool) : (letExpr g structs).Firm := by
  have := steady_operators g
  unfold letExpr
  infer_instance

instance firm_asyncBlock : (asyncBlock g).Firm := by
  unfold asyncBlock
  infer_instance

instance firm_closureExpr (structs : Bool) : (closureExpr g structs).Firm := by
  unfold closureExpr
  infer_instance

instance firm_ifExpr : (ifExpr g).Firm := by
  unfold ifExpr
  infer_instance

instance firm_attributedBlock : (attributedBlock g).Firm := firm_group ..

instance firm_blockExpr : (blockExpr g).Firm := by
  unfold blockExpr
  dsimp only
  infer_instance

instance firm_labeledExpr : (labeledExpr g).Firm := by
  unfold labeledExpr
  infer_instance

instance firm_matchExpr : (matchExpr g).Firm := by
  unfold matchExpr
  infer_instance

instance firm_blockLike : (blockLike g).Firm := by
  unfold blockLike
  infer_instance

instance firm_pathExpr (structs : Bool) : (pathExpr g structs).Firm := by
  refine @Firm.bind _ _ _ _ (firm_qualifiedPath g true) fun shape =>
    @Steady.bind _ _ _ _ (steady_macroCall? shape) fun delimiter? => ?_
  split
  · infer_instance
  · infer_instance
  · dsimp only
    infer_instance

instance firm_wordExpr (structs : Bool) (w : Word) : (wordExpr g structs w).Firm := by
  unfold wordExpr
  dsimp only
  infer_instance

instance firm_atom (structs : Bool) : (atom g structs).Firm := by
  have hrest : ∀ lexeme? : Option Lexeme, (match lexeme? with
      | some (.opening .parenthesis) => do
        group .parenthesis (exprList g)
        return .other
      | some (.opening .bracket) => do
        group .bracket (elements g)
        return .other
      | some (.word .kwBecome) => do
        becomeExpr g
        return .ofKind .unread
      | some (.word w) => wordExpr g structs w
      | _ => do
        rangeTail g structs
        return .ofKind .range : Parser ExprShape).Firm := by
    intro lexeme?
    split <;> infer_instance
  unfold atom
  infer_instance

instance firm_plainOperand (structs : Bool) : (plainOperand g structs).Firm := by
  unfold plainOperand
  dsimp only
  infer_instance

instance firm_markedOperand (structs marked : Bool) : (markedOperand g structs marked).Firm := by
  unfold markedOperand
  dsimp only
  infer_instance

theorem firm_operand (structs : Bool) : (operand g structs).Firm := by
  unfold operand
  infer_instance

theorem firm_expr (structs : Bool) : (expr g structs).Firm := by
  have := steady_operators g
  unfold expr
  infer_instance

end ClosureLint.Rust
