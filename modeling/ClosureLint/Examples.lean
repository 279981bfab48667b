import ClosureLint.Text

/-! Sample sources for the body length rule under its default limits. Every triggering one holds
exactly one closure that is too long, written `|toto|`, and it stays under the error limit. -/

namespace ClosureLint.Examples

def statements (name : String) (count : Nat) : String :=
  String.join ((List.range count).map fun i => s!"        let {name}{i} = {i};\n")

def opening : String := "fn main() \x7b\n    foo.bar(|toto| \x7b\n"

def closing : String := "    \x7d);\n\x7d\n"

/-- A closure of `code` statements, followed by comment lines and blank lines. -/
def callWithClosure (code comments blanks : Nat) : String :=
  opening ++ statements "a" code ++ String.join (List.replicate comments "        // toto\n") ++
    String.join (List.replicate blanks "\n") ++ closing

/-- A closure of `code` statements behind a block comment that holds statements. -/
def callWithBlockComment (code commented : Nat) : String :=
  opening ++ "        /*\n" ++ statements "old" commented ++ "        */\n" ++
    statements "a" code ++ closing

/-- A closure whose last statement is a closure of one line. -/
def nestedShortClosure (code : Nat) : String :=
  opening ++ statements "a" (code - 1) ++ "        let inc = |y: i32| y + 1;\n" ++ closing

def nonTriggering : List String :=
  ["fn main() \x7b\n    foo.bar(|x| x);\n\x7d\n",
    "fn main() \x7b\n    let f = move || \x7b\n        // nothing yet\n    \x7d;\n\x7d\n",
    callWithClosure 18 0 0,
    callWithClosure 18 10 0,
    callWithClosure 18 0 10,
    callWithClosure 18 10 10,
    callWithBlockComment 18 40]

def triggering : List String :=
  [callWithClosure 19 0 0,
    callWithClosure 19 10 0,
    callWithClosure 19 0 10,
    callWithClosure 19 10 10,
    callWithBlockComment 19 5,
    nestedShortClosure 19]

end ClosureLint.Examples
