/-!
# Reserved words

A reserved word is recognised whatever the ASCII case of its letters. Each has
one canonical spelling; `die` is a second spelling of `exit`. After `function`
and `const` the next word is a name even if it is reserved.
-/

namespace PhpTokens

/-- The reserved words that are tokens of their own. -/
inductive Keyword where
  | kwAbstract | kwAnd | kwArray | kwAs | kwBreak | kwCallable
  | kwCase | kwCatch | kwClass | kwClone | kwConst | kwContinue
  | kwDeclare | kwDefault | kwDo | kwEcho | kwElse | kwElseIf
  | kwEmpty | kwEndDeclare | kwEndFor | kwEndForeach | kwEndIf | kwEndSwitch
  | kwEndWhile | kwEval | kwExit | kwExtends | kwFinal | kwFinally
  | kwFn | kwFor | kwForeach | kwFunction | kwGlobal | kwGoto
  | kwIf | kwImplements | kwInclude | kwIncludeOnce | kwInstanceOf | kwInsteadOf
  | kwInterface | kwIsset | kwList | kwMatch | kwNamespace | kwNew
  | kwOr | kwPrint | kwPrivate | kwProtected | kwPublic | kwReadonly
  | kwRequire | kwRequireOnce | kwReturn | kwStatic | kwSwitch | kwThrow
  | kwTrait | kwTry | kwUnset | kwUse | kwVar | kwWhile
  | kwXor | kwYield
deriving DecidableEq, Repr

namespace Keyword

/-- Every reserved word, in alphabetical order. -/
def all : List Keyword := [
  .kwAbstract, .kwAnd, .kwArray, .kwAs, .kwBreak, .kwCallable,
  .kwCase, .kwCatch, .kwClass, .kwClone, .kwConst, .kwContinue,
  .kwDeclare, .kwDefault, .kwDo, .kwEcho, .kwElse, .kwElseIf,
  .kwEmpty, .kwEndDeclare, .kwEndFor, .kwEndForeach, .kwEndIf, .kwEndSwitch,
  .kwEndWhile, .kwEval, .kwExit, .kwExtends, .kwFinal, .kwFinally,
  .kwFn, .kwFor, .kwForeach, .kwFunction, .kwGlobal, .kwGoto,
  .kwIf, .kwImplements, .kwInclude, .kwIncludeOnce, .kwInstanceOf, .kwInsteadOf,
  .kwInterface, .kwIsset, .kwList, .kwMatch, .kwNamespace, .kwNew,
  .kwOr, .kwPrint, .kwPrivate, .kwProtected, .kwPublic, .kwReadonly,
  .kwRequire, .kwRequireOnce, .kwReturn, .kwStatic, .kwSwitch, .kwThrow,
  .kwTrait, .kwTry, .kwUnset, .kwUse, .kwVar, .kwWhile,
  .kwXor, .kwYield]

theorem mem_all (k : Keyword) : k ∈ all := by
  cases k <;> decide

/-- The canonical spelling, in lower case. -/
def spelling : Keyword → String
  | .kwAbstract => "abstract"
  | .kwAnd => "and"
  | .kwArray => "array"
  | .kwAs => "as"
  | .kwBreak => "break"
  | .kwCallable => "callable"
  | .kwCase => "case"
  | .kwCatch => "catch"
  | .kwClass => "class"
  | .kwClone => "clone"
  | .kwConst => "const"
  | .kwContinue => "continue"
  | .kwDeclare => "declare"
  | .kwDefault => "default"
  | .kwDo => "do"
  | .kwEcho => "echo"
  | .kwElse => "else"
  | .kwElseIf => "elseif"
  | .kwEmpty => "empty"
  | .kwEndDeclare => "enddeclare"
  | .kwEndFor => "endfor"
  | .kwEndForeach => "endforeach"
  | .kwEndIf => "endif"
  | .kwEndSwitch => "endswitch"
  | .kwEndWhile => "endwhile"
  | .kwEval => "eval"
  | .kwExit => "exit"
  | .kwExtends => "extends"
  | .kwFinal => "final"
  | .kwFinally => "finally"
  | .kwFn => "fn"
  | .kwFor => "for"
  | .kwForeach => "foreach"
  | .kwFunction => "function"
  | .kwGlobal => "global"
  | .kwGoto => "goto"
  | .kwIf => "if"
  | .kwImplements => "implements"
  | .kwInclude => "include"
  | .kwIncludeOnce => "include_once"
  | .kwInstanceOf => "instanceof"
  | .kwInsteadOf => "insteadof"
  | .kwInterface => "interface"
  | .kwIsset => "isset"
  | .kwList => "list"
  | .kwMatch => "match"
  | .kwNamespace => "namespace"
  | .kwNew => "new"
  | .kwOr => "or"
  | .kwPrint => "print"
  | .kwPrivate => "private"
  | .kwProtected => "protected"
  | .kwPublic => "public"
  | .kwReadonly => "readonly"
  | .kwRequire => "require"
  | .kwRequireOnce => "require_once"
  | .kwReturn => "return"
  | .kwStatic => "static"
  | .kwSwitch => "switch"
  | .kwThrow => "throw"
  | .kwTrait => "trait"
  | .kwTry => "try"
  | .kwUnset => "unset"
  | .kwUse => "use"
  | .kwVar => "var"
  | .kwWhile => "while"
  | .kwXor => "xor"
  | .kwYield => "yield"

/-- The name under which a reserved word is written in records. -/
def label : Keyword → String
  | .kwAbstract => "Abstract"
  | .kwAnd => "And"
  | .kwArray => "Array"
  | .kwAs => "As"
  | .kwBreak => "Break"
  | .kwCallable => "Callable"
  | .kwCase => "Case"
  | .kwCatch => "Catch"
  | .kwClass => "Class"
  | .kwClone => "Clone"
  | .kwConst => "Const"
  | .kwContinue => "Continue"
  | .kwDeclare => "Declare"
  | .kwDefault => "Default"
  | .kwDo => "Do"
  | .kwEcho => "Echo"
  | .kwElse => "Else"
  | .kwElseIf => "ElseIf"
  | .kwEmpty => "Empty"
  | .kwEndDeclare => "EndDeclare"
  | .kwEndFor => "EndFor"
  | .kwEndForeach => "EndForeach"
  | .kwEndIf => "EndIf"
  | .kwEndSwitch => "EndSwitch"
  | .kwEndWhile => "EndWhile"
  | .kwEval => "Eval"
  | .kwExit => "Exit"
  | .kwExtends => "Extends"
  | .kwFinal => "Final"
  | .kwFinally => "Finally"
  | .kwFn => "Fn"
  | .kwFor => "For"
  | .kwForeach => "Foreach"
  | .kwFunction => "Function"
  | .kwGlobal => "Global"
  | .kwGoto => "Goto"
  | .kwIf => "If"
  | .kwImplements => "Implements"
  | .kwInclude => "Include"
  | .kwIncludeOnce => "IncludeOnce"
  | .kwInstanceOf => "InstanceOf"
  | .kwInsteadOf => "InsteadOf"
  | .kwInterface => "Interface"
  | .kwIsset => "Isset"
  | .kwList => "List"
  | .kwMatch => "Match"
  | .kwNamespace => "Namespace"
  | .kwNew => "New"
  | .kwOr => "Or"
  | .kwPrint => "Print"
  | .kwPrivate => "Private"
  | .kwProtected => "Protected"
  | .kwPublic => "Public"
  | .kwReadonly => "Readonly"
  | .kwRequire => "Require"
  | .kwRequireOnce => "RequireOnce"
  | .kwReturn => "Return"
  | .kwStatic => "Static"
  | .kwSwitch => "Switch"
  | .kwThrow => "Throw"
  | .kwTrait => "Trait"
  | .kwTry => "Try"
  | .kwUnset => "Unset"
  | .kwUse => "Use"
  | .kwVar => "Var"
  | .kwWhile => "While"
  | .kwXor => "Xor"
  | .kwYield => "Yield"

/-- The conventional name of the token: the three word operators have names of
their own, the others carry their spelling in capitals. -/
def name : Keyword → String
  | .kwAnd => "T_LOGICAL_AND"
  | .kwOr => "T_LOGICAL_OR"
  | .kwXor => "T_LOGICAL_XOR"
  | k => "T_" ++ String.ofList (k.spelling.toList.map Char.toUpper)

/-- The words that are reserved, in lower case, each with what it spells. -/
def words : List (String × Keyword) := [
  ("abstract", .kwAbstract), ("and", .kwAnd), ("array", .kwArray), ("as", .kwAs),
  ("break", .kwBreak), ("callable", .kwCallable), ("case", .kwCase), ("catch", .kwCatch),
  ("class", .kwClass), ("clone", .kwClone), ("const", .kwConst), ("continue", .kwContinue),
  ("declare", .kwDeclare), ("default", .kwDefault), ("do", .kwDo), ("echo", .kwEcho),
  ("else", .kwElse), ("elseif", .kwElseIf), ("empty", .kwEmpty), ("enddeclare", .kwEndDeclare),
  ("endfor", .kwEndFor), ("endforeach", .kwEndForeach), ("endif", .kwEndIf),
  ("endswitch", .kwEndSwitch), ("endwhile", .kwEndWhile), ("eval", .kwEval), ("exit", .kwExit),
  ("die", .kwExit), ("extends", .kwExtends), ("final", .kwFinal), ("finally", .kwFinally),
  ("fn", .kwFn), ("for", .kwFor), ("foreach", .kwForeach), ("function", .kwFunction),
  ("global", .kwGlobal), ("goto", .kwGoto), ("if", .kwIf), ("implements", .kwImplements),
  ("include", .kwInclude), ("include_once", .kwIncludeOnce), ("instanceof", .kwInstanceOf),
  ("insteadof", .kwInsteadOf), ("interface", .kwInterface), ("isset", .kwIsset),
  ("list", .kwList), ("match", .kwMatch), ("namespace", .kwNamespace), ("new", .kwNew),
  ("or", .kwOr), ("print", .kwPrint), ("private", .kwPrivate), ("protected", .kwProtected),
  ("public", .kwPublic), ("readonly", .kwReadonly), ("require", .kwRequire),
  ("require_once", .kwRequireOnce), ("return", .kwReturn), ("static", .kwStatic),
  ("switch", .kwSwitch), ("throw", .kwThrow), ("trait", .kwTrait), ("try", .kwTry),
  ("unset", .kwUnset), ("use", .kwUse), ("var", .kwVar), ("while", .kwWhile), ("xor", .kwXor),
  ("yield", .kwYield)]

/-- The reserved word that a word spells, ignoring ASCII case. -/
def ofWord? (word : String) : Option Keyword :=
  words.lookup (String.ofList (word.toList.map Char.toLower))

/-- The reserved word that a record names. -/
def ofLabel? (label : String) : Option Keyword :=
  all.find? fun k => k.label = label

/-- Whether the word that follows is a name even if it is reserved. -/
def introducesName : Keyword → Bool
  | .kwFunction | .kwConst => true
  | _ => false

end Keyword

end PhpTokens
