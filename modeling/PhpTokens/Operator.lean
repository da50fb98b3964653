/-!
# Operators of two and three characters

Every operator here has at least two characters; single punctuation marks are
lexemes without a type. Where one operator begins another, the longer one is
read. `<>` is a second spelling of `!=`. After a member operator the next word
is a name even if it is reserved.
-/

namespace PhpTokens

/-- The operators that are tokens of their own. -/
inductive Operator where
  | objectOperator | nullsafeObjectOperator | doubleColon | doubleArrow | increment
  | decrement | isEqual | isNotEqual | isIdentical | isNotIdentical
  | isSmallerOrEqual | isGreaterOrEqual | spaceship | booleanAnd | booleanOr
  | coalesce | coalesceEqual | plusEqual | minusEqual | mulEqual
  | divEqual | concatEqual | modEqual | pow | powEqual
  | andEqual | orEqual | xorEqual | shiftLeft | shiftRight
  | shiftLeftEqual | shiftRightEqual | ellipsis
deriving DecidableEq, Repr

namespace Operator

/-- Every operator. -/
def all : List Operator := [
  .objectOperator, .nullsafeObjectOperator, .doubleColon, .doubleArrow, .increment,
  .decrement, .isEqual, .isNotEqual, .isIdentical, .isNotIdentical,
  .isSmallerOrEqual, .isGreaterOrEqual, .spaceship, .booleanAnd, .booleanOr,
  .coalesce, .coalesceEqual, .plusEqual, .minusEqual, .mulEqual,
  .divEqual, .concatEqual, .modEqual, .pow, .powEqual,
  .andEqual, .orEqual, .xorEqual, .shiftLeft, .shiftRight,
  .shiftLeftEqual, .shiftRightEqual, .ellipsis]

theorem mem_all (o : Operator) : o ∈ all := by
  cases o <;> decide

/-- Length of the longest symbol. -/
def maxLength : Nat := 3

/-- The canonical spelling. -/
def symbol : Operator → String
  | .objectOperator => "->"
  | .nullsafeObjectOperator => "?->"
  | .doubleColon => "::"
  | .doubleArrow => "=>"
  | .increment => "++"
  | .decrement => "--"
  | .isEqual => "=="
  | .isNotEqual => "!="
  | .isIdentical => "==="
  | .isNotIdentical => "!=="
  | .isSmallerOrEqual => "<="
  | .isGreaterOrEqual => ">="
  | .spaceship => "<=>"
  | .booleanAnd => "&&"
  | .booleanOr => "||"
  | .coalesce => "??"
  | .coalesceEqual => "??="
  | .plusEqual => "+="
  | .minusEqual => "-="
  | .mulEqual => "*="
  | .divEqual => "/="
  | .concatEqual => ".="
  | .modEqual => "%="
  | .pow => "**"
  | .powEqual => "**="
  | .andEqual => "&="
  | .orEqual => "|="
  | .xorEqual => "^="
  | .shiftLeft => "<<"
  | .shiftRight => ">>"
  | .shiftLeftEqual => "<<="
  | .shiftRightEqual => ">>="
  | .ellipsis => "..."

/-- The name under which an operator is written in records. -/
def label : Operator → String
  | .objectOperator => "ObjectOperator"
  | .nullsafeObjectOperator => "NullsafeObjectOperator"
  | .doubleColon => "DoubleColon"
  | .doubleArrow => "DoubleArrow"
  | .increment => "Increment"
  | .decrement => "Decrement"
  | .isEqual => "IsEqual"
  | .isNotEqual => "IsNotEqual"
  | .isIdentical => "IsIdentical"
  | .isNotIdentical => "IsNotIdentical"
  | .isSmallerOrEqual => "IsSmallerOrEqual"
  | .isGreaterOrEqual => "IsGreaterOrEqual"
  | .spaceship => "Spaceship"
  | .booleanAnd => "BooleanAnd"
  | .booleanOr => "BooleanOr"
  | .coalesce => "Coalesce"
  | .coalesceEqual => "CoalesceEqual"
  | .plusEqual => "PlusEqual"
  | .minusEqual => "MinusEqual"
  | .mulEqual => "MulEqual"
  | .divEqual => "DivEqual"
  | .concatEqual => "ConcatEqual"
  | .modEqual => "ModEqual"
  | .pow => "Pow"
  | .powEqual => "PowEqual"
  | .andEqual => "AndEqual"
  | .orEqual => "OrEqual"
  | .xorEqual => "XorEqual"
  | .shiftLeft => "ShiftLeft"
  | .shiftRight => "ShiftRight"
  | .shiftLeftEqual => "ShiftLeftEqual"
  | .shiftRightEqual => "ShiftRightEqual"
  | .ellipsis => "Ellipsis"

/-- The conventional name of the token. -/
def name : Operator → String
  | .objectOperator => "T_OBJECT_OPERATOR"
  | .nullsafeObjectOperator => "T_NULLSAFE_OBJECT_OPERATOR"
  | .doubleColon => "T_DOUBLE_COLON"
  | .doubleArrow => "T_DOUBLE_ARROW"
  | .increment => "T_INC"
  | .decrement => "T_DEC"
  | .isEqual => "T_IS_EQUAL"
  | .isNotEqual => "T_IS_NOT_EQUAL"
  | .isIdentical => "T_IS_IDENTICAL"
  | .isNotIdentical => "T_IS_NOT_IDENTICAL"
  | .isSmallerOrEqual => "T_IS_SMALLER_OR_EQUAL"
  | .isGreaterOrEqual => "T_IS_GREATER_OR_EQUAL"
  | .spaceship => "T_SPACESHIP"
  | .booleanAnd => "T_BOOLEAN_AND"
  | .booleanOr => "T_BOOLEAN_OR"
  | .coalesce => "T_COALESCE"
  | .coalesceEqual => "T_COALESCE_EQUAL"
  | .plusEqual => "T_PLUS_EQUAL"
  | .minusEqual => "T_MINUS_EQUAL"
  | .mulEqual => "T_MUL_EQUAL"
  | .divEqual => "T_DIV_EQUAL"
  | .concatEqual => "T_CONCAT_EQUAL"
  | .modEqual => "T_MOD_EQUAL"
  | .pow => "T_POW"
  | .powEqual => "T_POW_EQUAL"
  | .andEqual => "T_AND_EQUAL"
  | .orEqual => "T_OR_EQUAL"
  | .xorEqual => "T_XOR_EQUAL"
  | .shiftLeft => "T_SL"
  | .shiftRight => "T_SR"
  | .shiftLeftEqual => "T_SL_EQUAL"
  | .shiftRightEqual => "T_SR_EQUAL"
  | .ellipsis => "T_ELLIPSIS"

/-- The texts that spell operators, each with what it spells. -/
def symbols : List (String × Operator) := [
  ("->", .objectOperator), ("?->", .nullsafeObjectOperator), ("::", .doubleColon),
  ("=>", .doubleArrow), ("++", .increment), ("--", .decrement), ("==", .isEqual),
  ("!=", .isNotEqual), ("<>", .isNotEqual), ("===", .isIdentical), ("!==", .isNotIdentical),
  ("<=", .isSmallerOrEqual), (">=", .isGreaterOrEqual), ("<=>", .spaceship),
  ("&&", .booleanAnd), ("||", .booleanOr), ("??", .coalesce), ("??=", .coalesceEqual),
  ("+=", .plusEqual), ("-=", .minusEqual), ("*=", .mulEqual), ("/=", .divEqual),
  (".=", .concatEqual), ("%=", .modEqual), ("**", .pow), ("**=", .powEqual), ("&=", .andEqual),
  ("|=", .orEqual), ("^=", .xorEqual), ("<<", .shiftLeft), (">>", .shiftRight),
  ("<<=", .shiftLeftEqual), (">>=", .shiftRightEqual), ("...", .ellipsis)]

/-- The operator that a text spells exactly. -/
def ofSymbol? (text : String) : Option Operator :=
  symbols.lookup text

/-- The operator that a record names. -/
def ofLabel? (label : String) : Option Operator :=
  all.find? fun o => o.label = label

/-- Whether the word that follows is a name even if it is reserved. -/
def introducesMember : Operator → Bool
  | .objectOperator | .nullsafeObjectOperator | .doubleColon => true
  | _ => false

/-- The operator spelled by exactly the first `n` characters of a text. -/
def ofHead? (n : Nat) (cs : List Char) : Option Operator :=
  let head := cs.take n
  if head.length = n then ofSymbol? (String.ofList head) else none

/-- The lengths to try, the longest first. No symbol has one character. -/
def lengths : List Nat := (List.range' 2 (maxLength - 1)).reverse

theorem mem_lengths {n : Nat} : n ∈ lengths ↔ 2 ≤ n ∧ n ≤ maxLength := by
  rw [lengths, List.mem_reverse, List.mem_range'_1]
  exact and_congr_right fun _ => Nat.lt_succ_iff

theorem lengths_pairwise : lengths.Pairwise (fun m n => n < m) :=
  List.pairwise_reverse.2 (List.pairwise_lt_range' 1)

/-- The longest operator at the head of a text, with its length. -/
def leading? (cs : List Char) : Option (Operator × Nat) :=
  lengths.findSome? fun n => (ofHead? n cs).map (·, n)

theorem leading?_length {cs : List Char} {o : Operator} {n : Nat}
    (h : leading? cs = some (o, n)) : n ∈ lengths := by
  obtain ⟨m, hmem, hm⟩ := List.exists_of_findSome?_eq_some h
  obtain ⟨_, -, hpair⟩ := Option.map_eq_some_iff.1 hm
  obtain ⟨-, rfl⟩ := Prod.mk.inj hpair
  exact hmem

end Operator

end PhpTokens
