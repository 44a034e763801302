import RouteLens.Fault
import RouteLens.Number.Decimal
import RouteLens.Text.Quote
import RouteLens.Tree.Expr

/-!
# Printing expressions

The source text of an expression, rebuilt from its tree.  Parentheses are written where the
operator binds looser than its surroundings ask for; tuples have them too, except between the
brackets of a subscription and as the target of a clause.  Some expressions cannot be printed: an
integer may have too many digits, and a value in a text may need a backslash.
-/

namespace RouteLens

/-- How tightly a construct binds, from loose to tight. -/
abbrev Binding := Nat

namespace Binding

/-- Assignment expressions. -/
def named : Binding := 0
/-- Tuples without parentheses. -/
def tuple : Binding := 1
/-- `yield` expressions. -/
def yield : Binding := 2
/-- Conditional expressions and lambdas. -/
def test : Binding := 3
/-- Disjunctions. -/
def or : Binding := 4
/-- Conjunctions. -/
def and : Binding := 5
/-- Negations. -/
def not : Binding := 6
/-- Comparisons. -/
def compare : Binding := 7
/-- Bitwise disjunctions, the loosest operators on numbers. -/
def bitOr : Binding := 8
/-- Bitwise exclusive disjunctions. -/
def bitXor : Binding := 9
/-- Bitwise conjunctions. -/
def bitAnd : Binding := 10
/-- Shifts. -/
def shift : Binding := 11
/-- Sums. -/
def sum : Binding := 12
/-- Products. -/
def term : Binding := 13
/-- Signs and bitwise complement. -/
def factor : Binding := 14
/-- Powers. -/
def power : Binding := 15
/-- `await` expressions. -/
def await : Binding := 16
/-- Everything that needs no parentheses. -/
def atom : Binding := 17

/-- The next tighter binding. -/
def next (b : Binding) : Binding :=
  min (b + 1) atom

end Binding

namespace BinaryOp

/-- How an operator is written. -/
def symbol : BinaryOp → String
  | .add => "+"
  | .sub => "-"
  | .mul => "*"
  | .matMul => "@"
  | .div => "/"
  | .mod => "%"
  | .pow => "**"
  | .leftShift => "<<"
  | .rightShift => ">>"
  | .bitOr => "|"
  | .bitXor => "^"
  | .bitAnd => "&"
  | .floorDiv => "//"

/-- How tightly an operator binds. -/
def binding : BinaryOp → Binding
  | .add | .sub => .sum
  | .mul | .matMul | .div | .mod | .floorDiv => .term
  | .pow => .power
  | .leftShift | .rightShift => .shift
  | .bitOr => .bitOr
  | .bitXor => .bitXor
  | .bitAnd => .bitAnd

end BinaryOp

namespace UnaryOp

/-- How an operator is written; a word is followed by a blank. -/
def symbol : UnaryOp → String
  | .invert => "~"
  | .not => "not "
  | .plus => "+"
  | .minus => "-"

/-- How tightly an operator binds. -/
def binding : UnaryOp → Binding
  | .not => .not
  | _ => .factor

end UnaryOp

namespace BoolOp

/-- How an operator is written. -/
def symbol : BoolOp → String
  | .and => "and"
  | .or => "or"

/-- How tightly an operator binds. -/
def binding : BoolOp → Binding
  | .and => .and
  | .or => .or

end BoolOp

namespace CompareOp

/-- How a comparison is written. -/
def symbol : CompareOp → String
  | .eq => "=="
  | .notEq => "!="
  | .lt => "<"
  | .ltE => "<="
  | .gt => ">"
  | .gtE => ">="
  | .same => "is"
  | .notSame => "is not"
  | .member => "in"
  | .notMember => "not in"

end CompareOp

namespace Conversion

/-- The letter of a conversion. -/
def letter : Conversion → String
  | .str => "s"
  | .repr => "r"
  | .ascii => "a"

end Conversion

namespace Printer

/-- Puts parentheses around a text if its surroundings bind tighter than it does. -/
def parenthesize (surrounding own : Binding) (s : String) : String :=
  if own < surrounding then "(" ++ s ++ ")" else s

/-- Items with commas between them; a single one is followed by a comma. -/
def tupleItems : List String → String
  | [s] => s ++ ","
  | ss => ", ".intercalate ss

/-- A quoting style: the quotes on either side. -/
abbrev Quotes := List Char

/-- The quoting styles, in order of preference. -/
def allQuotes : List Quotes :=
  [['\''], ['"'], ['"', '"', '"'], ['\'', '\'', '\'']]

/-- Whether the characters occur in the text one after the other. -/
def occursIn (q : List Char) : List Char → Bool
  | [] => q.isEmpty
  | c :: cs => q.isPrefixOf (c :: cs) || occursIn q cs

/-- A character of a text whose quotes are still open to choice. -/
def looseChar (escapeBlanks : Bool) (c : Char) : List Char :=
  if !escapeBlanks && (c == '\n' || c == '\t') then [c]
  else if c == '\\' || !Text.isPrintable c then Text.escapeChar c
  else [c]

/-- The body of a text with as few escapes as possible, and the styles that fit it.  If none of
the given styles fits, the body is quoted the ordinary way. -/
def chooseQuotes (styles : List Quotes) (escapeBlanks : Bool) (cs : List Char) :
    List Char × List Quotes :=
  let body := cs.flatMap (looseChar escapeBlanks)
  let fitting := styles.filter fun q =>
    (!body.contains '\n' || q.length == 3) && !occursIn q body
  if fitting.isEmpty then
    let q := Text.quoteFor cs
    (Text.quoteBody q cs, [(styles.find? (·.contains q)).getD [q]])
  else
    match body.getLast? with
    | none => (body, fitting)
    | some last =>
      let endsWith (q : Quotes) : Bool := q.head? == some last
      let sorted := fitting.filter (!endsWith ·) ++ fitting.filter endsWith
      if (sorted.head?.map endsWith).getD false then (body.dropLast ++ ['\\', last], sorted)
      else (body, sorted)

/-- A text in the preferred style that fits it. -/
def quoteLoosely (cs : List Char) : String :=
  let (body, styles) := chooseQuotes allQuotes false cs
  let q := styles.headD ['\'']
  String.ofList (q ++ body ++ q)

/-- Narrows down the styles part by part; a part may be plain or an embedded value. -/
def quoteParts (styles : List Quotes) : List (List Char × Bool) → List Char × List Quotes
  | [] => ([], styles)
  | (cs, isPlain) :: rest =>
    let (body, styles) := chooseQuotes styles isPlain cs
    let (bodies, styles) := quoteParts styles rest
    (body ++ bodies, styles)

/-- Doubles the braces of a plain part. -/
def doubleBraces (cs : List Char) : List Char :=
  cs.flatMap fun c => if c == '\x7b' || c == '\x7d' then [c, c] else [c]

/-- The text of a floating-point constant; an infinity is written as a literal too large to
represent. -/
def floatText : Binary64 → String
  | .infinite s => if s then "-1e309" else "1e309"
  | x => x.toText

/-- The imaginary part of a constant, without the zero fraction of whole numbers. -/
def imaginaryText (x : Binary64) : String :=
  let s := floatText x
  (if s.endsWith ".0" then (s.dropEnd 2).toString else s) ++ "j"

/-- How many digits an integer may be written with. -/
def maxDigits : Nat := 4300

/-- The text of a constant.  Inside an embedded expression `loose` asks for texts without
backslashes. -/
def constantText (loose : Bool) : Constant → Except Unprintable String
  | .null => .ok "None"
  | .bool b => .ok (if b then "True" else "False")
  | .ellipsis => .ok "..."
  | .int n => if n < Nat.pow 10 maxDigits then .ok (Binary64.digitsOf n) else .error .tooManyDigits
  | .float x => .ok (floatText x)
  | .imaginary x => .ok (imaginaryText x)
  | .text s marked =>
    .ok ((if marked then "u" else "") ++ if loose then quoteLoosely s.toList else Text.quote s)
  | .bytes bs => .ok (Text.quoteBytes bs)

/-- Pads a list of defaults in front so that it has an entry per parameter. -/
def alignDefaults {α : Type} (count : Nat) (defaults : List α) : List (Option α) :=
  List.replicate (count - defaults.length) none ++ defaults.map some

/-- Puts the mark behind the positional-only parameters. -/
def markPosOnly (count : Nat) (items : List String) : List String :=
  if count = 0 then items else items.take count ++ "/" :: items.drop count

/-- The text of an embedded value, which holds no backslash. -/
def withoutBackslash (value : String) : Except Unprintable String :=
  if value.toList.contains '\\' then .error .embeddedBackslash else .ok value

/-- An embedded value between its braces.  A blank keeps two opening braces apart. -/
def formattedText (value : String) (conversion : Option Conversion)
    (spec : Option (List Char)) : List Char :=
  let gap := if value.startsWith "\x7b" then [' '] else []
  let mark := match conversion with
    | none => []
    | some c => '!' :: c.letter.toList
  let tail := match spec with
    | none => []
    | some cs => ':' :: cs
  '\x7b' :: gap ++ value.toList ++ mark ++ tail ++ ['\x7d']

mutual

/-- The text of an expression in surroundings that bind as tightly as `b`. -/
def printExpr (loose : Bool) (b : Binding) : Expr → Except Unprintable String
  | .node _ form => printForm loose b form

/-- The text of an expression from its form. -/
def printForm (loose : Bool) (b : Binding) : ExprForm → Except Unprintable String
  | .bool op values => do
    let operands ← printTighter loose op.binding values
    return parenthesize b op.binding ((" " ++ op.symbol ++ " ").intercalate operands)
  | .named target value => do
    let name ← printExpr loose .atom target
    return parenthesize b .named (name ++ " := " ++ (← printExpr loose .atom value))
  | .binary left op right => do
    let own := op.binding
    let (l, r) := if op = .pow then (own.next, own) else (own, own.next)
    let left ← printExpr loose l left
    return parenthesize b own (left ++ " " ++ op.symbol ++ " " ++ (← printExpr loose r right))
  | .unary op operand => do
    return parenthesize b op.binding (op.symbol ++ (← printExpr loose op.binding operand))
  | .lambda params body => do
    let ps ← printParams loose params
    let body ← printExpr loose .test body
    return parenthesize b .test
      ("lambda" ++ (if ps.isEmpty then "" else " " ++ ps) ++ ": " ++ body)
  | .choice test body orelse => do
    let inner := Binding.test.next
    let body ← printExpr loose inner body
    let test ← printExpr loose inner test
    let orelse ← printExpr loose .test orelse
    return parenthesize b .test (body ++ " if " ++ test ++ " else " ++ orelse)
  | .dict keys values => do
    let entries ← printEntries loose (printOptions loose keys) values
    return "\x7b" ++ ", ".intercalate entries ++ "\x7d"
  | .set elements => do
    match ← printExprs loose .test elements with
    | [] => return "\x7b*()\x7d"
    | items => return "\x7b" ++ ", ".intercalate items ++ "\x7d"
  | .listComp element clauses => do
    let element ← printExpr loose .test element
    return "[" ++ element ++ (← printClauses loose clauses) ++ "]"
  | .setComp element clauses => do
    let element ← printExpr loose .test element
    return "\x7b" ++ element ++ (← printClauses loose clauses) ++ "\x7d"
  | .dictComp key value clauses => do
    let key ← printExpr loose .test key
    let value ← printExpr loose .test value
    return "\x7b" ++ key ++ ": " ++ value ++ (← printClauses loose clauses) ++ "\x7d"
  | .generator element clauses => do
    let element ← printExpr loose .test element
    return "(" ++ element ++ (← printClauses loose clauses) ++ ")"
  | .await value => do
    return parenthesize b .await ("await " ++ (← printExpr loose .atom value))
  | .yield value => do
    let value ← printOption loose .atom value
    return parenthesize b .yield ("yield" ++ value.elim "" (" " ++ ·))
  | .yieldFrom value => do
    return parenthesize b .yield ("yield from " ++ (← printExpr loose .atom value))
  | .compare left ops comparators => do
    let left ← printExpr loose Binding.compare.next left
    return parenthesize b .compare (left ++ (← printCompared loose ops comparators))
  | .call func args keywords => do
    let func ← printExpr loose .atom func
    let args ← printExprs loose .test args
    let keywords ← printKeywords loose keywords
    return func ++ "(" ++ ", ".intercalate (args ++ keywords) ++ ")"
  | .formatted value conversion spec => do
    let value ← withoutBackslash (← printExpr true Binding.test.next value)
    return "f" ++ quoteLoosely (formattedText value conversion (← printSpec spec))
  | .joined values => do
    let parts ← printParts values
    if loose then return "f" ++ quoteLoosely (parts.flatMap Prod.fst)
    let (body, styles) := quoteParts allQuotes parts
    let q := styles.headD ['\'']
    return "f" ++ String.ofList (q ++ body ++ q)
  | .constant c => constantText loose c
  | .attribute value attr => do
    let gap := match value with
      | .node _ (.constant (.int _)) | .node _ (.constant (.bool _)) => " "
      | _ => ""
    return (← printExpr loose .atom value) ++ gap ++ "." ++ attr
  | .subscript value index => do
    let value ← printExpr loose .atom value
    return value ++ "[" ++ (← printIndex loose index) ++ "]"
  | .starred value => do return "*" ++ (← printExpr loose .bitOr value)
  | .name id => .ok id
  | .list elements => do
    return "[" ++ ", ".intercalate (← printExprs loose .test elements) ++ "]"
  | .tuple elements => do
    let items := tupleItems (← printExprs loose .test elements)
    return if elements.isEmpty || Binding.tuple < b then "(" ++ items ++ ")" else items
  | .slice lower upper step => do
    let lower ← printOption loose .test lower
    let upper ← printOption loose .test upper
    let step ← printOption loose .test step
    return lower.getD "" ++ ":" ++ upper.getD "" ++ step.elim "" (":" ++ ·)

/-- The index of a subscription; a tuple that is not empty has no parentheses. -/
def printIndex (loose : Bool) : Expr → Except Unprintable String
  | .node _ form =>
    match form with
    | .tuple (e :: es) => do
      let first ← printExpr loose .test e
      return tupleItems (first :: (← printExprs loose .test es))
    | form => printForm loose .test form

/-- Several expressions in like surroundings. -/
def printExprs (loose : Bool) (b : Binding) : List Expr → Except Unprintable (List String)
  | [] => .ok []
  | e :: es => do
    let first ← printExpr loose b e
    return first :: (← printExprs loose b es)

/-- Operands of one operator, each bound one step tighter than the one before. -/
def printTighter (loose : Bool) (b : Binding) : List Expr → Except Unprintable (List String)
  | [] => .ok []
  | e :: es => do
    let first ← printExpr loose b.next e
    return first :: (← printTighter loose b.next es)

/-- The compared operands after the first one, each behind its operator. -/
def printCompared (loose : Bool) (ops : List CompareOp) : List Expr → Except Unprintable String
  | [] => .ok ""
  | e :: es =>
    match ops with
    | [] => .ok ""
    | op :: ops => do
      let first ← printExpr loose Binding.compare.next e
      return " " ++ op.symbol ++ " " ++ first ++ (← printCompared loose ops es)

/-- The entries of a dictionary, given how their keys are printed. -/
def printEntries (loose : Bool) (keys : List (Except Unprintable (Option String))) :
    List Expr → Except Unprintable (List String)
  | [] => .ok []
  | e :: es =>
    match keys with
    | [] => .ok []
    | key :: keys => do
      let first ← match ← key with
        | none => do pure ("**" ++ (← printExpr loose .bitOr e))
        | some k => do pure (k ++ ": " ++ (← printExpr loose .test e))
      return first :: (← printEntries loose keys es)

/-- An optional expression. -/
def printOption (loose : Bool) (b : Binding) : Option Expr → Except Unprintable (Option String)
  | none => .ok none
  | some e => do return some (← printExpr loose b e)

/-- Several optional expressions, each by itself. -/
def printOptions (loose : Bool) : List (Option Expr) → List (Except Unprintable (Option String))
  | [] => []
  | e :: es => printOption loose .test e :: printOptions loose es

/-- The clauses of a comprehension. -/
def printClauses (loose : Bool) : List Clause → Except Unprintable String
  | [] => .ok ""
  | .mk isAsync target iter filters :: cs => do
    let target ← printExpr loose .tuple target
    let iter ← printExpr loose Binding.test.next iter
    let filters ← printExprs loose Binding.test.next filters
    return (if isAsync then " async for " else " for ") ++ target ++ " in " ++ iter ++
      String.join (filters.map (" if " ++ ·)) ++ (← printClauses loose cs)

/-- Keyword arguments. -/
def printKeywords (loose : Bool) : List Keyword → Except Unprintable (List String)
  | [] => .ok []
  | .mk _ id value :: ks => do
    let value ← printExpr loose .test value
    return (id.elim "**" (· ++ "=") ++ value) :: (← printKeywords loose ks)

/-- Parameters with their types. -/
def printParamList (loose : Bool) : List Param → Except Unprintable (List String)
  | [] => .ok []
  | .mk _ id typeExpr :: ps => do
    let typeText ← printOption loose .test typeExpr
    return (id ++ typeText.elim "" (": " ++ ·)) :: (← printParamList loose ps)

/-- An optional parameter with its type. -/
def printParamOption (loose : Bool) : Option Param → Except Unprintable (Option String)
  | none => .ok none
  | some (.mk _ id typeExpr) => do
    let typeText ← printOption loose .test typeExpr
    return some (id ++ typeText.elim "" (": " ++ ·))

/-- A parameter list. -/
def printParams (loose : Bool) : Params → Except Unprintable String
  | .mk posOnly args vararg kwOnly kwDefaults kwarg defaults => do
    let withDefault (p : String) (d : Option String) : String := d.elim p (p ++ "=" ++ ·)
    let positional := (← printParamList loose posOnly) ++ (← printParamList loose args)
    let values := alignDefaults positional.length (← printExprs loose .test defaults)
    let plain := markPosOnly posOnly.length (positional.zipWith withDefault values)
    let star := match ← printParamOption loose vararg, kwOnly with
      | some p, _ => ["*" ++ p]
      | none, [] => []
      | none, _ => ["*"]
    let named ← printParamList loose kwOnly
    let values ← (printOptions loose kwDefaults).mapM id
    let double := (← printParamOption loose kwarg).toList.map ("**" ++ ·)
    return ", ".intercalate (plain ++ star ++ named.zipWith withDefault values ++ double)

/-- The parts of a text with embedded values, and which of them are plain. -/
def printParts : List Expr → Except Unprintable (List (List Char × Bool))
  | [] => .ok []
  | .node _ form :: es => do
    let part ← match form with
      | .constant (.text s _) => pure (doubleBraces s.toList, true)
      | .formatted value conversion spec => do
        let value ← withoutBackslash (← printExpr true Binding.test.next value)
        pure (formattedText value conversion (← printSpec spec), false)
      | _ => pure ([], true)
    return part :: (← printParts es)

/-- The characters of a format specification. -/
def printSpec : Option Expr → Except Unprintable (Option (List Char))
  | none => .ok none
  | some (.node _ form) =>
    match form with
    | .joined values => do return some ((← printParts values).flatMap Prod.fst)
    | _ => .ok (some [])

end

end Printer

namespace Expr

/-- The source text of an expression, if it can be printed. -/
def printed (e : Expr) : Except Fault String :=
  (Printer.printExpr false .test e).mapError .unprintable

/-- The source text of an expression, empty if it cannot be printed. -/
def print (e : Expr) : String :=
  e.printed.toOption.getD ""

/-- Prints expressions one after the other, and forgets the texts. -/
def printAll (es : List Expr) : Except Fault Unit :=
  es.forM fun e => do
    let _ ← e.printed

end Expr

end RouteLens
