import RouteLens.Text.Case
import RouteLens.Text.Letter

/-!
# Regular expressions

The expressions of a search pattern, with its options already applied to every part, and the
characters that one part accepts.  Characters are given by their code points.
-/

namespace RouteLens

/-- A class of characters with a name of its own. -/
inductive Category where
  | digit
  | space
  | word
  deriving DecidableEq

/-- One member of a set of characters. -/
inductive SetItem where
  | single (code : Nat)
  | range (first last : Nat)
  | category (kind : Category) (negated : Bool)
  deriving DecidableEq

/-- The options of a part of a pattern. -/
structure RegexOptions where
  ignoreCase : Bool := false
  multiLine : Bool := false
  dotAll : Bool := false
  verbose : Bool := false
  ascii : Bool := false
  deriving DecidableEq

/-- A condition on a place in the text. -/
inductive Boundary where
  | start
  | lineStart
  | stop
  | lastLineStop
  | lineStop
  | word (negated ascii : Bool)
  deriving DecidableEq

/-- How a repetition chooses the number of rounds. -/
inductive Greed where
  | greedy
  | lazy
  | possessive
  deriving DecidableEq

/-- A regular expression. -/
inductive Regex where
  | never
  | empty
  | any (dotAll : Bool)
  | oneOf (negated : Bool) (items : List SetItem) (options : RegexOptions)
  | at (place : Boundary)
  | seq (first second : Regex)
  | alt (first second : Regex)
  | rep (greed : Greed) (least : Nat) (most : Option Nat) (body : Regex)
  | group (index : Nat) (body : Regex)
  | same (index : Nat) (options : RegexOptions)
  | ahead (negated : Bool) (body : Regex)
  | behind (negated : Bool) (width : Nat) (body : Regex)
  | atomic (body : Regex)
  | ifGroup (index : Nat) (yes no : Regex)

namespace CaseFolding

/-- Small letters that share a capital. -/
def families : List (List Nat) :=
  [[0x69, 0x131], [0x73, 0x17f], [0xb5, 0x3bc], [0x345, 0x3b9, 0x1fbe], [0x390, 0x1fd3],
   [0x3b0, 0x1fe3], [0x3b2, 0x3d0], [0x3b5, 0x3f5], [0x3b8, 0x3d1], [0x3ba, 0x3f0],
   [0x3c0, 0x3d6], [0x3c1, 0x3f1], [0x3c2, 0x3c3], [0x3c6, 0x3d5], [0x432, 0x1c80],
   [0x434, 0x1c81], [0x43e, 0x1c82], [0x441, 0x1c83], [0x442, 0x1c84, 0x1c85], [0x44a, 0x1c86],
   [0x463, 0x1c87], [0x1c88, 0xa64b], [0x1e61, 0x1e9b], [0xfb05, 0xfb06]]

/-- The letter itself and those that share its capital. -/
def family (code : Nat) : List Nat :=
  (families.find? (·.contains code)).getD [code]

/-- The first character of a case mapping. -/
def mapped (table : Text.MapTable) (code : Nat) : Nat :=
  match table.apply (Char.ofNat code) with
  | c :: _ => if code < 0x110000 ∧ ¬(0xD800 ≤ code ∧ code < 0xE000) then c.toNat else code
  | [] => code

/-- The small form of a character. -/
def lower (ascii : Bool) (code : Nat) : Nat :=
  if ascii then (if 65 ≤ code ∧ code ≤ 90 then code + 32 else code)
  else mapped Text.lowerTable code

/-- Whether a character has another form in the other case. -/
def isCased (ascii : Bool) (code : Nat) : Bool :=
  if ascii then (65 ≤ code && code ≤ 90) || (97 ≤ code && code ≤ 122)
  else lower false code != code || mapped Text.upperTable code != code

/-- Whether a character given in its small form stands for another in either case. -/
def sameLetter (ascii : Bool) (small code : Nat) : Bool :=
  let l := lower ascii code
  small == l || (!ascii && (family l).contains small)

end CaseFolding

namespace Category

/-- Whether a character is of a class. -/
def holds (ascii : Bool) (kind : Category) (code : Nat) : Bool :=
  let c := Char.ofNat code
  if ascii then
    match kind with
    | .digit => c.isDigit
    | .space => c == ' ' || (9 ≤ code && code ≤ 13)
    | .word => c.isAlphanum || c == '_'
  else
    match kind with
    | .digit => Text.isDigit c
    | .space => Text.isBlank c
    | .word => Text.isWordChar c

end Category

namespace SetItem

/-- Whether a member takes a character as it stands. -/
def accepts (ascii : Bool) (code : Nat) : SetItem → Bool
  | .single c => c == code
  | .range a b => a ≤ code && code ≤ b
  | .category kind negated => kind.holds ascii code != negated

/-- Whether a member takes a character given in its small form, in either case. -/
def acceptsFolded (ascii : Bool) (small : Nat) : SetItem → Bool
  | .single c => CaseFolding.sameLetter ascii small c
  | .range a b => (List.range (b + 1 - a)).any fun k => CaseFolding.sameLetter ascii small (a + k)
  | .category kind negated => kind.holds ascii small != negated

/-- Whether a member has letters with two cases. -/
def isCased (ascii : Bool) : SetItem → Bool
  | .single c => CaseFolding.isCased ascii c
  | .range a b => (List.range (b + 1 - a)).any fun k => CaseFolding.isCased ascii (a + k)
  | .category _ _ => false

end SetItem

/-- Whether a set of characters takes a character. -/
def setAccepts (negated : Bool) (items : List SetItem) (o : RegexOptions) (c : Char) : Bool :=
  let found :=
    if o.ignoreCase && items.any (SetItem.isCased o.ascii) then
      let small := CaseFolding.lower o.ascii c.toNat
      items.any (SetItem.acceptsFolded o.ascii small)
    else items.any (SetItem.accepts o.ascii c.toNat)
  found != negated

end RouteLens
