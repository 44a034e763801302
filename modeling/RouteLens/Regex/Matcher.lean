import RouteLens.Regex

/-!
# Matching

Backtracking search.  A part is matched at a place and hands every place it can reach, in order of
preference, to the rest of the expression; the first success wins.  A round of a repetition that
takes no character is not followed by another one, so that the length of the text bounds the number
of rounds.
-/

namespace RouteLens

/-- A place in a text: what stands before it, nearest first, what follows, and the text that each
group has taken so far. -/
structure Spot where
  before : List Char
  rest : List Char
  groups : List (Nat × List Char)

namespace Spot

/-- The start of a text. -/
def start (cs : List Char) : Spot :=
  ⟨[], cs, []⟩

/-- The text that a group has taken. -/
def group? (s : Spot) (index : Nat) : Option (List Char) :=
  s.groups.lookup index

/-- The place after a number of characters. -/
def advance (s : Spot) (n : Nat) : Spot :=
  { s with before := (s.rest.take n).reverse ++ s.before, rest := s.rest.drop n }

/-- The place before a number of characters, if there are so many. -/
def back? (s : Spot) (n : Nat) : Option Spot :=
  if s.before.length < n then none
  else some { s with before := s.before.drop n, rest := (s.before.take n).reverse ++ s.rest }

/-- Whether a condition holds at a place. -/
def holds (s : Spot) : Boundary → Bool
  | .start => s.before.isEmpty
  | .lineStart => s.before.head?.all (· == '\n')
  | .stop => s.rest.isEmpty
  | .lastLineStop => s.rest.isEmpty || s.rest == ['\n']
  | .lineStop => s.rest.head?.all (· == '\n')
  | .word negated ascii =>
    let isWord (c : Option Char) : Bool := c.any fun c => Category.word.holds ascii c.toNat
    ((isWord s.before.head? != isWord s.rest.head?) != negated) &&
      !(s.before.isEmpty && s.rest.isEmpty)

end Spot

namespace Regex

/-- What is to be matched after a part. -/
abbrev Rest := Spot → Option Spot

/-- A matcher: from a place, and with what is to be matched after it. -/
abbrev Matcher := Spot → Rest → Option Spot

/-- Whether another round is allowed. -/
def mayRepeat (most : Option Nat) (count : Nat) : Bool :=
  most.all (count < ·)

/-- Rounds of a greedy repetition: as many as possible, then fewer.  `last` is the length of the
text that was left before the last optional round. -/
def greedyRounds (body : Matcher) (least : Nat) (most : Option Nat) :
    Nat → Nat → Option Nat → Matcher
  | 0, _, _, _, _ => none
  | fuel + 1, count, last, s, k =>
    if count < least then
      body s fun t => greedyRounds body least most fuel (count + 1) last t k
    else if mayRepeat most count && last != some s.rest.length then
      (body s fun t =>
        greedyRounds body least most fuel (count + 1) (some s.rest.length) t k) <|> k s
    else k s

/-- Rounds of a lazy repetition: as few as possible, then more. -/
def lazyRounds (body : Matcher) (least : Nat) (most : Option Nat) :
    Nat → Nat → Option Nat → Matcher
  | 0, _, _, _, _ => none
  | fuel + 1, count, last, s, k =>
    if count < least then
      body s fun t => lazyRounds body least most fuel (count + 1) last t k
    else
      k s <|>
        if mayRepeat most count && last != some s.rest.length then
          body s fun t =>
            lazyRounds body least most fuel (count + 1) (some s.rest.length) t k
        else none

/-- Rounds of a possessive repetition: as many as possible, and no fewer. -/
def possessiveRounds (body : Matcher) (least : Nat) (most : Option Nat) :
    Nat → Nat → Spot → Option Spot
  | 0, _, _ => none
  | fuel + 1, count, s =>
    if count < least then
      (body s some).bind (possessiveRounds body least most fuel (count + 1))
    else if mayRepeat most count then
      match body s some with
      | none => some s
      | some t =>
        if t.rest.length == s.rest.length then some t
        else possessiveRounds body least most fuel (count + 1) t
    else some s

/-- Matches a repetition. -/
def rounds (greed : Greed) (body : Matcher) (least : Nat) (most : Option Nat) : Matcher :=
  fun s k =>
    let fuel := least + s.rest.length + 3
    match greed with
    | .greedy => greedyRounds body least most fuel 0 none s k
    | .lazy => lazyRounds body least most fuel 0 none s k
    | .possessive => (possessiveRounds body least most fuel 0 s).bind k

/-- Whether two characters are the same under the options of a pattern. -/
def sameChar (o : RegexOptions) (a b : Char) : Bool :=
  if o.ignoreCase then
    CaseFolding.lower o.ascii a.toNat == CaseFolding.lower o.ascii b.toNat
  else a == b

/-- Whether a list starts with another under the options of a pattern. -/
def startsWithSame (o : RegexOptions) : List Char → List Char → Bool
  | [], _ => true
  | _ :: _, [] => false
  | a :: as, b :: bs => sameChar o a b && startsWithSame o as bs

/-- Matches an expression. -/
def run : Regex → Matcher
  | .never, _, _ => none
  | .empty, s, k => k s
  | .any dotAll, s, k =>
    match s.rest with
    | [] => none
    | c :: _ => if dotAll || c != '\n' then k (s.advance 1) else none
  | .oneOf negated items o, s, k =>
    match s.rest with
    | [] => none
    | c :: _ => if setAccepts negated items o c then k (s.advance 1) else none
  | .at place, s, k => if s.holds place then k s else none
  | .seq a b, s, k => a.run s fun t => b.run t k
  | .alt a b, s, k => a.run s k <|> b.run s k
  | .rep greed least most body, s, k => rounds greed body.run least most s k
  | .group i body, s, k =>
    body.run s fun t =>
      let taken := (t.before.take (t.before.length - s.before.length)).reverse
      k { t with groups := (i, taken) :: t.groups }
  | .same i o, s, k =>
    match s.group? i with
    | none => none
    | some cs => if startsWithSame o cs s.rest then k (s.advance cs.length) else none
  | .ahead negated body, s, k =>
    match body.run s some with
    | none => if negated then k s else none
    | some t => if negated then none else k { s with groups := t.groups }
  | .behind negated width body, s, k =>
    match (s.back? width).bind fun t => body.run t some with
    | none => if negated then k s else none
    | some t => if negated then none else k { s with groups := t.groups }
  | .atomic body, s, k => (body.run s some).bind k
  | .ifGroup i yes no, s, k => if (s.group? i).isSome then yes.run s k else no.run s k

/-- Whether an expression matches somewhere from a place on. -/
def matchesFrom (r : Regex) (before : List Char) : List Char → Bool
  | [] => (r.run ⟨before, [], []⟩ some).isSome
  | c :: cs => (r.run ⟨before, c :: cs, []⟩ some).isSome || matchesFrom r (c :: before) cs

/-- Whether an expression matches somewhere in a text. -/
def search (r : Regex) (s : String) : Bool :=
  r.matchesFrom [] s.toList

end Regex

end RouteLens
