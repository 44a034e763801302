import RouteLens.Text.Compatibility

/-!
# Names of characters

An escape may give a character by its name.  The names depend on the edition of the character set,
and a full list of them is not written down here: everything that reads source text takes one as an
instance.  The instance at the end of this file holds the names in common use.
-/

namespace RouteLens

/-- The names of the characters in an edition of the character set. -/
class CharacterNames (edition : outParam Nat) where
  /-- The character that a name stands for. -/
  find? : String → Option Char

namespace Text

/-- Runs of characters in order: the code point of the first, how all the names start, and how each
of them goes on. -/
def commonRuns : List String :=
  ["0::NULL,START OF HEADING,START OF TEXT,END OF TEXT,END OF TRANSMISSION,ENQUIRY,ACKNOWLEDGE",
   "7::ALERT,BACKSPACE,CHARACTER TABULATION,LINE FEED,LINE TABULATION,FORM FEED",
   "d::CARRIAGE RETURN,SHIFT OUT,SHIFT IN,DATA LINK ESCAPE,DEVICE CONTROL ONE",
   "12::DEVICE CONTROL TWO,DEVICE CONTROL THREE,DEVICE CONTROL FOUR,NEGATIVE ACKNOWLEDGE",
   "16::SYNCHRONOUS IDLE,END OF TRANSMISSION BLOCK,CANCEL,END OF MEDIUM,SUBSTITUTE,ESCAPE",
   "1c::INFORMATION SEPARATOR FOUR,INFORMATION SEPARATOR THREE,INFORMATION SEPARATOR TWO",
   "1f::INFORMATION SEPARATOR ONE",
   "0::NUL,SOH,STX,ETX,EOT,ENQ,ACK,BEL,BS,HT,LF,VT,FF,CR,SO,SI,DLE,DC1,DC2,DC3,DC4,NAK,SYN,ETB",
   "18::CAN,EOM,SUB,ESC,FS,GS,RS,US,SP;9::TAB,NEW LINE;7f::DELETE;7f::DEL;85::NEXT LINE;a0::NBSP",
   "20::SPACE,EXCLAMATION MARK,QUOTATION MARK,NUMBER SIGN,DOLLAR SIGN,PERCENT SIGN,AMPERSAND",
   "27::APOSTROPHE,LEFT PARENTHESIS,RIGHT PARENTHESIS,ASTERISK,PLUS SIGN,COMMA,HYPHEN-MINUS",
   "2e::FULL STOP,SOLIDUS,DIGIT ZERO,DIGIT ONE,DIGIT TWO,DIGIT THREE,DIGIT FOUR,DIGIT FIVE",
   "36::DIGIT SIX,DIGIT SEVEN,DIGIT EIGHT,DIGIT NINE,COLON,SEMICOLON,LESS-THAN SIGN",
   "3d::EQUALS SIGN,GREATER-THAN SIGN,QUESTION MARK,COMMERCIAL AT",
   "5b::LEFT SQUARE BRACKET,REVERSE SOLIDUS,RIGHT SQUARE BRACKET,CIRCUMFLEX ACCENT,LOW LINE",
   "60::GRAVE ACCENT;7b::LEFT CURLY BRACKET,VERTICAL LINE,RIGHT CURLY BRACKET,TILDE",
   "a0::NO-BREAK SPACE,INVERTED EXCLAMATION MARK,CENT SIGN,POUND SIGN,CURRENCY SIGN,YEN SIGN",
   "a6::BROKEN BAR,SECTION SIGN,DIAERESIS,COPYRIGHT SIGN,FEMININE ORDINAL INDICATOR",
   "ab::LEFT-POINTING DOUBLE ANGLE QUOTATION MARK,NOT SIGN,SOFT HYPHEN,REGISTERED SIGN,MACRON",
   "b0::DEGREE SIGN,PLUS-MINUS SIGN,SUPERSCRIPT TWO,SUPERSCRIPT THREE,ACUTE ACCENT,MICRO SIGN",
   "b6::PILCROW SIGN,MIDDLE DOT,CEDILLA,SUPERSCRIPT ONE,MASCULINE ORDINAL INDICATOR",
   "bb::RIGHT-POINTING DOUBLE ANGLE QUOTATION MARK,VULGAR FRACTION ONE QUARTER",
   "bd::VULGAR FRACTION ONE HALF,VULGAR FRACTION THREE QUARTERS,INVERTED QUESTION MARK",
   "d7::MULTIPLICATION SIGN;f7::DIVISION SIGN",
   "41:LATIN CAPITAL LETTER :A,B,C,D,E,F,G,H,I,J,K,L,M,N,O,P,Q,R,S,T,U,V,W,X,Y,Z",
   "61:LATIN SMALL LETTER :A,B,C,D,E,F,G,H,I,J,K,L,M,N,O,P,Q,R,S,T,U,V,W,X,Y,Z",
   "c6:LATIN CAPITAL LETTER :AE;d0:LATIN CAPITAL LETTER :ETH",
   "d8:LATIN CAPITAL LETTER :O WITH STROKE;de:LATIN CAPITAL LETTER :THORN",
   "df:LATIN SMALL LETTER :SHARP S;e6:LATIN SMALL LETTER :AE;f0:LATIN SMALL LETTER :ETH",
   "f8:LATIN SMALL LETTER :O WITH STROKE;fe:LATIN SMALL LETTER :THORN",
   "391:GREEK CAPITAL LETTER :ALPHA,BETA,GAMMA,DELTA,EPSILON,ZETA,ETA,THETA,IOTA,KAPPA,LAMDA",
   "39c:GREEK CAPITAL LETTER :MU,NU,XI,OMICRON,PI,RHO",
   "3a3:GREEK CAPITAL LETTER :SIGMA,TAU,UPSILON,PHI,CHI,PSI,OMEGA",
   "3b1:GREEK SMALL LETTER :ALPHA,BETA,GAMMA,DELTA,EPSILON,ZETA,ETA,THETA,IOTA,KAPPA,LAMDA,MU",
   "3bd:GREEK SMALL LETTER :NU,XI,OMICRON,PI,RHO,FINAL SIGMA,SIGMA,TAU,UPSILON,PHI,CHI,PSI",
   "3c9:GREEK SMALL LETTER :OMEGA;2002::EN SPACE,EM SPACE",
   "2009::THIN SPACE,HAIR SPACE,ZERO WIDTH SPACE,ZERO WIDTH NON-JOINER,ZERO WIDTH JOINER",
   "200e::LEFT-TO-RIGHT MARK,RIGHT-TO-LEFT MARK",
   "2010::HYPHEN,NON-BREAKING HYPHEN,FIGURE DASH,EN DASH,EM DASH",
   "2018::LEFT SINGLE QUOTATION MARK,RIGHT SINGLE QUOTATION MARK",
   "201c::LEFT DOUBLE QUOTATION MARK,RIGHT DOUBLE QUOTATION MARK",
   "2020::DAGGER,DOUBLE DAGGER,BULLET;2026::HORIZONTAL ELLIPSIS",
   "2028::LINE SEPARATOR,PARAGRAPH SEPARATOR,LEFT-TO-RIGHT EMBEDDING,RIGHT-TO-LEFT EMBEDDING",
   "202c::POP DIRECTIONAL FORMATTING,LEFT-TO-RIGHT OVERRIDE,RIGHT-TO-LEFT OVERRIDE",
   "202f::NARROW NO-BREAK SPACE;2060::WORD JOINER;20ac::EURO SIGN;2122::TRADE MARK SIGN",
   "2190::LEFTWARDS ARROW,UPWARDS ARROW,RIGHTWARDS ARROW,DOWNWARDS ARROW,LEFT RIGHT ARROW",
   "221e::INFINITY;2260::NOT EQUAL TO;2264::LESS-THAN OR EQUAL TO,GREATER-THAN OR EQUAL TO",
   "2603::SNOWMAN;2713::CHECK MARK,HEAVY CHECK MARK",
   "3000::IDEOGRAPHIC SPACE,IDEOGRAPHIC COMMA,IDEOGRAPHIC FULL STOP",
   "feff::ZERO WIDTH NO-BREAK SPACE;fffd::REPLACEMENT CHARACTER;1f40d::SNAKE;1f600::GRINNING FACE"]

/-- Reads a run. -/
def readNames (s : String) : List (String × Nat) :=
  match s.splitToList (· == ':') with
  | [start, lead, names] =>
    (names.splitToList (· == ',')).zipIdx.map fun (name, i) => (lead ++ name, hexNumber start + i)
  | _ => []

/-- The listed names with their code points. -/
def commonNames : List (String × Nat) :=
  commonRuns.flatMap fun line => (line.splitToList (· == ';')).flatMap readNames

/-- The marks that accented letters are named by. -/
def accentNames : List (String × Nat) :=
  ["300::GRAVE,ACUTE,CIRCUMFLEX,TILDE,MACRON", "306::BREVE,DOT ABOVE,DIAERESIS,HOOK ABOVE",
   "30a::RING ABOVE,DOUBLE ACUTE,CARON", "31b::HORN", "323::DOT BELOW", "326::COMMA BELOW",
   "327::CEDILLA,OGONEK"].flatMap readNames

/-- A letter named with the mark on it. -/
def accented? (name : String) : Option Char :=
  match name.splitOn " WITH " with
  | [letter, accent] => do
    let c := Char.ofNat (← commonNames.lookup letter)
    guard c.isAlpha
    composePair? c (Char.ofNat (← accentNames.lookup accent))
  | _ => none

end Text

instance : CharacterNames 14 where
  find? name :=
    let name := name.toUpper
    ((Text.commonNames.lookup name).map Char.ofNat).or (Text.accented? name)

end RouteLens
