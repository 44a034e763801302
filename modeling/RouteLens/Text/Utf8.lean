import RouteLens.Text.Quote

/-!
# UTF-8

Bytes read as text.  Overlong forms, surrogates and code points beyond the last one are refused at
the first byte that cannot continue a character.
-/

namespace RouteLens

/-- What is wrong with some bytes. -/
inductive Utf8Reason where
  | start
  | continuation
  | endOfData
  deriving DecidableEq

/-- Where bytes stop being text: a position, the number of bytes from there on that are refused, and
why. -/
structure Utf8Fault where
  position : Nat
  byte : UInt8
  count : Nat
  reason : Utf8Reason
  deriving DecidableEq

namespace Utf8Reason

/-- The wording of a reason. -/
def message : Utf8Reason → String
  | .start => "invalid start byte"
  | .continuation => "invalid continuation byte"
  | .endOfData => "unexpected end of data"

end Utf8Reason

namespace Utf8Fault

/-- The wording of a fault. -/
def message (f : Utf8Fault) : String :=
  "'utf-8' codec can't decode " ++
    (if f.count ≤ 1 then
      "byte 0x" ++ String.ofList (Text.hexDigits f.byte.toNat 2) ++ " in position " ++
        toString f.position
    else
      "bytes in position " ++ toString f.position ++ "-" ++ toString (f.position + f.count - 1)) ++
    ": " ++ f.reason.message

end Utf8Fault

namespace Utf8

/-- A byte that continues a character. -/
def isContinuation (b : UInt8) : Bool :=
  0x80 ≤ b && b < 0xC0

/-- Whether a byte may follow the first byte of a character of three or four bytes. -/
def isSecond (first b : UInt8) : Bool :=
  isContinuation b &&
    if first == 0xE0 then 0xA0 ≤ b
    else if first == 0xED then b < 0xA0
    else if first == 0xF0 then 0x90 ≤ b
    else if first == 0xF4 then b < 0x90
    else true

/-- The number of bytes of a character with this first byte; zero if there is none. -/
def lengthOf (first : UInt8) : Nat :=
  if first < 0x80 then 1
  else if first < 0xC2 then 0
  else if first < 0xE0 then 2
  else if first < 0xF0 then 3
  else if first < 0xF5 then 4
  else 0

/-- How many of the following bytes continue a character that lacks `missing` more. -/
def countContinuations : Nat → List UInt8 → Nat
  | 0, _ => 0
  | _ + 1, [] => 0
  | n + 1, b :: bs => if isContinuation b then 1 + countContinuations n bs else 0

/-- How many bytes after the first belong to its character. -/
def following (first : UInt8) : List UInt8 → Nat
  | [] => 0
  | b :: bs => if isSecond first b then 1 + countContinuations (lengthOf first - 2) bs else 0

/-- The code point of the bytes of one character. -/
def codePoint (first : UInt8) (rest : List UInt8) : Nat :=
  let head := match rest.length with
    | 0 => first.toNat
    | 1 => first.toNat % 32
    | 2 => first.toNat % 16
    | _ => first.toNat % 8
  rest.foldl (fun n b => n * 64 + b.toNat % 64) head

/-- Reads bytes from a position on. -/
def decodeFrom : Nat → Nat → List UInt8 → List Char → Except Utf8Fault (List Char)
  | 0, _, _, done => .ok done.reverse
  | _ + 1, _, [], done => .ok done.reverse
  | fuel + 1, at_, b :: bs, done =>
    let n := lengthOf b
    if n = 0 then .error ⟨at_, b, 1, .start⟩
    else if n = 1 then decodeFrom fuel (at_ + 1) bs (Char.ofNat b.toNat :: done)
    else
      let k := following b bs
      if k + 1 = n then
        decodeFrom fuel (at_ + n) (bs.drop k) (Char.ofNat (codePoint b (bs.take k)) :: done)
      else if bs.length = k then .error ⟨at_, b, k + 1, .endOfData⟩
      else .error ⟨at_, b, k + 1, .continuation⟩

/-- Reads bytes as text. -/
def decode (bytes : List UInt8) : Except Utf8Fault String :=
  (decodeFrom (bytes.length + 1) 0 bytes []).map String.ofList

end Utf8

end RouteLens
