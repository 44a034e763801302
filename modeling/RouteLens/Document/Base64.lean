/-!
# Base 64

Bytes written with sixty-four characters, four characters for three bytes.
-/

namespace RouteLens.Base64

/-- The characters, in order of their values. -/
def alphabet : List Char :=
  "ABCDEFGHIJKLMNOPQRSTUVWXYZabcdefghijklmnopqrstuvwxyz0123456789+/".toList

/-- The character of a value below sixty-four. -/
def digit (n : Nat) : Char :=
  alphabet.getD n '='

/-- The value of a character. -/
def value? (c : Char) : Option Nat :=
  alphabet.findIdx? (· == c)

/-- Writes bytes. -/
def encode : List UInt8 → List Char
  | [] => []
  | [a] =>
    let n := a.toNat * 16
    [digit (n / 64), digit (n % 64), '=', '=']
  | [a, b] =>
    let n := (a.toNat * 256 + b.toNat) * 4
    [digit (n / 4096), digit (n / 64 % 64), digit (n % 64), '=']
  | a :: b :: c :: rest =>
    let n := (a.toNat * 256 + b.toNat) * 256 + c.toNat
    digit (n / 262144) :: digit (n / 4096 % 64) :: digit (n / 64 % 64) :: digit (n % 64) ::
      encode rest

/-- The values up to the padding that ends them; characters that are no digits are passed over.
`pads` counts the padding characters in a row. -/
def digits? (done : List Nat) (pads : Nat) : List Char → Option (List Nat)
  | [] => if done.length % 4 == 0 then some done.reverse else none
  | c :: cs =>
    if c == '=' then
      if 2 ≤ done.length % 4 && 4 ≤ done.length % 4 + (pads + 1) then some done.reverse
      else digits? done (pads + 1) cs
    else
      match value? c with
      | some n => digits? (n :: done) 0 cs
      | none => digits? done pads cs

/-- The bytes of values, three of four at a time. -/
def bytesOf : List Nat → List UInt8
  | a :: b :: c :: d :: rest =>
    let n := ((a * 64 + b) * 64 + c) * 64 + d
    UInt8.ofNat (n / 65536) :: UInt8.ofNat (n / 256 % 256) :: UInt8.ofNat (n % 256) :: bytesOf rest
  | [a, b, c] =>
    let n := (a * 64 + b) * 64 + c
    [UInt8.ofNat (n / 1024), UInt8.ofNat (n / 4 % 256)]
  | [a, b] => [UInt8.ofNat ((a * 64 + b) / 16)]
  | _ => []

/-- Reads bytes. -/
def decode? (cs : List Char) : Option (List UInt8) :=
  (digits? [] 0 cs).map bytesOf

end RouteLens.Base64
