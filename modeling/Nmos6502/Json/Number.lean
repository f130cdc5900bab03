/-!
The numbers of JSON. Those written with digits alone are natural numbers of any size; a sign, a
fraction or an exponent makes another number, which is kept as it is written.
-/

namespace Nmos6502.Json

inductive Number where
  | natural (value : Nat)
  | other (literal : String)
  deriving DecidableEq

namespace Number

def digits (input : List Char) : List Char × List Char :=
  input.span Char.isDigit

def someDigits? (input : List Char) : Option (List Char × List Char) :=
  match digits input with
  | ([], _) => none
  | found => some found

def sign : List Char → List Char × List Char
  | '-' :: rest => (['-'], rest)
  | rest => ([], rest)

/-- The digits before the point. A zero in front is the only one. -/
def integer? : List Char → Option (List Char × List Char)
  | '0' :: rest => some (['0'], rest)
  | rest => someDigits? rest

def fraction? : List Char → Option (List Char × List Char)
  | '.' :: rest => do
      let (found, after) ← someDigits? rest
      return ('.' :: found, after)
  | rest => some ([], rest)

def exponentSign : List Char → List Char × List Char
  | '+' :: rest => (['+'], rest)
  | rest => sign rest

def exponent? (input : List Char) : Option (List Char × List Char) :=
  match input with
  | [] => some ([], [])
  | letter :: rest => do
      if letter = 'e' ∨ letter = 'E' then
        let (sign, rest) := exponentSign rest
        let (found, after) ← someDigits? rest
        return (letter :: sign ++ found, after)
      else
        return ([], input)

def valueOfDigits (digits : List Char) : Nat :=
  digits.foldl (fun value digit => 10 * value + (digit.toNat - '0'.toNat)) 0

def scan (input : List Char) : Option (Number × List Char) := do
  let (sign, rest) := sign input
  let (integer, rest) ← integer? rest
  let (fraction, rest) ← fraction? rest
  let (exponent, rest) ← exponent? rest
  if sign.isEmpty ∧ fraction.isEmpty ∧ exponent.isEmpty then
    return (.natural (valueOfDigits integer), rest)
  else
    return (.other (String.ofList (sign ++ integer ++ fraction ++ exponent)), rest)

def spell : Number → List Char
  | natural value => Nat.toDigits 10 value
  | other literal => literal.toList

end Number

end Nmos6502.Json
