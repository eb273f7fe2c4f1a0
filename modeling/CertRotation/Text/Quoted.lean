import CertRotation.Text.Extending

/-!
# Quoted text

Text between double quotes, as error messages show it. Quotes and backslashes get a backslash; the usual
controls have letters; characters without a printed form, and marks that would join the one before them,
are given by their code point.
-/
namespace CertRotation.Text.Quoted

/-- The code point in base 16 without leading zeros, in braces. -/
def codePoint (c : Char) : List Char :=
  "\\u\x7b".toList ++ Nat.toDigits 16 c.toNat ++ ['\x7d']

def escape (c : Char) : List Char :=
  if c = '\x00' then ['\\', '0']
  else if c = '\t' then ['\\', 't']
  else if c = '\r' then ['\\', 'r']
  else if c = '\n' then ['\\', 'n']
  else if c = '"' ∨ c = '\\' then ['\\', c]
  else if isExtending c || isUnprintable c then codePoint c
  else [c]

def quote (s : String) : String := String.ofList ('"' :: s.toList.flatMap escape ++ ['"'])

end CertRotation.Text.Quoted
