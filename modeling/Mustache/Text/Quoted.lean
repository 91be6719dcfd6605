import Mustache.Text.Unprintable

/-!
# Mustache.Text.Quoted

Text between double quotes, as error messages show names: a quote, a backslash and the common
controls have an escape of two characters, and any other unprintable character stands as its
number in braces. A single quote stands for itself.
-/

namespace Mustache
namespace Text

def quotedChar (c : Char) : List Char :=
  if c = '\x00' then ['\\', '0']
  else if c = '\t' then ['\\', 't']
  else if c = '\r' then ['\\', 'r']
  else if c = '\n' then ['\\', 'n']
  else if c = '"' ∨ c = '\\' then ['\\', c]
  else if isUnprintable c then '\\' :: 'u' :: '\x7b' :: Nat.toDigits 16 c.toNat ++ ['\x7d']
  else [c]

def quoted (text : String) : String :=
  String.ofList ('"' :: text.toList.flatMap quotedChar ++ ['"'])

end Text
end Mustache
