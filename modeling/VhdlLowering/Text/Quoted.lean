import VhdlLowering.Text.Printable

/-!
# Quoted text

A text that is shown inside a message stands between quotes. Quotes, backslashes and the common
control characters are escaped by a backslash, and every other character that cannot be seen on its
own by its number in hexadecimal digits.
-/

namespace VhdlLowering
namespace Text

def quoteChar (c : Char) : List Char :=
  if c = '"' then ['\\', '"']
  else if c = '\\' then ['\\', '\\']
  else if c = '\n' then ['\\', 'n']
  else if c = '\r' then ['\\', 'r']
  else if c = '\t' then ['\\', 't']
  else if c.toNat = 0 then ['\\', '0']
  else if isPrintable c then [c]
  else "\\u\x7b".toList ++ Nat.toDigits 16 c.toNat ++ "\x7d".toList

def quote (s : String) : String := String.ofList ('"' :: s.toList.flatMap quoteChar ++ ['"'])

end Text
end VhdlLowering
