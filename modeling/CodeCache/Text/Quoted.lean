/-
Quoted texts, as error messages show them: between double quotes, with everything that would not be
visible on a line of its own escaped.
-/
import CodeCache.Text.Unicode
import CodeCache.Bytes

namespace CodeCache.Text

/-- one character inside quotes -/
def quoteChar (c : Char) : Text :=
  if c == '"' then ['\\', '"']
  else if c == '\\' then ['\\', '\\']
  else if c == '\n' then ['\\', 'n']
  else if c == '\r' then ['\\', 'r']
  else if c == '\t' then ['\\', 't']
  else if c == '\x00' then ['\\', '0']
  else if Unicode.isExtending c || Unicode.isHidden c then
    ['\\', 'u', '\x7b'] ++ Hex.ofNat c.toNat ++ ['\x7d']
  else [c]

/-- the text in double quotes -/
def quoted (t : Text) : Text := '"' :: t.flatMap quoteChar ++ ['"']

end CodeCache.Text
