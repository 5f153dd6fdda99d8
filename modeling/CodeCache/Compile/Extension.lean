/-
Extensions of cache files, with their leading point.
-/
import CodeCache.Compile.Error

namespace CodeCache.Extension

/-- the extension caches have by default -/
def standard : Text := ".bin"

/-- a slash or a backslash: it would lead into another directory -/
def isSeparator (c : Char) : Bool := c == '/' || c == '\\'

/-- the text without one leading point -/
def bare (t : Text) : Text := (['.'].isPrefixOf? t).getD t

/-- the extension with exactly the leading point that it may lack -/
def normalize (t : Text) : Except OptionsError Text :=
  if (bare t).isEmpty || (bare t).any isSeparator then .error (.invalidExtension t)
  else .ok ('.' :: bare t)

end CodeCache.Extension
