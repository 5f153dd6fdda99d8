/-
Placeholder sources.

An engine checks a cache against the source it is loaded with by length alone. A string literal of
the declared length, filled with a character nobody sees, stands in for the source, which then never
has to ship.
-/
import CodeCache.Text.Utf8

namespace CodeCache.Placeholder

/-- the zero width space -/
def filler : Char := '\u200B'

/-- a quoted run of filler whose length in code units is `length`; lengths 0 and 1 leave no room for
the quotes and give the empty text -/
def source (length : UInt32) : Text :=
  if length ≤ 1 then [] else '"' :: List.replicate (length.toNat - 2) filler ++ ['"']

/-- the size of `source length` in UTF-8, without building it -/
def utf8Size (length : UInt32) : UInt64 :=
  if length ≤ 1 then 0 else 2 + (length - 2).toUInt64 * UInt64.ofNat (Utf8.sizeOf filler)

end CodeCache.Placeholder
