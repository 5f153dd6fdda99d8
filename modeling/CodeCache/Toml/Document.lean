/-
Documents in TOML: lines that are headers, entries or comments, read into one table.
-/
import CodeCache.Toml.Quoted
import CodeCache.Toml.Scalar
import CodeCache.Toml.Tree

namespace CodeCache.Toml

/-! ## Between values -/

/-- blanks, line ends and comments are passed over; `comment` says whether the text starts inside
one -/
def skipTrivia? (comment : Bool) : Text → Option Text
  | [] => some []
  | c :: rest =>
    if c == '\n' then skipTrivia? false rest
    else if c == '\r' then if rest.head? == some '\n' then skipTrivia? false rest else none
    else if comment then if isPlain c then skipTrivia? true rest else none
    else if isBlank c then skipTrivia? false rest
    else if c == '#' then skipTrivia? true rest
    else some (c :: rest)

/-- nothing but a comment may come before the end of the line -/
def endLine? (t : Text) : Option Text :=
  match t.dropWhile isBlank with
  | [] => some []
  | '#' :: rest => skipTrivia? true rest
  | rest => lineEnd? rest

/-! ## Keys -/

def isBareKeyChar (c : Char) : Bool := c.isAlphanum || c == '_' || c == '-'

def readSimpleKey? : Text → Option (Text × Text)
  | '"' :: rest => readString? false '"' rest
  | '\'' :: rest => readString? false '\'' rest
  | t =>
    let key := t.takeWhile isBareKeyChar
    if key.isEmpty then none else some (key, t.dropWhile isBareKeyChar)

/-- keys with points between them, and the text after them and their blanks -/
def readKey? : Nat → Text → Option (List Text × Text)
  | 0, _ => none
  | fuel + 1, t => do
    let (key, rest) ← readSimpleKey? (t.dropWhile isBlank)
    match rest.dropWhile isBlank with
    | '.' :: rest => do
      let (keys, rest) ← readKey? fuel rest
      some (key :: keys, rest)
    | rest => some ([key], rest)

/-- the keys of an entry, and the text of its value -/
def readEntryKey? (t : Text) : Option (List Text × Text) := do
  let (keys, rest) ← readKey? (t.length + 1) t
  let rest ← after? '=' rest
  some (keys, rest.dropWhile isBlank)

/-! ## Values -/

/-- how deep arrays and tables may be nested in one value -/
def deepest : Nat := 80

mutual

def readValue? : Nat → Nat → Text → Option (Value × Text)
  | 0, _, _ => none
  | fuel + 1, depth, t =>
    match t with
    | '"' :: rest => (readString? true '"' rest).map fun (content, rest) => (.str content, rest)
    | '\'' :: rest => (readString? true '\'' rest).map fun (content, rest) => (.str content, rest)
    | '[' :: rest =>
      match depth with
      | 0 => none
      | depth + 1 => (readItems? fuel depth rest).map fun (items, rest) => (.array items, rest)
    | '\x7b' :: rest =>
      match depth with
      | 0 => none
      | depth + 1 =>
        (readInline? fuel depth [] rest).map fun (entries, rest) =>
          (.table (entriesToValues entries), rest)
    | t => do
      let (text, rest) := takeScalar t
      let value ← scalar? text
      some (value, rest)

/-- the items of an array up to its closing bracket -/
def readItems? : Nat → Nat → Text → Option (List Value × Text)
  | 0, _, _ => none
  | fuel + 1, depth, t => do
    let t ← skipTrivia? false t
    match t with
    | ']' :: rest => some ([], rest)
    | t => do
      let (item, rest) ← readValue? fuel depth t
      match ← skipTrivia? false rest with
      | ']' :: rest => some ([item], rest)
      | ',' :: rest => do
        let (items, rest) ← readItems? fuel depth rest
        some (item :: items, rest)
      | _ => none

/-- the entries of a table up to its closing brace -/
def readInline? : Nat → Nat → Entries → Text → Option (Entries × Text)
  | 0, _, _, _ => none
  | fuel + 1, depth, entries, t => do
    let t ← skipTrivia? false t
    match t with
    | '\x7d' :: rest => some (entries, rest)
    | t => do
      let (keys, rest) ← readEntryKey? t
      let (value, rest) ← readValue? fuel depth rest
      let entries ← Entries.insert? value keys entries
      match ← skipTrivia? false rest with
      | '\x7d' :: rest => some (entries, rest)
      | ',' :: rest => readInline? fuel depth entries rest
      | _ => none

end

/-! ## Lines -/

/-- one line that says something -/
inductive Line where
  /-- `[keys]` -/
  | table (keys : List Text)
  /-- `[[keys]]` -/
  | item (keys : List Text)
  /-- `keys = value` -/
  | entry (keys : List Text) (value : Value)
deriving Repr

/-- a line without its end; the text starts with no blank -/
def readLine? (t : Text) : Option (Line × Text) :=
  match t with
  | '[' :: '[' :: rest => do
    let (keys, rest) ← readKey? (rest.length + 1) rest
    let rest ← after? ']' rest
    let rest ← after? ']' rest
    some (.item keys, rest)
  | '[' :: rest => do
    let (keys, rest) ← readKey? (rest.length + 1) rest
    let rest ← after? ']' rest
    some (.table keys, rest)
  | t => do
    let (keys, rest) ← readEntryKey? t
    let (value, rest) ← readValue? (2 * rest.length + 2) deepest rest
    some (.entry keys value, rest)

/-- all lines of a text; each takes at least one character -/
def readDocument? : Nat → Text → Option (List Line)
  | 0, _ => none
  | fuel + 1, t => do
    let t ← skipTrivia? false t
    if t.isEmpty then some []
    else
      let (line, rest) ← readLine? t
      let rest ← endLine? rest
      let lines ← readDocument? fuel rest
      some (line :: lines)

/-- the keys of the last header, and the entries so far, after one line -/
def Line.apply? : List Text × Entries → Line → Option (List Text × Entries)
  | (_, entries), .table keys =>
    (Entries.openTable? keys entries).map fun entries => (keys, entries)
  | (_, entries), .item keys => (Entries.openItem? keys entries).map fun entries => (keys, entries)
  | (header, entries), .entry keys value =>
    (Entries.insertUnder? keys value header entries).map fun entries => (header, entries)

/-- the table a text writes; a byte order mark in front of it is passed over -/
def parse? (t : Text) : Option Value := do
  let t := (['\uFEFF'].isPrefixOf? t).getD t
  let lines ← readDocument? (t.length + 1) t
  let (_, entries) ← lines.foldlM Line.apply? ([], [])
  some (.table (entriesToValues entries))

end CodeCache.Toml
