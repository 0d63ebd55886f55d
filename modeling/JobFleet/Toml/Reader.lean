/-
  JobFleet.Toml.Reader: reading a TOML document.

  The document becomes the members of a JSON object.  Values nest at most `deepest` levels, and a
  dotted key has fewer parts than that.  Reading goes line by line with a fuel that the length of
  the text bounds.
-/
import JobFleet.Toml.Quoted
import JobFleet.Toml.Scalar
import JobFleet.Toml.Table

namespace JobFleet.Toml

/-! ## Keys -/

/-- How deep values and keys may nest, exclusive. -/
def deepest : Nat := 80

/-- A character of a key without quotes. -/
def isBareKeyChar (c : Char) : Bool := c.isAlphanum || c == '_' || c == '-'

/-- The text without blanks at its start. -/
def skipBlanks (cs : List Char) : List Char := cs.dropWhile isBlankInLine

/-- One part of a key, and what follows. -/
def keyPart? (cs : List Char) : Option (String × List Char) :=
  let bare := cs.takeWhile isBareKeyChar
  if bare.isEmpty then (quotedKey? cs).map (fun r => (String.ofList r.1, r.2))
  else some (String.ofList bare, cs.dropWhile isBareKeyChar)

/-- The parts of a dotted key, and what follows the blanks after it. -/
def keyParts? : Nat → List Char → Option (List String × List Char)
  | 0, _ => none
  | fuel + 1, cs => do
    let (part, rest) ← keyPart? (skipBlanks cs)
    match skipBlanks rest with
    | '.' :: rest => (keyParts? fuel rest).map (fun r => (part :: r.1, r.2))
    | rest => some ([part], rest)

/-- A dotted key: the parts before the last, the last, and what follows. -/
def key? (cs : List Char) : Option (List String × String × List Char) := do
  let (parts, rest) ← keyParts? deepest cs
  let last ← parts.getLast?
  if parts.length < deepest then some (parts.dropLast, last, rest) else none

/-! ## Blank space -/

/-- What follows a comment, if one comes first; none when a character is not allowed in it. -/
def skipComment? : List Char → Option (List Char)
  | '#' :: rest =>
    let rest := rest.dropWhile isPlain
    if rest.isEmpty ∨ (lineBreak? rest).isSome then some rest else none
  | rest => some rest

/-- What follows blanks, comments and line breaks. -/
def skipSpace? : Nat → List Char → Option (List Char)
  | 0, _ => none
  | fuel + 1, cs => do
    let rest ← skipComment? (skipBlanks cs)
    match lineBreak? rest with
    | some rest => skipSpace? fuel rest
    | none => some rest

/-- What follows the rest of a line, when it holds nothing but blanks and a comment. -/
def endLine? (cs : List Char) : Option (List Char) := do
  let rest ← skipComment? (skipBlanks cs)
  if rest.isEmpty then some [] else lineBreak? rest

/-! ## Values -/

mutual

/-- A value within `depth` levels, and what follows. -/
def value? : Nat → Nat → List Char → Option (Json × List Char)
  | 0, _, _ => none
  | fuel + 1, depth, cs =>
    match cs with
    | '[' :: rest =>
      match depth with
      | depth + 1 => do
        match ← skipSpace? (rest.length + 1) rest with
        | ']' :: rest => some (.arr [], rest)
        | rest => (items? fuel depth rest).map (fun r => (.arr r.1, r.2))
      | 0 => none
    | '\x7b' :: rest =>
      match depth with
      | depth + 1 =>
        match skipBlanks rest with
        | '\x7d' :: rest => some (.obj [], rest)
        | rest => (pairs? fuel depth [] rest).map (fun r => (.obj (Node.members r.1), r.2))
      | 0 => none
    | '"' :: _ => (quoted? cs).map (fun r => (.str (String.ofList r.1), r.2))
    | '\'' :: _ => (quoted? cs).map (fun r => (.str (String.ofList r.1), r.2))
    | _ =>
      let (run, rest) := scalarRun cs
      (scalar? run).map (fun v => (v, rest))

/-- The items of an array up to its closing bracket, at least one. -/
def items? : Nat → Nat → List Char → Option (List Json × List Char)
  | 0, _, _ => none
  | fuel + 1, depth, cs => do
    let (item, rest) ← value? fuel depth cs
    match ← skipSpace? (rest.length + 1) rest with
    | ']' :: rest => some ([item], rest)
    | ',' :: rest =>
      match ← skipSpace? (rest.length + 1) rest with
      | ']' :: rest => some ([item], rest)
      | rest => (items? fuel depth rest).map (fun r => (item :: r.1, r.2))
    | _ => none

/-- The pairs of an inline table up to its closing brace, at least one, added to those read
    before. -/
def pairs? : Nat → Nat → Entries → List Char → Option (Entries × List Char)
  | 0, _, _, _ => none
  | fuel + 1, depth, before, cs => do
    let (path, last, rest) ← key? cs
    match rest with
    | '=' :: rest =>
      let (value, rest) ← value? fuel depth (skipBlanks rest)
      let now ← assign path last value ⟨.header, before⟩
      match skipBlanks rest with
      | ',' :: rest => pairs? fuel depth now rest
      | '\x7d' :: rest => some (now, rest)
      | _ => none
    | _ => none

end

/-! ## Lines -/

/-- Reads the lines of a document into its tables; `header` is the path of the table they stand
    in. -/
def lines? : Nat → List String → Entries → List Char → Option Entries
  | 0, _, _, _ => none
  | fuel + 1, header, root, cs =>
    match skipBlanks cs with
    | [] => some root
    | '[' :: '[' :: rest => do
      let (path, last, rest) ← key? rest
      match rest with
      | ']' :: ']' :: rest =>
        let root ← openItem path last root
        lines? fuel (path ++ [last]) root (← endLine? rest)
      | _ => none
    | '[' :: rest => do
      let (path, last, rest) ← key? rest
      match rest with
      | ']' :: rest =>
        let root ← openTable path last root
        lines? fuel (path ++ [last]) root (← endLine? rest)
      | _ => none
    | '#' :: rest => do
      lines? fuel header root (← endLine? ('#' :: rest))
    | rest =>
      match lineBreak? rest with
      | some rest => lines? fuel header root rest
      | none => do
        let (path, last, rest) ← key? rest
        match rest with
        | '=' :: rest =>
          let (value, rest) ← value? (2 * rest.length + 2) (deepest - 1) (skipBlanks rest)
          let root ← assignUnder header path last value root
          lines? fuel header root (← endLine? rest)
        | _ => none

/-- The text without a byte order mark at its start. -/
def skipMark : List Char → List Char
  | '\uFEFF' :: rest => rest
  | rest => rest

/-- The members of the object that a document describes. -/
def read? (s : String) : Option (List (String × Json)) :=
  let cs := skipMark s.toList
  (lines? (cs.length + 1) [] [] cs).map Node.members

end JobFleet.Toml
