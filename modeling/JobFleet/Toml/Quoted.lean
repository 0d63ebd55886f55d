/-
  JobFleet.Toml.Quoted: quoted texts in a TOML document.

  A text in double quotes has escapes, one in single quotes has none.  Three quotes open a text over
  several lines: a line break right after them is dropped, up to two quotes may stand before the
  closing three, and in double quotes a backslash at the end of a line swallows the blanks and line
  breaks after it.
-/
import JobFleet.Json.Reader

namespace JobFleet.Toml

/-! ## Characters -/

/-- A character that may stand in a text or a comment: a tab, or anything that is no control
    character. -/
def isPlain (c : Char) : Bool := c == '\t' || (0x20 ≤ c.toNat && c.toNat != 0x7F)

/-- A blank within a line. -/
def isBlankInLine (c : Char) : Bool := c == ' ' || c == '\t'

/-- What follows a line break, if one comes first. -/
def lineBreak? : List Char → Option (List Char)
  | '\n' :: rest => some rest
  | '\r' :: '\n' :: rest => some rest
  | _ => none

/-- The character with a code point, if it is one. -/
def scalarValue? (n : Nat) : Option Char :=
  if n < 0x110000 ∧ ¬ (0xD800 ≤ n ∧ n < 0xE000) then some (Char.ofNat n) else none

/-- The code point written by hexadecimal digits. -/
def codePoint? (digits : List Char) : Option Char :=
  (digits.foldlM (fun n c => (Json.Reader.hexDigit? c).map (fun d => 16 * n + d)) 0).bind
    scalarValue?

/-- The character of an escape after its backslash, and the rest. -/
def escape? : List Char → Option (Char × List Char)
  | 'u' :: rest =>
    if rest.length < 4 then none else (codePoint? (rest.take 4)).map (fun c => (c, rest.drop 4))
  | 'U' :: rest =>
    if rest.length < 8 then none else (codePoint? (rest.take 8)).map (fun c => (c, rest.drop 8))
  | 'b' :: rest => some ('\x08', rest)
  | 't' :: rest => some ('\t', rest)
  | 'n' :: rest => some ('\n', rest)
  | 'f' :: rest => some ('\x0c', rest)
  | 'r' :: rest => some ('\r', rest)
  | '"' :: rest => some ('"', rest)
  | '\\' :: rest => some ('\\', rest)
  | _ => none

/-! ## Texts on one line -/

/-- A text in double quotes after its opening quote, and what follows. -/
def basic : Nat → List Char → Option (List Char × List Char)
  | 0, _ => none
  | _, [] => none
  | _ + 1, '"' :: rest => some ([], rest)
  | fuel + 1, '\\' :: rest => do
    let (c, rest) ← escape? rest
    (basic fuel rest).map (fun r => (c :: r.1, r.2))
  | fuel + 1, c :: rest =>
    if isPlain c then (basic fuel rest).map (fun r => (c :: r.1, r.2)) else none

/-- A text in single quotes after its opening quote, and what follows. -/
def literal : List Char → Option (List Char × List Char)
  | [] => none
  | '\'' :: rest => some ([], rest)
  | c :: rest => if isPlain c then (literal rest).map (fun r => (c :: r.1, r.2)) else none

/-! ## Texts over several lines -/

/-- The quotes of a text that stand right before its closing three, and what follows these. -/
def closing? (quote : Char) (cs : List Char) : Option (List Char × List Char) :=
  let run := cs.takeWhile (· == quote)
  if run.length < 3 then none
  else
    let used := min run.length 5
    some (run.take (used - 3), cs.drop used)

/-- The text without blanks and line breaks at its start. -/
def skipLines : Nat → List Char → List Char
  | 0, cs => cs
  | fuel + 1, cs =>
    match lineBreak? cs with
    | some rest => skipLines fuel rest
    | none =>
      match cs with
      | c :: rest => if isBlankInLine c then skipLines fuel rest else cs
      | [] => []

/-- The body of a text over several lines, with escapes or without, and what follows. -/
def multiline (quote : Char) (escapes : Bool) : Nat → List Char → Option (List Char × List Char)
  | 0, _ => none
  | fuel + 1, cs =>
    match closing? quote cs with
    | some found => some found
    | none =>
      match lineBreak? cs with
      | some rest => (multiline quote escapes fuel rest).map (fun r => ('\n' :: r.1, r.2))
      | none =>
        match cs with
        | [] => none
        | c :: rest =>
          if escapes ∧ c = '\\' then
            match lineBreak? (rest.dropWhile isBlankInLine) with
            | some rest => multiline quote escapes fuel (skipLines (rest.length + 1) rest)
            | none => do
              let (c, rest) ← escape? rest
              (multiline quote escapes fuel rest).map (fun r => (c :: r.1, r.2))
          else if isPlain c then (multiline quote escapes fuel rest).map (fun r => (c :: r.1, r.2))
          else none

/-- The text without a line break at its start. -/
def dropLineBreak (cs : List Char) : List Char := (lineBreak? cs).getD cs

/-- A quoted text of any form, and what follows. -/
def quoted? : List Char → Option (List Char × List Char)
  | '"' :: '"' :: '"' :: rest => multiline '"' true (rest.length + 1) (dropLineBreak rest)
  | '\'' :: '\'' :: '\'' :: rest => multiline '\'' false (rest.length + 1) (dropLineBreak rest)
  | '"' :: rest => basic (rest.length + 1) rest
  | '\'' :: rest => literal rest
  | _ => none

/-- A quoted text on one line, and what follows. -/
def quotedKey? : List Char → Option (List Char × List Char)
  | '"' :: rest => basic (rest.length + 1) rest
  | '\'' :: rest => literal rest
  | _ => none

end JobFleet.Toml
