import Mathlib.Data.List.Basic

/-!
# JSON texts

The syntax of JSON as `encoding/json` reads and writes it, over the characters of a text.
A value keeps its number and string literals as they stand in the text: what a literal
denotes is the business of whoever decodes it (`unquote` for a string). `parse` accepts
exactly one value with optional white space around it, nested no deeper than the reader
allows; `render` is the compact form.

The parser recurses on a bound that grows with the text, so that it evaluates by plain
reduction; each call uses up a character or is followed by one that does.
-/

namespace Lib

/-- A JSON value, its literals as written. -/
inductive Json where
  | null
  | bool (b : Bool)
  | num (lit : List Char)
  | str (lit : List Char)
  | arr (items : List Json)
  | obj (members : List (List Char × Json))

namespace Json

/-! ## Literals -/

def isWs (c : Char) : Bool := c = ' ' || c = '\t' || c = '\n' || c = '\r'

def skipWs (cs : List Char) : List Char := cs.dropWhile isWs

/-- The value of a hexadecimal digit. -/
def hexVal (c : Char) : Option Nat :=
  if '0' ≤ c ∧ c ≤ '9' then some (c.toNat - '0'.toNat)
  else if 'a' ≤ c ∧ c ≤ 'f' then some (c.toNat - 'a'.toNat + 10)
  else if 'A' ≤ c ∧ c ≤ 'F' then some (c.toNat - 'A'.toNat + 10)
  else none

def isHex (c : Char) : Bool := (hexVal c).isSome

/-- The value of four hexadecimal digits. -/
def hex4 (a b c d : Char) : Nat :=
  (((hexVal a).getD 0 * 16 + (hexVal b).getD 0) * 16 + (hexVal c).getD 0) * 16 +
    (hexVal d).getD 0

/-- The characters that may follow a backslash, besides `u`. -/
def isEscape (c : Char) : Bool :=
  c = '"' || c = '\\' || c = '/' || c = 'b' || c = 'f' || c = 'n' || c = 'r' || c = 't'

/-- A string literal after its opening quote: its text up to the closing quote, and what
follows that. Control characters must be escaped. -/
def lexString : List Char → Option (List Char × List Char)
  | [] => none
  | '"' :: rest => some ([], rest)
  | '\\' :: 'u' :: a :: b :: c :: d :: rest =>
    if isHex a && isHex b && isHex c && isHex d then
      (lexString rest).map fun p => ('\\' :: 'u' :: a :: b :: c :: d :: p.1, p.2)
    else none
  | '\\' :: e :: rest =>
    if isEscape e then (lexString rest).map fun p => ('\\' :: e :: p.1, p.2) else none
  | c :: rest =>
    if c.toNat < 0x20 then none else (lexString rest).map fun p => (c :: p.1, p.2)

/-- One or more digits after `lead`. -/
def lexDigits (lead cs : List Char) : Option (List Char × List Char) :=
  let ds := cs.takeWhile Char.isDigit
  if ds = [] then none else some (lead ++ ds, cs.dropWhile Char.isDigit)

/-- The integer part of a number: no leading zeros. -/
def lexInt : List Char → Option (List Char × List Char)
  | '-' :: '0' :: rest => some (['-', '0'], rest)
  | '-' :: rest => lexDigits ['-'] rest
  | '0' :: rest => some (['0'], rest)
  | cs => lexDigits [] cs

/-- The fraction of a number, when there is one. -/
def lexFrac : List Char → Option (List Char × List Char)
  | '.' :: rest => lexDigits ['.'] rest
  | cs => some ([], cs)

/-- The exponent of a number, when there is one. -/
def lexExp : List Char → Option (List Char × List Char)
  | e :: rest =>
    if e = 'e' || e = 'E' then
      match rest with
      | '+' :: rest => lexDigits [e, '+'] rest
      | '-' :: rest => lexDigits [e, '-'] rest
      | rest => lexDigits [e] rest
    else some ([], e :: rest)
  | [] => some ([], [])

def lexNumber (cs : List Char) : Option (List Char × List Char) := do
  let (int, cs) ← lexInt cs
  let (frac, cs) ← lexFrac cs
  let (exp, cs) ← lexExp cs
  pure (int ++ frac ++ exp, cs)

/-! ## Values -/

mutual

/-- A value, and what follows it. -/
def parseValue : Nat → List Char → Option (Json × List Char)
  | 0, _ => none
  | fuel + 1, cs =>
    match skipWs cs with
    | '{' :: rest =>
      match skipWs rest with
      | '}' :: rest => some (.obj [], rest)
      | _ => (parseMembers fuel rest).map fun p => (.obj p.1, p.2)
    | '[' :: rest =>
      match skipWs rest with
      | ']' :: rest => some (.arr [], rest)
      | _ => (parseItems fuel rest).map fun p => (.arr p.1, p.2)
    | '"' :: rest => (lexString rest).map fun p => (.str p.1, p.2)
    | 'n' :: 'u' :: 'l' :: 'l' :: rest => some (.null, rest)
    | 't' :: 'r' :: 'u' :: 'e' :: rest => some (.bool true, rest)
    | 'f' :: 'a' :: 'l' :: 's' :: 'e' :: rest => some (.bool false, rest)
    | cs => (lexNumber cs).map fun p => (.num p.1, p.2)

/-- The members of an object after its brace or a comma, through the closing brace. -/
def parseMembers : Nat → List Char → Option (List (List Char × Json) × List Char)
  | 0, _ => none
  | fuel + 1, cs =>
    match skipWs cs with
    | '"' :: rest =>
      (lexString rest).bind fun (key, rest) =>
      match skipWs rest with
      | ':' :: rest =>
        (parseValue fuel rest).bind fun (v, rest) =>
        match skipWs rest with
        | ',' :: rest => (parseMembers fuel rest).map fun p => ((key, v) :: p.1, p.2)
        | '}' :: rest => some ([(key, v)], rest)
        | _ => none
      | _ => none
    | _ => none

/-- The items of an array after its bracket or a comma, through the closing bracket. -/
def parseItems : Nat → List Char → Option (List Json × List Char)
  | 0, _ => none
  | fuel + 1, cs =>
    (parseValue fuel cs).bind fun (v, rest) =>
    match skipWs rest with
    | ',' :: rest => (parseItems fuel rest).map fun p => (v :: p.1, p.2)
    | ']' :: rest => some ([v], rest)
    | _ => none

end

mutual

/-- How deep a value nests. -/
def depth : Json → Nat
  | .arr items => depthItems items + 1
  | .obj members => depthMembers members + 1
  | _ => 0

def depthItems : List Json → Nat
  | [] => 0
  | v :: rest => max (depth v) (depthItems rest)

def depthMembers : List (List Char × Json) → Nat
  | [] => 0
  | (_, v) :: rest => max (depth v) (depthMembers rest)

end

/-- `maxNestingDepth`. -/
def maxNestingDepth : Nat := 10000

/-- A text that is one JSON value. -/
def parse (cs : List Char) : Option Json :=
  match parseValue (2 * cs.length + 2) cs with
  | some (v, rest) => if skipWs rest = [] ∧ v.depth ≤ maxNestingDepth then some v else none
  | none => none

mutual

/-- The compact text of a value. -/
def render : Json → List Char
  | .null => ['n', 'u', 'l', 'l']
  | .bool true => ['t', 'r', 'u', 'e']
  | .bool false => ['f', 'a', 'l', 's', 'e']
  | .num lit => lit
  | .str lit => '"' :: lit ++ ['"']
  | .arr [] => ['[', ']']
  | .arr (v :: rest) => '[' :: render v ++ renderItems rest
  | .obj [] => ['{', '}']
  | .obj ((key, v) :: rest) => '{' :: '"' :: key ++ '"' :: ':' :: render v ++ renderMembers rest

/-- The items after the first, through the closing bracket. -/
def renderItems : List Json → List Char
  | [] => [']']
  | v :: rest => ',' :: render v ++ renderItems rest

/-- The members after the first, through the closing brace. -/
def renderMembers : List (List Char × Json) → List Char
  | [] => ['}']
  | (key, v) :: rest => ',' :: '"' :: key ++ '"' :: ':' :: render v ++ renderMembers rest

end

/-! ## String contents -/

/-- One hexadecimal digit, in lower case. -/
def hexDigit (n : Nat) : Char := Nat.digitChar n

/-- How the writer puts one character inside a string: quote, backslash and control
characters are escaped, and so are the characters that HTML and JavaScript take for
their own. -/
def quoteChar (c : Char) : List Char :=
  if c = '"' then ['\\', '"']
  else if c = '\\' then ['\\', '\\']
  else if c = '\x08' then ['\\', 'b']
  else if c = '\x0c' then ['\\', 'f']
  else if c = '\n' then ['\\', 'n']
  else if c = '\r' then ['\\', 'r']
  else if c = '\t' then ['\\', 't']
  else if c.toNat < 0x20 || c = '<' || c = '>' || c = '&' || c = '\u2028' || c = '\u2029' then
    ['\\', 'u', hexDigit (c.toNat / 4096), hexDigit (c.toNat / 256 % 16),
      hexDigit (c.toNat / 16 % 16), hexDigit (c.toNat % 16)]
  else [c]

/-- The literal the writer makes of a string. -/
def quote (s : String) : List Char := s.toList.flatMap quoteChar

/-- The character of a `\u` escape that is not one half of a pair. -/
def ofCodeUnit (n : Nat) : Char :=
  if 0xD800 ≤ n ∧ n < 0xE000 then '\uFFFD' else Char.ofNat n

/-- Whether two `\u` escapes are the two halves of one character. -/
def isPair (hi lo : Nat) : Bool :=
  0xD800 ≤ hi && hi < 0xDC00 && 0xDC00 ≤ lo && lo < 0xE000

/-- The character a backslash and one letter stand for. -/
def unescape (c : Char) : Char :=
  if c = 'b' then '\x08' else if c = 'f' then '\x0c' else if c = 'n' then '\n'
  else if c = 'r' then '\r' else if c = 't' then '\t' else c

/-- What a string literal denotes. -/
def unquoteChars : List Char → List Char
  | [] => []
  | '\\' :: 'u' :: a :: b :: c :: d :: '\\' :: 'u' :: e :: f :: g :: h :: rest =>
    if isPair (hex4 a b c d) (hex4 e f g h) then
      Char.ofNat (0x10000 + (hex4 a b c d - 0xD800) * 0x400 + (hex4 e f g h - 0xDC00)) ::
        unquoteChars rest
    else ofCodeUnit (hex4 a b c d) :: unquoteChars ('\\' :: 'u' :: e :: f :: g :: h :: rest)
  | '\\' :: 'u' :: a :: b :: c :: d :: rest => ofCodeUnit (hex4 a b c d) :: unquoteChars rest
  | '\\' :: e :: rest => unescape e :: unquoteChars rest
  | c :: rest => c :: unquoteChars rest

def unquote (lit : List Char) : String := String.ofList (unquoteChars lit)

end Json

end Lib
