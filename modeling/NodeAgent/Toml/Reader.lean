import NodeAgent.Toml.Scalar

/-! Reading TOML text, in the version that lets inline tables run over several lines. -/

namespace NodeAgent.Toml

/-- Stands nowhere but as a line ending or, if it is a tab, as a blank. -/
def isControl (c : Char) : Bool := (c.toNat < 0x20 && c != '\t') || c.toNat == 0x7f

def skipSpace : List Char → List Char
  | ' ' :: r => skipSpace r
  | '\t' :: r => skipSpace r
  | s => s

def lineEnd? : List Char → Option (List Char)
  | '\n' :: r => some r
  | '\r' :: '\n' :: r => some r
  | _ => none

def skipComment : List Char → Option (List Char)
  | '#' :: r =>
    let rest := r.dropWhile fun c => !isControl c
    if rest.isEmpty ∨ (lineEnd? rest).isSome then some rest else none
  | s => some s

/-- Nothing but a comment may stand before the end of the line. -/
def finishLine (s : List Char) : Option (List Char) := do
  let s ← skipComment (skipSpace s)
  if s.isEmpty then some [] else lineEnd? s

def skipGap : Nat → List Char → Option (List Char)
  | 0, s => some s
  | fuel + 1, s => do
    let s ← skipComment (skipSpace s)
    match lineEnd? s with
    | some r => skipGap fuel r
    | none => some s

def scalarValue? (digits : List Char) : Option Char := do
  let n ← digits.foldlM (fun n c => (Json.hexValue? c).map (n * 16 + ·)) 0
  if n.isValidChar then some (Char.ofNat n) else none

def simpleEscape? : Char → Option Char
  | 'b' => some '\x08'
  | 't' => some '\t'
  | 'n' => some '\n'
  | 'f' => some '\x0c'
  | 'r' => some '\r'
  | 'e' => some '\x1b'
  | '"' => some '"'
  | '\\' => some '\\'
  | _ => none

def scanBasic : List Char → Option (List Char × List Char)
  | [] => none
  | '"' :: r => some ([], r)
  | '\\' :: 'x' :: a :: b :: r => do
    let c ← scalarValue? [a, b]
    let (t, rest) ← scanBasic r
    some (c :: t, rest)
  | '\\' :: 'u' :: a :: b :: c :: d :: r => do
    let e ← scalarValue? [a, b, c, d]
    let (t, rest) ← scanBasic r
    some (e :: t, rest)
  | '\\' :: 'U' :: a :: b :: c :: d :: e :: f :: g :: h :: r => do
    let e ← scalarValue? [a, b, c, d, e, f, g, h]
    let (t, rest) ← scanBasic r
    some (e :: t, rest)
  | '\\' :: c :: r => do
    let e ← simpleEscape? c
    let (t, rest) ← scanBasic r
    some (e :: t, rest)
  | c :: r => do
    if isControl c ∨ c = '\\' then none
    else
      let (t, rest) ← scanBasic r
      some (c :: t, rest)

def scanLiteral : List Char → Option (List Char × List Char)
  | [] => none
  | '\'' :: r => some ([], r)
  | c :: r => do
    if isControl c then none
    else
      let (t, rest) ← scanLiteral r
      some (c :: t, rest)

/-- With `true`, after a backslash at the end of a line, blanks and line endings are dropped. -/
def scanMultiBasic : Bool → List Char → Option (List Char × List Char)
  | _, [] => none
  | _, '"' :: '"' :: '"' :: '"' :: '"' :: r => some (['"', '"'], r)
  | _, '"' :: '"' :: '"' :: '"' :: r => some (['"'], r)
  | _, '"' :: '"' :: '"' :: r => some ([], r)
  | _, '\\' :: 'x' :: a :: b :: r => do
    let c ← scalarValue? [a, b]
    let (t, rest) ← scanMultiBasic false r
    some (c :: t, rest)
  | _, '\\' :: 'u' :: a :: b :: c :: d :: r => do
    let e ← scalarValue? [a, b, c, d]
    let (t, rest) ← scanMultiBasic false r
    some (e :: t, rest)
  | _, '\\' :: 'U' :: a :: b :: c :: d :: e :: f :: g :: h :: r => do
    let e ← scalarValue? [a, b, c, d, e, f, g, h]
    let (t, rest) ← scanMultiBasic false r
    some (e :: t, rest)
  | _, '\\' :: c :: r =>
    if (lineEnd? (skipSpace (c :: r))).isSome then scanMultiBasic true r
    else do
      let e ← simpleEscape? c
      let (t, rest) ← scanMultiBasic false r
      some (e :: t, rest)
  | trimming, '\r' :: '\n' :: r => do
    let (t, rest) ← scanMultiBasic trimming r
    some (if trimming then t else '\r' :: '\n' :: t, rest)
  | trimming, c :: r => do
    if (isControl c ∧ c ≠ '\n') ∨ c = '\\' then none
    else if trimming ∧ (c = ' ' ∨ c = '\t' ∨ c = '\n') then scanMultiBasic true r
    else
      let (t, rest) ← scanMultiBasic false r
      some (c :: t, rest)

def scanMultiLiteral : List Char → Option (List Char × List Char)
  | [] => none
  | '\'' :: '\'' :: '\'' :: '\'' :: '\'' :: r => some (['\'', '\''], r)
  | '\'' :: '\'' :: '\'' :: '\'' :: r => some (['\''], r)
  | '\'' :: '\'' :: '\'' :: r => some ([], r)
  | '\r' :: '\n' :: r => do
    let (t, rest) ← scanMultiLiteral r
    some ('\r' :: '\n' :: t, rest)
  | c :: r => do
    if isControl c ∧ c ≠ '\n' then none
    else
      let (t, rest) ← scanMultiLiteral r
      some (c :: t, rest)

/-- A line ending right after the opening quotes is not part of the text. -/
def dropFirstLineEnd (s : List Char) : List Char := (lineEnd? s).getD s

def scanText : List Char → Option (List Char × List Char)
  | '"' :: '"' :: '"' :: r => scanMultiBasic false (dropFirstLineEnd r)
  | '\'' :: '\'' :: '\'' :: r => scanMultiLiteral (dropFirstLineEnd r)
  | '"' :: r => scanBasic r
  | '\'' :: r => scanLiteral r
  | _ => none

def isBare (c : Char) : Bool := c.isAlphanum || c == '_' || c == '-'

def scanSimpleKey : List Char → Option (String × List Char)
  | '"' :: r => (scanBasic r).map fun (t, rest) => (String.ofList t, rest)
  | '\'' :: r => (scanLiteral r).map fun (t, rest) => (String.ofList t, rest)
  | s =>
    let (name, rest) := s.span isBare
    if name.isEmpty then none else some (String.ofList name, rest)

def scanNames : Nat → List Char → Option (List String × List Char)
  | 0, _ => none
  | fuel + 1, s => do
    let (name, s) ← scanSimpleKey (skipSpace s)
    match skipSpace s with
    | '.' :: r =>
      let (names, rest) ← scanNames fuel r
      some (name :: names, rest)
    | rest => some ([name], rest)

def mostParts : Nat := 80

def scanKey (s : List Char) : Option (List String × List Char) := scanNames mostParts s

def mostLevels : Nat := 80

mutual

/--
The first argument bounds the number of items and levels; the second tells how many levels may
still be opened.
-/
def scanValue : Nat → Nat → List Char → Option (Toml × List Char)
  | 0, _, _ => none
  | _, 0, '[' :: _ => none
  | _, 0, '\x7b' :: _ => none
  | fuel + 1, room + 1, '[' :: r =>
    (scanItems fuel room r).map fun (items, rest) => (.list items, rest)
  | fuel + 1, room + 1, '\x7b' :: r =>
    (scanPairs fuel room r []).map fun (es, rest) => (.table .inline es, rest)
  | _, _, '"' :: r => (scanText ('"' :: r)).map fun (t, rest) => (.text (String.ofList t), rest)
  | _, _, '\'' :: r => (scanText ('\'' :: r)).map fun (t, rest) => (.text (String.ofList t), rest)
  | _, _, c :: r => scanScalar (c :: r)
  | _, _, [] => none

def scanItems : Nat → Nat → List Char → Option (List Toml × List Char)
  | 0, _, _ => none
  | fuel + 1, room, s => do
    match ← skipGap s.length s with
    | ']' :: rest => some ([], rest)
    | s =>
      let (item, s) ← scanValue fuel room s
      match ← skipGap s.length s with
      | ',' :: r =>
        let (items, rest) ← scanItems fuel room r
        some (item :: items, rest)
      | ']' :: rest => some ([item], rest)
      | _ => none

def scanPairs : Nat → Nat → List Char → Entries → Option (Entries × List Char)
  | 0, _, _, _ => none
  | fuel + 1, room, s, es => do
    match ← skipGap s.length s with
    | '\x7d' :: rest => some (es, rest)
    | s =>
      let (key, s) ← scanKey s
      match ← skipGap s.length s with
      | '=' :: r =>
        let (value, s) ← scanValue fuel room (← skipGap r.length r)
        let es ← assign key value .inline es
        match ← skipGap s.length s with
        | ',' :: r => scanPairs fuel room r es
        | '\x7d' :: rest => some (es, rest)
        | _ => none
      | _ => none

end

/-- The path of the table that is open, and the document so far. -/
structure Progress where
  path : List String := []
  entries : Entries := []

/-- One line of the document, or the several lines of one value. -/
def readLine (p : Progress) (s : List Char) : Option (Progress × List Char) :=
  match skipSpace s with
  | [] => some (p, [])
  | '[' :: '[' :: r => do
    let (path, r) ← scanKey r
    match r with
    | ']' :: ']' :: r => some ({ path, entries := ← appendTable path p.entries }, ← finishLine r)
    | _ => none
  | '[' :: r => do
    let (path, r) ← scanKey r
    match r with
    | ']' :: r => some ({ path, entries := ← addTable path p.entries }, ← finishLine r)
    | _ => none
  | c :: r =>
    if c = '#' ∨ c = '\n' ∨ c = '\r' then do
      some (p, ← finishLine (c :: r))
    else do
      let (key, r) ← scanKey (c :: r)
      match r with
      | '=' :: r =>
        let (value, r) ← scanValue (2 * r.length + 2) mostLevels (skipSpace r)
        let entries ← under false p.path (assign key value) .header p.entries
        some ({ p with entries }, ← finishLine r)
      | _ => none

def readLines : Nat → Progress → List Char → Option Entries
  | 0, p, s => if s.isEmpty then some p.entries else none
  | fuel + 1, p, s =>
    if s.isEmpty then some p.entries
    else do
      let (p, s) ← readLine p s
      readLines fuel p s

/-- A byte order mark may come first. -/
def read (text : String) : Option Entries :=
  let s := match text.toList with
    | '\ufeff' :: r => r
    | s => s
  readLines s.length {} s

end NodeAgent.Toml
