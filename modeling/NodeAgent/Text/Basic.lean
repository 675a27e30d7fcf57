/-!
White space of Unicode (property White_Space), and text cut at separators: fields between single
characters, lines that end in LF or CRLF, and addresses without the slashes at their end.
-/

namespace NodeAgent

/-- Stands for the details of an error whose wording is left open. -/
def openDetail : String := "*"

namespace Text

def isBlank (c : Char) : Bool :=
  let n := c.toNat
  (0x9 ≤ n && n ≤ 0xd) || n == 0x20 || n == 0x85 || n == 0xa0 || n == 0x1680 ||
    (0x2000 ≤ n && n ≤ 0x200a) || n == 0x2028 || n == 0x2029 || n == 0x202f || n == 0x205f ||
    n == 0x3000

def trimStart (s : List Char) : List Char := s.dropWhile isBlank

def trimEnd (s : List Char) : List Char := (s.reverse.dropWhile isBlank).reverse

def trim (s : List Char) : List Char := trimEnd (trimStart s)

def trimmed (s : String) : String := String.ofList (trim s.toList)

/-- The parts between the occurrences of `sep`: one more than there are occurrences. -/
def splitAt (sep : Char) : List Char → List (List Char)
  | [] => [[]]
  | c :: r =>
    match splitAt sep r with
    | [] => [[c]]
    | part :: rest => if c = sep then [] :: part :: rest else (c :: part) :: rest

/-- One carriage return before the line's end belongs to the ending. -/
def dropReturn (line : List Char) : List Char :=
  if line.getLast? = some '\r' then line.dropLast else line

/-- A final line ending opens no further line. -/
def lines (s : List Char) : List (List Char) :=
  match (splitAt '\n' s).reverse with
  | [] => []
  | final :: before =>
    before.reverse.map dropReturn ++ if final.isEmpty then [] else [final]

def splitOnce (sep : Char) : List Char → Option (List Char × List Char)
  | [] => none
  | c :: r => if c = sep then some ([], r) else (splitOnce sep r).map fun (a, b) => (c :: a, b)

def trimSlashes (s : String) : String :=
  String.ofList (s.toList.reverse.dropWhile (· = '/')).reverse

end Text

end NodeAgent
