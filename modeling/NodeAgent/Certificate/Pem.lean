import NodeAgent.Text.Base64
import NodeAgent.Text.Basic

/-! Armoured text: the bytes of the first block between a BEGIN line and an END line. -/

namespace NodeAgent.Pem

def startsWith (mark : String) (line : List Char) : Bool := mark.toList.isPrefixOf line

def isHeader : List Char → Bool
  | [] => false
  | c :: r => "-----".toList.isPrefixOf (c :: r) || isHeader r

/-- The lines of the body, blanks at their ends dropped, up to the END line. -/
def body : List (List Char) → Option (List Char)
  | [] => none
  | line :: rest =>
    if startsWith "-----END " line then some []
    else (body rest).map (Text.trimEnd line ++ ·)

/-- Text before the first BEGIN line is passed over; the label itself is not looked at. -/
def firstBlock : List (List Char) → Option (List Char)
  | [] => none
  | line :: rest =>
    if startsWith "-----BEGIN " line then
      if isHeader (line.drop 11) then body rest else none
    else firstBlock rest

def decode (text : String) : Option (List UInt8) := do
  Text.Base64.decode (← firstBlock (Text.splitAt '\n' text.toList))

end NodeAgent.Pem
