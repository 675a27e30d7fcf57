import NodeAgent.Host
import NodeAgent.Panel.Request
import NodeAgent.Text.Basic
import NodeAgent.Text.Utf8

/-! Requests and responses, and what a status code means to one who asks. -/

namespace NodeAgent

inductive Method
  | get
  | post
  deriving DecidableEq, Repr

structure HttpRequest where
  method : Method := .get
  /-- Without the query. -/
  url : String
  query : List (String × String) := []
  ifNoneMatch : Option String := none
  /-- JSON. -/
  body : Option String := none
  deriving DecidableEq, Repr

structure HttpResponse where
  status : UInt16
  /-- Printable ASCII. -/
  etag : Option String := none
  /-- Nothing if the connection broke before its end. -/
  body : Option (List UInt8) := some []
  deriving DecidableEq, Repr

/-- Surroundings with a network. No response comes if the other side cannot be reached. -/
class HttpNetwork (χ : Type) where
  /-- Whether the machine has all that a client needs. -/
  opens : Host χ → Bool := fun _ => true
  send : HttpRequest → Instant → Host χ → Host χ × Reply (Option HttpResponse)

def Host.openNetwork {χ : Type} [HttpNetwork χ] (h : Host χ) (url : String) :
    Except PanelError Unit :=
  if HttpNetwork.opens h then .ok () else .error (.transport url openDetail)

namespace HttpRequest

/-- Letters, digits and four marks stand for themselves in a form, and a plus for a blank. -/
def formByte (b : UInt8) : List Char :=
  let c := Char.ofNat b.toNat
  if c.isAlphanum || c == '*' || c == '-' || c == '.' || c == '_' then [c]
  else if c = ' ' then ['+']
  else
    let digit (n : Nat) : Char := Char.ofNat (if n < 10 then n + 48 else n + 55)
    ['%', digit (b.toNat / 16), digit (b.toNat % 16)]

def formText (s : String) : String := String.ofList (s.toUTF8.toList.flatMap formByte)

def queryText (r : HttpRequest) : String :=
  "&".intercalate (r.query.map fun p => formText p.1 ++ "=" ++ formText p.2)

end HttpRequest

structure Content where
  etag : Option String
  body : List UInt8
  deriving DecidableEq, Repr

namespace HttpResponse

def notModified : UInt16 := 304

def isError (r : HttpResponse) : Bool := 400 ≤ r.status && r.status < 600

def statusError (r : HttpResponse) (url : String) : PanelError :=
  .status url r.status (String.ofList (Text.Utf8.decodeLossy (r.body.getD [])))

/-- Nothing if the content is still the same. -/
def content (url : String) : Option HttpResponse → Except PanelError (Option Content)
  | none => .error (.transport url openDetail)
  | some r =>
    if r.status = notModified then .ok none
    else if r.isError then .error (r.statusError url)
    else
      match r.body with
      | none => .error (.transport url openDetail)
      | some body => .ok (some ⟨r.etag, body⟩)

/-- Whether something that was sent has been taken; the body does not matter. -/
def accepted (url : String) : Option HttpResponse → Except PanelError Unit
  | none => .error (.transport url openDetail)
  | some r => if r.isError then .error (r.statusError url) else .ok ()

end HttpResponse

end NodeAgent
