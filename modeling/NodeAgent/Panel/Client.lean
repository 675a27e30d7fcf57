import NodeAgent.Config
import NodeAgent.Decimal.Shortest
import NodeAgent.Http.Message
import NodeAgent.Text.Basic
import NodeAgent.Text.LowerCase

/-!
The client through which a node talks to its panel. It remembers the version of the last user list
that it could read, so that the panel need not send the same list again.
-/

namespace NodeAgent

structure PanelClient where
  host : String
  protocol : String
  serverId : Int
  secret : String
  /-- The version of the user list. -/
  etag : Option String := none
  deriving DecidableEq, Repr

def Content.json? (c : Content) : Option Json := (Text.Utf8.decode? c.body).bind Json.read

/-- White space of ASCII only. -/
def Content.isBlank (c : Content) : Bool :=
  c.body.all fun b => b == 0x20 || b == 0x09 || b == 0x0a || b == 0x0c || b == 0x0d

namespace PanelClient

variable {χ : Type}

def ofSettings (api : ApiSettings) (protocol : String) : PanelClient where
  host := Text.trimSlashes api.host
  protocol := Text.toLower protocol
  serverId := api.serverId
  secret := api.secretKey

def query (c : PanelClient) : List (String × String) :=
  [("protocol", c.protocol), ("server_id", toString c.serverId), ("secret_key", c.secret)]

def usersUrl (c : PanelClient) : String := c.host ++ "/v1/server/user"

/-- An empty body means that there are no users. -/
def usersOf (c : Content) : Option (List User) :=
  if c.isBlank then some [] else (c.json?.bind User.listOfJson).map (·.getD [])

/-- The version is remembered once the list could be read. -/
def takeUsers (c : PanelClient) (r : Option HttpResponse) :
    PanelClient × Except PanelError (Option (List User)) :=
  match HttpResponse.content c.usersUrl r with
  | .error e => (c, .error e)
  | .ok none => (c, .ok none)
  | .ok (some content) =>
    match usersOf content with
    | none => (c, .error (.decode c.usersUrl openDetail))
    | some users => ({ c with etag := content.etag }, .ok (some users))

/-- Counts that cannot be had are taken to be none. -/
def aliveOf (r : Option HttpResponse) : AliveCounts :=
  match HttpResponse.content "" r with
  | .ok (some content) => (content.json?.bind AliveCounts.ofJson).getD ∅
  | _ => ∅

/-- Percentages have a point or an exponent, and are left open if there is none. -/
def percentage (x : Float) : Json :=
  Json.ofOption .number (Decimal.ofFloat? ⟨-5, 16, "+"⟩ x)

def statusBody (h : Host χ) (now : Instant) : Json :=
  .object [("cpu", percentage h.load.cpu), ("mem", percentage h.load.memory),
    ("disk", percentage h.load.disk), ("updated_at", .ofInt (h.epoch * 1000 + now))]

variable [HttpNetwork χ]

def get (c : PanelClient) (path : String) (etag : Option String) (now : Instant) (h : Host χ) :
    Host χ × Reply (Option HttpResponse) :=
  HttpNetwork.send { url := c.host ++ path, query := c.query, ifNoneMatch := etag } now h

def post (c : PanelClient) (path : String) (body : Json) (now : Instant) (h : Host χ) :
    (PanelClient × Host χ) × Reply (Except PanelError Unit) :=
  let url := c.host ++ path
  let request := { method := .post, url, query := c.query, body := some body.write }
  let (h, r) := HttpNetwork.send request now h
  ((c, h), { r with answer := HttpResponse.accepted url r.answer })

def ask (now : Instant) (c : PanelClient) (h : Host χ) :
    (q : PanelRequest) → (PanelClient × Host χ) × Reply q.Answer
  | .users =>
    let (h, r) := c.get "/v1/server/user" c.etag now h
    let (c, answer) := c.takeUsers r.answer
    ((c, h), { r with answer })
  | .alive =>
    let (h, r) := c.get "/v1/server/alivelist" none now h
    ((c, h), { r with answer := .ok (aliveOf r.answer) })
  | .invalidate => (({ c with etag := none }, h), { answer := () })
  | .traffic l =>
    c.post "/v1/server/push" (.object [("traffic", .list (l.map UserTraffic.toJson))]) now h
  | .online l =>
    c.post "/v1/server/online" (.object [("users", .list (l.map OnlineDevice.toJson))]) now h
  | .status => c.post "/v1/server/status" (statusBody h now) now h

instance : Addressed PanelClient := ⟨host⟩

instance : PanelApi PanelClient χ := ⟨fun q now c h => ask now c h q⟩

end PanelClient

end NodeAgent
