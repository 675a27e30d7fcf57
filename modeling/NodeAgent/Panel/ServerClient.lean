import NodeAgent.Panel.Client

/-!
The client for the configuration of the whole server. It tells a change by the version that the
panel gives and by a digest of the body, and remembers both of the last configuration that it could
use.
-/

namespace NodeAgent

/-- What stands for a body when it is compared with another. -/
class Digest (δ : Type) where
  ofBody : List UInt8 → δ

/-- A body can stand for itself. -/
instance : Digest (List UInt8) := ⟨id⟩

structure ServerClient (δ : Type := List UInt8) where
  host : String
  serverId : Int
  secret : String
  etag : Option String := none
  digest : Option δ := none
  deriving DecidableEq, Repr

namespace ServerClient

variable {χ δ : Type}

def ofSettings (api : ApiSettings) : ServerClient δ where
  host := Text.trimSlashes api.host
  serverId := api.serverId
  secret := api.secretKey

def url (c : ServerClient δ) : String := c.host ++ "/v2/server/" ++ toString c.serverId

def missingEndpoints : String := "协议配置为空"

/-- A configuration has to list its endpoints, if only none. -/
def replyOf (url : String) (content : Content) : Except PanelError ServerReply :=
  match content.json?.bind ServerReply.ofJson with
  | none => .error (.decode url openDetail)
  | some r =>
    if (r.data.bind (·.endpoints)).isSome then .ok r else .error (.decode url missingEndpoints)

variable [DecidableEq δ] [Digest δ]

/-- A body that was there before is no change, whatever its version. -/
def take (c : ServerClient δ) (r : Option HttpResponse) :
    ServerClient δ × Except PanelError (Option ServerReply) :=
  match HttpResponse.content c.url r with
  | .error e => (c, .error e)
  | .ok none => (c, .ok none)
  | .ok (some content) =>
    let digest := Digest.ofBody content.body
    if c.digest = some digest then (c, .ok none)
    else
      match replyOf c.url content with
      | .error e => (c, .error e)
      | .ok reply => ({ c with etag := content.etag, digest := some digest }, .ok (some reply))

instance [HttpNetwork χ] : ServerApi (ServerClient δ) χ where
  fetch now c h :=
    let (h, r) := HttpNetwork.send
      { url := c.url, query := [("secret_key", c.secret)], ifNoneMatch := c.etag } now h
    let (c, answer) := c.take r.answer
    ((c, h), { r with answer })

end ServerClient

end NodeAgent
