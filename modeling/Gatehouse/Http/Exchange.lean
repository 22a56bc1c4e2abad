import Gatehouse.Effect.Program
import Gatehouse.Http.Url
import Gatehouse.Json.Printer

/-!
# Exchanges

One request and what comes of it.  The wire is anything that answers requests: a peer gives a response,
or it cannot be reached.  A request is sent once; only if its address is a URL of the web with a host
is it sent at all.
-/

namespace Gatehouse.Http

/-- What a request does. -/
inductive Verb where
  | get
  | put
  | post
  deriving DecidableEq, Repr

/-- The name of a verb. -/
def Verb.name : Verb → String
  | get => "GET"
  | put => "PUT"
  | post => "POST"

/-- What a request carries. -/
inductive Content where
  | plain (text : String)
  | json (value : Json)
  deriving Repr

namespace Content

/-- The type of a content. -/
def type : Content → String
  | plain _ => "text/plain"
  | json _ => "application/json"

/-- A content as it is sent. -/
def text : Content → String
  | plain text => text
  | json value => value.compact

end Content

/-- A request. -/
structure Request where
  verb : Verb
  url : Url
  userAgent : String
  content? : Option Content := none
  deriving Repr

/-- A response. -/
structure Response where
  status : Nat
  body : String
  deriving DecidableEq, Repr

namespace Response

/-- The request succeeded. -/
def isSuccess (r : Response) : Bool := 200 ≤ r.status && r.status < 300

/-- What a response says: nothing, if its status says that it has no content. -/
def content (r : Response) : String := if r.status = 204 || r.status = 304 then "" else r.body

/-- A response that is no success, in a message. -/
def complaint (r : Response) : String := "HTTP " ++ toString r.status ++ ": " ++ r.content

end Response

/-- Why there is no response. -/
inductive Failure where
  /-- The address is no URL. -/
  | noUrl
  /-- The URL is none to which a request can be sent. -/
  | notSendable (url : Url)
  /-- The peer could not be reached, in the words of the wire. -/
  | unreachable (words : String)
  deriving DecidableEq, Repr

/-- The words of a failure. -/
def Failure.message : Failure → String
  | noUrl => "builder error"
  | notSendable url => "builder error for url (" ++ url.toText ++ ")"
  | unreachable words => words

/-- Requests and their responses; a request may also fail, in the words of the wire. -/
abbrev wire : Signature := ⟨Request, fun _ => Except String Response⟩

/-- A program over the wire that may fail. -/
abbrev Client (ε : Type) := ExceptT ε (Program wire)

namespace Request

/-- The request can be sent. -/
def isSendable (r : Request) : Bool :=
  r.url.hasHost && (r.url.scheme = "http" || r.url.scheme = "https")

/-- Send a request. -/
def send (r : Request) : Client Failure Response :=
  ExceptT.mk <|
    if r.isSendable then do
      let reply : Except String Response ← Program.request (S := wire) { r with url := r.url.withoutUser }
      return reply.mapError .unreachable
    else return .error (.notSendable r.url.withoutUser)

/-- Send a request to the URL that a text is. -/
def sendTo (verb : Verb) (address userAgent : String) (content? : Option Content := none) :
    Client Failure Response :=
  match Url.ofText? address with
  | .ok url => send ⟨verb, url, userAgent, content?⟩
  | .error _ => throw .noUrl

end Request
end Gatehouse.Http
