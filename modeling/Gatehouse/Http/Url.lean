import Gatehouse.Http.Host

/-!
# URLs

Settings and requests give addresses as texts; a request is sent to the URL that such a text is.

1. **Texts and URLs.**  Reading is lenient: blanks around the text and line breaks in it mean nothing,
   what may not stand for itself is escaped, and the number of a service that the scheme implies is left
   out.  So many texts are one URL, and a URL has one written form, `toText`.
2. **Schemes.**  The schemes of the web have a host and a path, in which a backslash is a slash.  In
   other schemes the host may be missing, and then the path may be any text.
3. **Paths.**  The segment `..` takes back the one before it and `.` is nothing, also when their points
   are escaped; at the end of a path both leave an empty segment behind.  The crux is that this is
   decided on the segments as they are written, before anything else is escaped.
4. **Target.**  What a request names is the path and the query; the fragment stays at home.
-/

namespace Gatehouse.Http

open Gatehouse.Text

/-- Why a text is no URL. -/
inductive UrlError where
  /-- It does not start with a scheme. -/
  | relative
  | host (e : HostError)
  /-- The number of the service is none. -/
  | service
  deriving DecidableEq, Repr

/-- The words of a failure. -/
def UrlError.message : UrlError → String
  | relative => "relative URL without a base"
  | host e => e.message
  | service => "invalid port number"

/-- Where a URL points to, and as whom. -/
structure Authority where
  username : String := ""
  /-- Empty if there is none. -/
  password : String := ""
  host : Host
  /-- The number of the service at the host, unless it is the one that the scheme implies. -/
  service? : Option UInt16 := none
  deriving DecidableEq, Repr

/-- What a URL names at its host. -/
inductive Path where
  /-- Segments, each after a slash. -/
  | segments (ss : List String)
  /-- A text without structure. -/
  | text (s : String)
  deriving DecidableEq, Repr

/-- An address on a network. -/
structure Url where
  scheme : String
  authority? : Option Authority
  path : Path
  query? : Option String
  fragment? : Option String
  deriving DecidableEq, Repr

/-! ## What is escaped where -/

/-- Escaped in fragments. -/
def inFragment (c : Char) : Bool := isControl c || " \"<>\x60".toList.contains c

/-- Escaped in paths. -/
def inPath (c : Char) : Bool := inFragment c || "#?\x7b\x7d".toList.contains c

/-- Escaped in names and passwords. -/
def inUser (c : Char) : Bool := inPath c || "/:;=@[\\]^|".toList.contains c

/-- Escaped in queries; the schemes of the web also escape the apostrophe. -/
def inQuery (web : Bool) (c : Char) : Bool :=
  isControl c || " \"#<>".toList.contains c || (web && c = '\'')

/-- A part of a URL with what has to be escaped. -/
def escaped (where? : Char → Bool) (cs : List Char) : String := String.ofList (Percent.encode where? cs)

/-! ## Schemes -/

/-- The schemes of the web that have a host, with the service that each implies. -/
def webServices : List (String × UInt16) :=
  [("http", 80), ("https", 443), ("ws", 80), ("wss", 443), ("ftp", 21)]

/-- What comes before the first colon, if it is a scheme, and what comes after it. -/
def cutScheme (cs : List Char) : Option (String × List Char) := do
  let (scheme, rest) ← cut ':' cs
  let first ← scheme.head?
  if first.isAlpha && scheme.all fun c => c.isAlphanum || c = '+' || c = '-' || c = '.' then
    some (String.ofList (scheme.map Char.toLower), rest)
  else none

/-! ## Authorities -/

namespace Authority

/-- What comes before the first colon that is not in brackets, and what follows. -/
def spanHost (bracketed : Bool) : List Char → List Char × List Char
  | [] => ([], [])
  | c :: cs =>
    if c = ':' && !bracketed then ([], c :: cs)
    else
      let p := spanHost (if c = '[' then true else if c = ']' then false else bracketed) cs
      (c :: p.1, p.2)

/-- The number of a service after a host; `none` if it is not written. -/
def readService? (cs : List Char) : Except UrlError (Option UInt16) :=
  match cs with
  | ':' :: [] => .ok none
  | ':' :: ds =>
    if isDigits ds && ofDigits ds < UInt16.size then .ok (some (UInt16.ofNat (ofDigits ds)))
    else .error .service
  | _ => .ok none

/-- The authority that a text is.  `more` says whether anything comes after it. -/
def ofText? (scheme : String) (more : Bool) (cs : List Char) : Except UrlError Authority := do
  let implied? := webServices.lookup scheme
  let web := implied?.isSome
  let (user, place) := (cutLast '@' cs).getD ([], cs)
  let (name, password) := (cut ':' user).getD (user, [])
  if place.isEmpty && cs ≠ place && user.isEmpty && more then throw (.host .empty)
  let (hostText, rest) := spanHost false place
  if web && hostText.isEmpty then throw (.host .empty)
  let host ← (Host.ofText? web hostText).mapError .host
  if host.isEmpty && !(rest.isEmpty && name.isEmpty && password.isEmpty) then throw (.host .empty)
  let service? ← readService? rest
  return {
    username := escaped inUser name
    password := escaped inUser password
    host := host
    service? := service?.filter fun n => implied? ≠ some n }

/-- An authority as URLs write it. -/
def toText (a : Authority) : String :=
  let password := if a.password.isEmpty then "" else ":" ++ a.password
  let user := a.username ++ password
  (if user.isEmpty then "" else user ++ "@") ++ a.host.toText ++
    match a.service? with
    | some n => ":" ++ toString n.toNat
    | none => ""

end Authority

/-! ## Paths -/

namespace Path

/-- Small points of a segment, whether or not they are escaped. -/
def points : List Char → Option Nat
  | [] => some 0
  | '.' :: cs => (points cs).map (· + 1)
  | '%' :: '2' :: 'e' :: cs => (points cs).map (· + 1)
  | '%' :: '2' :: 'E' :: cs => (points cs).map (· + 1)
  | _ => none

/-- Segments without `.` and `..`.  `kept` are the ones so far, the last first. -/
def settle (kept : List (List Char)) : List (List Char) → List (List Char)
  | [] => kept.reverse
  | s :: rest =>
    let kept := match points s with
      | some 1 => kept
      | some 2 => kept.tail
      | _ => s :: kept
    if rest.isEmpty && (points s = some 1 || points s = some 2) then ([] :: kept).reverse
    else settle kept rest

/-- The path of segments that slashes separate. -/
def ofSegments (isSlash : Char → Bool) (cs : List Char) : Path :=
  segments ((settle [] (parts isSlash cs)).map (escaped inPath))

/-- A path as URLs write it. -/
def toText : Path → String
  | segments ss => "".intercalate (ss.map ("/" ++ ·))
  | text s => s

end Path

/-! ## Reading and writing -/

namespace Url

/-- A text without the blanks around it and the line breaks and tabs in it. -/
def trimmed (text : String) : List Char :=
  let blank (c : Char) : Bool := c ≤ ' '
  (((text.toList.dropWhile blank).reverse.dropWhile blank).reverse).filter
    fun c => !(c = '\t' || c = '\n' || c = '\r')

/-- A slash, or in schemes of the web a backslash. -/
def isSlash (web : Bool) (c : Char) : Bool := c = '/' || (web && c = '\\')

/-- Does not end a path. -/
def inPathText (c : Char) : Bool := c ≠ '?' && c ≠ '#'

/-- Query and fragment of what comes after a path. -/
def tail (web : Bool) (cs : List Char) : Option String × Option String :=
  let (cs, fragment?) := match cut '#' cs with
    | some (front, back) => (front, some (escaped inFragment back))
    | none => (cs, none)
  (match cs with
    | '?' :: cs => some (escaped (inQuery web) cs)
    | _ => none, fragment?)

/-- A URL of what comes after its authority. -/
def ofRest (scheme : String) (web : Bool) (authority? : Option Authority)
    (path : List Char → Path) (cs : List Char) : Url :=
  let (query?, fragment?) := tail web (cs.dropWhile inPathText)
  ⟨scheme, authority?, path (cs.takeWhile inPathText), query?, fragment?⟩

/-- The path of a URL of the web, which always has a segment. -/
def webPath (cs : List Char) : Path :=
  match cs with
  | c :: rest => .ofSegments (isSlash true) (if isSlash true c then rest else cs)
  | [] => .segments [""]

/-- The path of another URL: segments after a slash, or any text. -/
def otherPath (cs : List Char) : Path :=
  match cs with
  | '/' :: cs => .ofSegments (isSlash false) cs
  | cs => .text (escaped isControl cs)

/-- The path of a file, which has empty segments at its end only. -/
def filePath (cs : List Char) : Path := webPath (cs.dropWhile (isSlash true))

/-- The URL of an authority and what comes after it. -/
def ofAuthority? (scheme : String) (web : Bool) (path : List Char → Path) (cs : List Char) :
    Except UrlError Url := do
  let inside (c : Char) : Bool := !isSlash web c && inPathText c
  let rest := cs.dropWhile inside
  let authority ← Authority.ofText? scheme (!rest.isEmpty) (cs.takeWhile inside)
  return ofRest scheme web (some authority) path rest

/-- The URL of a file: it may have a host, but no user and no service. -/
def ofFile? (cs : List Char) : Except UrlError Url :=
  let file (host : Host) (rest : List Char) := ofRest "file" true (some ⟨"", "", host, none⟩) filePath rest
  match cs with
  | a :: b :: cs =>
    if isSlash true a && isSlash true b then do
      let inside (c : Char) : Bool := !isSlash true c && inPathText c
      let (text, rest) := (cs.takeWhile inside, cs.dropWhile inside)
      let host ← if text.isEmpty then pure (Host.name "") else (Host.ofText? true text).mapError .host
      return file (if host = .name "localhost" then .name "" else host) rest
    else return file (.name "") (a :: b :: cs)
  | cs => return file (.name "") cs

/-- The URL that a text is. -/
def ofText? (text : String) : Except UrlError Url :=
  match cutScheme (trimmed text) with
  | none => .error .relative
  | some (scheme, rest) =>
    if scheme = "file" then ofFile? rest
    else if (webServices.lookup scheme).isSome then
      ofAuthority? scheme true webPath (rest.dropWhile (isSlash true))
    else
      match rest with
      | '/' :: '/' :: rest =>
        ofAuthority? scheme false (fun cs => if cs.isEmpty then .segments [] else otherPath cs) rest
      | rest => return ofRest scheme false none otherPath rest

/-- There is a host to go to. -/
def hasHost (u : Url) : Bool :=
  match u.authority? with
  | some a => !a.host.isEmpty
  | none => false

/-- The URL without the name and the password of a user. -/
def withoutUser (u : Url) : Url :=
  { u with authority? := u.authority?.map fun a => { a with username := "", password := "" } }

/-- The path as a URL writes it: where it could be taken for an authority, it starts with a point. -/
def pathText (u : Url) : String :=
  match u.authority?, u.path with
  | none, .segments ("" :: s :: ss) => "/." ++ (Path.segments ("" :: s :: ss)).toText
  | _, path => path.toText

/-- A part of a URL after its mark, if there is one. -/
def marked (mark : String) : Option String → String
  | some s => mark ++ s
  | none => ""

/-- What a request names: path and query. -/
def target (u : Url) : String := u.pathText ++ marked "?" u.query?

/-- The written form of a URL. -/
def toText (u : Url) : String :=
  u.scheme ++ ":" ++ marked "//" (u.authority?.map Authority.toText) ++ u.target ++
    marked "#" u.fragment?

/-! ## URLs of each kind -/

/-- The written form of what a text is, or why it is no URL. -/
def written (text : String) : String :=
  match ofText? text with
  | .ok u => u.toText
  | .error e => e.message

example : written " HTTP:\\\\Host:080/a b/../c?x='\"#f g" = "http://host/c?x=%27%22#f%20g" := by
  decide +kernel
example : written "http://u:p@h:81/a/%2E%2e" = "http://u:p@h:81/" := by decide +kernel
example : written "h/p" = "relative URL without a base" ∧ written "http://h:x" = "invalid port number" := by
  decide +kernel
example : written "mailto:a b" = "mailto:a b" ∧ written "foo:/a//..//b" = "foo:/a//b" := by
  decide +kernel
example : written "file:c/../d" = "file:///d" ∧ written "foo://:@" = "foo://" := by decide +kernel

end Url
end Gatehouse.Http
