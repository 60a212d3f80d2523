import IndexRefresh.Http.Url

namespace IndexRefresh.Http

structure Request where
  url : Url
  headers : List (String × String)
  deriving DecidableEq, Repr

structure Response where
  status : Nat
  headers : List (String × String)
  body : Option String
  deriving DecidableEq, Repr

def reasons : List (Nat × String) :=
  [(100, "Continue"), (101, "Switching Protocols"), (102, "Processing"), (200, "OK"),
   (201, "Created"), (202, "Accepted"), (203, "Non Authoritative Information"),
   (204, "No Content"), (205, "Reset Content"), (206, "Partial Content"), (207, "Multi-Status"),
   (208, "Already Reported"), (226, "IM Used"), (300, "Multiple Choices"),
   (301, "Moved Permanently"), (302, "Found"), (303, "See Other"), (304, "Not Modified"),
   (305, "Use Proxy"), (307, "Temporary Redirect"), (308, "Permanent Redirect"),
   (400, "Bad Request"), (401, "Unauthorized"), (402, "Payment Required"), (403, "Forbidden"),
   (404, "Not Found"), (405, "Method Not Allowed"), (406, "Not Acceptable"),
   (407, "Proxy Authentication Required"), (408, "Request Timeout"), (409, "Conflict"),
   (410, "Gone"), (411, "Length Required"), (412, "Precondition Failed"),
   (413, "Payload Too Large"), (414, "URI Too Long"), (415, "Unsupported Media Type"),
   (416, "Range Not Satisfiable"), (417, "Expectation Failed"), (418, "I'm a teapot"),
   (421, "Misdirected Request"), (422, "Unprocessable Entity"), (423, "Locked"),
   (424, "Failed Dependency"), (425, "Too Early"), (426, "Upgrade Required"),
   (428, "Precondition Required"), (429, "Too Many Requests"),
   (431, "Request Header Fields Too Large"), (451, "Unavailable For Legal Reasons"),
   (500, "Internal Server Error"), (501, "Not Implemented"), (502, "Bad Gateway"),
   (503, "Service Unavailable"), (504, "Gateway Timeout"), (505, "HTTP Version Not Supported"),
   (506, "Variant Also Negotiates"), (507, "Insufficient Storage"), (508, "Loop Detected"),
   (510, "Not Extended"), (511, "Network Authentication Required")]

def statusText (status : Nat) : String :=
  toString status ++ " " ++ (reasons.lookup status).getD "<unknown status code>"

namespace Response

def header? (r : Response) (name : String) : Option String :=
  (r.headers.find? fun h => h.1.toLower == name).map fun h =>
    String.ofList (Text.strip (fun c => c == ' ' || c == '\t') h.2.toList)

/-- Some answers have no body whatever the peer sends. -/
def content? (r : Response) : Option String :=
  if r.status = 204 ∨ r.status = 304 then some "" else r.body

def isSuccess (r : Response) : Bool :=
  200 ≤ r.status && r.status < 300

def isRedirect (r : Response) : Bool :=
  [301, 302, 303, 307, 308].contains r.status

end Response

def isHeaderValue (value : String) : Bool :=
  value.toList.all fun c => c == '\t' || (0x20 ≤ c.toNat && c.toNat != 0x7F)

def isPlainHeader (value : String) : Bool :=
  value.toList.all fun c => c == '\t' || (0x20 ≤ c.toNat && c.toNat < 0x7F)

def maxRedirects : Nat :=
  10

def carriedOver (old new : Url) (headers : List (String × String)) : List (String × String) :=
  if old.authority = new.authority then headers
  else headers.filter fun h => h.1 != "authorization"

def redirected? (request : Request) (r : Response) : Option Request :=
  if r.isRedirect then
    ((r.header? "location").bind request.url.join?).map fun url =>
      ⟨url, carriedOver request.url url request.headers⟩
  else none

/-- Sends a request, then those that redirects lead to. No answer means that one of them could not
be carried out. -/
def follow {m : Type → Type} [Monad m] (exchange : Request → m (Option Response))
    (redirects : Nat) (request : Request) : m (Option Response) := do
  match ← exchange request with
  | none => return none
  | some r =>
      match redirected? request r with
      | none => return some r
      | some next =>
          match redirects with
          | 0 => return none
          | redirects + 1 => follow exchange redirects next

end IndexRefresh.Http
