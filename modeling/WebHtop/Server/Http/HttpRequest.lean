import WebHtop.Common.Bytes
import WebHtop.Lib.Istream
import WebHtop.Lib.Lines
import WebHtop.Lib.Table

/-!
# HTTP requests and responses

`ParseHttpRequest` and `HttpResponse` of server/http/http_request.cpp. The positions of the loop
over the headers are offsets into the whole text, as in the source.
-/

namespace WebHtop.Server.Http

open WebHtop.Lib WebHtop.Lib.Lines

structure HttpRequest where
  status : Nat
  target : Bytes := []
  deriving DecidableEq

def cr : UInt8 := 13

def lf : UInt8 := 10

/-- `bad(status)`. -/
def bad (status : Nat := 400) : HttpRequest := { status }

theorem bad_ne {status : Nat} {target : Bytes} (h : status ≠ 200) : bad status ≠ ⟨200, target⟩ :=
  fun he => h (congrArg HttpRequest.status he)

/-- `line >> method >> target >> version`, and no further word. -/
def requestLine (line : Bytes) : Option (Bytes × Bytes × Bytes) := do
  let (method, line) ← Istream.word line
  let (target, line) ← Istream.word line
  let (version, line) ← Istream.word line
  if (Istream.word line).isSome then none else some (method, target, version)

/-- `std::isalnum`. -/
def isAlnum (c : UInt8) : Bool :=
  (48 ≤ c && c ≤ 57) || (65 ≤ c && c ≤ 90) || (97 ≤ c && c ≤ 122)

def isToken (c : UInt8) : Bool := isAlnum c || (lit "!#$%&'*+-.^_`|~").contains c

/-- `std::tolower`. -/
def toLower (c : UInt8) : UInt8 := if 65 ≤ c ∧ c ≤ 90 then c + 32 else c

def isBlank (c : UInt8) : Bool := c = ch ' ' || c = ch '\t'

def isControl (c : UInt8) : Bool := (c < 32 && c ≠ ch '\t') || c = 127

/-- The two loops over the ends of a value. -/
def trim (value : Bytes) : Bytes :=
  ((value.dropWhile isBlank).reverse.dropWhile isBlank).reverse

/-- The name, in lower case, and the value of a header. -/
def header (row : Bytes) : Option (Bytes × Bytes) :=
  match row.findIdx? fun c => c = ch ':' with
  | none => none
  | some 0 => none
  | some (before + 1) =>
    let key := row.take (before + 1)
    let value := trim (row.drop (before + 2))
    if key.all isToken && !value.any isControl then some (key.map toLower, value) else none

/-- The loop over the headers; `none` is a malformed or repeated one. -/
def headerLoop (text : Bytes) (end_ pos : Nat) (headers : Table Bytes Bytes) :
    Option (Table Bytes Bytes) :=
  if pos < end_ then
    match find [cr, lf] (text.drop pos) with
    | none => none
    | some n =>
      match header ((text.drop pos).take n) with
      | none => none
      | some (key, value) =>
        if (headers.get key).isSome then none
        else headerLoop text end_ (pos + n + 2) (headers ++ [(key, value)])
  else some headers
termination_by end_ - pos

/-- `std::from_chars` into an unsigned of 32 bits: the number and the text behind it. -/
def fromChars (s : Bytes) : Option (Nat × Bytes) :=
  let digits := s.takeWhile Decimal.isDigit
  if digits = [] ∨ 2 ^ 32 ≤ Decimal.value digits then none
  else some (Decimal.value digits, s.dropWhile Decimal.isDigit)

/-- The checks behind the loop. -/
def checkHeaders (target version : Bytes) (headers : Table Bytes Bytes) : HttpRequest :=
  if version = lit "HTTP/1.1" ∧ (headers.get (lit "host")).getD [] = [] then bad
  else if (headers.get (lit "transfer-encoding")).isSome then bad
  else if (headers.get (lit "expect")).isSome then bad 417
  else if (headers.get (lit "content-length")).any fun s => fromChars s ≠ some (0, []) then bad
  else { status := 200, target }

def parseHttpRequest (text : Bytes) : HttpRequest :=
  match find [cr, lf, cr, lf] text with
  | none => bad
  | some end_ =>
    if end_ + 4 ≠ text.length then bad
    else if text.length > 8192 then bad 431
    else
      match find [cr, lf] text with
      | none => bad -- not reached: the text has a line end
      | some first =>
        match requestLine (text.take first) with
        | none => bad
        | some (method, target, version) =>
          if method ≠ lit "GET" then bad 405
          else if version ≠ lit "HTTP/1.1" ∧ version ≠ lit "HTTP/1.0" then bad 505
          else if target.head? ≠ some (ch '/') then bad
          else if target.any fun c => c ≤ 32 || 127 ≤ c then bad
          else
            match headerLoop text end_ (first + 2) [] with
            | none => bad
            | some headers => checkHeaders target version headers

def reason (status : Nat) : Bytes :=
  match status with
  | 200 => lit "OK"
  | 400 => lit "Bad Request"
  | 404 => lit "Not Found"
  | 405 => lit "Method Not Allowed"
  | 417 => lit "Expectation Failed"
  | 431 => lit "Request Header Fields Too Large"
  | 503 => lit "Service Unavailable"
  | 505 => lit "HTTP Version Not Supported"
  | _ => lit "Internal Server Error"

/-- HttpResponse. -/
def httpResponse (status : Nat) (body : Bytes) (type : Bytes := lit "application/json") : Bytes :=
  lit "HTTP/1.1 " ++ Decimal.numeral status ++ lit " " ++ reason status ++
    lit "\r\nContent-Type: " ++ type ++ lit "\r\nContent-Length: " ++
    Decimal.numeral body.length ++ lit "\r\nConnection: close\r\nCache-Control: no-store\r\n" ++
    (if status = 405 then lit "Allow: GET\r\n" else []) ++ lit "\r\n" ++ body

end WebHtop.Server.Http
