import LinuxNet.Httpd.Percent
import LinuxNet.Lib.Scanf

/-!
# `DHTTPD_ParseRequest`

The header of a request is cut into lines, each stored without its last
character, which is taken to be the carriage return. From the first line come
the method, the path, what stands behind a `?`, and the protocol version; the
other lines are looked at for the agent and the length of the content, and the
second one alone for the kind of connection.

Where the function reads memory it has not written, the model has a parameter
for what is there (`Stale`):

- a line without any character is stored as what `token` still holds, which is
  the line before it;
- the walk over the first line goes on behind its NUL after a query string with
  nothing behind it;
- the second line is looked at also when there is only one;
- a field that ends at its colon is read from behind its NUL;
- the last character of a long agent is what was there before.

The NUL of such a line goes to `token[-1]`, in front of the array. What the
compiler has put there is another parameter: where it is nothing that is in use
(`frontFree`) the write does no harm, else it is a fault. Every header that the
server has read to its end has such a line, the one the newline makes that is put
behind it, unless there are too many lines for it to be looked at.

A field of the structure that the request says nothing about keeps the value it
had on entry. `printf` is left out.
-/

namespace LinuxNet.Httpd

/-- `MAX_PATH_LEN`, with `MAXNAMLEN` being 255. -/
def maxPathLen : Nat := 256

/-- `METHOD_LEN`. -/
def methodLen : Nat := 16

/-- `PROTOCOL_LEN`. -/
def protocolLen : Nat := 16

/-- `MAX_QUERY_STRING_LEN`. -/
def maxQueryStringLen : Nat := 1024

/-- `USER_AGENT_LEN`. -/
def userAgentLen : Nat := 256

/-- `MAX_REQUEST_LINES`. -/
def maxRequestLines : Nat := 16

/-- `struct request`. -/
structure Request where
  address : CStr
  method : CStr
  documentAddress : CStr
  queryString : CStr
  protocolVersion : CStr
  keepAlive : Bool
  userAgent : CStr
  contentLength : Int
  deriving DecidableEq, Repr

/-- Memory that `DHTTPD_ParseRequest` may read without having written it. -/
structure Stale where
  /-- The string in `token` on entry. -/
  token : CStr
  /-- What is behind a string written to `token`. -/
  behindToken : List Char
  /-- What is behind the NUL of a line in `reqArray`. -/
  behindLine : List Char
  /-- The string in `reqArray[1]`. -/
  secondLine : CStr
  /-- The last character of `userAgent` but one, if it is not NUL. -/
  agentEnd : Option Char
  /-- Nothing that is in use lies in front of `token`. -/
  frontFree : Bool

/-! ## The lines -/

/-- The texts of the first `n` lines, each up to its newline. -/
def rawLines : Nat → CStr → List CStr
  | 0, _ => []
  | _ + 1, [] => []
  | n + 1, c :: req =>
    (c :: req).takeWhile (· ≠ '\n') ::
      rawLines n (((c :: req).dropWhile (· ≠ '\n')).drop 1)

/-- The lines as they are stored: without the last character, or, when there is none, once more
what `token` holds, the NUL being written in front of it. -/
def storedLines (frontFree : Bool) : CStr → List CStr → Except Fault (List CStr)
  | _, [] => .ok []
  | token, text :: texts =>
    if text = [] ∧ frontFree = false then .error .outOfBounds
    else
      let token := if text = [] then token else text.dropLast
      (storedLines frontFree token texts).map (token :: ·)

/-- `reqArray`, from the header with a newline behind it. -/
def reqArray (stale : Stale) (req : CStr) : Except Fault (List CStr) :=
  storedLines stale.frontFree stale.token (rawLines maxRequestLines (req ++ ['\n']))

/-! ## The first line -/

/-- Characters from the front of a row up to one that ends the token, `max` at most. -/
def scan (stop : Char → Bool) (max : Nat) (row : List Char) : CStr :=
  (row.take max).takeWhile fun c => !stop c

/-- What ends the method and the protocol version. -/
def endsWord (c : Char) : Bool := c = ' ' || c = nul

/-- What ends the path and the query string. -/
def endsPath (c : Char) : Bool := c = ' ' || c = '?' || c = nul

/-- The version of a request that does not give one. -/
def defaultProtocol : CStr := "HTTP/0.9".toList

/-- The protocol version in a row. -/
def protocolIn (row : List Char) : CStr :=
  let token := scan endsWord protocolLen row
  if token = [] then defaultProtocol else token

/-- What stands behind the path, from the character on that ended it. -/
def parseTail (req : Request) (row : List Char) : Request :=
  if row.head? = some nul then { req with protocolVersion := defaultProtocol }
  else if row.head? = some '?' then
    let query := scan endsPath maxQueryStringLen row.tail
    { req with
      queryString := query
      protocolVersion := protocolIn ((row.tail.drop query.length).drop 1) }
  else { req with protocolVersion := protocolIn row.tail }

/-- Method, path, query string and protocol version. -/
def parseFirst (stale : Stale) (req : Request) (line : CStr) : Except Fault Request :=
  let row := line ++ nul :: stale.behindLine
  let method := scan endsWord methodLen row
  let req := { req with method := method }
  let row := row.drop method.length
  if row.head? = some nul then
    .ok { req with documentAddress := [], protocolVersion := defaultProtocol }
  else
    let path := scan endsPath maxPathLen row.tail
    let row := row.tail.drop path.length
    match convertPercents (path.length + 1) (path ++ nul :: stale.behindToken) path.length with
    | .error e => .error e
    | .ok token => .ok (parseTail { req with documentAddress := cstr token } row)

/-! ## The other lines -/

def userAgentName : CStr := "User-Agent:".toList

def contentLengthName : CStr := "Content-Length:".toList

def contentLengthName' : CStr := "Content-length:".toList

/-- What a line has from place `o` on. -/
def lineFrom (stale : Stale) (line : CStr) (o : Nat) : CStr :=
  cstr ((line ++ nul :: stale.behindLine).drop o)

/-- `strncpy` to `userAgent`, which has a NUL of its own in its last place. -/
def storeAgent (stale : Stale) (text : CStr) : CStr :=
  if text.length < userAgentLen - 1 then text
  else text.take (userAgentLen - 1) ++ stale.agentEnd.toList

/-- `LONG_MAX`, a `long` having 64 bits. -/
def longMax : Int := 9223372036854775807

/-- What `%ld` stores of a number: the nearest one a `long` can hold. -/
def toLong (n : Int) : Int := max (-longMax - 1) (min n longMax)

/-- One of the lines behind the first. -/
def parseLine (stale : Stale) (req : Request) (line : CStr) : Request :=
  if strncmp0 line userAgentName userAgentName.length then
    { req with userAgent := storeAgent stale (lineFrom stale line (userAgentName.length + 1)) }
  else if strncmp0 line contentLengthName contentLengthName'.length ||
      strncmp0 line contentLengthName' contentLengthName'.length then
    match scanText (bytesOf (lineFrom stale line (contentLengthName'.length + 1))) with
    | some n => { req with contentLength := toLong n }
    | none => req
  else req

/-- The line asks for the connection to be kept. -/
def asksKeepAlive (line : CStr) : Bool :=
  strncmp0 line "Connection: Keep-Alive".toList 22 ||
    strncmp0 line "Connection: keep-alive".toList 22

/-- The agent of a request that does not name one. -/
def noAgent : CStr := "NR".toList

/-- `DHTTPD_ParseRequest`, on the string `req` in the buffer. The last line is not looked at: it
is the newline put behind the header. -/
def parseRequest (stale : Stale) (reqStruct : Request) (req : CStr) : Except Fault Request :=
  match reqArray stale req with
  | .error e => .error e
  | .ok lines =>
    let readLines := lines.length - 1
    match parseFirst stale reqStruct (lines.headD stale.token) with
    | .error e => .error e
    | .ok r =>
      let r := { r with
        keepAlive := asksKeepAlive (lines.getD 1 stale.secondLine)
        userAgent := [] }
      let r := ((lines.take readLines).drop 1).foldl (parseLine stale) r
      .ok (if r.userAgent = [] then { r with userAgent := noAgent } else r)

end LinuxNet.Httpd
