import DealsServer.Spec.Strings

/-!
# HTTP (`http.cpp`, `types::ObjectMap`)

The incremental request parser `HttpParser` and the response `HttpResponse`.
-/

namespace DealsServer

open Decimal

/-- `types::Object`: one name with its value. -/
structure Object where
  name : Bytes
  value : Bytes
  deriving DecidableEq, Repr

/-- `types::ObjectMap`: the objects in the order they were added. -/
abbrev ObjectMap := List Object

/-- `ObjectMap::operator[]`: the value of the first object of that name, or the empty string. -/
def ObjectMap.get (m : ObjectMap) (name : Bytes) : Bytes :=
  match m.find? (fun obj => obj.name = name) with
  | some obj => obj.value
  | none => []

inductive ParserResult
  | parseOk
  | parseAwait
  | parseErr
  deriving DecidableEq, Repr

/-- One header line as an object; a line without `:` is skipped. -/
def headerOfLine (text : Bytes) : Option Object :=
  match find (str ":") text with
  | none => none
  | some hpos =>
    -- a space after `:` is skipped
    let hpos' := if text[hpos + 1]? = some 32 then hpos + 1 else hpos
    some ⟨toLowerCase (text.take hpos), text.drop (hpos' + 1)⟩

/-- `HttpHeaders::parse`. -/
def HttpHeaders.parse (headers : ObjectMap) (httpMessage : Bytes) : ParserResult × ObjectMap :=
  if httpMessage = [] then (.parseErr, headers)
  else
    match find (str "\r\n\r\n") httpMessage with
    | none => (.parseAwait, headers)
    | some pos =>
      match splitString (httpMessage.take pos) (str "\r\n") with
      | [] => (.parseErr, headers)
      | _ :: lines => (.parseOk, headers ++ lines.filterMap headerOfLine)

/-- `URIQueryParams`. -/
structure URIQueryParams where
  params : ObjectMap
  path : Bytes
  deriving DecidableEq, Repr

/-- One `name=value` of a query string. -/
def paramOfText (param : Bytes) : Object :=
  match find (str "=") param with
  | none => ⟨param, []⟩
  | some pos => ⟨param.take pos, param.drop (pos + 1)⟩

/-- `URIQueryParams::parse`. -/
def URIQueryParams.parse (query : URIQueryParams) (queryText : Bytes) : ParserResult × URIQueryParams :=
  if queryText = [] then (.parseErr, query)
  else
    match find (str "?") queryText with
    | none => (.parseOk, { query with path := queryText })
    | some pos =>
      (.parseOk,
        { params := query.params ++ (splitString (queryText.drop (pos + 1)) (str "&")).map paramOfText
          path := queryText.take pos })

/-- `HttpRequest`. -/
structure HttpRequest where
  method : Bytes
  uri : Bytes
  httpVersion : Bytes
  query : URIQueryParams
  deriving DecidableEq, Repr

/-- `HttpRequest::parse`. -/
def HttpRequest.parse (request : HttpRequest) (requestline : Bytes) : ParserResult × HttpRequest :=
  if requestline = [] then (.parseErr, request)
  else
    match find (str "\r\n") requestline with
    | none => (.parseErr, request)
    | some pos =>
      match splitString (requestline.take pos) (str " ") with
      | [method, uri, version] =>
        let (res, query) := request.query.parse uri
        (res, ⟨method, uri, version, query⟩)
      | _ => (.parseErr, request)

/-- `HttpParser`. -/
structure HttpParser where
  headers : ObjectMap
  request : HttpRequest
  msgs : List Bytes
  headersEnd : ℕ
  bytesWritten : ℕ
  contentLength : ℕ
  headersWritten : Bool
  parsingComplete : Bool
  badRequest : Bool
  deriving DecidableEq, Repr

/-- A fresh `HttpParser`. -/
def HttpParser.init : HttpParser :=
  { headers := []
    request := ⟨[], [], [], ⟨[], []⟩⟩
    msgs := []
    headersEnd := 0
    bytesWritten := 0
    contentLength := 0
    headersWritten := false
    parsingComplete := false
    badRequest := false }

/-- The part of `HttpParser::write` that counts the body of a `POST`. -/
def HttpParser.checkBody (p : HttpParser) : HttpParser :=
  if p.request.method = str "POST" then
    if p.bytesWritten - p.headersEnd < p.contentLength then p else { p with parsingComplete := true }
  else p

/-- `content_length = std::stol(...)`, a `size_t`; unchanged when `stol` throws. -/
def contentLengthOf (text : Bytes) (old : ℕ) : ℕ :=
  if text = [] then old
  else
    match stol text with
    | some v => (v % 2 ^ 64).toNat
    | none => old

/-- `HttpParser::write`. -/
def HttpParser.write (p : HttpParser) (msg : Bytes) : HttpParser :=
  let p := { p with msgs := p.msgs ++ [msg], bytesWritten := p.bytesWritten + msg.length }
  if p.headersWritten then p.checkBody
  else
    let concatedMsg := concatString p.msgs
    match find (str "\r\n\r\n") concatedMsg with
    | none => p
    | some pos =>
      match HttpHeaders.parse p.headers concatedMsg with
      | (.parseOk, headers) =>
        let p := { p with
          headers := headers
          headersEnd := pos + 4
          headersWritten := true
          contentLength := contentLengthOf (headers.get (str "content-length")) p.contentLength }
        match p.request.parse concatedMsg with
        | (.parseOk, request) =>
          let p := { p with request := request }
          (if request.method = str "GET" then { p with parsingComplete := true } else p).checkBody
        | (_, request) => { p with request := request, badRequest := true }
      | (_, headers) => { p with headers := headers }

/-- `HttpParser::get_body`. -/
def HttpParser.getBody (p : HttpParser) : Bytes := (concatString p.msgs).drop p.headersEnd

/-- `HttpParser::get_headers`. -/
def HttpParser.getHeaders (p : HttpParser) : Bytes := (concatString p.msgs).take p.headersEnd

/-- `HttpParser::get_request_line`. -/
def HttpParser.getRequestLine (p : HttpParser) : Bytes :=
  match find (str "\r\n") p.getHeaders with
  | some pos => p.getHeaders.take pos
  | none => p.getHeaders

/-- `HttpResponse`. -/
structure HttpResponse where
  statusCode : ℕ
  reasonPhrase : Bytes
  headers : List Bytes
  body : List Bytes
  deriving DecidableEq, Repr

/-- `HttpResponse::add_header`. -/
def HttpResponse.addHeader (r : HttpResponse) (name value : Bytes) : HttpResponse :=
  { r with headers := r.headers ++ [name ++ str ": " ++ value ++ str "\r\n"] }

/-- `HttpResponse::write`. -/
def HttpResponse.write (r : HttpResponse) (msg : Bytes) : HttpResponse :=
  { r with body := r.body ++ [msg] }

/-- `HttpResponse::operator std::string`. -/
def HttpResponse.toBytes (r : HttpResponse) : Bytes :=
  str "HTTP/1.0 " ++ decimal r.statusCode ++ str " " ++ r.reasonPhrase ++ str "\r\n" ++
    r.headers.flatten ++ str "\r\n" ++ concatString r.body

end DealsServer
