import DealsServer.Proof.Clearing
import DealsServer.Proof.Framing
import DealsServer.Proof.History
import DealsServer.Proof.OneExecution
import DealsServer.Proof.RequestLine
import DealsServer.Spec.Service

/-!
# What clients read

* `readResponse_toBytes`: a response that is read line by line has the status, the headers and the body it was made of.
* `answers_readable`: in every run of the server, everything a connection is sent reads as a response of one of six
  status codes, and a `Content-Length` is the length of the body.

`readResponse` is what any client does: it cuts the head at the first empty line and takes the rest as the body.
-/

namespace DealsServer

open Decimal Sequential StateMachine

/-! ## Reading a response -/

/-- A response as it is read. -/
structure Reply where
  statusCode : ℕ
  reasonPhrase : Bytes
  headers : ObjectMap
  body : Bytes
  deriving DecidableEq, Repr

/-- The code and the phrase of a status line. -/
def readStatus (line : Bytes) : Option (ℕ × Bytes) :=
  match find (str " ") line with
  | none => none
  | some i =>
    let rest := line.drop (i + 1)
    match find (str " ") rest with
    | none => none
    | some j => some (decimalValue (rest.take j), rest.drop (j + 1))

/-- The status line and the header lines are cut at line ends, up to the first empty line. -/
def readResponse (msg : Bytes) : Option Reply :=
  match find (str "\r\n\r\n") msg with
  | none => none
  | some pos =>
    match splitString (msg.take pos) (str "\r\n") with
    | [] => none
    | line :: fields =>
      match readStatus line with
      | none => none
      | some (code, phrase) => some ⟨code, phrase, fields.filterMap headerOfLine, msg.drop (pos + 4)⟩

/-- The text of a header. -/
def Object.field (obj : Object) : Bytes := obj.name ++ str ": " ++ obj.value

/-- The response has these headers, and nothing in its head breaks a line. -/
structure HttpResponse.Carries (r : HttpResponse) (fields : List Object) : Prop where
  headers : r.headers = fields.map fun obj => obj.field ++ str "\r\n"
  reason : 13 ∉ r.reasonPhrase
  names : ∀ obj ∈ fields, 58 ∉ obj.name
  unbroken : ∀ obj ∈ fields, 13 ∉ obj.field

/-! ## Lines -/

section Lines

variable {lines : List Bytes}

/-- A pattern that does not stand in the beginning is found behind it. -/
theorem find_later {pat a w : Bytes} {k : ℕ} (hnot : ∀ i < a.length, ¬ pat <+: (a ++ w).drop i)
    (hk : find pat w = some k) : find pat (a ++ w) = some (a.length + k) := by
  obtain ⟨hstands, hfirst⟩ := find_eq_some_iff.1 hk
  refine find_eq_some_iff.2 ⟨?_, fun i hi => ?_⟩
  · rwa [List.drop_append, List.drop_eq_nil_of_le (by omega), List.nil_append, Nat.add_sub_cancel_left]
  · by_cases hlt : i < a.length
    · exact hnot i hlt
    · have hrest := hfirst (i - a.length) (by omega)
      rwa [List.drop_append, List.drop_eq_nil_of_le (by omega), List.nil_append]

/-- What begins with `b` does not stand where another byte is. -/
theorem not_prefix_cons {b c : UInt8} {pat w : Bytes} (hne : b ≠ c) : ¬ b :: pat <+: c :: w := by
  rintro ⟨t, ht⟩
  exact hne (List.cons.inj ht).1

/-- **The empty line is found** behind the last line of the head. -/
theorem find_emptyLine (hlines : lines ≠ []) (hnonempty : ∀ line ∈ lines, line ≠ []) (hunbroken : ∀ line ∈ lines, 13 ∉ line)
    (body : Bytes) : find [13, 10, 13, 10] (([13, 10] : Bytes).intercalate lines ++ [13, 10, 13, 10] ++ body) =
      some (([13, 10] : Bytes).intercalate lines).length := by
  induction lines with
  | nil => exact absurd rfl hlines
  | cons line lines ih =>
    have hline := hunbroken line List.mem_cons_self
    rcases lines with _ | ⟨next, lines⟩
    · rw [List.intercalate_singleton]
      exact find_behind [10, 13, 10] body hline
    have hrest := ih (List.cons_ne_nil _ _) (fun l hl => hnonempty l (List.mem_cons_of_mem _ hl))
      fun l hl => hunbroken l (List.mem_cons_of_mem _ hl)
    obtain ⟨b, next', hnext⟩ := List.exists_cons_of_ne_nil (hnonempty next (by simp))
    have hb : (13 : UInt8) ≠ b := by
      rintro rfl
      exact hunbroken next (by simp) (hnext ▸ List.mem_cons_self)
    -- the next line begins with something else than a line end
    obtain ⟨tail, htail⟩ : ∃ tail, ([13, 10] : Bytes).intercalate (next :: lines) ++ [13, 10, 13, 10] ++ body = b :: tail := by
      rcases lines with _ | ⟨l, lines⟩
      · exact ⟨_, by rw [List.intercalate_singleton, hnext]; rfl⟩
      · exact ⟨_, by rw [List.intercalate_cons_cons, hnext]; rfl⟩
    rw [List.intercalate_cons_cons, List.append_assoc, List.append_assoc (line ++ _), ← List.append_assoc (List.intercalate _ _)]
    rw [List.length_append]
    refine find_later (fun i hi hpre => ?_) hrest
    rw [htail] at hpre
    rw [List.length_append] at hi
    have hcases : i < line.length ∨ i = line.length ∨ i = line.length + 1 := by
      have htwo : ([13, 10] : Bytes).length = 2 := rfl
      omega
    rcases hcases with hlt | rfl | rfl
    · rw [List.append_assoc, List.drop_append_of_le_length hlt.le, List.drop_eq_getElem_cons hlt] at hpre
      refine not_prefix_cons (fun heq => hline ?_) hpre
      rw [heq]
      exact List.getElem_mem hlt
    · rw [List.append_assoc, List.drop_left] at hpre
      have hsecond := (List.cons_prefix_cons.1 (List.cons_prefix_cons.1 hpre).2).2
      exact not_prefix_cons hb hsecond
    · rw [List.append_assoc, List.drop_append] at hpre
      simp only [Nat.add_sub_cancel_left, List.drop_eq_nil_of_le (Nat.le_succ line.length), List.nil_append] at hpre
      exact not_prefix_cons (by decide) hpre

/-- The head is cut into its lines. -/
theorem splitString_lines (hnonempty : ∀ line ∈ lines, line ≠ []) (hunbroken : ∀ line ∈ lines, 13 ∉ line) :
    splitString (([13, 10] : Bytes).intercalate lines) [13, 10] = lines := by
  induction lines with
  | nil => rfl
  | cons line lines ih =>
    have hline := hunbroken line List.mem_cons_self
    rcases lines with _ | ⟨next, lines⟩
    · rw [List.intercalate_singleton]
      have hnone : find [13, 10] line = none :=
        find_eq_none_iff.2 fun hpart => hline (hpart.subset List.mem_cons_self)
      exact splitString_whole (hnonempty line List.mem_cons_self) hnone
    · have hrest := ih (fun l hl => hnonempty l (List.mem_cons_of_mem _ hl))
        fun l hl => hunbroken l (List.mem_cons_of_mem _ hl)
      rw [List.intercalate_cons_cons]
      have hfind := find_behind (w := line) [10] (([13, 10] : Bytes).intercalate (next :: lines)) hline
      rw [splitString_cut (by simp) hfind, List.append_assoc, List.take_left, ← List.append_assoc]
      have hdrop : (line ++ [13, 10] ++ ([13, 10] : Bytes).intercalate (next :: lines)).drop
          (line.length + ([13, 10] : Bytes).length) = ([13, 10] : Bytes).intercalate (next :: lines) := by
        rw [← List.length_append, List.drop_left]
      rw [hdrop, hrest]

/-- A header is read back. Names come in lower case. -/
theorem headerOfLine_field {obj : Object} (hname : 58 ∉ obj.name) :
    headerOfLine obj.field = some ⟨toLowerCase obj.name, obj.value⟩ := by
  have hcolon : str ":" = [58] := by decide
  have hsep : str ": " = [58] ++ [32] := by decide
  have hfield : obj.field = obj.name ++ [58] ++ (32 :: obj.value) := by
    rw [Object.field, hsep]
    simp
  unfold headerOfLine
  rw [hfield, hcolon, find_behind [] _ hname]
  have hspace : (obj.name ++ [58] ++ (32 :: obj.value))[obj.name.length + 1]? = some 32 := by
    rw [List.getElem?_append_right (by simp)]
    simp
  simp only [hspace, if_true]
  congr 2
  · simp
  · rw [List.drop_append, List.drop_eq_nil_of_le (by simp)]
    simp

theorem intercalate_closed (sep line : Bytes) (lines : List Bytes) :
    sep.intercalate (line :: lines) ++ sep = line ++ sep ++ (lines.map (· ++ sep)).flatten := by
  induction lines generalizing line with
  | nil => simp
  | cons next lines ih =>
    rw [List.intercalate_cons_cons, List.append_assoc, ih, List.map_cons, List.flatten_cons]

end Lines

/-! ## The round trip -/

/-- `Status-Line`, without its line end. -/
def HttpResponse.statusLine (r : HttpResponse) : Bytes := str "HTTP/1.0 " ++ decimal r.statusCode ++ str " " ++ r.reasonPhrase

theorem readStatus_statusLine (r : HttpResponse) : readStatus r.statusLine = some (r.statusCode, r.reasonPhrase) := by
  have hversion : str "HTTP/1.0 " = str "HTTP/1.0" ++ [32] := by decide
  have hspace : str " " = [32] := by decide
  have hdigits : (32 : UInt8) ∉ decimal r.statusCode := fun hin => absurd (isDigit_decimal hin) (by decide)
  have hline : r.statusLine = str "HTTP/1.0" ++ [32] ++ (decimal r.statusCode ++ [32] ++ r.reasonPhrase) := by
    rw [HttpResponse.statusLine, hversion, hspace]
    simp
  unfold readStatus
  rw [hline, hspace, find_behind [] _ (by decide)]
  have hrest : (str "HTTP/1.0" ++ [32] ++ (decimal r.statusCode ++ [32] ++ r.reasonPhrase)).drop
      ((str "HTTP/1.0").length + 1) = decimal r.statusCode ++ [32] ++ r.reasonPhrase :=
    List.drop_left' (by simp)
  dsimp only
  rw [hrest, find_behind [] _ hdigits]
  have hphrase : (decimal r.statusCode ++ [32] ++ r.reasonPhrase).drop ((decimal r.statusCode).length + 1) =
      r.reasonPhrase := List.drop_left' (by simp)
  dsimp only
  rw [hphrase, List.append_assoc, List.take_left, decimalValue_decimal]

/-- **A response is read back**: status, headers and body. -/
theorem readResponse_toBytes {r : HttpResponse} {fields : List Object} (hr : r.Carries fields) :
    readResponse r.toBytes = some ⟨r.statusCode, r.reasonPhrase,
      fields.map fun obj => ⟨toLowerCase obj.name, obj.value⟩, concatString r.body⟩ := by
  have hempty : str "\r\n\r\n" = [13, 10, 13, 10] := by decide
  set lines := r.statusLine :: fields.map Object.field with hlines
  have hmsg : r.toBytes = ([13, 10] : Bytes).intercalate lines ++ [13, 10, 13, 10] ++ concatString r.body := by
    have hclosed := intercalate_closed [13, 10] r.statusLine (fields.map Object.field)
    have hheaders : r.headers = (fields.map Object.field).map (· ++ [13, 10]) := by
      rw [hr.headers, List.map_map, str_crlf]
      rfl
    calc r.toBytes = r.statusLine ++ [13, 10] ++ r.headers.flatten ++ [13, 10] ++ concatString r.body := by
          rw [HttpResponse.toBytes, HttpResponse.statusLine, str_crlf]
      _ = ([13, 10] : Bytes).intercalate lines ++ [13, 10] ++ [13, 10] ++ concatString r.body := by
          rw [hheaders, ← hclosed]
      _ = _ := by simp
  have hnonempty : ∀ line ∈ lines, line ≠ [] := by
    intro line hline
    rcases List.mem_cons.1 hline with rfl | hfield
    · have hversion : str "HTTP/1.0 " ≠ [] := by decide
      simp [HttpResponse.statusLine, hversion]
    · obtain ⟨obj, -, rfl⟩ := List.mem_map.1 hfield
      have hsep : str ": " ≠ [] := by decide
      simp [Object.field, hsep]
  have hunbroken : ∀ line ∈ lines, (13 : UInt8) ∉ line := by
    intro line hline
    rcases List.mem_cons.1 hline with rfl | hfield
    · have hversion : (13 : UInt8) ∉ str "HTTP/1.0 " := by decide
      have hspace : (13 : UInt8) ∉ str " " := by decide
      have hdigits : (13 : UInt8) ∉ decimal r.statusCode := fun hin => absurd (isDigit_decimal hin) (by decide)
      simp [HttpResponse.statusLine, hversion, hspace, hdigits, hr.reason]
    · obtain ⟨obj, hobj, rfl⟩ := List.mem_map.1 hfield
      exact hr.unbroken obj hobj
  unfold readResponse
  rw [hempty, hmsg, find_emptyLine (List.cons_ne_nil _ _) hnonempty hunbroken]
  dsimp only
  rw [List.append_assoc, List.take_left, str_crlf, splitString_lines hnonempty hunbroken]
  rw [hlines]
  dsimp only
  rw [readStatus_statusLine]
  have hfields : (fields.map Object.field).filterMap headerOfLine =
      fields.map fun obj => ⟨toLowerCase obj.name, obj.value⟩ := by
    rw [List.filterMap_map, ← List.filterMap_eq_map]
    exact List.filterMap_congr fun obj hobj => headerOfLine_field (hr.names obj hobj)
  have hbody (head : Bytes) : (head ++ ([13, 10, 13, 10] ++ concatString r.body)).drop (head.length + 4) =
      concatString r.body := by
    rw [← List.append_assoc]
    exact List.drop_left' (by simp)
  rw [hfields, hbody]

/-! ## The responses of the server -/

/-- A response whose head says how long its body is, if it says so at all. -/
structure Framed (r : HttpResponse) : Prop where
  carries : ∃ fields, r.Carries fields ∧
    (∀ obj ∈ fields, toLowerCase obj.name = str "content-length" → obj.value = decimal (concatString r.body).length)
  code : r.statusCode ∈ [200, 204, 400, 404, 500, 503]
  empty : r.statusCode = 204 → concatString r.body = []

/-- A message without headers. -/
theorem framed_message {code : ℕ} {phrase : Bytes} (message : Bytes) (hcode : code ∈ [200, 400, 404, 500, 503])
    (hphrase : 13 ∉ phrase) : Framed ⟨code, phrase, [], [message]⟩ := by
  have hcodes : code ∈ [200, 204, 400, 404, 500, 503] := by
    simp only [List.mem_cons, List.not_mem_nil, or_false] at hcode ⊢
    omega
  refine ⟨⟨[], ⟨rfl, hphrase, nofun, nofun⟩, nofun⟩, hcodes, fun h => ?_⟩
  have hempty : code = 204 := h
  rw [hempty] at hcode
  exact absurd hcode (by decide)

theorem framed_errorResponse (err : Error) : Framed (errorResponse err) := by
  unfold errorResponse
  cases err.code with
  | badParameter => exact framed_message err.message (by decide) (by decide)
  | internalError => exact framed_message err.message (by decide) (by decide)

theorem code_ok : 200 ∈ [200, 204, 400, 404, 500, 503] := by decide

theorem code_empty : 204 ∈ [200, 204, 400, 404, 500, 503] := by decide

theorem colon_not_mem_type : (58 : UInt8) ∉ str "Content-Type" := by decide

theorem colon_not_mem_length : (58 : UInt8) ∉ str "Content-Length" := by decide

theorem type_ne_length : toLowerCase (str "Content-Type") ≠ str "content-length" := by decide

/-- A header field with an unbroken name and value is unbroken. -/
theorem unbroken_field {name value : Bytes} (hname : (13 : UInt8) ∉ name) (hvalue : 13 ∉ value) :
    13 ∉ (Object.mk name value).field := by
  have hsep : (13 : UInt8) ∉ str ": " := by decide
  simp [Object.field, hname, hsep, hvalue]

theorem framed_emptyResult (phrase : String) (hphrase : 13 ∉ str phrase) : Framed (emptyResult phrase) := by
  refine ⟨⟨[⟨str "Content-Length", str "0"⟩], ⟨rfl, hphrase, fun obj hobj => ?_, fun obj hobj => ?_⟩,
    fun obj hobj _ => ?_⟩, code_empty, fun _ => rfl⟩
  · rw [List.mem_singleton.1 hobj]
    exact colon_not_mem_length
  · rw [List.mem_singleton.1 hobj]
    exact unbroken_field (by decide) (by decide)
  · rw [List.mem_singleton.1 hobj]
    show str "0" = decimal 0
    decide

/-- A body of a declared type and length. -/
theorem framed_text (type : String) (text : Bytes) (htype : 13 ∉ str type) :
    Framed ((((HttpResponse.mk 200 (str "OK") [] []).addHeader (str "Content-Type") (str type)).addHeader
      (str "Content-Length") (decimal text.length)).write text) := by
  have hdigits : (13 : UInt8) ∉ decimal text.length := fun hin => absurd (isDigit_decimal hin) (by decide)
  have hphrase : (13 : UInt8) ∉ str "OK" := by decide
  have hbody : concatString [text] = text := by simp [concatString]
  refine ⟨⟨[⟨str "Content-Type", str type⟩, ⟨str "Content-Length", decimal text.length⟩],
    ⟨rfl, hphrase, fun obj hobj => ?_, fun obj hobj => ?_⟩, fun obj hobj hname => ?_⟩, code_ok, fun h => ?_⟩
  · rcases List.mem_cons.1 hobj with rfl | hobj
    · exact colon_not_mem_type
    · rw [List.mem_singleton.1 hobj]
      exact colon_not_mem_length
  · rcases List.mem_cons.1 hobj with rfl | hobj
    · exact unbroken_field (by decide) htype
    · rw [List.mem_singleton.1 hobj]
      exact unbroken_field (by decide) hdigits
  · rcases List.mem_cons.1 hobj with rfl | hobj
    · exact absurd hname type_ne_length
    · rw [List.mem_singleton.1 hobj]
      exact congrArg (fun b : Bytes => decimal b.length) hbody.symm
  · cases h

theorem framed_textResult (text : Bytes) : Framed (textResult text) := framed_text "text/plain" text (by decide)

theorem framed_writeTopResult (result : List Bytes) : Framed (writeTopResult result) := by
  unfold writeTopResult
  split_ifs
  · exact framed_emptyResult "Empty result" (by decide)
  · exact framed_text "application/octet-stream" (topBody result) (by decide)

/-- **Every answer is framed.** -/
theorem framed_response (answer : Answer) : Framed answer.response := by
  cases answer with
  | added => exact framed_message _ (by decide) (by decide)
  | deals result => exact framed_writeTopResult result
  | routes text =>
    unfold Answer.response
    dsimp only
    split_ifs
    · exact framed_emptyResult _ (by decide)
    · exact framed_textResult text
  | stats s =>
    unfold Answer.response
    dsimp only
    split_ifs
    · exact framed_emptyResult _ (by decide)
    · exact framed_textResult _
  | destinations result =>
    unfold Answer.response
    dsimp only
    split_ifs
    · exact framed_emptyResult _ (by decide)
    · exact framed_textResult _
  | cleared => exact framed_message _ (by decide) (by decide)

theorem framed_catch {res : Except Thrown HttpResponse} (h : ∀ response, res = .ok response → Framed response) :
    Framed (catchThrown res) := by
  rcases res with (err | _) | response
  · exact framed_errorResponse err
  · exact framed_errorResponse ⟨str "Something is broken inside me\n", .internalError⟩
  · exact h response rfl

theorem framed_serve (site : Site) (request : Request) : Framed (catchThrown (site.serve request).1) := by
  refine framed_catch fun response hres => ?_
  unfold Site.serve at hres
  rcases hserve : site.db.serve site.world request with ⟨e | answer, db⟩
  · rw [hserve] at hres
    cases hres
  · rw [hserve] at hres
    cases hres
    exact framed_response answer

/-- A call that only answers when it did not fail. -/
theorem framed_done {res : Except Thrown Unit} (body : String) :
    Framed (catchThrown (res.map fun _ => .withBody 200 "OK" body)) := by
  refine framed_catch fun response hres => ?_
  rcases res with e | ⟨⟩
  · cases hres
  · cases hres
    exact framed_message _ (by decide) (by decide)

/-- **Every request is answered by a framed response.** -/
theorem framed_serveHttp (site : Site) (http : HttpParser) : Framed (serveHttp Site.handlers site http).1 := by
  unfold serveHttp
  dsimp only
  cases http.route with
  | getTop => exact framed_serve site (.getTop http.request.query.params)
  | getUniqueRoutes => exact framed_serve site .getUniqueRoutes
  | getStats => exact framed_serve site .getStats
  | getDestiantionsTop => exact framed_serve site (.getDestiantionsTop http.request.query.params)
  | addDeal => exact framed_serve site (.addDeal http.request.query.params http.getBody)
  | dealsClear => exact framed_done _
  | destinationsClear => exact framed_done _
  | clear =>
    unfold dispatch
    dsimp only
    rcases Site.handlers.truncateDb site with ⟨e | _, site'⟩
    · exact framed_catch nofun
    · exact framed_done _
  | ping => exact framed_message _ (by decide) (by decide)
  | quit => exact framed_message _ (by decide) (by decide)
  | unknown => exact framed_message _ (by decide) (by decide)

/-! ## Runs -/

/-- What a client can rely on in a response. -/
structure Reply.Proper (reply : Reply) : Prop where
  code : reply.statusCode ∈ [200, 204, 400, 404, 500, 503]
  length : reply.headers.get (str "content-length") = [] ∨
    reply.headers.get (str "content-length") = decimal reply.body.length
  empty : reply.statusCode = 204 → reply.body = []

theorem get_cases (m : ObjectMap) (name : Bytes) :
    m.get name = [] ∨ ∃ obj ∈ m, obj.name = name ∧ m.get name = obj.value := by
  unfold ObjectMap.get
  rcases hfind : m.find? (fun obj => obj.name = name) with _ | obj
  · rw [hfind]
    exact .inl rfl
  · rw [hfind]
    have hname := List.find?_some hfind
    exact .inr ⟨obj, List.mem_of_find?_eq_some hfind, of_decide_eq_true hname, rfl⟩

theorem Framed.reads {r : HttpResponse} (h : Framed r) : ∃ reply, readResponse r.toBytes = some reply ∧ reply.Proper := by
  obtain ⟨⟨fields, hcarries, hlength⟩, hcode, hempty⟩ := h
  refine ⟨_, readResponse_toBytes hcarries, hcode, ?_, hempty⟩
  rcases get_cases (fields.map fun obj => ⟨toLowerCase obj.name, obj.value⟩) (str "content-length") with
    hnone | ⟨obj, hobj, hname, hvalue⟩
  · exact .inl hnone
  · obtain ⟨field, hfield, rfl⟩ := List.mem_map.1 hobj
    exact .inr (hvalue.trans (hlength field hfield hname))

/-- **Everything that is sent can be read**, on every connection and in every run. -/
theorem answers_readable (site : Site) (rounds : List Round) :
    ∀ c ∈ (run (Server.process Site.handlers) (Server.start site) rounds).all, ∀ msg ∈ c.written,
      ∃ reply, readResponse msg = some reply ∧ reply.Proper := by
  intro c hc msg hmsg
  obtain ⟨log, -, hrecorded⟩ := (recorded_start (h := Site.handlers) site).run rounds
  rcases (hrecorded.chronicle.heard c hc).only msg hmsg with ⟨response, htold, rfl⟩ | hrefusal
  · obtain ⟨pre, http, post, -, hreply⟩ := mem_replies (mem_ofClient.1 htold)
    have hresponse : response = (serveHttp Site.handlers (after (serveHttp Site.handlers) site pre) http).1 := hreply
    rw [hresponse]
    exact (framed_serveHttp _ http).reads
  · cases hrefusal with
    | unavailable => exact (framed_message _ (by decide) (by decide)).reads
    | badFormat http => exact (framed_errorResponse _).reads

/-- A server with an empty database. -/
def quietSite : Site := ⟨.init, fun _ => quietWorld 1000000, 0⟩

/-- A client connects and asks for `/ping`. -/
def pingRounds : List Round :=
  [connect, roundOf true false (readOf (str "GET /ping HTTP/1.1\r\n\r\n")), roundOf false true .countZero]

/-- The client reads the answer. -/
theorem answers_readable_ping :
    ∃ c ∈ (run (Server.process Site.handlers) (Server.start quietSite) pingRounds).all,
      c.written = [str "HTTP/1.0 200 OK\r\n\r\npong\n"] ∧
        ∃ reply, readResponse (str "HTTP/1.0 200 OK\r\n\r\npong\n") = some reply ∧ reply.Proper := by
  have hwritten : (run (Server.process Site.handlers) (Server.start quietSite) pingRounds).all.map (·.written) =
      [[str "HTTP/1.0 200 OK\r\n\r\npong\n"]] := by decide +kernel
  have hmem := List.mem_singleton_self [str "HTTP/1.0 200 OK\r\n\r\npong\n"]
  rw [← hwritten] at hmem
  obtain ⟨c, hc, hpong⟩ := List.mem_map.1 hmem
  refine ⟨c, hc, hpong, answers_readable quietSite pingRounds c hc _ ?_⟩
  rw [hpong]
  exact List.mem_singleton_self _

end DealsServer
