import DealsServer.Proof.Filters
import DealsServer.Proof.OneExecution
import DealsServer.Proof.Segments
import DealsServer.Proof.Texts

/-!
# When a request has arrived

The parser counts all bytes behind the head, and hands over all of them as the body.

* `bodyExact_iff`: `addDeal` gets the declared bytes as the body when a read ends with the last of them.
* `decided_iff`: which received requests are answered. A parser waits forever for a message that begins with the
  terminator, and for the rest of a request whose method is neither `GET` nor `POST`.
-/

namespace DealsServer

open Decimal

variable {chunks : List Bytes} {h : Head} {n pos : ℕ}

/-! ## The declared length -/

instance (s : Bytes) : Decidable (Numeral s) := inferInstanceAs (Decidable (s ≠ [] ∧ ∀ b ∈ s, isDigit b = true))

/-- What `content_length` is for a numeral of the value `n`: `std::stol` throws when it does not fit in a `long`. -/
def countedLength (n : ℕ) : ℕ := if n < 2 ^ 63 then n else 0

theorem contentLengthOf_numeral {text : Bytes} (ht : Numeral text) :
    contentLengthOf text 0 = countedLength (decimalValue text) := by
  rw [contentLengthOf, if_neg ht.1, stol_numeral ht]
  unfold countedLength
  by_cases hlt : decimalValue text < 2 ^ 63
  · rw [if_pos hlt, if_pos hlt]
    dsimp only
    omega
  · rw [if_neg hlt, if_neg hlt]

theorem countedLength_le (n : ℕ) : countedLength n ≤ n := by
  unfold countedLength
  split_ifs
  · exact le_rfl
  · exact Nat.zero_le n

/-! ## The body of a deal -/

/-- The parser has a request of `/deals/add` for `on_data` to dispatch. -/
def Dispatches (p : HttpParser) : Prop :=
  p.badRequest = false ∧ p.parsingComplete = true ∧ route p.request.method p.request.query.path = .addDeal

/-- **What `on_data` does with it**: the handler of deals gets this parser, and so its body. -/
theorem onData_dispatches {D : Type*} (handlers : Handlers D) {s : Shared D} {c : Connection Context}
    (hquit : s.quitRequest = false) (hd : Dispatches (c.context.http.write c.dataIn)) :
    (onData handlers s c).1.db = (handlers.addDeal (c.context.http.write c.dataIn) s.db).2 ∧
      (onData handlers s c).2.context.executed = c.context.executed ++ [.addDeal] := by
  obtain ⟨hbad, hcomplete, hroute⟩ := hd
  simp [onData, hquit, hbad, hcomplete, hroute, dispatch, Connection.respond]

/-- The end of the `k`-th read in the stream. -/
def readEnd (chunks : List Bytes) (k : ℕ) : ℕ := (chunks.take k).flatten.length

/-- The stream is a request of `/deals/add` with a `Content-Length` of `n`. -/
structure AddRequest (stream : Bytes) (h : Head) (n : ℕ) : Prop where
  head : headOf stream = some h
  line : h.result = .parseOk
  route : route h.request.method h.request.query.path = .addDeal
  numeral : Numeral (h.headers.get (str "content-length"))
  value : decimalValue (h.headers.get (str "content-length")) = n

/-- At the first dispatch the declared bytes are there, and they are the body. -/
def BodyExact (chunks : List Bytes) (h : Head) (n : ℕ) : Prop :=
  ∀ k, Dispatches (feed (chunks.take k)) → (∀ j < k, ¬ Dispatches (feed (chunks.take j))) →
    h.headersEnd + n ≤ readEnd chunks k ∧
      (feed (chunks.take k)).getBody = (chunks.flatten.drop h.headersEnd).take n

theorem take_flatten (chunks : List Bytes) (k : ℕ) :
    (chunks.take k).flatten = chunks.flatten.take (readEnd chunks k) := by
  have hsplit : chunks.flatten = (chunks.take k).flatten ++ (chunks.drop k).flatten := by
    rw [← List.flatten_append, List.take_append_drop]
  rw [hsplit, readEnd, List.take_left]

/-- What a head is made of. -/
structure HeadAt (w : Bytes) (h : Head) (pos : ℕ) : Prop where
  terminated : find (str "\r\n\r\n") w = some pos
  headersEnd : h.headersEnd = pos + 4
  headers : HttpHeaders.parse [] w = (.parseOk, h.headers)
  contentLength : h.contentLength = contentLengthOf (h.headers.get (str "content-length")) 0
  line : HttpParser.init.request.parse w = (h.result, h.request)

theorem headOf_iff {w : Bytes} : headOf w = some h ↔ ∃ pos, HeadAt w h pos := by
  unfold headOf
  constructor
  · intro hw
    rcases hfind : find (str "\r\n\r\n") w with _ | pos
    · rw [hfind] at hw
      cases hw
    · rw [hfind] at hw
      rcases hparse : HttpHeaders.parse [] w with ⟨_ | _ | _, headers⟩ <;> rw [hparse] at hw <;> cases hw
      exact ⟨pos, hfind, rfl, hparse, rfl, rfl⟩
  · rintro ⟨pos, hfind, hend, hparse, hlength, hline⟩
    rw [hfind, hparse, hline]
    dsimp only
    rw [← hlength, ← hend]

/-- A beginning of a message has its head from the end of the terminator on. -/
theorem headOf_take {w : Bytes} (hw : headOf w = some h) (m : ℕ) :
    headOf (w.take m) = if h.headersEnd ≤ m then some h else none := by
  obtain ⟨pos, hat⟩ := headOf_iff.1 hw
  have hend := hat.headersEnd
  have hlength : (str "\r\n\r\n").length = 4 := rfl
  by_cases hm : h.headersEnd ≤ m
  · rw [if_pos hm, headOf_iff]
    have htake := find_take w hat.terminated (n := m) (by omega)
    -- what the head says depends on the bytes up to the terminator only
    have hparse := parse_append (w.drop m) htake
    have hline := requestParse_append HttpParser.init.request (w.drop m) htake
    rw [List.take_append_drop] at hparse hline
    exact ⟨pos, htake, hend, hparse ▸ hat.headers, hat.contentLength, hline ▸ hat.line⟩
  · rw [if_neg hm]
    rcases htake : find (str "\r\n\r\n") (w.take m) with _ | pos'
    · unfold headOf
      rw [htake]
    · have hle := find_le _ htake
      have hsame := find_append (w.take m) (w.drop m) htake
      rw [List.take_append_drop, hat.terminated] at hsame
      cases hsame
      rw [List.length_take] at hle
      omega

/-- Only a `POST` is dispatched as a deal. -/
theorem route_addDeal {method path : Bytes} (hr : route method path = .addDeal) : method = str "POST" := by
  unfold route at hr
  split_ifs at hr with hget hpost
  assumption

/-- **When a deal is dispatched**: once the counted bytes are there. -/
theorem dispatches_iff (hw : AddRequest chunks.flatten h n) (k : ℕ) :
    Dispatches (feed (chunks.take k)) ↔ h.headersEnd + countedLength n ≤ readEnd chunks k := by
  have hfits := fits_feed (chunks.take k)
  have hlength : (chunks.take k).flatten.length = readEnd chunks k := rfl
  have hcounted : h.contentLength = countedLength n := by
    obtain ⟨pos, hat⟩ := headOf_iff.1 hw.head
    rw [hat.contentLength, contentLengthOf_numeral hw.numeral, hw.value]
  have hpost := route_addDeal hw.route
  have hhead : headOf (chunks.take k).flatten = if h.headersEnd ≤ readEnd chunks k then some h else none := by
    rw [take_flatten, headOf_take hw.head]
  -- before the head is read there is no request to dispatch
  by_cases hm : h.headersEnd ≤ readEnd chunks k
  · rw [if_pos hm] at hhead
    have hknows := hfits.knows h hhead
    have hcomplete := hfits.complete h hhead hw.line
    have hdone : h.complete (readEnd chunks k) = true ↔ countedLength n ≤ readEnd chunks k - h.headersEnd := by
      rw [Head.complete, decide_eq_true_iff, hcounted, hpost]
      exact ⟨fun hor => hor.elim (fun hget => absurd hget (by decide)) And.right, fun hle => .inr ⟨rfl, hle⟩⟩
    have hgood : decide (h.result ≠ .parseOk) = false := by
      rw [hw.line]
      rfl
    unfold Dispatches
    rw [hknows.badRequest, hcomplete, hknows.request, hlength, hdone, hgood]
    refine ⟨fun hd => ?_, fun hle => ⟨rfl, by omega, hw.route⟩⟩
    have := hd.2.1
    omega
  · rw [if_neg hm] at hhead
    rw [hfits.waits hhead]
    refine iff_of_false ?_ (by omega)
    rintro ⟨-, hcomplete, -⟩
    cases hcomplete

/-- **The body is the declared one** when no read reaches the bytes that are counted, or the first one to reach them
ends with the declared ones. -/
theorem bodyExact_iff (hw : AddRequest chunks.flatten h n) :
    BodyExact chunks h n ↔
      (∀ k, readEnd chunks k < h.headersEnd + countedLength n) ∨
        ∃ k, readEnd chunks k = h.headersEnd + n ∧ ∀ j < k, readEnd chunks j < h.headersEnd + countedLength n := by
  have hdispatch := dispatches_iff hw
  have hle := countedLength_le n
  have hbody (k : ℕ) (hk : h.headersEnd + countedLength n ≤ readEnd chunks k) :
      (feed (chunks.take k)).getBody = (chunks.flatten.drop h.headersEnd).take (readEnd chunks k - h.headersEnd) := by
    have hfits := fits_feed (chunks.take k)
    have hhead : headOf (chunks.take k).flatten = some h := by
      rw [take_flatten, headOf_take hw.head, if_pos (by omega)]
    rw [HttpParser.getBody, hfits.concat, (hfits.knows h hhead).headersEnd, take_flatten, List.drop_take]
  constructor
  · intro hexact
    by_cases hnever : ∀ k, readEnd chunks k < h.headersEnd + countedLength n
    · exact .inl hnever
    · right
      push Not at hnever
      -- the first read that completes the request
      obtain ⟨k, hk, hfirst⟩ : ∃ k, h.headersEnd + countedLength n ≤ readEnd chunks k ∧
          ∀ j < k, ¬ h.headersEnd + countedLength n ≤ readEnd chunks j :=
        ⟨Nat.find hnever, Nat.find_spec hnever, fun j hj => Nat.find_min hnever hj⟩
      obtain ⟨hthere, hsame⟩ := hexact k ((hdispatch k).2 hk) fun j hj hd => hfirst j hj ((hdispatch j).1 hd)
      refine ⟨k, ?_, fun j hj => Nat.not_le.1 (hfirst j hj)⟩
      rw [hbody k hk] at hsame
      have hlength := congrArg List.length hsame
      have hwithin : readEnd chunks k ≤ chunks.flatten.length := by
        have htake := congrArg List.length (take_flatten chunks k)
        rw [List.length_take] at htake
        unfold readEnd at htake ⊢
        omega
      simp only [List.length_take, List.length_drop] at hlength
      omega
  · rintro (hnever | ⟨k, hk, hfirst⟩) k' hd hmin
    · have := hnever k'
      have := (hdispatch k').1 hd
      omega
    · -- the first dispatch is that of the read `k`
      have hkd : Dispatches (feed (chunks.take k)) := (hdispatch k).2 (by omega)
      have hsame : k' = k := by
        rcases lt_trichotomy k' k with hlt | heq | hgt
        · have := hfirst k' hlt
          have := (hdispatch k').1 hd
          omega
        · exact heq
        · exact absurd hkd (hmin k hgt)
      subst hsame
      refine ⟨by omega, ?_⟩
      rw [hbody k' (by omega), hk, Nat.add_sub_cancel_left]

/-- The head of a deal of four bytes. -/
def postedHead : Bytes := str "POST /deals/add HTTP/1.1\r\nContent-Length: 4\r\n\r\n"

/-- What it says. -/
def fourBytes : Head where
  headers := [⟨str "content-length", str "4"⟩]
  headersEnd := 47
  contentLength := 4
  result := .parseOk
  request := ⟨str "POST", str "/deals/add", str "HTTP/1.1", ⟨[], str "/deals/add"⟩⟩

theorem fourBytes_addRequest {body : Bytes} : AddRequest (postedHead ++ body) fourBytes 4 where
  head := headOf_append body rfl
  line := rfl
  route := rfl
  numeral := by decide +kernel
  value := by decide +kernel

/-- The body arrives in two reads, the second of which ends with it. -/
theorem bodyExact_split :
    BodyExact [postedHead ++ str "de", str "al", str "next"] fourBytes 4 ↔
      (∀ k, readEnd [postedHead ++ str "de", str "al", str "next"] k < 47 + countedLength 4) ∨
        ∃ k, readEnd [postedHead ++ str "de", str "al", str "next"] k = 47 + 4 ∧
          ∀ j < k, readEnd [postedHead ++ str "de", str "al", str "next"] j < 47 + countedLength 4 := by
  have hw : AddRequest [postedHead ++ str "de", str "al", str "next"].flatten fourBytes 4 :=
    @fourBytes_addRequest (str "dealnext")
  exact bodyExact_iff hw

/-- **Bytes behind the body become part of it** when they come with its last byte. -/
theorem trailing_bytes_stored :
    AddRequest [postedHead ++ str "deal\r\n"].flatten fourBytes 4 ∧
      ¬ BodyExact [postedHead ++ str "deal\r\n"] fourBytes 4 := by
  refine ⟨by simpa using fourBytes_addRequest, fun hexact => ?_⟩
  have hdispatch : Dispatches (feed ([postedHead ++ str "deal\r\n"].take 1)) := by
    unfold Dispatches
    decide +kernel
  have hfirst : ∀ j < 1, ¬ Dispatches (feed ([postedHead ++ str "deal\r\n"].take j)) := by
    intro j hj hd
    obtain rfl : j = 0 := by omega
    cases hd.2.1
  have hbody := (hexact 1 hdispatch hfirst).2
  exact absurd hbody (by decide +kernel)

/-! ## Requests that are answered -/

/-- The length that the head declares: the number of a well-formed `Content-Length`, or 0. -/
def declaredLength (headers : ObjectMap) : ℕ :=
  if Numeral (headers.get (str "content-length")) then decimalValue (headers.get (str "content-length")) else 0

/-- The stream has the terminator, first at `pos`, and behind it the declared length. -/
structure Received (stream : Bytes) (pos : ℕ) : Prop where
  terminated : find (str "\r\n\r\n") stream = some pos
  body : pos + 4 + declaredLength (HttpHeaders.parse [] stream).2 ≤ stream.length

/-- The parser knows that the request is bad or complete, and `on_data`, called with the last read, answers. -/
structure Decided (chunks : List Bytes) : Prop where
  settled : (feed chunks).Settled
  answered : ∀ (D : Type) (handlers : Handlers D) (s : Shared D) (c : Connection Context),
    c.context.http.write c.dataIn = feed chunks →
      ∃ response : HttpResponse, (onData handlers s c).2.toTCPConnection = c.closeWith response.toBytes

/-- A settled parser makes `on_data` answer. -/
theorem onData_answers {D : Type*} (handlers : Handlers D) (s : Shared D) {c : Connection Context}
    (hset : (c.context.http.write c.dataIn).Settled) :
    ∃ response : HttpResponse, (onData handlers s c).2.toTCPConnection = c.closeWith response.toBytes := by
  obtain ⟨response, rs, -, -, hout⟩ | ⟨hquit, hun, -⟩ := onData_cases handlers s c
  · exact ⟨response, by rw [hout]; rfl⟩
  · rw [fed, hquit] at hun
    exact absurd hset hun

theorem decided_iff_settled : Decided chunks ↔ (feed chunks).Settled :=
  ⟨Decided.settled, fun hset => ⟨hset, fun _ handlers s _ hc => onData_answers handlers s (hc ▸ hset)⟩⟩

/-- The words of the request line. -/
def requestWords (stream : Bytes) : List Bytes :=
  match find (str "\r\n") stream with
  | some pos => splitString (stream.take pos) (str " ")
  | none => []

/-- The text of `Content-Length` is absent or a numeral, or `std::stol` makes no more than `following` of it. -/
def LengthServed (text : Bytes) (following : ℕ) : Prop :=
  text = [] ∨ Numeral text ∨ contentLengthOf text 0 ≤ following

/-- The request line is not one of three words with a path; or its method is `GET`; or it is `POST` and the length of
its body can be served. -/
def Answerable (stream : Bytes) (following : ℕ) : Prop :=
  match requestWords stream with
  | [method, uri, _] =>
    uri = [] ∨ method = str "GET" ∨
      (method = str "POST" ∧ LengthServed ((HttpHeaders.parse [] stream).2.get (str "content-length")) following)
  | _ => True

theorem uriParse_ok {query : URIQueryParams} {uri : Bytes} : (query.parse uri).1 = .parseOk ↔ uri ≠ [] := by
  unfold URIQueryParams.parse
  by_cases huri : uri = []
  · simp [huri]
  · rw [if_neg huri]
    rcases find (str "?") uri with _ | pos <;> simp [huri]

/-- What the parser makes of the request line. -/
theorem requestParse_cases {w : Bytes} (hline : (find (str "\r\n") w).isSome = true) (request : HttpRequest) :
    match requestWords w with
    | [method, uri, _] =>
      ((request.parse w).1 = .parseOk ↔ uri ≠ []) ∧ (request.parse w).2.method = method
    | _ => (request.parse w).1 = .parseErr := by
  obtain ⟨pos, hpos⟩ := Option.isSome_iff_exists.1 hline
  have hle := find_le w hpos
  have hlength : (str "\r\n").length = 2 := rfl
  have hne : w ≠ [] := by
    rintro rfl
    simp only [List.length_nil] at hle
    omega
  unfold requestWords HttpRequest.parse
  rw [if_neg hne, hpos]
  dsimp only
  rcases splitString (w.take pos) (str " ") with _ | ⟨method, _ | ⟨uri, _ | ⟨version, _ | ⟨_, _⟩⟩⟩⟩
  · rfl
  · rfl
  · rfl
  · exact ⟨uriParse_ok, rfl⟩
  · rfl

/-- Headers can be parsed unless the terminator comes first. -/
theorem headersParse_iff {w : Bytes} (hfind : find (str "\r\n\r\n") w = some pos) :
    (HttpHeaders.parse [] w).1 = .parseOk ↔ 0 < pos := by
  have hle := find_le w hfind
  have hlength : (str "\r\n\r\n").length = 4 := rfl
  have hne : w ≠ [] := by
    rintro rfl
    simp only [List.length_nil] at hle
    omega
  unfold HttpHeaders.parse
  rw [if_neg hne, hfind]
  dsimp only
  rcases pos with _ | pos
  · have hnil : splitString (w.take 0) (str "\r\n") = [] := rfl
    rw [hnil]
    simp
  · have htake : w.take (pos + 1) ≠ [] := by
      rw [ne_eq, List.take_eq_nil_iff]
      simp [hne]
    rcases hsplit : splitString (w.take (pos + 1)) (str "\r\n") with _ | ⟨first, lines⟩
    · exact absurd hsplit (splitString_ne_nil (by decide) htake)
    · simp

/-- With a declared length that has arrived, the counted length has arrived when it can be served. -/
theorem lengthServed_iff {stream : Bytes} (hr : Received stream pos) :
    LengthServed ((HttpHeaders.parse [] stream).2.get (str "content-length")) (stream.length - (pos + 4)) ↔
      contentLengthOf ((HttpHeaders.parse [] stream).2.get (str "content-length")) 0 ≤ stream.length - (pos + 4) := by
  have hbody := hr.body
  unfold LengthServed declaredLength at *
  constructor
  · rintro (hempty | hnumeral | hle)
    · rw [hempty]
      exact Nat.zero_le _
    · rw [if_pos hnumeral] at hbody
      rw [contentLengthOf_numeral hnumeral]
      have := countedLength_le (decimalValue ((HttpHeaders.parse [] stream).2.get (str "content-length")))
      omega
    · exact hle
  · exact fun hle => .inr (.inr hle)

/-- **A received request is answered** unless it begins with the terminator, or has another method than `GET` and
`POST`, or is a `POST` that announces more than was declared. -/
theorem decided_iff (hr : Received chunks.flatten pos) :
    Decided chunks ↔ 0 < pos ∧ Answerable chunks.flatten (chunks.flatten.length - (pos + 4)) := by
  rw [decided_iff_settled, HttpParser.Settled, ← headersParse_iff hr.terminated]
  have hfits := fits_feed chunks
  have hserved := lengthServed_iff hr
  by_cases hheaders : (HttpHeaders.parse [] chunks.flatten).1 = .parseOk
  · -- the parser has the head of the stream
    obtain ⟨h, hat⟩ : ∃ h : Head, HeadAt chunks.flatten h pos := by
      rcases hline : HttpParser.init.request.parse chunks.flatten with ⟨result, request⟩
      rcases hparse : HttpHeaders.parse [] chunks.flatten with ⟨parsed, headers⟩
      obtain rfl : parsed = .parseOk := by rwa [hparse] at hheaders
      exact ⟨⟨headers, pos + 4, contentLengthOf (headers.get (str "content-length")) 0, result, request⟩,
        hr.terminated, rfl, hparse, rfl, hline⟩
    have hhead : headOf chunks.flatten = some h := headOf_iff.2 ⟨pos, hat⟩
    have hbad : (feed chunks).badRequest = true ↔ h.result ≠ .parseOk := by
      rw [(hfits.knows h hhead).badRequest, decide_eq_true_iff]
    have hdone : h.result = .parseOk → ((feed chunks).parsingComplete = true ↔ h.request.method = str "GET" ∨
        h.request.method = str "POST" ∧ h.contentLength ≤ chunks.flatten.length - (pos + 4)) := by
      intro hok
      rw [hfits.complete h hhead hok, Head.complete, decide_eq_true_iff, hat.headersEnd]
    obtain ⟨pos', -, hline⟩ := find_of_prefix (by decide : str "\r\n" <+: str "\r\n\r\n") _ hr.terminated
    have hwords := requestParse_cases (Option.isSome_iff_exists.2 ⟨pos', hline⟩) HttpParser.init.request
    have hlength : h.contentLength =
        contentLengthOf ((HttpHeaders.parse [] chunks.flatten).2.get (str "content-length")) 0 := by
      rw [hat.contentLength, hat.headers]
    rw [hat.line] at hwords
    unfold Answerable
    rw [hbad, hserved, ← hlength]
    generalize requestWords chunks.flatten = words at hwords ⊢
    rcases words with _ | ⟨method, _ | ⟨uri, _ | ⟨version, _ | ⟨_, _⟩⟩⟩⟩
    case cons.cons.cons.nil =>
      obtain ⟨hok, hmethod⟩ := hwords
      dsimp only
      rw [← hmethod]
      by_cases huri : uri = []
      · exact iff_of_true (.inl fun h => hok.1 h huri) ⟨hheaders, .inl huri⟩
      · rw [hdone (hok.2 huri)]
        constructor
        · rintro (hno | hanswer)
          · exact absurd (hok.2 huri) hno
          · exact ⟨hheaders, .inr hanswer⟩
        · rintro ⟨-, hempty | hanswer⟩
          · exact absurd hempty huri
          · exact .inr hanswer
    -- any other number of words is a bad request
    all_goals exact iff_of_true (.inl (by rw [show h.result = .parseErr from hwords]; decide)) ⟨hheaders, trivial⟩
  · rw [hfits.waits ?_]
    · refine iff_of_false ?_ fun h => hheaders h.1
      rintro (hbad | hcomplete)
      · cases hbad
      · cases hcomplete
    · rcases hhead : headOf chunks.flatten with _ | h
      · rfl
      · obtain ⟨pos', hat⟩ := headOf_iff.1 hhead
        rw [hat.headers] at hheaders
        exact absurd rfl hheaders

/-- A request for a page in one piece. -/
theorem decided_ping :
    Decided [str "GET /ping HTTP/1.1\r\n\r\n"] ↔ 0 < 18 ∧ Answerable (str "GET /ping HTTP/1.1\r\n\r\n") 0 := by
  have hr : Received [str "GET /ping HTTP/1.1\r\n\r\n"].flatten 18 := ⟨by decide, by decide⟩
  exact decided_iff hr

/-- **A request with another method** is never answered. -/
theorem put_undecided :
    Received [str "PUT /deals/add HTTP/1.1\r\n\r\n"].flatten 23 ∧
      ¬ Decided [str "PUT /deals/add HTTP/1.1\r\n\r\n"] := by
  refine ⟨⟨by decide, by decide⟩, fun hd => ?_⟩
  have hunsettled : (feed [str "PUT /deals/add HTTP/1.1\r\n\r\n"]).badRequest = false ∧
      (feed [str "PUT /deals/add HTTP/1.1\r\n\r\n"]).parsingComplete = false := by decide +kernel
  rcases hd.settled with hbad | hcomplete
  · rw [hunsettled.1] at hbad
    cases hbad
  · rw [hunsettled.2] at hcomplete
    cases hcomplete

end DealsServer
