import DealsServer.Lib.Run
import DealsServer.Proof.Parser
import DealsServer.Proof.Splitting

/-!
# Chunks of a request

* `sameParse`: two ways to cut one message into chunks leave the parser with the same flags, headers and
  request, the same head and body, and, unless the request is bad, the same answer to whether it is complete.

What the parser knows is a function of the bytes it was given (`Fits`): the head, once these hold a complete
one (`headOf`), and from then on their number.
-/

namespace DealsServer

open StateMachine

/-! ## The head of a message -/

/-- What the head of a message says. -/
structure Head where
  headers : ObjectMap
  headersEnd : ℕ
  contentLength : ℕ
  result : ParserResult
  request : HttpRequest

/-- The head of a message, if it is complete and its headers can be parsed. -/
def headOf (message : Bytes) : Option Head :=
  match find (str "\r\n\r\n") message with
  | none => none
  | some pos =>
    match HttpHeaders.parse [] message with
    | (.parseOk, headers) =>
      let (result, request) := HttpParser.init.request.parse message
      some ⟨headers, pos + 4, contentLengthOf (headers.get (str "content-length")) 0, result, request⟩
    | _ => none

/-- A message of `n` bytes with this head is complete. -/
def Head.complete (h : Head) (n : ℕ) : Bool :=
  h.request.method = str "GET" ∨ h.request.method = str "POST" ∧ h.contentLength ≤ n - h.headersEnd

theorem parse_append {w : Bytes} {pos : ℕ} (c : Bytes) (h : find (str "\r\n\r\n") w = some pos) :
    HttpHeaders.parse [] (w ++ c) = HttpHeaders.parse [] w := by
  have hle := find_le w h
  have hlen : (str "\r\n\r\n").length = 4 := rfl
  have hw : w ≠ [] := by
    rintro rfl
    simp only [List.length_nil] at hle
    omega
  unfold HttpHeaders.parse
  rw [if_neg hw, if_neg (by simp [hw]), h, find_append w c h]
  dsimp only
  rw [List.take_append_of_le_length (by omega)]

theorem requestParse_append {w : Bytes} {pos : ℕ} (request : HttpRequest) (c : Bytes)
    (h : find (str "\r\n\r\n") w = some pos) : request.parse (w ++ c) = request.parse w := by
  have hpre : str "\r\n" <+: str "\r\n\r\n" := by decide
  obtain ⟨pos', -, hline⟩ := find_of_prefix hpre w h
  have hle := find_le w hline
  have hlen : (str "\r\n").length = 2 := rfl
  have hw : w ≠ [] := by
    rintro rfl
    simp only [List.length_nil] at hle
    omega
  unfold HttpRequest.parse
  rw [if_neg hw, if_neg (by simp [hw]), hline, find_append w c hline]
  dsimp only
  rw [List.take_append_of_le_length (by omega)]

/-- A complete head stays what it is. -/
theorem headOf_append {w : Bytes} {h : Head} (c : Bytes) (hw : headOf w = some h) : headOf (w ++ c) = some h := by
  unfold headOf at hw ⊢
  rcases hfind : find (str "\r\n\r\n") w with _ | pos
  · rw [hfind] at hw
    cases hw
  · rw [hfind] at hw
    rw [find_append w c hfind, parse_append c hfind, requestParse_append _ c hfind]
    exact hw

/-! ## The parser against what it was given -/

namespace HttpParser

/-- A parser that has parsed no head. -/
def waiting (msgs : List Bytes) (bytesWritten : ℕ) : HttpParser :=
  { init with msgs := msgs, bytesWritten := bytesWritten }

/-- The parser once a head is complete. -/
def withHead (msgs : List Bytes) (bytesWritten : ℕ) (h : Head) : HttpParser :=
  (waiting msgs bytesWritten).parsed h.headers h.headersEnd h.contentLength h.request

theorem parse_failed {w : Bytes} {result : ParserResult} {headers : ObjectMap}
    (h : HttpHeaders.parse [] w = (result, headers)) (hfail : result ≠ .parseOk) : headers = [] := by
  unfold HttpHeaders.parse at h
  split_ifs at h
  · exact (Prod.mk.inj h).2.symm
  · split at h
    · exact (Prod.mk.inj h).2.symm
    · split at h
      · exact (Prod.mk.inj h).2.symm
      · exact absurd (Prod.mk.inj h).1.symm hfail

/-- What a chunk does to a parser that waits for the head. -/
theorem write_waiting (msgs : List Bytes) (n : ℕ) (c : Bytes) :
    (waiting msgs n).write c =
      match headOf (concatString (msgs ++ [c])) with
      | none => waiting (msgs ++ [c]) (n + c.length)
      | some h =>
        let p := withHead (msgs ++ [c]) (n + c.length) h
        if h.result = .parseOk then
          (if h.request.method = str "GET" then { p with parsingComplete := true } else p).checkBody
        else { p with badRequest := true } := by
  have hinit : (waiting msgs n).headersWritten = false := rfl
  have hmsgs : (waiting msgs n).msgs = msgs := rfl
  have hheaders : (waiting msgs n).headers = [] := rfl
  have hrequest : (waiting msgs n).request = init.request := rfl
  unfold write headOf
  dsimp only
  rw [hinit, if_neg (by decide), hmsgs]
  rcases find (str "\r\n\r\n") (concatString (msgs ++ [c])) with _ | pos
  · rfl
  dsimp only
  rw [hheaders, hrequest]
  rcases hparse : HttpHeaders.parse [] (concatString (msgs ++ [c])) with ⟨_ | _ | _, headers⟩
  · dsimp only
    rcases init.request.parse (concatString (msgs ++ [c])) with ⟨_ | _ | _, request⟩ <;> rfl
  · cases parse_failed hparse (by decide)
    rfl
  · cases parse_failed hparse (by decide)
    rfl

/-- The parser has taken over the head. -/
structure Knows (p : HttpParser) (h : Head) : Prop where
  headers : p.headers = h.headers
  request : p.request = h.request
  headersEnd : p.headersEnd = h.headersEnd
  contentLength : p.contentLength = h.contentLength
  headersWritten : p.headersWritten = true
  badRequest : p.badRequest = decide (h.result ≠ .parseOk)

/-- The parser knows of the bytes `w` what there is to know. -/
structure Fits (p : HttpParser) (w : Bytes) : Prop where
  concat : concatString p.msgs = w
  bytes : p.bytesWritten = w.length
  waits : headOf w = none → p = waiting p.msgs w.length
  knows : ∀ h, headOf w = some h → p.Knows h
  complete : ∀ h, headOf w = some h → h.result = .parseOk → p.parsingComplete = h.complete w.length

theorem fits_init : Fits init [] := by
  refine ⟨rfl, rfl, fun _ => rfl, ?_, ?_⟩ <;> rintro h ⟨⟩

theorem Knows.checkBody {p : HttpParser} {h : Head} (hp : p.Knows h) : p.checkBody.Knows h := by
  rcases checkBody_eq p with heq | ⟨heq, -⟩ <;> rw [heq]
  · exact hp
  · exact ⟨hp.headers, hp.request, hp.headersEnd, hp.contentLength, hp.headersWritten, hp.badRequest⟩

/-- Counting the body completes a `POST` once all of it is there, and no other request. -/
theorem checkBody_complete (p : HttpParser) :
    p.checkBody.parsingComplete = (p.parsingComplete ||
      decide (p.request.method = str "POST" ∧ p.contentLength ≤ p.bytesWritten - p.headersEnd)) := by
  unfold HttpParser.checkBody
  by_cases hpost : p.request.method = str "POST"
  · rw [if_pos hpost]
    by_cases hmissing : p.bytesWritten - p.headersEnd < p.contentLength
    · rw [if_pos hmissing]
      simp [Nat.not_le.2 hmissing]
    · rw [if_neg hmissing]
      simp [hpost, Nat.not_lt.1 hmissing]
  · rw [if_neg hpost]
    simp [hpost]

/-- The parser that takes over a head counts the body at once. -/
theorem withHead_complete (msgs : List Bytes) (n : ℕ) (h : Head) :
    (if h.request.method = str "GET" then { withHead msgs n h with parsingComplete := true }
      else withHead msgs n h).checkBody.parsingComplete = h.complete n := by
  rw [checkBody_complete]
  by_cases hget : h.request.method = str "GET"
  · simp [hget, Head.complete]
  · simp only [Head.complete, hget, false_or]
    rfl

/-- **A chunk keeps the parser fitting what it was given.** -/
theorem fits_write {p : HttpParser} {w : Bytes} (hp : Fits p w) (c : Bytes) : Fits (p.write c) (w ++ c) := by
  have hconcat : concatString (p.write c).msgs = w ++ c := by
    rw [msgs_write, concatString, List.flatten_append, ← hp.concat]
    simp [concatString]
  have hbytes : (p.write c).bytesWritten = (w ++ c).length := by
    rw [bytesWritten_write, hp.bytes, List.length_append]
  rcases hhead : headOf w with _ | h
  · -- the head may get complete with this chunk
    have hwrite := write_waiting p.msgs w.length c
    have hmsgs : concatString (p.msgs ++ [c]) = w ++ c := by
      rw [← msgs_write]
      exact hconcat
    rw [← hp.waits hhead, hmsgs, ← List.length_append] at hwrite
    rcases hnew : headOf (w ++ c) with _ | h
    · rw [hnew] at hwrite
      refine ⟨hconcat, hbytes, fun _ => ?_, fun h hsome => ?_, fun h hsome => ?_⟩
      · rw [msgs_write]
        exact hwrite
      all_goals
        rw [hnew] at hsome
        cases hsome
    · rw [hnew] at hwrite
      dsimp only at hwrite
      refine ⟨hconcat, hbytes, fun hnone => ?_, fun h' hsome => ?_, fun h' hsome hok => ?_⟩
      · rw [hnew] at hnone
        cases hnone
      · rw [hnew] at hsome
        cases hsome
        rw [hwrite]
        by_cases hok : h.result = .parseOk
        · rw [if_pos hok]
          have hbad : false = decide (h.result ≠ .parseOk) := by simp [hok]
          split_ifs
          · exact Knows.checkBody ⟨rfl, rfl, rfl, rfl, rfl, hbad⟩
          · exact Knows.checkBody ⟨rfl, rfl, rfl, rfl, rfl, hbad⟩
        · rw [if_neg hok]
          exact ⟨rfl, rfl, rfl, rfl, rfl, by simp [hok]⟩
      · rw [hnew] at hsome
        cases hsome
        rw [hwrite, if_pos hok, withHead_complete]
  · -- the head is known, the body is counted
    have hnew := headOf_append c hhead
    have hwrite : p.write c = (p.push c).checkBody := by
      simp [write, push, (hp.knows h hhead).headersWritten]
    have hknows : (p.push c).Knows h := by
      have := hp.knows h hhead
      exact ⟨this.headers, this.request, this.headersEnd, this.contentLength, this.headersWritten, this.badRequest⟩
    refine ⟨hconcat, hbytes, fun hnone => ?_, fun h' hsome => ?_, fun h' hsome hok => ?_⟩
    · rw [hnew] at hnone
      cases hnone
    · rw [hnew] at hsome
      cases hsome
      rw [hwrite]
      exact hknows.checkBody
    · rw [hnew] at hsome
      cases hsome
      have hbefore : (p.push c).parsingComplete = h.complete w.length := hp.complete h hhead hok
      have hcount : (p.push c).bytesWritten = (w ++ c).length := by
        rw [← hbytes, bytesWritten_write]
        rfl
      rw [hwrite, checkBody_complete, hbefore, hcount, hknows.request, hknows.contentLength, hknows.headersEnd]
      -- what was complete is complete
      have hlen : w.length ≤ (w ++ c).length := by simp
      rw [Bool.eq_iff_iff]
      simp only [Head.complete, Bool.or_eq_true, decide_eq_true_eq]
      constructor
      · rintro ((hget | ⟨hpost, hle⟩) | hdone)
        · exact .inl hget
        · exact .inr ⟨hpost, by omega⟩
        · exact .inr hdone
      · rintro (hget | hdone)
        · exact .inl (.inl hget)
        · exact .inr hdone

end HttpParser

/-! ## Two ways to cut a message -/

/-- A fresh parser after the chunks. -/
def feed (chunks : List Bytes) : HttpParser := run HttpParser.write .init chunks

/-- The parsers agree on all that the server asks them; on a bad request it does not ask for completeness. -/
structure SameParse (p q : HttpParser) : Prop where
  headersWritten : p.headersWritten = q.headersWritten
  badRequest : p.badRequest = q.badRequest
  headers : p.headers = q.headers
  request : p.request = q.request
  getHeaders : p.getHeaders = q.getHeaders
  getBody : p.getBody = q.getBody
  parsingComplete : p.badRequest = false → p.parsingComplete = q.parsingComplete

theorem fits_feed (chunks : List Bytes) : (feed chunks).Fits chunks.flatten := by
  have hrun (chunks : List Bytes) (p : HttpParser) (w : Bytes) (hp : p.Fits w) :
      (run HttpParser.write p chunks).Fits (w ++ chunks.flatten) := by
    induction chunks generalizing p w with
    | nil => simpa using hp
    | cons c chunks ih =>
      rw [run_cons, List.flatten_cons, ← List.append_assoc]
      exact ih _ _ (HttpParser.fits_write hp c)
  exact hrun chunks .init [] HttpParser.fits_init

/-- Parsers that fit the same bytes agree. -/
theorem HttpParser.Fits.same {p q : HttpParser} {w : Bytes} (hp : p.Fits w) (hq : q.Fits w) : SameParse p q := by
  have hconcat : concatString p.msgs = concatString q.msgs := hp.concat.trans hq.concat.symm
  rcases hhead : headOf w with _ | h
  · rw [hp.waits hhead, hq.waits hhead] at *
    exact ⟨rfl, rfl, rfl, rfl, rfl, hconcat, fun _ => rfl⟩
  · have hpk := hp.knows h hhead
    have hqk := hq.knows h hhead
    refine ⟨hpk.headersWritten.trans hqk.headersWritten.symm, hpk.badRequest.trans hqk.badRequest.symm,
      hpk.headers.trans hqk.headers.symm, hpk.request.trans hqk.request.symm, ?_, ?_, fun hok => ?_⟩
    · rw [HttpParser.getHeaders, HttpParser.getHeaders, hconcat, hpk.headersEnd, hqk.headersEnd]
    · rw [HttpParser.getBody, HttpParser.getBody, hconcat, hpk.headersEnd, hqk.headersEnd]
    · have hresult : h.result = .parseOk := by
        rw [hpk.badRequest] at hok
        simpa using hok
      rw [hp.complete h hhead hresult, hq.complete h hhead hresult]

/-- **The parser is independent of segmentation.** -/
theorem sameParse (w : Bytes) (chunks chunks' : List Bytes) (h : chunks.flatten = w) (h' : chunks'.flatten = w) :
    SameParse (feed chunks) (feed chunks') := by
  have hp := fits_feed chunks
  have hq := fits_feed chunks'
  rw [h] at hp
  rw [h'] at hq
  exact hp.same hq

/-- A `POST` in one piece, and cut inside the terminator and inside the body, with an empty chunk. -/
theorem sameParse_post :
    SameParse (feed [str "POST /deals/add HTTP/1.1\r\nContent-Length: 4\r\n\r\ndeal"])
      (feed [str "POST /deals/add HTTP/1.1\r\nContent-Length: 4\r\n\r", [], str "\nde", str "al"]) :=
  sameParse (str "POST /deals/add HTTP/1.1\r\nContent-Length: 4\r\n\r\ndeal") _ _ (by decide) (by decide)

end DealsServer
