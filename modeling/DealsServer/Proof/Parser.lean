import DealsServer.Spec.Http

/-!
# The request parser

`HttpParser.write_cases` says once what a chunk can do to the parser. From it: the chunks are kept
(`msgs_write`), a parser that has settled stays settled (`settled_write`), and a complete `POST` has its
whole body (`Counted`).
-/

namespace DealsServer

namespace HttpParser

/-- The parser with the chunk appended. -/
def push (p : HttpParser) (msg : Bytes) : HttpParser :=
  { p with msgs := p.msgs ++ [msg], bytesWritten := p.bytesWritten + msg.length }

/-- The request is known to be complete or bad. -/
def Settled (p : HttpParser) : Prop := p.badRequest = true ∨ p.parsingComplete = true

/-- The parser with the parsed headers and request line. -/
def parsed (p : HttpParser) (headers : ObjectMap) (headersEnd contentLength : ℕ) (request : HttpRequest) :
    HttpParser :=
  { p with
    headers := headers, headersEnd := headersEnd, headersWritten := true, contentLength := contentLength
    request := request }

/-- **What a chunk can do**: the head is still incomplete; the body is counted; the head gets complete
and is a request; or it gets complete and is no request. -/
theorem write_cases (p : HttpParser) (msg : Bytes) :
    (p.headersWritten = false ∧ ∃ headers, p.write msg = { p.push msg with headers := headers }) ∨
    (p.headersWritten = true ∧ p.write msg = (p.push msg).checkBody) ∨
    (p.headersWritten = false ∧ ∃ headers headersEnd contentLength request,
      let q := (p.push msg).parsed headers headersEnd contentLength request
      p.write msg =
        (if request.method = str "GET" then { q with parsingComplete := true } else q).checkBody) ∨
    (p.headersWritten = false ∧ ∃ headers headersEnd contentLength request,
      p.write msg =
        { (p.push msg).parsed headers headersEnd contentLength request with badRequest := true }) := by
  by_cases hw : p.headersWritten = true
  · refine .inr (.inl ⟨hw, ?_⟩)
    simp [write, push, hw]
  · have hw : p.headersWritten = false := by simpa using hw
    simp only [write, hw, Bool.false_eq_true, if_false]
    split
    · exact .inl ⟨trivial, p.headers, by simp [push, hw]⟩
    · split
      · split
        · exact .inr (.inr (.inl ⟨trivial, _, _, _, _, rfl⟩))
        · exact .inr (.inr (.inr ⟨trivial, _, _, _, _, rfl⟩))
      · rename_i headers _ _
        exact .inl ⟨trivial, headers, by simp [push, hw]⟩

theorem checkBody_eq (p : HttpParser) :
    p.checkBody = p ∨
      (p.checkBody = { p with parsingComplete := true } ∧ p.contentLength ≤ p.bytesWritten - p.headersEnd) := by
  unfold checkBody
  split
  · split
    · exact .inl rfl
    · exact .inr ⟨rfl, by omega⟩
  · exact .inl rfl

@[simp] theorem checkBody_msgs (p : HttpParser) : p.checkBody.msgs = p.msgs := by
  rcases checkBody_eq p with h | ⟨h, -⟩ <;> rw [h]

@[simp] theorem checkBody_bytesWritten (p : HttpParser) : p.checkBody.bytesWritten = p.bytesWritten := by
  rcases checkBody_eq p with h | ⟨h, -⟩ <;> rw [h]

@[simp] theorem checkBody_badRequest (p : HttpParser) : p.checkBody.badRequest = p.badRequest := by
  rcases checkBody_eq p with h | ⟨h, -⟩ <;> rw [h]

theorem checkBody_parsingComplete {p : HttpParser} (hp : p.parsingComplete = true) :
    p.checkBody.parsingComplete = true := by
  rcases checkBody_eq p with h | ⟨h, -⟩ <;> rw [h]
  exact hp

/-- The chunks are kept in order. -/
theorem msgs_write (p : HttpParser) (msg : Bytes) : (p.write msg).msgs = p.msgs ++ [msg] := by
  obtain ⟨-, _, h⟩ | ⟨-, h⟩ | ⟨-, _, _, _, request, h⟩ | ⟨-, _, _, _, _, h⟩ := write_cases p msg
  · rw [h]; rfl
  · rw [h, checkBody_msgs]; rfl
  · rw [h, checkBody_msgs]
    by_cases hget : request.method = str "GET" <;> simp [hget, parsed, push]
  · rw [h]; rfl

theorem bytesWritten_write (p : HttpParser) (msg : Bytes) :
    (p.write msg).bytesWritten = p.bytesWritten + msg.length := by
  obtain ⟨-, _, h⟩ | ⟨-, h⟩ | ⟨-, _, _, _, request, h⟩ | ⟨-, _, _, _, _, h⟩ := write_cases p msg
  · rw [h]; rfl
  · rw [h, checkBody_bytesWritten]; rfl
  · rw [h, checkBody_bytesWritten]
    by_cases hget : request.method = str "GET" <;> simp [hget, parsed, push]
  · rw [h]; rfl

/-- A settled parser stays settled, whatever is written to it. -/
theorem settled_write {p : HttpParser} (hp : p.Settled) (msg : Bytes) : (p.write msg).Settled := by
  obtain ⟨-, _, h⟩ | ⟨-, h⟩ | ⟨-, _, _, _, request, h⟩ | ⟨-, _, _, _, _, h⟩ := write_cases p msg
  · rw [h]; exact hp
  · rw [h]
    rcases hp with hbad | hcomplete
    · exact .inl (by rw [checkBody_badRequest]; exact hbad)
    · exact .inr (checkBody_parsingComplete hcomplete)
  · rw [h]
    rcases hp with hbad | hcomplete
    · refine .inl ?_
      rw [checkBody_badRequest]
      split <;> exact hbad
    · refine .inr (checkBody_parsingComplete ?_)
      split
      · rfl
      · exact hcomplete
  · rw [h]; exact .inl rfl

/-- The byte count is that of the chunks, nothing is complete before the head is, and a complete `POST`
has as many body bytes as its `Content-Length` says. -/
structure Counted (p : HttpParser) : Prop where
  bytes : p.bytesWritten = (concatString p.msgs).length
  head : p.headersWritten = false → p.parsingComplete = false
  body : p.parsingComplete = true → p.request.method = str "POST" →
    p.contentLength ≤ p.bytesWritten - p.headersEnd

theorem counted_init : init.Counted := ⟨rfl, fun _ => rfl, fun h => by simp [init] at h⟩

theorem counted_write {p : HttpParser} (hp : p.Counted) (msg : Bytes) : (p.write msg).Counted := by
  have hbytes : (p.write msg).bytesWritten = (concatString (p.write msg).msgs).length := by
    rw [bytesWritten_write, msgs_write, hp.bytes]
    simp [concatString]
  -- what a write does: no head yet, a head that is known, a new head, or a bad one
  obtain ⟨hw, _, h⟩ | ⟨hw, h⟩ | ⟨hw, _, _, _, request, h⟩ | ⟨hw, _, _, _, _, h⟩ := write_cases p msg
  · refine ⟨hbytes, ?_, ?_⟩ <;> rw [h]
    · exact hp.head
    · intro hc
      exact absurd hc (by simp [push, hp.head hw])
  · refine ⟨hbytes, ?_, ?_⟩ <;> rw [h]
    · rcases checkBody_eq (p.push msg) with hb | ⟨hb, -⟩ <;> rw [hb] <;> simp [push, hw]
    · rcases checkBody_eq (p.push msg) with hb | ⟨hb, hle⟩ <;> rw [hb]
      · intro hc hm
        have := hp.body hc hm
        simp only [push]
        omega
      · exact fun _ _ => hle
  · refine ⟨hbytes, ?_, ?_⟩ <;> rw [h]
    · split <;> rcases checkBody_eq _ with hb | ⟨hb, -⟩ <;> rw [hb] <;> simp [parsed]
    · by_cases hget : request.method = str "GET"
      · rw [if_pos hget]
        rcases checkBody_eq _ with hb | ⟨hb, hle⟩ <;> rw [hb]
        · intro _ hm
          have hne : str "GET" ≠ str "POST" := by decide
          exact absurd (hget.symm.trans hm) hne
        · exact fun _ _ => hle
      · rw [if_neg hget]
        rcases checkBody_eq _ with hb | ⟨hb, hle⟩ <;> rw [hb]
        · intro hc
          exact absurd hc (by simp [parsed, push, hp.head hw])
        · exact fun _ _ => hle
  · refine ⟨hbytes, ?_, ?_⟩ <;> rw [h]
    · simp [parsed]
    · intro hc
      exact absurd hc (by simp [parsed, push, hp.head hw])

end HttpParser

end DealsServer
