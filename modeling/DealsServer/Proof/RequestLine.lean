import DealsServer.Proof.Splitting
import DealsServer.Spec.Http

/-!
# Request lines

* `requestLine_parse`: `HttpRequest::parse` reads back the method, path and version that a request line was put
  together from, and each parameter of its query string by name.

The line is split at the spaces, the query string at `?` and `&`, and each parameter at its first `=`; the parts
have none of these where they are looked for.
-/

namespace DealsServer

/-- The text has no space, CR or LF. -/
def Unbroken (text : Bytes) : Prop := ∀ b ∈ text, b ≠ 32 ∧ b ≠ 13 ∧ b ≠ 10

/-- A name and a value that a query string can carry. -/
structure Carried (pair : Bytes × Bytes) : Prop where
  name : Unbroken pair.1
  value : Unbroken pair.2
  nameFree : ∀ b ∈ pair.1, b ≠ 61 ∧ b ≠ 38
  valueFree : ∀ b ∈ pair.2, b ≠ 38

/-- The parts of a request line. The method and the path may be empty too; a version that is empty would be dropped
by `split_string`. -/
structure LineParts (method path version : Bytes) (pairs : List (Bytes × Bytes)) : Prop where
  unbroken : ∀ part ∈ [method, path, version], Unbroken part
  versioned : version ≠ []
  pathFree : ∀ b ∈ path, b ≠ 63
  carried : ∀ pair ∈ pairs, Carried pair

/-- The text of a parameter. -/
def pairText (pair : Bytes × Bytes) : Bytes := pair.1 ++ str "=" ++ pair.2

/-- The query string. -/
def queryString (pairs : List (Bytes × Bytes)) : Bytes := (str "&").intercalate (pairs.map pairText)

/-- The URI of a request. -/
def requestUri (path : Bytes) (pairs : List (Bytes × Bytes)) : Bytes := path ++ str "?" ++ queryString pairs

/-- The request line with its CRLF. -/
def requestLine (method path version : Bytes) (pairs : List (Bytes × Bytes)) : Bytes :=
  (str " ").intercalate [method, requestUri path pairs, version] ++ str "\r\n"

theorem str_space : str " " = [32] := by decide

theorem str_crlf : str "\r\n" = [13, 10] := by decide

theorem str_equals : str "=" = [61] := by decide

theorem str_ampersand : str "&" = [38] := by decide

theorem str_question : str "?" = [63] := by decide

/-- The bytes of texts that are joined. -/
theorem mem_intercalate {sep : Bytes} {b : UInt8} (texts : List Bytes) (hb : b ∈ sep.intercalate texts) :
    b ∈ sep ∨ ∃ text ∈ texts, b ∈ text := by
  induction texts with
  | nil =>
    rw [List.intercalate_nil] at hb
    exact absurd hb List.not_mem_nil
  | cons text texts ih =>
    by_cases hne : texts = []
    · rw [hne, List.intercalate_singleton] at hb
      exact .inr ⟨text, List.mem_cons_self, hb⟩
    · rw [List.intercalate_cons_of_ne_nil hne, List.append_assoc, List.mem_append, List.mem_append] at hb
      rcases hb with hb | hb | hb
      · exact .inr ⟨text, List.mem_cons_self, hb⟩
      · exact .inl hb
      · rcases ih hb with hsep | ⟨t, ht, hbt⟩
        · exact .inl hsep
        · exact .inr ⟨t, List.mem_cons_of_mem _ ht, hbt⟩

/-! ## Parameters -/

/-- **A parameter is cut at its first `=`.** -/
theorem paramOfText_pairText {pair : Bytes × Bytes} (h : Carried pair) :
    paramOfText (pairText pair) = ⟨pair.1, pair.2⟩ := by
  have hfree : (61 : UInt8) ∉ pair.1 := fun hmem => (h.nameFree 61 hmem).1 rfl
  have hfind : find (str "=") (pairText pair) = some pair.1.length := by
    rw [pairText, str_equals]
    exact find_behind [] pair.2 hfree
  rw [paramOfText, hfind]
  dsimp only
  have hdrop : (pairText pair).drop (pair.1.length + 1) = pair.2 := by
    rw [pairText, str_equals, ← List.length_singleton (a := (61 : UInt8)), ← List.length_append, List.drop_left]
  rw [hdrop, pairText, List.append_assoc, List.take_left]

theorem unbroken_pairText {pair : Bytes × Bytes} (h : Carried pair) : Unbroken (pairText pair) := by
  intro b hb
  rw [pairText, str_equals, List.mem_append, List.mem_append, List.mem_singleton] at hb
  rcases hb with (hb | rfl) | hb
  · exact h.name b hb
  · decide
  · exact h.value b hb

theorem ampersand_not_mem {pair : Bytes × Bytes} (h : Carried pair) : (38 : UInt8) ∉ pairText pair := by
  intro hb
  rw [pairText, str_equals, List.mem_append, List.mem_append, List.mem_singleton] at hb
  rcases hb with (hb | hb) | hb
  · exact (h.nameFree 38 hb).2 rfl
  · exact absurd hb (by decide)
  · exact h.valueFree 38 hb rfl

theorem pairText_ne_nil (pair : Bytes × Bytes) : pairText pair ≠ [] := by
  simp [pairText, str_equals]

/-- **The query string is split into its parameters**, also when it is empty. -/
theorem splitString_queryString {pairs : List (Bytes × Bytes)} (h : ∀ pair ∈ pairs, Carried pair) :
    (splitString (queryString pairs) (str "&")).map paramOfText = pairs.map fun pair => ⟨pair.1, pair.2⟩ := by
  have hsplit : splitString (queryString pairs) (str "&") = pairs.map pairText := by
    rw [queryString, str_ampersand]
    apply splitString_intercalate
    · intro token htoken
      obtain ⟨pair, hpair, rfl⟩ := List.mem_map.1 htoken
      exact ampersand_not_mem (h pair hpair)
    · intro token htoken
      obtain ⟨pair, -, rfl⟩ := List.mem_map.1 (List.mem_of_mem_getLast? htoken)
      exact pairText_ne_nil pair
  rw [hsplit, List.map_map]
  exact List.map_congr_left fun pair hpair => paramOfText_pairText (h pair hpair)

/-- **A parameter is looked up by its name**: the first of that name counts. -/
theorem get_pairs (pairs : List (Bytes × Bytes)) (name : Bytes) :
    ObjectMap.get (pairs.map fun pair => ⟨pair.1, pair.2⟩) name = (pairs.lookup name).getD [] := by
  induction pairs with
  | nil => rfl
  | cons pair pairs ih =>
    obtain ⟨key, value⟩ := pair
    by_cases hname : key = name
    · subst hname
      rw [List.lookup_cons_self]
      simp [ObjectMap.get]
    · have hne : (name == key) = false := by simpa using Ne.symm hname
      rw [List.lookup_cons, hne, ← ih]
      simp [ObjectMap.get, hname]

/-! ## The line -/

section Line

variable {method path version : Bytes} {pairs : List (Bytes × Bytes)}

theorem unbroken_requestUri (h : LineParts method path version pairs) : Unbroken (requestUri path pairs) := by
  intro b hb
  rw [requestUri, str_question, List.mem_append, List.mem_append, List.mem_singleton] at hb
  rcases hb with (hb | rfl) | hb
  · exact h.unbroken path (by simp) b hb
  · decide
  · rw [queryString, str_ampersand] at hb
    rcases mem_intercalate _ hb with hsep | ⟨text, htext, hmem⟩
    · rw [List.mem_singleton.1 hsep]
      decide
    · obtain ⟨pair, hpair, rfl⟩ := List.mem_map.1 htext
      exact unbroken_pairText (h.carried pair hpair) b hmem

/-- The URI is cut at the first `?`. -/
theorem uriParse_requestUri (h : LineParts method path version pairs) {query : URIQueryParams}
    (hnew : query.params = []) :
    query.parse (requestUri path pairs) = (.parseOk, ⟨pairs.map fun pair => ⟨pair.1, pair.2⟩, path⟩) := by
  have hfree : (63 : UInt8) ∉ path := fun hmem => h.pathFree 63 hmem rfl
  have hfind : find (str "?") (requestUri path pairs) = some path.length := by
    rw [requestUri, str_question]
    exact find_behind [] _ hfree
  have hne : requestUri path pairs ≠ [] := by
    simp [requestUri, str_question]
  have htake : (requestUri path pairs).take path.length = path := by
    rw [requestUri, List.append_assoc, List.take_left]
  have hdrop : (requestUri path pairs).drop (path.length + 1) = queryString pairs := by
    rw [requestUri, str_question, ← List.length_singleton (a := (63 : UInt8)), ← List.length_append, List.drop_left]
  rw [URIQueryParams.parse, if_neg hne, hfind]
  dsimp only
  rw [htake, hdrop, splitString_queryString h.carried, hnew, List.nil_append]

/-- The three parts of the line. -/
theorem unbroken_parts (h : LineParts method path version pairs) :
    ∀ part ∈ [method, requestUri path pairs, version], Unbroken part := by
  intro part hpart
  simp only [List.mem_cons, List.not_mem_nil, or_false] at hpart
  rcases hpart with rfl | rfl | rfl
  · exact h.unbroken _ (by simp)
  · exact unbroken_requestUri h
  · exact h.unbroken _ (by simp)

/-- The first CRLF is the one that ends the line. -/
theorem find_crlf (h : LineParts method path version pairs) (rest : Bytes) :
    find (str "\r\n") (requestLine method path version pairs ++ rest) =
      some ((str " ").intercalate [method, requestUri path pairs, version]).length := by
  rw [requestLine, str_crlf]
  apply find_behind
  intro hmem
  rcases mem_intercalate _ hmem with hsep | ⟨part, hpart, hb⟩
  · exact absurd hsep (by decide)
  · exact (unbroken_parts h part hpart 13 hb).2.1 rfl

/-- **The request line round trip.** What follows the line does not matter, and the first parameter of a name is
the one that counts. -/
theorem requestLine_parse (h : LineParts method path version pairs) (rest : Bytes) (request : HttpRequest)
    (hnew : request.query.params = []) :
    ∃ parsed, request.parse (requestLine method path version pairs ++ rest) = (.parseOk, parsed) ∧
      parsed.method = method ∧ parsed.query.path = path ∧ parsed.httpVersion = version ∧
      ∀ name, parsed.query.params.get name = (pairs.lookup name).getD [] := by
  have hne : requestLine method path version pairs ++ rest ≠ [] := by
    simp [requestLine, str_crlf]
  have hline : (requestLine method path version pairs ++ rest).take
      ((str " ").intercalate [method, requestUri path pairs, version]).length =
        (str " ").intercalate [method, requestUri path pairs, version] := by
    rw [requestLine, List.append_assoc, List.take_left]
  have hsplit : splitString ((str " ").intercalate [method, requestUri path pairs, version]) (str " ") =
      [method, requestUri path pairs, version] := by
    rw [str_space]
    apply splitString_intercalate
    · intro part hpart hmem
      exact (unbroken_parts h part hpart 32 hmem).1 rfl
    · intro part hpart
      cases hpart
      exact h.versioned
  refine ⟨⟨method, requestUri path pairs, version, ⟨pairs.map fun pair => ⟨pair.1, pair.2⟩, path⟩⟩, ?_, rfl, rfl, rfl,
    get_pairs pairs⟩
  rw [HttpRequest.parse, if_neg hne, find_crlf h rest]
  dsimp only
  rw [hline, hsplit]
  dsimp only
  rw [uriParse_requestUri h hnew]

end Line

/-- A check of each byte, by evaluation. -/
theorem of_all {p : UInt8 → Prop} [DecidablePred p] {text : Bytes} (h : text.all (fun b => decide (p b)) = true) :
    ∀ b ∈ text, p b := fun b hb => of_decide_eq_true (List.all_eq_true.1 h b hb)

/-- A name that is given twice, a value with `=` and `?`, and an empty name. -/
def oddPairs : List (Bytes × Bytes) := [(str "a", str "1"), (str "a", str "2=?"), ([], [])]

theorem requestLine_parse_odd :
    ∃ parsed, HttpParser.init.request.parse
        (requestLine (str "GET") (str "/test") (str "HTTP/1.1") oddPairs ++ str "Host: localhost\r\n\r\n") =
          (.parseOk, parsed) ∧
      parsed.method = str "GET" ∧ parsed.query.path = str "/test" ∧ parsed.httpVersion = str "HTTP/1.1" ∧
      ∀ name, parsed.query.params.get name = (oddPairs.lookup name).getD [] := by
  have hcarried : ∀ pair ∈ oddPairs, Carried pair := by
    intro pair hpair
    simp only [oddPairs, List.mem_cons, List.not_mem_nil, or_false] at hpair
    rcases hpair with rfl | rfl | rfl
    · exact ⟨of_all (by decide), of_all (by decide), of_all (by decide), of_all (by decide)⟩
    · exact ⟨of_all (by decide), of_all (by decide), of_all (by decide), of_all (by decide)⟩
    · exact ⟨of_all (by decide), of_all (by decide), of_all (by decide), of_all (by decide)⟩
  have hparts : ∀ part ∈ [str "GET", str "/test", str "HTTP/1.1"], Unbroken part := by
    intro part hpart
    simp only [List.mem_cons, List.not_mem_nil, or_false] at hpart
    rcases hpart with rfl | rfl | rfl
    · exact of_all (by decide)
    · exact of_all (by decide)
    · exact of_all (by decide)
  exact requestLine_parse ⟨hparts, by decide, of_all (by decide), hcarried⟩ _ _ rfl

end DealsServer
