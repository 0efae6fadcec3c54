import DealsServer.Lib.Delimited
import DealsServer.Proof.Responses

/-!
# Codes and texts

* `codes_printed`: a code that a parameter was read to is printed as the parameter, in one case.
* `answers_determine`: the bytes of an answer determine what was answered, for destinations, routes and statistics.

The lines of `/destinations/top` and `/deals/uniqueRoutes` have codes of three bytes, whatever these are, and end with
their first line end behind the codes.
-/

namespace DealsServer

open Decimal Words

/-! ## Codes -/

theorem codeToOrigin_originToCode {text : Bytes} (hlength : text.length = 3) : codeToOrigin (originToCode text) = text := by
  obtain ⟨a, b, c, rfl⟩ := List.length_eq_three.1 hlength
  have hbytes (d e f : UInt8) : ((d.toUInt32 <<< 8 ||| e.toUInt32 <<< 16 ||| f.toUInt32 <<< 24) >>> 8).toUInt8 = d ∧
      ((d.toUInt32 <<< 8 ||| e.toUInt32 <<< 16 ||| f.toUInt32 <<< 24) >>> 16).toUInt8 = e ∧
      ((d.toUInt32 <<< 8 ||| e.toUInt32 <<< 16 ||| f.toUInt32 <<< 24) >>> 24).toUInt8 = f := by
    refine ⟨?_, ?_, ?_⟩ <;>
    · apply UInt8.eq_of_toBitVec_eq
      apply BitVec.eq_of_getLsbD_eq
      intro i hi
      interval_cases i <;> simp
  obtain ⟨h1, h2, h3⟩ := hbytes a b c
  show [((a.toUInt32 <<< 8 ||| b.toUInt32 <<< 16 ||| c.toUInt32 <<< 24) >>> 8).toUInt8, _, _] = [a, b, c]
  rw [h1, show (originToCode [a, b, c] >>> 16).toUInt8 = b from h2,
    show (originToCode [a, b, c] >>> 24).toUInt8 = c from h3]

theorem length_toUpperCase (text : Bytes) : (toUpperCase text).length = text.length := List.length_map _

/-- An IATA code is printed in upper case. -/
theorem iataCode_printed {text : Bytes} {code : UInt32} (hparse : IATACode.parse text = .ok (some code)) :
    codeToOrigin code = toUpperCase text := by
  unfold IATACode.parse at hparse
  split_ifs at hparse with hempty hlength
  · cases hparse
  · cases hparse
  · rw [← Option.some.inj (Except.ok.inj hparse)]
    exact codeToOrigin_originToCode ((length_toUpperCase text).trans (not_not.1 hlength))

theorem length_country : ∀ code ∈ countries, (str code).length = 2 := by decide +kernel

theorem length_countries : countries.length = 252 := by decide +kernel

/-- A country is found by its two letters. -/
theorem countryToCode_printed {text : Bytes} (hlength : text.length = 2) {code : UInt8}
    (hcode : countryToCode text = .ok code) : codeToCountry code = .ok (some text) := by
  unfold countryToCode at hcode
  set x := countries.findIdx fun code => (str code).take 2 = text.take 2 with hx
  dsimp only at hcode
  split_ifs at hcode with hfound
  swap
  · cases hcode
  rw [← Except.ok.inj hcode]
  have hword : x.toUInt8.toNat = x := by
    have hsize := length_countries
    exact UInt8.toNat_ofNat_of_lt' (show x < 2 ^ 8 by omega)
  -- two letters are compared, and no code of the table has more
  have hsame : (str countries[x]).take 2 = text.take 2 := by
    have h := List.findIdx_getElem (p := fun code => (str code).take 2 = text.take 2) (w := hfound)
    exact of_decide_eq_true h
  have hmem : countries[x] ∈ countries := List.getElem_mem hfound
  rw [List.take_of_length_le (length_country _ hmem).le, List.take_of_length_le hlength.le] at hsame
  unfold codeToCountry
  rw [hword, if_neg (not_lt.2 hfound.le), List.getElem?_eq_getElem hfound]
  exact congrArg (fun word => Except.ok (some word)) hsame

theorem countryCode_printed {text : Bytes} {code : UInt8} (hparse : CountryCode.parse text = .ok (some code)) :
    codeToCountry code = .ok (some (toUpperCase text)) := by
  unfold CountryCode.parse at hparse
  split_ifs at hparse with hempty hlength
  · cases hparse
  · cases hparse
  · rcases hcode : countryToCode (toUpperCase text) with e | code'
    · rw [hcode] at hparse
      cases hparse
    · rw [hcode] at hparse
      cases hparse
      exact countryToCode_printed ((length_toUpperCase text).trans (not_not.1 hlength)) hcode

/-- A day of the week is printed in lower case. -/
theorem weekday_printed {day : Bytes} (hknown : dayOfWeekBitmaskFromStr day ≤ 64) :
    dayOfWeekStrFromBitmask (dayOfWeekBitmaskFromStr day) = toLowerCase day := by
  unfold dayOfWeekBitmaskFromStr at hknown ⊢
  set x := days.findIdx fun word => str word = toLowerCase day with hx
  have hfound : x < days.length := by
    by_contra hnot
    rw [show x = 7 from le_antisymm List.findIdx_le_length (not_lt.1 hnot)] at hknown
    exact absurd hknown (by decide)
  have hsame : str days[x] = toLowerCase day := by
    have h := List.findIdx_getElem (p := fun word => str word = toLowerCase day) (w := hfound)
    exact of_decide_eq_true h
  have hall : ∀ i : Fin 7, dayOfWeekStrFromBitmask (1 <<< i.val.toUInt8) = str (days.getD i.val "") := by decide
  rw [hall ⟨x, hfound⟩, ← hsame]
  rw [List.getD_eq_getElem?_getD, List.getElem?_eq_getElem hfound]
  rfl

/-- **Codes are printed as they were read**, but for the case of the letters. -/
theorem codes_printed (text : Bytes) :
    (∀ code, IATACode.parse text = .ok (some code) → codeToOrigin code = toUpperCase text) ∧
      (∀ code, CountryCode.parse text = .ok (some code) → codeToCountry code = .ok (some (toUpperCase text))) ∧
      (dayOfWeekBitmaskFromStr text ≤ 64 →
        dayOfWeekStrFromBitmask (dayOfWeekBitmaskFromStr text) = toLowerCase text) :=
  ⟨fun _ => iataCode_printed, fun _ => countryCode_printed, weekday_printed⟩

/-! ## Lines -/

/-- What a line of `/destinations/top` shows. -/
def DstInfo.shown (elm : DstInfo) : Bytes × UInt32 := (codeToOrigin elm.destination, elm.counter)

/-- What a line of `/deals/uniqueRoutes` shows. -/
def DealInfo.shown (deal : DealInfo) : (Bytes × Bytes) × UInt32 :=
  ((codeToOrigin deal.origin, codeToOrigin deal.destination), deal.price)

/-- Words of a fixed length, and then up to the next line end. -/
def lineWords (n : ℕ) : Set Bytes :=
  {u | ∃ w ∈ {w : Bytes | w.length = n}, ∃ v ∈ {v : Bytes | ∃ x : Bytes, 10 ∉ x ∧ v = x ++ [10]}, u = w ++ v}

theorem delimited_lineWords (n : ℕ) : Delimited (lineWords n) := (delimited_length n).append (delimited_closed 10)

theorem nil_not_mem_lineWords (n : ℕ) : [] ∉ lineWords n := by
  rintro ⟨w, -, v, ⟨x, -, rfl⟩, hnil⟩
  simp at hnil

theorem mem_lineWords {w : Bytes} (number : UInt32) : w ++ (decimal number.toNat ++ [10]) ∈ lineWords w.length :=
  ⟨w, rfl, _, ⟨_, fun h => absurd (isDigit_decimal h) (by decide), rfl⟩, rfl⟩

/-- **Lines of codes of one length and a number** determine the codes and the numbers. -/
theorem lines_inj {γ : Type} (codes : γ → Bytes) (P : γ → Prop) {n : ℕ} (hlength : ∀ c, P c → (codes c).length = n)
    (hinj : ∀ c d, P c → P d → codes c = codes d → c = d) {l l' : List (γ × UInt32)} (hl : ∀ x ∈ l, P x.1)
    (hl' : ∀ x ∈ l', P x.1)
    (heq : (l.flatMap fun x => codes x.1 ++ (decimal x.2.toNat ++ [10])) =
      l'.flatMap fun x => codes x.1 ++ (decimal x.2.toNat ++ [10])) : l = l' := by
  refine (delimited_lineWords n).flatMap_inj (nil_not_mem_lineWords n) (fun x hx => ?_) (fun x y hx hy hxy => ?_) hl hl' heq
  · exact hlength x.1 hx ▸ mem_lineWords x.2
  · obtain ⟨hcodes, hnumber⟩ := List.append_inj hxy ((hlength x.1 hx).trans (hlength y.1 hy).symm)
    exact Prod.ext (hinj _ _ hx hy hcodes)
      (UInt32.toNat_inj.1 (decimal_injective (List.append_cancel_right hnumber)))

/-- The text of `/destinations/top` determines what its lines show. -/
theorem destinationsText_inj {l l' : List DstInfo} (heq : destinationsText l = destinationsText l') :
    l.map DstInfo.shown = l'.map DstInfo.shown := by
  have htext (l : List DstInfo) : destinationsText l =
      (l.map DstInfo.shown).flatMap fun x => (x.1 ++ str ";") ++ (decimal x.2.toNat ++ [10]) := by
    rw [List.flatMap_map]
    refine List.flatMap_congr fun elm _ => ?_
    simp [DstInfo.line, DstInfo.shown, show str "\n" = [10] by decide]
  have hcodes (l : List DstInfo) : ∀ x ∈ l.map DstInfo.shown, x.1.length = 3 := by
    intro x hx
    obtain ⟨elm, -, rfl⟩ := List.mem_map.1 hx
    rfl
  rw [htext, htext] at heq
  refine lines_inj (n := 4) (fun c => c ++ str ";") (fun c => c.length = 3) (fun c hc => ?_)
    (fun c d _ _ h => List.append_cancel_right h) (hcodes l) (hcodes l') heq
  rw [List.length_append, hc]
  decide

/-- The text of `/deals/uniqueRoutes` determines what its lines show. -/
theorem routesText_inj {l l' : List DealInfo} (heq : l.flatMap UniqueProcessor.line = l'.flatMap UniqueProcessor.line) :
    l.map DealInfo.shown = l'.map DealInfo.shown := by
  have htext (l : List DealInfo) : l.flatMap UniqueProcessor.line =
      (l.map DealInfo.shown).flatMap fun x => (x.1.1 ++ str "," ++ x.1.2 ++ str ",") ++ (decimal x.2.toNat ++ [10]) := by
    rw [List.flatMap_map]
    refine List.flatMap_congr fun deal _ => ?_
    simp [UniqueProcessor.line, DealInfo.shown, show str "\n" = [10] by decide]
  have hcodes (l : List DealInfo) : ∀ x ∈ l.map DealInfo.shown, x.1.1.length = 3 ∧ x.1.2.length = 3 := by
    intro x hx
    obtain ⟨deal, -, rfl⟩ := List.mem_map.1 hx
    exact ⟨rfl, rfl⟩
  rw [htext, htext] at heq
  refine lines_inj (n := 8) (fun c => c.1 ++ str "," ++ c.2 ++ str ",") (fun c => c.1.length = 3 ∧ c.2.length = 3)
    (fun c hc => ?_) (fun c d hc hd h => ?_) (hcodes l) (hcodes l') heq
  · rw [List.length_append, List.length_append, List.length_append, hc.1, hc.2]
    decide
  · obtain ⟨hfront, -⟩ := List.append_inj' h rfl
    obtain ⟨hfirst, hsecond⟩ := List.append_inj' hfront (hc.2.trans hd.2.symm)
    exact Prod.ext (List.append_cancel_right hfirst) hsecond

/-! ## Statistics -/

/-- A number and the comma behind it. -/
theorem number_cut {n n' : ℕ} {x y : Bytes} (heq : decimal n ++ 44 :: x = decimal n' ++ 44 :: y) : n = n' ∧ x = y := by
  have hcomma (n : ℕ) : (44 : UInt8) ∉ decimal n := fun h => absurd (isDigit_decimal h) (by decide)
  obtain ⟨hnumber, hrest⟩ := cut_closed (hcomma n) (hcomma n') heq
  exact ⟨decimal_injective hnumber, hrest⟩

/-- The text of `/deals/stats` determines the statistics. -/
theorem statsText_inj {s s' : StatsProcessor} (heq : s.getStringResults = s'.getStringResults) : s = s' := by
  have htext (s : StatsProcessor) : s.getStringResults = str "\x7b\"elements\":" ++ (decimal s.elements.toNat ++ 44 ::
      (str "\"size\":" ++ (decimal s.size.toNat ++ 44 :: (str "\"min\":" ++ (decimal s.min.toNat ++ 44 ::
        (str "\"max\":" ++ (decimal s.max.toNat ++ str "\x7d"))))))) := by
    simp [StatsProcessor.getStringResults, show str ",\"size\":" = 44 :: str "\"size\":" by decide,
      show str ",\"min\":" = 44 :: str "\"min\":" by decide, show str ",\"max\":" = 44 :: str "\"max\":" by decide]
  rw [htext, htext] at heq
  obtain ⟨helements, hrest⟩ := number_cut (List.append_cancel_left heq)
  obtain ⟨hsize, hrest⟩ := number_cut (List.append_cancel_left hrest)
  obtain ⟨hmin, hrest⟩ := number_cut (List.append_cancel_left hrest)
  have hmax := decimal_injective (List.append_cancel_right (List.append_cancel_left hrest))
  obtain ⟨elements, size, max, min⟩ := s
  obtain ⟨elements', size', max', min'⟩ := s'
  simp only [UInt64.toNat_inj, UInt32.toNat_inj] at helements hsize hmin hmax
  rw [helements, hsize, hmin, hmax]

/-! ## Answers -/

/-- What is sent determines the body, also if it is sent as several texts. -/
theorem Framed.body_eq {r r' : HttpResponse} (h : Framed r) (h' : Framed r') (heq : r.toBytes = r'.toBytes) :
    concatString r.body = concatString r'.body := by
  obtain ⟨fields, hcarries, -⟩ := h.carries
  obtain ⟨fields', hcarries', -⟩ := h'.carries
  have hread := readResponse_toBytes hcarries
  rw [heq, readResponse_toBytes hcarries'] at hread
  exact (congrArg Reply.body (Option.some.inj hread)).symm

theorem body_textResult (text : Bytes) : concatString (textResult text).body = text := by
  show concatString [text] = text
  simp [concatString]

theorem stats_body (s : StatsProcessor) : concatString (Answer.stats s).response.body = s.getStringResults := by
  unfold Answer.response
  dsimp only
  split_ifs with hempty
  · exact (List.length_eq_zero_iff.1 hempty).symm
  · exact body_textResult _

theorem routes_body (text : Bytes) : concatString (Answer.routes text).response.body = text := by
  unfold Answer.response
  dsimp only
  split_ifs with hempty
  · exact (List.length_eq_zero_iff.1 hempty).symm
  · exact body_textResult _

theorem destinations_body (result : List DstInfo) :
    concatString (Answer.destinations result).response.body = destinationsText result := by
  unfold Answer.response
  dsimp only
  split_ifs with hempty
  · rw [List.length_eq_zero_iff.1 hempty]
    rfl
  · exact body_textResult _

/-- **The bytes of an answer determine what it shows**: the destinations with their counters, the routes with their
prices, and the statistics. -/
theorem answers_determine :
    (∀ l l' : List DstInfo, (Answer.destinations l).response.toBytes = (Answer.destinations l').response.toBytes →
        l.map DstInfo.shown = l'.map DstInfo.shown) ∧
      (∀ (p p' : UniqueProcessor) (order order' : List UInt64 → List UInt64),
        (Answer.routes (p.getStringResults order)).response.toBytes =
          (Answer.routes (p'.getStringResults order')).response.toBytes →
        (p.results order).map DealInfo.shown = (p'.results order').map DealInfo.shown) ∧
      ∀ s s' : StatsProcessor, (Answer.stats s).response.toBytes = (Answer.stats s').response.toBytes → s = s' := by
  refine ⟨fun l l' heq => ?_, fun p p' order order' heq => ?_, fun s s' heq => ?_⟩
  · have hbody := (framed_response _).body_eq (framed_response _) heq
    rw [destinations_body, destinations_body] at hbody
    exact destinationsText_inj hbody
  · have hbody := (framed_response _).body_eq (framed_response _) heq
    rw [routes_body, routes_body] at hbody
    exact routesText_inj hbody
  · have hbody := (framed_response _).body_eq (framed_response _) heq
    rw [stats_body, stats_body] at hbody
    exact statsText_inj hbody

end DealsServer
