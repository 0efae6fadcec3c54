import DealsServer.Proof.Filters
import DealsServer.Proof.Texts
import DealsServer.Spec.Database
import DealsServer.Spec.Server

/-!
# Numbers as texts

`Number(std::string)` hands the text to `std::stol`, whose exceptions are no `types::Error`, and narrows the result
to 32 bits.

* `numberHandled_iff`: the texts on which a number is read exactly, or its request is answered 400.
* `AddParams.parse_number`, `TopParams.read_numbers` and `readLocaleTopArgs_number`: the numbers a request is
  accepted with are the numbers read.
-/

namespace DealsServer

open Decimal

/-- The parameters of class `Number`. -/
inductive NumberParam
  | price
  | stayFrom
  | stayTo
  | timelimit
  | dealsLimit
  | destinationsLimit
  deriving DecidableEq, Repr

namespace NumberParam

/-- The name in the request. -/
def name : NumberParam → String
  | price => "price"
  | stayFrom => "stay_from"
  | stayTo => "stay_to"
  | timelimit => "timelimit"
  | dealsLimit => "deals_limit"
  | destinationsLimit => "destinations_limit"

/-- What the constructor of the parameter reads of a request. Only the price is required. -/
def read (n : NumberParam) (params : ObjectMap) : Except Thrown Number :=
  match n with
  | price => (requiredParam Number.parse params n.name).map some
  | _ => optionalParam Number.parse params n.name

/-- The text given for the parameter. -/
def text (n : NumberParam) (params : ObjectMap) : Bytes := params.get (str n.name)

end NumberParam

/-- The text is empty and the number undefined, or the text is a numeral and the number its value, or a bad parameter
is reported and the request answered 400, whatever its handler would have done `next`. -/
def NumberHandled (s : Bytes) (res : Except Thrown Number) : Prop :=
  (s = [] ∧ res = .ok none) ∨
    (Numeral s ∧ decimalValue s < 2 ^ 32 ∧
      ∃ number v, res = .ok number ∧ number.getValue = .ok v ∧ v.toNat = decimalValue s) ∨
    ∃ err, res = .error (.error err) ∧ err.code = .badParameter ∧
      ∀ next : Number → Except Thrown HttpResponse, (catchThrown (res >>= next)).statusCode = 400

/-- What becomes of a text that is not empty: no `types::Error` in any case. -/
theorem Number.parse_ne_nil {s : Bytes} (hs : s ≠ []) :
    Number.parse s = match stol s with
      | some v => .ok (some (UInt32.ofInt v))
      | none => .error .other := by
  unfold Number.parse
  exact if_neg hs

theorem NumberParam.read_ne_nil {n : NumberParam} {params : ObjectMap} (hs : n.text params ≠ []) :
    n.read params = Number.parse (n.text params) := by
  have hparse := Number.parse_ne_nil hs
  have hoptional : optionalParam Number.parse params n.name = Number.parse (n.text params) := by
    rw [optionalParam]
    show wrapError _ (Number.parse (n.text params)) = _
    rw [hparse]
    rcases stol (n.text params) with _ | v <;> rfl
  have hrequired : (requiredParam Number.parse params n.name).map some = Number.parse (n.text params) := by
    rw [requiredParam]
    show (wrapError _ (Number.parse (n.text params) >>= _)).map some = _
    rw [hparse]
    rcases stol (n.text params) with _ | v <;> rfl
  cases n <;> first | exact hrequired | exact hoptional

/-- Without a text, an optional number is undefined, and a required one is a bad parameter. -/
theorem numberHandled_nil {n : NumberParam} {params : ObjectMap} (hs : n.text params = []) :
    NumberHandled (n.text params) (n.read params) := by
  have hoptional : optionalParam Number.parse params n.name = .ok none := by
    rw [optionalParam]
    show wrapError _ (Number.parse (n.text params)) = _
    rw [hs]
    rfl
  have hrequired : ∃ err, (requiredParam Number.parse params n.name).map some = .error (.error err) ∧
      err.code = .badParameter := by
    rw [requiredParam]
    show ∃ err, (wrapError _ (Number.parse (n.text params) >>= _)).map some = _ ∧ _
    rw [hs]
    exact ⟨_, rfl, rfl⟩
  cases n
  case price =>
    obtain ⟨err, hread, hcode⟩ := hrequired
    refine .inr (.inr ⟨err, hread, hcode, fun next => ?_⟩)
    show (catchThrown ((requiredParam Number.parse params _).map some >>= next)).statusCode = 400
    rw [hread]
    show (errorResponse err).statusCode = 400
    rw [errorResponse, hcode]
  all_goals exact .inl ⟨hs, hoptional⟩

/-- Any other text is read as another number, or answered 500. -/
theorem NumberHandled.text_eq {n : NumberParam} {params : ObjectMap}
    (h : NumberHandled (n.text params) (n.read params)) :
    n.text params = [] ∨ (Numeral (n.text params) ∧ decimalValue (n.text params) < 2 ^ 32) := by
  rcases h with ⟨hempty, -⟩ | ⟨hnumeral, hlt, -⟩ | ⟨err, herr, hcode, -⟩
  · exact .inl hempty
  · exact .inr ⟨hnumeral, hlt⟩
  · -- only the absence of a required number is reported as a bad parameter
    by_contra hbad
    have hne : n.text params ≠ [] := fun h => hbad (.inl h)
    rw [NumberParam.read_ne_nil hne, Number.parse_ne_nil hne] at herr
    rcases hread : stol (n.text params) with _ | v <;> rw [hread] at herr <;> cases herr

/-- **Numbers are read exactly** from the empty text and from numerals below `2 ^ 32`, and from no other text. -/
theorem numberHandled_iff (n : NumberParam) (params : ObjectMap) :
    NumberHandled (n.text params) (n.read params) ↔
      n.text params = [] ∨ (Numeral (n.text params) ∧ decimalValue (n.text params) < 2 ^ 32) := by
  refine ⟨NumberHandled.text_eq, ?_⟩
  rintro (hempty | ⟨hnumeral, hlt⟩)
  · exact numberHandled_nil hempty
  · refine .inr (.inl ⟨hnumeral, hlt, some (UInt32.ofInt (decimalValue (n.text params))), _, ?_, rfl,
      toNat_ofInt hlt⟩)
    rw [NumberParam.read_ne_nil hnumeral.1, Number.parse_ne_nil hnumeral.1, stol_numeral hnumeral, if_pos (by omega)]

/-! ## The requests -/

/-- The price of an accepted deal. -/
theorem AddParams.parse_number {params : ObjectMap} {a : AddParams} (h : AddParams.parse params = .ok a) :
    NumberParam.price.read params = .ok (some a.price) := by
  simp only [AddParams.parse, bind_eq_ok] at h
  obtain ⟨_, -, _, -, price, hprice, _, -, _, -, _, -, _, -, _, -, h⟩ := h
  unfold raise at h
  split_ifs at h
  cases h
  show (requiredParam Number.parse params "price").map some = _
  rw [hprice]
  rfl

/-- The numbers of an accepted search. -/
theorem TopParams.read_numbers {params : ObjectMap} {p : TopParams} (h : TopParams.read params = .ok p) :
    NumberParam.stayFrom.read params = .ok p.stayFrom ∧ NumberParam.stayTo.read params = .ok p.stayTo ∧
      NumberParam.timelimit.read params = .ok p.timelimit ∧
      NumberParam.dealsLimit.read params = .ok p.dealsLimit := by
  simp only [TopParams.read, bind_eq_ok] at h
  obtain ⟨_, -, _, -, _, -, _, -, _, -, _, -, _, -, _, -, _, -, _, hfrom, _, hto, _, htime, _, hlimit, _, -, _, -, _, -,
    _, -, _, -, _, -, _, -, _, -, h⟩ := h
  cases h
  exact ⟨hfrom, hto, htime, hlimit⟩

/-- The limit of a request for destinations. -/
theorem readLocaleTopArgs_number {params : ObjectMap} {args : LocaleTopArgs}
    (h : Database.readLocaleTopArgs params = .ok args) :
    NumberParam.destinationsLimit.read params = .ok args.limit := by
  simp only [Database.readLocaleTopArgs, bind_eq_ok] at h
  obtain ⟨_, -, _, -, _, -, _, hlimit, h⟩ := h
  cases h
  exact hlimit

/-- A search from Saint Petersburg with a number. -/
def searchWith (n : NumberParam) (text : String) : ObjectMap := [⟨str "origin", str "LED"⟩, ⟨str n.name, str text⟩]

/-- **Malformed numbers**: one is accepted as another number, one is answered 500. -/
theorem malformed_numbers :
    (∃ p, TopParams.read (searchWith .timelimit "12abc") = .ok p ∧ p.timelimit = some 12) ∧
      (∃ p, TopParams.read (searchWith .dealsLimit "4294967297") = .ok p ∧ p.dealsLimit = some 1) ∧
      (∃ e, TopParams.read (searchWith .stayFrom "abc") = .error e ∧ (catchThrown (.error e)).statusCode = 500) ∧
      ¬ NumberHandled (NumberParam.stayFrom.text (searchWith .stayFrom "abc"))
        (NumberParam.stayFrom.read (searchWith .stayFrom "abc")) ∧
      ¬ NumberHandled (NumberParam.timelimit.text (searchWith .timelimit "12abc"))
        (NumberParam.timelimit.read (searchWith .timelimit "12abc")) := by
  refine ⟨⟨_, rfl, rfl⟩, ⟨_, rfl, rfl⟩, ⟨_, rfl, rfl⟩, fun h => ?_, fun h => ?_⟩
  · rcases h.text_eq with hempty | ⟨⟨-, hdigits⟩, -⟩
    · exact absurd hempty (by decide)
    · exact absurd (hdigits 97 (by decide)) (by decide)
  · rcases h.text_eq with hempty | ⟨⟨-, hdigits⟩, -⟩
    · exact absurd hempty (by decide)
    · exact absurd (hdigits 97 (by decide)) (by decide)

end DealsServer
