import DealsServer.Spec.Http

/-!
# Parameter types (`types.cpp`, `utils.cpp`)

Each class of parameter is read from the text of a request parameter. `none` is `paramter_undefined`,
the value of an absent or empty parameter.
-/

namespace DealsServer

inductive ErrorCode
  | badParameter
  | internalError
  deriving DecidableEq, Repr

/-- `types::Error`. -/
structure Error where
  message : Bytes
  code : ErrorCode := .badParameter
  deriving DecidableEq, Repr

/-- What a handler may throw: a `types::Error`, or any other exception (`std::stol`). -/
inductive Thrown
  | error (err : Error)
  | other
  deriving DecidableEq, Repr

/-- `throw types::Error(message)`. -/
def raise {α : Type} (message : Bytes) : Except Thrown α := .error (.error { message := message })

/-! ## Codes -/

abbrev IATACode := Option UInt32

/-- `origin_to_code`: the three letters in the upper bytes of a little-endian word. -/
def originToCode (code : Bytes) : UInt32 :=
  let byte (i : ℕ) : UInt32 := (code.getD i 0).toUInt32
  byte 0 <<< 8 ||| byte 1 <<< 16 ||| byte 2 <<< 24

/-- `IATACode(std::string)`. -/
def IATACode.parse (iatacode : Bytes) : Except Thrown IATACode :=
  if iatacode = [] then .ok none
  else if iatacode.length ≠ 3 then raise (str "Bad IATA code:" ++ iatacode ++ str "\n")
  else .ok (some (originToCode (toUpperCase iatacode)))

/-- `IATACode::get_code`. -/
def IATACode.getCode (c : IATACode) : Except Thrown UInt32 :=
  match c with
  | some code => .ok code
  | none => raise (str "IATACode parameter not defined\n")

/-- The set of an `IATACodes`, as the list of what was inserted. An empty item of the text is an
undefined code. -/
abbrev IATACodes := Option (List IATACode)

/-- `IATACodes(std::string)`. -/
def IATACodes.parse (codes : Bytes) : Except Thrown IATACodes :=
  if codes = [] then .ok none
  else do
    let codes ← (splitString codes (str ",")).mapM IATACode.parse
    return some codes

/-- `IATACodes::add_code`. -/
def IATACodes.addCode (codes : IATACodes) (dbcode : UInt32) : Except Thrown IATACodes :=
  if dbcode = 0 then .error (.error ⟨str "Bad IATA code:0\n", .internalError⟩)
  else .ok (some (codes.getD [] ++ [some dbcode]))

/-- `COUNTRIES`. -/
def countries : List String :=
  ["AF", "AX", "AL", "DZ", "AS", "AD", "AO", "AI", "AQ", "AG", "AR", "AM", "AW", "AU", "AT", "AZ", "BS",
   "BH", "BD", "BB", "BY", "BE", "BZ", "BJ", "BM", "BT", "BO", "BQ", "BA", "BW", "BV", "BR", "IO", "VG",
   "BN", "BG", "BF", "BI", "KH", "CM", "CA", "CV", "KY", "CF", "TD", "CL", "CN", "CX", "CC", "CO", "KM",
   "CK", "CR", "HR", "CU", "CW", "CY", "CZ", "CD", "DK", "DJ", "DM", "DO", "TL", "EC", "EG", "SV", "GQ",
   "ER", "EE", "ET", "FK", "FO", "FJ", "FI", "FR", "GF", "PF", "TF", "GA", "GM", "GE", "DE", "GH", "GI",
   "GR", "GL", "GD", "GP", "GU", "GT", "GG", "GN", "GW", "GY", "HT", "HM", "HN", "HK", "HU", "IS", "IN",
   "ID", "IR", "IQ", "IE", "IM", "IL", "IT", "CI", "JM", "JP", "JE", "JO", "KZ", "KE", "KI", "XK", "KW",
   "KG", "LA", "LV", "LB", "LS", "LR", "LY", "LI", "LT", "LU", "MO", "MK", "MG", "MW", "MY", "MV", "ML",
   "MT", "MH", "MQ", "MR", "MU", "YT", "MX", "FM", "MD", "MC", "MN", "ME", "MS", "MA", "MZ", "MM", "NA",
   "NR", "NP", "NL", "AN", "NC", "NZ", "NI", "NE", "NG", "NU", "NF", "KP", "MP", "NO", "OM", "PK", "PW",
   "PS", "PA", "PG", "PY", "PE", "PH", "PN", "PL", "PT", "PR", "QA", "CG", "RE", "RO", "RU", "RW", "BL",
   "SH", "KN", "LC", "MF", "PM", "VC", "WS", "SM", "ST", "SA", "SN", "RS", "CS", "SC", "SL", "SG", "SX",
   "SK", "SI", "SB", "SO", "ZA", "GS", "KR", "SS", "ES", "LK", "SD", "SR", "SJ", "SZ", "SE", "CH", "SY",
   "TW", "TJ", "TZ", "TH", "TG", "TK", "TO", "TT", "TN", "TR", "TM", "TC", "TV", "VI", "UG", "UA", "AE",
   "GB", "US", "UM", "UY", "UZ", "VU", "VA", "VE", "VN", "WF", "EH", "YE", "ZM", "ZW"]

abbrev CountryCode := Option UInt8

/-- `country_to_code`. -/
def countryToCode (country : Bytes) : Except Thrown UInt8 :=
  let x := countries.findIdx fun code => (str code).take 2 = country.take 2
  if x < countries.length then .ok x.toUInt8
  else raise (str "unknown country:" ++ country ++ str "\n")

/-- `code_to_country`; `none` when it reads behind the table. -/
def codeToCountry (code : UInt8) : Except Thrown (Option Bytes) :=
  if code.toNat > countries.length then
    .error (.error ⟨str "CountryCode bad code:'" ++ Decimal.decimal code.toNat ++ str "'\n", .internalError⟩)
  else .ok (countries[code.toNat]?.map str)

/-- `CountryCode(std::string)`. -/
def CountryCode.parse (code : Bytes) : Except Thrown CountryCode :=
  if code = [] then .ok none
  else if code.length ≠ 2 then raise (str "CountryCode format error:" ++ code ++ str "\n")
  else do
    let code ← countryToCode (toUpperCase code)
    return some code

/-- `CountryCode::get_code`. -/
def CountryCode.getCode (c : CountryCode) : Except Thrown UInt8 :=
  match c with
  | some code => .ok code
  | none => raise (str "CountryCode parameter not defined\n")

/-- The set of a `CountryCodes`, as the list of what was inserted. -/
abbrev CountryCodes := Option (List CountryCode)

/-- `CountryCodes(std::string)`. -/
def CountryCodes.parse (codes : Bytes) : Except Thrown CountryCodes :=
  if codes = [] then .ok none
  else do
    let codes ← (splitString codes (str ",")).mapM CountryCode.parse
    return some codes

/-! ## Dates -/

/-- The members of a defined `Date`. -/
structure DateParts where
  code : UInt32
  day : UInt8
  month : UInt8
  year : UInt16
  deriving DecidableEq, Repr

abbrev Date := Option DateParts

/-- The members of an undefined `Date`. -/
def DateParts.zero : DateParts := ⟨0, 0, 0, 0⟩

/-- `date_to_int`: the digits of `2016-06-16`, read by `std::stol` into a `uint32_t`. -/
def dateToInt (date : Bytes) : Except Thrown UInt32 :=
  let wrong (date : Bytes) : Except Thrown UInt32 :=
    raise (str "wrong date format:'" ++ date ++ str "'\n")
  if date.length ≠ 10 then wrong date
  else if date[4]? ≠ some 45 ∨ date[7]? ≠ some 45 then wrong date
  else
    let date := (date.eraseIdx 4).eraseIdx 6
    match stol date with
    | some v => .ok (UInt32.ofInt v)
    | none => wrong date

/-- The members computed from the code. -/
def DateParts.ofCode (code : UInt32) : DateParts :=
  ⟨code, (code % 100).toUInt8, (code / 100 % 100).toUInt8, (code / 10000).toUInt16⟩

/-- `Date(std::string)`. -/
def Date.parse (date : Bytes) : Except Thrown Date :=
  if date = [] then .ok none
  else do
    let code ← dateToInt date
    return some (DateParts.ofCode code)

/-- `Date::get_code`. -/
def Date.getCode (d : Date) : Except Thrown UInt32 :=
  match d with
  | some d => .ok d.code
  | none => raise (str "Date parameter not defined\n")

/-- `int_to_date`. The year is not filled up with zeros. -/
def intToDate (date : UInt32) : Except Thrown Bytes :=
  if date = 0 then
    .error (.error ⟨str "wrong date code:'" ++ Decimal.decimal date.toNat ++ str "'\n", .internalError⟩)
  else
    let year : UInt16 := (date / 10000).toUInt16
    let month : UInt16 := ((date - year.toUInt32 * 10000) / 100).toUInt16
    let day : UInt16 := (date - year.toUInt32 * 10000 - month.toUInt32 * 100).toUInt16
    let field (n : UInt16) : Bytes := (if n < 10 then str "0" else []) ++ Decimal.decimal n.toNat
    .ok (Decimal.decimal year.toNat ++ str "-" ++ field month ++ str "-" ++ field day)

/-- `operator<` on dates. -/
def Date.lt (d1 d2 : Date) : Bool :=
  match d1, d2 with
  | some d1, some d2 => d1.code < d2.code
  | _, _ => false

/-- `operator>` on dates. -/
def Date.gt (d1 d2 : Date) : Bool :=
  match d1, d2 with
  | some d1, some d2 => d1.code > d2.code
  | _, _ => false

/-- `utils::rdn`, in the arithmetic of `int`. -/
def rdn (y m d : ℤ) : ℤ :=
  let (y, m) := if m < 3 then (y - 1, m + 12) else (y, m)
  365 * y + y.tdiv 4 - y.tdiv 100 + y.tdiv 400 + (153 * m - 457).tdiv 5 + d - 306

/-- `utils::days_between_dates`. -/
def daysBetweenDates (date1 date2 : DateParts) : UInt32 :=
  let days (d : DateParts) := UInt32.ofInt (rdn d.year.toNat d.month.toNat d.day.toNat)
  days date2 - days date1

/-- `Date::days_after`. -/
def Date.daysAfter (d date : Date) : UInt32 := daysBetweenDates (date.getD .zero) (d.getD .zero)

/-- The table of `utils::day_of_week`. -/
def dayTable : List ℤ := [0, 3, 2, 5, 0, 3, 5, 1, 4, 6, 2, 4]

/-- `utils::day_of_week`. `stray` stands for what lies before and behind the table `t` in memory. -/
def dayOfWeek (stray : ℤ → UInt8) (d m : UInt8) (y : UInt16) : UInt8 :=
  let y : UInt16 := y - (if m < 3 then 1 else 0)
  let t : ℤ := if 1 ≤ m ∧ m ≤ 12 then dayTable.getD (m.toNat - 1) 0 else (stray (m.toNat - 1)).toNat
  let y : ℤ := y.toNat
  let res := (y + y.tdiv 4 - y.tdiv 100 + y.tdiv 400 + t + d.toNat).tmod 7
  if res = 0 then 6 else UInt8.ofInt (res - 1)

/-- `Date::day_of_week`, also of an undefined date. -/
def Date.dayOfWeek (stray : ℤ → UInt8) (d : Date) : UInt8 :=
  let d := d.getD .zero
  DealsServer.dayOfWeek stray d.day d.month d.year

/-! ## Weekdays, numbers, booleans -/

abbrev Weekdays := Option UInt8

/-- `utils::days`. -/
def days : List String := ["mon", "tue", "wed", "thu", "fri", "sat", "sun"]

/-- `day_of_week_bitmask_from_str`; an unknown day is bit 7. -/
def dayOfWeekBitmaskFromStr (weekday : Bytes) : UInt8 :=
  1 <<< (days.findIdx fun day => str day = toLowerCase weekday).toUInt8

/-- `day_of_week_str_from_bitmask`; the last of `utils::days` is the empty string. -/
def dayOfWeekStrFromBitmask (code : UInt8) : Bytes :=
  match [1, 2, 4, 8, 16, 32, 64].findIdx? (· = code) with
  | some i => str (days.getD i "")
  | none => []

/-- The loop of `weekdays_bitmask`. -/
def weekdaysLoop (daysOfWeek : Bytes) : List Bytes → UInt8 → Except Thrown UInt8
  | [], result => .ok result
  | day :: rest, result =>
    let daymask := dayOfWeekBitmaskFromStr day
    if daymask > 64 then
      raise (str "Bad day '" ++ day ++ str "' in [" ++ daysOfWeek ++ str "]\n")
    else weekdaysLoop daysOfWeek rest (result ||| daymask)

/-- `weekdays_bitmask`. -/
def weekdaysBitmask (daysOfWeek : Bytes) : Except Thrown UInt8 :=
  if daysOfWeek = [] then raise (str "Day of week undefined\n")
  else do
    let result ← weekdaysLoop daysOfWeek (splitString daysOfWeek (str ",")) 0
    if result = 0 then raise (str "Cannot parse days of week:" ++ daysOfWeek ++ str "\n")
    return result

/-- `Weekdays(std::string)`. -/
def Weekdays.parse (wd : Bytes) : Except Thrown Weekdays :=
  if wd = [] then .ok none
  else do
    let bitmask ← weekdaysBitmask wd
    return some bitmask

/-- `Weekdays(Date)`: the bit of the day. -/
def Weekdays.ofDate (stray : ℤ → UInt8) (date : Date) : UInt8 := 1 <<< date.dayOfWeek stray

abbrev Number := Option UInt32

/-- `Number(std::string)`; the exceptions of `std::stol` are no `types::Error`. -/
def Number.parse (number : Bytes) : Except Thrown Number :=
  if number = [] then .ok none
  else
    match stol number with
    | some v => .ok (some (UInt32.ofInt v))
    | none => .error .other

/-- `Number::get_value`. -/
def Number.getValue (n : Number) : Except Thrown UInt32 :=
  match n with
  | some v => .ok v
  | none => raise (str "Number value not defined\n")

abbrev Boolean := Option Bool

/-- `Boolean(std::string)`. -/
def Boolean.parse (param : Bytes) : Except Thrown Boolean :=
  if param = [] then .ok none
  else if toLowerCase param = str "true" then .ok (some true)
  else if toLowerCase param = str "false" then .ok (some false)
  else raise (str "Not a boolean type:" ++ param ++ str "\n")

/-- `Boolean::isTrue`. -/
def Boolean.isTrue (b : Boolean) : Except Thrown Bool :=
  match b with
  | some v => .ok v
  | none => raise (str "Boolean value not defined\n")

/-! ## Optional and required parameters -/

/-- What `catch (Error err)` of the parameter constructors throws instead. -/
def wrapError {α : Type} (name : Bytes) : Except Thrown α → Except Thrown α
  | .error (.error err) => raise (str "Bad parameter:" ++ name ++ str ". " ++ err.message)
  | res => res

/-- `Optional<Base>(params, name)`. -/
def optionalParam {α : Type} (parse : Bytes → Except Thrown (Option α)) (params : ObjectMap) (name : String) :
    Except Thrown (Option α) :=
  wrapError (str name) (parse (params.get (str name)))

/-- `Required<Base>(params, name)`: the value, which is defined. -/
def requiredParam {α : Type} (parse : Bytes → Except Thrown (Option α)) (params : ObjectMap) (name : String) :
    Except Thrown α :=
  wrapError (str name) (do
    match ← parse (params.get (str name)) with
    | some v => return v
    | none => raise (str "Must be defined\n"))

end DealsServer
