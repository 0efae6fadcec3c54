import DealsServer.Spec.Http

/-!
# The body of `/deals/top` and its decoder

`writeTopResult` (`deals_server.cpp`) frames the data blocks of the deals found; `parseServerResponse`
(`test/decode.js`) takes them apart again.
-/

namespace DealsServer

open Decimal

/-- The block lengths, each with its `;`. -/
def sizesText (result : List Bytes) : Bytes :=
  result.flatMap fun data => decimal data.length ++ str ";"

/-- `sizes_strlen`: the digits of the block length, corrected once for its own digits. -/
def sizesStrlen (sizes : Bytes) : ℕ :=
  let n := (decimal sizes.length).length
  -- adding the first field itself may take one more digit
  if (decimal (sizes.length + n + 1)).length ≠ n then n + 1 else n

/-- The value of the first field of `size_info`. -/
def sizeInfoValue (sizes : Bytes) : ℕ := sizes.length + sizesStrlen sizes + 1

/-- `size_info`. -/
def sizeInfo (result : List Bytes) : Bytes :=
  decimal (sizeInfoValue (sizesText result)) ++ str ";" ++ sizesText result

/-- The body of the response for the data of a non-empty result. -/
def topBody (result : List Bytes) : Bytes := sizeInfo result ++ result.flatten

/-- `DealsServer::writeTopResult`, on the data of the deals found. -/
def writeTopResult (result : List Bytes) : HttpResponse :=
  if result = [] then
    (HttpResponse.mk 204 (str "Empty result") [] []).addHeader (str "Content-Length") (str "0")
  else
    (((HttpResponse.mk 200 (str "OK") [] []).addHeader (str "Content-Type")
      (str "application/octet-stream")).addHeader (str "Content-Length")
      (decimal (topBody result).length)).write (topBody result)

/-! ## The decoder -/

/-- A position of `Buffer.slice`: negative ones count from the end, and all are clamped. -/
def sliceIndex (len : ℕ) (i : ℤ) : ℕ := if i < 0 then (len + i).toNat else min i.toNat len

/-- `buffer.slice(start, stop)`. -/
def slice (buffer : Bytes) (start stop : ℤ) : Bytes :=
  (buffer.take (sliceIndex buffer.length stop)).drop (sliceIndex buffer.length start)

/-- `Number(text)` for blank text and for plain decimal numerals; every other text is read as `NaN`
(`none`). -/
def number (text : Bytes) : Option ℕ :=
  let digits := ((text.dropWhile isSpace).reverse.dropWhile isSpace).reverse
  if digits.all isDigit then some (decimalValue digits) else none

/-- The loop `while (pos < 100)`, from `pos` for at most `n` turns: where the first `;` is. -/
def findSemicolon (body : Bytes) : ℕ → ℕ → Option ℕ
  | 0, _ => none
  | n + 1, pos => if body[pos]? = some 0x3b then some pos else findSemicolon body n (pos + 1)

/-- `info_length`; `none` when it is undefined or not a number. -/
def infoLength (body : Bytes) : Option ℕ :=
  (findSemicolon body 100 0).bind fun pos => number (slice body 0 pos)

/-- The loop over the size fields: each block is cut off at the running `pointer`. -/
def cutBlocks (body : Bytes) : List Bytes → ℕ → Except Bytes (List Bytes)
  | [], _ => .ok []
  | field :: fields, pointer =>
    match number field with
    | none => .error (str "ERROR_DEALS_RESPONSE_SIZE_FORMAT2")
    | some size =>
      (cutBlocks body fields (pointer + size)).map (slice body pointer (pointer + size : ℕ) :: ·)

/-- `parseServerResponse`. -/
def parseServerResponse (body : Bytes) : Except Bytes (List Bytes) :=
  match infoLength body with
  | none => .error (str "ERROR_DEALS_RESPONSE_FORMAT")
  | some length =>
    match (slice body 0 (length - 1 : ℤ)).splitOn 0x3b with
    | [] => .ok []
    | first :: fields =>
      match number first with
      | none => .error (str "ERROR_DEALS_RESPONSE_SIZE_FORMAT")
      | some pointer => cutBlocks body fields pointer

end DealsServer
