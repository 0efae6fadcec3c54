import DealsServer.Spec.AddDeal

/-!
# Tables (`shared_memory.tpp`, `Table`)

The locked sections of `Table` first, then its operations as one process runs them to the end. A clock
is an argument of the section that reads it; `opens` tells how an attempt to map a page ends.
-/

namespace DealsServer

variable {α : Type} [Inhabited α] (cfg : TableConfig)

/-! ## Entries of the index -/

namespace TablePageIndexElement

/-- `clear_index_record`. -/
def clear (record : TablePageIndexElement) : TablePageIndexElement :=
  { record with expireAt := 0, pageElementsAvailable := cfg.maxElementsInPage }

/-- `clear_index_record_full`. -/
def clearFull : TablePageIndexElement := ⟨0, cfg.maxElementsInPage, []⟩

/-- `memcpy` of a name into the field, without a zero behind it. -/
def copyName (record : TablePageIndexElement) (name : Bytes) : TablePageIndexElement :=
  { record with pageName := name ++ record.pageName.drop name.length }

/-- `update_record_expire`. -/
def updateExpire (record : TablePageIndexElement) (now lifetime : ℕ) : TablePageIndexElement :=
  let expireTime := (now + if lifetime ≠ 0 then lifetime else cfg.recordExpireSeconds) % 2 ^ 32
  if expireTime > record.expireAt then { record with expireAt := expireTime } else record

/-- The slots of the page that were handed out. -/
def used (record : TablePageIndexElement) : ℕ := subWord cfg.maxElementsInPage record.pageElementsAvailable

end TablePageIndexElement

/-! ## `release_expired_memory_pages` -/

/-- The loop that looks for the last page still needed, over `n` entries from `idx` on: where it stops, and
the last such page. -/
def lastData (index : ℕ → TablePageIndexElement) (globalExpireAt now : ℕ) : ℕ → ℕ → ℕ → ℕ × ℕ
  | 0, idx, last => (idx, last)
  | n + 1, idx, last =>
    let removeAt := ((index idx).expireAt + removeExpiredPagesDelaySec) % 2 ^ 32
    let last := if (index idx).expireAt > 0 ∧ removeAt > now ∧ removeAt > globalExpireAt then idx else last
    if (index idx).expireAt = 0 then (idx, last) else lastData index globalExpireAt now n (idx + 1) last

/-- Mark the page of an entry, unlink its name and clear the entry. -/
def View.unlinkEntry (v : View α) (idx : ℕ) (opens : Bytes → OpenResult) : Option TableError × View α :=
  let name := (v.shared.index idx).pageName
  match v.getPageByName name (opens name) with
  | (.error err, v) => (some err, v)
  | (.ok o, v) =>
    (none, { v with shared := ((v.shared.markUnlinked o).unlink name).setEntry idx (.clearFull cfg) })

/-- The loop that releases the pages behind the last one needed, from `idx` down, at most `n` of them. -/
def releaseLoop (opens : Bytes → OpenResult) (last : ℕ) : ℕ → ℕ → View α → Option TableError × View α
  | 0, _, v => (none, v)
  | n + 1, idx, v =>
    if last < idx then
      match v.unlinkEntry cfg idx opens with
      | (some err, v) => (some err, v)
      | (none, v) => releaseLoop opens last n (idx - 1) v
    else (none, v)

/-- The local timer of `release_expired_memory_pages` has run out. -/
def View.checkDue (v : View α) (now : ℕ) : Bool := ¬ v.own.timeToCheckPageExpire > now

/-- The locked section of `release_expired_memory_pages`, with the local timer set before it. -/
def View.releaseLocked (v : View α) (now : ℕ) (opens : Bytes → OpenResult) : Option TableError × View α :=
  let timeToCheck := (now + checkExpiredPagesIntervalSec) % 2 ^ 32
  let v := { v with own := { v.own with timeToCheckPageExpire := timeToCheck } }
  -- the shared timer: only one process performs the maintenance
  if v.shared.expirationCheck ≤ now then
    let v := { v with shared := { v.shared with expirationCheck := timeToCheck } }
    let (idx, last) := lastData v.shared.index v.globalExpireAt now cfg.tableMaxPages 0 0
    if idx > 0 ∧ last < idx - 1 then releaseLoop cfg opens last removeExpiredPagesAtOnce (idx - 1) v
    else (none, v)
  else (none, v)

/-- The end of `release_expired_memory_pages`: unlinked pages leave `opened_pages_list`. -/
def View.dropUnlinked (v : View α) : View α :=
  { v with own := { v.own with
    openedPagesList := v.own.openedPagesList.filter fun page => ¬ (v.shared.objects page.2).unlinked } }

/-! ## `addRecord` -/

inductive PageType
  | expired
  | oldest
  | new
  | current
  | unknown
  deriving DecidableEq, Repr

/-- The loop that looks for a page, over `n` entries from `idx` on: what kind of page it stops at, its
entry, and the entry that expires first of those it has passed. -/
def choosePage (index : ℕ → TablePageIndexElement) (now count : ℕ) : ℕ → ℕ → ℕ → ℕ → PageType × ℕ × ℕ
  | 0, idx, _, minIdx => (.unknown, idx, minIdx)
  | n + 1, idx, expireMin, minIdx =>
    let record := index idx
    let (expireMin, minIdx) :=
      if record.expireAt > 0 ∧ expireMin > record.expireAt then (record.expireAt, idx) else (expireMin, minIdx)
    if record.expireAt > 0 ∧ record.expireAt < now then (.expired, idx, minIdx)
    else if record.expireAt > 0 ∧ record.pageElementsAvailable ≥ count then (.current, idx, minIdx)
    else if record.expireAt = 0 then (.new, idx, minIdx)
    else choosePage index now count n (idx + 1) expireMin minIdx

/-- The slots that `addRecord` hands out: the kind of page, its entry, and the first slot. -/
structure Reservation where
  type : PageType
  idx : ℕ
  start : ℕ
  deriving DecidableEq, Repr

/-- The page that `addRecord` takes, once `isMemLow` is asked. -/
def View.selectPage (v : View α) (now : ℕ) (memLow : Bool) (count : ℕ) : PageType × ℕ :=
  let (type, idx, minIdx) := choosePage v.shared.index now count cfg.tableMaxPages 0 (2 ^ 32 - 1) 0
  if type = .new ∧ memLow then (.oldest, minIdx) else (type, idx)

/-- `update_global_expire`. -/
def View.updateGlobalExpire (v : View α) (value : ℕ) : View α :=
  if v.globalExpireAt < value then { v with globalExpireAt := value } else v

/-- The record of the page, made ready for new records. -/
def readyRecord (type : PageType) (idx : ℕ) (record : TablePageIndexElement) : TablePageIndexElement :=
  match type with
  | .new => (record.copyName (cfg.pageName idx)).clear cfg
  | .oldest | .expired => record.clear cfg
  | _ => record

/-- `checkRecord` and the locked section of `addRecord`. -/
def View.reserve (v : View α) (now : ℕ) (memLow : Bool) (count lifetime : ℕ) :
    Except TableError Reservation × View α :=
  if count > cfg.maxElementsInPage then (.error (.recordSizeToBig count), v)
  else
    let (type, idx) := v.selectPage cfg now memLow count
    if type = .unknown then (.error .noSpaceToInsert, v)
    else
      let v := if type = .oldest then v.updateGlobalExpire (v.shared.index idx).expireAt else v
      let record := readyRecord cfg type idx (v.shared.index idx)
      let start := record.used cfg
      let record := { record with pageElementsAvailable := subWord record.pageElementsAvailable count }
      let record := record.updateExpire cfg now lifetime
      (.ok ⟨type, idx, start⟩, { v with shared := v.shared.setEntry idx record })

/-! ## `processRecords` and `cleanup` -/

/-- The locked section of `processRecords`, over `n` entries from `idx` on. -/
def recordsToScan (index : ℕ → TablePageIndexElement) (globalExpireAt now : ℕ) : ℕ → ℕ → List ℕ
  | 0, _ => []
  | n + 1, idx =>
    if (index idx).expireAt = 0 then []
    else if (index idx).expireAt > now ∧ (index idx).expireAt > globalExpireAt then
      idx :: recordsToScan index globalExpireAt now n (idx + 1)
    else recordsToScan index globalExpireAt now n (idx + 1)

/-- The records selected at the clock `now`. -/
def View.recordsToScan (v : View α) (now : ℕ) : List ℕ :=
  DealsServer.recordsToScan v.shared.index v.globalExpireAt now cfg.tableMaxPages 0

/-- The locked section of `cleanup`, over `n` entries from `idx` on. -/
def cleanupLoop (opens : Bytes → OpenResult) : ℕ → ℕ → View α → Option TableError × View α
  | 0, _, v => (none, v)
  | n + 1, idx, v =>
    if (v.shared.index idx).expireAt > 0 then
      match v.unlinkEntry cfg idx opens with
      | (some err, v) => (some err, v)
      | (none, v) => cleanupLoop opens n (idx + 1) v
    else (none, v)

/-- `release_open_pages`. -/
def View.releaseOpenPages (v : View α) : View α := { v with own := { v.own with openedPagesList := [] } }

/-! ## The operations of one process -/

/-- What an operation meets: the clock of `release_expired_memory_pages` and whether its lock is got in time, its
own clock and lock, the answer of `isMemLow`, and how attempts to map pages end. -/
structure Calls where
  releaseNow : ℕ
  releaseLock : Bool
  now : ℕ
  lock : Bool
  memLow : Bool
  opens : Bytes → OpenResult

namespace View

/-- `release_expired_memory_pages`. -/
def releaseExpiredMemoryPages (v : View α) (c : Calls) : Option TableError × View α :=
  if v.checkDue c.releaseNow then
    if c.releaseLock then
      match v.releaseLocked cfg c.releaseNow c.opens with
      | (some err, v) => (some err, v)
      | (none, v) => (none, v.dropUnlinked)
    else
      let timeToCheck := (c.releaseNow + checkExpiredPagesIntervalSec) % 2 ^ 32
      (some .cantLock, { v with own := { v.own with timeToCheckPageExpire := timeToCheck } })
  else (none, v)

/-- `addRecord`. The size is checked before the lock is taken. -/
def addRecord (v : View α) (c : Calls) (records : List α) (lifetime : ℕ) : Except TableError Location × View α :=
  match v.releaseExpiredMemoryPages cfg c with
  | (some err, v) => (.error err, v)
  | (none, v) =>
    if ¬ c.lock ∧ records.length ≤ cfg.maxElementsInPage then (.error .cantLock, v)
    else
      match v.reserve cfg c.now c.memLow records.length lifetime with
      | (.error err, v) => (.error err, v)
      | (.ok r, v) =>
        match v.getPageByName (cfg.pageName r.idx) (c.opens (cfg.pageName r.idx)) with
        | (.error err, v) => (.error err, v)
        | (.ok o, v) =>
          (.ok ⟨cfg.pageName r.idx, r.start.toUInt32, records.length.toUInt32⟩,
            { v with shared := v.shared.copy o r.start records })

/-- The elements of a page, from `start` on. -/
def readElements (v : View α) (o start size : ℕ) : List α :=
  (List.range size).map fun i => (v.shared.objects o).elements (start + i)

/-- The loop of `processRecords` over the selected records. -/
def scanLoop (opens : Bytes → OpenResult) : List ℕ → View α → Except TableError (List α) × View α
  | [], v => (.ok [], v)
  | idx :: rest, v =>
    let record := v.shared.index idx
    match v.getPageByName record.pageName (opens record.pageName) with
    | (.error err, v) => (.error err, v)
    | (.ok o, v) =>
      match scanLoop opens rest v with
      | (.error err, v') => (.error err, v')
      | (.ok elements, v') => (.ok (v.readElements o 0 (record.used cfg) ++ elements), v')

/-- `processRecords`: the elements given to `process_element`, in their order. -/
def processRecords (v : View α) (c : Calls) : Except TableError (List α) × View α :=
  match v.releaseExpiredMemoryPages cfg c with
  | (some err, v) => (.error err, v)
  | (none, v) => if c.lock then v.scanLoop cfg c.opens (v.recordsToScan cfg c.now) else (.error .cantLock, v)

/-- `cleanup`. -/
def cleanup (v : View α) (c : Calls) : Option TableError × View α :=
  if c.lock then
    match cleanupLoop cfg c.opens cfg.tableMaxPages 0 v with
    | (some err, v) => (some err, v)
    | (none, v) => (none, v.releaseOpenPages)
  else (some .cantLock, v)

/-- `ElementExtractor::get_element_data` and the reading of `size` elements. -/
def getElementData (v : View α) (place : Location) (opens : Bytes → OpenResult) :
    Except TableError (List α) × View α :=
  match v.getPageByName place.pageName (opens place.pageName) with
  | (.error err, v) => (.error err, v)
  | (.ok o, v) => (.ok (v.readElements o place.index.toNat place.size.toNat), v)

end View

end DealsServer
