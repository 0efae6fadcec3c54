import DealsServer.Lib.Semaphore
import DealsServer.Spec.Table

/-!
# Locks (`locks.cpp`, and `shared_memory.tpp` statement by statement)

`CriticalSection` and the operations of `Table` as programs on named semaphores. A statement that touches shared memory
is one step, and so is each turn of a loop. `AutoCloser` is a scope with a destructor. Each statement may be made to
throw, so what is only written to the log is left out where it stands next to another statement.
-/

namespace DealsServer

open Semaphore

/-- The index, the pages, and `global_expire_at` of the context. -/
structure TableMemory (α : Type) where
  memory : SharedMemory α
  globalExpireAt : ℕ

/-- What a statement meets: the clock, the answer of `isMemLow`, and how attempts to map pages end. -/
structure Meets where
  now : ℕ
  memLow : Bool
  opens : Bytes → OpenResult

/-- `CriticalSection`; the semaphore is known by its name. -/
structure CriticalSection where
  name : Bytes
  unlockNeeded : Bool
  deriving DecidableEq, Repr

/-- What a process has of a table. -/
structure Table where
  own : TableLocal
  lock : CriticalSection
  deriving DecidableEq, Repr

/-- The exception that is thrown. -/
def TableError.thrown (err : TableError) : Error := ⟨err.message, .internalError⟩

/-- Code of a process with the state `τ`. -/
abbrev LockCode (α τ β : Type) := Code (TableMemory α) Meets Bytes Error τ β

variable {α τ β : Type}

/-! ## `CriticalSection` -/

namespace CriticalSection

/-- `semaphore_accuire`. -/
def semaphoreAccuire : LockCode α CriticalSection Unit := do
  let cs ← Code.get
  let served ← Code.wait cs.name
  if served then pure () else Code.throw ⟨str "CANT_LOCK\n", .internalError⟩

/-- `semaphore_release`. -/
def semaphoreRelease : LockCode α CriticalSection Unit := do
  let cs ← Code.get
  let served ← Code.post cs.name
  if served then pure () else Code.throw ⟨str "CANT_SEM_POST\n", .internalError⟩

/-- `enter`. -/
def enter : LockCode α CriticalSection Unit := do
  semaphoreAccuire
  Code.modify fun cs => { cs with unlockNeeded := true }

/-- `exit`. -/
def exit : LockCode α CriticalSection Unit := do
  let cs ← Code.get
  (if cs.unlockNeeded then semaphoreRelease else pure ())
  Code.modify fun cs => { cs with unlockNeeded := false }

/-- `~CriticalSection`. -/
def destroy : LockCode α CriticalSection Unit := do
  let cs ← Code.get
  if cs.unlockNeeded then semaphoreRelease else pure ()

end CriticalSection

/-! ## Pages -/

variable [Inhabited α]

/-- The constructor of `SharedMemoryPage`, from its first `shm_open` on. -/
def SharedMemory.mapPage (sh : SharedMemory α) (name : Bytes) (res : OpenResult) :
    Except TableError ℕ × SharedMemory α :=
  if res = .cannotOpen then (.error .cannotOpenShmemPage, sh)
  else
    match sh.names name with
    | none =>
      match res with
      | .lowMemory => (.error .lowShmem, sh.create name false)
      | .cannotTruncate => (.error .createShmemPage, sh)
      | .cannotMap => (.error .shmemMapFailed, sh.create name true)
      | _ => (.ok sh.nextObject, sh.create name true)
    | some o =>
      if (sh.objects o).sized = false then (.error .wrongShmemPageSize, sh.unlink name)
      else if res = .cannotMap then (.error .shmemMapFailed, sh)
      else (.ok o, sh)

/-- A statement that looks at shared memory. -/
def look (f : Meets → TableMemory α → β) : LockCode α τ β := Code.stmt fun i s own => (.ok (f i s), s, own)

/-- A statement that writes to shared memory. -/
def write (f : SharedMemory α → SharedMemory α) : LockCode α τ Unit :=
  Code.stmt fun _ s own => (.ok (), { s with memory := f s.memory }, own)

/-- The constructor of `CriticalSection` may fail. -/
def openSemaphore (name : Bytes) : LockCode α τ Unit :=
  Code.stmt fun i s own =>
    (if i.opens name = .noSemaphore then .error TableError.lockSemFailed.thrown else .ok (), s, own)

/-- The page is created or opened, and mapped. -/
def mapPage (name : Bytes) : LockCode α τ ℕ :=
  Code.stmt fun i s own =>
    let (result, memory) := s.memory.mapPage name (i.opens name)
    (result.mapError TableError.thrown, { s with memory }, own)

/-- The constructor of `SharedMemoryPage`. Its lock is released by the destructor. -/
def sharedMemoryPage (name : Bytes) : LockCode α Table ℕ :=
  if name = [] then Code.throw TableError.emptyPageName.thrown
  else if name.length > mempageNameMaxLen - 6 then Code.throw TableError.longPageName.thrown
  else do
    openSemaphore name
    Code.withObject ⟨name, false⟩ (do
      Code.zoom Prod.snd (fun cslock x => (x.1, cslock)) CriticalSection.enter
      mapPage name) CriticalSection.destroy

namespace Table

/-- `lock.enter()`. -/
def enter : LockCode α Table Unit :=
  Code.zoom Table.lock (fun cs table => { table with lock := cs }) CriticalSection.enter

/-- `lock.exit()`. -/
def exit : LockCode α Table Unit :=
  Code.zoom Table.lock (fun cs table => { table with lock := cs }) CriticalSection.exit

/-- The rest of the scope of an `AutoCloser` for the lock. -/
def autoClosed (m : LockCode α Table β) : LockCode α Table β := Code.guarded m exit

/-- `getPageByName`. -/
def getPageByName (name : Bytes) : LockCode α Table ℕ := do
  let table ← Code.get
  match table.own.localGetPageByName name with
  | some o => pure o
  | none => do
    let o ← sharedMemoryPage name
    Code.modify fun table =>
      { table with own := { table.own with openedPagesList := table.own.openedPagesList ++ [(name, o)] } }
    pure o

/-- An entry of the index. -/
def entry (idx : ℕ) : LockCode α Table TablePageIndexElement := look fun _ s => s.memory.index idx

/-- `timing::getTimestampSec()`. -/
def timestampSec : LockCode α Table ℕ := look fun i _ => i.now

variable (cfg : TableConfig)

/-! ## `release_expired_memory_pages` -/

/-- The loop that looks for the last page still needed. -/
def lastDataLoop (now : ℕ) : ℕ → ℕ → ℕ → LockCode α Table (ℕ × ℕ)
  | 0, idx, last => pure (idx, last)
  | n + 1, idx, last => do
    let record ← entry idx
    let globalExpireAt ← look fun _ s => s.globalExpireAt
    let removeAt := (record.expireAt + removeExpiredPagesDelaySec) % 2 ^ 32
    let last := if record.expireAt > 0 ∧ removeAt > now ∧ removeAt > globalExpireAt then idx else last
    if record.expireAt = 0 then pure (idx, last) else lastDataLoop now n (idx + 1) last

/-- Mark the page of an entry, unlink its name and clear the entry. -/
def unlinkEntry (idx : ℕ) : LockCode α Table Unit := do
  let record ← entry idx
  let page ← getPageByName record.pageName
  write fun memory => memory.markUnlinked page
  write fun memory => memory.unlink record.pageName
  write fun memory => memory.setEntry idx (.clearFull cfg)

/-- The loop that releases the pages behind the last one needed, at most `n` of them. -/
def releaseLoop (last : ℕ) : ℕ → ℕ → LockCode α Table Unit
  | 0, _ => pure ()
  | n + 1, idx =>
    if last < idx then do
      unlinkEntry cfg idx
      releaseLoop last n (idx - 1)
    else pure ()

/-- The loop over `opened_pages_list` that leaves out unlinked pages. -/
def linkedPages : List (Bytes × ℕ) → LockCode α Table (List (Bytes × ℕ))
  | [] => pure []
  | page :: pages => do
    let unlinked ← look fun _ s => (s.memory.objects page.2).unlinked
    let rest ← linkedPages pages
    pure (if unlinked then rest else page :: rest)

/-- The maintenance, when the shared timer has run out. -/
def maintain (currentTime timeToCheck : ℕ) : LockCode α Table Unit := do
  write fun memory => { memory with expirationCheck := timeToCheck }
  let (idx, last) ← lastDataLoop currentTime cfg.tableMaxPages 0 0
  if idx > 0 ∧ last < idx - 1 then releaseLoop cfg last removeExpiredPagesAtOnce (idx - 1) else pure ()

/-- The end of `release_expired_memory_pages`: unlinked pages leave `opened_pages_list`. -/
def dropUnlinked : LockCode α Table Unit := do
  let table ← Code.get
  let pages ← linkedPages table.own.openedPagesList
  Code.modify fun table => { table with own := { table.own with openedPagesList := pages } }

/-- The scope of the guard of `release_expired_memory_pages`. -/
def releaseScope (currentTime timeToCheck : ℕ) : LockCode α Table Unit := do
  let expirationCheck ← look fun _ s => s.memory.expirationCheck
  (if expirationCheck ≤ currentTime then maintain cfg currentTime timeToCheck else pure ())
  exit
  dropUnlinked

/-- `release_expired_memory_pages`. -/
def releaseExpiredMemoryPages : LockCode α Table Unit := do
  let currentTime ← timestampSec
  let table ← Code.get
  if table.own.timeToCheckPageExpire > currentTime then pure ()
  else do
    let timeToCheck := (currentTime + checkExpiredPagesIntervalSec) % 2 ^ 32
    Code.modify fun table => { table with own := { table.own with timeToCheckPageExpire := timeToCheck } }
    enter
    autoClosed (releaseScope cfg currentTime timeToCheck)

/-! ## `addRecord` -/

/-- The loop that looks for a page: what kind of page it stops at, its entry, and the entry that expires first. -/
def chooseLoop (now count : ℕ) : ℕ → ℕ → ℕ → ℕ → LockCode α Table (PageType × ℕ × ℕ)
  | 0, idx, _, minIdx => pure (.unknown, idx, minIdx)
  | n + 1, idx, expireMin, minIdx => do
    let record ← entry idx
    let (expireMin, minIdx) :=
      if record.expireAt > 0 ∧ expireMin > record.expireAt then (record.expireAt, idx) else (expireMin, minIdx)
    if record.expireAt > 0 ∧ record.expireAt < now then pure (.expired, idx, minIdx)
    else if record.expireAt > 0 ∧ record.pageElementsAvailable ≥ count then pure (.current, idx, minIdx)
    else if record.expireAt = 0 then pure (.new, idx, minIdx)
    else chooseLoop now count n (idx + 1) expireMin minIdx

/-- `update_global_expire`. -/
def updateGlobalExpire (value : ℕ) : LockCode α Table Unit :=
  Code.stmt fun _ s own => (.ok (), if s.globalExpireAt < value then { s with globalExpireAt := value } else s, own)

/-- The page that is taken: the oldest one where a new one is wanted and memory is low. -/
def takePage (type : PageType) (idx minIdx : ℕ) : LockCode α Table (PageType × ℕ) :=
  if type = .new then do
    let memLow ← look fun i _ => i.memLow
    if memLow then do
      let record ← entry minIdx
      updateGlobalExpire record.expireAt
      pure (.oldest, minIdx)
    else pure (type, idx)
  else pure (type, idx)

/-- The slots of the entry that are handed out: the first of them. -/
def reserveSlots (type : PageType) (idx currentTime count lifetime : ℕ) : LockCode α Table ℕ := do
  write fun memory => memory.setEntry idx (readyRecord cfg type idx (memory.index idx))
  let record ← entry idx
  write fun memory => memory.setEntry idx { memory.index idx with
    pageElementsAvailable := subWord (memory.index idx).pageElementsAvailable count }
  write fun memory => memory.setEntry idx ((memory.index idx).updateExpire cfg currentTime lifetime)
  pure (record.used cfg)

/-- The scope of the guard of `addRecord`. -/
def addScope (currentTime : ℕ) (records : List α) (lifetime : ℕ) : LockCode α Table Location := do
  let (type, idx, minIdx) ← chooseLoop currentTime records.length cfg.tableMaxPages 0 (2 ^ 32 - 1) 0
  let (type, idx) ← takePage type idx minIdx
  if type = .unknown then Code.throw TableError.noSpaceToInsert.thrown
  else do
    let start ← reserveSlots cfg type idx currentTime records.length lifetime
    exit
    let page ← getPageByName (cfg.pageName idx)
    write fun memory => memory.copy page start records
    pure ⟨cfg.pageName idx, start.toUInt32, records.length.toUInt32⟩

/-- `addRecord`. -/
def addRecord (records : List α) (lifetime : ℕ) : LockCode α Table Location := do
  releaseExpiredMemoryPages cfg
  if records.length > cfg.maxElementsInPage then Code.throw (TableError.recordSizeToBig records.length).thrown
  else do
    let currentTime ← timestampSec
    enter
    autoClosed (addScope cfg currentTime records lifetime)

/-! ## `processRecords` and `cleanup` -/

/-- The loop that selects records. -/
def selectLoop (now : ℕ) : ℕ → ℕ → LockCode α Table (List ℕ)
  | 0, _ => pure []
  | n + 1, idx => do
    let record ← entry idx
    let globalExpireAt ← look fun _ s => s.globalExpireAt
    if record.expireAt = 0 then pure []
    else do
      let rest ← selectLoop now n (idx + 1)
      pure (if record.expireAt > now ∧ record.expireAt > globalExpireAt then idx :: rest else rest)

/-- The loop over the elements of a page, from `i` on; `process_element` is given each of them. -/
def elementLoop (page : ℕ) : ℕ → ℕ → LockCode α Table (List α)
  | 0, _ => pure []
  | n + 1, i => do
    let element ← look fun _ s => (s.memory.objects page).elements i
    let rest ← elementLoop page n (i + 1)
    pure (element :: rest)

/-- The loop over the selected records. -/
def scanLoop : List ℕ → LockCode α Table (List α)
  | [] => pure []
  | idx :: todo => do
    let record ← entry idx
    let page ← getPageByName record.pageName
    let record ← entry idx
    let elements ← elementLoop page (record.used cfg) 0
    let rest ← scanLoop todo
    pure (elements ++ rest)

/-- `processRecords`: the elements given to `process_element`, in their order. -/
def processRecords : LockCode α Table (List α) := do
  releaseExpiredMemoryPages cfg
  let timestampNow ← timestampSec
  enter
  autoClosed do
    let records ← selectLoop timestampNow cfg.tableMaxPages 0
    exit
    scanLoop cfg records

/-- The loop of `cleanup`. -/
def cleanupLoop : ℕ → ℕ → LockCode α Table Unit
  | 0, _ => pure ()
  | n + 1, idx => do
    let record ← entry idx
    if record.expireAt > 0 then do
      unlinkEntry cfg idx
      cleanupLoop n (idx + 1)
    else pure ()

/-- `cleanup`. -/
def cleanup : LockCode α Table Unit := do
  enter
  autoClosed do
    cleanupLoop cfg cfg.tableMaxPages 0
    exit
    Code.modify fun table => { table with own := { table.own with openedPagesList := [] } }

end Table

/-! ## The operations -/

/-- A call on the table. -/
inductive TableCall (α : Type)
  | addRecord (records : List α) (lifetime : ℕ)
  | processRecords
  | cleanup
  | releaseExpiredMemoryPages

/-- The code of a call, without its result. -/
def TableCall.code (cfg : TableConfig) : TableCall α → LockCode α Table Unit
  | addRecord records lifetime => do
    let _ ← Table.addRecord cfg records lifetime
    pure ()
  | processRecords => do
    let _ ← Table.processRecords cfg
    pure ()
  | cleanup => Table.cleanup cfg
  | releaseExpiredMemoryPages => Table.releaseExpiredMemoryPages cfg

/-- `n` processes that call the table. -/
abbrev TableSystem (α : Type) (n : ℕ) :=
  System (Fin n) (TableMemory α) (Option Error × Meets) Bytes (Except Error Unit) Table

/-- One of the processes moves. -/
abbrev TableMove (α : Type) (n : ℕ) := Move (Fin n) (TableCall α) (Option Error × Meets)

/-- Processes that have constructed the table and begun no call. -/
def TableSystem.init (cfg : TableConfig) {n : ℕ} (memory : TableMemory α) (own : Fin n → TableLocal) : TableSystem α n :=
  System.init memory fun a => ⟨own a, ⟨cfg.tableName, false⟩⟩

/-- One step of the processes. -/
def TableSystem.step (cfg : TableConfig) {n : ℕ} (s : TableSystem α n) (m : TableMove α n) : TableSystem α n :=
  System.step (TableCall.code cfg) s m

end DealsServer
