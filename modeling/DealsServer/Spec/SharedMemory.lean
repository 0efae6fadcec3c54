import DealsServer.Spec.Types
import Mathlib.Logic.Function.Basic

/-!
# Shared memory pages (`shared_memory.hpp`, `SharedMemoryPage`)

What all processes share: the index of a table, the names of the pages, and the objects these names
stand for. An object outlives its name while a process still maps it. The words of the index are natural
numbers, and arithmetic that can wrap around is written modulo `2 ^ 32`.
-/

namespace DealsServer

open Decimal

/-- The arguments of the `Table` constructor. -/
structure TableConfig where
  tableName : Bytes
  tableMaxPages : ℕ
  maxElementsInPage : ℕ
  recordExpireSeconds : ℕ
  maxPages_lt : tableMaxPages < 2 ^ 16
  maxElements_lt : maxElementsInPage < 2 ^ 32

/-- The name of a page of the table. -/
def TableConfig.pageName (cfg : TableConfig) (idx : ℕ) : Bytes := cfg.tableName ++ str ":" ++ decimal idx

/-- Subtraction of words. -/
def subWord (a b : ℕ) : ℕ := (a + 2 ^ 32 - b) % 2 ^ 32

/-- `MEMPAGE_REMOVE_EXPIRED_PAGES_AT_ONCE`. -/
def removeExpiredPagesAtOnce : ℕ := 5

/-- `MEMPAGE_REMOVE_EXPIRED_PAGES_DELAY_SEC`. -/
def removeExpiredPagesDelaySec : ℕ := 60

/-- `MEMPAGE_CHECK_EXPIRED_PAGES_INTERVAL_SEC`. -/
def checkExpiredPagesIntervalSec : ℕ := 5

/-- `MEMPAGE_NAME_MAX_LEN`. -/
def mempageNameMaxLen : ℕ := 20

/-- What the table, its pages and their locks throw, each as a `types::Error` with code `InternalError`. -/
inductive TableError
  | lockSemFailed
  | cantLock
  | emptyPageName
  | longPageName
  | cannotOpenShmemPage
  | lowShmem
  | createShmemPage
  | wrongShmemPageSize
  | shmemMapFailed
  | noSpaceToInsert
  | recordSizeToBig (recordsCount : ℕ)
  deriving DecidableEq, Repr

/-- The message of the error. -/
def TableError.message : TableError → Bytes
  | lockSemFailed => str "LOCK_SEM_FAILED\n"
  | cantLock => str "CANT_LOCK\n"
  | emptyPageName => str "EMPTY_PAGE_NAME\n"
  | longPageName => str "LONG_PAGE_NAME\n"
  | cannotOpenShmemPage => str "CANNOT_OPEN_SHMEM_PAGE\n"
  | lowShmem => str "ERR_LOW_SHMEM\n"
  | createShmemPage => str "ERR_CREATE_SHMEM_PAGE\n"
  | wrongShmemPageSize => str "ERR_WRONG_SHMEM_PAGE_SIZE\n"
  | shmemMapFailed => str "ERR_SHMEM_MAP_FAILED\n"
  | noSpaceToInsert => str "addRecord::NO_SPACE_TO_INSERT\n"
  | recordSizeToBig recordsCount =>
    str "checkRecord::RECORD_SIZE_TO_BIG size:" ++ decimal recordsCount ++ str "\n"

/-- `TablePageIndexElement`; the name is what stands before the zeros of the field. -/
structure TablePageIndexElement where
  expireAt : ℕ
  pageElementsAvailable : ℕ
  pageName : Bytes
  deriving DecidableEq, Repr

/-- An object of shared memory: its size was set, it is marked as unlinked, and the elements. -/
structure Page (α : Type) where
  sized : Bool
  unlinked : Bool
  elements : ℕ → α

/-- What the processes of one table share. -/
structure SharedMemory (α : Type) where
  index : ℕ → TablePageIndexElement
  expirationCheck : ℕ
  names : Bytes → Option ℕ
  objects : ℕ → Page α
  nextObject : ℕ

/-- What a process has of its own. -/
structure TableLocal where
  openedPagesList : List (Bytes × ℕ)
  timeToCheckPageExpire : ℕ
  deriving DecidableEq, Repr

/-- The table as one process sees it; `globalExpireAt` is shared with other tables too. -/
structure View (α : Type) where
  shared : SharedMemory α
  globalExpireAt : ℕ
  own : TableLocal

/-- A process that has just started. -/
def TableLocal.init : TableLocal := ⟨[], 0⟩

variable {α : Type} [Inhabited α]

/-- Shared memory before the first page: the index is all zeros. -/
def SharedMemory.init : SharedMemory α where
  index _ := ⟨0, 0, []⟩
  expirationCheck := 0
  names _ := none
  objects _ := ⟨false, false, fun _ => default⟩
  nextObject := 0

namespace SharedMemory

/-- Write an entry of the index. -/
def setEntry (sh : SharedMemory α) (idx : ℕ) (record : TablePageIndexElement) : SharedMemory α :=
  { sh with index := Function.update sh.index idx record }

/-- `shm_open` with `O_CREAT`: a new object under the name, filled with zeros. -/
def create (sh : SharedMemory α) (name : Bytes) (sized : Bool) : SharedMemory α :=
  { sh with
    names := Function.update sh.names name (some sh.nextObject)
    objects := Function.update sh.objects sh.nextObject ⟨sized, false, fun _ => default⟩
    nextObject := sh.nextObject + 1 }

/-- `shm_unlink`. -/
def unlink (sh : SharedMemory α) (name : Bytes) : SharedMemory α :=
  { sh with names := Function.update sh.names name none }

/-- `shared_pageinfo->unlinked = true`. -/
def markUnlinked (sh : SharedMemory α) (o : ℕ) : SharedMemory α :=
  { sh with objects := Function.update sh.objects o { sh.objects o with unlinked := true } }

/-- `memcpy` of records into a page. -/
def copy (sh : SharedMemory α) (o start : ℕ) (records : List α) : SharedMemory α :=
  { sh with
    objects := Function.update sh.objects o { sh.objects o with
      elements := fun i => if start ≤ i then (records[i - start]?).getD ((sh.objects o).elements i)
        else (sh.objects o).elements i } }

end SharedMemory

/-- How an attempt to map a page ends: it is mapped, or the named call of the constructor fails. -/
inductive OpenResult
  | mapped
  | noSemaphore
  | lockTimeout
  | cannotOpen
  | lowMemory
  | cannotTruncate
  | cannotMap
  deriving DecidableEq, Repr

/-- The constructor of `SharedMemoryPage`. An object that is created and not truncated keeps its name, and
the next process to open it finds the wrong size and removes the name. -/
def SharedMemory.openPage (sh : SharedMemory α) (name : Bytes) (res : OpenResult) :
    Except TableError ℕ × SharedMemory α :=
  if name = [] then (.error .emptyPageName, sh)
  else if name.length > mempageNameMaxLen - 6 then (.error .longPageName, sh)
  else if res = .noSemaphore then (.error .lockSemFailed, sh)
  else if res = .lockTimeout then (.error .cantLock, sh)
  else if res = .cannotOpen then (.error .cannotOpenShmemPage, sh)
  else
    match sh.names name with
    | none =>
      match res with
      | .lowMemory => (.error .lowShmem, sh.create name false)
      | .cannotTruncate => (.error .createShmemPage, sh)
      | .cannotMap => (.error .shmemMapFailed, sh.create name true)
      | _ => (.ok sh.nextObject, sh.create name true)
    | some o =>
      if (sh.objects o).sized = false then (.error .wrongShmemPageSize, sh.unlink name)
      else if res = .cannotMap then (.error .shmemMapFailed, sh)
      else (.ok o, sh)

/-- `localGetPageByName`. -/
def TableLocal.localGetPageByName (own : TableLocal) (name : Bytes) : Option ℕ :=
  (own.openedPagesList.find? fun page => page.1 = name).map (·.2)

/-- `getPageByName`, with the result of opening the page if it is not open. -/
def View.getPageByName (v : View α) (name : Bytes) (res : OpenResult) : Except TableError ℕ × View α :=
  match v.own.localGetPageByName name with
  | some o => (.ok o, v)
  | none =>
    match v.shared.openPage name res with
    | (.ok o, sh) =>
      (.ok o, { v with
        shared := sh, own := { v.own with openedPagesList := v.own.openedPagesList ++ [(name, o)] } })
    | (.error err, sh) => (.error err, { v with shared := sh })

end DealsServer
