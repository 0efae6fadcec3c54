import DealsServer.Spec.Table

/-!
# Processes that share a table

Any number of processes run the operations of `Table` step by step. A locked section is one step; mapping
a page, copying records into it and reading its elements are steps of their own, and so is each loop turn
of `processRecords`. Other tables may raise `global_expire_at`.
-/

namespace DealsServer

/-- An operation of a process. -/
inductive Op (α : Type)
  | addRecord (records : List α) (lifetime : ℕ)
  | processRecords
  | cleanup
  | getElementData (place : Location)

/-- Where a process stands in its operation. -/
inductive Pc (α : Type)
  | idle
  | release (op : Op α)
  | drop (op : Op α)
  | locked (op : Op α)
  | openPage (r : Reservation) (records : List α)
  | copy (o : ℕ) (r : Reservation) (records : List α)
  | scan (todo : List ℕ)
  | scanPage (name : Bytes) (o idx : ℕ) (todo : List ℕ)
  | closePages
  | openElement (place : Location)
  | readElement (o : ℕ) (place : Location)

structure Process (α : Type) where
  own : TableLocal
  pc : Pc α

/-- The table and its processes. -/
structure Processes (α : Type) where
  shared : SharedMemory α
  globalExpireAt : ℕ
  processes : ℕ → Process α

/-- Who acts: a process, which begins `op` if it is idle, or another table with the same context. -/
inductive Actor (α : Type)
  | process (pid : ℕ) (op : Op α)
  | otherTable (value : ℕ)

/-- One step, with the clock, the answer of `isMemLow` and how attempts to map pages end. -/
structure Action (α : Type) where
  now : ℕ
  memLow : Bool
  opens : Bytes → OpenResult
  actor : Actor α

variable {α : Type} [Inhabited α] (cfg : TableConfig)

/-- All-zero shared memory and processes that have just started. -/
def Processes.init : Processes α := ⟨.init, 0, fun _ => ⟨.init, .idle⟩⟩

/-- The first step of an operation. -/
def Op.begin : Op α → Pc α
  | addRecord records lifetime => .release (.addRecord records lifetime)
  | processRecords => .release .processRecords
  | cleanup => .locked .cleanup
  | getElementData place => .openElement place

/-- The locked section of an operation. -/
def lockedStep (v : View α) (op : Op α) (a : Action α) : Option TableError × Pc α × View α :=
  match op with
  | .addRecord records lifetime =>
    match v.reserve cfg a.now a.memLow records.length lifetime with
    | (.error err, v) => (some err, .idle, v)
    | (.ok r, v) => (none, .openPage r records, v)
  | .processRecords => (none, .scan (v.recordsToScan cfg a.now), v)
  | .cleanup =>
    match cleanupLoop cfg a.opens cfg.tableMaxPages 0 v with
    | (some err, v) => (some err, .idle, v)
    | (none, v) => (none, .closePages, v)
  | .getElementData place => (none, .openElement place, v)

/-- One step of a process: the exception it ends its operation with, where it stands next, and the table as
it sees it then. -/
def processStep (v : View α) (pc : Pc α) (op : Op α) (a : Action α) : Option TableError × Pc α × View α :=
  match pc with
  | .idle => (none, op.begin, v)
  | .release op =>
    if v.checkDue a.now then
      match v.releaseLocked cfg a.now a.opens with
      | (some err, v) => (some err, .idle, v)
      | (none, v) => (none, .drop op, v)
    else (none, .locked op, v)
  | .drop op => (none, .locked op, v.dropUnlinked)
  | .locked op => lockedStep cfg v op a
  | .openPage r records =>
    match v.getPageByName (cfg.pageName r.idx) (a.opens (cfg.pageName r.idx)) with
    | (.error err, v) => (some err, .idle, v)
    | (.ok o, v) => (none, .copy o r records, v)
  | .copy o r records => (none, .idle, { v with shared := v.shared.copy o r.start records })
  | .scan [] => (none, .idle, v)
  | .scan (idx :: todo) =>
    let name := (v.shared.index idx).pageName
    match v.getPageByName name (a.opens name) with
    | (.error err, v) => (some err, .idle, v)
    | (.ok o, v) => (none, .scanPage name o idx todo, v)
  | .scanPage _ _ _ todo => (none, .scan todo, v)
  | .closePages => (none, .idle, v.releaseOpenPages)
  | .openElement place =>
    match v.getPageByName place.pageName (a.opens place.pageName) with
    | (.error err, v) => (some err, .idle, v)
    | (.ok o, v) => (none, .readElement o place, v)
  | .readElement _ _ => (none, .idle, v)

/-- The table as a process sees it. -/
def Processes.view (s : Processes α) (pid : ℕ) : View α := ⟨s.shared, s.globalExpireAt, (s.processes pid).own⟩

/-- The state after a process has moved. -/
def Processes.put (s : Processes α) (pid : ℕ) (pc : Pc α) (v : View α) : Processes α :=
  ⟨v.shared, v.globalExpireAt, Function.update s.processes pid ⟨v.own, pc⟩⟩

/-- What a step does and throws. -/
def Processes.exec (s : Processes α) (a : Action α) : Option TableError × Processes α :=
  match a.actor with
  | .process pid op =>
    let (err, pc, v) := processStep cfg (s.view pid) (s.processes pid).pc op a
    (err, s.put pid pc v)
  | .otherTable value => (none, { s with globalExpireAt := max s.globalExpireAt value })

/-- **One step of the system.** -/
def Processes.step (s : Processes α) (a : Action α) : Processes α := (s.exec cfg a).2

/-- The elements a process reads in its next step: the page, the object mapped for it, and the slots. -/
def Processes.reading (s : Processes α) (pid : ℕ) : Option (Bytes × ℕ × ℕ × ℕ) :=
  match (s.processes pid).pc with
  | .scanPage name o idx _ => some (name, o, 0, (s.shared.index idx).used cfg)
  | .readElement o place => some (place.pageName, o, place.index.toNat, place.size.toNat)
  | _ => none

end DealsServer
