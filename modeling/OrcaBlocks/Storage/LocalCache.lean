/-
# OrcaBlocks.Storage.LocalCache — the node-local chunk cache of `pkg/storage/cache.go`.

The cache has two tiers: a memory tier (`MemoryTier`, its sections under `c.mu` are single
operations) and a directory of files named by chunk id. `put` writes a temporary file and renames it
into place, so a reader finds under a chunk id either no file or a COMPLETE one; then it evicts the
oldest files until the directory fits.

`Put` holds `c.mu` throughout. The lock is not modelled: without it there are more interleavings,
so what holds of all of them holds of the code.
-/
import OrcaBlocks.Storage.World

namespace OrcaBlocks.Storage

open OrcaBlocks.Lib

/-- Code of the storage engine: it performs operations and may return an error. -/
abbrev M := ExceptT Err (Prog sig)

/-- One operation. -/
def perform (o : Op) : Prog sig (Res o) := Prog.perform (S := sig) o

/-- An operation on memory, which cannot fail. -/
def access (o : Op) : M (Res o) := liftM (perform o)

/-- A call whose error ends the function: `if err != nil { return err }`. -/
def outside {α : Type} (call : Prog sig (Except Err α)) : M α := ExceptT.mk call

/-- A call whose error the function looks at. -/
def attempt {α : Type} (call : Prog sig (Except Err α)) : M (Except Err α) := liftM call

/-- The result of a function that performs no operation. -/
def ofResult {α : Type} (result : Except Err α) : M α := ExceptT.mk (pure result)

structure LocalCache where
  dir : Path
  maxSize : Int64
  memoryMax : Int64
  deriving DecidableEq, Repr

/-- `NewLocalCacheWithMemory`. -/
def newLocalCacheWithMemory (dir : Path) (maxSize memoryMax : Int64) : LocalCache where
  dir := dir
  maxSize := if maxSize ≤ 0 then 512 * 1024 * 1024 else maxSize
  memoryMax := memoryMax

namespace LocalCache

variable (P : Platform) (c : LocalCache)

def path (chunkID : String) : Path := filepathJoin c.dir chunkID

/-- `touch`: the error of `os.Chtimes` is dropped. -/
def touch (path : Path) : M Unit := do
  let _ : Except Err Unit ← attempt (perform (.chtimes path))
  pure ()

/-- `Get`. The answer is `none` where the source returns `nil, false, nil`. -/
def get (chunkID : String) : M (Option Bytes) := do
  let found : Option Bytes ← access (.getMemory chunkID)
  match found with
  | some b => pure (some b)
  | none =>
    let file : Except Err Bytes ← attempt (perform (.cacheReadFile (c.path chunkID)))
    match file with
    | .error .notExist => pure none
    | .error err => throw err
    | .ok b =>
      touch (c.path chunkID)
      let _ ← access (.putMemory c.memoryMax chunkID b)
      pure (some b)

/-- `GetRange`: what the file is short of is zeroes. It does not fill the memory tier. -/
def getRange (chunkID : String) (offset length : Int64) : M (Option Bytes) := do
  let found : Option Bytes ← access (.getMemoryRange chunkID offset length)
  match found with
  | some b => pure (some b)
  | none =>
    let file : Except Err Bytes ←
      attempt (perform (.cacheReadFileAt (c.path chunkID) offset length))
    match file with
    | .error .notExist => pure none
    | .error err => throw err
    | .ok b =>
      touch (c.path chunkID)
      pure (some (padTo 0 b (natOf length)))

/-- `_ = os.Remove(path)`. -/
def discard (path : Path) : M Unit := do
  let _ : Except Err Unit ← attempt (perform (.removePath path))
  pure ()

/-- A step of `Put` whose failure removes the temporary file. -/
def orDiscard (tmpPath : Path) (call : Prog sig (Except Err Unit)) : M Unit := do
  match ← attempt call with
  | .ok () => pure ()
  | .error err =>
    discard tmpPath
    throw err

/-- The loop of `evictLocked`, oldest file first. The total is an `int64`, and it wraps. -/
def evictItems : List EvictItem → Int64 → M Unit
  | [], _ => pure ()
  | it :: rest, total =>
    if total ≤ c.maxSize then pure ()
    else do
      let removed : Except Err Unit ← attempt (perform (.removePath it.path))
      match removed with
      | .ok () | .error .notExist =>
        let _ ← access .countEvicted
        evictItems rest (total - Int64.ofNat it.size)
      | .error err => throw err

/-- `evictLocked`. -/
def evictLocked : M Unit := do
  let items : List EvictItem ← outside (perform (.readDir c.dir))
  evictItems c (P.sortItems items)
    (items.foldl (fun total it => total + Int64.ofNat it.size) 0)

/-- `Put`. -/
def put (chunkID : String) (b : Bytes) : M Unit := do
  let tmpPath : Path ← outside (perform (.createTemp c.dir))
  let written : Except Err Unit ← attempt (perform (.writeTemp tmpPath b))
  match written with
  | .error err =>
    let _ : Except Err Unit ← attempt (perform (.closeTemp tmpPath))
    discard tmpPath
    throw err
  | .ok () =>
    orDiscard tmpPath (perform (.closeTemp tmpPath))
    orDiscard tmpPath (perform (.chmod tmpPath))
    orDiscard tmpPath (perform (.rename tmpPath (c.path chunkID)))
    touch (c.path chunkID)
    let _ ← access (.putMemory c.memoryMax chunkID b)
    c.evictLocked P

end LocalCache

end OrcaBlocks.Storage
