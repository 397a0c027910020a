/-
# OrcaBlocks.Storage.Types — the data of `pkg/storage`: volumes, snapshots, chunk ranges, manifests.

The definitions follow `pkg/storage/types.go` (and the key functions of `backend.go`). Sizes,
offsets, lengths and chunk indexes are `Int64`, Go's wrapping signed integers, because the range
checks of the engine are done in that arithmetic. Byte slices are lists. A Go map that the code
ranges over is an association list with distinct keys (`AList`); the order of its entries stands for
Go's unspecified iteration order.

`fmt.Errorf` is kept as its format string with its arguments; `%w` arguments are the text of the
wrapped error.
-/
import Mathlib

namespace OrcaBlocks.Storage

abbrev Bytes := List UInt8

/-- The errors the engine returns or tells apart. -/
inductive Err where
  /-- `storage.ErrNotFound`. -/
  | notFound
  /-- An error for which `os.IsNotExist` holds. -/
  | notExist
  /-- `fmt.Errorf(format, args...)`. -/
  | errorf (format : String) (args : List String)
  /-- Any other error an outside call returns: an I/O fault. -/
  | io
  /-- Not an error but a PANIC: a slice out of range. -/
  | panic
  deriving DecidableEq, Repr

/-- The text of a wrapped error, for `%w`. -/
def Err.text : Err → String
  | .notFound => "not found"
  | .notExist => "file does not exist"
  | .errorf format _ => format
  | .io => "input/output error"
  | .panic => "runtime error: slice bounds out of range"

def defaultSizeBytes : Int64 := 10 * 1024 * 1024 * 1024
def defaultChunkSize : Int64 := 4 * 1024 * 1024

structure Volume where
  volumeID : String
  sizeBytes : Int64
  chunkSize : Int64
  latestSnapshotID : String
  lastNode : String
  deriving DecidableEq, Repr

/-- The defaults `CreateVolume` fills in. -/
def Volume.withDefaults (v : Volume) : Volume :=
  { v with
    sizeBytes := if v.sizeBytes = 0 then defaultSizeBytes else v.sizeBytes
    chunkSize := if v.chunkSize = 0 then defaultChunkSize else v.chunkSize }

structure Snapshot where
  snapshotID : String
  volumeID : String
  manifestKey : String
  deriving DecidableEq, Repr

/-- The fields of a base image that name storage: its volume and the snapshot an env starts from. -/
structure BaseImage where
  baseImageID : String
  volumeID : String
  snapshotID : String
  deriving DecidableEq, Repr

structure ChunkRange where
  index : Int64
  chunkStart : Int64
  reqStart : Int64
  reqEnd : Int64
  deriving DecidableEq, Repr

/-- `map[int64]string`: chunk index to chunk id. -/
abbrev Manifest := AList fun _ : Int64 => String

/-- `map[string]string`: a manifest as `encoding/json` sees it. -/
abbrev Wire := AList fun _ : String => String

/-! ## Chunk arithmetic -/

def min64 (a b : Int64) : Int64 := if a < b then a else b

def max64 (a b : Int64) : Int64 := if a > b then a else b

def zeroChunk (chunkSize : Int64) : Bytes := List.replicate chunkSize.toInt.toNat 0

/-- The body of the loop of `ChunkIndexes`: the part of `[offset, stop)` in chunk `idx`. -/
def chunkRangeAt (offset stop chunkSize idx : Int64) : ChunkRange :=
  let chunkAbsStart := idx * chunkSize
  let chunkAbsEnd := chunkAbsStart + chunkSize
  let reqStart := max64 offset chunkAbsStart
  let reqEnd := min64 stop chunkAbsEnd
  { index := idx, chunkStart := reqStart - chunkAbsStart, reqStart := reqStart, reqEnd := reqEnd }

/-- `for idx := first; idx <= last; idx++`, with as many turns as `fuel`. -/
def chunkIndexesLoop (offset stop chunkSize last : Int64) : Nat → Int64 → List ChunkRange
  | 0, _ => []
  | fuel + 1, idx =>
    if idx ≤ last then
      chunkRangeAt offset stop chunkSize idx ::
        chunkIndexesLoop offset stop chunkSize last fuel (idx + 1)
    else []

/-- `ChunkIndexes`. The loop runs `last - first + 1` turns. -/
def chunkIndexes (offset length chunkSize : Int64) : Except Err (List ChunkRange) :=
  if offset < 0 then .error (.errorf "offset must be >= 0" [])
  else if length < 0 then .error (.errorf "length must be >= 0" [])
  else if chunkSize ≤ 0 then .error (.errorf "chunk size must be > 0" [])
  else if length = 0 then .ok []
  else
    let stop := offset + length
    if stop < offset then .error (.errorf "range overflow" [])
    else
      let first := offset / chunkSize
      let last := (stop - 1) / chunkSize
      .ok (chunkIndexesLoop offset stop chunkSize last (last.toInt - first.toInt + 1).toNat first)

/-- `normalizeChunk`: a short chunk is padded with zeroes, a long one is refused. -/
def normalizeChunk (b : Bytes) (chunkSize : Int64) : Except Err Bytes :=
  if (b.length : Int) = chunkSize.toInt then .ok b
  else if (b.length : Int) > chunkSize.toInt then
    .error (.errorf "chunk length %d exceeds chunk size %d"
      [toString b.length, toString chunkSize.toInt])
  else .ok (b ++ List.replicate (chunkSize.toInt.toNat - b.length) 0)

/-! ## Object keys -/

def chunkKey (chunkID : String) : String := "chunks/" ++ chunkID

def manifestKey (snapshotID : String) : String := "manifests/" ++ snapshotID ++ ".json"

/-- The two nibbles of a byte, as `encoding/hex` writes them. -/
def hexByte (b : UInt8) : List Char := [(b.toNat / 16).digitChar, (b.toNat % 16).digitChar]

/-- `hex.EncodeToString`. -/
def hexEncode (b : Bytes) : String := String.ofList (b.flatMap hexByte)

/-! ## Manifests on the wire -/

/-- `strconv.FormatInt(i, 10)`. -/
def formatInt (i : Int64) : String :=
  if i.toInt < 0 then "-" ++ (-i.toInt).toNat.repr else i.toInt.toNat.repr

/-- The sign and the digits of a decimal numeral, as `strconv.ParseInt` splits them. -/
def splitSign : List Char → Bool × List Char
  | '-' :: ds => (true, ds)
  | '+' :: ds => (false, ds)
  | ds => (false, ds)

/-- `strconv.ParseInt(s, 10, 64)`. -/
def parseInt (s : String) : Except Err Int64 :=
  let (neg, digits) := splitSign s.toList
  if digits = [] ∨ ¬ digits.all Char.isDigit then
    .error (.errorf "strconv.ParseInt: parsing %q: invalid syntax" [s])
  else
    let un := Nat.ofDigitChars 10 digits 0
    if neg then
      if un ≤ 2 ^ 63 then .ok (Int64.ofInt (-un))
      else .error (.errorf "strconv.ParseInt: parsing %q: value out of range" [s])
    else if un < 2 ^ 63 then .ok (Int64.ofInt un)
    else .error (.errorf "strconv.ParseInt: parsing %q: value out of range" [s])

/-- `ManifestToWire`. -/
def manifestToWire (m : Manifest) : Wire :=
  m.entries.foldl (fun out e => out.insert (formatInt e.1) e.2) ∅

/-- The loop of `ManifestFromWire`. -/
def manifestFromWireLoop : List (Sigma fun _ : String => String) → Manifest → Except Err Manifest
  | [], out => .ok out
  | ⟨k, v⟩ :: rest, out =>
    match parseInt k with
    | .error err => .error (.errorf "invalid manifest chunk index %q: %w" [k, err.text])
    | .ok idx => manifestFromWireLoop rest (out.insert idx v)

/-- `ManifestFromWire`. -/
def manifestFromWire (w : Wire) : Except Err Manifest := manifestFromWireLoop w.entries ∅

end OrcaBlocks.Storage
