/-
# OrcaBlocks.Storage.Repository — the two repositories of `pkg/storage`: `MemRepo` and `PostgresRepo`.

Both implement the interface `Repository`. `MemRepo` (`mem.go`) is four Go maps. `PostgresRepo`
(`postgres.go`) is a handful of SQL statements over four tables, and what the functions around them do
with the outcome. The statements are those of `OrcaBlocks.Lib.Table`; a statement also fails if a foreign
key it would write does not exist, and if a text it is given is not UTF-8 (the encoding of the database) or
holds a NUL, which no TEXT or JSONB value can. `created_at` is the number of the insertion. The server's
limits on the length of a text are not modelled.

A Go string is any sequence of bytes, so the records here hold byte strings. `json.Marshal` replaces each
byte that is not part of a character: what a JSONB column holds is UTF-8 (`Json`), whatever it was given.

A Go map is iterated in an order the runtime picks anew each time. Only `GetBaseImageByRef` of `MemRepo`
can tell: it takes the order of its iteration as a parameter.

`RepoCall` lists the calls and `RepoReply` what they return, so that a history of calls is a list and the two
repositories can be run on the same one. `ListBaseImages` and `ListEnvs` are not modelled.
-/
import OrcaBlocks.Lib.Table
import OrcaBlocks.Lib.Text
import OrcaBlocks.Lib.Utf8
import OrcaBlocks.Storage.Types

namespace OrcaBlocks.Storage.Repository

open OrcaBlocks.Lib

/-! ## Records -/

structure Volume where
  volumeID : Text
  sizeBytes : Int64
  chunkSize : Int64
  latestSnapshotID : Text
  lastNode : Text
  deriving DecidableEq, Repr

/-- The defaults `CreateVolume` fills in. -/
def Volume.withDefaults (v : Volume) : Volume :=
  { v with
    sizeBytes := if v.sizeBytes = 0 then defaultSizeBytes else v.sizeBytes
    chunkSize := if v.chunkSize = 0 then defaultChunkSize else v.chunkSize }

structure Snapshot where
  snapshotID : Text
  volumeID : Text
  manifestKey : Text
  deriving DecidableEq, Repr

/-- A nil slice is `none`. -/
structure BaseImage where
  baseImageID : Text
  imageRef : Text
  imageDigest : Text
  volumeID : Text
  snapshotID : Text
  rootFSSizeBytes : Int64
  env : Option (List Text)
  workingDir : Text
  entrypoint : Option (List Text)
  cmd : Option (List Text)
  user : Text
  deriving DecidableEq, Repr

/-- The strings of the TEXT columns. -/
def BaseImage.texts (image : BaseImage) : List Text :=
  [image.baseImageID, image.imageRef, image.imageDigest, image.volumeID, image.snapshotID,
    image.workingDir, image.user]

/-- The strings of the JSONB columns. -/
def BaseImage.items (image : BaseImage) : List Text :=
  image.env.getD [] ++ image.entrypoint.getD [] ++ image.cmd.getD []

structure Env where
  envID : Text
  baseImageID : Text
  imageRef : Text
  volumeID : Text
  latestSnapshotID : Text
  deriving DecidableEq, Repr

/-! ## The interface -/

inductive RepoCall where
  | createVolume (volume : Volume)
  | getVolume (volumeID : Text)
  | updateLatestSnapshot (volumeID snapshotID : Text)
  | updateLastNode (volumeID nodeID : Text)
  | createSnapshot (snapshot : Snapshot)
  | getSnapshot (snapshotID : Text)
  | createBaseImage (image : BaseImage)
  | getBaseImage (baseImageID : Text)
  | getBaseImageByRef (imageRef : Text)
  | createEnv (env : Env)
  | getEnv (envID : Text)
  | updateEnvSnapshot (envID snapshotID : Text)
  deriving DecidableEq, Repr

inductive RepoReply where
  | done
  | volume (volume : Volume)
  | snapshot (snapshot : Snapshot)
  | image (image : BaseImage)
  | env (env : Env)
  deriving DecidableEq, Repr

/-- What a lookup returns. -/
def found {α : Type} : Option α → Except Err α
  | some a => .ok a
  | none => .error .notFound

/-! ## MemRepo -/

structure MemRepo where
  volumes : AList fun _ : Text => Volume
  snapshots : AList fun _ : Text => Snapshot
  images : AList fun _ : Text => BaseImage
  envs : AList fun _ : Text => Env

/-- The order in which a `range` visits the values of a map. -/
abbrev RangeOrder := List BaseImage → List BaseImage

namespace MemRepo

/-- `NewMemRepo`. -/
def new : MemRepo := ⟨∅, ∅, ∅, ∅⟩

def createVolume (r : MemRepo) (volume : Volume) : Except Err Volume × MemRepo :=
  let volume := volume.withDefaults
  (.ok volume, { r with volumes := r.volumes.insert volume.volumeID volume })

def getVolume (r : MemRepo) (volumeID : Text) : Except Err Volume :=
  found (r.volumes.lookup volumeID)

/-- `UpdateLatestSnapshot` and `UpdateLastNode`: read the volume, set a field, store it. -/
def updateVolume (r : MemRepo) (volumeID : Text) (set : Volume → Volume) :
    Except Err Unit × MemRepo :=
  match r.volumes.lookup volumeID with
  | none => (.error .notFound, r)
  | some v => (.ok (), { r with volumes := r.volumes.insert volumeID (set v) })

def updateLatestSnapshot (r : MemRepo) (volumeID snapshotID : Text) : Except Err Unit × MemRepo :=
  r.updateVolume volumeID fun v => { v with latestSnapshotID := snapshotID }

def updateLastNode (r : MemRepo) (volumeID nodeID : Text) : Except Err Unit × MemRepo :=
  r.updateVolume volumeID fun v => { v with lastNode := nodeID }

def createSnapshot (r : MemRepo) (snapshot : Snapshot) : Except Err Unit × MemRepo :=
  (.ok (), { r with snapshots := r.snapshots.insert snapshot.snapshotID snapshot })

def getSnapshot (r : MemRepo) (snapshotID : Text) : Except Err Snapshot :=
  found (r.snapshots.lookup snapshotID)

def createBaseImage (r : MemRepo) (image : BaseImage) : Except Err BaseImage × MemRepo :=
  (.ok image, { r with images := r.images.insert image.baseImageID image })

def getBaseImage (r : MemRepo) (baseImageID : Text) : Except Err BaseImage :=
  found (r.images.lookup baseImageID)

/-- `GetBaseImageByRef`: the first image of the iteration that has the reference. -/
def getBaseImageByRef (order : RangeOrder) (r : MemRepo) (imageRef : Text) :
    Except Err BaseImage :=
  found ((order (r.images.entries.map Sigma.snd)).find? fun image => image.imageRef = imageRef)

def createEnv (r : MemRepo) (env : Env) : Except Err Env × MemRepo :=
  (.ok env, { r with envs := r.envs.insert env.envID env })

def getEnv (r : MemRepo) (envID : Text) : Except Err Env := found (r.envs.lookup envID)

def updateEnvSnapshot (r : MemRepo) (envID snapshotID : Text) : Except Err Unit × MemRepo :=
  match r.envs.lookup envID with
  | none => (.error .notFound, r)
  | some env =>
    (.ok (), { r with envs := r.envs.insert envID { env with latestSnapshotID := snapshotID } })

/-- One call. -/
def serve (order : RangeOrder) (r : MemRepo) : RepoCall → Except Err RepoReply × MemRepo
  | .createVolume volume => (r.createVolume volume).map (·.map .volume) id
  | .getVolume volumeID => ((r.getVolume volumeID).map .volume, r)
  | .updateLatestSnapshot volumeID snapshotID =>
    (r.updateLatestSnapshot volumeID snapshotID).map (·.map fun _ => .done) id
  | .updateLastNode volumeID nodeID => (r.updateLastNode volumeID nodeID).map (·.map fun _ => .done) id
  | .createSnapshot snapshot => (r.createSnapshot snapshot).map (·.map fun _ => .done) id
  | .getSnapshot snapshotID => ((r.getSnapshot snapshotID).map .snapshot, r)
  | .createBaseImage image => (r.createBaseImage image).map (·.map .image) id
  | .getBaseImage baseImageID => ((r.getBaseImage baseImageID).map .image, r)
  | .getBaseImageByRef imageRef => ((getBaseImageByRef order r imageRef).map .image, r)
  | .createEnv env => (r.createEnv env).map (·.map .env) id
  | .getEnv envID => ((r.getEnv envID).map .env, r)
  | .updateEnvSnapshot envID snapshotID =>
    (r.updateEnvSnapshot envID snapshotID).map (·.map fun _ => .done) id

end MemRepo

/-! ## The tables of PostgresRepo -/

/-- A JSONB column that `json.Marshal` of a `[]string` fills. -/
inductive Json where
  | null
  | array (items : List { item : Text // Utf8 item })
  deriving DecidableEq, Repr

/-- `json.Marshal` of a slice: a nil slice is `null`. -/
def jsonMarshal : Option (List Text) → Json
  | none => .null
  | some items => .array (items.map fun item => ⟨coerceUtf8 item, utf8_coerce item⟩)

/-- `json.Unmarshal` into a nil slice: `null` leaves it nil. -/
def jsonUnmarshal : Json → Option (List Text)
  | .null => none
  | .array items => some (items.map Subtype.val)

/-- A row of `base_images`. -/
structure ImageRow where
  baseImageID : Text
  imageRef : Text
  imageDigest : Text
  volumeID : Text
  snapshotID : Text
  rootFSSizeBytes : Int64
  envJSON : Json
  workingDir : Text
  entrypointJSON : Json
  cmdJSON : Json
  userName : Text
  createdAt : Nat
  deriving DecidableEq, Repr

/-- The columns `CreateBaseImage` writes. -/
def BaseImage.row (image : BaseImage) (createdAt : Nat) : ImageRow where
  baseImageID := image.baseImageID
  imageRef := image.imageRef
  imageDigest := image.imageDigest
  volumeID := image.volumeID
  snapshotID := image.snapshotID
  rootFSSizeBytes := image.rootFSSizeBytes
  envJSON := jsonMarshal image.env
  workingDir := image.workingDir
  entrypointJSON := jsonMarshal image.entrypoint
  cmdJSON := jsonMarshal image.cmd
  userName := image.user
  createdAt := createdAt

/-- `scanBaseImage`, on a row. -/
def scanBaseImage (row : ImageRow) : BaseImage where
  baseImageID := row.baseImageID
  imageRef := row.imageRef
  imageDigest := row.imageDigest
  volumeID := row.volumeID
  snapshotID := row.snapshotID
  rootFSSizeBytes := row.rootFSSizeBytes
  env := jsonUnmarshal row.envJSON
  workingDir := row.workingDir
  entrypoint := jsonUnmarshal row.entrypointJSON
  cmd := jsonUnmarshal row.cmdJSON
  user := row.userName

structure PostgresRepo where
  volumes : List Volume
  snapshots : List Snapshot
  images : List ImageRow
  envs : List Env
  /-- How many rows with a `created_at` were inserted into `base_images`. -/
  clock : Nat
  deriving DecidableEq, Repr

/-- A statement's failures, and `pgx.ErrNoRows`. -/
inductive PgErr where
  | noRows
  | foreignKey
  | invalidText
  deriving DecidableEq, Repr

/-- A text Postgres can hold. -/
def Storable (text : Text) : Prop := Utf8 text ∧ 0 ∉ text

instance : DecidablePred Storable := fun _ => inferInstanceAs (Decidable (_ ∧ _))

namespace PostgresRepo

variable (db : PostgresRepo)

/-- The tables `Init` makes. -/
def init : PostgresRepo := ⟨[], [], [], [], 0⟩

def hasVolume (volumeID : Text) : Bool := (selectRow Volume.volumeID db.volumes volumeID).isSome

def hasSnapshot (snapshotID : Text) : Bool :=
  (selectRow Snapshot.snapshotID db.snapshots snapshotID).isSome

def selectImage (baseImageID : Text) : Option ImageRow :=
  selectRow (fun row => row.baseImageID) db.images baseImageID

/-- `SELECT … WHERE`, whose text parameter is `text`. -/
def query {α : Type} (text : Text) (row : Option α) : Except PgErr α :=
  if Storable text then row.elim (.error .noRows) .ok else .error .invalidText

/-- `INSERT … ON CONFLICT DO NOTHING RETURNING …` with the parameters `texts`, which refers to rows that
exist if `keys` says so. A row that is not inserted is not checked. -/
def insertReturning {α : Type} (texts : List Text) (keys : Bool) (inserted : Option α × List α)
    (put : List α → PostgresRepo) : Except PgErr α × PostgresRepo :=
  if ¬ ∀ text ∈ texts, Storable text then (.error .invalidText, db)
  else
    match inserted with
    | (none, _) => (.error .noRows, db)
    | (some row, rows) => if keys then (.ok row, put rows) else (.error .foreignKey, db)

/-- `UPDATE … WHERE`, with the number of rows affected. -/
def updateWhere {α : Type} (texts : List Text) (keys : Bool) (updated : Nat × List α)
    (put : List α → PostgresRepo) : Except PgErr Nat × PostgresRepo :=
  if ¬ ∀ text ∈ texts, Storable text then (.error .invalidText, db)
  else if updated.1 ≠ 0 ∧ ¬ keys then (.error .foreignKey, db)
  else (.ok updated.1, put updated.2)

end PostgresRepo

/-! ## The functions of PostgresRepo -/

/-- `row.Scan`, where no row is `ErrNotFound`. -/
def scanned {α : Type} : Except PgErr α → Except Err α
  | .ok row => .ok row
  | .error .noRows => .error .notFound
  | .error _ => .error .io

/-- `row.Scan` after an insert, where no row means that the stored one is returned. -/
def insertedOr {α β : Type} (scan : α → β) (stored : PostgresRepo → Except Err β) :
    Except PgErr α × PostgresRepo → Except Err β × PostgresRepo
  | (.ok row, db) => (.ok (scan row), db)
  | (.error .noRows, db) => (stored db, db)
  | (.error _, db) => (.error .io, db)

/-- `tag.RowsAffected()` after an update. -/
def affected : Except PgErr Nat × PostgresRepo → Except Err Unit × PostgresRepo
  | (.ok n, db) => (if n = 0 then .error .notFound else .ok (), db)
  | (.error _, db) => (.error .io, db)

namespace PostgresRepo

variable (db : PostgresRepo)

def getVolume (volumeID : Text) : Except Err Volume :=
  scanned (query volumeID (selectRow Volume.volumeID db.volumes volumeID))

def createVolume (volume : Volume) : Except Err Volume × PostgresRepo :=
  let volume := volume.withDefaults
  insertedOr id (·.getVolume volume.volumeID)
    (db.insertReturning [volume.volumeID, volume.latestSnapshotID, volume.lastNode] true
      (insertRow Volume.volumeID db.volumes volume) fun rows => { db with volumes := rows })

def updateLatestSnapshot (volumeID snapshotID : Text) : Except Err Unit × PostgresRepo :=
  affected (db.updateWhere [volumeID, snapshotID] true
    (updateRows Volume.volumeID db.volumes volumeID fun v => { v with latestSnapshotID := snapshotID })
    fun rows => { db with volumes := rows })

def updateLastNode (volumeID nodeID : Text) : Except Err Unit × PostgresRepo :=
  affected (db.updateWhere [volumeID, nodeID] true
    (updateRows Volume.volumeID db.volumes volumeID fun v => { v with lastNode := nodeID })
    fun rows => { db with volumes := rows })

/-- `CreateSnapshot`. Its insert has no `ON CONFLICT`: a key that is there is a failure like any other. -/
def createSnapshot (snapshot : Snapshot) : Except Err Unit × PostgresRepo :=
  let failed : Except Err Unit × PostgresRepo :=
    (.error (.errorf "insert snapshot: %w" [Err.io.text]), db)
  match db.insertReturning [snapshot.snapshotID, snapshot.volumeID, snapshot.manifestKey]
      (db.hasVolume snapshot.volumeID) (insertRow Snapshot.snapshotID db.snapshots snapshot)
      fun rows => { db with snapshots := rows } with
  | (.ok _, db) => (.ok (), db)
  | (.error _, _) => failed

def getSnapshot (snapshotID : Text) : Except Err Snapshot :=
  scanned (query snapshotID (selectRow Snapshot.snapshotID db.snapshots snapshotID))

def getBaseImage (baseImageID : Text) : Except Err BaseImage :=
  (scanned (query baseImageID (db.selectImage baseImageID))).map scanBaseImage

def createBaseImage (image : BaseImage) : Except Err BaseImage × PostgresRepo :=
  insertedOr scanBaseImage (·.getBaseImage image.baseImageID)
    (db.insertReturning (image.texts ++ image.items.map coerceUtf8)
      (db.hasVolume image.volumeID && db.hasSnapshot image.snapshotID)
      (insertRow (fun row => row.baseImageID) db.images (image.row db.clock))
      fun rows => { db with images := rows, clock := db.clock + 1 })

/-- `GetBaseImageByRef`: `ORDER BY created_at DESC LIMIT 1`. -/
def getBaseImageByRef (imageRef : Text) : Except Err BaseImage :=
  (scanned (query imageRef ((db.images.filter fun row => row.imageRef = imageRef).insertionSort
    (fun a b => a.createdAt ≥ b.createdAt)).head?)).map scanBaseImage

def getEnv (envID : Text) : Except Err Env :=
  scanned (query envID (selectRow Env.envID db.envs envID))

def createEnv (env : Env) : Except Err Env × PostgresRepo :=
  insertedOr id (·.getEnv env.envID)
    (db.insertReturning
      [env.envID, env.baseImageID, env.imageRef, env.volumeID, env.latestSnapshotID]
      ((db.selectImage env.baseImageID).isSome && db.hasVolume env.volumeID &&
        db.hasSnapshot env.latestSnapshotID)
      (insertRow Env.envID db.envs env) fun rows => { db with envs := rows })

def updateEnvSnapshot (envID snapshotID : Text) : Except Err Unit × PostgresRepo :=
  affected (db.updateWhere [envID, snapshotID] (db.hasSnapshot snapshotID)
    (updateRows Env.envID db.envs envID fun env => { env with latestSnapshotID := snapshotID })
    fun rows => { db with envs := rows })

/-- One call. -/
def serve : RepoCall → Except Err RepoReply × PostgresRepo
  | .createVolume volume => (db.createVolume volume).map (·.map .volume) id
  | .getVolume volumeID => ((db.getVolume volumeID).map .volume, db)
  | .updateLatestSnapshot volumeID snapshotID =>
    (db.updateLatestSnapshot volumeID snapshotID).map (·.map fun _ => .done) id
  | .updateLastNode volumeID nodeID =>
    (db.updateLastNode volumeID nodeID).map (·.map fun _ => .done) id
  | .createSnapshot snapshot => (db.createSnapshot snapshot).map (·.map fun _ => .done) id
  | .getSnapshot snapshotID => ((db.getSnapshot snapshotID).map .snapshot, db)
  | .createBaseImage image => (db.createBaseImage image).map (·.map .image) id
  | .getBaseImage baseImageID => ((db.getBaseImage baseImageID).map .image, db)
  | .getBaseImageByRef imageRef => ((db.getBaseImageByRef imageRef).map .image, db)
  | .createEnv env => (db.createEnv env).map (·.map .env) id
  | .getEnv envID => ((db.getEnv envID).map .env, db)
  | .updateEnvSnapshot envID snapshotID =>
    (db.updateEnvSnapshot envID snapshotID).map (·.map fun _ => .done) id

end PostgresRepo

/-! ## Histories -/

/-- What `MemRepo` answers to a history of calls; `order n` is the order of the iteration the `n`-th call
makes, if it makes one. -/
def MemRepo.answers (order : Nat → RangeOrder) : Nat → MemRepo → List RepoCall → List (Except Err RepoReply)
  | _, _, [] => []
  | n, r, call :: rest =>
    (r.serve (order n) call).1 :: MemRepo.answers order (n + 1) (r.serve (order n) call).2 rest

/-- What `PostgresRepo` answers. -/
def PostgresRepo.answers : PostgresRepo → List RepoCall → List (Except Err RepoReply)
  | _, [] => []
  | db, call :: rest => (db.serve call).1 :: PostgresRepo.answers (db.serve call).2 rest

/-- Every call of the history satisfies `P` in the tables it finds. -/
def PostgresRepo.Along (P : PostgresRepo → RepoCall → Prop) : PostgresRepo → List RepoCall → Prop
  | _, [] => True
  | db, call :: rest => P db call ∧ PostgresRepo.Along P (db.serve call).2 rest

instance decidableAlong (P : PostgresRepo → RepoCall → Prop) [∀ db, DecidablePred (P db)] :
    ∀ db, DecidablePred (PostgresRepo.Along P db)
  | _, [] => instDecidableTrue
  | db, call :: rest =>
    have : Decidable (PostgresRepo.Along P (db.serve call).2 rest) :=
      decidableAlong P (db.serve call).2 rest
    inferInstanceAs (Decidable (P db call ∧ _))

end OrcaBlocks.Storage.Repository
