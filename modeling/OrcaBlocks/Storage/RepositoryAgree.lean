/-
# OrcaBlocks.Storage.RepositoryAgree — when the in-memory repository answers like the Postgres one.

The two repositories differ in three places. Creating a volume, an image or an env under an id that is
taken OVERWRITES the record in memory and returns the new one; in Postgres it changes nothing and returns
the stored one. And among several images with one reference memory returns whichever the iteration meets
first, Postgres the newest. And memory keeps any byte string, while Postgres refuses one that is not UTF-8
or holds a NUL, and mends one in a JSON column that is not UTF-8.

`Same` relates the two states key by key. As long as no call runs into one of these places, each call
keeps the states the same and is answered the same (`stepAgrees`, `serve_answer_iff`); the first one that
does is answered differently. So the histories on which the two agree are exactly those `Along` which every
call is `Agreeing`.
-/
import OrcaBlocks.Storage.Repository

namespace OrcaBlocks.Storage.Repository

open OrcaBlocks.Lib

variable {k : Text} {image : BaseImage} {r : MemRepo} {call : RepoCall} {α β : Type} {db : PostgresRepo}

/-! ## The condition -/

/-- The strings of a call. -/
def RepoCall.texts : RepoCall → List Text
  | .createVolume volume => [volume.volumeID, volume.latestSnapshotID, volume.lastNode]
  | .getVolume volumeID => [volumeID]
  | .updateLatestSnapshot volumeID snapshotID => [volumeID, snapshotID]
  | .updateLastNode volumeID nodeID => [volumeID, nodeID]
  | .createSnapshot snapshot => [snapshot.snapshotID, snapshot.volumeID, snapshot.manifestKey]
  | .getSnapshot snapshotID => [snapshotID]
  | .createBaseImage image => image.texts ++ image.items
  | .getBaseImage baseImageID => [baseImageID]
  | .getBaseImageByRef imageRef => [imageRef]
  | .createEnv env =>
    [env.envID, env.baseImageID, env.imageRef, env.volumeID, env.latestSnapshotID]
  | .getEnv envID => [envID]
  | .updateEnvSnapshot envID snapshotID => [envID, snapshotID]

/-- **The call satisfies the foreign keys** of the tables it finds, and a snapshot it creates is new. A row
that is not written is not checked. -/
def KeysHold (db : PostgresRepo) : RepoCall → Prop
  | .createSnapshot snapshot =>
    db.hasSnapshot snapshot.snapshotID = false ∧ db.hasVolume snapshot.volumeID = true
  | .createBaseImage image => db.selectImage image.baseImageID = none →
      db.hasVolume image.volumeID = true ∧ db.hasSnapshot image.snapshotID = true
  | .createEnv env => selectRow Env.envID db.envs env.envID = none →
      (db.selectImage env.baseImageID).isSome = true ∧ db.hasVolume env.volumeID = true ∧
        db.hasSnapshot env.latestSnapshotID = true
  | .updateEnvSnapshot envID snapshotID =>
    (selectRow Env.envID db.envs envID).isSome → db.hasSnapshot snapshotID = true
  | _ => True

/-- The record a call creates is new or is the one that is stored; a reference names at most one image. -/
def Unambiguous (db : PostgresRepo) : RepoCall → Prop
  | .createVolume volume =>
    ∀ stored ∈ selectRow Volume.volumeID db.volumes volume.volumeID, stored = volume.withDefaults
  | .createBaseImage image =>
    ∀ stored ∈ db.selectImage image.baseImageID, scanBaseImage stored = image
  | .createEnv env => ∀ stored ∈ selectRow Env.envID db.envs env.envID, stored = env
  | .getBaseImageByRef imageRef => ∀ a ∈ db.images, ∀ b ∈ db.images,
      a.imageRef = imageRef → b.imageRef = imageRef → a = b
  | _ => True

/-- The call meets none of the places where the repositories differ. -/
def Agreeing (db : PostgresRepo) (call : RepoCall) : Prop :=
  (∀ text ∈ call.texts, Storable text) ∧ Unambiguous db call

instance (db : PostgresRepo) : DecidablePred (KeysHold db) := fun call =>
  match call with
  | .createSnapshot _ => inferInstanceAs (Decidable (_ ∧ _))
  | .createBaseImage _ => inferInstanceAs (Decidable (_ = none → _ ∧ _))
  | .createEnv _ => inferInstanceAs (Decidable (_ = none → _ ∧ _ ∧ _))
  | .updateEnvSnapshot _ _ => inferInstanceAs (Decidable (_ = true → _ = true))
  | .createVolume _ | .getVolume _ | .updateLatestSnapshot _ _ | .updateLastNode _ _
  | .getSnapshot _ | .getBaseImage _ | .getBaseImageByRef _ | .getEnv _ => instDecidableTrue

instance (db : PostgresRepo) : DecidablePred (Unambiguous db) := fun call =>
  match call with
  | .createVolume _ | .createBaseImage _ | .createEnv _ =>
    inferInstanceAs (Decidable (∀ stored ∈ _, _ = _))
  | .getBaseImageByRef _ => inferInstanceAs (Decidable (∀ a ∈ _, ∀ b ∈ _, _ → _ → a = b))
  | .getVolume _ | .updateLatestSnapshot _ _ | .updateLastNode _ _ | .createSnapshot _
  | .getSnapshot _ | .getBaseImage _ | .getEnv _ | .updateEnvSnapshot _ _ => instDecidableTrue

instance (db : PostgresRepo) : DecidablePred (Agreeing db) := fun _ =>
  inferInstanceAs (Decidable (_ ∧ _))

/-! ## What a statement does -/

section Statements

variable {texts : List Text} {keys : Bool} {key : α → Text} {rows : List α} {put : List α → PostgresRepo}

/-- An insert whose row is new. -/
theorem insertReturning_new {row : α} (htexts : ∀ text ∈ texts, Storable text)
    (hkeys : keys = true) (hnew : selectRow key rows (key row) = none) :
    db.insertReturning texts keys (insertRow key rows row) put = (.ok row, put (rows ++ [row])) := by
  unfold PostgresRepo.insertReturning
  rw [if_neg (not_not_intro htexts), insertRow_of_none hnew, hkeys]
  rfl

theorem insertedOr_new {row : α} {scan : α → β} {stored : PostgresRepo → Except Err β}
    (htexts : ∀ text ∈ texts, Storable text) (hkeys : keys = true)
    (hnew : selectRow key rows (key row) = none) :
    insertedOr scan stored (db.insertReturning texts keys (insertRow key rows row) put) =
      (.ok (scan row), put (rows ++ [row])) := by
  rw [insertReturning_new htexts hkeys hnew, insertedOr]

/-- An insert whose key is taken returns what is stored. -/
theorem insertedOr_taken {row old : α} {scan : α → β} {stored : PostgresRepo → Except Err β}
    (htexts : ∀ text ∈ texts, Storable text) (hold : selectRow key rows (key row) = some old) :
    insertedOr scan stored (db.insertReturning texts keys (insertRow key rows row) put) =
      (stored db, db) := by
  unfold PostgresRepo.insertReturning
  rw [if_neg (not_not_intro htexts), insertRow_of_some hold]
  rfl

theorem affected_none {f : α → α} (htexts : ∀ text ∈ texts, Storable text)
    (hnone : selectRow key rows k = none) :
    affected (db.updateWhere texts keys (updateRows key rows k f) put) =
      (.error .notFound, put rows) := by
  rw [PostgresRepo.updateWhere, if_neg (not_not_intro htexts), updateRows_of_none hnone]
  rfl

theorem affected_some {f : α → α} {row : α} (htexts : ∀ text ∈ texts, Storable text)
    (hkeys : keys = true) (hsome : selectRow key rows k = some row) :
    affected (db.updateWhere texts keys (updateRows key rows k f) put) =
      (.ok (), put (updateRows key rows k f).2) := by
  have hne : (updateRows key rows k f).1 ≠ 0 := by
    rw [Ne, updateRows_affected, hsome]
    simp
  rw [PostgresRepo.updateWhere, if_neg (not_not_intro htexts), hkeys, if_neg (by simp), affected,
    if_neg hne]

theorem scanned_query {text : Text} {row : Option α} (h : Storable text) :
    scanned (PostgresRepo.query text row) = found row := by
  rw [PostgresRepo.query, if_pos h]
  cases row with
  | none => rfl
  | some row => rfl

end Statements

/-! ## JSON columns -/

theorem jsonUnmarshal_marshal {items : Option (List Text)} (h : ∀ item ∈ items.getD [], Utf8 item) :
    jsonUnmarshal (jsonMarshal items) = items := by
  cases items with
  | none => rfl
  | some items =>
    rw [jsonMarshal, jsonUnmarshal, List.map_map]
    exact congrArg some (map_coerceUtf8 h)

/-- What is written to `base_images` is read back if it is UTF-8. -/
theorem scanBaseImage_row (h : ∀ item ∈ image.items, Utf8 item) (createdAt : Nat) :
    scanBaseImage (image.row createdAt) = image := by
  unfold BaseImage.items at h
  simp only [List.forall_mem_append] at h
  cases image
  simp only [BaseImage.row, scanBaseImage, jsonUnmarshal_marshal h.1.1,
    jsonUnmarshal_marshal h.1.2, jsonUnmarshal_marshal h.2]

theorem utf8_jsonUnmarshal (json : Json) : ∀ item ∈ (jsonUnmarshal json).getD [], Utf8 item := by
  cases json with
  | null => exact List.forall_mem_nil _
  | array items =>
    intro item hitem
    obtain ⟨item, -, rfl⟩ := List.mem_map.mp hitem
    exact item.2

/-- What is read from `base_images` is UTF-8. -/
theorem utf8_scanBaseImage (row : ImageRow) : ∀ item ∈ (scanBaseImage row).items, Utf8 item := by
  unfold BaseImage.items
  simp only [List.forall_mem_append]
  exact ⟨⟨utf8_jsonUnmarshal _, utf8_jsonUnmarshal _⟩, utf8_jsonUnmarshal _⟩

/-- Strings that are UTF-8 are sent as they are. -/
theorem sent_eq (h : ∀ item ∈ image.items, Utf8 item) :
    image.texts ++ image.items.map coerceUtf8 = (RepoCall.createBaseImage image).texts := by
  rw [map_coerceUtf8 h, RepoCall.texts]

theorem utf8_items (h : ∀ text ∈ (RepoCall.createBaseImage image).texts, Storable text) :
    ∀ item ∈ image.items, Utf8 item :=
  fun item hitem => (h item (List.mem_append_right _ hitem)).1

/-! ## A text Postgres cannot hold -/

/-- The only error `MemRepo` knows. -/
theorem MemRepo.serve_error {order : RangeOrder} {e : Err} (h : (r.serve order call).1 = .error e) :
    e = .notFound := by
  have hfound : ∀ {α : Type} (found? : Option α) (reply : α → RepoReply),
      (found found?).map reply = .error e → e = .notFound := by
    rintro α (_ | a) reply h
    · exact (Except.error.inj h).symm
    · cases h
  have hupdate : ∀ (volumeID : Text) (set : Volume → Volume),
      (r.updateVolume volumeID set).1.map (fun _ => RepoReply.done) = .error e → e = .notFound := by
    intro volumeID set h
    unfold updateVolume at h
    split at h
    · exact (Except.error.inj h).symm
    · cases h
  cases call with
  | createVolume volume => cases h
  | getVolume volumeID => exact hfound _ _ h
  | updateLatestSnapshot volumeID snapshotID => exact hupdate _ _ h
  | updateLastNode volumeID nodeID => exact hupdate _ _ h
  | createSnapshot snapshot => cases h
  | getSnapshot snapshotID => exact hfound _ _ h
  | createBaseImage image => cases h
  | getBaseImage baseImageID => exact hfound _ _ h
  | getBaseImageByRef imageRef => exact hfound _ _ h
  | createEnv env => cases h
  | getEnv envID => exact hfound _ _ h
  | updateEnvSnapshot envID snapshotID =>
    simp only [serve, updateEnvSnapshot] at h
    split at h
    · exact (Except.error.inj h).symm
    · cases h

theorem ok_of_map {r : Except Err α} {f : α → β} {b : β} (h : r.map f = .ok b) :
    ∃ a, r = .ok a ∧ f a = b := by
  cases r with
  | error e => cases h
  | ok a => exact ⟨a, rfl, Except.ok.inj h⟩

/-- An image comes out of `CreateBaseImage` unchanged only if Postgres can hold its strings: a statement that
is not refused returns what is read from a row. -/
theorem PostgresRepo.createBaseImage_storable (h : (db.createBaseImage image).1 = .ok image) :
    ∀ text ∈ (RepoCall.createBaseImage image).texts, Storable text := by
  have hsent : (∀ text ∈ image.texts ++ image.items.map coerceUtf8, Storable text) ∧
      ∃ row, scanBaseImage row = image := by
    unfold createBaseImage insertReturning at h
    split at h
    · cases h
    · rename_i htexts
      refine ⟨not_not.mp htexts, ?_⟩
      split at h
      · obtain ⟨row, -, hrow⟩ := ok_of_map h
        exact ⟨row, hrow⟩
      · split at h
        · exact ⟨_, Except.ok.inj h⟩
        · cases h
  obtain ⟨htexts, row, hrow⟩ := hsent
  rwa [sent_eq (hrow ▸ utf8_scanBaseImage row)] at htexts

/-- Postgres answers any other call with a text it cannot hold with an error of its own. -/
theorem PostgresRepo.serve_invalid (himage : ∀ image, call ≠ .createBaseImage image)
    (h : ¬ ∀ text ∈ call.texts, Storable text) : ∃ e, (db.serve call).1 = .error e ∧ e ≠ .notFound := by
  have hinsert : ∀ {α β : Type} {keys : Bool} {inserted : Option α × List α} {scan : α → β}
      {put : List α → PostgresRepo} {stored : PostgresRepo → Except Err β} (reply : β → RepoReply),
      (insertedOr scan stored (db.insertReturning call.texts keys inserted put)).1.map reply =
        .error .io := by
    intro α β keys inserted scan put stored reply
    unfold insertReturning
    rw [if_pos h]
    rfl
  have hupdate : ∀ {α : Type} {keys : Bool} {updated : Nat × List α}
      {put : List α → PostgresRepo},
      (affected (db.updateWhere call.texts keys updated put)).1.map (fun _ => RepoReply.done) =
        .error .io := by
    intro α keys updated put
    unfold updateWhere
    rw [if_pos h]
    rfl
  have hquery : ∀ {α : Type} {text : Text} {row : Option α},
      call.texts = [text] → scanned (query text row) = .error .io := by
    intro α text row htext
    rw [htext, List.forall_mem_singleton] at h
    rw [query, if_neg h]
    rfl
  have hio : Err.io ≠ .notFound := by simp
  cases call with
  | createVolume volume => exact ⟨.io, hinsert .volume, hio⟩
  | getVolume volumeID => exact ⟨.io, by rw [serve, getVolume, hquery rfl]; rfl, hio⟩
  | updateLatestSnapshot volumeID snapshotID => exact ⟨.io, hupdate, hio⟩
  | updateLastNode volumeID nodeID => exact ⟨.io, hupdate, hio⟩
  | createSnapshot snapshot =>
    refine ⟨.errorf "insert snapshot: %w" [Err.io.text], ?_, by simp⟩
    have hinvalid : db.insertReturning [snapshot.snapshotID, snapshot.volumeID, snapshot.manifestKey]
        (db.hasVolume snapshot.volumeID) (insertRow Snapshot.snapshotID db.snapshots snapshot)
        (fun rows => { db with snapshots := rows }) = (.error .invalidText, db) := by
      unfold insertReturning
      exact if_pos h
    simp only [serve, createSnapshot, hinvalid]
    rfl
  | getSnapshot snapshotID => exact ⟨.io, by rw [serve, getSnapshot, hquery rfl]; rfl, hio⟩
  | createBaseImage image => exact absurd rfl (himage image)
  | getBaseImage baseImageID => exact ⟨.io, by rw [serve, getBaseImage, hquery rfl]; rfl, hio⟩
  | getBaseImageByRef imageRef => exact ⟨.io, by rw [serve, getBaseImageByRef, hquery rfl]; rfl, hio⟩
  | createEnv env => exact ⟨.io, hinsert .env, hio⟩
  | getEnv envID => exact ⟨.io, by rw [serve, getEnv, hquery rfl]; rfl, hio⟩
  | updateEnvSnapshot envID snapshotID => exact ⟨.io, hupdate, hio⟩

/-- Whatever the states: a call both repositories answer alike has no text Postgres cannot hold. -/
theorem serve_storable {order : RangeOrder} (h : (r.serve order call).1 = (db.serve call).1) :
    ∀ text ∈ call.texts, Storable text := by
  by_contra htexts
  by_cases himage : ∃ image, call = .createBaseImage image
  · obtain ⟨image, rfl⟩ := himage
    obtain ⟨stored, hstored, hreply⟩ := ok_of_map h.symm
    cases hreply
    exact htexts (PostgresRepo.createBaseImage_storable hstored)
  · obtain ⟨e, hpg, hne⟩ : ∃ e, (db.serve call).1 = .error e ∧ e ≠ .notFound :=
      PostgresRepo.serve_invalid (fun image hcall => himage ⟨image, hcall⟩) htexts
    exact hne (MemRepo.serve_error (h.trans hpg))

/-! ## The same records -/

/-- The two repositories hold the same records. -/
structure Same (r : MemRepo) (db : PostgresRepo) : Prop where
  volumes : Holds Volume.volumeID id r.volumes db.volumes
  snapshots : Holds Snapshot.snapshotID id r.snapshots db.snapshots
  images : Holds (fun row : ImageRow => row.baseImageID) scanBaseImage r.images db.images
  envs : Holds Env.envID id r.envs db.envs
  imageKeys : (db.images.map fun row => row.baseImageID).Nodup

theorem same_new : Same .new .init :=
  ⟨holds_empty, holds_empty, holds_empty, holds_empty, List.nodup_nil⟩

section Step

/-- A `range` visits each value once, in some order. -/
def RangeOrder.Visits (order : RangeOrder) : Prop := ∀ values, (order values).Perm values

/-- **One call.** In the same state both repositories answer alike, whatever the order of the iteration,
exactly if the call is unambiguous, and then the states stay the same. -/
structure StepAgrees (r : MemRepo) (db : PostgresRepo) (call : RepoCall) : Prop where
  answer : (∀ order : RangeOrder, order.Visits → (r.serve order call).1 = (db.serve call).1) ↔
    Unambiguous db call
  same : Unambiguous db call → ∀ order, Same (r.serve order call).2 (db.serve call).2

/-- A call that is answered alike without conditions. -/
theorem StepAgrees.of_eq (hclear : Unambiguous db call)
    (h : ∀ order, (r.serve order call).1 = (db.serve call).1 ∧
      Same (r.serve order call).2 (db.serve call).2) : StepAgrees r db call :=
  ⟨⟨fun _ => hclear, fun _ order _ => (h order).1⟩, fun _ order => (h order).2⟩

/-- Creating a record `b` where `stored` is what the table has under its id, read by `view`. -/
theorem StepAgrees.of_create (reply : β → RepoReply) (hreply : Function.Injective reply) (b : β)
    (view : α → β) {stored : Option α}
    (hclear : Unambiguous db call ↔ ∀ a, stored = some a → view a = b)
    (hmem : ∀ order, (r.serve order call).1 = .ok (reply b))
    (hnew : stored = none → ∃ db₁, db.serve call = (.ok (reply b), db₁) ∧
      ∀ order, Same (r.serve order call).2 db₁)
    (htaken : ∀ a, stored = some a → db.serve call = (.ok (reply (view a)), db) ∧
      (view a = b → ∀ order, Same (r.serve order call).2 db)) : StepAgrees r db call := by
  cases hstored : stored with
  | none =>
    obtain ⟨db₁, hpg, hsame⟩ := hnew hstored
    refine .of_eq (hclear.mpr fun a ha => ?_) fun order => ?_
    · rw [hstored] at ha
      cases ha
    · rw [hpg]
      exact ⟨hmem order, hsame order⟩
  | some a =>
    obtain ⟨hpg, hsame⟩ := htaken a hstored
    have hiff : Unambiguous db call ↔ view a = b :=
      hclear.trans ⟨fun h => h a hstored, fun h a' ha' => by
        rw [hstored] at ha'
        cases ha'
        exact h⟩
    constructor
    · rw [hiff, hpg]
      constructor
      · intro h
        have heq := (hmem id).symm.trans (h id fun _ => List.Perm.refl _)
        exact (hreply (Except.ok.inj heq)).symm
      · intro h order _
        rw [hmem, h]
    · intro h order
      rw [hpg]
      exact hsame (hiff.mp h) order

theorem stepAgrees_createVolume (hsame : Same r db) {volume : Volume}
    (htexts : ∀ text ∈ (RepoCall.createVolume volume).texts, Storable text) :
    StepAgrees r db (.createVolume volume) := by
  refine .of_create .volume (fun _ _ h => RepoReply.volume.inj h) volume.withDefaults
    id Iff.rfl (fun order => rfl) (fun hnone => ?_) fun stored hstored => ?_
  · have hpg : db.createVolume volume = (.ok volume.withDefaults,
        { db with volumes := db.volumes ++ [volume.withDefaults] }) :=
      insertedOr_new htexts rfl hnone
    rw [PostgresRepo.serve, hpg]
    exact ⟨_, rfl, fun order => { hsame with volumes := hsame.volumes.insert hnone }⟩
  · have htaken : selectRow Volume.volumeID db.volumes volume.withDefaults.volumeID = some stored :=
      hstored
    have hpg : db.createVolume volume = (.ok stored, db) := by
      have hid : Storable volume.withDefaults.volumeID := htexts _ List.mem_cons_self
      refine (insertedOr_taken htexts htaken).trans ?_
      rw [PostgresRepo.getVolume, scanned_query hid, htaken]
      rfl
    rw [PostgresRepo.serve, hpg]
    refine ⟨rfl, ?_⟩
    rintro rfl order
    exact { hsame with volumes := hsame.volumes.insert_same hstored }

theorem stepAgrees_createBaseImage (hsame : Same r db) (hkeys : KeysHold db (.createBaseImage image))
    (hcall : ∀ text ∈ (RepoCall.createBaseImage image).texts, Storable text) :
    StepAgrees r db (.createBaseImage image) := by
  have hutf8 := utf8_items hcall
  have htexts := hcall
  rw [← sent_eq hutf8] at htexts
  refine .of_create .image (fun _ _ h => RepoReply.image.inj h) image scanBaseImage
    Iff.rfl (fun order => rfl) (fun hnone => ?_) fun stored hstored => ?_
  · obtain ⟨hvolume, hsnapshot⟩ := hkeys hnone
    have hrow : selectRow (fun row : ImageRow => row.baseImageID) db.images
        (image.row db.clock).baseImageID = none := hnone
    have hpg : db.createBaseImage image = (.ok (scanBaseImage (image.row db.clock)),
        { db with images := db.images ++ [image.row db.clock], clock := db.clock + 1 }) :=
      insertedOr_new htexts (by rw [hvolume, hsnapshot]; rfl) hrow
    have hinsert := hsame.images.insert hrow
    rw [scanBaseImage_row hutf8] at hpg hinsert
    rw [PostgresRepo.serve, hpg]
    exact ⟨_, rfl, fun order =>
      { hsame with images := hinsert, imageKeys := nodup_append hsame.imageKeys hrow }⟩
  · have hrow : selectRow (fun row : ImageRow => row.baseImageID) db.images
        (image.row db.clock).baseImageID = some stored := hstored
    have hpg : db.createBaseImage image = (.ok (scanBaseImage stored), db) := by
      refine (insertedOr_taken htexts hrow).trans ?_
      rw [PostgresRepo.getBaseImage, scanned_query (htexts _ List.mem_cons_self), hstored]
      rfl
    rw [PostgresRepo.serve, hpg]
    refine ⟨rfl, ?_⟩
    rintro rfl order
    exact { hsame with images := hsame.images.insert_same hstored }

theorem stepAgrees_createEnv (hsame : Same r db) {env : Env} (hkeys : KeysHold db (.createEnv env))
    (htexts : ∀ text ∈ (RepoCall.createEnv env).texts, Storable text) :
    StepAgrees r db (.createEnv env) := by
  refine .of_create .env (fun _ _ h => RepoReply.env.inj h) env id
    Iff.rfl (fun order => rfl) (fun hnone => ?_) fun stored hstored => ?_
  · obtain ⟨himage, hvolume, hsnapshot⟩ := hkeys hnone
    have hpg : db.createEnv env = (.ok env, { db with envs := db.envs ++ [env] }) :=
      insertedOr_new htexts (by rw [himage, hvolume, hsnapshot]; rfl) hnone
    rw [PostgresRepo.serve, hpg]
    exact ⟨_, rfl, fun order => { hsame with envs := hsame.envs.insert hnone }⟩
  · have hpg : db.createEnv env = (.ok stored, db) := by
      refine (insertedOr_taken htexts hstored).trans ?_
      rw [PostgresRepo.getEnv, scanned_query (htexts _ List.mem_cons_self), hstored]
      rfl
    rw [PostgresRepo.serve, hpg]
    refine ⟨rfl, ?_⟩
    rintro rfl order
    exact { hsame with envs := hsame.envs.insert_same hstored }

/-- A found row is read after or before it is found. -/
theorem found_map (row : Option α) (view : α → β) : found (row.map view) = (found row).map view := by
  cases row with
  | none => rfl
  | some row => rfl

/-- A lookup by a primary key is answered alike. -/
theorem stepAgrees_lookup (hsame : Same r db) {key : α → Text} {view : α → β}
    {m : AList fun _ : Text => β} {rows : List α} (hholds : Holds key view m rows) (htext : Storable k)
    (reply : β → RepoReply) (hclear : Unambiguous db call)
    (hmem : ∀ order, r.serve order call = ((found (m.lookup k)).map reply, r)) (hpg : db.serve call =
      (((scanned (PostgresRepo.query k (selectRow key rows k))).map view).map reply, db)) :
    StepAgrees r db call := by
  refine .of_eq hclear fun order => ?_
  rw [hmem, hpg, hholds, scanned_query htext, found_map]
  exact ⟨rfl, hsame⟩

/-- `UpdateLatestSnapshot` and `UpdateLastNode`. -/
theorem stepAgrees_updateVolume (hsame : Same r db) (htexts : ∀ text ∈ call.texts, Storable text)
    (volumeID : Text) (set : Volume → Volume) (hset : ∀ v, (set v).volumeID = v.volumeID)
    (hclear : Unambiguous db call) (hmem : ∀ order, r.serve order call =
      (r.updateVolume volumeID set).map (·.map fun _ => .done) id)
    (hpg : db.serve call = (affected (db.updateWhere call.texts true
      (updateRows Volume.volumeID db.volumes volumeID set)
      fun rows => { db with volumes := rows })).map (·.map fun _ => .done) id) :
    StepAgrees r db call := by
  refine .of_eq hclear fun order => ?_
  have hlookup := hsame.volumes volumeID
  rw [Option.map_id_apply] at hlookup
  rw [hmem, hpg, MemRepo.updateVolume, hlookup]
  cases hsel : selectRow Volume.volumeID db.volumes volumeID with
  | none =>
    rw [affected_none htexts hsel]
    exact ⟨rfl, hsame⟩
  | some stored =>
    rw [affected_some htexts rfl hsel]
    exact ⟨rfl, { hsame with volumes := hsame.volumes.update hset hsel rfl }⟩

theorem stepAgrees_updateEnvSnapshot (hsame : Same r db) {envID snapshotID : Text}
    (hkeys : KeysHold db (.updateEnvSnapshot envID snapshotID))
    (htexts : ∀ text ∈ [envID, snapshotID], Storable text) :
    StepAgrees r db (.updateEnvSnapshot envID snapshotID) := by
  refine .of_eq trivial fun order => ?_
  have hlookup := hsame.envs envID
  rw [Option.map_id_apply] at hlookup
  rw [MemRepo.serve, MemRepo.updateEnvSnapshot, PostgresRepo.serve, PostgresRepo.updateEnvSnapshot,
    hlookup]
  cases hsel : selectRow Env.envID db.envs envID with
  | none =>
    rw [affected_none htexts hsel]
    exact ⟨rfl, hsame⟩
  | some stored =>
    rw [affected_some htexts (hkeys (by rw [hsel]; rfl)) hsel]
    exact ⟨rfl, { hsame with envs := hsame.envs.update (fun _ => rfl) hsel rfl }⟩

theorem stepAgrees_createSnapshot (hsame : Same r db) {snapshot : Snapshot}
    (hkeys : KeysHold db (.createSnapshot snapshot))
    (htexts : ∀ text ∈ (RepoCall.createSnapshot snapshot).texts, Storable text) :
    StepAgrees r db (.createSnapshot snapshot) := by
  obtain ⟨hfresh, hvolume⟩ := hkeys
  have hnew : selectRow Snapshot.snapshotID db.snapshots snapshot.snapshotID = none := by
    simpa [PostgresRepo.hasSnapshot] using hfresh
  have hinsert : db.insertReturning [snapshot.snapshotID, snapshot.volumeID, snapshot.manifestKey]
      (db.hasVolume snapshot.volumeID) (insertRow Snapshot.snapshotID db.snapshots snapshot)
      (fun rows => { db with snapshots := rows }) = _ := insertReturning_new htexts hvolume hnew
  refine .of_eq trivial fun order => ?_
  simp only [MemRepo.serve, MemRepo.createSnapshot, PostgresRepo.serve, PostgresRepo.createSnapshot,
    hinsert]
  exact ⟨rfl, { hsame with snapshots := hsame.snapshots.insert hnew }⟩

theorem found_image_inj {a b : Option BaseImage}
    (h : (found a).map RepoReply.image = (found b).map RepoReply.image) : a = b := by
  cases a with
  | none =>
    cases b with
    | none => rfl
    | some b => cases h
  | some a =>
    cases b with
    | none => cases h
    | some b => rw [RepoReply.image.inj (Except.ok.inj h)]

/-- The newest image with a reference is one with the reference, and there is one if any has it. -/
theorem newest_spec {imageRef : Text} {newest : Option ImageRow}
    (h : newest = ((db.images.filter fun row => row.imageRef = imageRef).insertionSort
      (fun a b => a.createdAt ≥ b.createdAt)).head?) :
    (newest = none → ∀ row ∈ db.images, row.imageRef ≠ imageRef) ∧
      ∀ row, newest = some row → row ∈ db.images ∧ row.imageRef = imageRef := by
  have hperm := List.perm_insertionSort (fun a b : ImageRow => a.createdAt ≥ b.createdAt)
    (db.images.filter fun row => row.imageRef = imageRef)
  subst h
  constructor
  · intro hnone row hrow href
    rw [List.head?_eq_none_iff] at hnone
    rw [hnone] at hperm
    have hmem : row ∈ db.images.filter fun row => row.imageRef = imageRef := by
      simp [hrow, href]
    rw [← hperm.mem_iff] at hmem
    cases hmem
  · intro row hrow
    have hmem := hperm.mem_iff.mp (List.mem_of_mem_head? (Option.mem_def.mpr hrow))
    simpa using hmem

theorem stepAgrees_getBaseImageByRef (hsame : Same r db) {imageRef : Text}
    (htext : Storable imageRef) : StepAgrees r db (.getBaseImageByRef imageRef) := by
  generalize hnewest : ((db.images.filter fun row => row.imageRef = imageRef).insertionSort
    (fun a b => a.createdAt ≥ b.createdAt)).head? = newest
  obtain ⟨hnone, hsome⟩ := newest_spec hnewest.symm
  have hpg : (db.serve (.getBaseImageByRef imageRef)).1 =
      (found (newest.map scanBaseImage)).map .image := by
    rw [PostgresRepo.serve, PostgresRepo.getBaseImageByRef, hnewest, scanned_query htext, found_map]
  have hvalues : ∀ {image}, image ∈ r.images.entries.map Sigma.snd ↔
      ∃ row ∈ db.images, scanBaseImage row = image := hsame.images.mem_values hsame.imageKeys
  have hiff : ∀ order : RangeOrder, (r.serve order (.getBaseImageByRef imageRef)).1 =
      (db.serve (.getBaseImageByRef imageRef)).1 ↔
        (order (r.images.entries.map Sigma.snd)).find? (fun image => image.imageRef = imageRef) =
          newest.map scanBaseImage := by
    intro order
    rw [hpg]
    exact ⟨found_image_inj, fun h => by rw [← h]; rfl⟩
  refine ⟨?_, fun _ order => hsame⟩
  simp only [hiff]
  constructor
  · intro h
    suffices hall : ∀ row ∈ db.images, row.imageRef = imageRef → newest = some row by
      intro a ha b hb harg hbrg
      exact Option.some.inj ((hall a ha harg).symm.trans (hall b hb hbrg))
    intro row hrow href
    cases hcase : newest with
    | none => exact absurd href (hnone hcase row hrow)
    | some last =>
      -- an iteration that meets the newest image last must still return it
      have hfind := h (fun values => values.filter (fun image => image ≠ scanBaseImage last) ++
        values.filter fun image => !decide (image ≠ scanBaseImage last))
        fun values => List.filter_append_perm _ values
      rw [hcase, Option.map_some, List.find?_append] at hfind
      have hsameImage : scanBaseImage row = scanBaseImage last := by
        by_contra hne
        have hmem : scanBaseImage row ∈ (r.images.entries.map Sigma.snd).filter
            (fun image => image ≠ scanBaseImage last) :=
          List.mem_filter.mpr ⟨hvalues.mpr ⟨row, hrow, rfl⟩, by simpa using hne⟩
        cases hfirst : ((r.images.entries.map Sigma.snd).filter
            (fun image => image ≠ scanBaseImage last)).find?
              (fun image => image.imageRef = imageRef) with
        | none =>
          have hnot := List.find?_eq_none.mp hfirst _ hmem
          exact hnot (decide_eq_true href)
        | some first =>
          rw [hfirst, Option.some_or, Option.some.injEq] at hfind
          have hin := (List.mem_filter.mp (List.mem_of_find?_eq_some hfirst)).2
          rw [hfind] at hin
          simp at hin
      have hid : row.baseImageID = last.baseImageID :=
        congrArg (fun image : BaseImage => image.baseImageID) hsameImage
      rw [List.inj_on_of_nodup_map hsame.imageKeys hrow (hsome last hcase).1 hid]
  · intro h order horder
    have hmem : ∀ {image}, image ∈ order (r.images.entries.map Sigma.snd) ↔
        ∃ row ∈ db.images, scanBaseImage row = image := (horder _).mem_iff.trans hvalues
    cases hfind : (order (r.images.entries.map Sigma.snd)).find?
        (fun image => image.imageRef = imageRef) with
    | none =>
      cases hcase : newest with
      | none => rfl
      | some last =>
        obtain ⟨hlast, href⟩ := hsome last hcase
        have hnot := List.find?_eq_none.mp hfind _ (hmem.mpr ⟨last, hlast, rfl⟩)
        exact absurd (decide_eq_true href) hnot
    | some image =>
      obtain ⟨row, hrow, rfl⟩ := hmem.mp (List.mem_of_find?_eq_some hfind)
      have hhas := List.find?_some hfind
      have href : row.imageRef = imageRef := of_decide_eq_true hhas
      cases hcase : newest with
      | none => exact absurd href (hnone hcase row hrow)
      | some last =>
        obtain ⟨hlast, hlastRef⟩ := hsome last hcase
        rw [Option.map_some, h row hrow last hlast href hlastRef]

/-- **One call**, with texts Postgres can hold. -/
theorem stepAgrees (hsame : Same r db) (hkeys : KeysHold db call)
    (htexts : ∀ text ∈ call.texts, Storable text) : StepAgrees r db call := by
  cases call with
  | createVolume volume => exact stepAgrees_createVolume hsame htexts
  | getVolume volumeID =>
    exact stepAgrees_lookup hsame hsame.volumes (htexts _ List.mem_cons_self) .volume trivial
      (fun _ => rfl) (by rw [Except.map_id]; rfl)
  | updateLatestSnapshot volumeID snapshotID =>
    exact stepAgrees_updateVolume hsame htexts volumeID
      (fun v => { v with latestSnapshotID := snapshotID }) (fun _ => rfl) trivial (fun _ => rfl) rfl
  | updateLastNode volumeID nodeID =>
    exact stepAgrees_updateVolume hsame htexts volumeID
      (fun v => { v with lastNode := nodeID }) (fun _ => rfl) trivial (fun _ => rfl) rfl
  | createSnapshot snapshot => exact stepAgrees_createSnapshot hsame hkeys htexts
  | getSnapshot snapshotID =>
    exact stepAgrees_lookup hsame hsame.snapshots (htexts _ List.mem_cons_self) .snapshot trivial
      (fun _ => rfl) (by rw [Except.map_id]; rfl)
  | createBaseImage image => exact stepAgrees_createBaseImage hsame hkeys htexts
  | getBaseImage baseImageID =>
    exact stepAgrees_lookup hsame hsame.images (htexts _ List.mem_cons_self) .image trivial
      (fun _ => rfl) rfl
  | getBaseImageByRef imageRef =>
    exact stepAgrees_getBaseImageByRef hsame (htexts _ List.mem_cons_self)
  | createEnv env => exact stepAgrees_createEnv hsame hkeys htexts
  | getEnv envID =>
    exact stepAgrees_lookup hsame hsame.envs (htexts _ List.mem_cons_self) .env trivial
      (fun _ => rfl) (by rw [Except.map_id]; rfl)
  | updateEnvSnapshot envID snapshotID => exact stepAgrees_updateEnvSnapshot hsame hkeys htexts

end Step

/-! ## Histories -/

/-- An iteration changes nothing. -/
theorem MemRepo.serve_state (order order' : RangeOrder) :
    (r.serve order call).2 = (r.serve order' call).2 := by
  cases call with
  | _ => rfl

/-- **One call**, with any texts. -/
theorem serve_answer_iff (hsame : Same r db) (hkeys : KeysHold db call) :
    (∀ order : RangeOrder, order.Visits → (r.serve order call).1 = (db.serve call).1) ↔
      Agreeing db call := by
  by_cases htexts : ∀ text ∈ call.texts, Storable text
  · exact (stepAgrees hsame hkeys htexts).answer.trans ⟨fun h => ⟨htexts, h⟩, fun h => h.2⟩
  · exact ⟨fun h => absurd (serve_storable (h id fun _ => List.Perm.refl _)) htexts,
      fun h => absurd h.1 htexts⟩

/-- From the same state on. Induction on the history: the head decides whether the first call is answered
alike, and if it is the states stay the same for the tail. -/
theorem answers_eq_iff {calls : List RepoCall} (hsame : Same r db)
    (hkeys : PostgresRepo.Along KeysHold db calls) (n : Nat) :
    (∀ order : Nat → RangeOrder, (∀ n, (order n).Visits) → r.answers order n calls = db.answers calls) ↔
      PostgresRepo.Along Agreeing db calls := by
  induction calls generalizing r db n with
  | nil => simp [MemRepo.answers, PostgresRepo.answers, PostgresRepo.Along]
  | cons call rest ih =>
    obtain ⟨hcall, hrest⟩ := hkeys
    have hhead := serve_answer_iff hsame hcall
    simp only [MemRepo.answers, PostgresRepo.answers, PostgresRepo.Along, List.cons.injEq]
    constructor
    · intro h
      have hagree : Agreeing db call := hhead.mp fun order horder =>
        (h (fun _ => order) fun _ => horder).1
      refine ⟨hagree, ?_⟩
      have hstep := stepAgrees hsame hcall hagree.1
      refine (ih (hstep.same hagree.2 id) hrest (n + 1)).mp fun order horder => ?_
      rw [MemRepo.serve_state id (order n)]
      exact (h order horder).2
    · rintro ⟨hagree, hlater⟩ order horder
      have hstep := stepAgrees hsame hcall hagree.1
      exact ⟨hhead.mpr hagree _ (horder n),
        (ih (hstep.same hagree.2 (order n)) hrest (n + 1)).mpr hlater order horder⟩

/-- **When `MemRepo` answers like `PostgresRepo`.** For every history of calls that satisfies the foreign
keys, from empty repositories: they answer alike, call by call and whatever the order of the iterations,
EXACTLY if every call of the history finds the record it creates absent or equal to the one stored, finds
at most one image under the reference it asks for, and has only strings that are UTF-8 without a NUL. -/
theorem memRepo_answers_iff (calls : List RepoCall)
    (hkeys : PostgresRepo.Along KeysHold .init calls) :
    (∀ order : Nat → RangeOrder, (∀ n, (order n).Visits) →
      MemRepo.new.answers order 0 calls = PostgresRepo.init.answers calls) ↔
        PostgresRepo.Along Agreeing .init calls :=
  answers_eq_iff same_new hkeys 0

/-- The env an image is built for and started in, as the services record it. -/
def imageHistory : List RepoCall :=
  let v := ascii "base"
  let w := ascii "env"
  let e := ascii "e"
  let s₀ := ascii "s0"
  let s₁ := ascii "s1"
  let alpine := ascii "alpine"
  [.createVolume ⟨v, 8, 4, [], []⟩, .updateLastNode v (ascii "node-a"),
    .createSnapshot ⟨s₀, v, ascii "manifests/s0.json"⟩, .updateLatestSnapshot v s₀,
    .createBaseImage ⟨ascii "i", alpine, ascii "sha256:1", v, s₀, 8, some [ascii "A=1"], ascii "/",
      none, some [ascii "sh"], []⟩,
    .getBaseImageByRef alpine, .createVolume ⟨w, 8, 4, s₀, []⟩,
    .createEnv ⟨e, ascii "i", alpine, w, s₀⟩, .createSnapshot ⟨s₁, w, ascii "manifests/s1.json"⟩,
    .updateEnvSnapshot e s₁, .getEnv e, .getEnv (ascii "f")]

/-- On such a history the two repositories answer alike. -/
theorem memRepo_answers_iff_imageHistory : PostgresRepo.Along KeysHold .init imageHistory ∧
    ∀ order : Nat → RangeOrder, (∀ n, (order n).Visits) →
      MemRepo.new.answers order 0 imageHistory = PostgresRepo.init.answers imageHistory := by
  have hkeys : PostgresRepo.Along KeysHold .init imageHistory := by decide +kernel
  exact ⟨hkeys, (memRepo_answers_iff imageHistory hkeys).mpr (by decide +kernel)⟩

/-- A volume is created again after its pointer moved. -/
def createdAgain : List RepoCall :=
  let v := ascii "v"
  [.createVolume ⟨v, 8, 4, [], []⟩, .updateLatestSnapshot v (ascii "s"),
    .createVolume ⟨v, 8, 4, [], []⟩, .getVolume v]

/-- **The repositories part.** In memory the second creation drops the pointer, in Postgres it returns the
volume that is there. And a lookup of a byte that is not UTF-8 finds nothing in memory and fails in
Postgres. -/
theorem memRepo_forgets_pointer :
    PostgresRepo.Along KeysHold .init createdAgain ∧
      (MemRepo.new.answers (fun _ => id) 0 createdAgain).drop 2 =
        [.ok (.volume ⟨ascii "v", 8, 4, [], []⟩), .ok (.volume ⟨ascii "v", 8, 4, [], []⟩)] ∧
      (PostgresRepo.init.answers createdAgain).drop 2 =
        [.ok (.volume ⟨ascii "v", 8, 4, ascii "s", []⟩),
          .ok (.volume ⟨ascii "v", 8, 4, ascii "s", []⟩)] ∧
      MemRepo.new.answers (fun _ => id) 0 [.getVolume [0xFF]] = [.error .notFound] ∧
      PostgresRepo.init.answers [.getVolume [0xFF]] = [.error .io] := by
  refine ⟨by decide +kernel, by decide +kernel, by decide +kernel, by decide +kernel, by decide +kernel⟩

end OrcaBlocks.Storage.Repository
