/-
# OrcaBlocks.Storage.Invariant — what every reachable state of the engine satisfies.

`Closed` is content-address closure: an object `chunks/<id>` hashes to `<id>`, a recorded snapshot's
manifest is in the store and decodes, every chunk a manifest names is in the store with the chunk
size of its volume, a volume's pointer names a recorded snapshot, and what a cache holds under a
chunk id hashes to it. `Grows` is what any step of anyone may do to the shared state: add to it,
never take away or change.

Two chunks with one hash would break all of this, so the results about it are for runs without a
step that hashes a chunk to the hash of a different, earlier one (`CollisionFree`).
-/
import OrcaBlocks.Storage.Backend
import OrcaBlocks.Storage.ChunkIndexes
import OrcaBlocks.Storage.Wire

namespace OrcaBlocks.Storage

open OrcaBlocks.Lib Function

variable {id : String} {m : Manifest} {objects : String → Option Bytes} {v v' : Volume} {i : Int64}
  {b : Bytes}

/-! ## Names -/

section Names

variable (P : Platform)

/-- The name of a chunk. -/
def IsChunkID (id : String) : Prop := ∃ b, P.hash b = id

private theorem digitChar_isAlphanum : ∀ n : Fin 16, (Nat.digitChar n.1).isAlphanum := by decide

/-- A plain string has no other characters. -/
theorem PlainString.ne {s : String} (h : PlainString s) {c d : Char} (hc : c ∈ s.toList)
    (hd : ¬ (d.isAlphanum ∨ d = '-')) : c ≠ d := by
  rintro rfl
  exact hd (h c hc)

theorem plainString_hexEncode (b : Bytes) : PlainString (hexEncode b) := by
  intro c hc
  simp only [hexEncode, String.toList_ofList, List.mem_flatMap, hexByte, List.mem_cons,
    List.not_mem_nil, or_false] at hc
  obtain ⟨x, -, rfl | rfl⟩ := hc
  · exact Or.inl (digitChar_isAlphanum ⟨x.toNat / 16, by have := x.toNat_lt; omega⟩)
  · exact Or.inl (digitChar_isAlphanum ⟨x.toNat % 16, by omega⟩)

theorem plainString_formatInt (i : Int64) : PlainString (formatInt i) := by
  have hdigits : ∀ n : Nat, ∀ c ∈ n.repr.toList, c.isAlphanum ∨ c = '-' := by
    intro n c hc
    rw [Nat.toList_repr] at hc
    have hdigit := Nat.isDigit_of_mem_toDigits (b := 10) (by decide) (by decide) hc
    exact Or.inl (by simp [Char.isAlphanum, hdigit])
  unfold formatInt PlainString
  split
  · intro c hc
    rw [String.toList_append, List.mem_append] at hc
    rcases hc with hc | hc
    · exact Or.inr (by simpa using hc)
    · exact hdigits _ c hc
  · exact hdigits _

theorem IsChunkID.plain (h : IsChunkID P id) : PlainString id := by
  obtain ⟨b, rfl⟩ := h
  exact plainString_hexEncode _

/-- A chunk id is 64 characters long. -/
theorem IsChunkID.length (h : IsChunkID P id) : id.toList.length = 64 := by
  obtain ⟨b, rfl⟩ := h
  have hlen : ∀ l : Bytes, (l.flatMap hexByte).length = 2 * l.length := by
    intro l
    induction l with
    | nil => rfl
    | cons x xs ih =>
      rw [List.flatMap_cons, List.length_append, ih, List.length_cons]
      simp [hexByte]
      omega
  rw [Platform.hash, hexEncode, String.toList_ofList, hlen, P.sum256_length]

theorem IsChunkID.ne_empty (h : IsChunkID P id) : id ≠ "" := by
  rintro rfl
  exact absurd (h.length P) (by decide)

/-- A plain name is a single path component. -/
theorem filepathJoin_plain (dir : Path) (hplain : PlainString id) (hne : id ≠ "") :
    filepathJoin dir id = dir ++ [id] := by
  have hsplit : id.toList.splitOn '/' = [id.toList] := by
    refine List.splitOnP_eq_singleton fun c hc => ?_
    exact beq_eq_false_iff_ne.mpr (hplain.ne hc (by decide))
  have h1 : id ≠ "." := by
    rintro rfl
    exact hplain.ne (c := '.') (by decide) (by decide) rfl
  have h2 : id ≠ ".." := by
    rintro rfl
    exact hplain.ne (c := '.') (by decide) (by decide) rfl
  simp [filepathJoin, hsplit, cleanStep, hne, h1, h2]

theorem tempName_not_chunkID (n : Nat) : ¬ IsChunkID P (tempName n) := by
  intro h
  exact (h.plain P).ne (c := '.') (by simp [tempName]) (by decide) rfl

/-- Reading a numeral back undoes writing it. -/
theorem repr_injective : Injective Nat.repr :=
  Function.LeftInverse.injective (g := fun s => Nat.ofDigitChars 10 s.toList 0) fun n => by
    simp only [Nat.toList_repr, Nat.ofDigitChars_ten_toDigits]

theorem tempName_injective : Injective tempName := fun _ _ h =>
  repr_injective ((String.append_right_inj _).mp h)

theorem chunkKey_injective : Injective chunkKey := fun _ _ h =>
  (String.append_right_inj _).mp h

theorem manifestKey_injective : Injective manifestKey := fun _ _ h =>
  (String.append_right_inj _).mp ((String.append_left_inj _).mp h)

theorem chunkKey_ne_manifestKey (a b : String) : chunkKey a ≠ manifestKey b := by
  intro h
  have hhead := congrArg (fun s : String => s.toList.head?) h
  simp [chunkKey, manifestKey] at hhead

end Names

/-! ## Closure -/

section Closure

variable (P : Platform)

/-- `b` was hashed, to `id`. -/
def Hashes (hashed : List Bytes) (id : String) (b : Bytes) : Prop := P.hash b = id ∧ b ∈ hashed

/-- No two chunks that were hashed have one hash. -/
def NoCollision (hashed : List Bytes) : Prop :=
  ∀ b ∈ hashed, ∀ b' ∈ hashed, P.hash b = P.hash b' → b = b'

/-- The manifest an object decodes to, as `loadManifest` decodes it. -/
def manifestAt (objects : String → Option Bytes) (key : String) : Option Manifest :=
  (objects key).bind fun raw => (P.unmarshal raw).bind fun wire => (manifestFromWire wire).toOption

/-- Chunk ids that need no escaping make a wire map that needs none. -/
theorem plain_manifestToWire (hplain : ∀ i id, m.lookup i = some id → PlainString id) :
    ∀ e ∈ (manifestToWire m).entries, PlainString e.1 ∧ PlainString e.2 := by
  intro e he
  obtain ⟨i, hi⟩ := exists_index_of_mem_manifestToWire (m := m) (k := e.1)
    (List.mem_keys_of_mem he)
  have hlookup : (manifestToWire m).lookup e.1 = some e.2 := AList.mem_lookup_iff.mpr he
  rw [hi, lookup_manifestToWire] at hlookup
  exact ⟨hi ▸ plainString_formatInt i, hplain i e.2 hlookup⟩

/-- A saved manifest is found again: `saveManifest` and `loadManifest` are inverse. -/
theorem manifestAt_saved {key : String}
    (hsaved : objects key = some (P.marshalIndent (manifestToWire m)))
    (hplain : ∀ i id, m.lookup i = some id → PlainString id) :
    ∃ m', manifestAt P objects key = some m' ∧ ∀ i, m'.lookup i = m.lookup i := by
  obtain ⟨wire, hwire, hsame⟩ :=
    P.unmarshal_marshalIndent (manifestToWire m) (plain_manifestToWire hplain)
  obtain ⟨m', hm', hlookup⟩ := manifestFromWire_of_lookup_eq hsame
  refine ⟨m', ?_, hlookup⟩
  rw [manifestAt, hsaved, Option.bind_some, hwire, Option.bind_some, hm']
  rfl

/-- The step does not hash a chunk to the hash of a different, earlier one. -/
def CollisionFree (w : World) : Op → Prop
  | .hashChunk b => ∀ b' ∈ w.hashed, P.hash b' = P.hash b → b' = b
  | _ => True

/-- The end of the last chunk is a position the engine's arithmetic can represent, and no size asks
for a default. -/
structure SizesFit (v : Volume) : Prop where
  bound : v.sizeBytes.toInt + v.chunkSize.toInt ≤ 2 ^ 63
  size_ne : v.sizeBytes ≠ 0
  chunk_ne : v.chunkSize ≠ 0

/-- Chunk `i` begins inside the volume. -/
def InVolume (v : Volume) (i : Int64) : Prop :=
  0 ≤ i.toInt * v.chunkSize.toInt ∧ i.toInt * v.chunkSize.toInt < v.sizeBytes.toInt

/-- A chunk that holds a position of the volume begins inside it. -/
theorem inVolume_of_lt {lo : Nat} (hpos : 0 < v.chunkSize.toInt)
    (hi : i.toInt = (lo / natOf v.chunkSize : Nat)) (hlo : (lo : Int) < v.sizeBytes.toInt) :
    InVolume v i := by
  have hcs : (natOf v.chunkSize : Int) = v.chunkSize.toInt := natOf_cast (by omega)
  have hprod : i.toInt * v.chunkSize.toInt = (lo / natOf v.chunkSize * natOf v.chunkSize : Nat) := by
    rw [hi, ← hcs]
    push_cast
    rfl
  have hle : lo / natOf v.chunkSize * natOf v.chunkSize ≤ lo := Nat.div_mul_le_self _ _
  rw [InVolume, hprod]
  omega

/-- Every chunk the manifest names begins inside the volume and is in the store, at full length. -/
structure GoodManifest (objects : String → Option Bytes) (v : Volume) (m : Manifest) : Prop where
  inVolume : ∀ i id, m.lookup i = some id → InVolume v i
  chunk : ∀ i id, m.lookup i = some id →
    ∃ b, objects (chunkKey id) = some b ∧ (b.length : Int) = v.chunkSize.toInt

/-- Two records of volumes with the same geometry. -/
def SameShape (v v' : Volume) : Prop :=
  v.sizeBytes = v'.sizeBytes ∧ v.chunkSize = v'.chunkSize

/-- What a node's cache holds under a chunk id hashes to it. -/
structure CacheGood (w : World) (n : Nat) : Prop where
  memory : (w.caches n).memory.Holds (Hashes P w.hashed)
  files : ∀ dir id file, IsChunkID P id → (w.caches n).files.lookup (dir ++ [id]) = some file →
    Hashes P w.hashed id file.data

/-- A snapshot's manifest is in the store, decodes, and is good for `v`. -/
def GoodSnapshot (objects : String → Option Bytes) (v : Volume) (s : Snapshot) : Prop :=
  ∃ m, manifestAt P objects s.manifestKey = some m ∧ GoodManifest objects v m

/-- Content-address closure. -/
structure Closed (w : World) : Prop where
  noCollision : NoCollision P w.hashed
  objects : ∀ id b, w.objects (chunkKey id) = some b → Hashes P w.hashed id b
  volumes : ∀ id v, w.volumes id = some v → v.volumeID = id ∧ SizesFit v
  snapshots : ∀ id s, w.snapshots id = some s →
    s.snapshotID = id ∧ ∃ v, w.volumes s.volumeID = some v ∧ GoodSnapshot P w.objects v s
  latest : ∀ id v, w.volumes id = some v → v.latestSnapshotID ≠ "" →
    ∃ s, w.snapshots v.latestSnapshotID = some s ∧
      ∀ v', w.volumes s.volumeID = some v' → SameShape v v'
  images : ∀ id i, w.images id = some i →
    ∃ s, w.snapshots i.snapshotID = some s ∧ s.volumeID = i.volumeID
  sessions : ∀ r s, w.sessions r = some s →
    (∃ v, w.volumes s.volume.volumeID = some v ∧ SameShape s.volume v) ∧
      GoodManifest w.objects s.volume s.baseManifest ∧
      ∀ i, s.dirty.lookup i = some () → InVolume s.volume i
  caches : ∀ n, CacheGood P w n
  fresh : ∀ k, w.uuids ≤ k → w.objects (manifestKey (P.uuid k)) = none ∧
    w.snapshots (P.uuid k) = none ∧ ∀ n, w.sessions (n, P.uuid k) = none

/-- What a step of anyone may do to the shared state. -/
structure Grows (w w' : World) : Prop where
  objects : ∀ key b, w.objects key = some b → w'.objects key = some b
  snapshots : ∀ id s, w.snapshots id = some s → w'.snapshots id = some s
  volumes : ∀ id v, w.volumes id = some v → ∃ v', w'.volumes id = some v' ∧ SameShape v v'
  sessions : ∀ r s, w.sessions r = some s → ∃ s', w'.sessions r = some s' ∧ s'.volume = s.volume
  hashed : ∀ b ∈ w.hashed, b ∈ w'.hashed
  uuids : w.uuids ≤ w'.uuids
  temps : w.temps ≤ w'.temps
  uuidOwner : ∀ k < w.uuids, w'.uuidOwner k = w.uuidOwner k
  tempOwner : ∀ k < w.temps, w'.tempOwner k = w.tempOwner k

variable {P} {w w' w'' : World}

theorem SameShape.refl (v : Volume) : SameShape v v := ⟨rfl, rfl⟩

theorem SameShape.symm (h : SameShape v v') : SameShape v' v :=
  ⟨h.1.symm, h.2.symm⟩

theorem SameShape.trans {v'' : Volume} (h : SameShape v v') (h' : SameShape v' v'') :
    SameShape v v'' := ⟨h.1.trans h'.1, h.2.trans h'.2⟩

theorem Grows.refl (w : World) : Grows w w where
  objects := fun _ _ h => h
  snapshots := fun _ _ h => h
  volumes := fun _ v h => ⟨v, h, .refl v⟩
  sessions := fun _ s h => ⟨s, h, rfl⟩
  hashed := fun _ h => h
  uuids := le_refl _
  temps := le_refl _
  uuidOwner := fun _ _ => rfl
  tempOwner := fun _ _ => rfl

theorem Grows.trans (h : Grows w w') (h' : Grows w' w'') : Grows w w'' where
  objects := fun key b hb => h'.objects key b (h.objects key b hb)
  snapshots := fun id s hs => h'.snapshots id s (h.snapshots id s hs)
  volumes := by
    intro id v hv
    obtain ⟨v', hv', hshape⟩ := h.volumes id v hv
    obtain ⟨v'', hv'', hshape'⟩ := h'.volumes id v' hv'
    exact ⟨v'', hv'', hshape.trans hshape'⟩
  sessions := by
    intro r s hs
    obtain ⟨s', hs', hvol⟩ := h.sessions r s hs
    obtain ⟨s'', hs'', hvol'⟩ := h'.sessions r s' hs'
    exact ⟨s'', hs'', hvol'.trans hvol⟩
  hashed := fun b hb => h'.hashed b (h.hashed b hb)
  uuids := h.uuids.trans h'.uuids
  temps := h.temps.trans h'.temps
  uuidOwner := fun k hk =>
    (h'.uuidOwner k (hk.trans_le h.uuids)).trans (h.uuidOwner k hk)
  tempOwner := fun k hk =>
    (h'.tempOwner k (hk.trans_le h.temps)).trans (h.tempOwner k hk)

/-- A cache that is good stays good when only the rest of the world changes. -/
theorem CacheGood.congr {n : Nat} (h : CacheGood P w n) (hcache : w'.caches n = w.caches n)
    (hhashed : w'.hashed = w.hashed) : CacheGood P w' n where
  memory := by rw [hcache, hhashed]; exact h.memory
  files := by rw [hcache, hhashed]; exact h.files

/-- Closure is about the shared state, the session objects and the caches only. -/
theorem Closed.congr (h : Closed P w) (hhashed : w'.hashed = w.hashed)
    (hobjects : w'.objects = w.objects) (hvolumes : w'.volumes = w.volumes)
    (hsnapshots : w'.snapshots = w.snapshots) (himages : w'.images = w.images)
    (hsessions : w'.sessions = w.sessions) (huuids : w'.uuids = w.uuids)
    (hcaches : ∀ n, CacheGood P w' n) : Closed P w' where
  noCollision := hhashed ▸ h.noCollision
  objects := by rw [hobjects, hhashed]; exact h.objects
  volumes := by rw [hvolumes]; exact h.volumes
  snapshots := by rw [hsnapshots, hvolumes, hobjects]; exact h.snapshots
  latest := by rw [hvolumes, hsnapshots]; exact h.latest
  images := by rw [himages, hsnapshots]; exact h.images
  sessions := by rw [hsessions, hvolumes, hobjects]; exact h.sessions
  caches := hcaches
  fresh := by rw [huuids, hobjects, hsnapshots, hsessions]; exact h.fresh

/-- The sizes of a session's volume fit. -/
theorem Closed.fits (h : Closed P w) {r : SessRef} {s : Session} (hs : w.sessions r = some s) :
    SizesFit s.volume := by
  obtain ⟨⟨v, hv, hshape⟩, -⟩ := h.sessions r s hs
  obtain ⟨-, hbound, hsize, hchunk⟩ := h.volumes _ v hv
  rw [← hshape.1, ← hshape.2] at hbound
  exact ⟨hbound, hshape.1 ▸ hsize, hshape.2 ▸ hchunk⟩

/-- A session object may change as long as it stays a good session of its volume. -/
theorem Closed.modifySession (h : Closed P w) (r : SessRef) (f : Session → Session)
    (hf : ∀ s, w.sessions r = some s → (f s).volume = s.volume ∧
      GoodManifest w.objects s.volume (f s).baseManifest ∧
        ∀ i, (f s).dirty.lookup i = some () → InVolume s.volume i) :
    Closed P (w.modifySession r f) where
  noCollision := h.noCollision
  objects := h.objects
  volumes := h.volumes
  snapshots := h.snapshots
  latest := h.latest
  images := h.images
  sessions := by
    intro r' s' hs'
    by_cases hr : r' = r
    · subst hr
      simp only [World.modifySession, update_self] at hs'
      obtain ⟨s, hs, rfl⟩ := Option.map_eq_some_iff.mp hs'
      obtain ⟨hvol, hbase, hdirty⟩ := hf s hs
      rw [hvol]
      exact ⟨(h.sessions r' s hs).1, hbase, hdirty⟩
    · simp only [World.modifySession, update_of_ne hr] at hs'
      exact h.sessions r' s' hs'
  caches := fun n => (h.caches n).congr rfl rfl
  fresh := by
    intro k hk
    obtain ⟨hobj, hsnap, hsess⟩ := h.fresh k hk
    refine ⟨hobj, hsnap, fun n => ?_⟩
    by_cases hr : (n, P.uuid k) = r
    · simp only [World.modifySession, ← hr, update_self, hsess n, Option.map_none]
    · simp only [World.modifySession, update_of_ne hr]
      exact hsess n

/-! ### What growth keeps -/

theorem Hashes.grow (h : Hashes P w.hashed id b) (hg : Grows w w') :
    Hashes P w'.hashed id b := ⟨h.1, hg.hashed b h.2⟩

/-- Two chunks under one id are one chunk. -/
theorem Closed.hashes_unique (h : Closed P w) {b' : Bytes} (hb : Hashes P w.hashed id b)
    (hb' : Hashes P w.hashed id b') : b = b' :=
  h.noCollision b hb.2 b' hb'.2 (hb.1.trans hb'.1.symm)

theorem GoodManifest.grow (h : GoodManifest w.objects v m) (hg : Grows w w') :
    GoodManifest w'.objects v m where
  inVolume := h.inVolume
  chunk := by
    intro i id hi
    obtain ⟨b, hb, hlen⟩ := h.chunk i id hi
    exact ⟨b, hg.objects _ b hb, hlen⟩

/-- Only the lookups of a manifest matter. -/
theorem GoodManifest.congr {m' : Manifest} (h : GoodManifest objects v m)
    (hm : ∀ i, m'.lookup i = m.lookup i) : GoodManifest objects v m' where
  inVolume := fun i id hi => h.inVolume i id (hm i ▸ hi)
  chunk := fun i id hi => h.chunk i id (hm i ▸ hi)

/-- A chunk of the volume that is in the store may be added. -/
theorem GoodManifest.insert (h : GoodManifest objects v m) (hin : InVolume v i)
    (hobject : objects (chunkKey id) = some b) (hlen : (b.length : Int) = v.chunkSize.toInt) :
    GoodManifest objects v (m.insert i id) := by
  have hcases : ∀ j id', (m.insert i id).lookup j = some id' →
      (j = i ∧ id' = id) ∨ m.lookup j = some id' := by
    intro j id' hj
    by_cases hji : j = i
    · subst hji
      rw [AList.lookup_insert, Option.some.injEq] at hj
      exact Or.inl ⟨rfl, hj.symm⟩
    · rw [AList.lookup_insert_ne hji] at hj
      exact Or.inr hj
  refine ⟨?_, ?_⟩
  · intro j id' hj
    rcases hcases j id' hj with ⟨rfl, -⟩ | hold
    · exact hin
    · exact h.inVolume j id' hold
  · intro j id' hj
    rcases hcases j id' hj with ⟨-, rfl⟩ | hold
    · exact ⟨b, hobject, hlen⟩
    · exact h.chunk j id' hold

/-- The chunks of a good manifest are named by their hashes. -/
theorem GoodManifest.isChunkID (h : GoodManifest w.objects v m) (hclosed : Closed P w)
    (hi : m.lookup i = some id) : IsChunkID P id := by
  obtain ⟨b, hb, -⟩ := h.chunk i id hi
  exact ⟨b, (hclosed.objects id b hb).1⟩

theorem GoodManifest.shape (h : GoodManifest w.objects v m) (hs : SameShape v v') :
    GoodManifest w.objects v' m where
  inVolume := by
    intro i id hi
    have hin := h.inVolume i id hi
    rwa [InVolume, hs.1, hs.2] at hin
  chunk := by
    intro i id hi
    rw [← hs.2]
    exact h.chunk i id hi

theorem manifestAt_grow {key : String} (h : manifestAt P w.objects key = some m) (hg : Grows w w') :
    manifestAt P w'.objects key = some m := by
  obtain ⟨raw, hraw, hdec⟩ := Option.bind_eq_some_iff.mp h
  exact Option.bind_eq_some_iff.mpr ⟨raw, hg.objects key raw hraw, hdec⟩

theorem GoodSnapshot.grow {s : Snapshot} (h : GoodSnapshot P w.objects v s) (hg : Grows w w') :
    GoodSnapshot P w'.objects v s := by
  obtain ⟨m, hm, hgood⟩ := h
  exact ⟨m, manifestAt_grow hm hg, hgood.grow hg⟩

theorem GoodSnapshot.shape {s : Snapshot} (h : GoodSnapshot P w.objects v s) (hs : SameShape v v') :
    GoodSnapshot P w.objects v' s := by
  obtain ⟨m, hm, hgood⟩ := h
  exact ⟨m, hm, hgood.shape hs⟩

theorem closed_initial : Closed P World.initial where
  noCollision := by intro b hb; cases hb
  objects := by intro id b hb; cases hb
  volumes := by intro id v hv; cases hv
  snapshots := by intro id s hs; cases hs
  latest := by intro id v hv; cases hv
  images := by intro id i hi; cases hi
  sessions := by intro r s hs; cases hs
  caches := fun n => ⟨MemoryTier.holds_empty, by intro dir id file _ hfile; cases hfile⟩
  fresh := fun k _ => ⟨rfl, rfl, fun _ => rfl⟩

end Closure

end OrcaBlocks.Storage
