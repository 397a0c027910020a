/-
# OrcaBlocks.Storage.Threads — every function keeps the world closed, whatever the others do.

Each function of the engine is proved against interference: before each of its operations other
threads may have done anything that respects it (`Rely`), and any operation may fail. It keeps the
world closed and respects the others (`Safe`). What a function needs to remember across interference
is always a fact that survives growth: a volume's sizes, an object, a good manifest, a UUID it owns.
-/
import OrcaBlocks.Storage.ChunkIndexes
import OrcaBlocks.Storage.Steps

namespace OrcaBlocks.Storage

open OrcaBlocks.Lib Backend

variable {o : Op} {w : World} {α : Type} {id : String} {volume : Volume}

/-- The precondition of a thread for keeping the world closed. -/
abbrev Safe (P : Platform) (who : Caller) (allowed : Fault → World → Op → Prop) {α : Type}
    (t : Prog sig α) (Q : α → World → Prop) (w : World) : Prop :=
  WpRG (machine P allowed who) (Closed P) (Rely P who) (Guar P who) t Q w

section Threads

variable {P : Platform} {who : Caller} {allowed : Fault → World → Op → Prop}

/-! ## Rules -/

/-- One operation. What it is known to leave is known with the growth since the thread last looked. -/
theorem safe_op {Q : Res o → World → Prop} (h : ∀ w₁ f, Rely P who w w₁ → Closed P w₁ → allowed f w₁ o →
      Kept P who w₁ (exec P who f w₁ o).2 ∧ (Grows w (exec P who f w₁ o).2 →
        Q (exec P who f w₁ o).1 (exec P who f w₁ o).2)) : Safe P who allowed (perform o) Q w := by
  intro w₁ hrely hclosed f hf
  obtain ⟨hkept, hQ⟩ := h w₁ f hrely hclosed hf
  exact ⟨hkept.closed, hkept.guar, hQ (hrely.grows.trans hkept.guar.grows)⟩

theorem safe_harmless (ho : o.Harmless P who) {Q : Res o → World → Prop}
    (h : ∀ w₁ f, Rely P who w w₁ → Closed P w₁ → Grows w (exec P who f w₁ o).2 →
      Q (exec P who f w₁ o).1 (exec P who f w₁ o).2) : Safe P who allowed (perform o) Q w :=
  safe_op fun w₁ f hrely hclosed _ => ⟨ho f w₁ hclosed, h w₁ f hrely hclosed⟩

/-- An operation of no consequence: it looks like interference to the thread itself. -/
theorem safe_local (ho : o.isLocal = true) {Q : Res o → World → Prop}
    (h : ∀ res w', Rely P who w w' → Q res w') : Safe P who allowed (perform o) Q w :=
  safe_harmless (harmless_of_isLocal ho) fun w₁ f hrely _ _ =>
    h _ _ (hrely.trans ((exec_local f w₁ ho).respects _))

theorem safe_ignore (ho : o.isLocal = true) {Q : Res o → World → Prop}
    (h : ∀ res w', Grows w w' → Q res w') : Safe P who allowed (perform o) Q w :=
  safe_local ho fun res w' hrely => h res w' hrely.grows

/-- Across a whole function the world grows. -/
theorem Safe.grows {t : Prog sig α} {Q : α → World → Prop} (h : Safe P who allowed t Q w) :
    Safe P who allowed t (fun a w' => Grows w w' ∧ Q a w') w :=
  WpRG.remember Grows.refl (fun h h' => h.trans h') (fun h => h.grows) (fun _ h => h.grows) h

theorem safe_access {Q : Except Err (Res o) → World → Prop}
    (h : Safe P who allowed (perform o) (fun a w' => Q (.ok a) w') w) :
    Safe P who allowed (access o).run Q w := run_lift_iff.mpr h

theorem safe_attempt {call : Prog sig (Except Err α)} {Q : Except Err (Except Err α) → World → Prop}
    (h : Safe P who allowed call (fun a w' => Q (.ok a) w') w) :
    Safe P who allowed (attempt call).run Q w := run_lift_iff.mpr h

theorem safe_ofResult {x : Except Err α} {Q : Except Err α → World → Prop} :
    Safe P who allowed (ofResult x).run Q w ↔ Q x w := Iff.rfl

theorem safe_run_bind {β : Type} {x : M α} {g : α → M β} {Q : Except Err β → World → Prop} :
    Safe P who allowed (x >>= g).run Q w ↔
      Safe P who allowed x.run (Machine.orElse Q fun a w' => Safe P who allowed (g a).run Q w') w :=
  run_bind_iff

/-- A step whose error ends the function: the rest is safe after every success. -/
theorem safe_bind {β : Type} {x : M α} {g : α → M β} {Q : Except Err β → World → Prop}
    {R : Except Err α → World → Prop} (h : Safe P who allowed x.run R w)
    (herr : ∀ e w', Grows w w' → Q (.error e) w')
    (hok : ∀ a w', Grows w w' → R (.ok a) w' → Safe P who allowed (g a).run Q w') :
    Safe P who allowed (x >>= g).run Q w := by
  rw [safe_run_bind]
  refine h.grows.mono ?_
  intro r w' hr
  obtain ⟨hgrows, hR⟩ := hr
  cases r with
  | error e => exact herr e w' hgrows
  | ok a => exact hok a w' hgrows hR

/-- The cache runs in this context. -/
theorem cacheContext : CacheContext P who allowed (Closed P) (Rely P who) False where
  good := fun _ h => h.caches who.node
  step := fun _ _ h hstep => h.cacheStep hstep
  rely := fun _ _ h => ⟨h.grows.hashed, h.grows.temps, h.grows.tempOwner, h.temps who.node⟩
  noFault := False.elim
  alone := False.elim

theorem safe_cache {t : Prog sig α} {Q : α → World → Prop}
    (h : WpRG (machine P allowed who) (Closed P) (Rely P who) (CacheStep P who) t Q w) :
    Safe P who allowed t Q w :=
  h.guarantee fun _ _ _ hstep => hstep.guar

/-! ## Sessions and chunks -/

/-- The session `id` of the thread's node is one of `v`. -/
def Open (who : Caller) (w : World) (id : String) (v : Volume) : Prop :=
  ∃ s, w.sessions (who.node, id) = some s ∧ s.volume = v

theorem Open.grow {w' : World} {v : Volume} (h : Open who w id v) (hgrows : Grows w w') :
    Open who w' id v := by
  obtain ⟨s, hs, rfl⟩ := h
  exact hgrows.sessions _ s hs

theorem session_safe (id : String) (w : World) :
    Safe P who allowed (Backend.session id).run
      (fun r w' => ∀ v, r = .ok v → Open who w' id v ∧ SizesFit v) w := by
  unfold Backend.session
  rw [safe_run_bind]
  refine safe_access (safe_harmless (harmless_of_isLocal rfl) fun w₁ f _ hclosed _ => ?_)
  rw [orElse_ok]
  simp only [exec]
  split
  · rename_i volume heq
    intro v hv
    obtain rfl := Except.ok.inj hv
    split at heq
    · obtain ⟨s, hs, rfl⟩ := Option.map_eq_some_iff.mp heq
      exact ⟨⟨s, hs, rfl⟩, hclosed.fits hs⟩
    · cases heq
  · intro v hv
    cases hv

/-- A chunk that passes `normalizeChunk` has the chunk size. -/
theorem length_normalizeChunk {b c : Bytes} {chunkSize : Int64}
    (h : normalizeChunk b chunkSize = .ok c) : (c.length : Int) = chunkSize.toInt := by
  unfold normalizeChunk at h
  split at h
  · rename_i heq
    obtain rfl := Except.ok.inj h
    exact heq
  · split at h
    · cases h
    · obtain rfl := Except.ok.inj h
      rw [List.length_append, List.length_replicate]
      omega

theorem readDirtyChunk_safe (id : String) (i chunkSize : Int64) (w : World) :
    Safe P who allowed (readDirtyChunk id i chunkSize).run
      (fun r _ => ∀ b, r = .ok b → (b.length : Int) = chunkSize.toInt) w := by
  unfold readDirtyChunk
  refine safe_bind (R := fun _ _ => True) (safe_ignore rfl fun _ _ _ => trivial) ?_ ?_
  · rintro e w' - b ⟨⟩
  · intro chunk w' _ _
    rw [safe_ofResult]
    exact fun b hb => length_normalizeChunk hb

theorem readDirtyRange_safe (id : String) (i offset length : Int64) (w : World) :
    Safe P who allowed (readDirtyRange id i offset length).run (fun _ _ => True) w := by
  unfold readDirtyRange
  exact safe_bind (R := fun _ _ => True) (safe_ignore rfl fun _ _ _ => trivial)
    (fun _ _ _ => trivial) fun _ _ _ _ => trivial

/-- Fetching a chunk that is in the store at full length. -/
theorem fetchChunk_safe (b : Backend) (id : String) {chunkID : String} {data : Bytes}
    (hobject : w.objects (chunkKey chunkID) = some data)
    (hlen : (data.length : Int) = volume.chunkSize.toInt) :
    Safe P who allowed (fetchChunk P b id volume chunkID).run (fun _ _ => True) w := by
  have hnorm : normalizeChunk data volume.chunkSize = .ok data := by
    rw [normalizeChunk, if_pos hlen]
  unfold fetchChunk
  rw [safe_run_bind]
  refine safe_access (safe_ignore rfl fun _ w₁ hg₁ => ?_)
  rw [orElse_ok, safe_run_bind]
  refine safe_attempt (safe_harmless (harmless_of_isLocal rfl) fun w₂ f hrely hclosed hg₂ => ?_)
  rw [orElse_ok]
  have hobject₂ := hrely.grows.objects _ data (hg₁.objects _ data hobject)
  have hhash := hclosed.objects chunkID data hobject₂
  have hres : (exec P who f w₂ (.storeGet (chunkKey chunkID))).1 = .ok data ∨
      (exec P who f w₂ (.storeGet (chunkKey chunkID))).1 = .error .io := by
    simp only [exec, hobject₂, execGet]
    exact Fault.on_cases (motive := fun d => d.1 = .ok data ∨ d.1 = .error .io) (Or.inl rfl)
      (fun _ => Or.inr rfl) fun _ => Or.inr rfl
  have hhash₂ : Hashes P (exec P who f w₂ (.storeGet (chunkKey chunkID))).2.hashed chunkID data := by
    rw [exec_read f w₂ rfl]
    exact hhash
  rcases hres with hres | hres
  · rw [hres, safe_run_bind]
    refine safe_access (safe_ignore rfl fun _ w₃ hg₃ => ?_)
    rw [orElse_ok, safe_run_bind, safe_ofResult, hnorm, orElse_ok]
    have hhash₃ : Hashes P w₃.hashed chunkID data := ⟨hhash₂.1, hg₃.hashed _ hhash₂.2⟩
    exact safe_bind (safe_cache (cacheContext.put_spec b.cache hhash₃)) (fun _ _ _ => trivial)
      fun _ _ _ _ => trivial
  · rw [hres]
    trivial

/-- What `baseChunk` answers is in the store at full length. -/
theorem Closed.baseChunk (hclosed : Closed P w) (hopen : Open who w id volume) {f : Fault} {i : Int64}
    {chunkID : String} (h : (exec P who f w (.baseChunk id i)).1 = some chunkID) :
    IsChunkID P chunkID ∧ ∃ data, w.objects (chunkKey chunkID) = some data ∧
      (data.length : Int) = volume.chunkSize.toInt := by
  obtain ⟨s, hs, rfl⟩ := hopen
  simp only [exec, hs, Option.bind_some] at h
  obtain ⟨data, hdata, hlen⟩ := (hclosed.sessions _ s hs).2.1.chunk i chunkID h
  exact ⟨⟨data, (hclosed.objects chunkID data hdata).1⟩, data, hdata, hlen⟩

theorem resolveWith_safe (b : Backend) (i : Int64) {dirtyPart : M Bytes}
    {cachedPart : String → M (Option Bytes)} {hit : Bytes → M Bytes} (part : Bytes → Bytes)
    (zeroes : Bytes) (hopen : Open who w id volume)
    (hdirty : ∀ w, Safe P who allowed dirtyPart.run (fun _ _ => True) w)
    (hcached : ∀ chunkID, IsChunkID P chunkID → ∀ w,
      Safe P who allowed (cachedPart chunkID).run (fun _ _ => True) w)
    (hhit : ∀ cached w, Safe P who allowed (hit cached).run (fun _ _ => True) w) :
    Safe P who allowed
      (resolveWith P b id volume i dirtyPart cachedPart hit part zeroes).run
      (fun _ _ => True) w := by
  unfold resolveWith
  rw [safe_run_bind]
  refine safe_access (safe_ignore rfl fun dirty w₁ hg₁ => ?_)
  rw [orElse_ok]
  split
  · exact hdirty w₁
  · rw [safe_run_bind]
    refine safe_access (safe_harmless (harmless_of_isLocal rfl) fun w₂ f hrely hclosed hg₂ => ?_)
    rw [orElse_ok]
    have hchunk : ∀ chunkID, (exec P who f w₂ (.baseChunk id i)).1 = some chunkID → _ :=
      fun _ h => hclosed.baseChunk ((hopen.grow hg₁).grow hrely.grows) h
    generalize (exec P who f w₂ (.baseChunk id i)).1 = base at hchunk
    cases base with
    | none =>
      rw [safe_run_bind]
      exact safe_access (safe_ignore rfl fun _ _ _ => trivial)
    | some chunkID =>
      obtain ⟨hid, data, hobject, hlen⟩ := hchunk chunkID rfl
      refine safe_bind (hcached chunkID hid _) (fun _ _ _ => trivial) ?_
      intro found w₃ hg₃ _
      cases found with
      | some cached =>
        dsimp only
        rw [safe_run_bind]
        exact safe_access (safe_ignore rfl fun _ w₄ _ => hhit cached w₄)
      | none =>
        refine safe_bind (fetchChunk_safe b id (hg₃.objects _ data hobject) hlen)
          (fun _ _ _ => trivial) ?_
        intro remote w₄ _ _
        cases remote with
        | some r => trivial
        | none => trivial

theorem resolveChunk_safe (b : Backend) (i : Int64) (hopen : Open who w id volume) :
    Safe P who allowed (resolveChunk P b id volume i).run (fun _ _ => True) w := by
  refine resolveWith_safe b i _ _ hopen ?_ ?_ fun _ _ => trivial
  · exact fun w => (readDirtyChunk_safe id i volume.chunkSize w).mono fun _ _ _ => trivial
  · exact fun chunkID hid w =>
      (safe_cache (cacheContext.get_spec b.cache hid w)).mono fun _ _ _ => trivial

theorem resolveChunkRange_safe (b : Backend) (i : Int64) {offset : Int64} (hoffset : 0 ≤ offset.toInt)
    (length : Int64) (hopen : Open who w id volume) :
    Safe P who allowed (resolveChunkRange P b id volume i offset length).run
      (fun _ _ => True) w := by
  refine resolveWith_safe b i _ _ hopen (readDirtyRange_safe id i offset length) ?_
    fun _ _ => trivial
  exact fun chunkID hid w =>
    (safe_cache (cacheContext.getRange_spec b.cache hid hoffset length w)).mono
      fun _ _ _ => trivial

/-! ## `Read` and `Write` -/

theorem readRanges_safe (b : Backend) {rs : List ChunkRange} (hrs : ∀ r ∈ rs, 0 ≤ r.chunkStart.toInt)
    (out : Bytes) (outPos : Int64) (hopen : Open who w id volume) :
    Safe P who allowed (readRanges P b id volume rs out outPos).run (fun _ _ => True) w := by
  induction rs generalizing out outPos w with
  | nil => trivial
  | cons r rs ih =>
    have hstart := hrs r List.mem_cons_self
    unfold readRanges
    refine safe_bind (resolveChunkRange_safe b r.index hstart _ hopen) (fun _ _ _ => trivial) ?_
    intro part w' hgrows _
    rw [safe_run_bind, safe_ofResult]
    cases sliceOf out outPos (outPos + (r.reqEnd - r.reqStart)) with
    | error e => trivial
    | ok _ => exact ih (fun r' hr' => hrs r' (List.mem_cons_of_mem _ hr')) _ _ (hopen.grow hgrows)

theorem read_safe (b : Backend) (id : String) (offset length : Int64) (w : World) :
    Safe P who allowed (Backend.read P b id offset length).run (fun _ _ => True) w := by
  unfold Backend.read
  refine safe_bind (session_safe id w) (fun _ _ _ => trivial) ?_
  intro volume w₁ _ hvolume
  obtain ⟨hopen, hfits⟩ := hvolume volume rfl
  split
  · trivial
  · rename_i hcheck
    rw [safe_run_bind, safe_ofResult]
    cases hrs : chunkIndexes offset length volume.chunkSize with
    | error e => trivial
    | ok rs =>
      obtain ⟨-, -, htiles⟩ := tiles_of_ok hfits.bound hcheck hrs
      exact readRanges_safe b (fun r hr => (htiles.mem r hr).1) _ _ hopen

theorem chunkToWrite_safe (b : Backend) (i : Int64) (hopen : Open who w id volume) :
    Safe P who allowed (chunkToWrite P b id volume i).run (fun _ _ => True) w := by
  unfold chunkToWrite
  rw [safe_run_bind]
  refine safe_access (safe_ignore rfl fun dirty w₁ hg₁ => ?_)
  rw [orElse_ok]
  split
  · exact (readDirtyChunk_safe id i volume.chunkSize w₁).mono fun _ _ _ => trivial
  · exact resolveChunk_safe b i (hopen.grow hg₁)

/-- A chunk is only ever marked if it begins inside the volume of the session. -/
theorem writeRanges_safe (b : Backend) (data : Bytes) {rs : List ChunkRange}
    (hrs : ∀ r ∈ rs, InVolume volume r.index) (dataPos : Int64) (hopen : Open who w id volume) :
    Safe P who allowed (writeRanges P b id volume data rs dataPos).run
      (fun _ _ => True) w := by
  induction rs generalizing dataPos w with
  | nil => trivial
  | cons r rs ih =>
    unfold writeRanges
    refine safe_bind (chunkToWrite_safe b r.index hopen) (fun _ _ _ => trivial) ?_
    intro chunk w₁ hg₁ _
    rw [safe_run_bind, safe_ofResult]
    cases sliceOf data dataPos (dataPos + (r.reqEnd - r.reqStart)) with
    | error e => trivial
    | ok part =>
      rw [orElse_ok]
      refine safe_bind (R := fun _ _ => True) (safe_ignore rfl fun _ _ _ => trivial)
        (fun _ _ _ => trivial) ?_
      intro _ w₂ hg₂ _
      have hopen₂ := (hopen.grow hg₁).grow hg₂
      rw [safe_run_bind]
      refine safe_access (safe_op fun w₃ f hrely hclosed _ => ⟨kept_setDirty hclosed f ?_, ?_⟩)
      · intro s hs
        obtain ⟨s', hs', hvol⟩ := hopen₂.grow hrely.grows
        obtain rfl : s = s' := Option.some.inj (hs.symm.trans hs')
        exact hvol ▸ hrs r List.mem_cons_self
      · intro hg₃
        rw [orElse_ok]
        exact ih (fun r' hr' => hrs r' (List.mem_cons_of_mem _ hr')) _ (hopen₂.grow hg₃)

theorem write_safe (b : Backend) (id : String) (offset : Int64) (data : Bytes) (w : World) :
    Safe P who allowed (Backend.write P b id offset data).run (fun _ _ => True) w := by
  unfold Backend.write
  refine safe_bind (session_safe id w) (fun _ _ _ => trivial) ?_
  intro volume w₁ _ hvolume
  obtain ⟨hopen, hfits⟩ := hvolume volume rfl
  dsimp only
  split
  · trivial
  · rename_i hcheck
    rw [safe_run_bind, safe_ofResult]
    cases hrs : chunkIndexes offset (Int64.ofNat data.length) volume.chunkSize with
    | error e => trivial
    | ok rs =>
      obtain ⟨hc, ⟨ho, hl, hle⟩, htiles⟩ :=
        tiles_of_ok hfits.bound (fun h => hcheck (Or.inr h)) hrs
      refine writeRanges_safe b data (fun r hr => ?_) _ hopen
      obtain ⟨-, p, -, hp, hindex⟩ := htiles.mem r hr
      refine inVolume_of_lt hc hindex ?_
      rw [← natOf_cast ho, ← natOf_cast hl] at hle
      omega

/-! ## Starting and stopping -/

/-- What an operation that looks something up answers. -/
theorem get_ok {f : Fault} {found : Option α} {a : α} (h : (f.on w (execGet w found)).1 = .ok a) :
    found = some a := by
  revert h
  refine Fault.on_cases (motive := fun d => d.1 = .ok a → found = some a) ?_ ?_ ?_
  · cases found with
    | none => intro h; cases h
    | some a' => intro h; exact congrArg some (Except.ok.inj h)
  · intro _ h; cases h
  · intro _ h; cases h

theorem loadManifest_safe (key : String) (w : World) :
    Safe P who allowed (loadManifest P key).run
      (fun r w' => ∀ m, r = .ok m → manifestAt P w'.objects key = some m) w := by
  unfold loadManifest
  rw [safe_run_bind]
  refine safe_harmless (harmless_of_isLocal rfl) fun w₁ f _ _ _ => ?_
  have hobjects : (exec P who f w₁ (.storeGet key)).2.objects = w₁.objects := by
    rw [exec_read f w₁ rfl]
  cases hraw : (exec P who f w₁ (.storeGet key)).1 with
  | error e =>
    intro m hm
    cases hm
  | ok raw =>
    rw [orElse_ok]
    cases hwire : P.unmarshal raw with
    | none =>
      intro m hm
      cases hm
    | some wire =>
      show ∀ m, manifestFromWire wire = .ok m → _
      intro m hm
      rw [hobjects, manifestAt, get_ok hraw, Option.bind_some, hwire, Option.bind_some, hm]
      rfl

/-- The manifest a session starts from is good for the volume as it was read. -/
theorem latestManifest_safe {w₀ : World} (hclosed : Closed P w₀) (hvolume : w₀.volumes id = some volume)
    (hgrows : Grows w₀ w) :
    Safe P who allowed (latestManifest P volume).run
      (fun r w' => ∀ m, r = .ok m → GoodManifest w'.objects volume m) w := by
  unfold latestManifest
  split
  · rename_i hne
    obtain ⟨s₀, hs₀, hshape⟩ := hclosed.latest id volume hvolume hne
    obtain ⟨-, v₀, hv₀, m₀, hm₀, hgood₀⟩ := hclosed.snapshots _ s₀ hs₀
    rw [safe_run_bind]
    refine safe_harmless (harmless_of_isLocal rfl) fun w₁ f hrely _ hg₁ => ?_
    cases hsnap : (exec P who f w₁ (.getSnapshot volume.latestSnapshotID)).1 with
    | error e =>
      intro m hm
      cases hm
    | ok s =>
      rw [orElse_ok]
      have hs : w₁.snapshots volume.latestSnapshotID = some s := get_ok hsnap
      obtain rfl : s = s₀ := by
        have := hrely.grows.snapshots _ s₀ (hgrows.snapshots _ s₀ hs₀)
        exact Option.some.inj (hs.symm.trans this)
      refine (loadManifest_safe s.manifestKey _).grows.mono ?_
      intro r w₂ hr m hm
      obtain ⟨hg₂, hload⟩ := hr
      have hall := (hgrows.trans hg₁).trans hg₂
      obtain rfl : m₀ = m :=
        Option.some.inj ((manifestAt_grow hm₀ hall).symm.trans (hload m hm))
      exact (hgood₀.shape (hshape v₀ hv₀).symm).grow hall
  · intro m hm
    obtain rfl := Except.ok.inj hm
    exact ⟨by simp, by simp⟩

/-- The thread owns the `k`-th UUID and nothing is stored under it. -/
structure Unused (P : Platform) (who : Caller) (w : World) (k : Nat) : Prop where
  lt : k < w.uuids
  owner : w.uuidOwner k = who
  manifest : w.objects (manifestKey (P.uuid k)) = none
  snapshot : w.snapshots (P.uuid k) = none
  session : ∀ n, w.sessions (n, P.uuid k) = none

/-- Nobody else stores anything under it. -/
theorem Unused.rely {w' : World} {k : Nat} (h : Unused P who w k) (hrely : Rely P who w w') :
    Unused P who w' k where
  lt := h.lt.trans_le hrely.grows.uuids
  owner := (hrely.grows.uuidOwner k h.lt).trans h.owner
  manifest := (hrely.manifests k h.lt h.owner).trans h.manifest
  snapshot := (hrely.snapshots k h.lt h.owner).trans h.snapshot
  session := fun n => hrely.sessions k h.lt h.owner n (h.session n)

theorem newString_safe {Q : Except Err String → World → Prop}
    (h : ∀ k w', Grows w w' → Unused P who w' k → Q (.ok (P.uuid k)) w') :
    Safe P who allowed (access .newString).run Q w := by
  refine safe_access (safe_harmless harmless_newString fun w₁ f _ hclosed hgrows => ?_)
  obtain ⟨hmanifest, hsnapshot, hsession⟩ := hclosed.fresh w₁.uuids (Nat.le_refl _)
  exact h w₁.uuids _ hgrows
    ⟨Nat.lt_succ_self _, Function.update_self _ _ _, hmanifest, hsnapshot, hsession⟩

theorem startSession_safe (b : Backend) (volumeID : String) (w : World) :
    Safe P who allowed (Backend.startSession P b volumeID).run
      (fun r w' => ∀ id, r = .ok id → ∃ v, Open who w' id v ∧ v.volumeID = volumeID) w := by
  unfold Backend.startSession
  rw [safe_run_bind]
  refine safe_harmless (harmless_of_isLocal rfl) fun w₁ f _ hclosed _ => ?_
  have hlocal : Respects P (fun _ => True) w₁ (exec P who f w₁ (.getVolume volumeID)).2 :=
    (exec_local f w₁ rfl).respects _
  cases hread : (exec P who f w₁ (.getVolume volumeID)).1 with
  | error e =>
    intro id hid
    cases hid
  | ok volume =>
    rw [orElse_ok]
    have hvolume : w₁.volumes volumeID = some volume := get_ok hread
    have hid := (hclosed.volumes _ volume hvolume).1
    refine safe_bind (latestManifest_safe hclosed hvolume hlocal.grows) ?_ ?_
    · intro e w' _ id h
      cases h
    · intro manifest w₂ hg₂ hmanifest
      have hgood := hmanifest manifest rfl
      rw [safe_run_bind]
      refine newString_safe fun k w₃ hg₃ hunused => ?_
      rw [orElse_ok, safe_run_bind]
      refine safe_local rfl fun res w₄ hrely₄ => ?_
      cases res with
      | error e =>
        intro id h
        cases h
      | ok u =>
        rw [orElse_ok, safe_run_bind]
        refine safe_access (safe_op fun w₅ f₅ hrely₅ hclosed₅ _ => ?_)
        have hunused₅ := (hunused.rely hrely₄).rely hrely₅
        have hgrows : Grows w₁ w₅ := hlocal.grows.trans (hg₂.trans (hg₃.trans
          (hrely₄.grows.trans hrely₅.grows)))
        have hgood₅ : GoodManifest w₅.objects volume manifest :=
          hgood.grow (hg₃.trans (hrely₄.grows.trans hrely₅.grows))
        obtain ⟨v, hv, hshape⟩ := hgrows.volumes _ volume hvolume
        refine ⟨kept_addSession hclosed₅ f₅ hunused₅.lt hunused₅.owner (hunused₅.session _)
          (s := ⟨volume, volume.latestSnapshotID, manifest, ∅⟩) (v := v) (hid.symm ▸ hv) hshape
          hgood₅ (by simp), ?_⟩
        intro _
        rw [orElse_ok, safe_run_bind]
        have hopen : Open who (exec P who f₅ w₅ (.addSession (P.uuid k)
            ⟨volume, volume.latestSnapshotID, manifest, ∅⟩)).2 (P.uuid k) volume :=
          ⟨_, Function.update_self _ _ _, rfl⟩
        refine safe_attempt (safe_harmless (harmless_updateLastNode _ _)
          fun w₆ f₆ _ _ hg₆ => ?_)
        rw [orElse_ok]
        cases (exec P who f₆ w₆ (.updateLastNode volumeID b.nodeID)).1 with
        | ok u =>
          intro id h
          obtain rfl := Except.ok.inj h
          exact ⟨volume, hopen.grow hg₆, hid⟩
        | error e =>
          dsimp only
          rw [safe_run_bind]
          refine safe_access (safe_ignore rfl fun _ w₇ _ => ?_)
          rw [orElse_ok, safe_run_bind]
          refine safe_attempt (safe_ignore rfl fun _ w₈ _ => ?_)
          intro id h
          cases h

theorem stop_safe (id : String) (w : World) :
    Safe P who allowed (Backend.stop id).run (fun _ _ => True) w := by
  unfold Backend.stop
  rw [safe_run_bind]
  refine safe_access (safe_ignore rfl fun ok w₁ _ => ?_)
  rw [orElse_ok]
  split
  · exact safe_ignore rfl fun _ _ _ => trivial
  · trivial

/-! ## Creating a volume -/

/-- `CreateVolume` of an empty volume. -/
theorem createVolume_safe (hfresh : ∀ f w o, allowed f w o → CreatesFresh w o) (id : String)
    (sizeBytes chunkSize : Int64) (w : World) :
    Safe P who allowed (Backend.createVolume id sizeBytes chunkSize).run (fun _ _ => True) w := by
  have hcreate : ∀ id w, Safe P who allowed
      (outside (perform (.createVolume ⟨id, sizeBytes, chunkSize, "", ""⟩))).run
      (fun _ _ => True) w := by
    intro id w
    exact safe_op fun w₁ f _ hclosed hf =>
      ⟨kept_createVolume hclosed f (hfresh _ _ _ hf) fun h => absurd rfl h, fun _ => trivial⟩
  unfold Backend.createVolume
  split
  · rw [safe_run_bind]
    refine newString_safe fun k w₁ _ _ => ?_
    rw [orElse_ok]
    exact hcreate _ w₁
  · exact hcreate id w

end Threads

end OrcaBlocks.Storage
