/-
# OrcaBlocks.Storage.CacheSpec — what `Get`, `GetRange` and `Put` guarantee.

A cache operation changes nothing but the cache of its node and keeps it good (`CacheStep`); no
thread touches the content of a temporary file another thread made. From that each function of the
cache gets ONE specification, over an arbitrary invariant and rely (`CacheContext`). The
atomic runs, the runs under faults and the interleaved pools are instances.

`quiet` is the case of a run alone and without faults; there the functions do not fail.
-/
import OrcaBlocks.Lib.Pool
import OrcaBlocks.Storage.Invariant

namespace OrcaBlocks.Storage

open OrcaBlocks.Lib

variable {α : Type} {f : Fault} {w : World} {k t : Nat} {files : AList fun _ : Path => CacheFile}
  {dir path : Path} {b : Bytes} {id : String}

/-! ## Faults -/

/-- A call under a fault succeeds, loses its reply, or has no effect. -/
theorem Fault.on_cases {d : Except Err α × World} {motive : Except Err α × World → Prop}
    (hdone : motive d) (hlate : f ≠ .none → motive (.error .io, d.2))
    (hfail : f ≠ .none → motive (.error .io, w)) : motive (f.on w d) := by
  cases f with
  | none => exact hdone
  | late => exact hlate (by simp)
  | fail => exact hfail (by simp)
  | wrote n => exact hfail (by simp)
  | kept keep => exact hfail (by simp)

/-! ## One operation -/

section Step

variable (P : Platform) (who : Caller)

/-- The content of the temporary file `k` is what it was, if the file is there. -/
def TempKept (n k : Nat) (w w' : World) : Prop :=
  ∀ dir file', (w'.caches n).files.lookup (dir ++ [tempName k]) = some file' →
    ∃ file, (w.caches n).files.lookup (dir ++ [tempName k]) = some file ∧ file.data = file'.data

/-- What a cache operation of `who` may do. -/
structure CacheStep (w w' : World) : Prop where
  frame : w' = { w with
    caches := Function.update w.caches who.node (w'.caches who.node)
    ticks := w'.ticks
    temps := w'.temps
    tempOwner := w'.tempOwner }
  good : CacheGood P w' who.node
  temps : w.temps ≤ w'.temps
  tempOwner : ∀ k < w.temps, w'.tempOwner k = w.tempOwner k
  foreign : ∀ k < w.temps, w.tempOwner k ≠ who → TempKept who.node k w w'

/-- What the cache functions need of the other threads. -/
structure CacheRely (w w' : World) : Prop where
  hashed : ∀ b ∈ w.hashed, b ∈ w'.hashed
  temps : w.temps ≤ w'.temps
  tempOwner : ∀ k < w.temps, w'.tempOwner k = w.tempOwner k
  own : ∀ k < w.temps, w.tempOwner k = who → TempKept who.node k w w'

/-- The assumptions the specifications of the cache share. -/
structure CacheContext (allowed : Fault → World → Op → Prop) (I : World → Prop)
    (R : World → World → Prop) (quiet : Prop) : Prop where
  good : ∀ w, I w → CacheGood P w who.node
  step : ∀ w w', I w → CacheStep P who w w' → I w'
  rely : ∀ w w', R w w' → CacheRely who w w'
  noFault : quiet → ∀ f w o, allowed f w o → f = .none
  alone : quiet → ∀ w w', R w w' → w' = w

variable {P who} {w' : World}

theorem TempKept.refl (n k : Nat) (w : World) : TempKept n k w w := fun _ file h => ⟨file, h, rfl⟩

theorem CacheStep.refl (h : CacheGood P w who.node) : CacheStep P who w w where
  frame := by simp
  good := h
  temps := le_refl _
  tempOwner := fun _ _ => rfl
  foreign := fun k _ _ => .refl _ k w

/-- Any change of the cache that keeps it good and leaves temporary files of others alone. -/
theorem CacheStep.of_setCache {c : CacheState}
    (hgood : CacheGood P { w.setCache who.node c with ticks := t } who.node)
    (hkept : ∀ k < w.temps, w.tempOwner k ≠ who → ∀ dir file',
      c.files.lookup (dir ++ [tempName k]) = some file' →
        ∃ file, (w.caches who.node).files.lookup (dir ++ [tempName k]) = some file ∧
          file.data = file'.data) : CacheStep P who w { w.setCache who.node c with ticks := t } where
  frame := by simp [World.setCache]
  good := hgood
  temps := le_refl _
  tempOwner := fun _ _ => rfl
  foreign := by
    intro k hk howner dir file' hfile
    simp only [World.setCache, Function.update_self] at hfile
    exact hkept k hk howner dir file' hfile

theorem cacheGood_setCache {c : CacheState} (hmem : c.memory.Holds (Hashes P w.hashed))
    (hfiles : ∀ dir id file, IsChunkID P id → c.files.lookup (dir ++ [id]) = some file →
      Hashes P w.hashed id file.data) :
    CacheGood P { w.setCache who.node c with ticks := t } who.node where
  memory := by simpa [World.setCache] using hmem
  files := by
    intro dir id file hid hfile
    simp only [World.setCache, Function.update_self] at hfile
    exact hfiles dir id file hid hfile

/-- Only the memory tier changes. -/
theorem CacheStep.of_memory (h : CacheGood P w who.node) {m : MemoryTier}
    (hm : m.Holds (Hashes P w.hashed)) : CacheStep P who w (w.setMemory who.node m) :=
  .of_setCache (t := w.ticks) (cacheGood_setCache hm h.files) fun _ _ _ _ file' hfile =>
    ⟨file', hfile, rfl⟩

/-- A file is removed, or stored under a name that is not another thread's temporary file. -/
theorem CacheStep.of_files (h : CacheGood P w who.node)
    (hgood : ∀ dir id file, IsChunkID P id → files.lookup (dir ++ [id]) = some file →
      Hashes P w.hashed id file.data) (hkept : ∀ k < w.temps, w.tempOwner k ≠ who → ∀ dir file',
      files.lookup (dir ++ [tempName k]) = some file' →
        ∃ file, (w.caches who.node).files.lookup (dir ++ [tempName k]) = some file ∧
          file.data = file'.data) : CacheStep P who w { w.setFiles who.node files with ticks := t } :=
  .of_setCache (cacheGood_setCache h.memory hgood) hkept

/-- No file gets a new content: files may go, and their times may change. -/
theorem CacheStep.of_kept (h : CacheGood P w who.node)
    (hkept : ∀ path file', files.lookup path = some file' →
      ∃ file, (w.caches who.node).files.lookup path = some file ∧ file.data = file'.data) :
    CacheStep P who w { w.setFiles who.node files with ticks := t } := by
  refine .of_files h ?_ fun k _ _ dir file' hfile => hkept _ file' hfile
  intro dir id file' hid hfile
  obtain ⟨file, hfile, hdata⟩ := hkept _ file' hfile
  rw [← hdata]
  exact h.files dir id file hid hfile

theorem lookup_erase_kept {path' : Path} {file' : CacheFile}
    (h : (files.erase path).lookup path' = some file') : files.lookup path' = some file' := by
  by_cases hp : path' = path
  · subst hp
    simp at h
  · rwa [AList.lookup_erase_ne hp] at h

/-- Two paths into directories differ when their last components do. -/
theorem append_singleton_ne {dir' : Path} {a b : String} (h : a ≠ b) : dir ++ [a] ≠ dir' ++ [b] := by
  intro he
  exact h (List.singleton_inj.mp (List.append_inj_right' he rfl))

/-! ### Each operation is a step -/

theorem step_getMemory (h : CacheGood P w who.node) (f : Fault) (id : String) :
    CacheStep P who w (exec P who f w (.getMemory id)).2 ∧
      ∀ b : Bytes, (exec P who f w (.getMemory id)).1 = some b → Hashes P w.hashed id b := by
  obtain ⟨hm, hb⟩ := MemoryTier.getMemory_holds h.memory id
  exact ⟨.of_memory h hm, hb⟩

theorem step_getMemoryRange (h : CacheGood P w who.node) (f : Fault) (id : String)
    (offset length : Int64) :
    CacheStep P who w (exec P who f w (.getMemoryRange id offset length)).2 ∧
      ∀ out : Bytes, (exec P who f w (.getMemoryRange id offset length)).1 = some out →
        ∃ b, Hashes P w.hashed id b ∧
          out = window (fun p => b.getD p 0) (natOf offset) (natOf length) := by
  obtain ⟨hm, hb⟩ := MemoryTier.getMemoryRange_holds h.memory id offset length
  exact ⟨.of_memory h hm, hb⟩

theorem step_putMemory (h : CacheGood P w who.node) (f : Fault) (memoryMax : Int64)
    (hb : Hashes P w.hashed id b) : CacheStep P who w (exec P who f w (.putMemory memoryMax id b)).2 :=
  .of_memory h (MemoryTier.putMemoryLocked_holds h.memory memoryMax hb)

theorem step_countEvicted (h : CacheGood P w who.node) (f : Fault) :
    CacheStep P who w (exec P who f w .countEvicted).2 :=
  .of_setCache (t := w.ticks) (cacheGood_setCache h.memory h.files) fun _ _ _ _ file' hfile =>
    ⟨file', hfile, rfl⟩

/-- An operation on a file that changes nothing when it fails. -/
theorem step_on (h : CacheGood P w who.node) (f : Fault) {d : Except Err α × World}
    (hdone : CacheStep P who w d.2) : CacheStep P who w (f.on w d).2 :=
  Fault.on_cases (motive := fun d => CacheStep P who w d.2) hdone (fun _ => hdone)
    fun _ => .refl h

theorem step_execCacheFile (h : CacheGood P w who.node) {act : CacheFile → Except Err α × World}
    (hact : ∀ file, (w.caches who.node).files.lookup path = some file →
      CacheStep P who w (act file).2) : CacheStep P who w (execCacheFile who w path act).2 := by
  unfold execCacheFile
  split
  · rename_i file hfile
    exact hact file hfile
  · exact .refl h

theorem step_closeTemp (h : CacheGood P w who.node) (f : Fault) (path : Path) :
    CacheStep P who w (exec P who f w (.closeTemp path)).2 :=
  step_on h f (d := (.ok (), w)) (.refl h)

theorem step_chtimes (h : CacheGood P w who.node) (f : Fault) (path : Path) :
    CacheStep P who w (exec P who f w (.chtimes path)).2 := by
  refine step_on h f (step_execCacheFile h fun file hfile => .of_kept h ?_)
  intro path' file' hlookup
  by_cases hp : path' = path
  · subst hp
    rw [AList.lookup_insert, Option.some.injEq] at hlookup
    exact ⟨file, hfile, by rw [← hlookup]⟩
  · rw [AList.lookup_insert_ne hp] at hlookup
    exact ⟨file', hlookup, rfl⟩

theorem step_removePath (h : CacheGood P w who.node) (f : Fault) (path : Path) :
    CacheStep P who w (exec P who f w (.removePath path)).2 :=
  step_on h f (step_execCacheFile h fun _ _ =>
    .of_kept (t := w.ticks) h fun _ file' hlookup => ⟨file', lookup_erase_kept hlookup, rfl⟩)

/-- A file is stored under a name that is neither a chunk id nor another thread's. -/
theorem CacheStep.of_insert_temp (h : CacheGood P w who.node) (dir : Path)
    (hk : ∀ k' < w.temps, w.tempOwner k' ≠ who → k' ≠ k) (file : CacheFile) :
    CacheStep P who w { w.setFiles who.node
      ((w.caches who.node).files.insert (dir ++ [tempName k]) file) with ticks := t } := by
  refine .of_files h ?_ ?_
  · intro dir' id file' hid hlookup
    have hne : id ≠ tempName k := fun he => tempName_not_chunkID P k (he ▸ hid)
    rw [AList.lookup_insert_ne (append_singleton_ne hne)] at hlookup
    exact h.files dir' id file' hid hlookup
  · intro k' hk' howner dir' file' hlookup
    have hne : tempName k' ≠ tempName k := tempName_injective.ne (hk k' hk' howner)
    rw [AList.lookup_insert_ne (append_singleton_ne hne)] at hlookup
    exact ⟨file', hlookup, rfl⟩

theorem step_createTemp (h : CacheGood P w who.node) (f : Fault) (dir : Path) :
    CacheStep P who w (exec P who f w (.createTemp dir)).2 := by
  refine step_on h f ?_
  have hins := CacheStep.of_insert_temp h dir (k := w.temps)
    (fun k' hk' _ => hk'.ne) ⟨[], P.now w.ticks⟩ (t := w.ticks + 1)
  refine ⟨?_, ⟨hins.good.memory, hins.good.files⟩, Nat.le_succ _, ?_, hins.foreign⟩
  · simp [execCreateTemp, World.setFiles, World.setCache, World.tick]
  · intro k hk
    exact Function.update_of_ne hk.ne _ _

/-- The owner replaces the content of its temporary file. -/
theorem step_putTemp (h : CacheGood P w who.node) (dir : Path) (howner : w.tempOwner k = who)
    (b : Bytes) :
    CacheStep P who w
      (match (w.caches who.node).files.lookup (dir ++ [tempName k]) with
        | some _ => (w.setFiles who.node ((w.caches who.node).files.insert (dir ++ [tempName k])
            ⟨b, P.now w.ticks⟩)).tick
        | none => w) := by
  split
  · refine .of_insert_temp h dir ?_ ⟨b, P.now w.ticks⟩
    rintro k' - hne rfl
    exact hne howner
  · exact .refl h

theorem step_writeTemp (h : CacheGood P w who.node) (f : Fault) (dir : Path)
    (howner : w.tempOwner k = who) (b : Bytes) :
    CacheStep P who w (exec P who f w (.writeTemp (dir ++ [tempName k]) b)).2 := by
  have hput := step_putTemp h dir howner
  show CacheStep P who w (execWriteTemp P who f w (dir ++ [tempName k]) b).2
  unfold execWriteTemp
  cases f with
  | wrote n => exact hput (b.take n)
  | none => exact hput b
  | late => exact hput b
  | fail => exact .refl h
  | kept keep => exact .refl h

/-- A temporary file whose content hashes to `id` may be renamed to `id`. -/
theorem step_rename (h : CacheGood P w who.node) (f : Fault) (dir src : Path) (hid : IsChunkID P id)
    (hsrc : ∀ file, (w.caches who.node).files.lookup src = some file →
      Hashes P w.hashed id file.data) :
    CacheStep P who w (exec P who f w (.rename src (dir ++ [id]))).2 := by
  refine step_on h f (step_execCacheFile h fun file hfile => ?_)
  split
  · refine .of_files (t := w.ticks) h ?_ ?_
    · intro dir' id' file' hid' hlookup
      by_cases hp : dir' ++ [id'] = dir ++ [id]
      · have hids : id' = id := List.singleton_inj.mp (List.append_inj_right' hp rfl)
        rw [hp, AList.lookup_insert, Option.some.injEq] at hlookup
        rw [hids, ← hlookup]
        exact hsrc file hfile
      · rw [AList.lookup_insert_ne hp] at hlookup
        exact h.files dir' id' file' hid' (lookup_erase_kept hlookup)
    · intro k _ _ dir' file' hlookup
      have hne : tempName k ≠ id := fun he => tempName_not_chunkID P k (he ▸ hid)
      rw [AList.lookup_insert_ne (append_singleton_ne hne)] at hlookup
      exact ⟨file', lookup_erase_kept hlookup, rfl⟩
  · exact .refl h

/-- Without a fault removing a file can only find it gone. -/
theorem removePath_error {e : Err} (h : (exec P who .none w (.removePath path)).1 = .error e) :
    e = .notExist := by
  change (execCacheFile who w path _).1 = .error e at h
  unfold execCacheFile at h
  split at h
  · cases h
  · exact (Except.error.inj h).symm

variable (who) in
/-- The outcome of reading a file: nothing changes, and the answer comes from the file. -/
structure ReadOutcome (w : World) (path : Path) (act : CacheFile → Except Err Bytes) (f : Fault)
    (d : Except Err Bytes × World) : Prop where
  state : d.2 = w
  ok : ∀ b, d.1 = .ok b →
    ∃ file, (w.caches who.node).files.lookup path = some file ∧ act file = .ok b
  error : f = .none → ∀ e, d.1 = .error e → e = .notExist ∨ ∃ file, act file = .error e

theorem readCacheFile_outcome (f : Fault) (w : World) (path : Path)
    (act : CacheFile → Except Err Bytes) :
    ReadOutcome who w path act f (f.on w (execCacheFile who w path fun file => (act file, w))) := by
  have hdone : ReadOutcome who w path act f
      (execCacheFile who w path fun file => (act file, w)) := by
    unfold execCacheFile
    split
    · rename_i file hfile
      exact ⟨rfl, fun b hb => ⟨file, hfile, hb⟩, fun _ e he => Or.inr ⟨file, he⟩⟩
    · refine ⟨rfl, by simp, ?_⟩
      rintro - e ⟨⟩
      exact Or.inl rfl
  refine Fault.on_cases hdone ?_ ?_
  · exact fun hf => ⟨hdone.state, by simp, fun h => absurd h hf⟩
  · exact fun hf => ⟨rfl, by simp, fun h => absurd h hf⟩

end Step

/-! ## The functions -/

section Functions

variable {P : Platform} {who : Caller} {allowed : Fault → World → Op → Prop} {I : World → Prop}
variable {R : World → World → Prop} {quiet : Prop}

namespace CacheContext

variable (ctx : CacheContext P who allowed I R quiet)
include ctx

/-- The rule for one cache operation. -/
theorem perform_op {o : Op} {Q : Res o → World → Prop}
    (h : ∀ w₁ f, R w w₁ → CacheGood P w₁ who.node → allowed f w₁ o →
      CacheStep P who w₁ (exec P who f w₁ o).2 ∧
        Q (exec P who f w₁ o).1 (exec P who f w₁ o).2) :
    WpRG (machine P allowed who) I R (CacheStep P who) (perform o) Q w := by
  intro w₁ hR hI f hf
  obtain ⟨hstep, hQ⟩ := h w₁ f hR (ctx.good w₁ hI) hf
  exact ⟨ctx.step w₁ _ hI hstep, hstep, hQ⟩

/-- An operation whose answer does not matter. -/
theorem ignore_op {o : Op}
    (h : ∀ w₁ f, R w w₁ → CacheGood P w₁ who.node → CacheStep P who w₁ (exec P who f w₁ o).2) :
    WpRG (machine P allowed who) I R (CacheStep P who) (perform o)
      (fun _ w' => ∀ b ∈ w.hashed, b ∈ w'.hashed) w := by
  refine ctx.perform_op fun w₁ f hR hgood _ => ⟨h w₁ f hR hgood, ?_⟩
  intro b hb
  rw [(h w₁ f hR hgood).frame]
  exact (ctx.rely w w₁ hR).hashed b hb

theorem touch_spec (path : Path) (w : World) :
    WpRG (machine P allowed who) I R (CacheStep P who) (LocalCache.touch path).run
      (fun r w' => r = .ok () ∧ ∀ b ∈ w.hashed, b ∈ w'.hashed) w := by
  unfold LocalCache.touch attempt
  rw [run_bind_iff, run_lift_iff]
  refine (ctx.ignore_op fun w₁ f _ hgood => step_chtimes hgood f path).mono ?_
  intro r w' hhashed
  exact ⟨rfl, hhashed⟩

theorem discard_spec (path : Path) (w : World) :
    WpRG (machine P allowed who) I R (CacheStep P who) (LocalCache.discard path).run
      (fun r w' => r = .ok () ∧ ∀ b ∈ w.hashed, b ∈ w'.hashed) w := by
  unfold LocalCache.discard attempt
  rw [run_bind_iff, run_lift_iff]
  refine (ctx.ignore_op fun w₁ f _ hgood => step_removePath hgood f path).mono ?_
  intro r w' hhashed
  exact ⟨rfl, hhashed⟩

/-- Under a chunk id `Get` finds nothing or what hashes to the id. -/
theorem get_spec (c : LocalCache) (hid : IsChunkID P id) (w : World) :
    WpRG (machine P allowed who) I R (CacheStep P who) (c.get id).run
      (fun r w' => (quiet → ∃ found, r = .ok found) ∧
        ∀ b, r = .ok (some b) → Hashes P w'.hashed id b) w := by
  have hpath : c.path id = c.dir ++ [id] := filepathJoin_plain c.dir (hid.plain P) (hid.ne_empty P)
  unfold LocalCache.get access attempt
  rw [run_bind_iff, run_lift_iff]
  refine ctx.perform_op fun w₁ f _ hgood _ => ?_
  obtain ⟨hstep, hfound⟩ := step_getMemory hgood f id
  refine ⟨hstep, ?_⟩
  have hhashed₁ : (exec P who f w₁ (.getMemory id)).2.hashed = w₁.hashed := by
    rw [hstep.frame]
  generalize (exec P who f w₁ (.getMemory id)).1 = r at hfound
  simp only [orElse_ok]
  cases r with
  | some b =>
    refine ⟨fun _ => ⟨_, rfl⟩, ?_⟩
    rintro b' ⟨⟩
    rw [hhashed₁]
    exact hfound b rfl
  | none =>
    rw [run_bind_iff, run_lift_iff]
    refine ctx.perform_op fun w₂ f₂ _ hgood₂ hf₂ => ?_
    obtain ⟨hstate, hok, herr⟩ : ReadOutcome who w₂ (c.path id) (fun file => .ok file.data) f₂
        (exec P who f₂ w₂ (.cacheReadFile (c.path id))) := readCacheFile_outcome f₂ w₂ _ _
    generalize exec P who f₂ w₂ (.cacheReadFile (c.path id)) = d at hstate hok herr
    obtain ⟨r, w₃⟩ := d
    obtain rfl : w₃ = w₂ := hstate
    refine ⟨.refl hgood₂, ?_⟩
    simp only [orElse_ok]
    cases r with
    | error e =>
      -- without a fault the only error is that the file is not there
      cases e with
      | notExist => exact ⟨fun _ => ⟨_, rfl⟩, by rintro b ⟨⟩⟩
      | _ =>
        refine ⟨fun hq => ?_, by rintro b ⟨⟩⟩
        obtain h | ⟨file, h⟩ := herr (ctx.noFault hq _ _ _ hf₂) _ rfl
        · cases h
        · cases h
    | ok b =>
      obtain ⟨file, hfile, hb⟩ := hok b rfl
      obtain rfl : file.data = b := Except.ok.inj hb
      have hhash : Hashes P w₃.hashed id file.data :=
        hgood₂.files c.dir id file hid (hpath ▸ hfile)
      rw [run_bind_iff]
      refine (ctx.touch_spec (c.path id) w₃).mono ?_
      rintro _ w₄ ⟨rfl, hhashed₄⟩
      rw [orElse_ok, run_bind_iff, run_lift_iff]
      refine (ctx.ignore_op fun w₅ f₅ hR₅ hgood₅ => step_putMemory hgood₅ f₅ c.memoryMax
        ⟨hhash.1, (ctx.rely _ _ hR₅).hashed _ (hhashed₄ _ hhash.2)⟩).mono ?_
      intro _ w₆ hhashed₆
      refine ⟨fun _ => ⟨_, rfl⟩, ?_⟩
      rintro b' ⟨⟩
      exact ⟨hhash.1, hhashed₆ _ (hhashed₄ _ hhash.2)⟩

/-- Under a chunk id `GetRange` finds nothing or a range of what hashes to the id. -/
theorem getRange_spec (c : LocalCache) (hid : IsChunkID P id) {offset : Int64}
    (hoffset : 0 ≤ offset.toInt) (length : Int64) (w : World) :
    WpRG (machine P allowed who) I R (CacheStep P who) (c.getRange id offset length).run
      (fun r w' => (quiet → offset.toInt + length.toInt < 2 ^ 63 → ∃ found, r = .ok found) ∧
        ∀ out, r = .ok (some out) → ∃ b, Hashes P w'.hashed id b ∧
          out = window (fun p => b.getD p 0) (natOf offset) (natOf length)) w := by
  have hpath : c.path id = c.dir ++ [id] := filepathJoin_plain c.dir (hid.plain P) (hid.ne_empty P)
  unfold LocalCache.getRange access attempt
  rw [run_bind_iff, run_lift_iff]
  refine ctx.perform_op fun w₁ f _ hgood _ => ?_
  obtain ⟨hstep, hfound⟩ := step_getMemoryRange hgood f id offset length
  refine ⟨hstep, ?_⟩
  have hhashed₁ : (exec P who f w₁ (.getMemoryRange id offset length)).2.hashed = w₁.hashed := by
    rw [hstep.frame]
  generalize (exec P who f w₁ (.getMemoryRange id offset length)).1 = r at hfound
  simp only [orElse_ok]
  cases r with
  | some out =>
    refine ⟨fun _ _ => ⟨_, rfl⟩, ?_⟩
    rintro out' ⟨⟩
    rw [hhashed₁]
    exact hfound out rfl
  | none =>
    rw [run_bind_iff, run_lift_iff]
    refine ctx.perform_op fun w₂ f₂ _ hgood₂ hf₂ => ?_
    obtain ⟨hstate, hok, herr⟩ : ReadOutcome who w₂ (c.path id)
        (fun file => readAtBytes file.data offset length) f₂
        (exec P who f₂ w₂ (.cacheReadFileAt (c.path id) offset length)) :=
      readCacheFile_outcome f₂ w₂ _ _
    generalize exec P who f₂ w₂ (.cacheReadFileAt (c.path id) offset length) = d
      at hstate hok herr
    obtain ⟨r, w₃⟩ := d
    obtain rfl : w₃ = w₂ := hstate
    refine ⟨.refl hgood₂, ?_⟩
    simp only [orElse_ok]
    cases r with
    | error e =>
      cases e with
      | notExist => exact ⟨fun _ _ => ⟨_, rfl⟩, by rintro b ⟨⟩⟩
      | _ =>
        refine ⟨fun hq hstop => ?_, by rintro b ⟨⟩⟩
        obtain h | ⟨file, h⟩ := herr (ctx.noFault hq _ _ _ hf₂) _ rfl
        · cases h
        · rw [readAtBytes_ok _ hoffset hstop] at h
          cases h
    | ok part =>
      obtain ⟨file, hfile, hpart⟩ := hok part rfl
      obtain rfl := readAtBytes_inv hpart
      have hhash : Hashes P w₃.hashed id file.data :=
        hgood₂.files c.dir id file hid (hpath ▸ hfile)
      rw [run_bind_iff]
      refine (ctx.touch_spec (c.path id) w₃).mono ?_
      rintro _ w₄ ⟨rfl, hhashed₄⟩
      refine ⟨fun _ _ => ⟨_, rfl⟩, ?_⟩
      rintro out ⟨⟩
      exact ⟨file.data, ⟨hhash.1, hhashed₄ _ hhash.2⟩, padTo_slice_eq_window 0 _ _ _⟩

theorem evictItems_spec (c : LocalCache) (items : List EvictItem) (total : Int64) (w : World) :
    WpRG (machine P allowed who) I R (CacheStep P who) (c.evictItems items total).run
      (fun r _ => quiet → r = .ok ()) w := by
  induction items generalizing total w with
  | nil => exact fun _ => rfl
  | cons it rest ih =>
    unfold LocalCache.evictItems
    split
    · exact fun _ => rfl
    · unfold attempt access
      rw [run_bind_iff, run_lift_iff]
      refine ctx.perform_op fun w₁ f _ hgood hf => ⟨step_removePath hgood f it.path, ?_⟩
      have herr : quiet → ∀ e, (exec P who f w₁ (.removePath it.path)).1 = .error e →
          e = .notExist := by
        intro hq e he
        obtain rfl := ctx.noFault hq _ _ _ hf
        exact removePath_error he
      generalize (exec P who f w₁ (.removePath it.path)).1 = r at herr
      simp only [orElse_ok]
      -- a file that is already gone counts as evicted
      have hnext : ∀ w₂, WpRG (machine P allowed who) I R (CacheStep P who)
          (do let _ ← (liftM (perform .countEvicted) : M Unit)
              c.evictItems rest (total - Int64.ofNat it.size) : M Unit).run
          (fun r _ => quiet → r = .ok ()) w₂ := by
        intro w₂
        rw [run_bind_iff, run_lift_iff]
        exact ctx.perform_op fun w₃ f₃ _ hgood₃ _ => ⟨step_countEvicted hgood₃ f₃, ih _ _⟩
      cases r with
      | ok u => exact hnext _
      | error e =>
        cases e with
        | notExist => exact hnext _
        | _ => exact fun hq => by cases herr hq _ rfl

theorem evictLocked_spec (c : LocalCache) (w : World) :
    WpRG (machine P allowed who) I R (CacheStep P who) (c.evictLocked P).run
      (fun r _ => quiet → r = .ok ()) w := by
  unfold LocalCache.evictLocked outside
  rw [run_bind_iff]
  refine ctx.perform_op fun w₁ f _ hgood hf => ?_
  refine Fault.on_cases (f := f) (w := w₁)
    (d := (.ok (dirItems (w₁.caches who.node).files c.dir), w₁))
    (motive := fun d => CacheStep P who w₁ d.2 ∧ Machine.orElse _ _ d.1 d.2)
    ⟨.refl hgood, ctx.evictItems_spec c _ _ _⟩ ?_ ?_
  all_goals exact fun hne => ⟨.refl hgood, fun hq => absurd (ctx.noFault hq _ _ _ hf) hne⟩

/-- A step of `Put` whose failure removes the temporary file. -/
theorem orDiscard_spec {Q : World → Prop} {tmpPath : Path} {call : Prog sig (Except Err Unit)}
    (h : WpRG (machine P allowed who) I R (CacheStep P who) call
      (fun r w' => (r = .ok () → Q w') ∧ (quiet → r = .ok ())) w) :
    WpRG (machine P allowed who) I R (CacheStep P who) (LocalCache.orDiscard tmpPath call).run
      (fun r w' => (r = .ok () → Q w') ∧ (quiet → r = .ok ())) w := by
  unfold LocalCache.orDiscard attempt
  rw [run_bind_iff, run_lift_iff]
  refine h.mono ?_
  rintro (e | ⟨⟩) w₁ ⟨hQ, hq⟩
  · simp only [orElse_ok]
    rw [run_bind_iff]
    refine (ctx.discard_spec tmpPath w₁).mono ?_
    rintro _ w₂ ⟨rfl, -⟩
    exact ⟨by rintro ⟨⟩, fun h => by cases hq h⟩
  · exact ⟨fun _ => hQ rfl, fun _ => rfl⟩

end CacheContext

/-- The temporary file `k` is this thread's and, in a quiet run, there. -/
structure OwnTemp (who : Caller) (quiet : Prop) (dir : Path) (k : Nat) (w : World) : Prop where
  made : k < w.temps
  owner : w.tempOwner k = who
  present : quiet → ∃ file, (w.caches who.node).files.lookup (dir ++ [tempName k]) = some file

/-- What `Put` knows of its temporary file once it is written. -/
structure Written (who : Caller) (quiet : Prop) (dir : Path) (k : Nat) (b : Bytes) (w : World) :
    Prop extends OwnTemp who quiet dir k w where
  hashed : b ∈ w.hashed
  data : ∀ file, (w.caches who.node).files.lookup (dir ++ [tempName k]) = some file → file.data = b

namespace CacheContext

variable (ctx : CacheContext P who allowed I R quiet)
include ctx

theorem ownTemp_stable {w' : World} (h : OwnTemp who quiet dir k w) (hR : R w w') :
    OwnTemp who quiet dir k w' where
  made := h.made.trans_le (ctx.rely w w' hR).temps
  owner := ((ctx.rely w w' hR).tempOwner k h.made).trans h.owner
  present := by
    intro hq
    rw [ctx.alone hq w w' hR]
    exact h.present hq

theorem written_stable {w' : World} (h : Written who quiet dir k b w) (hR : R w w') :
    Written who quiet dir k b w' where
  toOwnTemp := ctx.ownTemp_stable h.toOwnTemp hR
  hashed := (ctx.rely w w' hR).hashed b h.hashed
  data := by
    intro file' hfile'
    obtain ⟨file, hfile, hdata⟩ := (ctx.rely w w' hR).own k h.made h.owner dir file' hfile'
    rw [← hdata]
    exact h.data file hfile

omit ctx in
/-- An operation that changes nothing and, without a fault, succeeds where the file is. -/
theorem unchanged_outcome (who : Caller) :
    ∀ d, d = f.on w (execCacheFile who w path fun _ => ((.ok () : Except Err Unit), w)) →
      d.2 = w ∧ (f = .none → (∃ file, (w.caches who.node).files.lookup path = some file) →
        d.1 = .ok ()) := by
  rintro d rfl
  have hdone : (execCacheFile who w path fun _ => ((.ok () : Except Err Unit), w)).2 = w := by
    unfold execCacheFile
    split
    · rfl
    · rfl
  refine Fault.on_cases (motive := fun d : Except Err Unit × World => d.2 = w ∧ (f = .none →
    (∃ file, (w.caches who.node).files.lookup path = some file) → d.1 = .ok ())) ?_ ?_ ?_
  · refine ⟨hdone, ?_⟩
    rintro - ⟨file, hfile⟩
    simp only [execCacheFile, hfile]
  · exact fun hf => ⟨hdone, fun h => absurd h hf⟩
  · exact fun hf => ⟨rfl, fun h => absurd h hf⟩

theorem closeTemp_spec (tmpPath : Path) (h : Written who quiet dir k b w) :
    WpRG (machine P allowed who) I R (CacheStep P who) (perform (.closeTemp tmpPath))
      (fun r w' => (r = .ok () → Written who quiet dir k b w') ∧ (quiet → r = .ok ())) w := by
  refine ctx.perform_op fun w₁ f hR hgood hf => ?_
  have hw := ctx.written_stable h hR
  refine Fault.on_cases (f := f) (w := w₁) (d := (.ok (), w₁))
    (motive := fun d : Except Err Unit × World => CacheStep P who w₁ d.2 ∧
      (d.1 = .ok () → Written who quiet dir k b d.2) ∧ (quiet → d.1 = .ok ())) ?_ ?_ ?_
  · exact ⟨.refl hgood, fun _ => hw, fun _ => rfl⟩
  all_goals
    exact fun hne => ⟨.refl hgood, by rintro ⟨⟩, fun hq => absurd (ctx.noFault hq _ _ _ hf) hne⟩

theorem chmod_spec (h : Written who quiet dir k b w) :
    WpRG (machine P allowed who) I R (CacheStep P who) (perform (.chmod (dir ++ [tempName k])))
      (fun r w' => (r = .ok () → Written who quiet dir k b w') ∧ (quiet → r = .ok ())) w := by
  refine ctx.perform_op fun w₁ f hR hgood hf => ?_
  have hw := ctx.written_stable h hR
  obtain ⟨hstate, hok⟩ := unchanged_outcome who
    (exec P who f w₁ (.chmod (dir ++ [tempName k]))) rfl
  rw [hstate]
  exact ⟨.refl hgood, fun _ => hw, fun hq => hok (ctx.noFault hq _ _ _ hf) (hw.present hq)⟩

/-- The rename: from here on the chunk is in the cache. -/
theorem rename_spec (hid : P.hash b = id) (h : Written who quiet dir k b w) :
    WpRG (machine P allowed who) I R (CacheStep P who)
      (perform (.rename (dir ++ [tempName k]) (dir ++ [id])))
      (fun r w' => (r = .ok () → b ∈ w'.hashed) ∧ (quiet → r = .ok ())) w := by
  have hchunk : IsChunkID P id := ⟨b, hid⟩
  refine ctx.perform_op fun w₁ f hR hgood hf => ?_
  have hw := ctx.written_stable h hR
  have hstep := step_rename hgood f dir (dir ++ [tempName k]) hchunk fun file hfile =>
    ⟨by rw [hw.data file hfile, hid], by rw [hw.data file hfile]; exact hw.hashed⟩
  refine ⟨hstep, fun _ => by rw [hstep.frame]; exact hw.hashed, ?_⟩
  intro hq
  obtain rfl := ctx.noFault hq _ _ _ hf
  obtain ⟨file, hfile⟩ := hw.present hq
  have hlast : id ≠ "dirty-sessions" := by
    rintro rfl
    exact absurd (hchunk.length P) (by decide)
  simp [exec, Fault.on, execRename, execCacheFile, hfile, hlast]

omit ctx in
/-- A write that succeeds leaves the file, if it is still there, with what was written. -/
theorem writeTemp_data (hok : (exec P who f w (.writeTemp path b)).1 = .ok ()) :
    (∀ file, ((exec P who f w (.writeTemp path b)).2.caches who.node).files.lookup path =
      some file → file.data = b) ∧
    ((∃ file, (w.caches who.node).files.lookup path = some file) →
      ∃ file, ((exec P who f w (.writeTemp path b)).2.caches who.node).files.lookup path =
        some file) := by
  have hf : f = .none := by
    cases f with
    | none => rfl
    | _ => simp [exec, execWriteTemp, Fault.on] at hok
  subst hf
  cases hfile : (w.caches who.node).files.lookup path with
  | none => simp [exec, execWriteTemp, Fault.on, hfile]
  | some old =>
    simp [exec, execWriteTemp, Fault.on, hfile, World.setFiles, World.setCache, World.tick,
      AList.lookup_insert]

theorem writeTemp_spec (h : OwnTemp who quiet dir k w) (hb : b ∈ w.hashed) :
    WpRG (machine P allowed who) I R (CacheStep P who)
      (perform (.writeTemp (dir ++ [tempName k]) b))
      (fun r w' => (r = .ok () → Written who quiet dir k b w') ∧ (quiet → r = .ok ())) w := by
  refine ctx.perform_op fun w₁ f hR hgood hf => ?_
  have hown := ctx.ownTemp_stable h hR
  have hstep := step_writeTemp hgood f dir hown.owner b
  refine ⟨hstep, ?_, ?_⟩
  · intro hok
    obtain ⟨hdata, hpresent⟩ := writeTemp_data hok
    refine ⟨⟨hown.made.trans_le hstep.temps, ?_, fun hq => hpresent (hown.present hq)⟩, ?_, hdata⟩
    · exact (hstep.tempOwner k hown.made).trans hown.owner
    · rw [hstep.frame]
      exact (ctx.rely w w₁ hR).hashed b hb
  · intro hq
    obtain rfl := ctx.noFault hq _ _ _ hf
    rfl

/-- **`Put`.** Storing a chunk under its hash keeps the cache good, whatever fails. -/
theorem put_spec (c : LocalCache) (hb : Hashes P w.hashed id b) :
    WpRG (machine P allowed who) I R (CacheStep P who) (c.put P id b).run
      (fun r _ => quiet → r = .ok ()) w := by
  have hchunk : IsChunkID P id := ⟨b, hb.1⟩
  have hpath : c.path id = c.dir ++ [id] :=
    filepathJoin_plain c.dir (hchunk.plain P) (hchunk.ne_empty P)
  unfold LocalCache.put
  rw [run_bind_iff]
  refine ctx.perform_op fun w₁ f hR hgood hf => ⟨step_createTemp hgood f c.dir, ?_⟩
  refine Fault.on_cases (f := f) (w := w₁) (d := execCreateTemp P who w₁ c.dir)
    (motive := fun d => Machine.orElse _ _ d.1 d.2) ?_
    (fun hne hq => absurd (ctx.noFault hq _ _ _ hf) hne)
    (fun hne hq => absurd (ctx.noFault hq _ _ _ hf) hne)
  have hown : OwnTemp who quiet c.dir w₁.temps (execCreateTemp P who w₁ c.dir).2 := by
    refine ⟨Nat.lt_succ_self _, by simp [execCreateTemp], fun _ => ⟨⟨[], P.now w₁.ticks⟩, ?_⟩⟩
    simp [execCreateTemp, World.setFiles, World.setCache, World.tick, AList.lookup_insert]
  have hhashed : b ∈ (execCreateTemp P who w₁ c.dir).2.hashed := (ctx.rely w w₁ hR).hashed b hb.2
  show WpRG (machine P allowed who) I R (CacheStep P who) _ _ _
  rw [run_bind_iff, attempt, run_lift_iff]
  refine (ctx.writeTemp_spec hown hhashed).mono ?_
  rintro (e | ⟨⟩) w₂ ⟨hwritten, hq⟩
  · -- the write failed: close and remove the file
    rw [orElse_ok, run_bind_iff, attempt, run_lift_iff]
    refine (ctx.ignore_op fun w₃ f₃ _ hgood₃ => step_closeTemp hgood₃ f₃ _).mono ?_
    intro _ w₃ _
    rw [orElse_ok, run_bind_iff]
    refine (ctx.discard_spec _ w₃).mono ?_
    rintro _ w₄ ⟨rfl, -⟩
    exact fun h => by cases hq h
  · rw [orElse_ok, run_bind_iff]
    refine (ctx.orDiscard_spec (ctx.closeTemp_spec _ (hwritten rfl))).mono ?_
    rintro (e | ⟨⟩) w₃ ⟨hwritten, hq⟩
    · exact hq
    rw [orElse_ok, run_bind_iff]
    refine (ctx.orDiscard_spec (ctx.chmod_spec (hwritten rfl))).mono ?_
    rintro (e | ⟨⟩) w₄ ⟨hwritten, hq⟩
    · exact hq
    rw [orElse_ok, run_bind_iff, hpath]
    refine (ctx.orDiscard_spec (ctx.rename_spec hb.1 (hwritten rfl))).mono ?_
    rintro (e | ⟨⟩) w₅ ⟨hhashed₅, hq⟩
    · exact hq
    rw [orElse_ok, run_bind_iff]
    refine (ctx.touch_spec _ w₅).mono ?_
    rintro _ w₆ ⟨rfl, hhashed₆⟩
    rw [orElse_ok, run_bind_iff, access, run_lift_iff]
    refine (ctx.ignore_op fun w₇ f₇ hR₇ hgood₇ => step_putMemory hgood₇ f₇ c.memoryMax
      ⟨hb.1, (ctx.rely _ _ hR₇).hashed _ (hhashed₆ _ (hhashed₅ rfl))⟩).mono ?_
    intro _ w₇ _
    exact ctx.evictLocked_spec c w₇

end CacheContext

end Functions

end OrcaBlocks.Storage
