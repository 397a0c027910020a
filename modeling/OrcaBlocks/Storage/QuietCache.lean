/-
# OrcaBlocks.Storage.QuietCache — the cache functions in a run of the engine without faults.

The engine gives its cache only hashes as ids, and these are plain file names. On such an id, in a run
without faults, `Put` ALWAYS succeeds, whatever the directory holds, and it changes nothing but the
node's cache (`put_quiet`). The parts of it that open no file by name are those of
`OrcaBlocks.Storage.FileTree`, since on them both machines do the same (`wp_of_tree`).
-/
import OrcaBlocks.Storage.FileTree
import OrcaBlocks.Storage.Atomic

namespace OrcaBlocks.Storage

open OrcaBlocks.Lib

section Quiet

variable {P : Platform} {who : Caller} {w : World}

theorem quiet_perform {o : Op} {Q : Res o → World → Prop}
    (h : Q (exec P who .none w o).1 (exec P who .none w o).2) :
    (machine P faultFree who).wp (perform o) Q w := by
  rintro f rfl
  exact h

theorem quiet_access {o : Op} {Q : Except Err (Res o) → World → Prop}
    (h : Q (.ok (exec P who .none w o).1) (exec P who .none w o).2) :
    (machine P faultFree who).wp (access o).run Q w := by
  refine wp_access ?_
  rintro f rfl
  exact h

/-- The run without faults is a run. -/
theorem runs_faultFree (P : Platform) (who : Caller) {α : Type} (t : Prog sig α) (w : World) :
    (machine P faultFree who).Runs t w ((machine P faultFree who).trace (fun _ => .none) t w)
      ((machine P faultFree who).run (fun _ => .none) t w).1
      ((machine P faultFree who).run (fun _ => .none) t w).2 :=
  (runs_run_of_final (M := machine P faultFree who) rfl (K := fun _ => True)
    (fun _ _ _ => ⟨trivial, rfl⟩) t w trivial).2

/-! ## What the machines share -/

/-- The operations in which directories make no difference. -/
def Op.Nameless : Op → Bool
  | .cacheReadFile _ | .cacheReadFileAt _ _ _ | .createTemp _ | .rename _ _ => false
  | _ => true

/-- A program of such operations does on the engine's machine what it does on the cache's. -/
theorem wp_of_tree {t : FileTree} {α : Type} {x : Prog sig α} {Q : α → World → Prop}
    (hx : Prog.Only (S := sig) (fun o : Op => o.Nameless = true) x) (h : (treeMachine P t who).wp x Q w) :
    (machine P faultFree who).wp x Q w := by
  induction x generalizing w with
  | ret a => exact h
  | call o k ih =>
    rintro f rfl
    have hsame : treeExec P t who 0 w o = exec P who .none w o := by
      cases o with
      | cacheReadFile path => cases hx.1
      | cacheReadFileAt path offset length => cases hx.1
      | createTemp dir => cases hx.1
      | rename src dst => cases hx.1
      | _ => rfl
    have hallowed : (treeMachine P t who).allowed 0 w o := by
      intro dir heq
      have ho : o.Nameless = true := hx.1
      rw [heq] at ho
      cases ho
    have hnext := h 0 hallowed
    change (treeMachine P t who).wp (k (treeExec P t who 0 w o).1) Q (treeExec P t who 0 w o).2 at hnext
    rw [hsame] at hnext
    exact ih _ (hx.2 _) hnext

/-! ## Frames -/

/-- The operations of the cache. -/
def Op.OnCache : Op → Bool
  | .getMemory _ | .getMemoryRange _ _ _ | .putMemory _ _ _ => true
  | o => o.OnFiles

/-- What a cache operation leaves: other files, another memory tier, a later clock. -/
theorem cacheFrame_setCache (w : World) (c : CacheState) (ticks temps : Nat) (tempOwner : Nat → Caller) :
    CacheFrame who w { w.setCache who.node c with
      ticks := ticks, temps := temps, tempOwner := tempOwner } := by
  simp [CacheFrame, World.setCache]

private theorem cacheFrame_execCacheFile {α : Type} {path : Path}
    {act : CacheFile → Except Err α × World} (hact : ∀ file, CacheFrame who w (act file).2) :
    CacheFrame who w (execCacheFile who w path act).2 := by
  unfold execCacheFile
  split
  · exact hact _
  · exact .refl who w

theorem exec_onCache {o : Op} (ho : o.OnCache = true) (w : World) :
    CacheFrame who w (exec P who .none w o).2 := by
  have hsame : CacheFrame who w w := .refl who w
  cases o with
  | getMemory chunkID => exact cacheFrame_setCache w _ w.ticks w.temps w.tempOwner
  | getMemoryRange chunkID offset length => exact cacheFrame_setCache w _ w.ticks w.temps w.tempOwner
  | putMemory memoryMax chunkID b => exact cacheFrame_setCache w _ w.ticks w.temps w.tempOwner
  | countEvicted => exact cacheFrame_setCache w _ w.ticks w.temps w.tempOwner
  | cacheReadFile path => exact cacheFrame_execCacheFile fun _ => hsame
  | cacheReadFileAt path offset length => exact cacheFrame_execCacheFile fun _ => hsame
  | createTemp dir => exact cacheFrame_setCache w _ _ _ _
  | writeTemp path b =>
    show CacheFrame who w (execWriteTemp P who .none w path b).2
    unfold execWriteTemp
    dsimp only [Fault.on]
    split
    · exact cacheFrame_setCache w _ _ w.temps w.tempOwner
    · exact hsame
  | closeTemp path => exact hsame
  | chmod path => exact cacheFrame_execCacheFile fun _ => hsame
  | rename src dst =>
    refine cacheFrame_execCacheFile fun file => ?_
    split
    · exact cacheFrame_setCache w _ w.ticks w.temps w.tempOwner
    · exact hsame
  | chtimes path => exact cacheFrame_execCacheFile fun _ => cacheFrame_setCache w _ _ w.temps w.tempOwner
  | removePath path => exact cacheFrame_execCacheFile fun _ => cacheFrame_setCache w _ w.ticks w.temps w.tempOwner
  | readDir dir => exact hsame
  | _ => cases ho

theorem frame_onCache {α : Type} {x : Prog sig α}
    (hx : Prog.Only (S := sig) (fun o : Op => o.OnCache = true) x) (w : World) :
    (machine P faultFree who).wp x (fun _ w' => CacheFrame who w w') w := by
  refine wp_of_only hx (.refl who w) ?_
  rintro o _ w' ho hframe rfl
  exact hframe.trans (exec_onCache ho w')

/-! ## The functions -/

variable {c : LocalCache} {id : String}

/-- The same files with the same contents; the times may differ. -/
def SameFiles (files files' : AList fun _ : Path => CacheFile) : Prop :=
  ∀ path, (files'.lookup path).map CacheFile.data = (files.lookup path).map CacheFile.data

theorem SameFiles.lookup_none {files files' : AList fun _ : Path => CacheFile} {path : Path}
    (h : SameFiles files files') : files'.lookup path = none ↔ files.lookup path = none := by
  have hpath := h path
  rw [← Option.map_eq_none_iff (f := CacheFile.data), hpath, Option.map_eq_none_iff]

theorem sameFiles_touch (d : Disk) (path : Path) : SameFiles d.files (d.touch P path).files := by
  intro path'
  unfold Disk.touch
  split
  · rename_i file hfile
    by_cases hpath : path' = path
    · rw [hpath, AList.lookup_insert, hfile]
      rfl
    · rw [AList.lookup_insert_ne hpath]
  · rfl

/-- What the cache's lookups leave in a run without faults, and what a miss means. -/
def LookedUp (who : Caller) (c : LocalCache) (id : String) (w : World) (r : Except Err (Option Bytes))
    (w' : World) : Prop :=
  SameFiles (w.disk who.node).files (w'.disk who.node).files ∧
    (r = .ok none → (w.disk who.node).files.lookup (c.path id) = none)

private theorem lookedUp_touch {rest : M (Option Bytes)} {b : Bytes} (w₁ : World)
    (hfiles : (w₁.disk who.node).files = (w.disk who.node).files)
    (hrest : ∀ w₂, (machine P faultFree who).wp rest.run
      (fun r w' => r = .ok (some b) ∧ (w'.disk who.node).files = (w₂.disk who.node).files) w₂) :
    (machine P faultFree who).wp (LocalCache.touch (c.path id) >>= fun _ => rest).run
      (fun r w' => LookedUp who c id w r w' ∧ ∃ found, r = .ok found) w₁ := by
  have htouch : Uses (fun o : Op => o.Nameless = true) (LocalCache.touch (c.path id)) := uses_touch rfl
  refine wp_run_seq (wp_of_tree (t := cacheOnly) htouch (touch_refines (c.path id))) ?_
  rintro _ w₂ ⟨rfl, hdisk, -⟩
  rw [orElse_ok]
  refine wp_mono (hrest w₂) ?_
  rintro _ w' ⟨rfl, hfiles'⟩
  refine ⟨⟨?_, by simp⟩, _, rfl⟩
  rw [hfiles', hdisk, ← hfiles]
  exact sameFiles_touch _ _

theorem get_quiet (w : World) : (machine P faultFree who).wp (c.get id).run
    (fun r w' => LookedUp who c id w r w' ∧ ∃ found, r = .ok found) w := by
  unfold LocalCache.get
  rw [wp_run_bind]
  refine quiet_access ?_
  simp only [orElse_ok, exec]
  have hfiles : ∀ memory, ((w.setMemory who.node memory).disk who.node).files = (w.disk who.node).files :=
    fun memory => by rw [disk_setMemory]
  generalize (w.caches who.node).memory.getMemory id = looked
  obtain ⟨_ | b, memory⟩ := looked
  · dsimp only
    unfold attempt
    rw [wp_run_bind, wp_run_lift]
    refine quiet_perform ?_
    have hlookup : ((w.setMemory who.node memory).caches who.node).files.lookup (c.path id) =
        (w.disk who.node).files.lookup (c.path id) := congrArg (AList.lookup (c.path id)) (hfiles memory)
    simp only [orElse_ok, exec, Fault.on, execCacheFile, hlookup]
    cases hfile : (w.disk who.node).files.lookup (c.path id) with
    | none => exact ⟨⟨fun path => by rw [hfiles], fun _ => hfile⟩, none, rfl⟩
    | some file =>
      refine lookedUp_touch (b := file.data) _ (hfiles memory) fun w₂ => ?_
      rw [wp_run_bind]
      refine quiet_access ⟨rfl, ?_⟩
      show ((w₂.setMemory who.node _).disk who.node).files = _
      rw [disk_setMemory]
  · exact ⟨⟨fun path => by rw [hfiles], by simp⟩, some b, rfl⟩

theorem getRange_quiet {offset length : Int64} (w : World) :
    (machine P faultFree who).wp (c.getRange id offset length).run
      (fun r w' => LookedUp who c id w r w' ∧
        (0 ≤ offset.toInt → offset.toInt + length.toInt < 2 ^ 63 → ∃ found, r = .ok found)) w := by
  unfold LocalCache.getRange
  rw [wp_run_bind]
  refine quiet_access ?_
  simp only [orElse_ok, exec]
  have hfiles : ∀ memory, ((w.setMemory who.node memory).disk who.node).files = (w.disk who.node).files :=
    fun memory => by rw [disk_setMemory]
  generalize (w.caches who.node).memory.getMemoryRange id offset length = looked
  obtain ⟨_ | b, memory⟩ := looked
  · dsimp only
    unfold attempt
    rw [wp_run_bind, wp_run_lift]
    refine quiet_perform ?_
    have hlookup : ((w.setMemory who.node memory).caches who.node).files.lookup (c.path id) =
        (w.disk who.node).files.lookup (c.path id) := congrArg (AList.lookup (c.path id)) (hfiles memory)
    simp only [orElse_ok, exec, Fault.on, execCacheFile, hlookup]
    cases hfile : (w.disk who.node).files.lookup (c.path id) with
    | none => exact ⟨⟨fun path => by rw [hfiles], fun _ => hfile⟩, fun _ _ => ⟨none, rfl⟩⟩
    | some file =>
      dsimp only [readAtBytes]
      by_cases hoffset : offset < 0
      · rw [if_pos hoffset]
        have hneg := Int64.lt_iff_toInt_lt.mp hoffset
        exact ⟨⟨fun path => by rw [hfiles], by simp⟩, fun h => absurd h (Int.not_le.mpr hneg)⟩
      · rw [if_neg hoffset]
        by_cases hstop : 2 ^ 63 ≤ offset.toInt + min length.toInt (2 ^ 30)
        · rw [if_pos hstop]
          exact ⟨⟨fun path => by rw [hfiles], by simp⟩, fun _ h => absurd h (by omega)⟩
        · rw [if_neg hstop]
          refine wp_mono (lookedUp_touch (b := _) _ (hfiles memory) fun w₂ => ⟨rfl, rfl⟩) ?_
          rintro r w' ⟨hlooked, hfound⟩
          exact ⟨hlooked, fun _ _ => hfound⟩
  · exact ⟨⟨fun path => by rw [hfiles], by simp⟩, fun _ _ => ⟨some b, rfl⟩⟩

/-- The files once a new chunk is in place. The name `CreateTemp` picks is free in a run of the
engine; here it need not be. -/
def World.placed (P : Platform) (who : Caller) (c : LocalCache) (w : World) (id : String) (b : Bytes) :
    AList fun _ : Path => CacheFile :=
  ((w.disk who.node).files.erase (c.dir ++ [tempName w.temps])).insert (c.path id)
    ⟨b, P.now (w.ticks + 2)⟩

private theorem erase_insert (files : AList fun _ : Path => CacheFile) (path : Path) (file : CacheFile) :
    (files.insert path file).erase path = files.erase path :=
  AList.ext (List.kerase_cons_eq rfl)

/-- A step of `Put` that succeeds. -/
private theorem wp_orDiscard_ok {tmpPath : Path} {call : Prog sig (Except Err Unit)} {rest : M Unit}
    {Q : Except Err Unit → World → Prop} {w' : World}
    (hcall : (machine P faultFree who).wp call (fun r w₁ => (r, w₁) = (.ok (), w')) w)
    (hrest : (machine P faultFree who).wp rest.run Q w') :
    (machine P faultFree who).wp (LocalCache.orDiscard tmpPath call >>= fun _ => rest).run Q w := by
  unfold LocalCache.orDiscard
  rw [wp_run_bind, wp_run_bind]
  refine wp_attempt (wp_mono hcall ?_)
  rintro r w₁ hend
  obtain ⟨rfl, rfl⟩ := Prod.mk.inj hend
  exact hrest

theorem put_quiet (hpath : c.path id = c.dir ++ [id]) (hid : id ≠ "dirty-sessions") (b : Bytes) (w : World) :
    (machine P faultFree who).wp (c.put P id b).run
      (fun r w' => r = .ok () ∧ w'.disk who.node =
        ⟨Disk.removeItems (Disk.evicted P c (w.placed P who c id b)) (w.placed P who c id b),
          MemoryTier.putMemoryLocked c.memoryMax (w.disk who.node).memory id b, w.ticks + 3⟩) w := by
  let tmpPath := c.dir ++ [tempName w.temps]
  let w₁ := (exec P who .none w (.createTemp c.dir)).2
  let w₂ := (w₁.setFiles who.node
    ((w₁.disk who.node).files.insert tmpPath ⟨b, P.now (w.ticks + 1)⟩)).tick
  let w₃ := w₂.setFiles who.node (((w₂.disk who.node).files.erase tmpPath).insert (c.path id)
    ⟨b, P.now (w.ticks + 1)⟩)
  have hwrite : exec P who .none w₁ (.writeTemp tmpPath b) = (.ok (), w₂) := by
    simp [exec, execWriteTemp, execCreateTemp, Fault.on, w₁, w₂, tmpPath, World.disk, World.setFiles,
      World.setCache, World.tick, AList.insert_insert]
  have hfile₂ : (w₂.caches who.node).files.lookup tmpPath = some ⟨b, P.now (w.ticks + 1)⟩ := by
    simp [w₂, World.setFiles, World.setCache, World.tick]
  have hchmod : exec P who .none w₂ (.chmod tmpPath) = (.ok (), w₂) := by
    simp [exec, Fault.on, execCacheFile, hfile₂]
  have hrename : exec P who .none w₂ (.rename tmpPath (c.path id)) = (.ok (), w₃) := by
    have hplace : tmpPath.dropLast = (c.path id).dropLast ∧ c.path id ≠ [] ∧
        (c.path id).getLast? ≠ some "dirty-sessions" := by
      rw [hpath]
      simp [tmpPath, hid]
    simp only [exec, Fault.on, execRename, execCacheFile, hfile₂, if_pos hplace]
    rfl
  -- the end of the function, after the rename
  have hdisk₃ : w₃.disk who.node = ⟨((w.disk who.node).files.erase tmpPath).insert (c.path id)
      ⟨b, P.now (w.ticks + 1)⟩, (w.disk who.node).memory, w.ticks + 2⟩ := by
    simp [w₃, w₂, w₁, exec, execCreateTemp, Fault.on, World.disk, World.setFiles, World.setCache,
      World.tick, tmpPath, erase_insert]
  have hfinish : (machine P faultFree who).wp (do
        LocalCache.touch (c.path id)
        let _ ← access (.putMemory c.memoryMax id b)
        c.evictLocked P : M Unit).run
      (fun r w' => r = .ok () ∧ w'.disk who.node =
        ⟨Disk.removeItems (Disk.evicted P c (w.placed P who c id b)) (w.placed P who c id b),
          MemoryTier.putMemoryLocked c.memoryMax (w.disk who.node).memory id b, w.ticks + 3⟩) w₃ := by
    have hplaced : (w₃.disk who.node).files.lookup (c.path id) = some ⟨b, P.now (w.ticks + 1)⟩ := by
      rw [hdisk₃, AList.lookup_insert]
    refine wp_of_tree (t := cacheOnly) ?_ (wp_mono (finish_refines hplaced) ?_)
    · have htouch : Uses (fun o : Op => o.Nameless = true) (LocalCache.touch (c.path id)) := uses_touch rfl
      have hput : Uses (fun o : Op => o.Nameless = true) (access (.putMemory c.memoryMax id b)) :=
        uses_access rfl
      exact htouch.bind fun _ => hput.bind fun _ => uses_evictLocked P c rfl (fun _ => rfl) rfl
    · rintro r w' ⟨rfl, hdisk, -⟩
      simp only [hdisk₃, AList.insert_insert] at hdisk
      exact ⟨rfl, hdisk⟩
  unfold LocalCache.put outside
  rw [wp_run_bind]
  refine quiet_perform ?_
  show Machine.orElse _ _ (.ok tmpPath) w₁
  unfold attempt
  rw [orElse_ok, wp_run_bind, wp_run_lift]
  refine quiet_perform ?_
  rw [hwrite, orElse_ok]
  dsimp only
  refine wp_orDiscard_ok (quiet_perform rfl) ?_
  refine wp_orDiscard_ok (quiet_perform hchmod) ?_
  exact wp_orDiscard_ok (quiet_perform hrename) hfinish

end Quiet

end OrcaBlocks.Storage
