/-
# OrcaBlocks.Storage.Flush — `FlushDirty` makes an overlay durable, and changes nothing else.

An overlay file has a volatile content, `data`, and what the disk keeps of it: `synced`, under a name that is
there after a power loss only if the directory was synced (`linked`). A flush syncs every file of a dirty
chunk, in the order the map is ranged over, and then the directory. Whatever fails on the way, the volatile
contents stay and nothing durable is lost; if it RETURNS, the overlay is durable.
-/
import OrcaBlocks.Storage.FlatArray

namespace OrcaBlocks.Storage

open OrcaBlocks.Lib Backend Function

variable {i : Int64} {id : String} {s : Session}

/-! ## Durable files -/

/-- Losing what is volatile loses nothing of the file. -/
structure OverlayFile.Durable (file : OverlayFile) : Prop where
  content : file.synced = file.data
  name : file.linked = true

/-- The file holds what it held, and is no less durable. -/
structure OverlayFile.Hardens (file file' : OverlayFile) : Prop where
  data : file'.data = file.data
  content : file.synced = file.data → file'.synced = file'.data
  name : file.linked = true → file'.linked = true

theorem OverlayFile.Hardens.refl (file : OverlayFile) : file.Hardens file := ⟨rfl, id, id⟩

theorem OverlayFile.Hardens.trans {f₁ f₂ f₃ : OverlayFile} (h : f₁.Hardens f₂) (h' : f₂.Hardens f₃) :
    f₁.Hardens f₃ :=
  ⟨h'.data.trans h.data, fun hsame => h'.content (h.content hsame), fun hname => h'.name (h.name hname)⟩

/-- Every file of the directory is still there. -/
def OverlayDir.Hardens (d d' : OverlayDir) : Prop := ∀ i, Option.Rel OverlayFile.Hardens (d i) (d' i)

/-- What a flush of session `r` may change. -/
structure Synced (r : SessRef) (w w' : World) : Prop where
  frame : w' = { w with overlays := update w.overlays r (w'.overlays r) }
  files : Option.Rel OverlayDir.Hardens (w.overlays r) (w'.overlays r)

theorem rel_hardens_refl (file : Option OverlayFile) : Option.Rel OverlayFile.Hardens file file := by
  cases file with
  | none => exact .none
  | some file => exact .some (.refl file)

theorem OverlayDir.Hardens.refl (d : OverlayDir) : d.Hardens d := fun i => rel_hardens_refl (d i)

theorem OverlayDir.Hardens.trans {d₁ d₂ d₃ : OverlayDir} (h : d₁.Hardens d₂) (h' : d₂.Hardens d₃) :
    d₁.Hardens d₃ := by
  intro i
  have hi := h i
  have hi' := h' i
  generalize d₁ i = f₁, d₂ i = f₂, d₃ i = f₃ at hi hi'
  cases hi with
  | none =>
    cases hi'
    exact .none
  | some hi =>
    cases hi' with
    | some hi' => exact .some (hi.trans hi')

section Synced

variable {P : Platform} {who : Caller} {allowed : Fault → World → Op → Prop} {r : SessRef} {w w' w'' : World}

theorem Synced.refl (r : SessRef) (w : World) : Synced r w w := by
  refine ⟨by simp, ?_⟩
  cases w.overlays r with
  | none => exact .none
  | some d => exact .some (.refl d)

theorem Synced.trans (h : Synced r w w') (h' : Synced r w' w'') : Synced r w w'' := by
  refine ⟨?_, ?_⟩
  · rw [h'.frame, h.frame]
    simp
  · have hfiles := h.files
    have hfiles' := h'.files
    generalize w.overlays r = d₁, w'.overlays r = d₂, w''.overlays r = d₃ at hfiles hfiles'
    cases hfiles with
    | none =>
      cases hfiles'
      exact .none
    | some hd =>
      cases hfiles' with
      | some hd' => exact .some (hd.trans hd')

/-- A file that was there is there, with what it held. -/
theorem Synced.file (h : Synced r w w') {file : OverlayFile} (hfile : overlayFile w r i = some file) :
    ∃ file', overlayFile w' r i = some file' ∧ file.Hardens file' := by
  unfold overlayFile at hfile ⊢
  have hfiles := h.files
  generalize w.overlays r = d, w'.overlays r = d' at hfile hfiles
  cases hfiles with
  | none => cases hfile
  | @some d d' hd =>
    have hi := hd i
    rw [show (some d).bind (fun d => d i) = d i from rfl] at hfile
    rw [hfile] at hi
    show ∃ file', d' i = some file' ∧ _
    cases hfile' : d' i with
    | none =>
      rw [hfile'] at hi
      cases hi
    | some file' =>
      rw [hfile'] at hi
      cases hi with
      | some hi => exact ⟨file', rfl, hi⟩

theorem Synced.data (h : Synced r w w') (i : Int64) :
    (overlayFile w' r i).map OverlayFile.data = (overlayFile w r i).map OverlayFile.data := by
  unfold overlayFile
  have hfiles := h.files
  generalize w.overlays r = d, w'.overlays r = d' at hfiles
  cases hfiles with
  | none => rfl
  | @some d d' hd =>
    show (d' i).map _ = (d i).map _
    have hi := hd i
    generalize d i = f, d' i = f' at hi
    cases hi with
    | none => rfl
    | some hi => exact congrArg some hi.data

theorem Synced.sessionByte (h : Synced r w w') (s : Session) : sessionByte w' r s = sessionByte w r s := by
  funext p
  have hobjects : w'.objects = w.objects := by rw [h.frame]
  unfold Storage.sessionByte chunkByte manifestChunkByte objectByte
  rw [h.data, hobjects]

/-! ## The calls -/

/-- What `Sync` of a file does, if and when it returns. -/
structure SyncsFile (allowed : Fault → World → Op → Prop) (r : SessRef) (i : Int64) (w : World)
    (result : Except Err Unit) (w' : World) : Prop where
  synced : Synced r w w'
  done : result = .ok () → ∃ file, overlayFile w' r i = some file ∧ file.synced = file.data
  quiet : Quiet allowed → (overlayFile w r i).isSome → result = .ok ()

theorem SyncsFile.failed (h : Synced r w w') (hnot : ¬ Quiet allowed) :
    SyncsFile allowed r i w (.error .io) w' := ⟨h, nofun, fun hquiet => absurd hquiet hnot⟩

theorem SyncsFile.missing {e : Err} (h : overlayFile w r i = none) :
    SyncsFile allowed r i w (.error e) w := by
  refine ⟨.refl r w, nofun, fun _ hsome => ?_⟩
  rw [h] at hsome
  cases hsome

theorem syncFile_spec :
    (machine P allowed who).wp (perform (.syncFile id i)) (SyncsFile allowed (who.node, id) i w) w := by
  intro f (hf : allowed f w (.syncFile id i))
  have hkeep : ¬ Quiet allowed → SyncsFile allowed (who.node, id) i w (.error .io) w := .failed (.refl _ w)
  have hexec : exec P who f w (.syncFile id i) =
      f.on w (execReadOverlay w (who.node, id) i fun file => (.ok (), w.setOverlay (who.node, id)
        ((w.overlays (who.node, id)).map fun d =>
          update d i (some { file with synced := file.data })))) := rfl
  show SyncsFile allowed (who.node, id) i w (exec P who f w (.syncFile id i)).1
    (exec P who f w (.syncFile id i)).2
  rw [hexec, execReadOverlay]
  cases hfile : (w.overlays (who.node, id)).bind fun d => d i with
  | none => exact Fault.on_rule hf (.missing hfile) hkeep hkeep
  | some file =>
    obtain ⟨d, hd, hi⟩ := Option.bind_eq_some_iff.mp hfile
    rw [hd]
    have hsynced : Synced (who.node, id) w (w.setOverlay (who.node, id)
        (some (update d i (some { file with synced := file.data })))) := by
      refine ⟨by simp [World.setOverlay], ?_⟩
      rw [hd]
      simp only [World.setOverlay, update_self]
      refine .some fun j => ?_
      by_cases hj : j = i
      · rw [hj, hi, update_self]
        exact .some ⟨rfl, fun _ => rfl, fun hname => hname⟩
      · rw [update_of_ne hj]
        exact rel_hardens_refl (d j)
    refine Fault.on_rule hf ⟨hsynced, fun _ => ?_, fun _ _ => rfl⟩ (.failed hsynced) hkeep
    refine ⟨{ file with synced := file.data }, ?_, rfl⟩
    simp [overlayFile, World.setOverlay]

/-- What `Sync` of the directory does. -/
structure SyncsDir (allowed : Fault → World → Op → Prop) (r : SessRef) (w : World) (result : Except Err Unit)
    (w' : World) : Prop where
  synced : Synced r w w'
  done : result = .ok () → ∀ i file, overlayFile w' r i = some file → file.linked = true
  quiet : Quiet allowed → (w.overlays r).isSome → result = .ok ()

theorem SyncsDir.failed (h : Synced r w w') (hnot : ¬ Quiet allowed) :
    SyncsDir allowed r w (.error .io) w' := ⟨h, nofun, fun hquiet => absurd hquiet hnot⟩

theorem exec_syncDir (f : Fault) (id : String) :
    exec P who f w (.syncDir id) = f.on w (match w.overlays (who.node, id) with
      | some d => (.ok (), w.setOverlay (who.node, id)
          (some fun i => (d i).map fun file => { file with linked := true }))
      | none => (.error .notExist, w)) := rfl

theorem syncDir_spec :
    (machine P allowed who).wp (perform (.syncDir id)) (SyncsDir allowed (who.node, id) w) w := by
  intro f (hf : allowed f w (.syncDir id))
  have hkeep : ¬ Quiet allowed → SyncsDir allowed (who.node, id) w (.error .io) w := .failed (.refl _ w)
  show SyncsDir allowed (who.node, id) w (exec P who f w (.syncDir id)).1 (exec P who f w (.syncDir id)).2
  rw [exec_syncDir]
  cases hd : w.overlays (who.node, id) with
  | none =>
    refine Fault.on_rule hf ⟨.refl _ w, by rintro ⟨⟩, fun _ hsome => ?_⟩ hkeep hkeep
    rw [hd] at hsome
    cases hsome
  | some d =>
    have hsynced : Synced (who.node, id) w (w.setOverlay (who.node, id)
        (some fun i => (d i).map fun file => { file with linked := true })) := by
      refine ⟨by simp [World.setOverlay], ?_⟩
      rw [hd]
      simp only [World.setOverlay, update_self]
      refine .some fun i => ?_
      cases d i with
      | none => exact .none
      | some file => exact .some ⟨rfl, fun hsame => hsame, fun _ => rfl⟩
    refine Fault.on_rule hf ⟨hsynced, fun _ i file hfile => ?_, fun _ _ => rfl⟩ (.failed hsynced) hkeep
    simp only [overlayFile, World.setOverlay, update_self, Option.bind_some,
      Option.map_eq_some_iff] at hfile
    obtain ⟨file₀, -, rfl⟩ := hfile
    rfl

/-- The loop over the dirty chunks. -/
theorem syncFiles_spec (indexes : List Int64) :
    (machine P allowed who).wp (syncFiles id indexes).run
      (fun result w' => Synced (who.node, id) w w' ∧
        (result = .ok () → ∀ i ∈ indexes,
          ∃ file, overlayFile w' (who.node, id) i = some file ∧ file.synced = file.data) ∧
        (Quiet allowed → (∀ i ∈ indexes, (overlayFile w (who.node, id) i).isSome) → result = .ok ())) w := by
  induction indexes generalizing w with
  | nil => exact ⟨.refl _ w, fun _ _ h => (nomatch h), fun _ _ => rfl⟩
  | cons i indexes ih =>
    unfold syncFiles
    refine wp_run_seq syncFile_spec ?_
    rintro (e | _) w₁ ⟨hsynced, hsame, hquiet⟩
    · refine ⟨hsynced, nofun, fun hq hall => ?_⟩
      cases hquiet hq (hall i List.mem_cons_self)
    · refine wp_mono (ih (w := w₁)) ?_
      rintro result w₂ ⟨hsynced', hsame', hquiet'⟩
      refine ⟨hsynced.trans hsynced', ?_, ?_⟩
      · intro hok j hj
        rcases List.mem_cons.mp hj with rfl | hj
        · -- synced by this turn, and the turns after it keep that
          obtain ⟨file, hfile, hcontent⟩ := hsame rfl
          obtain ⟨file', hfile', hhardens⟩ := hsynced'.file hfile
          exact ⟨file', hfile', hhardens.content hcontent⟩
        · exact hsame' hok j hj
      · intro hq hall
        refine hquiet' hq fun j hj => ?_
        obtain ⟨file, hfile⟩ := Option.isSome_iff_exists.mp (hall j (List.mem_cons_of_mem _ hj))
        obtain ⟨file', hfile', -⟩ := hsynced.file hfile
        rw [hfile']
        rfl

/-- **`FlushDirty`**, under any faults: nothing but durability changes, and if it returns, every dirty chunk is
durable. -/
theorem flushDirty_spec (hreg : w.registered (who.node, id) = true)
    (hs : w.sessions (who.node, id) = some s) :
    (machine P allowed who).wp (flushDirty id).run
      (fun result w' => Synced (who.node, id) w w' ∧
        (result = .ok () → ∀ i, (s.dirty.lookup i).isSome →
          ∃ file, overlayFile w' (who.node, id) i = some file ∧ file.Durable) ∧
        (Quiet allowed → Intact w (who.node, id) s → result = .ok ())) w := by
  unfold flushDirty
  rw [wp_run_bind]
  refine session_spec hreg hs ?_
  rw [orElse_ok]
  unfold flushDirtyOverlay
  rw [wp_run_bind]
  refine wp_access fun f _ => ?_
  rw [orElse_ok]
  simp only [exec, hs, Option.map_some, Option.getD_some]
  have hmem : ∀ i, i ∈ P.rangeOrder s.dirty.keys ↔ (s.dirty.lookup i).isSome := by
    intro i
    rw [(P.rangeOrder_perm _).mem_iff, ← AList.mem_keys, AList.lookup_isSome]
  refine wp_run_seq (syncFiles_spec _) ?_
  rintro (e | _) w₁ ⟨hsynced, hsame, hquiet⟩
  · refine ⟨hsynced, by rintro ⟨⟩, fun hq hintact => ?_⟩
    cases hquiet hq fun i hi => by
      obtain ⟨file, hfile, -⟩ := hintact.chunk i ((hmem i).mp hi)
      rw [hfile]
      rfl
  · refine wp_mono syncDir_spec ?_
    rintro result w₂ ⟨hsynced', hlinked, hquiet'⟩
    refine ⟨hsynced.trans hsynced', ?_, ?_⟩
    · intro hok i hdirty
      obtain ⟨file, hfile, hcontent⟩ := hsame rfl i ((hmem i).mpr hdirty)
      obtain ⟨file', hfile', hhardens⟩ := hsynced'.file hfile
      exact ⟨file', hfile', hhardens.content hcontent, hlinked hok i file' hfile'⟩
    · intro hq hintact
      refine hquiet' hq ?_
      have hfiles := hsynced.files
      have hdir := hintact.dir
      generalize w.overlays (who.node, id) = d, w₁.overlays (who.node, id) = d' at hfiles hdir
      cases hfiles with
      | none => exact hdir
      | some _ => rfl

/-! ## The arrays stay -/

theorem Synced.othersKept (h : Synced r w w') : OthersKept r w w' := by
  refine ⟨fun r' hne => ?_, fun r' hne => ?_, fun r' hne => ?_⟩
  · rw [h.frame]
  · rw [h.frame]
  · rw [h.frame]
    exact update_of_ne hne _ _

theorem Synced.intact (h : Synced r w w') (hintact : Intact w r s) : Intact w' r s := by
  refine ⟨?_, fun i hdirty => ?_⟩
  · have hfiles := h.files
    have hdir := hintact.dir
    generalize w.overlays r = d, w'.overlays r = d' at hfiles hdir
    cases hfiles with
    | none => exact hdir
    | some _ => rfl
  · obtain ⟨file, hfile, hlength⟩ := hintact.chunk i hdirty
    obtain ⟨file', hfile', hhardens⟩ := h.file hfile
    exact ⟨file', hfile', hhardens.data.symm ▸ hlength⟩

/-- The same arrays, durable or not. -/
theorem Synced.flat (h : Synced r w w') (hclosed : Closed P w) : Flat.of P w' = Flat.of P w := by
  have hgrow : StoreGrows w w' := .of_eq (by rw [h.frame]) (by rw [h.frame])
  have hvolumes : w'.volumes = w.volumes := by rw [h.frame]
  have hsessions : w'.sessions = w.sessions := by rw [h.frame]
  have hregistered : w'.registered = w.registered := by rw [h.frame]
  apply Flat.ext
  · funext id
    exact Flat.latest_of_eq hclosed hgrow (congrFun hvolumes id)
  · funext r'
    by_cases hne : r' = r
    · subst hne
      show (if w'.registered r' then (w'.sessions r').map _ else none) =
        if w.registered r' then (w.sessions r').map _ else none
      rw [hregistered, hsessions]
      have hbytes : ∀ s, sessionBytes w' r' s = sessionBytes w r' s := by
        intro s
        rw [sessionBytes, sessionBytes, h.sessionByte]
      simp only [hbytes]
    · exact Flat.session_of_eq hclosed hgrow (congrFun hregistered r') (congrFun hsessions r')
        (h.othersKept.overlays r' hne)

/-- Closure is about the store and the caches. -/
theorem Synced.closed (h : Synced r w w') (hclosed : Closed P w) : Closed P w' := by
  rw [h.frame]
  exact ⟨hclosed.noCollision, hclosed.objects, hclosed.volumes, hclosed.snapshots, hclosed.latest,
    hclosed.images, hclosed.sessions, fun n => (hclosed.caches n).congr rfl rfl, hclosed.fresh⟩

theorem Synced.sound (h : Synced r w w') (hsound : Sound P w) : Sound P w' where
  closed := h.closed hsound.closed
  positive := by
    have hvolumes : w'.volumes = w.volumes := by rw [h.frame]
    rw [hvolumes]
    exact hsound.positive
  intact := by
    refine h.othersKept.intact hsound fun hreg => ?_
    have hregistered : w'.registered = w.registered := by rw [h.frame]
    have hsessions : w'.sessions = w.sessions := by rw [h.frame]
    rw [hregistered] at hreg
    obtain ⟨s, hs, hintact⟩ := hsound.intact r hreg
    exact ⟨s, by rw [hsessions, hs], h.intact hintact⟩

end Synced

/-! ## A power loss -/

/-- What the disk has of a file, if it has its name. -/
def OverlayFile.survivor (file : OverlayFile) : Option OverlayFile :=
  if file.linked then some { file with data := file.synced } else none

/-- All volatile content of the overlay files is lost. What is asked of the world after it is which bytes of a
session the FILES and the object store still hold, so the marks of the session are left in place. -/
def World.lose (w : World) : World :=
  { w with overlays := fun r => (w.overlays r).map fun d i => (d i).bind OverlayFile.survivor }

/-- A session whose dirty chunks are durable loses nothing. -/
theorem sessionByte_lose {w : World} {r : SessRef}
    (hdurable : ∀ i, (s.dirty.lookup i).isSome → ∃ file, overlayFile w r i = some file ∧ file.Durable) :
    sessionByte w.lose r s = sessionByte w r s := by
  have hchunk : ∀ i p, chunkByte w.lose r s i p = chunkByte w r s i p := by
    intro i p
    unfold chunkByte
    split
    · rename_i hdirty
      obtain ⟨file, hfile, hcontent, hname⟩ := hdurable i hdirty
      have hkept : overlayFile w.lose r i = some { file with data := file.synced } := by
        obtain ⟨d, hd, hi⟩ := Option.bind_eq_some_iff.mp hfile
        simp [overlayFile, World.lose, hd, hi, OverlayFile.survivor, hname]
      rw [hkept, hfile]
      simp [hcontent]
    · rfl
  funext p
  exact hchunk _ _

theorem Flat.sessions_lose {P : Platform} {w : World} {r : SessRef} (hs : w.sessions r = some s)
    (hdurable : ∀ i, (s.dirty.lookup i).isSome → ∃ file, overlayFile w r i = some file ∧ file.Durable) :
    (Flat.of P w.lose).sessions r = (Flat.of P w).sessions r := by
  have hsessions : w.lose.sessions r = some s := hs
  show (if w.registered r then (w.lose.sessions r).map _ else none) =
    if w.registered r then (w.sessions r).map _ else none
  simp only [hsessions, hs, Option.map_some, sessionBytes, sessionByte_lose hdurable]

end OrcaBlocks.Storage
