/-
# OrcaBlocks.Storage.Atomic — the operations when a call runs alone.

The rules of this module give the weakest precondition of each operation of the engine in an ATOMIC
run, under whatever faults the machine allows: what a success answers and leaves, and that a failure
can only be had where faults are allowed at all (`Quiet` says they are not). The functions of the
cache enter through `atomic_cache`, from their interleaved specifications.
-/
import OrcaBlocks.Storage.CacheSpec

namespace OrcaBlocks.Storage

open OrcaBlocks.Lib

variable {who : Caller} {w w' : World} {α : Type} {Q : Except Err Bytes → World → Prop} {o : Op}
  {f : Fault} {id : String} {i : Int64}

/-- The overlay file of a chunk. -/
def overlayFile (w : World) (r : SessRef) (i : Int64) : Option OverlayFile :=
  (w.overlays r).bind fun d => d i

/-! ## Frames -/

/-- No operation can fail. -/
def Quiet (allowed : Fault → World → Op → Prop) : Prop := ∀ f w o, allowed f w o → f = .none

/-- What reading may change: the node's cache and the session counters. -/
def ReadFrame (who : Caller) (w w' : World) : Prop :=
  w' = { w with
    caches := Function.update w.caches who.node (w'.caches who.node)
    stats := w'.stats
    ticks := w'.ticks
    temps := w'.temps
    tempOwner := w'.tempOwner }

/-- What a cache function may change. -/
def CacheFrame (who : Caller) (w w' : World) : Prop :=
  w' = { w with
    caches := Function.update w.caches who.node (w'.caches who.node)
    ticks := w'.ticks
    temps := w'.temps
    tempOwner := w'.tempOwner }

theorem CacheFrame.refl (who : Caller) (w : World) : CacheFrame who w w := by
  simp [CacheFrame]

theorem CacheFrame.trans {w'' : World} (h : CacheFrame who w w') (h' : CacheFrame who w' w'') :
    CacheFrame who w w'' := by
  unfold CacheFrame at *
  rw [h', h]
  simp

theorem ReadFrame.refl (who : Caller) (w : World) : ReadFrame who w w := by
  simp [ReadFrame]

theorem ReadFrame.trans {w'' : World} (h : ReadFrame who w w') (h' : ReadFrame who w' w'') :
    ReadFrame who w w'' := by
  unfold ReadFrame at *
  rw [h', h]
  simp

theorem CacheFrame.read (h : CacheFrame who w w') : ReadFrame who w w' := by
  unfold CacheFrame at h
  unfold ReadFrame
  rw [h]
  simp

section Atomic

variable {P : Platform} {allowed : Fault → World → Op → Prop}

/-- A run alone is a context for the cache. -/
theorem atomicContext : CacheContext P who allowed (fun w => CacheGood P w who.node)
    (fun w w' => w' = w) (Quiet allowed) where
  good := fun _ h => h
  step := fun _ _ _ h => h.good
  rely := by
    rintro w w' rfl
    exact ⟨fun _ h => h, le_refl _, fun _ _ => rfl, fun k _ _ => .refl _ k w'⟩
  noFault := fun h => h
  alone := fun _ _ _ h => h

/-- What a cache function guarantees, it guarantees when it runs alone; and it changes only the
cache. -/
theorem atomic_cache {t : Prog sig α} {Q : α → World → Prop}
    (h : WpRG (machine P allowed who) (fun w => CacheGood P w who.node) (fun w w' => w' = w)
      (CacheStep P who) t Q w) (hgood : CacheGood P w who.node) :
    (machine P allowed who).wp t
      (fun a w' => CacheFrame who w w' ∧ CacheGood P w' who.node ∧ Q a w') w := by
  have hframe := WpRG.remember (K := CacheFrame who) (CacheFrame.refl who)
    (fun h h' => h.trans h') (by rintro a b rfl; exact CacheFrame.refl who b)
    (fun _ hstep => hstep.frame) h
  refine wp_mono (WpRG.wp (I := fun w => CacheGood P w who.node)
    (R := fun w w' => w' = w) (fun _ => rfl) hframe hgood) ?_
  rintro a w' ⟨hgood', hK, hQ⟩
  exact ⟨hK, hgood', hQ⟩

/-! ## One rule per operation -/

/-- An operation on memory. -/
theorem wp_access {Q : Except Err (Res o) → World → Prop}
    (h : ∀ f, allowed f w o → Q (.ok (exec P who f w o).1) (exec P who f w o).2) :
    (machine P allowed who).wp (access o).run Q w := by
  unfold access
  rw [wp_run_lift]
  exact h

theorem wp_attempt {call : Prog sig (Except Err α)} {Q : Except Err (Except Err α) → World → Prop}
    (h : (machine P allowed who).wp call (fun r w' => Q (.ok r) w') w) :
    (machine P allowed who).wp (attempt call).run Q w := by
  unfold attempt
  rw [wp_run_lift]
  exact h

theorem wp_ofResult {x : Except Err α} {Q : Except Err α → World → Prop} :
    (machine P allowed who).wp (ofResult x).run Q w ↔ Q x w := Iff.rfl

/-- A call under an allowed fault: it succeeds, or faults are allowed and it fails. -/
theorem Fault.on_rule (hf : allowed f w o) {d : Except Err α × World} {Q : Except Err α → World → Prop}
    (hdone : Q d.1 d.2) (hlate : ¬ Quiet allowed → Q (.error .io) d.2)
    (hfail : ¬ Quiet allowed → Q (.error .io) w) : Q (f.on w d).1 (f.on w d).2 :=
  Fault.on_cases (motive := fun d => Q d.1 d.2) hdone
    (fun hne => hlate fun hq => hne (hq _ _ _ hf)) fun hne => hfail fun hq => hne (hq _ _ _ hf)

theorem wp_count {c : Counter} {Q : Except Err Unit → World → Prop}
    (h : ∀ w', ReadFrame who w w' → CacheGood P w' who.node → Q (.ok ()) w')
    (hgood : CacheGood P w who.node) : (machine P allowed who).wp (access (.count id c)).run Q w := by
  refine wp_access fun f _ => h _ ?_ (hgood.congr rfl rfl)
  simp [ReadFrame, exec]

/-- A call that only looks something up, under an allowed fault. -/
theorem get_rule (hf : allowed f w o) {found : Option α} {Q : Except Err α → World → Prop}
    (hsome : ∀ a, found = some a → Q (.ok a) w) (hnone : found = none → Q (.error .notFound) w)
    (hfail : ¬ Quiet allowed → Q (.error .io) w) :
    Q (f.on w (execGet w found)).1 (f.on w (execGet w found)).2 := by
  cases found with
  | some a => exact Fault.on_rule hf (hsome a rfl) hfail hfail
  | none => exact Fault.on_rule hf (hnone rfl) hfail hfail

/-- A call that only reads an overlay file, under an allowed fault. -/
theorem readOverlay_rule (hf : allowed f w o) {r : SessRef} {act : OverlayFile → Except Err Bytes}
    (hsome : ∀ file, overlayFile w r i = some file → Q (act file) w)
    (hnone : overlayFile w r i = none → Q (.error .notExist) w)
    (hfail : ¬ Quiet allowed → Q (.error .io) w) :
    Q (f.on w (execReadOverlay w r i fun file => (act file, w))).1
      (f.on w (execReadOverlay w r i fun file => (act file, w))).2 := by
  unfold execReadOverlay
  split
  · rename_i file hfile
    exact Fault.on_rule hf (hsome file hfile) hfail hfail
  · rename_i hfile
    exact Fault.on_rule hf (hnone hfile) hfail hfail

theorem wp_storeGet {key : String} (hsome : ∀ b, w.objects key = some b → Q (.ok b) w)
    (hnone : w.objects key = none → Q (.error .notFound) w) (hfail : ¬ Quiet allowed → Q (.error .io) w) :
    (machine P allowed who).wp (perform (.storeGet key)) Q w :=
  fun _ hf => get_rule hf hsome hnone hfail

/-- The overlay file is read as a whole. -/
theorem wp_readFile (hsome : ∀ file, overlayFile w (who.node, id) i = some file → Q (.ok file.data) w)
    (hnone : overlayFile w (who.node, id) i = none → Q (.error .notExist) w)
    (hfail : ¬ Quiet allowed → Q (.error .io) w) :
    (machine P allowed who).wp (perform (.readFile id i)) Q w :=
  fun _ hf => readOverlay_rule hf hsome hnone hfail

theorem wp_readFileAt {offset length : Int64} (hoffset : 0 ≤ offset.toInt)
    (hstop : offset.toInt + length.toInt < 2 ^ 63)
    (hsome : ∀ file, overlayFile w (who.node, id) i = some file →
      Q (.ok (slice file.data (natOf offset) (natOf length))) w)
    (hnone : overlayFile w (who.node, id) i = none → Q (.error .notExist) w)
    (hfail : ¬ Quiet allowed → Q (.error .io) w) :
    (machine P allowed who).wp (perform (.readFileAt id i offset length)) Q w := by
  intro f hf
  refine readOverlay_rule hf ?_ hnone hfail
  intro file hfile
  rw [readAtBytes_ok _ hoffset hstop]
  exact hsome file hfile

/-- The overlay after `b` was written to the file of chunk `i`. -/
def writeOverlay (w : World) (r : SessRef) (d : OverlayDir) (i : Int64) (b : Bytes) : World :=
  w.setOverlay r (some (Function.update d i (some (OverlayFile.write (d i) b))))

/-- `os.WriteFile`. A failure may have written anything to the file, or nothing. -/
theorem wp_writeFile {b : Bytes} {Q : Except Err Unit → World → Prop}
    (hok : ∀ d, w.overlays (who.node, id) = some d →
      Q (.ok ()) (writeOverlay w (who.node, id) d i b))
    (hnone : w.overlays (who.node, id) = none → Q (.error .notExist) w)
    (hfail : ¬ Quiet allowed → Q (.error .io) w)
    (htorn : ¬ Quiet allowed → ∀ d b', w.overlays (who.node, id) = some d →
      Q (.error .io) (writeOverlay w (who.node, id) d i b')) :
    (machine P allowed who).wp (perform (.writeFile id i b)) Q w := by
  intro f hf
  show Q (execWriteFile f w (who.node, id) i b).1 (execWriteFile f w (who.node, id) i b).2
  unfold execWriteFile
  cases hd : w.overlays (who.node, id) with
  | none => exact hnone hd
  | some d =>
    cases f with
    | none => exact hok d hd
    | wrote n => exact htorn (fun hq => by cases hq _ _ _ hf) d _ hd
    | late => exact htorn (fun hq => by cases hq _ _ _ hf) d b hd
    | fail => exact hfail fun hq => by cases hq _ _ _ hf
    | kept keep => exact hfail fun hq => by cases hq _ _ _ hf

end Atomic

end OrcaBlocks.Storage
