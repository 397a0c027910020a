/-
# OrcaBlocks.Nbd.SessionBackend — the storage engine behind an NBD device.

A `StorageDevice` asks an interface for bytes; behind it is the storage engine, for one of its sessions. The
methods of the interface are programs of the engine, so the backend is whatever RUNS them: alone and without
faults (`alone`), or with the faults an environment has planned.

Run alone, the engine is an array of bytes to the device. That is the refinement of the engine by flat arrays,
read from the outside: the array of the session is what a read returns, and a write is all that changes it.
-/
import OrcaBlocks.Nbd.ReadAhead
import OrcaBlocks.Storage.Flush
import OrcaBlocks.Storage.QuietCache

namespace OrcaBlocks.Nbd

open OrcaBlocks.Lib
open OrcaBlocks.Storage (Bytes World Platform Caller SessRef Sound Flat Refines faultFree sig machine NoCollision
  Fits Request Reply Synced CommitOptions Backend serveAll wp_of_answer unfailing InRange)

variable {r : SessRef} {offset : Int64} {n : Nat} {a a' : Flat} {volumeID : String} {reply : Reply}

variable {σ : Type}

/-! ## The methods -/

/-- How programs of the engine run on the states `σ`. -/
abbrev Runner (σ : Type) := (α : Type) → Prog sig α → σ → α × σ

/-- An error of the engine, to the device. -/
def passOn {α : Type} : Except Storage.Err α → Except Err α
  | .ok a => .ok a
  | .error _ => .error (.outside "storage")

/-- What `Read` and `Write` come to, to the device: they may panic. -/
def passOut {α : Type} : Except Storage.Err α → Outcome Err α
  | .ok a => .ok a
  | .error .panic => .panic
  | .error _ => .error (.outside "storage")

/-- The engine as the backend of a device. The hook of the device is outside of it. -/
def sessionBackend (run : Runner σ) (P : Platform) (b : Backend) (id : String) : StorageBackend σ where
  read offset length s := Prod.map passOut (fun s => s) (run _ (b.read P id offset length).run s)
  write offset data s := Prod.map passOut (fun s => s) (run _ (b.write P id offset data).run s)
  flushDirty s := Prod.map passOn (fun s => s) (run _ (Backend.flushDirty id).run s)
  commitWithOptions opts s :=
    Prod.map (fun r => (passOn r).map fun _ => ()) (fun s => s) (run _ (b.commitWithOptions P id opts).run s)
  stop s := Prod.map passOn (fun s => s) (run _ (Backend.stop id).run s)
  onDisconnect s := s

/-! ## A backend that is an array, in some of its states -/

/-- In the states `I` the backend is the array `content` on requests in the volume, and refuses the others. -/
structure StorageBackend.IsArrayOn (B : StorageBackend σ) (d : StorageDevice) (I : σ → Prop)
    (content : σ → Nat → UInt8) : Prop where
  read : ∀ offset length b, I b → I (B.read offset length b).2 ∧
    content (B.read offset length b).2 = content b ∧
    (d.Holds offset.toInt length.toInt →
      (B.read offset length b).1 = .ok (window (content b) (natOf offset) (natOf length))) ∧
    (¬ d.Holds offset.toInt length.toInt → ∃ e, (B.read offset length b).1 = .error e)
  write : ∀ (offset : Int64) (data : Bytes) b, data.length < 2 ^ 63 → I b → I (B.write offset data b).2 ∧
    (d.Holds offset.toInt data.length → (B.write offset data b).1 = .ok () ∧
      content (B.write offset data b).2 = patch 0 (content b) (natOf offset) data) ∧
    (¬ d.Holds offset.toInt data.length → (∃ e, (B.write offset data b).1 = .error e) ∧
      content (B.write offset data b).2 = content b)
  flush : ∀ b, I b → I (B.flushDirty b).2 ∧ (B.flushDirty b).1 = .ok () ∧
    content (B.flushDirty b).2 = content b

theorem StorageBackend.IsArrayOn.readsAs {B : StorageBackend σ} {d : StorageDevice} {I : σ → Prop}
    {content : σ → Nat → UInt8} (h : B.IsArrayOn d I content) {b : σ} (hb : I b) :
    B.ReadsAs d content b :=
  fun offset length hrange =>
    ⟨(h.read offset length b hb).2.2.1 hrange, (h.read offset length b hb).2.1⟩

/-! ## The engine, alone -/

/-- Alone and without faults. -/
def alone (P : Platform) (who : Caller) : Runner World := fun _ t w =>
  (machine P faultFree who).run (fun _ => .none) t w

/-- The array of a session; a session that is not open has none. -/
def sessionArray (P : Platform) (r : SessRef) (w : World) : Bytes :=
  ((Flat.of P w).sessions r).elim [] Prod.snd

def contentOf (P : Platform) (r : SessRef) (w : World) : Nat → UInt8 :=
  fun p => (sessionArray P r w).getD p 0

/-- The session is open, and as large as the device says. -/
structure Serving (P : Platform) (r : SessRef) (d : StorageDevice) (w : World) : Prop where
  sound : Sound P w
  opened : ∃ volumeID, (Flat.of P w).sessions r = some (volumeID, sessionArray P r w)
  size : ((sessionArray P r w).length : Int) = d.sizeBytes.toInt

section Alone

variable {P : Platform} {b : Backend} {who : Caller} {id : String} {d : StorageDevice} {w w' : World}

theorem quiet_faultFree : Storage.Quiet faultFree := fun _ _ _ h => h

theorem alone_wp {α : Type} {t : Prog sig α} {Q : α → World → Prop}
    (h : (machine P faultFree who).wp t Q w) : Q (alone P who α t w).1 (alone P who α t w).2 :=
  (Storage.runs_faultFree P who t w).wp h

/-- The array decides: a session with the same flat model is served as before. -/
theorem Serving.of_flat (h : Serving P r d w) (hsound : Sound P w') (hflat : Flat.of P w' = Flat.of P w) :
    Serving P r d w' ∧ contentOf P r w' = contentOf P r w := by
  have harray : sessionArray P r w' = sessionArray P r w := by
    unfold sessionArray
    rw [hflat]
  refine ⟨⟨hsound, ?_, ?_⟩, ?_⟩
  · rw [harray, hflat]
    exact h.opened
  · rw [harray]
    exact h.size
  · unfold contentOf
    rw [harray]

/-- The two ways to say that a request is in the volume. -/
theorem Serving.fits_iff (h : Serving P r d w) {length : Int64} :
    Fits (sessionArray P r w) offset length ↔ d.Holds offset.toInt length.toInt := by
  unfold Fits
  rw [h.size]
  exact ⟨fun ⟨h₁, h₂, h₃⟩ => ⟨h₁, h₂, h₃⟩, fun ⟨h₁, h₂, h₃⟩ => ⟨h₁, h₂, h₃⟩⟩

/-- An open session is registered, its files are in place, and its volume is as large as the device says. -/
theorem Serving.session (h : Serving P r d w) :
    w.registered r = true ∧ ∃ s, w.sessions r = some s ∧ Storage.Intact w r s ∧ ∀ offset length,
      InRange s.volume offset length ↔ d.Holds offset.toInt length.toInt := by
  obtain ⟨volumeID, hopen⟩ := h.opened
  cases hreg : w.registered r with
  | false =>
    rw [Flat.session_of_unregistered hreg] at hopen
    cases hopen
  | true =>
    obtain ⟨s, hs, hintact, -, hsize⟩ := h.sound.session hreg
    rw [Flat.session_of_registered hreg hs] at hopen
    obtain ⟨-, harray⟩ := Prod.mk.inj (Option.some.inj hopen)
    refine ⟨rfl, s, hs, hintact, fun offset length => ?_⟩
    rw [← Storage.fits_iff_inRange hsize, harray]
    exact h.fits_iff

/-- A read of the model, taken apart. -/
theorem read_inv {array : Bytes} {length : Int64}
    (hstep : Flat.Step n a (.read id offset length) reply a')
    (hopen : a.sessions (n, id) = some (volumeID, array)) :
    a' = a ∧ (Fits array offset length → reply = .bytes (slice array (natOf offset) (natOf length))) := by
  cases hstep with
  | read hopen' hfits =>
    rw [hopen] at hopen'
    cases hopen'
    exact ⟨rfl, fun _ => rfl⟩
  | readRefused hrefused =>
    exact ⟨rfl, fun hfits => absurd hfits (hrefused volumeID array hopen)⟩

theorem write_inv {array : Bytes} {data : { b : Bytes // b.length < 2 ^ 63 }}
    (hstep : Flat.Step n a (.write id offset data) reply a')
    (hopen : a.sessions (n, id) = some (volumeID, array)) :
    (Fits array offset (Int64.ofNat data.1.length) → reply = .done ∧
        a' = a.setSession (n, id) (some (volumeID, overwrite array (natOf offset) data.1))) ∧
      (¬ Fits array offset (Int64.ofNat data.1.length) → a' = a) := by
  cases hstep with
  | write hopen' hfits =>
    rw [hopen] at hopen'
    cases hopen'
    exact ⟨fun _ => ⟨rfl, rfl⟩, fun hnot => absurd hfits hnot⟩
  | writeRefused hrefused =>
    exact ⟨fun hfits => absurd hfits (hrefused volumeID array hopen), fun _ => rfl⟩

theorem alone_read (h : Serving P (who.node, id) d w) (offset length : Int64) :
    let result := (sessionBackend (alone P who) P b id).read offset length w
    Serving P (who.node, id) d result.2 ∧
      contentOf P (who.node, id) result.2 = contentOf P (who.node, id) w ∧
      (d.Holds offset.toInt length.toInt →
        result.1 = .ok (window (contentOf P (who.node, id) w) (natOf offset) (natOf length))) ∧
      (¬ d.Holds offset.toInt length.toInt → ∃ e, result.1 = .error e) := by
  obtain ⟨volumeID, hopen⟩ := h.opened
  have hrefines : (machine P faultFree who).wp (b.read P id offset length).run _ w :=
    wp_of_answer (Storage.read_refines quiet_faultFree b h.sound id offset length)
  obtain ⟨hsound, hstep⟩ := alone_wp hrefines
  obtain ⟨hflat, hok⟩ := read_inv hstep hopen
  obtain ⟨hserving, hcontent⟩ := h.of_flat hsound hflat
  refine ⟨hserving, hcontent, fun hrange => ?_, fun hrange => ?_⟩
  · have hbytes := hok (h.fits_iff.mpr hrange)
    have hwindow : slice (sessionArray P (who.node, id) w) (natOf offset) (natOf length) =
        window (contentOf P (who.node, id) w) (natOf offset) (natOf length) := by
      refine slice_eq_window 0 ?_
      have hsize := h.size
      obtain ⟨hstart, hnonneg, hstop⟩ := hrange
      unfold natOf
      omega
    show passOut (alone P who _ (b.read P id offset length).run w).1 = _
    split at hbytes
    · rename_i data hdata
      cases hbytes
      rw [hdata, hwindow]
      rfl
    · cases hbytes
  · obtain ⟨hreg, s, hs, -, hin⟩ := h.session
    have hspec : (machine P faultFree who).wp (b.read P id offset length).run _ w :=
      Storage.read_refused b hreg hs (.inr (mt (hin offset length).mp hrange))
    obtain ⟨-, text, herror⟩ := alone_wp hspec
    show ∃ e, passOut (alone P who _ (b.read P id offset length).run w).1 = .error e
    rw [herror]
    exact ⟨_, rfl⟩

theorem alone_write (h : Serving P (who.node, id) d w) (offset : Int64) (data : Bytes)
    (hlength : data.length < 2 ^ 63) :
    let result := (sessionBackend (alone P who) P b id).write offset data w
    Serving P (who.node, id) d result.2 ∧
      (d.Holds offset.toInt data.length → result.1 = .ok () ∧
        contentOf P (who.node, id) result.2 =
          patch 0 (contentOf P (who.node, id) w) (natOf offset) data) ∧
      (¬ d.Holds offset.toInt data.length → (∃ e, result.1 = .error e) ∧
        contentOf P (who.node, id) result.2 = contentOf P (who.node, id) w) := by
  obtain ⟨volumeID, hopen⟩ := h.opened
  have hrefines : (machine P faultFree who).wp (b.write P id offset data).run _ w :=
    wp_of_answer (Storage.write_refines quiet_faultFree b h.sound id offset ⟨data, hlength⟩)
  obtain ⟨hsound, hstep⟩ := alone_wp hrefines
  obtain ⟨hok, hfailed⟩ := write_inv hstep hopen
  have hrange : Fits (sessionArray P (who.node, id) w) offset (Int64.ofNat data.length) ↔
      d.Holds offset.toInt data.length := by
    rw [h.fits_iff, toInt_ofNat hlength]
  by_cases hholds : d.Holds offset.toInt data.length
  · obtain ⟨hreply, hflat⟩ := hok (hrange.mpr hholds)
    have hfit : natOf offset + data.length ≤ (sessionArray P (who.node, id) w).length := by
      have hsize := h.size
      have hstop := hholds.stop
      have hstart := hholds.start
      unfold natOf
      omega
    have harray : sessionArray P (who.node, id) (alone P who _ (b.write P id offset data).run w).2 =
        overwrite (sessionArray P (who.node, id) w) (natOf offset) data := by
      unfold sessionArray
      rw [hflat]
      simp only [Flat.setSession, Function.update_self]
      rfl
    refine ⟨⟨hsound, ⟨volumeID, ?_⟩, ?_⟩, fun _ => ⟨?_, ?_⟩, fun hnot => absurd hholds hnot⟩
    · show (Flat.of P (alone P who _ (b.write P id offset data).run w).2).sessions _ =
        some (volumeID, sessionArray P (who.node, id) (alone P who _ (b.write P id offset data).run w).2)
      rw [harray, hflat]
      exact Function.update_self _ _ _
    · show ((sessionArray P (who.node, id) (alone P who _ (b.write P id offset data).run w).2).length : Int) = _
      rw [harray, length_overwrite hfit]
      exact h.size
    · show passOut (alone P who _ (b.write P id offset data).run w).1 = _
      split at hreply
      · rename_i hdone
        rw [hdone]
        rfl
      · cases hreply
    · funext p
      show (sessionArray P (who.node, id) (alone P who _ (b.write P id offset data).run w).2).getD p 0 = _
      rw [harray, getD_overwrite 0 hfit]
      rfl
  · obtain ⟨hserving, hcontent⟩ := h.of_flat hsound (hfailed (mt hrange.mp hholds))
    refine ⟨hserving, fun hyes => absurd hyes hholds, fun _ => ⟨?_, hcontent⟩⟩
    obtain ⟨hreg, s, hs, -, hin⟩ := h.session
    have hout : ¬ InRange s.volume offset (Int64.ofNat data.length) := by
      rwa [hin, toInt_ofNat hlength]
    have hspec : (machine P faultFree who).wp (b.write P id offset data).run _ w :=
      Storage.write_refused b hreg hs hout
    obtain ⟨-, text, herror⟩ := alone_wp hspec
    show ∃ e, passOut (alone P who _ (b.write P id offset data).run w).1 = .error e
    rw [herror]
    exact ⟨_, rfl⟩

theorem alone_flush (h : Serving P (who.node, id) d w) :
    let result := (sessionBackend (alone P who) P b id).flushDirty w
    Serving P (who.node, id) d result.2 ∧ result.1 = .ok () ∧
      contentOf P (who.node, id) result.2 = contentOf P (who.node, id) w := by
  obtain ⟨hreg, s, hs, hintact, -⟩ := h.session
  have hspec : (machine P faultFree who).wp (Backend.flushDirty id).run _ w :=
    Storage.flushDirty_spec hreg hs
  obtain ⟨hsynced, -, hquiet⟩ := alone_wp hspec
  obtain ⟨hserving, hcontent⟩ := h.of_flat (hsynced.sound h.sound) (hsynced.flat h.sound.closed)
  refine ⟨hserving, ?_, hcontent⟩
  show passOn (alone P who _ (Backend.flushDirty id).run w).1 = _
  rw [hquiet quiet_faultFree hintact]
  rfl

/-- **Run alone, the engine is an array to the device.** -/
theorem alone_isArrayOn (P : Platform) (b : Backend) (who : Caller) (id : String) (d : StorageDevice) :
    (sessionBackend (alone P who) P b id).IsArrayOn d (Serving P (who.node, id) d)
      (contentOf P (who.node, id)) where
  read offset length _ h := alone_read h offset length
  write offset data _ hlength h := alone_write h offset data hlength
  flush _ h := alone_flush h

/-- A run without a collision at its end had none at its start. -/
theorem alone_noCollision {α : Type} {t : Prog sig α} (h : NoCollision P (alone P who α t w).2.hashed) :
    NoCollision P w.hashed ∧
      ∃ tr, (machine P (unfailing P) who).Runs t w tr (alone P who α t w).1 (alone P who α t w).2 := by
  have hexec : (machine P (unfailing P) who).exec = (machine P faultFree who).exec := rfl
  obtain ⟨hstart, hrun⟩ := runs_run_of_final (K := fun w => NoCollision P w.hashed) hexec
    (fun w o h => (Storage.collisionFree_of_noCollision .none w o h).imp_right fun hfree => ⟨rfl, hfree⟩) t w h
  exact ⟨hstart, _, hrun⟩

theorem sessions_of_commit {opts : CommitOptions} (h : Flat.Step n a (.commit id opts) reply a') :
    a'.sessions = a.sessions := by
  cases h with
  | commit _ => rfl
  | commitUnknown _ => rfl

/-- A commit leaves the array of the session. -/
theorem alone_commit (h : Serving P (who.node, id) d w) (opts : CommitOptions)
    (hcollision : NoCollision P ((sessionBackend (alone P who) P b id).commitWithOptions opts w).2.hashed) :
    let result := (sessionBackend (alone P who) P b id).commitWithOptions opts w
    Serving P (who.node, id) d result.2 ∧
      contentOf P (who.node, id) result.2 = contentOf P (who.node, id) w := by
  obtain ⟨volumeID, hopen⟩ := h.opened
  obtain ⟨-, tr, hrun⟩ := alone_noCollision (t := (b.commitWithOptions P id opts).run) hcollision
  obtain ⟨hsound, hstep⟩ := hrun.wp (wp_of_answer (Storage.commit_refines b h.sound id opts))
  have hsessions : (Flat.of P (alone P who _ (b.commitWithOptions P id opts).run w).2).sessions =
      (Flat.of P w).sessions := sessions_of_commit hstep
  have harray : sessionArray P (who.node, id) (alone P who _ (b.commitWithOptions P id opts).run w).2 =
      sessionArray P (who.node, id) w := by
    unfold sessionArray
    rw [hsessions]
  refine ⟨⟨hsound, ⟨volumeID, ?_⟩, ?_⟩, ?_⟩
  · show (Flat.of P (alone P who _ (b.commitWithOptions P id opts).run w).2).sessions _ = some (volumeID,
      sessionArray P (who.node, id) (alone P who _ (b.commitWithOptions P id opts).run w).2)
    rw [harray, hsessions]
    exact hopen
  · show ((sessionArray P (who.node, id)
      (alone P who _ (b.commitWithOptions P id opts).run w).2).length : Int) = _
    rw [harray]
    exact h.size
  · funext p
    show (sessionArray P (who.node, id) (alone P who _ (b.commitWithOptions P id opts).run w).2).getD p 0 = _
    rw [harray]
    rfl

/-- A session just started has the array of its base. -/
theorem started_inv {base : Bytes} (hstep : Flat.Step n a (.startSession volumeID) (.started id) a')
    (hlatest : a.latest volumeID = some base) : a'.sessions (n, id) = some (volumeID, base) := by
  cases hstep with
  | startSession hlatest' _ =>
    rw [hlatest] at hlatest'
    cases hlatest'
    exact Function.update_self _ _ _

/-- **A session just started is served**, as the array of its base. -/
theorem started_serving {backends : Nat → Backend} {calls : List (Caller × Storage.Request)}
    (hsized : ∀ call ∈ calls, call.2.Sized)
    (hfresh : (Storage.createdIDs (serveAll P backends World.initial calls).1).Nodup) {base : Bytes}
    (hlatest : (Flat.of P (serveAll P backends World.initial calls).2).latest volumeID = some base)
    (hstart : Storage.serve P backends (serveAll P backends World.initial calls).2 who
      (.startSession volumeID) = (.started id, w)) (hcollision : NoCollision P w.hashed)
    (hsize : d.sizeBytes.toInt = base.length) :
    Serving P (who.node, id) d w ∧ contentOf P (who.node, id) w = fun p => base.getD p 0 := by
  have hserved : (Storage.serve P backends (serveAll P backends World.initial calls).2 who
      (.startSession volumeID)).2 = w := by rw [hstart]
  obtain ⟨hearlier, tr, hrun⟩ := Storage.serve_runs (hserved.symm ▸ hcollision)
  obtain ⟨hsound₀, -⟩ := Storage.serveAll_run Storage.sound_initial hsized hfresh (fun _ _ => rfl) hearlier
  obtain ⟨hsound, hstep⟩ := hrun.wp (Storage.startSession_refines (backends who.node) hsound₀ volumeID)
  rw [hstart] at hsound hstep
  have hopen := started_inv hstep hlatest
  have harray : sessionArray P (who.node, id) w = base := by
    unfold sessionArray
    rw [hopen]
    rfl
  refine ⟨⟨hsound, ⟨volumeID, by rw [harray]; exact hopen⟩, by rw [harray]; exact hsize.symm⟩, ?_⟩
  unfold contentOf
  rw [harray]

end Alone

end OrcaBlocks.Nbd
