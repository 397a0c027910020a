/-
# OrcaBlocks.Storage.FlatArray — the storage engine is a set of flat arrays.

The abstract model has no chunks, no caches, no manifests and no nodes' disks: a volume is the array
of its latest bytes, a session a private copy of one. `Flat.of` reads it off a world. One call of the
engine is one step of the model (`serve_refines`), whatever the caches hold and evict, and so is a
whole sequence of calls on any number of nodes (`serveAll_refines`).

Calls are atomic and nothing fails. SHA-256 may do anything except collide on the chunks of the run.
-/
import OrcaBlocks.Storage.GoRuntime
import OrcaBlocks.Storage.Sessions

namespace OrcaBlocks.Storage

open OrcaBlocks.Lib Function

variable {v : Volume} {m : Manifest} {id : String} {r : SessRef} {s : Session} {length offset : Int64}
  {allowed : Fault → World → Op → Prop} {backends : Nat → Backend}

/-! ## The abstract model -/

/-- The latest array of each volume, and the volume and private array of each open session. -/
@[ext] structure Flat where
  latest : String → Option Bytes
  sessions : SessRef → Option (String × Bytes)

/-- Nothing created yet. -/
def Flat.empty : Flat := ⟨fun _ => none, fun _ => none⟩

def Flat.setLatest (a : Flat) (volumeID : String) (array : Bytes) : Flat :=
  { a with latest := update a.latest volumeID (some array) }

def Flat.setSession (a : Flat) (r : SessRef) (s : Option (String × Bytes)) : Flat :=
  { a with sessions := update a.sessions r s }

/-- A call of the storage API. Data is a Go slice, whose length is an `int`. -/
inductive Request where
  | createVolume (id : String) (sizeBytes chunkSize : Int64)
  | startSession (volumeID : String)
  | read (sessionID : String) (offset length : Int64)
  | write (sessionID : String) (offset : Int64) (data : { b : Bytes // b.length < 2 ^ 63 })
  | commit (sessionID : String) (opts : CommitOptions)
  | stop (sessionID : String)

inductive Reply where
  | created (volumeID : String)
  | started (sessionID : String)
  | bytes (b : Bytes)
  | committed (snapshotID : String)
  | done
  | failed
  deriving DecidableEq, Repr

/-- The range is inside the array, in integers without overflow. -/
def Fits (array : Bytes) (offset length : Int64) : Prop :=
  0 ≤ offset.toInt ∧ 0 ≤ length.toInt ∧ offset.toInt + length.toInt ≤ array.length

/-- No open session of this name has an array the range fits in. -/
def Flat.Refuses (a : Flat) (r : SessRef) (offset length : Int64) : Prop :=
  ∀ volumeID array, a.sessions r = some (volumeID, array) → ¬ Fits array offset length

/-- **One call on the abstract model**, issued on node `n`. A call fails exactly in the cases listed;
only the names of new volumes and sessions are left open. -/
inductive Flat.Step (n : Nat) : Flat → Request → Reply → Flat → Prop
  | createVolume {a : Flat} {id volumeID : String} {sizeBytes chunkSize : Int64}
      (hid : id ≠ "" → volumeID = id) (hnew : a.latest volumeID = none) :
      Step n a (.createVolume id sizeBytes chunkSize) (.created volumeID)
        (a.setLatest volumeID (List.replicate (natOf sizeBytes) 0))
  | startSession {a : Flat} {volumeID sessionID : String} {array : Bytes}
      (hlatest : a.latest volumeID = some array) (hnew : a.sessions (n, sessionID) = none) :
      Step n a (.startSession volumeID) (.started sessionID)
        (a.setSession (n, sessionID) (some (volumeID, array)))
  | startUnknown {a : Flat} {volumeID : String} (hnone : a.latest volumeID = none) :
      Step n a (.startSession volumeID) .failed a
  | read {a : Flat} {sessionID volumeID : String} {array : Bytes} {offset length : Int64}
      (hopen : a.sessions (n, sessionID) = some (volumeID, array)) (hfits : Fits array offset length) :
      Step n a (.read sessionID offset length)
        (.bytes (slice array (natOf offset) (natOf length))) a
  | readRefused {a : Flat} {sessionID : String} {offset length : Int64}
      (hrefused : a.Refuses (n, sessionID) offset length) :
      Step n a (.read sessionID offset length) .failed a
  | write {a : Flat} {sessionID volumeID : String} {array : Bytes} {offset : Int64}
      {data : { b : Bytes // b.length < 2 ^ 63 }}
      (hopen : a.sessions (n, sessionID) = some (volumeID, array))
      (hfits : Fits array offset (Int64.ofNat data.1.length)) :
      Step n a (.write sessionID offset data) .done
        (a.setSession (n, sessionID) (some (volumeID, overwrite array (natOf offset) data.1)))
  | writeRefused {a : Flat} {sessionID : String} {offset : Int64}
      {data : { b : Bytes // b.length < 2 ^ 63 }}
      (hrefused : a.Refuses (n, sessionID) offset (Int64.ofNat data.1.length)) :
      Step n a (.write sessionID offset data) .failed a
  | commit {a : Flat} {sessionID volumeID snapshotID : String} {array : Bytes}
      {opts : CommitOptions} (hopen : a.sessions (n, sessionID) = some (volumeID, array)) :
      Step n a (.commit sessionID opts) (.committed snapshotID)
        (a.setLatest volumeID array)
  | commitUnknown {a : Flat} {sessionID : String} {opts : CommitOptions}
      (hnone : a.sessions (n, sessionID) = none) : Step n a (.commit sessionID opts) .failed a
  | stop {a : Flat} {sessionID volumeID : String} {array : Bytes}
      (hopen : a.sessions (n, sessionID) = some (volumeID, array)) :
      Step n a (.stop sessionID) .done
        (a.setSession (n, sessionID) none)
  | stopUnknown {a : Flat} {sessionID : String} (hnone : a.sessions (n, sessionID) = none) :
      Step n a (.stop sessionID) .failed a

/-- A sequence of calls with their replies. -/
inductive Flat.Run : Flat → List (Caller × Request) → List Reply → Flat → Prop
  | nil (a : Flat) : Run a [] [] a
  | cons {a a₁ a₂ : Flat} {who : Caller} {request : Request} {reply : Reply}
      {calls : List (Caller × Request)} {replies : List Reply}
      (hstep : Flat.Step who.node a request reply a₁) (hrest : Run a₁ calls replies a₂) :
      Run a ((who, request) :: calls) (reply :: replies) a₂

/-! ## The engine -/

/-- Run a function and turn its result into a reply. -/
def answer {α : Type} (x : M α) (reply : α → Reply) : Prog sig Reply :=
  x.run >>= fun r => .ret (match r with
    | .ok a => reply a
    | .error _ => .failed)

def Request.prog (P : Platform) (b : Backend) : Request → Prog sig Reply
  | .createVolume id sizeBytes chunkSize =>
    answer (Backend.createVolume id sizeBytes chunkSize) fun v => .created v.volumeID
  | .startSession volumeID => answer (b.startSession P volumeID) .started
  | .read sessionID offset length => answer (b.read P sessionID offset length) .bytes
  | .write sessionID offset data => answer (b.write P sessionID offset data.1) fun _ => .done
  | .commit sessionID opts =>
    answer (b.commitWithOptions P sessionID opts) fun s => .committed s.snapshotID
  | .stop sessionID => answer (Backend.stop sessionID) fun _ => .done

/-- One call, atomically and without faults. -/
def serve (P : Platform) (backends : Nat → Backend) (w : World) (who : Caller) (request : Request) :
    Reply × World :=
  (machine P faultFree who).run (fun _ => .none) (request.prog P (backends who.node)) w

/-- A sequence of calls, each on the backend of its node. -/
def serveAll (P : Platform) (backends : Nat → Backend) : World → List (Caller × Request) →
    List Reply × World
  | w, [] => ([], w)
  | w, (who, request) :: calls =>
    let (reply, w₁) := serve P backends w who request
    let (replies, w₂) := serveAll P backends w₁ calls
    (reply :: replies, w₂)

/-- The sizes a volume may be created with. -/
def Request.Sized : Request → Prop
  | .createVolume _ sizeBytes chunkSize => 0 < sizeBytes.toInt ∧ 0 < chunkSize.toInt ∧
      sizeBytes.toInt + chunkSize.toInt ≤ 2 ^ 63 - 1
  | _ => True

/-- The names of the volumes created. -/
def createdIDs (replies : List Reply) : List String :=
  replies.filterMap fun reply => match reply with
    | .created volumeID => some volumeID
    | _ => none

/-! ## Abstraction -/

def volumeBytes (P : Platform) (w : World) (v : Volume) : Bytes :=
  window (manifestByte w v (latestOf P w v)) 0 (natOf v.sizeBytes)

def sessionBytes (w : World) (r : SessRef) (s : Session) : Bytes :=
  window (sessionByte w r s) 0 (natOf s.volume.sizeBytes)

/-- The arrays a world stands for. -/
def Flat.of (P : Platform) (w : World) : Flat where
  latest := fun id => (w.volumes id).map (volumeBytes P w)
  sessions := fun r => if w.registered r then
    (w.sessions r).map fun s => (s.volume.volumeID, sessionBytes w r s) else none

/-- **The invariant of the engine between calls.** -/
structure Sound (P : Platform) (w : World) : Prop where
  closed : Closed P w
  positive : ∀ id v, w.volumes id = some v → 0 < v.chunkSize.toInt ∧ 0 ≤ v.sizeBytes.toInt
  intact : ∀ r, w.registered r = true → ∃ s, w.sessions r = some s ∧ Intact w r s

section Abstraction

variable {P : Platform} {w w' : World}

/-- The store lost nothing. -/
structure StoreGrows (w w' : World) : Prop where
  objects : ∀ key b, w.objects key = some b → w'.objects key = some b
  snapshots : ∀ id s, w.snapshots id = some s → w'.snapshots id = some s

theorem Grows.store (h : Grows w w') : StoreGrows w w' := ⟨h.objects, h.snapshots⟩

theorem StoreGrows.of_eq (hobjects : w'.objects = w.objects) (hsnapshots : w'.snapshots = w.snapshots) :
    StoreGrows w w' :=
  ⟨fun key b h => by rw [hobjects, h], fun id s h => by rw [hsnapshots, h]⟩

/-- The bytes of a manifest whose chunks are in the store stay. -/
theorem manifestChunkByte_grow (hgrow : StoreGrows w w') (hgood : GoodManifest w.objects v m)
    (i : Int64) (p : Nat) : manifestChunkByte w' m i p = manifestChunkByte w m i p := by
  rw [manifestChunkByte, manifestChunkByte]
  cases hlookup : m.lookup i with
  | none => rfl
  | some chunkID =>
    obtain ⟨data, hdata, -⟩ := hgood.chunk i chunkID hlookup
    show objectByte w' chunkID p = objectByte w chunkID p
    rw [objectByte, objectByte, hdata, hgrow.objects _ _ hdata]

theorem manifestByte_congr {m' : Manifest} (h : ∀ i, m'.lookup i = m.lookup i) :
    manifestByte w v m' = manifestByte w v m := by
  funext p
  rw [manifestByte, manifestByte, manifestChunkByte, manifestChunkByte, h]

/-- The manifest of a volume's latest snapshot is good for the volume. -/
theorem Closed.goodManifest_latestOf (hclosed : Closed P w) (hv : w.volumes id = some v) :
    GoodManifest w.objects v (latestOf P w v) := by
  unfold latestOf
  by_cases hempty : v.latestSnapshotID = ""
  · rw [if_pos hempty]
    exact ⟨by simp, by simp⟩
  · rw [if_neg hempty]
    obtain ⟨s, hs, hshape⟩ := hclosed.latest id v hv hempty
    obtain ⟨-, v₀, hv₀, m, hm, hgood⟩ := hclosed.snapshots _ s hs
    rw [hs, Option.bind_some, hm, Option.getD_some]
    exact hgood.shape (hshape v₀ hv₀).symm

theorem latestOf_grow (hclosed : Closed P w) (hgrow : StoreGrows w w') (hv : w.volumes id = some v) :
    latestOf P w' v = latestOf P w v := by
  unfold latestOf
  by_cases hempty : v.latestSnapshotID = ""
  · rw [if_pos hempty, if_pos hempty]
  · rw [if_neg hempty, if_neg hempty]
    obtain ⟨s, hs, -⟩ := hclosed.latest id v hv hempty
    obtain ⟨-, v₀, -, m, hm, -⟩ := hclosed.snapshots _ s hs
    have hm' : manifestAt P w'.objects s.manifestKey = some m := by
      obtain ⟨raw, hraw, hdecode⟩ := Option.bind_eq_some_iff.mp hm
      rw [manifestAt, hgrow.objects _ _ hraw]
      exact hdecode
    rw [hs, hgrow.snapshots _ _ hs, Option.bind_some, Option.bind_some, hm, hm']

/-- A volume keeps its array when it keeps its record, up to the last node. -/
theorem latest_grow (hclosed : Closed P w) (hgrow : StoreGrows w w') (hv : w.volumes id = some v)
    (nodeID : String) : volumeBytes P w' { v with lastNode := nodeID } = volumeBytes P w v := by
  have hlatest := latestOf_grow hclosed hgrow hv
  show window (manifestByte w' v (latestOf P w' v)) 0 _ = window (manifestByte w v (latestOf P w v)) 0 _
  rw [hlatest]
  apply congrArg fun f => window f 0 (natOf v.sizeBytes)
  funext p
  exact manifestChunkByte_grow hgrow (hclosed.goodManifest_latestOf hv) _ _

/-- A session keeps its bytes when it keeps its record and its overlay. -/
theorem sessionByte_grow (hclosed : Closed P w) (hgrow : StoreGrows w w') (hs : w.sessions r = some s)
    (hoverlay : w'.overlays r = w.overlays r) : sessionByte w' r s = sessionByte w r s := by
  funext p
  rw [sessionByte, sessionByte, chunkByte, chunkByte, overlayFile, overlayFile, hoverlay,
    manifestChunkByte_grow hgrow (hclosed.sessions r s hs).2.1]

theorem sessionBytes_grow (hclosed : Closed P w) (hgrow : StoreGrows w w') (hs : w.sessions r = some s)
    (hoverlay : w'.overlays r = w.overlays r) : sessionBytes w' r s = sessionBytes w r s := by
  rw [sessionBytes, sessionBytes, sessionByte_grow hclosed hgrow hs hoverlay]

/-- A volume whose record did not change. -/
theorem Flat.latest_of_eq (hclosed : Closed P w) (hgrow : StoreGrows w w')
    (hv : w'.volumes id = w.volumes id) : (Flat.of P w').latest id = (Flat.of P w).latest id := by
  show (w'.volumes id).map _ = (w.volumes id).map _
  rw [hv]
  cases hfound : w.volumes id with
  | none => rfl
  | some v => exact congrArg some (latest_grow hclosed hgrow hfound v.lastNode)

/-- A session that did not change. -/
theorem Flat.session_of_eq (hclosed : Closed P w) (hgrow : StoreGrows w w')
    (hreg : w'.registered r = w.registered r) (hs : w'.sessions r = w.sessions r)
    (hoverlay : w'.overlays r = w.overlays r) :
    (Flat.of P w').sessions r = (Flat.of P w).sessions r := by
  show (if w'.registered r then (w'.sessions r).map _ else none) =
    if w.registered r then (w.sessions r).map _ else none
  rw [hreg, hs]
  cases hfound : w.sessions r with
  | none => rfl
  | some s => rw [Option.map_some, Option.map_some, sessionBytes_grow hclosed hgrow hfound hoverlay]

theorem Flat.session_of_registered (hreg : w.registered r = true) (hs : w.sessions r = some s) :
    (Flat.of P w).sessions r = some (s.volume.volumeID, sessionBytes w r s) := by
  show (if w.registered r then (w.sessions r).map _ else none) = _
  rw [hreg, hs]
  rfl

theorem Flat.session_of_unregistered (hreg : w.registered r = false) :
    (Flat.of P w).sessions r = none := by
  show (if w.registered r then (w.sessions r).map _ else none) = _
  rw [hreg]
  rfl

/-- The same data are the same arrays. -/
theorem SameData.flat (h : SameData w w') (hclosed : Closed P w) : Flat.of P w' = Flat.of P w := by
  have hgrow := StoreGrows.of_eq h.objects h.snapshots
  apply Flat.ext
  · funext id
    exact Flat.latest_of_eq hclosed hgrow (congrFun h.volumes id)
  · funext r
    exact Flat.session_of_eq hclosed hgrow (congrFun h.registered r) (congrFun h.sessions r)
      (congrFun h.overlays r)

theorem Intact.congr (h : Intact w r s) (hoverlay : w'.overlays r = w.overlays r) : Intact w' r s := by
  refine ⟨hoverlay ▸ h.dir, fun i => ?_⟩
  have hchunk := h.chunk i
  rwa [ChunkIntact, overlayFile, ← hoverlay] at hchunk

theorem SameData.sound (h : SameData w w') (hsound : Sound P w) (hclosed : Closed P w') :
    Sound P w' where
  closed := hclosed
  positive := fun id v hv => hsound.positive id v (by rw [← h.volumes, hv])
  intact := by
    intro r hreg
    rw [h.registered] at hreg
    obtain ⟨s, hs, hintact⟩ := hsound.intact r hreg
    exact ⟨s, by rw [h.sessions, hs], hintact.congr (congrFun h.overlays r)⟩

theorem ReadFrame.sameData {who : Caller} (h : ReadFrame who w w') : SameData w w' := by
  refine ⟨?_, ?_, ?_, ?_, ?_, ?_⟩
  all_goals rw [h]

/-- What the calls on an open session need. -/
theorem Sound.session (h : Sound P w) (hreg : w.registered r = true) :
    ∃ s, w.sessions r = some s ∧ Intact w r s ∧ 0 < s.volume.chunkSize.toInt ∧
      0 ≤ s.volume.sizeBytes.toInt := by
  obtain ⟨s, hs, hintact⟩ := h.intact r hreg
  obtain ⟨v, hv, hshape⟩ := (h.closed.sessions r s hs).1
  obtain ⟨hchunk, hsize⟩ := h.positive _ v hv
  exact ⟨s, hs, hintact, hshape.2 ▸ hchunk, hshape.1 ▸ hsize⟩

theorem fits_iff_inRange (hsize : 0 ≤ s.volume.sizeBytes.toInt) :
    Fits (sessionBytes w r s) offset length ↔ InRange s.volume offset length := by
  have hlen : ((sessionBytes w r s).length : Int) = s.volume.sizeBytes.toInt := by
    rw [sessionBytes, length_window, natOf_cast hsize]
  rw [Fits, hlen]
  rfl

/-- The sessions other than `r` did not change. -/
structure OthersKept (r : SessRef) (w w' : World) : Prop where
  registered : ∀ r', r' ≠ r → w'.registered r' = w.registered r'
  sessions : ∀ r', r' ≠ r → w'.sessions r' = w.sessions r'
  overlays : ∀ r', r' ≠ r → w'.overlays r' = w.overlays r'

/-- Only the array of session `r` may have changed. -/
theorem OthersKept.flat (h : OthersKept r w w') (hclosed : Closed P w) (hgrow : StoreGrows w w')
    (hlatest : ∀ id, (Flat.of P w').latest id = (Flat.of P w).latest id) {x : Option (String × Bytes)}
    (hr : (Flat.of P w').sessions r = x) : Flat.of P w' = (Flat.of P w).setSession r x := by
  apply Flat.ext
  · funext id
    exact hlatest id
  · funext r'
    by_cases hne : r' = r
    · subst hne
      simpa only [Flat.setSession, update_self] using hr
    · simp only [Flat.setSession, update_of_ne hne]
      exact Flat.session_of_eq hclosed hgrow (h.registered r' hne) (h.sessions r' hne)
        (h.overlays r' hne)

/-- Only the array of volume `volumeID` changed. -/
theorem Flat.of_setLatest (hclosed : Closed P w) (hgrow : StoreGrows w w') {volumeID : String}
    (hv : w'.volumes volumeID = some v) (hothers : ∀ id, id ≠ volumeID → w'.volumes id = w.volumes id)
    (hsessions : ∀ r, (Flat.of P w').sessions r = (Flat.of P w).sessions r) :
    Flat.of P w' = (Flat.of P w).setLatest volumeID (volumeBytes P w' v) := by
  apply Flat.ext
  · funext id
    by_cases hid : id = volumeID
    · subst hid
      simp only [Flat.setLatest, update_self]
      exact congrArg (Option.map (volumeBytes P w')) hv
    · simp only [Flat.setLatest, update_of_ne hid]
      exact Flat.latest_of_eq hclosed hgrow (hothers id hid)
  · funext r
    exact hsessions r

theorem OthersKept.intact (h : OthersKept r w w') (hsound : Sound P w)
    (hr : w'.registered r = true → ∃ s, w'.sessions r = some s ∧ Intact w' r s) :
    ∀ r', w'.registered r' = true → ∃ s, w'.sessions r' = some s ∧ Intact w' r' s := by
  intro r' hreg
  by_cases hne : r' = r
  · subst hne
    exact hr hreg
  · rw [h.registered r' hne] at hreg
    obtain ⟨s, hs, hintact⟩ := hsound.intact r' hreg
    exact ⟨s, (h.sessions r' hne).trans hs, hintact.congr (h.overlays r' hne)⟩

theorem WriteFrame.othersKept {who : Caller} (h : WriteFrame who r w w') : OthersKept r w w' := by
  refine ⟨fun r' hr => ?_, fun r' hr => ?_, fun r' hr => ?_⟩
  · rw [h]
  · rw [h]
    exact update_of_ne hr _ _
  · rw [h]
    exact update_of_ne hr _ _

theorem inRange_natOf (h : InRange v offset length) :
    natOf offset + natOf length ≤ natOf v.sizeBytes := by
  obtain ⟨hoffset, hlength, hle⟩ := h
  unfold natOf
  omega

end Abstraction

/-! ## Refinement, call by call -/

section Refinement

variable {P : Platform} {who : Caller} {w : World}

/-- A call did what the model does. -/
def Refines (P : Platform) (who : Caller) (w : World) (request : Request) (reply : Reply)
    (w' : World) : Prop :=
  Sound P w' ∧ Flat.Step who.node (Flat.of P w) request reply (Flat.of P w')

theorem wp_answer {α : Type} {x : M α} {reply : α → Reply} {Q : Reply → World → Prop}
    (h : (machine P allowed who).wp x.run (fun r w' => Q (match r with
      | .ok a => reply a
      | .error _ => .failed) w') w) : (machine P allowed who).wp (answer x reply) Q w := by
  unfold answer
  rw [wp_bind]
  exact h

/-- What a call refines, seen from inside a program. -/
theorem wp_of_answer {α : Type} {x : M α} {reply : α → Reply} {Q : Reply → World → Prop}
    (h : (machine P allowed who).wp (answer x reply) Q w) :
    (machine P allowed who).wp x.run (fun r w' => Q (match r with
      | .ok a => reply a
      | .error _ => .failed) w') w := by
  unfold answer at h
  rw [wp_bind] at h
  exact h

theorem Flat.refuses_of_none {a : Flat} (h : a.sessions r = none) (offset length : Int64) :
    a.Refuses r offset length := by
  intro volumeID array hopen
  rw [h] at hopen
  cases hopen

theorem Flat.refuses_of_not_inRange (hreg : w.registered r = true) (hs : w.sessions r = some s)
    (hsize : 0 ≤ s.volume.sizeBytes.toInt) (hrange : ¬ InRange s.volume offset length) :
    (Flat.of P w).Refuses r offset length := by
  intro volumeID array hopen hfits
  rw [Flat.session_of_registered hreg hs] at hopen
  cases hopen
  exact hrange ((fits_iff_inRange hsize).mp hfits)

theorem read_refines (hnoFault : Quiet allowed) (b : Backend) (h : Sound P w) (id : String)
    (offset length : Int64) :
    (machine P allowed who).wp ((Request.read id offset length).prog P b)
      (Refines P who w (.read id offset length)) w := by
  refine wp_answer ?_
  cases hreg : w.registered (who.node, id) with
  | false =>
    refine wp_mono (unknown_fails hreg _) ?_
    rintro r w' ⟨rfl, rfl⟩
    exact ⟨h, .readRefused (Flat.refuses_of_none (Flat.session_of_unregistered hreg) _ _)⟩
  | true =>
    obtain ⟨s, hs, hintact, hchunk, hsize⟩ := h.session hreg
    by_cases hrange : InRange s.volume offset length
    · refine wp_mono (read_spec b h.closed hreg hs hchunk hrange) ?_
      rintro r w' ⟨hframe, hclosed, hquiet, -⟩
      obtain rfl := hquiet hnoFault (hintact.present _ _)
      have hsame := hframe.sameData
      refine ⟨hsame.sound h hclosed, ?_⟩
      rw [hsame.flat h.closed]
      have hstep := Flat.Step.read (n := who.node) (Flat.session_of_registered (P := P) hreg hs)
        ((fits_iff_inRange hsize).mpr hrange)
      rwa [sessionBytes, slice_window _ (inRange_natOf hrange), Nat.zero_add] at hstep
    · refine wp_mono (read_refused b hreg hs (Or.inr hrange)) ?_
      rintro r w' ⟨rfl, e, rfl⟩
      exact ⟨h, .readRefused (Flat.refuses_of_not_inRange hreg hs hsize hrange)⟩

theorem write_refines (hnoFault : Quiet allowed) (b : Backend) (h : Sound P w) (id : String)
    (offset : Int64) (data : { b : Bytes // b.length < 2 ^ 63 }) :
    (machine P allowed who).wp ((Request.write id offset data).prog P b)
      (Refines P who w (.write id offset data)) w := by
  refine wp_answer ?_
  cases hreg : w.registered (who.node, id) with
  | false =>
    refine wp_mono (unknown_fails hreg _) ?_
    rintro r w' ⟨rfl, rfl⟩
    exact ⟨h, .writeRefused (Flat.refuses_of_none (Flat.session_of_unregistered hreg) _ _)⟩
  | true =>
    obtain ⟨s, hs, hintact, hchunk, hsize⟩ := h.session hreg
    by_cases hrange : InRange s.volume offset (Int64.ofNat data.1.length)
    · refine wp_mono (write_spec b h.closed hreg hs hchunk data.2 hrange) ?_
      intro r w' hw
      obtain rfl := hw.quiet hnoFault hintact
      obtain ⟨s', hs', hvolume, -, -, hdone⟩ := hw.session
      obtain ⟨hbytes, hintact'⟩ := hdone rfl
      have hothers := hw.frame.othersKept
      have hvolumes : w'.volumes = w.volumes := by rw [hw.frame]
      have hgrow : StoreGrows w w' := .of_eq (by rw [hw.frame]) (by rw [hw.frame])
      have hreg' : w'.registered (who.node, id) = true := by rw [hw.frame]; exact hreg
      refine ⟨⟨hw.closed, hvolumes ▸ h.positive,
        hothers.intact h fun _ => ⟨s', hs', hintact' hintact⟩⟩, ?_⟩
      -- the array of the session is the old one, overwritten
      have harray : sessionBytes w' (who.node, id) s' =
          overwrite (sessionBytes w (who.node, id) s) (natOf offset) data.1 := by
        have hfit := inRange_natOf hrange
        rw [natOf_ofNat data.2] at hfit
        have hlt := natOf_lt s.volume.sizeBytes
        rw [sessionBytes, sessionBytes, hvolume, overwrite_window 0 _ hfit]
        exact window_congr fun p _ hp => hbytes p (by omega)
      have hflat := hothers.flat h.closed hgrow
        (fun id' => Flat.latest_of_eq h.closed hgrow (congrFun hvolumes id'))
        (Flat.session_of_registered hreg' hs')
      rw [hflat, hvolume, harray]
      exact .write (Flat.session_of_registered hreg hs) ((fits_iff_inRange hsize).mpr hrange)
    · refine wp_mono (write_refused b hreg hs hrange) ?_
      rintro r w' ⟨rfl, e, rfl⟩
      exact ⟨h, .writeRefused (Flat.refuses_of_not_inRange hreg hs hsize hrange)⟩

/-- What creating a volume under a new name does. -/
structure Created (P : Platform) (w : World) (v : Volume) (w' : World) : Prop where
  sound : Sound P w'
  volume : w'.volumes v.volumeID = some v
  flat : Flat.of P w' = (Flat.of P w).setLatest v.volumeID (List.replicate (natOf v.sizeBytes) 0)

theorem createVolume_created (h : Sound P w) {sizeBytes chunkSize : Int64}
    (hfits : SizesFit (newVolume P w id sizeBytes chunkSize).withDefaults)
    (hchunk : 0 < (newVolume P w id sizeBytes chunkSize).withDefaults.chunkSize.toInt)
    (hsize : 0 ≤ (newVolume P w id sizeBytes chunkSize).withDefaults.sizeBytes.toInt) :
    (machine P (unfailing P) who).wp (Backend.createVolume id sizeBytes chunkSize).run
      (fun r w' => r = .ok (newVolume P w id sizeBytes chunkSize).withDefaults ∧
        (w.volumes (newVolume P w id sizeBytes chunkSize).volumeID = none →
          Created P w (newVolume P w id sizeBytes chunkSize).withDefaults w')) w := by
  refine wp_mono (createVolume_withDefaults h.closed hfits) ?_
  rintro r w' ⟨rfl, hsame, hclosed⟩
  refine ⟨rfl, fun hnone => ?_⟩
  have hzero : volumeBytes P w' (newVolume P w id sizeBytes chunkSize).withDefaults =
      List.replicate (natOf (newVolume P w id sizeBytes chunkSize).withDefaults.sizeBytes) 0 := by
    rw [← window_const 0 0]
    apply congrArg fun f => window f 0 _
    funext p
    rfl
  generalize hv : (newVolume P w id sizeBytes chunkSize).withDefaults = v at *
  have hname : (newVolume P w id sizeBytes chunkSize).volumeID = v.volumeID := by
    rw [← hv]
    rfl
  have hgrow : StoreGrows w w' := .of_eq hsame.objects hsame.snapshots
  have hvolumes : w'.volumes = update w.volumes v.volumeID (some v) := hsame.volumes
  have hvolume : w'.volumes v.volumeID = some v := by rw [hvolumes, update_self]
  refine ⟨⟨hclosed hnone, ?_, ?_⟩, hvolume, ?_⟩
  · intro id' v' hv'
    rw [hvolumes] at hv'
    by_cases hid : id' = v.volumeID
    · rw [hid, update_self, Option.some.injEq] at hv'
      rw [← hv']
      exact ⟨hchunk, hsize⟩
    · rw [update_of_ne hid] at hv'
      exact h.positive id' v' hv'
  · intro r hreg
    obtain ⟨s, hs, hintact⟩ := h.intact r (hsame.registered ▸ hreg)
    exact ⟨s, (congrFun hsame.sessions r).trans hs, hintact.congr (congrFun hsame.overlays r)⟩
  · rw [Flat.of_setLatest h.closed hgrow hvolume
      (fun id' hid => (congrFun hvolumes id').trans (update_of_ne hid _ _))
      (fun r => Flat.session_of_eq h.closed hgrow (congrFun hsame.registered r)
        (congrFun hsame.sessions r) (congrFun hsame.overlays r)), hzero]

theorem createVolume_refines (h : Sound P w) {sizeBytes chunkSize : Int64}
    (hsized : (Request.createVolume id sizeBytes chunkSize).Sized) (b : Backend) :
    (machine P (unfailing P) who).wp ((Request.createVolume id sizeBytes chunkSize).prog P b)
      (fun reply w' => (∀ volumeID, reply = .created volumeID →
          (Flat.of P w).latest volumeID = none) →
        Refines P who w (.createVolume id sizeBytes chunkSize) reply w') w := by
  obtain ⟨hsize, hchunk, hbound⟩ := hsized
  have hne : ∀ {x : Int64}, 0 < x.toInt → x ≠ 0 := by
    rintro x hx rfl
    exact absurd hx (by decide)
  have hdefaults : (newVolume P w id sizeBytes chunkSize).withDefaults =
      newVolume P w id sizeBytes chunkSize := by
    have hsize' : (newVolume P w id sizeBytes chunkSize).sizeBytes ≠ 0 := hne hsize
    have hchunk' : (newVolume P w id sizeBytes chunkSize).chunkSize ≠ 0 := hne hchunk
    rw [Volume.withDefaults, if_neg hsize', if_neg hchunk']
  have hfits : SizesFit (newVolume P w id sizeBytes chunkSize) :=
    ⟨Int.le_trans hbound (by decide), hne hsize, hne hchunk⟩
  have hcreated : (machine P (unfailing P) who).wp (Backend.createVolume id sizeBytes chunkSize).run _ w :=
    createVolume_created h (hdefaults.symm ▸ hfits) (hdefaults.symm ▸ hchunk) (hdefaults.symm ▸ hsize.le)
  refine wp_answer (wp_mono hcreated ?_)
  rintro r w' ⟨rfl, hcreated⟩ hfresh
  have hnone := hfresh _ rfl
  obtain ⟨hsound, -, hflat⟩ := hcreated (Option.map_eq_none_iff.mp hnone)
  refine ⟨hsound, ?_⟩
  rw [hflat, hdefaults]
  refine .createVolume (fun hid => ?_) ?_
  · exact if_neg hid
  · rw [hdefaults] at hnone
    exact hnone

theorem startSession_refines (b : Backend) (h : Sound P w) (volumeID : String) :
    (machine P (unfailing P) who).wp ((Request.startSession volumeID).prog P b)
      (Refines P who w (.startSession volumeID)) w := by
  refine wp_answer ?_
  cases hv : w.volumes volumeID with
  | none =>
    refine wp_mono (startSession_unknown b hv) ?_
    rintro r w' ⟨rfl, rfl⟩
    exact ⟨h, .startUnknown (Option.map_eq_none_iff.mpr hv)⟩
  | some v =>
    obtain rfl := (h.closed.volumes _ v hv).1
    refine wp_mono (startSession_spec b h.closed hv) ?_
    rintro r w' ⟨⟨rfl, hsame⟩, hclosed⟩
    have hfresh := (h.closed.fresh w.uuids (Nat.le_refl _)).2.2 who.node
    generalize hr : (who.node, P.uuid w.uuids) = r at hsame hfresh
    have hgrow : StoreGrows w w' := .of_eq hsame.objects hsame.snapshots
    have hothers : OthersKept r w w' :=
      ⟨fun r' hne => (congrFun hsame.registered r').trans (update_of_ne hne _ _),
        fun r' hne => (congrFun hsame.sessions r').trans (update_of_ne hne _ _),
        fun r' hne => (congrFun hsame.overlays r').trans (update_of_ne hne _ _)⟩
    have hvolumes : w'.volumes =
        update w.volumes v.volumeID (some { v with lastNode := b.nodeID }) :=
      hsame.volumes
    have hreg : w'.registered r = true :=
      (congrFun hsame.registered r).trans (update_self _ _ _)
    have hs : w'.sessions r = some ⟨v, v.latestSnapshotID, latestOf P w v, ∅⟩ :=
      (congrFun hsame.sessions r).trans (update_self _ _ _)
    have hdir : (w'.overlays r).isSome := by
      rw [hsame.overlays]
      simp [World.started]
    have harray : sessionBytes w' r ⟨v, v.latestSnapshotID, latestOf P w v, ∅⟩ =
        volumeBytes P w v := by
      apply congrArg fun f => window f 0 (natOf v.sizeBytes)
      funext p
      rw [sessionByte_of_clean (by simp)]
      exact manifestChunkByte_grow hgrow (h.closed.goodManifest_latestOf hv) _ _
    have hlatest : ∀ id, (Flat.of P w').latest id = (Flat.of P w).latest id := by
      intro id
      by_cases hid : id = v.volumeID
      · subst hid
        show (w'.volumes _).map _ = (w.volumes _).map _
        rw [hvolumes, update_self, hv, Option.map_some, Option.map_some,
          latest_grow h.closed hgrow hv]
      · exact Flat.latest_of_eq h.closed hgrow
          ((congrFun hvolumes id).trans (update_of_ne hid _ _))
    refine ⟨⟨hclosed, ?_, hothers.intact h fun _ => ⟨_, hs, hdir, fun i hi => ?_⟩⟩, ?_⟩
    · intro id v' hv'
      rw [hvolumes] at hv'
      by_cases hid : id = v.volumeID
      · rw [hid, update_self, Option.some.injEq] at hv'
        rw [← hv']
        exact h.positive _ v hv
      · rw [update_of_ne hid] at hv'
        exact h.positive id v' hv'
    · simp at hi
    · rw [hothers.flat h.closed hgrow hlatest (Flat.session_of_registered hreg hs), harray, ← hr]
      refine .startSession ?_ ?_
      · show (w.volumes _).map _ = _
        rw [hv, Option.map_some]
      · show (if w.registered _ then (w.sessions _).map _ else none) = none
        rw [hr, hfresh]
        simp

theorem stop_refines (b : Backend) (h : Sound P w) (id : String) :
    (machine P (unfailing P) who).wp ((Request.stop id).prog P b)
      (Refines P who w (.stop id)) w := by
  refine wp_answer ?_
  cases hreg : w.registered (who.node, id) with
  | false =>
    refine wp_mono (stop_unknown hreg) ?_
    rintro r w' ⟨rfl, rfl⟩
    exact ⟨h, .stopUnknown (Flat.session_of_unregistered hreg)⟩
  | true =>
    obtain ⟨s, hs, -, -, -⟩ := h.session hreg
    refine wp_mono (stop_spec h.closed hreg) ?_
    rintro r w' ⟨⟨rfl, hsame⟩, hclosed⟩
    have hgrow : StoreGrows w w' := .of_eq hsame.objects hsame.snapshots
    have hothers : OthersKept (who.node, id) w w' :=
      ⟨fun r' hne => (congrFun hsame.registered r').trans (update_of_ne hne _ _),
        fun r' hne => congrFun hsame.sessions r',
        fun r' hne => (congrFun hsame.overlays r').trans (update_of_ne hne _ _)⟩
    have hreg' : w'.registered (who.node, id) = false :=
      (congrFun hsame.registered _).trans (update_self _ _ _)
    have hvolumes : w'.volumes = w.volumes := hsame.volumes
    refine ⟨⟨hclosed, hvolumes ▸ h.positive, hothers.intact h fun htrue => ?_⟩, ?_⟩
    · rw [hreg'] at htrue
      cases htrue
    · rw [hothers.flat h.closed hgrow
        (fun id => Flat.latest_of_eq h.closed hgrow (congrFun hvolumes id))
        (Flat.session_of_unregistered hreg')]
      exact .stop (Flat.session_of_registered hreg hs)

/-- The volume a snapshot was committed to has its manifest. -/
theorem Recorded.lookup_latestOf {volume : Volume} {snap : Snapshot} (h : Recorded P w volume m snap)
    (hlatest : v.latestSnapshotID = snap.snapshotID) (i : Int64) :
    (latestOf P w v).lookup i = m.lookup i := by
  obtain ⟨m', hm', hlookup⟩ := h.stored
  rw [latestOf, hlatest, if_neg h.named, h.recorded, Option.bind_some, hm', Option.getD_some, hlookup]

/-- ... and the bytes of it. -/
theorem Recorded.volumeBytes_eq {volume : Volume} {snap : Snapshot} (h : Recorded P w volume m snap)
    (hshape : SameShape volume v) (hlatest : v.latestSnapshotID = snap.snapshotID) :
    volumeBytes P w v = window (manifestByte w volume m) 0 (natOf volume.sizeBytes) := by
  rw [volumeBytes, manifestByte_congr (h.lookup_latestOf hlatest), hshape.1]
  apply congrArg fun f => window f 0 (natOf v.sizeBytes)
  funext p
  rw [manifestByte, manifestByte, hshape.2]

theorem commit_refines (b : Backend) (h : Sound P w) (id : String) (opts : CommitOptions) :
    (machine P (unfailing P) who).wp ((Request.commit id opts).prog P b)
      (Refines P who w (.commit id opts)) w := by
  refine wp_answer ?_
  cases hreg : w.registered (who.node, id) with
  | false =>
    refine wp_mono (unknown_fails hreg _) ?_
    rintro r w' ⟨rfl, rfl⟩
    exact ⟨h, .commitUnknown (Flat.session_of_unregistered hreg)⟩
  | true =>
    obtain ⟨s, hs, hintact, hchunk, -⟩ := h.session hreg
    refine wp_mono (commit_spec (fun _ _ _ h => h.2) b opts h.closed hreg hs) ?_
    rintro r w' ⟨hclosed, hgrows, hout⟩
    obtain ⟨snap, rfl⟩ := hout.quiet quiet_unfailing hintact.chunk
    obtain ⟨m, hcommitted, hmoved⟩ := hout.ok snap rfl
    obtain ⟨hmoved, hempty⟩ := hmoved trivial
    obtain ⟨v, hv, hshape⟩ := (h.closed.sessions _ s hs).1
    have hgrow := hgrows.store
    have hvid := hcommitted.recorded.volumeID
    have hvolumes : w'.volumes = update w.volumes s.volume.volumeID
        (some { v with latestSnapshotID := snap.snapshotID }) := by
      rw [hmoved.volumes, World.setLatest, hvid, hv, Option.map_some]
    have hs' : w'.sessions (who.node, id) = some (s.rebase snap m).clean := by
      rw [hmoved.sessions, update_self]
    have hbytes : ∀ p, manifestByte w' s.volume m p = sessionByte w (who.node, id) s p :=
      hcommitted.manifestByte_eq trivial h.closed hclosed hgrows hs hchunk
    -- the session sees the bytes it saw, now through its new base
    have hsessions : ∀ r, (Flat.of P w').sessions r = (Flat.of P w).sessions r := by
      intro r
      by_cases hr : r = (who.node, id)
      · subst hr
        rw [Flat.session_of_registered ((congrFun hmoved.registered _).trans hreg) hs',
          Flat.session_of_registered hreg hs]
        refine congrArg (fun f => some (s.volume.volumeID, window f 0 (natOf s.volume.sizeBytes))) ?_
        funext p
        rw [sessionByte_of_clean (by simp [Session.clean])]
        exact hbytes p
      · refine Flat.session_of_eq h.closed hgrow (congrFun hmoved.registered r) ?_
          (hmoved.overlays r hr)
        rw [hmoved.sessions, update_of_ne hr]
    refine ⟨⟨hclosed, ?_, ?_⟩, ?_⟩
    · intro id' v' hv'
      rw [hvolumes] at hv'
      by_cases hid : id' = s.volume.volumeID
      · rw [hid, update_self, Option.some.injEq] at hv'
        rw [← hv']
        exact h.positive _ v hv
      · rw [update_of_ne hid] at hv'
        exact h.positive id' v' hv'
    · intro r hreg'
      rw [hmoved.registered] at hreg'
      by_cases hr : r = (who.node, id)
      · subst hr
        exact ⟨_, hs', hempty ▸ rfl, fun i hi => by simp [Session.clean] at hi⟩
      · obtain ⟨s', hs', hintact'⟩ := h.intact r hreg'
        refine ⟨s', ?_, hintact'.congr (hmoved.overlays r hr)⟩
        rw [hmoved.sessions, update_of_ne hr, hs']
    · have hshape' : SameShape s.volume { v with latestSnapshotID := snap.snapshotID } := hshape
      rw [Flat.of_setLatest h.closed hgrow ((congrFun hvolumes _).trans
        (update_self _ _ _)) (fun id' hid => (congrFun hvolumes id').trans
        (update_of_ne hid _ _)) hsessions, hcommitted.recorded.volumeBytes_eq hshape' rfl]
      have harray : window (manifestByte w' s.volume m) 0 (natOf s.volume.sizeBytes) =
          sessionBytes w (who.node, id) s := window_congr fun p _ _ => hbytes p
      rw [harray]
      exact .commit (Flat.session_of_registered hreg hs)

/-- **One call refines one step of the model.** -/
theorem serve_refines (b : Backend) (h : Sound P w) {request : Request} (hsized : request.Sized) :
    (machine P (unfailing P) who).wp (request.prog P b)
      (fun reply w' => (∀ volumeID, reply = .created volumeID →
          (Flat.of P w).latest volumeID = none) → Refines P who w request reply w') w := by
  cases request with
  | createVolume id sizeBytes chunkSize => exact createVolume_refines h hsized b
  | startSession volumeID =>
    exact wp_mono (startSession_refines b h volumeID) fun _ _ hr _ => hr
  | read id offset length =>
    exact wp_mono (read_refines quiet_unfailing b h id offset length) fun _ _ hr _ => hr
  | write id offset data =>
    exact wp_mono (write_refines quiet_unfailing b h id offset data) fun _ _ hr _ => hr
  | commit id opts => exact wp_mono (commit_refines b h id opts) fun _ _ hr _ => hr
  | stop id => exact wp_mono (stop_refines b h id) fun _ _ hr _ => hr

/-! ## Refinement of a sequence of calls -/

theorem sound_initial : Sound P World.initial where
  closed := closed_initial
  positive := by intro id v hv; cases hv
  intact := by intro r hreg; cases hreg

/-- Only `HashChunk` adds to the chunks hashed. -/
theorem exec_hashed (f : Fault) (w : World) (o : Op) (ho : ∀ b, o ≠ .hashChunk b) :
    (exec P who f w o).2.hashed = w.hashed := by
  cases o with
  | hashChunk b => exact absurd rfl (ho b)
  | _ =>
    first
      | rfl
      | (cases f <;> first
          | rfl
          | (simp only [exec, Fault.on, execGet, execUpdateVolume, execReadOverlay, execWriteFile,
              execCacheFile, execWriteTemp, execRename]; repeat' split) <;> rfl)

/-- If no two chunks hashed up to the end collide, no step on the way collided. -/
theorem collisionFree_of_noCollision (f : Fault) (w : World) (o : Op)
    (h : NoCollision P (exec P who f w o).2.hashed) :
    NoCollision P w.hashed ∧ CollisionFree P w o := by
  by_cases ho : ∃ b, o = .hashChunk b
  · obtain ⟨b, rfl⟩ := ho
    refine ⟨fun b₁ h₁ b₂ h₂ => h b₁ (List.mem_cons_of_mem _ h₁) b₂ (List.mem_cons_of_mem _ h₂), ?_⟩
    intro b' hb' heq
    exact h b' (List.mem_cons_of_mem _ hb') b List.mem_cons_self heq
  · have hne : ∀ b, o ≠ .hashChunk b := fun b hb => ho ⟨b, hb⟩
    rw [exec_hashed f w o hne] at h
    refine ⟨h, ?_⟩
    cases o with
    | hashChunk b => exact absurd rfl (hne b)
    | _ => trivial

theorem serve_runs {request : Request} (h : NoCollision P (serve P backends w who request).2.hashed) :
    NoCollision P w.hashed ∧ ∃ tr, (machine P (unfailing P) who).Runs
      (request.prog P (backends who.node)) w tr (serve P backends w who request).1
        (serve P backends w who request).2 := by
  have hexec : (machine P (unfailing P) who).exec = (machine P faultFree who).exec := rfl
  obtain ⟨hstart, hrun⟩ := runs_run_of_final (K := fun w => NoCollision P w.hashed) hexec
    (fun w o h => (collisionFree_of_noCollision .none w o h).imp_right fun hfree => ⟨rfl, hfree⟩) _ w h
  exact ⟨hstart, _, hrun⟩

theorem serveAll_noCollision (calls : List (Caller × Request))
    (h : NoCollision P (serveAll P backends w calls).2.hashed) : NoCollision P w.hashed := by
  induction calls generalizing w with
  | nil => exact h
  | cons call calls ih => exact (serve_runs (ih h)).1

/-- A call creates at most the volume its reply names. -/
theorem Flat.Step.latest_none {n : Nat} {a a' : Flat} {request : Request} {reply : Reply}
    (hstep : Flat.Step n a request reply a')
    (hsessions : ∀ r volumeID array, a.sessions r = some (volumeID, array) →
      a.latest volumeID ≠ none) (hnone : a.latest id = none) (hreply : reply ≠ .created id) :
    a'.latest id = none := by
  cases hstep with
  | createVolume hid hnew =>
    have hne : id ≠ _ := fun h => hreply (h ▸ rfl)
    exact (update_of_ne hne _ _).trans hnone
  | @commit _ volumeID _ _ _ hopen =>
    have hne : id ≠ volumeID := fun h => hsessions _ _ _ hopen (h ▸ hnone)
    exact (update_of_ne hne _ _).trans hnone
  | _ => exact hnone

theorem Sound.latest_of_session (h : Sound P w) {volumeID : String} {array : Bytes}
    (hopen : (Flat.of P w).sessions r = some (volumeID, array)) :
    (Flat.of P w).latest volumeID ≠ none := by
  cases hreg : w.registered r with
  | false =>
    rw [Flat.session_of_unregistered hreg] at hopen
    cases hopen
  | true =>
    obtain ⟨s, hs, -, -, -⟩ := h.session hreg
    rw [Flat.session_of_registered hreg hs] at hopen
    cases hopen
    obtain ⟨v, hv, -⟩ := (h.closed.sessions r s hs).1
    show (w.volumes _).map _ ≠ none
    rw [hv]
    simp

/-- The run of the model, and that the engine ends in a sound world. -/
theorem serveAll_run {calls : List (Caller × Request)} (hsound : Sound P w)
    (hsized : ∀ call ∈ calls, call.2.Sized)
    (hnodup : (createdIDs (serveAll P backends w calls).1).Nodup)
    (hnew : ∀ id ∈ createdIDs (serveAll P backends w calls).1, (Flat.of P w).latest id = none)
    (hcollision : NoCollision P (serveAll P backends w calls).2.hashed) :
    Sound P (serveAll P backends w calls).2 ∧
      ∃ a, Flat.Run (Flat.of P w) calls (serveAll P backends w calls).1 a := by
  induction calls generalizing w with
  | nil => exact ⟨hsound, _, .nil _⟩
  | cons call calls ih =>
    obtain ⟨who, request⟩ := call
    have hrest : NoCollision P (serve P backends w who request).2.hashed :=
      serveAll_noCollision calls hcollision
    obtain ⟨tr, hrun⟩ := (serve_runs hrest).2
    have hids : createdIDs (serveAll P backends w ((who, request) :: calls)).1 =
        createdIDs [(serve P backends w who request).1] ++
          createdIDs (serveAll P backends (serve P backends w who request).2 calls).1 := by
      rw [createdIDs, createdIDs, createdIDs, ← List.filterMap_append]
      rfl
    rw [hids] at hnodup hnew
    have hcreated : ∀ volumeID, (serve P backends w who request).1 = .created volumeID →
        volumeID ∈ createdIDs [(serve P backends w who request).1] := by
      intro volumeID hreply
      rw [hreply]
      exact List.mem_singleton.mpr rfl
    obtain ⟨hsound₁, hstep⟩ := hrun.wp (serve_refines _ hsound (hsized _ List.mem_cons_self))
      fun volumeID hreply => hnew _ (List.mem_append_left _ (hcreated volumeID hreply))
    have hdisjoint := (List.nodup_append.mp hnodup).2.2
    obtain ⟨hlast, a, hrun'⟩ := ih hsound₁ (fun call hmem => hsized call (List.mem_cons_of_mem _ hmem))
      (List.nodup_append.mp hnodup).2.1 (fun id hmem => hstep.latest_none
        (fun _ _ _ => hsound.latest_of_session) (hnew id (List.mem_append_right _ hmem))
        fun hreply => hdisjoint id (hcreated id hreply) id hmem rfl) hcollision
    exact ⟨hlast, a, .cons hstep hrun'⟩

end Refinement

/-- **The engine refines the flat arrays.** Any sequence of calls, on any number of nodes with any cache
limits, gets the replies of a run of the abstract model from nothing. The volumes have proper sizes and
each is created once. -/
theorem serveAll_refines (P : Platform) (backends : Nat → Backend) (calls : List (Caller × Request))
    (hsized : ∀ call ∈ calls, call.2.Sized)
    (hfresh : (createdIDs (serveAll P backends World.initial calls).1).Nodup)
    (hcollision : NoCollision P (serveAll P backends World.initial calls).2.hashed) :
    ∃ a, Flat.Run Flat.empty calls (serveAll P backends World.initial calls).1 a :=
  (serveAll_run sound_initial hsized hfresh (fun _ _ => rfl) hcollision).2

/-- A byte to write. -/
def oneByte (x : UInt8) : { b : Bytes // b.length < 2 ^ 63 } := ⟨[x], Nat.one_lt_two_pow (by decide)⟩

/-- One node writes across a chunk boundary and commits; another reads it back. -/
def twoNodes : List (Caller × Request) :=
  [(⟨0, 0⟩, .createVolume "v" 10 4), (⟨0, 0⟩, .startSession "v"),
    (⟨0, 0⟩, .write (goRuntime.uuid 0) 3 ⟨[7, 8], by decide⟩),
    (⟨0, 0⟩, .commit (goRuntime.uuid 0) ⟨0, false⟩), (⟨1, 0⟩, .startSession "v"),
    (⟨1, 0⟩, .read (goRuntime.uuid 2) 2 4)]

theorem serveAll_refines_twoNodes :
    (serveAll goRuntime (fun _ => plainNode) World.initial twoNodes).1.getLast? =
        some (.bytes [0, 7, 8, 0]) ∧
      ∃ a, Flat.Run Flat.empty twoNodes
        (serveAll goRuntime (fun _ => plainNode) World.initial twoNodes).1 a := by
  have hrun : (fun run : List Reply × World => (run.1, run.2.hashed))
      (serveAll goRuntime (fun _ => plainNode) World.initial twoNodes) =
        ([.created "v", .started (goRuntime.uuid 0), .done, .committed (goRuntime.uuid 1),
          .started (goRuntime.uuid 2), .bytes [0, 7, 8, 0]], [[8, 0, 0, 0], [0, 0, 0, 7]]) := by
    decide +kernel
  obtain ⟨hreplies, hhashed⟩ := Prod.mk.inj hrun
  refine ⟨hreplies ▸ rfl, serveAll_refines goRuntime _ _ ?_ ?_ ?_⟩
  · intro call hmem
    simp only [twoNodes, List.mem_cons, List.not_mem_nil, or_false] at hmem
    rcases hmem with rfl | rfl | rfl | rfl | rfl | rfl
    · exact ⟨by decide, by decide, by decide⟩
    all_goals trivial
  · rw [hreplies]
    exact List.nodup_singleton _
  · rw [hhashed]
    unfold NoCollision
    decide +kernel

end OrcaBlocks.Storage
