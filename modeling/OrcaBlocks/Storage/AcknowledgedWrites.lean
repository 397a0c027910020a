/-
# OrcaBlocks.Storage.AcknowledgedWrites — no write that has returned is lost, as long as nobody races.

Every stage of every call, `Write` or commit, is one of the effects of `OrcaBlocks.Storage.ConcurrentCalls`, so an
interleaving without races keeps the invariant (`TeamOk.step`, `teamOk_interleave`). At its end a `Read` of the range of
a write that has returned gives its bytes, or those of a write that was not over when it started. The two races that
lose data are closed runs.
-/
import OrcaBlocks.Storage.ConcurrentCalls

namespace OrcaBlocks.Storage

open OrcaBlocks.Lib Backend

variable {β : Type} {w : World} {tag : Point} {offset : Int64} {opts : CommitOptions}

section Steps

variable {P : Platform} {b : Backend} {node : Nat} {id : String} {k : Nat} {calls : Fin k → SessionCall}
  {c c' : Team k} {s s' : Session} {n m : Fin k} {t t' : Staged sig Point Reply}

/-! ## Every stage -/

/-- A stage ends as it is specified to. -/
theorem uninterrupted_spec {x : Prog sig β} {Q : β → World → Prop}
    (h : (machine P faultFree ⟨node, n⟩).wp x Q w) :
    Q (uninterrupted P node n β x w).1 (uninterrupted P node n β x w).2 := wp_faultFree_run h

/-- A stage that ends without a collision has started without one, and ends as it is specified to if nothing
collides. -/
theorem uninterrupted_noCollision {x : Prog sig β}
    (h : NoCollision P (uninterrupted P node n β x w).2.hashed) :
    NoCollision P w.hashed ∧ ∀ Q : β → World → Prop, (machine P (unfailing P) ⟨node, n⟩).wp x Q w →
      Q (uninterrupted P node n β x w).1 (uninterrupted P node n β x w).2 := by
  have hexec : (machine P (unfailing P) ⟨node, n⟩).exec = (machine P faultFree ⟨node, n⟩).exec := rfl
  obtain ⟨hstart, hrun⟩ := runs_run_of_final (K := fun w => NoCollision P w.hashed) hexec
    (fun w o h => (collisionFree_of_noCollision .none w o h).imp_right fun hfree => ⟨rfl, hfree⟩) x w h
  exact ⟨hstart, fun Q hwp => hrun.wp hwp⟩

/-- Every call is safe to start. -/
theorem SessionCall.staged_safe (call : SessionCall) (who : Caller) (w : World) :
    Safe P who (unfailing P) (call.staged P b id).flatten (fun _ _ => True) w := by
  cases call with
  | write offset data =>
    rw [staged, Staged.flatten_map, flatten_stagedWrite]
    exact WpRG.bind_iff.mpr ((write_safe b id offset data.1 w).mono fun _ _ _ => trivial)
  | commit opts =>
    rw [staged, Staged.flatten_map, flatten_stagedCommit]
    exact WpRG.bind_iff.mpr ((commitWithOptions_safe (fun _ _ _ h => h.2) b id opts w).mono fun _ _ _ => trivial)

/-- What one stage of a safe call leaves. -/
theorem Safe.stage {x : Prog sig β} {next : β → Staged sig Point Reply}
    (h : Safe P ⟨node, n⟩ (unfailing P) (Staged.stage tag x next).flatten (fun _ _ => True) w)
    (hclosed : Closed P w) (hcollision : NoCollision P (uninterrupted P node n β x w).2.hashed) :
    Closed P (uninterrupted P node n β x w).2 ∧ Guar P ⟨node, n⟩ w (uninterrupted P node n β x w).2 ∧
      Safe P ⟨node, n⟩ (unfailing P) (next (uninterrupted P node n β x w).1).flatten (fun _ _ => True)
        (uninterrupted P node n β x w).2 :=
  (uninterrupted_noCollision hcollision).2 _ (WpRG.wp_remember (K := Guar P ⟨node, n⟩) (Respects.refl P _)
    (Respects.refl P _) Respects.trans (fun _ h => h) (WpRG.bind_iff.mp h) hclosed)

/-- Everything that holds of any stage. -/
structure Took (P : Platform) (node : Nat) (c c' : Team k) (n : Fin k) (tag : Point) (t' : Staged sig Point Reply) :
    Prop where
  stepped : Stepped c c' n t'
  closed : Closed P c'.state
  guar : Guar P ⟨node, n⟩ c.state c'.state
  safe : Safe P ⟨node, n⟩ (unfailing P) t'.flatten (fun _ _ => True) c'.state
  careful : ∀ m, m ≠ n → ∀ u ∈ c.point m, ¬ tag.Races u

/-- A stage that clashes with nobody. -/
theorem Point.not_clash_idle {q u : Point} (hq : q = .enter ∨ (∃ i, q = .look i) ∨ (∃ i, q = .load i) ∨ q = .collect) :
    ¬ q.Clash u := by
  intro h
  rcases hq with rfl | ⟨i, rfl⟩ | ⟨i, rfl⟩ | rfl
  all_goals
    cases u with
    | mark i => cases h
    | _ => cases h.1

/-- **A call starts.** -/
theorem TeamOk.enter (h : TeamOk P b node id calls c s) {x : Prog sig β}
    {next : β → Staged sig Point Reply} (hnone : c.tasks n = none)
    (hrest : (calls n).staged P b id = .stage tag x next)
    (hstate : c'.state = (uninterrupted P node n β x c.state).2)
    (htook : Took P node c c' n tag (next (uninterrupted P node n β x c.state).1)) :
    TeamOk P b node id calls c' s := by
  have hpoint : ∀ i, c.point n ≠ some (.mark i) := by
    intro i hi
    rw [Crew.point, hnone] at hi
    cases hi
  have hsession : (uninterrupted P node n _ (Backend.session id).run c.state).1 = .ok s.volume ∧
      (uninterrupted P node n _ (Backend.session id).run c.state).2 = c.state :=
    uninterrupted_spec (Q := fun r w => r = .ok s.volume ∧ w = c.state)
      (session_spec h.registered h.session ⟨rfl, rfl⟩)
  cases hcall : calls n with
  | commit opts =>
    rw [hcall] at hrest
    unfold SessionCall.staged stagedCommit Staged.once at hrest
    cases hrest
    rw [hsession.2] at hstate
    have htook' : Took P node c c' n .enter ((b.collectThen P id opts s.volume).map
        (replyWith fun snap => .committed snap.snapshotID)) := by
      rw [hsession.1] at htook
      exact htook
    refine h.quiet htook'.stepped htook'.closed htook'.guar htook'.safe (hstate ▸ .refl _) hpoint
      (fun q hq m _ u _ => ?_) ?_
    · obtain rfl : Point.collect = q := Option.some.inj hq
      exact Point.not_clash_idle (.inr (.inr (.inr rfl)))
    · rw [hcall]
      exact .collect
  | write offset data =>
    rw [hcall] at hrest
    unfold SessionCall.staged stagedWrite Staged.once at hrest
    cases hrest
    rw [hsession.2] at hstate
    have hframe : UploadFrame c.state c'.state := hstate ▸ .refl _
    rw [hsession.1] at htook
    -- the checks of `Write` refuse, or give the ranges of the data
    by_cases hbad : offset < 0 ∨ offset + Int64.ofNat data.1.length > s.volume.sizeBytes
    · have htook' : Took P node c c' n .enter (.done .failed) := by
        simp only [Staged.andThen, if_pos hbad] at htook
        exact htook
      exact h.quiet htook'.stepped htook'.closed htook'.guar htook'.safe hframe hpoint (fun _ hq => by cases hq)
        (hcall ▸ .failed)
    · cases hrs : chunkIndexes offset (Int64.ofNat data.1.length) s.volume.chunkSize with
      | error e =>
        have htook' : Took P node c c' n .enter (.done .failed) := by
          simp only [Staged.andThen, if_neg hbad, hrs] at htook
          exact htook
        exact h.quiet htook'.stepped htook'.closed htook'.guar htook'.safe hframe hpoint (fun _ hq => by cases hq)
          (hcall ▸ .failed)
      | ok rs =>
        have htook' : Took P node c c' n .enter ((b.stagedWriteRanges P id s.volume data.1 rs 0).map
            (replyWith fun _ => .done)) := by
          simp only [Staged.andThen, if_neg hbad, hrs] at htook
          exact htook
        obtain ⟨-, ⟨ho, hl, hle⟩, htiles⟩ := tiles_of_ok (h.closed.fits h.session).bound
          (fun hgt => hbad (.inr hgt)) hrs
        have hlength := natOf_ofNat data.2
        rw [hlength] at htiles
        rw [toInt_ofNat data.2] at hle
        have hahead : Ahead s.volume offset data.1 (natOf offset) rs 0 :=
          ⟨htiles, Nat.le_refl _, by simp, ho, by rw [Nat.cast_add, natOf_cast ho]; exact hle⟩
        refine h.quiet htook'.stepped htook'.closed htook'.guar htook'.safe hframe hpoint
          (fun q hq m _ u _ => ?_) ?_
        · cases rs with
          | nil => cases hq
          | cons r rs =>
            obtain rfl : Point.look r.index = q := Option.some.inj hq
            exact Point.not_clash_idle (.inr (.inl ⟨_, rfl⟩))
        · rw [hcall]
          exact .look hahead fun p hfrom hto => absurd hto (by omega)

/-- What has been applied stays applied while the session is left alone. -/
theorem Applied.quiet {data : Bytes} {lo : Nat} (h : Applied node id calls c s n offset data lo)
    (hstep : Stepped c c' n t') (hstarted : (c.tasks n).isSome)
    (hchunk : sessionChunk c'.state (node, id) s = sessionChunk c.state (node, id) s) :
    Applied node id calls c' s n offset data lo := by
  intro p hfrom hto
  rw [hchunk]
  exact (h p hfrom hto).mono hstep (.inr hstarted)

theorem ReadFrame.uploadFrame {who : Caller} {w' : World} (h : ReadFrame who w w') :
    UploadFrame w w' := by
  refine ⟨?_, ?_, ?_, ?_, ?_⟩
  all_goals rw [h]

/-- **What a `Write` loads is the chunk as it is**, if it is marked where it was found marked; if its file is gone
instead, the load fails. -/
theorem TeamOk.loadChunk (h : TeamOk P b node id calls c s) (who : Caller) (hwho : who.node = node) {i : Int64}
    {dirty : Bool} (hdirty : dirty = true → (s.dirty.lookup i).isSome ∨ overlayFile c.state (node, id) i = none) :
    (machine P faultFree who).wp (b.loadChunk P id s.volume i dirty).run
      (fun r w' => UploadFrame c.state w' ∧ ∀ bytes, r = .ok bytes →
        bytes = sessionChunk c.state (node, id) s i) c.state := by
  subst hwho
  unfold loadChunk
  have hreads : ∀ r w', Reads P who faultFree (ChunkIntact c.state (who.node, id) s i)
      (window (chunkByte c.state (who.node, id) s i) 0 (natOf s.volume.chunkSize)) c.state r w' →
      UploadFrame c.state w' ∧ ∀ bytes, r = .ok bytes → bytes = sessionChunk c.state (who.node, id) s i :=
    fun r w' hr => ⟨hr.1.uploadFrame, fun bytes hok => (hr.2.2.2 bytes hok).1⟩
  cases dirty with
  | false =>
    rw [if_neg (by decide)]
    exact wp_mono (resolveChunk_spec b h.closed h.session) hreads
  | true =>
    rw [if_pos rfl]
    rcases hdirty rfl with hmarked | hgone
    · exact wp_mono (readDirtyChunk_spec h.closed hmarked) hreads
    · unfold readDirtyChunk
      rw [wp_run_bind]
      refine wp_readFile (fun file hfile => ?_) (fun _ => ⟨.refl _, nofun⟩) fun _ => ⟨.refl _, nofun⟩
      rw [hgone] at hfile
      cases hfile

/-- A stage of a `Write`. -/
theorem TeamOk.stepWrite (h : TeamOk P b node id calls c s) {data : { b : Bytes // b.length < 2 ^ 63 }}
    (hcall : calls n = .write offset data) {x : Prog sig β} {next : β → Staged sig Point Reply}
    (htask : c.tasks n = some (.stage tag x next))
    (hstate : c'.state = (uninterrupted P node n β x c.state).2)
    (htook : Took P node c c' n tag (next (uninterrupted P node n β x c.state).1)) :
    ∃ s', TeamOk P b node id calls c' s' := by
  have hpoint : c.point n = some tag := by
    rw [Crew.point, htask]
    rfl
  have hstage := h.stages n _ htask
  rw [hcall] at hstage
  have hstarted := started_of_point hpoint
  generalize hrest : Staged.stage tag x next = rest at hstage
  cases hstage with
  | @look lo rs pos hahead happlied =>
    cases rs with
    | nil => cases hrest
    | cons r rs =>
      unfold stagedWriteRanges Staged.once at hrest
      cases hrest
      have hlooked : (uninterrupted P node n _ (access (.isDirty id r.index)).run c.state).1 =
            .ok (s.dirty.lookup r.index).isSome ∧
          (uninterrupted P node n _ (access (.isDirty id r.index)).run c.state).2 = c.state := by
        refine uninterrupted_spec (Q := fun (res : Except Err Bool) w =>
          res = .ok (s.dirty.lookup r.index).isSome ∧ w = c.state) (quiet_access (o := .isDirty id r.index) ⟨?_, rfl⟩)
        simp only [exec, h.session, Option.bind_some]
      rw [hlooked.2] at hstate
      obtain ⟨mid, hturn, -⟩ := hahead.turn
      have htook' : Took P node c c' n (.look r.index) ((b.loadThen P id s.volume r (.ok (r.part data.1 pos))
          (s.dirty.lookup r.index).isSome (b.stagedWriteRanges P id s.volume data.1 rs
            (pos + (r.reqEnd - r.reqStart)))).map (replyWith fun _ => .done)) := by
        rw [hlooked.1] at htook
        rw [← hturn.taken]
        exact htook
      refine ⟨s, h.quiet htook'.stepped htook'.closed htook'.guar htook'.safe (hstate ▸ .refl _) ?_
        (fun q hq m _ u _ => ?_) ?_⟩
      · intro i hi
        rw [hpoint] at hi
        cases hi
      · obtain rfl : Point.load r.index = q := Option.some.inj hq
        exact Point.not_clash_idle (.inr (.inr (.inl ⟨_, rfl⟩)))
      · rw [hcall]
        exact .load _ hahead (Applied.quiet happlied htook'.stepped hstarted (by rw [hstate]))
          fun hdirty => .inl hdirty
  | @load lo r rs pos dirty hahead happlied hdirty =>
    unfold loadThen Staged.once at hrest
    cases hrest
    have hmark : ∀ i, c.point n ≠ some (.mark i) := by
      intro i hi
      rw [hpoint] at hi
      cases hi
    -- nobody is about to mark the chunk, so it is marked if it was found marked, or its file is gone
    have hfound : dirty = true →
        (s.dirty.lookup r.index).isSome ∨ overlayFile c.state (node, id) r.index = none := by
      intro hd
      rcases hdirty hd with hmarked | hgone | ⟨m, hm⟩
      · exact .inl hmarked
      · exact .inr hgone
      · have hne : m ≠ n := by
          rintro rfl
          exact hmark _ hm
        exact absurd rfl (htook.careful m hne _ hm)
    obtain ⟨hframe, hbytes⟩ := uninterrupted_spec (h.loadChunk ⟨node, n⟩ rfl hfound)
    rw [← hstate] at hframe
    have hchunk := sessionChunk_grow h.closed htook.guar.grows.store h.session (congrFun hframe.overlays _)
    cases hres : (uninterrupted P node n _ (b.loadChunk P id s.volume r.index dirty).run c.state).1 with
    | error e =>
      have htook' : Took P node c c' n (.load r.index) (.done .failed) := by
        rw [hres] at htook
        exact htook
      exact ⟨s, h.quiet htook'.stepped htook'.closed htook'.guar htook'.safe hframe hmark
        (fun _ hq => by cases hq) (hcall ▸ .failed)⟩
    | ok bytes =>
      obtain rfl := hbytes bytes hres
      have htook' : Took P node c c' n (.load r.index) ((storeThen id r.index
          (overwrite (sessionChunk c.state (node, id) s r.index) (natOf r.chunkStart) (r.part data.1 pos))
          (b.stagedWriteRanges P id s.volume data.1 rs (pos + (r.reqEnd - r.reqStart)))).map
            (replyWith fun _ => .done)) := by
        rw [hres] at htook
        exact htook
      refine ⟨s, h.quiet htook'.stepped htook'.closed htook'.guar htook'.safe hframe hmark
        (fun q hq m hm u hu hclashes => ?_) ?_⟩
      · obtain rfl : Point.store r.index = q := Option.some.inj hq
        have hrace := htook.careful m hm u hu
        cases u with
        | mark i => exact hrace hclashes
        | _ => cases hclashes.1
      · rw [hcall]
        exact .store hahead (Applied.quiet happlied htook'.stepped hstarted hchunk) (by rw [hchunk])
  | @store lo r rs pos hahead happlied copy hcopy =>
    unfold storeThen Staged.once at hrest
    cases hrest
    obtain ⟨d, hd⟩ := Option.isSome_iff_exists.mp h.intact.dir
    have hwritten : (uninterrupted P node n _ (outside (perform (.writeFile id r.index copy))).run c.state).1 =
          .ok () ∧
        (uninterrupted P node n _ (outside (perform (.writeFile id r.index copy))).run c.state).2 =
          writeOverlay c.state (node, id) d r.index copy := by
      have hquiet : Quiet faultFree := fun _ _ _ h => h
      refine uninterrupted_spec (Q := fun res w => res = .ok () ∧ w = writeOverlay c.state (node, id) d r.index copy)
        (wp_writeFile (fun d' hd' => ?_) (fun hnone => ?_) (fun hq => absurd hquiet hq) fun hq => absurd hquiet hq)
      · obtain rfl : d = d' := Option.some.inj (hd.symm.trans hd')
        exact ⟨rfl, rfl⟩
      · have hdir : c.state.overlays (node, id) = none := hnone
        rw [hd] at hdir
        cases hdir
    rw [hwritten.2] at hstate
    rw [hwritten.1] at htook
    exact ⟨s, h.store hcall hahead happlied hpoint htook.careful hd hcopy hstate htook.stepped htook.closed
      htook.guar htook.safe⟩
  | @mark lo r rs pos hahead happlied f hfile hdata =>
    unfold markThen Staged.once at hrest
    cases hrest
    exact ⟨s.mark r.index, h.mark hcall hahead happlied hpoint hfile hdata hstate htook.stepped htook.closed
      htook.guar htook.safe⟩
  | failed => cases hrest

/-- A commit among calls that leave its session alone. -/
theorem commitContext_team (P : Platform) (who : Caller) :
    CommitContext P who (unfailing P) (CommitRely P who) True False where
  free := fun _ _ _ h => h.2
  rely := fun _ _ h => h.1
  frame := fun _ _ _ h => h.2
  noFault := False.elim
  still := False.elim
  quietAlone := False.elim

/-- A commit collects the dirty indexes. -/
theorem TeamOk.collect (h : TeamOk P b node id calls c s) (hcall : calls n = .commit opts)
    (hpoint : c.point n = some .collect) (hstate : c'.state = c.state)
    (htook : Took P node c c' n .collect (((b.stagedPrepare P id opts s.volume s.baseManifest
      ((P.rangeOrder s.dirty.keys).insertionSort (· ≤ ·))).andThen fun (m, stats, snap) =>
        stagedMoveTo opts id ((P.rangeOrder s.dirty.keys).insertionSort (· ≤ ·)).length m stats snap).map
          (replyWith fun snap => .committed snap.snapshotID))) : TeamOk P b node id calls c' s := by
  refine h.quiet htook.stepped htook.closed htook.guar htook.safe (hstate ▸ .refl _) ?_
    (fun q hq m hm u hu hclashes => ?_) ?_
  · intro i hi
    rw [hpoint] at hi
    cases hi
  · -- nobody is about to mark a chunk, nor is in a commit
    obtain rfl : Point.prepare = q := Option.some.inj hq
    have hrace := htook.careful m hm u hu
    cases u with
    | mark i => exact hrace trivial
    | _ => exact hrace hclashes.2
  · rw [hcall]
    have hguarded := prepareSnapshot_upload (commitContext_team P ⟨node, n⟩) b opts h.closed h.session
      ((List.perm_insertionSort (· ≤ ·) _).trans (P.rangeOrder_perm _)) (h.closed.sessions _ s h.session).2.1
    rw [← flatten_stagedPrepare] at hguarded
    show CommitStage P b ⟨node, n⟩ id opts c'.state s _
    rw [hstate]
    exact .prepare _ h.closed h.session (.refl _) rfl (only_stagedPrepare id opts _ _ _)
      (hguarded.mono fun _ _ hres => hres.1)

/-- The session moves to the snapshot, whose bytes are its own. -/
theorem TeamOk.move (h : TeamOk P b node id calls c s) (hcall : calls n = .commit opts)
    (hpoint : c.point n = some .move) {total : Nat} {m : Manifest} {stats : CommitBatchStats}
    {snap : Snapshot} {w₀ : World} (hclosed₀ : Closed P w₀) (hs₀ : w₀.sessions (node, id) = some s)
    (hgrows : Grows w₀ c.state) (hoverlay : c.state.overlays (node, id) = w₀.overlays (node, id))
    (hcommitted : Committed P True ⟨node, n⟩ id s s.baseManifest m snap w₀ c.state)
    (hobjects : c'.state.objects = c.state.objects) (hoverlays : c'.state.overlays = c.state.overlays)
    (hregistered : c'.state.registered = c.state.registered)
    (hsession : c'.state.sessions (node, id) = some (s.rebase snap m))
    (htook : Took P node c c' n .move ((clearThen opts id total m stats snap).map
      (replyWith fun snap => .committed snap.snapshotID))) :
    TeamOk P b node id calls c' (s.rebase snap m) := by
  have hfiles : overlayFile c'.state (node, id) = overlayFile c.state (node, id) := by
    funext i
    rw [overlayFile, overlayFile, hoverlays]
  -- the manifest of the snapshot gives every chunk the bytes the session sees in it
  have hsnapshot : ∀ i q, q < natOf s.volume.chunkSize →
      manifestChunkByte c'.state m i q = chunkByte c.state (node, id) s i q := by
    intro i q hq
    have hgiven := hcommitted.manifestChunkByte_eq trivial hclosed₀ h.closed hgrows hs₀ i hq
    have hthen : chunkByte c.state (node, id) s i q = chunkByte w₀ (node, id) s i q := by
      rw [chunkByte, chunkByte, overlayFile, overlayFile, hoverlay,
        manifestChunkByte_grow hgrows.store (hclosed₀.sessions _ s hs₀).2.1]
    rw [hthen, ← hgiven, manifestChunkByte, manifestChunkByte]
    simp only [objectByte, hobjects]
  have hdirty : ∀ i, (s.dirty.lookup i).isSome →
      chunkByte c'.state (node, id) (s.rebase snap m) i = chunkByte c.state (node, id) s i := by
    intro i hi
    have hi' : ((s.rebase snap m).dirty.lookup i).isSome := hi
    funext q
    rw [chunkByte, chunkByte, if_pos hi, if_pos hi', hfiles]
  have hchunk : sessionChunk c'.state (node, id) (s.rebase snap m) = sessionChunk c.state (node, id) s := by
    funext i
    refine window_congr fun q _ hq => ?_
    rw [Nat.zero_add] at hq
    by_cases hi : (s.dirty.lookup i).isSome
    · rw [hdirty i hi]
    · have hi' : ¬ ((s.rebase snap m).dirty.lookup i).isSome := hi
      rw [← hsnapshot i q hq, chunkByte, if_neg hi']
      rfl
  refine h.recast htook.stepped hpoint rfl htook.closed htook.guar hregistered hsession rfl ?_ htook.safe hchunk
    (fun i hi => ?_) (fun q hq => ?_) ?_
  · exact ⟨by rw [hoverlays]; exact h.intact.dir, fun i hi => by rw [hfiles]; exact h.intact.chunk i hi⟩
  · rcases hi with hi | hi | ⟨m', hm'⟩
    · exact .inl hi
    · exact .inr (.inl (by rwa [hfiles]))
    · have hne : m' ≠ n := by
        rintro rfl
        rw [hpoint] at hm'
        cases hm'
      exact .inr (.inr ⟨m', by rwa [htook.stepped.point_of_ne hne]⟩)
  · obtain rfl : Point.clear = q := Option.some.inj hq
    rfl
  · rw [hcall]
    refine .clear total stats snap fun i hi q hq => ?_
    rw [hdirty i hi]
    exact hsnapshot i q hq

/-- The overlay is dropped, and nothing with it. -/
theorem TeamOk.clear (h : TeamOk P b node id calls c s) (hcall : calls n = .commit opts)
    (hpoint : c.point n = some .clear)
    (hsame : ∀ i, (s.dirty.lookup i).isSome → ∀ q < natOf s.volume.chunkSize,
      manifestChunkByte c.state s.baseManifest i q = chunkByte c.state (node, id) s i q)
    (hobjects : c'.state.objects = c.state.objects)
    (hoverlay : c'.state.overlays (node, id) = some fun _ => none)
    (hregistered : c'.state.registered = c.state.registered)
    (hsession : c'.state.sessions (node, id) = some s.clean) {reply : Reply}
    (htook : Took P node c c' n .clear (.done reply)) : TeamOk P b node id calls c' s.clean := by
  have hfiles : ∀ i, overlayFile c'.state (node, id) i = none := by
    intro i
    rw [overlayFile, hoverlay]
    rfl
  have hclean : ∀ i, ¬ ((s.clean.dirty.lookup i).isSome) := by
    intro i
    simp [Session.clean]
  have hchunk : sessionChunk c'.state (node, id) s.clean = sessionChunk c.state (node, id) s := by
    funext i
    refine window_congr fun q _ hq => ?_
    rw [Nat.zero_add] at hq
    have hbase : chunkByte c'.state (node, id) s.clean i q = manifestChunkByte c.state s.baseManifest i q := by
      rw [chunkByte, if_neg (hclean i), manifestChunkByte, manifestChunkByte]
      simp only [objectByte, hobjects]
      rfl
    rw [hbase]
    by_cases hi : (s.dirty.lookup i).isSome
    · exact hsame i hi q hq
    · rw [chunkByte, if_neg hi]
  refine h.recast htook.stepped hpoint rfl htook.closed htook.guar hregistered hsession rfl ?_ htook.safe hchunk
    (fun i _ => .inr (.inl (hfiles i))) (fun q hq => by cases hq) ?_
  · exact ⟨by rw [hoverlay]; rfl, fun i hi => absurd hi (hclean i)⟩
  · rw [hcall]
    exact .past reply

/-- Whatever is left of a commit that prepares its snapshot is critical. -/
theorem inCommit_of_preparing {prep : StagedCall (Manifest × CommitBatchStats × Snapshot)}
    (hprep : prep.Only (· = .prepare)) {total : Nat} {q : Point}
    (hq : q ∈ ((prep.andThen fun (m, stats, snap) => stagedMoveTo opts id total m stats snap).map
      (replyWith fun snap => .committed snap.snapshotID)).tag) : q.inCommit = true := by
  cases prep with
  | done r =>
    cases r with
    | error e => cases hq
    | ok result =>
      obtain rfl : Point.move = q := Option.some.inj hq
      rfl
  | stage tag x next =>
    obtain rfl := hprep.1
    obtain rfl : Point.prepare = q := Option.some.inj hq
    rfl

/-- A stage of a commit. -/
theorem TeamOk.stepCommit (h : TeamOk P b node id calls c s) (hcall : calls n = .commit opts)
    {x : Prog sig β} {next : β → Staged sig Point Reply} (htask : c.tasks n = some (.stage tag x next))
    (hstate : c'.state = (uninterrupted P node n β x c.state).2)
    (hcollision : NoCollision P (uninterrupted P node n β x c.state).2.hashed)
    (htook : Took P node c c' n tag (next (uninterrupted P node n β x c.state).1)) :
    ∃ s', TeamOk P b node id calls c' s' := by
  have hpoint : c.point n = some tag := by
    rw [Crew.point, htask]
    rfl
  have hstage := h.stages n _ htask
  rw [hcall] at hstage
  generalize hrest : Staged.stage tag x next = rest at hstage
  cases hstage with
  | collect =>
    unfold collectThen Staged.once at hrest
    cases hrest
    have hcollected : uninterrupted P node n _ (do
        let manifest : Manifest ← access (.baseManifest id)
        let keys : List Int64 ← access (.dirtyIndexes id)
        pure (manifest, keys) : M (Manifest × List Int64)).run c.state =
          (.ok (s.baseManifest, P.rangeOrder s.dirty.keys), c.state) := by
      show (Except.ok (((c.state.sessions (node, id)).map Session.baseManifest).getD ∅,
        P.rangeOrder (((c.state.sessions (node, id)).map fun s => s.dirty.keys).getD [])), c.state) = _
      rw [h.session]
      rfl
    rw [hcollected] at hstate htook
    exact ⟨s, h.collect hcall hpoint hstate htook⟩
  | @prepare w₀ total prep hclosed₀ hs₀ hgrows hoverlay hprep hguarded =>
    cases prep with
    | done r =>
      cases r with
      | error e => cases hrest
      | ok result =>
        obtain ⟨m, stats, snap⟩ := result
        have hcommitted := hguarded m stats snap rfl
        unfold Staged.andThen stagedMoveTo Staged.once at hrest
        cases hrest
        obtain ⟨v, hv, -⟩ := (h.closed.sessions _ s h.session).1
        rw [← hcommitted.recorded.volumeID] at hv
        obtain ⟨hok, hobjects, hoverlays, hregistered, hsession⟩ := uninterrupted_spec
          (movePointer_quiet ⟨node, n⟩ opts total m stats snap h.session hv)
        rw [hok] at htook
        rw [← hstate] at hobjects hoverlays hregistered hsession
        exact ⟨s.rebase snap m, h.move hcall hpoint hclosed₀ hs₀ hgrows hoverlay hcommitted hobjects hoverlays
          hregistered hsession htook⟩
    | stage tag' x' next' =>
      obtain ⟨rfl, hnext⟩ := hprep
      cases hrest
      obtain ⟨-, hframe, hguarded'⟩ := (uninterrupted_noCollision hcollision).2 _
        (WpRG.wp_remember (K := UploadFrame) (fun w => ⟨.refl P _ w, .refl w⟩) UploadFrame.refl UploadFrame.trans
          (fun _ hstep => hstep.2) (WpRG.bind_iff.mp hguarded) h.closed)
      rw [← hstate] at hframe hguarded'
      refine ⟨s, h.quiet htook.stepped htook.closed htook.guar htook.safe hframe ?_
        (fun q hq m hm u hu hclashes => ?_) ?_⟩
      · intro i hi
        rw [hpoint] at hi
        cases hi
      · exact h.apart n m hm.symm _ hpoint u hu
          (Point.clash_of_inCommit (inCommit_of_preparing (hnext _) hq) rfl hclashes)
      · rw [hcall]
        exact .prepare total hclosed₀ hs₀ (hgrows.trans htook.guar.grows)
          ((congrFun hframe.overlays _).trans hoverlay) (hnext _) hguarded'
  | @clear total m stats snap hsame =>
    unfold clearThen Staged.once at hrest
    cases hrest
    obtain ⟨hok, hobjects, hoverlay, hregistered, hsession⟩ := uninterrupted_spec
      (dropOverlay_quiet (P := P) ⟨node, n⟩ opts total m stats snap h.session)
    rw [hok] at htook
    rw [← hstate] at hobjects hoverlay hregistered hsession
    exact ⟨s.clean, h.clear hcall hpoint hsame hobjects hoverlay hregistered hsession htook⟩
  | past reply => cases hrest

/-- **Every careful stage keeps the invariant.** -/
theorem TeamOk.step (h : TeamOk P b node id calls c s)
    (hcareful : c.Careful (fun n => (calls n).staged P b id) Point.Races n)
    (hstep : c.step (uninterrupted P node) (fun n => (calls n).staged P b id) n = some c')
    (hcollision : NoCollision P c'.state.hashed) : ∃ s', TeamOk P b node id calls c' s' := by
  obtain ⟨tag, β, x, next, hrest, hstate, htasks, hover⟩ := Crew.step_cases hstep
  rw [hstate] at hcollision
  have hsafe : Safe P ⟨node, n⟩ (unfailing P) (Staged.stage tag x next).flatten (fun _ _ => True) c.state := by
    rw [← hrest, Crew.rest]
    cases htask : c.tasks n with
    | none => exact (calls n).staged_safe _ _
    | some t => exact h.safe n t htask
  obtain ⟨hclosed, hguar, hnext⟩ := hsafe.stage h.closed hcollision
  have hrunning : c.reply n = none := by
    unfold Crew.reply
    cases htask : c.tasks n with
    | none => rfl
    | some t =>
      rw [Crew.rest, htask, Option.getD_some] at hrest
      rw [hrest]
  have htook : Took P node c c' n tag (next (uninterrupted P node n β x c.state).1) := by
    rw [← hstate] at hclosed hguar hnext
    refine ⟨⟨htasks, hover, hrunning⟩, hclosed, hguar, hnext, fun m hm u hu => ?_⟩
    exact hcareful tag (by rw [hrest]; rfl) m hm u hu
  cases htask : c.tasks n with
  | none =>
    rw [Crew.rest, htask, Option.getD_none] at hrest
    exact ⟨s, h.enter htask hrest hstate htook⟩
  | some t =>
    rw [Crew.rest, htask, Option.getD_some] at hrest
    rw [hrest] at htask
    cases hcall : calls n with
    | write offset data => exact h.stepWrite hcall htask hstate htook
    | commit opts => exact h.stepCommit hcall htask hstate hcollision htook

end Steps

/-! ## Every interleaving -/

section Runs

variable {P : Platform} {b : Backend} {node : Nat} {id : String} {k : Nat} {calls : Fin k → SessionCall}
  {c : Team k} {s : Session} {n : Fin k}

theorem teamOk_idle (hsound : Sound P w) (hopen : w.registered (node, id) = true) :
    ∃ s, TeamOk P b node id calls (.idle w) s := by
  obtain ⟨s, hs, hintact, hpositive, -⟩ := hsound.session hopen
  exact ⟨s, hsound.closed, hopen, hs, hpositive, hintact, nofun, nofun, nofun, nofun⟩

/-- The invariant at the end of an interleaving without races. -/
theorem teamOk_interleave (hsound : Sound P w) (hopen : w.registered (node, id) = true) {schedule : List (Fin k)}
    (hfree : RaceFree P b node id calls schedule w) (hplay : interleave P b node id calls schedule w = some c)
    (hcollision : NoCollision P c.state.hashed) : ∃ s, TeamOk P b node id calls c s := by
  refine Crew.play_invariant (I := fun c => ∃ s, TeamOk P b node id calls c s)
    (K := fun w => NoCollision P w.hashed) (fun n β x w h => (uninterrupted_noCollision h).1) ?_
    (teamOk_idle hsound hopen) hfree hplay hcollision
  rintro c n c' ⟨s, h⟩ hcareful hstep hcollision
  exact h.step hcareful hstep hcollision

theorem interleave_noCollision {schedule : List (Fin k)} (hplay : interleave P b node id calls schedule w = some c)
    (hcollision : NoCollision P c.state.hashed) : NoCollision P w.hashed :=
  Crew.play_back (K := fun w => NoCollision P w.hashed) (fun _ _ _ _ h => (uninterrupted_noCollision h).1) hplay
    hcollision

/-- A write that has returned was inside the volume, and is applied. -/
theorem TeamOk.written (h : TeamOk P b node id calls c s) {data : { b : Bytes // b.length < 2 ^ 63 }}
    (hcall : calls n = .write offset data) (hdone : c.reply n = some .done) :
    InRange s.volume offset (Int64.ofNat data.1.length) ∧
      Applied node id calls c s n offset data.1 (natOf offset + data.1.length) := by
  have htask : c.tasks n = some (.done .done) := by
    unfold Crew.reply at hdone
    split at hdone
    · rename_i reply heq
      rw [heq, Option.some.inj hdone]
    · cases hdone
  have hstage := h.stages n _ htask
  rw [hcall] at hstage
  generalize hrest : Staged.done Reply.done = rest at hstage
  cases hstage with
  | @look lo rs pos hahead happlied =>
    cases rs with
    | nil =>
      have hnonneg := hahead.nonneg
      have hroom := hahead.room
      have hcast := natOf_cast hnonneg
      have hlength := toInt_ofNat data.2
      obtain rfl := hahead.tiles.eq_of_nil
      refine ⟨⟨hnonneg, by omega, by omega⟩, happlied⟩
    | cons r rs => cases hrest
  | load dirty hahead happlied hdirty => cases hrest
  | store hahead happlied hcopy => cases hrest
  | mark hahead happlied hfile hdata => cases hrest
  | failed => cases hrest

/-- What a `Read` of the range of a write that has returned gives. -/
theorem TeamOk.readBack (h : TeamOk P b node id calls c s) {data : { b : Bytes // b.length < 2 ^ 63 }}
    (hcall : calls n = .write offset data) (hdone : c.reply n = some .done) (thread : Nat) :
    ∃ bytes, readOf P b ⟨node, thread⟩ id c.state offset (Int64.ofNat data.1.length) = .ok bytes ∧
      bytes.length = data.1.length ∧ ∀ p, Covers offset data.1.length p →
        Current calls c n offset data.1 p (bytes.getD (p - natOf offset) 0) := by
  obtain ⟨hrange, happlied⟩ := h.written hcall hdone
  refine ⟨_, (readOf_eq_ok_iff h.closed h.registered h.session).mpr
    ⟨⟨h.positive, hrange⟩, h.intact.present _ _, rfl⟩, ?_, fun p hp => ?_⟩
  · rw [length_window, natOf_ofNat data.2]
  · obtain ⟨hfrom, hto⟩ := hp
    have hbyte := happlied p hfrom hto
    rw [byteAt_sessionChunk h.positive] at hbyte
    rw [natOf_ofNat data.2, getD_window 0 _ (by omega), Nat.add_sub_cancel' hfrom]
    exact hbyte

/-- If nobody else writes there, a `Read` gives exactly what was written. -/
theorem TeamOk.readExact (h : TeamOk P b node id calls c s) {data : { b : Bytes // b.length < 2 ^ 63 }}
    (hcall : calls n = .write offset data) (hdone : c.reply n = some .done)
    (hothers : ∀ m offset' data', m ≠ n → calls m = .write offset' data' → ∀ p, Covers offset data.1.length p →
      ¬ Covers offset' data'.1.length p) (thread : Nat) :
    readOf P b ⟨node, thread⟩ id c.state offset (Int64.ofNat data.1.length) = .ok data.1 := by
  obtain ⟨bytes, hread, hlength, hcurrent⟩ := h.readBack hcall hdone thread
  rw [hread]
  refine congrArg Except.ok (List.ext_getElem hlength fun i hi hi' => ?_)
  have hcovers : Covers offset data.1.length (natOf offset + i) := ⟨by omega, by omega⟩
  have hbyte := hcurrent _ hcovers
  rw [Nat.add_sub_cancel_left, List.getD_eq_getElem _ _ hi] at hbyte
  rcases hbyte with hbyte | ⟨m, offset', data', hne, hcall', -, -, hcovers', -⟩
  · rwa [Nat.add_sub_cancel_left, List.getD_eq_getElem _ _ hi'] at hbyte
  · exact absurd hcovers' (hothers m offset' data' hne hcall' _ hcovers)

end Runs

/-! ## No acknowledged write is lost -/

/-- **Every write that has returned is still there.** After any history of the engine, interleave any writes and commits
of an open session without a race. Whatever has returned by then, and whatever is still under way, a `Read` of the
range of a write that has returned gives at each position the byte of that write, or of one that was not over when it
started. -/
theorem acknowledged_writes_survive (P : Platform) (backends : Nat → Backend) (history : List (Caller × Request))
    (hsized : ∀ call ∈ history, call.2.Sized)
    (hfresh : (createdIDs (serveAll P backends World.initial history).1).Nodup) (node : Nat) (id : String)
    (hopen : (serveAll P backends World.initial history).2.registered (node, id) = true) {k : Nat}
    (calls : Fin k → SessionCall) (schedule : List (Fin k))
    (hfree : RaceFree P (backends node) node id calls schedule (serveAll P backends World.initial history).2)
    (c : Team k)
    (hplay : interleave P (backends node) node id calls schedule (serveAll P backends World.initial history).2 =
      some c)
    (hcollision : NoCollision P c.state.hashed) (n : Fin k) (offset : Int64)
    (data : { b : Bytes // b.length < 2 ^ 63 }) (hcall : calls n = .write offset data)
    (hdone : c.reply n = some .done) (thread : Nat) :
    ∃ bytes, readOf P (backends node) ⟨node, thread⟩ id c.state offset (Int64.ofNat data.1.length) = .ok bytes ∧
      bytes.length = data.1.length ∧ ∀ p, Covers offset data.1.length p →
        Current calls c n offset data.1 p (bytes.getD (p - natOf offset) 0) := by
  have hsound : Sound P (serveAll P backends World.initial history).2 :=
    (serveAll_run sound_initial hsized hfresh (fun _ _ => rfl) (interleave_noCollision hplay hcollision)).1
  obtain ⟨s, h⟩ := teamOk_interleave hsound hopen hfree hplay hcollision
  exact h.readBack hcall hdone thread

/-- **Two writes to disjoint ranges both survive** if they are interleaved without a race, also in one chunk. -/
theorem disjoint_writes_survive (P : Platform) (backends : Nat → Backend) (history : List (Caller × Request))
    (hsized : ∀ call ∈ history, call.2.Sized)
    (hfresh : (createdIDs (serveAll P backends World.initial history).1).Nodup) (node : Nat) (id : String)
    (hopen : (serveAll P backends World.initial history).2.registered (node, id) = true)
    (offset₀ offset₁ : Int64) (data₀ data₁ : { b : Bytes // b.length < 2 ^ 63 })
    (hdisjoint : ∀ p, Covers offset₀ data₀.1.length p → ¬ Covers offset₁ data₁.1.length p)
    (schedule : List (Fin 2))
    (hfree : RaceFree P (backends node) node id ![.write offset₀ data₀, .write offset₁ data₁] schedule
      (serveAll P backends World.initial history).2)
    (c : Team 2)
    (hplay : interleave P (backends node) node id ![.write offset₀ data₀, .write offset₁ data₁] schedule
      (serveAll P backends World.initial history).2 = some c)
    (hcollision : NoCollision P c.state.hashed) (hdone₀ : c.reply 0 = some .done) (hdone₁ : c.reply 1 = some .done)
    (thread : Nat) :
    readOf P (backends node) ⟨node, thread⟩ id c.state offset₀ (Int64.ofNat data₀.1.length) = .ok data₀.1 ∧
      readOf P (backends node) ⟨node, thread⟩ id c.state offset₁ (Int64.ofNat data₁.1.length) = .ok data₁.1 := by
  have hsound : Sound P (serveAll P backends World.initial history).2 :=
    (serveAll_run sound_initial hsized hfresh (fun _ _ => rfl) (interleave_noCollision hplay hcollision)).1
  obtain ⟨s, h⟩ := teamOk_interleave hsound hopen hfree hplay hcollision
  refine ⟨h.readExact (n := 0) rfl hdone₀ (fun m offset' data' hm hcall p hp => ?_) thread,
    h.readExact (n := 1) rfl hdone₁ (fun m offset' data' hm hcall p hp => ?_) thread⟩
  · obtain rfl := Fin.eq_one_of_ne_zero m hm
    cases hcall
    exact hdisjoint p hp
  · obtain rfl : m = 0 := by
      by_contra hzero
      exact hm (Fin.eq_one_of_ne_zero m hzero)
    cases hcall
    exact fun hp' => hdisjoint p hp' hp

/-- A volume of two chunks of four bytes, opened. -/
def opened : List (Caller × Request) :=
  [(⟨0, 0⟩, .createVolume "v" 8 4), (⟨0, 0⟩, .startSession "v")]

theorem sized_opened : ∀ call ∈ opened, call.2.Sized := by
  intro call hmem
  simp only [opened, List.mem_cons, List.not_mem_nil, or_false] at hmem
  rcases hmem with rfl | rfl
  · exact ⟨by decide, by decide, by decide⟩
  · trivial

/-- Writes of one byte each, to the same chunk. -/
def twoWrites : Fin 2 → SessionCall := ![.write 0 (oneByte 1), .write 1 (oneByte 2)]

/-- **A lost update.** Both calls load the chunk before either has stored it. Both succeed, and the first byte is
gone. -/
theorem overlapping_turns_lose_update :
    (interleave goRuntime plainNode 0 (goRuntime.uuid 0) twoWrites [0, 0, 0, 1, 1, 1, 0, 0, 1, 1]
      (serveAll goRuntime (fun _ => plainNode) World.initial opened).2).map
        (fun c => (c.reply 0, c.reply 1, readOf goRuntime plainNode ⟨0, 0⟩ (goRuntime.uuid 0) c.state 0 1)) =
      some (some .done, some .done, .ok [0]) := by
  decide +kernel

/-- One call waits for the other to have marked the chunk. -/
theorem disjoint_writes_survive_inTurn : ∃ c : Team 2,
    interleave goRuntime plainNode 0 (goRuntime.uuid 0) twoWrites [0, 0, 1, 0, 0, 0, 1, 1, 1, 1]
      (serveAll goRuntime (fun _ => plainNode) World.initial opened).2 = some c ∧
    readOf goRuntime plainNode ⟨0, 0⟩ (goRuntime.uuid 0) c.state 0 1 = .ok [1] ∧
    readOf goRuntime plainNode ⟨0, 0⟩ (goRuntime.uuid 0) c.state 1 1 = .ok [2] := by
  have hends : (interleave goRuntime plainNode 0 (goRuntime.uuid 0) twoWrites [0, 0, 1, 0, 0, 0, 1, 1, 1, 1]
      (serveAll goRuntime (fun _ => plainNode) World.initial opened).2).map
        (fun c => (c.reply 0, c.reply 1, c.state.hashed)) = some (some .done, some .done, []) := by
    decide +kernel
  obtain ⟨c, hc, hfacts⟩ := Option.map_eq_some_iff.mp hends
  obtain ⟨hdone₀, hdone₁, hhashed⟩ : c.reply 0 = some .done ∧ c.reply 1 = some .done ∧ c.state.hashed = [] := by
    simpa using hfacts
  refine ⟨c, hc, disjoint_writes_survive goRuntime (fun _ => plainNode) opened sized_opened (by decide +kernel) 0
    (goRuntime.uuid 0) (by decide +kernel) 0 1 (oneByte 1) (oneByte 2) ?_ [0, 0, 1, 0, 0, 0, 1, 1, 1, 1]
    (by decide +kernel) c hc ?_ hdone₀ hdone₁ 0⟩
  · rintro p ⟨-, hlt⟩ ⟨hle, -⟩
    have hzero : natOf 0 = 0 := rfl
    have hone : natOf 1 = 1 := rfl
    simp only [oneByte, List.length_singleton, hzero, hone] at hlt hle
    omega
  · rw [hhashed]
    exact fun _ h => nomatch h

/-- A write and a commit. -/
def writeThenCommit : Fin 2 → SessionCall := ![.write 0 (oneByte 1), .commit ⟨0, false⟩]

/-- **A write lost to a commit.** It is stored and marked after the dirty indexes were collected and before the overlay
is dropped. Both calls succeed; the byte is not in the session, nor in the snapshot, which is the latest of the
volume. -/
theorem commit_drops_acknowledged_write :
    let ended := interleave goRuntime plainNode 0 (goRuntime.uuid 0) writeThenCommit [1, 1, 0, 0, 0, 0, 0, 1, 1, 1, 1, 1]
      (serveAll goRuntime (fun _ => plainNode) World.initial opened).2
    ended.map (fun c =>
        (c.reply 0, c.reply 1, readOf goRuntime plainNode ⟨0, 0⟩ (goRuntime.uuid 0) c.state 0 1)) =
      some (some .done, some (.committed (goRuntime.uuid 1)), .ok [0]) ∧
    (ended.bind fun c => c.state.volumes "v").map Volume.latestSnapshotID = some (goRuntime.uuid 1) ∧
    (ended.bind fun c => (Flat.of goRuntime c.state).latest "v") = some [0, 0, 0, 0, 0, 0, 0, 0] := by
  decide +kernel

/-- The write is done before the commit collects the dirty indexes. -/
def collectedAfter : List (Fin 2) := [1, 0, 0, 0, 0, 0, 1, 1, 1, 1, 1, 1, 1, 1, 1]

/-- Both have returned, and the byte is there. -/
theorem acknowledged_writes_survive_collected : ∃ c : Team 2,
    interleave goRuntime plainNode 0 (goRuntime.uuid 0) writeThenCommit collectedAfter
      (serveAll goRuntime (fun _ => plainNode) World.initial opened).2 = some c ∧
    c.reply 1 = some (.committed (goRuntime.uuid 1)) ∧
    ∃ bytes, readOf goRuntime plainNode ⟨0, 0⟩ (goRuntime.uuid 0) c.state 0 1 = .ok bytes ∧ bytes.length = 1 ∧
      ∀ p, Covers 0 1 p → Current writeThenCommit c 0 0 [1] p (bytes.getD (p - 0) 0) := by
  have hends : (interleave goRuntime plainNode 0 (goRuntime.uuid 0) writeThenCommit collectedAfter
      (serveAll goRuntime (fun _ => plainNode) World.initial opened).2).map
        (fun c => (c.reply 0, c.reply 1, c.state.hashed)) =
          some (some .done, some (.committed (goRuntime.uuid 1)), [[1, 0, 0, 0]]) := by
    decide +kernel
  obtain ⟨c, hc, hfacts⟩ := Option.map_eq_some_iff.mp hends
  obtain ⟨hdone, hcommitted, hhashed⟩ : c.reply 0 = some .done ∧ c.reply 1 = some (.committed (goRuntime.uuid 1)) ∧
      c.state.hashed = [[1, 0, 0, 0]] := by
    simpa using hfacts
  refine ⟨c, hc, hcommitted, acknowledged_writes_survive goRuntime (fun _ => plainNode) opened sized_opened
    (by decide +kernel) 0 (goRuntime.uuid 0) (by decide +kernel) writeThenCommit collectedAfter (by decide +kernel)
    c hc ?_ 0 0 (oneByte 1) rfl hdone 0⟩
  rw [hhashed]
  unfold NoCollision
  decide +kernel

end OrcaBlocks.Storage
