/-
# OrcaBlocks.Services.NbdDevices — the requests of a node keep its books right.

The handlers of `OrcaBlocks.Services.Node` are run as threads of a pool, interleaved operation by operation,
with every outside command free to fail. Each handler gets ONE specification: whatever the others do, its
steps are fair to them (`Keeps`), the books stay right (`Books`), and when it returns its slot is idle, that
is, the request holds no device.

Most operations of a handler do not concern the ledger at all. `Harmless` collects them, and a program of
harmless operations keeps whatever its request relies on, so that a specification is an argument about the
few operations that are left: allocate, release, mount, unmount, claim, and the entries made and deleted.

What a request leaves also depends on luck. If `sync` or `blockdev --flushbufs` fails in the stop of a tty
session, its device stays in use while its entry goes. If `nbd-client -d` fails for a mounted session, the
entry stays, but nobody can unmount it again. The specifications carry this as `fortunate`.
-/
import OrcaBlocks.Services.Footprint
import OrcaBlocks.Services.Ledger

namespace OrcaBlocks.Services

open OrcaBlocks.Lib Node Function

variable {o : NodeOp} {Q : Except NodeErr Unit → Ledger → Prop} {P : Ledger → Prop} {id : String}
  {h : Holder} {d : Text} {session : NodeSession} {m : MountedSession} {req : StartRequest}

/-! ## Operations that do not concern the ledger -/

/-- The operations that change no device and no mount point of a session. -/
def Harmless (a : App) : NodeOp → Prop
  | .outside (.mount _ path) => ∀ id, IsUUID id → a.mountPath id ≠ path
  | .outside (.umount path) => ∀ id, IsUUID id → a.mountPath id ≠ path
  | .outside _ => True
  | .getMount _ => True
  | .getTTY _ => True
  | .registerNBDExport _ _ => True
  | .unregisterNBDExport _ => True
  | .backendCommit _ _ => True
  | .backendStop _ => True
  | .backendFlushDirty _ => True
  | .output => True
  | .stopProcess => True
  | _ => False

section Threads

variable {a : App} {own : Text → Prop} {fortunate : Prop} {slot : Nat} {t t' : Ledger} {α β : Type}

/-- Unmounting a place that is no session's changes the mount points only. -/
theorem unmount_elsewhere (hb : Books a own t) {path : Text} (hpath : ∀ id, IsUUID id → a.mountPath id ≠ path) :
    t.unmount a slot path = { t with mounted := t.mounted.erase path } := by
  have hdetaching : (t.unmount a slot path).detaching = t.detaching := by
    funext id
    refine if_neg ?_
    rintro ⟨hsome, heq⟩
    obtain ⟨m, hm⟩ := Option.isSome_iff_exists.mp hsome
    exact hpath id (hb.uuid (hb.mount hm).1.1) heq
  rw [← hdetaching]
  rfl

/-- A harmless operation is fair even to its own request. -/
theorem Harmless.step (ho : Harmless a o) (slot : Nat) (hb : Books a own t) (l : Answers) :
    Books a own (t.exec a slot l o).2 ∧ ∀ k, Keeps a k t (t.exec a slot l o).2 := by
  have hnothing : Books a own t ∧ ∀ k, Keeps a k t t := ⟨hb, fun k => Keeps.refl a k t⟩
  -- Changes elsewhere are fair to every slot, seen as steps of the next one.
  have helsewhere : ∀ mounted : Finset Text,
      (∀ id, IsUUID id → (a.mountPath id ∈ mounted ↔ a.mountPath id ∈ t.mounted)) →
      Books a own { t with mounted } ∧ ∀ k, Keeps a k t { t with mounted } := by
    intro mounted h
    have hfair : ∀ j, Fair a own j t { t with mounted } := fun _ => hb.elsewhere mounted h
    exact ⟨(hfair slot).books, fun k => (hfair (k + 1)).others k (Nat.ne_of_lt (Nat.lt_succ_self k))⟩
  cases o with
  | outside call =>
    cases call with
    | mount device path =>
      simp only [Ledger.exec]
      split
      · exact hnothing
      · refine helsewhere _ fun id hid => ?_
        rw [Finset.mem_insert, or_iff_right (ho id hid)]
    | umount path =>
      simp only [Ledger.exec]
      split
      · exact hnothing
      · rw [unmount_elsewhere hb ho]
        refine helsewhere _ fun id hid => ?_
        rw [Finset.mem_erase, and_iff_right (ho id hid)]
    | _ => exact hnothing
  | allocateNBDDevicePrefer preferred => exact ho.elim
  | releaseNBDDevice device => exact ho.elim
  | putMount id mounted => exact ho.elim
  | deleteMount id => exact ho.elim
  | putTTY id tty => exact ho.elim
  | claimStop id => exact ho.elim
  | deleteTTY id => exact ho.elim
  | backendStart volumeID => exact ho.elim
  | _ => exact hnothing

variable (a own fortunate slot) in
/-- What a handler guarantees as the thread of a slot. -/
abbrev Within (x : NodeM α) (Q : Except NodeErr α → Ledger → Prop) (t : Ledger) : Prop :=
  WpRG (ledgerMachine a fortunate slot) (Books a own) (Keeps a slot)
    (fun t t' => ∀ k, k ≠ slot → Keeps a k t t') x.run Q t

/-- The rule for one operation. -/
theorem within_ask {Q : Except NodeErr o.Res → Ledger → Prop}
    (h : ∀ t₁, Keeps a slot t t₁ → Books a own t₁ → ∀ l, Plausible l t₁ o →
      (fortunate → Fortunate slot l t₁ o) →
      Fair a own slot t₁ (t₁.exec a slot l o).2 ∧ Q (.ok (t₁.exec a slot l o).1) (t₁.exec a slot l o).2) :
    Within a own fortunate slot (ask o) Q t := by
  refine run_lift_iff.mpr (WpRG.perform fun t₁ hk hb l hl => ?_)
  obtain ⟨hfair, hQ⟩ := h t₁ hk hb l hl.1 hl.2
  exact ⟨hfair.books, hfair.others, hQ⟩

theorem within_act (h : ∀ t₁, Keeps a slot t t₁ → Books a own t₁ → ∀ l, Plausible l t₁ o →
      Fair a own slot t₁ (t₁.exec a slot l o).2 ∧ Q (.ok ()) (t₁.exec a slot l o).2) :
    Within a own fortunate slot (act o) Q t := by
  refine run_bind_iff.mpr (within_ask fun t₁ hk hb l hl _ => ?_)
  exact h t₁ hk hb l hl

/-- A program of harmless operations keeps what its request relies on. -/
theorem within_harmless {x : NodeM α} {Q : Except NodeErr α → Prop}
    (hx : x.run.Always (Harmless a) Q) :
    Within a own fortunate slot x (fun r t' => Q r ∧ Keeps a slot t t') t := by
  refine WpRG.of_always hx (fun hk h => h.trans hk) ?_ (Keeps.refl a slot t)
  intro o l t₁ ho hb hk _
  obtain ⟨hb', hkeep⟩ := ho.step slot hb l
  exact ⟨hb', fun k _ => hkeep k, hk.trans (hkeep slot)⟩

/-- What the others cannot make false. -/
def Stable (a : App) (slot : Nat) (P : Ledger → Prop) : Prop :=
  ∀ {t t'}, P t → Keeps a slot t t' → P t'

/-- Harmless operations before the rest of a program. -/
theorem Stable.within_then (hP : Stable a slot P) (ht : P t) {x : NodeM α} {f : α → NodeM β}
    {Q : Except NodeErr β → Ledger → Prop} (hx : x.run.Always (Harmless a) fun _ => True)
    (hok : ∀ v t', P t' → Within a own fortunate slot (f v) Q t')
    (herr : ∀ e t', P t' → Q (.error e) t') : Within a own fortunate slot (x >>= f) Q t :=
  run_seq (within_harmless hx) (fun v t' h => hok v t' (hP ht h.2)) fun e t' h =>
    herr e t' (hP ht h.2)

/-- The same for harmless operations that do not fail. -/
theorem Stable.within_sure (hP : Stable a slot P) (ht : P t) {x : NodeM α} {f : α → NodeM β}
    {Q : Except NodeErr β → Ledger → Prop} (hx : x.run.Always (Harmless a) fun r => ∃ v, r = .ok v)
    (hok : ∀ v t', P t' → Within a own fortunate slot (f v) Q t') :
    Within a own fortunate slot (x >>= f) Q t := by
  refine run_seq (within_harmless hx) (fun v t' h => hok v t' (hP ht h.2)) ?_
  rintro e t' ⟨⟨v, heq⟩, -⟩
  cases heq

/-- Harmless operations at the end of a program. -/
theorem Stable.within (hP : Stable a slot P) (ht : P t) {x : NodeM α}
    (hx : x.run.Always (Harmless a) fun _ => True) : Within a own fortunate slot x (fun _ => P) t :=
  (within_harmless hx).mono fun _ _ h => hP ht h.2

/-! ## What a request knows of its devices -/

/-- Nothing is left of a session that was detached. -/
def Ledger.Over (t : Ledger) (id : String) : Prop :=
  t.mounts id = none ∧ t.ttySessions id = none ∧ ∀ d, (Holder.tty id, d) ∉ t.holdings

/-- The request of a slot holds the given devices, and has finished with the sessions it detached. -/
structure Working (fortunate : Prop) (slot : Nat) (held : Text → Prop) (t : Ledger) : Prop where
  holdings : ∀ d, (Holder.request slot, d) ∈ t.holdings ↔ held d
  past : fortunate → ∀ id, t.detaching id = some slot → t.Over id

/-- Nothing is in progress in the slot. -/
abbrev Idle (fortunate : Prop) (slot : Nat) : Ledger → Prop := Working fortunate slot fun _ => False

theorem Ledger.Over.keeps (h : t.Over id) (hk : Keeps a slot t t') (hid : t.detaching id = some slot) :
    t'.Over id := by
  obtain ⟨hmounts, htty, hhold⟩ := hk.mine hid
  exact ⟨hmounts.trans h.1, htty.trans h.2.1, fun d hmem => h.2.2 d ((hhold d).2.mp hmem)⟩

theorem Working.keeps {held : Text → Prop} (h : Working fortunate slot held t) (hk : Keeps a slot t t') :
    Working fortunate slot held t' where
  holdings := fun d => (hk.holdings d).trans (h.holdings d)
  past := fun hf id hid =>
    have hid' := (hk.detaching id).mp hid
    (h.past hf id hid').keeps hk hid'

/-- The session is being started by the request of the slot, and not mounted yet. -/
def Opening (a : App) (slot : Nat) (id : String) (t : Ledger) : Prop :=
  t.starting id = some slot ∧ a.mountPath id ∉ t.mounted

theorem Opening.keeps (h : Opening a slot id t) (hk : Keeps a slot t t') : Opening a slot id t' := by
  obtain ⟨hstart, hmounted⟩ := hk.starting h.1
  exact ⟨hstart, fun hin => h.2 (hmounted.mp hin)⟩

/-- The request may still release a device it could release before. -/
theorem Keeps.frees (hk : Keeps a slot t t') (hfree : t.Frees slot h) (hold : (h, d) ∈ t.holdings) :
    t'.Frees slot h ∧ (h, d) ∈ t'.holdings := by
  cases h with
  | request k =>
    obtain rfl : k = slot := hfree
    exact ⟨rfl, (hk.holdings d).mpr hold⟩
  | mount id =>
    have hid : t.detaching id = some slot := hfree
    exact ⟨(hk.detaching id).mpr hid, (((hk.mine hid).2.2 d).1).mpr hold⟩
  | tty id =>
    have hid : t.detaching id = some slot := hfree
    exact ⟨(hk.detaching id).mpr hid, (((hk.mine hid).2.2 d).2).mpr hold⟩

/-- A release by the request, with whatever the others did before and after. -/
def Released (a : App) (own : Text → Prop) (slot : Nat) (d : Text) (t t' : Ledger) : Prop :=
  ∃ t₁, Keeps a slot t t₁ ∧ Books a own t₁ ∧ Keeps a slot (t₁.release slot d) t'

theorem Released.keeps {t'' : Ledger} (h : Released a own slot d t t') (hk : Keeps a slot t' t'') :
    Released a own slot d t t'' := by
  obtain ⟨t₁, hk₁, hb, hk₂⟩ := h
  exact ⟨t₁, hk₁, hb, hk₂.trans hk⟩

/-- The only device a request holds is released. -/
theorem Working.released (h : Working fortunate slot (· = d) t) (hr : Released a own slot d t t') :
    Idle fortunate slot t' := by
  obtain ⟨t₁, hk, -, hk'⟩ := hr
  have h₁ := h.keeps hk
  refine Working.keeps (t := t₁.release slot d) ⟨fun d' => ?_, fun hf id hid => ?_⟩ hk'
  · rw [mem_release, h₁.holdings d']
    exact iff_of_false (fun h => h.2 ⟨h.1, rfl⟩) id
  · obtain ⟨hmounts, htty, hhold⟩ := h₁.past hf id hid
    exact ⟨hmounts, htty, fun d' hmem => hhold d' (mem_release.mp hmem).1⟩

theorem within_release (hold : (h, d) ∈ t.holdings) (hfree : t.Frees slot h) :
    Within a own fortunate slot (act (.releaseNBDDevice d))
      (fun r t' => r = .ok () ∧ Released a own slot d t t') t := by
  refine within_act fun t₁ hk hb l _ => ?_
  obtain ⟨hfree₁, hold₁⟩ := hk.frees hfree hold
  exact ⟨hb.release hold₁ hfree₁, rfl, t₁, hk, hb, Keeps.refl a slot _⟩

/-- An allocation, by a request that holds nothing and starts a session. -/
theorem within_allocate {preferred : Text} (hidle : Idle fortunate slot t) (hopen : Opening a slot id t)
    (hown : ∀ d ∈ a.devices, own d) (hpref : preferred ≠ [] → own preferred) :
    Within a own fortunate slot (allocate preferred)
      (fun r t' => Opening a slot id t' ∧ (∀ e, r = .error e → Idle fortunate slot t') ∧
        ∀ d, r = .ok d → Working fortunate slot (· = d) t') t := by
  refine run_bind_iff.mpr (within_ask fun t₁ hk hb l _ _ => ?_)
  have hidle₁ := hidle.keeps hk
  have hopen₁ := hopen.keeps hk
  simp only [Ledger.exec]
  rcases allocateNBDDevicePrefer_cases a l.stat t₁.used preferred with
    ⟨err, heq⟩ | ⟨d, heq, hfree, hsame, hrange⟩
  · rw [heq]
    refine ⟨⟨hb, fun k _ => Keeps.refl a k t₁⟩, hopen₁, fun _ _ => hidle₁, fun d hd => ?_⟩
    cases hd
  · rw [heq]
    have hown' : own d := by
      by_cases hnil : preferred = []
      · exact hown d (hrange hnil)
      · exact hsame hnil ▸ hpref hnil
    refine ⟨hb.allocate hfree hown', hopen₁, fun e he => ?_, fun d' hd => ?_⟩
    · cases he
    · cases hd
      refine ⟨fun d' => ?_, fun hf id hid => ?_⟩
      · rw [List.mem_cons, hidle₁.holdings d']
        simp
      · obtain ⟨hmounts, htty, hhold⟩ := hidle₁.past hf id hid
        exact ⟨hmounts, htty, fun d' hmem => hhold d' (by simpa using hmem)⟩

theorem stable_idle : Stable a slot (Idle fortunate slot) := Working.keeps

/-- A request that holds a device and starts a session. -/
def Attaching (a : App) (fortunate : Prop) (slot : Nat) (id : String) (d : Text) (t : Ledger) : Prop :=
  Working fortunate slot (· = d) t ∧ Opening a slot id t

theorem stable_attaching : Stable a slot (Attaching a fortunate slot id d) :=
  fun h hk => ⟨h.1.keeps hk, h.2.keeps hk⟩

/-- Once the session is entered, the request holds nothing. -/
theorem Working.entered (t' : Ledger) (hwork : Working fortunate slot (· = d) t) (hb : Books a own t)
    (hstart : t.starting id = some slot) (hdetaching : t'.detaching = t.detaching)
    (hmounts : ∀ id', id' ≠ id → t'.mounts id' = t.mounts id')
    (htty : ∀ id', id' ≠ id → t'.ttySessions id' = t.ttySessions id')
    (hholdings : t'.holdings = hand (.request slot) h d t.holdings) (hh : h = .mount id ∨ h = .tty id) :
    Idle fortunate slot t' := by
  refine ⟨fun d' => ?_, fun hf id' hid => ?_⟩
  · rw [hholdings, mem_hand, hwork.holdings d', iff_false]
    rintro (⟨heq, -⟩ | ⟨heq, hne⟩)
    · rcases hh with rfl | rfl <;> cases heq
    · exact hne ⟨rfl, heq⟩
  · rw [hdetaching] at hid
    have hne : id' ≠ id := by
      rintro rfl
      cases (hb.of_starting hstart).2.2.symm.trans hid
    obtain ⟨h₁, h₂, h₃⟩ := hwork.past hf id' hid
    refine ⟨(hmounts id' hne).trans h₁, (htty id' hne).trans h₂, fun d' hmem => ?_⟩
    rw [hholdings, mem_hand] at hmem
    rcases hmem with ⟨heq, -⟩ | ⟨hmem, -⟩
    · rcases hh with rfl | rfl
      · cases heq
      · exact hne (Holder.tty.inj heq)
    · exact h₃ d' hmem

/-! ## Mounted sessions -/

/-- The request keeps its device while it attaches it; if nothing failed, the session is mounted. -/
theorem within_attachMounted {format : Bool} (ht : Attaching a fortunate slot session.id d t) :
    Within a own fortunate slot (attachMounted a session format d)
      (fun r t' => Working fortunate slot (· = d) t' ∧ t'.starting session.id = some slot ∧
        (r = .ok () → a.mountPath session.id ∈ t'.mounted)) t := by
  let Q (r : Except NodeErr Unit) (t' : Ledger) : Prop :=
    Working fortunate slot (· = d) t' ∧ t'.starting session.id = some slot ∧
      (r = .ok () → a.mountPath session.id ∈ t'.mounted)
  have hfail : ∀ (e : NodeErr) (t' : Ledger), Attaching a fortunate slot session.id d t' → Q (.error e) t' :=
    fun e t' h => ⟨h.1, h.2.1, by simp⟩
  have hmount : ∀ {t'}, Attaching a fortunate slot session.id d t' → Within a own fortunate slot
      (outside (.mount d (a.mountPath session.id))) Q t' := by
    intro t' h
    refine run_bind_iff.mpr (within_ask fun t₁ hk hb l _ _ => ?_)
    obtain ⟨hwork, hstart, hnot⟩ := stable_attaching h hk
    simp only [Ledger.exec]
    split
    · exact ⟨⟨hb, fun k _ => Keeps.refl a k t₁⟩, hfail _ _ ⟨hwork, hstart, hnot⟩⟩
    · exact ⟨hb.mountOwn hstart, ⟨hwork.holdings, hwork.past⟩, hstart, fun _ => Finset.mem_insert_self ..⟩
  have hrest : ∀ {t'}, Attaching a fortunate slot session.id d t' → Within a own fortunate slot (do
      outside (.mkdirAll (a.mountPath session.id))
      outside (.mount d (a.mountPath session.id))) Q t' := by
    intro t' h
    exact stable_attaching.within_then h (by simp [Harmless]) (fun _ _ h => hmount h) hfail
  refine stable_attaching.within_then ht (by simp [Harmless]) (fun _ t ht => ?_) hfail
  refine wpRG_guarded (P := Q) ?_ (fun _ _ h => h) fun err t₂ h => ?_
  · refine stable_attaching.within_then ht (by simp [Harmless]) (fun _ t ht => ?_) hfail
    dsimp only
    split
    · exact stable_attaching.within_then ht (by simp [Harmless]) (fun _ _ h => hrest h) hfail
    · exact hrest ht
  · refine (within_harmless (Q := fun _ => True) (by simp [Harmless])).mono fun _ t₃ h₃ => ?_
    exact ⟨h.1.keeps h₃.2, (h₃.2.starting h.2.1).1, by simp⟩

/-- The start of a mounted session. -/
theorem within_startMountedSession {format : Bool} {fsType : Text} (hidle : Idle fortunate slot t)
    (hopen : Opening a slot session.id t) (hown : ∀ d ∈ a.devices, own d) :
    Within a own fortunate slot (startMountedSession a session format fsType)
      (fun _ => Idle fortunate slot) t := by
  have hstable : Stable a slot fun t => Idle fortunate slot t ∧ Opening a slot session.id t :=
    fun h hk => ⟨h.1.keeps hk, h.2.keeps hk⟩
  refine hstable.within_then ⟨hidle, hopen⟩ (by simp) (fun _ t ht => ?_) fun e t ht => ht.1
  refine hstable.within_then ht (by simp [Harmless]) (fun _ t ht => ?_) fun e t ht => ht.1
  refine hstable.within_then ht (by simp) (fun _ t ht => ?_) fun e t ht => ht.1
  refine hstable.within_then ht (by simp [Harmless]) (fun _ t ht => ?_) fun e t ht => ht.1
  refine run_seq (within_allocate ht.1 ht.2 hown (by simp)) ?_ fun e t h => h.2.1 e rfl
  rintro d t ⟨hopen, -, hwork⟩
  refine run_seq (P := fun r t' => (∀ e, r = .error e → Idle fortunate slot t') ∧
    (r = .ok () → Working fortunate slot (· = d) t' ∧ t'.starting session.id = some slot ∧
      a.mountPath session.id ∈ t'.mounted))
    (wpRG_guarded (within_attachMounted ⟨hwork d rfl, hopen⟩) ?_ ?_) ?_ fun e t' h => h.1 e rfl
  · exact fun _ t h => ⟨by simp, fun _ => ⟨h.1, h.2.1, h.2.2 rfl⟩⟩
  · -- the deferred cleanup releases the device
    rintro err t ⟨hwork, -, -⟩
    have hstable : Stable a slot (Working fortunate slot (· = d)) := Working.keeps
    refine hstable.within_sure hwork (by simp [Harmless]) fun _ t hwork => ?_
    refine hstable.within_sure hwork (by simp [Harmless]) fun _ t hwork => ?_
    refine run_seq (within_release ((hwork.holdings d).mpr rfl) rfl) (fun _ t h => ?_) (by simp)
    refine (stable_idle.within (hwork.released h.2) (by simp [Harmless])).mono fun _ t hidle => ?_
    exact ⟨fun _ _ => hidle, by simp⟩
  · intro _ t h
    obtain ⟨hwork, hstart, hpath⟩ := h.2 rfl
    refine run_bind_iff.mpr (within_act fun t₁ hk hb l _ => ?_)
    have hwork₁ := hwork.keeps hk
    obtain ⟨hstart₁, hmounted⟩ := hk.starting hstart
    refine ⟨hb.enterMount hstart₁ ((hwork₁.holdings d).mpr rfl) (hmounted.mpr hpath), ?_⟩
    exact hwork₁.entered _ hb hstart₁ rfl (fun _ h => update_of_ne h _ _) (fun _ _ => rfl) rfl
      (Or.inl rfl)

/-- The request of a slot is detaching a session; the sessions it detached before are over. -/
structure Ending (fortunate : Prop) (slot : Nat) (id : String) (t : Ledger) : Prop where
  mine : t.detaching id = some slot
  holdings : ∀ d, (Holder.request slot, d) ∉ t.holdings
  past : fortunate → ∀ id', id' ≠ id → t.detaching id' = some slot → t.Over id'

theorem Ending.keeps (h : Ending fortunate slot id t) (hk : Keeps a slot t t') :
    Ending fortunate slot id t' where
  mine := (hk.detaching id).mpr h.mine
  holdings := fun d hmem => h.holdings d ((hk.holdings d).mp hmem)
  past := fun hf id' hne hid =>
    have hid' := (hk.detaching id').mp hid
    (h.past hf id' hne hid').keeps hk hid'

/-- The end of a detach. -/
theorem Ending.idle (h : Ending fortunate slot id t) (hover : fortunate → t.Over id) :
    Idle fortunate slot t where
  holdings := fun d => iff_of_false (h.holdings d) not_false
  past := fun hf id' hid => by
    by_cases hne : id' = id
    · rw [hne]
      exact hover hf
    · exact h.past hf id' hne hid

/-- A release touches none of this. -/
theorem Ending.release (h : Ending fortunate slot id t) :
    Ending fortunate slot id (t.release slot d) where
  mine := h.mine
  holdings := fun d' hmem => h.holdings d' (mem_release.mp hmem).1
  past := fun hf id' hne hid =>
    have h' := h.past hf id' hne hid
    ⟨h'.1, h'.2.1, fun d' hmem => h'.2.2 d' (mem_release.mp hmem).1⟩

/-- A command that cannot fail if the request is fortunate. -/
theorem within_lucky {call : Outside} (hP : Stable a slot P) (ht : P t)
    (hexec : ∀ t l, Ledger.exec a slot l t (.outside call) = (l.answer (.outside call), t))
    (hluck : ∀ {t l}, P t → Fortunate slot l t (.outside call) → l.answer (.outside call) = .ok ())
    (hok : ∀ t', P t' → Q (.ok ()) t') (herr : ∀ e t', P t' → ¬ fortunate → Q (.error e) t') :
    Within a own fortunate slot (outside call) Q t := by
  refine run_bind_iff.mpr (within_ask fun t₁ hk hb l _ hf => ?_)
  have ht₁ := hP ht hk
  rw [hexec]
  refine ⟨⟨hb, fun k _ => Keeps.refl a k t₁⟩, ?_⟩
  cases hanswer : l.answer (.outside call) with
  | ok u => exact hok t₁ ht₁
  | error e =>
    refine herr e t₁ ht₁ fun hfort => ?_
    cases hanswer.symm.trans (hluck ht₁ (hf hfort))

/-- A mounted session whose mount point is gone, in the hands of the request that unmounted it. -/
def Unmounted (fortunate : Prop) (slot : Nat) (id : String) (m : MountedSession) (t : Ledger) : Prop :=
  Ending fortunate slot id t ∧ t.mounts id = some m ∧ ∀ d, (Holder.tty id, d) ∉ t.holdings

theorem stable_unmounted : Stable a slot (Unmounted fortunate slot id m) := by
  rintro t t' ⟨hend, hm, hnone⟩ hk
  obtain ⟨hmounts, -, hhold⟩ := hk.mine hend.mine
  exact ⟨hend.keeps hk, hmounts.trans hm, fun d hmem => hnone d ((hhold d).2.mp hmem)⟩

/-- After its release the entry holds nothing. -/
theorem Unmounted.released (h : Unmounted fortunate slot id m t)
    (hr : Released a own slot m.nbdDevice t t') :
    Unmounted fortunate slot id m t' ∧ ∀ d, (Holder.mount id, d) ∉ t'.holdings := by
  obtain ⟨t₁, hk, hb, hk'⟩ := hr
  obtain ⟨hend, hm, hnone⟩ := stable_unmounted h hk
  have hun : Unmounted fortunate slot id m (t₁.release slot m.nbdDevice) :=
    ⟨hend.release, hm, fun d hmem => hnone d (mem_release.mp hmem).1⟩
  refine ⟨stable_unmounted hun hk', fun d hmem => ?_⟩
  obtain ⟨hmem, hnot⟩ := mem_release.mp (((hk'.mine hend.mine).2.2 d).1.mp hmem)
  obtain ⟨m', hm', rfl⟩ := hb.ofMount hmem
  exact hnot ⟨by rw [Option.some.inj (hm'.symm.trans hm)], hend.mine⟩

/-- `umount` of a session that was entered. -/
theorem within_umount (ht : Idle fortunate slot t ∧ t.Entered id ∧ ∀ m', t.mounts id = some m' → m' = m)
    (hok : ∀ t', Unmounted fortunate slot id m t' → (.mount id, m.nbdDevice) ∈ t'.holdings → Q (.ok ()) t')
    (herr : ∀ e t', Idle fortunate slot t' → Q (.error e) t') :
    Within a own fortunate slot (outside (.umount (a.mountPath id))) Q t := by
  refine run_bind_iff.mpr (within_ask fun t₁ hk hb l hl _ => ?_)
  have hidle := ht.1.keeps hk
  obtain ⟨he, hsame, -⟩ := hk.entered ht.2.1
  simp only [Ledger.exec]
  split
  · exact ⟨⟨hb, fun k _ => Keeps.refl a k t₁⟩, herr _ _ hidle⟩
  · rename_i hanswer
    have hin : a.mountPath id ∈ t₁.mounted := by
      rw [Plausible, hanswer] at hl
      exact hl
    obtain ⟨hsome, hnone⟩ := (hb.mounted hin (hb.uuid he.1)).2 he.2
    obtain ⟨m', hm'⟩ := Option.isSome_iff_exists.mp hsome
    obtain rfl := ht.2.2 m' (hsame m' hm')
    refine ⟨hb.unmount he hin, hok _ ⟨⟨?_, fun d => (hidle.holdings d).mp, ?_⟩, hm', ?_⟩
      ((hb.mount hm').2.2 hnone).1⟩
    · rw [hb.unmount_detaching he hin, if_pos rfl]
    · intro hf id' hne hid
      rw [hb.unmount_detaching he hin, if_neg hne] at hid
      exact hidle.past hf id' hid
    · -- nobody was detaching it, so a tty's device would have an entry
      intro d hmem
      rcases hb.ofTTY hmem with ⟨tty, htty, -⟩ | h
      · cases (hb.one hm').symm.trans htty
      · exact h hnone

/-- The end of a mounted session. -/
theorem within_detachMountedSession (hidle : Idle fortunate slot t) :
    Within a own fortunate slot (detachMountedSession id) (fun _ => Idle fortunate slot) t := by
  refine run_bind_iff.mpr (within_ask fun t₁ hk hb l _ _ => ?_)
  refine ⟨⟨hb, fun k _ => Keeps.refl a k t₁⟩, ?_⟩
  have hidle₁ := hidle.keeps hk
  simp only [Ledger.exec, orElse_ok]
  cases hm : t₁.mounts id with
  | none => exact hidle₁
  | some m =>
    obtain ⟨he, hpath, -⟩ := hb.mount hm
    have hknown : Stable a slot fun t =>
        Idle fortunate slot t ∧ t.Entered id ∧ ∀ m', t.mounts id = some m' → m' = m := by
      rintro t t' ⟨h₁, h₂, h₃⟩ hk
      obtain ⟨he, hmounts, -⟩ := hk.entered h₂
      exact ⟨h₁.keeps hk, he, fun m' hm' => h₃ m' (hmounts m' hm')⟩
    have ht : Idle fortunate slot t₁ ∧ t₁.Entered id ∧ ∀ m', t₁.mounts id = some m' → m' = m :=
      ⟨hidle₁, he, fun m' hm' => Option.some.inj (hm'.symm.trans hm)⟩
    refine hknown.within_then ht (by simp [Harmless]) (fun _ t ht => ?_) fun _ t ht => ht.1
    rw [hpath]
    refine run_bind_iff.mpr (within_umount ht ?_ fun _ t h => h)
    intro t hun hold
    -- from here on the device is released, or the request is unlucky
    have hholds : Stable a slot fun t =>
        Unmounted fortunate slot id m t ∧ (.mount id, m.nbdDevice) ∈ t.holdings := by
      rintro t t' ⟨hun, hold⟩ hk
      exact ⟨stable_unmounted hun hk, (hk.frees (h := .mount id) hun.1.mine hold).2⟩
    refine run_bind_iff.mpr (within_lucky hholds ⟨hun, hold⟩ (fun _ _ => rfl) ?_ ?_ ?_)
    · rintro t l ⟨hun, -⟩ hf
      exact hf ⟨id, hun.1.mine, by simp [hun.2.1]⟩
    · rintro t ⟨hun, hold⟩
      refine run_seq (within_release hold hun.1.mine) (fun _ t h => ?_) (by simp)
      obtain ⟨hun, hfree⟩ := hun.released h.2
      refine run_bind_iff.mpr (within_act fun t₂ hk hb l _ => ?_)
      obtain ⟨hend, hm, hnone⟩ := stable_unmounted hun hk
      have hfree₂ : ∀ d, (Holder.mount id, d) ∉ t₂.holdings :=
        fun d hmem => hfree d (((hk.mine hun.1.mine).2.2 d).1.mp hmem)
      refine ⟨hb.deleteMount hend.mine hfree₂, stable_idle.within ?_ (by simp [Harmless])⟩
      have hend' : Ending fortunate slot id { t₂ with mounts := update t₂.mounts id none } := by
        refine ⟨hend.mine, hend.holdings, fun hf id' hne hid => ?_⟩
        obtain ⟨h₁, h₂, h₃⟩ := hend.past hf id' hne hid
        exact ⟨(update_of_ne hne _ _).trans h₁, h₂, h₃⟩
      exact hend'.idle fun _ => ⟨update_self .., hb.one hm, hnone⟩
    · rintro e t ⟨hun, -⟩ hunlucky
      exact hun.1.idle fun hf => absurd hf hunlucky

/-! ## Firecracker sessions -/

/-- The places a run mounts at are no session's. -/
theorem Routine.harmless (h : Routine o) : Harmless a o := by
  cases o with
  | outside call =>
    cases call with
    | mount device path =>
      obtain ⟨paths, rfl⟩ := h
      exact fun id hid => sideloadRoot_ne_mountPath a paths hid
    | umount path =>
      obtain ⟨paths, rfl⟩ := h
      exact fun id hid => sideloadRoot_ne_mountPath a paths hid
    | _ => trivial
  | _ => trivial

theorem always_harmless {x : NodeM α} {Q : Except NodeErr α → Prop} (h : x.run.Always Routine Q) :
    x.run.Always (Harmless a) fun _ => True :=
  h.mono (fun _ ho => ho.harmless) fun _ _ => trivial

theorem commitRun_harmless {run : RunParams} {resp : Resp} :
    (commitRun a session run resp).run.Always (Harmless a) fun _ => True := by
  unfold commitRun
  split
  · simp [-ExceptT.run_bind, -bind_pure_comp, Harmless]
  · simp

theorem boot_harmless {config : FirecrackerConfig} {marker : Text} :
    (boot a session config marker).run.Always (Harmless a) fun _ => True := by
  unfold boot
  simp only [always_run_bind, always_outside]
  refine ⟨trivial, fun _ => ⟨by simp, fun _ _ => ⟨trivial, fun _ => ⟨by simp, fun _ _ => ?_⟩⟩⟩⟩
  exact always_harmless awaitGuest_routine

/-- `detach` releases the device, whoever it is released for. -/
theorem within_detachFirecracker {network : Option FirecrackerNetwork} (hold : (h, d) ∈ t.holdings)
    (hfree : t.Frees slot h) :
    Within a own fortunate slot (detachFirecracker id d network)
      (fun r t' => r = .ok () ∧ Released a own slot d t t') t := by
  have hmine : Stable a slot fun t₁ => Keeps a slot t t₁ := fun h hk => h.trans hk
  refine hmine.within_sure (Keeps.refl a slot t) (by simp [Harmless]) fun _ t₁ hk => ?_
  refine hmine.within_sure hk (by simp [Harmless]) fun _ t₁ hk => ?_
  obtain ⟨hfree₁, hold₁⟩ := hk.frees hfree hold
  refine run_seq (within_release hold₁ hfree₁) (fun _ t₂ h => ?_) (by simp)
  have hr : Released a own slot d t t₂ := by
    obtain ⟨t₃, hk₃, hb, hk'⟩ := h.2
    exact ⟨t₃, hk.trans hk₃, hb, hk'⟩
  have hafter : Stable a slot (Released a own slot d t) := Released.keeps
  cases network with
  | none => exact ⟨rfl, hr⟩
  | some network =>
    refine (within_harmless (Q := fun r => r = .ok ()) (by simp [Harmless])).mono fun _ t₃ h₃ => ?_
    exact ⟨h₃.1, hafter hr h₃.2⟩

/-- A part of a run that is detached if it fails. -/
theorem within_guarded_detach {network : Option FirecrackerNetwork} {x : NodeM α} (hP : Stable a slot P)
    (ht : P t) (hwork : ∀ {t'}, P t' → Working fortunate slot (· = d) t')
    (hx : x.run.Always (Harmless a) fun _ => True) {Q : Except NodeErr α → Ledger → Prop}
    (hok : ∀ v t', P t' → Q (.ok v) t') (herr : ∀ e t', Idle fortunate slot t' → Q (.error e) t') :
    Within a own fortunate slot (guarded (detachFirecracker id d network) x) Q t := by
  refine wpRG_guarded (hP.within ht hx) hok fun e t' h => ?_
  refine (within_detachFirecracker (((hwork h).holdings d).mpr rfl) rfl).mono fun _ t'' h'' => ?_
  exact herr e t'' ((hwork h).released h''.2)

/-- The restored VM is stopped and its device released in any case. -/
theorem within_restoreFirecrackerSession (ht : Working fortunate slot (· = d) t) :
    Within a own fortunate slot (restoreFirecrackerSession a session req d)
      (fun _ => Idle fortunate slot) t := by
  have hstable : Stable a slot (Working fortunate slot (· = d)) := Working.keeps
  refine run_seq (P := fun r t' => (∀ v, r = .ok v → Working fortunate slot (· = d) t') ∧
    ∀ e, r = .error e → Idle fortunate slot t')
    (within_guarded_detach hstable ht (fun h => h)
      (by simp [-ExceptT.run_bind, -bind_pure_comp, Harmless]) ?_ ?_) ?_ fun e t h => h.2 e rfl
  · exact fun _ t h => ⟨fun _ _ => h, by simp⟩
  · exact fun _ t h => ⟨by simp, fun _ _ => h⟩
  · intro _ t h
    have hwork := h.1 () rfl
    refine wpRG_deferring
      (hstable.within hwork (by simp [-ExceptT.run_bind, -bind_pure_comp, Harmless])) fun r t hwork => ?_
    refine hstable.within_sure hwork (by simp [Harmless]) fun _ t hwork => ?_
    exact (within_detachFirecracker ((hwork.holdings d).mpr rfl) rfl).mono fun _ t h => hwork.released h.2

/-- A run on its device: in the end the request holds nothing. -/
theorem within_runOnDevice {run : RunParams} (ht : Attaching a fortunate slot session.id d t) :
    Within a own fortunate slot (runOnDevice a session req run d) (fun _ => Idle fortunate slot) t := by
  refine run_bind_iff.mpr (within_guarded_detach stable_attaching ht And.left
    (always_harmless attachFirecracker_routine) (fun files t ht => ?_) fun e t h => h)
  rw [orElse_ok]
  split
  · exact within_restoreFirecrackerSession ht.1
  · refine run_bind_iff.mpr (within_guarded_detach stable_attaching ht And.left
      (always_harmless networkFor_routine) (fun network t ht => ?_) fun e t h => h)
    refine run_bind_iff.mpr (within_guarded_detach stable_attaching ht And.left
      boot_harmless (fun _ t ht => ?_) fun e t h => h)
    rw [orElse_ok]
    split
    · refine run_bind_iff.mpr (within_act fun t₁ hk hb l _ => ?_)
      obtain ⟨hwork, hstart, hnot⟩ := stable_attaching ht hk
      refine ⟨hb.enterTTY hstart ((hwork.holdings d).mpr rfl) rfl hnot, ?_⟩
      have hidle := hwork.entered (t₁.enterTTY slot session.id ⟨session.id, d, network, false⟩) hb hstart rfl
        (fun _ _ => rfl) (fun _ h => update_of_ne h _ _) rfl (Or.inr rfl)
      exact stable_idle.within hidle (by simp [-ExceptT.run_bind, -bind_pure_comp, Harmless])
    · refine run_bind_iff.mpr (within_guarded_detach stable_attaching ht And.left
        (always_harmless finishRun_routine) (fun resp t ht => ?_) fun e t h => h)
      refine run_seq (within_detachFirecracker ((ht.1.holdings d).mpr rfl) rfl)
        (fun _ t' h => ?_) fun e t' h => ?_
      · exact stable_idle.within (ht.1.released h.2) commitRun_harmless
      · cases h.1

/-- A firecracker session up to its end, or to its entry. -/
theorem within_runFirecrackerSession (hidle : Idle fortunate slot t)
    (hopen : Opening a slot session.id t) (hown : ∀ d ∈ a.devices, own d)
    (hpref : req.restoreDevice ≠ [] → own req.restoreDevice) :
    Within a own fortunate slot (runFirecrackerSession a session req) (fun _ => Idle fortunate slot) t := by
  have hstable : Stable a slot fun t => Idle fortunate slot t ∧ Opening a slot session.id t :=
    fun h hk => ⟨h.1.keeps hk, h.2.keeps hk⟩
  refine hstable.within_then ⟨hidle, hopen⟩ (by simp) (fun run t ht => ?_) fun e t ht => ht.1
  refine hstable.within_then ht (always_harmless preflight_routine) (fun _ t ht => ?_) fun e t ht => ht.1
  refine run_seq (within_allocate ht.1 ht.2 hown hpref) ?_ fun e t h => h.2.1 e rfl
  exact fun d t h => within_runOnDevice ⟨h.2.2 d rfl, h.1⟩

/-! ## Requests -/

/-- `backend.Start`: the session is new. -/
theorem within_backendStart {volumeID : String} (hidle : Idle fortunate slot t) :
    Within a own fortunate slot (backendStart volumeID)
      (fun r t' => Idle fortunate slot t' ∧ ∀ session, r = .ok session → Opening a slot session.id t') t := by
  refine run_bind_iff.mpr (within_ask fun t₁ hk hb l hl _ => ?_)
  have hidle₁ := hidle.keeps hk
  simp only [Ledger.exec]
  split
  · exact ⟨⟨hb, fun k _ => Keeps.refl a k t₁⟩, hidle₁, by simp⟩
  · rename_i session hanswer
    obtain ⟨huuid, hnew⟩ : IsUUID session.id ∧ session.id ∉ t₁.started := by
      rw [Plausible, hanswer] at hl
      exact hl
    refine ⟨hb.start huuid hnew, ⟨hidle₁.holdings, hidle₁.past⟩, ?_⟩
    rintro _ ⟨⟩
    exact ⟨update_self .., fun hin => hnew (hb.mounted hin huuid).1⟩

theorem abandon_harmless : (abandon id).run.Always (Harmless a) fun _ => True := by
  simp [abandon, Harmless]

/-- A start whose request is idle when it fails is abandoned. -/
theorem within_abandon {x : NodeM α}
    (hx : Within a own fortunate slot x (fun _ => Idle fortunate slot) t) :
    Within a own fortunate slot (guarded (abandon id) x) (fun _ => Idle fortunate slot) t :=
  wpRG_guarded hx (fun _ _ h => h) fun _ _ h => stable_idle.within h abandon_harmless

/-- **`startSession`.** -/
theorem within_startSession (hidle : Idle fortunate slot t) (hown : ∀ d ∈ a.devices, own d)
    (hpref : req.restoreDevice ≠ [] → own req.restoreDevice) :
    Within a own fortunate slot (startSession a req) (fun _ => Idle fortunate slot) t := by
  refine run_seq (within_backendStart hidle) (fun session t h => ?_) fun e t h => h.1
  obtain ⟨hidle, hopen⟩ := h
  have hopen := hopen session rfl
  dsimp only
  split
  · exact hidle
  · split
    · split
      · exact stable_idle.within hidle (by simp [Harmless])
      · exact stable_idle.within hidle (by simp [-ExceptT.run_bind, -bind_pure_comp, Harmless])
    · split
      · refine run_seq (within_abandon (within_startMountedSession hidle hopen hown))
          (fun _ t hidle => ?_) fun _ _ h => h
        refine run_bind_iff.mpr (within_ask fun t₁ hk hb l _ _ => ?_)
        refine ⟨⟨hb, fun k _ => Keeps.refl a k t₁⟩, ?_⟩
        simp only [Ledger.exec, orElse_ok]
        cases t₁.mounts session.id with
        | none => exact hidle.keeps hk
        | some m => exact hidle.keeps hk
      · split
        · refine run_seq (within_abandon (within_runFirecrackerSession hidle hopen hown hpref))
            (fun _ _ h => h) fun _ _ h => h
        · exact stable_idle.within hidle (by simp [Harmless])

theorem within_commit (hidle : Idle fortunate slot t) :
    Within a own fortunate slot (commit id) (fun _ => Idle fortunate slot) t :=
  run_seq (within_detachMountedSession hidle)
    (fun _ _ h => stable_idle.within h (by simp [-ExceptT.run_bind, -bind_pure_comp, Harmless])) fun _ _ h => h

theorem within_stop (hidle : Idle fortunate slot t) :
    Within a own fortunate slot (stop id) (fun _ => Idle fortunate slot) t :=
  run_seq (within_detachMountedSession hidle)
    (fun _ _ h => stable_idle.within h (by simp [-ExceptT.run_bind, -bind_pure_comp, Harmless])) fun _ _ h => h

/-- A tty session whose stop was claimed, in the hands of the request that claimed it. -/
def Claimed (fortunate : Prop) (slot : Nat) (id : String) (d : Text) (t : Ledger) : Prop :=
  Ending fortunate slot id t ∧ t.mounts id = none ∧ t.ttySessions id ≠ none ∧
    ∀ d', (Holder.tty id, d') ∈ t.holdings → d' = d

theorem stable_claimed : Stable a slot (Claimed fortunate slot id d) := by
  rintro t t' ⟨hend, hm, htty, honly⟩ hk
  obtain ⟨hmounts, hsame, hhold⟩ := hk.mine hend.mine
  exact ⟨hend.keeps hk, hmounts.trans hm, hsame ▸ htty, fun d' hmem => honly d' ((hhold d').2.mp hmem)⟩

/-- The same before the device is released. -/
theorem stable_claimed_holding : Stable a slot fun t =>
    Claimed fortunate slot id d t ∧ (.tty id, d) ∈ t.holdings := by
  rintro t t' ⟨hclaim, hold⟩ hk
  exact ⟨stable_claimed hclaim hk, (hk.frees (h := .tty id) hclaim.1.mine hold).2⟩

/-- `claimStop` of a session whose entry was found. -/
theorem within_claimStop
    (ht : Idle fortunate slot t ∧ t.Entered id ∧ ∀ tty, t.ttySessions id = some tty → tty.device = d) :
    Within a own fortunate slot (claimStop id)
      (fun r t' => (r = .ok true ∧ Claimed fortunate slot id d t' ∧ (.tty id, d) ∈ t'.holdings) ∨
        (r = .ok false ∧ Idle fortunate slot t')) t := by
  refine within_ask fun t₁ hk hb l _ _ => ?_
  have hidle := ht.1.keeps hk
  obtain ⟨-, -, hdevice⟩ := hk.entered ht.2.1
  have hstays : Fair a own slot t₁ t₁ := ⟨hb, fun k _ => Keeps.refl a k t₁⟩
  simp only [Ledger.exec]
  split
  · exact ⟨hstays, Or.inr ⟨rfl, hidle⟩⟩
  · rename_i tty htty
    split
    · exact ⟨hstays, Or.inr ⟨rfl, hidle⟩⟩
    · rename_i hstop
      obtain ⟨tty₀, htty₀, hsame⟩ := hdevice tty htty
      have hd : tty.device = d := hsame.trans (ht.2.2 tty₀ htty₀)
      obtain ⟨-, hflag, hold⟩ := hb.tty htty
      have hnone : t₁.detaching id = none := by
        by_contra h
        exact hstop (hflag.mpr h)
      refine ⟨hb.claim htty (by simpa using hstop), Or.inl ⟨rfl, ⟨⟨update_self ..,
        fun d => (hidle.holdings d).mp, ?_⟩, ?_, ?_, ?_⟩, hd ▸ hold hnone⟩⟩
      · intro hf id' hne hid
        have hid' : t₁.detaching id' = some slot := (update_of_ne hne _ _).symm.trans hid
        obtain ⟨h₁, h₂, h₃⟩ := hidle.past hf id' hid'
        exact ⟨h₁, (update_of_ne hne _ _).trans h₂, h₃⟩
      · refine Option.eq_none_iff_forall_not_mem.mpr fun m hm => ?_
        cases (hb.one hm).symm.trans htty
      · rw [show (t₁.claim slot id tty).ttySessions id = _ from update_self ..]
        simp
      · intro d' hmem
        rcases hb.ofTTY hmem with ⟨tty', htty', rfl⟩ | h
        · rw [← hd, Option.some.inj (htty.symm.trans htty')]
        · exact absurd hnone h

/-- After its release the tty session holds nothing. -/
theorem Claimed.released (h : Claimed fortunate slot id d t) (hr : Released a own slot d t t') :
    Claimed fortunate slot id d t' ∧ ∀ d', (Holder.tty id, d') ∉ t'.holdings := by
  obtain ⟨t₁, hk, hb, hk'⟩ := hr
  obtain ⟨hend, hm, htty, honly⟩ := stable_claimed h hk
  have hclaim : Claimed fortunate slot id d (t₁.release slot d) :=
    ⟨hend.release, hm, htty, fun d' hmem => honly d' (mem_release.mp hmem).1⟩
  refine ⟨stable_claimed hclaim hk', fun d' hmem => ?_⟩
  obtain ⟨hmem, hnot⟩ := mem_release.mp (((hk'.mine hend.mine).2.2 d').2.mp hmem)
  exact hnot ⟨honly d' hmem, hend.mine⟩

/-- The stop function of a tty session releases the device, or the request is unlucky. -/
theorem within_stopTTYSession {tty : TTYSession}
    (ht : Claimed fortunate slot id tty.device t ∧ (.tty id, tty.device) ∈ t.holdings) :
    Within a own fortunate slot (stopTTYSession a tty)
      (fun _ t' => Claimed fortunate slot id tty.device t' ∧
        (fortunate → ∀ d, (Holder.tty id, d) ∉ t'.holdings)) t := by
  have hunlucky : ∀ {t'}, (Claimed fortunate slot id tty.device t' ∧ (.tty id, tty.device) ∈ t'.holdings) →
      ¬ fortunate → Claimed fortunate slot id tty.device t' ∧
        (fortunate → ∀ d, (Holder.tty id, d) ∉ t'.holdings) :=
    fun h hnot => ⟨h.1, fun hf => absurd hf hnot⟩
  have hafter : Stable a slot fun t' => Claimed fortunate slot id tty.device t' ∧
      ∀ d, (Holder.tty id, d) ∉ t'.holdings := by
    rintro t t' ⟨hclaim, hnone⟩ hk
    exact ⟨stable_claimed hclaim hk, fun d hmem => hnone d (((hk.mine hclaim.1.mine).2.2 d).2.mp hmem)⟩
  refine stable_claimed_holding.within_sure ht (by simp [Harmless]) fun _ t ht => ?_
  refine stable_claimed_holding.within_sure ht (by simp [Harmless]) fun _ t ht => ?_
  refine run_bind_iff.mpr (within_lucky stable_claimed_holding ht (fun _ _ => rfl)
    (fun ht hf => hf ⟨id, ht.1.1.mine, ht.1.2.2.1⟩) (fun t ht => ?_) fun e t ht => hunlucky ht)
  refine run_bind_iff.mpr (within_lucky stable_claimed_holding ht (fun _ _ => rfl)
    (fun ht hf => hf ⟨id, ht.1.1.mine, ht.1.2.2.1⟩) (fun t ht => ?_) fun e t ht => hunlucky ht)
  refine run_seq (within_detachFirecracker ht.2 ht.1.1.mine) (fun _ t h => ?_) (by simp)
  refine (hafter.within (ht.1.released h.2) ?_).mono fun _ t h => ⟨h.1, fun _ => h.2⟩
  simp [Harmless]

/-- **`ttyStop`.** -/
theorem within_ttyStop (hidle : Idle fortunate slot t) :
    Within a own fortunate slot (ttyStop a id) (fun _ => Idle fortunate slot) t := by
  refine run_bind_iff.mpr (within_ask fun t₁ hk hb l _ _ => ?_)
  refine ⟨⟨hb, fun k _ => Keeps.refl a k t₁⟩, ?_⟩
  have hidle₁ := hidle.keeps hk
  simp only [Ledger.exec, orElse_ok]
  cases htty : t₁.ttySessions id with
  | none => exact hidle₁
  | some tty =>
    have ht : Idle fortunate slot t₁ ∧ t₁.Entered id ∧
        ∀ tty', t₁.ttySessions id = some tty' → tty'.device = tty.device :=
      ⟨hidle₁, (hb.tty htty).1, fun tty' h => by rw [Option.some.inj (h.symm.trans htty)]⟩
    refine run_seq (within_claimStop ht) (fun claimed t h => ?_) (by simp)
    rcases h with ⟨hr, hclaim, hold⟩ | ⟨hr, hidle⟩
    · obtain rfl := Except.ok.inj hr
      refine stable_claimed_holding.within_sure ⟨hclaim, hold⟩ (by simp) fun _ t ht => ?_
      refine run_bind_iff.mpr (wpRG_attempt.mpr ((within_stopTTYSession ht).mono fun r t h => ?_))
      refine run_bind_iff.mpr (within_act fun t₂ hk hb l _ => ?_)
      obtain ⟨hend, hm, -, -⟩ := stable_claimed h.1 hk
      have hend' : Ending fortunate slot id
          { t₂ with ttySessions := update t₂.ttySessions id none } := by
        refine ⟨hend.mine, hend.holdings, fun hf id' hne hid => ?_⟩
        obtain ⟨h₁, h₂, h₃⟩ := hend.past hf id' hne hid
        exact ⟨h₁, (update_of_ne hne _ _).trans h₂, h₃⟩
      have hidle := hend'.idle fun hf => ⟨hm, update_self .., fun d hmem =>
        h.2 hf d (((hk.mine h.1.1.mine).2.2 d).2.mp hmem)⟩
      exact ⟨hb.deleteTTY hend.mine, stable_idle.within hidle (by simp [-ExceptT.run_bind, -bind_pure_comp, Harmless])⟩
    · obtain rfl := Except.ok.inj hr
      exact hidle

end Threads

/-! ## Pools of requests -/

/-- The requests of a node that concern its devices. -/
inductive NodeRequest where
  | start (req : StartRequest)
  | commit (sessionID : String)
  | stop (sessionID : String)
  | ttyStop (sessionID : String)

/-- The handler of a request; what it answers the client is of no concern here. -/
def serveNode (a : App) : NodeRequest → NodeM Unit
  | .start req => ignore (startSession a req)
  | .commit sessionID => ignore (commit sessionID)
  | .stop sessionID => ignore (stop sessionID)
  | .ttyStop sessionID => ignore (ttyStop a sessionID)

/-- The device a request asks for, if it asks for one. -/
def NodeRequest.prefers : NodeRequest → Text
  | .start req => req.restoreDevice
  | _ => []

/-- **Every request keeps the books and leaves its slot idle.** -/
theorem within_serveNode {a : App} {own : Text → Prop} {fortunate : Prop} {slot : Nat} {t : Ledger}
    (r : NodeRequest) (hown : ∀ d ∈ a.devices, own d) (hpref : r.prefers ≠ [] → own r.prefers)
    (hidle : Idle fortunate slot t) :
    Within a own fortunate slot (serveNode a r) (fun _ => Idle fortunate slot) t := by
  cases r with
  | start req => exact (wpRG_ignore (Q := fun _ => Idle fortunate slot)).mpr (within_startSession hidle hown hpref)
  | commit id => exact (wpRG_ignore (Q := fun _ => Idle fortunate slot)).mpr (within_commit hidle)
  | stop id => exact (wpRG_ignore (Q := fun _ => Idle fortunate slot)).mpr (within_stop hidle)
  | ttyStop id => exact (wpRG_ignore (Q := fun _ => Idle fortunate slot)).mpr (within_ttyStop hidle)

theorem books_empty (a : App) (own : Text → Prop) : Books a own .empty := by
  constructor <;> simp [Ledger.empty]

theorem idle_empty (fortunate : Prop) (slot : Nat) : Idle fortunate slot .empty := by
  constructor <;> simp [Ledger.empty]

end OrcaBlocks.Services
