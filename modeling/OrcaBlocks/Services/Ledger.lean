/-
# OrcaBlocks.Services.Ledger — who holds which NBD device of a node.

The node keeps the set of its devices in use and two maps of sessions that own one: `mounts` and
`ttySessions`. A device is in use from its allocation to its release, and in between it changes hands: the
request that starts a session allocates it and puts it into an entry, the request that ends the session
takes it out again. None of this is written down in the node's state, so the ledger adds it as HISTORY:
`holdings` lists each allocation under whoever holds it, and no operation reads it.

A request that ends a session may release the session's device once it has made sure that it is the only
one to end it: by the `umount` that succeeds, since a path is unmounted once, or by `claimStop`, which finds
the flag `stopped` unset. From then on the session is `detaching`. Sessions are named by UUIDs.

`Books` is the invariant of the ledger, `Keeps` what a request may rely on while others run.
-/
import OrcaBlocks.Lib.Pool
import OrcaBlocks.Services.Node

namespace OrcaBlocks.Services

open OrcaBlocks.Lib Node Function

variable {id id' : String} {d d' : Text}

/-! ## The state of a node -/

/-- Who can hold a device. -/
inductive Holder where
  | request (slot : Nat)
  | mount (sessionID : String)
  | tty (sessionID : String)
  deriving DecidableEq

/-- A node's devices. -/
structure Ledger where
  used : Finset Text
  mounts : String → Option MountedSession
  ttySessions : String → Option TTYSession
  /-- The mount points of the node's system. -/
  mounted : Finset Text
  /-- History: the allocations, each under its holder. -/
  holdings : List (Holder × Text)
  /-- History: the sessions that were started. -/
  started : Finset String
  /-- History: the request that starts a session and has not made an entry for it. -/
  starting : String → Option Nat
  /-- History: the request that makes sure that nobody else ends a session. -/
  detaching : String → Option Nat

/-- A node before its first request. -/
def Ledger.empty : Ledger where
  used := ∅
  mounts := fun _ => none
  ttySessions := fun _ => none
  mounted := ∅
  holdings := []
  started := ∅
  starting := fun _ => none
  detaching := fun _ => none

/-- What the environment decides about an operation: what `os.Stat` says, and the answer of a call that
leaves the node. -/
structure Answers where
  stat : Stat
  answer : (o : NodeOp) → o.Res

/-- A device changes hands. -/
def hand (src dst : Holder) (d : Text) (holdings : List (Holder × Text)) : List (Holder × Text) :=
  holdings.map fun e => if e = (src, d) then (dst, d) else e

/-- The entry of a mounted session is made. -/
def Ledger.enterMount (t : Ledger) (slot : Nat) (id : String) (mounted : MountedSession) : Ledger :=
  { t with
    mounts := update t.mounts id (some mounted)
    holdings := hand (.request slot) (.mount id) mounted.nbdDevice t.holdings
    starting := update t.starting id none }

/-- The entry of a tty session is made. -/
def Ledger.enterTTY (t : Ledger) (slot : Nat) (id : String) (tty : TTYSession) : Ledger :=
  { t with
    ttySessions := update t.ttySessions id (some tty)
    holdings := hand (.request slot) (.tty id) tty.device t.holdings
    starting := update t.starting id none }

/-- A mount point is unmounted. -/
def Ledger.unmount (a : App) (t : Ledger) (slot : Nat) (path : Text) : Ledger :=
  { t with
    mounted := t.mounted.erase path
    detaching := fun id =>
      if (t.mounts id).isSome ∧ a.mountPath id = path then some slot else t.detaching id }

/-- The stop of a tty session is claimed. -/
def Ledger.claim (t : Ledger) (slot : Nat) (id : String) (tty : TTYSession) : Ledger :=
  { t with
    ttySessions := update t.ttySessions id (some { tty with stopped := true })
    detaching := update t.detaching id (some slot) }

/-- Whose devices a request may release: its own, and those of the sessions it detaches. -/
def Ledger.Frees (t : Ledger) (slot : Nat) : Holder → Prop
  | .request k => k = slot
  | .mount id => t.detaching id = some slot
  | .tty id => t.detaching id = some slot

instance (t : Ledger) (slot : Nat) : DecidablePred (t.Frees slot) := fun h =>
  match h with
  | .request k => inferInstanceAs (Decidable (k = slot))
  | .mount id => inferInstanceAs (Decidable (t.detaching id = some slot))
  | .tty id => inferInstanceAs (Decidable (t.detaching id = some slot))

/-- A device is released. Whoever else holds it goes on holding it. -/
def Ledger.release (t : Ledger) (slot : Nat) (d : Text) : Ledger :=
  { t with
    used := t.used.erase d
    holdings := t.holdings.filter fun e => ¬ (e.2 = d ∧ t.Frees slot e.1) }

/-- One operation of the request in a slot. A command that fails changes nothing. -/
def Ledger.exec (a : App) (slot : Nat) (l : Answers) (t : Ledger) : (o : NodeOp) → o.Res × Ledger
  | .allocateNBDDevicePrefer preferred =>
    let out := allocateNBDDevicePrefer a l.stat t.used preferred
    (out.1,
      match out.1 with
      | .ok device => { t with used := out.2, holdings := (.request slot, device) :: t.holdings }
      | .error _ => { t with used := out.2 })
  | .releaseNBDDevice device => ((), t.release slot device)
  | .getMount id => (t.mounts id, t)
  | .putMount id mounted => ((), t.enterMount slot id mounted)
  | .deleteMount id => ((), { t with mounts := update t.mounts id none })
  | .getTTY id => (t.ttySessions id, t)
  | .putTTY id tty => ((), t.enterTTY slot id tty)
  | .claimStop id =>
    match t.ttySessions id with
    | none => (false, t)
    | some tty =>
      if tty.stopped then (false, t) else (true, t.claim slot id tty)
  | .deleteTTY id => ((), { t with ttySessions := update t.ttySessions id none })
  | .backendStart volumeID =>
    match l.answer (.backendStart volumeID) with
    | .error err => (.error err, t)
    | .ok session =>
      (.ok session, { t with
        started := insert session.id t.started
        starting := update t.starting session.id (some slot) })
  | .outside (.mount device path) =>
    match l.answer (.outside (.mount device path)) with
    | .error err => (.error err, t)
    | .ok () => (.ok (), { t with mounted := insert path t.mounted })
  | .outside (.umount path) =>
    match l.answer (.outside (.umount path)) with
    | .error err => (.error err, t)
    | .ok () => (.ok (), t.unmount a slot path)
  | o => (l.answer o, t)

/-- A UUID in its usual spelling. -/
def IsUUID (id : String) : Prop :=
  (utf8 id).length = 36 ∧ ∀ b ∈ utf8 id, b = 45 ∨ (48 ≤ b ∧ b ≤ 57) ∨ (97 ≤ b ∧ b ≤ 102)

instance : DecidablePred IsUUID := fun _ => inferInstanceAs (Decidable (_ ∧ _))

/-- A session that starts gets a new UUID. -/
def Ledger.CanStart (t : Ledger) : Except Storage.Err NodeSession → Prop
  | .ok session => IsUUID session.id ∧ session.id ∉ t.started
  | .error _ => True

/-- Only what is mounted can be unmounted. -/
def Ledger.CanUnmount (t : Ledger) (path : Text) : Except NodeErr Unit → Prop
  | .ok () => path ∈ t.mounted
  | .error _ => True

/-- What the outside can answer. Any command may fail. -/
def Plausible (l : Answers) (t : Ledger) : NodeOp → Prop
  | .backendStart volumeID => t.CanStart (l.answer (.backendStart volumeID))
  | .outside (.umount path) => t.CanUnmount path (l.answer (.outside (.umount path)))
  | _ => True

instance (t : Ledger) : DecidablePred t.CanStart
  | .ok _ => inferInstanceAs (Decidable (_ ∧ _))
  | .error _ => .isTrue trivial

instance (t : Ledger) (path : Text) : DecidablePred (t.CanUnmount path)
  | .ok () => inferInstanceAs (Decidable (_ ∈ _))
  | .error _ => .isTrue trivial

instance (l : Answers) (t : Ledger) : DecidablePred (Plausible l t) := fun o =>
  match o with
  | .backendStart volumeID => inferInstanceAs (Decidable (t.CanStart (l.answer (.backendStart volumeID))))
  | .outside call =>
    match call with
    | .umount path =>
      inferInstanceAs (Decidable (t.CanUnmount path (l.answer (.outside (.umount path)))))
    | .statFiles _ | .preflightNBDDevices _ | .mkdirAll _ | .copyFile _ _ | .remove _ | .removeAll _
    | .writeConfig _ _ | .writeRestoreConfig _ _ | .nbdConnect _ _ _ | .nbdDisconnect _ | .mkfs _
    | .mount _ _ | .sync | .flushbufs _ | .setupNetwork _ | .cleanupNetwork _ | .startProcess _ _ _
    | .waitForMarkerOrExit | .wait | .waitTimeout | .writeInput _ | .waitForPath _ | .pause
    | .createSnapshot _ _ | .configureLogger _ | .loadSnapshot _ _ => .isTrue trivial
  | .allocateNBDDevicePrefer _ | .releaseNBDDevice _ | .getMount _ | .putMount _ _ | .deleteMount _
  | .getTTY _ | .putTTY _ _ | .claimStop _ | .deleteTTY _ | .registerNBDExport _ _
  | .unregisterNBDExport _ | .backendCommit _ _ | .backendStop _ | .backendFlushDirty _ | .output
  | .stopProcess => .isTrue trivial

/-- The commands after which nobody can release a session's device when they fail: `sync` and `blockdev
--flushbufs` of the stop of a tty session, and `nbd-client -d` for a mounted session, whose mount point is
gone by then. -/
def Fortunate (slot : Nat) (l : Answers) (t : Ledger) : NodeOp → Prop
  | .outside .sync => (∃ id, t.detaching id = some slot ∧ t.ttySessions id ≠ none) →
      l.answer (.outside .sync) = .ok ()
  | .outside (.flushbufs device) => (∃ id, t.detaching id = some slot ∧ t.ttySessions id ≠ none) →
      l.answer (.outside (.flushbufs device)) = .ok ()
  | .outside (.nbdDisconnect device) => (∃ id, t.detaching id = some slot ∧ t.mounts id ≠ none) →
      l.answer (.outside (.nbdDisconnect device)) = .ok ()
  | _ => True

/-- The requests of one slot of a node; `fortunate` says whether the commands above are known to succeed. -/
def ledgerMachine (a : App) (fortunate : Prop) (slot : Nat) : Machine nodeSig Ledger Answers where
  exec l t o := t.exec a slot l o
  allowed l t o := Plausible l t o ∧ (fortunate → Fortunate slot l t o)

/-! ## Mount points -/

theorem IsUUID.isName (h : IsUUID id) : IsName (utf8 id) := by
  obtain ⟨hlen, hbytes⟩ := h
  refine ⟨?_, ?_, ?_, fun hslash => ?_⟩
  · intro heq
    simp [heq] at hlen
  · intro heq
    rw [heq] at hlen
    exact absurd hlen (by decide)
  · intro heq
    rw [heq] at hlen
    exact absurd hlen (by decide)
  · exact absurd (hbytes 47 hslash) (by decide)

/-- Different sessions are mounted at different places. -/
theorem mountPath_inj {a : App} (hid : IsUUID id) (hid' : IsUUID id')
    (h : a.mountPath id = a.mountPath id') : id = id' :=
  utf8_injective (joinPath_inj hid.isName hid'.isName h)

/-- The place where an image is prepared is no session's mount point. -/
theorem sideloadRoot_ne_mountPath (a : App) (paths : WorkPaths) (hid : IsUUID id) :
    a.mountPath id ≠ paths.sideloadRoot := by
  intro h
  rw [App.mountPath, WorkPaths.sideloadRoot, joinPath_name _ hid.isName,
    joinPath_name _ (by decide)] at h
  have hlast := congrArg List.getLast? h
  rw [List.getLast?_append_of_ne_nil _ hid.isName.1, List.getLast?_append_of_ne_nil _ (by decide)]
    at hlast
  exact absurd (hid.2 116 (List.mem_of_getLast? hlast)) (by decide)

/-! ## Allocation -/

/-- An allocation yields a device that was not in use: the preferred one, or one of the node's range. -/
theorem allocateNBDDevicePrefer_cases (a : App) (stat : Stat) (used : Finset Text) (preferred : Text) :
    (∃ err, allocateNBDDevicePrefer a stat used preferred = (.error err, used)) ∨
      ∃ d, allocateNBDDevicePrefer a stat used preferred = (.ok d, insert d used) ∧ d ∉ used ∧
        (preferred ≠ [] → d = preferred) ∧ (preferred = [] → d ∈ a.devices) := by
  unfold allocateNBDDevicePrefer
  by_cases hpref : preferred = []
  · rw [if_neg (not_not.mpr hpref)]
    dsimp only
    split
    · rename_i device hfind
      refine Or.inr ⟨device, rfl, ?_, fun h => absurd hpref h, fun _ => ?_⟩
      · simpa using List.find?_some hfind
      · exact (List.mem_filter.mp (List.mem_of_find?_eq_some hfind)).1
    · split
      · exact Or.inl ⟨_, rfl⟩
      · exact Or.inl ⟨_, rfl⟩
  · rw [if_pos hpref]
    split
    · exact Or.inl ⟨_, rfl⟩
    · exact Or.inl ⟨_, rfl⟩
    · split
      · exact Or.inl ⟨_, rfl⟩
      · rename_i hfree
        exact Or.inr ⟨preferred, rfl, hfree, fun _ => rfl, fun h => absurd h hpref⟩

/-! ## The invariant -/

/-- The session was started, and an entry was made for it. -/
def Ledger.Entered (t : Ledger) (id : String) : Prop := id ∈ t.started ∧ t.starting id = none

/-- The books are right: the devices in use are the allocated ones, all of them the node's OWN, no device
is allocated twice, and every entry that nobody is detaching holds its device. -/
structure Books (a : App) (own : Text → Prop) (t : Ledger) : Prop where
  own : ∀ d ∈ t.used, own d
  used : ∀ d, d ∈ t.used ↔ ∃ h, (h, d) ∈ t.holdings
  nodup : (t.holdings.map Prod.snd).Nodup
  ofMount : ∀ {id d}, (Holder.mount id, d) ∈ t.holdings → ∃ m, t.mounts id = some m ∧ m.nbdDevice = d
  ofTTY : ∀ {id d}, (Holder.tty id, d) ∈ t.holdings →
    (∃ tty, t.ttySessions id = some tty ∧ tty.device = d) ∨ t.detaching id ≠ none
  mount : ∀ {id m}, t.mounts id = some m →
    t.Entered id ∧ m.mountPath = a.mountPath id ∧
      (t.detaching id = none → (.mount id, m.nbdDevice) ∈ t.holdings ∧ a.mountPath id ∈ t.mounted)
  tty : ∀ {id tty}, t.ttySessions id = some tty →
    t.Entered id ∧ (tty.stopped = true ↔ t.detaching id ≠ none) ∧
      (t.detaching id = none → (.tty id, tty.device) ∈ t.holdings)
  one : ∀ {id m}, t.mounts id = some m → t.ttySessions id = none
  mounted : ∀ {id}, a.mountPath id ∈ t.mounted → IsUUID id → id ∈ t.started ∧
    (t.starting id = none → (t.mounts id).isSome ∧ t.detaching id = none)
  starting : ∀ {id k}, t.starting id = some k → id ∈ t.started
  detaching : ∀ {id k}, t.detaching id = some k → t.Entered id
  uuid : ∀ {id}, id ∈ t.started → IsUUID id

/-- What the request in a slot relies on while others run. -/
structure Keeps (a : App) (slot : Nat) (t t' : Ledger) : Prop where
  holdings : ∀ d, (Holder.request slot, d) ∈ t'.holdings ↔ (Holder.request slot, d) ∈ t.holdings
  starting : ∀ {id}, t.starting id = some slot → t'.starting id = some slot ∧
    (a.mountPath id ∈ t'.mounted ↔ a.mountPath id ∈ t.mounted)
  entered : ∀ {id}, t.Entered id → t'.Entered id ∧ (∀ m, t'.mounts id = some m → t.mounts id = some m) ∧
    ∀ tty', t'.ttySessions id = some tty' →
      ∃ tty, t.ttySessions id = some tty ∧ tty'.device = tty.device
  detaching : ∀ id, t'.detaching id = some slot ↔ t.detaching id = some slot
  mine : ∀ {id}, t.detaching id = some slot →
    t'.mounts id = t.mounts id ∧ t'.ttySessions id = t.ttySessions id ∧
      ∀ d, ((Holder.mount id, d) ∈ t'.holdings ↔ (Holder.mount id, d) ∈ t.holdings) ∧
        ((Holder.tty id, d) ∈ t'.holdings ↔ (Holder.tty id, d) ∈ t.holdings)

theorem Keeps.refl (a : App) (slot : Nat) (t : Ledger) : Keeps a slot t t where
  holdings := fun _ => Iff.rfl
  starting := fun h => ⟨h, Iff.rfl⟩
  entered := fun h => ⟨h, fun _ => id, fun tty h => ⟨tty, h, rfl⟩⟩
  detaching := fun _ => Iff.rfl
  mine := fun _ => ⟨rfl, rfl, fun _ => ⟨Iff.rfl, Iff.rfl⟩⟩

theorem Keeps.trans {a : App} {slot : Nat} {t t₁ t₂ : Ledger} (h : Keeps a slot t t₁)
    (h' : Keeps a slot t₁ t₂) : Keeps a slot t t₂ where
  holdings := fun d => (h'.holdings d).trans (h.holdings d)
  starting := fun hid =>
    have h₁ := h.starting hid
    have h₂ := h'.starting h₁.1
    ⟨h₂.1, h₂.2.trans h₁.2⟩
  entered := fun hid => by
    obtain ⟨he, hm, htty⟩ := h.entered hid
    obtain ⟨he', hm', htty'⟩ := h'.entered he
    refine ⟨he', fun m hmount => hm m (hm' m hmount), fun tty'' hsome => ?_⟩
    obtain ⟨tty', hsome', hdev'⟩ := htty' tty'' hsome
    obtain ⟨tty, hsome, hdev⟩ := htty tty' hsome'
    exact ⟨tty, hsome, hdev'.trans hdev⟩
  detaching := fun id => (h'.detaching id).trans (h.detaching id)
  mine := fun hid =>
    have h₁ := h.mine hid
    have h₂ := h'.mine ((h.detaching _).mpr hid)
    ⟨h₂.1.trans h₁.1, h₂.2.1.trans h₁.2.1, fun d =>
      ⟨(h₂.2.2 d).1.trans (h₁.2.2 d).1, (h₂.2.2 d).2.trans (h₁.2.2 d).2⟩⟩

/-- A step of the request in a slot: the books stay right, and the others keep what they rely on. -/
structure Fair (a : App) (own : Text → Prop) (slot : Nat) (t t' : Ledger) : Prop where
  books : Books a own t'
  others : ∀ slot', slot' ≠ slot → Keeps a slot' t t'

theorem mem_hand {src dst h : Holder} {holdings : List (Holder × Text)} :
    (h, d') ∈ hand src dst d holdings ↔
      (h = dst ∧ d' = d ∧ (src, d) ∈ holdings) ∨ ((h, d') ∈ holdings ∧ ¬ (h = src ∧ d' = d)) := by
  rw [hand, List.mem_map]
  constructor
  · rintro ⟨⟨g, e⟩, hmem, heq⟩
    split at heq
    · rename_i hsrc
      obtain ⟨rfl, rfl⟩ := Prod.mk.inj heq
      exact Or.inl ⟨rfl, rfl, hsrc ▸ hmem⟩
    · rename_i hsrc
      obtain ⟨rfl, rfl⟩ := Prod.mk.inj heq
      exact Or.inr ⟨hmem, fun h => hsrc (by rw [h.1, h.2])⟩
  · rintro (⟨rfl, rfl, hmem⟩ | ⟨hmem, hsrc⟩)
    · exact ⟨_, hmem, if_pos rfl⟩
    · exact ⟨_, hmem, if_neg fun h => hsrc (Prod.mk.inj h)⟩

/-- Whoever is not concerned holds the same as before. -/
theorem mem_hand_of_ne {src dst h : Holder} (hsrc : h ≠ src) (hdst : h ≠ dst)
    {holdings : List (Holder × Text)} : (h, d') ∈ hand src dst d holdings ↔ (h, d') ∈ holdings := by
  rw [mem_hand]
  constructor
  · rintro (⟨h, -⟩ | ⟨hmem, -⟩)
    · exact absurd h hdst
    · exact hmem
  · exact fun hmem => Or.inr ⟨hmem, fun h => hsrc h.1⟩

theorem map_snd_hand (src dst : Holder) (d : Text) (holdings : List (Holder × Text)) :
    (hand src dst d holdings).map Prod.snd = holdings.map Prod.snd := by
  rw [hand, List.map_map]
  refine List.map_congr_left fun e _ => ?_
  simp only [Function.comp_apply]
  split
  · rename_i h
    rw [h]
  · rfl

section Steps

variable {a : App} {own : Text → Prop} {slot : Nat} {t : Ledger}

/-- A device has one holder. -/
theorem Books.unique (hb : Books a own t) {h h' : Holder} (hold : (h, d) ∈ t.holdings)
    (hold' : (h', d) ∈ t.holdings) : h = h' :=
  congrArg Prod.fst (List.inj_on_of_nodup_map hb.nodup hold hold' rfl)

theorem Books.used_hand (hb : Books a own t) (src dst : Holder) (d d' : Text) :
    d' ∈ t.used ↔ ∃ h, (h, d') ∈ hand src dst d t.holdings := by
  have hmem : ∀ l : List (Holder × Text), (∃ h, (h, d') ∈ l) ↔ d' ∈ l.map Prod.snd := by simp
  rw [hb.used d', hmem, hmem, map_snd_hand]

theorem Books.nodup_hand (hb : Books a own t) (src dst : Holder) (d : Text) :
    ((hand src dst d t.holdings).map Prod.snd).Nodup := by
  rw [map_snd_hand]
  exact hb.nodup

/-- A device that is not in use is allocated. -/
theorem Books.allocate (hb : Books a own t) (hfree : d ∉ t.used) (hown : own d) :
    Fair a own slot t { t with used := insert d t.used, holdings := (.request slot, d) :: t.holdings } := by
  constructor
  · exact
      { hb with
        own := by simpa using ⟨hown, hb.own⟩
        used := fun d' => by
          simp only [Finset.mem_insert, List.mem_cons, hb.used d']
          constructor
          · rintro (rfl | ⟨h, hmem⟩)
            · exact ⟨_, Or.inl rfl⟩
            · exact ⟨h, Or.inr hmem⟩
          · rintro ⟨h, heq | hmem⟩
            · exact Or.inl (Prod.mk.inj heq).2
            · exact Or.inr ⟨h, hmem⟩
        nodup := by
          refine List.nodup_cons.mpr ⟨fun hmem => hfree ?_, hb.nodup⟩
          obtain ⟨e, he, rfl⟩ := List.mem_map.mp hmem
          exact (hb.used _).mpr ⟨e.1, he⟩
        ofMount := fun hmem => hb.ofMount (by simpa using hmem)
        ofTTY := fun hmem => hb.ofTTY (by simpa using hmem)
        mount := fun hm =>
          have h := hb.mount hm
          ⟨h.1, h.2.1, fun hd => ⟨List.mem_cons_of_mem _ (h.2.2 hd).1, (h.2.2 hd).2⟩⟩
        tty := fun htty =>
          have h := hb.tty htty
          ⟨h.1, h.2.1, fun hd => List.mem_cons_of_mem _ (h.2.2 hd)⟩ }
  · intro slot' hne
    exact
      { Keeps.refl a slot' t with
        holdings := fun d' => by simp [hne]
        mine := fun _ => ⟨rfl, rfl, fun d' => by simp⟩ }

theorem mem_release {h : Holder} :
    (h, d') ∈ (t.release slot d).holdings ↔ (h, d') ∈ t.holdings ∧ ¬ (d' = d ∧ t.Frees slot h) := by
  refine List.mem_filter.trans ?_
  rw [decide_eq_true_iff]

/-- A device is released by a request that may do so. -/
theorem Books.release (hb : Books a own t) {h : Holder} (hold : (h, d) ∈ t.holdings)
    (hfree : t.Frees slot h) : Fair a own slot t (t.release slot d) := by
  have hkeep : ∀ {g d'}, ¬ t.Frees slot g → ((g, d') ∈ (t.release slot d).holdings ↔ (g, d') ∈ t.holdings) :=
    fun hnot => mem_release.trans ⟨And.left, fun hin => ⟨hin, fun h => hnot h.2⟩⟩
  constructor
  · refine { hb with
      own := fun d' h => hb.own d' (Finset.mem_of_mem_erase h), used := ?_, nodup := ?_, ofMount := ?_
      ofTTY := ?_, mount := ?_, tty := ?_ }
    · intro d'
      rw [show (t.release slot d).used = t.used.erase d from rfl, Finset.mem_erase, hb.used d']
      constructor
      · rintro ⟨hne, g, hin⟩
        exact ⟨g, mem_release.mpr ⟨hin, fun h => hne h.1⟩⟩
      · rintro ⟨g, hin⟩
        obtain ⟨hin, hnot⟩ := mem_release.mp hin
        refine ⟨fun hd => hnot ⟨hd, ?_⟩, g, hin⟩
        rw [hd] at hin
        rw [hb.unique hin hold]
        exact hfree
    · exact hb.nodup.sublist (List.filter_sublist.map _)
    · exact fun hmem => hb.ofMount (mem_release.mp hmem).1
    · exact fun hmem => hb.ofTTY (mem_release.mp hmem).1
    · intro id m hm
      obtain ⟨he, hp, hh⟩ := hb.mount hm
      refine ⟨he, hp, fun hnone => ⟨(hkeep fun hf => ?_).mpr (hh hnone).1, (hh hnone).2⟩⟩
      cases hnone.symm.trans hf
    · intro id tty htty
      obtain ⟨he, hs, hh⟩ := hb.tty htty
      refine ⟨he, hs, fun hnone => (hkeep fun hf => ?_).mpr (hh hnone)⟩
      cases hnone.symm.trans hf
  · intro slot' hne
    refine
      { Keeps.refl a slot' t with
        holdings := fun d' => hkeep hne
        mine := fun {id} hid => ⟨rfl, rfl, fun d' => ?_⟩ }
    have hnot : t.detaching id ≠ some slot := fun h => hne (Option.some.inj (hid.symm.trans h))
    exact ⟨hkeep hnot, hkeep hnot⟩

/-- What is known of a session that a request is starting. -/
theorem Books.of_starting (hb : Books a own t) (h : t.starting id = some slot) :
    t.mounts id = none ∧ t.ttySessions id = none ∧ t.detaching id = none := by
  have hnot : ¬ t.Entered id := fun he => by rw [he.2] at h; cases h
  refine ⟨?_, ?_, ?_⟩
  · exact Option.eq_none_iff_forall_not_mem.mpr fun m hm => hnot (hb.mount hm).1
  · exact Option.eq_none_iff_forall_not_mem.mpr fun tty htty => hnot (hb.tty htty).1
  · exact Option.eq_none_iff_forall_not_mem.mpr fun k hk => hnot (hb.detaching hk)

/-- A session starts. -/
theorem Books.start (hb : Books a own t) (huuid : IsUUID id) (hnew : id ∉ t.started) :
    Fair a own slot t { t with
      started := insert id t.started, starting := update t.starting id (some slot) } := by
  have hold : ∀ {id'}, id' ∈ t.started → id' ≠ id := by
    rintro id' hin rfl
    exact hnew hin
  have hoff : ∀ {id'}, id' ∈ t.started →
      update t.starting id (some slot) id' = t.starting id' :=
    fun hin => update_of_ne (hold hin) _ _
  have hentered : ∀ {id'}, t.Entered id' → Ledger.Entered { t with
      started := insert id t.started, starting := update t.starting id (some slot) } id' :=
    fun he => ⟨Finset.mem_insert_of_mem he.1, (hoff he.1).trans he.2⟩
  constructor
  · exact
      { hb with
        mount := fun hm => ⟨hentered (hb.mount hm).1, (hb.mount hm).2⟩
        tty := fun htty => ⟨hentered (hb.tty htty).1, (hb.tty htty).2⟩
        mounted := fun hin huuid' => by
          obtain ⟨hstarted, hrest⟩ := hb.mounted hin huuid'
          refine ⟨Finset.mem_insert_of_mem hstarted, fun hnone => hrest ?_⟩
          exact (hoff hstarted).symm.trans hnone
        starting := fun {id' k} hk => by
          by_cases hid : id' = id
          · exact hid ▸ Finset.mem_insert_self ..
          · refine Finset.mem_insert_of_mem (hb.starting (k := k) ?_)
            exact (update_of_ne hid _ _).symm.trans hk
        detaching := fun hk => hentered (hb.detaching hk)
        uuid := fun hin => by
          rcases Finset.mem_insert.mp hin with rfl | hin
          · exact huuid
          · exact hb.uuid hin }
  · intro slot' _
    exact
      { Keeps.refl a slot' t with
        starting := fun hid => ⟨(hoff (hb.starting hid)).trans hid, Iff.rfl⟩
        entered := fun he => ⟨hentered he, fun _ h => h, fun tty h => ⟨tty, h, rfl⟩⟩ }

/-- A request mounts the session it is starting. -/
theorem Books.mountOwn (hb : Books a own t) (hstart : t.starting id = some slot) :
    Fair a own slot t { t with mounted := insert (a.mountPath id) t.mounted } := by
  have huuid := hb.uuid (hb.starting hstart)
  have hother : ∀ {id'}, IsUUID id' → id' ≠ id →
      (a.mountPath id' ∈ insert (a.mountPath id) t.mounted ↔ a.mountPath id' ∈ t.mounted) := by
    intro id' huuid' hne
    rw [Finset.mem_insert, or_iff_right]
    exact fun h => hne (mountPath_inj huuid' huuid h)
  constructor
  · exact
      { hb with
        mount := fun hm =>
          have h := hb.mount hm
          ⟨h.1, h.2.1, fun hd => ⟨(h.2.2 hd).1, Finset.mem_insert_of_mem (h.2.2 hd).2⟩⟩
        mounted := fun {id'} hin huuid' => by
          by_cases hid : id' = id
          · subst hid
            refine ⟨hb.starting hstart, fun hnone => ?_⟩
            cases hstart.symm.trans hnone
          · exact hb.mounted ((hother huuid' hid).mp hin) huuid' }
  · intro slot' hne
    refine { Keeps.refl a slot' t with starting := fun {id'} hid => ⟨hid, ?_⟩ }
    refine hother (hb.uuid (hb.starting hid)) ?_
    rintro rfl
    exact hne (Option.some.inj (hid.symm.trans hstart))

/-- Whatever happens to mount points of no session. -/
theorem Books.elsewhere (hb : Books a own t) (mounted : Finset Text)
    (h : ∀ id, IsUUID id → (a.mountPath id ∈ mounted ↔ a.mountPath id ∈ t.mounted)) :
    Fair a own slot t { t with mounted } := by
  constructor
  · exact
      { hb with
        mount := fun hm =>
          have h' := hb.mount hm
          ⟨h'.1, h'.2.1, fun hd => ⟨(h'.2.2 hd).1, (h _ (hb.uuid h'.1.1)).mpr (h'.2.2 hd).2⟩⟩
        mounted := fun hin huuid => hb.mounted ((h _ huuid).mp hin) huuid }
  · intro slot' _
    exact
      { Keeps.refl a slot' t with
        starting := fun hid => ⟨hid, h _ (hb.uuid (hb.starting hid))⟩ }

/-- Once a request has entered its session, no other is affected. -/
theorem Books.enter_others (hb : Books a own t) (t' : Ledger) {h : Holder}
    (hstart : t.starting id = some slot) (hstarted : t'.started = t.started)
    (hstarting : t'.starting = update t.starting id none) (hdetaching : t'.detaching = t.detaching)
    (hmounted : t'.mounted = t.mounted) (hmounts : ∀ id', id' ≠ id → t'.mounts id' = t.mounts id')
    (htty : ∀ id', id' ≠ id → t'.ttySessions id' = t.ttySessions id')
    (hholdings : t'.holdings = hand (.request slot) h d t.holdings) (hh : h = .mount id ∨ h = .tty id)
    {slot' : Nat} (hne : slot' ≠ slot) : Keeps a slot' t t' := by
  have hother : ∀ {id'}, t.Entered id' → id' ≠ id := by
    rintro id' he rfl
    cases hstart.symm.trans he.2
  have hhand : ∀ {g d'}, g ≠ .request slot → g ≠ .mount id → g ≠ .tty id →
      ((g, d') ∈ t'.holdings ↔ (g, d') ∈ t.holdings) := by
    intro g d' h₁ h₂ h₃
    rw [hholdings]
    exact mem_hand_of_ne h₁ (by rcases hh with rfl | rfl <;> assumption)
  refine ⟨fun d' => hhand (by simpa using hne) (by simp) (by simp), ?_, ?_,
    fun id' => by rw [hdetaching], fun {id'} hid => ?_⟩
  · intro id' hid
    have hid' : id' ≠ id := by
      rintro rfl
      exact hne (Option.some.inj (hid.symm.trans hstart))
    rw [hstarting, update_of_ne hid', hmounted]
    exact ⟨hid, Iff.rfl⟩
  · intro id' he
    have hid' := hother he
    rw [Ledger.Entered, hstarted, hstarting, update_of_ne hid', hmounts id' hid',
      htty id' hid']
    exact ⟨he, fun m hm => hm, fun tty h => ⟨tty, h, rfl⟩⟩
  · have hid' := hother (hb.detaching hid)
    refine ⟨hmounts id' hid', htty id' hid', fun d' => ⟨?_, ?_⟩⟩
    · exact hhand (by simp) (by simpa using hid') (by simp)
    · exact hhand (by simp) (by simp) (by simpa using hid')

theorem Ledger.Entered.update (he : t.Entered id') {t' : Ledger} (hstarted : t'.started = t.started)
    (hstarting : t'.starting = update t.starting id none) : t'.Entered id' := by
  refine ⟨hstarted ▸ he.1, ?_⟩
  rw [hstarting]
  by_cases hid : id' = id
  · rw [hid, update_self]
  · rw [update_of_ne hid]
    exact he.2

/-- What stays of the sessions being started when one of them is entered. -/
theorem Books.starting_update (hb : Books a own t) {k : Nat}
    (h : update t.starting id none id' = some k) : id' ∈ t.started := by
  by_cases hid : id' = id
  · rw [hid, update_self] at h
    cases h
  · rw [update_of_ne hid] at h
    exact hb.starting h

/-- A request enters the session it started, mounted, with a device it holds. -/
theorem Books.enterMount (hb : Books a own t) (hstart : t.starting id = some slot)
    (hold : (.request slot, d) ∈ t.holdings) (hpath : a.mountPath id ∈ t.mounted) :
    Fair a own slot t (t.enterMount slot id ⟨id, d, a.mountPath id⟩) := by
  obtain ⟨hmount, htty, hdetach⟩ := hb.of_starting hstart
  have hentered : ∀ {id'}, t.Entered id' →
      (t.enterMount slot id ⟨id, d, a.mountPath id⟩).Entered id' := fun he => he.update rfl rfl
  have hat : (t.enterMount slot id ⟨id, d, a.mountPath id⟩).mounts id =
      some ⟨id, d, a.mountPath id⟩ := update_self ..
  have hoff : ∀ {id'}, id' ≠ id →
      (t.enterMount slot id ⟨id, d, a.mountPath id⟩).mounts id' = t.mounts id' :=
    fun h => update_of_ne h _ _
  have htty' : ∀ {id' d'}, (.tty id', d') ∈ (t.enterMount slot id ⟨id, d, a.mountPath id⟩).holdings ↔
      (.tty id', d') ∈ t.holdings := mem_hand_of_ne (by simp) (by simp)
  have hmount' : ∀ {id' d'}, id' ≠ id →
      ((.mount id', d') ∈ (t.enterMount slot id ⟨id, d, a.mountPath id⟩).holdings ↔
        (.mount id', d') ∈ t.holdings) :=
    fun h => mem_hand_of_ne (by simp) (by simpa using h)
  constructor
  · refine ⟨hb.own, hb.used_hand _ _ _, hb.nodup_hand _ _ _, ?_, fun h => hb.ofTTY (htty'.mp h), ?_, ?_, ?_, ?_,
      hb.starting_update, fun h => hentered (hb.detaching h), hb.uuid⟩
    · intro id' d' hmem
      by_cases hid : id' = id
      · subst hid
        rcases mem_hand.mp hmem with ⟨-, rfl, -⟩ | ⟨hmem, -⟩
        · exact ⟨_, hat, rfl⟩
        · obtain ⟨m, hm, -⟩ := hb.ofMount hmem
          cases hmount.symm.trans hm
      · rw [hoff hid]
        exact hb.ofMount ((hmount' hid).mp hmem)
    · intro id' m hm
      by_cases hid : id' = id
      · subst hid
        obtain rfl := Option.some.inj (hat.symm.trans hm)
        refine ⟨⟨hb.starting hstart, update_self ..⟩, rfl, fun _ => ⟨?_, hpath⟩⟩
        exact mem_hand.mpr (Or.inl ⟨rfl, rfl, hold⟩)
      · rw [hoff hid] at hm
        obtain ⟨he, hp, hh⟩ := hb.mount hm
        exact ⟨hentered he, hp, fun h => ⟨(hmount' hid).mpr (hh h).1, (hh h).2⟩⟩
    · intro id' tty h
      obtain ⟨he, hs, hh⟩ := hb.tty h
      exact ⟨hentered he, hs, fun h => htty'.mpr (hh h)⟩
    · intro id' m hm
      by_cases hid : id' = id
      · rw [hid]
        exact htty
      · rw [hoff hid] at hm
        exact hb.one hm
    · intro id' hin huuid
      obtain ⟨hstarted, hrest⟩ := hb.mounted hin huuid
      refine ⟨hstarted, fun hnone => ?_⟩
      by_cases hid : id' = id
      · rw [hid, hat]
        exact ⟨rfl, hdetach⟩
      · rw [hoff hid]
        exact hrest ((update_of_ne hid _ _).symm.trans hnone)
  · intro slot' hne
    exact hb.enter_others (t.enterMount slot id ⟨id, d, a.mountPath id⟩) hstart rfl rfl rfl rfl
      (fun _ h => hoff h) (fun _ _ => rfl) rfl (Or.inl rfl) hne

/-- A request enters the tty session it started, with a device it holds. -/
theorem Books.enterTTY (hb : Books a own t) {tty : TTYSession} (hstart : t.starting id = some slot)
    (hold : (.request slot, tty.device) ∈ t.holdings) (hnew : tty.stopped = false)
    (hpath : a.mountPath id ∉ t.mounted) : Fair a own slot t (t.enterTTY slot id tty) := by
  obtain ⟨hmount, htty, hdetach⟩ := hb.of_starting hstart
  have hentered : ∀ {id'}, t.Entered id' → (t.enterTTY slot id tty).Entered id' :=
    fun he => he.update rfl rfl
  have hat : (t.enterTTY slot id tty).ttySessions id = some tty := update_self ..
  have hoff : ∀ {id'}, id' ≠ id →
      (t.enterTTY slot id tty).ttySessions id' = t.ttySessions id' :=
    fun h => update_of_ne h _ _
  have hmount' : ∀ {id' d'}, (.mount id', d') ∈ (t.enterTTY slot id tty).holdings ↔
      (.mount id', d') ∈ t.holdings := mem_hand_of_ne (by simp) (by simp)
  have htty' : ∀ {id' d'}, id' ≠ id →
      ((.tty id', d') ∈ (t.enterTTY slot id tty).holdings ↔ (.tty id', d') ∈ t.holdings) :=
    fun h => mem_hand_of_ne (by simp) (by simpa using h)
  constructor
  · refine ⟨hb.own, hb.used_hand _ _ _, hb.nodup_hand _ _ _, fun h => hb.ofMount (hmount'.mp h), ?_, ?_, ?_, ?_, ?_,
      hb.starting_update, fun h => hentered (hb.detaching h), hb.uuid⟩
    · intro id' d' hmem
      by_cases hid : id' = id
      · subst hid
        rcases mem_hand.mp hmem with ⟨-, rfl, -⟩ | ⟨hmem, -⟩
        · exact Or.inl ⟨_, hat, rfl⟩
        · rcases hb.ofTTY hmem with ⟨tty', h, -⟩ | h
          · cases htty.symm.trans h
          · exact absurd hdetach h
      · rw [hoff hid]
        exact hb.ofTTY ((htty' hid).mp hmem)
    · intro id' m hm
      obtain ⟨he, hp, hh⟩ := hb.mount hm
      exact ⟨hentered he, hp, fun h => ⟨hmount'.mpr (hh h).1, (hh h).2⟩⟩
    · intro id' tty' h
      by_cases hid : id' = id
      · subst hid
        obtain rfl := Option.some.inj (hat.symm.trans h)
        refine ⟨⟨hb.starting hstart, update_self ..⟩, ?_, fun _ => ?_⟩
        · exact iff_of_false (by simp [hnew]) (not_not.mpr hdetach)
        · exact mem_hand.mpr (Or.inl ⟨rfl, rfl, hold⟩)
      · rw [hoff hid] at h
        obtain ⟨he, hs, hh⟩ := hb.tty h
        exact ⟨hentered he, hs, fun h => (htty' hid).mpr (hh h)⟩
    · intro id' m hm
      have hid : id' ≠ id := by
        rintro rfl
        cases hmount.symm.trans hm
      rw [hoff hid]
      exact hb.one hm
    · intro id' hin huuid
      obtain ⟨hstarted, hrest⟩ := hb.mounted hin huuid
      refine ⟨hstarted, fun hnone => ?_⟩
      have hid : id' ≠ id := by
        rintro rfl
        exact hpath hin
      exact hrest ((update_of_ne hid _ _).symm.trans hnone)
  · intro slot' hne
    exact hb.enter_others (t.enterTTY slot id tty) hstart rfl rfl rfl rfl (fun _ _ => rfl)
      (fun _ h => hoff h) rfl (Or.inr rfl) hne

/-- An entered session passes to the request that detaches it. -/
theorem Books.detach_others (t' : Ledger) (he : t.Entered id) (hnone : t.detaching id = none)
    (hat : t'.detaching id = some slot) (hoff : ∀ id', id' ≠ id → t'.detaching id' = t.detaching id')
    (hstarted : t'.started = t.started) (hstarting : t'.starting = t.starting)
    (hholdings : t'.holdings = t.holdings) (hmounts : t'.mounts = t.mounts)
    (htty : ∀ id', id' ≠ id → t'.ttySessions id' = t.ttySessions id')
    (hdevice : ∀ tty', t'.ttySessions id = some tty' →
      ∃ tty, t.ttySessions id = some tty ∧ tty'.device = tty.device)
    (hmounted : ∀ id', id' ≠ id → IsUUID id' → (a.mountPath id' ∈ t'.mounted ↔ a.mountPath id' ∈ t.mounted))
    (hb : Books a own t) {slot' : Nat} (hne : slot' ≠ slot) : Keeps a slot' t t' := by
  refine ⟨fun d => by rw [hholdings], ?_, ?_, ?_, ?_⟩
  · intro id' hid
    have hid' : id' ≠ id := by
      rintro rfl
      cases he.2.symm.trans hid
    exact ⟨hstarting ▸ hid, hmounted id' hid' (hb.uuid (hb.starting hid))⟩
  · intro id' he'
    rw [Ledger.Entered, hstarted, hstarting, hmounts]
    refine ⟨he', fun _ h => h, fun tty' h => ?_⟩
    by_cases hid : id' = id
    · subst hid
      exact hdevice tty' h
    · exact ⟨tty', htty id' hid ▸ h, rfl⟩
  · intro id'
    by_cases hid : id' = id
    · subst hid
      rw [hat, hnone]
      exact iff_of_false (fun h => hne (Option.some.inj h).symm) (by simp)
    · rw [hoff id' hid]
  · intro id' hid
    have hid' : id' ≠ id := by
      rintro rfl
      cases hnone.symm.trans hid
    rw [hmounts, htty id' hid', hholdings]
    exact ⟨rfl, rfl, fun _ => ⟨Iff.rfl, Iff.rfl⟩⟩

/-- What unmounting an entered session does to the sessions that are detached. -/
theorem Books.unmount_detaching (hb : Books a own t) (he : t.Entered id)
    (hin : a.mountPath id ∈ t.mounted) (id' : String) :
    (t.unmount a slot (a.mountPath id)).detaching id' =
      if id' = id then some slot else t.detaching id' := by
  have huuid := hb.uuid he.1
  by_cases hid : id' = id
  · subst hid
    rw [if_pos rfl]
    exact if_pos ⟨((hb.mounted hin huuid).2 he.2).1, rfl⟩
  · rw [if_neg hid]
    refine if_neg ?_
    rintro ⟨hsome, hpath⟩
    obtain ⟨m, hm⟩ := Option.isSome_iff_exists.mp hsome
    exact hid (mountPath_inj (hb.uuid (hb.mount hm).1.1) huuid hpath)

/-- A session that was entered is unmounted. -/
theorem Books.unmount (hb : Books a own t) (he : t.Entered id) (hin : a.mountPath id ∈ t.mounted) :
    Fair a own slot t (t.unmount a slot (a.mountPath id)) := by
  have huuid := hb.uuid he.1
  obtain ⟨hsome, hnone⟩ := (hb.mounted hin huuid).2 he.2
  obtain ⟨m, hm⟩ := Option.isSome_iff_exists.mp hsome
  have hat : (t.unmount a slot (a.mountPath id)).detaching id = some slot := by
    rw [hb.unmount_detaching he hin, if_pos rfl]
  have hoff : ∀ {id'}, id' ≠ id →
      (t.unmount a slot (a.mountPath id)).detaching id' = t.detaching id' := by
    intro id' hid
    rw [hb.unmount_detaching he hin, if_neg hid]
  have hpath : ∀ {id'}, id' ≠ id → IsUUID id' →
      (a.mountPath id' ∈ t.mounted.erase (a.mountPath id) ↔ a.mountPath id' ∈ t.mounted) := by
    intro id' hid huuid'
    rw [Finset.mem_erase, and_iff_right]
    exact fun h => hid (mountPath_inj huuid' huuid h)
  have htty : ∀ {id' tty}, t.ttySessions id' = some tty → id' ≠ id := by
    rintro id' tty htty rfl
    cases (hb.one hm).symm.trans htty
  constructor
  · refine ⟨hb.own, hb.used, hb.nodup, hb.ofMount, ?_, ?_, ?_, hb.one, ?_, hb.starting, ?_, hb.uuid⟩
    · intro id' d hmem
      rcases hb.ofTTY hmem with ⟨tty, hsome, hd⟩ | hd
      · exact Or.inl ⟨tty, hsome, hd⟩
      · rw [hb.unmount_detaching he hin]
        right
        split
        · simp
        · exact hd
    · intro id' m' hm'
      obtain ⟨he', hp, hh⟩ := hb.mount hm'
      refine ⟨he', hp, fun hnone' => ?_⟩
      have hid : id' ≠ id := by
        rintro rfl
        cases hat.symm.trans hnone'
      rw [hoff hid] at hnone'
      exact ⟨(hh hnone').1, (hpath hid (hb.uuid he'.1)).mpr (hh hnone').2⟩
    · intro id' tty hsome
      rw [hoff (htty hsome)]
      exact hb.tty hsome
    · intro id' hin' huuid'
      obtain ⟨hne, hin'⟩ := Finset.mem_erase.mp hin'
      rw [hoff fun h => hne (by rw [h])]
      exact hb.mounted hin' huuid'
    · intro id' k hk
      by_cases hid : id' = id
      · rw [hid]
        exact he
      · rw [hoff hid] at hk
        exact hb.detaching hk
  · intro slot' hne
    exact Books.detach_others (t.unmount a slot (a.mountPath id)) he hnone hat (fun _ => hoff) rfl rfl rfl
      rfl (fun _ _ => rfl) (fun tty h => ⟨tty, h, rfl⟩) (fun _ => hpath) hb hne

/-- The stop of a tty session is claimed. -/
theorem Books.claim (hb : Books a own t) {tty : TTYSession} (htty : t.ttySessions id = some tty)
    (hstop : tty.stopped = false) : Fair a own slot t (t.claim slot id tty) := by
  obtain ⟨he, hs, hold⟩ := hb.tty htty
  have hnone : t.detaching id = none := by
    by_contra h
    rw [hs.mpr h] at hstop
    cases hstop
  have hat : (t.claim slot id tty).detaching id = some slot := update_self ..
  have hoff : ∀ {id'}, id' ≠ id → (t.claim slot id tty).detaching id' = t.detaching id' :=
    fun h => update_of_ne h _ _
  have htat : (t.claim slot id tty).ttySessions id = some { tty with stopped := true } :=
    update_self ..
  have htoff : ∀ {id'}, id' ≠ id → (t.claim slot id tty).ttySessions id' = t.ttySessions id' :=
    fun h => update_of_ne h _ _
  have hmount : ∀ {id' m}, t.mounts id' = some m → id' ≠ id := by
    rintro id' m hm rfl
    cases (hb.one hm).symm.trans htty
  constructor
  · refine ⟨hb.own, hb.used, hb.nodup, hb.ofMount, ?_, ?_, ?_, ?_, ?_, hb.starting, ?_, hb.uuid⟩
    · intro id' d hmem
      by_cases hid : id' = id
      · right
        rw [hid, hat]
        simp
      · rw [htoff hid, hoff hid]
        exact hb.ofTTY hmem
    · intro id' m hm
      rw [hoff (hmount hm)]
      exact hb.mount hm
    · intro id' tty' h
      by_cases hid : id' = id
      · subst hid
        obtain rfl := Option.some.inj (htat.symm.trans h)
        rw [hat]
        exact ⟨he, by simp, by simp⟩
      · rw [htoff hid] at h
        rw [hoff hid]
        exact hb.tty h
    · intro id' m hm
      rw [htoff (hmount hm)]
      exact hb.one hm
    · intro id' hin huuid
      obtain ⟨hstarted, hrest⟩ := hb.mounted hin huuid
      refine ⟨hstarted, fun hentered => ?_⟩
      obtain ⟨m, hm⟩ := Option.isSome_iff_exists.mp (hrest hentered).1
      rw [hoff (hmount hm)]
      exact hrest hentered
    · intro id' k hk
      by_cases hid : id' = id
      · rw [hid]
        exact he
      · rw [hoff hid] at hk
        exact hb.detaching hk
  · intro slot' hne
    refine Books.detach_others (t.claim slot id tty) he hnone hat (fun _ => hoff) rfl rfl rfl rfl
      (fun _ => htoff) (fun tty' h => ⟨tty, htty, ?_⟩) (fun _ _ _ => Iff.rfl) hb hne
    obtain rfl := Option.some.inj (htat.symm.trans h)
    rfl

/-- The entry of a session goes, once its device is released. -/
theorem Books.deleteMount (hb : Books a own t) (hmine : t.detaching id = some slot)
    (hfree : ∀ d, (.mount id, d) ∉ t.holdings) :
    Fair a own slot t { t with mounts := update t.mounts id none } := by
  have hother : ∀ {id' m}, update t.mounts id none id' = some m → t.mounts id' = some m := by
    intro id' m hm
    by_cases hid : id' = id
    · rw [hid, update_self] at hm
      cases hm
    · rwa [update_of_ne hid] at hm
  have hoff : ∀ {id'}, id' ≠ id → update t.mounts id none id' = t.mounts id' :=
    fun h => update_of_ne h _ _
  constructor
  · refine
      { hb with
        ofMount := fun {id' d} hmem => ?_
        mount := fun hm => hb.mount (hother hm)
        one := fun hm => hb.one (hother hm)
        mounted := fun {id'} hin huuid => ?_ }
    · have hid : id' ≠ id := by
        rintro rfl
        exact hfree d hmem
      have h := hb.ofMount hmem
      rwa [← hoff hid] at h
    · obtain ⟨hstarted, hrest⟩ := hb.mounted hin huuid
      refine ⟨hstarted, fun hnone => ?_⟩
      have hid : id' ≠ id := by
        rintro rfl
        cases (hrest hnone).2.symm.trans hmine
      have h := hrest hnone
      rwa [← hoff hid] at h
  · intro slot' hne
    refine
      { Keeps.refl a slot' t with
        entered := fun he => ⟨he, fun m hm => hother hm, fun tty h => ⟨tty, h, rfl⟩⟩
        mine := fun {id'} hid => ⟨hoff ?_, rfl, fun _ => ⟨Iff.rfl, Iff.rfl⟩⟩ }
    rintro rfl
    exact hne (Option.some.inj (hid.symm.trans hmine))

/-- The entry of a tty session goes, released or not. -/
theorem Books.deleteTTY (hb : Books a own t) (hmine : t.detaching id = some slot) :
    Fair a own slot t { t with ttySessions := update t.ttySessions id none } := by
  have hother : ∀ {id' tty}, update t.ttySessions id none id' = some tty →
      t.ttySessions id' = some tty := by
    intro id' tty h
    by_cases hid : id' = id
    · rw [hid, update_self] at h
      cases h
    · rwa [update_of_ne hid] at h
  have hoff : ∀ {id'}, id' ≠ id → update t.ttySessions id none id' = t.ttySessions id' :=
    fun h => update_of_ne h _ _
  constructor
  · refine
      { hb with
        ofTTY := fun {id' d} hmem => ?_
        tty := fun h => hb.tty (hother h)
        one := fun {id' m} hm => ?_ }
    · by_cases hid : id' = id
      · right
        rw [hid, hmine]
        simp
      · have h := hb.ofTTY hmem
        rwa [← hoff hid] at h
    · by_cases hid : id' = id
      · rw [hid]
        exact update_self ..
      · exact (hoff hid).trans (hb.one hm)
  · intro slot' hne
    refine
      { Keeps.refl a slot' t with
        entered := fun he => ⟨he, fun _ h => h, fun tty h => ⟨tty, hother h, rfl⟩⟩
        mine := fun {id'} hid => ⟨rfl, hoff ?_, fun _ => ⟨Iff.rfl, Iff.rfl⟩⟩ }
    rintro rfl
    exact hne (Option.some.inj (hid.symm.trans hmine))

end Steps

end OrcaBlocks.Services
