/-
# OrcaBlocks.Services.NbdPool — whose the NBD devices are, over whole runs.

Two questions about the devices of `usedNBDDevices`, asked of EVERY reachable state of interleaved requests.

* **Sharing.** The nodes of one host see the same `/dev/nbd*` and keep apart by ranges. Each node's set knows
  only its own sessions, and `restore_firecracker_device` is taken without looking at the range, so two nodes
  stay apart as long as no request names a device of another node (`nbd_device_has_one_holder`).
* **Accounting.** On one node the devices in use are those of its entries and of the requests in progress,
  except while a request has released a device and not yet deleted its entry. Two commands break this when they
  fail, `sync` or `blockdev --flushbufs` in the stop of a tty session and `nbd-client -d` for a mounted one
  (`nbd_devices_accounted`).
-/
import OrcaBlocks.Services.Drives
import OrcaBlocks.Services.NbdDevices

namespace OrcaBlocks.Services

open OrcaBlocks.Lib Node
open OrcaBlocks.Storage (formatInt formatInt_injective)

/-! ## Several nodes on one host -/

/-- The numbers of a node's devices. -/
def App.InRange (a : App) (i : Int) : Prop :=
  a.nbdDeviceStart.toInt ≤ i ∧ i < (a.nbdDeviceStart + a.nbdDeviceCount).toInt

theorem mem_devices {a : App} {d : Text} (h : d ∈ a.devices) :
    ∃ i : Int64, a.InRange i.toInt ∧ d = a.nbdDevicePrefix ++ utf8 (formatInt i) := by
  obtain ⟨k, hk, rfl⟩ := List.mem_map.mp h
  refine ⟨a.nbdDeviceStart + Int64.ofNat k, ?_, rfl⟩
  have hlt : (k : Int) < (a.nbdDeviceStart + a.nbdDeviceCount).toInt - a.nbdDeviceStart.toInt := by
    have := List.mem_range.mp hk
    omega
  have hstop := (a.nbdDeviceStart + a.nbdDeviceCount).toInt_lt
  have hstart := a.nbdDeviceStart.le_toInt
  -- The loop's sum does not overflow, since it stays below the end of the range.
  have hsum : (a.nbdDeviceStart + Int64.ofNat k).toInt = a.nbdDeviceStart.toInt + k := by
    rw [Int64.toInt_add, Int64.toInt_ofNat', Int.add_bmod_bmod]
    show Int.bmod _ (2 ^ 64) = _
    exact Int.bmod_eq_of_le (by omega) (by omega)
  rw [App.InRange, hsum]
  omega

section Host

variable {κ : Type} [DecidableEq κ]

/-- The requests of one slot of one node of the host. -/
def hostMachine (apps : κ → App) (i : κ × Nat) : Machine nodeSig (κ → Ledger) Answers where
  exec l s o :=
    (((s i.1).exec (apps i.1) i.2 l o).1, Function.update s i.1 ((s i.1).exec (apps i.1) i.2 l o).2)
  allowed l s o := (ledgerMachine (apps i.1) False i.2).allowed l (s i.1) o

/-- The requests a node may be sent: `prefers` says which devices they may ask for. -/
def hostStarts (apps : κ → App) (prefers : κ → Text → Prop) (i : κ × Nat)
    (t : Prog nodeSig (Except NodeErr Unit)) : Prop :=
  ∃ r : NodeRequest, (r.prefers ≠ [] → prefers i.1 r.prefers) ∧ t = (serveNode (apps i.1) r).run

/-- A host on which requests are served, from nodes that hold nothing. -/
abbrev HostReaches (apps : κ → App) (prefers : κ → Text → Prop)
    (p : Pool (κ × Nat) nodeSig (κ → Ledger) (Except NodeErr Unit)) : Prop :=
  Pool.Reachable (hostMachine apps) (hostStarts apps prefers) (fun s => s = fun _ => .empty) p

variable {apps : κ → App} {prefers : κ → Text → Prop}

/-- A device a node may come to hold. -/
def HostOwn (apps : κ → App) (prefers : κ → Text → Prop) (n : κ) (d : Text) : Prop :=
  d ∈ (apps n).devices ∨ prefers n d

/-- The books of every node stay right. -/
theorem host_books {p : Pool (κ × Nat) nodeSig (κ → Ledger) (Except NodeErr Unit)}
    (hp : HostReaches apps prefers p) (n : κ) : Books (apps n) (HostOwn apps prefers n) (p.state n) := by
  have hsettled := Pool.Reachable.settled (M := hostMachine apps)
    (I := fun s => ∀ n, Books (apps n) (HostOwn apps prefers n) (s n))
    (R := fun i s s' => Keeps (apps i.1) i.2 (s i.1) (s' i.1))
    (G := fun i s s' => (∀ k, k ≠ i.2 → Keeps (apps i.1) k (s i.1) (s' i.1)) ∧ ∀ m, m ≠ i.1 → s' m = s m)
    (fun i _ _ _ h h' => h.trans h') (fun i s => Keeps.refl _ _ _) ?_
    (fun i _ _ hk (h : Idle False i.2 _) => h.keeps hk) ?_ ?_ hp
  · exact hsettled.1 n
  · rintro ⟨n, k⟩ ⟨m, j⟩ hne s s' ⟨hsame, hother⟩
    by_cases hm : m = n
    · subst hm
      exact hsame j fun h => hne (by rw [h])
    · show Keeps (apps m) j (s m) (s' m)
      rw [hother m hm]
      exact Keeps.refl _ _ _
  · rintro ⟨n, k⟩ t ⟨r, hpref, rfl⟩ s _ hidle
    have hserve := within_serveNode (a := apps n) r (fun d hd => Or.inl hd) (fun h => Or.inr (hpref h)) hidle
    exact WpRG.component (J := fun n => Books (apps n) (HostOwn apps prefers n)) (fun _ _ _ => rfl)
      (fun _ _ _ h => h) rfl hserve
  · rintro s rfl
    exact ⟨fun n => books_empty _ _, fun i => idle_empty _ _⟩

/-- **No NBD device has two holders.** Take nodes with one device prefix and disjoint ranges, and requests of
which none asks for a device that lies in another node's range or is asked for at another node. At any time of
any interleaving, whatever fails, each device is held by at most one holder on at most one node: a request in
progress, a mounted session or a tty session. Every session that nobody is ending holds the device of its
entry. -/
theorem nbd_device_has_one_holder
    (hnames : ∀ n m, (apps n).nbdDevicePrefix = (apps m).nbdDevicePrefix)
    (hrange : ∀ n m, n ≠ m → ∀ i, (apps n).InRange i → ¬ (apps m).InRange i)
    (hprefers : ∀ n m, n ≠ m → ∀ d, prefers n d → d ∉ (apps m).devices ∧ ¬ prefers m d)
    {p : Pool (κ × Nat) nodeSig (κ → Ledger) (Except NodeErr Unit)} (hp : HostReaches apps prefers p) :
    (∀ n, ((p.state n).holdings.map Prod.snd).Nodup) ∧
    (∀ n m h h' d, (h, d) ∈ (p.state n).holdings → (h', d) ∈ (p.state m).holdings → n = m ∧ h = h') ∧
    ∀ n id, (p.state n).detaching id = none →
      (∀ e, (p.state n).mounts id = some e → (.mount id, e.nbdDevice) ∈ (p.state n).holdings) ∧
      ∀ e, (p.state n).ttySessions id = some e → (.tty id, e.device) ∈ (p.state n).holdings := by
  have hown : ∀ n m d, HostOwn apps prefers n d → HostOwn apps prefers m d → n = m := by
    intro n m d hn hm
    by_contra hne
    rcases hn with hn | hn
    · rcases hm with hm | hm
      · obtain ⟨i, hi, rfl⟩ := mem_devices hn
        obtain ⟨j, hj, heq⟩ := mem_devices hm
        rw [hnames n m] at heq
        obtain rfl := formatInt_injective (utf8_injective (List.append_cancel_left heq))
        exact hrange n m hne _ hi hj
      · exact (hprefers m n (Ne.symm hne) d hm).1 hn
    · rcases hm with hm | hm
      · exact (hprefers n m hne d hn).1 hm
      · exact (hprefers n m hne d hn).2 hm
  refine ⟨fun n => (host_books hp n).nodup, fun n m h h' d hn hm => ?_, fun n id hnone => ⟨?_, ?_⟩⟩
  · have hb := host_books hp n
    have hb' := host_books hp m
    obtain rfl := hown n m d (hb.own d ((hb.used d).mpr ⟨h, hn⟩)) (hb'.own d ((hb'.used d).mpr ⟨h', hm⟩))
    exact ⟨rfl, hb.unique hn hm⟩
  · exact fun e he => (((host_books hp n).mount he).2.2 hnone).1
  · exact fun e he => ((host_books hp n).tty he).2.2 hnone

end Host

/-! ### Two nodes of the compose file -/

instance {κ : Type} [DecidableEq κ] (apps : κ → App) (i : κ × Nat) (l : Answers) (s : κ → Ledger)
    (o : NodeOp) : Decidable ((hostMachine apps i).allowed l s o) :=
  decidable_of_iff (Plausible l (s i.1) o) ⟨fun h => ⟨h, False.elim⟩, And.left⟩

def nodeTwo : App := composeNode (ascii "node-2") (ascii "localhost:11082") 8

/-- The two nodes; `false` is the first. -/
def composeHost : Bool → App
  | false => nodeOne
  | true => nodeTwo

/-- An outside on which everything succeeds and every device is there. -/
def fairAnswersFor (session : NodeSession) : Answers where
  stat _ := .ok true
  answer
    | .backendStart _ => .ok session
    | o => fairAnswers o

/-- A request to mount a volume. -/
def mountRequest : StartRequest := { runtime := ascii "mounted-fs", volumeID := "vol-1" }

/-- A request for a terminal in an image, on a device of the node's own choice or a given one. -/
def ttyRequest (device : Text) : StartRequest :=
  { runtime := ascii "firecracker", volumeID := "vol-2",
    firecrackerMode := ascii "image-rootfs-tty", restoreDevice := device }

/-- A second session. -/
def otherSession : NodeSession :=
  ⟨"0b8f7a51-3d5e-4c7b-8a42-6f0e9d1c2b3a", ⟨"vol-2", 10737418240, 4194304, "", ""⟩, ""⟩

/-- The host after `node-1` has mounted a volume. -/
def oneMounted : Bool → Ledger :=
  ((hostMachine composeHost (false, 0)).run (fun _ => fairAnswersFor sampleSession)
    (serveNode nodeOne (.start mountRequest)).run fun _ => .empty).2

/-- The host after `node-2` has opened a terminal besides. -/
def twoSessions (device : Text) : Bool → Ledger :=
  ((hostMachine composeHost (true, 0)).run (fun _ => fairAnswersFor otherSession)
    (serveNode nodeTwo (.start (ttyRequest device))).run oneMounted).2

theorem reaches_twoSessions (prefers : Bool → Text → Prop) (device : Text)
    (hpref : device ≠ [] → prefers true device)
    (hsecond : (hostMachine composeHost (true, 0)).follows (fun _ => fairAnswersFor otherSession)
      (serveNode nodeTwo (.start (ttyRequest device))).run oneMounted = true) :
    ∃ p, HostReaches composeHost prefers p ∧ p.state = twoSessions device := by
  have hfirst : (hostMachine composeHost (false, 0)).follows (fun _ => fairAnswersFor sampleSession)
      (serveNode nodeOne (.start mountRequest)).run (fun _ => .empty) = true := by decide +kernel
  have hempty : HostReaches composeHost prefers ⟨fun _ => .empty, fun _ => none, fun _ => False⟩ := .init rfl
  have hone := hempty.serve (i := (false, 0)) (Or.inl rfl) id
    ⟨.start mountRequest, fun h => absurd rfl h, rfl⟩ (runs_run hfirst)
  have htwo := hone.serve (i := (true, 0)) (Or.inl rfl) id ⟨.start (ttyRequest device), hpref, rfl⟩
    (runs_run hsecond)
  exact ⟨_, htwo, rfl⟩

theorem composeHost_names (n m : Bool) :
    (composeHost n).nbdDevicePrefix = (composeHost m).nbdDevicePrefix := by
  cases n <;> cases m <;> rfl

theorem composeHost_range (n m : Bool) (hne : n ≠ m) (i : Int) (h : (composeHost n).InRange i) :
    ¬ (composeHost m).InRange i := by
  have hone : nodeOne.InRange i ↔ 0 ≤ i ∧ i < 8 := Iff.rfl
  have htwo : nodeTwo.InRange i ↔ 8 ≤ i ∧ i < 16 := Iff.rfl
  cases n with
  | false =>
    cases m with
    | false => exact absurd rfl hne
    | true =>
      have h := hone.mp h
      rw [composeHost, htwo]
      omega
  | true =>
    cases m with
    | true => exact absurd rfl hne
    | false =>
      have h := htwo.mp h
      rw [composeHost, hone]
      omega

/-- A mounted session and a terminal, on devices of their nodes' ranges. -/
theorem nbd_device_has_one_holder_composeHost : ∃ p, HostReaches composeHost (fun _ _ => False) p ∧
    (.mount sampleSession.id, ascii "/dev/nbd0") ∈ (p.state false).holdings ∧
    (.tty otherSession.id, ascii "/dev/nbd8") ∈ (p.state true).holdings ∧
    ∀ n m h h' d, (h, d) ∈ (p.state n).holdings → (h', d) ∈ (p.state m).holdings → n = m ∧ h = h' := by
  obtain ⟨p, hp, hstate⟩ := reaches_twoSessions (fun _ _ => False) [] (fun h => absurd rfl h)
    (by decide +kernel)
  refine ⟨p, hp, ?_, ?_, ?_⟩
  · rw [hstate]
    decide +kernel
  · rw [hstate]
    decide +kernel
  · exact (nbd_device_has_one_holder composeHost_names composeHost_range (by simp) hp).2.1

/-- **Two sessions on one device.** `node-1` has mounted a volume at `/dev/nbd0`, the first device of its
range. `node-2`, whose range begins at 8, is asked for a terminal with `restore_firecracker_device` set to
`/dev/nbd0`, finds the device unused as far as it knows, and attaches its session to it. -/
theorem restore_device_shared : ∃ p, HostReaches composeHost (fun _ _ => True) p ∧
    (∀ n m, (composeHost n).nbdDevicePrefix = (composeHost m).nbdDevicePrefix) ∧
    (∀ n m, n ≠ m → ∀ i, (composeHost n).InRange i → ¬ (composeHost m).InRange i) ∧
    (.mount sampleSession.id, ascii "/dev/nbd0") ∈ (p.state false).holdings ∧
    (.tty otherSession.id, ascii "/dev/nbd0") ∈ (p.state true).holdings := by
  obtain ⟨p, hp, hstate⟩ := reaches_twoSessions (fun _ _ => True) (ascii "/dev/nbd0")
    (fun _ => trivial) (by decide +kernel)
  refine ⟨p, hp, composeHost_names, composeHost_range, ?_, ?_⟩
  · rw [hstate]
    decide +kernel
  · rw [hstate]
    decide +kernel

/-! ## One node and its devices -/

/-- The requests of a node, and its devices. -/
abbrev NodePool := Pool Nat nodeSig Ledger (Except NodeErr Unit)

/-- A node on which requests are served, from one that holds nothing. -/
abbrev NodeReaches (a : App) (fortunate : Prop) (p : NodePool) : Prop :=
  Pool.Reachable (ledgerMachine a fortunate) (fun _ t => ∃ r, t = (serveNode a r).run) (· = .empty) p

section Node

variable {a : App} {fortunate : Prop} {p : NodePool}

/-- The books are right, and a slot in which nothing is in progress is idle. -/
theorem node_settled (hp : NodeReaches a fortunate p) (hup : ∀ slot, ¬ p.down slot) :
    Books a (fun _ => True) p.state ∧ ∀ slot, p.Free slot → Idle fortunate slot p.state := by
  have hsettled := Pool.Reachable.settled (M := ledgerMachine a fortunate) (I := Books a fun _ => True)
    (R := Keeps a) (G := fun i s s' => ∀ k, k ≠ i → Keeps a k s s')
    (fun i _ _ _ h h' => h.trans h') (fun i t => Keeps.refl a i t)
    (fun i j hne _ _ h => h j (Ne.symm hne)) (fun i _ _ hk (h : Idle fortunate i _) => h.keeps hk) ?_ ?_ hp
  · refine ⟨hsettled.1, fun slot hfree => ?_⟩
    rcases hfree with hnone | ⟨r, hret⟩
    · exact hsettled.2.2 slot hnone (hup slot)
    · exact hsettled.2.1 slot _ hret
  · rintro slot t ⟨r, rfl⟩ s _ hidle
    exact within_serveNode r (by simp) (by simp) hidle
  · rintro s rfl
    exact ⟨books_empty a _, fun slot => idle_empty _ _⟩

/-! ### Later requests -/

/-- Everything succeeds for a request of a session that is there. -/
def smooth : Answers := fairAnswersFor sampleSession

variable {slot : Nat} {t t' t'' : Ledger} {α : Type} {x : NodeM α} {v : α}

theorem fortunate_smooth (o : NodeOp) : Fortunate slot smooth t o := by
  unfold Fortunate
  split
  · exact fun _ => rfl
  · exact fun _ => rfl
  · exact fun _ => rfl
  · trivial

variable (a fortunate slot) in
/-- A request of the slot that is not interrupted and succeeds. -/
abbrev Succeeds (x : NodeM α) (t : Ledger) (v : α) (t' : Ledger) : Prop :=
  (ledgerMachine a fortunate slot).Leads x t (.ok v) t'

theorem succeeds_ask {o : NodeOp} (hl : Plausible smooth t o) :
    Succeeds a fortunate slot (ask o) t (t.exec a slot smooth o).1 (t.exec a slot smooth o).2 :=
  ⟨[(o, smooth)], .call smooth ⟨hl, fun _ => fortunate_smooth o⟩ (.ret _ _)⟩

theorem succeeds_act {o : NodeOp} (hl : Plausible smooth t o) :
    Succeeds a fortunate slot (act o) t () (t.exec a slot smooth o).2 :=
  (succeeds_ask hl).bind (leads_pure () _)

theorem succeeds_answer {o : NodeOp} {r : o.Res} (hl : Plausible smooth t o)
    (hexec : t.exec a slot smooth o = (r, t')) : Succeeds a fortunate slot (ask o) t r t' := by
  have h : Succeeds a fortunate slot (ask o) t _ _ := succeeds_ask hl
  rwa [hexec] at h

theorem succeeds_outside {call : Outside} (hl : Plausible smooth t (.outside call))
    (hexec : t.exec a slot smooth (.outside call) = (.ok (), t')) :
    Succeeds a fortunate slot (outside call) t () t' :=
  (succeeds_answer hl hexec).bind (leads_pure () t')

/-- A command that changes nothing here. -/
theorem succeeds_still {call : Outside} (hl : Plausible smooth t (.outside call))
    (hexec : t.exec a slot smooth (.outside call) = (.ok (), t)) :
    Succeeds a fortunate slot (outside call) t () t := succeeds_outside hl hexec

theorem succeeds_attempt (h : Succeeds a fortunate slot x t v t') :
    Succeeds a fortunate slot (attempt x) t (.ok v) t' := by
  obtain ⟨tr, hrun⟩ := h
  exact leads_lift hrun

theorem succeeds_ignore (h : Succeeds a fortunate slot x t v t') :
    Succeeds a fortunate slot (ignore x) t () t' :=
  (succeeds_attempt h).bind (leads_pure () t')

theorem succeeds_guarded {cleanup : NodeM Unit} (h : Succeeds a fortunate slot x t v t') :
    Succeeds a fortunate slot (guarded cleanup x) t v t' :=
  (succeeds_attempt h).bind (leads_pure v t')

/-- `detach` of a firecracker session. -/
theorem succeeds_detachFirecracker {id : String} {d : Text} {network : Option FirecrackerNetwork} :
    Succeeds a fortunate slot (detachFirecracker id d network) t () (t.release slot d) := by
  refine (succeeds_ignore (succeeds_still (by trivial) (by rfl))).bind ((succeeds_act (by trivial)).bind
    ((succeeds_act (by trivial)).bind ?_))
  cases network with
  | none => exact leads_pure () _
  | some network => exact succeeds_ignore (succeeds_still (by trivial) (by rfl))

/-- A stop request releases the device of a session that is mounted. -/
theorem stop_releases {id : String} {m : MountedSession} (hm : t.mounts id = some m)
    (hin : m.mountPath ∈ t.mounted) :
    ∃ t', Succeeds a fortunate slot (serveNode a (.stop id)) t () t' ∧ m.nbdDevice ∉ t'.used := by
  let after : Ledger := { (t.unmount a slot m.mountPath).release slot m.nbdDevice with
    mounts := Function.update t.mounts id none }
  have humount : Succeeds a fortunate slot (outside (.umount m.mountPath)) t ()
      (t.unmount a slot m.mountPath) := succeeds_outside hin rfl
  have hdetach : Succeeds a fortunate slot (detachMountedSession id) t () after := by
    refine (succeeds_ask (by trivial)).bind ?_
    simp only [Ledger.exec, hm]
    refine (succeeds_still (by trivial) (by rfl)).bind (humount.bind ?_)
    refine (succeeds_still (by trivial) (by rfl)).bind ((succeeds_act (by trivial)).bind ?_)
    exact (succeeds_act (by trivial)).bind (succeeds_still (by trivial) (by rfl))
  have hstop : Succeeds a fortunate slot (backendStop id) after () after :=
    (succeeds_ask (by trivial)).bind (leads_pure () after)
  have hwhole : Succeeds a fortunate slot (stop id) t [(ascii "stopped", utf8 id)] after :=
    hdetach.bind ((succeeds_act (by trivial)).bind (hstop.bind (leads_pure _ after)))
  exact ⟨after, succeeds_ignore hwhole, Finset.notMem_erase _ _⟩

/-- A stop of a tty session releases its device. -/
theorem ttyStop_releases {id : String} {tty : TTYSession} (htty : t.ttySessions id = some tty)
    (hstop : tty.stopped = false) :
    ∃ t', Succeeds a fortunate slot (serveNode a (.ttyStop id)) t () t' ∧ tty.device ∉ t'.used := by
  let snapshot : Storage.Snapshot := ⟨"snap-1", "vol-1", "manifests/snap-1.json"⟩
  let released : Ledger := (t.claim slot id tty).release slot tty.device
  let after : Ledger := { released with ttySessions := Function.update released.ttySessions id none }
  have hcommit : Succeeds a fortunate slot (backendCommit tty.sessionID ⟨a.nbdCommitBatch, false⟩) released
      snapshot released := (succeeds_ask (by trivial)).bind (leads_pure snapshot released)
  have hend : Succeeds a fortunate slot (backendStop tty.sessionID) released () released :=
    (succeeds_ask (by trivial)).bind (leads_pure () released)
  have hstopped : Succeeds a fortunate slot (stopTTYSession a tty) (t.claim slot id tty) snapshot
      released := by
    refine (succeeds_ignore (succeeds_still (by trivial) (by rfl))).bind ?_
    refine (succeeds_ignore (succeeds_guarded (succeeds_still (by trivial) (by rfl)))).bind ?_
    refine (succeeds_still (by trivial) (by rfl)).bind ((succeeds_still (by trivial) (by rfl)).bind ?_)
    refine succeeds_detachFirecracker.bind ((succeeds_attempt hcommit).bind ?_)
    exact (succeeds_ignore hend).bind (leads_pure snapshot released)
  have hfound : Succeeds a fortunate slot (getTTY id) t (some tty) t :=
    succeeds_answer trivial (Prod.ext htty rfl)
  have hclaim : Succeeds a fortunate slot (claimStop id) t true (t.claim slot id tty) :=
    succeeds_answer trivial (by simp [Ledger.exec, htty, hstop])
  obtain ⟨resp, hwhole⟩ : ∃ resp, Succeeds a fortunate slot (ttyStop a id) t resp after :=
    ⟨_, hfound.bind (hclaim.bind ((leads_pure () _).bind ((succeeds_attempt hstopped).bind
      ((succeeds_act (by trivial)).bind ((leads_pure snapshot after).bind
        ((succeeds_ask (by trivial)).bind (leads_pure _ after)))))))⟩
  exact ⟨after, succeeds_ignore hwhole, Finset.notMem_erase _ _⟩

/-! ### The account -/

/-- The device of an entry of `mounts` or of `ttySessions`. -/
def Ledger.Recorded (t : Ledger) (d : Text) : Prop :=
  (∃ id m, t.mounts id = some m ∧ m.nbdDevice = d) ∨ ∃ id tty, t.ttySessions id = some tty ∧ tty.device = d

/-- A request in progress holds the device. -/
def HeldInProgress (p : NodePool) (d : Text) : Prop :=
  ∃ slot h, ¬ p.Free slot ∧ (h, d) ∈ p.state.holdings ∧ p.state.Frees slot h

/-- **The window**: the request that ends the session has released the device, and the entry is still there. -/
def Releasing (p : NodePool) (id : String) : Prop :=
  ∃ slot, ¬ p.Free slot ∧ p.state.detaching id = some slot ∧
    ((∃ m, p.state.mounts id = some m ∧ (.mount id, m.nbdDevice) ∉ p.state.holdings) ∨
      ∃ e, p.state.ttySessions id = some e ∧ (.tty id, e.device) ∉ p.state.holdings)

/-- **The account of a node's devices.** Outside the window the devices in use are EXACTLY those recorded for an
entry of `mounts` or `ttySessions` and those held by a request in progress. In every state a device in use is one
of these. What a request in progress holds is in use, and so is what an entry records, unless it is in the window.
And a device that no request in progress can release is released by some later request. -/
structure Accounted (a : App) (fortunate : Prop) (p : NodePool) : Prop where
  exact : (∀ id, ¬ Releasing p id) → ∀ d, d ∈ p.state.used ↔ p.state.Recorded d ∨ HeldInProgress p d
  owned : ∀ d ∈ p.state.used, p.state.Recorded d ∨ HeldInProgress p d
  held : ∀ slot d, (.request slot, d) ∈ p.state.holdings → d ∈ p.state.used ∧ ¬ p.Free slot
  mount : ∀ id m, p.state.mounts id = some m → m.nbdDevice ∈ p.state.used ∨
    ∃ slot, ¬ p.Free slot ∧ p.state.detaching id = some slot ∧
      (.mount id, m.nbdDevice) ∉ p.state.holdings
  tty : ∀ id e, p.state.ttySessions id = some e → e.device ∈ p.state.used ∨
    ∃ slot, ¬ p.Free slot ∧ p.state.detaching id = some slot ∧ (.tty id, e.device) ∉ p.state.holdings
  releasable : ∀ d ∈ p.state.used, HeldInProgress p d ∨
    ∃ r, ∀ slot, ∃ t', Succeeds a fortunate slot (serveNode a r) p.state () t' ∧ d ∉ t'.used

section Settled

variable (hb : Books a (fun _ => True) p.state) (hidle : ∀ slot, p.Free slot → Idle True slot p.state)

include hidle in
/-- A session is being detached by a request in progress, or nothing of it is left. -/
theorem busy_of_detaching {id : String} (hk : p.state.detaching id = some slot) (hnot : ¬ p.state.Over id) :
    ¬ p.Free slot :=
  fun hfree => hnot ((hidle _ hfree).past trivial _ hk)

include hb hidle

theorem held_used (slot : Nat) (d : Text) (hmem : (.request slot, d) ∈ p.state.holdings) :
    d ∈ p.state.used ∧ ¬ p.Free slot :=
  ⟨(hb.used d).mpr ⟨_, hmem⟩, fun hfree => ((hidle slot hfree).holdings d).mp hmem⟩

theorem used_owned (d : Text) (hd : d ∈ p.state.used) : p.state.Recorded d ∨ HeldInProgress p d := by
  obtain ⟨h, hmem⟩ := (hb.used d).mp hd
  cases h with
  | request k => exact Or.inr ⟨k, _, (held_used hb hidle k d hmem).2, hmem, rfl⟩
  | mount id =>
    obtain ⟨m, hm, hd⟩ := hb.ofMount hmem
    exact Or.inl (Or.inl ⟨id, m, hm, hd⟩)
  | tty id =>
    rcases hb.ofTTY hmem with ⟨e, he, hd⟩ | hdetach
    · exact Or.inl (Or.inr ⟨id, e, he, hd⟩)
    · obtain ⟨k, hk⟩ := Option.ne_none_iff_exists'.mp hdetach
      exact Or.inr ⟨k, _, busy_of_detaching hidle hk fun h => h.2.2 d hmem, hmem, hk⟩

theorem mount_used {id : String} {m : MountedSession} (hm : p.state.mounts id = some m) :
    m.nbdDevice ∈ p.state.used ∨
      ∃ slot, ¬ p.Free slot ∧ p.state.detaching id = some slot ∧ (.mount id, m.nbdDevice) ∉ p.state.holdings := by
  by_cases hmem : (.mount id, m.nbdDevice) ∈ p.state.holdings
  · exact Or.inl ((hb.used _).mpr ⟨_, hmem⟩)
  · obtain ⟨k, hk⟩ := Option.ne_none_iff_exists'.mp fun hnone => hmem ((hb.mount hm).2.2 hnone).1
    exact Or.inr ⟨k, busy_of_detaching hidle hk fun h => (by cases h.1.symm.trans hm), hk, hmem⟩

theorem tty_used {id : String} {e : TTYSession} (he : p.state.ttySessions id = some e) :
    e.device ∈ p.state.used ∨
      ∃ slot, ¬ p.Free slot ∧ p.state.detaching id = some slot ∧ (.tty id, e.device) ∉ p.state.holdings := by
  by_cases hmem : (.tty id, e.device) ∈ p.state.holdings
  · exact Or.inl ((hb.used _).mpr ⟨_, hmem⟩)
  · obtain ⟨k, hk⟩ := Option.ne_none_iff_exists'.mp fun hnone => hmem ((hb.tty he).2.2 hnone)
    exact Or.inr ⟨k, busy_of_detaching hidle hk fun h => (by cases h.2.1.symm.trans he), hk, hmem⟩

/-- What is recorded and not in use is in the window. -/
theorem recorded_used (hclosed : ∀ id, ¬ Releasing p id) {d : Text} (h : p.state.Recorded d) :
    d ∈ p.state.used := by
  rcases h with ⟨id, m, hm, rfl⟩ | ⟨id, e, he, rfl⟩
  · refine (mount_used hb hidle hm).resolve_right ?_
    rintro ⟨slot, hslot, hdetach, hgone⟩
    exact hclosed id ⟨slot, hslot, hdetach, Or.inl ⟨m, hm, hgone⟩⟩
  · refine (tty_used hb hidle he).resolve_right ?_
    rintro ⟨slot, hslot, hdetach, hgone⟩
    exact hclosed id ⟨slot, hslot, hdetach, Or.inr ⟨e, he, hgone⟩⟩

theorem used_releasable (d : Text) (hd : d ∈ p.state.used) : HeldInProgress p d ∨
    ∃ r, ∀ slot, ∃ t', Succeeds a True slot (serveNode a r) p.state () t' ∧ d ∉ t'.used := by
  obtain ⟨h, hmem⟩ := (hb.used d).mp hd
  cases h with
  | request k => exact Or.inl ⟨k, _, (held_used hb hidle k d hmem).2, hmem, rfl⟩
  | mount id =>
    obtain ⟨m, hm, rfl⟩ := hb.ofMount hmem
    cases hdetach : p.state.detaching id with
    | some k =>
      have hbusy := busy_of_detaching hidle hdetach fun h => (by cases h.1.symm.trans hm)
      exact Or.inl ⟨k, _, hbusy, hmem, hdetach⟩
    | none =>
      obtain ⟨-, hpath, hhold⟩ := hb.mount hm
      exact Or.inr ⟨.stop id, fun slot => stop_releases hm (hpath ▸ (hhold hdetach).2)⟩
  | tty id =>
    cases hdetach : p.state.detaching id with
    | some k =>
      exact Or.inl ⟨k, _, busy_of_detaching hidle hdetach fun h => h.2.2 d hmem, hmem, hdetach⟩
    | none =>
      rcases hb.ofTTY hmem with ⟨e, he, rfl⟩ | h
      · have hstop : e.stopped = false := by
          rw [Bool.eq_false_iff]
          exact fun h => (hb.tty he).2.1.mp h hdetach
        exact Or.inr ⟨.ttyStop id, fun slot => ttyStop_releases he hstop⟩
      · exact absurd hdetach h

end Settled

/-- **NBD device accounting.** On any interleaving of starts, commits, stops and tty stops in which any
command may fail but the three named by `Fortunate`, the account is right in EVERY reachable state. -/
theorem nbd_devices_accounted (hp : NodeReaches a True p) (hup : ∀ slot, ¬ p.down slot) :
    Accounted a True p := by
  obtain ⟨hb, hidle⟩ := node_settled hp hup
  refine ⟨fun hclosed d => ⟨used_owned hb hidle d, ?_⟩, used_owned hb hidle, held_used hb hidle,
    fun _ _ => mount_used hb hidle, fun _ _ => tty_used hb hidle, used_releasable hb hidle⟩
  rintro (hrecorded | ⟨slot, h, -, hmem, -⟩)
  · exact recorded_used hb hidle hclosed hrecorded
  · exact (hb.used d).mpr ⟨h, hmem⟩

end Node

/-! ### A mounted session, and a terminal whose stop failed -/

instance (a : App) (slot : Nat) (l : Answers) (t : Ledger) (o : NodeOp) :
    Decidable ((ledgerMachine a False slot).allowed l t o) :=
  decidable_of_iff (Plausible l t o) ⟨fun h => ⟨h, False.elim⟩, And.left⟩

/-- The account of a node with one mounted session. -/
theorem nbd_devices_accounted_mounted : ∃ p, NodeReaches nodeOne True p ∧ (∀ slot, p.Free slot) ∧
    (∀ id, ¬ Releasing p id) ∧ p.state.used = {ascii "/dev/nbd0"} ∧ Accounted nodeOne True p := by
  have hrun := runs_run (M := ledgerMachine nodeOne False 0)
    (show Machine.follows _ (fun _ => smooth) (serveNode nodeOne (.start mountRequest)).run .empty = true by
      decide +kernel)
  have hsame : (ledgerMachine nodeOne True 0).exec = (ledgerMachine nodeOne False 0).exec := rfl
  have hlucky := hrun.mono hsame fun e he s hl =>
    ⟨hl.1, fun _ => by rw [mem_trace he]; exact fortunate_smooth e.1⟩
  have hempty : NodeReaches nodeOne True ⟨.empty, fun _ => none, fun _ => False⟩ := .init rfl
  have hp := hempty.serve (i := 0) (Or.inl rfl) id ⟨.start mountRequest, rfl⟩ hlucky
  have hfree := Pool.Free.served (S := nodeSig) (p := ⟨.empty, fun _ => none, fun _ => False⟩)
    (fun _ : Nat => Or.inl rfl) 0 ((ledgerMachine nodeOne False 0).run (fun _ => smooth)
      (serveNode nodeOne (.start mountRequest)).run .empty).1 ((ledgerMachine nodeOne False 0).run (fun _ => smooth)
      (serveNode nodeOne (.start mountRequest)).run .empty).2
  refine ⟨_, hp, hfree, ?_, by decide +kernel, nbd_devices_accounted hp fun _ h => h⟩
  rintro id ⟨slot, hbusy, -⟩
  exact hbusy (hfree slot)

/-- The answers while `blockdev --flushbufs` fails. -/
def flushFails : Answers where
  stat := smooth.stat
  answer
    | .outside (.flushbufs _) => .error (.failed (ascii "blockdev --flushbufs: input/output error"))
    | o => smooth.answer o

/-- The node after a terminal was opened, and after its stop failed. -/
def openedTTY : Ledger :=
  ((ledgerMachine nodeOne False 0).run (fun _ => smooth) (serveNode nodeOne (.start (ttyRequest []))).run
    .empty).2

def failedStop : Ledger :=
  ((ledgerMachine nodeOne False 0).run (fun _ => flushFails)
    (serveNode nodeOne (.ttyStop sampleSession.id)).run openedTTY).2

/-- **A device nobody owns.** A terminal was opened and stopped again, and `blockdev --flushbufs` failed
during the stop. Its device stays in use; no session is left, no request is in progress. -/
theorem failed_tty_stop_leaks_device : ∃ p, NodeReaches nodeOne False p ∧ (∀ slot, p.Free slot) ∧
    (∀ slot, ¬ p.down slot) ∧ ascii "/dev/nbd0" ∈ p.state.used ∧
    (∀ id, p.state.mounts id = none) ∧ ∀ id, p.state.ttySessions id = none := by
  have hempty : NodeReaches nodeOne False ⟨.empty, fun _ => none, fun _ => False⟩ := .init rfl
  have hstart := runs_run (M := ledgerMachine nodeOne False 0)
    (show Machine.follows _ (fun _ => smooth) (serveNode nodeOne (.start (ttyRequest []))).run .empty =
      true by decide +kernel)
  have hopened := hempty.serve (i := 0) (Or.inl rfl) id ⟨.start (ttyRequest []), rfl⟩ hstart
  have hfree := Pool.Free.served (S := nodeSig) (p := ⟨.empty, fun _ => none, fun _ => False⟩)
    (fun _ : Nat => Or.inl rfl) 0
    ((ledgerMachine nodeOne False 0).run (fun _ => smooth)
      (serveNode nodeOne (.start (ttyRequest []))).run .empty).1 openedTTY
  have hstop := runs_run (M := ledgerMachine nodeOne False 0)
    (show Machine.follows _ (fun _ => flushFails) (serveNode nodeOne (.ttyStop sampleSession.id)).run
      openedTTY = true by decide +kernel)
  have hp := hopened.serve (i := 0) (hfree 0) id ⟨.ttyStop sampleSession.id, rfl⟩ hstop
  -- An entry would be that of a session that was started, and there was only one.
  have hb : Books nodeOne (fun _ => True) failedStop := (node_settled hp fun _ h => h).1
  have honly : ∀ {id}, failedStop.Entered id → id = sampleSession.id := by
    intro id he
    have hstarted : failedStop.started = {sampleSession.id} := by decide +kernel
    simpa [hstarted] using he.1
  refine ⟨_, hp, Pool.Free.served hfree 0 _ _, fun _ h => h, ?_, fun id => ?_, fun id => ?_⟩
  · decide +kernel
  · refine Option.eq_none_iff_forall_not_mem.mpr fun m hm => ?_
    have hnone : failedStop.mounts sampleSession.id = none := by decide +kernel
    have hid := honly (hb.mount hm).1
    subst hid
    cases hnone.symm.trans hm
  · refine Option.eq_none_iff_forall_not_mem.mpr fun e he => ?_
    have hnone : failedStop.ttySessions sampleSession.id = none := by decide +kernel
    have hid := honly (hb.tty he).1
    subst hid
    cases hnone.symm.trans he

end OrcaBlocks.Services
