/-
# OrcaBlocks.Services.SessionNetwork — whether the VMs of a node get separate networks.

The network of a session is a function of its id alone (`firecrackerSessionNetwork`): the /30 block comes
from a 32-bit hash of the id, reduced to 200 times 60 blocks, the name of the tap device from its first
ten characters. Nothing looks at what is in use. Every id gets a block of the right shape
(`hasBlock_network`), and two ids get different ones EXACTLY if their hashes differ modulo 12000
(`sessionBlock_eq_iff`); with random ids, one pair in 12000 does not.

What the host has is `HostNet`; the two shell scripts are lists of commands on it. Each command can fail,
by itself or because the environment says so. Which commands take something away from a network is said
once, for a single command (`apply_keeps`), so it holds for any interleaving of scripts.
-/
import OrcaBlocks.Services.Ledger
import OrcaBlocks.Storage.Invariant

namespace OrcaBlocks.Services

open OrcaBlocks.Lib

variable {dns id : Text} {network other : FirecrackerNetwork}

/-! ## Addresses -/

/-- An address as it is written, `a.b.c.d`. -/
def dotted (address : Nat) : Text :=
  decimal (address / 2 ^ 24) ++ ascii "." ++ decimal (address / 2 ^ 16 % 256) ++ ascii "." ++
    decimal (address / 2 ^ 8 % 256) ++ ascii "." ++ decimal (address % 256)

/-- The address `172.30.third.last`. -/
def address (third last : Nat) : Nat := 172 * 2 ^ 24 + 30 * 2 ^ 16 + third * 2 ^ 8 + last

/-- The host and the guest have the two usable addresses of the /30 block that begins at `block`. -/
structure HasBlock (network : FirecrackerNetwork) (block : Nat) : Prop where
  aligned : block % 4 = 0
  inside : address 16 0 ≤ block ∧ block + 3 ≤ address 215 255
  host : network.gatewayIP = dotted (block + 1) ∧ network.hostCIDR = dotted (block + 1) ++ ascii "/30"
  guest : network.guestIP = dotted (block + 2) ∧ network.guestCIDR = dotted (block + 2) ++ ascii "/30"

/-- Where the block of a session begins. -/
def sessionBlock (sessionID : Text) : Nat :=
  let n := (fnv32a sessionID).toNat
  address (16 + n % 200) (4 + n / 200 % 60 * 4)

/-- The part of the name of a session's tap device that is its own. -/
def tapSuffix (sessionID : Text) : Text :=
  let short := (sessionID.filter (· ≠ 45)).take 10
  if short = [] then utf8 (Storage.hexEncode (bytesOf (fnv32a sessionID))) else short

theorem dotted_address {third last : Nat} (hthird : third < 256) (hlast : last < 256) :
    dotted (address third last) =
      ascii "172.30." ++ decimal third ++ ascii "." ++ decimal last := by
  have h₁ : address third last / 2 ^ 24 = 172 := by unfold address; omega
  have h₂ : address third last / 2 ^ 16 % 256 = 30 := by unfold address; omega
  have h₃ : address third last / 2 ^ 8 % 256 = third := by unfold address; omega
  have h₄ : address third last % 256 = last := by unfold address; omega
  have hfront : ascii "172.30." = decimal 172 ++ ascii "." ++ decimal 30 ++ ascii "." := by decide +kernel
  rw [dotted, h₁, h₂, h₃, h₄, hfront]

/-- **Every id gets a block of the right shape**, and a tap device named by its own suffix. -/
theorem hasBlock_network (sessionID dns : Text) :
    HasBlock (firecrackerSessionNetwork sessionID dns) (sessionBlock sessionID) ∧
      (firecrackerSessionNetwork sessionID dns).tapName = ascii "tap" ++ tapSuffix sessionID := by
  have hadd : ∀ k, sessionBlock sessionID + k = address (16 + (fnv32a sessionID).toNat % 200)
      (4 + (fnv32a sessionID).toNat / 200 % 60 * 4 + k) := by
    intro k
    simp only [sessionBlock, address]
    omega
  have hdotted : ∀ k < 3, dotted (sessionBlock sessionID + k) = ascii "172.30." ++
      decimal (16 + (fnv32a sessionID).toNat % 200) ++ ascii "." ++
      decimal (4 + (fnv32a sessionID).toNat / 200 % 60 * 4 + k) := by
    intro k hk
    rw [hadd, dotted_address (by omega) (by omega)]
  refine ⟨⟨?_, ?_, ?_, ?_⟩, rfl⟩
  · simp only [sessionBlock, address]
    omega
  · simp only [sessionBlock, address]
    omega
  · rw [hdotted 1 (by omega)]
    exact ⟨rfl, rfl⟩
  · rw [hdotted 2 (by omega)]
    exact ⟨rfl, rfl⟩

/-- Two sessions share their block exactly if their hashes agree modulo 12000. -/
theorem sessionBlock_eq_iff (id id' : Text) :
    sessionBlock id = sessionBlock id' ↔ (fnv32a id).toNat % 12000 = (fnv32a id').toNat % 12000 := by
  have hsplit : ∀ n : Nat, n % 12000 = n % 200 + 200 * (n / 200 % 60) := fun n => by omega
  simp only [sessionBlock, address, hsplit]
  generalize (fnv32a id).toNat = n
  generalize (fnv32a id').toNat = n'
  have h₁ := Nat.mod_lt n (by decide : 200 > 0)
  have h₂ := Nat.mod_lt n' (by decide : 200 > 0)
  generalize n % 200 = t at h₁ ⊢
  generalize n' % 200 = t' at h₂ ⊢
  omega

/-- Blocks are aligned, so two of them are equal or disjoint. -/
theorem blocks_disjoint_iff {b b' : Nat} (h : b % 4 = 0) (h' : b' % 4 = 0) :
    (∀ a, b ≤ a → a ≤ b + 3 → ¬ (b' ≤ a ∧ a ≤ b' + 3)) ↔ b ≠ b' := by
  constructor
  · rintro hdisjoint rfl
    exact hdisjoint b le_rfl (by omega) ⟨le_rfl, by omega⟩
  · intro hne a hlo hhi hin
    omega

/-! ## Different blocks are written differently -/

theorem decimal_injective : Function.Injective decimal := fun _ _ h =>
  Storage.repr_injective (utf8_injective h)

/-- A text up to its first separator is determined. -/
theorem append_sep_inj {sep : UInt8} {a a' b b' : Text} (h : sep ∉ a) (h' : sep ∉ a')
    (heq : a ++ sep :: b = a' ++ sep :: b') : a = a' ∧ b = b' := by
  induction a generalizing a' with
  | nil =>
    cases a' with
    | nil => exact ⟨rfl, (List.cons.inj heq).2⟩
    | cons x a' => exact absurd ((List.cons.inj heq).1 ▸ List.mem_cons_self) h'
  | cons x a ih =>
    cases a' with
    | nil => exact absurd ((List.cons.inj heq).1 ▸ List.mem_cons_self) h
    | cons y a' =>
      obtain ⟨rfl, hrest⟩ := List.cons.inj heq
      obtain ⟨rfl, rfl⟩ := ih (fun hm => h (List.mem_cons_of_mem _ hm))
        (fun hm => h' (List.mem_cons_of_mem _ hm)) hrest
      exact ⟨rfl, rfl⟩

theorem decimal_digits : ∀ n < 256, 46 ∉ decimal n ∧ 47 ∉ decimal n := by decide +kernel

/-- The masquerading rules of sessions with different blocks have different sources. -/
theorem guestCIDR_ne {id' : Text} (dns dns' : Text) (hne : sessionBlock id ≠ sessionBlock id') :
    (firecrackerSessionNetwork id dns).guestCIDR ≠ (firecrackerSessionNetwork id' dns').guestCIDR := by
  intro heq
  simp only [firecrackerSessionNetwork, List.append_assoc, List.append_cancel_left_eq] at heq
  have hdot : ascii "." = [46] := rfl
  have hslash : ascii "/30" = 47 :: ascii "30" := rfl
  rw [hdot, List.singleton_append, List.singleton_append] at heq
  obtain ⟨hthird, hlast⟩ := append_sep_inj (decimal_digits _ (by omega)).1 (decimal_digits _ (by omega)).1 heq
  rw [hslash] at hlast
  obtain ⟨hlast, -⟩ := append_sep_inj (decimal_digits _ (by omega)).2 (decimal_digits _ (by omega)).2 hlast
  have h₁ := decimal_injective hthird
  have h₂ := decimal_injective hlast
  apply hne
  simp only [sessionBlock, address]
  omega

/-! ## The host -/

/-- What the scripts change on the host. Rules are kept as the commands name them; no two sessions name
one block differently. -/
structure HostNet where
  taps : Finset Text
  addrs : Finset (Text × Text)
  up : Finset Text
  ipForward : Bool
  /-- Sources of the masquerading rules. -/
  nat : List Text
  /-- Devices of the forwarding rules. -/
  acceptFrom : List Text
  acceptTo : List Text
  deriving DecidableEq

/-- The commands of the scripts. A rule is added after looking whether it is there. -/
inductive NetCmd where
  | tuntapAdd (dev : Text)
  | addrAdd (cidr dev : Text)
  | linkUp (dev : Text)
  | ipForward
  | masquerade (source : Text)
  | acceptFrom (dev : Text)
  | acceptTo (dev : Text)
  | dropMasquerade (source : Text)
  | dropFrom (dev : Text)
  | dropTo (dev : Text)
  | linkDel (dev : Text)
  deriving DecidableEq

theorem lawfulBEq_rule : LawfulBEq Text := inferInstance

attribute [local instance] lawfulBEq_rule

/-- A rule is appended unless it is there. -/
def addRule (rule : Text) (rules : List Text) : List Text :=
  if rule ∈ rules then rules else rules ++ [rule]

/-- A command; `none` if it fails. -/
def NetCmd.apply (h : HostNet) : NetCmd → Option HostNet
  | .tuntapAdd dev => if dev ∈ h.taps then none else some { h with taps := insert dev h.taps }
  | .addrAdd cidr dev =>
    if dev ∈ h.taps ∧ (dev, cidr) ∉ h.addrs then some { h with addrs := insert (dev, cidr) h.addrs }
    else none
  | .linkUp dev => if dev ∈ h.taps then some { h with up := insert dev h.up } else none
  | .ipForward => some { h with ipForward := true }
  | .masquerade source => some { h with nat := addRule source h.nat }
  | .acceptFrom dev => some { h with acceptFrom := addRule dev h.acceptFrom }
  | .acceptTo dev => some { h with acceptTo := addRule dev h.acceptTo }
  | .dropMasquerade source => if source ∈ h.nat then some { h with nat := h.nat.erase source } else none
  | .dropFrom dev => if dev ∈ h.acceptFrom then some { h with acceptFrom := h.acceptFrom.erase dev } else none
  | .dropTo dev => if dev ∈ h.acceptTo then some { h with acceptTo := h.acceptTo.erase dev } else none
  | .linkDel dev =>
    if dev ∈ h.taps then
      some { h with
        taps := h.taps.erase dev
        addrs := h.addrs.filter fun a => a.1 ≠ dev
        up := h.up.erase dev }
    else none

section Scripts

-- the commands the environment makes fail
variable (fault : NetCmd → Bool)

/-- A command under the environment. -/
def NetCmd.run (h : HostNet) (c : NetCmd) : Option HostNet := if fault c then none else c.apply h

/-- A script under `set -e`: whether it got through, and the host then. -/
def runScript : List NetCmd → HostNet → Bool × HostNet
  | [], h => (true, h)
  | c :: rest, h =>
    match c.run fault h with
    | some h => runScript rest h
    | none => (false, h)

/-- The script of `setupFirecrackerNetwork`. -/
def setupScript (network : FirecrackerNetwork) : List NetCmd :=
  [.tuntapAdd network.tapName, .addrAdd network.hostCIDR network.tapName, .linkUp network.tapName,
    .ipForward, .masquerade network.guestCIDR, .acceptFrom network.tapName, .acceptTo network.tapName]

/-- The script of `cleanupFirecrackerNetwork`. -/
def cleanupScript (network : FirecrackerNetwork) : List NetCmd :=
  [.dropMasquerade network.guestCIDR, .dropFrom network.tapName, .dropTo network.tapName,
    .linkDel network.tapName]

/-- `cleanupFirecrackerNetwork`: a failing command does not stop it. -/
def cleanupFirecrackerNetwork (network : FirecrackerNetwork) (h : HostNet) : HostNet :=
  (cleanupScript network).foldl (fun h c => (c.run fault h).getD h) h

/-- `setupFirecrackerNetwork`. -/
def setupFirecrackerNetwork (sessionID dns : Text) (h : HostNet) : Option FirecrackerNetwork × HostNet :=
  let network := firecrackerSessionNetwork sessionID dns
  let h := cleanupFirecrackerNetwork fault network h
  let (ok, h) := runScript fault (setupScript network) h
  if ok then (some network, h) else (none, cleanupFirecrackerNetwork fault network h)

end Scripts

/-! ## What a command takes away -/

/-- The host has the tap device and the masquerading rule of a network. -/
def HostNet.Has (h : HostNet) (network : FirecrackerNetwork) : Prop :=
  network.tapName ∈ h.taps ∧ network.guestCIDR ∈ h.nat

instance (h : HostNet) (network : FirecrackerNetwork) : Decidable (h.Has network) :=
  inferInstanceAs (Decidable (_ ∧ _))

/-- The command does not remove a tap device or a masquerading rule of this name. -/
def NetCmd.Spares (c : NetCmd) (network : FirecrackerNetwork) : Prop :=
  c ≠ .linkDel network.tapName ∧ c ≠ .dropMasquerade network.guestCIDR

theorem mem_addRule {rule other : Text} {rules : List Text} (h : other ∈ rules) :
    other ∈ addRule rule rules := by
  unfold addRule
  split
  · exact h
  · exact List.mem_append_left _ h

theorem mem_addRule_self (rule : Text) (rules : List Text) : rule ∈ addRule rule rules := by
  unfold addRule
  split
  · assumption
  · exact List.mem_append_right _ (List.mem_singleton_self rule)

/-- **One command**: what does not name a network's device or rule for removal leaves both. -/
theorem apply_keeps {c : NetCmd} {h h' : HostNet} (hspares : c.Spares network)
    (happly : c.apply h = some h') :
    (network.tapName ∈ h.taps → network.tapName ∈ h'.taps) ∧
      (network.guestCIDR ∈ h.nat → network.guestCIDR ∈ h'.nat) := by
  obtain ⟨hlink, hrule⟩ := hspares
  unfold NetCmd.apply at happly
  split at happly
  case h_1 =>
    split at happly
    · cases happly
    · cases happly
      exact ⟨Finset.mem_insert_of_mem, id⟩
  case h_8 source =>
    split at happly
    · cases happly
      have hne : network.guestCIDR ≠ source := fun heq => hrule (congrArg _ heq.symm)
      exact ⟨id, (List.mem_erase_of_ne hne).mpr⟩
    · cases happly
  case h_11 dev =>
    split at happly
    · cases happly
      have hne : network.tapName ≠ dev := fun heq => hlink (congrArg _ heq.symm)
      exact ⟨fun htap => Finset.mem_erase.mpr ⟨hne, htap⟩, id⟩
    · cases happly
  case h_5 =>
    cases happly
    exact ⟨id, mem_addRule⟩
  case h_4 | h_6 | h_7 =>
    cases happly
    exact ⟨id, id⟩
  all_goals
    split at happly
    · cases happly
      exact ⟨id, id⟩
    · cases happly

variable {fault : NetCmd → Bool}

theorem apply_of_run {c : NetCmd} {h h' : HostNet} (hrun : c.run fault h = some h') :
    c.apply h = some h' := by
  unfold NetCmd.run at hrun
  split at hrun
  · cases hrun
  · exact hrun

theorem run_keeps {c : NetCmd} {h : HostNet} (hspares : c.Spares network) (hhas : h.Has network) :
    ((c.run fault h).getD h).Has network := by
  cases hrun : c.run fault h with
  | none => exact hhas
  | some h' =>
    have hkeeps := apply_keeps hspares (apply_of_run hrun)
    exact ⟨hkeeps.1 hhas.1, hkeeps.2 hhas.2⟩

/-- Any interleaving of commands that all spare a network. -/
theorem foldl_keeps {cmds : List NetCmd} (hspares : ∀ c ∈ cmds, c.Spares network) {h : HostNet}
    (hhas : h.Has network) : (cmds.foldl (fun h c => (c.run fault h).getD h) h).Has network := by
  induction cmds generalizing h with
  | nil => exact hhas
  | cons c cmds ih =>
    obtain ⟨hc, hrest⟩ := List.forall_mem_cons.mp hspares
    exact ih hrest (run_keeps hc hhas)

theorem runScript_keeps {cmds : List NetCmd} (hspares : ∀ c ∈ cmds, c.Spares network) {h : HostNet}
    (hhas : h.Has network) : (runScript fault cmds h).2.Has network := by
  induction cmds generalizing h with
  | nil => exact hhas
  | cons c cmds ih =>
    obtain ⟨hc, hrest⟩ := List.forall_mem_cons.mp hspares
    have hstep : ((c.run fault h).getD h).Has network := run_keeps hc hhas
    unfold runScript
    split
    · rename_i h' hrun
      rw [hrun] at hstep
      exact ih hrest hstep
    · exact hhas

/-- The setup only adds. -/
theorem setupScript_spares (network other : FirecrackerNetwork) :
    ∀ c ∈ setupScript network, c.Spares other := by
  simp [setupScript, NetCmd.Spares]

theorem cleanupScript_spares (htap : network.tapName ≠ other.tapName)
    (hrule : network.guestCIDR ≠ other.guestCIDR) : ∀ c ∈ cleanupScript network, c.Spares other := by
  simp [cleanupScript, NetCmd.Spares, htap, hrule]

theorem cleanup_keeps (htap : network.tapName ≠ other.tapName)
    (hrule : network.guestCIDR ≠ other.guestCIDR) {h : HostNet} (hhas : h.Has other) :
    (cleanupFirecrackerNetwork fault network h).Has other :=
  foldl_keeps (cleanupScript_spares htap hrule) hhas

theorem setup_keeps (htap : (firecrackerSessionNetwork id dns).tapName ≠ other.tapName)
    (hrule : (firecrackerSessionNetwork id dns).guestCIDR ≠ other.guestCIDR) {h : HostNet}
    (hhas : h.Has other) : (setupFirecrackerNetwork fault id dns h).2.Has other := by
  have hclean : (cleanupFirecrackerNetwork fault (firecrackerSessionNetwork id dns) h).Has other :=
    cleanup_keeps htap hrule hhas
  have hscript : (runScript fault (setupScript (firecrackerSessionNetwork id dns))
      (cleanupFirecrackerNetwork fault (firecrackerSessionNetwork id dns) h)).2.Has other :=
    runScript_keeps (setupScript_spares (firecrackerSessionNetwork id dns) other) hclean
  unfold setupFirecrackerNetwork
  dsimp only
  split
  · exact hscript
  · exact cleanup_keeps htap hrule hscript

theorem runScript_cons {c : NetCmd} {cmds : List NetCmd} {h : HostNet}
    (hok : (runScript fault (c :: cmds) h).1 = true) :
    ∃ h', c.apply h = some h' ∧ (runScript fault cmds h').1 = true ∧
      (runScript fault (c :: cmds) h).2 = (runScript fault cmds h').2 := by
  cases hrun : c.run fault h with
  | none =>
    simp only [runScript, hrun] at hok
    cases hok
  | some h' =>
    simp only [runScript, hrun] at hok ⊢
    exact ⟨h', apply_of_run hrun, hok, rfl⟩

/-- A setup that gets through leaves the device and the rule of the session. -/
theorem has_of_setup {h : HostNet} (hok : (setupFirecrackerNetwork fault id dns h).1 = some network) :
    network = firecrackerSessionNetwork id dns ∧
      (setupFirecrackerNetwork fault id dns h).2.Has network := by
  unfold setupFirecrackerNetwork at hok ⊢
  dsimp only at hok ⊢
  split at hok
  · rename_i hthrough
    cases hok
    refine ⟨rfl, ?_⟩
    rw [if_pos hthrough]
    generalize cleanupFirecrackerNetwork fault (firecrackerSessionNetwork id dns) h = h₀ at hthrough
    generalize firecrackerSessionNetwork id dns = network at hthrough
    have hspares := setupScript_spares network network
    unfold setupScript at hthrough hspares ⊢
    simp only [List.forall_mem_cons] at hspares
    -- the device is there after the first command, the rule after the fifth
    obtain ⟨h₁, hadd, hthrough, heq₁⟩ := runScript_cons hthrough
    obtain ⟨h₂, happly₂, hthrough, heq₂⟩ := runScript_cons hthrough
    obtain ⟨h₃, happly₃, hthrough, heq₃⟩ := runScript_cons hthrough
    obtain ⟨h₄, happly₄, hthrough, heq₄⟩ := runScript_cons hthrough
    obtain ⟨h₅, hrule, hthrough, heq₅⟩ := runScript_cons hthrough
    have htap₁ : network.tapName ∈ h₁.taps := by
      simp only [NetCmd.apply] at hadd
      split at hadd
      · cases hadd
      · cases hadd
        exact Finset.mem_insert_self _ _
    have htap₂ := (apply_keeps hspares.2.1 happly₂).1 htap₁
    have htap₃ := (apply_keeps hspares.2.2.1 happly₃).1 htap₂
    have htap₄ := (apply_keeps hspares.2.2.2.1 happly₄).1 htap₃
    have htap₅ := (apply_keeps hspares.2.2.2.2.1 hrule).1 htap₄
    have hrule₅ : network.guestCIDR ∈ h₅.nat := by
      cases hrule
      exact mem_addRule_self _ _
    rw [heq₁, heq₂, heq₃, heq₄, heq₅]
    exact runScript_keeps (List.forall_mem_cons.mpr ⟨hspares.2.2.2.2.2.1, List.forall_mem_cons.mpr
      ⟨hspares.2.2.2.2.2.2.1, fun _ h => absurd h List.not_mem_nil⟩⟩) ⟨htap₅, hrule₅⟩
  · cases hok

/-! ## Two sessions -/

/-- The ids differ in what the code derives networks from: the hash modulo 12000 and the first ten
characters that are no dashes. -/
def Apart (id id' : Text) : Prop :=
  (fnv32a id).toNat % 12000 ≠ (fnv32a id').toNat % 12000 ∧ tapSuffix id ≠ tapSuffix id'

/-- The two sessions have separate networks: no address is in both blocks, the tap devices have different
names, and neither setting up nor cleaning up the first takes anything from the second. -/
structure Separate (dns id id' : Text) : Prop where
  blocks : ∀ a, sessionBlock id ≤ a → a ≤ sessionBlock id + 3 →
    ¬ (sessionBlock id' ≤ a ∧ a ≤ sessionBlock id' + 3)
  taps : (firecrackerSessionNetwork id dns).tapName ≠ (firecrackerSessionNetwork id' dns).tapName
  spared : ∀ (fault : NetCmd → Bool) (h : HostNet), h.Has (firecrackerSessionNetwork id' dns) →
    (setupFirecrackerNetwork fault id dns h).2.Has (firecrackerSessionNetwork id' dns) ∧
      (cleanupFirecrackerNetwork fault (firecrackerSessionNetwork id dns) h).Has
        (firecrackerSessionNetwork id' dns)

theorem tapName_eq_iff (dns id id' : Text) :
    (firecrackerSessionNetwork id dns).tapName = (firecrackerSessionNetwork id' dns).tapName ↔
      tapSuffix id = tapSuffix id' := by
  rw [(hasBlock_network id dns).2, (hasBlock_network id' dns).2, List.append_cancel_left_eq]

theorem Apart.names {id' : Text} (h : Apart id id') (dns : Text) :
    (firecrackerSessionNetwork id dns).tapName ≠ (firecrackerSessionNetwork id' dns).tapName ∧
      (firecrackerSessionNetwork id dns).guestCIDR ≠ (firecrackerSessionNetwork id' dns).guestCIDR :=
  ⟨mt (tapName_eq_iff dns id id').mp h.2, guestCIDR_ne dns dns (mt (sessionBlock_eq_iff id id').mp h.1)⟩

/-- **When two sessions have separate networks.** Every id gets the two usable addresses of a /30 block in
the range; and for any two ids the networks are separate EXACTLY if the ids differ in what the code derives
networks from. -/
theorem session_networks_separate_iff (dns id id' : Text) :
    HasBlock (firecrackerSessionNetwork id dns) (sessionBlock id) ∧
      (Separate dns id id' ↔ Apart id id') := by
  have haligned := fun id => (hasBlock_network id dns).1.aligned
  refine ⟨(hasBlock_network id dns).1, fun h => ⟨?_, ?_⟩, fun h => ⟨?_, (h.names dns).1, fun fault host hhas =>
    ⟨setup_keeps (h.names dns).1 (h.names dns).2 hhas, cleanup_keeps (h.names dns).1 (h.names dns).2 hhas⟩⟩⟩
  · exact mt (sessionBlock_eq_iff id id').mpr
      ((blocks_disjoint_iff (haligned id) (haligned id')).mp h.blocks)
  · exact mt (tapName_eq_iff dns id id').mpr h.taps
  · exact (blocks_disjoint_iff (haligned id) (haligned id')).mpr (mt (sessionBlock_eq_iff id id').mp h.1)

/-- Two session ids, as `uuid.NewString` makes them. -/
def sessionA : String := "424e617b-4a6f-4af6-baf1-d96ecd502d42"
def sessionB : String := "a3b48c4a-6bce-46dd-bb96-10f41a004483"

/-- A host on which the second session runs. -/
def hostOfB : HostNet :=
  (setupFirecrackerNetwork (fun _ => false) (utf8 sessionB) [] ⟨∅, ∅, ∅, false, [], [], []⟩).2

/-- **Two live sessions with one block**: setting up the first removes the masquerading rule of the second
and makes it its own, and cleaning up the first leaves the second without one. -/
theorem sessions_share_block :
    IsUUID sessionA ∧ IsUUID sessionB ∧ sessionA ≠ sessionB ∧
      sessionBlock (utf8 sessionA) = sessionBlock (utf8 sessionB) ∧
      hostOfB.Has (firecrackerSessionNetwork (utf8 sessionB) []) ∧
      ¬ (cleanupFirecrackerNetwork (fun _ => false) (firecrackerSessionNetwork (utf8 sessionA) [])
          (setupFirecrackerNetwork (fun _ => false) (utf8 sessionA) [] hostOfB).2).Has
        (firecrackerSessionNetwork (utf8 sessionB) []) ∧
      ¬ Separate [] (utf8 sessionA) (utf8 sessionB) := by
  have hrun : IsUUID sessionA ∧ IsUUID sessionB ∧ sessionA ≠ sessionB ∧
      sessionBlock (utf8 sessionA) = sessionBlock (utf8 sessionB) ∧
      hostOfB.Has (firecrackerSessionNetwork (utf8 sessionB) []) ∧
      ¬ (cleanupFirecrackerNetwork (fun _ => false) (firecrackerSessionNetwork (utf8 sessionA) [])
          (setupFirecrackerNetwork (fun _ => false) (utf8 sessionA) [] hostOfB).2).Has
        (firecrackerSessionNetwork (utf8 sessionB) []) := by decide +kernel
  obtain ⟨ha, hb, hne, hblock, hhas, hlost⟩ := hrun
  refine ⟨ha, hb, hne, hblock, hhas, hlost, fun h => ?_⟩
  exact h.blocks _ le_rfl (by omega) ⟨hblock.symm.le, by omega⟩

/-! ## All sessions of a node -/

/-- A network is set up or cleaned up, some commands failing. -/
inductive NetEvent where
  | setup (id : Text) (fault : NetCmd → Bool)
  | cleanup (id : Text) (fault : NetCmd → Bool)

/-- The host, and the sessions whose network was set up and not cleaned up. -/
structure NodeNet where
  host : HostNet
  live : List Text

def NodeNet.step (dns : Text) (s : NodeNet) : NetEvent → NodeNet
  | .setup id fault =>
    let out := setupFirecrackerNetwork fault id dns s.host
    ⟨out.2, if out.1.isSome then id :: s.live else s.live⟩
  | .cleanup id fault =>
    ⟨cleanupFirecrackerNetwork fault (firecrackerSessionNetwork id dns) s.host,
      s.live.filter fun other => other ≠ id⟩

/-- The session is new, and its id is apart from those of the live sessions. -/
def NodeNet.Admits (s : NodeNet) : NetEvent → Prop
  | .setup id _ => ∀ other ∈ s.live, Apart id other
  | .cleanup id _ => ∀ other ∈ s.live, other ≠ id → Apart id other

/-- Every event of a run is admitted in the state it meets. -/
def NodeNet.AdmitsAll (dns : Text) : NodeNet → List NetEvent → Prop
  | _, [] => True
  | s, e :: rest => s.Admits e ∧ (s.step dns e).AdmitsAll dns rest

/-- Every live session has its tap device and its masquerading rule. -/
def NodeNet.Provisioned (dns : Text) (s : NodeNet) : Prop :=
  ∀ id ∈ s.live, s.host.Has (firecrackerSessionNetwork id dns)

theorem NodeNet.Provisioned.step {s : NodeNet} (h : s.Provisioned dns) {e : NetEvent}
    (hadmits : s.Admits e) : (s.step dns e).Provisioned dns := by
  cases e with
  | setup id fault =>
    have hothers : ∀ other ∈ s.live,
        (setupFirecrackerNetwork fault id dns s.host).2.Has (firecrackerSessionNetwork other dns) :=
      fun other hother => setup_keeps ((hadmits other hother).names dns).1
        ((hadmits other hother).names dns).2 (h other hother)
    unfold NodeNet.step NodeNet.Provisioned
    dsimp only
    cases hout : (setupFirecrackerNetwork fault id dns s.host).1 with
    | none =>
      rw [Option.isSome_none, if_neg Bool.false_ne_true]
      exact hothers
    | some network =>
      rw [Option.isSome_some, if_pos rfl, List.forall_mem_cons]
      obtain ⟨rfl, hhas⟩ := has_of_setup hout
      exact ⟨hhas, hothers⟩
  | cleanup id fault =>
    intro other hother
    obtain ⟨hlive, hne⟩ := List.mem_filter.mp hother
    have hapart := hadmits other hlive (by simpa using hne)
    exact cleanup_keeps (hapart.names dns).1 (hapart.names dns).2 (h other hlive)

/-- **A node whose live sessions are apart**: in every state of every run, each live session has its tap
device and its masquerading rule. -/
theorem live_networks_kept {events : List NetEvent} {s : NodeNet} (h : s.Provisioned dns)
    (hadmits : s.AdmitsAll dns events) : (events.foldl (NodeNet.step dns) s).Provisioned dns := by
  induction events generalizing s with
  | nil => exact h
  | cons e events ih => exact ih (h.step hadmits.1) hadmits.2

end OrcaBlocks.Services
