/-
# OrcaBlocks.Services.BootArgs — the kernel command line between the node service and `orca-init`.

The node passes the parameters of a run to the guest in the boot arguments of the VM
(`firecrackerBootArgs` and `imageRootFSBootArgs` of `cmd/node-service`), and `orca-init` reads them back
from `/proc/cmdline` (`cmdlineValue`, `decodeOptional` and `imageEnv` of `cmd/orca-init`). The format is a
line of words; a parameter is a word `orca.name=value`, text is in base64, and the list of environment
entries is ONE value: the entries joined with newlines.

`imageRootFSBootArgs_words` brings the line the node writes into the shape of `OrcaBlocks.Lib.Text`, words
and settings, and every field is then a lookup. All of them come back, except that an environment entry
that holds a newline comes back as several: `bootArgs_survive_iff`.
-/
import OrcaBlocks.Lib.Base64
import OrcaBlocks.Lib.Text

namespace OrcaBlocks.Services

open OrcaBlocks.Lib

/-! ## The node's side -/

/-- `firecrackerNetwork`. -/
structure FirecrackerNetwork where
  tapName : Text
  hostCIDR : Text
  guestCIDR : Text
  gatewayIP : Text
  guestIP : Text
  guestMAC : Text
  dns : Text
  deriving DecidableEq, Repr

/-- The boot arguments of the modes that do not boot an image. -/
def firecrackerBootArgs (bootMode mode payload dataDevice : Text) (waitForHost : Bool) : Text :=
  let afterOK := if waitForHost then ascii "wait" else ascii "reboot"
  let base :=
    ascii "console=ttyS0 quiet loglevel=0 reboot=k panic=1 pci=off init=/init orca.mode=" ++ mode ++
      ascii " orca.payload_b64=" ++ Base64.encode payload ++ ascii " orca.data_dev=" ++ dataDevice ++
      ascii " orca.after_ok=" ++ afterOK
  if bootMode = ascii "rootfs" then ascii "root=/dev/vda rw " ++ base else base

/-- The command `imageRootFSBootArgs` sends for an empty one. -/
def defaultCommand : Text := ascii "cat /etc/orca-image-ref"

/-- The boot arguments of the modes that boot an image. -/
def imageRootFSBootArgs (command : Text) (readOnly tty : Bool) (workingDir : Text) (env : List Text)
    (user : Text) (network : Option FirecrackerNetwork) : Text :=
  let command := if command = [] then defaultCommand else command
  let rootMode := if readOnly then ascii "ro" else ascii "rw"
  let ttyArg := if tty then ascii " orca.tty=1" else []
  let workdirArg :=
    if workingDir ≠ [] then ascii " orca.workdir_b64=" ++ Base64.encode workingDir else []
  let envArg :=
    if env.length > 0 then ascii " orca.env_b64=" ++ Base64.encode ([10].intercalate env) else []
  let userArg := if user ≠ [] then ascii " orca.user_b64=" ++ Base64.encode user else []
  let netArg :=
    match network with
    | some network =>
      ascii " orca.net_ip=" ++ network.guestCIDR ++ ascii " orca.net_gateway=" ++
        network.gatewayIP ++ ascii " orca.net_dns=" ++ network.dns
    | none => []
  ascii "root=/dev/vda " ++ rootMode ++
    ascii " console=ttyS0 quiet loglevel=0 reboot=k panic=1 pci=off init=/init orca.command_b64=" ++
    Base64.encode command ++ ttyArg ++ workdirArg ++ envArg ++ userArg ++ netArg

/-! ## The guest's side -/

/-- `cmdlineValue`, where `/proc/cmdline` holds `cmdline`. -/
def cmdlineValue (cmdline key : Text) : Text := settingValue (fields cmdline) key

/-- `decodeOptional`. A value that does not decode counts as absent. -/
def decodeOptional (cmdline key : Text) : Text :=
  let value := cmdlineValue cmdline key
  if value = [] then [] else (Base64.decode value).getD []

/-- `imageEnv`, where `os.Environ()` is `environ`. -/
def imageEnv (cmdline : Text) (environ : List Text) : List Text :=
  let envText := decodeOptional cmdline (ascii "orca.env_b64")
  if envText = [] then environ
  else environ ++ (envText.splitOn 10).filter fun line => line ≠ []

/-- The command `main` and `runTTY` decode: empty if there is none, no value if it does not decode. -/
def decodeCommand (cmdline : Text) : Option Text :=
  let command := cmdlineValue cmdline (ascii "orca.command_b64")
  if command = [] then some [] else Base64.decode command

/-! ## The line as words and settings -/

/-- The words between the first one and the settings. -/
def fixedWords (readOnly : Bool) : List Text :=
  [if readOnly then ascii "ro" else ascii "rw", ascii "console=ttyS0", ascii "quiet",
    ascii "loglevel=0", ascii "reboot=k", ascii "panic=1", ascii "pci=off", ascii "init=/init"]

/-- The settings of a network. -/
def networkSettings (network : Option FirecrackerNetwork) : List (Text × Text) :=
  match network with
  | some network =>
    [(ascii "orca.net_ip", network.guestCIDR), (ascii "orca.net_gateway", network.gatewayIP),
      (ascii "orca.net_dns", network.dns)]
  | none => []

/-- The settings of the line. -/
def imageSettings (command : Text) (tty : Bool) (workingDir : Text) (env : List Text) (user : Text)
    (network : Option FirecrackerNetwork) : List (Text × Text) :=
  (ascii "orca.command_b64", Base64.encode (if command = [] then defaultCommand else command)) ::
    ((if tty then [(ascii "orca.tty", ascii "1")] else []) ++
      (if workingDir ≠ [] then [(ascii "orca.workdir_b64", Base64.encode workingDir)] else []) ++
      (if env.length > 0 then
        [(ascii "orca.env_b64", Base64.encode ([10].intercalate env))] else []) ++
      (if user ≠ [] then [(ascii "orca.user_b64", Base64.encode user)] else []) ++
      networkSettings network)

/-- The words of the settings. -/
def settingWords (settings : List (Text × Text)) : List Text := settings.map fun s => setting s.1 s.2

/-- Settings behind blanks, as the format strings write them. -/
theorem spaced_settingWords_cons (key value : Text) (rest : List (Text × Text)) :
    spaced (settingWords ((key, value) :: rest)) =
      32 :: (key ++ [61]) ++ value ++ spaced (settingWords rest) := by
  simp [spaced, settingWords, setting]

theorem spaced_settingWords_append (a b : List (Text × Text)) :
    spaced (settingWords (a ++ b)) = spaced (settingWords a) ++ spaced (settingWords b) := by
  rw [settingWords, List.map_append, spaced_append]
  rfl

/-- A setting that is there only under a condition. -/
theorem spaced_settingWords_if (c : Prop) [Decidable c] (value : Text) {key text : Text}
    (h : text = 32 :: (key ++ [61])) :
    spaced (settingWords (if c then [(key, value)] else [])) = if c then text ++ value else [] := by
  split
  · rw [spaced_settingWords_cons, h]
    simp [settingWords, spaced]
  · rfl

theorem spaced_networkSettings (network : Option FirecrackerNetwork) :
    spaced (settingWords (networkSettings network)) =
      match network with
      | some network =>
        ascii " orca.net_ip=" ++ network.guestCIDR ++ ascii " orca.net_gateway=" ++
          network.gatewayIP ++ ascii " orca.net_dns=" ++ network.dns
      | none => [] := by
  cases network with
  | none => rfl
  | some network =>
    rw [networkSettings]
    simp only [spaced_settingWords_cons]
    rw [show ascii " orca.net_ip=" = 32 :: (ascii "orca.net_ip" ++ [61]) from rfl,
      show ascii " orca.net_gateway=" = 32 :: (ascii "orca.net_gateway" ++ [61]) from rfl,
      show ascii " orca.net_dns=" = 32 :: (ascii "orca.net_dns" ++ [61]) from rfl]
    simp [settingWords, spaced]

/-- Base64 text holds no white space. -/
theorem plain_of_base64 {c : UInt8} (h : Base64.IsPlain c) : Plain c := by
  have hall : ∀ n < 256, ((Base64.value (UInt8.ofNat n)).isSome ∨ UInt8.ofNat n = Base64.pad) →
      Plain (UInt8.ofNat n) := by decide +kernel
  have hc := hall c.toNat c.toNat_lt
  rw [UInt8.ofNat_toNat] at hc
  exact hc h

theorem spaceless_encode (bytes : Text) : Spaceless (Base64.encode bytes) :=
  spaceless_of_plain fun c hc => plain_of_base64 (Base64.plain_encode bytes c hc)

/-- A key of a setting: ASCII, no blank and no `=`. -/
def IsKey (key : Text) : Prop := (∀ b ∈ key, Plain b) ∧ 61 ∉ key

/-- A literal is a key if its characters are. -/
theorem isKey_ofList {cs : List Char} (h : ∀ c ∈ cs, 32 < c.toNat ∧ c.toNat < 128 ∧ c.toNat ≠ 61) :
    IsKey (ascii (String.ofList cs)) := by
  rw [ascii_ofList]
  constructor
  · rw [List.forall_mem_map]
    exact fun c hc => plain_ofNat (h c hc).1 (h c hc).2.1
  · intro hmem
    obtain ⟨c, hc, heq⟩ := List.mem_map.mp hmem
    obtain ⟨-, hhi, hne⟩ := h c hc
    rw [← UInt8.toNat_inj, UInt8.toNat_ofNat'] at heq
    change c.toNat % 256 = 61 at heq
    omega

/-- The parameters `orca-init` asks for. -/
def paramKeys : List Text :=
  [ascii "orca.command_b64", ascii "orca.tty", ascii "orca.workdir_b64", ascii "orca.env_b64",
    ascii "orca.user_b64", ascii "orca.net_ip", ascii "orca.net_gateway", ascii "orca.net_dns"]

theorem paramKeys_isKey : ∀ key ∈ paramKeys, IsKey key := by
  simp only [paramKeys, List.forall_mem_cons]
  refine ⟨?_, ?_, ?_, ?_, ?_, ?_, ?_, ?_, List.forall_mem_nil _⟩ <;> exact isKey_ofList (by simp)

theorem setting_word {key value : Text} (hkey : IsKey key) (hvalue : Spaceless value) :
    setting key value ≠ [] ∧ Spaceless (setting key value) := by
  have heq : ∀ b ∈ key ++ [61], Plain b := by
    rw [List.forall_mem_append]
    exact ⟨hkey.1, List.forall_mem_singleton.mpr (by decide)⟩
  constructor
  · simp [setting]
  · rw [setting, ← List.singleton_append, ← List.append_assoc]
    exact hvalue.append_plain heq

/-- The fields of a network that reach the guest hold no white space. -/
def FirecrackerNetwork.Clean (network : FirecrackerNetwork) : Prop :=
  Spaceless network.guestCIDR ∧ Spaceless network.gatewayIP ∧ Spaceless network.dns

section Line

variable (command : Text) (readOnly tty : Bool) (workingDir : Text) (env : List Text) (user : Text)
  (network : Option FirecrackerNetwork)

/-- **The line the node writes**, word by word. -/
theorem imageRootFSBootArgs_words : imageRootFSBootArgs command readOnly tty workingDir env user network =
      ascii "root=/dev/vda" ++ spaced (fixedWords readOnly ++
        settingWords (imageSettings command tty workingDir env user network)) := by
  have hfixed : ascii "root=/dev/vda " ++ (if readOnly then ascii "ro" else ascii "rw") ++
      ascii " console=ttyS0 quiet loglevel=0 reboot=k panic=1 pci=off init=/init orca.command_b64=" =
        ascii "root=/dev/vda" ++ spaced (fixedWords readOnly) ++
          32 :: (ascii "orca.command_b64" ++ [61]) := by
    cases readOnly with
    | false => rfl
    | true => rfl
  have htty : (if tty then ascii " orca.tty=1" else []) =
      spaced (settingWords (if tty then [(ascii "orca.tty", ascii "1")] else [])) := by
    cases tty with
    | false => rfl
    | true => rfl
  unfold imageRootFSBootArgs imageSettings
  dsimp only
  rw [hfixed, htty, spaced_append, spaced_settingWords_cons]
  simp only [spaced_settingWords_append, spaced_networkSettings, List.append_assoc]
  have hworkdir : ascii " orca.workdir_b64=" = 32 :: (ascii "orca.workdir_b64" ++ [61]) := rfl
  have henv : ascii " orca.env_b64=" = 32 :: (ascii "orca.env_b64" ++ [61]) := rfl
  have huser : ascii " orca.user_b64=" = 32 :: (ascii "orca.user_b64" ++ [61]) := rfl
  rw [spaced_settingWords_if _ _ hworkdir, spaced_settingWords_if _ _ henv,
    spaced_settingWords_if _ _ huser]

/-- Every setting of the line is a word. -/
theorem imageSettings_clean (hnetwork : ∀ n ∈ network, n.Clean) :
    ∀ s ∈ imageSettings command tty workingDir env user network, IsKey s.1 ∧ Spaceless s.2 := by
  have hopt : ∀ {c : Prop} [Decidable c] {key value : Text}, IsKey key → Spaceless value →
      ∀ s ∈ (if c then [(key, value)] else []), IsKey s.1 ∧ Spaceless s.2 := by
    intro c _ key value hkey hvalue s hs
    split at hs
    · rw [List.mem_singleton] at hs
      rw [hs]
      exact ⟨hkey, hvalue⟩
    · cases hs
  have hkeys := paramKeys_isKey
  simp only [paramKeys, List.forall_mem_cons] at hkeys
  obtain ⟨hcommand, htty, hworkdir, henv, huser, hnetIP, hnetGateway, hnetDNS, -⟩ := hkeys
  have hnet : ∀ s ∈ networkSettings network, IsKey s.1 ∧ Spaceless s.2 := by
    cases network with
    | none => simp [networkSettings]
    | some n =>
      obtain ⟨hip, hgateway, hdns⟩ := hnetwork n rfl
      simp only [networkSettings, List.forall_mem_cons]
      exact ⟨⟨hnetIP, hip⟩, ⟨hnetGateway, hgateway⟩, ⟨hnetDNS, hdns⟩, by simp⟩
  unfold imageSettings
  simp only [List.forall_mem_cons, List.forall_mem_append]
  exact ⟨⟨hcommand, spaceless_encode _⟩,
    ⟨⟨⟨hopt htty (by decide +kernel), hopt hworkdir (spaceless_encode _)⟩, hopt henv (spaceless_encode _)⟩,
      hopt huser (spaceless_encode _)⟩, hnet⟩

/-- None of them is one of the kernel's own words: these begin with other letters. -/
theorem paramKeys_fixed : ∀ key ∈ paramKeys, IsKey key ∧
    ∀ word ∈ ascii "root=/dev/vda" :: fixedWords readOnly, (key ++ [61]).isPrefixOf word = false := by
  have hkeys : ∀ key ∈ paramKeys, key.head? = some 111 := by decide +kernel
  have hwords : ∀ word ∈ ascii "root=/dev/vda" :: fixedWords readOnly, word.head? ≠ some 111 := by
    cases readOnly with
    | false => decide +kernel
    | true => decide +kernel
  intro key hkey
  refine ⟨paramKeys_isKey key hkey, fun word hword => ?_⟩
  obtain ⟨rest, rfl⟩ := List.head?_eq_some_iff.mp (hkeys key hkey)
  have hne := hwords word hword
  rw [List.cons_append]
  cases word with
  | nil => rfl
  | cons b word =>
    have hb : (111 : UInt8) ≠ b := fun heq => hne (heq ▸ rfl)
    simp [List.isPrefixOf, hb]

variable {command readOnly tty workingDir env user network} in
/-- **Reading the line back**: a parameter is looked up among the settings. -/
theorem cmdlineValue_image (hnetwork : ∀ n ∈ network, n.Clean) {key : Text} (hparam : key ∈ paramKeys) :
    cmdlineValue (imageRootFSBootArgs command readOnly tty workingDir env user network) key =
      ((imageSettings command tty workingDir env user network).lookup key).getD [] := by
  obtain ⟨hkey, hfixed⟩ := paramKeys_fixed readOnly key hparam
  have hclean := imageSettings_clean command tty workingDir env user network hnetwork
  have hwords : ∀ w ∈ ascii "root=/dev/vda" :: (fixedWords readOnly ++
      settingWords (imageSettings command tty workingDir env user network)),
        w ≠ [] ∧ Spaceless w := by
    rw [← List.cons_append, List.forall_mem_append]
    refine ⟨?_, fun w hw => ?_⟩
    · cases readOnly with
      | false => decide
      | true => decide
    · obtain ⟨s, hs, rfl⟩ := List.mem_map.mp hw
      exact setting_word (hclean s hs).1 (hclean s hs).2
  rw [cmdlineValue, imageRootFSBootArgs_words, fields_spaced hwords, ← List.cons_append]
  exact settingValue_settings hfixed hkey.2 fun s hs => (hclean s hs).1.2

/-- What each parameter is set to. The first setting with the key counts, and no two have the same. -/
theorem lookup_imageSettings :
    (imageSettings command tty workingDir env user network).lookup (ascii "orca.command_b64") =
        some (Base64.encode (if command = [] then defaultCommand else command)) ∧
      (imageSettings command tty workingDir env user network).lookup (ascii "orca.tty") =
        (if tty then some (ascii "1") else none) ∧
      (imageSettings command tty workingDir env user network).lookup (ascii "orca.workdir_b64") =
        (if workingDir ≠ [] then some (Base64.encode workingDir) else none) ∧
      (imageSettings command tty workingDir env user network).lookup (ascii "orca.env_b64") =
        (if env.length > 0 then some (Base64.encode ([10].intercalate env)) else none) ∧
      (imageSettings command tty workingDir env user network).lookup (ascii "orca.user_b64") =
        (if user ≠ [] then some (Base64.encode user) else none) ∧
      ∀ key ∈ [ascii "orca.net_ip", ascii "orca.net_gateway", ascii "orca.net_dns"],
        (imageSettings command tty workingDir env user network).lookup key =
          (networkSettings network).lookup key := by
  have hhit : ∀ {c : Prop} [Decidable c] {name value : Text} (rest : List (Text × Text)),
      ((if c then [(name, value)] else []) ++ rest).lookup name =
        if c then some value else rest.lookup name := by
    intro c _ name value rest
    split
    · exact List.lookup_cons_self
    · rfl
  have hskip : ∀ {c : Prop} [Decidable c] {key name value : Text} (rest : List (Text × Text)),
      key ≠ name → ((if c then [(name, value)] else []) ++ rest).lookup key = rest.lookup key := by
    intro c _ key name value rest hne
    split
    · rw [List.singleton_append, List.lookup_cons, beq_eq_false_iff_ne.mpr hne]
    · rfl
  have hcommand : ∀ {key value : Text} (rest : List (Text × Text)), key ≠ ascii "orca.command_b64" →
      ((ascii "orca.command_b64", value) :: rest).lookup key = rest.lookup key := by
    intro key value rest hne
    rw [List.lookup_cons, beq_eq_false_iff_ne.mpr hne]
  have hnet : ∀ {key : Text}, key ≠ ascii "orca.net_ip" → key ≠ ascii "orca.net_gateway" →
      key ≠ ascii "orca.net_dns" → (networkSettings network).lookup key = none := by
    intro key h₁ h₂ h₃
    cases network with
    | none => rfl
    | some n =>
      rw [networkSettings]
      simp only [List.lookup_cons, beq_eq_false_iff_ne.mpr h₁, beq_eq_false_iff_ne.mpr h₂,
        beq_eq_false_iff_ne.mpr h₃, List.lookup_nil]
  unfold imageSettings
  simp only [List.append_assoc]
  refine ⟨List.lookup_cons_self, ?_, ?_, ?_, ?_, fun key hkey => ?_⟩
  · rw [hcommand _ (by decide), hhit, hskip _ (by decide), hskip _ (by decide), hskip _ (by decide),
      hnet (by decide) (by decide) (by decide)]
  · rw [hcommand _ (by decide), hskip _ (by decide), hhit, hskip _ (by decide), hskip _ (by decide),
      hnet (by decide) (by decide) (by decide)]
  · rw [hcommand _ (by decide), hskip _ (by decide), hskip _ (by decide), hhit, hskip _ (by decide),
      hnet (by decide) (by decide) (by decide)]
  · rw [hcommand _ (by decide), hskip _ (by decide), hskip _ (by decide), hskip _ (by decide), hhit,
      hnet (by decide) (by decide) (by decide)]
  · have hne : ∀ key ∈ [ascii "orca.net_ip", ascii "orca.net_gateway", ascii "orca.net_dns"],
        key ≠ ascii "orca.command_b64" ∧ key ≠ ascii "orca.tty" ∧ key ≠ ascii "orca.workdir_b64" ∧
          key ≠ ascii "orca.env_b64" ∧ key ≠ ascii "orca.user_b64" := by decide
    obtain ⟨h₁, h₂, h₃, h₄, h₅⟩ := hne key hkey
    rw [hcommand _ h₁, hskip _ h₂, hskip _ h₃, hskip _ h₄, hskip _ h₅]

end Line

/-! ## What comes back -/

/-- An optional text that was encoded, or left out because it is empty. -/
theorem decodeOptional_of_value {cmdline key text : Text} {value : Option Text} {c : Prop}
    [Decidable c] (h : cmdlineValue cmdline key = value.getD [])
    (hvalue : value = if c then some (Base64.encode text) else none) (hc : ¬ c → text = []) :
    decodeOptional cmdline key = text := by
  unfold decodeOptional
  rw [h, hvalue]
  dsimp only
  by_cases htext : text = []
  · have hempty : (if c then some (Base64.encode text) else none).getD [] = [] := by
      split
      · rw [htext]
        rfl
      · rfl
    rw [if_pos hempty, htext]
  · have hyes : c := by_contra fun hno => htext (hc hno)
    rw [if_pos hyes, Option.getD_some, if_neg (mt Base64.encode_eq_nil.mp htext),
      Base64.decode_encode]
    rfl

section ReadBack

variable {network : Option FirecrackerNetwork} (hnetwork : ∀ n ∈ network, n.Clean)
  (command : Text) (readOnly tty : Bool) (workingDir : Text) (env : List Text) (user : Text)

include hnetwork

theorem decodeCommand_image :
    decodeCommand (imageRootFSBootArgs command readOnly tty workingDir env user network) =
      some (if command = [] then defaultCommand else command) := by
  have hne : (if command = [] then defaultCommand else command) ≠ [] := by
    split
    · decide
    · assumption
  unfold decodeCommand
  rw [cmdlineValue_image hnetwork (by decide),
    (lookup_imageSettings command tty workingDir env user network).1]
  dsimp only
  rw [Option.getD_some, if_neg (mt Base64.encode_eq_nil.mp hne), Base64.decode_encode]

theorem tty_image :
    cmdlineValue (imageRootFSBootArgs command readOnly tty workingDir env user network)
      (ascii "orca.tty") = ascii "1" ↔ tty = true := by
  rw [cmdlineValue_image hnetwork (by decide),
    (lookup_imageSettings command tty workingDir env user network).2.1]
  cases tty with
  | false => decide
  | true => decide

theorem workdir_image :
    decodeOptional (imageRootFSBootArgs command readOnly tty workingDir env user network)
      (ascii "orca.workdir_b64") = workingDir :=
  decodeOptional_of_value (cmdlineValue_image hnetwork (by decide))
    (lookup_imageSettings command tty workingDir env user network).2.2.1 not_not.mp

theorem user_image :
    decodeOptional (imageRootFSBootArgs command readOnly tty workingDir env user network)
      (ascii "orca.user_b64") = user :=
  decodeOptional_of_value (cmdlineValue_image hnetwork (by decide))
    (lookup_imageSettings command tty workingDir env user network).2.2.2.2.1 not_not.mp

/-- The entries that arrive are the non-empty lines of what was joined. -/
theorem imageEnv_image (environ : List Text) :
    imageEnv (imageRootFSBootArgs command readOnly tty workingDir env user network) environ =
      environ ++ (([10].intercalate env).splitOn 10).filter fun line => line ≠ [] := by
  have htext : decodeOptional (imageRootFSBootArgs command readOnly tty workingDir env user network)
      (ascii "orca.env_b64") = [10].intercalate env := by
    refine decodeOptional_of_value (cmdlineValue_image hnetwork (by decide))
      (lookup_imageSettings command tty workingDir env user network).2.2.2.1 fun hno => ?_
    have hnil : env = [] := List.length_eq_zero_iff.mp (by omega)
    rw [hnil]
    rfl
  unfold imageEnv
  rw [htext]
  dsimp only
  split
  · rename_i hnil
    rw [hnil]
    simp
  · rfl

theorem net_image :
    cmdlineValue (imageRootFSBootArgs command readOnly tty workingDir env user network)
        (ascii "orca.net_ip") = (network.map (·.guestCIDR)).getD [] ∧
      cmdlineValue (imageRootFSBootArgs command readOnly tty workingDir env user network)
        (ascii "orca.net_gateway") = (network.map (·.gatewayIP)).getD [] ∧
      cmdlineValue (imageRootFSBootArgs command readOnly tty workingDir env user network)
        (ascii "orca.net_dns") = (network.map (·.dns)).getD [] := by
  have hnet := (lookup_imageSettings command tty workingDir env user network).2.2.2.2.2
  rw [cmdlineValue_image hnetwork (by decide),
    cmdlineValue_image hnetwork (by decide),
    cmdlineValue_image hnetwork (by decide), hnet _ (by decide), hnet _ (by decide),
    hnet _ (by decide)]
  cases network with
  | none => exact ⟨rfl, rfl, rfl⟩
  | some n => exact ⟨rfl, rfl, rfl⟩

end ReadBack

/-- A list of non-empty entries joined with newlines is cut into the same list exactly if no entry holds
a newline. -/
theorem filter_splitOn_eq_iff {env : List Text} (hentries : ∀ entry ∈ env, entry ≠ []) :
    (([10].intercalate env).splitOn 10).filter (fun line => line ≠ []) = env ↔
      ∀ entry ∈ env, 10 ∉ entry := by
  constructor
  · intro h entry hentry
    rw [← h] at hentry
    exact not_mem_of_mem_splitOn (List.mem_filter.mp hentry).1
  · intro h
    by_cases henv : env = []
    · rw [henv]
      rfl
    · rw [List.splitOn_intercalate 10 h henv, List.filter_eq_self]
      intro entry hentry
      simpa using hentries entry hentry

/-- **The parameters come back from the line**: the command if there is one, and exactly the environment
entries behind those of the process. -/
structure Survive (command : Text) (tty : Bool) (workingDir : Text) (env : List Text) (user : Text)
    (network : Option FirecrackerNetwork) (cmdline : Text) : Prop where
  command : command ≠ [] → decodeCommand cmdline = some command
  tty : cmdlineValue cmdline (ascii "orca.tty") = ascii "1" ↔ tty = true
  workingDir : decodeOptional cmdline (ascii "orca.workdir_b64") = workingDir
  env : ∀ environ, imageEnv cmdline environ = environ ++ env
  user : decodeOptional cmdline (ascii "orca.user_b64") = user
  netIP : cmdlineValue cmdline (ascii "orca.net_ip") = (network.map (·.guestCIDR)).getD []
  netGateway : cmdlineValue cmdline (ascii "orca.net_gateway") = (network.map (·.gatewayIP)).getD []
  netDNS : cmdlineValue cmdline (ascii "orca.net_dns") = (network.map (·.dns)).getD []

/-- **When the boot parameters survive.** For every command, working directory, list of non-empty
environment entries, user, tty flag and network without white space: reading the boot arguments back gives
all of them EXACTLY if no environment entry holds a newline. -/
theorem bootArgs_survive_iff (command : Text) (readOnly tty : Bool) (workingDir : Text)
    (env : List Text) (user : Text) (network : Option FirecrackerNetwork)
    (hentries : ∀ entry ∈ env, entry ≠ []) (hnetwork : ∀ n ∈ network, n.Clean) :
    Survive command tty workingDir env user network
        (imageRootFSBootArgs command readOnly tty workingDir env user network) ↔
      ∀ entry ∈ env, 10 ∉ entry := by
  have henv := imageEnv_image hnetwork command readOnly tty workingDir env user
  rw [← filter_splitOn_eq_iff hentries]
  constructor
  · intro h
    have hnone := h.env []
    rwa [henv, List.nil_append, List.nil_append] at hnone
  · intro h
    obtain ⟨hip, hgateway, hdns⟩ := net_image hnetwork command readOnly tty workingDir env user
    refine ⟨fun hne => ?_, tty_image hnetwork command readOnly tty workingDir env user,
      workdir_image hnetwork command readOnly tty workingDir env user, fun environ => ?_,
      user_image hnetwork command readOnly tty workingDir env user, hip, hgateway, hdns⟩
    · rw [decodeCommand_image hnetwork, if_neg hne]
    · rw [henv, h]

/-- The network of a session, as `firecrackerSessionNetwork` names one. -/
def sampleNetwork : FirecrackerNetwork :=
  ⟨ascii "tap0a1b2c3d4e", ascii "172.30.17.9/30", ascii "172.30.17.10/30", ascii "172.30.17.9",
    ascii "172.30.17.10", ascii "06:00:12:34:56:78", ascii "1.1.1.1"⟩

/-- The parameters of an ordinary image survive. -/
theorem bootArgs_survive_iff_sample :
    Survive (ascii "npm run \"start it\"") false (ascii "/srv/my app")
      [ascii "PATH=/usr/bin:/bin", ascii "GREETING=hello world"] (ascii "node:node") (some sampleNetwork)
      (imageRootFSBootArgs (ascii "npm run \"start it\"") false false (ascii "/srv/my app")
        [ascii "PATH=/usr/bin:/bin", ascii "GREETING=hello world"] (ascii "node:node")
        (some sampleNetwork)) :=
  (bootArgs_survive_iff _ false _ _ _ _ _ (by decide) (by
    rintro n ⟨⟩
    exact ⟨by decide, by decide, by decide⟩)).mpr (by decide)

/-- **An environment entry that holds a newline arrives as two.** -/
theorem bootArgs_split_entry :
    imageEnv (imageRootFSBootArgs (ascii "env") false false [] [[65, 61, 49, 10, 66, 61, 50]] [] none)
        [ascii "HOME=/"] = [ascii "HOME=/", ascii "A=1", ascii "B=2"] ∧
      ¬ Survive (ascii "env") false [] [[65, 61, 49, 10, 66, 61, 50]] [] none
        (imageRootFSBootArgs (ascii "env") false false [] [[65, 61, 49, 10, 66, 61, 50]] [] none) := by
  have hlist : imageEnv (imageRootFSBootArgs (ascii "env") false false []
      [[65, 61, 49, 10, 66, 61, 50]] [] none) [ascii "HOME=/"] =
        [ascii "HOME=/", ascii "A=1", ascii "B=2"] := by decide +kernel
  refine ⟨hlist, fun h => ?_⟩
  have henv := h.env [ascii "HOME=/"]
  rw [hlist] at henv
  exact absurd henv (by decide)

end OrcaBlocks.Services
