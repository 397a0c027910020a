/-
# OrcaBlocks.Services.Firecracker — what the node service tells the VM monitor.

`runFirecrackerSession` of `cmd/node-service` accepts nine modes and two boot modes, gives every session a
network of its own and hands the monitor one configuration. This module holds these as data: the modes as
enumerations with the texts requests name them by, `firecrackerSessionNetwork`, and the value
`writeFirecrackerConfig` marshals.

The configuration is kept as the value, not as the JSON text of it: the monitor decodes what
`json.MarshalIndent` encoded. `track_dirty_pages` and the fields of the logger other than its path are
constants and left out.
-/
import OrcaBlocks.Lib.Path
import OrcaBlocks.Services.BootArgs
import OrcaBlocks.Storage.Types

namespace OrcaBlocks.Services

open OrcaBlocks.Lib OrcaBlocks.Storage

/-! ## Modes -/

/-- The accepted values of `firecracker_mode`. -/
inductive FirecrackerMode where
  | smoke | write | read | restore | dockerSmoke | dockerRead
  | imageRootfsSmoke | imageRootfsRun | imageRootfsTTY
  deriving DecidableEq, Repr

namespace FirecrackerMode

def text : FirecrackerMode → Text
  | smoke => ascii "smoke"
  | write => ascii "write"
  | read => ascii "read"
  | restore => ascii "restore"
  | dockerSmoke => ascii "docker-smoke"
  | dockerRead => ascii "docker-read"
  | imageRootfsSmoke => ascii "image-rootfs-smoke"
  | imageRootfsRun => ascii "image-rootfs-run"
  | imageRootfsTTY => ascii "image-rootfs-tty"

/-- In the order the source compares with them. -/
def all : List FirecrackerMode :=
  [smoke, write, read, restore, dockerSmoke, dockerRead, imageRootfsSmoke, imageRootfsRun,
    imageRootfsTTY]

def parse (s : Text) : Option FirecrackerMode := all.find? fun mode => mode.text = s

/-- `firecrackerModeWritesVolume`. -/
def writesVolume (mode : FirecrackerMode) : Bool :=
  mode = write || mode = dockerSmoke || mode = imageRootfsRun

/-- `firecrackerModeUsesSessionRootFS`. -/
def usesSessionRootFS (mode : FirecrackerMode) : Bool :=
  mode = imageRootfsSmoke || mode = imageRootfsRun || mode = imageRootfsTTY

end FirecrackerMode

/-- The supported values of `FIRECRACKER_BOOT_MODE`. -/
inductive BootMode where
  | rootfs | initramfs
  deriving DecidableEq, Repr

def BootMode.text : BootMode → Text
  | rootfs => ascii "rootfs"
  | initramfs => ascii "initramfs"

def BootMode.parse (s : Text) : Option BootMode :=
  [BootMode.rootfs, BootMode.initramfs].find? fun mode => mode.text = s

/-! ## The network of a session -/

/-- FNV-1a with 32 bits. -/
def fnv32a (bytes : Text) : UInt32 :=
  bytes.foldl (fun hash b => (hash ^^^ b.toUInt32) * 16777619) 2166136261

/-- `%d` of a number that is not negative. -/
def decimal (n : Nat) : Text := utf8 n.repr

/-- The four bytes of a word, the highest first. -/
def bytesOf (n : UInt32) : List UInt8 :=
  [(n >>> 24).toUInt8, (n >>> 16).toUInt8, (n >>> 8).toUInt8, n.toUInt8]

/-- `firecrackerSessionNetwork`. -/
def firecrackerSessionNetwork (sessionID : Text) (dns : Text) : FirecrackerNetwork :=
  let dns := if dns = [] then ascii "1.1.1.1" else dns
  let n := fnv32a sessionID
  let third := 16 + n.toNat % 200
  let base := 4 + n.toNat / 200 % 60 * 4
  let hostIP := ascii "172.30." ++ decimal third ++ ascii "." ++ decimal (base + 1)
  let guestIP := ascii "172.30." ++ decimal third ++ ascii "." ++ decimal (base + 2)
  let tapSuffix := (sessionID.filter (· ≠ 45)).take 10
  let tapSuffix := if tapSuffix = [] then utf8 (hexEncode (bytesOf n)) else tapSuffix
  { tapName := ascii "tap" ++ tapSuffix
    hostCIDR := hostIP ++ ascii "/30"
    guestCIDR := guestIP ++ ascii "/30"
    gatewayIP := hostIP
    guestIP := guestIP
    guestMAC := ascii "06:00" ++ (bytesOf n).flatMap fun b => ascii ":" ++ utf8 (hexEncode [b])
    dns := dns }

/-! ## The configuration -/

structure Drive where
  driveID : Text
  pathOnHost : Text
  isRootDevice : Bool
  isReadOnly : Bool
  deriving DecidableEq, Repr

/-- The configuration of a VM. The one network interface is `eth0`, given by its address and its device
on the host. -/
structure FirecrackerConfig where
  kernelImagePath : Text
  bootArgs : Text
  initrdPath : Option Text
  drives : List Drive
  vcpuCount : Int64
  memSizeMiB : Int64
  logPath : Text
  networkInterface : Option (Text × Text)
  deriving DecidableEq

/-- The value `writeFirecrackerConfig` marshals. -/
def firecrackerConfig (kernelPath rootfsPath : Text) (rootfsReadOnly : Bool)
    (initrdPath dataDevice : Text) (dataReadOnly : Bool) (logPath bootArgs : Text)
    (vcpuCount memoryMiB : Int64) (network : Option FirecrackerNetwork) : FirecrackerConfig where
  kernelImagePath := kernelPath
  bootArgs := bootArgs
  initrdPath := if initrdPath ≠ [] then some initrdPath else none
  drives :=
    (if rootfsPath ≠ [] then [⟨ascii "rootfs", rootfsPath, true, rootfsReadOnly⟩] else []) ++
      (if dataDevice ≠ [] then [⟨ascii "orca", dataDevice, false, dataReadOnly⟩] else [])
  vcpuCount := vcpuCount
  memSizeMiB := memoryMiB
  logPath := logPath
  networkInterface := network.map fun n => (n.guestMAC, n.tapName)

/-- The configuration `writeFirecrackerRestoreConfig` marshals. -/
structure RestoreConfig where
  snapshotPath : Text
  memFilePath : Text
  dataDevice : Text
  logPath : Text
  deriving DecidableEq

end OrcaBlocks.Services
