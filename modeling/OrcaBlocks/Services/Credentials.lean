/-
# OrcaBlocks.Services.Credentials — as whom `orca-init` runs the command of an image.

The user of an image arrives in `orca.user_b64`, as `user` or `user:group`, each a number or a name of
`/etc/passwd` and `/etc/group` in the GUEST. `imageCredential` resolves it, and the command is started with
the credential; with none, it is started as `orca-init` itself runs: as root.

What a user and a group DENOTE is said without the loops that look them up (`DenotesUser`,
`DenotesGroup`). Where both denote something the credential is the right one (`imageCredential_spec`).
Where one does not, `imageCredential` logs the error and returns no credential, and the command is started
all the same: `least_privilege_iff`.
-/
import OrcaBlocks.Services.BootArgs

namespace OrcaBlocks.Services

open OrcaBlocks.Lib

/-! ## Numbers -/

def isDigit (b : UInt8) : Bool := 48 ≤ b && b ≤ 57

/-- The value of decimal digits. -/
def numeral (s : Text) : Nat := s.foldl (fun n b => n * 10 + (b.toNat - 48)) 0

/-- `strconv.ParseUint(s, 10, 32)`. -/
def parseUint32 (s : Text) : Option UInt32 :=
  if s ≠ [] ∧ s.all isDigit ∧ numeral s < 2 ^ 32 then some (UInt32.ofNat (numeral s)) else none

/-! ## Users -/

structure PasswdEntry where
  name : Text
  uid : UInt32
  gid : UInt32
  home : Text
  deriving DecidableEq, Repr

inductive InitErr where
  | userNotFound
  | groupNotFound
  | parseUint (text : Text)
  | readFile (path : String)
  deriving DecidableEq, Repr

/-- The entry of a line: comments, short lines and lines without numbers have none. -/
def passwdLine (line : Text) : Option PasswdEntry :=
  if line = [] ∨ (ascii "#").isPrefixOf line then none
  else
    match line.splitOn 58 with
    | name :: _ :: uid :: gid :: _ :: home :: _ :: _ =>
      match parseUint32 uid, parseUint32 gid with
      | some uid, some gid => some ⟨name, uid, gid, home⟩
      | _, _ => none
    | _ => none

/-- `passwdEntries`; `passwd` is `/etc/passwd`, if it can be read. -/
def passwdEntries (passwd : Option Text) : List PasswdEntry :=
  match passwd with
  | none => []
  | some raw => (raw.splitOn 10).filterMap passwdLine

/-- `resolvePasswd`. A number without an entry is a user of its own. -/
def resolvePasswd (passwd : Option Text) (value : Text) : Except InitErr PasswdEntry :=
  let entries := passwdEntries passwd
  match parseUint32 value with
  | some id =>
    match entries.find? fun entry => entry.uid = id with
    | some entry => .ok entry
    | none => .ok ⟨value, id, id, []⟩
  | none =>
    match entries.find? fun entry => entry.name = value with
    | some entry => .ok entry
    | none => .error .userNotFound

/-! ## Groups -/

/-- A line of `/etc/group` for the group of this name, with its number. -/
def groupNumber (value line : Text) : Option Text :=
  match line.splitOn 58 with
  | name :: _ :: id :: _ => if name = value then some id else none
  | _ => none

/-- The loop of `resolveGroup`. -/
def findGroup (value : Text) : List Text → Except InitErr UInt32
  | [] => .error .groupNotFound
  | line :: rest =>
    match groupNumber value line with
    | none => findGroup value rest
    | some id =>
      match parseUint32 id with
      | some gid => .ok gid
      | none => .error (.parseUint id)

/-- `resolveGroup`; `group` is `/etc/group`, if it can be read. -/
def resolveGroup (group : Option Text) (value : Text) : Except InitErr UInt32 :=
  match parseUint32 value with
  | some id => .ok id
  | none =>
    match group with
    | none => .error (.readFile "/etc/group")
    | some raw => findGroup value (raw.splitOn 10)

/-- The group a line of `/etc/group` makes the user a member of. -/
def memberOf (username line : Text) : Option UInt32 :=
  match line.splitOn 58 with
  | _ :: _ :: id :: members :: _ => if username ∈ members.splitOn 44 then parseUint32 id else none
  | _ => none

/-- The loop of `supplementaryGroups`; `seen` holds the groups that are in the list. -/
def collectGroups (username : Text) : List Text → List UInt32 → List UInt32
  | [], groups => groups
  | line :: rest, groups =>
    match memberOf username line with
    | none => collectGroups username rest groups
    | some gid =>
      if gid ∈ groups then collectGroups username rest groups
      else collectGroups username rest (groups ++ [gid])

/-- `supplementaryGroups`. -/
def supplementaryGroups (group : Option Text) (username : Text) (primaryGID : UInt32) : List UInt32 :=
  match group with
  | none => [primaryGID]
  | some raw =>
    if username = [] then [primaryGID] else collectGroups username (raw.splitOn 10) [primaryGID]

/-! ## The credential -/

/-- The two parts of `strings.SplitN(spec, ":", 2)`; the second is empty if there is none. -/
def userPart (spec : Text) : Text := spec.takeWhile (· ≠ 58)
def groupPart (spec : Text) : Text := (spec.dropWhile (· ≠ 58)).tail

structure Credential where
  uid : UInt32
  gid : UInt32
  groups : List UInt32
  deriving DecidableEq, Repr

/-- What `orca-init` finds in the guest. -/
structure Guest where
  cmdline : Text
  passwd : Option Text
  group : Option Text
  environ : List Text
  /-- `/dev/console` can be opened. -/
  console : Bool
  deriving DecidableEq, Repr

namespace Guest

variable (g : Guest)

/-- `resolveUserSpec`. -/
def resolveUserSpec (spec : Text) : Except InitErr (PasswdEntry × UInt32) := do
  let entry ← resolvePasswd g.passwd (userPart spec)
  if groupPart spec ≠ [] then
    let gid ← resolveGroup g.group (groupPart spec)
    pure (entry, gid)
  else pure (entry, entry.gid)

/-- `imageCredential`. An error is logged. -/
def imageCredential : Option Credential × Text :=
  let spec := decodeOptional g.cmdline (ascii "orca.user_b64")
  if spec = [] then (none, [])
  else
    match g.resolveUserSpec spec with
    | .error _ => (none, [])
    | .ok (entry, gid) => (some ⟨entry.uid, gid, supplementaryGroups g.group entry.name gid⟩, entry.name)

/-! ## The command -/

/-- `appendEnvIfMissing`. -/
def appendEnvIfMissing (env : List Text) (key value : Text) : List Text :=
  if env.any fun item => (key ++ ascii "=").isPrefixOf item then env else env ++ [key ++ ascii "=" ++ value]

/-- `imageUserEnv`. -/
def imageUserEnv (env : List Text) (username : Text) : List Text :=
  if username = [] then env
  else appendEnvIfMissing (appendEnvIfMissing env (ascii "USER") username) (ascii "LOGNAME") username

/-- A command that is started. -/
structure Command where
  argv : List Text
  env : List Text
  credential : Option Credential
  dir : Text
  deriving DecidableEq, Repr

/-- The script of a terminal with a command. -/
def ttyScript : Text := ascii
  "(/bin/sh -lc \"$ORCA_ENV_COMMAND\" </dev/null 2>&1 | while IFS= read -r line; do printf 'orca-bg: %s\\n' \"$line\"; done) & exec /bin/sh -i"

/-- The command of `runTTY`. -/
def ttyCommand : Option Command := do
  let (credential, username) := g.imageCredential
  let env := imageUserEnv (imageEnv g.cmdline g.environ ++ [ascii "TERM=xterm"]) username
  let dir := decodeOptional g.cmdline (ascii "orca.workdir_b64")
  let command ← decodeCommand g.cmdline
  if ¬ g.console then none
  else if command = [] then some ⟨[ascii "/bin/sh", ascii "-i"], env, credential, dir⟩
  else
    some ⟨[ascii "/bin/sh", ascii "-lc", ttyScript], env ++ [ascii "ORCA_ENV_COMMAND=" ++ command], credential,
      dir⟩

/-- The command of `main` without a terminal. -/
def plainCommand : Option Command := do
  let command ← decodeCommand g.cmdline
  let command := if command = [] then ascii "echo orca image-rootfs ok" else command
  let dir := decodeOptional g.cmdline (ascii "orca.workdir_b64")
  let (credential, username) := g.imageCredential
  let env := imageUserEnv (imageEnv g.cmdline g.environ) username
  some ⟨[ascii "/bin/sh", ascii "-lc", command], env, credential, dir⟩

/-- The command that `orca-init` starts; `none` if it reboots instead. -/
def started : Option Command :=
  if cmdlineValue g.cmdline (ascii "orca.tty") = ascii "1" then g.ttyCommand else g.plainCommand

end Guest

/-! ## What users and groups denote -/

/-- The element is the first of the list with the property. -/
def IsFirst {α : Type} (p : α → Prop) (l : List α) (a : α) : Prop :=
  p a ∧ ∃ before after, l = before ++ a :: after ∧ ∀ b ∈ before, ¬ p b

theorem find?_eq_some_iff_isFirst {α : Type} {p : α → Prop} [DecidablePred p] {l : List α} {a : α} :
    l.find? (fun x => decide (p x)) = some a ↔ IsFirst p l a := by
  rw [List.find?_eq_some_iff_append, IsFirst, decide_eq_true_iff]
  simp only [decide_eq_false_iff_not, Bool.not_eq_eq_eq_not, Bool.not_true]

/-- The user part denotes a user: the number itself (with the first entry of that number, if there is
one), or the first entry of that name. -/
inductive DenotesUser (entries : List PasswdEntry) (user : Text) : PasswdEntry → Prop
  | number {id : UInt32} {entry : PasswdEntry} : parseUint32 user = some id →
      IsFirst (fun e => e.uid = id) entries entry → DenotesUser entries user entry
  | bareNumber {id : UInt32} : parseUint32 user = some id → (∀ e ∈ entries, e.uid ≠ id) →
      DenotesUser entries user ⟨user, id, id, []⟩
  | name {entry : PasswdEntry} : parseUint32 user = none →
      IsFirst (fun e => e.name = user) entries entry → DenotesUser entries user entry

/-- The group part denotes a group: the number itself, or the number in the first line of that name. -/
inductive DenotesGroup (group : Option Text) (value : Text) : UInt32 → Prop
  | number {gid : UInt32} : parseUint32 value = some gid → DenotesGroup group value gid
  | name {raw line id : Text} {gid : UInt32} : parseUint32 value = none → group = some raw →
      IsFirst (fun l => (groupNumber value l).isSome) (raw.splitOn 10) line →
      groupNumber value line = some id → parseUint32 id = some gid → DenotesGroup group value gid

/-- The user and the primary group of a user string. -/
structure Denotes (g : Guest) (spec : Text) (entry : PasswdEntry) (gid : UInt32) : Prop where
  user : DenotesUser (passwdEntries g.passwd) (userPart spec) entry
  group : if groupPart spec ≠ [] then DenotesGroup g.group (groupPart spec) gid else gid = entry.gid

/-- A line of `/etc/group` lists the user as a member of the group. -/
def Lists (group : Option Text) (username : Text) (gid : UInt32) : Prop :=
  ∃ raw, group = some raw ∧ ∃ line ∈ raw.splitOn 10, memberOf username line = some gid

theorem resolvePasswd_ok_iff {passwd : Option Text} {value : Text} {entry : PasswdEntry} :
    resolvePasswd passwd value = .ok entry ↔ DenotesUser (passwdEntries passwd) value entry := by
  unfold resolvePasswd
  dsimp only
  cases hnum : parseUint32 value with
  | some id =>
    dsimp only
    cases hfind : (passwdEntries passwd).find? fun e => decide (e.uid = id) with
    | some e =>
      dsimp only
      have hfirst := find?_eq_some_iff_isFirst.mp hfind
      constructor
      · rintro ⟨⟩
        exact .number hnum hfirst
      · intro h
        cases h with
        | number hnum' hfirst' =>
          rw [hnum] at hnum'
          cases hnum'
          rw [find?_eq_some_iff_isFirst.mpr hfirst'] at hfind
          cases hfind
          rfl
        | bareNumber hnum' hnone =>
          rw [hnum] at hnum'
          cases hnum'
          exact absurd hfirst.1 (hnone e (List.mem_of_find?_eq_some hfind))
        | name hnum' => rw [hnum] at hnum'; cases hnum'
    | none =>
      dsimp only
      have hnone : ∀ e ∈ passwdEntries passwd, e.uid ≠ id := by
        simpa using List.find?_eq_none.mp hfind
      constructor
      · rintro ⟨⟩
        exact .bareNumber hnum hnone
      · intro h
        cases h with
        | number hnum' hfirst' =>
          rw [hnum] at hnum'
          cases hnum'
          rw [find?_eq_some_iff_isFirst.mpr hfirst'] at hfind
          cases hfind
        | bareNumber hnum' _ =>
          rw [hnum] at hnum'
          cases hnum'
          rfl
        | name hnum' => rw [hnum] at hnum'; cases hnum'
  | none =>
    dsimp only
    have hname : DenotesUser (passwdEntries passwd) value entry ↔
        (passwdEntries passwd).find? (fun e => decide (e.name = value)) = some entry := by
      rw [find?_eq_some_iff_isFirst]
      constructor
      · intro h
        cases h with
        | number hnum' => rw [hnum] at hnum'; cases hnum'
        | bareNumber hnum' => rw [hnum] at hnum'; cases hnum'
        | name _ hfirst => exact hfirst
      · exact .name hnum
    rw [hname]
    cases (passwdEntries passwd).find? fun e => decide (e.name = value) with
    | some e => simp
    | none => simp

/-- The loop over the lines of `/etc/group` decides at the first line of the name. -/
theorem findGroup_ok_iff {value : Text} {lines : List Text} {gid : UInt32} :
    findGroup value lines = .ok gid ↔
      ∃ line id, IsFirst (fun l => (groupNumber value l).isSome) lines line ∧
        groupNumber value line = some id ∧ parseUint32 id = some gid := by
  induction lines with
  | nil =>
    constructor
    · rintro ⟨⟩
    · rintro ⟨line, -, ⟨-, before, after, heq, -⟩, -⟩
      exact absurd heq.symm (by simp)
  | cons first rest ih =>
    unfold findGroup
    cases hfirst : groupNumber value first with
    | none =>
      dsimp only
      rw [ih]
      constructor
      · rintro ⟨line, id, ⟨hsome, before, after, rfl, hbefore⟩, hline, hid⟩
        refine ⟨line, id, ⟨hsome, first :: before, after, rfl, ?_⟩, hline, hid⟩
        exact List.forall_mem_cons.mpr ⟨by simp [hfirst], hbefore⟩
      · rintro ⟨line, id, ⟨hsome, before, after, heq, hbefore⟩, hline, hid⟩
        cases before with
        | nil =>
          cases heq
          rw [hfirst] at hline
          cases hline
        | cons b before =>
          cases heq
          exact ⟨line, id, ⟨hsome, before, after, rfl, (List.forall_mem_cons.mp hbefore).2⟩, hline, hid⟩
    | some number =>
      dsimp only
      have hleft : (∃ line id, IsFirst (fun l => (groupNumber value l).isSome) (first :: rest) line ∧
          groupNumber value line = some id ∧ parseUint32 id = some gid) ↔
            parseUint32 number = some gid := by
        constructor
        · rintro ⟨line, id, ⟨-, before, after, heq, hbefore⟩, hline, hid⟩
          cases before with
          | nil =>
            cases heq
            rw [hfirst] at hline
            cases hline
            exact hid
          | cons b before =>
            cases heq
            exact absurd (by simp [hfirst]) (List.forall_mem_cons.mp hbefore).1
        · intro hid
          exact ⟨first, number, ⟨by simp [hfirst], [], rest, rfl, by simp⟩, hfirst, hid⟩
      rw [hleft]
      cases parseUint32 number with
      | some gid' => simp
      | none => simp

theorem resolveGroup_ok_iff {group : Option Text} {value : Text} {gid : UInt32} :
    resolveGroup group value = .ok gid ↔ DenotesGroup group value gid := by
  unfold resolveGroup
  cases hnum : parseUint32 value with
  | some id =>
    dsimp only
    constructor
    · rintro ⟨⟩
      exact .number hnum
    · intro h
      cases h with
      | number hnum' => rw [hnum] at hnum'; cases hnum'; rfl
      | name hnum' => rw [hnum] at hnum'; cases hnum'
  | none =>
    cases group with
    | none =>
      dsimp only
      constructor
      · rintro ⟨⟩
      · intro h
        cases h with
        | number hnum' => rw [hnum] at hnum'; cases hnum'
        | name _ hraw => cases hraw
    | some raw =>
      dsimp only
      rw [findGroup_ok_iff]
      constructor
      · rintro ⟨line, id, hfirst, hline, hid⟩
        exact .name hnum rfl hfirst hline hid
      · intro h
        cases h with
        | number hnum' => rw [hnum] at hnum'; cases hnum'
        | name _ hraw hfirst hline hid =>
          cases hraw
          exact ⟨_, _, hfirst, hline, hid⟩

/-- **`resolveUserSpec` succeeds exactly on what denotes a user and a group.** -/
theorem resolveUserSpec_ok_iff {g : Guest} {spec : Text} {entry : PasswdEntry} {gid : UInt32} :
    g.resolveUserSpec spec = .ok (entry, gid) ↔ Denotes g spec entry gid := by
  unfold Guest.resolveUserSpec
  rw [show Denotes g spec entry gid ↔ DenotesUser (passwdEntries g.passwd) (userPart spec) entry ∧
      if groupPart spec ≠ [] then DenotesGroup g.group (groupPart spec) gid else gid = entry.gid from
    ⟨fun h => ⟨h.user, h.group⟩, fun h => ⟨h.1, h.2⟩⟩, ← resolvePasswd_ok_iff]
  cases resolvePasswd g.passwd (userPart spec) with
  | error e => simp [bind, Except.bind]
  | ok e =>
    simp only [bind, Except.bind, Except.ok.injEq]
    by_cases hgroup : groupPart spec ≠ []
    · rw [if_pos hgroup, if_pos hgroup, ← resolveGroup_ok_iff]
      cases resolveGroup g.group (groupPart spec) with
      | error e => simp
      | ok gid' => simp [pure, Except.pure]
    · rw [if_neg hgroup, if_neg hgroup]
      simp only [pure, Except.pure, Except.ok.injEq, Prod.mk.injEq]
      constructor
      · rintro ⟨rfl, rfl⟩
        exact ⟨rfl, rfl⟩
      · rintro ⟨rfl, rfl⟩
        exact ⟨rfl, rfl⟩

/-! ## The groups -/

/-- The list of groups that is right for a user with a primary group. -/
structure GroupsOf (group : Option Text) (username : Text) (gid : UInt32) (groups : List UInt32) : Prop where
  primary : gid ∈ groups
  nodup : groups.Nodup
  others : ∀ other ∈ groups, other = gid ∨ Lists group username other

/-- Each turn of the loop adds a group that lists the user, once. -/
theorem collectGroups_spec {group : Option Text} {username : Text} {gid : UInt32} {lines : List Text}
    {groups : List UInt32} (hlines : ∀ line ∈ lines, ∀ other, memberOf username line = some other →
      Lists group username other) (h : GroupsOf group username gid groups) :
    GroupsOf group username gid (collectGroups username lines groups) := by
  induction lines generalizing groups with
  | nil => exact h
  | cons line rest ih =>
    obtain ⟨hline, hrest⟩ := List.forall_mem_cons.mp hlines
    unfold collectGroups
    cases hmember : memberOf username line with
    | none => exact ih hrest h
    | some other =>
      dsimp only
      split
      · exact ih hrest h
      · rename_i hnew
        refine ih hrest ⟨List.mem_append_left _ h.primary, ?_, ?_⟩
        · rw [List.nodup_append]
          refine ⟨h.nodup, List.nodup_singleton other, ?_⟩
          rintro a ha b hb rfl
          rw [List.mem_singleton] at hb
          exact hnew (hb ▸ ha)
        · rw [List.forall_mem_append]
          exact ⟨h.others, List.forall_mem_singleton.mpr (Or.inr (hline other hmember))⟩

theorem supplementaryGroups_spec (group : Option Text) (username : Text) (gid : UInt32) :
    GroupsOf group username gid (supplementaryGroups group username gid) := by
  have hone : GroupsOf group username gid [gid] :=
    ⟨List.mem_singleton_self gid, List.nodup_singleton gid, fun other h => Or.inl (List.mem_singleton.mp h)⟩
  unfold supplementaryGroups
  cases group with
  | none => exact hone
  | some raw =>
    dsimp only
    split
    · exact hone
    · exact collectGroups_spec (fun line hline other hmember => ⟨raw, rfl, line, hline, hmember⟩) hone

/-! ## As whom the command runs -/

/-- The user a command runs as: that of its credential, else root, as whom `orca-init` runs. -/
def Guest.Command.uid (c : Guest.Command) : UInt32 :=
  match c.credential with
  | some credential => credential.uid
  | none => 0

/-- **No more privilege than the user string asks for**: if a command is started, then with the user and
the groups the string denotes, and as root only if the user part denotes root. -/
def LeastPrivilege (g : Guest) (spec : Text) : Option Guest.Command → Prop
  | none => True
  | some c =>
    ∃ entry gid, Denotes g spec entry gid ∧
      (∃ groups, c.credential = some ⟨entry.uid, gid, groups⟩ ∧ GroupsOf g.group entry.name gid groups) ∧
      (c.uid = 0 → entry.uid = 0)

/-- The credential of a user string. -/
theorem imageCredential_spec {g : Guest} {spec : Text} (hne : spec ≠ [])
    (hspec : decodeOptional g.cmdline (ascii "orca.user_b64") = spec) :
    (∃ entry gid, Denotes g spec entry gid ∧
        g.imageCredential.1 = some ⟨entry.uid, gid, supplementaryGroups g.group entry.name gid⟩) ∨
      (∀ entry gid, ¬ Denotes g spec entry gid) ∧ g.imageCredential.1 = none := by
  unfold Guest.imageCredential
  rw [hspec]
  dsimp only
  rw [if_neg hne]
  cases hresolve : g.resolveUserSpec spec with
  | ok found =>
    obtain ⟨entry, gid⟩ := found
    exact Or.inl ⟨entry, gid, resolveUserSpec_ok_iff.mp hresolve, rfl⟩
  | error err =>
    refine Or.inr ⟨fun entry gid h => ?_, rfl⟩
    rw [resolveUserSpec_ok_iff.mpr h] at hresolve
    cases hresolve

/-- `orca-init` gives up before the command: its parameter does not decode, or there is no console for
the terminal. -/
def Guest.GivesUp (g : Guest) : Prop :=
  decodeCommand g.cmdline = none ∨
    cmdlineValue g.cmdline (ascii "orca.tty") = ascii "1" ∧ g.console = false

instance (g : Guest) : Decidable g.GivesUp := inferInstanceAs (Decidable (_ ∨ _))

/-- What is started has the credential of the user string, whichever way it is started. -/
theorem started_spec (g : Guest) :
    (g.GivesUp ∧ g.started = none) ∨
      (¬ g.GivesUp ∧ ∃ c, g.started = some c ∧ c.credential = g.imageCredential.1) := by
  unfold Guest.GivesUp Guest.started Guest.ttyCommand Guest.plainCommand
  cases hcommand : decodeCommand g.cmdline with
  | none =>
    refine Or.inl ⟨Or.inl rfl, ?_⟩
    split
    · rfl
    · rfl
  | some command =>
    by_cases htty : cmdlineValue g.cmdline (ascii "orca.tty") = ascii "1"
    · rw [if_pos htty]
      cases hconsole : g.console with
      | false => exact Or.inl ⟨Or.inr ⟨htty, rfl⟩, rfl⟩
      | true =>
        refine Or.inr ⟨by simp, ?_⟩
        by_cases hempty : command = []
        · exact ⟨_, by simp only [bind, Option.bind, hempty]; rfl, rfl⟩
        · exact ⟨_, by simp only [bind, Option.bind, hempty]; rfl, rfl⟩
    · rw [if_neg htty]
      refine Or.inr ⟨by simp [htty], ?_⟩
      exact ⟨_, rfl, rfl⟩

/-- **When the command has no more privilege than asked for.** For every content of `/etc/passwd` and
`/etc/group` and every non-empty user string that arrives: EXACTLY if the string denotes a user and a group,
or `orca-init` gives up before the command. -/
theorem least_privilege_iff (g : Guest) (spec : Text) (hne : spec ≠ [])
    (hcarried : cmdlineValue g.cmdline (ascii "orca.user_b64") = Base64.encode spec) :
    LeastPrivilege g spec g.started ↔ (∃ entry gid, Denotes g spec entry gid) ∨ g.GivesUp := by
  have hspec : decodeOptional g.cmdline (ascii "orca.user_b64") = spec := by
    have hvalue : cmdlineValue g.cmdline (ascii "orca.user_b64")
        = (some (Base64.encode spec)).getD [] := hcarried
    refine decodeOptional_of_value (c := True) hvalue ?_ ?_
    · rw [if_pos trivial]
    · exact fun h => absurd trivial h
  rcases started_spec g with ⟨hgives, hnone⟩ | ⟨hgoes, c, hstarted, hcredential⟩
  · rw [hnone]
    exact iff_of_true trivial (Or.inr hgives)
  · rw [hstarted, or_iff_left hgoes]
    constructor
    · rintro ⟨entry, gid, hdenotes, -⟩
      exact ⟨entry, gid, hdenotes⟩
    · intro hsome
      rcases imageCredential_spec hne hspec with ⟨entry, gid, hdenotes, hcred⟩ | ⟨hno, -⟩
      · rw [hcred] at hcredential
        refine ⟨entry, gid, hdenotes, ⟨_, hcredential, supplementaryGroups_spec _ _ _⟩, fun huid => ?_⟩
        unfold Guest.Command.uid at huid
        rw [hcredential] at huid
        exact huid
      · obtain ⟨entry, gid, hdenotes⟩ := hsome
        exact absurd hdenotes (hno entry gid)

/-- A guest with one user besides root, and a group for it. -/
def sampleGuest (user : Text) : Guest where
  cmdline := imageRootFSBootArgs (ascii "id") false false [] [] user none
  passwd := some (ascii "root:x:0:0:root:/root:/bin/sh\nnode:x:1000:1000::/home/node:/bin/sh\n")
  group := some (ascii "root:x:0:\nwheel:x:10:root,node\nnode:x:1000:\n")
  environ := []
  console := true

theorem carried_sampleGuest {user : Text} (h : user ≠ []) :
    cmdlineValue (sampleGuest user).cmdline (ascii "orca.user_b64") = Base64.encode user := by
  rw [sampleGuest, cmdlineValue_image (by simp) (by decide),
    (lookup_imageSettings _ _ _ _ user none).2.2.2.2.1, if_pos h, Option.getD_some]

/-- A user of the image runs as that user. -/
theorem least_privilege_iff_node :
    LeastPrivilege (sampleGuest (ascii "node")) (ascii "node") (sampleGuest (ascii "node")).started := by
  have hdenotes : Denotes (sampleGuest (ascii "node")) (ascii "node")
      ⟨ascii "node", 1000, 1000, ascii "/home/node"⟩ 1000 := resolveUserSpec_ok_iff.mp (by decide +kernel)
  have hne : ascii "node" ≠ [] := by decide
  have hiff := least_privilege_iff (sampleGuest (ascii "node")) (ascii "node") hne (carried_sampleGuest hne)
  rw [hiff]
  exact Or.inl ⟨_, _, hdenotes⟩

/-- **A user the image does not have**: the command runs as root. -/
theorem unknown_user_runs_as_root :
    (sampleGuest (ascii "app")).started = some ⟨[ascii "/bin/sh", ascii "-lc", ascii "id"], [], none, []⟩ ∧
      ¬ LeastPrivilege (sampleGuest (ascii "app")) (ascii "app") (sampleGuest (ascii "app")).started := by
  have hstarted : (sampleGuest (ascii "app")).started =
      some ⟨[ascii "/bin/sh", ascii "-lc", ascii "id"], [], none, []⟩ := by decide +kernel
  refine ⟨hstarted, fun h => ?_⟩
  rw [hstarted] at h
  obtain ⟨entry, gid, -, ⟨groups, hcredential, -⟩, -⟩ := h
  cases hcredential

end OrcaBlocks.Services
