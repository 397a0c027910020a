/-
# OrcaBlocks.Nbd.Handshake — what `handshake` makes of a stream of bytes.

A client sends four bytes of flags and then OPTIONS: a magic word, a number, the length of a payload and the
payload. The grammar is `Opt.encode`; the reader of one option is sound and complete for it, with any bytes
behind it. So every stream has one reading: options that are answered with ERR_UNSUP, and then either an
option that ends the loop (EXPORT_NAME, GO, ABORT) or bytes that are no option at all.

The loop of the model has a bound on its turns, which a stream never reaches: an option takes at least sixteen
bytes.
-/
import OrcaBlocks.Nbd.Requests

namespace OrcaBlocks.Nbd

open OrcaBlocks.Lib
open OrcaBlocks.Storage (Bytes)

variable {δ : Type}

/-! ## Writes that succeed -/

section Writes

variable {c : Conn δ}

theorem write_of_room (hroom : c.room = none) (b : Bytes) :
    write b c = (.ok (), { c with output := c.output ++ b }) := by
  unfold write
  rw [hroom]

theorem writeWith_of_room (hroom : c.room = none) (header data : Bytes) :
    writeWith header data c = (.ok (), { c with output := c.output ++ header ++ data }) := by
  unfold writeWith
  rw [Go.bind_of_ok (write_of_room hroom header)]
  split
  · exact write_of_room (by exact hroom) data
  · rename_i hempty
    have hdata : data = [] := List.length_eq_zero_iff.mp (by omega)
    rw [hdata, List.append_nil]
    rfl

end Writes

/-! ## The grammar -/

/-- An option of the client. -/
structure Opt where
  number : UInt32
  payload : Bytes
  deriving DecidableEq, Repr

namespace Opt

def header (o : Opt) : Bytes :=
  putUint64 iHaveOpt ++ putUint32 o.number ++ putUint32 (UInt32.ofNat o.payload.length)

/-- The option on the wire: sixteen bytes and the payload. -/
def encode (o : Opt) : Bytes := o.header ++ o.payload

/-- The server takes payloads of 64 KiB at most. -/
def Fits (o : Opt) : Prop := o.payload.length ≤ 64 * 1024

/-- An option the server does not know. -/
def Unsupported (o : Opt) : Prop := o.number ≠ optExportName ∧ o.number ≠ optGo ∧ o.number ≠ optAbort

instance (o : Opt) : Decidable o.Fits := inferInstanceAs (Decidable (_ ≤ _))
instance (o : Opt) : Decidable o.Unsupported := inferInstanceAs (Decidable (_ ∧ _))

@[simp] theorem length_header (o : Opt) : o.header.length = 16 := by
  simp [header]

theorem le_length_encode (o : Opt) : 16 ≤ o.encode.length := by
  simp [encode]

theorem Fits.toNat {o : Opt} (h : o.Fits) : (UInt32.ofNat o.payload.length).toNat = o.payload.length := by
  unfold Fits at h
  exact UInt32.toNat_ofNat_of_lt' (show o.payload.length < 2 ^ 32 by omega)

/-- The length of the name in the payload of GO. -/
def nameLen (payload : Bytes) : Nat := (uint32 (payload.take 4)).toNat

/-- A payload of GO with a name in it. The sum is one of natural numbers. -/
structure NamesExport (payload : Bytes) : Prop where
  long : 6 ≤ payload.length
  short : nameLen payload ≤ 4096
  whole : 4 + nameLen payload + 2 ≤ payload.length

instance (payload : Bytes) : Decidable (NamesExport payload) :=
  decidable_of_iff (6 ≤ payload.length ∧ nameLen payload ≤ 4096 ∧ 4 + nameLen payload + 2 ≤ payload.length)
    ⟨fun ⟨h₁, h₂, h₃⟩ => ⟨h₁, h₂, h₃⟩, fun ⟨h₁, h₂, h₃⟩ => ⟨h₁, h₂, h₃⟩⟩

/-- The name of the export that a well-formed EXPORT_NAME or GO asks for. -/
def exportName (o : Opt) : Option Bytes :=
  if o.number = optExportName then some o.payload
  else if o.number = optGo ∧ NamesExport o.payload then some (slice o.payload 4 (nameLen o.payload))
  else none

end Opt

/-- The stream goes on with an option that fits. -/
def StartsWithOption (tail : Bytes) : Prop := ∃ o : Opt, ∃ rest, o.Fits ∧ tail = o.encode ++ rest

namespace Server

/-! ## One option -/

section ReadOption

variable {c : Conn δ}

/-- An option is read as it was sent, and nothing behind it is touched. -/
theorem readOption_encode {o : Opt} {rest : Bytes} (hfits : o.Fits) (hinput : c.input = o.encode ++ rest) :
    readOption c = (.ok (o.number, o.payload), { c with input := rest }) := by
  have hread : readFull 16 c = (.ok o.header, { c with input := o.payload ++ rest }) := by
    rw [Opt.encode, List.append_assoc] at hinput
    rw [readFull_of_le (by simp [hinput]), hinput, List.take_left' o.length_header,
      List.drop_left' o.length_header]
  have hmagic : uint64 (o.header.take 8) = iHaveOpt := by
    rw [Opt.header, List.append_assoc, List.take_left' (length_putUint64 _), uint64_putUint64]
  have hnumber : uint32 (slice o.header 8 4) = o.number := by
    rw [slice, Opt.header, List.append_assoc, List.drop_left' (length_putUint64 _),
      List.take_left' (length_putUint32 _), uint32_putUint32]
  have hlen : uint32 (slice o.header 12 4) = UInt32.ofNat o.payload.length := by
    rw [slice, Opt.header, List.drop_left' (by simp), List.take_of_length_le (by simp), uint32_putUint32]
  have hsmall : ¬ UInt32.ofNat o.payload.length > 64 * 1024 := by
    rw [gt_iff_lt, UInt32.lt_iff_toNat_lt, hfits.toNat]
    exact Nat.not_lt.mpr hfits
  unfold readOption
  rw [Go.bind_of_ok hread]
  dsimp only
  rw [hmagic, hnumber, hlen, if_neg (not_not_intro rfl), if_neg hsmall]
  by_cases hempty : UInt32.ofNat o.payload.length > 0
  · rw [if_pos hempty, hfits.toNat, Go.bind_of_ok (readFull_of_le (by simp))]
    simp
  · have hnil : o.payload = [] := by
      rw [gt_iff_lt, UInt32.lt_iff_toNat_lt, hfits.toNat] at hempty
      exact List.length_eq_zero_iff.mp (by simpa using hempty)
    rw [if_neg hempty, hnil]
    rfl

/-- The bytes of a header with the right magic are those of an option. -/
theorem header_of_magic {header payload : Bytes} (hlength : header.length = 16)
    (hmagic : uint64 (header.take 8) = iHaveOpt)
    (hpayload : payload.length = (uint32 (slice header 12 4)).toNat) :
    header = Opt.header ⟨uint32 (slice header 8 4), payload⟩ := by
  have hword : UInt32.ofNat payload.length = uint32 (slice header 12 4) := by
    rw [hpayload, UInt32.ofNat_toNat]
  have hsplit : header.take 8 ++ slice header 8 4 ++ slice header 12 4 = header := by
    rw [slice, slice, List.take_of_length_le (show (header.drop 12).length ≤ 4 by simp [hlength]),
      List.append_assoc]
    conv_rhs => rw [← List.take_append_drop 8 header, ← List.take_append_drop 4 (header.drop 8)]
    rw [List.drop_drop]
  unfold Opt.header
  rw [hword, ← hmagic, putUint64_uint64 (by simp [hlength]), putUint32_uint32 (by simp [slice, hlength]),
    putUint32_uint32 (by simp [slice, hlength]), hsplit]

/-- What does not start with an option is refused, with no more than a header read, or at the end of the
stream. -/
theorem readOption_broken (hbroken : ¬ StartsWithOption c.input) :
    ∃ e left, readOption c = (.error e, { c with input := left }) ∧
      (left = c.input.drop 16 ∨ left = []) := by
  by_cases hheader : 16 ≤ c.input.length
  swap
  · exact ⟨_, [], Go.bind_of_error (readFull_of_not_le hheader), .inr rfl⟩
  unfold readOption
  rw [Go.bind_of_ok (readFull_of_le hheader)]
  dsimp only
  by_cases hmagic : uint64 ((c.input.take 16).take 8) = iHaveOpt
  swap
  · rw [if_pos hmagic]
    exact ⟨_, _, rfl, .inl rfl⟩
  rw [if_neg (not_not_intro hmagic)]
  by_cases hlarge : uint32 (slice (c.input.take 16) 12 4) > 64 * 1024
  · rw [if_pos hlarge]
    exact ⟨_, _, rfl, .inl rfl⟩
  rw [if_neg hlarge]
  -- with the magic right and the length allowed, only the payload can be missing
  have hlimit : (uint32 (slice (c.input.take 16) 12 4)).toNat ≤ 64 * 1024 := by
    rw [gt_iff_lt, UInt32.lt_iff_toNat_lt] at hlarge
    exact Nat.not_lt.mp hlarge
  have hshort : ¬ (uint32 (slice (c.input.take 16) 12 4)).toNat ≤ (c.input.drop 16).length := by
    intro hlong
    refine hbroken ⟨⟨uint32 (slice (c.input.take 16) 8 4),
      (c.input.drop 16).take (uint32 (slice (c.input.take 16) 12 4)).toNat⟩,
      (c.input.drop 16).drop (uint32 (slice (c.input.take 16) 12 4)).toNat, ?_, ?_⟩
    · unfold Opt.Fits
      rw [List.length_take_of_le hlong]
      exact hlimit
    · rw [Opt.encode, ← header_of_magic (by simp [hheader]) hmagic (List.length_take_of_le hlong),
        List.append_assoc, List.take_append_drop, List.take_append_drop]
  have hpos : uint32 (slice (c.input.take 16) 12 4) > 0 := by
    rw [gt_iff_lt, UInt32.lt_iff_toNat_lt, UInt32.toNat_zero]
    omega
  rw [if_pos hpos, Go.bind_of_error (readFull_of_not_le hshort)]
  exact ⟨_, [], rfl, .inr rfl⟩

end ReadOption

/-! ## The option that ends the loop -/

/-- What a name resolves to; the device may be nil. -/
def resolved (s : Server δ) (name : Bytes) : Except Err (Option (Device δ)) :=
  match s.resolve with
  | some resolve => resolve name
  | none =>
    match s.device with
    | none => .error (.errorf "missing NBD device" 0)
    | some d => .ok (some d)

/-- The option asks for the device. -/
def Chosen (s : Server δ) (o : Opt) (d : Device δ) : Prop :=
  ∃ name ∈ o.exportName, s.resolved name = .ok (some d)

/-- What the server tells about an export of that size: the same for both forms, but for their framing and the
padding of EXPORT_NAME. -/
def announcement (o : Opt) (clientNoZeroes : Bool) (size : Int64) : Bytes :=
  if o.number = optExportName then
    exportInfo size ++ (if clientNoZeroes then [] else List.replicate 124 0)
  else
    optionReplyHeader optGo repInfo (putUint16 infoExport ++ exportInfo size) ++
      (putUint16 infoExport ++ exportInfo size) ++ optionReplyHeader optGo repAck []

section Final

variable {s : Server δ} {c : Conn δ} {name : Bytes} {d : Device δ} {clientNoZeroes : Bool}

theorem resolveDevice_of_ok {device : Option (Device δ)} (h : s.resolved name = .ok device) :
    s.resolveDevice name c = (.ok device, c) := by
  unfold resolved at h
  unfold resolveDevice
  split at h
  · rename_i hresolve
    rw [hresolve]
    dsimp only
    rw [h]
    rfl
  · rename_i hresolve
    rw [hresolve]
    dsimp only
    split at h
    · cases h
    · rename_i hdevice
      cases h
      rw [hdevice]
      rfl

theorem resolveDevice_of_error {e : Err} (h : s.resolved name = .error e) :
    s.resolveDevice name c = (.error e, c) := by
  unfold resolved at h
  unfold resolveDevice
  split at h
  · rename_i hresolve
    rw [hresolve]
    dsimp only
    rw [h]
    rfl
  · rename_i hresolve
    rw [hresolve]
    dsimp only
    split at h
    · rename_i hdevice
      cases h
      rw [hdevice]
      rfl
    · cases h

theorem writeExport_of_room (hroom : c.room = none) :
    writeExport (some d) clientNoZeroes c =
      (.ok d, { c with output :=
        c.output ++ (exportInfo (d.size c.device) ++ (if clientNoZeroes then [] else List.replicate 124 0)) }) := by
  have hsize : sizeOf (some d) c = (.ok (d, d.size c.device), c) := rfl
  unfold writeExport
  rw [Go.bind_of_ok hsize]
  dsimp only
  rw [Go.bind_of_ok (write_of_room hroom _)]
  cases clientNoZeroes with
  | true => rw [if_pos rfl, if_pos rfl, List.append_nil]; rfl
  | false =>
    rw [if_neg Bool.false_ne_true, if_neg Bool.false_ne_true, ← List.append_assoc]
    exact Go.bind_of_ok (write_of_room (by exact hroom) _)

/-- The checks of GO are those of the grammar: past the first one the sum of words does not wrap. -/
theorem go_checks_iff {payload : Bytes} :
    ¬ (payload.length < 6) ∧ ¬ (uint32 (payload.take 4) > 4096 ∨
        (4 + uint32 (payload.take 4) + 2).toNat > payload.length) ↔ Opt.NamesExport payload := by
  have hword : uint32 (payload.take 4) > 4096 ↔ 4096 < Opt.nameLen payload := UInt32.lt_iff_toNat_lt
  have hsum : Opt.nameLen payload ≤ 4096 →
      (4 + uint32 (payload.take 4) + 2).toNat = 4 + Opt.nameLen payload + 2 := by
    intro hshort
    rw [UInt32.toNat_add, UInt32.toNat_add]
    change (((4 + Opt.nameLen payload) % 2 ^ 32) + 2) % 2 ^ 32 = _
    omega
  constructor
  · rintro ⟨hlong, hchecks⟩
    have hshort : Opt.nameLen payload ≤ 4096 := by
      by_contra hlarge
      exact hchecks (.inl (hword.mpr (by omega)))
    have hwhole : ¬ (4 + uint32 (payload.take 4) + 2).toNat > payload.length := fun h => hchecks (.inr h)
    rw [hsum hshort] at hwhole
    exact ⟨by omega, hshort, by omega⟩
  · rintro ⟨hlong, hshort, hwhole⟩
    refine ⟨by omega, ?_⟩
    rintro (h | h)
    · exact absurd (hword.mp h) (by omega)
    · rw [hsum hshort] at h
      omega

/-- `handleOptGo` on a payload that is no good. -/
theorem handleOptGo_of_not (opt : UInt32) {payload : Bytes} (h : ¬ Opt.NamesExport payload) :
    ∃ e, s.handleOptGo opt payload c = (.error e, c) := by
  unfold handleOptGo
  by_cases hlong : payload.length < 6
  · rw [if_pos hlong]
    exact ⟨_, rfl⟩
  · rw [if_neg hlong]
    dsimp only
    rw [if_pos (by_contra fun hchecks => h (go_checks_iff.mp ⟨hlong, hchecks⟩))]
    exact ⟨_, rfl⟩

/-- `handleOptGo` past its checks: the slice is in bounds, and holds the name. -/
theorem handleOptGo_of_names (opt : UInt32) {payload : Bytes} (h : Opt.NamesExport payload) :
    s.handleOptGo opt payload c =
      (do
        let device ← s.resolveDevice (slice payload 4 (Opt.nameLen payload))
        let (device, size) ← sizeOf device
        writeOptionReply opt repInfo (putUint16 infoExport ++ exportInfo size)
        writeOptionReply opt repAck []
        pure device : Handler δ (Device δ)) c := by
  obtain ⟨hlong, hchecks⟩ := go_checks_iff.mpr h
  obtain ⟨-, hshort, hwhole⟩ := h
  have hend : (4 + uint32 (payload.take 4)).toNat = 4 + Opt.nameLen payload := by
    rw [UInt32.toNat_add]
    change (4 + Opt.nameLen payload) % 2 ^ 32 = _
    omega
  have hslice : goSlice payload 4 (4 + uint32 (payload.take 4)).toNat c =
      (.ok (slice payload 4 (Opt.nameLen payload)), c) := by
    unfold goSlice
    rw [hend, if_pos (by omega), Nat.add_sub_cancel_left]
    rfl
  unfold handleOptGo
  rw [if_neg hlong]
  dsimp only
  rw [if_neg hchecks, Go.bind_of_ok hslice]

/-- What an option that is not skipped leads to: a device if and only if it asks for one, announced only then. A
panic is a nil device of the resolver, and not a slice. -/
structure Ends (s : Server δ) (device : δ) (clientNoZeroes : Bool) (o : Opt)
    (result : Outcome Err (Device δ)) (sent : Bytes) : Prop where
  chosen : ∀ d, result = .ok d ↔ s.Chosen o d
  announced : ∀ d, result = .ok d → sent = announcement o clientNoZeroes (d.size device)
  silent : (∀ d, result ≠ .ok d) → sent = []
  panics : result = .panic → ∃ name ∈ o.exportName, s.resolved name = .ok none

theorem Ends.refused {device : δ} {o : Opt} (e : Err) (h : ∀ d, ¬ s.Chosen o d) :
    Ends s device clientNoZeroes o (.error e) [] where
  chosen d := iff_of_false (nomatch ·) (h d)
  announced _ h := nomatch h
  silent _ := rfl
  panics h := nomatch h

/-- Both forms resolve their name, and go on with the device. -/
theorem resolve_ends {o : Opt} (hname : o.exportName = some name)
    {k : Option (Device δ) → Handler δ (Device δ)} (hnil : k none c = (.panic, c))
    (hfound : ∀ d, k (some d) c =
      (.ok d, { c with output := c.output ++ announcement o clientNoZeroes (d.size c.device) })) :
    ∃ result sent, (s.resolveDevice name >>= k) c = (result, { c with output := c.output ++ sent }) ∧
      Ends s c.device clientNoZeroes o result sent := by
  have hchosen : ∀ d, s.Chosen o d ↔ s.resolved name = .ok (some d) := by
    intro d
    unfold Chosen
    rw [hname]
    simp
  have hkeep : c = { c with output := c.output ++ [] } := by
    rw [List.append_nil]
  cases hresolved : s.resolved name with
  | error e =>
    refine ⟨.error e, [], ?_, .refused e fun d h => ?_⟩
    · rw [Go.bind_of_error (resolveDevice_of_error hresolved), ← hkeep]
    · rw [hchosen, hresolved] at h
      cases h
  | ok device =>
    rw [Go.bind_of_ok (resolveDevice_of_ok hresolved)]
    cases device with
    | none =>
      refine ⟨.panic, [], ?_, ?_⟩
      · rw [hnil, ← hkeep]
      · exact {
          chosen := fun d => by
            rw [hchosen, hresolved]
            exact iff_of_false (nomatch ·) (nomatch ·)
          announced := fun _ h => nomatch h
          silent := fun _ => rfl
          panics := fun _ => ⟨name, hname, hresolved⟩ }
    | some d =>
      refine ⟨.ok d, _, hfound d, ?_⟩
      exact {
        chosen := fun d' => by
          rw [hchosen, hresolved]
          constructor
          · rintro ⟨⟩
            rfl
          · rintro ⟨⟩
            rfl
        announced := by
          rintro d' ⟨⟩
          rfl
        silent := fun h => absurd rfl (h d)
        panics := fun h => nomatch h }

/-- The option that ends the loop. -/
theorem options_final {o : Opt} {rest : Bytes} {fuel : Nat} (hroom : c.room = none) (hfits : o.Fits)
    (hfinal : ¬ o.Unsupported) (hinput : c.input = o.encode ++ rest) :
    ∃ result sent, s.options clientNoZeroes (fuel + 1) c =
        (result, { c with input := rest, output := c.output ++ sent }) ∧
      Ends s c.device clientNoZeroes o result sent := by
  have hread := readOption_encode hfits hinput
  unfold options
  rw [Go.bind_of_ok hread]
  dsimp only
  by_cases hexport : o.number = optExportName
  · rw [if_pos hexport]
    refine resolve_ends (c := { c with input := rest }) ?_ rfl fun d => ?_
    · unfold Opt.exportName
      rw [if_pos hexport]
    · rw [announcement, if_pos hexport]
      exact writeExport_of_room (by exact hroom)
  rw [if_neg hexport]
  by_cases hgo : o.number = optGo
  · rw [if_pos hgo]
    by_cases hnames : Opt.NamesExport o.payload
    · rw [handleOptGo_of_names _ hnames]
      refine resolve_ends (c := { c with input := rest }) ?_ rfl fun d => ?_
      · unfold Opt.exportName
        rw [if_neg hexport, if_pos ⟨hgo, hnames⟩]
      · have hsize : sizeOf (some d) { c with input := rest } =
            (.ok (d, d.size c.device), { c with input := rest }) := rfl
        rw [Go.bind_of_ok hsize]
        dsimp only
        unfold writeOptionReply
        rw [Go.bind_of_ok (writeWith_of_room (by exact hroom) _ _),
          Go.bind_of_ok (writeWith_of_room (by exact hroom) _ _), announcement, if_neg hexport, hgo,
          List.append_nil]
        simp only [List.append_assoc]
        rfl
    · obtain ⟨e, he⟩ := handleOptGo_of_not (s := s) (c := { c with input := rest }) o.number hnames
      refine ⟨.error e, [], ?_, .refused e ?_⟩
      · rw [he, List.append_nil]
      · rintro d ⟨name, hname, -⟩
        rw [Opt.exportName, if_neg hexport, if_neg fun h => hnames h.2] at hname
        cases hname
  rw [if_neg hgo]
  -- not skipped, and neither of the two forms: ABORT
  have habort : o.number = optAbort := by
    by_contra h
    exact hfinal ⟨hexport, hgo, h⟩
  rw [if_pos habort]
  refine ⟨.error .eof, [], ?_, .refused .eof ?_⟩
  · rw [List.append_nil]
    rfl
  · rintro d ⟨name, hname, -⟩
    rw [Opt.exportName, if_neg hexport, if_neg fun h => hgo h.1] at hname
    cases hname

/-! ## The loop -/

/-- The answer to an option the server does not know. -/
def unsupported (o : Opt) : Bytes := optionReplyHeader o.number repErrUnsup []

/-- One turn on an option that is skipped. -/
theorem options_unsupported {o : Opt} {rest : Bytes} {fuel : Nat} (hroom : c.room = none) (hfits : o.Fits)
    (hskip : o.Unsupported) (hinput : c.input = o.encode ++ rest) :
    s.options clientNoZeroes (fuel + 1) c =
      s.options clientNoZeroes fuel { c with input := rest, output := c.output ++ unsupported o } := by
  obtain ⟨hexport, hgo, habort⟩ := hskip
  conv_lhs => unfold options
  rw [Go.bind_of_ok (readOption_encode hfits hinput)]
  dsimp only
  rw [if_neg hexport, if_neg hgo, if_neg habort]
  unfold writeOptionReply
  rw [Go.bind_of_ok (writeWith_of_room (by exact hroom) _ _), List.append_nil]
  rfl

/-- The turns on options that are skipped, one answer each. -/
theorem options_skip {skipped : List Opt} {tail : Bytes} {fuel : Nat} (hroom : c.room = none)
    (hskipped : ∀ o ∈ skipped, o.Fits ∧ o.Unsupported)
    (hinput : c.input = skipped.flatMap Opt.encode ++ tail) :
    s.options clientNoZeroes (fuel + skipped.length) c =
      s.options clientNoZeroes fuel
        { c with input := tail, output := c.output ++ skipped.flatMap unsupported } := by
  induction skipped generalizing c with
  | nil =>
    rw [List.flatMap_nil, List.nil_append] at hinput
    rw [List.flatMap_nil, List.append_nil, ← hinput]
    rfl
  | cons o skipped ih =>
    obtain ⟨hfits, hunsupported⟩ := hskipped o List.mem_cons_self
    rw [List.flatMap_cons, List.append_assoc] at hinput
    rw [List.length_cons, ← Nat.add_assoc, options_unsupported hroom hfits hunsupported hinput,
      ih (by exact hroom) (fun p hp => hskipped p (List.mem_cons_of_mem _ hp)) rfl, List.flatMap_cons,
      List.append_assoc]

end Final

/-- Every tail of a stream is a run of skipped options and something that is not one more. -/
theorem exists_skipped (input : Bytes) :
    ∃ (skipped : List Opt) (tail : Bytes), input = skipped.flatMap Opt.encode ++ tail ∧
      (∀ o ∈ skipped, o.Fits ∧ o.Unsupported) ∧
      ∀ (o : Opt) rest, o.Fits → tail = o.encode ++ rest → ¬ o.Unsupported := by
  induction hlength : input.length using Nat.strong_induction_on generalizing input with
  | _ n ih =>
    by_cases hnext : ∃ (o : Opt) (rest : Bytes), o.Fits ∧ o.Unsupported ∧ input = o.encode ++ rest
    · obtain ⟨o, rest, hfits, hunsupported, rfl⟩ := hnext
      have hshorter : rest.length < n := by
        have hlong := o.le_length_encode
        rw [List.length_append] at hlength
        omega
      obtain ⟨skipped, tail, hrest, hskipped, hstops⟩ := ih rest.length hshorter rest rfl
      refine ⟨o :: skipped, tail, ?_, ?_, hstops⟩
      · rw [List.flatMap_cons, List.append_assoc, ← hrest]
      · intro p hp
        cases hp with
        | head => exact ⟨hfits, hunsupported⟩
        | tail _ hp => exact hskipped p hp
    · refine ⟨[], input, rfl, fun _ h => (nomatch h), fun o rest hfits htail hunsupported => ?_⟩
      exact hnext ⟨o, rest, hfits, hunsupported, htail⟩

/-! ## The handshake -/

/-- The flags and the skipped options at the front of what the client sends. -/
structure Reads (input flags : Bytes) (skipped : List Opt) (tail : Bytes) : Prop where
  four : flags.length = 4
  skip : ∀ o ∈ skipped, o.Fits ∧ o.Unsupported
  stream : input = flags ++ skipped.flatMap Opt.encode ++ tail

/-- The client asks for no padding. -/
def noZeroes (flags : Bytes) : Bool := uint32 flags &&& flagNoZeroes.toUInt32 ≠ 0

section Handshake

variable {s : Server δ} {c : Conn δ} {flags tail rest : Bytes} {skipped : List Opt} {o : Opt}

/-- `handshake` up to the first option that is not skipped, with a turn left for it. -/
theorem handshake_skip (hroom : c.room = none) (hreads : Reads c.input flags skipped tail) :
    ∃ fuel, s.handshake c = s.options (noZeroes flags) (fuel + 1)
      { c with input := tail, output := c.output ++ greeting ++ skipped.flatMap unsupported } := by
  obtain ⟨hflags, hskipped, hinput⟩ := hreads
  rw [List.append_assoc] at hinput
  have hread : readFull 4 { c with output := c.output ++ greeting } =
      (.ok flags, { c with input := skipped.flatMap Opt.encode ++ tail, output := c.output ++ greeting }) := by
    rw [readFull_of_le (by simp [hinput, hflags])]
    dsimp only
    rw [hinput, List.take_left' hflags, List.drop_left' hflags]
  have hturns := length_le_length_flatMap (fun o => Nat.lt_of_lt_of_le (by decide) o.le_length_encode) skipped
  obtain ⟨fuel, hfuel⟩ : ∃ fuel, (skipped.flatMap Opt.encode ++ tail).length + 1 =
      fuel + 1 + skipped.length :=
    ⟨(skipped.flatMap Opt.encode ++ tail).length - skipped.length, by
      rw [List.length_append]
      omega⟩
  refine ⟨fuel, ?_⟩
  unfold handshake
  rw [Go.bind_of_ok (write_of_room hroom _)]
  refine (Go.bind_of_ok hread).trans ?_
  dsimp only
  rw [hfuel, options_skip (by exact hroom) hskipped rfl]
  rfl

theorem handshake_final (hroom : c.room = none) (hreads : Reads c.input flags skipped (o.encode ++ rest))
    (hfits : o.Fits) (hfinal : ¬ o.Unsupported) :
    ∃ result sent, s.handshake c =
        (result, { c with input := rest, output := c.output ++ greeting ++ skipped.flatMap unsupported ++ sent }) ∧
      Ends s c.device (noZeroes flags) o result sent := by
  obtain ⟨fuel, hfuel⟩ := handshake_skip (s := s) hroom hreads
  rw [hfuel]
  exact options_final (by exact hroom) hfits hfinal rfl

theorem handshake_broken (hroom : c.room = none) (hreads : Reads c.input flags skipped tail)
    (hbroken : ¬ StartsWithOption tail) :
    ∃ e left, s.handshake c = (.error e,
        { c with input := left, output := c.output ++ greeting ++ skipped.flatMap unsupported }) ∧
      (left = tail.drop 16 ∨ left = []) := by
  obtain ⟨fuel, hfuel⟩ := handshake_skip (s := s) hroom hreads
  obtain ⟨e, left, hread, hleft⟩ := readOption_broken
    (c := { c with input := tail, output := c.output ++ greeting ++ skipped.flatMap unsupported }) hbroken
  refine ⟨e, left, ?_, hleft⟩
  rw [hfuel, options]
  exact Go.bind_of_error hread

theorem handshake_short (hroom : c.room = none) (hshort : c.input.length < 4) :
    ∃ e, s.handshake c = (.error e, { c with input := [], output := c.output ++ greeting }) := by
  unfold handshake
  rw [Go.bind_of_ok (write_of_room hroom _)]
  exact ⟨_, Go.bind_of_error (readFull_of_not_le (by exact Nat.not_le.mpr hshort))⟩

theorem exists_reads (input : Bytes) : input.length < 4 ∨ ∃ flags skipped tail,
    Reads input flags skipped tail ∧ ∀ (o : Opt) rest, o.Fits → tail = o.encode ++ rest → ¬ o.Unsupported := by
  by_cases hshort : input.length < 4
  · exact .inl hshort
  · obtain ⟨skipped, tail, hinput, hskipped, hstops⟩ := exists_skipped (input.drop 4)
    refine .inr ⟨input.take 4, skipped, tail, ⟨?_, hskipped, ?_⟩, hstops⟩
    · rw [List.length_take]
      omega
    · rw [List.append_assoc, ← hinput, List.take_append_drop]

/-- An option that asks for a device is not one that is skipped. -/
theorem Chosen.not_unsupported {d : Device δ} (h : s.Chosen o d) : ¬ o.Unsupported := by
  rintro ⟨hexport, hgo, -⟩
  obtain ⟨name, hname, -⟩ := h
  rw [Opt.exportName, if_neg hexport, if_neg fun h => hgo h.1] at hname
  cases hname

end Handshake

/-- A device of four bytes, with the same answer to every read. -/
def fixedDevice : Device Unit where
  size _ := 4
  readAt _ length := pure (List.replicate (natOf length) 7)
  readAtInto := none
  writeAt _ _ := pure ()
  flush := pure ()
  disconnect := pure ()

/-- A client that asks for a list of exports, which the server has not, and goes on with the export `v`. -/
def listingClient : Conn Unit where
  input := putUint32 3 ++ Opt.encode ⟨3, []⟩ ++ Opt.encode ⟨optGo, putUint32 1 ++ [118, 0, 0]⟩ ++ [1, 2, 3]
  output := []
  room := none
  pool := ⟨[], []⟩
  calls := []
  device := ()

end Server

end OrcaBlocks.Nbd
