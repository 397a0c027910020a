/-
# OrcaBlocks.Storage.Ranges — exactly when `ChunkIndexes` cuts a request into the right ranges.

`Cuts` is what a caller of `ChunkIndexes` relies on, range by range and slice by slice, over
UNBOUNDED integers; `Answers` adds when the request is to be refused. The code computes in wrapping
64-bit arithmetic, and it answers right for all requests but one kind: the request ends below the
integer limit, and the chunk that holds its last byte ends above it (`Overhangs`). The end of that
chunk wraps to a negative number, and the last range with it.

⚠ BOUNDARY: memory is not modelled. A request for more ranges than fit into memory is answered
here.
-/
import OrcaBlocks.Storage.ChunkIndexes

namespace OrcaBlocks.Storage

open OrcaBlocks.Lib

/-! ## Slices -/

/-- Go's `s[lo:hi]`, for an `s` of `len` bytes. -/
structure SliceExpr where
  lo : Int64
  hi : Int64
  len : Int64
  deriving DecidableEq, Repr

/-- The slice expression does not panic. -/
def SliceExpr.InBounds (e : SliceExpr) : Prop :=
  0 ≤ e.lo.toInt ∧ e.lo.toInt ≤ e.hi.toInt ∧ e.hi.toInt ≤ e.len.toInt

/-- The slices the loops of `Read` and `Write` take. Both walk through a buffer as long as the
request: `out[outPos:outPos+partLen]` of what is returned, `data[dataPos:dataPos+partLen]` of what is
given. Both take the part `[ChunkStart:ChunkStart+partLen]` of a whole chunk: of the one fetched, of
the one to be written back. -/
def slicesTaken (length chunkSize : Int64) : List ChunkRange → Int64 → List SliceExpr
  | [], _ => []
  | r :: rest, pos =>
    let partLen := r.reqEnd - r.reqStart
    ⟨pos, pos + partLen, length⟩ :: ⟨r.chunkStart, r.chunkStart + partLen, chunkSize⟩ ::
      slicesTaken length chunkSize rest (pos + partLen)

/-! ## What the ranges should be -/

/-- The ranges `rs` cut the request `[offset, offset + length)` along chunks. -/
structure Cuts (offset length chunkSize : Int64) (rs : List ChunkRange) : Prop where
  empty : rs = [] ↔ length.toInt = 0
  first : ∀ r ∈ rs.head?, r.reqStart.toInt = offset.toInt
  last : ∀ r ∈ rs.getLast?, r.reqEnd.toInt = offset.toInt + length.toInt
  consecutive : rs.IsChain fun r s => s.index.toInt = r.index.toInt + 1
  adjacent : rs.IsChain fun r s => r.reqEnd.toInt = s.reqStart.toInt
  nonempty : ∀ r ∈ rs, r.reqStart.toInt < r.reqEnd.toInt
  chunkStart : ∀ r ∈ rs,
    r.chunkStart.toInt = r.reqStart.toInt - r.index.toInt * chunkSize.toInt
  inside : ∀ r ∈ rs, 0 ≤ r.chunkStart.toInt ∧
    r.chunkStart.toInt + (r.reqEnd.toInt - r.reqStart.toInt) ≤ chunkSize.toInt
  slices : ∀ e ∈ slicesTaken length chunkSize rs 0, e.InBounds

/-- The request is to be refused. -/
def Refusable (offset length chunkSize : Int64) : Prop :=
  offset.toInt < 0 ∨ length.toInt < 0 ∨ chunkSize.toInt ≤ 0 ∨
    0 < length.toInt ∧ 2 ^ 63 - 1 < offset.toInt + length.toInt

/-- The answer is an error exactly for a request to be refused, and else the request cut. -/
def Answers (offset length chunkSize : Int64) : Except Err (List ChunkRange) → Prop
  | .error _ => Refusable offset length chunkSize
  | .ok rs => ¬ Refusable offset length chunkSize ∧ Cuts offset length chunkSize rs

/-- The request is a range of positions below the limit, and the chunk of its last byte ends above
it. -/
def Overhangs (offset length chunkSize : Int64) : Prop :=
  ¬ Refusable offset length chunkSize ∧ 0 < length.toInt ∧
    2 ^ 63 - 1 < ((offset.toInt + length.toInt - 1) / chunkSize.toInt + 1) * chunkSize.toInt

instance (offset length chunkSize : Int64) : Decidable (Refusable offset length chunkSize) :=
  inferInstanceAs (Decidable (_ ∨ _))

instance (offset length chunkSize : Int64) : Decidable (Overhangs offset length chunkSize) :=
  inferInstanceAs (Decidable (_ ∧ _))

/-! ## A tiling is a cut -/

section Tiles

variable {cs lo hi : Nat} {rs : List ChunkRange}

private theorem Tiles.ends (h : Tiles cs lo hi rs) :
    (rs = [] ↔ lo = hi) ∧ (∀ r ∈ rs.head?, r.reqStart.toInt = lo) ∧
      ∀ r ∈ rs.getLast?, r.reqEnd.toInt = hi := by
  induction h with
  | nil hi => simp
  | @cons lo mid hi r rs hs he hi' hc hlt hle hfit hrest ih =>
    refine ⟨by simp; omega, by simpa using hs, ?_⟩
    cases rs with
    | nil =>
      obtain rfl := ih.1.mp rfl
      simpa using he
    | cons s rs =>
      rw [List.getLast?_cons_cons]
      exact ih.2.2

private theorem Tiles.adjacent (h : Tiles cs lo hi rs) :
    rs.IsChain fun r s => r.reqEnd.toInt = s.reqStart.toInt := by
  induction h with
  | nil hi => exact .nil
  | @cons lo mid hi r rs hs he hi' hc hlt hle hfit hrest ih =>
    refine List.isChain_cons.mpr ⟨fun s hmem => ?_, ih⟩
    rw [he, hrest.ends.2.1 s hmem]

private theorem Tiles.each (h : Tiles cs lo hi rs) : ∀ r ∈ rs,
    r.reqStart.toInt < r.reqEnd.toInt ∧
      r.chunkStart.toInt = r.reqStart.toInt - r.index.toInt * cs ∧ 0 ≤ r.chunkStart.toInt ∧
      r.chunkStart.toInt + (r.reqEnd.toInt - r.reqStart.toInt) ≤ cs := by
  induction h with
  | nil hi => simp
  | @cons lo mid hi r rs hs he hi' hc hlt hle hfit hrest ih =>
    refine List.forall_mem_cons.mpr ⟨?_, ih⟩
    have hsplit : ((lo / cs : Nat) : Int) * cs + (lo % cs : Nat) = lo := by
      exact_mod_cast Nat.div_add_mod' lo cs
    rw [hs, he, hi', hc]
    omega

/-- The position in the buffer is the distance from the start of the request. -/
private theorem Tiles.slices {length chunkSize : Int64} (hcs : (cs : Int) = chunkSize.toInt)
    (h : Tiles cs lo hi rs) : ∀ (start : Nat) (pos : Int64), start ≤ lo →
      pos.toInt = (lo - start : Nat) → length.toInt = (hi - start : Nat) →
      ∀ e ∈ slicesTaken length chunkSize rs pos, e.InBounds := by
  induction h with
  | nil hi => simp [slicesTaken]
  | @cons lo mid hi r rs hs he hi' hc hlt hle hfit hrest ih =>
    intro start pos hstart hpos hlength
    have hlimit := length.toInt_lt
    have hcsLimit := chunkSize.toInt_lt
    have hlow := r.reqStart.toInt_lt
    have hhigh := r.reqEnd.toInt_lt
    have hpart : (r.reqEnd - r.reqStart).toInt = (mid - lo : Nat) := by
      rw [toInt_sub_of_bounds (by omega)]
      omega
    have hnext : (pos + (r.reqEnd - r.reqStart)).toInt = (mid - start : Nat) := by
      rw [toInt_add_of_bounds (by omega)]
      omega
    have hchunk : (r.chunkStart + (r.reqEnd - r.reqStart)).toInt = (lo % cs + (mid - lo) : Nat) := by
      rw [toInt_add_of_bounds (by omega), hc, hpart]
      push_cast
      rfl
    rw [slicesTaken]
    refine List.forall_mem_cons.mpr ⟨?_, List.forall_mem_cons.mpr ⟨?_, ?_⟩⟩
    · show 0 ≤ pos.toInt ∧ pos.toInt ≤ (pos + (r.reqEnd - r.reqStart)).toInt ∧
        (pos + (r.reqEnd - r.reqStart)).toInt ≤ length.toInt
      have := hrest.le
      omega
    · show 0 ≤ r.chunkStart.toInt ∧
        r.chunkStart.toInt ≤ (r.chunkStart + (r.reqEnd - r.reqStart)).toInt ∧
        (r.chunkStart + (r.reqEnd - r.reqStart)).toInt ≤ chunkSize.toInt
      omega
    · exact ih start _ (by omega) hnext hlength

private theorem Tiles.cuts {offset length chunkSize : Int64} (ho : 0 ≤ offset.toInt)
    (hl : 0 ≤ length.toInt) (hc : 0 < chunkSize.toInt)
    (hok : chunkIndexes offset length chunkSize = .ok rs)
    (h : Tiles (natOf chunkSize) (natOf offset) (natOf offset + natOf length) rs) :
    Cuts offset length chunkSize rs := by
  have h0 : (0 : Int64).toInt = 0 := rfl
  have hoff : (natOf offset : Int) = offset.toInt := natOf_cast ho
  have hlen : (natOf length : Int) = length.toInt := natOf_cast hl
  have hcs : (natOf chunkSize : Int) = chunkSize.toInt := natOf_cast (by omega)
  obtain ⟨hempty, hfirst, hlast⟩ := h.ends
  refine ⟨?_, ?_, ?_, chunkIndexes_consecutive hok, h.adjacent, fun r hr => (h.each r hr).1, ?_, ?_, ?_⟩
  · rw [hempty]
    omega
  · intro r hr
    rw [hfirst r hr, hoff]
  · intro r hr
    rw [hlast r hr]
    omega
  · intro r hr
    rw [← hcs]
    exact (h.each r hr).2.1
  · intro r hr
    rw [← hcs]
    exact (h.each r hr).2.2
  · exact h.slices hcs (natOf offset) 0 (Nat.le_refl _) (by omega) (by omega)

end Tiles

/-! ## The answer of the code -/

/-- **Exactly the overhanging requests are cut wrongly.** -/
theorem chunkIndexes_answers_iff (offset length chunkSize : Int64) :
    Answers offset length chunkSize (chunkIndexes offset length chunkSize) ↔
      ¬ Overhangs offset length chunkSize := by
  by_cases href : Refusable offset length chunkSize
  · -- refused, and rightly: nothing is left to overhang
    have hbad : offset.toInt < 0 ∨ length.toInt < 0 ∨ chunkSize.toInt ≤ 0 ∨
        2 ^ 63 ≤ offset.toInt + length.toInt := by
      unfold Refusable at href
      omega
    obtain ⟨e, he⟩ := chunkIndexes_error hbad
    rw [he]
    exact ⟨fun _ hover => hover.1 href, fun _ => href⟩
  have hgood : 0 ≤ offset.toInt ∧ 0 ≤ length.toInt ∧ 0 < chunkSize.toInt ∧
      offset.toInt + length.toInt < 2 ^ 63 := by
    have := offset.toInt_lt
    unfold Refusable at href
    omega
  obtain ⟨ho, hl, hc, hsum⟩ := hgood
  by_cases hover : Overhangs offset length chunkSize
  · -- the last range ends at a negative position
    obtain ⟨-, hpos, hend⟩ := hover
    obtain ⟨rs, r, hok, hlast, hneg⟩ := chunkIndexes_of_overhang ho hpos hc hsum (by omega)
    rw [hok]
    refine ⟨fun hans => absurd (hans.2.last r hlast) (by omega), fun hno => absurd ?_ hno⟩
    exact ⟨href, hpos, hend⟩
  · have hfits : 0 < length.toInt → (natOf offset + natOf length - 1) / natOf chunkSize *
        natOf chunkSize + natOf chunkSize < 2 ^ 63 := by
      intro hpos
      have hle : ((offset.toInt + length.toInt - 1) / chunkSize.toInt + 1) * chunkSize.toInt <
          2 ^ 63 := by
        by_contra hno
        exact hover ⟨href, hpos, by omega⟩
      rw [← natOf_cast ho, ← natOf_cast hl, ← natOf_cast (x := chunkSize) (by omega)] at hle
      have hone : 1 ≤ natOf offset + natOf length := by
        have : (natOf length : Int) = length.toInt := natOf_cast hl
        omega
      have hcast : ((natOf offset + natOf length - 1 : Nat) : Int) =
          natOf offset + natOf length - 1 := by
        push_cast [hone]
        rfl
      rw [← hcast, Int.add_mul, Int.one_mul] at hle
      exact_mod_cast hle
    obtain ⟨rs, hok, htiles⟩ := chunkIndexes_tiles_of_fits ho hl hc hsum hfits
    rw [hok]
    exact ⟨fun _ => hover, fun _ => ⟨href, htiles.cuts ho hl hc hok⟩⟩

/-- The last byte of a volume of `2^63 - 1` bytes in 4 MiB chunks: its chunk ends at `2^63`, and the
range ends at `-2^63`. -/
theorem chunkIndexes_overhanging_byte :
    chunkIndexes 9223372036854775806 1 4194304 =
      .ok [⟨2199023255551, 4194302, 9223372036854775806, -9223372036854775808⟩] ∧
    ¬ Answers 9223372036854775806 1 4194304 (chunkIndexes 9223372036854775806 1 4194304) := by
  have hcut : chunkIndexes 9223372036854775806 1 4194304 =
      .ok [⟨2199023255551, 4194302, 9223372036854775806, -9223372036854775808⟩] := by decide +kernel
  refine ⟨hcut, fun hans => ?_⟩
  rw [hcut] at hans
  exact absurd (hans.2.nonempty _ (List.mem_singleton_self _)) (by decide)

end OrcaBlocks.Storage
