/-
# OrcaBlocks.Storage.ChunkIndexes — the ranges of `ChunkIndexes` tile the request.

`Tiles cs lo hi rs` is the shape every loop over the ranges recurses on: the first range starts at
`lo`, in chunk `lo / cs` at offset `lo % cs`, stays inside that chunk, and the rest tiles what is
left. `chunkIndexes_tiles` is the only fact about `ChunkIndexes` that `Read` and `Write` use, and
`chunkIndexes_error` is when it fails. Both are about wrapping arithmetic: the last chunk may hang
over the end of the request, and its END must still be representable (`chunkIndexes_tiles_of_fits`);
`offset + length + chunkSize < 2^63` is enough for that.
-/
import OrcaBlocks.Lib.MachineInt
import OrcaBlocks.Storage.Types

namespace OrcaBlocks.Storage

open OrcaBlocks.Lib

/-- The ranges `rs` tile `[lo, hi)` along chunks of `cs` bytes. -/
inductive Tiles (cs : Nat) : Nat → Nat → List ChunkRange → Prop
  | nil (hi : Nat) : Tiles cs hi hi []
  | cons {lo mid hi : Nat} {r : ChunkRange} {rs : List ChunkRange}
      (hstart : r.reqStart.toInt = lo) (hend : r.reqEnd.toInt = mid)
      (hindex : r.index.toInt = (lo / cs : Nat)) (hchunk : r.chunkStart.toInt = (lo % cs : Nat))
      (hlt : lo < mid) (hle : mid ≤ hi) (hfit : lo % cs + (mid - lo) ≤ cs)
      (hrest : Tiles cs mid hi rs) : Tiles cs lo hi (r :: rs)

theorem Tiles.le {cs lo hi : Nat} {rs : List ChunkRange} (h : Tiles cs lo hi rs) : lo ≤ hi := by
  induction h with
  | nil hi => exact Nat.le_refl hi
  | cons _ _ _ _ hlt _ _ _ ih => omega

section Loop

variable {offset stop chunkSize : Int64}

/-- One turn of the loop, at a position `lo` of chunk `idx`. -/
private theorem chunkRangeAt_spec {idx : Int64} {lo : Nat} (hc : 0 < chunkSize.toInt)
    (hidx : idx.toInt = (lo / natOf chunkSize : Nat))
    (hlo : (lo : Int) = max offset.toInt (idx.toInt * chunkSize.toInt))
    (hstop : (lo : Int) < stop.toInt)
    (hb : lo / natOf chunkSize * natOf chunkSize + natOf chunkSize < 2 ^ 63) :
    let r := chunkRangeAt offset stop chunkSize idx
    let mid := min (natOf stop) (lo / natOf chunkSize * natOf chunkSize + natOf chunkSize)
    r.index = idx ∧ r.reqStart.toInt = lo ∧ r.reqEnd.toInt = mid ∧
      r.chunkStart.toInt = (lo % natOf chunkSize : Nat) := by
  intro r mid
  have hcs : (natOf chunkSize : Int) = chunkSize.toInt := natOf_cast (by omega)
  have hlimit := stop.toInt_lt
  have hprod : idx.toInt * chunkSize.toInt = (lo / natOf chunkSize * natOf chunkSize : Nat) := by
    rw [hidx, ← hcs]; push_cast; rfl
  have hdiv : lo / natOf chunkSize * natOf chunkSize ≤ lo := Nat.div_mul_le_self _ _
  have hmod : lo % natOf chunkSize = lo - lo / natOf chunkSize * natOf chunkSize := by
    have := Nat.div_add_mod' lo (natOf chunkSize); omega
  have habs : (idx * chunkSize).toInt = (lo / natOf chunkSize * natOf chunkSize : Nat) := by
    rw [toInt_mul_of_bounds (by omega) (by omega), hprod]
  have hend : (idx * chunkSize + chunkSize).toInt =
      (lo / natOf chunkSize * natOf chunkSize + natOf chunkSize : Nat) := by
    rw [toInt_add_of_bounds (by omega), habs]; omega
  have hreq : (max64 offset (idx * chunkSize)).toInt = lo := by
    unfold max64
    split
    · rename_i h
      have := Int64.lt_iff_toInt_lt.mp h
      omega
    · rename_i h
      have := mt Int64.lt_iff_toInt_lt.mpr h
      omega
  refine ⟨rfl, hreq, ?_, ?_⟩
  · have hstopNat : (natOf stop : Int) = stop.toInt := natOf_cast (by omega)
    show (min64 stop (idx * chunkSize + chunkSize)).toInt = (mid : Int)
    unfold min64
    split
    · rename_i h
      have := Int64.lt_iff_toInt_lt.mp h
      omega
    · rename_i h
      have := mt Int64.lt_iff_toInt_lt.mpr h
      omega
  · show (max64 offset (idx * chunkSize) - idx * chunkSize).toInt = _
    rw [toInt_sub_of_bounds (by omega), hreq, habs]
    omega

/-- The loop tiles what is left of the request. Induction on the turns: the next turn starts at the
next chunk boundary, or there is none. -/
private theorem chunkIndexesLoop_tiles (hc : 0 < chunkSize.toInt) (last : Int64)
    (hlast : last.toInt = (stop.toInt - 1) / chunkSize.toInt)
    (hb : (natOf stop - 1) / natOf chunkSize * natOf chunkSize + natOf chunkSize < 2 ^ 63) :
    ∀ (fuel : Nat) (idx : Int64) (lo : Nat), idx.toInt = (lo / natOf chunkSize : Nat) →
      (lo : Int) = max offset.toInt (idx.toInt * chunkSize.toInt) → (lo : Int) < stop.toInt →
      (fuel : Int) = last.toInt - idx.toInt + 1 →
      Tiles (natOf chunkSize) lo (natOf stop)
        (chunkIndexesLoop offset stop chunkSize last fuel idx) := by
  have hcs : (natOf chunkSize : Int) = chunkSize.toInt := natOf_cast (by omega)
  intro fuel
  induction fuel with
  | zero =>
    intro idx lo hidx _ hstop hfuel
    have hle : lo / natOf chunkSize ≤ (natOf stop - 1) / natOf chunkSize :=
      Nat.div_le_div_right (by unfold natOf; omega)
    have hcast : ((natOf stop - 1) / natOf chunkSize : Nat) =
        (stop.toInt - 1) / chunkSize.toInt := by
      rw [← hcs, ← natOf_cast (x := stop) (by omega)]
      push_cast [show 1 ≤ natOf stop by unfold natOf; omega]
      rfl
    omega
  | succ fuel ih =>
    intro idx lo hidx hlo hstop hfuel
    have hstopNat : (natOf stop : Int) = stop.toInt := natOf_cast (by omega)
    have hpos : 0 < natOf chunkSize := by omega
    have hlimit := stop.toInt_lt
    -- no chunk of the request ends behind the last one
    have hend : lo / natOf chunkSize * natOf chunkSize ≤
        (natOf stop - 1) / natOf chunkSize * natOf chunkSize :=
      Nat.mul_le_mul_right _ (Nat.div_le_div_right (by omega))
    obtain ⟨hri, hrs, hre, hrc⟩ := chunkRangeAt_spec hc hidx hlo hstop (by omega)
    have hsplit : lo / natOf chunkSize * natOf chunkSize + lo % natOf chunkSize = lo :=
      Nat.div_add_mod' lo (natOf chunkSize)
    have hmod : lo % natOf chunkSize < natOf chunkSize := Nat.mod_lt lo hpos
    rw [chunkIndexesLoop, if_pos (Int64.le_iff_toInt_le.mpr (by omega))]
    refine Tiles.cons hrs hre (hri ▸ hidx) hrc (by omega) (by omega) (by omega) ?_
    by_cases hmore : lo / natOf chunkSize * natOf chunkSize + natOf chunkSize < natOf stop
    · -- the request goes on in the next chunk
      have hnext : (idx + 1).toInt = (lo / natOf chunkSize + 1 : Nat) := by
        have hone : (1 : Int64).toInt = 1 := rfl
        have hnonneg : 0 ≤ idx.toInt := by rw [hidx]; exact Int.natCast_nonneg _
        have hle : idx.toInt ≤ lo := by rw [hidx]; exact_mod_cast Nat.div_le_self _ _
        rw [toInt_add_of_bounds (by omega), hidx, hone]
        push_cast; rfl
      have hprod : (idx + 1).toInt * chunkSize.toInt =
          (lo / natOf chunkSize * natOf chunkSize + natOf chunkSize : Nat) := by
        rw [hnext, ← hcs]; push_cast; ring
      rw [Nat.min_eq_right (Nat.le_of_lt hmore)]
      refine ih (idx + 1) _ ?_ (by omega) (by omega) (by omega)
      rw [hnext, ← Nat.succ_mul, Nat.mul_div_cancel _ hpos]
    · -- this was the last chunk
      have hfuel0 : fuel = 0 := by
        have hq : (natOf stop - 1) / natOf chunkSize = lo / natOf chunkSize := by
          apply Nat.div_eq_of_lt_le
          · omega
          · rw [Nat.succ_mul]; omega
        have hcast : ((natOf stop - 1) / natOf chunkSize : Nat) =
            (stop.toInt - 1) / chunkSize.toInt := by
          rw [← hcs, ← hstopNat]
          push_cast [show 1 ≤ natOf stop by omega]
          rfl
        omega
      rw [Nat.min_eq_left (Nat.le_of_not_lt hmore), hfuel0]
      exact Tiles.nil _

end Loop

/-- `ChunkIndexes` on a request whose last chunk ends below the integer limit. -/
theorem chunkIndexes_tiles_of_fits {offset length chunkSize : Int64} (ho : 0 ≤ offset.toInt)
    (hl : 0 ≤ length.toInt) (hc : 0 < chunkSize.toInt)
    (hsum : offset.toInt + length.toInt < 2 ^ 63)
    (hb : 0 < length.toInt → (natOf offset + natOf length - 1) / natOf chunkSize * natOf chunkSize +
      natOf chunkSize < 2 ^ 63) :
    ∃ rs, chunkIndexes offset length chunkSize = .ok rs ∧
      Tiles (natOf chunkSize) (natOf offset) (natOf offset + natOf length) rs := by
  have h0 : (0 : Int64).toInt = 0 := rfl
  have h1 : (1 : Int64).toInt = 1 := rfl
  have hoff : (natOf offset : Int) = offset.toInt := natOf_cast ho
  have hlen : (natOf length : Int) = length.toInt := natOf_cast hl
  have hcs : (natOf chunkSize : Int) = chunkSize.toInt := natOf_cast (by omega)
  unfold chunkIndexes
  rw [if_neg (by rw [Int64.lt_iff_toInt_lt]; omega), if_neg (by rw [Int64.lt_iff_toInt_lt]; omega),
    if_neg (by rw [Int64.le_iff_toInt_le]; omega)]
  by_cases hzero : length = 0
  · subst hzero
    exact ⟨[], by simp, by simpa [natOf, h0] using Tiles.nil _⟩
  · have hpos : 0 < length.toInt := by
      have : length.toInt ≠ 0 := fun h => hzero (Int64.toInt_inj.mp (by rw [h, h0]))
      omega
    have hstop : (offset + length).toInt = offset.toInt + length.toInt := toInt_add_of_bounds (by omega)
    have hpred : (offset + length - 1).toInt = offset.toInt + length.toInt - 1 := by
      rw [toInt_sub_of_bounds (by omega)]; omega
    have hfirst : (offset / chunkSize).toInt = (natOf offset / natOf chunkSize : Nat) := by
      rw [toInt_div_of_nonneg ho hc, ← hcs, ← hoff]; push_cast; rfl
    have hlast : ((offset + length - 1) / chunkSize).toInt =
        ((offset + length).toInt - 1) / chunkSize.toInt := by
      rw [toInt_div_of_nonneg (by omega) hc, hpred, hstop]
    rw [if_neg hzero]
    simp only
    rw [if_neg (by rw [Int64.lt_iff_toInt_lt]; omega)]
    refine ⟨_, rfl, ?_⟩
    have htarget : natOf offset + natOf length = natOf (offset + length) := by
      unfold natOf at hoff hlen ⊢; omega
    rw [htarget]
    refine chunkIndexesLoop_tiles hc _ hlast (htarget ▸ hb hpos) _ _ _ hfirst ?_ (by omega) ?_
    · have hle : (offset / chunkSize).toInt * chunkSize.toInt ≤ offset.toInt := by
        rw [toInt_div_of_nonneg ho hc]; exact Int.ediv_mul_le _ (by omega)
      omega
    · have hmono : (offset / chunkSize).toInt ≤ ((offset + length - 1) / chunkSize).toInt := by
        rw [hlast, toInt_div_of_nonneg ho hc, hstop]
        exact Int.ediv_le_ediv hc (by omega)
      omega

/-- `ChunkIndexes` on a request that ends a chunk size short of the integer limit. -/
theorem chunkIndexes_tiles {offset length chunkSize : Int64} (ho : 0 ≤ offset.toInt)
    (hl : 0 ≤ length.toInt) (hc : 0 < chunkSize.toInt)
    (hb : offset.toInt + length.toInt + chunkSize.toInt ≤ 2 ^ 63) :
    ∃ rs, chunkIndexes offset length chunkSize = .ok rs ∧
      Tiles (natOf chunkSize) (natOf offset) (natOf offset + natOf length) rs := by
  refine chunkIndexes_tiles_of_fits ho hl hc (by omega) fun hpos => ?_
  have hle := Nat.div_mul_le_self (natOf offset + natOf length - 1) (natOf chunkSize)
  have hoff : (natOf offset : Int) = offset.toInt := natOf_cast ho
  have hlen : (natOf length : Int) = length.toInt := natOf_cast hl
  have hcs : (natOf chunkSize : Int) = chunkSize.toInt := natOf_cast (by omega)
  omega

/-- A request that is not a range of positions below the limit is refused, and so is every request
to a volume without a positive chunk size. -/
theorem chunkIndexes_error {offset length chunkSize : Int64}
    (h : offset.toInt < 0 ∨ length.toInt < 0 ∨ chunkSize.toInt ≤ 0 ∨
      2 ^ 63 ≤ offset.toInt + length.toInt) :
    ∃ text, chunkIndexes offset length chunkSize = .error (.errorf text []) := by
  have h0 : (0 : Int64).toInt = 0 := rfl
  unfold chunkIndexes
  by_cases ho : offset < 0
  · exact ⟨_, by rw [if_pos ho]⟩
  by_cases hl : length < 0
  · exact ⟨_, by rw [if_neg ho, if_pos hl]⟩
  by_cases hc : chunkSize ≤ 0
  · exact ⟨_, by rw [if_neg ho, if_neg hl, if_pos hc]⟩
  have ho' := mt Int64.lt_iff_toInt_lt.mpr ho
  have hl' := mt Int64.lt_iff_toInt_lt.mpr hl
  have hc' := mt Int64.le_iff_toInt_le.mpr hc
  have hover : (offset + length).toInt < 0 :=
    toInt_add_neg_of_overflow (by omega) (by omega) (by omega)
  have hne : length ≠ 0 := by
    rintro rfl
    have := offset.toInt_lt
    omega
  refine ⟨"range overflow", ?_⟩
  rw [if_neg ho, if_neg hl, if_neg hc, if_neg hne]
  simp only
  rw [if_pos (by rw [Int64.lt_iff_toInt_lt]; omega)]

/-! ## Requests to a volume -/

/-- The request is a range of positions inside the volume. -/
def InRange (v : Volume) (offset length : Int64) : Prop :=
  0 ≤ offset.toInt ∧ 0 ≤ length.toInt ∧ offset.toInt + length.toInt ≤ v.sizeBytes.toInt

/-- The check of `Read` and `ChunkIndexes` together: a request outside the volume is refused. -/
theorem refused_of_not_inRange {v : Volume} {offset length : Int64}
    (h : v.chunkSize.toInt ≤ 0 ∨ ¬ InRange v offset length)
    (hcheck : ¬ offset + length > v.sizeBytes) :
    ∃ text, chunkIndexes offset length v.chunkSize = .error (.errorf text []) := by
  apply chunkIndexes_error
  by_contra hno
  have ho : 0 ≤ offset.toInt := by omega
  have hl : 0 ≤ length.toInt := by omega
  have hsum : (offset + length).toInt = offset.toInt + length.toInt := toInt_add_of_bounds (by omega)
  have hle := mt Int64.lt_iff_toInt_lt.mpr hcheck
  rcases h with h | h
  · omega
  · exact h ⟨ho, hl, by omega⟩

/-- A request inside the volume passes the check and is cut into ranges that tile it. -/
theorem accepted_of_inRange {v : Volume} (hc : 0 < v.chunkSize.toInt)
    (hsize : v.sizeBytes.toInt + v.chunkSize.toInt ≤ 2 ^ 63)
    {offset length : Int64} (h : InRange v offset length) :
    ¬ offset + length > v.sizeBytes ∧ ∃ rs, chunkIndexes offset length v.chunkSize = .ok rs ∧
      Tiles (natOf v.chunkSize) (natOf offset) (natOf offset + natOf length) rs := by
  obtain ⟨ho, hl, hle⟩ := h
  have hsum : (offset + length).toInt = offset.toInt + length.toInt := toInt_add_of_bounds (by omega)
  refine ⟨?_, chunkIndexes_tiles ho hl hc (by omega)⟩
  rw [gt_iff_lt, Int64.lt_iff_toInt_lt]
  omega

/-- Whatever request gets past the check and `ChunkIndexes` was one inside the volume. -/
theorem tiles_of_ok {v : Volume} (hsize : v.sizeBytes.toInt + v.chunkSize.toInt ≤ 2 ^ 63)
    {offset length : Int64} (hcheck : ¬ offset + length > v.sizeBytes) {rs : List ChunkRange}
    (h : chunkIndexes offset length v.chunkSize = .ok rs) :
    0 < v.chunkSize.toInt ∧ InRange v offset length ∧
      Tiles (natOf v.chunkSize) (natOf offset) (natOf offset + natOf length) rs := by
  by_cases hgood : 0 < v.chunkSize.toInt ∧ InRange v offset length
  · obtain ⟨hc, hrange⟩ := hgood
    obtain ⟨-, rs', hrs', htiles⟩ := accepted_of_inRange hc hsize hrange
    obtain rfl : rs = rs' := Except.ok.inj (h.symm.trans hrs')
    exact ⟨hc, hrange, htiles⟩
  · have hbad : v.chunkSize.toInt ≤ 0 ∨ ¬ InRange v offset length := by
      by_cases hc : v.chunkSize.toInt ≤ 0
      · exact Or.inl hc
      · exact Or.inr fun hrange => hgood ⟨by omega, hrange⟩
    obtain ⟨e, he⟩ := refused_of_not_inRange hbad hcheck
    rw [h] at he
    cases he

/-- Each range of a tiling lies in the chunk of a position of the request. -/
theorem Tiles.mem {cs lo hi : Nat} {rs : List ChunkRange} (h : Tiles cs lo hi rs) :
    ∀ r ∈ rs, 0 ≤ r.chunkStart.toInt ∧ ∃ p, lo ≤ p ∧ p < hi ∧ r.index.toInt = (p / cs : Nat) := by
  induction h with
  | nil hi => simp
  | @cons lo mid hi r rs hs he hi' hc hlt hle hfit hrest ih =>
    intro r' hr'
    rcases List.mem_cons.mp hr' with rfl | hmem
    · exact ⟨by omega, lo, Nat.le_refl lo, by omega, hi'⟩
    · obtain ⟨hstart, p, hp, hrest⟩ := ih r' hmem
      exact ⟨hstart, p, by omega, hrest⟩

/-- The loop visits `idx`, `idx + 1` and so on. -/
private theorem chunkIndexesLoop_index {offset stop chunkSize last : Int64} :
    ∀ (fuel : Nat) (idx : Int64), idx.toInt + fuel ≤ 2 ^ 63 →
      (∀ r ∈ (chunkIndexesLoop offset stop chunkSize last fuel idx).head?, r.index = idx) ∧
      (chunkIndexesLoop offset stop chunkSize last fuel idx).IsChain
        fun r s => s.index.toInt = r.index.toInt + 1 := by
  intro fuel
  induction fuel with
  | zero =>
    intro idx _
    simp [chunkIndexesLoop]
  | succ fuel ih =>
    intro idx hfuel
    rw [chunkIndexesLoop]
    split
    · have hone : (1 : Int64).toInt = 1 := rfl
      have hlo := idx.le_toInt
      cases fuel with
      | zero => simp [chunkIndexesLoop, chunkRangeAt]
      | succ fuel =>
        have hnext : (idx + 1).toInt = idx.toInt + 1 := by
          rw [toInt_add_of_bounds (by omega), hone]
        obtain ⟨hhead, hchain⟩ := ih (idx + 1) (by omega)
        refine ⟨by simp [chunkRangeAt], List.isChain_cons.mpr ⟨?_, hchain⟩⟩
        intro s hs
        rw [hhead s hs, hnext]
        rfl
    · simp

/-- The loop that has enough turns ends with the chunk `last`. -/
private theorem chunkIndexesLoop_getLast? {offset stop chunkSize last : Int64} :
    ∀ (fuel : Nat) (idx : Int64), (fuel : Int) = last.toInt - idx.toInt →
      (chunkIndexesLoop offset stop chunkSize last (fuel + 1) idx).getLast? =
        some (chunkRangeAt offset stop chunkSize last) := by
  intro fuel
  induction fuel with
  | zero =>
    intro idx hfuel
    obtain rfl : idx = last := Int64.toInt_inj.mp (by omega)
    simp [chunkIndexesLoop]
  | succ fuel ih =>
    intro idx hfuel
    have hone : (1 : Int64).toInt = 1 := rfl
    have hlo := idx.le_toInt
    have hhi := last.toInt_lt
    have hnext : (idx + 1).toInt = idx.toInt + 1 := by
      rw [toInt_add_of_bounds (by omega), hone]
    rw [chunkIndexesLoop, if_pos (Int64.le_iff_toInt_le.mpr (by omega)), List.getLast?_cons,
      ih (idx + 1) (by omega), Option.getD_some]

/-- The chunks are visited one after the other. -/
theorem chunkIndexes_consecutive {offset length chunkSize : Int64} {rs : List ChunkRange}
    (h : chunkIndexes offset length chunkSize = .ok rs) :
    rs.IsChain fun r s => s.index.toInt = r.index.toInt + 1 := by
  unfold chunkIndexes at h
  split at h
  · cases h
  split at h
  · cases h
  split at h
  · cases h
  split at h
  · cases h
    exact .nil
  dsimp only at h
  split at h
  · cases h
  cases h
  refine (chunkIndexesLoop_index _ _ ?_).2
  have h₁ := ((offset + length - 1) / chunkSize).toInt_lt
  have h₂ := (offset / chunkSize).toInt_lt
  omega

/-- No chunk is visited twice. -/
theorem chunkIndexes_nodup {offset length chunkSize : Int64} {rs : List ChunkRange}
    (h : chunkIndexes offset length chunkSize = .ok rs) : (rs.map ChunkRange.index).Nodup := by
  have hchain := (chunkIndexes_consecutive h).imp
    fun (r s : ChunkRange) hrs => (by omega : r.index.toInt < s.index.toInt)
  have : IsTrans ChunkRange fun r s => r.index.toInt < s.index.toInt :=
    ⟨fun _ _ _ h₁ h₂ => Int.lt_trans h₁ h₂⟩
  rw [List.isChain_iff_pairwise] at hchain
  rw [List.Nodup, List.pairwise_map]
  exact hchain.imp fun hlt heq => absurd hlt (by rw [heq]; exact Int.lt_irrefl _)

/-- A last chunk whose end is above the integer limit: the end wraps, and the last range ends before
the request begins. -/
theorem chunkIndexes_of_overhang {offset length chunkSize : Int64} (ho : 0 ≤ offset.toInt)
    (hl : 0 < length.toInt) (hc : 0 < chunkSize.toInt)
    (hsum : offset.toInt + length.toInt < 2 ^ 63)
    (hover : 2 ^ 63 ≤ ((offset.toInt + length.toInt - 1) / chunkSize.toInt + 1) * chunkSize.toInt) :
    ∃ rs r, chunkIndexes offset length chunkSize = .ok rs ∧ rs.getLast? = some r ∧
      r.reqEnd.toInt < 0 := by
  have h0 : (0 : Int64).toInt = 0 := rfl
  have h1 : (1 : Int64).toInt = 1 := rfl
  have hstop : (offset + length).toInt = offset.toInt + length.toInt := toInt_add_of_bounds (by omega)
  have hpred : (offset + length - 1).toInt = offset.toInt + length.toInt - 1 := by
    rw [toInt_sub_of_bounds (by omega)]; omega
  have hlast : ((offset + length - 1) / chunkSize).toInt =
      (offset.toInt + length.toInt - 1) / chunkSize.toInt := by
    rw [toInt_div_of_nonneg (by omega) hc, hpred]
  have hfirst : (offset / chunkSize).toInt ≤ ((offset + length - 1) / chunkSize).toInt := by
    rw [hlast, toInt_div_of_nonneg ho hc]
    exact Int.ediv_le_ediv hc (by omega)
  -- the start of the last chunk is representable, its end is not
  have hmul := Int.ediv_mul_le (offset.toInt + length.toInt - 1) (b := chunkSize.toInt) (by omega)
  have hnonneg : 0 ≤ (offset.toInt + length.toInt - 1) / chunkSize.toInt * chunkSize.toInt :=
    Int.mul_nonneg (Int.ediv_nonneg (by omega) (by omega)) (by omega)
  have hstart : ((offset + length - 1) / chunkSize * chunkSize).toInt =
      (offset.toInt + length.toInt - 1) / chunkSize.toInt * chunkSize.toInt := by
    rw [toInt_mul_of_bounds (by rw [hlast]; omega) (by rw [hlast]; omega), hlast]
  have hneg : ((offset + length - 1) / chunkSize * chunkSize + chunkSize).toInt < 0 := by
    rw [Int.add_mul, Int.one_mul] at hover
    exact toInt_add_neg_of_overflow (by omega) (by omega) (by omega)
  let rs := chunkIndexesLoop offset (offset + length) chunkSize ((offset + length - 1) / chunkSize)
    (((offset + length - 1) / chunkSize).toInt - (offset / chunkSize).toInt + 1).toNat
    (offset / chunkSize)
  refine ⟨rs, chunkRangeAt offset (offset + length) chunkSize ((offset + length - 1) / chunkSize),
    ?_, ?_, ?_⟩
  · unfold chunkIndexes
    rw [if_neg (by rw [Int64.lt_iff_toInt_lt]; omega),
      if_neg (by rw [Int64.lt_iff_toInt_lt]; omega),
      if_neg (by rw [Int64.le_iff_toInt_le]; omega), if_neg (by rintro rfl; omega)]
    dsimp only
    rw [if_neg (by rw [Int64.lt_iff_toInt_lt]; omega)]
  · show (chunkIndexesLoop _ _ _ _ _ _).getLast? = _
    rw [show (((offset + length - 1) / chunkSize).toInt - (offset / chunkSize).toInt + 1).toNat =
      (((offset + length - 1) / chunkSize).toInt - (offset / chunkSize).toInt).toNat + 1 by omega]
    exact chunkIndexesLoop_getLast? _ _ (by omega)
  · show (min64 (offset + length) ((offset + length - 1) / chunkSize * chunkSize + chunkSize)).toInt < 0
    unfold min64
    split
    · rename_i hlt
      have := Int64.lt_iff_toInt_lt.mp hlt
      omega
    · exact hneg

end OrcaBlocks.Storage
