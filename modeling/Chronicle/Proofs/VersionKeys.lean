import Chronicle.Proofs.KeyOrder
import Chronicle.SortedMap

/-!
# The keys of versions

All versions of an identity lie together, the newest first. The key of an
identity cannot run on into that of another one, so the range between two
places of its versions holds no version of any other identity.
-/

namespace Chronicle

namespace Bytes

theorem toNat_bigEndian {width n : Nat} (h : n < 256 ^ width) :
    toNat (bigEndian width n) = n := by
  induction width generalizing n with
  | zero =>
    obtain rfl : n = 0 := by simpa using h
    rfl
  | succ width ih =>
    have hd : n / 256 < 256 ^ width := Nat.div_lt_of_lt_mul (by rwa [Nat.pow_succ'] at h)
    rw [bigEndian, toNat_append_singleton, ih hd, UInt8.toNat_ofNat']
    omega

end Bytes

namespace Key

open Bytes

theorem decided_ofIdentity {i j : Tuple} (h : i.length = j.length) :
    Decided (ofIdentity i) (ofIdentity j) ((Comparator.mk []).compare i j) := decided_ofTuple h

theorem ofIdentity_inj {i j : Tuple} : ofIdentity i = ofIdentity j ↔ i = j := ofTuple_inj

/-- The number of a block in a version's key. -/
theorem complemented_block_lt (block : UInt64) :
    UInt64.size - 1 - block.toNat < 256 ^ 8 := by
  have hsize : UInt64.size = 18446744073709551616 := rfl
  omega

@[simp] theorem length_versionSuffix (block : UInt64) (present : Bool) :
    (versionSuffix block present).length = suffixLength := by
  simp [versionSuffix, suffixLength]

/-- Newer blocks come first, and in one block a live version. -/
theorem compare_versionSuffix (b c : UInt64) (p q : Bool) :
    compare (versionSuffix b p) (versionSuffix c q) = (compare c b).then (compare q p) := by
  have hb := b.toNat_lt
  have hc := c.toNat_lt
  have hsize : UInt64.size = 18446744073709551616 := rfl
  have hblock : compare (UInt64.size - 1 - b.toNat) (UInt64.size - 1 - c.toNat) = compare c b := by
    simp only [compare, compareOfLessAndEq, UInt64.lt_iff_toNat_lt, ← UInt64.toNat_inj]
    rcases Nat.lt_trichotomy b.toNat c.toNat with h | h | h
    · rw [if_neg (by omega), if_neg (by omega), if_neg (by omega), if_neg (by omega)]
    · rw [if_neg (by omega), if_pos (by omega), if_neg (by omega), if_pos h.symm]
    · rw [if_pos (by omega), if_pos h]
  have hlive : compare [if p = true then (0x00 : UInt8) else 0x01]
      [if q = true then 0x00 else 0x01] = compare q p := by
    cases p <;> cases q <;> rfl
  rw [versionSuffix, versionSuffix,
    (decided_bigEndian 8 (complemented_block_lt b) (complemented_block_lt c)).compare_append,
    hblock, hlive]

/-- Every version lies before the end of its identity. -/
theorem versionSuffix_lt_end (block : UInt64) (present : Bool) :
    compare (versionSuffix block present) (List.replicate suffixLength 0xFF) = .lt := by
  have hend : List.replicate suffixLength 0xFF = bigEndian 8 (UInt64.size - 1) ++ [0xFF] := by
    decide
  have hsize : UInt64.size = 18446744073709551616 := rfl
  have hlast : compare [if present = true then (0x00 : UInt8) else 0x01] [0xFF] = .lt := by
    cases present <;> rfl
  rw [hend, versionSuffix,
    (decided_bigEndian 8 (complemented_block_lt block) (by omega)).compare_append, hlast]
  rcases Nat.eq_or_lt_of_le (Nat.sub_le (UInt64.size - 1) block.toNat) with h | h
  · rw [Nat.compare_eq_eq.mpr h]
    rfl
  · rw [Nat.compare_eq_lt.mpr h]
    rfl

theorem versionSuffix_ne_nil (block : UInt64) (present : Bool) :
    versionSuffix block present ≠ [] := by
  intro h
  simpa [suffixLength, h] using length_versionSuffix block present

/-- Versions of one identity are ordered by their suffixes. -/
theorem compare_ofVersion (identity : Bytes) (b c : UInt64) (p q : Bool) :
    compare (ofVersion identity b p) (ofVersion identity c q) =
      (compare c b).then (compare q p) := by
  rw [ofVersion, ofVersion, compare_append_left, compare_versionSuffix]

/-- Versions of different identities are ordered by the identities. -/
theorem compare_ofVersion_of_ne {i j : Tuple} (hlen : i.length = j.length) (h : i ≠ j)
    (b c : UInt64) (p q : Bool) :
    compare (ofVersion (ofIdentity i) b p) (ofVersion (ofIdentity j) c q) =
      (Comparator.mk []).compare i j := by
  have hne : (Comparator.mk []).compare i j ≠ .eq := fun he => h (Comparator.eq_of_compare he)
  exact ((decided_ofIdentity hlen).append_of_ne hne _ _).compare_eq

theorem ofVersion_inj {i j : Tuple} (hlen : i.length = j.length) {b c : UInt64} {p q : Bool} :
    ofVersion (ofIdentity i) b p = ofVersion (ofIdentity j) c q ↔ i = j ∧ b = c ∧ p = q := by
  constructor
  · intro h
    by_cases hij : i = j
    · subst hij
      have hc := compare_ofVersion (ofIdentity i) b c p q
      rw [h, Std.ReflOrd.compare_self, eq_comm, Ordering.then_eq_eq] at hc
      exact ⟨rfl, (Std.LawfulEqOrd.eq_of_compare hc.1).symm,
        (Std.LawfulEqOrd.eq_of_compare hc.2).symm⟩
    · have hc := compare_ofVersion_of_ne hlen hij b c p q
      rw [h, Std.ReflOrd.compare_self, eq_comm] at hc
      exact absurd (Comparator.eq_of_compare hc) hij
  · rintro ⟨rfl, rfl, rfl⟩
    rfl

/-- What lies between the key of an identity, followed by anything not above
its versions, and the end of the identity belongs to that identity. -/
theorem eq_of_between {i j : Tuple} (hlen : i.length = j.length) (start : Bytes) {b : UInt64}
    {p : Bool} (hlower : compare (ofIdentity i ++ start) (ofVersion (ofIdentity j) b p) ≠ .gt)
    (hupper : compare (ofVersion (ofIdentity j) b p) (identityEnd (ofIdentity i)) = .lt) :
    i = j := by
  by_cases hij : i = j
  · exact hij
  · have hne : (Comparator.mk []).compare i j ≠ .eq := fun he => hij (Comparator.eq_of_compare he)
    have hd := decided_ofIdentity hlen
    have hl := (hd.append_of_ne hne start (versionSuffix b p)).compare_eq
    have hu :=
      (hd.append_of_ne hne (List.replicate suffixLength 0xFF) (versionSuffix b p)).compare_eq
    rw [ofVersion, hl] at hlower
    have hgt := Std.OrientedCmp.gt_of_lt hupper
    rw [identityEnd, ofVersion, hu] at hgt
    exact absurd hgt hlower

theorem ofVersion_lt_end (identity : Bytes) (b : UInt64) (p : Bool) :
    compare (ofVersion identity b p) (identityEnd identity) = .lt := by
  rw [ofVersion, identityEnd, compare_append_left, versionSuffix_lt_end]

theorem lt_ofVersion (identity : Bytes) (b : UInt64) (p : Bool) :
    compare identity (ofVersion identity b p) = .lt := by
  obtain ⟨x, rest, hx⟩ := List.exists_cons_of_ne_nil (versionSuffix_ne_nil b p)
  have h := compare_append_left identity [] (versionSuffix b p)
  rwa [List.append_nil, hx, List.compare_nil_cons, ← hx] at h

/-- The range of all versions of an identity. -/
theorem between_all_iff {i j : Tuple} (hlen : i.length = j.length) {b : UInt64} {p : Bool} :
    (SortedMap.Endpoint.including (ofIdentity i)).admitsAbove (ofVersion (ofIdentity j) b p) = true ∧
        (SortedMap.Endpoint.excluding (identityEnd (ofIdentity i))).admitsBelow
          (ofVersion (ofIdentity j) b p) = true ↔ i = j := by
  simp only [SortedMap.Endpoint.admitsAbove, SortedMap.Endpoint.admitsBelow, beq_iff_eq]
  constructor
  · rintro ⟨hlower, hupper⟩
    refine eq_of_between hlen [] ?_ hupper
    rw [List.append_nil]
    exact Ordering.isLE_iff_ne_gt.mp hlower
  · rintro rfl
    exact ⟨by rw [lt_ofVersion]; rfl, ofVersion_lt_end ..⟩

/-- The range of the versions of an identity up to a block. -/
theorem between_snapshot_iff {i j : Tuple} (hlen : i.length = j.length) {b m : UInt64}
    {p : Bool} :
    (SortedMap.Endpoint.including (snapshotStart (ofIdentity i) m)).admitsAbove
          (ofVersion (ofIdentity j) b p) = true ∧
        (SortedMap.Endpoint.excluding (identityEnd (ofIdentity i))).admitsBelow
          (ofVersion (ofIdentity j) b p) = true ↔ i = j ∧ b ≤ m := by
  simp only [SortedMap.Endpoint.admitsAbove, SortedMap.Endpoint.admitsBelow, beq_iff_eq]
  have hsuffix : (compare (snapshotStart (ofIdentity i) m) (ofVersion (ofIdentity i) b p)).isLE =
      true ↔ b ≤ m := by
    rw [snapshotStart, compare_ofVersion]
    have hlive : (compare p true).isLE = true := by cases p <;> rfl
    rw [← Std.isLE_compare, Ordering.isLE_then_iff_and, hlive]
    cases compare b m <;> simp
  constructor
  · rintro ⟨hlower, hupper⟩
    obtain rfl := eq_of_between hlen _ (Ordering.isLE_iff_ne_gt.mp hlower) hupper
    exact ⟨rfl, hsuffix.mp hlower⟩
  · rintro ⟨rfl, hb⟩
    exact ⟨hsuffix.mpr hb, ofVersion_lt_end ..⟩

/-- A version's key tells its block and whether it is live. -/
theorem version?_ofVersion (identity : Bytes) (b : UInt64) (p : Bool) :
    version? (ofVersion identity b p) = some (b, p) := by
  have hb := b.toNat_lt
  have hsize : UInt64.size = 18446744073709551616 := rfl
  have hlen : (ofVersion identity b p).length - suffixLength = identity.length := by
    simp [ofVersion]
  have hdrop : (ofVersion identity b p).drop identity.length = versionSuffix b p := by
    simp [ofVersion]
  have htake : (versionSuffix b p).take 8 = bigEndian 8 (UInt64.size - 1 - b.toNat) := by
    rw [versionSuffix, List.take_left' (by simp)]
  have hlast : (versionSuffix b p).drop 8 = [if p = true then 0x00 else 0x01] := by
    rw [versionSuffix, List.drop_left' (by simp)]
  have hblock : UInt64.ofNat (UInt64.size - 1 - (UInt64.size - 1 - b.toNat)) = b := by
    rw [← UInt64.toNat_inj, UInt64.toNat_ofNat']
    omega
  rw [version?, if_neg (by simp [ofVersion]), hlen, hdrop]
  dsimp only
  rw [htake, hlast, toNat_bigEndian (complemented_block_lt b), hblock]
  cases p <;> rfl

/-- A version's key holds the key of its identity. -/
theorem identityPart_ofVersion (identity : Bytes) (b : UInt64) (p : Bool) :
    identityPart (ofVersion identity b p) = identity := by
  have hlen : (ofVersion identity b p).length - suffixLength = identity.length := by
    simp [ofVersion]
  rw [identityPart, hlen, ofVersion, List.take_left]

/-- Whether a key lies in a range that holds its start and not its stop. -/
def InRange (start stop key : Bytes) : Prop :=
  (compare start key).isLE = true ∧ compare key stop = .lt

instance (start stop key : Bytes) : Decidable (InRange start stop key) :=
  inferInstanceAs (Decidable (_ ∧ _))

/-- A range is what the ends of a search admit. -/
theorem inRange_iff {start stop key : Bytes} :
    InRange start stop key ↔
      (SortedMap.Endpoint.including start).admitsAbove key = true ∧
        (SortedMap.Endpoint.excluding stop).admitsBelow key = true := by
  simp only [InRange, SortedMap.Endpoint.admitsAbove, SortedMap.Endpoint.admitsBelow, beq_iff_eq]

/-- Of two versions of an identity the one of the later block comes first, and
in one block the live one. -/
theorem ofVersion_lt_iff (identity : Bytes) (b c : UInt64) (p q : Bool) :
    compare (ofVersion identity b p) (ofVersion identity c q) = .lt ↔
      c < b ∨ b = c ∧ p = true ∧ q = false := by
  have hblock : compare c b = .lt ↔ c < b := Std.compare_eq_lt
  have hsame : compare c b = .eq ↔ b = c := Std.compare_eq_iff_eq.trans eq_comm
  have hlive : compare q p = .lt ↔ p = true ∧ q = false := by cases p <;> cases q <;> decide
  rw [compare_ofVersion, Ordering.then_eq_lt, hblock, hsame, hlive]

/-- Version keys of different identities do not mix. For identities of one list
of types, whatever the blocks and flags, the range of an identity holds its own
versions and no other's, the range that starts at a snapshot holds those up to
its block, versions come newest first and live before retracted, and a key tells
its version and the key of its identity. -/
theorem version_keys_apart {types : List ScalarType} {i j : Tuple}
    (hi : i.map Value.type = types) (hj : j.map Value.type = types) (b c m : UInt64)
    (p q : Bool) :
    (InRange (ofIdentity i) (identityEnd (ofIdentity i)) (ofVersion (ofIdentity j) b p) ↔ j = i) ∧
      (InRange (snapshotStart (ofIdentity i) m) (identityEnd (ofIdentity i))
        (ofVersion (ofIdentity j) b p) ↔ j = i ∧ b ≤ m) ∧
      (compare (ofVersion (ofIdentity i) b p) (ofVersion (ofIdentity i) c q) = .lt ↔
        c < b ∨ b = c ∧ p = true ∧ q = false) ∧
      version? (ofVersion (ofIdentity i) b p) = some (b, p) ∧
      identityPart (ofVersion (ofIdentity i) b p) = ofIdentity i := by
  have hlen : i.length = j.length := by
    simpa using congrArg List.length (hi.trans hj.symm)
  rw [inRange_iff, inRange_iff, between_all_iff hlen, between_snapshot_iff hlen, eq_comm (a := i)]
  exact ⟨.rfl, .rfl, ofVersion_lt_iff .., version?_ofVersion .., identityPart_ofVersion ..⟩

/-- The bytes of one identity go on where those of the other end, and the other
identity has a retraction in the first block. It is not found among the
versions of the first identity, whose own retraction in that block is the last
version that a snapshot of the block sees, behind the version of the last block. -/
theorem sample_version_keys_apart :
    let i : Tuple := [.bytes [0], .uint32 0]
    let j : Tuple := [.bytes [0, 0], .uint32 0]
    i.map Value.type = [.bytes, .uint32] ∧ j.map Value.type = [.bytes, .uint32] ∧
      ¬InRange (ofIdentity i) (identityEnd (ofIdentity i)) (ofVersion (ofIdentity j) 0 false) ∧
      InRange (snapshotStart (ofIdentity i) 0) (identityEnd (ofIdentity i))
        (ofVersion (ofIdentity i) 0 false) ∧
      ¬InRange (snapshotStart (ofIdentity i) 0) (identityEnd (ofIdentity i))
        (ofVersion (ofIdentity i) 18446744073709551615 true) ∧
      compare (ofVersion (ofIdentity i) 18446744073709551615 true)
        (ofVersion (ofIdentity i) 0 false) = .lt ∧
      version? (ofVersion (ofIdentity i) 18446744073709551615 true) =
        some (18446744073709551615, true) := by
  intro i j
  have hi : i.map Value.type = [.bytes, .uint32] := rfl
  have hj : j.map Value.type = [.bytes, .uint32] := rfl
  obtain ⟨hother, -⟩ := version_keys_apart hi hj 0 0 0 false false
  obtain ⟨-, hfirst, -⟩ := version_keys_apart hi hi 0 0 0 false false
  obtain ⟨-, hlast, horder, hversion, -⟩ :=
    version_keys_apart hi hi 18446744073709551615 0 0 true false
  refine ⟨hi, hj, fun h => absurd (hother.mp h) (by decide), hfirst.mpr ⟨rfl, by decide⟩,
    fun h => absurd (hlast.mp h).2 (by decide), horder.mpr (.inl (by decide)), hversion⟩

end Key
end Chronicle
