import Chronicle.Proofs.TypedTuples
import Chronicle.Proofs.VersionKeys
import Chronicle.Query.Row

/-!
# Histories

The history of a table is the list of the facts that it accepted, the newest
first. It tells the versions of each identity and what a further fact would do.
A fact tree that records a history holds one binding for each of its facts, and
what a store reads from the tree is what the history says.
-/

namespace Chronicle

/-- The version that a fact states. A tombstone has no payload. -/
def Fact.version (f : Fact) : Version :=
  ⟨f.block, f.present, if f.present then f.payload else []⟩

/-- A store keeps the payload of the version. -/
theorem FactStore.storedPayload_eq (f : Fact) : storedPayload f = f.version.payload := rfl

/-- The binding under which a fact is stored. -/
def Fact.entry (f : Fact) : Bytes × StoredFact :=
  (Key.ofVersion (Key.ofIdentity f.identity) f.block f.present, ⟨f.identity, f.version.payload⟩)

/-- Whether a fact has the shape that a table asks for. -/
def Fact.Fits (f : Fact) (t : Table) : Prop :=
  t.IsIdentity f.identity ∧ (f.present = true → t.IsPayload f.payload)

instance (f : Fact) (t : Table) : Decidable (f.Fits t) := inferInstanceAs (Decidable (_ ∧ _))

/-- What a history says about a fact that is to be appended. -/
inductive Verdict where
  /-- The fact has the wrong shape for its table. -/
  | malformed
  /-- A newer version exists, or another one of the same block. -/
  | conflicting
  /-- The fact states the latest version again. -/
  | unchanged
  /-- The fact is new. -/
  | appended
  deriving DecidableEq, Repr

/-- The verdict that an append reports. Other failures report none. -/
def Verdict.ofOutcome? : Except Error AppendOutcome → Option Verdict
  | .ok .appended => some .appended
  | .ok .unchanged => some .unchanged
  | .error (.violation _) => some .malformed
  | .error (.conflict _) => some .conflicting
  | .error _ => none

/-- The accepted facts of a table, the newest first. -/
abbrev History := List Fact

namespace History

/-- The versions of an identity, the newest first. -/
def versions (h : History) (identity : Tuple) : List Version :=
  (h.filter (·.identity = identity)).map Fact.version

/-- The newest version of an identity that is not newer than a block. -/
def versionAt (h : History) (identity : Tuple) (block : UInt64) : Option Version :=
  (h.versions identity).find? (·.block ≤ block)

/-- What a further fact would do. -/
def judge (t : Table) (h : History) (f : Fact) : Verdict :=
  if ¬f.Fits t then .malformed
  else match (h.versions f.identity).head? with
    | none => .appended
    | some latest =>
      if f.block < latest.block ∨ f.block = latest.block ∧ f.version ≠ latest then .conflicting
      else if f.version = latest then .unchanged
      else .appended

/-- The history after a fact was offered. -/
def append (t : Table) (h : History) (f : Fact) : History :=
  if h.judge t f = .appended then f :: h else h

/-- A tree that holds the facts of a history. -/
structure RecordedIn (h : History) (t : Table) (tree : FactTree) : Prop where
  /-- Every fact has the shape of the table. -/
  fits : ∀ f ∈ h, f.Fits t
  /-- The facts of an identity have falling blocks. -/
  newestFirst : h.Pairwise fun newer older => newer.identity = older.identity →
    older.block < newer.block
  /-- The tree holds the facts and nothing else. -/
  mem_entries : ∀ e, e ∈ tree.entries ↔ ∃ f ∈ h, f.entry = e
  /-- Each fact has a binding of its own. -/
  size_eq : tree.size = h.length

/-- A tree that holds the facts of a history, whatever their shapes are. -/
structure HeldIn (h : History) (tree : FactTree) : Prop where
  /-- The facts of an identity have falling blocks. -/
  newestFirst : h.Pairwise fun newer older => newer.identity = older.identity →
    older.block < newer.block
  /-- The tree holds the facts and nothing else. -/
  mem_entries : ∀ e, e ∈ tree.entries ↔ ∃ f ∈ h, f.entry = e

theorem RecordedIn.held {h : History} {t : Table} {tree : FactTree} (hr : h.RecordedIn t tree) :
    h.HeldIn tree := ⟨hr.newestFirst, hr.mem_entries⟩

theorem recordedIn_nil (t : Table) : RecordedIn [] t .empty :=
  ⟨by simp, .nil, fun e => by simp [SortedMap.empty], rfl⟩

/-- The versions of an identity have falling blocks. -/
theorem pairwise_versions {h : History} (hh : h.Pairwise fun newer older =>
    newer.identity = older.identity → older.block < newer.block) (identity : Tuple) :
    (h.versions identity).Pairwise fun newer older => older.block < newer.block := by
  refine List.pairwise_map.mpr ((hh.filter _).imp_of_mem fun {a b} ha hb hab => ?_)
  have hia : a.identity = identity := by simpa using (List.mem_filter.mp ha).2
  have hib : b.identity = identity := by simpa using (List.mem_filter.mp hb).2
  exact hab (hia.trans hib.symm)

/-- A new fact is newer than all earlier ones of its identity. -/
theorem block_lt_of_judge {h : History} {t : Table} {f : Fact} (hj : h.judge t f = .appended)
    (hh : h.Pairwise fun newer older => newer.identity = older.identity →
      older.block < newer.block) :
    f.Fits t ∧ ∀ g ∈ h, g.identity = f.identity → g.block < f.block := by
  unfold judge at hj
  split at hj
  · cases hj
  · rename_i hfits
    refine ⟨by simpa using hfits, fun g hg hgf => ?_⟩
    have hmem : g.version ∈ h.versions f.identity :=
      List.mem_map_of_mem (List.mem_filter.mpr ⟨hg, by simpa using hgf⟩)
    have hfalling := pairwise_versions hh f.identity
    cases hv : h.versions f.identity with
    | nil => simp [hv] at hmem
    | cons latest older =>
      rw [hv, List.head?_cons] at hj
      rw [hv] at hmem hfalling
      dsimp only at hj
      have hlatest : g.block ≤ latest.block := by
        rcases List.mem_cons.mp hmem with he | hm
        · rw [← he]
          exact UInt64.le_refl _
        · exact UInt64.le_of_lt ((List.pairwise_cons.mp hfalling).1 _ hm)
      split at hj
      · cases hj
      · rename_i hconflict
        split at hj
        · cases hj
        · rename_i hsame
          rw [not_or] at hconflict
          have hne : f.block ≠ latest.block := fun he =>
            hconflict.2 ⟨he, hsame⟩
          rw [UInt64.lt_iff_toNat_lt] at hconflict ⊢
          rw [UInt64.le_iff_toNat_le] at hlatest
          rw [ne_eq, ← UInt64.toNat_inj] at hne
          omega

theorem length_identity {t : Table} {i j : Tuple} (hi : t.IsIdentity i) (hj : t.IsIdentity j) :
    i.length = j.length := by
  simpa using congrArg List.length (hi.trans hj.symm)

theorem RecordedIn.lengths_eq {h : History} {t : Table} {tree : FactTree}
    (hr : h.RecordedIn t tree) {i : Tuple} (hi : t.IsIdentity i) :
    ∀ f ∈ h, i.length = f.identity.length :=
  fun f hf => length_identity hi (hr.fits f hf).1

/-- A fact that is newer than all earlier ones of its identity has a key of its
own, if the identities have one length. -/
theorem entry_ne_of_block_lt {h : History} {f : Fact}
    (hlen : ∀ g ∈ h, f.identity.length = g.identity.length)
    (hblock : ∀ g ∈ h, g.identity = f.identity → g.block < f.block) :
    ∀ g ∈ h, g.entry.1 ≠ f.entry.1 := fun g hg he => by
  obtain ⟨hidentity, hsame, -⟩ := (Key.ofVersion_inj (hlen g hg).symm).mp he
  exact absurd (hblock g hg hidentity) (hsame ▸ UInt64.lt_irrefl _)

/-- Storing such a fact adds its binding. -/
theorem HeldIn.cons {h : History} {tree : FactTree} (hr : h.HeldIn tree) {f : Fact}
    (hlen : ∀ g ∈ h, f.identity.length = g.identity.length)
    (hblock : ∀ g ∈ h, g.identity = f.identity → g.block < f.block) :
    HeldIn (f :: h) (tree.insert f.entry.1 f.entry.2) := by
  refine ⟨List.pairwise_cons.mpr ⟨fun g hg he => hblock g hg he.symm, hr.newestFirst⟩,
    fun e => ?_⟩
  simp only [SortedMap.mem_entries_insert, List.mem_cons, exists_eq_or_imp, hr.mem_entries]
  constructor
  · rintro (rfl | ⟨-, hg⟩)
    · exact .inl rfl
    · exact .inr hg
  · rintro (rfl | ⟨g, hg, rfl⟩)
    · exact .inl rfl
    · exact .inr ⟨entry_ne_of_block_lt hlen hblock g hg, g, hg, rfl⟩

/-- Recording a new fact adds its binding. -/
theorem RecordedIn.cons {h : History} {t : Table} {tree : FactTree} (hr : h.RecordedIn t tree)
    {f : Fact} (hj : h.judge t f = .appended) :
    RecordedIn (f :: h) t (tree.insert f.entry.1 f.entry.2) := by
  obtain ⟨hfits, hblock⟩ := block_lt_of_judge hj hr.newestFirst
  have hlen := hr.lengths_eq hfits.1
  obtain ⟨hnewest, hentries⟩ := hr.held.cons hlen hblock
  refine ⟨List.forall_mem_cons.mpr ⟨hfits, hr.fits⟩, hnewest, hentries, ?_⟩
  rw [SortedMap.size_insert, hr.size_eq, List.length_cons]
  intro v hv
  obtain ⟨g, hg, he⟩ := (hr.mem_entries _).mp hv
  exact entry_ne_of_block_lt hlen hblock g hg (by rw [he])

/-- A range of the tree that selects the versions of an identity by their
blocks lists them, the newest first. -/
theorem HeldIn.between_eq {h : History} {tree : FactTree} (hr : h.HeldIn tree) (identity : Tuple)
    {lower upper : SortedMap.Endpoint Bytes} (keep : UInt64 → Bool)
    (hrange : ∀ f ∈ h, lower.admitsAbove f.entry.1 = true ∧ upper.admitsBelow f.entry.1 = true ↔
      identity = f.identity ∧ keep f.block = true) :
    tree.between lower upper =
      (h.filter fun f => f.identity = identity ∧ keep f.block = true).map Fact.entry := by
  refine SortedMap.eq_of_ascending_of_mem_iff (SortedMap.pairwise_between ..) ?_ fun e => ?_
  · refine List.pairwise_map.mpr ((hr.newestFirst.filter _).imp_of_mem fun {a b} ha hb hab => ?_)
    have hia : a.identity = identity := by
      have := (List.mem_filter.mp ha).2
      simp only [decide_eq_true_eq] at this
      exact this.1
    have hib : b.identity = identity := by
      have := (List.mem_filter.mp hb).2
      simp only [decide_eq_true_eq] at this
      exact this.1
    rw [Fact.entry, Fact.entry, hia, hib, Key.compare_ofVersion,
      Std.compare_eq_lt.mpr (hab (hia.trans hib.symm))]
    rfl
  · rw [SortedMap.mem_between, hr.mem_entries, List.mem_map]
    constructor
    · rintro ⟨⟨f, hf, rfl⟩, hbounds⟩
      obtain ⟨rfl, hkeep⟩ := (hrange f hf).mp hbounds
      exact ⟨f, List.mem_filter.mpr ⟨hf, by simpa using hkeep⟩, rfl⟩
    · rintro ⟨f, hf, rfl⟩
      obtain ⟨hf, hkeep⟩ := List.mem_filter.mp hf
      simp only [decide_eq_true_eq] at hkeep
      exact ⟨⟨f, hf, rfl⟩, (hrange f hf).mpr ⟨hkeep.1.symm, hkeep.2⟩⟩

theorem readVersion_entry (f : Fact) : FactStore.readVersion f.entry = .ok f.version := by
  rw [FactStore.readVersion, Fact.entry, Key.version?_ofVersion]
  rfl

theorem newest_map_entry (facts : List Fact) :
    FactStore.newest (facts.map Fact.entry) = .ok (facts.map Fact.version).head? := by
  cases facts with
  | nil => rfl
  | cons f facts =>
    rw [List.map_cons, FactStore.newest, readVersion_entry]
    rfl

section Store

variable {s : FactStore} {d : Directory} {h : History} {identity : Tuple}

/-- The tree lists all versions of an identity. -/
theorem HeldIn.versionEntries_all (hr : h.HeldIn (s.facts d))
    (hlen : ∀ f ∈ h, identity.length = f.identity.length) :
    s.versionEntries d (Key.ofIdentity identity) (Key.ofIdentity identity) =
      (h.filter (·.identity = identity)).map Fact.entry := by
  rw [FactStore.versionEntries, hr.between_eq identity (fun _ => true)]
  · simp
  · intro f hf
    rw [Fact.entry, Key.between_all_iff (hlen f hf)]
    simp

/-- The tree lists the versions of an identity up to a block. -/
theorem HeldIn.versionEntries_snapshot (hr : h.HeldIn (s.facts d))
    (hlen : ∀ f ∈ h, identity.length = f.identity.length) (block : UInt64) :
    s.versionEntries d (Key.snapshotStart (Key.ofIdentity identity) block)
        (Key.ofIdentity identity) =
      (h.filter fun f => f.identity = identity ∧ f.block ≤ block).map Fact.entry := by
  rw [FactStore.versionEntries, hr.between_eq identity (· ≤ block)]
  · simp
  · intro f hf
    rw [Fact.entry, Key.between_snapshot_iff (hlen f hf)]
    simp

/-- A store reads the versions that the history tells. -/
theorem RecordedIn.versionsOf_eq (hr : h.RecordedIn s.table (s.facts d))
    (hi : s.table.IsIdentity identity) : s.versionsOf d identity = .ok (h.versions identity) := by
  rw [FactStore.versionsOf, Table.checkIdentity_eq_ok.mpr hi]
  dsimp only [bind, Except.bind]
  rw [hr.held.versionEntries_all (hr.lengths_eq hi), List.mapM_map]
  exact mapM_ok fun f _ => readVersion_entry f

/-- A store seeks the version that the history tells. -/
theorem HeldIn.versionAt_eq (hr : h.HeldIn (s.facts d)) (hi : s.table.IsIdentity identity)
    (hlen : ∀ f ∈ h, identity.length = f.identity.length) (block : UInt64) :
    s.versionAt d identity block = .ok (h.versionAt identity block) := by
  rw [FactStore.versionAt, Table.checkIdentity_eq_ok.mpr hi]
  dsimp only [bind, Except.bind]
  rw [hr.versionEntries_snapshot hlen, newest_map_entry, versionAt, versions, List.find?_map,
    List.head?_map, List.find?_filter, List.head?_filter]
  refine congrArg Except.ok (congrArg _ (congrArg (List.find? · h) (funext fun f => ?_)))
  rw [Bool.eq_iff_iff]
  simp only [decide_eq_true_iff]
  exact and_congr_right fun _ => decide_eq_true_iff.symm

theorem RecordedIn.versionAt_eq (hr : h.RecordedIn s.table (s.facts d))
    (hi : s.table.IsIdentity identity) (block : UInt64) :
    s.versionAt d identity block = .ok (h.versionAt identity block) :=
  hr.held.versionAt_eq hi (hr.lengths_eq hi) block

/-- Only identities of the table have versions. -/
theorem versionAt_of_not_identity (hi : ¬s.table.IsIdentity identity) :
    ∃ e, ∀ block, s.versionAt d identity block = .error e := by
  obtain ⟨cause, hcause⟩ := Table.checkValues_eq_error (t := s.table) .identity hi
  refine ⟨.violation cause, fun block => ?_⟩
  rw [FactStore.versionAt, Table.checkIdentity, hcause]
  rfl

theorem isIdentity_of_versionAt {found : Option Version}
    (h : s.versionAt d identity block = .ok found) : s.table.IsIdentity identity := by
  by_cases hi : s.table.IsIdentity identity
  · exact hi
  · obtain ⟨e, he⟩ := versionAt_of_not_identity (d := d) hi
    rw [he] at h
    cases h

/-- A store refuses a fact of the wrong shape first of all. -/
theorem judge_of_not_fits {f : Fact} (hf : ¬f.Fits s.table) :
    ∃ cause, s.judge d f = .error (.violation cause) := by
  unfold FactStore.judge
  by_cases hi : s.table.IsIdentity f.identity
  · rw [Table.checkIdentity_eq_ok.mpr hi]
    by_cases hp : f.present = true
    · obtain ⟨cause, hcause⟩ := Table.checkValues_eq_error (t := s.table) .payload
        fun hpayload => hf ⟨hi, fun _ => hpayload⟩
      refine ⟨cause, ?_⟩
      rw [if_pos hp, Table.checkPayload, hcause]
      rfl
    · exact absurd ⟨hi, fun h => absurd h hp⟩ hf
  · obtain ⟨cause, hcause⟩ := Table.checkValues_eq_error (t := s.table) .identity hi
    refine ⟨cause, ?_⟩
    rw [Table.checkIdentity, hcause]
    rfl

/-- A fact that is not refused has the right shape. -/
theorem fits_of_judge {f : Fact} {outcome : AppendOutcome} (h : s.judge d f = .ok outcome) :
    f.Fits s.table := by
  by_cases hf : f.Fits s.table
  · exact hf
  · obtain ⟨cause, hcause⟩ := judge_of_not_fits (d := d) hf
    rw [h] at hcause
    cases hcause

/-- A fact of the right shape is decided by the latest version that is stored. -/
theorem judge_eq_of_fits {f : Fact} (hf : f.Fits s.table) :
    s.judge d f = (FactStore.newest (s.versionEntries d (Key.ofIdentity f.identity)
      (Key.ofIdentity f.identity))).bind (s.judgeLatest f) := by
  unfold FactStore.judge
  dsimp only
  rw [Table.checkIdentity_eq_ok.mpr hf.1]
  by_cases hp : f.present = true
  · rw [if_pos hp, Table.checkPayload_eq_ok.mpr (hf.2 hp)]
    rfl
  · rw [if_neg hp]
    rfl

/-- A fact of the right shape is decided by the latest version of the history. -/
theorem HeldIn.judge_of_fits (hr : h.HeldIn (s.facts d)) {f : Fact} (hf : f.Fits s.table)
    (hlen : ∀ g ∈ h, f.identity.length = g.identity.length) :
    s.judge d f = s.judgeLatest f (h.versions f.identity).head? := by
  have hlatest : FactStore.newest (s.versionEntries d (Key.ofIdentity f.identity)
      (Key.ofIdentity f.identity)) = .ok (h.versions f.identity).head? := by
    rw [hr.versionEntries_all hlen, newest_map_entry, versions]
  rw [judge_eq_of_fits hf, hlatest]
  rfl

/-- A store decides about a fact as the history does. -/
theorem HeldIn.judge_eq (hr : h.HeldIn (s.facts d)) {f : Fact}
    (hlen : f.Fits s.table → ∀ g ∈ h, f.identity.length = g.identity.length) :
    Verdict.ofOutcome? (s.judge d f) = some (h.judge s.table f) := by
  unfold judge
  split
  · rename_i hf
    obtain ⟨cause, hcause⟩ := judge_of_not_fits (d := d) hf
    rw [hcause]
    rfl
  · rename_i hf
    have hf : f.Fits s.table := by simpa using hf
    rw [hr.judge_of_fits hf (hlen hf)]
    cases (h.versions f.identity).head? with
    | none => rfl
    | some latest =>
      rw [FactStore.judgeLatest]
      dsimp only
      by_cases hlt : f.block < latest.block
      · rw [if_pos hlt, if_pos (.inl hlt)]
        rfl
      · rw [if_neg hlt]
        by_cases hgt : latest.block < f.block
        · have hne : f.block ≠ latest.block := fun he => UInt64.lt_irrefl _ (he ▸ hgt)
          have hversion : f.version ≠ latest := fun he => hne (congrArg Version.block he)
          rw [if_pos hgt, if_neg (by simp [hlt, hne]), if_neg hversion]
          rfl
        · have hblock : f.block = latest.block := by
            rw [← UInt64.toNat_inj]
            rw [UInt64.lt_iff_toNat_lt] at hlt hgt
            omega
          have hsame : (latest.present = f.present ∧ latest.payload = FactStore.storedPayload f) ↔
              f.version = latest := by
            obtain ⟨block, present, payload⟩ := latest
            rw [FactStore.storedPayload_eq]
            simp only [Fact.version, Version.mk.injEq]
            exact ⟨fun ⟨hp, hv⟩ => ⟨hblock, hp.symm, hv.symm⟩,
              fun ⟨_, hp, hv⟩ => ⟨hp.symm, hv.symm⟩⟩
          rw [if_neg hgt]
          by_cases hversion : f.version = latest
          · rw [if_pos (hsame.mpr hversion), if_neg (by simp [hlt, hversion]), if_pos hversion]
            rfl
          · rw [if_neg (mt hsame.mp hversion), if_pos (.inr ⟨hblock, hversion⟩)]
            rfl

theorem RecordedIn.judge_eq (hr : h.RecordedIn s.table (s.facts d)) (f : Fact) :
    Verdict.ofOutcome? (s.judge d f) = some (h.judge s.table f) :=
  hr.held.judge_eq fun hf => hr.lengths_eq hf.1

end Store

end History
end Chronicle
