import Chronicle.Proofs.Stores
import Chronicle.Sample

/-!
# Runs of a store

A run is a list of calls on one store: indexes are registered and rebuilt and
facts are appended, in any order and with any results. The history of a run is
what its appends add up to, with the fact tree left out of the account. After
every run the store answers as the history does, and if each index name has one
definition then every registered index is complete.
-/

namespace Chronicle

open FactStore

/-- A call on a store. -/
inductive StoreCall where
  /-- Register an index. -/
  | register (index : Index)
  /-- Build an index anew. -/
  | rebuild (index : String)
  /-- Append a fact. -/
  | append (fact : Fact)

/-- A directory with a store that is used on it. -/
structure StoreSession where
  /-- What is stored. -/
  directory : Directory
  /-- The store. -/
  store : FactStore

/-- The history of a table after a call. -/
def StoreCall.extend (t : Table) (h : History) : StoreCall → History
  | .append f => h.append t f
  | _ => h

/-- The history of a table after some calls on an empty store. -/
def History.ofCalls (t : Table) (calls : List StoreCall) : History :=
  calls.foldl (StoreCall.extend t) []

namespace StoreSession

/-- What a call leaves. A registration that fails registers nothing. -/
def call (x : StoreSession) : StoreCall → StoreSession
  | .register i =>
    match x.store.registerIndex x.directory i with
    | (d, .ok (s, _)) => ⟨d, s⟩
    | (d, .error _) => ⟨d, x.store⟩
  | .rebuild index => ⟨(x.store.rebuildIndex x.directory index).1, x.store⟩
  | .append f => ⟨(x.store.append x.directory f).1, x.store⟩

/-- What some calls leave. -/
def run (x : StoreSession) (calls : List StoreCall) : StoreSession := calls.foldl call x

/-- The results of the appends among some calls. -/
def appendResults (x : StoreSession) : List StoreCall → List (Except Error AppendOutcome)
  | [] => []
  | c :: rest =>
    match c with
    | .append f => (x.store.append x.directory f).2 :: (x.call c).appendResults rest
    | _ => (x.call c).appendResults rest

/-- A session that is in order and records a history. -/
structure Records (x : StoreSession) (t : Table) (h : History) : Prop where
  /-- The store belongs to the table. -/
  table_eq : x.store.table = t
  /-- The store is in order. -/
  sound : x.store.Sound
  /-- The fact tree holds the history. -/
  recorded : h.RecordedIn t (x.store.facts x.directory)

variable {x : StoreSession} {t : Table} {h : History}

/-- A new store on a directory without facts of its table records nothing. -/
theorem records_ofTable {s : FactStore} (hs : FactStore.ofTable t = .ok s) {d : Directory}
    (hd : d.factTree t.name = .empty) : (StoreSession.mk d s).Records t [] := by
  have hsound := sound_of_ofTable hs
  obtain ⟨-, rfl⟩ := ofTable_eq_ok.mp hs
  refine ⟨rfl, hsound, ?_⟩
  rw [FactStore.facts, hd]
  exact History.recordedIn_nil t

/-- Every call keeps a session in order and extends its history. -/
theorem Records.call (hx : x.Records t h) (c : StoreCall) :
    (x.call c).Records t (c.extend t h) := by
  obtain ⟨rfl, hsound, hrecorded⟩ := hx
  cases c with
  | register i =>
    cases hi : i.compile x.store.table with
    | error e =>
      rw [StoreSession.call, registerIndex_of_error hi]
      exact ⟨rfl, hsound, hrecorded⟩
    | ok l =>
      obtain ⟨hname, -, hreads⟩ := Index.reads_of_compile hsound.table hi
      obtain ⟨d', heq, hframe, -⟩ := registerIndex_of_ok hsound hrecorded hi
      rw [StoreSession.call, heq]
      refine ⟨rfl, hname ▸ hsound.insert hreads, ?_⟩
      rw [FactStore.facts, hframe.factTree_eq]
      exact hrecorded
  | rebuild index =>
    cases hl : x.store.layouts.get? index with
    | none =>
      rw [StoreSession.call, rebuildIndex_of_none hl]
      exact ⟨rfl, hsound, hrecorded⟩
    | some l =>
      obtain ⟨d', count, heq, hframe, -⟩ := rebuildIndex_of_ok hsound hrecorded hl
      rw [StoreSession.call, heq]
      refine ⟨rfl, hsound, ?_⟩
      rw [FactStore.facts, hframe.factTree_eq]
      exact hrecorded
  | append f => exact ⟨rfl, hsound, recordedIn_append hsound hrecorded f⟩

/-- Every run keeps a session in order and extends its history. -/
theorem Records.run (hx : x.Records t h) (calls : List StoreCall) :
    (x.run calls).Records t (calls.foldl (StoreCall.extend t) h) := by
  induction calls generalizing x h with
  | nil => exact hx
  | cons c calls ih => exact ih (hx.call c)

/-- The history grows by one with each accepted append. -/
theorem Records.length_history (hx : x.Records t h) (calls : List StoreCall) :
    (calls.foldl (StoreCall.extend t) h).length =
      h.length + ((x.appendResults calls).map Verdict.ofOutcome?).count (some .appended) := by
  induction calls generalizing x h with
  | nil => rfl
  | cons c calls ih =>
    have hrest := ih (hx.call c)
    rw [List.foldl_cons, hrest]
    cases c with
    | register i => rfl
    | rebuild index => rfl
    | append f =>
      have hverdict := ofOutcome?_append hx.sound (hx.table_eq.symm ▸ hx.recorded) f
      rw [hx.table_eq] at hverdict
      rw [appendResults, List.map_cons, List.count_cons, hverdict, StoreCall.extend]
      by_cases hj : h.judge t f = .appended
      · rw [History.append_of_appended hj, hj, List.length_cons]
        simp only [BEq.rfl, if_true]
        omega
      · rw [History.append_of_ne hj, if_neg (by simpa using hj), Nat.add_zero]

/-- A store refines the history of its table. Every append has the verdict of
the history, and changes nothing unless it is accepted. The versions of each
identity are those of its accepted facts in falling order of their blocks, and
the number of stored versions is that of the accepted appends. -/
theorem run_refines_history {s : FactStore} (hs : FactStore.ofTable t = .ok s) {d : Directory}
    (hd : d.factTree t.name = .empty) (calls : List StoreCall) :
    let start : StoreSession := ⟨d, s⟩
    let after := start.run calls
    let h := History.ofCalls t calls
    (∀ f, Verdict.ofOutcome? (after.store.append after.directory f).2 = some (h.judge t f) ∧
        ((after.store.append after.directory f).2 ≠ .ok .appended →
          (after.store.append after.directory f).1 = after.directory)) ∧
      (∀ i, t.IsIdentity i →
        after.store.versionsOf after.directory i = .ok (h.versions i) ∧
          (h.versions i).Pairwise (fun newer older => older.block < newer.block) ∧
          ∀ m, after.store.versionAt after.directory i m =
            .ok ((h.versions i).find? (·.block ≤ m))) ∧
      after.store.factCount after.directory =
        ((start.appendResults calls).map Verdict.ofOutcome?).count (some .appended) := by
  intro start after h
  have hstart : start.Records t [] := records_ofTable hs hd
  obtain ⟨htable, hsound, hrecorded⟩ : after.Records t h := hstart.run calls
  have hcount : h.length = _ := hstart.length_history calls
  rw [← htable] at hrecorded ⊢
  refine ⟨fun f => ⟨ofOutcome?_append hsound hrecorded f, fun hne => ?_⟩, fun i hi => ?_, ?_⟩
  · refine (append_of_ne hrecorded fun hj => hne ?_).1
    rw [append_of_appended hsound hrecorded hj]
  · exact ⟨hrecorded.versionsOf_eq hi, History.pairwise_versions hrecorded.newestFirst i,
      hrecorded.versionAt_eq hi⟩
  · rw [factCount, hrecorded.size_eq, hcount, List.length_nil, Nat.zero_add]

/-- The sample table has a store. -/
theorem ofTable_contractRow :
    FactStore.ofTable Sample.contractRow = .ok ⟨Sample.contractRow, .empty⟩ :=
  ofTable_eq_ok.mpr ⟨Table.validate_eq_ok.mp rfl, rfl⟩

/-- A version, its repetition, an older one, a malformed one, a tombstone that is
given a payload and a further version leave three versions of the sample table.
The last of them is then unchanged by itself, and conflicts with another payload
of its block. -/
theorem sample_run_refines_history :
    let identity : Tuple := Sample.rowIdentity 1
    let payload : Tuple := [.string "payer", .bytes [7]]
    let start : StoreSession := ⟨.empty, ⟨Sample.contractRow, .empty⟩⟩
    let after := start.run [.append (.live identity 5 payload), .register Sample.byScope,
      .append (.live identity 5 payload), .append (.tombstone identity 4),
      .append (.live identity 6 []), .append ⟨identity, 6, false, payload⟩,
      .append (.live identity 7 payload), .rebuild "contract_row_by_scope"]
    after.store.versionsOf after.directory identity =
        .ok [⟨7, true, payload⟩, ⟨6, false, []⟩, ⟨5, true, payload⟩] ∧
      after.store.versionAt after.directory identity 6 = .ok (some ⟨6, false, []⟩) ∧
      after.store.factCount after.directory = 3 ∧
      Verdict.ofOutcome? (after.store.append after.directory (.live identity 7 payload)).2 =
        some .unchanged ∧
      Verdict.ofOutcome? (after.store.append after.directory
        (.live identity 7 [.string "payee", .bytes [7]])).2 = some .conflicting := by
  intro identity payload start after
  have h := run_refines_history ofTable_contractRow (d := .empty) rfl
    [.append (.live identity 5 payload), .register Sample.byScope,
      .append (.live identity 5 payload), .append (.tombstone identity 4),
      .append (.live identity 6 []), .append ⟨identity, 6, false, payload⟩,
      .append (.live identity 7 payload), .rebuild "contract_row_by_scope"]
  obtain ⟨happend, hversions, hcount⟩ := h
  obtain ⟨hall, -, hat⟩ := hversions identity (by decide)
  refine ⟨hall.trans (congrArg Except.ok ?_), (hat 6).trans (congrArg Except.ok ?_),
    hcount.trans ?_, (happend _).1.trans (congrArg some ?_), (happend _).1.trans (congrArg some ?_)⟩
  all_goals decide +kernel

/-- Whether some calls give a table an index. A definition that does not compile
gives it none. -/
def Defines (t : Table) (calls : List StoreCall) (i : Index) : Prop :=
  .register i ∈ calls ∧ ∃ l, i.compile t = .ok l

/-- A session of which every index name has one definition. Its registered
indexes are complete, and the trees of other index names are empty. -/
structure Complete (x : StoreSession) (known : Index → Prop) (t : Table) (h : History) :
    Prop where
  /-- The store belongs to the table. -/
  table_eq : x.store.table = t
  /-- The store keeps the history. -/
  keeps : x.store.Keeps known x.directory h
  /-- An index that is not registered has no entries. -/
  unregistered : ∀ name, x.store.layouts.get? name = none →
    (x.directory.indexTree (x.store.table.name ++ ":" ++ name)).isEmpty = true

/-- A new store on a new directory is complete. -/
theorem complete_ofTable {s : FactStore} (hs : FactStore.ofTable t = .ok s)
    (known : Index → Prop) : (StoreSession.mk .empty s).Complete known t [] := by
  refine ⟨?_, .ofTable hs rfl, fun _ _ => rfl⟩
  rw [(ofTable_eq_ok.mp hs).2]

/-- The tree of a registered layout is that of its name. -/
theorem treeName_eq {s : FactStore} (hs : s.Sound) {name : String} {l : Layout}
    (hl : s.layouts.get? name = some l) : l.treeName = s.table.name ++ ":" ++ name := by
  rw [Layout.treeName, (hs.reads hl).table_eq, hs.name_eq hl]

/-- Every call keeps a session complete. -/
theorem Complete.call {known : Index → Prop}
    (hunique : ∀ i j, known i → known j → i.name = j.name → i = j) (hx : x.Complete known t h)
    {c : StoreCall} (hc : ∀ i l, c = .register i → i.compile t = .ok l → known i) :
    (x.call c).Complete known t (c.extend t h) := by
  obtain ⟨rfl, hkeeps, hunregistered⟩ := hx
  cases c with
  | register i =>
    cases hl : i.compile x.store.table with
    | error e =>
      rw [StoreSession.call, registerIndex_of_error hl]
      exact ⟨rfl, hkeeps, hunregistered⟩
    | ok l =>
      obtain ⟨hname, -, hreads⟩ := Index.reads_of_compile hkeeps.sound.table hl
      have htree : l.treeName = x.store.table.name ++ ":" ++ i.name := by
        rw [Layout.treeName, hreads.table_eq, hname]
      obtain ⟨d', heq, hframe, hkeeps'⟩ := hkeeps.register hunique (hc i l rfl hl) hl
        fun hnew => htree ▸ hunregistered _ hnew
      rw [StoreSession.call, heq]
      refine ⟨rfl, hkeeps', fun name hnone => ?_⟩
      obtain ⟨hne, hnone⟩ := SortedMap.get?_insert_eq_none.mp hnone
      rw [hframe.indexTree_eq _ fun he => hne (String.append_right_inj _ |>.mp (he.trans htree))]
      exact hunregistered name hnone
  | rebuild index =>
    refine ⟨rfl, hkeeps.rebuild index, fun name (hnone : x.store.layouts.get? name = none) => ?_⟩
    cases hl : x.store.layouts.get? index with
    | none =>
      rw [StoreSession.call, rebuildIndex_of_none hl]
      exact hunregistered name hnone
    | some l =>
      obtain ⟨d', count, heq, hframe, -⟩ := rebuildIndex_of_ok hkeeps.sound hkeeps.recorded hl
      rw [StoreSession.call, heq]
      rw [hframe.indexTree_eq _ fun he => ?_]
      · exact hunregistered name hnone
      · rw [treeName_eq hkeeps.sound hl, String.append_right_inj] at he
        rw [he, hl] at hnone
        cases hnone
  | append f =>
    refine ⟨rfl, hkeeps.append f, fun name (hnone : x.store.layouts.get? name = none) => ?_⟩
    rw [StoreSession.call, (append_frame x.store x.directory f).2.1 _ fun l hl he => ?_]
    · exact hunregistered name hnone
    · obtain ⟨name', hl⟩ := mem_values_iff.mp hl
      rw [treeName_eq hkeeps.sound hl, String.append_right_inj] at he
      rw [he, hl] at hnone
      cases hnone

/-- Every run keeps a session complete. -/
theorem Complete.run {known : Index → Prop}
    (hunique : ∀ i j, known i → known j → i.name = j.name → i = j) (hx : x.Complete known t h)
    {calls : List StoreCall} (hcalls : ∀ i, Defines t calls i → known i) :
    (x.run calls).Complete known t (calls.foldl (StoreCall.extend t) h) := by
  induction calls generalizing x h with
  | nil => exact hx
  | cons c calls ih =>
    have hfirst : ∀ i l, c = .register i → i.compile t = .ok l → known i := fun i l hi hl =>
      hcalls i ⟨hi ▸ List.mem_cons_self .., l, hl⟩
    exact ih (hx.call hunique hfirst) fun i hi => hcalls i (hi.imp_left (List.mem_cons_of_mem _))

end StoreSession
end Chronicle
