import Mathlib.Data.List.Count
import Mathlib.Data.List.Nodup
import Mathlib.Data.List.ReduceOption
import Mathlib.Data.Option.Basic
import Chronicle.Proofs.VersionKeys
import Chronicle.Query.Scanner

/-!
# Scans

A scanner that seeks its index anew at every call hands out what one search of
the range would find. Appends may come between the calls, since they only add
keys to an index. A key that is ahead of the scanner at some moment is then
handed out once before the scan ends, whatever is added after that moment, and
the keys that are handed out ascend.
-/

namespace Chronicle

open FactStore

namespace FactStore

variable {name : String} {e : Bytes × Tuple}

/-- Placing an identity leaves what an index holds. -/
theorem mem_indexIdentity {identity : Tuple} {d d' : Directory} {l : Layout}
    (h : indexIdentity identity d l = .ok d') (he : e ∈ (d.indexTree name).entries) :
    e ∈ (d'.indexTree name).entries := by
  rw [indexIdentity] at h
  cases hposition : l.positionOfIdentity identity with
  | error cause => simp [hposition, bind, Except.bind] at h
  | ok position =>
    simp only [hposition, bind, Except.bind, pure, Except.pure, Except.ok.injEq] at h
    subst h
    split
    · exact he
    · rename_i hfree
      by_cases hname : name = l.treeName
      · subst hname
        have hother : e.1 ≠ position := fun heq =>
          hfree (SortedMap.contains_iff.mpr ⟨e.2, heq ▸ he⟩)
        rw [Directory.indexTree_setIndexTree_self]
        exact SortedMap.mem_entries_insert.mpr (.inr ⟨hother, he⟩)
      · rwa [Directory.indexTree_setIndexTree_of_ne d hname]

theorem mem_indexAll (name : String) (identity : Tuple) (d : Directory) (layouts : List Layout)
    (he : e ∈ (d.indexTree name).entries) :
    e ∈ ((indexAll identity d layouts).1.indexTree name).entries := by
  induction layouts generalizing d with
  | nil => exact he
  | cons l layouts ih =>
    rw [indexAll]
    cases hl : indexIdentity identity d l with
    | error cause => exact he
    | ok d' => exact ih d' (mem_indexIdentity hl he)

/-- An append leaves what an index holds, whether it succeeds or not. -/
theorem mem_indexTree_append (s : FactStore) (d : Directory) (f : Fact)
    (he : e ∈ (d.indexTree name).entries) : e ∈ ((s.append d f).1.indexTree name).entries := by
  rw [append]
  cases s.judge d f with
  | error cause => exact he
  | ok outcome =>
    cases outcome with
    | unchanged => exact he
    | appended =>
      have hplaced := mem_indexAll name f.identity d s.layouts.values he
      dsimp only
      cases hall : indexAll f.identity d s.layouts.values with
      | mk d' r =>
        rw [hall] at hplaced
        cases r <;> exact hplaced

end FactStore

namespace Scanner

variable {s s' : Scanner} {tree : IndexTree} {key : IndexedKey}

/-- What is ahead lies in the index, beyond the cursor and not beyond the end. -/
theorem mem_ahead : key ∈ s.ahead tree ↔
    s.state = .scanning ∧ (key.position, key.identity) ∈ tree.entries ∧
      s.lower.admitsAbove key.position = true ∧ (compare key.position s.last).isLE = true := by
  rw [ahead]
  cases s.state with
  | exhausted => simp
  | scanning =>
    simp only [scan, List.mem_map, SortedMap.mem_between, true_and]
    constructor
    · rintro ⟨e, hbounds, rfl⟩
      exact hbounds
    · intro hbounds
      exact ⟨_, hbounds, rfl⟩

/-- A scan of an inverted range has nothing ahead, and neither has a search. -/
theorem scan_of_gt {first last : Bytes} (h : compare first last = .gt) (tree : IndexTree) :
    scan tree (.including first) (.including last) = [] := by
  rw [scan, List.map_eq_nil_iff, List.eq_nil_iff_forall_not_mem]
  intro e he
  obtain ⟨-, hfirst, hlast⟩ := SortedMap.mem_between.mp he
  have hle : (compare first last).isLE = true := Std.TransCmp.isLE_trans hfirst hlast
  rw [h] at hle
  cases hle

/-- A new scan has ahead what a search of its range finds. -/
theorem ahead_between (first last : Bytes) (tree : IndexTree) :
    (between first last).ahead tree = scan tree (.including first) (.including last) := by
  by_cases h : compare first last = .gt
  · rw [scan_of_gt h, ahead, between, if_pos h]
  · rw [ahead, between, if_neg h]
    rfl

/-- A step without a result has nothing ahead. -/
theorem ahead_of_next_none (h : s.next tree = (none, s')) : s.ahead tree = [] := by
  rw [next, peek] at h
  cases hkeys : s.ahead tree with
  | nil => rfl
  | cons key keys => simp [hkeys] at h

/-- A step that hands out a key moves the cursor behind it. -/
theorem next_some (h : s.next tree = (some key, s')) :
    s' = { s with cursor := key.position, inclusive := false } := by
  rw [next] at h
  split at h
  · simp only [Prod.mk.injEq, Option.some.injEq] at h
    obtain ⟨rfl, rfl⟩ := h
    rfl
  · cases h

end Scanner

/-- What may happen while an index is scanned. -/
inductive ScanEvent where
  /-- The scanner is asked for the next key. -/
  | next
  /-- A fact is appended to a store. -/
  | append (store : FactStore) (fact : Fact)

/-- A scan of an index while facts are appended. -/
structure OpenScan where
  /-- What is stored. -/
  directory : Directory
  /-- The scanner. -/
  scanner : Scanner
  /-- What the calls of the scanner returned, the first one first. -/
  results : List (Option IndexedKey)

namespace OpenScan

/-- A scan before its first call. -/
def start (d : Directory) (first last : Bytes) : OpenScan := ⟨d, .between first last, []⟩

/-- What an event leaves of a scan of the index of a name. -/
def event (name : String) (x : OpenScan) : ScanEvent → OpenScan
  | .next =>
    let result := x.scanner.next (x.directory.indexTree name)
    { x with scanner := result.2, results := x.results ++ [result.1] }
  | .append s f => { x with directory := (s.append x.directory f).1 }

/-- What some events leave. -/
def run (name : String) (x : OpenScan) (events : List ScanEvent) : OpenScan :=
  events.foldl (event name) x

/-- The index that is scanned. -/
def tree (name : String) (x : OpenScan) : IndexTree := x.directory.indexTree name

/-- The keys that were handed out. -/
def handedOut (x : OpenScan) : List IndexedKey := x.results.reduceOption

/-- Whether a key is still to be handed out: it is in the index, beyond the
cursor and not beyond the end, and the scanner has not returned without a key. -/
structure Due (name : String) (x : OpenScan) (key : IndexedKey) : Prop where
  /-- No call returned without a key. -/
  unended : none ∉ x.results
  /-- The index holds the key. -/
  stored : (key.position, key.identity) ∈ (x.tree name).entries
  /-- The key is beyond the cursor. -/
  beyond : x.scanner.lower.admitsAbove key.position = true
  /-- The key is not beyond the end. -/
  le_last : (compare key.position x.scanner.last).isLE = true

variable {name : String} {x : OpenScan} {first last : Bytes} {key : IndexedKey}

/-- A scan of a range on its way. -/
structure OnCourse (first last : Bytes) (x : OpenScan) : Prop where
  /-- The end of the range stays. -/
  last_eq : x.scanner.last = last
  /-- What is beyond the cursor is not before the range. -/
  first_le : ∀ p, x.scanner.lower.admitsAbove p = true → (compare first p).isLE = true
  /-- What was handed out is before anything beyond the cursor. -/
  behind : ∀ key ∈ x.handedOut, ∀ p, x.scanner.lower.admitsAbove p = true →
    compare key.position p = .lt
  /-- What was handed out ascends. -/
  ascending : x.handedOut.Pairwise fun a b => compare a.position b.position = .lt
  /-- What was handed out lies in the range. -/
  inRange : ∀ key ∈ x.handedOut, (compare first key.position).isLE = true ∧
    (compare key.position last).isLE = true
  /-- A scan that returned without a key is consumed. -/
  ended : none ∈ x.results → x.scanner.state = .exhausted
  /-- A scan is consumed by such a return, or from the start. -/
  exhausted : x.scanner.state = .exhausted → none ∈ x.results ∨ compare first last = .gt
  /-- After a return without a key there are no others. -/
  stays : x.results.Pairwise fun a b => a = none → b = none

theorem onCourse_start (d : Directory) (first last : Bytes) :
    (start d first last).OnCourse first last := by
  refine ⟨rfl, fun _ => id, by simp [handedOut, start], by simp [handedOut, start],
    by simp [handedOut, start], by simp [start], fun h => .inr ?_, .nil⟩
  by_contra hle
  rw [start, Scanner.between, if_neg hle] at h
  cases h

/-- A key that is due is ahead of the scanner. -/
theorem OnCourse.mem_ahead (h : x.OnCourse first last) (hkey : x.Due name key) :
    key ∈ x.scanner.ahead (x.tree name) := by
  refine Scanner.mem_ahead.mpr ⟨?_, hkey.stored, hkey.beyond, hkey.le_last⟩
  cases hstate : x.scanner.state with
  | scanning => rfl
  | exhausted =>
    obtain hend | hinverted := h.exhausted hstate
    · exact absurd hend hkey.unended
    · have hle := Std.TransCmp.isLE_trans (h.first_le _ hkey.beyond) (h.last_eq ▸ hkey.le_last)
      rw [hinverted] at hle
      cases hle

/-- A call that hands out a key keeps a scan on its way. -/
theorem OnCourse.handOut (h : x.OnCourse first last) {s' : Scanner}
    (hnext : x.scanner.next (x.tree name) = (some key, s')) :
    OnCourse first last ⟨x.directory, s', x.results ++ [some key]⟩ := by
  obtain ⟨hstate, -, hbeyond, hlast⟩ := Scanner.mem_ahead.mp
    (Scanner.ahead_next hnext ▸ List.mem_cons_self .. : key ∈ x.scanner.ahead (x.tree name))
  have hs' := Scanner.next_some hnext
  have hlower : ∀ p, s'.lower.admitsAbove p = true → compare key.position p = .lt := fun p hp => by
    simpa [hs', Scanner.lower, SortedMap.Endpoint.admitsAbove] using hp
  have hopen : none ∉ x.results := fun hend => by
    rw [h.ended hend] at hstate
    cases hstate
  have hhanded : handedOut ⟨x.directory, s', x.results ++ [some key]⟩ = x.handedOut ++ [key] := by
    simp [handedOut, List.reduceOption_append]
  have hfirst := h.first_le _ hbeyond
  refine ⟨hs' ▸ h.last_eq, fun p hp => ?_, fun k hk p hp => ?_, ?_, fun k hk => ?_, fun hend => ?_,
    fun hexhausted => ?_, ?_⟩
  · exact Std.TransCmp.isLE_trans hfirst (by simp [hlower p hp])
  · rw [hhanded] at hk
    obtain hk | hk := List.mem_append.mp hk
    · exact Std.TransCmp.lt_trans (h.behind k hk _ hbeyond) (hlower p hp)
    · rw [List.mem_singleton.mp hk]
      exact hlower p hp
  · rw [hhanded]
    refine List.pairwise_append.mpr ⟨h.ascending, List.pairwise_singleton .., fun k hk k' hk' => ?_⟩
    rw [List.mem_singleton.mp hk']
    exact h.behind k hk _ hbeyond
  · rw [hhanded] at hk
    obtain hk | hk := List.mem_append.mp hk
    · exact h.inRange k hk
    · rw [List.mem_singleton.mp hk]
      exact ⟨hfirst, h.last_eq ▸ hlast⟩
  · exact absurd hend (by simpa using hopen)
  · rw [hs', hstate] at hexhausted
    cases hexhausted
  · refine List.pairwise_append.mpr ⟨h.stays, List.pairwise_singleton .., fun a ha _ _ hnone => ?_⟩
    exact absurd (hnone ▸ ha) hopen

/-- A call that returns without a key keeps a scan on its way. -/
theorem OnCourse.finish (h : x.OnCourse first last) {s' : Scanner}
    (hnext : x.scanner.next (x.tree name) = (none, s')) :
    OnCourse first last ⟨x.directory, s', x.results ++ [none]⟩ := by
  obtain rfl := Scanner.next_none hnext
  have hhanded : handedOut ⟨x.directory, { x.scanner with state := .exhausted },
      x.results ++ [none]⟩ = x.handedOut := by
    simp [handedOut, List.reduceOption_append]
  refine ⟨h.last_eq, h.first_le, hhanded ▸ h.behind, hhanded ▸ h.ascending, hhanded ▸ h.inRange,
    fun _ => rfl, fun _ => .inl (by simp), ?_⟩
  refine List.pairwise_append.mpr ⟨h.stays, List.pairwise_singleton .., fun _ _ b hb _ => ?_⟩
  exact List.mem_singleton.mp hb

/-- Every event keeps a scan on its way. -/
theorem OnCourse.event (h : x.OnCourse first last) (e : ScanEvent) :
    (x.event name e).OnCourse first last := by
  cases e with
  | append s f => exact ⟨h.last_eq, h.first_le, h.behind, h.ascending, h.inRange, h.ended,
      h.exhausted, h.stays⟩
  | next =>
    rw [OpenScan.event]
    cases hnext : x.scanner.next (x.directory.indexTree name) with
    | mk found s' =>
      cases found with
      | some key => exact h.handOut hnext
      | none => exact h.finish hnext

theorem OnCourse.run (h : x.OnCourse first last) (events : List ScanEvent) :
    (x.run name events).OnCourse first last := by
  induction events generalizing x with
  | nil => exact h
  | cons e events ih => exact ih (h.event e)

/-- An event hands out a key that is due, or leaves it due. What was handed out
stays so. -/
theorem OnCourse.due_event (h : x.OnCourse first last) (e : ScanEvent)
    (hkey : key ∈ x.handedOut ∨ x.Due name key) :
    key ∈ (x.event name e).handedOut ∨ (x.event name e).Due name key := by
  cases e with
  | append s f =>
    refine hkey.imp_right fun hdue => ⟨hdue.unended, ?_, hdue.beyond, hdue.le_last⟩
    exact mem_indexTree_append s x.directory f hdue.stored
  | next =>
    rw [OpenScan.event]
    cases hnext : x.scanner.next (x.directory.indexTree name) with
    | mk found s' =>
      obtain hkey | hdue := hkey
      · exact .inl (by simp [handedOut, List.reduceOption_append] at hkey ⊢; exact .inl hkey)
      · have hahead := h.mem_ahead hdue
        cases found with
        | none =>
          rw [tree, Scanner.ahead_of_next_none hnext] at hahead
          cases hahead
        | some found =>
          rw [tree, Scanner.ahead_next hnext] at hahead
          obtain rfl | hahead := List.mem_cons.mp hahead
          · exact .inl (by simp [handedOut, List.reduceOption_append])
          · obtain ⟨-, hstored, hbeyond, hlast⟩ := Scanner.mem_ahead.mp hahead
            exact .inr ⟨by simpa using hdue.unended, hstored, hbeyond, hlast⟩

theorem OnCourse.due_run (h : x.OnCourse first last) (events : List ScanEvent)
    (hkey : key ∈ x.handedOut ∨ x.Due name key) :
    key ∈ (x.run name events).handedOut ∨ (x.run name events).Due name key := by
  induction events generalizing x with
  | nil => exact hkey
  | cons e events ih => exact ih (h.event e) (h.due_event e hkey)

/-- Results of which none follows a return without a key are the keys that were
handed out, up to the first such return. -/
theorem takeWhile_isSome {results : List (Option IndexedKey)}
    (h : results.Pairwise fun a b => a = none → b = none) :
    results.takeWhile Option.isSome = results.reduceOption.map some := by
  induction results with
  | nil => rfl
  | cons result results ih =>
    obtain ⟨hhead, htail⟩ := List.pairwise_cons.mp h
    cases result with
    | some key => simp [ih htail]
    | none =>
      have hnone : results.reduceOption = [] := by
        rw [List.eq_nil_iff_forall_not_mem]
        intro key hkey
        have hmem := List.reduceOption_mem_iff.mp hkey
        cases hhead _ hmem rfl
      simp [hnone]

/-- A key that was handed out was handed out once, before the scan ended. -/
theorem OnCourse.count_eq_one (h : x.OnCourse first last) (hkey : key ∈ x.handedOut) :
    (x.results.takeWhile Option.isSome).count (some key) = 1 := by
  have hnodup : x.handedOut.Nodup := h.ascending.imp fun {a b} hlt heq => by
    rw [heq, Std.ReflOrd.compare_self] at hlt
    cases hlt
  rw [takeWhile_isSome h.stays, List.count_map_of_injective _ some (Option.some_injective _)]
  exact List.count_eq_one_of_mem hnodup hkey

/-- Calls with nothing ahead return without a key. -/
theorem results_of_nothing_ahead (hx : x.scanner.ahead (x.tree name) = []) (n : Nat) :
    (x.run name (List.replicate n .next)).results = x.results ++ List.replicate n none := by
  induction n generalizing x with
  | zero => simp [run]
  | succ n ih =>
    have hnext : x.scanner.next (x.tree name) =
        (none, { x.scanner with state := .exhausted }) := by
      simp [Scanner.next, Scanner.peek, hx]
    have hafter := ih (x := x.event name .next) (by
      rw [tree] at hnext
      rw [event, hnext]
      rfl)
    rw [List.replicate_succ, run, List.foldl_cons]
    rw [run] at hafter
    rw [hafter, event, ← tree, hnext, List.append_assoc, List.replicate_succ]
    rfl

/-- Calls on an index at rest hand out what is ahead and then nothing more. -/
theorem results_at_rest (name : String) (x : OpenScan) (n : Nat) :
    (x.run name (List.replicate ((x.scanner.ahead (x.tree name)).length + n) .next)).results =
      x.results ++ ((x.scanner.ahead (x.tree name)).map some ++ List.replicate n none) := by
  induction hkeys : x.scanner.ahead (x.tree name) generalizing x with
  | nil =>
    rw [List.length_nil, Nat.zero_add, List.map_nil, List.nil_append]
    exact results_of_nothing_ahead hkeys n
  | cons key keys ih =>
    cases hnext : x.scanner.next (x.tree name) with
    | mk found s' =>
      cases found with
      | none =>
        rw [Scanner.ahead_of_next_none hnext] at hkeys
        cases hkeys
      | some found =>
        have hahead := Scanner.ahead_next hnext
        rw [hkeys, List.cons.injEq] at hahead
        obtain ⟨rfl, hrest⟩ := hahead
        have hafter : x.event name .next = ⟨x.directory, s', x.results ++ [some key]⟩ := by
          rw [tree] at hnext
          rw [event, hnext]
        have htail := ih (x.event name .next) (by rw [hafter]; exact hrest.symm)
        rw [List.length_cons, Nat.add_right_comm, List.replicate_succ, run, List.foldl_cons]
        rw [run] at htail
        rw [htail, hafter, List.append_assoc, List.map_cons]
        rfl

/-- A scan that seeks anew at every call hands out each key once. On an index at
rest it hands out what one search of the range finds, which is nothing if the
range is inverted, and then returns without a key for good. Whatever is appended
between the calls, the keys ascend and lie in the range, a key that is due at
some moment is handed out once before the first return without a key, all later
calls return so too, and a look ahead sees what the next call returns. What the
search finds is due from the start. -/
theorem scan_hands_out_once (name : String) (d : Directory) (first last : Bytes)
    (before after : List ScanEvent) :
    let entries := scan (d.indexTree name) (.including first) (.including last)
    let middle := (start d first last).run name before
    let final := (start d first last).run name (before ++ after)
    (∀ n, ((start d first last).run name (List.replicate (entries.length + n) .next)).results =
        entries.map some ++ List.replicate n none) ∧
      (compare first last = .gt → entries = [] ∧ final.handedOut = []) ∧
      final.handedOut.Pairwise (fun a b => compare a.position b.position = .lt) ∧
      (∀ key ∈ final.handedOut, (compare first key.position).isLE = true ∧
        (compare key.position last).isLE = true) ∧
      (∀ key, key ∈ entries ↔ (start d first last).Due name key) ∧
      (∀ key, middle.Due name key →
        (final.results.takeWhile Option.isSome).count (some key) = 1 ∨ final.Due name key) ∧
      final.results.Pairwise (fun a b => a = none → b = none) ∧
      final.scanner.peek (final.tree name) = (final.scanner.next (final.tree name)).1 := by
  intro entries middle final
  have hstart : (start d first last).OnCourse first last := onCourse_start d first last
  have hfinal : final.OnCourse first last := hstart.run (before ++ after)
  have hahead : (start d first last).scanner.ahead ((start d first last).tree name) = entries :=
    Scanner.ahead_between ..
  refine ⟨fun n => ?_, fun hinverted => ⟨Scanner.scan_of_gt hinverted _, ?_⟩, hfinal.ascending,
    hfinal.inRange, fun key => ⟨fun hkey => ?_, fun hdue => ?_⟩, fun key hkey => ?_,
    hfinal.stays, ?_⟩
  · have hrest := results_at_rest name (start d first last) n
    rwa [hahead, show (start d first last).results = [] from rfl, List.nil_append] at hrest
  · rw [List.eq_nil_iff_forall_not_mem]
    intro key hkey
    obtain ⟨hfirst, hlast⟩ := hfinal.inRange key hkey
    have hle := Std.TransCmp.isLE_trans hfirst hlast
    rw [hinverted] at hle
    cases hle
  · obtain ⟨-, hstored, hbeyond, hlast⟩ := Scanner.mem_ahead.mp (hahead ▸ hkey)
    exact ⟨List.not_mem_nil, hstored, hbeyond, hlast⟩
  · exact hahead ▸ hstart.mem_ahead hdue
  · have hdue := (hstart.run before).due_run after (.inr hkey)
    rw [show (middle.run name after) = final from (List.foldl_append ..).symm] at hdue
    exact hdue.imp_left hfinal.count_eq_one
  · rw [Scanner.next]
    cases final.scanner.peek (final.tree name) <;> rfl

/-- A key that is appended beyond the cursor of a scan is handed out once, and
the same range from its end to its start holds nothing. -/
theorem sample_scan_hands_out_once :
    let l : Layout := ⟨"by_number", "entry", [⟨"number", 0, .uint64, none, .asc⟩]⟩
    let s : FactStore := ⟨⟨"entry", [⟨"number", .uint64⟩], ["number"]⟩,
      SortedMap.empty.insert "by_number" l⟩
    let name := "entry:by_number"
    let place (number : UInt64) : Bytes := Key.ofTuple [] [.uint64 number]
    let d : Directory := (s.append .empty (.live [.uint64 3] 1 [])).1
    let key : IndexedKey := ⟨place 5, [.uint64 5]⟩
    let before : List ScanEvent := [.next, .append s (.live [.uint64 5] 2 [])]
    let middle := (start d (place 3) (place 9)).run name before
    let final := (start d (place 3) (place 9)).run name (before ++ [.next, .next])
    middle.Due name key ∧ final.results = [some ⟨place 3, [.uint64 3]⟩, some key, none] ∧
      (final.results.takeWhile Option.isSome).count (some key) = 1 ∧
      compare (place 9) (place 3) = .gt ∧
      scan (d.indexTree name) (.including (place 9)) (.including (place 3)) = [] := by
  intro l s name place d key before middle final
  have hdue : middle.Due name key := by
    constructor <;> decide +kernel
  have hresults : final.results = [some ⟨place 3, [.uint64 3]⟩, some key, none] := by
    decide +kernel
  have hinverted : compare (place 9) (place 3) = .gt := by decide +kernel
  obtain ⟨-, -, -, -, -, hhanded, -⟩ :=
    scan_hands_out_once name d (place 3) (place 9) before [.next, .next]
  obtain ⟨-, hempty, -⟩ := scan_hands_out_once name d (place 9) (place 3) [] []
  refine ⟨hdue, hresults, (hhanded key hdue).resolve_right fun h => ?_, hinverted,
    (hempty hinverted).1⟩
  exact h.unended (show none ∈ final.results by simp [hresults])

end OpenScan
end Chronicle
