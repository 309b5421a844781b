import Chronicle.Ingest
import Chronicle.Proofs.Provenance

/-!
# Ingestion of texts

A text is ingested by appending the records of its lines one after another.
Each record is read, converted by the schema of its table and appended, and
nothing is left of a record that is refused at any of these steps. So the
database after a run is that after the lines before the first refused one, and
a text may be ingested in parts that end with their lines.
-/

namespace Chronicle

theorem linesOf_newline_cons (text : List Char) : linesOf ('\n' :: text) = [] :: linesOf text := rfl

/-- A character that is no newline extends the first line. -/
theorem linesOf_cons_of_ne {c : Char} (hc : c ≠ '\n') {text line : List Char}
    {rest : List (List Char)} (hlines : linesOf text = line :: rest) :
    linesOf (c :: text) = (c :: line) :: rest := by
  unfold linesOf at hlines ⊢
  rw [List.foldr_cons, hlines, if_neg hc]

/-- Every text has a first line. -/
theorem exists_linesOf_eq_cons (text : List Char) :
    ∃ line rest, linesOf text = line :: rest := by
  induction text with
  | nil => exact ⟨[], [], rfl⟩
  | cons c text ih =>
    obtain rfl | hc := eq_or_ne c '\n'
    · exact ⟨[], linesOf text, rfl⟩
    · obtain ⟨line, rest, hlines⟩ := ih
      exact ⟨c :: line, rest, linesOf_cons_of_ne hc hlines⟩

/-- The lines of a text have no newlines, and make up the text with one between
each two. -/
theorem intercalate_linesOf (text : List Char) :
    ['\n'].intercalate (linesOf text) = text ∧ ∀ line ∈ linesOf text, '\n' ∉ line := by
  induction text with
  | nil => exact ⟨rfl, by simp [linesOf]⟩
  | cons c text ih =>
    obtain ⟨hjoin, hlines⟩ := ih
    obtain ⟨line, rest, heq⟩ := exists_linesOf_eq_cons text
    rw [heq] at hjoin hlines
    obtain rfl | hc := eq_or_ne c '\n'
    · rw [linesOf_newline_cons, heq]
      exact ⟨congrArg ('\n' :: ·) hjoin, List.forall_mem_cons.mpr ⟨List.not_mem_nil, hlines⟩⟩
    · obtain ⟨hline, hrest⟩ := List.forall_mem_cons.mp hlines
      rw [linesOf_cons_of_ne hc heq]
      refine ⟨?_, List.forall_mem_cons.mpr ⟨?_, hrest⟩⟩
      · rw [← hjoin]
        cases rest <;> rfl
      · exact fun hmem => (List.mem_cons.mp hmem).elim hc.symm hline

/-- A newline parts the lines before it from those after it. -/
theorem linesOf_append_newline (text rest : List Char) :
    linesOf (text ++ '\n' :: rest) = linesOf text ++ linesOf rest := by
  induction text with
  | nil => rfl
  | cons c text ih =>
    obtain rfl | hc := eq_or_ne c '\n'
    · rw [List.cons_append, linesOf_newline_cons, linesOf_newline_cons, ih, List.cons_append]
    · obtain ⟨line, lines, hlines⟩ := exists_linesOf_eq_cons text
      have hboth : linesOf (text ++ '\n' :: rest) = line :: (lines ++ linesOf rest) := by
        rw [ih, hlines, List.cons_append]
      rw [List.cons_append, linesOf_cons_of_ne hc hboth, linesOf_cons_of_ne hc hlines,
        List.cons_append]

theorem length_linesOf (text : List Char) : (linesOf text).length = text.count '\n' + 1 := by
  induction text with
  | nil => rfl
  | cons c text ih =>
    obtain rfl | hc := eq_or_ne c '\n'
    · rw [linesOf_newline_cons, List.length_cons, ih, List.count_cons_self]
    · obtain ⟨line, lines, hlines⟩ := exists_linesOf_eq_cons text
      rw [linesOf_cons_of_ne hc hlines, List.count_cons_of_ne hc, ← ih, hlines, List.length_cons,
        List.length_cons]

/-- A text whose lines are all ended has that many lines and a blank one after
them, where another text may follow. -/
theorem exists_linesOf_append {text : List Char}
    (h : text = [] ∨ ∃ before, text = before ++ ['\n']) :
    ∃ ended, ended.length = text.count '\n' ∧ linesOf text = ended ++ [[]] ∧
      ∀ rest, linesOf (text ++ rest) = ended ++ linesOf rest := by
  obtain rfl | ⟨before, rfl⟩ := h
  · exact ⟨[], rfl, rfl, fun _ => rfl⟩
  · refine ⟨linesOf before, ?_, linesOf_append_newline before [], fun rest => ?_⟩
    · rw [length_linesOf, List.count_append, List.count_singleton_self]
    · rw [List.append_assoc, List.singleton_append, linesOf_append_newline]

namespace IngestStats

/-- What a run did that had some outcomes. -/
def tally (outcomes : List AppendOutcome) : IngestStats :=
  ⟨outcomes.length, outcomes.count .appended, outcomes.count .unchanged⟩

/-- What two runs did together. -/
instance : Add IngestStats :=
  ⟨fun s t => ⟨s.lines + t.lines, s.appended + t.appended, s.unchanged + t.unchanged⟩⟩

theorem add_def (s t : IngestStats) :
    s + t = ⟨s.lines + t.lines, s.appended + t.appended, s.unchanged + t.unchanged⟩ := rfl

theorem zero_add (s : IngestStats) : zero + s = s := by
  simp [add_def, zero]

theorem count_add_tally (s : IngestStats) (outcome : AppendOutcome)
    (outcomes : List AppendOutcome) :
    s.count outcome + tally outcomes = s + tally (outcome :: outcomes) := by
  cases outcome <;> simp [add_def, tally, count] <;> omega

theorem tally_append (first second : List AppendOutcome) :
    tally (first ++ second) = tally first + tally second := by
  simp [add_def, tally]

/-- Every line has one of the two outcomes. -/
theorem lines_tally (outcomes : List AppendOutcome) :
    (tally outcomes).lines = (tally outcomes).appended + (tally outcomes).unchanged := by
  induction outcomes with
  | nil => rfl
  | cons outcome outcomes ih => cases outcome <;> simp [tally] at ih ⊢ <;> omega

end IngestStats

namespace Database

/-- The record of a line is read, its fields are those of its table, and the fact
that they state at the block of the record is appended, a tombstone if the record
says so. -/
def Appends (db : Database) (record : List Char) (outcome : AppendOutcome) (db' : Database) :
    Prop :=
  ∃ r s identity payload, FactRecord.ofText record = .ok r ∧ db.store r.table = .ok s ∧
    s.table.valuesOfObject r.fields = .ok (identity, payload) ∧
    db.append r.table ⟨identity, r.block, r.present, if r.present then payload else []⟩ =
      (db', .ok outcome)

/-- A record is refused by the first step that fails. -/
inductive Refuses (db : Database) (record : List Char) : CommandError → Prop
  /-- The record is no JSON or has not the expected members. -/
  | unreadable {e} : FactRecord.ofText record = .error e → db.Refuses record e
  /-- The table is unknown. -/
  | unknown {r e} : FactRecord.ofText record = .ok r → db.store r.table = .error e →
      db.Refuses record (.database e)
  /-- The fields are not those of the table. -/
  | unfit {r s e} : FactRecord.ofText record = .ok r → db.store r.table = .ok s →
      s.table.valuesOfObject r.fields = .error e → db.Refuses record (.database e)
  /-- The store of the table rejects the fact that they state. -/
  | rejected {r s identity payload e} : FactRecord.ofText record = .ok r →
      db.store r.table = .ok s → s.table.valuesOfObject r.fields = .ok (identity, payload) →
      (db.append r.table
        ⟨identity, r.block, r.present, if r.present then payload else []⟩).2 = .error e →
      db.Refuses record (.database e)

/-- Lines are processed in order, with an outcome for each that is not blank. -/
inductive Processes : Database → List (List Char) → List AppendOutcome → Database → Prop
  /-- No line is left. -/
  | done {db} : Processes db [] [] db
  /-- A blank line is passed over. -/
  | blank {db line rest outcomes db'} : Text.trim line = [] →
      Processes db rest outcomes db' → Processes db (line :: rest) outcomes db'
  /-- The record of a line is appended. -/
  | record {db line rest outcome outcomes db' db''} : Text.trim line ≠ [] →
      db.Appends (Text.trim line) outcome db' → Processes db' rest outcomes db'' →
      Processes db (line :: rest) (outcome :: outcomes) db''

/-- The record in the line of a number is the first that is refused. The lines
before it are processed. -/
def Stops (db : Database) (lines : List (List Char)) (number : Nat) (cause : CommandError)
    (db' : Database) : Prop :=
  ∃ before line after outcomes, lines = before ++ line :: after ∧ number = before.length + 1 ∧
    Text.trim line ≠ [] ∧ db.Processes before outcomes db' ∧ db'.Refuses (Text.trim line) cause

variable {db db' db'' : Database} {record : List Char} {lines rest : List (List Char)}
  {outcome : AppendOutcome} {outcomes more : List AppendOutcome} {cause : CommandError}
  {number : Nat} {stats : IngestStats} {used : SortedMap String FactStore}

theorem Appends.opened (h : db.Appends record outcome db') (hdb : db.Opened) : db'.Opened := by
  obtain ⟨r, s, identity, payload, -, -, -, happend⟩ := h
  have hcall := hdb.call (.append r.table
    ⟨identity, r.block, r.present, if r.present then payload else []⟩)
  rwa [call, happend] at hcall

theorem appends_or_refuses (db : Database) (record : List Char) :
    (∃ outcome db', db.Appends record outcome db') ∨ ∃ cause, db.Refuses record cause := by
  cases hrecord : FactRecord.ofText record with
  | error e => exact .inr ⟨e, .unreadable hrecord⟩
  | ok r =>
    cases hstore : db.store r.table with
    | error e => exact .inr ⟨_, .unknown hrecord hstore⟩
    | ok s =>
      cases hvalues : s.table.valuesOfObject r.fields with
      | error e => exact .inr ⟨_, .unfit hrecord hstore hvalues⟩
      | ok values =>
        cases happend : (db.append r.table
            ⟨values.1, r.block, r.present, if r.present then values.2 else []⟩).2 with
        | error e => exact .inr ⟨_, .rejected hrecord hstore hvalues happend⟩
        | ok outcome =>
          exact .inl ⟨outcome, _, r, s, _, _, hrecord, hstore, hvalues, Prod.ext rfl happend⟩

namespace Processes

theorem append (h : db.Processes lines outcomes db') (hrest : db'.Processes rest more db'') :
    db.Processes (lines ++ rest) (outcomes ++ more) db'' := by
  induction h with
  | done => exact hrest
  | blank hline _ ih => exact .blank hline (ih hrest)
  | record hline happends _ ih => exact .record hline happends (ih hrest)

theorem opened (h : db.Processes lines outcomes db') (hdb : db.Opened) : db'.Opened := by
  induction h with
  | done => exact hdb
  | blank _ _ ih => exact ih hdb
  | record _ happends _ ih => exact ih (happends.opened hdb)

theorem length_outcomes (h : db.Processes lines outcomes db') :
    outcomes.length = lines.countP (Text.trim · ≠ []) := by
  induction h with
  | done => rfl
  | blank hline _ ih => rw [ih, List.countP_cons_of_neg (by simpa using hline)]
  | record hline _ _ ih => rw [List.length_cons, ih, List.countP_cons_of_pos (by simpa using hline)]

end Processes

namespace Stops

theorem append_right (h : db.Stops lines number cause db') (rest : List (List Char)) :
    db.Stops (lines ++ rest) number cause db' := by
  obtain ⟨before, line, after, outcomes, rfl, hnumber, hstop⟩ := h
  exact ⟨before, line, after ++ rest, outcomes, by simp, hnumber, hstop⟩

theorem append_left (hlines : db.Processes lines outcomes db')
    (h : db'.Stops rest number cause db'') :
    db.Stops (lines ++ rest) (number + lines.length) cause db'' := by
  obtain ⟨before, line, after, more, rfl, rfl, hline, hbefore, hrefuses⟩ := h
  exact ⟨lines ++ before, line, after, outcomes ++ more, by simp, by simp; omega, hline,
    hlines.append hbefore, hrefuses⟩

end Stops

theorem processes_or_stops (db : Database) (lines : List (List Char)) :
    (∃ outcomes db', db.Processes lines outcomes db') ∨
      ∃ number cause db', db.Stops lines number cause db' := by
  induction lines generalizing db with
  | nil => exact .inl ⟨[], db, .done⟩
  | cons line lines ih =>
    have hfirst : (∃ outcomes db', db.Processes [line] outcomes db') ∨
        ∃ number cause db', db.Stops [line] number cause db' := by
      by_cases hline : Text.trim line = []
      · exact .inl ⟨[], db, .blank hline .done⟩
      · obtain ⟨outcome, db', happends⟩ | ⟨cause, hrefuses⟩ :=
          db.appends_or_refuses (Text.trim line)
        · exact .inl ⟨[outcome], db', .record hline happends .done⟩
        · exact .inr ⟨1, cause, db, [], line, [], [], rfl, rfl, hline, .done, hrefuses⟩
    obtain ⟨outcomes, db', hline⟩ | ⟨number, cause, db', hstops⟩ := hfirst
    · obtain ⟨more, db'', hlines⟩ | ⟨number, cause, db'', hstops⟩ := ih db'
      · exact .inl ⟨_, db'', hline.append hlines⟩
      · exact .inr ⟨_, cause, db'', hstops.append_left hline⟩
    · exact .inr ⟨number, cause, db', hstops.append_right lines⟩

/-- The stores at hand are those of the database. -/
def AtHand (db : Database) (used : SortedMap String FactStore) : Prop :=
  ∀ table s, used.get? table = some s → db.store table = .ok s

theorem AtHand.empty (db : Database) : db.AtHand .empty := nofun

/-- Appending a fact leaves the stores. -/
theorem AtHand.append (h : db.AtHand used) (table : String) (f : Fact) :
    (db.append table f).1.AtHand used := by
  obtain ⟨d, hd⟩ := append_eq_withDirectory db table f
  rw [hd]
  exact h

/-- The store of a table is found, whether it was at hand or not. -/
theorem AtHand.storeAtHand_of_ok (h : db.AtHand used) {table : String} {s : FactStore}
    (hs : db.store table = .ok s) :
    ∃ used', db.AtHand used' ∧ db.storeAtHand used table = .ok (s, used') := by
  rw [storeAtHand]
  cases hused : used.get? table with
  | some s' =>
    obtain rfl := Except.ok.inj ((h table s' hused).symm.trans hs)
    exact ⟨used, h, rfl⟩
  | none =>
    refine ⟨used.insert table s, fun name s' hs' => ?_, by rw [hs]; rfl⟩
    obtain ⟨rfl, rfl⟩ | ⟨-, hs'⟩ := SortedMap.get?_insert_eq_some.mp hs'
    · exact hs
    · exact h name s' hs'

theorem AtHand.storeAtHand_of_error (h : db.AtHand used) {table : String} {e : Error}
    (hs : db.store table = .error e) : db.storeAtHand used table = .error e := by
  rw [storeAtHand]
  cases hused : used.get? table with
  | some s =>
    rw [h table s hused] at hs
    cases hs
  | none => rw [hs]; rfl

theorem Appends.ingestLine_eq (h : db.Appends record outcome db') (hused : db.AtHand used) :
    ∃ used', db'.AtHand used' ∧ db.ingestLine used record = (db', .ok (outcome, used')) := by
  obtain ⟨r, s, identity, payload, hrecord, hstore, hvalues, happend⟩ := h
  obtain ⟨used', hused', hs⟩ := hused.storeAtHand_of_ok hstore
  have hleft := hused'.append r.table
    ⟨identity, r.block, r.present, if r.present then payload else []⟩
  rw [happend] at hleft
  refine ⟨used', hleft, ?_⟩
  simp only [ingestLine, hrecord, hs, FactRecord.toFact_eq, hvalues, Except.map, happend]

/-- A refused record leaves the database as it is. -/
theorem Refuses.ingestLine_eq (h : db.Refuses record cause) (hdb : db.Opened)
    (hused : db.AtHand used) : db.ingestLine used record = (db, .error cause) := by
  cases h with
  | unreadable hrecord => simp only [ingestLine, hrecord]
  | unknown hrecord hstore =>
    simp only [ingestLine, hrecord, hused.storeAtHand_of_error hstore]
  | unfit hrecord hstore hvalues =>
    obtain ⟨used', -, hs⟩ := hused.storeAtHand_of_ok hstore
    simp only [ingestLine, hrecord, hs, FactRecord.toFact_eq, hvalues, Except.map]
  | @rejected r s identity payload e hrecord hstore hvalues happend =>
    obtain ⟨used', -, hs⟩ := hused.storeAtHand_of_ok hstore
    simp only [ingestLine, hrecord, hs, FactRecord.toFact_eq, hvalues, Except.map]
    generalize Fact.mk identity r.block r.present (if r.present then payload else []) = f
      at happend ⊢
    obtain ⟨e', hsame⟩ | ⟨s', outcome, -, -, hok⟩ := append_cases hdb r.table f
    · rw [hsame] at happend ⊢
      obtain rfl := Except.error.inj happend
      rfl
    · rw [hok] at happend
      cases happend

theorem ingestLines_cons_of_blank {line : List Char} (hline : Text.trim line = []) :
    db.ingestLines used number stats (line :: rest) =
      db.ingestLines used (number + 1) stats rest := by
  rw [ingestLines, hline]

theorem ingestLines_cons {line : List Char} (hline : Text.trim line ≠ []) :
    db.ingestLines used number stats (line :: rest) =
      match db.ingestLine used (Text.trim line) with
      | (db, .error e) => (db, .error (.line number e))
      | (db, .ok (outcome, used)) =>
        db.ingestLines used (number + 1) (stats.count outcome) rest := by
  rw [ingestLines]
  split
  · contradiction
  · rfl

/-- Lines that are processed leave the rest of a run to start where they end. -/
theorem Processes.ingestLines_append (h : db.Processes lines outcomes db')
    (hused : db.AtHand used) (number : Nat) (stats : IngestStats) (rest : List (List Char)) :
    ∃ used', db'.AtHand used' ∧ db.ingestLines used number stats (lines ++ rest) =
      db'.ingestLines used' (number + lines.length) (stats + .tally outcomes) rest := by
  -- Over the lines, for any stores at hand, first number and counts so far.
  induction h generalizing used number stats with
  | done => exact ⟨used, hused, rfl⟩
  | blank hline _ ih =>
    obtain ⟨used', hused', hrun⟩ := ih hused (number + 1) stats
    refine ⟨used', hused', ?_⟩
    rw [List.cons_append, ingestLines_cons_of_blank hline, hrun, List.length_cons,
      Nat.add_right_comm, Nat.add_assoc]
  | @record db line lines outcome outcomes db' db'' hline happends _ ih =>
    obtain ⟨used', hused', hfirst⟩ := happends.ingestLine_eq hused
    obtain ⟨used'', hused'', hrun⟩ := ih hused' (number + 1) (stats.count outcome)
    refine ⟨used'', hused'', ?_⟩
    rw [List.cons_append, ingestLines_cons hline, hfirst]
    dsimp only
    rw [hrun, IngestStats.count_add_tally, List.length_cons, Nat.add_right_comm, Nat.add_assoc]

theorem Processes.ingestLines_eq (h : db.Processes lines outcomes db') :
    db.ingestLines .empty 1 .zero lines = (db', .ok (.tally outcomes)) := by
  obtain ⟨used, -, hrun⟩ := h.ingestLines_append (.empty db) 1 .zero []
  rw [List.append_nil] at hrun
  rw [hrun, ingestLines, IngestStats.zero_add]

theorem Stops.ingestLines_eq (h : db.Stops lines number cause db') (hdb : db.Opened) :
    db.ingestLines .empty 1 .zero lines = (db', .error (.line number cause)) := by
  obtain ⟨before, line, after, outcomes, rfl, rfl, hline, hbefore, hrefuses⟩ := h
  obtain ⟨used, hused, hrun⟩ := hbefore.ingestLines_append (.empty db) 1 .zero (line :: after)
  rw [hrun, ingestLines_cons hline, hrefuses.ingestLine_eq (hbefore.opened hdb) hused,
    Nat.add_comm]

theorem ingest_eq_ok_iff (hdb : db.Opened) {text : String} :
    db.ingest text = (db', .ok stats) ↔
      ∃ outcomes, db.Processes (linesOf text.toList) outcomes db' ∧ stats = .tally outcomes := by
  rw [ingest]
  constructor
  · intro hrun
    obtain ⟨outcomes, db'', h⟩ | ⟨number, cause, db'', h⟩ :=
      db.processes_or_stops (linesOf text.toList)
    · rw [h.ingestLines_eq] at hrun
      obtain ⟨rfl, hstats⟩ := Prod.mk.inj hrun
      exact ⟨outcomes, h, (Except.ok.inj hstats).symm⟩
    · rw [h.ingestLines_eq hdb] at hrun
      cases hrun
  · rintro ⟨outcomes, h, rfl⟩
    exact h.ingestLines_eq

theorem ingest_eq_error_iff (hdb : db.Opened) {text : String} {e : CommandError} :
    db.ingest text = (db', .error e) ↔
      ∃ number cause, db.Stops (linesOf text.toList) number cause db' ∧ e = .line number cause := by
  rw [ingest]
  constructor
  · intro hrun
    obtain ⟨outcomes, db'', h⟩ | ⟨number, cause, db'', h⟩ :=
      db.processes_or_stops (linesOf text.toList)
    · rw [h.ingestLines_eq] at hrun
      cases hrun
    · rw [h.ingestLines_eq hdb] at hrun
      obtain ⟨rfl, he⟩ := Prod.mk.inj hrun
      exact ⟨number, cause, h, (Except.error.inj he).symm⟩
  · rintro ⟨number, cause, h, rfl⟩
    exact h.ingestLines_eq hdb

/-- A text whose lines are all ended is refused, and so is every longer one, or
it is processed, and another text may follow. -/
theorem ingest_append_cases (hdb : db.Opened) {first : String}
    (hfirst : first = "" ∨ ∃ before, first = before ++ "\n") :
    (∃ db' e, db.ingest first = (db', .error e) ∧
      ∀ second, db.ingest (first ++ second) = (db', .error e)) ∨
    ∃ ended outcomes db', db.ingest first = (db', .ok (.tally outcomes)) ∧
      ended.length = first.toList.count '\n' ∧ db.Processes ended outcomes db' ∧
      ∀ second, linesOf (first ++ second).toList = ended ++ linesOf second.toList := by
  have hends : first.toList = [] ∨ ∃ before, first.toList = before ++ ['\n'] := by
    obtain rfl | ⟨before, rfl⟩ := hfirst
    · exact .inl rfl
    · exact .inr ⟨before.toList, String.toList_append⟩
  obtain ⟨ended, hlength, hlines, happend⟩ := exists_linesOf_append hends
  obtain ⟨outcomes, db', h⟩ | ⟨number, cause, db', h⟩ := db.processes_or_stops ended
  · refine .inr ⟨ended, outcomes, db', ?_, hlength, h, fun second => ?_⟩
    -- The text after the last newline is a blank line, which counts for nothing.
    · have hblank : db'.Processes [[]] [] db' := .blank rfl .done
      rw [ingest, hlines, (h.append hblank).ingestLines_eq, List.append_nil]
    · rw [String.toList_append, happend]
  · refine .inl ⟨db', .line number cause, ?_, fun second => ?_⟩
    · rw [ingest, hlines, (h.append_right _).ingestLines_eq hdb]
    · rw [ingest, String.toList_append, happend, (h.append_right _).ingestLines_eq hdb]

/-- Texts are ingested together as they are one after the other, if the first
ends with its lines. -/
theorem ingest_append (hdb : db.Opened) {first : String}
    (hfirst : first = "" ∨ ∃ before, first = before ++ "\n") (second : String) :
    (∀ db' e, db.ingest first = (db', .error e) → db.ingest (first ++ second) = (db', .error e)) ∧
      ∀ db' stats, db.ingest first = (db', .ok stats) →
        (∀ db'' more, db'.ingest second = (db'', .ok more) →
          db.ingest (first ++ second) = (db'', .ok (stats + more))) ∧
        ∀ db'' number cause, db'.ingest second = (db'', .error (.line number cause)) →
          db.ingest (first ++ second) =
            (db'', .error (.line (number + first.toList.count '\n') cause)) := by
  obtain ⟨db₁, e₁, hone, hboth⟩ | ⟨ended, outcomes, db₁, hone, hlength, hprocesses, hlines⟩ :=
    ingest_append_cases hdb hfirst
  · refine ⟨fun db' e h => ?_, fun db' stats h => ?_⟩
    · rw [hboth, ← hone, h]
    · rw [hone] at h
      cases h
  · refine ⟨fun db' e h => ?_, fun db' stats h => ?_⟩
    · rw [hone] at h
      cases h
    · rw [hone] at h
      obtain ⟨rfl, hstats⟩ := Prod.mk.inj h
      obtain rfl := Except.ok.inj hstats
      have hdb₁ := hprocesses.opened hdb
      refine ⟨fun db'' more hsecond => ?_, fun db'' number cause hsecond => ?_⟩
      · obtain ⟨others, hothers, rfl⟩ := (ingest_eq_ok_iff hdb₁).mp hsecond
        rw [ingest, hlines, (hprocesses.append hothers).ingestLines_eq, IngestStats.tally_append]
      · obtain ⟨number', cause', hstops, heq⟩ := (ingest_eq_error_iff hdb₁).mp hsecond
        obtain ⟨rfl, rfl⟩ := CommandError.line.inj heq
        rw [ingest, hlines, (hstops.append_left hprocesses).ingestLines_eq hdb, hlength]

/-- Whatever a session has been through, ingesting a text appends the records of
its lines that are not blank, and counts them by outcome. The lines are what the
newlines of the text part. If a record is refused, the number of its line is
reported, and the lines before it are all that is processed. A text whose lines
are ended and another one may be ingested together or one after the other: a
failure of the first is one of both, the counts add up, and the lines of the
second are numbered after those of the first. -/
theorem ingest_folds (d : Directory) (calls : List DatabaseCall) :
    let db := (ofDirectory d).run calls
    (∀ text, ['\n'].intercalate (linesOf text) = text ∧ ∀ line ∈ linesOf text, '\n' ∉ line) ∧
    (∀ text db' stats, db.ingest text = (db', .ok stats) ↔
      ∃ outcomes, db.Processes (linesOf text.toList) outcomes db' ∧ stats = .tally outcomes) ∧
    (∀ text db' stats, db.ingest text = (db', .ok stats) →
      stats.lines = (linesOf text.toList).countP (Text.trim · ≠ []) ∧
      stats.lines = stats.appended + stats.unchanged) ∧
    (∀ text db' e, db.ingest text = (db', .error e) ↔ ∃ number cause,
      db.Stops (linesOf text.toList) number cause db' ∧ e = .line number cause) ∧
    ∀ first second : String, (first = "" ∨ ∃ before, first = before ++ "\n") →
      (∀ db' e, db.ingest first = (db', .error e) →
        db.ingest (first ++ second) = (db', .error e)) ∧
      ∀ db' stats, db.ingest first = (db', .ok stats) →
        (∀ db'' more, db'.ingest second = (db'', .ok more) →
          db.ingest (first ++ second) = (db'', .ok (stats + more))) ∧
        ∀ db'' number cause, db'.ingest second = (db'', .error (.line number cause)) →
          db.ingest (first ++ second) =
            (db'', .error (.line (number + first.toList.count '\n') cause)) := by
  intro db
  have hdb : db.Opened := (Opened.ofDirectory d).run calls
  refine ⟨intercalate_linesOf, fun _ _ _ => ingest_eq_ok_iff hdb, fun text db' stats h => ?_,
    fun _ _ _ => ingest_eq_error_iff hdb, fun _ second hfirst => ingest_append hdb hfirst second⟩
  obtain ⟨outcomes, hprocesses, rfl⟩ := (ingest_eq_ok_iff hdb).mp h
  exact ⟨hprocesses.length_outcomes, IngestStats.lines_tally outcomes⟩

/-- A live record, a blank line and a tombstone are ingested. The fields may be in
any order, and those of the tombstone are not stored. The second line that
follows has a field that the table lacks, and nothing of it is left. -/
theorem sample_ingest_folds :
    let calls : List DatabaseCall :=
      [.load ⟨[⟨"kv", [⟨"k", .uint64⟩, ⟨"v", .int64⟩], ["k"]⟩], [], []⟩]
    let db := (ofDirectory .empty).run calls
    let records := "\x7b\"table\": \"kv\", \"block_index\": 3, " ++
      "\"fields\": \x7b\"v\": 7, \"k\": 1\x7d\x7d\n\n" ++
      "\x7b\"table\": \"kv\", \"block_index\": 4, \"present\": false, " ++
      "\"fields\": \x7b\"k\": 2, \"v\": 5\x7d\x7d"
    let first := records ++ "\n"
    let second := " \n\x7b\"table\": \"kv\", \"block_index\": 5, " ++
      "\"fields\": \x7b\"k\": 3, \"w\": 1\x7d\x7d\n"
    let stored : History := [⟨[.uint64 1], 3, true, [.int64 7]⟩, ⟨[.uint64 2], 4, false, []⟩]
    let cause := CommandError.database (.violation (.unknownField "kv" "w"))
    ∃ db' db'', db.ingest first = (db', .ok ⟨2, 2, 0⟩) ∧
      db'.directory.history "kv" = stored ∧ db'.headBlock = 4 ∧
      db'.ingest second = (db'', .error (.line 2 cause)) ∧
      db''.directory.history "kv" = stored ∧ db''.headBlock = 4 ∧
      db.ingest (first ++ second) = (db'', .error (.line 5 cause)) := by
  intro calls db records first second stored cause
  let refused : Except CommandError IngestStats → Bool
    | .error (.line 2 (.database (.violation (.unknownField "kv" "w")))) => true
    | _ => false
  have hrefused : ∀ {result}, refused result = true → result = .error (.line 2 cause) := by
    intro result hresult
    dsimp only [refused] at hresult
    split at hresult
    · rfl
    · cases hresult
  have hpair : ∀ {x : Database × Except CommandError IngestStats} {result}, x.2 = result →
      x = (x.1, result) := fun h => h ▸ rfl
  have hchecked : (db.ingest first).2.toOption = some ⟨2, 2, 0⟩ ∧
      (db.ingest first).1.directory.history "kv" = stored ∧
      (db.ingest first).1.headBlock = 4 ∧
      refused ((db.ingest first).1.ingest second).2 = true ∧
      ((db.ingest first).1.ingest second).1.directory.history "kv" = stored ∧
      ((db.ingest first).1.ingest second).1.headBlock = 4 := by
    decide +kernel
  obtain ⟨hstats, hhistory, hhead, hresult, hhistory', hhead'⟩ := hchecked
  have hfirst := hpair (eq_ok_of_toOption hstats)
  have hsecond := hpair (hrefused hresult)
  obtain ⟨-, -, -, -, hparts⟩ := ingest_folds .empty calls
  obtain ⟨-, hboth⟩ := hparts first second (.inr ⟨records, rfl⟩)
  have hcount : first.toList.count '\n' = 3 := by decide +kernel
  have hlast := (hboth _ _ hfirst).2 _ _ _ hsecond
  rw [hcount] at hlast
  exact ⟨_, _, hfirst, hhistory, hhead, hsecond, hhistory', hhead', hlast⟩

end Database
end Chronicle
