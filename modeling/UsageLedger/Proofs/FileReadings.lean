import UsageLedger.Proofs.MeterMaps
import UsageLedger.Proofs.Totals

namespace UsageLedger

/-- The rows of a time-in-state file, none if the file cannot be read or is refused. -/
def FileContent.rows? : FileContent → Option (Table Measure)
  | .unreadable _ => none
  | .text content =>
    match UidTimes.ofText content with
    | .ok parsed => some parsed.times
    | .error _ => none

/-- The meter with this content in its file. -/
def FileMeter.find (meter : FileMeter) (content : FileContent) : FileMeter :=
  { meter with content }

/-- The meter with exactly the rows of the content as its readings, one by one and all at once.
A file with a header alone shows an empty whole-system reading. Setting levels never leads to that
one, but it leads to all others, as `find_eq_setRows` says. -/
def ScriptedMeter.find (meter : ScriptedMeter) (content : FileContent) : ScriptedMeter :=
  { meter with levels := content.rows?.getD ∅, bulk := content.rows? }

namespace ScriptedMeter

/-- The meter with all that it could read set unavailable. -/
def blank (meter : ScriptedMeter) : ScriptedMeter :=
  (meter.levels.keys.foldl setUnavailable meter).clearBulk

/-- The meter with the rows set in turn, each as a reading of its own and in the whole-system
reading. -/
def setRows (meter : ScriptedMeter) (rows : List (Nat × Measure)) : ScriptedMeter :=
  rows.foldl (fun meter row => (meter.setLevel row.1 row.2).setBulkLevel row.1 row.2) meter

theorem foldl_setUnavailable (meter : ScriptedMeter) (sources : List Nat) :
    sources.foldl setUnavailable meter =
      { meter with levels := sources.foldl Table.erase meter.levels } := by
  induction sources generalizing meter with
  | nil => rfl
  | cons source sources ih => exact ih _

theorem blank_eq (meter : ScriptedMeter) : meter.blank = { baselines := meter.baselines } := by
  have none : meter.levels.keys.foldl Table.erase meter.levels = ∅ := by
    rw [Table.eq_empty_iff]
    intro source mem
    obtain ⟨apart, known⟩ := Table.mem_foldl_erase.mp mem
    exact apart ((Table.mem_keys _ _).mpr known)
  rw [blank, foldl_setUnavailable, none]
  rfl

theorem setRows_eq (meter : ScriptedMeter) (rows : List (Nat × Measure)) :
    meter.setRows rows =
      let insertRows := rows.foldl fun table row => Table.insert table row.1 row.2
      { meter with
        levels := insertRows meter.levels
        bulk := if rows = [] then meter.bulk else some (insertRows (meter.bulk.getD ∅)) } := by
  induction rows generalizing meter with
  | nil => rfl
  | cons row rows ih =>
    refine (ih _).trans ?_
    cases rows <;> rfl

/-- Unless it is a file without rows, a meter comes to show the content by being set to its rows. -/
theorem find_eq_setRows (meter : ScriptedMeter) {content : FileContent}
    (rowed : content.rows? ≠ some ∅) :
    meter.find content = meter.blank.setRows (content.rows?.getD ∅).entries := by
  rw [blank_eq, setRows_eq, find]
  cases read : content.rows? with
  | none => rfl
  | some rows =>
    have inhabited : rows.entries ≠ [] := by
      intro empty
      apply rowed
      rw [read, ← rows.ofList_entries, empty]
      rfl
    have again : rows.entries.foldl (fun table row => Table.insert table row.1 row.2) ∅ = rows :=
      rows.ofList_entries
    simp only [Option.getD_some, Option.getD_none, if_neg inhabited, again]

end ScriptedMeter

/-- A notice, or an update at which this is found in the file. -/
inductive FileCall where
  | notice (notice : Notice)
  | update (path : Path) (time : Nat) (content : FileContent)
deriving DecidableEq, Repr

/-- Takes up a call with a meter that shows the content in its own way. Only updates report. -/
def Round.answer {μ : Type} [Meter μ] (find : μ → FileContent → μ) (round : Round μ) :
    FileCall → Round μ
  | .notice notice => { ledger := round.ledger.notice notice, meter := round.meter }
  | .update path time content => round.ledger.update path (find round.meter content) time

namespace FileMeter

theorem times?_eq (meter : FileMeter) : meter.times? = meter.content.rows? := by
  unfold times? load FileContent.rows?
  cases meter.content with
  | unreadable fault => rfl
  | text content =>
    simp only
    cases UidTimes.ofText content <;> rfl

/-- The scripted meter with the readings of the file. -/
def scripted (meter : FileMeter) : ScriptedMeter :=
  ScriptedMeter.find { baselines := meter.baselines } meter.content

theorem isHom_scripted : Meter.IsHom scripted := by
  apply Meter.isHom_of_readLevel
  · exact fun _ => rfl
  · exact fun _ _ => rfl
  · intro meter entity
    have read : Gauge.readLevel meter entity =
      (meter.times?.bind fun times => times.get? entity, meter) := rfl
    rw [read, times?_eq]
    show _ = (((meter.content.rows?).getD ∅).get? entity, meter.scripted)
    cases meter.content.rows? <;> rfl
  · intro meter
    have read : Meter.readAll meter = (meter.times?, meter) := rfl
    rw [read, times?_eq]
    rfl

end FileMeter

namespace Round

/-- Whatever the call, the round of the scripted meter follows that of the file. -/
theorem mapMeter_answer (round : Round FileMeter) (call : FileCall) :
    (round.answer FileMeter.find call).mapMeter FileMeter.scripted =
      (round.mapMeter FileMeter.scripted).answer ScriptedMeter.find call := by
  cases call with
  | notice notice => rfl
  | update path time content =>
    exact FileMeter.isHom_scripted.update round.ledger path (round.meter.find content) time

theorem foldl_answer_mapMeter (round : Round FileMeter) (calls : List FileCall) :
    calls.foldl (answer ScriptedMeter.find) (round.mapMeter FileMeter.scripted) =
      (calls.foldl (answer FileMeter.find) round).mapMeter FileMeter.scripted :=
  List.foldl_hom (mapMeter FileMeter.scripted) fun round call => (mapMeter_answer round call).symm

/-- After any calls, the ledger, the last report and the meter's baselines are the same whether the
ledger was brought up to date from files or from a scripted meter with their rows. -/
theorem answer_file_eq_scripted (ledger : Ledger) (path : String) (baselines : Baselines)
    (calls : List FileCall) :
    let file := calls.foldl (answer FileMeter.find) { ledger, meter := { path, baselines } }
    let scripted := calls.foldl (answer ScriptedMeter.find) { ledger, meter := { baselines } }
    file.ledger = scripted.ledger ∧ file.report = scripted.report ∧
      file.meter.baselines = scripted.meter.baselines := by
  intro file scripted
  have same : scripted = file.mapMeter FileMeter.scripted :=
    foldl_answer_mapMeter { ledger, meter := { path, baselines } } calls
  rw [same]
  exact ⟨rfl, rfl, rfl⟩

end Round

end UsageLedger
