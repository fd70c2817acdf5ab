import UsageLedger.Proofs.MeterMaps

/-!
Recording changes nothing: an update does to the ledger and to the recorded meter what it does with
the bare meter, and reports the same.
-/

namespace UsageLedger

variable {μ : Type}

/-- The round as the bare meter has it. -/
def Round.plain (round : Round (Recorder μ)) : Round μ where
  ledger := round.ledger
  meter := round.meter.meter
  report := round.report

variable [Meter μ] [LawfulMeter μ]

theorem Recorder.isHom_meter : Meter.IsHom (Recorder.meter : Recorder μ → μ) :=
  Meter.isHom_of_readLevel (fun _ => rfl) (fun _ _ => rfl) (fun _ _ => rfl) fun _ => rfl

theorem Ledger.gather_meter (ledger : Ledger) (recorder : Recorder μ) (entity time : Nat) :
    (ledger.gather recorder entity time).map id Recorder.meter =
      ledger.gather recorder.meter entity time :=
  Recorder.isHom_meter.gather ledger recorder entity time

/-- An update with a recorder is the update with the meter it records. -/
theorem Ledger.update_plain (ledger : Ledger) (path : Path) (recorder : Recorder μ) (time : Nat) :
    (ledger.update path recorder time).plain = ledger.update path recorder.meter time :=
  Recorder.isHom_meter.update ledger path recorder time

end UsageLedger
