import UsageLedger.Session

/-!
Maps between meters. An update depends on its meter only through what is read, so it commutes with
every map that keeps all readings and baselines.
-/

namespace UsageLedger

variable {μ ν : Type}

/-- What is read of a meter is read of its image, and the reading leaves the image of what it leaves
of the meter. -/
structure Meter.IsHom [Meter μ] [Meter ν] (f : μ → ν) : Prop where
  baselines (meter : μ) : Gauge.baselines (f meter) = Gauge.baselines meter
  readGain (meter : μ) (entity time : Nat) :
    (Meter.readGain meter entity time).map id f = Meter.readGain (f meter) entity time
  readAll (meter : μ) : (Meter.readAll meter).map id f = Meter.readAll (f meter)

/-- If both meters count their gains from their baselines, levels are all that has to be kept. -/
theorem Meter.isHom_of_readLevel [Meter μ] [Meter ν] [LawfulMeter μ] [LawfulMeter ν] {f : μ → ν}
    (baselines : ∀ meter, Gauge.baselines (f meter) = Gauge.baselines meter)
    (withBaselines : ∀ meter baselines,
      f (Gauge.withBaselines meter baselines) = Gauge.withBaselines (f meter) baselines)
    (readLevel : ∀ meter entity,
      (Gauge.readLevel meter entity).map id f = Gauge.readLevel (f meter) entity)
    (readAll : ∀ meter, (Meter.readAll meter).map id f = Meter.readAll (f meter)) :
    Meter.IsHom f := by
  refine ⟨baselines, fun meter entity time => ?_, readAll⟩
  rw [LawfulMeter.readGain_eq, LawfulMeter.readGain_eq, Gauge.readGain, Gauge.readGain, ← readLevel]
  obtain ⟨level, after⟩ := Gauge.readLevel meter entity
  cases level with
  | none => rfl
  | some level => simp only [Prod.map_apply, id_eq, withBaselines, baselines]

/-- The round with the image of its meter. -/
def Round.mapMeter (f : μ → ν) (round : Round μ) : Round ν where
  ledger := round.ledger
  meter := f round.meter
  report := round.report

theorem Round.mapMeter_commit (f : μ → ν) (round : Round μ) (entity : Nat)
    (parts : List Contribution) :
    (round.commit entity parts).mapMeter f = (round.mapMeter f).commit entity parts := by
  have same : (round.mapMeter f).ledger = round.ledger := rfl
  unfold commit
  rw [same]
  cases round.ledger.commit entity parts <;> rfl

namespace Meter.IsHom

variable [Meter μ] [Meter ν] {f : μ → ν} (h : Meter.IsHom f)

include h

theorem contribution (ledger : Ledger) (meter : μ) (source : Nat) (gain : Measure) :
    ledger.contribution (f meter) source gain = ledger.contribution meter source gain := by
  unfold Ledger.contribution
  rw [h.baselines]

theorem gatherChildren (ledger : Ledger) (time : Nat) (children : List Nat) (meter : μ) :
    (ledger.gatherChildren time children meter).map id f =
      ledger.gatherChildren time children (f meter) := by
  induction children generalizing meter with
  | nil => rfl
  | cons child rest ih =>
    rw [Ledger.gatherChildren, Ledger.gatherChildren, ← h.readGain]
    obtain ⟨gain, middle⟩ := Meter.readGain meter child time
    cases gain with
    | none => exact ih middle
    | some gain =>
      simp only [Prod.map_apply, id_eq]
      cases ledger.store.checkWidth child gain with
      | error fault => rfl
      | ok _ =>
        simp only [← ih middle, h.contribution]
        obtain ⟨parts, after⟩ := ledger.gatherChildren time rest middle
        cases parts <;> rfl

theorem gather (ledger : Ledger) (meter : μ) (entity time : Nat) :
    (ledger.gather meter entity time).map id f = ledger.gather (f meter) entity time := by
  rw [Ledger.gather, Ledger.gather, ← h.readGain]
  obtain ⟨gain, middle⟩ := Meter.readGain meter entity time
  cases gain with
  | none => rfl
  | some gain =>
    simp only [Prod.map_apply, id_eq]
    cases ledger.store.checkWidth entity gain with
    | error fault => rfl
    | ok _ =>
      simp only [← h.gatherChildren, h.contribution]
      obtain ⟨parts, after⟩ :=
        ledger.gatherChildren time (ledger.isolation.childrenOf entity) middle
      cases parts <;> rfl

theorem tickEntity (time : Nat) (round : Round μ) (entity : Nat) :
    (round.tickEntity time entity).mapMeter f = (round.mapMeter f).tickEntity time entity := by
  have read : (round.mapMeter f).ledger.gather (round.mapMeter f).meter entity time =
      (round.ledger.gather round.meter entity time).map id f :=
    (h.gather round.ledger round.meter entity time).symm
  unfold Round.tickEntity
  rw [read]
  obtain ⟨gathered, after⟩ := round.ledger.gather round.meter entity time
  cases gathered with
  | unavailable => rfl
  | failed phase fault => rfl
  | complete parts => exact Round.mapMeter_commit f { round with meter := after } entity parts

theorem tick (ledger : Ledger) (meter : μ) (time : Nat) :
    (ledger.tick meter time).mapMeter f = ledger.tick (f meter) time :=
  (List.foldl_hom (Round.mapMeter f) fun round entity => (h.tickEntity time round entity).symm).symm

theorem copyAll (ledger : Ledger) (meter : μ) (time : Nat) :
    (ledger.copyAll meter time).mapMeter f = ledger.copyAll (f meter) time := by
  rw [Ledger.copyAll, Ledger.copyAll, ← h.readAll]
  obtain ⟨levels, after⟩ := Meter.readAll meter
  cases levels with
  | none => rfl
  | some levels =>
    -- All shares are fixed before the first commit, so only the commits have to be followed.
    exact (List.foldl_hom (Round.mapMeter f) fun round entity =>
      (round.mapMeter_commit f entity _).symm).symm

/-- An update with the image of a meter is the image of the update with the meter. -/
theorem update (ledger : Ledger) (path : Path) (meter : μ) (time : Nat) :
    (ledger.update path meter time).mapMeter f = ledger.update path (f meter) time := by
  cases path with
  | tick => exact h.tick ledger meter time
  | copyAll => exact h.copyAll ledger meter time

end Meter.IsHom

end UsageLedger
