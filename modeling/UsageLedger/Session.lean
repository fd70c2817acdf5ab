import UsageLedger.Recorder
import UsageLedger.Update

/-!
Sessions: a ledger in use, as a run of calls on it. Between two calls the meter may come to show
anything, and all readings that updates take are kept.
-/

namespace UsageLedger

/-- What a ledger can be told between two updates. -/
inductive Notice where
  | classify (entity : Nat) (state : ProcState)
  | importance (entity : Nat) (code : Int)
  | timeBase (onBattery screenOff : Bool) (time : Nat)
  | isolate (parent child : Nat)
  | unisolate (child : Nat)
  | acquire (entity time : Nat)
  | release (entity time : Nat)
deriving DecidableEq, Repr

namespace Ledger

/-- The ledger after a notice. A refused isolation and a release without a hold change nothing. -/
def notice (ledger : Ledger) : Notice → Ledger
  | .classify entity state => ledger.classify entity state
  | .importance entity code => ledger.setImportance entity code
  | .timeBase onBattery screenOff time => ledger.setTimeBase onBattery screenOff time
  | .isolate parent child =>
    match ledger.isolate parent child with
    | .ok ledger => ledger
    | .error _ => ledger
  | .unisolate child => (ledger.unisolate child).1
  | .acquire entity time => ledger.acquireWakelock entity time
  | .release entity time => (ledger.releaseWakelock? entity time).getD ledger

def update {μ : Type} [Meter μ] (ledger : Ledger) (path : Path) (meter : μ) (time : Nat) :
    Round μ :=
  match path with
  | .tick => ledger.tick meter time
  | .copyAll => ledger.copyAll meter time

end Ledger

inductive Call (μ : Type) where
  | notice (notice : Notice)
  /-- From now on updates read this meter: the former one in another state, or another one. -/
  | meter (meter : μ)
  | update (path : Path) (time : Nat)

/-- A ledger in use, the meter it is brought up to date with, and all readings taken so far. -/
structure Session (μ : Type) where
  ledger : Ledger
  meter : μ
  readings : List Reading := []

namespace Session

variable {μ : Type} [Meter μ]

/-- Brings the ledger up to date. The readings taken are those that a recorder notes down. -/
def update (session : Session μ) (path : Path) (time : Nat) : Session μ :=
  let round := session.ledger.update path session.meter time
  let recorded := session.ledger.update path (Recorder.mk session.meter session.readings) time
  { ledger := round.ledger, meter := round.meter, readings := recorded.meter.readings }

def step (session : Session μ) : Call μ → Session μ
  | .notice notice => { session with ledger := session.ledger.notice notice }
  | .meter meter => { session with meter }
  | .update path time => session.update path time

def run (session : Session μ) (calls : List (Call μ)) : Session μ := calls.foldl step session

/-- The baselines that the next update on the path counts from. -/
def baselines (session : Session μ) : Path → Baselines
  | .tick => Gauge.baselines session.meter
  | .copyAll => session.ledger.bulkBaselines

/-- Each call of the run finds the session in a state in which it is allowed. -/
def Admits (allowed : Session μ → Call μ → Prop) : Session μ → List (Call μ) → Prop
  | _, [] => True
  | session, call :: calls => allowed session call ∧ Admits allowed (session.step call) calls

instance decidableAdmits {allowed : Session μ → Call μ → Prop}
    [∀ session call, Decidable (allowed session call)] :
    (session : Session μ) → (calls : List (Call μ)) → Decidable (Admits allowed session calls)
  | _, [] => .isTrue trivial
  | session, call :: calls =>
    have := @decidableAdmits allowed _ (session.step call) calls
    inferInstanceAs (Decidable (allowed session call ∧ _))

end Session

end UsageLedger
