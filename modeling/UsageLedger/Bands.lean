import UsageLedger.ProcState

/-!
Importance bands: the seven bounds that cut the system's importance codes into process states.
-/

namespace UsageLedger

inductive Band where
  | top
  | foregroundService
  | foreground
  | background
  | topSleeping
  | heavyWeight
  | nonexistent
deriving DecidableEq, Repr

namespace Band

/-- The bands from the most important to the least. -/
def all : List Band :=
  [top, foregroundService, foreground, background, topSleeping, heavyWeight, nonexistent]

/-- Each band with the next less important one. -/
def neighbours : List (Band × Band) := all.zip all.tail

def name : Band → String
  | top => "top"
  | foregroundService => "foreground_service"
  | foreground => "foreground"
  | background => "background"
  | topSleeping => "top_sleeping"
  | heavyWeight => "heavy_weight"
  | nonexistent => "nonexistent"

end Band

structure Bands where
  top : Int := 2
  foregroundService : Int := 4
  foreground : Int := 6
  background : Int := 11
  topSleeping : Int := 12
  heavyWeight : Int := 13
  nonexistent : Int := 20
deriving DecidableEq, Repr

namespace Bands

def bound (bands : Bands) : Band → Int
  | .top => bands.top
  | .foregroundService => bands.foregroundService
  | .foreground => bands.foreground
  | .background => bands.background
  | .topSleeping => bands.topSleeping
  | .heavyWeight => bands.heavyWeight
  | .nonexistent => bands.nonexistent

def setBound (bands : Bands) (band : Band) (value : Int) : Bands :=
  match band with
  | .top => { bands with top := value }
  | .foregroundService => { bands with foregroundService := value }
  | .foreground => { bands with foreground := value }
  | .background => { bands with background := value }
  | .topSleeping => { bands with topSleeping := value }
  | .heavyWeight => { bands with heavyWeight := value }
  | .nonexistent => { bands with nonexistent := value }

/-- The state of a process with the given importance code, or none if there is no such process.
Only the exact code of the first band is the top state; every other code belongs to the first
later band that reaches it, and to the cached state beyond the last. -/
def classify (bands : Bands) (code : Int) : Option ProcState :=
  if bands.nonexistent ≤ code then none
  else if code = bands.top then some .top
  else if code ≤ bands.foregroundService then some .foregroundService
  else if code ≤ bands.foreground then some .foreground
  else if code ≤ bands.background then some .background
  else if code ≤ bands.topSleeping then some .topSleeping
  else if code ≤ bands.heavyWeight then some .heavyWeight
  else some .cached

/-- The first two neighbouring bands whose bounds do not increase. -/
def firstUnordered (bands : Bands) : Option (Band × Band) :=
  Band.neighbours.find? fun pair => bands.bound pair.2 ≤ bands.bound pair.1

/-- The bounds increase strictly, so that no band is empty by mistake. -/
def Increasing (bands : Bands) : Prop :=
  Band.all.Pairwise fun lower upper => bands.bound lower < bands.bound upper

instance (bands : Bands) : Decidable bands.Increasing :=
  inferInstanceAs (Decidable (List.Pairwise _ _))

theorem firstUnordered_eq_none_iff (bands : Bands) :
    bands.firstUnordered = none ↔ bands.Increasing := by
  rw [firstUnordered, show Band.neighbours = [(.top, .foregroundService),
    (.foregroundService, .foreground), (.foreground, .background), (.background, .topSleeping),
    (.topSleeping, .heavyWeight), (.heavyWeight, .nonexistent)] from rfl]
  simp only [Increasing, Band.all, bound, List.find?_eq_none, List.mem_cons, List.not_mem_nil,
    or_false, forall_eq_or_imp, forall_eq, List.pairwise_cons, List.Pairwise.nil]
  constructor <;> intro h <;> grind

end Bands

end UsageLedger
