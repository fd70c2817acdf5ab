import Mathlib.Algebra.BigOperators.Group.Finset.Piecewise
import Mathlib.Algebra.Order.BigOperators.Group.Finset
import Mathlib.Algebra.Ring.Int.Defs
import UsageLedger.Proofs.Holds
import UsageLedger.Proofs.Runs

/-!
Balanced holds. A release goes to the timer of the entity that answers for the caller by then, which
need not be the timer the hold was opened on. No hold is lost or leaked exactly if no timer is asked
to close more holds than were opened on it, and this is so if holders are neither isolated nor set
free.
-/

namespace UsageLedger

inductive HoldOutcome where
  | opened
  | closed
  /-- There was no hold to close. -/
  | refused
deriving DecidableEq, Repr

/-- Who asked to open or close a hold, on whose timer, and what came of it. -/
structure HoldRequest where
  caller : Nat
  owner : Nat
  outcome : HoldOutcome
deriving DecidableEq, Repr

namespace HoldRequest

/-- How many more holds there should be after the request. -/
def asked (request : HoldRequest) : Int :=
  match request.outcome with
  | .opened => 1
  | .closed => -1
  | .refused => -1

/-- How many more holds there are after the request. -/
def done (request : HoldRequest) : Int :=
  match request.outcome with
  | .opened => 1
  | .closed => -1
  | .refused => 0

/-- What the request asks of the given timer. -/
def askedOf (own : Nat) (request : HoldRequest) : Int :=
  if request.owner = own then request.asked else 0

/-- What requests of the key change together. -/
def net (change : HoldRequest → Int) (key : HoldRequest → Nat) (k : Nat)
    (requests : List HoldRequest) : Int :=
  (requests.map fun request => if key request = k then change request else 0).sum

section Net

variable {change : HoldRequest → Int} {key : HoldRequest → Nat} {k : Nat}

@[simp] theorem net_nil : net change key k [] = 0 := rfl

@[simp] theorem net_append (requests later : List HoldRequest) :
    net change key k (requests ++ later) =
      net change key k requests + net change key k later := by
  simp [net]

@[simp] theorem net_singleton (request : HoldRequest) :
    net change key k [request] = if key request = k then change request else 0 := by
  simp [net]

theorem exists_of_net_ne_zero {requests : List HoldRequest}
    (changed : net change key k requests ≠ 0) : ∃ request ∈ requests, key request = k := by
  by_contra absent
  push Not at absent
  apply changed
  apply List.sum_eq_zero
  intro amount mem
  obtain ⟨request, known, rfl⟩ := List.mem_map.mp mem
  exact if_neg (absent request known)

/-- The changes of all keys are the changes of all requests. -/
theorem sum_net (change : HoldRequest → Int) {keys : Finset Nat} {requests : List HoldRequest}
    (covers : ∀ request ∈ requests, key request ∈ keys) :
    ∑ k ∈ keys, net change key k requests = (requests.map change).sum := by
  induction requests with
  | nil => simp
  | cons first requests ih =>
    obtain ⟨own, covers⟩ := List.forall_mem_cons.mp covers
    have rest := ih covers
    unfold net at rest ⊢
    simp only [List.map_cons, List.sum_cons, Finset.sum_add_distrib, Finset.sum_ite_eq, own,
      if_true, rest]

theorem key_mem_keys (key : HoldRequest → Nat) (requests : List HoldRequest) :
    ∀ request ∈ requests, key request ∈ (requests.map key).toFinset :=
  fun _ mem => List.mem_toFinset.mpr (List.mem_map_of_mem mem)

end Net

/-- No key was ever asked to close more holds than it had been asked to open. -/
def Backed (key : HoldRequest → Nat) (requests : List HoldRequest) : Prop :=
  ∀ before, before <+: requests → ∀ k, 0 ≤ net asked key k before

/-- Every caller has closed as often as it has opened. -/
def Balanced (requests : List HoldRequest) : Prop := ∀ entity, net asked caller entity requests = 0

/-- Whoever closed a hold was told that there was one. -/
def Granted (requests : List HoldRequest) : Prop :=
  ∀ request ∈ requests, request.outcome ≠ .refused

instance (key : HoldRequest → Nat) (requests : List HoldRequest) :
    Decidable (Backed key requests) :=
  decidable_of_iff
    (∀ before ∈ requests.inits, ∀ request ∈ before, 0 ≤ net asked key (key request) before) <| by
    refine ⟨fun backed before le k => ?_, fun backed before mem request _ => ?_⟩
    · by_contra negative
      obtain ⟨request, mem, rfl⟩ := exists_of_net_ne_zero (Int.lt_of_not_ge negative).ne
      exact negative (backed before ((List.mem_inits before requests).mpr le) request mem)
    · exact backed before ((List.mem_inits before requests).mp mem) _

instance (requests : List HoldRequest) : Decidable (Balanced requests) :=
  decidable_of_iff (∀ request ∈ requests, net asked caller request.caller requests = 0) <| by
    refine ⟨fun balanced entity => ?_, fun balanced request _ => balanced request.caller⟩
    by_contra changed
    obtain ⟨request, mem, rfl⟩ := exists_of_net_ne_zero changed
    exact changed (balanced request mem)

instance (requests : List HoldRequest) : Decidable (Granted requests) :=
  inferInstanceAs (Decidable (∀ request ∈ requests, _))

theorem backed_concat {key : HoldRequest → Nat} {requests : List HoldRequest}
    {last : Option HoldRequest} :
    Backed key (requests ++ last.toList) ↔
      Backed key requests ∧ ∀ k, 0 ≤ net asked key k (requests ++ last.toList) := by
  constructor
  · intro backed
    exact ⟨fun before le => backed before (le.trans (List.prefix_append _ _)),
      backed _ List.prefix_rfl⟩
  · rintro ⟨backed, final⟩ before le
    cases last with
    | none => exact backed before (List.append_nil requests ▸ le)
    | some last =>
      rcases List.prefix_concat_iff.mp le with rfl | le
      · exact final
      · exact backed before le

theorem granted_concat {requests : List HoldRequest} {last : HoldRequest} :
    Granted (requests ++ [last]) ↔ Granted requests ∧ last.outcome ≠ .refused := by
  unfold Granted
  rw [List.forall_mem_append, List.forall_mem_singleton]

theorem done_eq (request : HoldRequest) :
    request.done = request.asked + if request.outcome = .refused then 1 else 0 := by
  unfold done asked
  cases request.outcome <;> rfl

theorem sum_done (requests : List HoldRequest) :
    (requests.map done).sum =
      (requests.map asked).sum + requests.countP fun request => request.outcome = .refused := by
  induction requests with
  | nil => rfl
  | cons first requests ih =>
    rw [List.map_cons, List.sum_cons, List.map_cons, List.sum_cons, List.countP_cons, ih, done_eq]
    simp only [decide_eq_true_eq]
    split <;> push_cast <;> omega

/-- If callers close as often as they open, then each refused close leaves one hold open. -/
theorem sum_net_done {requests : List HoldRequest} (balanced : Balanced requests) :
    ∑ entity ∈ (requests.map owner).toFinset, net done owner entity requests =
      requests.countP fun request => request.outcome = .refused := by
  have even : (requests.map asked).sum = 0 := by
    rw [← sum_net asked (key_mem_keys caller requests)]
    exact Finset.sum_eq_zero fun entity _ => balanced entity
  rw [sum_net done (key_mem_keys owner requests), sum_done, even, Int.zero_add]

theorem net_done_of_granted {requests : List HoldRequest} (granted : Granted requests)
    (key : HoldRequest → Nat) (k : Nat) : net done key k requests = net asked key k requests := by
  unfold net
  congr 1
  apply List.map_congr_left
  intro request mem
  rw [done_eq, if_neg (granted request mem), Int.add_zero]

end HoldRequest

namespace Ledger

/-- The request that a notice makes, if it makes one. -/
def holdRequest? (ledger : Ledger) : Notice → Option HoldRequest
  | .acquire caller _ => some ⟨caller, ledger.isolation.ownerOf caller, .opened⟩
  | .release caller time =>
    let released := ledger.releaseWakelock? caller time
    some ⟨caller, ledger.isolation.ownerOf caller, if released.isSome then .closed else .refused⟩
  | _ => none

theorem not_isHeld_of_refused {ledger : Ledger} {notice : Notice} {request : HoldRequest}
    (asks : ledger.holdRequest? notice = some request) (refused : request.outcome = .refused) :
    ¬ (ledger.timerOf request.owner).IsHeld := by
  cases notice with
  | acquire caller time =>
    cases asks
    contradiction
  | release caller time =>
    cases asks
    simp only [← ledger.isSome_releaseWakelock? caller time]
    intro released
    simp [released] at refused
  | _ => contradiction

/-- A request does not change who answers for whom, and is directed to who answers then. -/
theorem isolation_of_request {ledger : Ledger} {notice : Notice} {request : HoldRequest}
    (asks : ledger.holdRequest? notice = some request) :
    request.owner = ledger.isolation.ownerOf request.caller ∧
      (ledger.notice notice).isolation = ledger.isolation := by
  cases notice with
  | acquire caller time =>
    cases asks
    exact ⟨rfl, rfl⟩
  | release caller time =>
    cases asks
    refine ⟨rfl, ?_⟩
    rw [notice, releaseWakelock?]
    cases ledger.timers.release? (ledger.isolation.ownerOf caller) time <;> rfl
  | _ => contradiction

theorem nesting_notice (ledger : Ledger) (notice : Notice) (entity : Nat) :
    (((ledger.notice notice).timerOf entity).nesting : Int) =
      (ledger.timerOf entity).nesting +
        HoldRequest.net HoldRequest.done HoldRequest.owner entity
          (ledger.holdRequest? notice).toList := by
  rw [timerOf_notice]
  cases notice with
  | timeBase onBattery screenOff time =>
    cases onBattery <;> simp [holdRequest?]
  | acquire caller time =>
    by_cases own : ledger.isolation.ownerOf caller = entity
    · simp [own, HoldTimer.acquire, holdRequest?, HoldRequest.done]
    · simp [own, holdRequest?]
  | release caller time =>
    have held := ledger.isSome_releaseWakelock? caller time
    by_cases own : ledger.isolation.ownerOf caller = entity
    · subst own
      simp only [if_true, HoldTimer.nesting_release, holdRequest?, Option.toList_some,
        HoldRequest.net_singleton, HoldRequest.done]
      unfold HoldTimer.IsHeld at held
      by_cases released : (ledger.releaseWakelock? caller time).isSome
      · have taken := held.mp released
        rw [if_pos released]
        dsimp only
        omega
      · have free := mt held.mpr released
        rw [if_neg released]
        dsimp only
        omega
    · simp [own, holdRequest?]
  | _ => simp [holdRequest?]

end Ledger

namespace Session

open HoldRequest

variable {μ : Type}

def holdRequest? (session : Session μ) : Call μ → Option HoldRequest
  | .notice notice => session.ledger.holdRequest? notice
  | _ => none

theorem exists_notice {session : Session μ} {call : Call μ} {request : HoldRequest}
    (asks : session.holdRequest? call = some request) :
    ∃ notice, call = .notice notice ∧ session.ledger.holdRequest? notice = some request := by
  cases call with
  | notice notice => exact ⟨notice, rfl, asks⟩
  | _ => contradiction

variable [Meter μ]

/-- All requests made in a run. -/
def holdRequests : Session μ → List (Call μ) → List HoldRequest
  | _, [] => []
  | session, call :: calls =>
    (session.holdRequest? call).toList ++ holdRequests (session.step call) calls

theorem holdRequests_concat (session : Session μ) (calls : List (Call μ)) (call : Call μ) :
    session.holdRequests (calls ++ [call]) =
      session.holdRequests calls ++ ((session.run calls).holdRequest? call).toList := by
  induction calls generalizing session with
  | nil => exact List.append_nil _
  | cons first calls ih =>
    have rest := ih (session.step first)
    rw [List.cons_append, holdRequests, rest, holdRequests, List.append_assoc]
    rfl

theorem nesting_step (session : Session μ) (call : Call μ) (entity : Nat) :
    (((session.step call).ledger.timerOf entity).nesting : Int) =
      (session.ledger.timerOf entity).nesting +
        net done owner entity (session.holdRequest? call).toList := by
  cases call with
  | notice notice => exact session.ledger.nesting_notice notice entity
  | meter meter => exact (Int.add_zero _).symm
  | update path time =>
    have kept := session.ledger.timerOf_update path session.meter time entity
    have same : (session.step (.update path time)).ledger.timerOf entity =
        session.ledger.timerOf entity := kept
    rw [same]
    exact (Int.add_zero _).symm

theorem nesting_run {config : Config} {start : Session μ}
    (new : Ledger.new config = .ok start.ledger) (calls : List (Call μ)) (entity : Nat) :
    (((start.run calls).ledger.timerOf entity).nesting : Int) =
      net done owner entity (start.holdRequests calls) := by
  induction calls using List.reverseRecOn with
  | nil =>
    rw [run, List.foldl_nil, Ledger.eq_of_new new]
    rfl
  | append_singleton calls last ih =>
    rw [run_concat, nesting_step, holdRequests_concat, net_append, ih]

/-- All closes find a hold exactly if no timer is asked for more of them than for opens. -/
theorem granted_iff_backed {config : Config} {start : Session μ}
    (new : Ledger.new config = .ok start.ledger) (calls : List (Call μ)) :
    Granted (start.holdRequests calls) ↔ Backed owner (start.holdRequests calls) := by
  induction calls using List.reverseRecOn with
  | nil =>
    refine ⟨fun _ before le k => ?_, fun _ => List.forall_mem_nil _⟩
    rw [List.prefix_nil.mp le]
    exact Int.le_refl 0
  | append_singleton calls last ih =>
    have opened := nesting_run new calls
    have opened' := nesting_run new (calls ++ [last])
    rw [holdRequests_concat] at opened' ⊢
    cases asks : (start.run calls).holdRequest? last with
    | none => simpa using ih
    | some request =>
      rw [asks] at opened'
      rw [backed_concat, ← ih]
      simp only [Option.toList_some] at opened' ⊢
      rw [granted_concat]
      -- While all is granted, what was asked of a timer is the number of its holds.
      constructor
      · rintro ⟨granted, given⟩
        refine ⟨granted, fun k => ?_⟩
        rw [← net_done_of_granted (granted_concat.mpr ⟨granted, given⟩), ← opened']
        exact Int.natCast_nonneg _
      · rintro ⟨granted, final⟩
        refine ⟨granted, fun refused => ?_⟩
        obtain ⟨notice, -, asks⟩ := exists_notice asks
        have free := Ledger.not_isHeld_of_refused asks refused
        have enough := final request.owner
        rw [net_append, net_singleton, if_pos rfl, ← net_done_of_granted granted, ← opened, asked,
          refused] at enough
        unfold HoldTimer.IsHeld at free
        simp only at enough
        omega

/-- In a state in which every caller has closed as often as it has opened, a timer is held exactly
if some close was refused. -/
theorem not_isHeld_iff_granted {config : Config} {start : Session μ}
    (new : Ledger.new config = .ok start.ledger) {calls : List (Call μ)}
    (balanced : Balanced (start.holdRequests calls)) :
    (∀ entity, ¬ ((start.run calls).ledger.timerOf entity).IsHeld) ↔
      Granted (start.holdRequests calls) := by
  have opened := nesting_run new calls
  generalize start.holdRequests calls = requests at *
  have leaked := sum_net_done balanced
  have granted_iff : Granted requests ↔
      requests.countP (fun request => decide (request.outcome = .refused)) = 0 := by
    simp [Granted, List.countP_eq_zero]
  rw [granted_iff]
  constructor
  · intro free
    have none : ∑ entity ∈ (requests.map owner).toFinset, net done owner entity requests = 0 := by
      apply Finset.sum_eq_zero
      intro entity _
      rw [← opened, Nat.eq_zero_of_not_pos (free entity)]
      rfl
    omega
  · intro granted entity held
    have nesting : 0 < net done owner entity requests := opened entity ▸ Int.natCast_pos.mpr held
    obtain ⟨request, mem, rfl⟩ := exists_of_net_ne_zero nesting.ne'
    have le := Finset.single_le_sum (f := fun entity => net done owner entity requests)
      (fun entity _ => opened entity ▸ Int.natCast_nonneg _)
      (key_mem_keys owner requests request mem)
    omega

/-- An entity that holds, by its own count, is directed to the same timer after the next call. -/
def HoldersStay (start : Session μ) (calls : List (Call μ)) : Prop :=
  ∀ n < calls.length, ∀ entity, 0 < net asked caller entity (start.holdRequests (calls.take n)) →
    (start.run (calls.take (n + 1))).ledger.isolation.ownerOf entity =
      (start.run (calls.take n)).ledger.isolation.ownerOf entity

instance (start : Session μ) (calls : List (Call μ)) : Decidable (HoldersStay start calls) :=
  decidable_of_iff
    (∀ n < calls.length, ∀ request ∈ start.holdRequests (calls.take n),
      0 < net asked caller request.caller (start.holdRequests (calls.take n)) →
        (start.run (calls.take (n + 1))).ledger.isolation.ownerOf request.caller =
          (start.run (calls.take n)).ledger.isolation.ownerOf request.caller) <| by
    refine ⟨fun stay n lt entity holds => ?_, fun stay n lt request _ => stay n lt request.caller⟩
    obtain ⟨request, mem, rfl⟩ := exists_of_net_ne_zero holds.ne'
    exact stay n lt request mem holds

theorem HoldersStay.of_concat {start : Session μ} {calls : List (Call μ)} {last : Call μ}
    (stay : HoldersStay start (calls ++ [last])) :
    HoldersStay start calls ∧
      ∀ entity, 0 < net asked caller entity (start.holdRequests calls) →
        ((start.run calls).step last).ledger.isolation.ownerOf entity =
          (start.run calls).ledger.isolation.ownerOf entity := by
  have length : (calls ++ [last]).length = calls.length + 1 := by simp
  constructor
  · intro n lt
    have former := stay n (by omega)
    rwa [List.take_append_of_le_length (by omega), List.take_append_of_le_length (by omega)]
      at former
  · have final := stay calls.length (by omega)
    rwa [List.take_left, ← length, List.take_length, run_concat] at final

/-- While holders stay, all that a caller holds is held on the timer that it is directed to now. -/
theorem net_askedOf {start : Session μ} {calls : List (Call μ)}
    (backed : Backed caller (start.holdRequests calls)) (stay : HoldersStay start calls)
    (own entity : Nat) :
    net (askedOf own) caller entity (start.holdRequests calls) =
      if (start.run calls).ledger.isolation.ownerOf entity = own then
        net asked caller entity (start.holdRequests calls)
      else 0 := by
  induction calls using List.reverseRecOn with
  | nil => simp [holdRequests]
  | append_singleton calls last ih =>
    rw [holdRequests_concat] at backed ⊢
    have former := (backed_concat.mp backed).1
    obtain ⟨stay, moves⟩ := stay.of_concat
    have before := ih former stay
    rw [run_concat]
    cases asks : (start.run calls).holdRequest? last with
    | none =>
      -- Whoever is directed elsewhere by the call holds nothing, so nothing is left behind.
      simp only [Option.toList_none, List.append_nil]
      rw [before]
      rcases Int.lt_or_eq_of_le (former _ List.prefix_rfl entity) with holds | free
      · rw [moves entity holds]
      · simp [← free]
    | some request =>
      obtain ⟨notice, rfl, asks⟩ := exists_notice asks
      obtain ⟨directed, kept⟩ := Ledger.isolation_of_request asks
      simp only [Option.toList_some, net_append, net_singleton, before, step, kept, askedOf]
      by_cases same : request.caller = entity
      · subst same
        rw [directed]
        split <;> simp
      · simp [same]

/-- If no caller closes more often than it opened, and holders stay, then no timer is asked for more
closes than opens. -/
theorem net_owner_nonneg {start : Session μ} {calls : List (Call μ)}
    (backed : Backed caller (start.holdRequests calls)) (stay : HoldersStay start calls)
    (own : Nat) : 0 ≤ net asked owner own (start.holdRequests calls) := by
  have shares := net_askedOf backed stay own
  have split := sum_net (askedOf own) (key_mem_keys caller (start.holdRequests calls))
  have sum : 0 ≤ ∑ entity ∈ ((start.holdRequests calls).map caller).toFinset,
      net (askedOf own) caller entity (start.holdRequests calls) := by
    apply Finset.sum_nonneg
    intro entity _
    rw [shares]
    split
    · exact backed _ List.prefix_rfl entity
    · exact Int.le_refl 0
  rw [split] at sum
  exact sum

theorem backed_owner_of_caller {start : Session μ} {calls : List (Call μ)}
    (backed : Backed caller (start.holdRequests calls)) (stay : HoldersStay start calls) :
    Backed owner (start.holdRequests calls) := by
  induction calls using List.reverseRecOn with
  | nil => exact fun before le k => (List.prefix_nil.mp le) ▸ Int.le_refl 0
  | append_singleton calls last ih =>
    have final := net_owner_nonneg backed stay
    rw [holdRequests_concat] at backed final ⊢
    exact backed_concat.mpr ⟨ih (backed_concat.mp backed).1 stay.of_concat.1, final⟩

/-- Every close finds a hold exactly if no timer is asked for more closes than opens. In a state in
which callers have closed as often as they opened, no timer is held exactly if every close found a
hold. Both are so if no caller closes more often than it opened, and nobody who still holds is
isolated, moved or set free. -/
theorem balanced_holds {config : Config} {start : Session μ}
    (new : Ledger.new config = .ok start.ledger) (calls : List (Call μ)) :
    let requests := start.holdRequests calls
    let noneHeld := ∀ entity, ¬ ((start.run calls).ledger.timerOf entity).IsHeld
    (Granted requests ↔ Backed owner requests) ∧
      (Balanced requests → (noneHeld ↔ Granted requests)) ∧
      (Backed caller requests → HoldersStay start calls →
        Granted requests ∧ (Balanced requests → noneHeld)) := by
  intro requests noneHeld
  have granted_iff := granted_iff_backed new calls
  refine ⟨granted_iff, not_isHeld_iff_granted new, fun backed stay => ?_⟩
  have granted := granted_iff.mpr (backed_owner_of_caller backed stay)
  exact ⟨granted, fun balanced => (not_isHeld_iff_granted new balanced).mpr granted⟩

/-- A child holds on its parent's timer and is set free once it holds no more. -/
def settledHolds : List (Call ScriptedMeter) :=
  [.notice (.timeBase true false 0), .notice (.isolate 1 2), .notice (.acquire 2 10),
    .notice (.acquire 1 12), .notice (.release 2 20), .notice (.unisolate 2),
    .notice (.acquire 2 25), .notice (.release 1 30), .update .tick 35, .notice (.release 2 40)]

theorem balanced_holds_settledHolds :
    Backed caller (blank.holdRequests settledHolds) ∧ HoldersStay blank settledHolds ∧
      Balanced (blank.holdRequests settledHolds) ∧ Granted (blank.holdRequests settledHolds) ∧
      ∀ entity, ¬ ((blank.run settledHolds).ledger.timerOf entity).IsHeld := by
  have new : Ledger.new { vectorLen := 2 } = .ok blank.ledger := rfl
  have backed : Backed caller (blank.holdRequests settledHolds) := by decide +kernel
  have stay : HoldersStay blank settledHolds := by decide +kernel
  have balanced : Balanced (blank.holdRequests settledHolds) := by decide +kernel
  obtain ⟨granted, noneHeld⟩ := (balanced_holds new settledHolds).2.2 backed stay
  exact ⟨backed, stay, balanced, granted, noneHeld balanced⟩

/-- An entity that is isolated while it holds cannot close its hold. -/
def strayedHold : List (Call ScriptedMeter) :=
  [.notice (.acquire 5 10), .notice (.isolate 1 5), .notice (.release 5 20)]

theorem hold_leaked_by_isolation :
    Backed caller (blank.holdRequests strayedHold) ∧
      Balanced (blank.holdRequests strayedHold) ∧
      ¬ Granted (blank.holdRequests strayedHold) ∧
      ((blank.run strayedHold).ledger.timerOf 5).IsHeld := by
  decide +kernel

end Session

end UsageLedger
