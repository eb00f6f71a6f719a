import Balancer.Realtime.Staleness

/-!
# The test of the invalidator, and what happens behind it

`invalidator_thread` (`LoadBalancerState.cpp`) compares the age of the last report with a bound and
then sets the node down. The age is a difference of a 64-bit clock and a time that was kept in an
`int`, and the comparison and the assignment are two steps.

* `visitRight_iff`: for which clock values a visit sets the node down exactly when the report is too
  old.
* `staleAtWrite_of_run`: while no recent time is written between the comparison and the assignment,
  every node that is set down is without a recent report.
-/

namespace Balancer

open Cpp Plusaes LbRtThread

/-! ## One visit, for every value of the clock -/

def TIME_MAX : Int := 9223372036854775807

/-- The values of `time_t`. -/
def IsTime (x : Int) : Prop := -9223372036854775808 ≤ x ∧ x ≤ TIME_MAX

instance (x : Int) : Decidable (IsTime x) := inferInstanceAs (Decidable (_ ∧ _))

/-- `time(NULL) - node.get_last_checked()`. -/
def ageOf (clock : Int) (node : NodeState FloatBits) : Result Int :=
  if IsTime (clock - node.lastChecked) then pure (clock - node.lastChecked) else throw .overflow

/-- The body of the loop of `invalidator_thread`, at a node. -/
def checkedVisit (clock timeUntilNodeDown : Int) (node : NodeState FloatBits) :
    Result (NodeState FloatBits) :=
  if node.status = .up then do
    let age ← ageOf clock node
    if timeUntilNodeDown < age then pure (node.setStatus .down) else pure node
  else pure node

/-- While the subtraction does not overflow, the visit is that of the interleaved threads. -/
theorem checkedVisit_eq {clock : Int} {node : NodeState FloatBits}
    (h : IsTime (clock - node.lastChecked)) (timeUntilNodeDown : Int) :
    checkedVisit clock timeUntilNodeDown node =
      .ok (System.visitNode clock timeUntilNodeDown node) := by
  rw [checkedVisit, System.visitNode, ageOf, if_pos h, pure_eq_ok, ok_bind]
  split
  · split
    · rfl
    · rfl
  · rfl

theorem not_endsNormally_checkedVisit {clock : Int} {node : NodeState FloatBits}
    (hUp : node.status = .up) (h : ¬ IsTime (clock - node.lastChecked)) (timeUntilNodeDown : Int) :
    ¬ EndsNormally (checkedVisit clock timeUntilNodeDown node) := by
  rw [checkedVisit, if_pos hUp, ageOf, if_neg h]
  exact not_endsNormally_error _

/-- The visit at `now` of a node whose last report was applied at `t` leaves it down exactly when
that report is older than the bound. -/
def VisitRight (t now timeUntilNodeDown : Int) : Prop :=
  ∀ (hr : HealthReport) (node : NodeState FloatBits),
    ∃ visited, checkedVisit now timeUntilNodeDown (reported node (t, hr)) = .ok visited ∧
      (visited.status = .down ↔ timeUntilNodeDown < now - t)

/-- A time that does not fit an `int` is kept as one that is at least `2 ^ 32` seconds older. -/
theorem toInt_add_le {t : Int} (h : INT_MAX < t) : toInt t + 4294967296 ≤ t := by
  simp only [INT_MAX] at h
  rw [toInt, Int.bmod_def]
  split
  · omega
  · omega

/-- The test of a visit compares with the time as it is kept. -/
theorem visitNode_reported {now timeUntilNodeDown t : Int} {hr : HealthReport}
    {node : NodeState FloatBits} :
    (System.visitNode now timeUntilNodeDown (reported node (t, hr))).status = .down ↔
      timeUntilNodeDown < now - toInt t := by
  rw [System.visitNode, if_pos (reported_status node (t, hr))]
  have hTime : (reported node (t, hr)).lastChecked = toInt t := rfl
  rw [hTime]
  split
  · rename_i hStale
    exact iff_of_true rfl hStale
  · rename_i hFresh
    refine iff_of_false ?_ hFresh
    rw [reported_status]
    simp

/-- **Freshness.** A visit judges a report by its age exactly when the time of the report fits an
`int`, or when the report is too old anyway and its age can be computed. -/
theorem visitRight_iff {t now timeUntilNodeDown : Int} (hStart : 1 ≤ t) (hLe : t ≤ now)
    (hMax : now ≤ TIME_MAX) (hD : 1 ≤ timeUntilNodeDown) (hInt : timeUntilNodeDown ≤ INT_MAX) :
    VisitRight t now timeUntilNodeDown ↔
      t ≤ INT_MAX ∨ timeUntilNodeDown < now - t ∧ now - toInt t ≤ TIME_MAX := by
  by_cases hFits : t ≤ INT_MAX
  · have hTime : toInt t = t := toInt_of_isInt (isInt_of_nonneg (by omega) hFits)
    have hAge : IsTime (now - toInt t) := by
      rw [hTime]
      exact ⟨by omega, by omega⟩
    refine iff_of_true ?_ (Or.inl hFits)
    intro hr node
    refine ⟨_, checkedVisit_eq hAge _, ?_⟩
    rw [visitNode_reported, hTime]
  · have hOld := toInt_add_le (show INT_MAX < t by omega)
    have hStale : timeUntilNodeDown < now - toInt t := by
      simp only [INT_MAX] at hInt
      omega
    constructor
    · intro hRight
      obtain ⟨visited, hVisit, hIff⟩ := hRight ⟨0, 0⟩ default
      have hAge : IsTime (now - toInt t) := by
        by_contra hNot
        exact not_endsNormally_checkedVisit rfl hNot _ ⟨visited, hVisit⟩
      rw [checkedVisit_eq hAge] at hVisit
      obtain rfl := Except.ok.inj hVisit
      exact Or.inr ⟨hIff.mp (visitNode_reported.mpr hStale), hAge.2⟩
    · rintro (hSmall | ⟨hTooOld, hComputed⟩)
      · exact absurd hSmall hFits
      · have hAge : IsTime (now - toInt t) := ⟨by omega, hComputed⟩
        intro hr node
        refine ⟨_, checkedVisit_eq hAge _, ?_⟩
        rw [visitNode_reported]
        exact iff_of_true hStale hTooOld

/-- Ten seconds after a report of 2023, with a bound of five. -/
theorem visitRight_iff_today :
    VisitRight 1700000000 1700000010 5 ↔
      (1700000000 : Int) ≤ INT_MAX ∨
        (5 : Int) < 1700000010 - 1700000000 ∧ 1700000010 - toInt 1700000000 ≤ TIME_MAX :=
  visitRight_iff (by omega) (by omega) (by decide) (by omega) (by decide)

/-- In 2038 a report sets its node down at the next visit. -/
theorem not_visitRight_2038 :
    ¬ ∀ t now timeUntilNodeDown : Int, 1 ≤ t → t ≤ now → now ≤ TIME_MAX →
      1 ≤ timeUntilNodeDown → timeUntilNodeDown ≤ INT_MAX →
        VisitRight t now timeUntilNodeDown := by
  intro h
  obtain ⟨visited, hVisit, hIff⟩ := h 2147483648 2147483648 5 (by omega) le_rfl (by decide)
    (by omega) (by decide) ⟨0, 0⟩ default
  rw [checkedVisit_eq (by decide)] at hVisit
  obtain rfl := Except.ok.inj hVisit
  have hLess := hIff.mp (visitNode_reported.mpr (by decide))
  omega

/-! ## Between the comparison and the assignment -/

/-- A step of a thread leaves the time of its node, or is the assignment of the time. -/
theorem RtStep.lastChecked {aes : Cipher} {encKey : Bytes} {clock : Int} {t t' : RtThread}
    {node node' : NodeState FloatBits} (hStep : RtStep aes encKey clock t node t' node') :
    node'.lastChecked = node.lastChecked ∨
      ∃ iv now, t.pc = .storeLastChecked iv now ∧ t'.pc = .storeUp iv ∧
        node'.lastChecked = toInt now := by
  cases hStep with
  | @storesLastChecked iv now hPc => exact Or.inr ⟨iv, now, hPc, rfl, rfl⟩
  | _ => exact Or.inl rfl

namespace System

/-- The start, at a time that fits an `int`. -/
structure TimedInit (config : LoadBalancerConfiguration) (s : System) : Prop where
  init : Init config s
  clock : IsInt s.clock

/-- A step under a clock that does not go back and stays below `2 ^ 31`. -/
structure TimedStep (aes : Cipher) (s s' : System) : Prop where
  step : Step aes s s'
  forward : s.clock ≤ s'.clock
  inRange : s'.clock ≤ INT_MAX

/-- When the next step of the invalidator sets a node down, the time of the node is too old. -/
def StaleAtWrite (s : System) : Prop :=
  ∀ (i : Nat) (node : NodeState FloatBits), s.invalidator = .invalidate i →
    s.state.nodes[i]? = some node →
      s.state.config.timeUntilNodeDown < s.clock - node.lastChecked

/-- The step does not write a recent time to the node that the invalidator is about to set down. -/
def NoFreshWrite (s s' : System) : Prop :=
  ∀ (i : Nat) (iv : Block) (now : Int), s.invalidator = .invalidate i →
    (s.threads i).pc = .storeLastChecked iv now → (s'.threads i).pc = .storeUp iv →
      s.state.config.timeUntilNodeDown < s.clock - toInt now

/-- **One step.** Only the assignment of a recent time can make the node of a pending assignment
fresh again; the clock makes it older. -/
theorem TimedStep.staleAtWrite {aes : Cipher} {s s' : System} (hStep : TimedStep aes s s')
    (hWrite : NoFreshWrite s s') (hInv : SystemInv s) (h : StaleAtWrite s) : StaleAtWrite s' := by
  obtain ⟨hStep, hForward, -⟩ := hStep
  cases hStep with
  | tick clock =>
    intro i node hPc hNode
    have hOld := h i node hPc hNode
    exact lt_of_lt_of_le hOld (Int.sub_le_sub_right hForward _)
  | @rtThread i node node' t' hNode hRt =>
    intro k other hPc hOther
    rcases getElem?_putNode hOther with ⟨rfl, rfl⟩ | ⟨_, hOther⟩
    · rcases hRt.lastChecked with hSame | ⟨iv, now, hBefore, hAfter, hTime⟩
      · rw [hSame]
        exact h k node hPc hNode
      · rw [hTime]
        apply hWrite k iv now hPc hBefore
        rw [putThread_self]
        exact hAfter
    · exact h k other hPc hOther
  | readsUp _ _ _ | readsDown _ _ _ | sleeps _ _ | findsFresh _ _ _ | invalidates _ _ =>
    intro i node hPc
    cases hPc
  | @findsStale i node _ hNode hStale =>
    intro k other hPc hOther
    obtain rfl : i = k := InvalidatorPc.invalidate.inj hPc
    obtain rfl : node = other := Option.some.inj (hNode.symm.trans hOther)
    exact hStale
  | healthCheck i ping =>
    rw [healthCheckAt_of_resource hInv.algorithm]
    exact h

/-- A step that does not write a recent time behind the comparison of the invalidator. -/
def CalmStep (aes : Cipher) (s s' : System) : Prop := TimedStep aes s s' ∧ NoFreshWrite s s'

theorem staleAtWrite_invariant (aes : Cipher) (config : LoadBalancerConfiguration) :
    Runs.Invariant (TimedInit config) (CalmStep aes) fun s => SystemInv s ∧ StaleAtWrite s where
  initial := by
    intro s hInit
    refine ⟨hInit.init.inv, ?_⟩
    intro i node hPc
    rw [hInit.init.invalidator] at hPc
    cases hPc
  preserved := by
    rintro s s' ⟨hInv, hStale⟩ ⟨hStep, hWrite⟩
    exact ⟨hStep.step.inv hInv, hStep.staleAtWrite hWrite hInv hStale⟩

/-- **The assignment of the invalidator.** In every run in which no recent time is written between
the comparison and the assignment, a node is set down only when its time is too old. -/
theorem staleAtWrite_of_run {aes : Cipher} {config : LoadBalancerConfiguration} {s : System}
    (h : Runs.Reachable (TimedInit config) (CalmStep aes) s) : StaleAtWrite s :=
  ((staleAtWrite_invariant aes config).of_reachable h).2

/-! A report between the comparison and the assignment. -/

section Run

variable {aes : Cipher} {s : System} {i : Nat} {t t' : RtThread} {node node' : NodeState FloatBits}

/-- A run of one thread, at a time that fits an `int`. -/
theorem timed_rtRun (hClock : s.clock ≤ INT_MAX) (hNode : s.state.nodes[i]? = some node)
    (hRun : RtRun aes s.state.config.encKey s.clock (s.threads i, node) (t', node')) :
    Relation.ReflTransGen (TimedStep aes) s ((s.putNode i node').putThread i t') := by
  have hLength := (List.getElem?_eq_some_iff.mp hNode).1
  exact lift_rtRun_of (fun _ _ _ _ hStep => ⟨step_of_rtStep hLength hStep, le_rfl, hClock⟩)
    hNode hRun

/-- Nothing that is written matters while the invalidator has found no node stale. -/
theorem noFreshWrite_of_not_invalidate {s' : System} (h : ∀ i, s.invalidator ≠ .invalidate i) :
    NoFreshWrite s s' := by
  intro i iv now hPc
  exact absurd hPc (h i)

/-- A run of one thread while the invalidator has found no node stale. -/
theorem calm_rtRun (hClock : s.clock ≤ INT_MAX) (hPc : ∀ i, s.invalidator ≠ .invalidate i)
    (hNode : s.state.nodes[i]? = some node)
    (hRun : RtRun aes s.state.config.encKey s.clock (s.threads i, node) (t', node')) :
    Relation.ReflTransGen (CalmStep aes) s ((s.putNode i node').putThread i t') := by
  have hLength := (List.getElem?_eq_some_iff.mp hNode).1
  refine lift_rtRun_of ?_ hNode hRun
  intro t₁ node₁ t₂ node₂ hStep
  exact ⟨⟨step_of_rtStep hLength hStep, le_rfl, hClock⟩, noFreshWrite_of_not_invalidate hPc⟩

end Run

/-- The configuration of the run, with a key of sixteen bytes. -/
def raceConfig : LoadBalancerConfiguration :=
  { testConfig "RESOURCE" with encKey := ascii "0123456789abcdef" }

/-- The initialization vector of the first node's reporter. -/
def raceIv : Block := ⟨List.replicate 16 (UInt8.ofNat 255), rfl⟩

def raceNode : NodeState FloatBits :=
  LoadBalancerState.initNode ⟨"Target 1", "127.0.0.1", 5001, 6001, 1⟩

def raceStart : System :=
  ⟨1700000000, ⟨raceConfig, raceConfig.nodes.map LoadBalancerState.initNode, .resource⟩,
    fun _ => RtThread.start, .visit 0⟩

/-- After one report of the first node. -/
def raceReported : System :=
  (raceStart.putNode 0 (reported raceNode (1700000000, ⟨1, 2⟩))).putThread 0
    ⟨.receive raceIv, 1, some 1, some (1, 1700000000)⟩

/-- Six seconds later, before the first node is set down. -/
def raceOverdue : System :=
  { raceReported with clock := 1700000006, invalidator := .invalidate 0 }

theorem raceInit : TimedInit raceConfig raceStart where
  init := ⟨rfl, rfl, fun _ => rfl, rfl⟩
  clock := by decide

/-- The first node reports, the clock goes on, and the invalidator finds the report too old. -/
theorem raceOverdue_run (aes : Cipher) :
    Relation.ReflTransGen (CalmStep aes) raceStart raceOverdue := by
  have hIv : NoZeroBefore15 raceIv := by
    unfold NoZeroBefore15
    decide
  have hVisit : ∀ i, raceStart.invalidator ≠ .invalidate i := by simp [raceStart]
  have hReported : Relation.ReflTransGen (CalmStep aes) raceStart raceReported :=
    calm_rtRun (by decide) hVisit (show raceStart.state.nodes[0]? = some raceNode from rfl)
      (firstReport_run hIv rfl ⟨1, 2⟩)
  have hLate : (1700000006 : Int) ≤ INT_MAX := by decide
  have hTick : CalmStep aes raceReported { raceReported with clock := 1700000006 } :=
    ⟨⟨.tick 1700000006, by decide, hLate⟩, noFreshWrite_of_not_invalidate hVisit⟩
  have hRead : CalmStep aes { raceReported with clock := 1700000006 }
      { raceReported with clock := 1700000006, invalidator := .compare 0 } :=
    ⟨⟨.readsUp rfl rfl rfl, le_rfl, hLate⟩, noFreshWrite_of_not_invalidate hVisit⟩
  have hStale : CalmStep aes { raceReported with clock := 1700000006, invalidator := .compare 0 }
      raceOverdue := by
    refine ⟨⟨.findsStale rfl rfl ?_, le_rfl, hLate⟩, noFreshWrite_of_not_invalidate (by simp)⟩
    decide
  exact ((hReported.tail hTick).tail hRead).tail hStale

theorem staleAtWrite_of_run_overdue : StaleAtWrite raceOverdue :=
  staleAtWrite_of_run ⟨raceStart, raceInit, raceOverdue_run Plusaes.aes⟩

/-- A second report, between the comparison and the assignment, does not stop the assignment. -/
theorem not_staleAtWrite_race :
    ¬ ∀ (aes : Cipher) (config : LoadBalancerConfiguration) (s : System),
      Runs.Reachable (TimedInit config) (TimedStep aes) s → StaleAtWrite s := by
  intro h
  let aes : Cipher := Plusaes.aes
  have hTimed : CalmStep aes ≤ TimedStep aes := fun _ _ hStep => hStep.1
  have hOverdue := Relation.ReflTransGen.mono hTimed _ _ (raceOverdue_run aes)
  have hReport : Relation.ReflTransGen (TimedStep aes) raceOverdue _ :=
    timed_rtRun (i := 0) (by decide) rfl (sentReport_run rfl rfl ⟨1, 2⟩)
  have hLess := h aes raceConfig _ ⟨raceStart, raceInit, hOverdue.trans hReport⟩ 0 _ rfl rfl
  exact absurd hLess (by decide)

end System

end Balancer
