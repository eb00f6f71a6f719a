import Balancer.Codec.HealthReport
import Balancer.Cpp.Floats
import Balancer.Routing.Outage

/-!
# The scores of `LBResource` as the machine computes them

The usages are the bits that `lb_rt_thread` has stored. Their sum is taken in `float`, the product
with the reciprocal of the weight in `double`, and every step rounds.

* `le_quotient_iff`: the least load whose score reaches an integer depends on the weight only.
* `abs_need_sub_le`: it is the integer times the weight, up to the rounding.
* `avoidsFailed_iff`: when nodes that could not measure their load are passed over.
-/

namespace Balancer

open Cpp

namespace LBResource

/-- `cpu_usage * 100 + mem_usage`. -/
def load (node : NodeState FloatBits) : Option ℚ := do
  let cpuUsage ← floatValue node.cpuUsage
  let memUsage ← floatValue node.memUsage
  let product ← binary32.nearest (cpuUsage * 100)
  binary32.nearest (product + memUsage)

/-- `(cpu_usage * 100 + mem_usage) * (1.0 / weight)`. -/
def share (node : NodeState FloatBits) : Option ℚ := do
  let sum ← load node
  let reciprocal ← binary64.nearest (1 / (node.nodeConfig.weight : ℚ))
  binary64.nearest (sum * reciprocal)

/-- The score: a conversion of an infinity, a NaN or a value out of range is undefined. -/
def floatScore (node : NodeState FloatBits) : Result Int :=
  if node.nodeConfig.weight = 0 then throw .divisionByZero
  else match share node with
    | some x => checkInt (truncate x)
    | none => throw .overflow

/-! ## What load a score needs -/

/-- The reciprocal of a weight. -/
def reciprocal (weight : Int) : ℚ := binary64.round (1 / (weight : ℚ))

/-- The least load whose product with the reciprocal of the weight is rounded to `m` or above it. -/
def need (weight m : Int) : ℚ := (m - binary64.slack m) / reciprocal weight

/-- The weight of a node of the configuration. -/
def IsWeight (weight : Int) : Prop := 1 ≤ weight ∧ weight ≤ INT_MAX

section Weight

variable {weight m : Int}

theorem IsWeight.cast (h : IsWeight weight) : (1 : ℚ) ≤ weight ∧ (weight : ℚ) ≤ 2 ^ (31 : Int) := by
  have hMax : weight ≤ 2147483648 := h.2.trans (by decide)
  exact ⟨by exact_mod_cast h.1, by norm_num; exact_mod_cast hMax⟩

theorem IsWeight.reciprocal_pos (h : IsWeight weight) : 0 < reciprocal weight := by
  obtain ⟨hOne, hMax⟩ := h.cast
  have hLow : (2 : ℚ) ^ (-31 : Int) ≤ 1 / weight := by
    rw [zpow_neg, ← one_div]
    exact one_div_le_one_div_of_le (by linarith) hMax
  exact lt_of_lt_of_le (by positivity) (Format.two_zpow_le_round (by decide) hLow)

theorem IsWeight.reciprocal_le (h : IsWeight weight) : reciprocal weight ≤ 1 := by
  have hHigh : 1 / (weight : ℚ) ≤ 2 ^ (0 : Int) := by
    rw [zpow_zero]
    exact (div_le_one (by linarith [h.cast.1])).mpr h.cast.1
  exact Format.round_le_two_zpow (by decide) hHigh

theorem IsWeight.nearest_reciprocal (h : IsWeight weight) :
    binary64.nearest (1 / (weight : ℚ)) = some (reciprocal weight) := by
  refine Format.nearest_of_abs_le (k := 0) (by decide) (by decide) ?_
  have hPos : 0 < (weight : ℚ) := by linarith [h.cast.1]
  rw [abs_of_pos (by positivity), zpow_zero]
  exact (div_le_one hPos).mpr h.cast.1

/-- The integers that decide about a score. -/
theorem clog_le_thirtyTwo (hm : m ≤ 2147483649) : Nat.clog 2 m.toNat ≤ 32 := by
  rw [Nat.clog_le_iff_le_pow Nat.one_lt_two]
  omega

/-- The score of a load, which need not fit an `int`. -/
def quotient (weight : Int) (x : ℚ) : Int := truncate (binary64.round (x * reciprocal weight))

theorem quotient_neg (weight : Int) (x : ℚ) : quotient weight (-x) = -quotient weight x := by
  rw [quotient, neg_mul, Format.round_neg, truncate_neg, quotient]

/-- **What a score needs.** A score is as large as an integer exactly when the load is as large as
the need. -/
theorem le_quotient_iff (h : IsWeight weight) (hm : 1 ≤ m) (hMax : m ≤ 2147483649) {x : ℚ} :
    m ≤ quotient weight x ↔ need weight m ≤ x := by
  have hLog := clog_le_thirtyTwo hMax
  have hPrecision : binary64.precision = 53 := rfl
  have hMin : binary64.minExp = -1074 := rfl
  rw [quotient, pos_le_truncate_iff hm, Format.le_round_intCast_iff hm (by omega) (by omega), need,
    div_le_iff₀ h.reciprocal_pos]

theorem quotient_nonneg_iff (h : IsWeight weight) {x : ℚ} :
    0 ≤ quotient weight x ↔ -x < need weight 1 := by
  rw [← not_le, ← le_quotient_iff h le_rfl (by decide), quotient_neg]
  omega

theorem quotient_nonneg (h : IsWeight weight) {x : ℚ} (hx : 0 ≤ x) : 0 ≤ quotient weight x := by
  have hRound : 0 ≤ binary64.round (x * reciprocal weight) :=
    Format.round_nonneg (mul_nonneg hx h.reciprocal_pos.le)
  rw [quotient, truncate_of_nonneg hRound]
  exact Int.floor_nonneg.mpr hRound

theorem isInt_quotient_iff (h : IsWeight weight) {x : ℚ} :
    IsInt (quotient weight x) ↔ x < need weight 2147483648 ∧ -x < need weight 2147483649 := by
  have hMin : INT_MIN = -2147483648 := rfl
  have hMax : INT_MAX = 2147483647 := rfl
  rw [← not_le, ← not_le, ← le_quotient_iff h (by decide) (by decide),
    ← le_quotient_iff h (by decide) (by decide), quotient_neg, IsInt]
  omega

/-- The reciprocal is rounded once. -/
theorem IsWeight.abs_mul_reciprocal_sub_le (h : IsWeight weight) :
    |weight * reciprocal weight - 1| ≤ 2 ^ (-53 : Int) := by
  obtain ⟨hOne, hMax⟩ := h.cast
  have hPos : (0 : ℚ) < weight := by linarith
  have hInv : 0 < 1 / (weight : ℚ) := by positivity
  have hLow : (2 : ℚ) ^ (-1021 : Int) ≤ |1 / (weight : ℚ)| := by
    rw [abs_of_pos hInv]
    calc (2 : ℚ) ^ (-1021 : Int) ≤ 2 ^ (-31 : Int) := zpow_le_zpow_right₀ one_le_two (by decide)
      _ = 1 / 2 ^ (31 : Int) := by rw [zpow_neg, ← one_div]
      _ ≤ 1 / weight := one_div_le_one_div_of_le hPos hMax
  have hError : |reciprocal weight - 1 / weight| ≤ |1 / (weight : ℚ)| * 2 ^ (-53 : Int) :=
    Format.abs_round_sub_le hLow
  have hSplit : weight * reciprocal weight - 1 = weight * (reciprocal weight - 1 / weight) := by
    rw [mul_sub, mul_one_div_cancel hPos.ne']
  rw [hSplit, abs_mul, abs_of_pos hPos]
  calc (weight : ℚ) * |reciprocal weight - 1 / weight|
      ≤ weight * (|1 / (weight : ℚ)| * 2 ^ (-53 : Int)) :=
        mul_le_mul_of_nonneg_left hError hPos.le
    _ = 2 ^ (-53 : Int) := by
        rw [abs_of_pos hInv, ← mul_assoc, mul_one_div_cancel hPos.ne', one_mul]

/-- **The size of a need.** It is the integer times the weight, up to the rounding. -/
theorem abs_need_sub_le (h : IsWeight weight) (hm : 1 ≤ m) :
    |need weight m - m * weight| ≤ m * weight * 2 ^ (-51 : Int) := by
  have hm' : (1 : ℚ) ≤ m := by exact_mod_cast hm
  have hWeight := h.cast.1
  have hPos := h.reciprocal_pos
  obtain ⟨hLow, hHigh⟩ := abs_le.mp h.abs_mul_reciprocal_sub_le
  have hSlack : 0 ≤ binary64.slack m := Format.slack_nonneg m
  have hSlackLe : binary64.slack m ≤ m * 2 ^ (-53 : Int) := Format.slack_le hm
  have hNeed : need weight m - m * weight =
      (m * (1 - weight * reciprocal weight) - binary64.slack m) / reciprocal weight := by
    rw [need]
    field_simp
    ring
  have hNumerator : |m * (1 - weight * reciprocal weight) - binary64.slack m| ≤
      m * 2 ^ (-52 : Int) := by
    have hDouble : (2 : ℚ) ^ (-52 : Int) = 2 ^ (-53 : Int) + 2 ^ (-53 : Int) := by norm_num
    rw [abs_le, hDouble]
    constructor <;> nlinarith
  have hHalf : (1 : ℚ) / 2 ≤ weight * reciprocal weight := by
    calc (1 : ℚ) / 2 ≤ 1 - 2 ^ (-53 : Int) := by norm_num
      _ ≤ weight * reciprocal weight := sub_le_iff_le_add.mpr (by linarith only [hLow])
  rw [hNeed, abs_div, abs_of_pos hPos, div_le_iff₀ hPos]
  calc |m * (1 - weight * reciprocal weight) - binary64.slack m|
      ≤ m * 2 ^ (-52 : Int) := hNumerator
    _ = m * 2 ^ (-51 : Int) * (1 / 2) := by norm_num; ring
    _ ≤ m * 2 ^ (-51 : Int) * (weight * reciprocal weight) :=
        mul_le_mul_of_nonneg_left hHalf (by positivity)
    _ = m * weight * 2 ^ (-51 : Int) * reciprocal weight := by ring

end Weight

/-! ## The score of a load -/

section Load

variable {node : NodeState FloatBits} {x : ℚ}

theorem abs_load_lt (h : load node = some x) : |x| < 2 ^ (128 : Int) := by
  obtain ⟨cpuUsage, -, h⟩ := Option.bind_eq_some_iff.mp h
  obtain ⟨memUsage, -, h⟩ := Option.bind_eq_some_iff.mp h
  obtain ⟨product, -, h⟩ := Option.bind_eq_some_iff.mp h
  exact (Format.nearest_eq_some.mp h).2

/-- Nothing is lost to an infinity after the sum. -/
theorem share_eq (hWeight : IsWeight node.nodeConfig.weight) :
    share node =
      (load node).map fun x => binary64.round (x * reciprocal node.nodeConfig.weight) := by
  rw [share, hWeight.nearest_reciprocal]
  cases hLoad : load node with
  | none => rfl
  | some x =>
    have hBound : |x * reciprocal node.nodeConfig.weight| ≤ 2 ^ (128 : Int) := by
      rw [abs_mul, abs_of_pos hWeight.reciprocal_pos]
      exact (mul_le_of_le_one_right (abs_nonneg x) hWeight.reciprocal_le).trans
        (abs_load_lt hLoad).le
    exact Format.nearest_of_abs_le (by decide) (by decide) hBound

theorem floatScore_eq_ok (hWeight : IsWeight node.nodeConfig.weight) {v : Int} :
    floatScore node = .ok v ↔
      ∃ x, load node = some x ∧ IsInt (quotient node.nodeConfig.weight x) ∧
        quotient node.nodeConfig.weight x = v := by
  have hNonzero : node.nodeConfig.weight ≠ 0 := by
    have hOne := hWeight.1
    omega
  rw [floatScore, if_neg hNonzero, share_eq hWeight]
  cases load node with
  | none => simp
  | some x => simp [checkInt_eq_ok, quotient]

theorem load_nonneg (hCpu : NotNegative node.cpuUsage) (hMem : NotNegative node.memUsage)
    (h : load node = some x) : 0 ≤ x := by
  obtain ⟨cpuUsage, hCpuValue, h⟩ := Option.bind_eq_some_iff.mp h
  obtain ⟨memUsage, hMemValue, h⟩ := Option.bind_eq_some_iff.mp h
  obtain ⟨product, hProduct, h⟩ := Option.bind_eq_some_iff.mp h
  have hCpuNonneg := hCpu.nonneg hCpuValue
  have hMemNonneg := hMem.nonneg hMemValue
  obtain ⟨rfl, -⟩ := Format.nearest_eq_some.mp hProduct
  obtain ⟨rfl, -⟩ := Format.nearest_eq_some.mp h
  have hScaled : 0 ≤ binary32.round (cpuUsage * 100) := Format.round_nonneg (by positivity)
  exact Format.round_nonneg (add_nonneg hScaled hMemNonneg)

end Load

/-! ## Two loads -/

/-- An integer separates the loads of two nodes: the load of the second one is as large as its need,
the load of the first one is not. -/
def Separated (weight : Int) (x : ℚ) (weight' : Int) (y : ℚ) : Prop :=
  ∃ m, 1 ≤ m ∧ m ≤ INT_MAX ∧ x < need weight m ∧ need weight' m ≤ y

/-- The load of the second node meets every need that the load of the first one meets, and its score
is not negative. -/
def Level (weight : Int) (x : ℚ) (weight' : Int) (y : ℚ) : Prop :=
  -y < need weight' 1 ∧ ∀ m, 1 ≤ m → m ≤ INT_MAX → need weight m ≤ x → need weight' m ≤ y

section Pair

variable {weight weight' : Int} {x y : ℚ}

theorem separated_iff (h : IsWeight weight) (h' : IsWeight weight') (hx : 0 ≤ x)
    (hy : quotient weight' y ≤ INT_MAX) :
    Separated weight x weight' y ↔ quotient weight x < quotient weight' y := by
  have hMax : INT_MAX = 2147483647 := rfl
  have hNonneg := quotient_nonneg h hx
  constructor
  · rintro ⟨m, hm, hmMax, hLt, hLe⟩
    rw [← not_le, ← le_quotient_iff h hm (by omega)] at hLt
    rw [← le_quotient_iff h' hm (by omega)] at hLe
    omega
  · intro hLt
    refine ⟨quotient weight' y, by omega, hy, ?_, ?_⟩
    · rw [← not_le, ← le_quotient_iff h (by omega) (by omega)]
      omega
    · exact (le_quotient_iff h' (by omega) (by omega)).mp le_rfl

theorem level_iff (h : IsWeight weight) (h' : IsWeight weight') (hx : 0 ≤ x)
    (hxMax : quotient weight x ≤ INT_MAX) :
    Level weight x weight' y ↔ quotient weight x ≤ quotient weight' y := by
  have hMax : INT_MAX = 2147483647 := rfl
  have hNonneg := quotient_nonneg h hx
  rw [Level, ← quotient_nonneg_iff h']
  constructor
  · rintro ⟨hy, hNeeds⟩
    rcases hNonneg.eq_or_lt with hZero | hPos
    · omega
    · have hOwn := (le_quotient_iff h (by omega) (by omega)).mp (le_refl (quotient weight x))
      have hMet := hNeeds _ (by omega) hxMax hOwn
      exact (le_quotient_iff h' (by omega) (by omega)).mpr hMet
  · intro hLe
    refine ⟨hNonneg.trans hLe, ?_⟩
    intro m hm hmMax hMet
    rw [← le_quotient_iff h hm (by omega)] at hMet
    rw [← le_quotient_iff h' hm (by omega)]
    exact hMet.trans hLe

end Pair

/-! ## Nodes that could not measure their load -/

/-- The latest report is the one of a node that has measured its load. -/
def Measured (node : NodeState FloatBits) : Prop :=
  NotNegative node.cpuUsage ∧ NotNegative node.memUsage

/-- The latest report has the failure value of `generate_health_report` in one of its fields. -/
def MeasurementFailed (node : NodeState FloatBits) : Prop :=
  floatValue node.cpuUsage = some (-1) ∨ floatValue node.memUsage = some (-1)

instance (node : NodeState FloatBits) : Decidable (MeasurementFailed node) :=
  inferInstanceAs (Decidable (_ ∨ _))

/-- The load of every `UP` node is within the bounds that its weight allows, and every node that
could not measure its load has a load for its weight that is higher than the one of every node that
could, or as high and behind it, or too high to be chosen. -/
structure FailedOutweighed (nodes : List (NodeState FloatBits)) : Prop where
  loads : ∀ node ∈ nodes, node.status = .up →
    ∃ x, load node = some x ∧ x < need node.nodeConfig.weight 2147483648 ∧
      -x < need node.nodeConfig.weight 2147483649
  pairs : ∀ (i j : Nat) (a b : NodeState FloatBits) (x y : ℚ), nodes[i]? = some a →
    nodes[j]? = some b → a.status = .up → b.status = .up → Measured a → MeasurementFailed b →
      load a = some x → load b = some y →
        need b.nodeConfig.weight INT_MAX ≤ y ∨
          Separated a.nodeConfig.weight x b.nodeConfig.weight y ∨
          i < j ∧ Level a.nodeConfig.weight x b.nodeConfig.weight y

/-- The configured weights of the nodes that are `UP`. -/
def Weighted (nodes : List (NodeState FloatBits)) : Prop :=
  ∀ node ∈ nodes, node.status = .up → IsWeight node.nodeConfig.weight

section Outweighed

variable {nodes : List (NodeState FloatBits)}

theorem scorable_floatScore_iff (hWeights : Weighted nodes) :
    Scorable floatScore nodes ↔
      ∀ node ∈ nodes, node.status = .up →
        ∃ x, load node = some x ∧ x < need node.nodeConfig.weight 2147483648 ∧
          -x < need node.nodeConfig.weight 2147483649 := by
  refine forall₃_congr fun node hNode hUp => ?_
  have hWeight := hWeights node hNode hUp
  constructor
  · rintro ⟨v, hScore⟩
    obtain ⟨x, hLoad, hInt, -⟩ := (floatScore_eq_ok hWeight).mp hScore
    exact ⟨x, hLoad, (isInt_quotient_iff hWeight).mp hInt⟩
  · rintro ⟨x, hLoad, hBounds⟩
    have hInt := (isInt_quotient_iff hWeight).mpr hBounds
    exact ⟨_, (floatScore_eq_ok hWeight).mpr ⟨x, hLoad, hInt, rfl⟩⟩

/-- One measured node and one that could not measure its load. -/
theorem outscored_pair_iff {a b : NodeState FloatBits} {x y : ℚ} {i j : Nat}
    (ha : IsWeight a.nodeConfig.weight) (hb : IsWeight b.nodeConfig.weight) (hMeasured : Measured a)
    (hx : load a = some x) (hxInt : IsInt (quotient a.nodeConfig.weight x))
    (hyInt : IsInt (quotient b.nodeConfig.weight y)) :
    (INT_MAX ≤ quotient b.nodeConfig.weight y ∨
        quotient a.nodeConfig.weight x < quotient b.nodeConfig.weight y ∨
        quotient a.nodeConfig.weight x = quotient b.nodeConfig.weight y ∧ i < j) ↔
      need b.nodeConfig.weight INT_MAX ≤ y ∨
        Separated a.nodeConfig.weight x b.nodeConfig.weight y ∨
        i < j ∧ Level a.nodeConfig.weight x b.nodeConfig.weight y := by
  have hNonneg := load_nonneg hMeasured.1 hMeasured.2 hx
  rw [← le_quotient_iff hb (by decide) (by decide), separated_iff ha hb hNonneg hyInt.2,
    level_iff ha hb hNonneg hxInt.2]
  omega

/-- **Failed measurements.** Whichever nodes go down, no node that could not measure its load is
returned while one that could is `UP`, exactly when the failed ones are outweighed. -/
theorem avoidsFailed_iff (hWeights : Weighted nodes) (hMeasured : HasUp Measured nodes) :
    (∀ nodes', TakenDown nodes nodes' → HasUp Measured nodes' →
        Avoids floatScore MeasurementFailed nodes') ↔ FailedOutweighed nodes := by
  rw [avoids_iff hMeasured]
  constructor
  · rintro ⟨hScorable, hOutscored⟩
    have hLoads := (scorable_floatScore_iff hWeights).mp hScorable
    refine ⟨hLoads, ?_⟩
    intro i j a b x y hi hj haUp hbUp haMeasured hbFailed hx hy
    have ha := hWeights a (List.mem_of_getElem? hi) haUp
    have hb := hWeights b (List.mem_of_getElem? hj) hbUp
    obtain ⟨v, hv⟩ := hScorable a (List.mem_of_getElem? hi) haUp
    obtain ⟨w, hw⟩ := hScorable b (List.mem_of_getElem? hj) hbUp
    obtain ⟨x', hx', hxInt, rfl⟩ := (floatScore_eq_ok ha).mp hv
    obtain ⟨y', hy', hyInt, rfl⟩ := (floatScore_eq_ok hb).mp hw
    obtain rfl := Option.some.inj (hx'.symm.trans hx)
    obtain rfl := Option.some.inj (hy'.symm.trans hy)
    exact (outscored_pair_iff ha hb haMeasured hx hxInt hyInt).mp
      (hOutscored i j a b _ _ hi hj haUp hbUp haMeasured hbFailed hv hw)
  · rintro ⟨hLoads, hPairs⟩
    refine ⟨(scorable_floatScore_iff hWeights).mpr hLoads, ?_⟩
    intro i j a b v w hi hj haUp hbUp haMeasured hbFailed hv hw
    have ha := hWeights a (List.mem_of_getElem? hi) haUp
    have hb := hWeights b (List.mem_of_getElem? hj) hbUp
    obtain ⟨x, hx, hxInt, rfl⟩ := (floatScore_eq_ok ha).mp hv
    obtain ⟨y, hy, hyInt, rfl⟩ := (floatScore_eq_ok hb).mp hw
    exact (outscored_pair_iff ha hb haMeasured hx hxInt hyInt).mpr
      (hPairs i j a b x y hi hj haUp hbUp haMeasured hbFailed hx hy)

end Outweighed

/-- A node that has sent a report with the given bits, for runs on fixed inputs. -/
def testReport (cpuUsage memUsage : FloatBits) (weight : Int) : NodeState FloatBits :=
  { nodeConfig := ⟨"Target", "127.0.0.1", 5001, 6001, weight⟩
    cpuUsage := cpuUsage
    memUsage := memUsage
    lastChecked := 0
    status := .up }

/-- Loads of `90` for a weight of `2` and of `74` for a weight of `1`, the second one beside a
failure to read `/proc/meminfo`. -/
theorem avoidsFailed_two :
    FailedOutweighed
        [testReport 0x3F000000#32 0x42200000#32 2, testReport 0x3F400000#32 0xBF800000#32 1] ∧
      Avoids floatScore MeasurementFailed
        [testReport 0x3F000000#32 0x42200000#32 2, testReport 0x3F400000#32 0xBF800000#32 1] := by
  have hFirst : load (testReport 0x3F000000#32 0x42200000#32 2) = some 90 := by decide +kernel
  have hSecond : load (testReport 0x3F400000#32 0xBF800000#32 1) = some 74 := by decide +kernel
  have hWeights : Weighted
      [testReport 0x3F000000#32 0x42200000#32 2, testReport 0x3F400000#32 0xBF800000#32 1] := by
    intro node hNode _
    simp only [List.mem_cons, List.not_mem_nil, or_false] at hNode
    rcases hNode with rfl | rfl
    · exact ⟨by decide, by decide⟩
    · exact ⟨by decide, by decide⟩
  have hMeasured : HasUp Measured
      [testReport 0x3F000000#32 0x42200000#32 2, testReport 0x3F400000#32 0xBF800000#32 1] := by
    refine ⟨testReport 0x3F000000#32 0x42200000#32 2, List.mem_cons_self, rfl, ?_⟩
    exact ⟨by decide +kernel, by decide +kernel⟩
  have hOutweighed : FailedOutweighed
      [testReport 0x3F000000#32 0x42200000#32 2, testReport 0x3F400000#32 0xBF800000#32 1] := by
    refine ⟨?_, ?_⟩
    · intro node hNode _
      simp only [List.mem_cons, List.not_mem_nil, or_false] at hNode
      rcases hNode with rfl | rfl
      · exact ⟨90, hFirst, by decide +kernel, by decide +kernel⟩
      · exact ⟨74, hSecond, by decide +kernel, by decide +kernel⟩
    · intro i j a b x y ha hb _ _ haMeasured hbFailed hx hy
      have haMem := List.mem_of_getElem? ha
      have hbMem := List.mem_of_getElem? hb
      simp only [List.mem_cons, List.not_mem_nil, or_false] at haMem hbMem
      rcases haMem with rfl | rfl
      · rcases hbMem with rfl | rfl
        · exact absurd hbFailed (by decide +kernel)
        · -- fifty times the weight lies between the loads
          obtain rfl := Option.some.inj (hFirst.symm.trans hx)
          obtain rfl := Option.some.inj (hSecond.symm.trans hy)
          exact Or.inr (Or.inl ⟨50, by decide, by decide, by decide +kernel, by decide +kernel⟩)
      · exact absurd haMeasured.2 (by decide +kernel)
  exact ⟨hOutweighed, (avoidsFailed_iff hWeights hMeasured).mpr hOutweighed _ (.refl _) hMeasured⟩

/-- The first node has reported `0.5` and `40`, the second one `30` and a failure to read
`/proc/loadavg`, which makes its score negative. -/
theorem not_avoidsFailed_cpu :
    ¬ ∀ nodes : List (NodeState FloatBits), Weighted nodes → HasUp Measured nodes →
      Avoids floatScore MeasurementFailed nodes := by
  intro h
  have hWeights : Weighted
      [testReport 0x3F000000#32 0x42200000#32 1, testReport 0xBF800000#32 0x41F00000#32 1] := by
    intro node hNode _
    simp only [List.mem_cons, List.not_mem_nil, or_false] at hNode
    rcases hNode with rfl | rfl
    · exact ⟨by decide, by decide⟩
    · exact ⟨by decide, by decide⟩
  have hMeasured : HasUp Measured
      [testReport 0x3F000000#32 0x42200000#32 1, testReport 0xBF800000#32 0x41F00000#32 1] := by
    refine ⟨testReport 0x3F000000#32 0x42200000#32 1, List.mem_cons_self, rfl, ?_⟩
    exact ⟨by decide +kernel, by decide +kernel⟩
  have hCall : chooseNode floatScore
      [testReport 0x3F000000#32 0x42200000#32 1, testReport 0xBF800000#32 0x41F00000#32 1] =
        .ok 1 := by decide +kernel
  obtain ⟨nodeId, hNodeId, hAvoids⟩ := h _ hWeights hMeasured
  obtain rfl : nodeId = 1 := Except.ok.inj (hNodeId.symm.trans hCall)
  exact hAvoids 1 (testReport 0xBF800000#32 0x41F00000#32 1) rfl rfl (Or.inl (by decide +kernel))

/- Loads of `1` for a weight of `1` and of `49` for a weight of `49`: the product with the rounded
reciprocal stays below `1`, so the node that could not read `/proc/meminfo` is chosen. -/
example : chooseNode floatScore
    [testReport 0#32 0x3F800000#32 1, testReport 0x3F000000#32 0xBF800000#32 49] = .ok 1 := by
  decide +kernel

end LBResource

end Balancer
