import Balancer.Cpp.Bytes
import Balancer.Routing.Score

/-!
# What a health reporter measures

`HealthReporterConnection::generate_health_report` (`HealthReporter.cpp`), over the contents of
`/proc/loadavg` and `/proc/meminfo`. A `float` is an exact rational. A variable that the code has
not assigned yet holds none, and reading it is a fault of its own.

* `readMeminfo_eq_ok`: after the loop the variables hold what was supplied last.
* `measuresRight_iff`: for which contents the measurement is defined and right.
-/

namespace Balancer

open Cpp LBResource

/-- What makes a measurement undefined. -/
inductive MeasurementFault
  | unassigned
  | overflow
  | divisionByZero
  deriving DecidableEq, Repr

abbrev Measured (α : Type) := Except MeasurementFault α

/-- The value of a variable. -/
def readVar {α : Type} (x : Option α) : Measured α :=
  match x with
  | some a => pure a
  | none => throw .unassigned

/-! ## The loop over `/proc/meminfo` -/

/-- The variables `mem_total` and `mem_available`. -/
structure MemVars where
  memTotal : Option Int
  memAvailable : Option Int
  deriving DecidableEq, Repr

/-- `int mem_total, mem_available = -1;` -/
def MemVars.start : MemVars := ⟨none, some (-1)⟩

def memAvailableLabel : Bytes := ascii "MemAvailable:"

def memTotalLabel : Bytes := ascii "MemTotal:"

/-- A line that begins with the label: `sscanf(buf, "<label> %d kB", &x)`. The variable keeps its
value when there is no number; one that does not fit an `int` is undefined behaviour. -/
def scanLine (label line : Bytes) (x : Option Int) : Measured (Option Int) :=
  if label <+: line then
    match scanInt (line.drop label.length) with
    | none => pure x
    | some n => if IsInt n then pure (some n) else throw .overflow
  else pure x

/-- The loop, on the buffers that `fgets` fills. -/
def readMeminfo : MemVars → List Bytes → Measured MemVars
  | vars, [] => pure vars
  | vars, line :: lines => do
    let memAvailable ← scanLine memAvailableLabel line vars.memAvailable
    let memTotal ← scanLine memTotalLabel line vars.memTotal
    readMeminfo ⟨memTotal, memAvailable⟩ lines

/-- `(int)(((float)mem_total - (float)mem_available) / (float)mem_total * 100)`, unless one of the
two is `-1`. -/
def memLoad (vars : MemVars) : Measured Int := do
  let memTotal ← readVar vars.memTotal
  if memTotal = -1 then pure (-1)
  else
    let memAvailable ← readVar vars.memAvailable
    if memAvailable = -1 then pure (-1)
    else if memTotal = 0 then throw .divisionByZero
    else
      let load := truncate (((memTotal : ℚ) - (memAvailable : ℚ)) / (memTotal : ℚ) * 100)
      if IsInt load then pure load else throw .overflow

/-! ## The report -/

/-- A report. The code may leave `cpuLoad` unassigned; every path assigns `memLoad`. -/
structure Measurement where
  cpuLoad : Option ℚ
  memLoad : ℚ
  deriving DecidableEq

/-- `fscanf(loadavg, "%f", &report.cpu_load)`; `none` for the file is one that cannot be opened, and
`scanFloat` is the conversion. -/
def cpuLoad (scanFloat : Bytes → Option ℚ) (loadavg : Option Bytes) : Option ℚ :=
  match loadavg with
  | none => some (-1)
  | some content => scanFloat content

def generateHealthReport (scanFloat : Bytes → Option ℚ) (loadavg : Option Bytes)
    (meminfo : Option (List Bytes)) : Measured Measurement :=
  match meminfo with
  | none => pure ⟨cpuLoad scanFloat loadavg, -1⟩
  | some lines => do
    let vars ← readMeminfo MemVars.start lines
    let load ← memLoad vars
    pure ⟨cpuLoad scanFloat loadavg, (load : ℚ)⟩

/-! ## What should be measured -/

/-- The number a line supplies under a label. -/
def supplied (label line : Bytes) : Option Int :=
  if label <+: line then scanInt (line.drop label.length) else none

/-- The number supplied last. -/
def lastSupplied (label : Bytes) (lines : List Bytes) : Option Int :=
  (lines.filterMap (supplied label)).getLast?

/-- The used part of the memory in percent, `-1` when it is not known. -/
def usedPercent (memTotal memAvailable : Option Int) : Int :=
  match memTotal, memAvailable with
  | some total, some available =>
    if 0 < total then truncate (100 * ((total : ℚ) - (available : ℚ)) / (total : ℚ)) else -1
  | _, _ => -1

/-- The measurement is defined, and its values are what the two files say: the first number of one,
the used part of the memory after the numbers supplied last in the other, and `-1` for each that is
not known. -/
def MeasuresRight (scanFloat : Bytes → Option ℚ) (loadavg : Option Bytes)
    (meminfo : Option (List Bytes)) : Prop :=
  let memTotal := lastSupplied memTotalLabel (meminfo.getD [])
  let memAvailable := lastSupplied memAvailableLabel (meminfo.getD [])
  ∃ report, generateHealthReport scanFloat loadavg meminfo = .ok report ∧
    report.cpuLoad = some ((loadavg.bind scanFloat).getD (-1)) ∧
    report.memLoad = (usedPercent memTotal memAvailable : ℚ) ∧
    ∀ total available, memTotal = some total → memAvailable = some available → 0 < total →
      0 ≤ available → available ≤ total → 0 ≤ report.memLoad ∧ report.memLoad ≤ 100

/-- The numbers that the lines supply fit an `int`. -/
def NumbersFit (lines : List Bytes) : Prop :=
  ∀ line ∈ lines, (∀ n ∈ supplied memAvailableLabel line, IsInt n) ∧
    ∀ n ∈ supplied memTotalLabel line, IsInt n

/-- The last total and the last available memory for which the code computes the used part. -/
def Computes (memTotal memAvailable : Option Int) : Prop :=
  match memTotal, memAvailable with
  | none, _ => False
  | some _, none => True
  | some total, some available =>
    if 0 < total then
      available ≠ -1 ∧ -2147483649 * total < 100 * (total - available) ∧
        100 * (total - available) < 2147483648 * total
    else
      total = -1 ∨ available = -1 ∨
        total < -1 ∧ -total ≤ 100 * (total - available) ∧ 100 * (total - available) < -2 * total

/-! ## The loop -/

theorem scanLine_eq_ok {label line : Bytes} {x y : Option Int} :
    scanLine label line x = .ok y ↔
      (∀ n ∈ supplied label line, IsInt n) ∧ y = (supplied label line).or x := by
  rw [scanLine, supplied]
  split
  · cases scanInt (line.drop label.length) with
    | none => simp [eq_comm]
    | some n =>
      dsimp only
      split
      · rename_i hInt
        simp [hInt, eq_comm]
      · rename_i hInt
        simp [hInt]
  · simp [eq_comm]

/-- A number that a line supplies is the last one unless a later line supplies one. -/
theorem lastSupplied_cons (label line : Bytes) (lines : List Bytes) (x : Option Int) :
    (lastSupplied label (line :: lines)).or x =
      (lastSupplied label lines).or ((supplied label line).or x) := by
  rw [lastSupplied, lastSupplied]
  cases hLine : supplied label line with
  | none => rw [List.filterMap_cons_none hLine, Option.none_or]
  | some n =>
    rw [List.filterMap_cons_some hLine, List.getLast?_cons]
    cases (lines.filterMap (supplied label)).getLast? with
    | none => rfl
    | some m => rfl

/-- **The loop.** It ends when all supplied numbers fit, with what was supplied last. -/
theorem readMeminfo_eq_ok {vars vars' : MemVars} {lines : List Bytes} :
    readMeminfo vars lines = .ok vars' ↔
      NumbersFit lines ∧ vars' = ⟨(lastSupplied memTotalLabel lines).or vars.memTotal,
        (lastSupplied memAvailableLabel lines).or vars.memAvailable⟩ := by
  induction lines generalizing vars with
  | nil => simp [readMeminfo, NumbersFit, lastSupplied, eq_comm]
  | cons line lines ih =>
    rw [readMeminfo, bind_eq_ok, lastSupplied_cons, lastSupplied_cons, NumbersFit,
      List.forall_mem_cons]
    constructor
    · rintro ⟨memAvailable, hAvailable, h⟩
      obtain ⟨memTotal, hTotal, hRest⟩ := bind_eq_ok.mp h
      obtain ⟨hAvailableFits, rfl⟩ := scanLine_eq_ok.mp hAvailable
      obtain ⟨hTotalFits, rfl⟩ := scanLine_eq_ok.mp hTotal
      obtain ⟨hFits, hVars⟩ := ih.mp hRest
      exact ⟨⟨⟨hAvailableFits, hTotalFits⟩, hFits⟩, hVars⟩
    · rintro ⟨⟨⟨hAvailableFits, hTotalFits⟩, hFits⟩, hVars⟩
      refine ⟨_, scanLine_eq_ok.mpr ⟨hAvailableFits, rfl⟩, ?_⟩
      rw [bind_eq_ok]
      exact ⟨_, scanLine_eq_ok.mpr ⟨hTotalFits, rfl⟩, ih.mpr ⟨hFits, hVars⟩⟩

/-! ## The used part -/

theorem isInt_truncate_iff {x : ℚ} :
    IsInt (truncate x) ↔ (-2147483649 : ℚ) < x ∧ x < (2147483648 : ℚ) := by
  have hMin : ((INT_MIN : Int) : ℚ) - 1 = -2147483649 := by norm_num [INT_MIN]
  have hMax : ((INT_MAX : Int) : ℚ) + 1 = 2147483648 := by norm_num [INT_MAX]
  rw [IsInt, le_truncate_iff (by decide), truncate_le_iff (by decide), hMin, hMax]

theorem truncate_eq_neg_one_iff {x : ℚ} :
    truncate x = -1 ↔ (-2 : ℚ) < x ∧ x ≤ (-1 : ℚ) := by
  rcases le_total 0 x with h | h
  · refine iff_of_false ?_ ?_
    · rw [truncate_of_nonneg h]
      have hFloor := Int.floor_nonneg.mpr h
      omega
    · rintro ⟨-, hLe⟩
      linarith
  · rw [truncate_of_nonpos h, Int.ceil_eq_iff]
    norm_num

/-- The quotient of the code is the percentage. -/
theorem percent_eq (total available : Int) :
    ((total : ℚ) - (available : ℚ)) / (total : ℚ) * 100 =
      100 * ((total : ℚ) - (available : ℚ)) / (total : ℚ) := by
  ring

theorem isInt_percent_iff {total available : Int} (hPos : 0 < total) :
    IsInt (truncate (100 * ((total : ℚ) - (available : ℚ)) / (total : ℚ))) ↔
      -2147483649 * total < 100 * (total - available) ∧
        100 * (total - available) < 2147483648 * total := by
  have hPosQ : (0 : ℚ) < total := Int.cast_pos.mpr hPos
  rw [isInt_truncate_iff, lt_div_iff₀ hPosQ, div_lt_iff₀ hPosQ]
  exact_mod_cast Iff.rfl

theorem percent_eq_neg_one_iff {total available : Int} (hNeg : total < 0) :
    truncate (100 * ((total : ℚ) - (available : ℚ)) / (total : ℚ)) = -1 ↔
      -total ≤ 100 * (total - available) ∧ 100 * (total - available) < -2 * total := by
  have hNegQ : (total : ℚ) < 0 := Int.cast_lt_zero.mpr hNeg
  rw [truncate_eq_neg_one_iff, lt_div_iff_of_neg hNegQ, div_le_iff_of_neg hNegQ, neg_one_mul,
    and_comm]
  exact_mod_cast Iff.rfl

/-- A percentage of available memory lies between `0` and `100`. -/
theorem percent_mem_range {total available : Int} (hPos : 0 < total) (hZero : 0 ≤ available)
    (hLe : available ≤ total) :
    0 ≤ truncate (100 * ((total : ℚ) - (available : ℚ)) / (total : ℚ)) ∧
      truncate (100 * ((total : ℚ) - (available : ℚ)) / (total : ℚ)) ≤ 100 := by
  have hPosQ : (0 : ℚ) < total := Int.cast_pos.mpr hPos
  have hZeroQ : (0 : ℚ) ≤ available := Int.cast_nonneg hZero
  have hLeQ : (available : ℚ) ≤ total := Int.cast_le.mpr hLe
  have hNonneg : 0 ≤ 100 * ((total : ℚ) - (available : ℚ)) / (total : ℚ) :=
    div_nonneg (by linarith) hPosQ.le
  have hHundred : 100 * ((total : ℚ) - (available : ℚ)) / (total : ℚ) ≤ 100 := by
    rw [div_le_iff₀ hPosQ]
    linarith
  rw [truncate_of_nonneg hNonneg]
  refine ⟨Int.floor_nonneg.mpr hNonneg, ?_⟩
  exact_mod_cast (Int.floor_le _).trans hHundred

/-- `-1` is taken for a failed measurement whichever of the two it is. -/
theorem memLoad_of_neg_one {total available : Int} (h : total = -1 ∨ available = -1) :
    memLoad ⟨some total, some available⟩ = .ok (-1) := by
  rw [memLoad]
  simp only [readVar, pure_eq_ok, ok_bind]
  rcases h with hTotal | hAvailable
  · rw [if_pos hTotal]
  · rw [if_pos hAvailable, ite_self]

theorem memLoad_of_ne {total available : Int} (hTotal : total ≠ -1) (hAvailable : available ≠ -1)
    (hZero : total ≠ 0) {load : Int} :
    memLoad ⟨some total, some available⟩ = .ok load ↔
      IsInt (truncate (100 * ((total : ℚ) - (available : ℚ)) / (total : ℚ))) ∧
        truncate (100 * ((total : ℚ) - (available : ℚ)) / (total : ℚ)) = load := by
  rw [memLoad]
  simp only [readVar, pure_eq_ok, ok_bind]
  rw [if_neg hTotal, if_neg hAvailable, if_neg hZero, percent_eq]
  split
  · rename_i hInt
    simp [hInt]
  · rename_i hInt
    simp [hInt]

/-- The load of the code is the used part exactly when the code computes it. -/
theorem memLoad_eq_usedPercent_iff {total available : Int} :
    memLoad ⟨some total, some available⟩ = .ok (usedPercent (some total) (some available)) ↔
      Computes (some total) (some available) := by
  rw [usedPercent, Computes]
  by_cases hPos : 0 < total
  · rw [if_pos hPos, if_pos hPos, ← isInt_percent_iff hPos]
    by_cases hAvailable : available = -1
    · subst hAvailable
      -- the code returns `-1`, the used part is not negative
      rw [memLoad_of_neg_one (Or.inr rfl)]
      refine iff_of_false ?_ (by simp)
      intro h
      have hLoad := (truncate_eq_neg_one_iff.mp (Except.ok.inj h).symm).2
      have hPosQ : (0 : ℚ) < total := Int.cast_pos.mpr hPos
      rw [div_le_iff₀ hPosQ] at hLoad
      push_cast at hLoad
      linarith
    · rw [memLoad_of_ne (by omega) hAvailable (by omega)]
      simp [hAvailable]
  · rw [if_neg hPos, if_neg hPos]
    by_cases hMissing : total = -1 ∨ available = -1
    · rw [memLoad_of_neg_one hMissing]
      refine iff_of_true rfl ?_
      tauto
    · push Not at hMissing
      by_cases hZero : total = 0
      · subst hZero
        refine iff_of_false ?_ (by omega)
        simp [memLoad, readVar, hMissing.2]
      · have hNeg : total < 0 := by omega
        rw [memLoad_of_ne hMissing.1 hMissing.2 hZero]
        constructor
        · rintro ⟨-, hLoad⟩
          exact Or.inr (Or.inr ⟨by omega, (percent_eq_neg_one_iff hNeg).mp hLoad⟩)
        · rintro (hTotal | hAvailable | ⟨-, hBounds⟩)
          · exact absurd hTotal hMissing.1
          · exact absurd hAvailable hMissing.2
          · have hLoad := (percent_eq_neg_one_iff hNeg).mpr hBounds
            rw [hLoad]
            exact ⟨by decide, rfl⟩

/-- Without a total the variable `mem_total` is read before it is assigned; without available
memory its start value is `-1`. -/
theorem memLoad_start_iff {memTotal memAvailable : Option Int} :
    memLoad ⟨memTotal.or none, memAvailable.or (some (-1))⟩ =
        .ok (usedPercent memTotal memAvailable) ↔ Computes memTotal memAvailable := by
  cases memTotal with
  | none => simp [memLoad, readVar, Computes]
  | some total =>
    cases memAvailable with
    | none => exact iff_of_true (memLoad_of_neg_one (Or.inr rfl)) trivial
    | some available => exact memLoad_eq_usedPercent_iff

/-! ## The measurement -/

/-- A number is read from `/proc/loadavg` if it can be opened. -/
def CpuRead (scanFloat : Bytes → Option ℚ) (loadavg : Option Bytes) : Prop :=
  ∀ content, loadavg = some content → (scanFloat content).isSome

theorem cpuLoad_eq_iff {scanFloat : Bytes → Option ℚ} {loadavg : Option Bytes} :
    cpuLoad scanFloat loadavg = some ((loadavg.bind scanFloat).getD (-1)) ↔
      CpuRead scanFloat loadavg := by
  cases loadavg with
  | none => simp [cpuLoad, CpuRead]
  | some content =>
    cases hScan : scanFloat content with
    | none => simp [cpuLoad, CpuRead, hScan]
    | some x => simp [cpuLoad, CpuRead, hScan]

theorem generateHealthReport_eq_ok {scanFloat : Bytes → Option ℚ} {loadavg : Option Bytes}
    {lines : List Bytes} {report : Measurement} :
    generateHealthReport scanFloat loadavg (some lines) = .ok report ↔ NumbersFit lines ∧
      ∃ load : Int, memLoad ⟨(lastSupplied memTotalLabel lines).or none,
          (lastSupplied memAvailableLabel lines).or (some (-1))⟩ = .ok load ∧
        report = ⟨cpuLoad scanFloat loadavg, (load : ℚ)⟩ := by
  rw [generateHealthReport, bind_eq_ok]
  constructor
  · rintro ⟨vars, hVars, h⟩
    obtain ⟨hFits, rfl⟩ := readMeminfo_eq_ok.mp hVars
    obtain ⟨load, hLoad, hReport⟩ := bind_eq_ok.mp h
    exact ⟨hFits, load, hLoad, (Except.ok.inj hReport).symm⟩
  · rintro ⟨hFits, load, hLoad, rfl⟩
    refine ⟨_, readMeminfo_eq_ok.mpr ⟨hFits, rfl⟩, ?_⟩
    rw [bind_eq_ok]
    exact ⟨load, hLoad, rfl⟩

/-- The range that `MeasuresRight` asks for follows from its values. -/
theorem usedPercent_mem_range {memTotal memAvailable : Option Int} {total available : Int}
    (hTotal : memTotal = some total) (hAvailable : memAvailable = some available)
    (hPos : 0 < total) (hZero : 0 ≤ available) (hLe : available ≤ total) :
    (0 : ℚ) ≤ (usedPercent memTotal memAvailable : ℚ) ∧
      (usedPercent memTotal memAvailable : ℚ) ≤ 100 := by
  subst hTotal hAvailable
  obtain ⟨hNonneg, hHundred⟩ := percent_mem_range hPos hZero hLe
  rw [usedPercent, if_pos hPos]
  exact ⟨Int.cast_nonneg hNonneg, by exact_mod_cast hHundred⟩

/-- **The measurement.** It is defined and right exactly when a number is read from an open
`/proc/loadavg`, and an open `/proc/meminfo` supplies numbers that fit, among them a total, from
which the used part is computed. -/
theorem measuresRight_iff (scanFloat : Bytes → Option ℚ) (loadavg : Option Bytes)
    (meminfo : Option (List Bytes)) :
    MeasuresRight scanFloat loadavg meminfo ↔ CpuRead scanFloat loadavg ∧
      ∀ lines, meminfo = some lines → NumbersFit lines ∧
        Computes (lastSupplied memTotalLabel lines) (lastSupplied memAvailableLabel lines) := by
  rw [← cpuLoad_eq_iff]
  cases meminfo with
  | none =>
    constructor
    · rintro ⟨report, hReport, hCpu, -, -⟩
      obtain rfl := Except.ok.inj hReport
      exact ⟨hCpu, by simp⟩
    · rintro ⟨hCpu, -⟩
      refine ⟨_, rfl, hCpu, by simp [lastSupplied, usedPercent], ?_⟩
      intro total available hTotal
      cases hTotal
  | some lines =>
    constructor
    · rintro ⟨report, hReport, hCpu, hMem, -⟩
      obtain ⟨hFits, load, hLoad, rfl⟩ := generateHealthReport_eq_ok.mp hReport
      refine ⟨hCpu, ?_⟩
      rintro _ ⟨⟩
      rw [Int.cast_inj.mp hMem] at hLoad
      exact ⟨hFits, memLoad_start_iff.mp hLoad⟩
    · rintro ⟨hCpu, hLines⟩
      obtain ⟨hFits, hComputes⟩ := hLines lines rfl
      refine ⟨_, generateHealthReport_eq_ok.mpr ⟨hFits, _, memLoad_start_iff.mpr hComputes, rfl⟩,
        hCpu, rfl, ?_⟩
      intro total available hTotal hAvailable hPos hZero hLe
      exact usedPercent_mem_range hTotal hAvailable hPos hZero hLe

example : generateHealthReport (fun _ => some (1 / 2)) (some (ascii "0.50 0.40 0.30 1/467 12345\n"))
    (some [ascii "MemTotal:       16000000 kB\n", ascii "MemFree:         1000000 kB\n",
      ascii "MemAvailable:    4000000 kB\n"]) = .ok ⟨some (1 / 2), 75⟩ := by
  decide +kernel

/-- A file without a total. -/
theorem not_measuresRight_no_total :
    ¬ ∀ (scanFloat : Bytes → Option ℚ) (loadavg : Option Bytes) (meminfo : Option (List Bytes)),
      MeasuresRight scanFloat loadavg meminfo := by
  intro h
  obtain ⟨report, hReport, -⟩ := h (fun _ => none) none
    (some [ascii "MemAvailable:    8000000 kB\n"])
  have hFault : generateHealthReport (fun _ => none) none
      (some [ascii "MemAvailable:    8000000 kB\n"]) = .error .unassigned := by
    decide
  rw [hFault] at hReport
  cases hReport

end Balancer
