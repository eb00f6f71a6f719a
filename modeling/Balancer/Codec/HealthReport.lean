import Balancer.Cpp.Bytes

/-!
# Health reports

`HealthReport_t` and `HealthReportSerialzer` (`HealthReporterDS.hpp`): two packed `float` values,
copied byte by byte on a little-endian machine. A `float` is its bit pattern here, since the
programs only move it.
-/

namespace Balancer

open Cpp

/-- The bit pattern of a `float`. -/
abbrev FloatBits := BitVec 32

structure HealthReport where
  cpuLoad : FloatBits
  memLoad : FloatBits
  deriving DecidableEq, Repr

namespace HealthReport

/-- The four bytes of a `float` in memory. -/
def floatBytes (x : FloatBits) : Bytes :=
  [UInt8.ofNat x.toNat, UInt8.ofNat (x.toNat / 256), UInt8.ofNat (x.toNat / 65536),
    UInt8.ofNat (x.toNat / 16777216)]

/-- The `float` whose memory holds the given four bytes. -/
def floatOfBytes (bytes : Bytes) : FloatBits :=
  BitVec.ofNat 32 ((bytes.getD 0 0).toNat + 256 * (bytes.getD 1 0).toNat +
    65536 * (bytes.getD 2 0).toNat + 16777216 * (bytes.getD 3 0).toNat)

def serialize (report : HealthReport) : Bytes :=
  floatBytes report.cpuLoad ++ floatBytes report.memLoad

/-- `deserialize`: eight bytes are copied from `raw_data.c_str()`, which ends with a NUL. -/
def deserialize (rawData : Bytes) : Result HealthReport := do
  let bytes ← readAt (rawData ++ [0]) 0 8
  pure ⟨floatOfBytes (bytes.take 4), floatOfBytes (bytes.drop 4)⟩

theorem floatOfBytes_floatBytes (x : FloatBits) : floatOfBytes (floatBytes x) = x := by
  have hx := x.isLt
  apply BitVec.eq_of_toNat_eq
  simp only [floatOfBytes, floatBytes, List.getD_cons_zero, List.getD_cons_succ, BitVec.toNat_ofNat,
    UInt8.toNat_ofNat']
  omega

@[simp] theorem length_floatBytes (x : FloatBits) : (floatBytes x).length = 4 := rfl

@[simp] theorem length_serialize (report : HealthReport) : report.serialize.length = 8 := rfl

/-- What `deserialize` makes of a string that starts with a serialized report. -/
theorem deserialize_serialize_append (report : HealthReport) (rest : Bytes) :
    deserialize (report.serialize ++ rest) = .ok report := by
  have hLe : 0 + 8 ≤ (report.serialize ++ rest ++ [0]).length := by
    simp only [List.length_append, length_serialize]
    omega
  have hBytes : ((report.serialize ++ rest ++ [0]).drop 0).take 8 = report.serialize := by
    rw [List.drop_zero, List.append_assoc, List.take_left' (length_serialize report)]
  rw [deserialize, readAt_of_le hLe, ok_bind, hBytes]
  simp only [serialize, List.take_left' (length_floatBytes report.cpuLoad),
    List.drop_left' (length_floatBytes report.cpuLoad), floatOfBytes_floatBytes, pure_eq_ok]

/-- A string of at least seven bytes can be deserialized: the eighth may be its final NUL. -/
theorem endsNormally_deserialize {rawData : Bytes} :
    EndsNormally (deserialize rawData) ↔ 7 ≤ rawData.length := by
  rw [deserialize, endsNormally_bind]
  constructor
  · rintro ⟨bytes, hBytes, -⟩
    have := (readAt_eq_ok.mp hBytes).1
    simp only [List.length_append, List.length_singleton] at this
    omega
  · intro h
    refine ⟨_, readAt_of_le ?_, endsNormally_ok _⟩
    simp only [List.length_append, List.length_singleton]
    omega

end HealthReport

end Balancer
