import Mathlib.Tactic.Ring
import Ciruela.Foundation.Panic

/-!
# Times and milliseconds

A system time is a 64-bit count of seconds from the epoch, which may be negative, and the
nanoseconds since that second. Timestamps travel and are stored as 64-bit milliseconds.
-/

namespace Ciruela

open Foundation

/-- `std::time::Duration`. -/
structure StdDuration where
  secs : Nat
  nanos : Nat
  secs_lt : secs < 2 ^ 64
  nanos_lt : nanos < 1000000000
deriving DecidableEq

/-- `std::time::SystemTime` on Unix. -/
structure SystemTime where
  secs : Int
  nanos : Nat
  le_secs : -2 ^ 63 ≤ secs
  secs_lt : secs < 2 ^ 63
  nanos_lt : nanos < 1000000000
deriving DecidableEq

/-- `UNIX_EPOCH`. -/
def unixEpoch : SystemTime := ⟨0, 0, by decide, by decide, by decide⟩

namespace SystemTime

/-- `SystemTime + Duration`. -/
def add (time : SystemTime) (duration : StdDuration) : Run SystemTime :=
  let nanos := time.nanos + duration.nanos
  let secs := time.secs + duration.secs + (nanos / 1000000000 : Nat)
  if bounded : secs < 2 ^ 63 then
    .ok {
      secs := secs
      nanos := nanos % 1000000000
      le_secs := by have := time.le_secs; omega
      secs_lt := bounded
      nanos_lt := Nat.mod_lt _ (by decide) }
  else .error (.expect "overflow when adding duration to time")

/-- `SystemTime::duration_since(UNIX_EPOCH)`: nothing for a time before the epoch. -/
def sinceEpoch (time : SystemTime) : Option StdDuration :=
  if after : 0 ≤ time.secs then
    some {
      secs := time.secs.toNat
      nanos := time.nanos
      secs_lt := by have := time.secs_lt; omega
      nanos_lt := time.nanos_lt }
  else none

end SystemTime

/-- `Duration::from_millis`. -/
def StdDuration.fromMillis (ms : UInt64) : StdDuration where
  secs := ms.toNat / 1000
  nanos := ms.toNat % 1000 * 1000000
  secs_lt := by have : ms.toNat < 2 ^ 64 := ms.toNat_lt; omega
  nanos_lt := by omega

/-- Milliseconds since the epoch. -/
def toMs (time : SystemTime) : Run UInt64 := do
  let elapsed ← Run.expect time.sinceEpoch "timestamp is always after unix epoch"
  if elapsed.secs * 1000 < 2 ^ 64 then
    let ms := elapsed.secs * 1000 + elapsed.nanos / 1000000
    if ms < 2 ^ 64 then return UInt64.ofNat ms
    else .error (.overflow "attempt to add with overflow")
  else .error (.overflow "attempt to multiply with overflow")

/-- `from_ms`. -/
def fromMs (ms : UInt64) : Run SystemTime := unixEpoch.add (StdDuration.fromMillis ms)

/-- Every count of milliseconds is a time. -/
theorem fromMs_eq_ok (ms : UInt64) : ∃ time, fromMs ms = .ok time ∧
    time.secs = (ms.toNat / 1000 : Nat) ∧ time.nanos = ms.toNat % 1000 * 1000000 := by
  have bounded : ms.toNat < 2 ^ 64 := ms.toNat_lt
  have short : ms.toNat % 1000 * 1000000 / 1000000000 = 0 := by omega
  simp only [fromMs, SystemTime.add, unixEpoch, StdDuration.fromMillis, Nat.zero_add, short]
  rw [dif_pos (by omega)]
  refine ⟨_, rfl, ?_, ?_⟩
  · simp
  · exact Nat.mod_eq_of_lt (by omega)

/-- No count of milliseconds is changed by way of a time, and nothing overflows on it. -/
theorem toMs_of_fromMs {ms : UInt64} {time : SystemTime} (isTime : fromMs ms = .ok time) :
    toMs time = .ok ms := by
  obtain ⟨found, isFound, secs, nanos⟩ := fromMs_eq_ok ms
  obtain rfl := Except.ok.inj (isFound.symm.trans isTime)
  have bounded : ms.toNat < 2 ^ 64 := ms.toNat_lt
  have whole : ms.toNat / 1000 * 1000 + ms.toNat % 1000 * 1000000 / 1000000 = ms.toNat := by
    omega
  simp only [toMs, SystemTime.sinceEpoch, secs, nanos]
  rw [dif_pos (by omega)]
  simp only [Run.expect, Run.ok_bind, Int.toNat_natCast, whole]
  rw [if_pos (by omega), if_pos bounded, UInt64.ofNat_toNat]
  rfl

end Ciruela
