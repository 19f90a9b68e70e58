import LeaseLock.Options
import Mathlib.Order.Bounds.Defs

/-!
# Usable options

**What the check accepts** (`Options.Usable`). The check looks for faults one by one. Options
without a fault have a name and an owner, a lease of at most a day, an interval that is shorter than
the lease and not zero, and bounds of the naps in their order. What is proved of accepted options is
proved from these.

**Whole seconds** (`Duration.coveringSecs`). The least number of seconds, but at least one, that is
not shorter than the duration. The seconds of a lease are these, cut at 64 bits, and a lease of at
most a day is never cut.

Main results: `Options.check_eq_ok_iff`, `Duration.isLeast_coveringSecs`.
-/

namespace LeaseLock

/-! ## Whole seconds -/

namespace Duration

variable {d d' : Duration} {n : Nat}

/-- The least number of whole seconds that covers the duration, and at least one. -/
def coveringSecs (d : Duration) : Nat := max 1 ((d.nanos + (perSecond - 1)) / perSecond)

theorem nanos_ofSecs (n : Nat) : (ofSecs n).nanos = n * perSecond := Nat.add_zero _

theorem ofSecs_mono {m : Nat} (h : n ≤ m) : ofSecs n ≤ ofSecs m :=
  Nat.add_le_add_right (Nat.mul_le_mul_right perSecond h) 0

/-- A number of seconds covers the duration if it is not below the quotient, rounded up. -/
theorem le_ofSecs_iff : d ≤ .ofSecs n ↔ (d.nanos + (perSecond - 1)) / perSecond ≤ n := by
  show d.nanos ≤ (ofSecs n).nanos ↔ _
  rw [nanos_ofSecs]
  simp only [perSecond]
  omega

theorem isLeast_coveringSecs (d : Duration) :
    IsLeast {n | 1 ≤ n ∧ d ≤ .ofSecs n} d.coveringSecs where
  left := ⟨Nat.le_max_left .., le_ofSecs_iff.2 (Nat.le_max_right ..)⟩
  right _ h := Nat.max_le.2 ⟨h.1, le_ofSecs_iff.1 h.2⟩

theorem le_ofSecs_coveringSecs (d : Duration) : d ≤ .ofSecs d.coveringSecs :=
  (isLeast_coveringSecs d).1.2

theorem coveringSecs_ofSecs (h : 1 ≤ n) : (ofSecs n).coveringSecs = n := by
  simp only [coveringSecs, nanos_ofSecs, perSecond]
  omega

theorem coveringSecs_mono (h : d ≤ d') : d.coveringSecs ≤ d'.coveringSecs :=
  (isLeast_coveringSecs d).2
    ⟨Nat.le_max_left .., Nat.le_trans h (le_ofSecs_coveringSecs d')⟩

/-- Rounding adds less than a second to a duration that is not zero. -/
theorem ofSecs_coveringSecs_lt (h : 0 < d.nanos) :
    (ofSecs d.coveringSecs).nanos < d.nanos + perSecond := by
  rw [nanos_ofSecs]
  simp only [coveringSecs, perSecond]
  omega

theorem isZero_iff : d.isZero = true ↔ d.nanos = 0 := beq_iff_eq

end Duration

namespace Options

variable {o o' : Options}

/-! ## Usable options -/

/-- What the check accepts. -/
structure Usable (o : Options) : Prop where
  name : o.name ≠ ""
  owner : o.owner ≠ ""
  lease_le : o.lease ≤ maxLease
  interval_pos : 0 < o.interval.nanos
  interval_lt : o.interval < o.lease
  naps : o.minNap ≤ o.maxNap

theorem ite_some_eq_none_iff {p : Prop} [Decidable p] {fault : Misconfiguration}
    {rest : Option Misconfiguration} :
    (if p then some fault else rest) = none ↔ ¬p ∧ rest = none := by
  split <;> simp_all

theorem fault?_eq_none_iff : o.fault? = none ↔ o.Usable := by
  simp only [fault?, ite_some_eq_none_iff, Duration.isZero_iff, not_or, and_true]
  constructor
  · rintro ⟨name, owner, -, hlease, ⟨hpos, hlt⟩, hnaps⟩
    exact ⟨name, owner, Nat.le_of_not_lt hlease, Nat.pos_of_ne_zero hpos, Nat.lt_of_not_le hlt,
      Nat.le_of_not_lt hnaps⟩
  · intro h
    have hpos : 0 < o.lease.nanos := Nat.lt_trans h.interval_pos h.interval_lt
    exact ⟨h.name, h.owner, Nat.ne_of_gt hpos, Nat.not_lt_of_le h.lease_le,
      ⟨Nat.ne_of_gt h.interval_pos, Nat.not_le_of_lt h.interval_lt⟩, Nat.not_lt_of_le h.naps⟩

/-- **The check accepts the usable options**, and no others. -/
theorem check_eq_ok_iff : o.check = .ok () ↔ o.Usable := by
  rw [← fault?_eq_none_iff]
  unfold check
  cases o.fault? <;> simp

/-! ## Leases in whole units -/

theorem wholeSecs_eq (o : Options) : o.wholeSecs = min o.lease.coveringSecs maxInt64 := rfl

theorem wholeSecs_mono (h : o.lease ≤ o'.lease) : o.wholeSecs ≤ o'.wholeSecs :=
  Nat.le_min.2 ⟨Nat.le_trans (Nat.min_le_left ..) (Duration.coveringSecs_mono h),
    Nat.min_le_right ..⟩

namespace Usable

theorem lease_pos (h : o.Usable) : 0 < o.lease.nanos := Nat.lt_trans h.interval_pos h.interval_lt

theorem coveringSecs_le (h : o.Usable) : o.lease.coveringSecs ≤ 86400 :=
  (Duration.isLeast_coveringSecs o.lease).2 ⟨by decide, h.lease_le⟩

theorem wholeSecs_eq (h : o.Usable) : o.wholeSecs = o.lease.coveringSecs :=
  Nat.min_eq_left (Nat.le_trans h.coveringSecs_le (by decide))

theorem millis_le (h : o.Usable) : o.lease.millis ≤ maxInt64 := by
  have hday : maxLease.millis ≤ maxInt64 := by decide
  exact Nat.le_trans (Nat.div_le_div_right h.lease_le) hday

theorem wholeMillis_eq (h : o.Usable) : o.wholeMillis = o.lease.millis :=
  Nat.min_eq_left h.millis_le

end Usable

end Options

end LeaseLock
