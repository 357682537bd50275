import Mathlib.Tactic

/-!
# The outbound retry policy (`src/retry.rs`)

`isTransientStatus` and the delays that `backoff_with_jitter` can return.  The retry loop itself
is written in `client.rs`, once around `post_batch_once` and once around `get_ips_page`.
-/

namespace SimplyIpSync.Retry

/-- `429`, `502`, `503` and `504` are worth retrying unchanged. -/
def isTransientStatus (status : ℕ) : Bool :=
  status == 429 || status == 502 || status == 503 || status == 504

/-! ### The length of a backoff -/

/-- `capped` in `backoff_with_jitter`, in milliseconds: the base doubled `min (attempt - 1) 10`
times, never above thirty seconds.  (`2u32.checked_pow` cannot fail at an exponent of ten or
less, and `saturating_mul` saturates far above the cap.) -/
def cappedBackoffMs (baseMs attempt : ℕ) : ℕ :=
  min (baseMs * 2 ^ min (attempt - 1) 10) 30000

/-- `jitter_ceiling_ms`: half of the capped delay, at least one millisecond. -/
def jitterCeilingMs (baseMs attempt : ℕ) : ℕ :=
  max (cappedBackoffMs baseMs attempt / 2) 1

/-- `delay` is a value `backoff_with_jitter(attempt)` can return: the capped delay plus a
random whole number of milliseconds in `0..=jitter_ceiling_ms`. -/
def IsBackoff (baseMs attempt delay : ℕ) : Prop :=
  cappedBackoffMs baseMs attempt ≤ delay ∧
    delay ≤ cappedBackoffMs baseMs attempt + jitterCeilingMs baseMs attempt

instance (baseMs attempt delay : ℕ) : Decidable (IsBackoff baseMs attempt delay) :=
  inferInstanceAs (Decidable (_ ∧ _))

/-- A base of a second or more keeps every delay at a second or more. -/
theorem one_second_le_of_isBackoff {baseMs attempt delay : ℕ} (hbase : 1000 ≤ baseMs)
    (h : IsBackoff baseMs attempt delay) : 1000 ≤ delay := by
  have hpow : 1 ≤ 2 ^ min (attempt - 1) 10 := Nat.one_le_two_pow
  have hmul : 1000 * 1 ≤ baseMs * 2 ^ min (attempt - 1) 10 := Nat.mul_le_mul hbase hpow
  have hcap : 1000 ≤ cappedBackoffMs baseMs attempt := by
    rw [cappedBackoffMs, le_min_iff]
    exact ⟨by omega, by omega⟩
  exact hcap.trans h.1

end SimplyIpSync.Retry
