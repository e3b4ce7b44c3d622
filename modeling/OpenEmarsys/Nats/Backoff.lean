import OpenEmarsys.Nats.Consume
import Mathlib.Algebra.Order.Ring.Int
import Mathlib.Tactic.Ring

/-! How long `backoffDelay` waits, in 64 bits and over the integers.

The loop stops at the first delay that reaches the cap. It overflows if no doubling of the base lies
between the
cap and `2 ^ 63`.
-/

set_option autoImplicit false

namespace OpenEmarsys.Nats

def capped (opts : ConsumeOptions) (attempt : Nat) : Int :=
  min (opts.backoffBase.toInt * 2 ^ (attempt - 1)) opts.backoffMax.toInt

/-- No delay below the cap overflows when it is doubled. -/
def Fits (base most : Int) : Prop := ∀ k : Nat, base * 2 ^ k < most → base * 2 ^ (k + 1) < 2 ^ 63

section
variable {most delay : Duration}

theorem toInt_lt (delay : Duration) : delay.toInt < 2 ^ 63 := Int64.toInt_lt delay

theorem toInt_double (positive : 0 < delay.toInt) (fits : delay.toInt * 2 < 2 ^ 63) :
    (delay * 2).toInt = delay.toInt * 2 := by
  rw [Int64.toInt_mul]
  apply Int.bmod_eq_of_le
  · have two : (2 : Int64).toInt = 2 := rfl
    rw [two]
    omega
  · have two : (2 : Int64).toInt = 2 := rfl
    rw [two]
    omega

theorem toInt_overflow (overflows : 2 ^ 63 ≤ delay.toInt * 2) :
    (delay * 2).toInt = delay.toInt * 2 - 2 ^ 64 := by
  have bound := toInt_lt delay
  have two : (2 : Int64).toInt = 2 := rfl
  rw [Int64.toInt_mul, two, Int.bmod_def]
  omega

theorem Fits.double {base cap : Int} (fits : Fits base cap) : Fits (base * 2) cap := by
  intro k below
  have shift (n : Nat) : base * 2 * 2 ^ n = base * 2 ^ (n + 1) := by ring
  rw [shift] at below ⊢
  exact fits (k + 1) below

theorem le_double {base : Int} (positive : 0 < base) (n : Nat) : base ≤ base * 2 ^ n := by
  have power : (1 : Int) ≤ 2 ^ n := one_le_pow₀ (by decide)
  exact le_mul_of_one_le_right positive.le power

theorem doubled_exact (n : Nat) (positive : 0 < delay.toInt) (fits : Fits delay.toInt most.toInt) :
    min (doubled most n delay).toInt most.toInt = min (delay.toInt * 2 ^ n) most.toInt := by
  induction n generalizing delay with
  | zero => simp [doubled]
  | succ n ih =>
    rw [doubled]
    split
    · next below =>
      have here : delay.toInt * 2 < 2 ^ 63 := by
        simpa using fits 0 (by simpa using Int64.lt_iff_toInt_lt.mp below)
      have twice := toInt_double positive here
      have later := ih (by rw [twice]; omega) (by rw [twice]; exact fits.double)
      rw [later, twice]
      congr 1
      ring
    · next reached =>
      have above : most.toInt ≤ delay.toInt := by
        rw [Int64.lt_iff_toInt_lt] at reached
        omega
      rw [min_eq_right above, min_eq_right (above.trans (le_double positive _))]

theorem doubled_below (k n : Nat) (positive : 0 < delay.toInt) (below : delay.toInt * 2 ^ k < most.toInt) :
    ∃ reached : Duration, reached.toInt = delay.toInt * 2 ^ k ∧ doubled most
    (k + n) delay = doubled most n reached := by
  induction k generalizing delay with
  | zero => exact ⟨delay, by simp, by simp⟩
  | succ k ih =>
    have shift : delay.toInt * 2 * 2 ^ k = delay.toInt * 2 ^ (k + 1) := by ring
    have first : delay.toInt * 2 ≤ delay.toInt * 2 ^ (k + 1) := by
      rw [← shift]
      exact le_double (by omega) k
    have bound := toInt_lt most
    have twice := toInt_double positive (by omega)
    have later : ∃ reached : Duration, reached.toInt = (delay * 2).toInt * 2 ^ k ∧
        doubled most (k + n) (delay * 2) = doubled most n reached :=
      ih (by rw [twice]; omega) (by rw [twice, shift]; exact below)
    obtain ⟨reached, same, rest⟩ := later
    refine ⟨reached, by rw [same, twice, shift], ?_⟩
    rw [Nat.succ_add, doubled, if_pos (Int64.lt_iff_toInt_lt.mpr (by omega)), rest]

theorem toInt_backoffDelay (opts : ConsumeOptions) (attempt : Nat) :
    (backoffDelay opts attempt).toInt =
      min (doubled opts.backoffMax (attempt - 1) opts.backoffBase).toInt opts.backoffMax.toInt := by
  unfold backoffDelay
  simp only [Int64.lt_iff_toInt_lt]
  split
  · next above => rw [min_eq_right (Int.le_of_lt above)]
  · next within => rw [min_eq_left (Int.not_lt.mp within)]

theorem capped_mono (opts : ConsumeOptions) (positive : 0 < opts.backoffBase.toInt) {earlier attempt : Nat}
    (le : earlier ≤ attempt) :
    capped opts earlier ≤ capped opts attempt := by
  apply min_le_min_right
  apply Int.mul_le_mul_of_nonneg_left _ positive.le
  exact pow_le_pow_right₀ (by decide) (Nat.sub_le_sub_right le 1)

theorem capped_pos {opts : ConsumeOptions} (positive : 0 < opts.backoffBase.toInt)
    (most : 0 < opts.backoffMax.toInt) (attempt : Nat) :
    0 < capped opts attempt :=
  lt_min (positive.trans_le (le_double positive _)) most

end

/-- The delays of all attempts are the capped powers of two: positive, at most the cap, and never shorter
than an earlier one. -/
def Exact (opts : ConsumeOptions) : Prop :=
  ∀ attempt, 1 ≤ attempt → attempt < 2 ^ 64 →
      (backoffDelay opts attempt).toInt = capped opts attempt ∧
      0 < (backoffDelay opts attempt).toInt ∧
      (backoffDelay opts attempt).toInt ≤ opts.backoffMax.toInt ∧
        ∀ earlier, 1 ≤ earlier → earlier ≤ attempt →
        (backoffDelay opts earlier).toInt ≤ (backoffDelay opts attempt).toInt

/-- The delays are right for all attempts exactly if no delay below the cap overflows when doubled. -/
theorem backoff_exact_iff (opts : ConsumeOptions) (base : 0 < opts.backoffBase.toInt)
    (most : 0 < opts.backoffMax.toInt) :
    Exact opts ↔ Fits opts.backoffBase.toInt opts.backoffMax.toInt := by
  constructor
  · intro exact_ k below
    by_contra overflows
    have bound := toInt_lt opts.backoffMax
    have small : k < 64 := by
      by_contra large
      have power : (2 : Int) ^ 64 ≤ 2 ^ k := pow_le_pow_right₀ (by decide) (Nat.not_lt.mp large)
      have grows : (2 : Int) ^ k ≤ opts.backoffBase.toInt * 2 ^ k :=
        le_mul_of_one_le_left (pow_nonneg (by decide) k) base
      omega
    obtain ⟨reached, same, rest⟩ := doubled_below k 1 base below
    have next : opts.backoffBase.toInt * 2 ^ (k + 1) = reached.toInt * 2 := by rw [same]; ring
    have wrapped : (backoffDelay opts (k + 2)).toInt = min (reached.toInt * 2 - 2 ^ 64)
        opts.backoffMax.toInt := by
      rw [toInt_backoffDelay, show k + 2 - 1 = k + 1 from rfl, rest, doubled,
        if_pos (Int64.lt_iff_toInt_lt.mpr (by omega)), doubled, toInt_overflow (by omega)]
    have positive := (exact_ (k + 2) (by omega) (by omega)).2.1
    omega
  · intro fits attempt _ _
    have same (attempt : Nat) : (backoffDelay opts attempt).toInt = capped opts attempt := by
      rw [toInt_backoffDelay, doubled_exact _ base fits, capped]
    refine ⟨same attempt, ?_, ?_, fun earlier _ le => ?_⟩
    · rw [same]
      exact capped_pos base most attempt
    · rw [same]
      exact min_le_right _ _
    · rw [same, same]
      exact capped_mono opts base le

/-- The defaults. -/
theorem backoff_exact_defaults : Fits 1000000000 60000000000 ∧ Exact
    (ConsumeOptions.withDefaults ⟨0, 0, 0, 0⟩) := by
  have fits : Fits 1000000000 60000000000 := by
    intro k below
    have next : (1000000000 : Int) * 2 ^ (k + 1) = 1000000000 * 2 ^ k * 2 := by ring
    omega
  exact ⟨fits, (backoff_exact_iff (ConsumeOptions.withDefaults ⟨0, 0, 0, 0⟩) (by decide)
    (by decide)).mpr fits⟩

/-- From a quarter of the range on, the second delay may be negative. -/
theorem backoff_overflows : ¬ ∀ opts : ConsumeOptions, 0 < opts.backoffBase.toInt →
    0 < opts.backoffMax.toInt → Exact opts := by
  intro claim
  have delay := claim ⟨5, 1, 4611686018427387904, 9223372036854775807⟩ (by decide) (by decide) 2
    (by decide) (by decide)
  exact absurd delay.2.1 (by decide)

end OpenEmarsys.Nats
