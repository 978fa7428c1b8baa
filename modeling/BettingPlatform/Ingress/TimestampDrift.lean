import BettingPlatform.Foundations.FloatTruncation
import BettingPlatform.Ingress.Bets
import Mathlib.Tactic.LinearCombination

/-!
# How far floats move a timestamp

`timestamp_to_epoch_ms` takes the seconds of a timestamp as a float, multiplies it by 1000 in
floats and cuts the product off.  The seconds are not exact, and the product is rounded, so the
millisecond may be the one before or the one behind the timestamp's own.

Main results:

- Theorem `timestampToEpochMs_eq`: the millisecond is the timestamp's own, moved by `drift`.
- Theorem `drift_bounds`: a timestamp is moved by one millisecond at most.
- Theorem `movedApart_of_recent`: timestamps between November 2004 and January 2038 are moved
  neither apart nor together.
-/

namespace BettingPlatform
namespace Ingress

open Python

/-! ## The drift of a timestamp -/

/-- The binary places of the float nearest to the seconds. -/
def secondsPlaces (timestamp : Nat) : Nat :=
  PyFloat.places timestamp (10 ^ 6)

/-- Its mantissa. -/
def secondsMantissa (timestamp : Nat) : Nat :=
  Decimal.roundDiv .halfEven (timestamp * 2 ^ secondsPlaces timestamp) (10 ^ 6)

/-- By how many microseconds the float lies above the timestamp. -/
def secondsError (timestamp : Nat) : ℚ :=
  secondsMantissa timestamp / 2 ^ secondsPlaces timestamp * 10 ^ 6 - timestamp

/-- The binary places of a float of the size of its milliseconds. -/
def millisPlaces (timestamp : Nat) : Nat :=
  PyFloat.places (secondsMantissa timestamp * 1000) (2 ^ secondsPlaces timestamp)

/-- By how many milliseconds a timestamp is moved: by those in the microseconds behind its own
millisecond, the error of the seconds, and half a last place of the milliseconds. -/
def drift (timestamp : Nat) : Int :=
  ⌊((timestamp % 1000 : Nat) + secondsError timestamp + 500 / 2 ^ millisPlaces timestamp) / 1000⌋

/-- A timestamp in microseconds that `datetime` can hold, from the epoch on. -/
def IsTimestamp (timestamp : Nat) : Prop :=
  timestamp < maxTimestamp

section Drift

variable {timestamp : Nat}

/-- Timestamps have less than `2 ^ 38` seconds. -/
theorem IsTimestamp.lt_seconds (h : IsTimestamp timestamp) : timestamp < 2 ^ 38 * 10 ^ 6 := by
  unfold IsTimestamp maxTimestamp at h
  omega

/-- Every timestamp has at least fifteen binary places in its seconds. -/
theorem IsTimestamp.secondsPlaces_ge (h : IsTimestamp timestamp) :
    15 ≤ secondsPlaces timestamp :=
  PyFloat.places_ge h.lt_seconds

/-- The mantissa is as far from the seconds as rounding allows. -/
theorem secondsMantissa_bounds (timestamp : Nat) :
    2 * (timestamp * 2 ^ secondsPlaces timestamp) ≤
        2 * (secondsMantissa timestamp * 10 ^ 6) + 10 ^ 6 ∧
      2 * (secondsMantissa timestamp * 10 ^ 6) ≤
        2 * (timestamp * 2 ^ secondsPlaces timestamp) + 10 ^ 6 :=
  Decimal.roundDiv_bounds .halfEven _ (by decide)

/-- Half a last place of the seconds, in microseconds. -/
theorem abs_secondsError_le (timestamp : Nat) :
    |secondsError timestamp| ≤ 500000 / 2 ^ secondsPlaces timestamp := by
  obtain ⟨hlow, hhigh⟩ := secondsMantissa_bounds timestamp
  have hlowQ : 2 * ((timestamp : ℚ) * 2 ^ secondsPlaces timestamp) ≤
      2 * (secondsMantissa timestamp * 10 ^ 6) + 10 ^ 6 := by exact_mod_cast hlow
  have hhighQ : 2 * ((secondsMantissa timestamp : ℚ) * 10 ^ 6) ≤
      2 * (timestamp * 2 ^ secondsPlaces timestamp) + 10 ^ 6 := by exact_mod_cast hhigh
  have hpos : (0 : ℚ) < 2 ^ secondsPlaces timestamp := by positivity
  unfold secondsError
  generalize (2 : ℚ) ^ secondsPlaces timestamp = scale at *
  have herror : (secondsMantissa timestamp : ℚ) / scale * 10 ^ 6 - timestamp =
      (secondsMantissa timestamp * 10 ^ 6 - timestamp * scale) / scale := by
    field_simp
  rw [herror, abs_div, abs_of_pos hpos]
  refine div_le_div_of_nonneg_right ?_ hpos.le
  rw [abs_le]
  constructor <;> linarith

/-- The product has less than `2 ^ 49` milliseconds. -/
theorem IsTimestamp.product_lt (h : IsTimestamp timestamp) :
    secondsMantissa timestamp * 1000 < 2 ^ 49 * 2 ^ secondsPlaces timestamp := by
  have hhigh := (secondsMantissa_bounds timestamp).2
  have hplaces : 2 ^ 15 ≤ 2 ^ secondsPlaces timestamp :=
    Nat.pow_le_pow_right (by decide) h.secondsPlaces_ge
  have hlt := Nat.mul_lt_mul_of_pos_right h.lt_seconds
    (show 0 < 2 ^ secondsPlaces timestamp by positivity)
  generalize 2 ^ secondsPlaces timestamp = scale at *
  omega

/-- The millisecond of the code is the timestamp's own, moved by the drift. -/
theorem timestampToEpochMs_eq (h : IsTimestamp timestamp) :
    timestampToEpochMs timestamp = .ok (timestamp / 1000 + drift timestamp) := by
  have hseconds : PyFloat.ofRatio false timestamp (10 ^ 6) =
      .finite false (secondsMantissa timestamp) (-secondsPlaces timestamp) :=
    PyFloat.ofRatio_places false h.lt_seconds (by decide)
  have hproduct := PyFloat.toInt_ofRatio (show 0 < 2 ^ secondsPlaces timestamp by positivity)
    h.product_lt (by decide)
  have hround : (PyFloat.finite false (secondsMantissa timestamp)
      (-secondsPlaces timestamp)).mulNat 1000 =
      .ofRatio false (secondsMantissa timestamp * 1000) (2 ^ secondsPlaces timestamp) := by
    simp [PyFloat.mulNat]
  have hsign : decide ((timestamp : Int) < 0) = false := by simp
  unfold timestampToEpochMs
  simp only [hsign, Int.natAbs_natCast, hseconds, hround, hproduct]
  have hsplit : (timestamp : ℚ) = 1000 * (timestamp / 1000 : Nat) + (timestamp % 1000 : Nat) := by
    exact_mod_cast (Nat.div_add_mod timestamp 1000).symm
  have hsum : ((secondsMantissa timestamp * 1000 : Nat) : ℚ) / (2 ^ secondsPlaces timestamp : Nat) +
      1 / (2 * 2 ^ millisPlaces timestamp) = (timestamp / 1000 : Nat) +
      ((timestamp % 1000 : Nat) + secondsError timestamp + 500 / 2 ^ millisPlaces timestamp) /
        1000 := by
    unfold secondsError
    push_cast
    linear_combination (1 / 1000 : ℚ) * hsplit
  rw [show PyFloat.places (secondsMantissa timestamp * 1000) (2 ^ secondsPlaces timestamp) =
    millisPlaces timestamp from rfl, hsum, Int.floor_natCast_add]
  rfl

/-- Only timestamps behind the epoch have a positive millisecond. -/
theorem timestamp_pos {instant ms : Int} (hmin : minTimestamp ≤ instant)
    (hmax : instant < maxTimestamp) (h : timestampToEpochMs instant = .ok ms) (hms : 0 < ms) :
    0 < instant := by
  by_contra hle
  obtain ⟨quotient, hsign, -⟩ := timestampToEpochMs_sign hmin hmax
  rcases (not_lt.mp hle).lt_or_eq with hneg | rfl
  · rw [if_pos hneg, h] at hsign
    have hvalue := Except.ok.inj hsign
    omega
  · obtain rfl : 0 = ms := Except.ok.inj h
    omega

/-- A timestamp is moved by one millisecond at most. -/
theorem drift_bounds (h : IsTimestamp timestamp) : -1 ≤ drift timestamp ∧ drift timestamp ≤ 1 := by
  have herror := abs_le.mp (abs_secondsError_le timestamp)
  have hplaces : (2 : ℚ) ^ 15 ≤ 2 ^ secondsPlaces timestamp :=
    pow_le_pow_right₀ (by norm_num) h.secondsPlaces_ge
  have hsmall : (500000 : ℚ) / 2 ^ secondsPlaces timestamp ≤ 31 := by
    rw [div_le_iff₀ (by positivity)]
    linarith
  have hhalf : (500 : ℚ) / 2 ^ millisPlaces timestamp ≤ 500 :=
    div_le_self (by norm_num) (one_le_pow₀ (by norm_num))
  have hhalf_pos : (0 : ℚ) < 500 / 2 ^ millisPlaces timestamp := by positivity
  have hmod : ((timestamp % 1000 : Nat) : ℚ) < 1000 := by
    exact_mod_cast Nat.mod_lt timestamp (by decide)
  have hmod_nonneg : (0 : ℚ) ≤ (timestamp % 1000 : Nat) := Nat.cast_nonneg _
  unfold drift
  constructor
  · rw [Int.le_floor]
    push_cast
    linarith
  · rw [← Int.lt_add_one_iff, Int.floor_lt]
    push_cast
    linarith

/-- From 2004-11-03T19:53:47.776Z, which is `2 ^ 40` milliseconds from the epoch, and before
2038-01-19T03:14:08Z, `2 ^ 31` seconds from it, no timestamp is moved: half a last place of the
milliseconds makes up for the error of the seconds. -/
theorem drift_eq_zero (hlow : 2 ^ 40 * 1000 ≤ timestamp) (hhigh : timestamp < 2 ^ 31 * 10 ^ 6) :
    drift timestamp = 0 := by
  have hseconds : secondsPlaces timestamp = 22 :=
    le_antisymm (PyFloat.places_le (k := 30) (by decide) (by omega)) (PyFloat.places_ge hhigh)
  obtain ⟨hmantissa_low, hmantissa_high⟩ := secondsMantissa_bounds timestamp
  rw [hseconds] at hmantissa_low hmantissa_high
  have hmillis : millisPlaces timestamp = 12 := by
    unfold millisPlaces
    rw [hseconds]
    exact le_antisymm (PyFloat.places_le (k := 40) (by decide) (by omega))
      (PyFloat.places_ge (k := 41) (by omega))
  have herror := abs_le.mp (abs_secondsError_le timestamp)
  rw [hseconds] at herror
  have hmod : ((timestamp % 1000 : Nat) : ℚ) ≤ 999 := by
    exact_mod_cast Nat.le_of_lt_succ (Nat.mod_lt timestamp (by decide))
  have hmod_nonneg : (0 : ℚ) ≤ (timestamp % 1000 : Nat) := Nat.cast_nonneg _
  unfold drift
  rw [hmillis, Int.floor_eq_zero_iff, Set.mem_Ico]
  norm_num at herror ⊢
  constructor <;> linarith

end Drift

/-- Floats move two timestamps of one millisecond alike, and two timestamps of different
milliseconds not into one. -/
def MovedApart (s t : Int) : Prop :=
  if s / 1000 = t / 1000 then drift s.toNat = drift t.toNat
  else drift s.toNat - drift t.toNat ≠ t / 1000 - s / 1000

/-- So they do between November 2004 and January 2038. -/
theorem movedApart_of_recent {s t : Int} (hs : 2 ^ 40 * 1000 ≤ s ∧ s < 2 ^ 31 * 10 ^ 6)
    (ht : 2 ^ 40 * 1000 ≤ t ∧ t < 2 ^ 31 * 10 ^ 6) : MovedApart s t := by
  have hzero : ∀ {r : Int}, 2 ^ 40 * 1000 ≤ r ∧ r < 2 ^ 31 * 10 ^ 6 → drift r.toNat = 0 :=
    fun hr => drift_eq_zero (by omega) (by omega)
  unfold MovedApart
  rw [hzero hs, hzero ht]
  split <;> omega

end Ingress
end BettingPlatform
