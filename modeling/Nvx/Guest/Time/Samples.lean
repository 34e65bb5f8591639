import Nvx.Data.Loops
import Nvx.Data.Rounding

namespace Nvx.Guest.Time

open Nvx.Data

/-! The pairing of a time sample with the guest's clock. -/

def nsecPerSec : Int := 1000000000

def scaledPpm : Int := 65536

def scaledOne : Int := scaledPpm * 1000000

def frequencyLimit : Int := 500 * scaledPpm

def hzPerKhz : UInt64 := 1000

def skewBoundNs : Int := 1000

def slewRatePpm : Int := 2000

structure TimeSample where
  utcNs : UInt64
  tsc : UInt64
  pairingNs : UInt32

structure GuestReads where
  before : UInt64
  after : UInt64
  realtimeNs : Int64
  realtimeTsc : UInt64
  realtimeHalfCycles : UInt64

structure ClockRates where
  tscHz : UInt64
  frequency : Int64

inductive Fault
  | overflow
  | divisionByZero
  | tsc (tsc before after : UInt64)
  deriving DecidableEq

def i128 (value : Int) : Except Fault Int :=
  if -2 ^ 127 ≤ value ∧ value < 2 ^ 127 then .ok value else .error .overflow

def divide (numerator denominator : Int) : Except Fault Int :=
  if denominator = 0 then .error .divisionByZero
  else i128 (numerator.tdiv denominator)

def divideRounded (numerator denominator : Int) : Except Fault Int := do
  let half ← divide denominator 2
  if 0 ≤ numerator then divide (← i128 (numerator + half)) denominator
  else divide (← i128 (numerator - half)) denominator

def divideUp (numerator denominator : Int) : Except Fault Int := do
  divide (← i128 ((← i128 (numerator + denominator)) - 1)) denominator

def clamp (low high value : Int) : Int :=
  if value < low then low else if high < value then high else value

def saturate (value : Int) : Int64 :=
  .ofInt (clamp (-2 ^ 63) (2 ^ 63 - 1) value)

def kernelTscHz (tscHz : UInt64) : UInt64 :=
  tscHz / hzPerKhz * hzPerKhz

def kernelHz (rates : ClockRates) : Int :=
  (max (kernelTscHz rates.tscHz).toNat hzPerKhz.toNat : Nat)

def heldFrequency (rates : ClockRates) : Int :=
  clamp (-frequencyLimit) frequencyLimit rates.frequency.toInt

/-- Fails when the sample's TSC lies too far outside the reads around it. -/
def checkTsc (sample : TimeSample) (reads : GuestReads) (rates : ClockRates) :
    Except Fault Unit := do
  let tscHz : Int := (max rates.tscHz.toNat 1 : Nat)
  let bound ← i128 (sample.pairingNs.toNat + skewBoundNs)
  let tolerance ← divideUp (← i128 (bound * tscHz)) nsecPerSec
  let tsc : Int := sample.tsc.toNat
  failIf (tsc < (← i128 (reads.before.toNat - tolerance)))
    (.tsc sample.tsc reads.before reads.after)
  failIf ((← i128 (reads.after.toNat + tolerance)) < tsc) (.tsc sample.tsc reads.before reads.after)

/-- The offset and its uncertainty, before they are saturated. -/
def pairWide (sample : TimeSample) (reads : GuestReads) (rates : ClockRates) :
    Except Fault (Int × Int) := do
  let cycles ← i128 (reads.realtimeTsc.toNat - sample.tsc.toNat)
  let elapsed ← divideRounded (← i128 (cycles * nsecPerSec)) (kernelHz rates)
  let scaled ← i128 (elapsed * heldFrequency rates)
  let corrected ← divideRounded scaled scaledOne
  let extrapolated ← i128 (elapsed + corrected)
  let realtime ← i128 (reads.realtimeNs.toInt - extrapolated)
  let theta ← i128 (sample.utcNs.toNat - realtime)
  let half ← i128 (reads.realtimeHalfCycles.toNat * nsecPerSec)
  let localNs ← divideUp half (kernelHz rates)
  let magnitude ← i128 extrapolated.natAbs
  let slew ← divideUp (← i128 (magnitude * slewRatePpm)) 1000000
  let bound ← i128 (sample.pairingNs.toNat + skewBoundNs)
  let epsilon ← i128 ((← i128 (bound + localNs)) + slew)
  .ok (theta, epsilon)

def pairSample (sample : TimeSample) (reads : GuestReads) (rates : ClockRates) :
    Except Fault (Int64 × Int64) := do
  checkTsc sample reads rates
  let (theta, epsilon) ← pairWide sample reads rates
  .ok (saturate theta, saturate epsilon)

def guestFrequency (correction : Int64) (tscHz : UInt64) : Except Fault (Int64 × Bool) := do
  let tscHzWide : Int := (max tscHz.toNat 1 : Nat)
  let kernelHz : Int := (kernelTscHz tscHz).toNat
  let correction := clamp (-scaledOne) scaledOne correction.toInt
  let scaled ← i128 ((← i128 (scaledOne + correction)) * kernelHz)
  let numerator ← i128 (scaled - (← i128 (scaledOne * tscHzWide)))
  let frequency ← divideRounded numerator tscHzWide
  let held := clamp (-frequencyLimit) frequencyLimit frequency
  .ok (.ofInt held, held != frequency)

theorem i128_of_lt (small : value.natAbs < 2 ^ 127) : i128 value = .ok value :=
  if_pos (by omega)

theorem i128_bind (small : value.natAbs < 2 ^ 127)
    (next : Int → Except Fault Value) : (i128 value >>= next) = next value := by
  rw [i128_of_lt small]
  rfl

theorem ok_bind (returned : first = .ok value) (next : Int → Except Fault Value) :
    (first >>= next) = next value := by
  rw [returned]
  rfl

section Division

variable {numerator denominator : Int}

theorem divide_of_lt (positive : 0 < denominator) (small : numerator.natAbs < 2 ^ 127) :
    divide numerator denominator = .ok (numerator.tdiv denominator) := by
  rw [divide, if_neg positive.ne']
  apply i128_of_lt
  have shorter := Int.natAbs_tdiv_le_natAbs numerator denominator
  omega

theorem divideRounded_of_lt (positive : 0 < denominator)
    (small : numerator.natAbs + denominator < 2 ^ 127) :
    divideRounded numerator denominator = .ok (roundAway (numerator / denominator)) := by
  rw [divideRounded, ok_bind (divide_of_lt two_pos (by omega)),
    Int.tdiv_eq_ediv_of_nonneg positive.le]
  split
  · rename_i nonneg
    rw [i128_bind (by omega), divide_of_lt positive (by omega),
      Int.tdiv_eq_ediv_of_nonneg (by omega), roundAway_div nonneg positive]
  · rename_i negative
    rw [i128_bind (by omega), divide_of_lt positive (by omega)]
    have mirrored : numerator - denominator / 2 = -(-numerator + denominator / 2) := by omega
    rw [mirrored, Int.neg_tdiv, Int.tdiv_eq_ediv_of_nonneg (by omega),
      ← roundAway_div (by omega) positive, Int.cast_neg, neg_div,
      roundAway_neg, neg_neg]

theorem divideUp_of_lt (nonneg : 0 ≤ numerator) (positive : 0 < denominator)
    (small : numerator + denominator < 2 ^ 127) :
    divideUp numerator denominator = .ok ⌈(numerator / denominator : ℚ)⌉ := by
  rw [divideUp, i128_bind (by omega), i128_bind (by omega),
    divide_of_lt positive (by omega), Int.tdiv_eq_ediv_of_nonneg (by omega), ceil_div positive]

theorem exists_divideRounded {bound : Nat} (positive : 0 < denominator)
    (small : numerator.natAbs + denominator < 2 ^ 127)
    (inside : numerator.natAbs ≤ bound * denominator) :
    ∃ quotient, divideRounded numerator denominator = .ok quotient ∧
      |(quotient - numerator / denominator : ℚ)| ≤ 1 / 2 ∧
      quotient.natAbs ≤ bound := by
  refine ⟨_, divideRounded_of_lt positive small, abs_roundAway_sub_le _, ?_⟩
  have above : (0 : ℚ) < denominator := Int.cast_pos.mpr positive
  have exact : |(numerator / denominator : ℚ)| ≤ (bound : Int) := by
    rw [abs_div, abs_of_pos above, div_le_iff₀ above]
    rw [Int.natCast_natAbs] at inside
    exact_mod_cast inside
  have rounded := abs_roundAway_le exact
  rw [← Int.natCast_natAbs] at rounded
  exact_mod_cast rounded

theorem exists_divideUp {bound : Nat} (nonneg : 0 ≤ numerator)
    (positive : 0 < denominator) (small : numerator + denominator < 2 ^ 127)
    (inside : numerator ≤ bound * denominator) :
    ∃ quotient, divideUp numerator denominator = .ok quotient ∧
      (numerator / denominator : ℚ) ≤ quotient ∧
      (quotient : ℚ) < numerator / denominator + 1 ∧
      0 ≤ quotient ∧ quotient ≤ bound := by
  refine ⟨_, divideUp_of_lt nonneg positive small, Int.le_ceil _, Int.ceil_lt_add_one _, ?_, ?_⟩
  · exact Int.ceil_nonneg (by positivity)
  · have above : (0 : ℚ) < denominator := Int.cast_pos.mpr positive
    rw [Int.ceil_le, div_le_iff₀ above]
    exact_mod_cast inside

end Division

theorem kernelTscHz_toNat (tscHz : UInt64) :
    (kernelTscHz tscHz).toNat = tscHz.toNat / 1000 * 1000 := by
  have small := tscHz.toNat_lt
  rw [kernelTscHz, hzPerKhz, UInt64.toNat_mul, UInt64.toNat_div]
  change tscHz.toNat / 1000 * 1000 % _ = _
  omega

theorem natAbs_clamp_le (limit value : Int) (nonneg : 0 ≤ limit) :
    (clamp (-limit) limit value).natAbs ≤ limit.toNat := by
  unfold clamp
  split
  · omega
  · split <;> omega

theorem clamp_of_sides (nonneg : 0 ≤ limit)
    (sides : first = second ∨ limit < first ∧ limit < second ∨
      first < -limit ∧ second < -limit) :
    clamp (-limit) limit first = clamp (-limit) limit second ∧
      (clamp (-limit) limit first != first) =
        decide (second < -limit ∨ limit < second) := by
  rw [Bool.eq_iff_iff, bne_iff_ne, decide_eq_true_iff]
  unfold clamp
  split_ifs <;> omega

theorem natAbs_mul_le (short : Int.natAbs first ≤ one) (low : Int.natAbs second ≤ other) :
    (first * second).natAbs ≤ one * other := by
  rw [Int.natAbs_mul]
  exact Nat.mul_le_mul short low

section Pairing

variable (sample : TimeSample) (reads : GuestReads) (rates : ClockRates)

/-- The most cycles that the sample can lie outside the reads. -/
def exactTolerance : Int :=
  ⌈(((sample.pairingNs.toNat + skewBoundNs) * (max rates.tscHz.toNat 1 : Nat) :
    Int) / nsecPerSec : ℚ)⌉

def exactElapsed : ℚ :=
  (reads.realtimeTsc.toNat - sample.tsc.toNat) * nsecPerSec / kernelHz rates *
    (1 + heldFrequency rates / scaledOne)

/-- The sample's TSC lies too far outside the reads around it. -/
def Outside : Prop :=
  (sample.tsc.toNat : Int) < reads.before.toNat - exactTolerance sample rates ∨
    reads.after.toNat + exactTolerance sample rates < (sample.tsc.toNat : Int)

theorem kernelHz_mem : 1000 ≤ kernelHz rates ∧ kernelHz rates < 2 ^ 64 := by
  have small := rates.tscHz.toNat_lt
  have whole : hzPerKhz.toNat = 1000 := rfl
  rw [kernelHz, kernelTscHz_toNat, whole]
  omega

theorem checkTsc_eq : (Outside sample reads rates → checkTsc sample reads rates =
      .error (.tsc sample.tsc reads.before reads.after)) ∧
    (¬ Outside sample reads rates → checkTsc sample reads rates = .ok ()) := by
  have tscSmall := sample.tsc.toNat_lt
  have beforeSmall := reads.before.toNat_lt
  have afterSmall := reads.after.toNat_lt
  have rateSmall := rates.tscHz.toNat_lt
  have pairingSmall := sample.pairingNs.toNat_lt
  have skew : skewBoundNs = 1000 := rfl
  have second : nsecPerSec = 1000000000 := rfl
  have product : ((sample.pairingNs.toNat + skewBoundNs) *
      (max rates.tscHz.toNat 1 : Nat) : Int).natAbs ≤ 2 ^ 33 * 2 ^ 64 :=
    natAbs_mul_le (by omega) (by omega)
  have nonneg : 0 ≤ (sample.pairingNs.toNat + skewBoundNs) * (max rates.tscHz.toNat 1 : Nat) :=
    Int.mul_nonneg (by omega) (by omega)
  have exact := @divideUp_of_lt _ nsecPerSec nonneg (by omega) (by omega)
  obtain ⟨tolerance, divided, -, -, least, most⟩ :=
    @exists_divideUp _ nsecPerSec (2 ^ 97) nonneg (by omega) (by omega) (by omega)
  have same : exactTolerance sample rates = tolerance :=
    Except.ok.inj (exact.symm.trans divided)
  rw [checkTsc, i128_bind (by omega), i128_bind (by omega), ok_bind divided,
    i128_bind (by omega), Outside, same]
  by_cases early : (sample.tsc.toNat : Int) < reads.before.toNat - tolerance
  · rw [failIf, if_pos early]
    exact ⟨fun _ => rfl, fun inside => absurd (.inl early) inside⟩
  · rw [failIf, if_neg early]
    change (_ → (i128 _ >>= _) = _) ∧ (_ → (i128 _ >>= _) = _)
    rw [i128_bind (by omega), failIf]
    constructor
    · intro outside
      exact if_pos (outside.resolve_left early)
    · intro inside
      exact if_neg fun late => inside (.inr late)

theorem abs_extrapolated_sub_lt {elapsed corrected : Int} (first : |(elapsed - exact : ℚ)| ≤ 1 / 2)
    (second : |(corrected - elapsed * rate : ℚ)| ≤ 1 / 2) (slow : |rate| ≤ 1 / 2000) :
    |((elapsed + corrected : Int) - exact * (1 + rate) : ℚ)| < 1.01 := by
  have split : ((elapsed + corrected : Int) - exact * (1 + rate) : ℚ) =
      (elapsed - exact) + (elapsed - exact) * rate + (corrected - elapsed * rate) := by
    push_cast
    ring
  have scaled : |(elapsed - exact) * rate| ≤ 1 / 2 * (1 / 2000) := by
    rw [abs_mul]
    exact mul_le_mul first slow (abs_nonneg _) (by norm_num)
  rw [split]
  refine lt_of_le_of_lt (abs_add_three _ _ _) ?_
  linarith

theorem pairWide_near : ∃ theta epsilon : Int, pairWide sample reads rates = .ok (theta, epsilon) ∧
      |(theta - (sample.utcNs.toNat - reads.realtimeNs.toInt +
        exactElapsed sample reads rates) : ℚ)| < 1.01 ∧
      |(epsilon - (sample.pairingNs.toNat + skewBoundNs +
        reads.realtimeHalfCycles.toNat * nsecPerSec / kernelHz rates +
        |exactElapsed sample reads rates| / 500) : ℚ)| ≤ 3 := by
  have tscSmall := sample.tsc.toNat_lt
  have utcSmall := sample.utcNs.toNat_lt
  have pairingSmall := sample.pairingNs.toNat_lt
  have realtimeSmall := reads.realtimeTsc.toNat_lt
  have halfSmall := reads.realtimeHalfCycles.toNat_lt
  have readLow := reads.realtimeNs.le_toInt
  have readHigh := reads.realtimeNs.toInt_lt
  have skew : skewBoundNs = 1000 := rfl
  have second : nsecPerSec = 1000000000 := rfl
  have one : scaledOne = 65536000000 := rfl
  have slews : slewRatePpm = 2000 := rfl
  obtain ⟨least, most⟩ := kernelHz_mem rates
  have held : (heldFrequency rates).natAbs ≤ 32768000 :=
    natAbs_clamp_le frequencyLimit _ (by decide)
  have cycles : ((reads.realtimeTsc.toNat - sample.tsc.toNat) *
      nsecPerSec).natAbs ≤ 2 ^ 64 * 1000000000 :=
    natAbs_mul_le (by omega) (by omega)
  have halfCycles : (reads.realtimeHalfCycles.toNat * nsecPerSec).natAbs ≤ 2 ^ 64 * 1000000000 :=
    natAbs_mul_le (by omega) (by omega)
  have halfNonneg : 0 ≤ reads.realtimeHalfCycles.toNat * nsecPerSec :=
    Int.mul_nonneg (by omega) (by omega)
  obtain ⟨elapsed, first, elapsedNear, elapsedSmall⟩ :=
    @exists_divideRounded ((reads.realtimeTsc.toNat - sample.tsc.toNat) *
      nsecPerSec) (kernelHz rates) (2 ^ 64 * 1000000) (by omega) (by omega)
      (by omega)
  have product := natAbs_mul_le elapsedSmall held
  obtain ⟨corrected, next, correctedNear, correctedSmall⟩ :=
    @exists_divideRounded (elapsed * heldFrequency rates) scaledOne
      (2 ^ 64 * 1000000) (by omega) (by omega) (by omega)
  obtain ⟨localNs, third, localLow, localHigh, localNonneg, localSmall⟩ :=
    @exists_divideUp (reads.realtimeHalfCycles.toNat * nsecPerSec)
      (kernelHz rates) (2 ^ 64 * 1000000) (by omega) (by omega) (by omega)
      (by omega)
  have slewed : ((elapsed + corrected).natAbs * slewRatePpm).natAbs ≤ 2 ^ 65 * 1000000 * 2000 :=
    natAbs_mul_le (by omega) (by omega)
  have slewedNonneg : 0 ≤ (elapsed + corrected).natAbs * slewRatePpm :=
    Int.mul_nonneg (by omega) (by omega)
  obtain ⟨slew, last, slewLow, slewHigh, slewNonneg, slewSmall⟩ :=
    @exists_divideUp ((elapsed + corrected).natAbs * slewRatePpm) 1000000
      (2 ^ 65 * 1000000) (by omega) (by omega) (by omega) (by omega)
  have slow : |(heldFrequency rates / scaledOne : ℚ)| ≤ 1 / 2000 := by
    have bounded : |heldFrequency rates| ≤ 32768000 := by
      rw [← Int.natCast_natAbs]
      exact_mod_cast held
    rw [one, abs_div, div_le_iff₀ (by norm_num)]
    norm_num
    exact_mod_cast bounded
  have near : |((elapsed + corrected : Int) - exactElapsed sample reads rates : ℚ)| < 1.01 := by
    push_cast at elapsedNear correctedNear
    rw [mul_div_assoc] at correctedNear
    exact abs_extrapolated_sub_lt elapsedNear correctedNear slow
  refine ⟨sample.utcNs.toNat - (reads.realtimeNs.toInt - (elapsed + corrected)),
    sample.pairingNs.toNat + skewBoundNs + localNs + slew, ?_, ?_, ?_⟩
  · rw [pairWide, i128_bind (by omega), i128_bind (by omega), ok_bind first,
      i128_bind (by omega), ok_bind next, i128_bind (by omega),
      i128_bind (by omega), i128_bind (by omega), i128_bind (by omega),
      ok_bind third, i128_bind (by omega), i128_bind (by omega), ok_bind last,
      i128_bind (by omega), i128_bind (by omega), i128_bind (by omega)]
  · convert near using 2
    push_cast
    ring
  · have apart := (abs_abs_sub_abs_le _ _).trans near.le
    obtain ⟨low, high⟩ := abs_le.mp apart
    rw [slews] at slewLow slewHigh
    push_cast [Nat.cast_natAbs] at slewLow slewHigh localLow localHigh low high ⊢
    rw [abs_le]
    constructor <;> linarith

end Pairing

section Frequency

def exactFrequency (correction : Int) (tscHz : UInt64) : ℚ :=
  (scaledOne + correction) * (kernelTscHz tscHz).toNat / tscHz.toNat - scaledOne

variable {tscHz : UInt64}

theorem exactFrequency_le_neg (tscHz : UInt64) :
    exactFrequency (-scaledOne) tscHz ≤ ((-frequencyLimit - 1 : Int) : ℚ) := by
  simp [exactFrequency, scaledOne, frequencyLimit, scaledPpm]
  norm_num

variable (positive : 0 < tscHz.toNat)
include positive

theorem exactFrequency_le (less : correction ≤ other) :
    exactFrequency correction tscHz ≤ exactFrequency other tscHz := by
  have cast : (correction : ℚ) ≤ other := Int.cast_le.mpr less
  unfold exactFrequency
  gcongr

/-- The kernel's rate is more than half of the declared one, so that doubling the
clock's rate is beyond the limit. -/
theorem le_exactFrequency (counted : (kernelTscHz tscHz).toNat ≠ 0) :
    ((frequencyLimit + 1 : Int) : ℚ) ≤ exactFrequency scaledOne tscHz := by
  have above : (0 : ℚ) < tscHz.toNat := Nat.cast_pos.mpr positive
  have whole : (scaledOne + frequencyLimit + 1) * tscHz.toNat ≤
      (scaledOne + scaledOne) * (kernelTscHz tscHz).toNat := by
    rw [kernelTscHz_toNat] at counted ⊢
    simp only [scaledOne, frequencyLimit, scaledPpm]
    omega
  rw [exactFrequency, le_sub_iff_add_le, le_div_iff₀ above]
  have cast : ((frequencyLimit + 1 + scaledOne : Int) * tscHz.toNat : ℚ) ≤
      (scaledOne + scaledOne : Int) * (kernelTscHz tscHz).toNat := by
    rw [add_comm, ← add_assoc]
    exact_mod_cast whole
  push_cast at cast ⊢
  exact cast

theorem roundAway_clamped (correction : Int) :
    let held := roundAway (exactFrequency (clamp (-scaledOne) scaledOne correction) tscHz)
    let nearest := roundAway (exactFrequency correction tscHz)
    held = nearest ∨ frequencyLimit < held ∧ frequencyLimit < nearest ∨
      held < -frequencyLimit ∧ nearest < -frequencyLimit := by
  have limit : frequencyLimit = 32768000 := rfl
  intro held nearest
  by_cases less : correction < -scaledOne
  · refine .inr (.inr ⟨?_, ?_⟩)
    · have below := roundAway_le (exactFrequency_le_neg (tscHz)) (by omega)
      simp only [held, clamp, if_pos less]
      omega
    · have below := roundAway_le ((exactFrequency_le positive less.le).trans
        (exactFrequency_le_neg tscHz)) (by omega)
      omega
  by_cases more : scaledOne < correction
  · by_cases counted : (kernelTscHz tscHz).toNat = 0
    · left
      simp [held, nearest, exactFrequency, counted]
    · have reached := le_exactFrequency positive counted
      refine .inr (.inl ⟨?_, ?_⟩)
      · have above := le_roundAway reached (by omega)
        simp only [held, clamp, if_neg less, if_pos more]
        omega
      · have above := le_roundAway (reached.trans (exactFrequency_le positive more.le)) (by omega)
        omega
  · left
    simp only [held, nearest, clamp, if_neg less, if_neg more]

theorem guestFrequency_eq (correction : Int64) :
    let nearest := roundAway (exactFrequency correction.toInt tscHz)
    ∃ frequency, guestFrequency correction tscHz = .ok (frequency,
        decide (nearest < -frequencyLimit ∨ frequencyLimit < nearest)) ∧
      frequency.toInt = clamp (-frequencyLimit) frequencyLimit nearest := by
  have limit : frequencyLimit = 32768000 := rfl
  have one : scaledOne = 65536000000 := rfl
  have rateSmall := tscHz.toNat_lt
  have wide : max tscHz.toNat 1 = tscHz.toNat := by omega
  have kernelSmall : (kernelTscHz tscHz).toNat ≤ 2 ^ 64 := by
    rw [kernelTscHz_toNat]
    omega
  have held := natAbs_clamp_le scaledOne correction.toInt (by decide)
  have scaled := natAbs_mul_le (show (scaledOne + clamp (-scaledOne) scaledOne
    correction.toInt).natAbs ≤ 2 ^ 37 by omega)
    (show ((kernelTscHz tscHz).toNat : Int).natAbs ≤ 2 ^ 64 by omega)
  have declared := natAbs_mul_le (show scaledOne.natAbs ≤ 2 ^ 36 by decide)
    (show (tscHz.toNat : Int).natAbs ≤ 2 ^ 64 by omega)
  have sides := roundAway_clamped positive correction.toInt
  have divided : ((scaledOne + clamp (-scaledOne) scaledOne correction.toInt) *
      (kernelTscHz tscHz).toNat - scaledOne * tscHz.toNat : Int) /
        ((tscHz.toNat : Int) : ℚ) = exactFrequency
          (clamp (-scaledOne) scaledOne correction.toInt) tscHz := by
    have above : (tscHz.toNat : ℚ) ≠ 0 := Nat.cast_ne_zero.mpr positive.ne'
    rw [exactFrequency]
    push_cast
    rw [sub_div, mul_div_cancel_right₀ _ above]
  simp only [guestFrequency, wide]
  rw [i128_bind (by omega), i128_bind (by omega), i128_bind (by omega),
    i128_bind (by omega), ok_bind (divideRounded_of_lt (by omega) (by omega)),
    divided]
  obtain ⟨same, limited⟩ := clamp_of_sides (by decide) sides
  refine ⟨_, congrArg _ (Prod.ext rfl limited), ?_⟩
  have inside := natAbs_clamp_le frequencyLimit
    (roundAway (exactFrequency correction.toInt tscHz)) (by decide)
  rw [same, Int64.toInt_ofInt_of_le (by omega) (by omega)]

end Frequency

/-- No operation overflows.  A sample is refused only when it lies too far outside
the reads, the offset and its uncertainty are near the exact ones, and the
frequency is the nearest one that the limit allows. -/
theorem sample_arithmetic_is_exact : (∀ sample reads rates,
      (Outside sample reads rates → pairSample sample reads rates =
        .error (.tsc sample.tsc reads.before reads.after)) ∧
      (¬ Outside sample reads rates → ∃ theta epsilon : Int,
        pairWide sample reads rates = .ok (theta, epsilon) ∧
        pairSample sample reads rates = .ok (saturate theta, saturate epsilon) ∧
        |(theta - (sample.utcNs.toNat - reads.realtimeNs.toInt +
          exactElapsed sample reads rates) : ℚ)| < 1.01 ∧
        |(epsilon - (sample.pairingNs.toNat + skewBoundNs +
          reads.realtimeHalfCycles.toNat * nsecPerSec / kernelHz rates +
          |exactElapsed sample reads rates| / 500) : ℚ)| ≤ 3)) ∧
    ∀ (correction : Int64) (tscHz : UInt64), 0 < tscHz.toNat →
      let nearest := roundAway (exactFrequency correction.toInt tscHz)
      ∃ frequency, guestFrequency correction tscHz = .ok (frequency,
          decide (nearest < -frequencyLimit ∨ frequencyLimit < nearest)) ∧
        frequency.toInt = clamp (-frequencyLimit) frequencyLimit nearest := by
  refine ⟨fun sample reads rates => ⟨?_, ?_⟩, ?_⟩
  · intro outside
    rw [pairSample, (checkTsc_eq sample reads rates).1 outside]
    rfl
  · intro inside
    obtain ⟨theta, epsilon, paired, near⟩ := pairWide_near sample reads rates
    refine ⟨theta, epsilon, paired, ?_, near⟩
    rw [pairSample, (checkTsc_eq sample reads rates).2 inside, paired]
    rfl
  · intro correction tscHz positive
    exact guestFrequency_eq positive correction

def pairedSample : TimeSample := ⟨1000000, 3000, 50⟩

def pairedReads : GuestReads := ⟨2000, 4000, 400000, 3501, 100⟩

def pairedRates : ClockRates := ⟨2000000000, 0⟩

theorem sample_is_paired : ¬ Outside pairedSample pairedReads pairedRates ∧
    (∃ theta epsilon, pairSample pairedSample pairedReads pairedRates =
        .ok (saturate theta, saturate epsilon) ∧
      |(theta - (1000000 - 400000 + 250.5) : ℚ)| < 1.01) ∧
    ∃ frequency, guestFrequency 65536 2000000000 = .ok (frequency, false) ∧
      frequency.toInt = 65536 := by
  have inside : ¬ Outside pairedSample pairedReads pairedRates := by
    unfold Outside
    decide +kernel
  have elapsed : exactElapsed pairedSample pairedReads pairedRates = 250.5 := by
    decide +kernel
  have nearest : roundAway (exactFrequency (Int64.toInt 65536) 2000000000) = 65536 := by
    decide +kernel
  obtain ⟨theta, epsilon, _, paired, near, _⟩ :=
    (sample_arithmetic_is_exact.1 pairedSample pairedReads pairedRates).2 inside
  obtain ⟨frequency, found, same⟩ := sample_arithmetic_is_exact.2 65536 2000000000 (by decide)
  rw [elapsed] at near
  rw [nearest] at found same
  exact ⟨inside, ⟨theta, epsilon, paired, near⟩, frequency, found, same⟩

end Nvx.Guest.Time
