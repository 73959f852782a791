import Topomalloc.Machine

/-! The sampling countdown (`sampling.rs`). An interval is drawn as the mean times a
fixed-point logarithm of the draw and becomes an `i64`. It is positive and grows with the
mean as long as the product stays below `2^63`; beyond that it wraps, and a sample can
leave the countdown lower than it found it. -/
namespace Topomalloc

/-- `as i64` of a `u64`. -/
def asI64 (n : Nat) : Int := if n < 2 ^ 63 then n else n - 2 ^ 64

/-- `i64` arithmetic, which wraps in a release build. -/
def wrapI64 (n : Int) : Int := n.bmod (2 ^ 64)

/-- `Rng`: a SplitMix64 stream. -/
structure Rng where
  state : UInt64
  deriving DecidableEq, Repr

/-- `next_u64`. -/
def Rng.nextU64 (rng : Rng) : UInt64 × Rng :=
  let state := rng.state + 0x9e3779b97f4a7c15
  let z := (state ^^^ (state >>> 30)) * 0xbf58476d1ce4e5b9
  let z := (z ^^^ (z >>> 27)) * 0x94d049bb133111eb
  (z ^^^ (z >>> 31), ⟨state⟩)

/-- `LN2_Q32`. -/
def ln2Q32 : Nat := 2977044472

/-- `MEAN_CORRECTION_Q32`. -/
def meanCorrectionQ32 : Nat := 4127133696

/-- `log2_r_q32`: the place of the leading one, and the 32 bits below it. -/
def log2Q32 (r : Nat) : Nat :=
  if r = 0 then 0
  else
    let clz := 63 - r.log2
    let norm := (r <<< clz) % 2 ^ 64
    ((63 - clz) <<< 32) ||| ((norm <<< 1) % 2 ^ 64) >>> 32

/-- `neg_ln_u_q32`; it fits a `u64`. -/
def negLnQ32 (r : Nat) : Nat := (((64 <<< 32) - log2Q32 r) * ln2Q32) >>> 32

/-- `corrected`, a `u128`. -/
def corrected (mean r : Nat) : Nat := (((mean * negLnQ32 r) >>> 32) * meanCorrectionQ32) >>> 32

/-- What `exp_interval` makes of the draw `r`. -/
def intervalOf (mean r : Nat) : Nat := max (corrected mean r % 2 ^ 64) 1

/-- `exp_interval`. -/
def expInterval (mean : Nat) (rng : Rng) : Nat × Rng := (intervalOf mean rng.nextU64.1.toNat, rng.nextU64.2)

/-- `Sampler`; a rate of zero disables it. -/
structure Sampler where
  sampleRateBytes : Nat
  rng : Rng
  bytesUntil : Int
  deriving DecidableEq, Repr

namespace Sampler

/-- `Sampler::new`. -/
def new (rate : Nat) (seed : UInt64) : Sampler :=
  if rate = 0 then ⟨rate, ⟨seed⟩, 2 ^ 63 - 1⟩
  else ⟨rate, (expInterval rate ⟨seed⟩).2, asI64 (expInterval rate ⟨seed⟩).1⟩

/-- The countdown after `bytes` are taken off. -/
def crossing (s : Sampler) (bytes : Nat) : Int := wrapI64 (s.bytesUntil - asI64 bytes)

/-- `should_sample`. -/
def shouldSample (s : Sampler) (bytes : Nat) : Bool × Sampler :=
  if s.sampleRateBytes = 0 then (false, s)
  else if 0 < s.crossing bytes then (false, { s with bytesUntil := s.crossing bytes })
  else
    let drawn := expInterval s.sampleRateBytes s.rng
    (true, { s with rng := drawn.2, bytesUntil := wrapI64 (s.crossing bytes + asI64 drawn.1) })

end Sampler

theorem negLnQ32_le (r : Nat) : negLnQ32 r ≤ 64 * ln2Q32 := by
  rw [negLnQ32, Nat.shiftRight_eq_div_pow, Nat.shiftLeft_eq]
  have most : 64 * 2 ^ 32 - log2Q32 r ≤ 64 * 2 ^ 32 := Nat.sub_le _ _
  have product := Nat.mul_le_mul_right ln2Q32 most
  refine Nat.div_le_of_le_mul (product.trans_eq ?_)
  rw [Nat.mul_comm 64, Nat.mul_assoc]

variable {mean : Nat}

theorem corrected_mono (r : Nat) (le : m ≤ mean) : corrected m r ≤ corrected mean r := by
  simp only [corrected, Nat.shiftRight_eq_div_pow]
  gcongr

/-- One more byte of mean adds a small multiple of it. -/
theorem corrected_succ_le (mean r : Nat) : corrected (mean + 1) r ≤ corrected mean r + 47 := by
  have slope := negLnQ32_le r
  simp only [corrected, Nat.shiftRight_eq_div_pow, Nat.add_one_mul, ln2Q32, meanCorrectionQ32]
    at slope ⊢
  omega

/-- Where the product leaves the `i64` range it does not jump over the negative half. -/
theorem exists_negative (large : 2 ^ 63 ≤ corrected mean r) :
    ∃ m ≤ mean, 2 ^ 63 ≤ corrected m r ∧ corrected m r < 2 ^ 64 := by
  induction mean with
  | zero => simp [corrected] at large
  | succ mean ih =>
    by_cases before : 2 ^ 63 ≤ corrected mean r
    · obtain ⟨m, le, found⟩ := ih before
      exact ⟨m, by omega, found⟩
    · have step := corrected_succ_le mean r
      exact ⟨mean + 1, le_rfl, large, by omega⟩

theorem asI64_intervalOf (small : corrected mean r < 2 ^ 63) :
    asI64 (intervalOf mean r) = max (corrected mean r) 1 := by
  rw [intervalOf, Nat.mod_eq_of_lt (by omega), asI64, if_pos (by omega)]

theorem Sampler.countdown_grows {s : Sampler}
    (small : corrected s.sampleRateBytes s.rng.nextU64.1.toNat < 2 ^ 63)
    (fired : (s.shouldSample bytes).1 = true) :
    s.crossing bytes < (s.shouldSample bytes).2.bytesUntil := by
  unfold shouldSample at fired ⊢
  split at fired
  · contradiction
  next enabled =>
    rw [if_neg enabled]
    split at fired
    · contradiction
    next crossed =>
      have low : -2 ^ 63 ≤ s.crossing bytes := Int.le_bmod (by decide)
      have exact_ := asI64_intervalOf small
      rw [if_neg crossed]
      simp only [expInterval, exact_, wrapI64]
      rw [Int.bmod_eq_of_le (by omega) (by omega)]
      omega

/-- The greatest mean whose product with every draw's logarithm fits an `i64`. -/
def maxMean : Nat := 216369287626618416

/-- The product is greatest for the draw 0. -/
theorem corrected_lt (r : Nat) (le : mean ≤ maxMean) : corrected mean r < 2 ^ 63 := by
  have slope := negLnQ32_le r
  have product := Nat.mul_le_mul le slope
  simp only [corrected, Nat.shiftRight_eq_div_pow, maxMean, ln2Q32, meanCorrectionQ32] at product ⊢
  omega

theorem le_corrected_zero (lt : maxMean < mean) : 2 ^ 63 ≤ corrected mean 0 := by
  have slope : negLnQ32 0 = 64 * ln2Q32 := by
    rw [negLnQ32, log2Q32, if_pos rfl, Nat.shiftRight_eq_div_pow, Nat.shiftLeft_eq]
    omega
  simp only [corrected, slope, Nat.shiftRight_eq_div_pow, maxMean, ln2Q32, meanCorrectionQ32] at lt ⊢
  omega

/-- Whatever is drawn, every mean up to `mean` has a positive interval that grows with the
mean, and each sample fired raises the countdown, exactly when `mean` is at most
`maxMean`. -/
theorem interval_progresses_iff (mean : UInt64) :
    (∀ (r : UInt64) (m : Nat), 1 ≤ m → m ≤ mean.toNat → 1 ≤ asI64 (intervalOf m r.toNat) ∧
      asI64 (intervalOf m r.toNat) ≤ asI64 (intervalOf mean.toNat r.toNat) ∧
      ∀ (s : Sampler) (bytes : Nat), s.sampleRateBytes = m → s.rng.nextU64.1 = r →
        (s.shouldSample bytes).1 = true → s.crossing bytes < (s.shouldSample bytes).2.bytesUntil) ↔
    mean.toNat ≤ maxMean := by
  constructor
  · intro progresses
    by_contra large
    obtain ⟨m, le, negative, below⟩ := exists_negative (le_corrected_zero (Nat.lt_of_not_le large))
    have positive : 1 ≤ m := by
      by_contra zero
      obtain rfl : m = 0 := by omega
      simp [corrected] at negative
    have interval := (progresses 0 m positive le).1
    rw [UInt64.toNat_zero, intervalOf, Nat.mod_eq_of_lt below, asI64, if_neg (by omega)] at interval
    omega
  · intro small r m positive le
    have mono := corrected_mono r.toNat le
    have fits := corrected_lt r.toNat (le.trans small)
    rw [asI64_intervalOf fits, asI64_intervalOf (corrected_lt r.toNat small)]
    refine ⟨by omega, by omega, ?_⟩
    rintro s bytes rfl rfl fired
    exact s.countdown_grows fits fired

/-- With the greatest mean, the first draw of seed 1 fires a sample at zero and leaves the
countdown below it. -/
theorem shouldSample_falls :
    (Sampler.mk (2 ^ 64 - 1) ⟨1⟩ 1).crossing 1 = 0 ∧
    ((Sampler.mk (2 ^ 64 - 1) ⟨1⟩ 1).shouldSample 1).1 = true ∧
    ((Sampler.mk (2 ^ 64 - 1) ⟨1⟩ 1).shouldSample 1).2.bytesUntil < 0 ∧
    asI64 (intervalOf (2 ^ 64 - 1) (Rng.mk 1).nextU64.1.toNat) < 1 := by
  decide +kernel

end Topomalloc
