import Dialogue.Proofs.RoundedNeighbours

/-! Rounding with digits to guard it. A number is rounded with more digits than are kept, in two parts, and then
once more. Whatever has few enough digits and bounds the number also bounds what is rounded first, so the last
rounding can go astray only where the first ones end on a tie that the number is not. -/

namespace Dialogue.Rounding

variable {mode : Rounding} {precision guard units : Nat} {part x m : ℚ} {n k : ℤ}

/-- Whole units and a part of one, which is rounded before it is added. -/
def guarded (mode : Rounding) (guard units : Nat) (part : ℚ) : ℚ :=
  mode.significant guard (units + mode.significant guard part)

/-- Multiples of the power of ten that bound the first number bound the second one, up to the next power of ten
after its leading digit. -/
structure Tracks (k : ℤ) (x m : ℚ) : Prop where
  below : ∀ {n : ℤ}, n * (10 : ℚ) ^ k ≤ x → n * (10 : ℚ) ^ k ≤ m
  above : ∀ {n : ℤ}, x ≤ n * (10 : ℚ) ^ k → n * (10 : ℚ) ^ k ≤ 10 ^ (Int.log 10 |x| + 1) → m ≤ n * (10 : ℚ) ^ k

/-- Whole units come off a multiple of a power of ten below the point. -/
private theorem natCast_eq_multiple (units : Nat) (down : k ≤ 0) : ∃ n : ℤ, (units : ℚ) = n * 10 ^ k := by
  obtain ⟨n, one⟩ := zpow_eq_multiple down
  refine ⟨units * n, ?_⟩
  rw [zpow_zero] at one
  rw [Int.cast_mul, mul_assoc, ← one]
  simp

private theorem significant_sub_units (mode : Rounding) (high : n * (10 : ℚ) ^ k ≤ 10 ^ (Int.log 10 |x| + 1))
    (low : (units : ℚ) ≤ n * 10 ^ k) (coarse : place guard x ≤ k) (down : k ≤ 0) :
    mode.significant guard (n * 10 ^ k - units) = n * 10 ^ k - units := by
  obtain ⟨taken, same⟩ := natCast_eq_multiple units down
  have multiple : (n : ℚ) * 10 ^ k - units = (n - taken : ℤ) * 10 ^ k := by
    rw [same]
    push_cast
    ring
  exact significant_of_le mode multiple (by linarith) (by linarith [Nat.cast_nonneg (α := ℚ) units]) coarse

private theorem significant_le_one (mode : Rounding) (guard : Nat) (most : part ≤ 1) :
    mode.significant guard part ≤ 1 := by
  have order := significant_mono mode guard most
  rwa [← zpow_zero (10 : ℚ), significant_zpow] at order

/-- Above the point the multiples are whole. -/
private theorem add_one_le_multiple (up : 0 ≤ k) (less : (units : ℚ) < n * 10 ^ k) : (units : ℚ) + 1 ≤ n * 10 ^ k := by
  obtain ⟨zeros, rfl⟩ := Int.eq_ofNat_of_zero_le up
  rw [zpow_natCast] at less ⊢
  have order : (units : ℤ) < n * 10 ^ zeros := by exact_mod_cast less
  exact_mod_cast order

private theorem tracks_guarded (mode : Rounding) (least : 0 ≤ part) (most : part < 1)
    (coarse : place guard (units + part) ≤ k) : Tracks k (units + part) (mode.guarded guard units part) := by
  have whole : (0 : ℚ) ≤ units := Nat.cast_nonneg units
  have positive : |(units : ℚ) + part| = units + part := abs_of_nonneg (by positivity)
  have next : (units : ℚ) + part ≤ 10 ^ (Int.log 10 |(units : ℚ) + part| + 1) := by
    rw [positive]
    exact (Int.lt_zpow_succ_log_self (by decide) _).le
  have rest := significant_nonneg mode guard least
  constructor
  · intro n below
    have outer : n * (10 : ℚ) ^ k ≤ 10 ^ (Int.log 10 |(units : ℚ) + part| + 1) := below.trans next
    rcases le_or_gt (n * (10 : ℚ) ^ k) 0 with down | up
    · exact down.trans (significant_nonneg mode guard (by positivity))
    · have inner : n * (10 : ℚ) ^ k ≤ units + mode.significant guard part := by
        rcases le_or_gt (n * (10 : ℚ) ^ k) units with inside | beyond
        · linarith
        · have fine : k ≤ 0 := by
            by_contra coarse
            linarith [add_one_le_multiple (not_le.mp coarse).le beyond]
          have fixed := significant_sub_units mode outer beyond.le coarse fine
          have order : mode.significant guard (n * 10 ^ k - units) ≤ mode.significant guard part :=
            significant_mono mode guard (by linarith)
          linarith
      rw [← significant_of_le mode rfl up.le outer coarse]
      exact significant_mono mode guard inner
  · intro n above outer
    have up : 0 ≤ n * (10 : ℚ) ^ k := le_trans (by positivity) above
    have inner : units + mode.significant guard part ≤ n * (10 : ℚ) ^ k := by
      rcases le_or_gt k 0 with fine | coarse'
      · have fixed := significant_sub_units mode outer (by linarith) coarse fine
        have order : mode.significant guard part ≤ mode.significant guard (n * 10 ^ k - units) :=
          significant_mono mode guard (by linarith)
        linarith
      · rcases least.eq_or_lt with rfl | some
        · rwa [significant_zero]
        · have next : (units : ℚ) + 1 ≤ n * 10 ^ k := add_one_le_multiple coarse'.le (by linarith)
          linarith [significant_le_one mode guard most.le]
    rw [← significant_of_le mode rfl up outer coarse]
    exact significant_mono mode guard inner

/-- The last rounding of a directed mode finds the neighbour that it would have found at once. -/
private theorem whole_of_directed (directed : mode.isNearest = false) :
    (∀ {y : ℚ}, 0 ≤ y → mode.whole y = ⌊y⌋) ∨ ∀ {y : ℚ}, 0 ≤ y → mode.whole y = ⌈y⌉ := by
  cases mode with
  | halfEven | halfUp | halfDown => cases directed
  | towardZero =>
    left
    intro y least
    simp [whole, isNearest, preferred, inward, least]
  | awayFromZero =>
    right
    intro y least
    simp [whole, isNearest, preferred, outward, least]
  | ceiling => exact .inr fun _ => rfl
  | floor => exact .inl fun _ => rfl

theorem significant_le_self (down : ∀ {y : ℚ}, 0 ≤ y → mode.whole y = ⌊y⌋) (precision : Nat) (least : 0 ≤ x) :
    mode.significant precision x ≤ x := by
  have unit : (0 : ℚ) < 10 ^ place precision x := by positivity
  rw [significant, down (by positivity), ← le_div_iff₀ unit]
  exact Int.floor_le _

theorem self_le_significant (up : ∀ {y : ℚ}, 0 ≤ y → mode.whole y = ⌈y⌉) (precision : Nat) (least : 0 ≤ x) :
    x ≤ mode.significant precision x := by
  have unit : (0 : ℚ) < 10 ^ place precision x := by positivity
  rw [significant, up (by positivity), ← div_le_iff₀ unit]
  exact Int.le_ceil _

private theorem significant_le_next (mode : Rounding) (precision : Nat) (least : 0 ≤ x) :
    mode.significant precision x ≤ 10 ^ (Int.log 10 |x| + 1) := by
  rw [abs_of_nonneg least]
  rcases least.eq_or_lt with rfl | positive
  · rw [significant_zero]
    positivity
  · exact (significant_bounds mode precision positive).2

theorem significant_significant (mode : Rounding) (precision : Nat) (least : 0 ≤ x) :
    mode.significant precision (mode.significant precision x) = mode.significant precision x :=
  significant_of_le mode rfl (significant_nonneg mode precision least) (significant_le_next mode precision least) le_rfl

theorem significant_guarded_of_directed (directed : mode.isNearest = false) (least : 0 ≤ part) (most : part < 1)
    (more : place guard (units + part) ≤ place precision (units + part)) :
    mode.significant precision (mode.guarded guard units part) = mode.significant precision (units + part) := by
  have tracks := tracks_guarded mode least most more
  have whole : (0 : ℚ) ≤ units + part := by positivity
  have again := significant_significant mode precision whole
  have rounded : (0 : ℚ) ≤ units + mode.significant guard part :=
    add_nonneg (Nat.cast_nonneg units) (significant_nonneg mode guard least)
  rcases whole_of_directed directed with down | up
  · have first := significant_le_self down guard least
    have second := significant_le_self down guard rounded
    apply le_antisymm
    · apply significant_mono
      unfold guarded
      linarith
    · rw [← again]
      exact significant_mono mode precision (tracks.below (significant_le_self down precision whole))
  · have first := self_le_significant up guard least
    have second := self_le_significant up guard rounded
    apply le_antisymm
    · rw [← again]
      apply significant_mono
      exact tracks.above (self_le_significant up precision whole) (significant_le_next mode precision whole)
    · apply significant_mono
      unfold guarded
      linarith

/-- What lies less than half a unit from a whole number goes there. -/
private theorem whole_of_near (toNearest : mode.isNearest = true) {y : ℚ} (low : n - 1 / 2 < y) (high : y < n + 1 / 2) :
    mode.whole y = n ∧ Int.fract y ≠ 1 / 2 := by
  rw [whole, if_pos toNearest]
  rcases le_or_gt (n : ℚ) y with above | below
  · have floor : ⌊y⌋ = n := Int.floor_eq_iff.mpr ⟨above, by linarith⟩
    have fraction : Int.fract y < 1 / 2 := by
      rw [Int.fract, floor]
      linarith
    exact ⟨(nearest_of_lt fraction _).trans floor, fraction.ne⟩
  · have floor : ⌊y⌋ = n - 1 := Int.floor_eq_iff.mpr ⟨by push_cast; linarith, by push_cast; linarith⟩
    have fraction : 1 / 2 < Int.fract y := by
      rw [Int.fract, floor]
      push_cast
      linarith
    have ceil : ⌈y⌉ = n := Int.ceil_eq_iff.mpr ⟨by linarith, below.le⟩
    exact ⟨(nearest_of_gt fraction _).trans ceil, fraction.ne'⟩

private theorem whole_of_half (mode : Rounding) (n : ℤ) :
    (mode.whole (n + 1 / 2) = n ∨ mode.whole (n + 1 / 2) = n + 1) ∧ Int.fract (n + 1 / 2 : ℚ) = 1 / 2 := by
  have floor : ⌊(n + 1 / 2 : ℚ)⌋ = n := Int.floor_eq_iff.mpr ⟨by linarith, by linarith⟩
  have fraction : Int.fract (n + 1 / 2 : ℚ) = 1 / 2 := by
    rw [Int.fract, floor]
    ring
  obtain ⟨low, high⟩ := whole_bounds mode (n + 1 / 2)
  rw [ceil_eq_floor_add_one (by rw [fraction]; norm_num), floor] at high
  rw [floor] at low
  exact ⟨by omega, fraction⟩

/-- The value that is rounded last lies halfway between two neighbours, and is rounded away from the number that it
stands for. -/
structure LostTie (mode : Rounding) (precision : Nat) (x m : ℚ) : Prop where
  halfway : Int.fract (m / 10 ^ place precision x) = 1 / 2
  astray : x < m ∧ m < mode.significant precision m ∨ mode.significant precision m < m ∧ m < x

/-- A value in reach of the same neighbour is rounded alike, unless it is a tie that goes astray. -/
private theorem whole_eq_iff_of_close (toNearest : mode.isNearest = true) {y w : ℚ} (low : n - 1 / 2 < y)
    (high : y < n + 1 / 2) (least : n - 1 / 2 ≤ w) (most : w ≤ n + 1 / 2) :
    mode.whole w = mode.whole y ↔
      ¬(Int.fract w = 1 / 2 ∧ (y < w ∧ w < mode.whole w ∨ mode.whole w < w ∧ w < y)) := by
  rw [(whole_of_near toNearest low high).1]
  rcases least.eq_or_lt with tie | inner
  · obtain ⟨sides, half⟩ := whole_of_half mode (n - 1)
    have same : ((n - 1 : ℤ) : ℚ) + 1 / 2 = w := by
      rw [← tie]
      push_cast
      ring
    rw [same] at sides half
    rcases sides with down | up
    · have astray : ((n - 1 : ℤ) : ℚ) < w := by
        push_cast
        linarith
      rw [down]
      exact iff_of_false (by omega) (not_not.mpr ⟨half, .inr ⟨astray, by linarith⟩⟩)
    · rw [up]
      refine iff_of_true (by omega) fun ⟨_, astray⟩ => ?_
      push_cast at astray
      rcases astray with ⟨_, _⟩ | ⟨_, _⟩ <;> linarith
  · rcases most.eq_or_lt with tie | outer
    · obtain ⟨sides, half⟩ := whole_of_half mode n
      rw [← tie] at sides half
      rcases sides with down | up
      · rw [down]
        refine iff_of_true rfl fun ⟨_, astray⟩ => ?_
        rcases astray with ⟨_, _⟩ | ⟨_, _⟩ <;> linarith
      · have astray : w < (n + 1 : ℤ) := by
          push_cast
          linarith
        rw [up]
        exact iff_of_false (by omega) (not_not.mpr ⟨half, .inl ⟨by linarith, astray⟩⟩)
    · obtain ⟨same, noHalf⟩ := whole_of_near toNearest inner outer
      exact iff_of_true same fun ⟨half, _⟩ => noHalf half

/-- The halves that bound a number bound the value that is rounded for it. -/
private theorem whole_eq_iff_of_nearest (toNearest : mode.isNearest = true) {y w : ℚ}
    (below : ∀ j : ℤ, j / 2 ≤ y → (j : ℚ) / 2 ≤ w) (above : ∀ j : ℤ, j ≤ 2 * (⌊y⌋ + 1) → y ≤ j / 2 → w ≤ (j : ℚ) / 2) :
    mode.whole w = mode.whole y ↔
      ¬(Int.fract w = 1 / 2 ∧ (y < w ∧ w < mode.whole w ∨ mode.whole w < w ∧ w < y)) := by
  have floor := Int.floor_le y
  have next := Int.lt_floor_add_one y
  generalize ⌊y⌋ = n at floor next above
  have atHalf {j : ℤ} (inside : j ≤ 2 * (n + 1)) (half : y = j / 2) : mode.whole w = mode.whole y ↔
      ¬(Int.fract w = 1 / 2 ∧ (y < w ∧ w < mode.whole w ∨ mode.whole w < w ∧ w < y)) := by
    obtain rfl : w = y := le_antisymm (half ▸ above j inside half.le) (half ▸ below j half.ge)
    simp
  have lower := below (2 * n)
  have middle := below (2 * n + 1)
  have upper := above (2 * n + 1) (by omega)
  have top := above (2 * (n + 1)) le_rfl
  push_cast at lower middle upper top
  rcases lt_trichotomy y (n + 1 / 2) with left | half | right
  · rcases floor.eq_or_lt with whole | inside
    · exact atHalf (j := 2 * n) (by omega) (by push_cast; linarith)
    · exact whole_eq_iff_of_close toNearest (by linarith) left (by linarith [lower (by linarith)])
        (by linarith [upper (by linarith)])
  · exact atHalf (j := 2 * n + 1) (by omega) (by push_cast; linarith)
  · apply whole_eq_iff_of_close (n := n + 1) toNearest
    · push_cast
      linarith
    · push_cast
      linarith
    · push_cast
      linarith [middle (by linarith)]
    · push_cast
      linarith [top (by linarith)]

theorem half_eq_multiple (j k : ℤ) : (j : ℚ) / 2 * 10 ^ k = (5 * j : ℤ) * 10 ^ (k - 1) := by
  have tenth : (10 : ℚ) ^ k = 10 * 10 ^ (k - 1) := by
    rw [← zpow_one_add₀ (by norm_num), add_sub_cancel]
  rw [tenth]
  push_cast
  ring

/-- A value between the same powers of ten is rounded at the same place. -/
private theorem significant_of_tracks (mode : Rounding) (positive : 0 < x)
    (tracks : Tracks (place precision x - 1) x m) :
    mode.significant precision m = mode.whole (m / 10 ^ place precision x) * 10 ^ place precision x := by
  have size : |x| = x := abs_of_pos positive
  have near : place precision x - 1 ≤ Int.log 10 |x| := by
    unfold place
    omega
  have lower : (10 : ℚ) ^ Int.log 10 |x| ≤ m := by
    obtain ⟨n, same⟩ := zpow_eq_multiple near
    rw [same]
    apply tracks.below
    rw [← same, size]
    exact Int.zpow_log_le_self (by decide) positive
  have upper : m ≤ 10 ^ (Int.log 10 |x| + 1) := by
    obtain ⟨n, same⟩ := zpow_eq_multiple (Int.le_add_one near)
    rw [same]
    apply tracks.above _ same.ge
    rw [← same, size]
    exact (Int.lt_zpow_succ_log_self (by decide) x).le
  rcases upper.eq_or_lt with power | inside
  · obtain ⟨n, same⟩ := zpow_eq_multiple (by unfold place; omega : place precision x ≤ Int.log 10 |x| + 1)
    have unit : (10 : ℚ) ^ place precision x ≠ 0 := by positivity
    rw [power, significant_zpow, same, mul_div_cancel_right₀ _ unit, whole_intCast]
  · have grown : 0 < m := lt_of_lt_of_le (by positivity) lower
    have samePlace : place precision m = place precision x := by
      rw [place, place, abs_of_pos grown, log_eq_of_bounds lower inside]
    rw [significant, samePlace]

/-- The units of a number reach up to the next power of ten at most. -/
private theorem floor_add_one_mul_le (positive : 0 < x) :
    ((⌊x / 10 ^ place precision x⌋ : ℚ) + 1) * 10 ^ place precision x ≤ 10 ^ (Int.log 10 |x| + 1) := by
  have unit : (0 : ℚ) < 10 ^ place precision x := by positivity
  obtain ⟨n, same⟩ := zpow_eq_multiple (by unfold place; omega : place precision x ≤ Int.log 10 |x| + 1)
  have below : x / 10 ^ place precision x < n := by
    rw [div_lt_iff₀ unit, ← same, abs_of_pos positive]
    exact Int.lt_zpow_succ_log_self (by decide) x
  have whole : ⌊x / 10 ^ place precision x⌋ + 1 ≤ n := Int.floor_lt.mpr below
  rw [same]
  gcongr
  exact_mod_cast whole

/-- Where no tie goes astray, rounding to the nearest neighbour is not misled by the first roundings. -/
private theorem significant_eq_iff_of_nearest (toNearest : mode.isNearest = true) (least : 0 ≤ x)
    (tracks : Tracks (place precision x - 1) x m) :
    mode.significant precision m = mode.significant precision x ↔ ¬LostTie mode precision x m := by
  have zero : ((0 : ℤ) : ℚ) * 10 ^ (place precision x - 1) = 0 := by simp
  rcases least.eq_or_lt with rfl | positive
  · have low := tracks.below zero.le
    have high := tracks.above zero.ge (by rw [zero]; positivity)
    rw [zero] at low high
    obtain rfl : m = 0 := le_antisymm high low
    exact iff_of_true rfl fun lost => by
      rcases lost.astray with ⟨impossible, -⟩ | ⟨-, impossible⟩ <;> exact impossible.false
  · have unit : (0 : ℚ) < 10 ^ place precision x := by positivity
    have rounded := significant_of_tracks mode positive tracks
    have below (j : ℤ) (low : j / 2 ≤ x / 10 ^ place precision x) : (j : ℚ) / 2 ≤ m / 10 ^ place precision x := by
      rw [le_div_iff₀ unit, half_eq_multiple] at low ⊢
      exact tracks.below low
    have above (j : ℤ) (inside : j ≤ 2 * (⌊x / 10 ^ place precision x⌋ + 1)) (high : x / 10 ^ place precision x ≤ j / 2) :
        m / 10 ^ place precision x ≤ (j : ℚ) / 2 := by
      have count : (j : ℚ) / 2 ≤ ⌊x / 10 ^ place precision x⌋ + 1 := by
        rw [div_le_iff₀ two_pos, mul_comm]
        exact_mod_cast inside
      have outer := (mul_le_mul_of_nonneg_right count unit.le).trans (floor_add_one_mul_le positive)
      rw [div_le_iff₀ unit, half_eq_multiple] at high ⊢
      rw [half_eq_multiple] at outer
      exact tracks.above high outer
    have lost : LostTie mode precision x m ↔ Int.fract (m / 10 ^ place precision x) = 1 / 2 ∧
        (x / 10 ^ place precision x < m / 10 ^ place precision x ∧
            m / 10 ^ place precision x < mode.whole (m / 10 ^ place precision x) ∨
          mode.whole (m / 10 ^ place precision x) < m / 10 ^ place precision x ∧
            m / 10 ^ place precision x < x / 10 ^ place precision x) := by
      rw [div_lt_div_iff_of_pos_right unit, div_lt_div_iff_of_pos_right unit, div_lt_iff₀ unit, lt_div_iff₀ unit,
        ← rounded]
      exact ⟨fun ⟨half, astray⟩ => ⟨half, astray⟩, fun ⟨half, astray⟩ => ⟨half, astray⟩⟩
    rw [lost, ← whole_eq_iff_of_nearest toNearest below above, rounded, significant, mul_left_inj' unit.ne']
    exact_mod_cast Iff.rfl

theorem significant_guarded_iff_of_nearest (toNearest : mode.isNearest = true) (least : 0 ≤ part) (most : part < 1)
    (more : place guard (units + part) < place precision (units + part)) :
    mode.significant precision (mode.guarded guard units part) = mode.significant precision (units + part) ↔
      ¬LostTie mode precision (units + part) (mode.guarded guard units part) := by
  have tracks := tracks_guarded mode least most (Int.le_sub_one_of_lt more)
  exact significant_eq_iff_of_nearest toNearest (by positivity) tracks

end Dialogue.Rounding
