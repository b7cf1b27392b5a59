import JitoGame.Web.Table
import Mathlib.Data.List.Range

namespace JitoGame.Web

open Tallies

/-! What the loops of the handlers do to the stakes. -/

variable {bets : Bets} {chip : ℤ} {keys : List String} {key : String}

theorem number?_toDigits (n : ℕ) : number? (Nat.toDigits 10 n) = some n := by
  have hdigits : (Nat.toDigits 10 n).all Char.isDigit = true :=
    List.all_eq_true.mpr fun _ hc => Nat.isDigit_of_mem_toDigits (by decide) (by decide) hc
  rw [number?, if_pos ⟨Nat.toDigits_ne_nil, hdigits⟩, Nat.ofDigitChars_toDigits (by decide) (by decide)]

theorem splitKey?_cellKey (type : BetType) (value : ℕ) :
    splitKey? (cellKey type value) = some (type, value) := by
  have hcolon : ':' ∉ Nat.toDigits 10 value := fun hmem =>
    absurd (Nat.isDigit_of_mem_toDigits (by decide) (by decide) hmem) (by decide)
  have htext : ':' ∉ type.text.toList := by cases type <;> decide
  have htype : BetType.ofText? type.text = some type := by cases type <;> decide
  have hkey : (cellKey type value).toList = type.text.toList ++ ':' :: Nat.toDigits 10 value := by
    rw [cellKey, String.toList_append, String.toList_append, List.append_assoc]
    exact congrArg (type.text.toList ++ ':' :: ·) Nat.toList_repr
  rw [splitKey?, hkey, List.splitOn_append_cons_self_of_not_mem htext, List.splitOn_eq_singleton hcolon]
  simp [htype, number?_toDigits]

theorem cellKey_inj {type type' : BetType} {m n : ℕ} :
    cellKey type m = cellKey type' n ↔ type = type' ∧ m = n := by
  constructor
  · intro h
    have hsplit := congrArg splitKey? h
    rw [splitKey?_cellKey, splitKey?_cellKey, Option.some.injEq, Prod.mk.injEq] at hsplit
    exact hsplit
  · rintro ⟨rfl, rfl⟩
    rfl

namespace GameState

theorem stakeCells_spec (h : Positive bets) (hc : 0 < chip) (keys : List String) :
    Positive (stakeCells chip keys bets) ∧
      tallied (stakeCells chip keys bets) = tallied bets + chip * keys.length := by
  induction keys generalizing bets with
  | nil => exact ⟨h, by simp [stakeCells]⟩
  | cons key keys ih =>
    have hpos : 0 < amount bets key + chip := Int.add_pos_of_nonneg_of_pos (h.nonneg key) hc
    obtain ⟨hp, ht⟩ := ih (h.insert (k := key) hpos)
    refine ⟨hp, ht.trans ?_⟩
    rw [tallied_insert, List.length_cons, Nat.cast_succ, Int.mul_add]
    omega

theorem lowered_spec (h : Positive bets) (chip : ℤ) (key : String) :
    Positive (lowered bets key (amount bets key) (min (amount bets key) chip)) ∧
      tallied (lowered bets key (amount bets key) (min (amount bets key) chip)) =
        tallied bets - min (amount bets key) chip := by
  have hle := Int.min_le_left (amount bets key) chip
  rw [lowered]
  split
  · refine ⟨h.erase, ?_⟩
    rw [tallied_erase]
    omega
  · rename_i hrest
    refine ⟨h.insert (by omega), ?_⟩
    rw [tallied_insert]
    omega

theorem undoCell_spec {acc : Bets × ℤ} (h : Positive acc.1) (hc : 0 < chip) (key : String) :
    Positive (undoCell chip acc key).1 ∧
      tallied (undoCell chip acc key).1 + (undoCell chip acc key).2 = tallied acc.1 + acc.2 ∧
      acc.2 ≤ (undoCell chip acc key).2 := by
  rw [undoCell]
  by_cases hs : 0 < amount acc.1 key
  · obtain ⟨hp, ht⟩ := lowered_spec h chip key
    simp only [hs, ↓reduceIte, ht]
    refine ⟨hp, ?_, ?_⟩
    · omega
    · have hmin : 0 < min (amount acc.1 key) chip := lt_min hs hc
      omega
  · simp only [hs, ↓reduceIte]
    exact ⟨h, trivial, le_refl _⟩

theorem undoCells_spec (h : Positive bets) (hc : 0 < chip) (keys : List String) :
    Positive (undoCells chip keys bets).1 ∧
      tallied (undoCells chip keys bets).1 + (undoCells chip keys bets).2 = tallied bets ∧
      0 ≤ (undoCells chip keys bets).2 := by
  suffices hacc : ∀ acc : Bets × ℤ, Positive acc.1 → Positive (keys.foldl (undoCell chip) acc).1 ∧
      tallied (keys.foldl (undoCell chip) acc).1 + (keys.foldl (undoCell chip) acc).2 =
        tallied acc.1 + acc.2 ∧ acc.2 ≤ (keys.foldl (undoCell chip) acc).2 by
    obtain ⟨hp, ht, hn⟩ := hacc (bets, 0) h
    exact ⟨hp, ht.trans (add_zero _), hn⟩
  induction keys with
  | nil => exact fun acc hacc => ⟨hacc, rfl, le_refl _⟩
  | cons key keys ih =>
    intro acc hacc
    obtain ⟨hp, ht, hn⟩ := undoCell_spec hacc hc key
    obtain ⟨hp', ht', hn'⟩ := ih _ hp
    exact ⟨hp', ht'.trans ht, hn.trans hn'⟩

theorem erased_spec (h : Positive bets) (hn : keys.Nodup) :
    Positive (keys.foldl (fun nextBets key => nextBets.erase key) bets) ∧
      tallied (keys.foldl (fun nextBets key => nextBets.erase key) bets) =
        tallied bets - (keys.map (amount bets)).sum := by
  induction keys generalizing bets with
  | nil => exact ⟨h, by simp⟩
  | cons key keys ih =>
    obtain ⟨hnew, hn⟩ := List.nodup_cons.mp hn
    obtain ⟨hp, ht⟩ := ih (h.erase (k := key)) hn
    have hrest : keys.map (amount (bets.erase key)) = keys.map (amount bets) := by
      refine List.map_congr_left fun k hk => amount_erase_ne ?_
      rintro rfl
      exact hnew hk
    refine ⟨hp, ?_⟩
    rw [List.foldl_cons, ht, tallied_erase, hrest, List.map_cons, List.sum_cons]
    omega

theorem notMem_erased (hk : key ∈ keys) :
    key ∉ keys.foldl (fun nextBets key => nextBets.erase key) bets := by
  rw [← AList.lookup_eq_none, lookup_foldl_erase, if_pos hk]

theorem picked_spec (h : Positive bets) (hc : 0 < chip) (hn : keys.Nodup)
    (hnew : ∀ key ∈ keys, key ∉ bets) :
    Positive (keys.foldl (fun nextBets key => nextBets.insert key chip) bets) ∧
      tallied (keys.foldl (fun nextBets key => nextBets.insert key chip) bets) =
        tallied bets + chip * keys.length := by
  induction keys generalizing bets with
  | nil => exact ⟨h, by simp⟩
  | cons key keys ih =>
    obtain ⟨hkey, hn⟩ := List.nodup_cons.mp hn
    obtain ⟨hp, ht⟩ := ih (h.insert (k := key) hc) hn fun k hk => by
      have hne : k ≠ key := by
        rintro rfl
        exact hkey hk
      simpa [hne] using hnew k (by simp [hk])
    refine ⟨hp, ht.trans ?_⟩
    rw [tallied_insert, amount_of_notMem (hnew key (by simp)), List.length_cons, Nat.cast_succ,
      Int.mul_add]
    omega

/-! The shuffle. -/

theorem shuffle_perm (random : ℕ → Random) (n : ℕ) (pool : Array ℕ) :
    (shuffle random n pool).Perm pool := by
  rw [shuffle]
  induction n with
  | zero => exact .refl _
  | succ n ih =>
    rw [List.range_succ, List.foldl_append, List.foldl_cons, List.foldl_nil, Array.swapIfInBounds_def]
    split
    · split
      · exact (Array.swap_perm _ _).trans ih
      · exact ih
    · exact ih

theorem pickedIndices_spec (random : ℕ → Random) {n : ℕ} (hn : n ≤ 100) :
    (pickedIndices random n).Nodup ∧ (pickedIndices random n).length = n ∧
      ∀ i ∈ pickedIndices random n, i < 100 := by
  have hperm : (shuffle random n (Array.range 100)).toList.Perm (List.range 100) := by
    have h := shuffle_perm random n (Array.range 100)
    rw [Array.perm_iff_toList_perm, Array.toList_range] at h
    exact h
  refine ⟨(hperm.nodup_iff.mpr List.nodup_range).sublist (List.take_sublist _ _), ?_, fun i hi => ?_⟩
  · rw [pickedIndices, List.length_take, hperm.length_eq, List.length_range]
    omega
  · exact List.mem_range.mp (hperm.subset (List.mem_of_mem_take hi))

theorem nodup_cells (type : BetType) (base : ℕ) {indices : List ℕ} (h : indices.Nodup) :
    (indices.map fun i => cellKey type (base + i)).Nodup :=
  h.map fun _ _ heq => Nat.add_left_cancel (cellKey_inj.mp heq).2

end GameState

/-! The random numbers. -/

theorem roundBits_le (p : ℕ) : 2 * roundBits p ≤ 2 * p + 2 ^ (p.log2 - 52) := by
  have hdiv := Nat.div_add_mod p (2 ^ (p.log2 - 52))
  rw [roundBits]
  generalize 2 ^ (p.log2 - 52) = ulp at *
  rw [Nat.mul_comm] at hdiv
  split
  · omega
  · rename_i hup
    rw [Nat.add_mul, Nat.one_mul]
    omega

/-- Half a unit in the last place is less than what `Math.random()` is short of 1. -/
theorem ulp_lt {m n : ℕ} (hm : m < 2 ^ 53) (hn : 0 < n) : 2 ^ ((m * n).log2 - 52) < 2 * n := by
  by_cases hsmall : (m * n).log2 ≤ 52
  · rw [Nat.sub_eq_zero_of_le hsmall]
    omega
  · have hpos : m * n ≠ 0 := by
      intro hzero
      rw [hzero] at hsmall
      exact hsmall (by decide)
    have hle : 2 ^ (m * n).log2 ≤ m * n := Nat.log2_self_le hpos
    have hsplit : 2 ^ ((m * n).log2 - 52) * 2 ^ 52 = 2 ^ (m * n).log2 := by
      rw [← Nat.pow_add, Nat.sub_add_cancel (by omega)]
    have hlt : m * n < 2 ^ 53 * n := Nat.mul_lt_mul_of_pos_right hm hn
    omega

theorem Random.floorTimes_lt (random : Random) {n : ℕ} (hn : 0 < n) : random.floorTimes n < n := by
  have hround := roundBits_le (random.m * n)
  have hulp := ulp_lt random.fits hn
  have hlt : random.m * n + n ≤ 2 ^ 53 * n := by
    rw [← Nat.succ_mul]
    exact Nat.mul_le_mul_right n random.fits
  have hscale : 2 ^ 53 * n ≤ 2 ^ random.e * n :=
    Nat.mul_le_mul_right n (Nat.pow_le_pow_right (by decide) random.range.1)
  rw [Random.floorTimes, Nat.div_lt_iff_lt_mul (Nat.two_pow_pos random.e), Nat.mul_comm n]
  omega

end JitoGame.Web
