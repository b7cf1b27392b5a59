import Mathlib.Algebra.BigOperators.Ring.List
import Mathlib.Algebra.Order.BigOperators.Group.List
import Mathlib.Algebra.Order.Group.Int
import Mathlib.Algebra.Ring.Int.Defs
import Mathlib.Data.List.AList
import Mathlib.Data.List.Sigma

namespace JitoGame.Tallies

abbrev Tally (κ : Type*) := AList fun _ : κ => ℤ

variable {κ : Type*} [DecidableEq κ] {s t : Tally κ} {k k' : κ} {a : ℤ}

def amount (s : Tally κ) (k : κ) : ℤ := (s.lookup k).getD 0

def tallied (s : Tally κ) : ℤ := (s.entries.map (·.2)).sum

def overlap (s t : Tally κ) : ℤ := (s.keys.map (amount t)).sum

def scale (c : ℤ) (s : Tally κ) : Tally κ :=
  ⟨s.entries.map fun e => ⟨e.1, e.2 * c⟩, by
    have hkeys : (s.entries.map fun e => (⟨e.1, e.2 * c⟩ : (_ : κ) × ℤ)).keys = s.entries.keys := by
      simp [List.keys]
    rw [List.NodupKeys, hkeys]
    exact s.nodupKeys⟩

/-! Amounts. -/

theorem amount_of_notMem (h : k ∉ s) : amount s k = 0 := by
  rw [amount, AList.lookup_eq_none.mpr h]
  rfl

@[simp] theorem amount_empty : amount (∅ : Tally κ) k = 0 := rfl

@[simp] theorem amount_insert : amount (s.insert k a) k = a := by
  simp [amount]

theorem amount_insert_ne (h : k ≠ k') : amount (s.insert k' a) k = amount s k := by
  simp [amount, AList.lookup_insert_ne h]

theorem amount_erase_ne (h : k ≠ k') : amount (s.erase k') k = amount s k := by
  simp [amount, AList.lookup_erase_ne h]

theorem amount_of_mem {e : (_ : κ) × ℤ} (h : e ∈ s.entries) : amount s e.1 = e.2 := by
  have hlookup : s.lookup e.1 = some e.2 := AList.mem_lookup_iff.mpr h
  rw [amount, hlookup]
  rfl

theorem sum_entries_of_key (s : Tally κ) (k : κ) (c : ℤ) :
    (s.entries.map fun e => if e.1 = k then e.2 * c else 0).sum = amount s k * c := by
  obtain ⟨l, hl⟩ := s
  induction l with
  | nil => exact (zero_mul c).symm
  | cons e l ih =>
    obtain ⟨k', b⟩ := e
    obtain ⟨hk, hl'⟩ := List.nodupKeys_cons.mp hl
    have hrest := ih hl'
    simp only [List.map_cons, List.sum_cons] at hrest ⊢
    rw [hrest]
    by_cases hkk : k' = k
    · subst hkk
      have hnone : amount ⟨l, hl'⟩ k' = 0 := amount_of_notMem hk
      have hfound : amount ⟨⟨k', b⟩ :: l, hl⟩ k' = b := by simp [amount, AList.lookup]
      rw [hnone, hfound, if_pos rfl, zero_mul, add_zero]
    · have hother : amount ⟨⟨k', b⟩ :: l, hl⟩ k = amount ⟨l, hl'⟩ k := by
        rw [amount, AList.lookup, List.dlookup_cons_ne l ⟨k', b⟩ (Ne.symm hkk)]
        rfl
      rw [hother, if_neg hkk, zero_add]

theorem tallied_eq_sum : tallied s = (s.keys.map (amount s)).sum := by
  rw [tallied, AList.keys, List.keys, List.map_map]
  refine congrArg List.sum (List.map_congr_left fun e he => ?_)
  exact (amount_of_mem he).symm

/-! Lookups. -/

theorem lookup_foldl_erase (keys : List κ) :
    (keys.foldl (fun t k => t.erase k) s).lookup k = if k ∈ keys then none else s.lookup k := by
  induction keys generalizing s with
  | nil => simp
  | cons k' keys ih =>
    rw [List.foldl_cons, ih]
    by_cases hkk : k = k'
    · subst hkk
      simp
    · simp [hkk, AList.lookup_erase_ne hkk]

/-! Totals. -/

omit [DecidableEq κ] in
@[simp] theorem tallied_empty : tallied (∅ : Tally κ) = 0 := rfl

theorem tallied_erase : tallied (s.erase k) = tallied s - amount s k := by
  by_cases hk : k ∈ s
  · obtain ⟨b, l₁, l₂, -, hs, herase⟩ := List.exists_of_kerase (AList.mem_keys.mp hk)
    have hamount : amount s k = b := amount_of_mem (e := ⟨k, b⟩) (by simp [hs])
    have hentries : (s.erase k).entries = l₁ ++ l₂ := herase
    simp only [tallied, hentries, hs, hamount, List.map_append, List.map_cons, List.sum_append,
      List.sum_cons]
    omega
  · have hsame : (s.erase k).entries = s.entries := List.kerase_of_notMem_keys hk
    rw [tallied, hsame, amount_of_notMem hk, sub_zero]
    rfl

theorem tallied_insert : tallied (s.insert k a) = tallied s - amount s k + a := by
  have hinsert : tallied (s.insert k a) = a + tallied (s.erase k) := by
    simp only [tallied, AList.entries_insert, List.map_cons, List.sum_cons]
    rfl
  rw [hinsert, tallied_erase, add_comm]

omit [DecidableEq κ] in
theorem tallied_scale (c : ℤ) : tallied (scale c s) = tallied s * c := by
  simp only [tallied, scale, List.map_map, ← List.sum_map_mul_right]
  rfl

theorem tallied_union_add : tallied (s ∪ t) + overlap s t = tallied s + tallied t := by
  obtain ⟨l, hl⟩ := s
  induction l generalizing t with
  | nil =>
    have hnil : (⟨[], hl⟩ : Tally κ) = ∅ := rfl
    rw [hnil, AList.empty_union]
    simp [overlap]
  | cons e l ih =>
    obtain ⟨k, b⟩ := e
    obtain ⟨hk, hl'⟩ := List.nodupKeys_cons.mp hl
    have hrest : overlap ⟨l, hl'⟩ (t.erase k) = overlap ⟨l, hl'⟩ t := by
      refine congrArg List.sum (List.map_congr_left fun k' hk' => amount_erase_ne ?_)
      rintro rfl
      exact hk hk'
    have hunion : tallied (⟨⟨k, b⟩ :: l, hl⟩ ∪ t) = b + tallied (⟨l, hl'⟩ ∪ t.erase k) := by
      simp only [tallied, AList.union_entries, List.kunion_cons, List.map_cons, List.sum_cons]
      rfl
    have hstep := ih hl' (t := t.erase k)
    have hover : overlap ⟨⟨k, b⟩ :: l, hl⟩ t = amount t k + overlap ⟨l, hl'⟩ t := by
      simp [overlap, AList.keys]
    have htotal : tallied (⟨⟨k, b⟩ :: l, hl⟩ : Tally κ) = b + tallied ⟨l, hl'⟩ := by
      simp [tallied]
    rw [hrest, tallied_erase] at hstep
    omega

/-! Positive amounts. -/

def Positive (s : Tally κ) : Prop := ∀ k ∈ s, 0 < amount s k

theorem Positive.nonneg (h : Positive s) (k : κ) : 0 ≤ amount s k := by
  by_cases hk : k ∈ s
  · exact Int.le_of_lt (h k hk)
  · exact Int.le_of_eq (amount_of_notMem hk).symm

theorem Positive.lookup (h : Positive s) (k : κ) :
    s.lookup k = if 0 < amount s k then some (amount s k) else none := by
  by_cases hk : k ∈ s
  · rw [if_pos (h k hk)]
    obtain ⟨b, hb⟩ := AList.lookup_isSome.mpr hk |> Option.isSome_iff_exists.mp
    simp [amount, hb]
  · rw [amount_of_notMem hk, if_neg (lt_irrefl 0), AList.lookup_eq_none.mpr hk]

theorem Positive.ext (hs : Positive s) (ht : Positive t) (h : ∀ k, amount s k = amount t k) (k : κ) :
    s.lookup k = t.lookup k := by
  rw [hs.lookup, ht.lookup, h]

theorem positive_empty : Positive (∅ : Tally κ) := fun k hk => absurd hk (AList.notMem_empty k)

theorem Positive.insert (h : Positive s) (ha : 0 < a) : Positive (s.insert k a) := by
  intro k' hk'
  by_cases hkk : k' = k
  · rw [hkk, amount_insert]
    exact ha
  · rw [amount_insert_ne hkk]
    exact h k' ((AList.mem_insert s).mp hk' |>.resolve_left hkk)

theorem Positive.erase (h : Positive s) : Positive (s.erase k) := by
  intro k' hk'
  obtain ⟨hne, hmem⟩ := AList.mem_erase.mp hk'
  rw [amount_erase_ne hne]
  exact h k' hmem

theorem Positive.scale {c : ℤ} (h : Positive s) (hc : 0 < c) : Positive (scale c s) := by
  intro k hk
  obtain ⟨e, he, rfl⟩ := List.mem_map.mp (AList.mem_keys.mp hk)
  obtain ⟨x, hx, rfl⟩ := List.mem_map.mp he
  have hmem : x.1 ∈ s := List.mem_map_of_mem hx
  rw [amount_of_mem he]
  exact Int.mul_pos (amount_of_mem hx ▸ h x.1 hmem) hc

theorem Positive.union (hs : Positive s) (ht : Positive t) : Positive (s ∪ t) := by
  intro k hk
  by_cases hks : k ∈ s
  · rw [amount, AList.lookup_union_left hks]
    exact hs k hks
  · rw [amount, AList.lookup_union_right hks]
    exact ht k ((AList.mem_union.mp hk).resolve_left hks)

theorem Positive.tallied_nonneg (h : Positive s) : 0 ≤ tallied s := by
  rw [tallied_eq_sum]
  apply List.sum_nonneg
  intro x hx
  obtain ⟨k, -, rfl⟩ := List.mem_map.mp hx
  exact h.nonneg k

theorem overlap_nonneg (h : Positive t) : 0 ≤ overlap s t := by
  apply List.sum_nonneg
  intro x hx
  obtain ⟨k, -, rfl⟩ := List.mem_map.mp hx
  exact h.nonneg k

def Keyed (P : κ → Prop) (s : Tally κ) : Prop := ∀ k ∈ s, P k

variable {P : κ → Prop}

omit [DecidableEq κ] in
theorem keyed_empty : Keyed P (∅ : Tally κ) := fun k hk => absurd hk (AList.notMem_empty k)

theorem Keyed.insert (h : Keyed P s) (hk : P k) : Keyed P (s.insert k a) := by
  intro k' hk'
  rcases (AList.mem_insert s).mp hk' with rfl | hmem
  · exact hk
  · exact h k' hmem

theorem Keyed.erase (h : Keyed P s) : Keyed P (s.erase k) := fun k' hk' =>
  h k' (AList.mem_erase.mp hk').2

omit [DecidableEq κ] in
theorem Keyed.scale (h : Keyed P s) (c : ℤ) : Keyed P (scale c s) := by
  intro k hk
  obtain ⟨e, he, rfl⟩ := List.mem_map.mp (AList.mem_keys.mp hk)
  obtain ⟨x, hx, rfl⟩ := List.mem_map.mp he
  exact h x.1 (List.mem_map_of_mem hx)

theorem Keyed.union (hs : Keyed P s) (ht : Keyed P t) : Keyed P (s ∪ t) := fun k hk =>
  (AList.mem_union.mp hk).elim (hs k) (ht k)

omit [DecidableEq κ] in
theorem Keyed.foldl {f : Tally κ → κ → Tally κ} {keys : List κ} (h : Keyed P s)
    (hkeys : ∀ k ∈ keys, P k) (hf : ∀ s, Keyed P s → ∀ k, P k → Keyed P (f s k)) :
    Keyed P (keys.foldl f s) := by
  induction keys generalizing s with
  | nil => exact h
  | cons k keys ih =>
    exact ih (hf s h k (hkeys k List.mem_cons_self)) fun k' hk' => hkeys k' (List.mem_cons_of_mem k hk')

end JitoGame.Tallies
