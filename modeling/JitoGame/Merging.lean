import JitoGame.Decimals
import JitoGame.Twins
import Mathlib.Algebra.Order.BigOperators.Group.List
import Mathlib.Algebra.Order.Group.Int
import Mathlib.Data.List.Perm.Subperm

namespace JitoGame.BetsService

theorem itemKey_inj {c c' : BetCategory} {n n' : ℤ} (h : itemKey c n = itemKey c' n') :
    c = c' ∧ n = n' := by
  have hlist := congrArg String.toList h
  rw [itemKey, itemKey, String.toList_append, String.toList_append, String.toList_append,
    String.toList_append] at hlist
  have hcategory : c = c' := by
    cases c <;> cases c' <;> first | rfl | simp [BetCategory.text] at hlist
  subst hcategory
  exact ⟨rfl, Decimals.toString_inj (String.toList_inj.mp (List.append_cancel_left hlist))⟩

def amountOn (items : List PlaceBetItemDto) (category : BetCategory) (selection : ℤ) : ℤ :=
  ((items.filter fun i => i.category = category ∧ i.selection = selection).map (·.amountMinor)).sum

def amountAt (merged : List MergedItem) (category : BetCategory) (selection : ℤ) : ℤ :=
  ((merged.find? fun m => m.category = category ∧ m.selection = selection).map (·.amountMinor)).getD 0

def AllPositive (merged : List MergedItem) : Prop := ∀ m ∈ merged, 0 < m.amountMinor

theorem mergeItem_spec {acc acc' : List MergedItem} {item : PlaceBetItemDto}
    (h : mergeItem acc item = .ok acc') (hpos : AllPositive acc) :
    0 < item.amountMinor ∧ AllPositive acc' ∧ ∀ c n, amountAt acc' c n = amountAt acc c n +
      if item.category = c ∧ item.selection = n then item.amountMinor else 0 := by
  simp only [mergeItem] at h
  split at h
  · cases h
  rename_i hchecks
  have hitem : 0 < item.amountMinor := by
    simp only [not_or, not_le] at hchecks
    exact hchecks.2
  have hkey (m : MergedItem) : itemKey m.category m.selection = itemKey item.category item.selection ↔
      m.category = item.category ∧ m.selection = item.selection :=
    ⟨itemKey_inj, fun hm => by rw [hm.1, hm.2]⟩
  simp only [hkey] at h
  split at h
  · rename_i hknown
    cases h
    refine ⟨hitem, fun m hm => ?_, fun c n => ?_⟩
    · obtain ⟨m₀, hm₀, rfl⟩ := List.mem_map.mp hm
      have hm₀ := hpos m₀ hm₀
      split
      · exact Int.add_pos hm₀ hitem
      · exact hm₀
    · rw [amountAt, List.find?_map]
      have hsame : ((fun m : MergedItem => decide (m.category = c ∧ m.selection = n)) ∘ fun m =>
          if m.category = item.category ∧ m.selection = item.selection then
            { m with amountMinor := m.amountMinor + item.amountMinor } else m) =
          fun m => decide (m.category = c ∧ m.selection = n) := by
        funext m
        simp only [Function.comp]
        split <;> rfl
      rw [hsame, amountAt]
      cases hf : acc.find? fun m => decide (m.category = c ∧ m.selection = n) with
      | none =>
        have hother : ¬ (item.category = c ∧ item.selection = n) := by
          rintro ⟨rfl, rfl⟩
          obtain ⟨m, hm, hmk⟩ := List.any_eq_true.mp hknown
          exact List.find?_eq_none.mp hf m hm hmk
        simp [hother]
      | some m =>
        have hm : m.category = c ∧ m.selection = n := by simpa using List.find?_some hf
        by_cases hi : item.category = c ∧ item.selection = n
        · have hmi : m.category = item.category ∧ m.selection = item.selection :=
            ⟨hm.1.trans hi.1.symm, hm.2.trans hi.2.symm⟩
          simp [hi, hmi]
        · have hmi : ¬ (m.category = item.category ∧ m.selection = item.selection) :=
            fun he => hi ⟨he.1.symm.trans hm.1, he.2.symm.trans hm.2⟩
          simp [hi, hmi]
  · rename_i hnew
    cases h
    refine ⟨hitem, fun m hm => ?_, fun c n => ?_⟩
    · rcases List.mem_append.mp hm with hm | hm
      · exact hpos m hm
      · obtain rfl := List.mem_singleton.mp hm
        exact hitem
    · rw [amountAt, amountAt, List.find?_append]
      cases hf : acc.find? fun m => decide (m.category = c ∧ m.selection = n) with
      | none =>
        by_cases hi : item.category = c ∧ item.selection = n
        · simp [hi]
        · simp [hi]
      | some m =>
        have hm : m.category = c ∧ m.selection = n := by simpa using List.find?_some hf
        have hother : ¬ (item.category = c ∧ item.selection = n) := by
          rintro ⟨rfl, rfl⟩
          exact hnew (List.any_eq_true.mpr ⟨m, List.mem_of_find?_eq_some hf, by simpa using hm⟩)
        simp [hother]

theorem foldlM_cons_ok {items : List PlaceBetItemDto} {item : PlaceBetItemDto} {acc merged : List MergedItem}
    (h : (item :: items).foldlM mergeItem acc = .ok merged) :
    ∃ acc', mergeItem acc item = .ok acc' ∧ items.foldlM mergeItem acc' = .ok merged := by
  rw [List.foldlM_cons] at h
  cases hm : mergeItem acc item with
  | error e =>
    rw [hm] at h
    cases h
  | ok acc' =>
    rw [hm] at h
    exact ⟨acc', rfl, h⟩

theorem foldlM_spec {items : List PlaceBetItemDto} {acc merged : List MergedItem}
    (h : items.foldlM mergeItem acc = .ok merged) (hpos : AllPositive acc) :
    AllPositive merged ∧ ∀ c n, amountAt merged c n = amountAt acc c n + amountOn items c n := by
  induction items generalizing acc with
  | nil =>
    cases h
    exact ⟨hpos, fun c n => by simp [amountOn]⟩
  | cons item items ih =>
    obtain ⟨acc', hm, h⟩ := foldlM_cons_ok h
    obtain ⟨-, hpos', hstep⟩ := mergeItem_spec hm hpos
    obtain ⟨hpos'', hrest⟩ := ih h hpos'
    refine ⟨hpos'', fun c n => ?_⟩
    rw [hrest, hstep]
    by_cases hi : item.category = c ∧ item.selection = n
    · simp [amountOn, hi, Int.add_assoc]
    · simp [amountOn, hi]

theorem mergeItems_spec {items : List PlaceBetItemDto} {merged : List MergedItem}
    (h : mergeItems items = .ok merged) :
    AllPositive merged ∧ ∀ c n, amountAt merged c n = amountOn items c n := by
  obtain ⟨hpos, hamount⟩ := foldlM_spec h fun _ hm => absurd hm List.not_mem_nil
  exact ⟨hpos, fun c n => by simpa [amountAt] using hamount c n⟩

theorem merged_spec {params : PlaceBetParams} {p : Placement} (h : validate params = .ok p) :
    AllPositive p.merged ∧ ∀ c n, amountAt p.merged c n = amountOn params.dto.items c n :=
  mergeItems_spec (validate_ok h).2.1

def Distinct (merged : List MergedItem) : Prop := (merged.map fun m => (m.category, m.selection)).Nodup

theorem amountAt_of_mem {merged : List MergedItem} (hn : Distinct merged) {m : MergedItem}
    (hm : m ∈ merged) : amountAt merged m.category m.selection = m.amountMinor := by
  obtain ⟨x, hx⟩ : ∃ x, merged.find? (fun x => x.category = m.category ∧ x.selection = m.selection) =
      some x := by
    cases hf : merged.find? (fun x => x.category = m.category ∧ x.selection = m.selection) with
    | none =>
      have hnone := List.find?_eq_none.mp hf m hm
      simp at hnone
    | some x => exact ⟨x, rfl⟩
  have hkey : x.category = m.category ∧ x.selection = m.selection := by simpa using List.find?_some hx
  obtain rfl : x = m := List.inj_on_of_nodup_map hn (List.mem_of_find?_eq_some hx) hm
    (by rw [hkey.1, hkey.2])
  rw [amountAt, hx]
  rfl

theorem mem_of_amountAt {merged : List MergedItem} {c : BetCategory} {n : ℤ}
    (h : 0 < amountAt merged c n) : ⟨c, n, amountAt merged c n⟩ ∈ merged := by
  rw [amountAt] at h ⊢
  cases hf : merged.find? (fun m => m.category = c ∧ m.selection = n) with
  | none =>
    rw [hf] at h
    exact absurd h (Int.lt_irrefl 0)
  | some m =>
    have hkey : m.category = c ∧ m.selection = n := by simpa using List.find?_some hf
    obtain ⟨rfl, rfl⟩ := hkey
    simpa using List.mem_of_find?_eq_some hf

theorem subset_of_amountAt {merged merged' : List MergedItem} (hn : Distinct merged)
    (hpos : AllPositive merged) (h : ∀ c n, amountAt merged c n = amountAt merged' c n) :
    merged ⊆ merged' := by
  intro m hm
  have hat := amountAt_of_mem hn hm
  have hmem : ⟨m.category, m.selection, amountAt merged' m.category m.selection⟩ ∈ merged' :=
    mem_of_amountAt (h _ _ ▸ hat ▸ hpos m hm)
  rw [← h, hat] at hmem
  exact hmem

theorem amountAt_nonneg {merged : List MergedItem} (hpos : AllPositive merged) (c : BetCategory)
    (n : ℤ) : 0 ≤ amountAt merged c n := by
  rw [amountAt]
  cases hf : merged.find? (fun m => m.category = c ∧ m.selection = n) with
  | none => exact Int.le_refl 0
  | some m => exact Int.le_of_lt (hpos m (List.mem_of_find?_eq_some hf))

theorem amountAt_le {merged merged' : List MergedItem} (hn : Distinct merged')
    (hpos : AllPositive merged') (h : merged ⊆ merged') (c : BetCategory) (n : ℤ) :
    amountAt merged c n ≤ amountAt merged' c n := by
  by_cases hc : 0 < amountAt merged c n
  · exact Int.le_of_eq (amountAt_of_mem hn (h (mem_of_amountAt hc))).symm
  · exact Int.le_trans (Int.not_lt.mp hc) (amountAt_nonneg hpos c n)

theorem perm_iff_amountAt {merged merged' : List MergedItem} (hn : Distinct merged)
    (hn' : Distinct merged') (hpos : AllPositive merged) (hpos' : AllPositive merged') :
    merged.Perm merged' ↔ ∀ c n, amountAt merged c n = amountAt merged' c n := by
  constructor
  · intro h c n
    exact Int.le_antisymm (amountAt_le hn' hpos' h.subset c n) (amountAt_le hn hpos h.symm.subset c n)
  · intro h
    have hsub := subset_of_amountAt hn hpos h
    have hsub' := subset_of_amountAt hn' hpos' fun c n => (h c n).symm
    exact (List.perm_ext_iff_of_nodup (hn.of_map _) (hn'.of_map _)).mpr
      fun m => ⟨fun hm => hsub hm, fun hm => hsub' hm⟩

def storedItem (i : BetItem) : MergedItem := ⟨i.category, i.selection, i.amountMinor⟩

theorem find_stored (rows : List BetItem) (key : String) :
    (rows.reverse.find? fun i => itemKey i.category i.selection = key).map (·.amountMinor) =
      ((rows.map storedItem).reverse.find? fun m => itemKey m.category m.selection = key).map
        (·.amountMinor) := by
  rw [← List.map_reverse, List.find?_map, Option.map_map]
  rfl

/-- The length test and the one-sided lookup compare the rows and the items as multisets. -/
theorem itemsMatch_iff_perm {rows : List BetItem} {merged : List MergedItem}
    (hn : ((rows.map storedItem).map fun m => itemKey m.category m.selection).Nodup)
    (hn' : Distinct merged) : itemsMatch rows merged = true ↔ (rows.map storedItem).Perm merged := by
  simp only [itemsMatch, decide_eq_true_eq, List.all_eq_true, find_stored]
  constructor
  · rintro ⟨hlen, hall⟩
    have hsub : merged ⊆ rows.map storedItem := by
      intro m hm
      obtain ⟨m₀, hfind, hamount⟩ := Option.map_eq_some_iff.mp (hall m hm)
      have hm₀ : m₀ ∈ rows.map storedItem := List.mem_reverse.mp (List.mem_of_find?_eq_some hfind)
      have hkey : itemKey m₀.category m₀.selection = itemKey m.category m.selection := by
        simpa using List.find?_some hfind
      obtain ⟨hc, hs⟩ := itemKey_inj hkey
      have hm₀m : m₀ = m := by
        obtain ⟨c, n, a⟩ := m
        obtain ⟨c₀, n₀, a₀⟩ := m₀
        cases hc
        cases hs
        cases hamount
        rfl
      exact hm₀m ▸ hm₀
    have hlen' : (rows.map storedItem).length = merged.length := by simpa using hlen
    exact ((hn'.of_map _).subperm hsub).perm_of_length_le (Nat.le_of_eq hlen') |>.symm
  · intro hperm
    refine ⟨by simpa using hperm.length_eq, fun m hm => ?_⟩
    rw [find_reverse_of_nodup hn (hperm.symm.subset hm)]
    rfl

theorem stored_itemRows (betId : Uuid) (p : Placement) :
    (itemRows betId p).map storedItem = p.merged := by
  rw [itemRows, List.map_map]
  exact List.map_id _

theorem itemsMatch_iff {params params' : PlaceBetParams} {p p' : Placement}
    (h : validate params = .ok p) (h' : validate params' = .ok p') (betId : Uuid) :
    itemsMatch (itemRows betId p) p'.merged = true ↔
      ∀ c n, amountOn params.dto.items c n = amountOn params'.dto.items c n := by
  obtain ⟨hpos, hat⟩ := merged_spec h
  obtain ⟨hpos', hat'⟩ := merged_spec h'
  have hkeys := merged_keys_nodup h
  rw [← stored_itemRows betId p] at hkeys
  rw [itemsMatch_iff_perm hkeys (merged_nodup h'), stored_itemRows,
    perm_iff_amountAt (merged_nodup h) (merged_nodup h') hpos hpos']
  simp only [hat, hat']

/-! The items of any two bodies that pass their DTO's checks. -/

theorem totalOf_mergeItem {acc acc' : List MergedItem} {item : PlaceBetItemDto}
    (hn : (acc.map fun m => itemKey m.category m.selection).Nodup)
    (h : mergeItem acc item = .ok acc') : totalOf acc' = totalOf acc + item.amountMinor := by
  simp only [mergeItem] at h
  split at h
  · cases h
  split at h
  · rename_i hknown
    cases h
    obtain ⟨m, hm, hkey⟩ := List.any_eq_true.mp hknown
    set key := itemKey item.category item.selection with hk
    have hmem : key ∈ acc.map fun m => itemKey m.category m.selection :=
      List.mem_map.mpr ⟨m, hm, of_decide_eq_true hkey⟩
    have hbump : (fun m : MergedItem => (if itemKey m.category m.selection = key then
          { m with amountMinor := m.amountMinor + item.amountMinor } else m).amountMinor) = fun m =>
        m.amountMinor + if itemKey m.category m.selection = key then item.amountMinor else 0 := by
      funext m
      split <;> simp
    have honce : (acc.map fun m => if itemKey m.category m.selection = key then item.amountMinor
        else 0).sum = item.amountMinor := by
      have hmap := List.sum_map_ite_eq (acc.map fun m => itemKey m.category m.selection)
        (fun _ => item.amountMinor) (fun _ => 0) key
      simpa [List.map_map, Function.comp_def, List.count_eq_one_of_mem hn hmem] using hmap
    simp only [totalOf_eq_sum, List.map_map, Function.comp_def, hbump, List.sum_map_add, honce]
  · cases h
    simp [totalOf_eq_sum]

theorem totalOf_foldlM {items : List PlaceBetItemDto} {acc merged : List MergedItem}
    (hn : (acc.map fun m => itemKey m.category m.selection).Nodup)
    (h : items.foldlM mergeItem acc = .ok merged) :
    totalOf merged = totalOf acc + (items.map (·.amountMinor)).sum := by
  induction items generalizing acc with
  | nil => cases h; simp
  | cons item items ih =>
    obtain ⟨acc', hm, h⟩ := foldlM_cons_ok h
    rw [ih (mergeItem_nodup hm hn) h, totalOf_mergeItem hn hm, List.map_cons, List.sum_cons,
      Int.add_assoc]

structure ValidItem (i : PlaceBetItemDto) : Prop where
  min : 0 ≤ i.selection
  max : i.selection ≤ 999
  isPositive : 0 < i.amountMinor
  isSafe : i.amountMinor ≤ maxSafeAmount

theorem amountOn_pos {items : List PlaceBetItemDto} (h : ∀ i ∈ items, ValidItem i)
    {item : PlaceBetItemDto} (hi : item ∈ items) : 0 < amountOn items item.category item.selection := by
  have hmem : item.amountMinor ∈ (items.filter fun i =>
      i.category = item.category ∧ i.selection = item.selection).map (·.amountMinor) :=
    List.mem_map.mpr ⟨item, List.mem_filter.mpr ⟨hi, by simp⟩, rfl⟩
  refine Int.lt_of_lt_of_le (h item hi).isPositive (List.single_le_sum (fun a ha => ?_) _ hmem)
  obtain ⟨i, hi, rfl⟩ := List.mem_map.mp ha
  exact Int.le_of_lt (h i (List.mem_filter.mp hi).1).isPositive

theorem mergeItems_total {items : List PlaceBetItemDto} (h : ∀ i ∈ items, ValidItem i) :
    ∃ merged, mergeItems items = .ok merged := by
  suffices hacc : ∀ acc, ∃ merged, items.foldlM mergeItem acc = .ok merged from hacc []
  induction items with
  | nil => exact fun acc => ⟨acc, rfl⟩
  | cons item items ih =>
    intro acc
    obtain ⟨hmin, hmax, hpos, hsafe⟩ := h item (by simp)
    have hbound : isSafeInteger item.amountMinor = true := by
      refine decide_eq_true ⟨?_, hsafe⟩
      exact Int.le_trans (by decide) (Int.le_of_lt hpos)
    have hstep : ∃ acc', mergeItem acc item = .ok acc' := by
      simp only [mergeItem, hbound, Bool.not_true, Bool.false_eq_true, Int.not_le.mpr hpos, or_self,
        ↓reduceIte]
      split
      · exact ⟨_, rfl⟩
      · exact ⟨_, rfl⟩
    obtain ⟨acc', hacc'⟩ := hstep
    obtain ⟨merged, hm⟩ := ih (fun i hi => h i (by simp [hi])) acc'
    exact ⟨merged, by rw [List.foldlM_cons, hacc']; exact hm⟩

theorem mergeItems_groups {items items' : List PlaceBetItemDto} (h : ∀ i ∈ items, ValidItem i)
    (h' : ∀ i ∈ items', ValidItem i) :
    ∃ merged merged', mergeItems items = .ok merged ∧ mergeItems items' = .ok merged' ∧
      Distinct merged ∧
      (∀ m ∈ merged, m.amountMinor = amountOn items m.category m.selection) ∧
      (∀ i ∈ items, ∃ m ∈ merged, m.category = i.category ∧ m.selection = i.selection) ∧
      totalOf merged = (items.map (·.amountMinor)).sum ∧
      ∀ rows : List BetItem, (rows.map storedItem).Perm merged →
        (itemsMatch rows merged' = true ↔ ∀ c n, amountOn items c n = amountOn items' c n) := by
  obtain ⟨merged, hm⟩ := mergeItems_total h
  obtain ⟨merged', hm'⟩ := mergeItems_total h'
  obtain ⟨hpos, hat⟩ := mergeItems_spec hm
  obtain ⟨hpos', hat'⟩ := mergeItems_spec hm'
  have hkeys := mergeItems_keys_nodup hm
  have hn : Distinct merged := nodup_of_keys hkeys
  have hn' : Distinct merged' := nodup_of_keys (mergeItems_keys_nodup hm')
  refine ⟨merged, merged', hm, hm', hn, fun m hmem => ?_, fun i hi => ?_, ?_, fun rows hrows => ?_⟩
  · rw [← hat, amountAt_of_mem hn hmem]
  · have hstake : 0 < amountAt merged i.category i.selection := by
      rw [hat]
      exact amountOn_pos h hi
    exact ⟨_, mem_of_amountAt hstake, rfl, rfl⟩
  · have htotal : totalOf merged = totalOf [] + (items.map (·.amountMinor)).sum :=
      totalOf_foldlM List.nodup_nil hm
    have hnil : totalOf [] = 0 := rfl
    rwa [hnil, Int.zero_add] at htotal
  · have hrkeys := (hrows.map fun m => itemKey m.category m.selection).nodup_iff.mpr hkeys
    rw [itemsMatch_iff_perm hrkeys hn', hrows.congr_left, perm_iff_amountAt hn hn' hpos hpos']
    simp only [hat, hat']

def splitItems : List PlaceBetItemDto := [⟨.doubles, 72, 400⟩, ⟨.singles, 7, 100⟩, ⟨.doubles, 72, 600⟩]

def wholeItems : List PlaceBetItemDto := [⟨.singles, 7, 100⟩, ⟨.doubles, 72, 1000⟩]

theorem splitItems_grouped :
    ∃ merged merged', mergeItems splitItems = .ok merged ∧ mergeItems wholeItems = .ok merged' ∧
      Distinct merged ∧ totalOf merged = 1100 ∧
      ∀ rows : List BetItem, (rows.map storedItem).Perm merged →
        (itemsMatch rows merged' = true ↔
          ∀ c n, amountOn splitItems c n = amountOn wholeItems c n) := by
  have hsplit : ∀ i ∈ splitItems, ValidItem i := by
    simp only [splitItems, List.forall_mem_cons, List.not_mem_nil, false_implies, implies_true,
      and_true]
    exact ⟨⟨by decide, by decide, by decide, by decide⟩, ⟨by decide, by decide, by decide, by decide⟩,
      by decide, by decide, by decide, by decide⟩
  have hwhole : ∀ i ∈ wholeItems, ValidItem i := by
    simp only [wholeItems, List.forall_mem_cons, List.not_mem_nil, false_implies, implies_true,
      and_true]
    exact ⟨⟨by decide, by decide, by decide, by decide⟩, by decide, by decide, by decide, by decide⟩
  obtain ⟨merged, merged', hm, hm', hn, -, -, htotal, hmatch⟩ := mergeItems_groups hsplit hwhole
  exact ⟨merged, merged', hm, hm', hn, htotal, hmatch⟩

end JitoGame.BetsService
