import Mathlib.Data.List.Count
import Mathlib.Data.List.Nodup
import Mathlib.Data.List.Perm.Basic
import Mathlib.Data.List.Range
import Mathlib.Order.Lattice

namespace JitoGame.Pages

variable {α ι : Type*} [LinearOrder ι] {key : α → ι} {l s s' : List α} {b k n p : ℕ}

structure Listing (key : α → ι) (l s : List α) : Prop where
  perm : s.Perm l
  sorted : s.Pairwise fun x y => key y ≤ key x

/-- Rows of one key stand on both sides of the first `b`. -/
def Straddles (key : α → ι) (l : List α) (b : ℕ) : Prop :=
  ∃ x ∈ l, (l.countP fun y => key x < key y) < b ∧ b < l.countP fun y => key x ≤ key y

def page (n : ℕ) (s : List α) (k : ℕ) : List α := (s.drop (k * n)).take n

theorem Listing.sorted_split (h : Listing key l s) (b : ℕ) :
    (∀ x ∈ s.take b, ∀ y ∈ s.drop b, key y ≤ key x) ∧
      ((s.take b).Pairwise fun x y => key y ≤ key x) ∧ (s.drop b).Pairwise fun x y => key y ≤ key x := by
  have hsorted := h.sorted
  rw [← List.take_append_drop b s, List.pairwise_append] at hsorted
  exact ⟨fun x hx y hy => hsorted.2.2 x hx y hy, hsorted.1, hsorted.2.1⟩

theorem Listing.countP_split (h : Listing key l s) (b : ℕ) (q : α → Bool) :
    l.countP q = (s.take b).countP q + (s.drop b).countP q := by
  rw [← h.perm.countP_eq, ← List.countP_append, List.take_append_drop]

theorem Listing.take_eq_filter (h : Listing key l s) (hb : ¬ Straddles key l b) :
    s.take b = s.filter fun x => l.countP (fun y => key x ≤ key y) ≤ b := by
  obtain ⟨hcross, -, -⟩ := h.sorted_split b
  have hfirst (x : α) (hx : x ∈ s.take b) : l.countP (fun y => key x ≤ key y) ≤ b := by
    have hnone : (s.drop b).countP (fun y => decide (key x < key y)) = 0 := by
      rw [List.countP_eq_zero]
      intro y hy
      rw [decide_eq_true_eq, not_lt]
      exact hcross x hx y hy
    have hless : (s.take b).countP (fun y => decide (key x < key y)) < (s.take b).length := by
      rw [List.countP_lt_length_iff]
      exact ⟨x, hx, by simp⟩
    have hlength := List.length_take_le b s
    have hsplit := h.countP_split b fun y => decide (key x < key y)
    by_contra hmany
    exact hb ⟨x, h.perm.subset (List.mem_of_mem_take hx), by omega, by omega⟩
  have hlater (x : α) (hx : x ∈ s.drop b) : ¬ l.countP (fun y => key x ≤ key y) ≤ b := by
    have hall : (s.take b).countP (fun y => decide (key x ≤ key y)) = (s.take b).length := by
      rw [List.countP_eq_length]
      intro y hy
      rw [decide_eq_true_eq]
      exact hcross y hy x hx
    have hpos : 0 < (s.drop b).countP fun y => decide (key x ≤ key y) :=
      List.countP_pos_iff.mpr ⟨x, hx, by simp⟩
    have hlength : (s.take b).length = b := by
      have hne := List.length_pos_of_mem hx
      rw [List.length_drop] at hne
      rw [List.length_take]
      omega
    have hsplit := h.countP_split b fun y => decide (key x ≤ key y)
    omega
  conv_rhs => rw [← List.take_append_drop b s, List.filter_append]
  rw [List.filter_eq_self.mpr fun x hx => decide_eq_true (hfirst x hx),
    List.filter_eq_nil_iff.mpr fun x hx => by simpa using hlater x hx, List.append_nil]

theorem Listing.take_perm (h : Listing key l s) (h' : Listing key l s') (hb : ¬ Straddles key l b) :
    (s.take b).Perm (s'.take b) := by
  rw [h.take_eq_filter hb, h'.take_eq_filter hb]
  exact (h.perm.trans h'.perm.symm).filter _

theorem take_append_page (n : ℕ) (s : List α) (k : ℕ) :
    s.take (k * n) ++ page n s k = s.take ((k + 1) * n) := by
  rw [page, ← List.take_add, Nat.add_one_mul]

theorem Listing.page_perm (h : Listing key l s) (h' : Listing key l s')
    (hclean : ∀ k, ¬ Straddles key l (k * n)) (k : ℕ) : (page n s k).Perm (page n s' k) := by
  have hnext := h.take_perm h' (hclean (k + 1))
  rw [← take_append_page, ← take_append_page] at hnext
  have hcommon := (h.take_perm h' (hclean k)).append_right (page n s k)
  exact (List.perm_append_left_iff _).mp (hcommon.symm.trans hnext)

theorem flatMap_page (n : ℕ) (s : List α) (p : ℕ) :
    (List.range p).flatMap (page n s) = s.take (p * n) := by
  induction p with
  | zero => rw [Nat.zero_mul, List.take_zero, List.range_zero, List.flatMap_nil]
  | succ p ih =>
    rw [List.range_succ, List.flatMap_append, ih, ← take_append_page]
    simp

theorem pages_perm (hp : l.length ≤ p * n) (hclean : ∀ k, ¬ Straddles key l (k * n)) {s : ℕ → List α}
    (hs : ∀ k, Listing key l (s k)) : ((List.range p).flatMap fun k => page n (s k) k).Perm l := by
  have hpages : ((List.range p).flatMap fun k => page n (s k) k).Perm
      ((List.range p).flatMap (page n (s 0))) :=
    List.Perm.flatMap_left _ fun k _ => (hs k).page_perm (hs 0) hclean k
  rw [flatMap_page, List.take_of_length_le ((hs 0).perm.length_eq.trans_le hp)] at hpages
  exact hpages.trans (hs 0).perm

theorem Straddles.split (h : Straddles key l b) (hs : Listing key l s) : ∃ u a c w,
    s = u ++ a :: c :: w ∧ u.length + 1 = b ∧ key a = key c := by
  obtain ⟨x, -, hnewer, hsame⟩ := h
  obtain ⟨hcross, hfirst, hlater⟩ := hs.sorted_split b
  have hcount := hs.countP_split b fun y => decide (key x ≤ key y)
  have hcount' := hs.countP_split b fun y => decide (key x < key y)
  have hle := List.countP_le_length (p := fun y => decide (key x ≤ key y)) (l := s.take b)
  have hlength : (s.take b).length ≤ b := List.length_take_le b s
  rcases hdrop : s.drop b with _ | ⟨c, w⟩
  · rw [hdrop, List.countP_nil] at hcount
    omega
  have htake : (s.take b).length = b := by
    have hlen := congrArg List.length hdrop
    rw [List.length_drop, List.length_cons] at hlen
    rw [List.length_take]
    omega
  rcases List.eq_nil_or_concat (s.take b) with hnil | ⟨u, a, hu⟩
  · rw [hnil, List.length_nil] at htake
    omega
  rw [List.concat_eq_append] at hu
  rw [hu] at hcross hfirst htake hcount hcount'
  rw [hdrop] at hcross hlater hcount
  refine ⟨u, a, c, w, ?_, by simpa using htake, ?_⟩
  · rw [← List.take_append_drop b s, hu, hdrop, List.append_assoc]
    rfl
  have hac : key c ≤ key a := hcross a (by simp) c (by simp)
  -- otherwise the first `b` all come before `x`
  have hax : key a ≤ key x := by
    by_contra hlt
    have hall : (u ++ [a]).countP (fun y => decide (key x < key y)) = (u ++ [a]).length := by
      rw [List.countP_eq_length]
      intro y hy
      rw [decide_eq_true_eq]
      rcases List.mem_append.mp hy with hy | hy
      · exact (not_le.mp hlt).trans_le ((List.pairwise_append.mp hfirst).2.2 y hy a (by simp))
      · exact List.mem_singleton.mp hy ▸ not_le.mp hlt
    omega
  -- otherwise `x` and the rows of its key are among the first `b`
  have hxc : key x ≤ key c := by
    by_contra hlt
    have hnone : (c :: w).countP (fun y => decide (key x ≤ key y)) = 0 := by
      rw [List.countP_eq_zero]
      intro y hy
      rw [decide_eq_true_eq, not_le]
      rcases List.mem_cons.mp hy with rfl | hy
      · exact not_le.mp hlt
      · exact ((List.pairwise_cons.mp hlater).1 y hy).trans_lt (not_le.mp hlt)
    have hle := List.countP_le_length (p := fun y => decide (key x ≤ key y)) (l := u ++ [a])
    omega
  exact le_antisymm (hax.trans hxc) hac

theorem Listing.swap {u w : List α} {a c : α} (h : Listing key l (u ++ a :: c :: w))
    (hkey : key a = key c) : Listing key l (u ++ c :: a :: w) where
  perm := ((List.Perm.swap a c w).append_left u).trans h.perm
  sorted := by
    have hsorted := h.sorted
    simp only [List.pairwise_append, List.pairwise_cons, List.mem_cons, forall_eq_or_imp, hkey] at hsorted ⊢
    obtain ⟨hu, ⟨⟨-, ha⟩, hc, hw⟩, hcross⟩ := hsorted
    exact ⟨hu, ⟨⟨le_refl _, hc⟩, ha, hw⟩, fun x hx => ⟨(hcross x hx).2.1, (hcross x hx).1, (hcross x hx).2.2⟩⟩

theorem Straddles.repeats (h : Straddles key l ((k + 1) * n)) (hn : 0 < n) (hp : l.length ≤ p * n)
    (hs : Listing key l s) : ∃ s', Listing key l s' ∧
      ¬ ((List.range p).flatMap fun j => page n (if j = k + 1 then s' else s) j).Nodup := by
  obtain ⟨u, a, c, w, rfl, hu, hkey⟩ := h.split hs
  refine ⟨_, hs.swap hkey, fun hnodup => ?_⟩
  have hlength := hs.perm.length_eq
  simp only [List.length_append, List.length_cons] at hlength
  have hmul : (k + 1) * n = k * n + n := Nat.add_one_mul k n
  have hk : k + 1 < p := by
    by_contra hle
    have hpn := Nat.mul_le_mul_right n (Nat.le_of_not_lt hle)
    omega
  have hold : a ∈ page n (u ++ a :: c :: w) k := by
    have hsplit : (u ++ a :: c :: w).drop (k * n) = u.drop (k * n) ++ a :: c :: w :=
      List.drop_append_of_le_length (by omega)
    rw [page, hsplit, List.mem_take_iff_getElem]
    refine ⟨(u.drop (k * n)).length, ?_, ?_⟩
    · rw [List.length_drop, List.length_append, List.length_cons, List.length_drop]
      omega
    · rw [List.getElem_append_right (le_refl _)]
      simp
  have hnew : a ∈ page n (u ++ c :: a :: w) (k + 1) := by
    have hsplit : (u ++ c :: a :: w).drop ((k + 1) * n) = a :: w := by
      rw [← hu, ← List.drop_drop, List.drop_left]
      rfl
    rw [page, hsplit]
    cases n with
    | zero => cases hn
    | succ n => exact List.mem_cons_self
  have hdisjoint := (List.nodup_flatMap.mp hnodup).2
  have hpages := List.pairwise_iff_getElem.mp hdisjoint k (k + 1) (by simp; omega) (by simpa using hk)
    (Nat.lt_succ_self k)
  simp only [Function.onFun, List.getElem_range, Nat.lt_succ_self, Nat.ne_of_lt, ↓reduceIte] at hpages
  exact hpages hold hnew

end JitoGame.Pages
