import JitoGame.Pages
import JitoGame.PointsQueries

namespace JitoGame.PointsService

open Pages

variable {d : Db} {l s : List PointsTransaction} {userId : Uuid} {account : PointsAccount}

theorem listedBefore_iff {ties : PointsTransaction → ℕ} {t t' : PointsTransaction} :
    listedBefore ties t t' = true ↔
      t'.createdAt < t.createdAt ∨ t'.createdAt = t.createdAt ∧ ties t ≤ ties t' := decide_eq_true_iff

theorem pairwise_listedBefore (ties : PointsTransaction → ℕ) (l : List PointsTransaction) :
    (l.mergeSort (listedBefore ties)).Pairwise fun t t' => listedBefore ties t t' = true := by
  apply List.pairwise_mergeSort
  · intro t t' t'' h h'
    rw [listedBefore_iff] at h h' ⊢
    omega
  · intro t t'
    rw [Bool.or_eq_true, listedBefore_iff, listedBefore_iff]
    omega

theorem listing_mergeSort (ties : PointsTransaction → ℕ) (l : List PointsTransaction) :
    Listing (·.createdAt) l (l.mergeSort (listedBefore ties)) where
  perm := List.mergeSort_perm l _
  sorted := by
    refine (pairwise_listedBefore ties l).imp fun {t t'} h => ?_
    rw [listedBefore_iff] at h
    change t'.createdAt ≤ t.createdAt
    omega

theorem mergeSort_of_listing (hs : Listing (·.createdAt) l s) (hn : l.Nodup) :
    l.mergeSort (listedBefore s.idxOf) = s := by
  have hnodup : s.Nodup := hs.perm.nodup_iff.mpr hn
  have hlisting := listing_mergeSort s.idxOf l
  refine (hlisting.perm.trans hs.perm.symm).eq_of_pairwise ?_ (pairwise_listedBefore s.idxOf l) ?_
  · intro t t' _ ht' h h'
    rw [listedBefore_iff] at h h'
    exact ((List.idxOf_inj ht').mp (by omega)).symm
  · rw [List.pairwise_iff_getElem]
    intro i j hi hj hij
    have hle : s[j].createdAt ≤ s[i].createdAt := List.pairwise_iff_getElem.mp hs.sorted i j hi hj hij
    rw [listedBefore_iff, hnodup.idxOf_getElem, hnodup.idxOf_getElem]
    omega

/-- What a client gets that asks for all the pages, each time anew: `ties k` is how the query of page
`k + 1` orders rows of one instant. -/
def pagesOf (d : Db) (ties : ℕ → PointsTransaction → ℕ) (userId : Uuid)
    (query : ListTransactionsQueryDto) : List TransactionListItem :=
  let totalPages := ((listTransactions d (ties 0) userId query).map (·.listMeta.totalPages)).getD 0
  (List.range totalPages).flatMap fun k =>
    ((listTransactions d (ties k) userId { query with page := some (k + 1) }).map (·.data)).getD []

def found (d : Db) (account : PointsAccount) (query : ListTransactionsQueryDto) : List PointsTransaction :=
  (d.rowsOf account.id).filter (selects query)

theorem pagesOf_eq (ha : d.accountOf userId = some account) (ties : ℕ → PointsTransaction → ℕ)
    (query : ListTransactionsQueryDto) : pagesOf d ties userId query =
      ((List.range (((found d account query).length + query.limit.getD 20 - 1) / query.limit.getD 20)).flatMap
        fun k => page (query.limit.getD 20) ((found d account query).mergeSort (listedBefore (ties k)))
          k).map toListItem := by
  simp only [pagesOf, listTransactions, ha, Option.map_some, Option.getD_some, Nat.add_sub_cancel]
  rw [List.map_flatMap]
  rfl

theorem nodup_found (hids : (d.transactions.map (·.id)).Nodup) (account : PointsAccount)
    (query : ListTransactionsQueryDto) : ((found d account query).map toListItem).Nodup := by
  apply List.Nodup.of_map (·.id)
  rw [List.map_map]
  exact hids.sublist ((List.filter_sublist.trans List.filter_sublist).map _)

/-- The pages have every matching row exactly once, however each query orders the rows of one instant,
exactly when no page ends between two rows of one instant. -/
theorem pages_exact_iff (hids : (d.transactions.map (·.id)).Nodup)
    (ha : d.accountOf userId = some account) (query : ListTransactionsQueryDto)
    (hlimit : 0 < query.limit.getD 20) :
    (∀ ties, (pagesOf d ties userId query).Perm ((found d account query).map toListItem)) ↔
      ∀ k, ¬ Straddles (·.createdAt) (found d account query) (k * query.limit.getD 20) := by
  have hnodup := nodup_found hids account query
  have hrows : (found d account query).Nodup := hnodup.of_map
  generalize hn : query.limit.getD 20 = n at hlimit ⊢
  have hp : (found d account query).length ≤ ((found d account query).length + n - 1) / n * n := by
    have hdiv := Nat.div_add_mod ((found d account query).length + n - 1) n
    have hmod := Nat.mod_lt ((found d account query).length + n - 1) hlimit
    rw [mul_comm] at hdiv
    omega
  constructor
  · intro hall k hstraddles
    cases k with
    | zero =>
      obtain ⟨_, _, hless, -⟩ := hstraddles
      omega
    | succ k =>
      have hlisting := listing_mergeSort (fun _ => 0) (found d account query)
      generalize (found d account query).mergeSort (listedBefore fun _ => 0) = s at hlisting
      obtain ⟨s', hs', hrepeats⟩ := hstraddles.repeats hlimit hp hlisting
      -- all queries list the rows like `s`, but that of page `k + 2`
      have hperm := hall fun j => if j = k + 1 then s'.idxOf else s.idxOf
      rw [pagesOf_eq ha, hn] at hperm
      have hitems := (hperm.nodup_iff.mpr hnodup).of_map
      apply hrepeats
      have hsame (j : ℕ) : (found d account query).mergeSort
          (listedBefore (if j = k + 1 then s'.idxOf else s.idxOf)) = if j = k + 1 then s' else s := by
        split
        · exact mergeSort_of_listing hs' hrows
        · exact mergeSort_of_listing hlisting hrows
      simp only [hsame] at hitems
      exact hitems
  · intro hclean ties
    rw [pagesOf_eq ha, hn]
    exact (pages_perm hp hclean fun k => listing_mergeSort (ties k) _).map _

def bonus (n createdAt : ℕ) : PointsTransaction :=
  ⟨.ofNat n, .ofNat 2, .credit, 1, n, n + 1, .adminCredit, none, toString n, none, createdAt⟩

def bonusAccount : PointsAccount := ⟨.ofNat 2, .ofNat 1, 2, 2⟩

def bonusDb (rows : List PointsTransaction) : Db :=
  { users := [.ofNat 1]
    adminUsers := []
    accounts := [bonusAccount]
    transactions := rows
    rounds := []
    bets := []
    betItems := []
    adminLogs := [] }

def onePerPage : ListTransactionsQueryDto := ⟨none, some 1, none, none, none⟩

theorem pages_exact_apart :
    (pagesOf (bonusDb [bonus 0 5, bonus 1 6]) (fun _ _ => 0) (.ofNat 1) onePerPage).Perm
      [toListItem (bonus 0 5), toListItem (bonus 1 6)] := by
  have haccount : (bonusDb [bonus 0 5, bonus 1 6]).accountOf (.ofNat 1) = some bonusAccount := by decide
  refine (pages_exact_iff (by decide) haccount onePerPage (by decide)).mpr ?_ _
  rintro k ⟨t, ht, hless, hmore⟩
  have hbound : ∀ t ∈ found (bonusDb [bonus 0 5, bonus 1 6]) bonusAccount onePerPage,
      (found (bonusDb [bonus 0 5, bonus 1 6]) bonusAccount onePerPage).countP
        (fun t' => t.createdAt ≤ t'.createdAt) =
      (found (bonusDb [bonus 0 5, bonus 1 6]) bonusAccount onePerPage).countP
        (fun t' => t.createdAt < t'.createdAt) + 1 := by decide
  have hone := hbound t ht
  dsimp only at hless hmore
  omega

theorem pages_repeat_row : ∃ ties,
    pagesOf (bonusDb [bonus 0 5, bonus 1 5]) ties (.ofNat 1) onePerPage =
      [toListItem (bonus 0 5), toListItem (bonus 0 5)] ∧
    ¬ (pagesOf (bonusDb [bonus 0 5, bonus 1 5]) ties (.ofNat 1) onePerPage).Perm
      ((found (bonusDb [bonus 0 5, bonus 1 5]) bonusAccount onePerPage).map toListItem) := by
  have haccount : (bonusDb [bonus 0 5, bonus 1 5]).accountOf (.ofNat 1) = some bonusAccount := by decide
  have hfirst : Listing (·.createdAt) [bonus 0 5, bonus 1 5] [bonus 0 5, bonus 1 5] :=
    ⟨.refl _, by decide⟩
  have hsecond : Listing (·.createdAt) [bonus 0 5, bonus 1 5] [bonus 1 5, bonus 0 5] :=
    ⟨.swap .., by decide⟩
  have hpages : pagesOf (bonusDb [bonus 0 5, bonus 1 5])
      (fun k => if k = 0 then [bonus 0 5, bonus 1 5].idxOf else [bonus 1 5, bonus 0 5].idxOf) (.ofNat 1)
      onePerPage = [toListItem (bonus 0 5), toListItem (bonus 0 5)] := by
    rw [pagesOf_eq haccount]
    change (page 1 ([bonus 0 5, bonus 1 5].mergeSort (listedBefore [bonus 0 5, bonus 1 5].idxOf)) 0 ++
      (page 1 ([bonus 0 5, bonus 1 5].mergeSort (listedBefore [bonus 1 5, bonus 0 5].idxOf)) 1 ++
        [])).map toListItem = _
    rw [mergeSort_of_listing hfirst (by decide), mergeSort_of_listing hsecond (by decide)]
    rfl
  refine ⟨_, hpages, ?_⟩
  rw [hpages]
  decide

end JitoGame.PointsService
