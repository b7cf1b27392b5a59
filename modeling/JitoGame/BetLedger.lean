import JitoGame.Balances

namespace JitoGame

open Transactions

namespace BetsService

theorem totalOf_eq_sum (items : List MergedItem) : totalOf items = (items.map (·.amountMinor)).sum := by
  rw [totalOf, ← List.foldl_map (f := fun m : MergedItem => m.amountMinor) (g := (· + ·)),
    ← List.sum_eq_foldl]

theorem mergeItem_nodup {acc acc' : List MergedItem} {item : PlaceBetItemDto}
    (h : mergeItem acc item = .ok acc')
    (hn : (acc.map fun m => itemKey m.category m.selection).Nodup) :
    (acc'.map fun m => itemKey m.category m.selection).Nodup := by
  simp only [mergeItem] at h
  split at h
  · cases h
  split at h
  · cases h
    rw [List.map_map]
    convert hn using 2
    funext m
    simp only [Function.comp]
    split <;> rfl
  · rename_i hnew
    cases h
    simp only [List.map_append, List.map_cons, List.map_nil]
    apply List.Nodup.append hn (List.nodup_singleton _)
    simp only [List.disjoint_singleton, List.mem_map, not_exists, not_and]
    intro m hm hk
    exact hnew (List.any_eq_true.mpr ⟨m, hm, by simpa using hk⟩)

theorem foldlM_nodup {items : List PlaceBetItemDto} {acc merged : List MergedItem}
    (hacc : (acc.map fun m => itemKey m.category m.selection).Nodup)
    (h : items.foldlM mergeItem acc = .ok merged) :
    (merged.map fun m => itemKey m.category m.selection).Nodup := by
  induction items generalizing acc with
  | nil => cases h; exact hacc
  | cons item items ih =>
    rw [List.foldlM_cons] at h
    cases hm : mergeItem acc item with
    | error e => rw [hm] at h; cases h
    | ok acc' => rw [hm] at h; exact ih (mergeItem_nodup hm hacc) h

theorem validate_checks {params : PlaceBetParams} {p : Placement} (h : validate params = .ok p) :
    validateKey params.idempotencyKey = .ok p.idempotencyKey ∧
      mergeItems params.dto.items = .ok p.merged ∧ p.totalAmountMinor = totalOf p.merged ∧
      validateSafeAmounts p.merged p.totalAmountMinor = .ok () := by
  simp only [validate] at h
  cases hk : validateKey params.idempotencyKey with
  | error e => rw [hk] at h; cases h
  | ok key =>
    cases hm : mergeItems params.dto.items with
    | error e => rw [hk, hm] at h; cases h
    | ok merged =>
      rw [hk, hm] at h
      change (validateSelectionRanges merged >>= fun _ => _) = _ at h
      cases hr : validateSelectionRanges merged with
      | error e => rw [hr] at h; cases h
      | ok _ =>
        rw [hr] at h
        change (validateSafeAmounts merged (totalOf merged) >>= fun _ => _) = _ at h
        cases hs : validateSafeAmounts merged (totalOf merged) with
        | error e => rw [hs] at h; cases h
        | ok _ =>
          rw [hs] at h
          cases h
          exact ⟨rfl, rfl, rfl, hs⟩

theorem validate_ok {params : PlaceBetParams} {p : Placement} (h : validate params = .ok p) :
    validateKey params.idempotencyKey = .ok p.idempotencyKey ∧
      mergeItems params.dto.items = .ok p.merged ∧ p.totalAmountMinor = totalOf p.merged :=
  ⟨(validate_checks h).1, (validate_checks h).2.1, (validate_checks h).2.2.1⟩

theorem total_safe {params : PlaceBetParams} {p : Placement} (h : validate params = .ok p) :
    p.totalAmountMinor ≤ maxSafeAmount := by
  have hsafe := (validate_checks h).2.2.2
  rw [validateSafeAmounts] at hsafe
  by_contra hlt
  rw [if_pos (Int.not_le.mp hlt)] at hsafe
  cases hitems : p.merged.forM fun item : MergedItem =>
      if maxSafeAmount < item.amountMinor then
        (throw (unsafeSelection item.category item.selection) : Except Err PUnit)
      else pure () with
  | error e => rw [hitems] at hsafe; cases hsafe
  | ok _ => rw [hitems] at hsafe; cases hsafe

theorem mergeItems_keys_nodup {items : List PlaceBetItemDto} {merged : List MergedItem}
    (h : mergeItems items = .ok merged) :
    (merged.map fun m => itemKey m.category m.selection).Nodup := by
  have hnil : (([] : List MergedItem).map fun m => itemKey m.category m.selection).Nodup :=
    List.nodup_nil
  exact foldlM_nodup hnil h

theorem nodup_of_keys {merged : List MergedItem}
    (h : (merged.map fun m => itemKey m.category m.selection).Nodup) :
    (merged.map fun m => (m.category, m.selection)).Nodup := by
  have hmap : (merged.map fun m => itemKey m.category m.selection) =
      (merged.map fun m => (m.category, m.selection)).map fun x => itemKey x.1 x.2 := by
    rw [List.map_map]; rfl
  exact .of_map _ (hmap ▸ h)

theorem merged_keys_nodup {params : PlaceBetParams} {p : Placement} (h : validate params = .ok p) :
    (p.merged.map fun m => itemKey m.category m.selection).Nodup :=
  mergeItems_keys_nodup (validate_ok h).2.1

theorem merged_nodup {params : PlaceBetParams} {p : Placement} (h : validate params = .ok p) :
    (p.merged.map fun m => (m.category, m.selection)).Nodup :=
  nodup_of_keys (merged_keys_nodup h)

end BetsService

structure BetsLinked (d : Db) : Prop where
  oneBet : ∀ u key, (d.bets.filter fun b => b.userId = u ∧ b.idempotencyKey = key).length ≤ 1
  debit : ∀ b ∈ d.bets, ∃ t,
    d.transactions.filter (fun t => t.referenceType = .betPlaced ∧ t.referenceId = some b.id) = [t] ∧
      t.direction = .debit ∧ t.amountMinor = b.totalAmountMinor ∧
      ∃ a ∈ d.accounts, a.id = t.accountId ∧ a.userId = b.userId
  owner : ∀ t ∈ d.transactions, t.referenceType = .betPlaced →
    ∃ b, d.bets.filter (fun b => t.referenceId = some b.id) = [b]
  total : ∀ b ∈ d.bets, b.totalAmountMinor = ((d.itemsOf b.id).map (·.amountMinor)).sum
  distinct : ∀ b ∈ d.bets, ((d.itemsOf b.id).map fun i => (i.category, i.selection)).Nodup
  inRange : ∀ b ∈ d.bets, ∀ i ∈ d.itemsOf b.id, 0 < i.amountMinor ∧
    i.category.range.1 ≤ i.selection ∧ i.selection ≤ i.category.range.2

theorem Effect.bets {c : Commit sql} {d : Db} (h : Effect c d)
    (href : ∀ params, c.call = .applyMutation params → params.referenceType ≠ .betPlaced) :
    (∃ params p b t, c.call = .placeBet params ∧ c.writes = placed p b t ∧
      Places params p b t c.start c.trace d) ∨
    (applyAll c.writes d).bets = d.bets ∧ (applyAll c.writes d).betItems = d.betItems ∧
      ∃ ts, (applyAll c.writes d).transactions = d.transactions ++ ts ∧
        ∀ t ∈ ts, t.referenceType ≠ .betPlaced := by
  have hquiet (hb : (applyAll c.writes d).bets = d.bets)
      (hi : (applyAll c.writes d).betItems = d.betItems)
      (ht : (applyAll c.writes d).transactions = d.transactions) :
      (applyAll c.writes d).bets = d.bets ∧ (applyAll c.writes d).betItems = d.betItems ∧
        ∃ ts, (applyAll c.writes d).transactions = d.transactions ++ ts ∧
          ∀ t ∈ ts, t.referenceType ≠ .betPlaced :=
    ⟨hb, hi, [], by rw [ht, List.append_nil], fun _ ht => by cases ht⟩
  cases h with
  | mutation hc hw h =>
    refine .inr ⟨by rw [hw]; rfl, by rw [hw]; rfl, [_], by rw [hw]; rfl, fun t ht => ?_⟩
    rw [List.mem_singleton.mp ht, h.fields.2.2.1]
    exact href _ hc
  | adjustment _ hw h =>
    refine .inr ⟨by rw [hw]; rfl, by rw [hw]; rfl, [_], by rw [hw]; rfl, fun t ht => ?_⟩
    rw [List.mem_singleton.mp ht, h.entry.fields.2.2.1]
    simp only [AdminPointsService.mutation, AdminPointsService.referenceType]
    split <;> decide
  | placement hc hw h => exact .inl ⟨_, _, _, _, hc, hw, h⟩
  | creation hw _ => exact .inr (hquiet (by rw [hw]; rfl) (by rw [hw]; rfl) (by rw [hw]; rfl))
  | opening hw _ _ => exact .inr (hquiet (by rw [hw]; rfl) (by rw [hw]; rfl) (by rw [hw]; rfl))
  | locking hw _ _ => exact .inr (hquiet (by rw [hw]; rfl) (by rw [hw]; rfl) (by rw [hw]; rfl))
  | idle hw => exact .inr (hquiet (by rw [hw]; rfl) (by rw [hw]; rfl) (by rw [hw]; rfl))

theorem Grows.owner {d d' : Db} (h : Grows d d') {id userId : Uuid}
    (ha : ∃ a ∈ d.accounts, a.id = id ∧ a.userId = userId) :
    ∃ a ∈ d'.accounts, a.id = id ∧ a.userId = userId := by
  obtain ⟨a, ha, rfl, rfl⟩ := ha
  have hmem : (a.id, a.userId) ∈ d'.accounts.map fun a => (a.id, a.userId) := by
    rw [h.accounts]
    exact List.mem_map_of_mem ha
  obtain ⟨a', ha', heq⟩ := List.mem_map.mp hmem
  exact ⟨a', ha', (Prod.mk.inj heq).1, (Prod.mk.inj heq).2⟩

theorem grows_commit (c : Commit sql) (d : Db) : Grows d (applyAll c.writes d) :=
  (protocol d fun _ => True).le_applyAll c.writes d

namespace BetsLinked

variable {d : Db} {c : Commit sql}

theorem quiet (h : BetsLinked d) (hbets : (applyAll c.writes d).bets = d.bets)
    (hitems : (applyAll c.writes d).betItems = d.betItems) {ts : List PointsTransaction}
    (htxn : (applyAll c.writes d).transactions = d.transactions ++ ts)
    (href : ∀ t ∈ ts, t.referenceType ≠ .betPlaced) : BetsLinked (applyAll c.writes d) where
  oneBet := by rw [hbets]; exact h.oneBet
  debit b hb := by
    rw [hbets] at hb
    obtain ⟨t, ht, hdir, hamt, hacc⟩ := h.debit b hb
    have hnone : ts.filter (fun t => t.referenceType = .betPlaced ∧ t.referenceId = some b.id) = [] :=
      List.filter_eq_nil_iff.mpr fun t ht => by simp [href t ht]
    refine ⟨t, ?_, hdir, hamt, (grows_commit c d).owner hacc⟩
    rw [htxn, List.filter_append, hnone, List.append_nil, ht]
  owner t ht hr := by
    rw [htxn, List.mem_append] at ht
    rw [hbets]
    rcases ht with ht | ht
    · exact h.owner t ht hr
    · exact absurd hr (href t ht)
  total b hb := by
    simp only [Db.itemsOf, hitems]
    exact h.total b (hbets ▸ hb)
  distinct b hb := by
    simp only [Db.itemsOf, hitems]
    exact h.distinct b (hbets ▸ hb)
  inRange b hb := by
    simp only [Db.itemsOf, hitems]
    exact h.inRange b (hbets ▸ hb)

variable {params : PlaceBetParams} {p : Placement} {b : Bet} {t : PointsTransaction} {start : ℕ}
variable {trace : List (Mark sql)}

theorem itemsOf_placed (hp : Places params p b t start trace d) (b' : Bet) (hb' : b' ∈ d.bets) :
    Db.itemsOf (applyAll (S := sql) (placed p b t) d) b'.id = d.itemsOf b'.id := by
  have hne : b.id ≠ b'.id := fun he => hp.fresh (he ▸ .bet hb')
  have hnone : (BetsService.itemRows b.id p).filter (fun i => i.betId = b'.id) = [] := by
    apply List.filter_eq_nil_iff.mpr
    intro i hi
    obtain ⟨m, -, rfl⟩ := List.mem_map.mp hi
    simpa using hne
  change (d.betItems ++ BetsService.itemRows b.id p).filter (fun i => i.betId = b'.id) = _
  rw [List.filter_append, hnone, List.append_nil]
  rfl

theorem itemsOf_new (hp : Places params p b t start trace d) :
    Db.itemsOf (applyAll (S := sql) (placed p b t) d) b.id = BetsService.itemRows b.id p := by
  have hnone : d.betItems.filter (fun i => i.betId = b.id) = [] :=
    List.filter_eq_nil_iff.mpr fun i hi he => hp.fresh ((by simpa using he : i.betId = b.id) ▸ .item hi)
  change (d.betItems ++ BetsService.itemRows b.id p).filter (fun i => i.betId = b.id) = _
  rw [List.filter_append, hnone, List.nil_append]
  apply List.filter_eq_self.mpr
  intro i hi
  obtain ⟨m, -, rfl⟩ := List.mem_map.mp hi
  simp

theorem place (h : BetsLinked d) (hp : Places params p b t start trace d) :
    BetsLinked (applyAll (S := sql) (placed p b t) d) := by
  have hbets : Db.bets (applyAll (S := sql) (placed p b t) d) = d.bets ++ [b] := rfl
  have htxn : Db.transactions (applyAll (S := sql) (placed p b t) d) = d.transactions ++ [t] := rfl
  obtain ⟨hdir, hamt, htype', href', -⟩ := hp.entry.fields
  have href : t.referenceId = some b.id := href'
  have htype : t.referenceType = .betPlaced := htype'
  clear htype' href'
  have huser : b.userId = params.userId := by rw [hp.bet]; rfl
  have hkey : b.idempotencyKey = p.idempotencyKey := by rw [hp.bet]; rfl
  have htotal : b.totalAmountMinor = p.totalAmountMinor := by rw [hp.bet]; rfl
  have hold {b' : Bet} (hb' : b' ∈ d.bets) : b.id ≠ b'.id := fun he => hp.fresh (he ▸ .bet hb')
  have hgrows : Grows d (applyAll (S := sql) (placed p b t) d) :=
    (protocol d fun _ => True).le_applyAll _ d
  have hnobet : d.bets.filter (fun b' => some b.id = some b'.id) = [] :=
    List.filter_eq_nil_iff.mpr fun b' hb' => by simpa using hold hb'
  constructor
  · intro u key
    rw [hbets, List.filter_append]
    by_cases hb : b.userId = u ∧ b.idempotencyKey = key
    · have hnone : d.bets.filter (fun b => b.userId = u ∧ b.idempotencyKey = key) = [] := by
        have hunused := hp.unused
        rw [Db.betOf, List.find?_eq_none, ← huser, ← hkey, hb.1, hb.2] at hunused
        exact List.filter_eq_nil_iff.mpr hunused
      rw [hnone]
      exact List.length_filter_le _ _
    · have hone : [b].filter (fun b => b.userId = u ∧ b.idempotencyKey = key) = [] := by
        simpa using hb
      rw [hone, List.append_nil]
      exact h.oneBet u key
  · intro b' hb'
    rw [hbets, List.mem_append, List.mem_singleton] at hb'
    rw [htxn, List.filter_append]
    rcases hb' with hb' | rfl
    · obtain ⟨t', ht', hrest⟩ := h.debit b' hb'
      have hnone :
          [t].filter (fun t => t.referenceType = .betPlaced ∧ t.referenceId = some b'.id) = [] := by
        simpa [href] using fun _ => hold hb'
      obtain ⟨hd, ha, hacc⟩ := hrest
      exact ⟨t', by rw [hnone, List.append_nil, ht'], hd, ha, hgrows.owner hacc⟩
    · have hnone : d.transactions.filter
          (fun t => t.referenceType = .betPlaced ∧ t.referenceId = some b'.id) = [] := by
        apply List.filter_eq_nil_iff.mpr
        intro t₀ ht₀ he
        have he : t₀.referenceType = .betPlaced ∧ t₀.referenceId = some b'.id := by simpa using he
        obtain ⟨b₀, hb₀⟩ := h.owner t₀ ht₀ he.1
        rw [he.2, hnobet] at hb₀
        cases hb₀
      have hself :
          [t].filter (fun t => t.referenceType = .betPlaced ∧ t.referenceId = some b'.id) = [t] := by
        simp [htype, href]
      obtain ⟨a, ha, hau, hai, -⟩ := hp.entry.account
      refine ⟨t, by rw [hnone, hself, List.nil_append], hdir, hamt.trans htotal.symm, ?_⟩
      exact hgrows.owner ⟨a, ha, hai, hau.trans huser.symm⟩
  · intro t' ht' hr'
    rw [htxn, List.mem_append, List.mem_singleton] at ht'
    rw [hbets]
    rcases ht' with ht' | rfl
    · obtain ⟨b₀, hb₀⟩ := h.owner t' ht' hr'
      have hmem : b₀ ∈ d.bets.filter (fun b => t'.referenceId = some b.id) := by rw [hb₀]; simp
      obtain ⟨hmem, heq⟩ := List.mem_filter.mp hmem
      have hnone : [b].filter (fun b => t'.referenceId = some b.id) = [] := by
        have heq : t'.referenceId = some b₀.id := by simpa using heq
        simpa [heq] using (hold hmem).symm
      exact ⟨b₀, by rw [List.filter_append, hb₀, hnone, List.append_nil]⟩
    · exact ⟨b, by rw [List.filter_append, href, hnobet]; simp⟩
  · intro b' hb'
    rw [hbets, List.mem_append, List.mem_singleton] at hb'
    rcases hb' with hb' | rfl
    · rw [itemsOf_placed hp b' hb']
      exact h.total b' hb'
    · rw [itemsOf_new hp, htotal, (BetsService.validate_ok hp.valid).2.2, BetsService.totalOf_eq_sum,
        BetsService.itemRows, List.map_map]
      rfl
  · intro b' hb'
    rw [hbets, List.mem_append, List.mem_singleton] at hb'
    rcases hb' with hb' | rfl
    · rw [itemsOf_placed hp b' hb']
      exact h.distinct b' hb'
    · rw [itemsOf_new hp, BetsService.itemRows, List.map_map]
      exact BetsService.merged_nodup hp.valid
  · intro b' hb'
    rw [hbets, List.mem_append, List.mem_singleton] at hb'
    rcases hb' with hb' | rfl
    · rw [itemsOf_placed hp b' hb']
      exact h.inRange b' hb'
    · rw [itemsOf_new hp]
      intro i hi
      have hfit := List.all_eq_true.mp hp.itemsFit i hi
      simp only [BetItem.fits, decide_eq_true_eq] at hfit
      exact hfit.2

theorem commit (h : BetsLinked d) (hc : Effect c d)
    (href : ∀ params, c.call = .applyMutation params → params.referenceType ≠ .betPlaced) :
    BetsLinked (applyAll c.writes d) := by
  rcases hc.bets href with ⟨params, p, b, t, -, hw, hp⟩ | ⟨hbets, hitems, ts, htxn, hts⟩
  · rw [hw]
    exact h.place hp
  · exact h.quiet hbets hitems htxn hts

end BetsLinked

def noBetReference : Call → Prop
  | .applyMutation params => params.referenceType ≠ .betPlaced
  | _ => True

theorem betsLinked_replay {base : Db} {log : List (Commit sql)}
    (h : Chronicle (Meets noBetReference) base log) (h₀ : BetsLinked base) :
    BetsLinked (replay base log) := by
  refine h.keeps h₀ fun c d hc hd => hd.commit hc.effect fun params hcall => ?_
  have hspawn := hc.1
  rw [hcall] at hspawn
  exact hspawn

/-- Bets, items and debits correspond in every committed content, and a call that has thrown is in
none of the commits. -/
theorem betsLinked_of_run {base : Db} {s : State sql} (h : Run (Policy.calls noBetReference) base s)
    (h₀ : BetsLinked base) : s.world.db = replay base s.world.log ∧ BetsLinked s.world.db ∧
      ∀ i p e, s.procs i = some p → p.prog.Ends (.error e) → own i s.world.log = [] := by
  refine ⟨h.obeys.db_eq, ?_, fun i p e hp he => ?_⟩
  · rw [h.obeys.db_eq]
    exact betsLinked_replay h.chronicle h₀
  · obtain ⟨w, hrely, hdone⟩ := h.outcome hp he
    exact hrely.own.trans hdone.own_of_error

def roundId : Uuid := .ofNat 9

def bettingDb : Db :=
  ⟨[.ofNat 1], [], [⟨.ofNat 2, .ofNat 1, 1000, 0⟩], [],
    [⟨roundId, .tripleChanceTimer, 1, "TC1", .bettingOpen, 1, 0, 100, none⟩], [], [], []⟩

def betParams : PlaceBetParams :=
  ⟨.ofNat 1, some "k", ⟨roundId.text, .tripleChanceTimer,
    [⟨.singles, 7, 400⟩, ⟨.doubles, 72, 100⟩, ⟨.singles, 7, 50⟩]⟩⟩

def restOfPlacement (i betId transactionId : ℕ) : List (Label sql) :=
  [.run i, .mint i (.ofNat betId), .input i 5, .run i, .run i, .mint i (.ofNat transactionId),
    .input i 6, .run i, .run i, .run i]

def placementRun (i betId transactionId : ℕ) : List (Label sql) :=
  [.spawn i (.placeBet betParams), .run i, .run i, .run i] ++ restOfPlacement i betId transactionId

theorem known_bettingDb : ∀ x, bettingDb.Known x → x ∈ [roundId] := by
  intro x hx
  cases hx with
  | round h => simp_all [bettingDb]
  | _ h => simp [bettingDb] at h

theorem betsLinked_bettingDb : BetsLinked bettingDb := by
  constructor <;> simp [bettingDb]

instance : DecidablePred noBetReference
  | .applyMutation params => inferInstanceAs (Decidable (params.referenceType ≠ .betPlaced))
  | .adjust _ | .placeBet _ | .reconcile _ _ | .openRound _ | .lockIfDeadlinePassed _ => isTrue trivial

theorem betsLinked_after_placement :
    ∃ s, (Policy.calls noBetReference).steps body (initial bettingDb [roundId])
        (placementRun 0 20 21) = some s ∧ s.world.db.bets.length = 1 ∧
      (s.world.db = replay bettingDb s.world.log ∧ BetsLinked s.world.db ∧
        ∀ i p e, s.procs i = some p → p.prog.Ends (.error e) → own i s.world.log = []) := by
  have hrun : ((Policy.calls noBetReference).steps body (initial bettingDb [roundId])
      (placementRun 0 20 21)).map (fun s => s.world.db.bets.length) = some 1 := by decide
  obtain ⟨s, hs, hbets⟩ := Option.map_eq_some_iff.mp hrun
  exact ⟨s, hs, hbets, betsLinked_of_run
    (.steps known_bettingDb hs) betsLinked_bettingDb⟩

end JitoGame
