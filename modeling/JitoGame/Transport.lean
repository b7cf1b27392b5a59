import JitoGame.Merging
import JitoGame.Replays
import JitoGame.PointsQueries

namespace JitoGame

open Transactions RunningBalance

theorem centipointsToNumber_exact {n : ℤ} (h₀ : 0 ≤ n) (h : n ≤ maxSafeAmount) :
    centipointsToNumber n = n := by
  have hlt : n.natAbs < 2 ^ 53 := by
    rw [maxSafeAmount] at h
    omega
  have hlog : n.natAbs.log2 - 52 = 0 := by
    by_cases hz : n.natAbs = 0
    · simp [hz]
    · have hlog := (Nat.log2_lt hz).mpr hlt
      omega
  have hexact : ¬(1 < 2 * 0 ∨ 2 * 0 = 1 ∧ n.natAbs % 2 = 1) := by
    omega
  simp only [centipointsToNumber, hlog, pow_zero, Nat.div_one, Nat.mod_one]
  rw [if_neg hexact, Nat.mul_one]
  apply Int.sign_mul_natAbs

/-! Credits bound the balances of an account. -/

theorem total_append (dir : TxnDirection) (rows rows' : List PointsTransaction) :
    total dir (rows ++ rows') = total dir rows + total dir rows' := by
  simp [total]

theorem total_nonneg {rows : List PointsTransaction} (h : ∀ t ∈ rows, 0 < t.amountMinor)
    (dir : TxnDirection) : 0 ≤ total dir rows := by
  apply List.sum_nonneg
  intro x hx
  obtain ⟨t, ht, rfl⟩ := List.mem_map.mp hx
  exact Int.le_of_lt (h t (List.mem_of_mem_filter ht))

def credits (d : Db) (accountId : Uuid) : ℤ := total .credit (d.rowsOf accountId)

theorem delta_le_credit {t : PointsTransaction} (h : 0 < t.amountMinor) :
    t.delta ≤ total .credit [t] := by
  cases hd : t.direction <;> simp [PointsTransaction.delta, total, hd]
  omega

theorem sum_le_credits {rows : List PointsTransaction} (h : ∀ t ∈ rows, 0 < t.amountMinor) :
    (rows.map (·.delta)).sum ≤ total .credit rows := by
  rw [sum_delta]
  have hdebit := total_nonneg h .debit
  omega

structure Banked (d : Db) : Prop where
  sound : Sound d
  linked : BetsLinked d
  owned : ∀ t ∈ d.transactions, ∃ a ∈ d.accounts, a.id = t.accountId
  amounts : ∀ t ∈ d.transactions, 0 < t.amountMinor ∧ t.amountMinor ≤ maxSafeAmount
  after : ∀ t ∈ d.transactions, 0 ≤ t.balanceAfterMinor
  totals : ∀ b ∈ d.bets, 0 < b.totalAmountMinor ∧ b.totalAmountMinor ≤ maxSafeAmount

theorem Banked.balance_le {d : Db} (h : Banked d) {a : PointsAccount} (ha : a ∈ d.accounts) :
    a.balanceMinor ≤ credits d a.id := by
  rw [(h.sound.balanced ha).sum]
  have hdebit : 0 ≤ total .debit (d.rowsOf a.id) :=
    total_nonneg (fun t ht => (h.amounts t (List.mem_of_mem_filter ht)).1) .debit
  rw [credits]
  omega

theorem Banked.row_le {d : Db} (h : Banked d) {a : PointsAccount} (ha : a ∈ d.accounts)
    {t : PointsTransaction} (ht : t ∈ d.rowsOf a.id) :
    t.balanceBeforeMinor ≤ credits d a.id ∧ t.balanceAfterMinor ≤ credits d a.id := by
  obtain ⟨pre, post, heq, hchain⟩ := (h.sound.chain a ha).found ht
  have hmem {x : PointsTransaction} (hx : x ∈ pre ++ t :: post) : x ∈ d.transactions :=
    List.mem_of_mem_filter (heq ▸ hx)
  have hpos (x : PointsTransaction) (hx : x ∈ pre ++ t :: post) : 0 < x.amountMinor :=
    (h.amounts x (hmem hx)).1
  have hbefore : t.balanceBeforeMinor = 0 + (pre.map (·.delta)).sum :=
    hchain.sum PointsTransaction.delta fun x hx => h.sound.deltas x (hmem (by simp [hx]))
  have hafter := h.sound.deltas t (hmem (by simp))
  have hpre : (pre.map (·.delta)).sum ≤ total .credit pre :=
    sum_le_credits fun x hx => hpos x (by simp [hx])
  have hdelta := delta_le_credit (hpos t (by simp))
  have hpost : 0 ≤ total .credit post := total_nonneg (fun x hx => hpos x (by simp [hx])) .credit
  have hrow : 0 ≤ total .credit [t] := total_nonneg (fun x hx => hpos x (by simp_all)) .credit
  have hsplit : credits d a.id = total .credit pre + (total .credit [t] + total .credit post) := by
    rw [credits, heq, total_append, ← total_append .credit [t] post]
    rfl
  omega

theorem Banked.before_nonneg {d : Db} (h : Banked d) {a : PointsAccount} (ha : a ∈ d.accounts)
    {t : PointsTransaction} (ht : t ∈ d.rowsOf a.id) : 0 ≤ t.balanceBeforeMinor := by
  obtain ⟨pre, post, heq, hchain⟩ := (h.sound.chain a ha).found ht
  rcases hchain.last with hzero | ⟨e, he, hlast⟩
  · exact Int.le_of_eq hzero.symm
  · have hmem : e ∈ d.rowsOf a.id := by
      rw [heq]
      simp [he]
    exact hlast ▸ h.after e (List.mem_of_mem_filter hmem)

/-! The states that registrations and the services reach. -/

def registered (d : Db) (userId accountId : Uuid) : Db :=
  { d with
    users := d.users ++ [userId]
    accounts := d.accounts ++ [⟨accountId, userId, 0, 0⟩] }

/-- No caller but the services themselves, and the amounts that `AdjustPointsDto` lets through. -/
def dtoBounded : Call → Prop
  | .applyMutation _ => False
  | .adjust params => 0 < params.dto.amountMinor ∧ params.dto.amountMinor ≤ maxSafeAmount
  | .placeBet _ | .reconcile _ _ | .openRound _ | .lockIfDeadlinePassed _ => True

instance : DecidablePred dtoBounded
  | .applyMutation _ => isFalse id
  | .adjust params => inferInstanceAs
      (Decidable (0 < params.dto.amountMinor ∧ params.dto.amountMinor ≤ maxSafeAmount))
  | .placeBet _ | .reconcile _ _ | .openRound _ | .lockIfDeadlinePassed _ => isTrue trivial

inductive Attained : Db → Prop
  | empty {d : Db} (ha : d.accounts = []) (ht : d.transactions = []) (hb : d.bets = []) : Attained d
  | register {d : Db} {userId accountId : Uuid} (h : Attained d)
      (ha : ∀ a ∈ d.accounts, a.id ≠ accountId ∧ a.userId ≠ userId) :
      Attained (registered d userId accountId)
  | commit {d : Db} {c : Commit sql} (h : Attained d) (hc : Meets dtoBounded c d) :
      Attained (applyAll c.writes d)

theorem Banked.empty {d : Db} (ha : d.accounts = []) (ht : d.transactions = []) (hb : d.bets = []) :
    Banked d := by
  refine ⟨⟨?_, ?_, ?_, ?_, ?_⟩, ⟨?_, ?_, ?_, ?_, ?_, ?_⟩, ?_, ?_, ?_, ?_⟩ <;> simp [ha, ht, hb]

theorem Banked.register {d : Db} (h : Banked d) {userId accountId : Uuid}
    (ha : ∀ a ∈ d.accounts, a.id ≠ accountId) : Banked (registered d userId accountId) := by
  have hrows : (registered d userId accountId).rowsOf accountId = [] := by
    apply List.filter_eq_nil_iff.mpr
    intro t ht
    obtain ⟨a, hmem, hid⟩ := h.owned t ht
    simpa using fun heq => ha a hmem (hid.trans heq)
  have hcases {a : PointsAccount} (hmem : a ∈ (registered d userId accountId).accounts) :
      a ∈ d.accounts ∨ a = ⟨accountId, userId, 0, 0⟩ := by
    simpa [registered] using hmem
  refine ⟨⟨?_, h.sound.deltas, fun a hmem => ?_, fun a hmem => ?_, fun a hmem => ?_⟩, ?_,
    fun t ht => ?_, h.amounts, h.after, h.totals⟩
  · simp only [registered, List.map_append, List.map_cons, List.map_nil]
    apply h.sound.ids.append (List.nodup_singleton _)
    simpa using ha
  · rcases hcases hmem with hmem | rfl
    · exact h.sound.nonneg a hmem
    · exact Int.le_refl 0
  · rcases hcases hmem with hmem | rfl
    · exact h.sound.version a hmem
    · rw [hrows]
      rfl
  · rcases hcases hmem with hmem | rfl
    · exact h.sound.chain a hmem
    · rw [hrows]
      rfl
  · refine ⟨h.linked.oneBet, fun b hb => ?_, h.linked.owner, h.linked.total, h.linked.distinct,
      h.linked.inRange⟩
    obtain ⟨t, hfilter, hdir, hamount, a, hmem, hid⟩ := h.linked.debit b hb
    exact ⟨t, hfilter, hdir, hamount, a, List.mem_append_left _ hmem, hid⟩
  · obtain ⟨a, hmem, hid⟩ := h.owned t ht
    exact ⟨a, List.mem_append_left _ hmem, hid⟩

theorem Meets.posted {c : Commit sql} {d : Db} (h : Meets dtoBounded c d) :
    (∃ params t, Posts params t d ∧ params.amountMinor ≤ maxSafeAmount ∧
      (applyAll c.writes d).transactions = d.transactions ++ [t]) ∨
    (applyAll c.writes d).transactions = d.transactions := by
  have hspawn := h.1
  cases h.effect with
  | mutation hc _ _ =>
    rw [hc] at hspawn
    exact hspawn.elim
  | adjustment hc hw hp =>
    rw [hc] at hspawn
    exact .inl ⟨_, _, hp.entry, hspawn.2, by rw [hw]; rfl⟩
  | placement hc hw hp => exact .inl ⟨_, _, hp.entry, BetsService.total_safe hp.valid, by rw [hw]; rfl⟩
  | creation hw _ => exact .inr (by rw [hw]; rfl)
  | opening hw _ _ => exact .inr (by rw [hw]; rfl)
  | locking hw _ _ => exact .inr (by rw [hw]; rfl)
  | idle hw => exact .inr (by rw [hw]; rfl)

theorem Effect.placed_bets {c : Commit sql} {d : Db} (h : Effect c d) {b : Bet}
    (hb : b ∈ (applyAll c.writes d).bets) : b ∈ d.bets ∨
      0 < b.totalAmountMinor ∧ b.totalAmountMinor ≤ maxSafeAmount := by
  cases h with
  | @placement params p b' t hc hw hp =>
    rw [hw] at hb
    rcases List.mem_append.mp (show b ∈ d.bets ++ [b'] from hb) with hb | hb
    · exact .inl hb
    · obtain rfl := List.mem_singleton.mp hb
      refine .inr ⟨?_, ?_⟩
      · have hfit := hp.fits
        simp only [Bet.fits, decide_eq_true_eq] at hfit
        exact hfit.2.2
      · rw [hp.bet]
        exact BetsService.total_safe hp.valid
  | mutation _ hw _ => rw [hw] at hb; exact .inl hb
  | adjustment _ hw _ => rw [hw] at hb; exact .inl hb
  | creation hw _ => rw [hw] at hb; exact .inl hb
  | opening hw _ _ => rw [hw] at hb; exact .inl hb
  | locking hw _ _ => rw [hw] at hb; exact .inl hb
  | idle hw => rw [hw] at hb; exact .inl hb

theorem Banked.commit {d : Db} {c : Commit sql} (h : Banked d) (hc : Meets dtoBounded c d) :
    Banked (applyAll c.writes d) := by
  have hgrows := grows_commit c d
  have hown {id : Uuid} (ha : ∃ a ∈ d.accounts, a.id = id) :
      ∃ a ∈ (applyAll c.writes d).accounts, a.id = id := by
    obtain ⟨a, ha, hid⟩ := ha
    obtain ⟨a', ha', hid', -⟩ := hgrows.owner ⟨a, ha, hid, rfl⟩
    exact ⟨a', ha', hid'⟩
  have hrow {t : PointsTransaction} (ht : t ∈ (applyAll c.writes d).transactions) :
      t ∈ d.transactions ∨ ∃ params, Posts params t d ∧ params.amountMinor ≤ maxSafeAmount := by
    rcases hc.posted with ⟨params, t', hp, hle, heq⟩ | heq
    · rw [heq, List.mem_append, List.mem_singleton] at ht
      rcases ht with ht | rfl
      · exact .inl ht
      · exact .inr ⟨params, hp, hle⟩
    · exact .inl (heq ▸ ht)
  refine ⟨h.sound.commit hc.effect, h.linked.commit hc.effect fun params hcall => ?_,
    fun t ht => ?_, fun t ht => ?_, fun t ht => ?_, fun b hb => ?_⟩
  · have hspawn := hc.1
    rw [hcall] at hspawn
    exact hspawn.elim
  · rcases hrow ht with ht | ⟨params, hp, -⟩
    · exact hown (h.owned t ht)
    · obtain ⟨a, ha, -, hid, -⟩ := hp.account
      exact hown ⟨a, ha, hid⟩
  · rcases hrow ht with ht | ⟨params, hp, hle⟩
    · exact h.amounts t ht
    · exact ⟨hp.checks.2.2, hp.fields.2.1 ▸ hle⟩
  · rcases hrow ht with ht | ⟨params, hp, -⟩
    · exact h.after t ht
    · exact hp.checks.2.1
  · exact (hc.effect.placed_bets hb).elim (h.totals b) id

theorem Attained.banked {d : Db} (h : Attained d) : Banked d := by
  induction h with
  | empty ha ht hb => exact .empty ha ht hb
  | register _ ha ih => exact ih.register fun a hmem => (ha a hmem).1
  | commit _ hc ih => exact ih.commit hc

theorem attained_of_run {base : Db} {s : State sql} (hb : Attained base)
    (h : Run (Policy.calls dtoBounded) base s) : Attained s.world.db := by
  rw [h.obeys.db_eq]
  exact h.chronicle.keeps hb fun _ _ hc hd => hd.commit hc

/-! The numbers in the responses. -/

structure Exact (s : State sql) : Prop where
  balance : ∀ updatedAt userId r, PointsService.getBalance s.world.db updatedAt userId = some r →
    ∃ a ∈ s.world.db.accounts, a.userId = userId ∧
      (a.balanceMinor ≤ maxSafeAmount → r.balanceMinor = a.balanceMinor)
  list : ∀ ties userId query r,
    PointsService.listTransactions s.world.db ties userId query = some r →
    ∃ a ∈ s.world.db.accounts, a.userId = userId ∧ ∀ item ∈ r.data, ∃ t ∈ s.world.db.rowsOf a.id,
      item.id = t.id ∧ item.amountMinor = t.amountMinor ∧
        (t.balanceBeforeMinor ≤ maxSafeAmount → item.balanceBeforeMinor = t.balanceBeforeMinor) ∧
        (t.balanceAfterMinor ≤ maxSafeAmount → item.balanceAfterMinor = t.balanceAfterMinor)
  bet : ∀ i p params r, s.procs i = some p → p.call = .placeBet params →
    p.prog.Ends (.ok (.bet r)) → ∃ b ∈ s.world.db.bets, ∃ a ∈ s.world.db.accounts,
      ∃ t ∈ s.world.db.rowsOf a.id, t.referenceType = .betPlaced ∧ t.referenceId = some b.id ∧
        r.betId = b.id ∧ r.totalAmountMinor = b.totalAmountMinor ∧
        (t.balanceAfterMinor ≤ maxSafeAmount → r.balanceMinor = t.balanceAfterMinor)

theorem Banked.total_exact {d : Db} (h : Banked d) {b : Bet} (hb : b ∈ d.bets) :
    centipointsToNumber b.totalAmountMinor = b.totalAmountMinor :=
  centipointsToNumber_exact (Int.le_of_lt (h.totals b hb).1) (h.totals b hb).2

theorem Banked.row_exact {d : Db} (h : Banked d) {a : PointsAccount} (ha : a ∈ d.accounts)
    {t : PointsTransaction} (ht : t ∈ d.rowsOf a.id) :
    (t.balanceBeforeMinor ≤ maxSafeAmount →
      centipointsToNumber t.balanceBeforeMinor = t.balanceBeforeMinor) ∧
    (t.balanceAfterMinor ≤ maxSafeAmount →
      centipointsToNumber t.balanceAfterMinor = t.balanceAfterMinor) :=
  ⟨centipointsToNumber_exact (h.before_nonneg ha ht),
    centipointsToNumber_exact (h.after t (List.mem_of_mem_filter ht))⟩

theorem Banked.account_of_row {d : Db} (h : Banked d) {t : PointsTransaction}
    (ht : t ∈ d.transactions) : ∃ a ∈ d.accounts, t ∈ d.rowsOf a.id := by
  obtain ⟨a, ha, hid⟩ := h.owned t ht
  exact ⟨a, ha, List.mem_filter.mpr ⟨ht, by simp [hid]⟩⟩

theorem Banked.debit_of_bet {d : Db} (h : Banked d) {b : Bet} (hb : b ∈ d.bets) :
    ∃ t ∈ d.transactions, d.debitOf b.id = some t ∧ t.referenceType = .betPlaced ∧
      t.referenceId = some b.id := by
  obtain ⟨t, hfilter, -⟩ := h.linked.debit b hb
  have hmem : t ∈ d.transactions.filter fun t =>
      t.referenceType = .betPlaced ∧ t.referenceId = some b.id := by
    rw [hfilter]
    exact List.mem_singleton_self t
  obtain ⟨ht, href⟩ := List.mem_filter.mp hmem
  obtain ⟨htype, hid⟩ := of_decide_eq_true href
  exact ⟨t, ht, h.linked.debitOf hb ht htype hid, htype, hid⟩

theorem placement_rows {base : Db} {s : State sql} (hb : Attained base)
    (h : Run (Policy.calls dtoBounded) base s) {i : ℕ} {p : Proc sql} {params : PlaceBetParams}
    {r : PlaceBetResult} (hp : s.procs i = some p) (hcall : p.call = .placeBet params)
    (hend : p.prog.Ends (.ok (.bet r))) :
    ∃ b ∈ s.world.db.bets, ∃ t ∈ s.world.db.transactions, t.referenceType = .betPlaced ∧
      t.referenceId = some b.id ∧ r.betId = b.id ∧
      r.totalAmountMinor = centipointsToNumber b.totalAmountMinor ∧
      r.balanceMinor = centipointsToNumber t.balanceAfterMinor := by
  obtain ⟨s₀, hrun, hlater, hdone⟩ := h.returned hp hend
  have hgrows : Grows s₀.world.db s.world.db := by
    rw [hrun.obeys.db_eq, h.obeys.db_eq]
    exact grows_replay hlater.log_suffix
  rw [hcall] at hdone
  cases hdone with
  | @placed _ p' c b t hown hval hw =>
    obtain ⟨p₀, b₀, t₀, hacc⟩ := h.accepted hp hcall hend rfl
    obtain ⟨start, trace, d, hplaces⟩ := hacc.places
    obtain ⟨-, -, htype, hid, -⟩ := hplaces.entry.fields
    rw [h.obeys.db_eq]
    refine ⟨b₀, List.mem_of_find?_eq_some hacc.stands.bet, t₀, hacc.debit, htype, hid, ?_⟩
    rw [hacc.answer]
    exact ⟨rfl, rfl, rfl⟩
  | @betReplayed _ p' b hown hval hbet =>
    have hmem := List.mem_of_find?_eq_some hbet
    obtain ⟨t, ht, hdebit, htype, hid⟩ := (attained_of_run hb hrun).banked.debit_of_bet hmem
    refine ⟨b, hgrows.bets.subset hmem, t, hgrows.transactions.subset ht, htype, hid, rfl, rfl, ?_⟩
    rw [hdebit]
    rfl

theorem responses_exact {base : Db} {s : State sql} (hb : Attained base)
    (h : Run (Policy.calls dtoBounded) base s) :
    (∀ b ∈ s.world.db.bets, b.totalAmountMinor ≤ maxSafeAmount) ∧
      (∀ t ∈ s.world.db.transactions, t.amountMinor ≤ maxSafeAmount) ∧
      (∀ a ∈ s.world.db.accounts, a.balanceMinor ≤ credits s.world.db a.id ∧
        ∀ t ∈ s.world.db.rowsOf a.id, t.balanceBeforeMinor ≤ credits s.world.db a.id ∧
          t.balanceAfterMinor ≤ credits s.world.db a.id) ∧
      Exact s := by
  have hbank := (attained_of_run hb h).banked
  refine ⟨fun b hmem => (hbank.totals b hmem).2, fun t ht => (hbank.amounts t ht).2,
    fun a ha => ⟨hbank.balance_le ha, fun t ht => hbank.row_le ha ht⟩, ?_⟩
  constructor
  · intro updatedAt userId r hr
    obtain ⟨a, hfind, rfl⟩ := Option.map_eq_some_iff.mp hr
    have ha := List.mem_of_find?_eq_some hfind
    have huser : a.userId = userId := by simpa using List.find?_some hfind
    exact ⟨a, ha, huser, centipointsToNumber_exact (hbank.sound.nonneg a ha)⟩
  · intro ties userId query r hr
    obtain ⟨a, hfind, rfl⟩ := Option.map_eq_some_iff.mp hr
    have ha := List.mem_of_find?_eq_some hfind
    refine ⟨a, ha, by simpa using List.find?_some hfind, fun item hitem => ?_⟩
    obtain ⟨t, ht, rfl⟩ := List.mem_map.mp hitem
    have hrow : t ∈ s.world.db.rowsOf a.id := by
      have hsorted := List.mem_of_mem_drop (List.mem_of_mem_take ht)
      exact List.mem_of_mem_filter ((List.mergeSort_perm _ _).subset hsorted)
    obtain ⟨hpos, hle⟩ := hbank.amounts t (List.mem_of_mem_filter hrow)
    exact ⟨t, hrow, rfl, centipointsToNumber_exact (Int.le_of_lt hpos) hle, hbank.row_exact ha hrow⟩
  · intro i p params r hp hcall hend
    obtain ⟨b, hmem, t, ht, htype, hid, hbet, htotal, hbalance⟩ := placement_rows hb h hp hcall hend
    obtain ⟨a, ha, hrow⟩ := hbank.account_of_row ht
    refine ⟨b, hmem, a, ha, t, hrow, htype, hid, hbet, htotal.trans (hbank.total_exact hmem), ?_⟩
    intro hsafe
    exact hbalance.trans ((hbank.row_exact ha hrow).2 hsafe)

def walletDb : Db :=
  registered ⟨[], [.ofNat 1], [], [], [⟨roundId, .tripleChanceTimer, 1, "TC1", .bettingOpen, 1, 0, 100,
    none⟩], [], [], []⟩ (.ofNat 1) (.ofNat 2)

theorem attained_walletDb : Attained walletDb := by
  refine .register (.empty rfl rfl rfl) fun a ha => ?_
  cases ha

theorem known_walletDb : ∀ x, walletDb.Known x → x ∈ [roundId] := by
  intro x hx
  cases hx with
  | round h => simp_all [walletDb, registered]
  | _ h => simp [walletDb, registered] at h

def grantRun (i id : ℕ) (key : String) (amountMinor : ℤ) : List (Label sql) :=
  [.spawn i (.adjust ⟨.ofNat 1, .ofNat 1, ⟨.credit, amountMinor, "top-up"⟩, some key, "::1"⟩), .run i,
    .run i, .run i, .mint i (.ofNat id), .run i, .run i, .mint i (.ofNat (id + 1)), .input i 7, .run i,
    .run i, .run i]

theorem exact_after_placement :
    ∃ s, (Policy.calls dtoBounded).steps body (initial walletDb [roundId])
        (grantRun 0 60 "g" 1000 ++ placementRun 1 20 21) = some s ∧
      s.world.db.accounts.map (·.balanceMinor) = [450] ∧ Exact s := by
  have hrun : ((Policy.calls dtoBounded).steps body (initial walletDb [roundId])
      (grantRun 0 60 "g" 1000 ++ placementRun 1 20 21)).map
        (fun s => s.world.db.accounts.map (·.balanceMinor)) = some [450] := by decide +kernel
  obtain ⟨s, hs, ha⟩ := Option.map_eq_some_iff.mp hrun
  exact ⟨s, hs, ha, (responses_exact attained_walletDb (.steps known_walletDb hs)).2.2.2⟩

theorem balance_rounded_after_credits :
    ∃ s, (Policy.calls dtoBounded).steps body (initial walletDb [roundId])
        (grantRun 0 60 "g" (2 ^ 53 - 1) ++ grantRun 1 70 "h" 2) = some s ∧ Attained s.world.db ∧
      s.world.db.accounts.map (·.balanceMinor) = [2 ^ 53 + 1] ∧
      PointsService.getBalance s.world.db (fun _ => 0) (.ofNat 1) = some ⟨2 ^ 53, 0⟩ := by
  have hrun : ((Policy.calls dtoBounded).steps body (initial walletDb [roundId])
      (grantRun 0 60 "g" (2 ^ 53 - 1) ++ grantRun 1 70 "h" 2)).map
        (fun s => (s.world.db.accounts.map (·.balanceMinor),
          PointsService.getBalance s.world.db (fun _ => 0) (.ofNat 1))) =
      some ([2 ^ 53 + 1], some ⟨2 ^ 53, 0⟩) := by decide +kernel
  obtain ⟨s, hs, ha⟩ := Option.map_eq_some_iff.mp hrun
  obtain ⟨hbalance, hresponse⟩ := Prod.mk.inj ha
  exact ⟨s, hs, attained_of_run attained_walletDb (.steps known_walletDb hs), hbalance, hresponse⟩

end JitoGame
