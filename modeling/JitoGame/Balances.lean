import Mathlib.Data.List.Nodup
import JitoGame.RunningBalance
import JitoGame.Verified

namespace JitoGame

open Transactions RunningBalance

def total (direction : TxnDirection) (rows : List PointsTransaction) : ℤ :=
  ((rows.filter fun t => t.direction = direction).map (·.amountMinor)).sum

def PointsTransaction.delta (t : PointsTransaction) : ℤ :=
  match t.direction with
  | .credit => t.amountMinor
  | .debit => -t.amountMinor

theorem sum_delta (rows : List PointsTransaction) :
    (rows.map (·.delta)).sum = total .credit rows - total .debit rows := by
  induction rows with
  | nil => rfl
  | cons t rows ih =>
    cases h : t.direction <;> simp [total, PointsTransaction.delta, h] at ih ⊢ <;> omega

structure Balanced (d : Db) (a : PointsAccount) : Prop where
  sum : a.balanceMinor = total .credit (d.rowsOf a.id) - total .debit (d.rowsOf a.id)
  nonneg : 0 ≤ a.balanceMinor
  version : a.version = (d.rowsOf a.id).length
  chain : Chained (·.balanceBeforeMinor) (·.balanceAfterMinor) 0 (d.rowsOf a.id) a.balanceMinor

structure Opening (d : Db) : Prop where
  accounts : ∀ a ∈ d.accounts, a.balanceMinor = 0 ∧ a.version = 0
  ids : (d.accounts.map (·.id)).Nodup
  transactions : d.transactions = []

structure Sound (d : Db) : Prop where
  ids : (d.accounts.map (·.id)).Nodup
  deltas : ∀ t ∈ d.transactions, t.balanceAfterMinor = t.balanceBeforeMinor + t.delta
  nonneg : ∀ a ∈ d.accounts, 0 ≤ a.balanceMinor
  version : ∀ a ∈ d.accounts, a.version = (d.rowsOf a.id).length
  chain : ∀ a ∈ d.accounts,
    Chained (·.balanceBeforeMinor) (·.balanceAfterMinor) 0 (d.rowsOf a.id) a.balanceMinor

theorem Opening.sound {d : Db} (h : Opening d) : Sound d where
  ids := h.ids
  deltas t ht := by rw [h.transactions] at ht; cases ht
  nonneg a ha := by rw [(h.accounts a ha).1]
  version a ha := by simp [Db.rowsOf, h.transactions, (h.accounts a ha).2]
  chain a ha := by simp [Db.rowsOf, h.transactions, (h.accounts a ha).1, Chained]

theorem Sound.balanced {d : Db} (h : Sound d) {a : PointsAccount} (ha : a ∈ d.accounts) :
    Balanced d a where
  sum := by
    have hsum := (h.chain a ha).sum PointsTransaction.delta fun t ht =>
      h.deltas t (List.mem_of_mem_filter ht)
    rw [hsum, sum_delta, zero_add]
  nonneg := h.nonneg a ha
  version := h.version a ha
  chain := h.chain a ha

def posted (t : PointsTransaction) (a : PointsAccount) : PointsAccount :=
  if a.id = t.accountId then a.set t.balanceAfterMinor else a

theorem posted_id (t : PointsTransaction) (a : PointsAccount) : (posted t a).id = a.id := by
  unfold posted; split <;> rfl

theorem Effect.ledger {c : Commit sql} {d : Db} (h : Effect c d) :
    (∃ params t, Posts params t d ∧
      (applyAll c.writes d).transactions = d.transactions ++ [t] ∧
      (applyAll c.writes d).accounts = d.accounts.map (posted t)) ∨
    (applyAll c.writes d).transactions = d.transactions ∧
      (applyAll c.writes d).accounts = d.accounts := by
  cases h with
  | mutation _ hw h => exact .inl ⟨_, _, h, by rw [hw]; rfl, by rw [hw]; rfl⟩
  | adjustment _ hw h => exact .inl ⟨_, _, h.entry, by rw [hw]; rfl, by rw [hw]; rfl⟩
  | placement _ hw h => exact .inl ⟨_, _, h.entry, by rw [hw]; rfl, by rw [hw]; rfl⟩
  | creation hw _ => exact .inr ⟨by rw [hw]; rfl, by rw [hw]; rfl⟩
  | opening hw _ _ => exact .inr ⟨by rw [hw]; rfl, by rw [hw]; rfl⟩
  | locking hw _ _ => exact .inr ⟨by rw [hw]; rfl, by rw [hw]; rfl⟩
  | idle hw => exact .inr ⟨by rw [hw]; rfl, by rw [hw]; rfl⟩

theorem eq_of_mem_post (us : List Write) {ws : List Write} {t t' : PointsTransaction}
    (h : .insertTransaction t ∈ ws) (hw : ws = us ++ post t') (hus : .insertTransaction t ∉ us) :
    t = t' := by
  rw [hw, List.mem_append] at h
  simpa [post] using h.resolve_left hus

theorem Effect.row_of_mem {c : Commit sql} {d : Db} (h : Effect c d) {t : PointsTransaction}
    (ht : .insertTransaction t ∈ c.writes) :
    ∃ params, Posts params t d ∧ (applyAll c.writes d).transactions = d.transactions ++ [t] := by
  cases h with
  | mutation _ hw h =>
    obtain rfl := eq_of_mem_post [] ht hw (by simp)
    exact ⟨_, h, by rw [hw]; rfl⟩
  | @adjustment _ _ l _ _ hw h =>
    obtain rfl := eq_of_mem_post [.insertAdminLog l] ht hw (by simp)
    exact ⟨_, h.entry, by rw [hw]; rfl⟩
  | @placement _ p b _ _ hw h =>
    obtain rfl := eq_of_mem_post [.insertBet b, .insertBetItems _] ht hw (by simp)
    exact ⟨_, h.entry, by rw [hw]; rfl⟩
  | creation hw _ => rw [hw] at ht; simp at ht
  | opening hw _ _ => rw [hw] at ht; simp at ht
  | locking hw _ _ => rw [hw] at ht; simp at ht
  | idle hw => rw [hw] at ht; cases ht

namespace Posts

variable {params : ApplyLedgerMutationParams} {t : PointsTransaction} {d : Db}

theorem account (h : Posts params t d) : ∃ a ∈ d.accounts, a.userId = params.userId ∧
    a.id = t.accountId ∧ t.balanceBeforeMinor = a.balanceMinor := by
  obtain ⟨a, locked, hacc, hval, hrow⟩ := h.row
  have hid := PointsLedgerService.validateAccount_id hval
  have hbefore : locked.balanceBeforeMinor = a.balanceMinor := by
    simp only [PointsLedgerService.validateAccount] at hval
    split at hval <;> cases hval
    rfl
  refine ⟨a, List.mem_of_find?_eq_some hacc, by simpa using List.find?_some hacc, ?_, ?_⟩
  · rw [hrow]; exact hid.symm
  · rw [hrow]; exact hbefore

theorem fields (h : Posts params t d) : t.direction = params.direction ∧
    t.amountMinor = params.amountMinor ∧ t.referenceType = params.referenceType ∧
    t.referenceId = params.referenceId ∧ t.idempotencyKey = params.idempotencyKey ∧
    t.description = params.description := by
  obtain ⟨a, locked, -, hval, hrow⟩ := h.row
  simp only [PointsLedgerService.validateAccount] at hval
  split at hval <;> cases hval
  rw [hrow]
  exact ⟨rfl, rfl, rfl, rfl, rfl, rfl⟩

theorem checks (h : Posts params t d) : t.balanceAfterMinor = t.balanceBeforeMinor + t.delta ∧
    0 ≤ t.balanceAfterMinor ∧ 0 < t.amountMinor := by
  have hfit := h.fits
  simp only [PointsTransaction.fits, decide_eq_true_eq] at hfit
  obtain ⟨-, -, -, -, -, hpos, hnonneg, hafter⟩ := hfit
  refine ⟨?_, hnonneg, hpos⟩
  rw [hafter]
  unfold PointsTransaction.delta
  cases t.direction
  · rfl
  · exact sub_eq_add_neg _ _

end Posts

theorem Sound.post {d d' : Db} (h : Sound d) {params : ApplyLedgerMutationParams}
    {t : PointsTransaction} (hp : Posts params t d) (ht : d'.transactions = d.transactions ++ [t])
    (ha : d'.accounts = d.accounts.map (posted t)) : Sound d' := by
  obtain ⟨a, hmem, -, hid, hbefore⟩ := hp.account
  obtain ⟨hdelta, hnonneg, -⟩ := hp.checks
  have hrows (x : PointsAccount) : d'.rowsOf x.id =
      d.rowsOf x.id ++ if x.id = t.accountId then [t] else [] := by
    simp only [Db.rowsOf, ht, List.filter_append]
    by_cases hx : x.id = t.accountId
    · simp [hx]
    · simp [hx, Ne.symm hx]
  -- ids are distinct, so the row that changes is the one that was read
  have hsame (x : PointsAccount) (hx : x ∈ d.accounts) (hxid : x.id = t.accountId) : x = a :=
    List.inj_on_of_nodup_map h.ids hx hmem (hxid.trans hid.symm)
  have hids : d'.accounts.map (·.id) = d.accounts.map (·.id) := by
    rw [ha, List.map_map]
    exact List.map_congr_left fun x _ => posted_id t x
  refine ⟨hids ▸ h.ids, fun x hx => ?_, fun y hy => ?_, fun y hy => ?_, fun y hy => ?_⟩
  · rw [ht, List.mem_append, List.mem_singleton] at hx
    rcases hx with hx | rfl
    · exact h.deltas x hx
    · exact hdelta
  all_goals
    rw [ha, List.mem_map] at hy
    obtain ⟨x, hx, rfl⟩ := hy
  · unfold posted
    split
    · exact hnonneg
    · exact h.nonneg x hx
  · rw [posted_id, hrows]
    unfold posted
    split
    · rename_i hxid
      have hv := h.version x hx
      simp only [PointsAccount.set, List.length_append, List.length_singleton, hv]
      rfl
    · simpa using h.version x hx
  · rw [posted_id, hrows]
    unfold posted
    split
    · rename_i hxid
      have hchain := h.chain x hx
      rw [hsame x hx hxid, ← hbefore] at hchain
      rw [hsame x hx hxid]
      exact hchain.snoc rfl
    · simpa using h.chain x hx

theorem Sound.commit {c : Commit sql} {d : Db} (h : Sound d) (hc : Effect c d) :
    Sound (applyAll c.writes d) := by
  rcases hc.ledger with ⟨params, t, hp, ht, ha⟩ | ⟨ht, ha⟩
  · exact h.post hp ht ha
  · have hrows (i : Uuid) : Db.rowsOf (applyAll c.writes d) i = d.rowsOf i := by
      simp only [Db.rowsOf, ht]
    exact ⟨ha ▸ h.ids, ht ▸ h.deltas, ha ▸ h.nonneg,
      fun a ha' => by rw [hrows]; exact h.version a (ha ▸ ha'),
      fun a ha' => by rw [hrows]; exact h.chain a (ha ▸ ha')⟩

theorem sound_of_run {K : Policy sql} {base : Db} {s : State sql} (h : Run K base s)
    (h₀ : Opening base) : Sound s.world.db := by
  rw [h.obeys.db_eq]
  exact h.effects.keeps h₀.sound fun _ _ hc hd => hd.commit hc

theorem balanced_of_run {K : Policy sql} {base : Db} {s : State sql} (h : Run K base s)
    (h₀ : Opening base) : ∀ a ∈ s.world.db.accounts, Balanced s.world.db a :=
  fun _ ha => (sound_of_run h h₀).balanced ha

def openingDb : Db := ⟨[.ofNat 1], [], [⟨.ofNat 2, .ofNat 1, 0, 0⟩], [], [], [], [], []⟩

def creditParams : ApplyLedgerMutationParams :=
  ⟨.ofNat 1, .credit, 500, .adminCredit, none, "k", none, false⟩

def creditRun : List (Label sql) :=
  [.spawn 0 (.applyMutation creditParams), .run 0, .run 0, .run 0, .mint 0 (.ofNat 3), .input 0 7,
    .run 0, .run 0, .run 0]

theorem balanced_after_credit :
    ∃ s, (Policy.calls fun _ => True).steps body (initial openingDb []) creditRun = some s ∧
      s.world.db.accounts = [⟨.ofNat 2, .ofNat 1, 500, 1⟩] ∧
      ∀ a ∈ s.world.db.accounts, Balanced s.world.db a := by
  have hrun : ((Policy.calls fun _ => True).steps body (initial openingDb []) creditRun).map
      (fun s => s.world.db.accounts) = some [⟨.ofNat 2, .ofNat 1, 500, 1⟩] := by decide
  obtain ⟨s, hs, ha⟩ := Option.map_eq_some_iff.mp hrun
  have hknown : ∀ x, openingDb.Known x → x ∈ ([] : List Uuid) := by
    rintro x (h | h | h | h | h) <;> simp [openingDb] at h
  exact ⟨s, hs, ha, balanced_of_run (.steps hknown hs)
    ⟨by simp [openingDb], by simp [openingDb], rfl⟩⟩

end JitoGame
