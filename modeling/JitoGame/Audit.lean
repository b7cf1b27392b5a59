import JitoGame.BetLedger

namespace JitoGame

open Transactions

def Write.ledgerRow : Write → Option PointsTransaction
  | .insertTransaction t => some t
  | _ => none

def adjustRowsOf (c : Commit sql) : List PointsTransaction :=
  match c.call with
  | .adjust _ => c.writes.filterMap Write.ledgerRow
  | _ => []

def adjustRows (log : List (Commit sql)) : List PointsTransaction := log.flatMap adjustRowsOf

structure LogAgrees (d : Db) (t : PointsTransaction) (l : AdminLog) : Prop where
  action : l.action = "points_adjust"
  target : ∃ a ∈ d.accounts, a.id = t.accountId ∧ a.userId = l.targetId
  direction : l.afterState.direction = t.direction
  amount : l.afterState.amountMinor = toString t.amountMinor
  reason : some l.afterState.reason = t.description
  credit : t.referenceType = .adminCredit ↔ t.direction = .credit
  debit : t.referenceType = .adminDebit ↔ t.direction = .debit

structure Audited (d : Db) (rows : List PointsTransaction) : Prop where
  posted : rows ⊆ d.transactions
  logged : ∀ t ∈ rows, ∃ l, d.adminLogs.filter (fun l => t.referenceId = some l.id) = [l] ∧
    LogAgrees d t l
  onto : ∀ l ∈ d.adminLogs, l.action = "points_adjust" →
    ∃ t, rows.filter (fun t => t.referenceId = some l.id) = [t]

theorem LogAgrees.grows {d d' : Db} {t : PointsTransaction} {l : AdminLog} (h : LogAgrees d t l)
    (hg : Grows d d') : LogAgrees d' t l :=
  { h with target := hg.owner h.target }

section Commit

variable {c : Commit sql} {d : Db} {rows : List PointsTransaction}

theorem Effect.audit (h : Effect c d) :
    (∃ params key l t, c.writes = .insertAdminLog l :: post t ∧ Adjusts params key l t d ∧
      adjustRowsOf c = [t]) ∨
    adjustRowsOf c = [] ∧ (applyAll c.writes d).adminLogs = d.adminLogs := by
  have hnone (hw : c.writes.filterMap Write.ledgerRow = []) : adjustRowsOf c = [] := by
    unfold adjustRowsOf
    split
    · exact hw
    · rfl
  cases h with
  | adjustment hc hw h => exact .inl ⟨_, _, _, _, hw, h, by rw [adjustRowsOf, hc, hw]; rfl⟩
  | mutation hc hw _ => exact .inr ⟨by rw [adjustRowsOf, hc], by rw [hw]; rfl⟩
  | placement hc hw _ => exact .inr ⟨by rw [adjustRowsOf, hc], by rw [hw]; rfl⟩
  | creation hw _ => exact .inr ⟨hnone (by rw [hw]; rfl), by rw [hw]; rfl⟩
  | opening hw _ _ => exact .inr ⟨hnone (by rw [hw]; rfl), by rw [hw]; rfl⟩
  | locking hw _ _ => exact .inr ⟨hnone (by rw [hw]; rfl), by rw [hw]; rfl⟩
  | idle hw => exact .inr ⟨hnone (by rw [hw]; rfl), by rw [hw]; rfl⟩

theorem Adjusts.agrees {params : AdjustPointsParams} {key : String} {l : AdminLog}
    {t : PointsTransaction} (h : Adjusts params key l t d) : LogAgrees d t l := by
  obtain ⟨hdir, hamount, htype, -, -, hreason⟩ := h.entry.fields
  obtain ⟨a, ha, hau, hai, -⟩ := h.entry.account
  have hlog := h.log
  have htype' : t.referenceType = AdminPointsService.referenceType t.direction := by
    rw [htype, hdir]
    rfl
  refine ⟨by rw [hlog]; rfl, ⟨a, ha, hai, ?_⟩, ?_, ?_, ?_, ?_, ?_⟩
  · rw [hau, hlog]
    rfl
  · rw [hdir, hlog]
    rfl
  · rw [hamount, hlog]
    rfl
  · rw [hreason, hlog]
    rfl
  · rw [htype']
    cases t.direction <;> decide
  · rw [htype']
    cases t.direction <;> decide

theorem Audited.adjust (h : Audited d rows) {params : AdjustPointsParams} {key : String} {l : AdminLog}
    {t : PointsTransaction} (hw : c.writes = .insertAdminLog l :: post t)
    (ha : Adjusts params key l t d) : Audited (applyAll c.writes d) (t :: rows) := by
  have hgrows := grows_commit c d
  have hlogs : (applyAll c.writes d).adminLogs = d.adminLogs ++ [l] := by rw [hw]; rfl
  have htxn : (applyAll c.writes d).transactions = d.transactions ++ [t] := by rw [hw]; rfl
  have href : t.referenceId = some l.id := ha.entry.fields.2.2.2.1
  have hnew (l' : AdminLog) (hl' : l' ∈ d.adminLogs) : l.id ≠ l'.id :=
    fun he => ha.fresh (he ▸ .adminLog hl')
  have hold (t' : PointsTransaction) (ht' : t' ∈ rows) : t'.referenceId ≠ some l.id := by
    obtain ⟨l', hf, -⟩ := h.logged t' ht'
    have hl' : l' ∈ d.adminLogs.filter fun l => t'.referenceId = some l.id := by rw [hf]; simp
    obtain ⟨hl', href'⟩ := List.mem_filter.mp hl'
    rw [of_decide_eq_true href']
    exact fun he => hnew l' hl' (Option.some.inj he).symm
  constructor
  · rw [htxn]
    intro x hx
    rcases List.mem_cons.mp hx with rfl | hx
    · exact List.mem_append_right _ (List.mem_singleton_self x)
    · exact List.mem_append_left _ (h.posted hx)
  · intro x hx
    rw [hlogs, List.filter_append]
    rcases List.mem_cons.mp hx with rfl | hx
    · have hnone : d.adminLogs.filter (fun l => x.referenceId = some l.id) = [] :=
        List.filter_eq_nil_iff.mpr fun l' hl' => by simpa [href] using hnew l' hl'
      exact ⟨l, by rw [hnone]; simp [href], ha.agrees.grows hgrows⟩
    · obtain ⟨l', hf, hagrees⟩ := h.logged x hx
      have hnone : [l].filter (fun l => x.referenceId = some l.id) = [] := by simpa using hold x hx
      exact ⟨l', by rw [hnone, List.append_nil, hf], hagrees.grows hgrows⟩
  · intro x hx haction
    rw [hlogs, List.mem_append, List.mem_singleton] at hx
    rcases hx with hx | rfl
    · obtain ⟨t', hf⟩ := h.onto x hx haction
      refine ⟨t', ?_⟩
      rw [List.filter_cons_of_neg (by simpa [href] using hnew x hx), hf]
    · have hnone : rows.filter (fun t => t.referenceId = some x.id) = [] :=
        List.filter_eq_nil_iff.mpr fun t' ht' => by simpa using hold t' ht'
      exact ⟨t, by rw [List.filter_cons_of_pos (by simpa using href), hnone]⟩

theorem Audited.commit (h : Audited d rows) (hc : Effect c d) :
    Audited (applyAll c.writes d) (adjustRowsOf c ++ rows) := by
  rcases hc.audit with ⟨params, key, l, t, hw, ha, hrows⟩ | ⟨hrows, hlogs⟩
  · rw [hrows]
    exact h.adjust hw ha
  · have hgrows := grows_commit c d
    rw [hrows]
    refine ⟨fun t ht => hgrows.transactions.subset (h.posted ht), fun t ht => ?_, ?_⟩
    · obtain ⟨l, hf, hagrees⟩ := h.logged t ht
      exact ⟨l, by rw [hlogs, hf], hagrees.grows hgrows⟩
    · rw [hlogs]
      exact h.onto

end Commit

theorem audited_replay {base : Db} {log : List (Commit sql)} {rows : List PointsTransaction}
    (h : Chronicle Effect base log) (h₀ : Audited base rows) :
    Audited (replay base log) (adjustRows log ++ rows) := by
  induction log with
  | nil => exact h₀
  | cons c log ih =>
    rw [adjustRows, List.flatMap_cons, List.append_assoc]
    exact (ih h.2).commit h.1

theorem audited_of_run {K : Policy sql} {base : Db} {s : State sql} (h : Run K base s)
    {rows : List PointsTransaction} (h₀ : Audited base rows) :
    Audited s.world.db (adjustRows s.world.log ++ rows) := by
  rw [h.obeys.db_eq]
  exact audited_replay h.effects h₀

def adminDb : Db := { openingDb with adminUsers := [.ofNat 50] }

def adjustParams : AdjustPointsParams :=
  ⟨.ofNat 50, .ofNat 1, ⟨.credit, 500, "welcome"⟩, some "a", "10.0.0.1"⟩

def adjustRun : List (Label sql) :=
  [.spawn 0 (.adjust adjustParams), .run 0, .run 0, .run 0, .mint 0 (.ofNat 60), .run 0, .run 0,
    .mint 0 (.ofNat 61), .input 0 7, .run 0, .run 0, .run 0]

theorem known_adminDb : ∀ x, adminDb.Known x → x ∈ ([] : List Uuid) := by
  rintro x (h | h | h | h | h) <;> simp [adminDb, openingDb] at h

theorem audited_after_adjust :
    ∃ s, (Policy.calls fun _ => True).steps body (initial adminDb []) adjustRun = some s ∧
      (adjustRows s.world.log).length = 1 ∧
      Audited s.world.db (adjustRows s.world.log ++ []) := by
  have hrun : ((Policy.calls fun _ => True).steps body (initial adminDb []) adjustRun).map
      (fun s => (adjustRows s.world.log).length) = some 1 := by decide
  obtain ⟨s, hs, hlen⟩ := Option.map_eq_some_iff.mp hrun
  exact ⟨s, hs, hlen, audited_of_run (.steps known_adminDb hs)
    ⟨by simp, by simp, by simp [adminDb, openingDb]⟩⟩

end JitoGame
