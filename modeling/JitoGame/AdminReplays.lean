import JitoGame.Answers
import JitoGame.Audit
import JitoGame.MutationTwins
import JitoGame.Transactions.Alone
import JitoGame.Transactions.Later

namespace JitoGame

open Transactions

def noAdminReference : Call → Prop
  | .applyMutation params => params.referenceType ≠ .adminCredit ∧ params.referenceType ≠ .adminDebit
  | _ => True

def SameAdjustment (c : Commit sql) (params : AdjustPointsParams) : Prop :=
  ∃ params₀, c.call = .adjust params₀ ∧ params₀.adminId = params.adminId ∧
    params₀.targetUserId = params.targetUserId ∧ params₀.dto = params.dto

namespace AdminPointsService

theorem dto_eq {dto dto' : AdjustPointsDto} (hd : dto.direction = dto'.direction)
    (ha : dto.amountMinor = dto'.amountMinor) (hr : dto.reason = dto'.reason) : dto = dto' := by
  cases dto
  cases dto'
  simp_all

theorem not_matchesIn {d : Db} {t : PointsTransaction} {params : AdjustPointsParams}
    (ht : t.referenceType ≠ .adminCredit ∧ t.referenceType ≠ .adminDebit) :
    matchesIn d t params = false := by
  have hne (direction : TxnDirection) : t.referenceType ≠ referenceType direction := by
    cases direction
    · exact ht.1
    · exact ht.2
  simp [matchesIn, matchesReplay, hne]

section Matches

variable {base : Db} {older log : List (Commit sql)} {c : Commit sql} {t : PointsTransaction}
variable {params : AdjustPointsParams}

theorem adminLogOf_of_adjusts {params₀ : AdjustPointsParams} {key : String} {l : AdminLog}
    (hw : c.writes = .insertAdminLog l :: post t) (h : Adjusts params₀ key l t (replay base older))
    (hs : (c :: older) <:+ log) : adminLogOf (replay base log) t = some l := by
  have href : t.referenceId = some l.id := h.entry.fields.2.2.2.1
  have hnone : (Db.adminLogs (replay base older)).find? (fun x => x.id = l.id) = none := by
    rw [List.find?_eq_none]
    intro x hx hid
    exact h.fresh (of_decide_eq_true hid ▸ .adminLog hx)
  have hnew : (Db.adminLogs (replay base (c :: older))).find? (fun x => x.id = l.id) = some l := by
    rw [replay, hw]
    change (Db.adminLogs (replay base older) ++ [l]).find? _ = _
    rw [List.find?_append, hnone]
    simp
  rw [adminLogOf, href, Option.bind_some]
  exact find_prefix (grows_replay hs).adminLogs hnew

theorem matchesIn_adjusts {params₀ : AdjustPointsParams} {key : String} {l : AdminLog}
    (hw : c.writes = .insertAdminLog l :: post t) (h : Adjusts params₀ key l t (replay base older))
    (hs : (c :: older) <:+ log) (hids : DistinctAccounts base) :
    matchesIn (replay base log) t params = true ↔ params₀.adminId = params.adminId ∧
      params₀.targetUserId = params.targetUserId ∧ params₀.dto = params.dto := by
  obtain ⟨hdir, hamount, htype, -, -, hreason⟩ := h.entry.fields
  obtain ⟨a, ha, hau, hai, -⟩ := h.entry.account
  have hadmin : l.adminId = params₀.adminId := by rw [h.log]; rfl
  have hgrows : Grows (replay base older) (replay base log) :=
    grows_replay ((List.suffix_cons _ _).trans hs)
  have hdistinct : DistinctAccounts (replay base log) :=
    (grows_replay List.nil_suffix).distinctAccounts hids
  have howner : (Db.accountOf (replay base log) params₀.targetUserId).map (·.id) = some t.accountId := by
    obtain ⟨a₀, locked, ha₀, hval, hrow⟩ := h.entry.row
    have ha₀' : Db.accountOf (replay base older) params₀.targetUserId = some a₀ := ha₀
    rw [accountOf_id hgrows, ha₀', hrow]
    exact congrArg some (PointsLedgerService.validateAccount_id hval).symm
  rw [matchesIn, adminLogOf_of_adjusts hw h hs]
  simp only [matchesReplay, decide_eq_true_eq, hdir, hamount, htype, hreason, Option.map_some, hadmin]
  constructor
  · rintro ⟨hacc, hdir', hamount', -, hreason', hadmin'⟩
    refine ⟨Option.some.inj hadmin', ?_, ?_⟩
    · obtain ⟨x, hx, hxid⟩ := Option.map_eq_some_iff.mp howner
      obtain ⟨y, hy, hyid⟩ := Option.map_eq_some_iff.mp hacc.symm
      have hxy : x = y := List.inj_on_of_nodup_map hdistinct (List.mem_of_find?_eq_some hx)
        (List.mem_of_find?_eq_some hy) (hxid.trans hyid.symm)
      have hxu : x.userId = params₀.targetUserId := by simpa using List.find?_some hx
      have hyu : y.userId = params.targetUserId := by simpa using List.find?_some hy
      rw [← hxu, hxy, hyu]
    · exact dto_eq hdir' hamount' hreason'
  · rintro ⟨hadmin', htarget, hdto⟩
    rw [← htarget, howner, ← hdto]
    simp [mutation, hadmin']

theorem matchesIn_iff (params : AdjustPointsParams)
    (hmeets : Meets noAdminReference c (replay base older)) (ht : .insertTransaction t ∈ c.writes)
    (hs : (c :: older) <:+ log) (hids : DistinctAccounts base) :
    matchesIn (replay base log) t params = true ↔ SameAdjustment c params := by
  have hother (htype : t.referenceType ≠ .adminCredit ∧ t.referenceType ≠ .adminDebit)
      (hcall : ∀ params₀, c.call ≠ .adjust params₀) :
      matchesIn (replay base log) t params = true ↔ SameAdjustment c params := by
    rw [not_matchesIn htype]
    constructor
    · intro h
      cases h
    · rintro ⟨params₀, hc, -⟩
      exact absurd hc (hcall params₀)
  cases hmeets.effect with
  | @adjustment params₀ key l t' hc hw hadj =>
    obtain rfl := eq_of_mem_post [.insertAdminLog l] ht hw (by simp)
    rw [matchesIn_adjusts hw hadj hs hids]
    constructor
    · exact fun h => ⟨params₀, hc, h⟩
    · rintro ⟨params₁, hc', h⟩
      cases hc.symm.trans hc'
      exact h
  | @mutation params₀ t' hc hw hp =>
    obtain rfl := eq_of_mem_post [] ht hw (by simp)
    have hspawn := hmeets.1
    rw [hc] at hspawn
    refine hother ?_ fun _ hc' => by cases hc.symm.trans hc'
    rw [hp.fields.2.2.1]
    exact hspawn
  | @placement params₀ p b t' hc hw hp =>
    obtain rfl := eq_of_mem_post [.insertBet b, .insertBetItems _] ht hw (by simp)
    refine hother ?_ fun _ hc' => by cases hc.symm.trans hc'
    rw [hp.entry.fields.2.2.1]
    constructor
    · intro h
      cases h
    · intro h
      cases h
  | creation hw _ => rw [hw] at ht; simp at ht
  | opening hw _ _ => rw [hw] at ht; simp at ht
  | locking hw _ _ => rw [hw] at ht; simp at ht
  | idle hw => rw [hw] at ht; cases ht

end Matches

theorem peek_findAdminLog (t : PointsTransaction) (v : View Db) :
    (findAdminLog t.referenceId : Prog sql _).peek v = some (.ok (adminLogOf v.db t)) := by
  cases hr : t.referenceId with
  | none =>
    rw [adminLogOf, hr]
    rfl
  | some logId =>
    rw [adminLogOf, hr, findAdminLog, Prog.peek_bind, Prog.peek_select]
    rfl

theorem peek_adjust {params : AdjustPointsParams} {key : String}
    (hk : requireKey params.idempotencyKey = .ok key) {v : View Db}
    (hu : params.targetUserId ∈ v.db.users) {t : PointsTransaction}
    (ht : v.db.transactionOf key = some t) :
    (body (.adjust params)).peek v = some
      (if matchesIn v.db t params then .ok (.adjustment (replayResult t))
      else .error .adjustmentIdempotencyKeyReused) := by
  have hfind : (findReplay key params : Prog sql _).peek v = some
      (if matchesIn v.db t params then .ok (some (replayResult t))
      else .error .adjustmentIdempotencyKeyReused) := by
    rw [findReplay, Prog.peek_bind, Prog.peek_select]
    simp only [Option.bind_some, ht]
    rw [Prog.peek_bind, Prog.peek_select, Option.bind_some]
    dsimp only
    rw [Prog.peek_bind, peek_findAdminLog, Option.bind_some]
    dsimp only
    rw [Prog.peek_bind, Prog.peek_require, matchesIn]
    split <;> rfl
  have hadjust : (adjust params : Prog sql _).peek v = some
      (if matchesIn v.db t params then .ok (replayResult t)
      else .error .adjustmentIdempotencyKeyReused) := by
    rw [adjust, Prog.peek_bind, Prog.peek_check, hk, Option.bind_some]
    dsimp only
    rw [Prog.peek_bind, Prog.peek_select, Option.bind_some]
    dsimp only
    rw [Prog.peek_bind, Prog.peek_require, if_pos hu, Option.bind_some]
    dsimp only
    rw [idempotent, Prog.peek_bind, hfind]
    split <;> rfl
  rw [body, Prog.peek_bind, hadjust]
  split <;> rfl

end AdminPointsService

structure Verdict (c : Commit sql) (t : PointsTransaction) (params : AdjustPointsParams)
    (r : Except Err Res) : Prop where
  replayed : (∃ res, r = .ok (.adjustment res) ∧ res.replayed = true) ↔ SameAdjustment c params
  row : ∀ res, r = .ok (.adjustment res) → res.transactionId = t.id ∧
    res.balanceBeforeMinor = toString t.balanceBeforeMinor ∧
    res.balanceAfterMinor = toString t.balanceAfterMinor ∧
    ∃ l, Write.insertAdminLog l ∈ c.writes ∧ res.auditLogId = l.id.text
  refused : ¬ SameAdjustment c params → r = .error .adjustmentIdempotencyKeyReused

section Verdict

variable {base : Db} {c : Commit sql} {older log : List (Commit sql)} {t : PointsTransaction}
variable {params : AdjustPointsParams}

theorem verdict_of_matches (params : AdjustPointsParams)
    (hmeets : Meets noAdminReference c (replay base older)) (ht : .insertTransaction t ∈ c.writes)
    (hs : (c :: older) <:+ log) (hids : DistinctAccounts base) :
    Verdict c t params (if AdminPointsService.matchesIn (replay base log) t params then
      .ok (.adjustment (AdminPointsService.replayResult t))
      else .error .adjustmentIdempotencyKeyReused) := by
  have hiff := AdminPointsService.matchesIn_iff params hmeets ht hs hids
  by_cases hm : AdminPointsService.matchesIn (replay base log) t params = true
  · rw [if_pos hm]
    have hsame := hiff.mp hm
    refine ⟨⟨fun _ => hsame, fun _ => ⟨_, rfl, rfl⟩⟩, fun res hres => ?_, absurd hsame⟩
    cases hres
    obtain ⟨params₀, hcall, -⟩ := hsame
    have hadj := hmeets.2
    rw [hcall] at hadj
    obtain ⟨key, l, t', hw, hadj⟩ := hadj
    obtain rfl := eq_of_mem_post [.insertAdminLog l] ht hw (by simp)
    have href : t.referenceId = some l.id := hadj.entry.fields.2.2.2.1
    refine ⟨rfl, rfl, rfl, l, hw ▸ List.mem_cons_self, ?_⟩
    simp [AdminPointsService.replayResult, href]
  · rw [if_neg hm]
    refine ⟨⟨?_, fun hsame => absurd (hiff.mpr hsame) hm⟩, fun _ hres => (by cases hres), fun _ => rfl⟩
    rintro ⟨res, hres, -⟩
    cases hres

theorem transactionOf_inserted (hlog : Chronicle Effect base log) (hs : (c :: older) <:+ log)
    (ht : .insertTransaction t ∈ c.writes) :
    Db.transactionOf (replay base log) t.idempotencyKey = some t := by
  obtain ⟨params', hp, htxn⟩ := (hlog.suffix hs).1.row_of_mem ht
  refine (grows_replay hs).transactionOf ?_
  have hunused : (Db.transactions (replay base older)).find?
    (fun x => x.idempotencyKey = t.idempotencyKey) = none := hp.unused
  rw [replay, Db.transactionOf, htxn, List.find?_append, hunused]
  simp

theorem suffix_of_transactionOf (hlog : Chronicle Effect base log) (hs : (c :: older) <:+ log)
    (ht : .insertTransaction t ∈ c.writes) {log' : List (Commit sql)} (hs' : log' <:+ log)
    {t' : PointsTransaction}
    (ht' : Db.transactionOf (replay base log') t.idempotencyKey = some t') :
    (c :: older) <:+ log' := by
  rcases List.suffix_or_suffix_of_suffix hs hs' with hle | hle
  · exact hle
  rcases List.suffix_cons_iff.mp hle with heq | hle
  · exact heq ▸ List.suffix_refl _
  · obtain ⟨params', hp, -⟩ := (hlog.suffix hs).1.row_of_mem ht
    have hused := (grows_replay hle).transactionOf ht'
    rw [hp.unused] at hused
    cases hused

end Verdict

/-- Under a key that a row has, an adjustment is answered with that row exactly when an adjustment by
the same admin, for the same user and of the same content, created it. -/
theorem adjust_verdict {base : Db} {s₀ s : State sql} (h : Run (Policy.calls noAdminReference) base s₀)
    (hids : DistinctAccounts base) {c : Commit sql} (hc : c ∈ s₀.world.log) {t : PointsTransaction}
    (ht : .insertTransaction t ∈ c.writes) {params : AdjustPointsParams}
    (hk : AdminPointsService.requireKey params.idempotencyKey = .ok t.idempotencyKey)
    (hu : params.targetUserId ∈ s₀.world.db.users)
    (hs : Reachable body (Policy.calls noAdminReference).ok s₀ s) {j : ℕ} (hj : s₀.procs j = none) :
    (∀ q r, s.procs j = some q → q.call = .adjust params → q.loc.faulted = false → q.prog.Ends r →
      own j s.world.log = [] ∧ Verdict c t params r) ∧
    (s.procs j = none → ∃ s' q r, Reachable body (Policy.calls noAdminReference).ok s s' ∧
      s'.world = s.world ∧ s'.procs j = some q ∧ q.call = .adjust params ∧ q.prog.Ends r ∧
      Verdict c t params r) := by
  have h' : Run (Policy.calls noAdminReference) base s := h.later hs
  obtain ⟨older, hold, hmeets⟩ := h.chronicle.found hc
  have hsuf : (c :: older) <:+ s.world.log := hold.trans hs.log_suffix
  have husers (log : List (Commit sql)) : Db.users (replay base log) = s₀.world.db.users := by
    rw [h.obeys.db_eq, (grows_replay List.nil_suffix).users,
      (grows_replay (List.nil_suffix (l := s₀.world.log))).users]
  constructor
  · intro q r hq hcall hf hr
    obtain ⟨w, hrely, hanswer⟩ := h'.answers hq hr
    have hverdict {key : String} {t' : PointsTransaction}
        (hkey : AdminPointsService.requireKey params.idempotencyKey = .ok key)
        (ht' : w.db.transactionOf key = some t') (hdb : w.db = replay base w.log) : t = t' ∧
        Verdict c t params (if AdminPointsService.matchesIn w.db t params then
          .ok (.adjustment (AdminPointsService.replayResult t))
          else .error .adjustmentIdempotencyKeyReused) := by
      obtain rfl := Except.ok.inj (hk.symm.trans hkey)
      have hsuf' := suffix_of_transactionOf h'.effects hsuf ht hrely.log (hdb ▸ ht')
      have hrow := transactionOf_inserted (h'.effects.suffix hrely.log) hsuf' ht
      have hverdict := verdict_of_matches params hmeets ht hsuf' hids
      rw [← hdb] at hrow hverdict
      exact ⟨Option.some.inj (hrow.symm.trans ht'), hverdict⟩
    rw [hcall] at hanswer
    obtain ⟨r', rfl, hanswer⟩ := hanswer
    cases hanswer with
    | refused _ he => cases hk.symm.trans he
    | faulted _ hf' => cases hf.symm.trans hf'
    | absent _ habsent =>
      have husers' := hrely.le.users
      rw [h'.obeys.db_eq, husers] at husers'
      exact absurd (husers' ▸ hu) habsent
    | reused hown hkey ht' hdb hm =>
      obtain ⟨rfl, hverdict⟩ := hverdict hkey ht' hdb
      rw [hm] at hverdict
      exact ⟨hrely.own.trans hown, hverdict⟩
    | replayed hown hkey ht' hdb hm =>
      obtain ⟨rfl, hverdict⟩ := hverdict hkey ht' hdb
      rw [hm] at hverdict
      exact ⟨hrely.own.trans hown, hverdict⟩
    | tried hkey hm ht' =>
      obtain rfl := Except.ok.inj (hk.symm.trans hkey)
      obtain ⟨log, hseen, hnew, hdb⟩ := h.seen_later hs hj hq hm
      rw [hdb, transactionOf_inserted (h'.effects.suffix hnew) (hold.trans hseen) ht] at ht'
      cases ht'
  · intro hnone
    have hspawn : (Policy.calls noAdminReference).ok s (.spawn j (.adjust params)) := trivial
    have hrow : s.world.db.transactionOf t.idempotencyKey = some t := by
      rw [h'.obeys.db_eq]
      exact transactionOf_inserted h'.effects hsuf ht
    have husers' : params.targetUserId ∈ s.world.db.users := by
      rw [h'.obeys.db_eq, husers]
      exact hu
    obtain ⟨s', q, hreach, hworld, hq, hqcall, hr, -⟩ := peek_ends hnone hspawn
      (fun s => Policy.calls_run _ s j) (AdminPointsService.peek_adjust hk husers' hrow)
    refine ⟨s', q, _, hreach, hworld, hq, hqcall, hr, ?_⟩
    dsimp only
    rw [h'.obeys.db_eq]
    exact verdict_of_matches params hmeets ht hsuf hids

def adjustedRow : PointsTransaction :=
  ⟨.ofNat 61, .ofNat 2, .credit, 500, 0, 500, .adminCredit, some (.ofNat 60), "a", some "welcome", 7⟩

def otherReasonParams : AdjustPointsParams :=
  { adjustParams with dto := { adjustParams.dto with reason := "refund" } }

instance : DecidablePred noAdminReference
  | .applyMutation params => inferInstanceAs
    (Decidable (params.referenceType ≠ .adminCredit ∧ params.referenceType ≠ .adminDebit))
  | .adjust _ | .placeBet _ | .reconcile _ _ | .openRound _ | .lockIfDeadlinePassed _ => isTrue trivial

theorem adjust_verdict_after_adjust :
    ∃ s₀ c, (Policy.calls noAdminReference).steps body (initial adminDb []) adjustRun = some s₀ ∧
      c ∈ s₀.world.log ∧ c.call = .adjust adjustParams ∧ s₀.procs 1 = none ∧
      (∀ q r, s₀.procs 1 = some q → q.call = .adjust otherReasonParams → q.loc.faulted = false →
        q.prog.Ends r → own 1 s₀.world.log = [] ∧ Verdict c adjustedRow otherReasonParams r) ∧
      (s₀.procs 1 = none → ∃ s' q r, Reachable body (Policy.calls noAdminReference).ok s₀ s' ∧
        s'.world = s₀.world ∧ s'.procs 1 = some q ∧ q.call = .adjust otherReasonParams ∧
        q.prog.Ends r ∧ Verdict c adjustedRow otherReasonParams r) := by
  have hrun : ((Policy.calls noAdminReference).steps body (initial adminDb []) adjustRun).map
      (fun s => (s.world.log.any fun c => c.call = .adjust adjustParams ∧
        .insertTransaction adjustedRow ∈ c.writes, (s.procs 1).isNone,
        decide (.ofNat 1 ∈ s.world.db.users))) = some (true, true, true) := by decide
  obtain ⟨s₀, hs, hres⟩ := Option.map_eq_some_iff.mp hrun
  obtain ⟨hcommit, hres⟩ := Prod.mk.inj hres
  obtain ⟨hnone, huser⟩ := Prod.mk.inj hres
  obtain ⟨c, hc, hfacts⟩ := List.any_eq_true.mp hcommit
  obtain ⟨hcall, hrow⟩ := of_decide_eq_true hfacts
  have hj : s₀.procs 1 = none := Option.isNone_iff_eq_none.mp hnone
  exact ⟨s₀, c, hs, hc, hcall, hj, adjust_verdict (.steps known_adminDb hs)
    (by simp [DistinctAccounts, adminDb, openingDb]) hc hrow rfl (of_decide_eq_true huser) .refl hj⟩

end JitoGame
