import JitoGame.BetLedger

namespace JitoGame

open Transactions

/-! The unique index on the ledger keys. -/

def OneRowPerKey (d : Db) : Prop :=
  ∀ key, (d.transactions.filter fun t => t.idempotencyKey = key).length ≤ 1

section OneRow

variable {d : Db} {t t' : PointsTransaction}

theorem OneRowPerKey.eq (h : OneRowPerKey d) (ht : t ∈ d.transactions) (ht' : t' ∈ d.transactions)
    (hk : t.idempotencyKey = t'.idempotencyKey) : t = t' := by
  have hmem : t ∈ d.transactions.filter fun x => x.idempotencyKey = t'.idempotencyKey :=
    List.mem_filter.mpr ⟨ht, by simpa using hk⟩
  have hmem' : t' ∈ d.transactions.filter fun x => x.idempotencyKey = t'.idempotencyKey :=
    List.mem_filter.mpr ⟨ht', by simp⟩
  have hle := h t'.idempotencyKey
  match hf : d.transactions.filter fun x => x.idempotencyKey = t'.idempotencyKey with
  | [] => rw [hf] at hmem; cases hmem
  | [x] =>
    rw [hf] at hmem hmem'
    exact (List.mem_singleton.mp hmem).trans (List.mem_singleton.mp hmem').symm
  | x :: y :: rest =>
    rw [hf] at hle
    simp at hle

theorem OneRowPerKey.transactionOf (h : OneRowPerKey d) (ht : t ∈ d.transactions) :
    d.transactionOf t.idempotencyKey = some t := by
  cases hf : d.transactionOf t.idempotencyKey with
  | none =>
    have hnone := List.find?_eq_none.mp hf t ht
    simp at hnone
  | some x =>
    have hkey : x.idempotencyKey = t.idempotencyKey := by simpa using List.find?_some hf
    rw [h.eq (List.mem_of_find?_eq_some hf) ht hkey]

theorem OneRowPerKey.commit {c : Commit sql} (h : OneRowPerKey d) (hc : Effect c d) :
    OneRowPerKey (applyAll c.writes d) := by
  intro key
  rcases hc.ledger with ⟨params, t, hp, ht, -⟩ | ⟨ht, -⟩
  · rw [ht, List.filter_append]
    by_cases hkey : t.idempotencyKey = key
    · have hnone : d.transactions.filter (fun t => t.idempotencyKey = key) = [] :=
        List.filter_eq_nil_iff.mpr (hkey ▸ List.find?_eq_none.mp hp.unused)
      rw [hnone]
      exact List.length_filter_le _ _
    · have hone : [t].filter (fun t => t.idempotencyKey = key) = [] := by simpa using hkey
      rw [hone, List.append_nil]
      exact h key
  · rw [ht]
    exact h key

end OneRow

def DistinctAccounts (d : Db) : Prop := (d.accounts.map (·.id)).Nodup

theorem Grows.distinctAccounts {d d' : Db} (h : Grows d d') (hn : DistinctAccounts d) :
    DistinctAccounts d' := by
  have hids : d'.accounts.map (·.id) = d.accounts.map (·.id) := by
    have hmap := congrArg (List.map Prod.fst) h.accounts
    simpa only [List.map_map, Function.comp_def] using hmap
  rw [DistinctAccounts, hids]
  exact hn

theorem DistinctAccounts.withUser {d : Db} (h : DistinctAccounts d) {t : PointsTransaction} {u : Uuid}
    (ho : ∃ a ∈ d.accounts, a.id = t.accountId ∧ a.userId = u) :
    PointsLedgerService.withUser d t = some (t, u) := by
  obtain ⟨a, ha, hid, rfl⟩ := ho
  cases hf : d.accounts.find? fun x => x.id = t.accountId with
  | none =>
    have hnone := List.find?_eq_none.mp hf a ha
    simp [hid] at hnone
  | some x =>
    have hx : x.id = t.accountId := by simpa using List.find?_some hf
    obtain rfl : x = a := List.inj_on_of_nodup_map h (List.mem_of_find?_eq_some hf) ha (hx.trans hid.symm)
    simp only [PointsLedgerService.withUser, hf, Option.map_some]

/-! Calls of `applyMutation` with the same parameters. -/

def AnswersMutations (params : ApplyLedgerMutationParams) (s s' : State sql) : Prop :=
  ∀ i p r, s'.procs i = some p → p.call = .applyMutation params → p.prog.Ends r →
    (∀ q, s.procs i = some q → ∀ r, ¬ q.prog.Ends r) →
    ∀ c ∈ s'.world.log, c.call = .applyMutation params → ∀ t, Write.insertTransaction t ∈ c.writes →
      ∃ res, r = .ok (.mutation res) ∧ res.transactionId = t.id ∧
        res.balanceBeforeMinor = t.balanceBeforeMinor ∧ res.balanceAfterMinor = t.balanceAfterMinor

def PointsLedgerService.passes (params : ApplyLedgerMutationParams) (d : Db) : Bool :=
  match validateAccount params.userId params.direction params.amountMinor params.allowOverdraw
      (d.accountOf params.userId) with
  | .error _ => false
  | .ok locked => (transactionRow locked ⟨params.referenceType, params.referenceId,
      params.idempotencyKey, params.description⟩ (.ofNat 0) 0).fits

/-- Once the row of `params` is committed, an account that is locked for `params` still passes the
balance check, and the row would still satisfy the constraints of its table. -/
def mutationSafe (params : ApplyLedgerMutationParams) : Policy sql where
  spawn _ := True
  stmt call m := call = .applyMutation params → m.tag = .lockAccount →
    (m.db.transactionOf params.idempotencyKey).isSome = true →
      PointsLedgerService.passes params m.db = true
  commit _ _ _ := True
  fault call := call ≠ .applyMutation params

section Twins

variable {params : ApplyLedgerMutationParams} {t : PointsTransaction} {d d₀ : Db} {s : Local sql}

structure Posted (params : ApplyLedgerMutationParams) (t : PointsTransaction) (d : Db) : Prop where
  row : d.transactionOf params.idempotencyKey = some t
  owner : ∃ a ∈ d.accounts, a.id = t.accountId ∧ a.userId = params.userId

theorem transactionOf_of_rows {m : Mark sql} (ht : d.transactionOf params.idempotencyKey = some t)
    (hb : d.rowsOf t.accountId = m.db.rowsOf t.accountId) :
    (m.db.transactionOf params.idempotencyKey).isSome = true := by
  have hmem : t ∈ d.rowsOf t.accountId :=
    List.mem_filter.mpr ⟨List.mem_of_find?_eq_some ht, by simp⟩
  rw [hb] at hmem
  rw [Db.transactionOf, List.find?_isSome]
  exact ⟨t, List.mem_of_mem_filter hmem, by simpa using List.find?_some ht⟩

theorem MutationFailure.impossible {e : Err} (h : MutationFailure params s d e)
    (hp : Posts params t d₀) (hrow : Posted params t d) (hd : DistinctAccounts d)
    (hfault : s.faulted = false)
    (hsafe : ∀ m ∈ s.trace, (mutationSafe params).stmt (.applyMutation params) m)
    (haccount : ∀ m ∈ s.trace, ∃ a, m.db.accountOf params.userId = some a ∧ a.id = t.accountId) :
    False := by
  have hfind : (d.transactionOf params.idempotencyKey).bind (PointsLedgerService.withUser d) =
      some (t, params.userId) := by
    rw [hrow.row, Option.bind_some, hd.withUser hrow.owner]
  cases h with
  | fault h => rw [hfault] at h; cases h
  | amount h =>
    have hpos := hp.checks.2.2
    rw [hp.fields.2.1] at hpos
    exact absurd h (not_le.mpr hpos)
  | reused ht he =>
    rw [hfind] at ht
    cases ht
    obtain ⟨hdir, hamount, htype, href, -⟩ := hp.fields
    simp [PointsLedgerService.assertReplayMatches, hdir, hamount, htype, href] at he
    cases he
  | absent h => rw [hfind] at h; cases h
  | @account m _ hm ht hb he =>
    obtain ⟨a, ha, hid⟩ := haccount m hm
    have hpass := hsafe m hm rfl ht (transactionOf_of_rows hrow.row (hid ▸ hb a ha))
    simp [PointsLedgerService.passes, he] at hpass
  | @row m a locked _ hm ht ha hb hl hf =>
    obtain ⟨a', ha', hid⟩ := haccount m hm
    obtain rfl := Option.some.inj (ha.symm.trans ha')
    have hpass := hsafe m hm rfl ht (transactionOf_of_rows hrow.row (hid ▸ hb))
    simp [PointsLedgerService.passes, ha, hl, hf] at hpass

end Twins

section Run

variable {params : ApplyLedgerMutationParams} {K : Policy sql} {base : Db} {s s' : State sql}

theorem oneRowPerKey_of_run (h : Run K base s) (h₀ : OneRowPerKey base) : OneRowPerKey s.world.db := by
  rw [h.obeys.db_eq]
  exact h.effects.keeps h₀ fun _ _ hc hd => hd.commit hc

theorem Run.posted (h : Run K base s) {c : Commit sql} (hc : c ∈ s.world.log)
    (hcall : c.call = .applyMutation params) {t : PointsTransaction}
    (ht : .insertTransaction t ∈ c.writes) :
    ∃ older, (c :: older) <:+ s.world.log ∧ Posts params t (replay base older) ∧
      t ∈ (Db.transactions s.world.db) := by
  obtain ⟨older, hs, -, hmeets⟩ := h.chronicle.found hc
  rw [hcall] at hmeets
  obtain ⟨t', hw, hp⟩ := hmeets
  obtain rfl := eq_of_mem_post [] ht hw (by simp)
  refine ⟨older, hs, hp, ?_⟩
  rw [h.obeys.db_eq]
  apply (grows_replay hs).transactions.subset
  rw [replay, hw]
  exact List.mem_append_right _ (List.mem_singleton_self t)

/-- A ledger key holds one row at most, and the calls that share it all answer with that row in the
runs in which the account still passes the checks in front of the key, and their statements do not
fail. -/
theorem mutations_agree {l : Label sql} (h : Run (mutationSafe params) base s)
    (h₀ : OneRowPerKey base) (hids : DistinctAccounts base) (hl : (mutationSafe params).ok s l)
    (hs : step body s l = some s') : OneRowPerKey s'.world.db ∧ AnswersMutations params s s' := by
  have h' : Run _ base s' := h.step hl hs
  have hone := oneRowPerKey_of_run h' h₀
  refine ⟨hone, fun i p r hp hcall hr hrun c hc hcc t ht => ?_⟩
  obtain ⟨older, hsuf, hposts, hmem⟩ := h'.posted hc hcc ht
  obtain ⟨a, ha, hau, hai, -⟩ := hposts.account
  have hkey : t.idempotencyKey = params.idempotencyKey := hposts.fields.2.2.2.2.1
  have hgrows : Grows (replay base older) s'.world.db := by
    rw [h'.obeys.db_eq]
    exact grows_replay ((List.suffix_cons _ _).trans hsuf)
  have hposted : Posted params t s'.world.db :=
    ⟨hkey ▸ hone.transactionOf hmem, hgrows.owner ⟨a, ha, hai, hau⟩⟩
  have hdistinct : DistinctAccounts s'.world.db := by
    rw [h'.obeys.db_eq]
    exact (grows_replay (List.nil_suffix)).distinctAccounts hids
  have hobeys := h'.obeys.procs i p hp
  have haccount (m : Mark sql) (hm : m ∈ p.loc.trace) :
      ∃ a, m.db.accountOf params.userId = some a ∧ a.id = t.accountId := by
    obtain ⟨a₁, locked, ha₁, hval, hrow⟩ := hposts.row
    obtain ⟨log, -, -, hdb⟩ := (hobeys.marks m hm).seen
    have hsame : (m.db.accountOf params.userId).map (·.id) =
        (Db.accountOf (replay base older) params.userId).map (·.id) := by
      rw [hdb, AdminPointsService.accountOf_id (grows_replay List.nil_suffix),
        AdminPointsService.accountOf_id (grows_replay (List.nil_suffix (l := older)))]
    rw [ha₁] at hsame
    obtain ⟨a₂, ha₂, hid⟩ := Option.map_eq_some_iff.mp hsame
    refine ⟨a₂, ha₂, hid.trans ?_⟩
    rw [hrow]
    exact (PointsLedgerService.validateAccount_id hval).symm
  have hdone := h.returns hl hs hp hr hrun
  rw [hcall] at hdone
  cases hdone with
  | failed hown he =>
    refine (MutationFailure.impossible he hposts hposted hdistinct ?_ (fun m hm => ?_) haccount).elim
    · by_contra hf
      exact hobeys.fault (by simpa using hf) hcall
    · exact hcall ▸ (hobeys.marks m hm).stmt
  | @mutated _ c' t' hown hw =>
    have hmem' : c' ∈ own i s'.world.log := hown ▸ List.mem_singleton_self c'
    obtain ⟨_, -, hposts', hin⟩ := h'.posted (mem_own.mp hmem').1
      ((h'.own_call hp hmem').trans hcall) (t := t') (by rw [hw]; exact List.mem_cons_self)
    have hkey' : t'.idempotencyKey = params.idempotencyKey := hposts'.fields.2.2.2.2.1
    obtain rfl := hone.eq hin hmem (hkey'.trans hkey.symm)
    exact ⟨_, rfl, rfl, rfl, rfl⟩
  | @mutationReplayed _ t' u hown ht' hm =>
    rw [hposted.row, Option.bind_some, hdistinct.withUser hposted.owner] at ht'
    cases ht'
    exact ⟨_, rfl, rfl, rfl, rfl⟩

end Run

def debitParams : ApplyLedgerMutationParams :=
  ⟨.ofNat 1, .debit, 600, .adminDebit, none, "k", none, false⟩

def mutationRace : List (Label sql) :=
  [.spawn 0 (.applyMutation debitParams), .spawn 1 (.applyMutation debitParams), .run 0, .run 1,
    .run 0, .run 1, .run 0, .mint 0 (.ofNat 20), .input 0 7, .run 0, .run 0, .run 0]

def lostMutation : List (Label sql) := [.run 1, .mint 1 (.ofNat 30), .input 1 8, .run 1, .run 1]

def fundedDb : Db := { bettingDb with accounts := [⟨.ofNat 2, .ofNat 1, 2000, 0⟩] }

theorem known_fundedDb : ∀ x, fundedDb.Known x → x ∈ [roundId] := by
  intro x hx
  cases hx with
  | round h => simp_all [fundedDb, bettingDb]
  | _ h => simp [fundedDb, bettingDb] at h

instance : DecidablePred (mutationSafe debitParams).spawn := fun _ => isTrue trivial

instance (c : Call) : DecidablePred ((mutationSafe debitParams).stmt c) := fun m =>
  inferInstanceAs (Decidable (c = .applyMutation debitParams → m.tag = .lockAccount →
    (m.db.transactionOf debitParams.idempotencyKey).isSome = true →
      PointsLedgerService.passes debitParams m.db = true))

instance (c : Commit sql) (d : Db) : DecidablePred ((mutationSafe debitParams).commit c d) :=
  fun _ => isTrue trivial

instance : DecidablePred (mutationSafe debitParams).fault := fun c =>
  inferInstanceAs (Decidable (c ≠ .applyMutation debitParams))

theorem mutations_agree_after_race :
    ∃ s s', (mutationSafe debitParams).steps body (initial fundedDb [roundId])
        (mutationRace ++ lostMutation) = some s ∧ step body s (.run 1) = some s' ∧
      (s'.procs 1).bind (fun p => p.prog.result) = some (.ok (.mutation
        ⟨.ofNat 20, .debit, 600, 2000, 1400, .adminDebit, none, "k", none, 7, true⟩)) ∧
      OneRowPerKey s'.world.db ∧ AnswersMutations debitParams s s' := by
  have hrun : ((mutationSafe debitParams).steps body (initial fundedDb [roundId])
      (mutationRace ++ lostMutation)).bind (fun s => (step body s (.run 1)).map fun s' =>
        ((s'.procs 1).bind fun p => p.prog.result,
          decide ((mutationSafe debitParams).ok s (.run 1)))) =
      some (some (.ok (.mutation
        ⟨.ofNat 20, .debit, 600, 2000, 1400, .adminDebit, none, "k", none, 7, true⟩)), true) := by
    decide
  obtain ⟨s, hs, hstep⟩ := Option.bind_eq_some_iff.mp hrun
  obtain ⟨s', hs', hfacts⟩ := Option.map_eq_some_iff.mp hstep
  obtain ⟨hres, hok⟩ := Prod.mk.inj hfacts
  exact ⟨s, s', hs, hs', hres, mutations_agree (.steps known_fundedDb hs)
    (fun key => by simp [fundedDb, bettingDb]) (by simp [DistinctAccounts, fundedDb])
    (of_decide_eq_true hok) hs'⟩

def losesMutation (e : Err) (s s' : State sql) : Bool :=
  (s.procs 1).all (fun q => q.prog.result.isNone) ∧
  (s'.procs 1).any (fun p => p.call = .applyMutation debitParams ∧ p.prog.result = some (.error e)) ∧
  s'.world.log.any fun c => c.call = .applyMutation debitParams ∧
    c.writes.any fun x => x matches .insertTransaction _

theorem not_answersMutations {e : Err} {s s' : State sql} (h : losesMutation e s s' = true) :
    ¬ AnswersMutations debitParams s s' := by
  simp only [losesMutation, decide_eq_true_eq, Option.any_eq_true, List.any_eq_true] at h
  obtain ⟨hrun, ⟨p, hp, hcall, hr⟩, c, hc, hcc, x, hx, hrow⟩ := h
  cases x with
  | insertTransaction t =>
    intro hall
    obtain ⟨res, hres, -⟩ := hall 1 p _ hp hcall hr (State.unfinished hrun) c hc hcc t hx
    cases hres
  | _ => cases hrow

def poorMutation : List (Label sql) := [.run 1]

theorem mutation_twin_gets_insufficient_points :
    ∃ s s', Run (Policy.calls fun _ => True) bettingDb s ∧ step body s (.run 1) = some s' ∧
      losesMutation (.insufficientPoints 600 400) s s' = true ∧ ¬ AnswersMutations debitParams s s' := by
  have hrun : ((Policy.calls fun _ => True).steps body (initial bettingDb [roundId])
      (mutationRace ++ poorMutation)).bind (fun s => (step body s (.run 1)).map fun s' =>
        losesMutation (.insufficientPoints 600 400) s s') = some true := by decide
  obtain ⟨s, hs, hstep⟩ := Option.bind_eq_some_iff.mp hrun
  obtain ⟨s', hs', hloses⟩ := Option.map_eq_some_iff.mp hstep
  exact ⟨s, s', .steps known_bettingDb hs, hs', hloses, not_answersMutations hloses⟩

end JitoGame
