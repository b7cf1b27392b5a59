import JitoGame.BettingWindow

namespace JitoGame

open Transactions

namespace BetsService

theorem find_reverse_of_nodup {l : List MergedItem}
    (hn : (l.map fun m => itemKey m.category m.selection).Nodup) {m : MergedItem} (hm : m ∈ l) :
    l.reverse.find? (fun x => itemKey x.category x.selection = itemKey m.category m.selection) =
      some m := by
  cases hf : l.reverse.find?
      (fun x => itemKey x.category x.selection = itemKey m.category m.selection) with
  | none =>
    have hnone := List.find?_eq_none.mp hf m (List.mem_reverse.mpr hm)
    simp at hnone
  | some x =>
    have hx : x ∈ l := List.mem_reverse.mp (List.mem_of_find?_eq_some hf)
    have hkey : itemKey x.category x.selection = itemKey m.category m.selection := by
      simpa using List.find?_some hf
    exact congrArg some (List.inj_on_of_nodup_map hn hx hm hkey)

theorem itemsMatch_itemRows {params : PlaceBetParams} {p : Placement} (h : validate params = .ok p)
    (betId : Uuid) : itemsMatch (itemRows betId p) p.merged = true := by
  simp only [itemsMatch, decide_eq_true_eq, List.all_eq_true]
  refine ⟨by simp [itemRows], fun m hm => ?_⟩
  have hrev : (itemRows betId p).reverse =
      p.merged.reverse.map fun m => ⟨betId, m.category, m.selection, m.amountMinor⟩ := by
    simp [itemRows]
  have hfind := find_reverse_of_nodup (merged_keys_nodup h) hm
  rw [hrev, List.find?_map]
  simp only [Function.comp_def, hfind, Option.map_some]

theorem matchesReplay_placed {params : PlaceBetParams} {p : Placement} {b : Bet}
    {t : PointsTransaction} {start : ℕ} {trace : List (Mark sql)} {d : Db}
    (h : Places params p b t start trace d) (htext : b.roundId.text = params.dto.roundId) :
    matchesReplay b (itemRows b.id p) params.dto.roundId p = true := by
  have htotal : b.totalAmountMinor = p.totalAmountMinor := by rw [h.bet]; rfl
  simp only [matchesReplay, decide_eq_true_eq]
  exact ⟨htext, htotal, itemsMatch_itemRows h.valid b.id⟩

end BetsService

theorem Places.betOf {params : PlaceBetParams} {p : Placement} {b : Bet} {t : PointsTransaction}
    {start : ℕ} {trace : List (Mark sql)} {d : Db} (h : Places params p b t start trace d) :
    Db.betOf (applyAll (S := sql) (placed p b t) d) params.userId p.idempotencyKey = some b := by
  have huser : b.userId = params.userId := by rw [h.bet]; rfl
  have hkey : b.idempotencyKey = p.idempotencyKey := by rw [h.bet]; rfl
  have hunused : d.bets.find? (fun b => b.userId = params.userId ∧
    b.idempotencyKey = p.idempotencyKey) = none := h.unused
  change (d.bets ++ [b]).find? _ = some b
  rw [List.find?_append, hunused]
  simp [huser, hkey]

theorem Effect.items {c : Commit sql} {d : Db} (h : Effect c d) {b : Bet} (hb : b ∈ d.bets) :
    Db.itemsOf (applyAll c.writes d) b.id = d.itemsOf b.id := by
  cases h with
  | placement _ hw h => rw [hw]; exact BetsLinked.itemsOf_placed h b hb
  | mutation _ hw _ => rw [hw]; rfl
  | adjustment _ hw _ => rw [hw]; rfl
  | creation hw _ => rw [hw]; rfl
  | opening hw _ _ => rw [hw]; rfl
  | locking hw _ _ => rw [hw]; rfl
  | idle hw => rw [hw]; rfl

structure Stands (params : PlaceBetParams) (p : Placement) (b : Bet) (d : Db) : Prop where
  bet : d.betOf params.userId p.idempotencyKey = some b
  items : d.itemsOf b.id = BetsService.itemRows b.id p

theorem Stands.commit {params : PlaceBetParams} {p : Placement} {b : Bet} {d : Db}
    (h : Stands params p b d) {c : Commit sql} (hc : Effect c d) :
    Stands params p b (applyAll c.writes d) where
  bet := (grows_commit c d).betOf h.bet
  items := (hc.items (List.mem_of_find?_eq_some h.bet)).trans h.items

section Log

variable {base : Db} {log : List (Commit sql)} {params : PlaceBetParams} {b : Bet}

theorem stands_suffix {p : Placement} {older : List (Commit sql)} (hlog : Chronicle Effect base log)
    (hs : older <:+ log) (h : Stands params p b (replay base older)) :
    Stands params p b (replay base log) := by
  obtain ⟨front, rfl⟩ := hs
  induction front with
  | nil => exact h
  | cons c front ih => exact (ih hlog.2).commit hlog.1

structure Wins (base : Db) (params : PlaceBetParams) (b : Bet) (c : Commit sql)
    (older : List (Commit sql)) (p : Placement) : Prop where
  places : ∃ t, Places params p b t c.start c.trace (replay base older)
  stands : Stands params p b (replay base (c :: older))

theorem wins_of_mem {c : Commit sql} {older : List (Commit sql)} (hlog : Chronicle Effect base log)
    (hs : (c :: older) <:+ log) (hc : c.call = .placeBet params) (hb : Write.insertBet b ∈ c.writes) :
    ∃ p, Wins base params b c older p := by
  obtain ⟨params', p, t, hc', hw, hp⟩ := (hlog.suffix hs).1.placed_of_mem hb
  obtain rfl : params = params' := by
    rw [hc] at hc'
    cases hc'
    rfl
  refine ⟨p, ⟨t, hp⟩, ?_, ?_⟩
  · rw [replay, hw]
    exact hp.betOf
  · rw [replay, hw]
    exact BetsLinked.itemsOf_new hp

theorem Wins.later {c : Commit sql} {older : List (Commit sql)} {p : Placement}
    (h : Wins base params b c older p) (hlog : Chronicle Effect base log)
    (hs : (c :: older) <:+ log) : Stands params p b (replay base log) :=
  stands_suffix hlog hs h.stands

theorem Wins.unique {b' : Bet} {c c' : Commit sql} {older older' : List (Commit sql)}
    {p p' : Placement} (h : Wins base params b c older p) (h' : Wins base params b' c' older' p')
    (hlog : Chronicle Effect base log) (hs : (c :: older) <:+ log) (hs' : (c' :: older') <:+ log) :
    c :: older = c' :: older' := by
  obtain ⟨t, hp⟩ := h.places
  obtain ⟨t', hp'⟩ := h'.places
  obtain rfl : p = p' := Except.ok.inj (hp.valid.symm.trans hp'.valid)
  by_contra hne
  rcases suffix_apart hs hs' hne with hle | hle
  · have hbet := (h.later (hlog.suffix hs').2 hle).bet
    rw [hp'.unused] at hbet
    cases hbet
  · have hbet := (h'.later (hlog.suffix hs).2 hle).bet
    rw [hp.unused] at hbet
    cases hbet

end Log

def AnswersTwins (params : PlaceBetParams) (s s' : State sql) : Prop :=
  ∀ i p r, s'.procs i = some p → p.call = .placeBet params → p.prog.Ends r →
    (∀ q, s.procs i = some q → ∀ r, ¬ q.prog.Ends r) →
    ∀ c ∈ s'.world.log, c.proc ≠ i → c.call = .placeBet params →
      ∀ b, Write.insertBet b ∈ c.writes →
        ∃ res, r = .ok (.bet res) ∧ res.betId = b.id ∧ res.replayed = true

/-- The round exists when a request looks for it, and once the bet of `params` is committed, the
round and the account still pass the checks that come before the key is inserted. -/
def stillPasses (params : PlaceBetParams) (m : Mark sql) : Bool :=
  match BetsService.validate params, Uuid.parse params.dto.roundId with
  | .ok p, some roundId =>
    let placed := (m.db.betOf params.userId p.idempotencyKey).isSome
    match m.tag with
    | .lockRound => (m.db.roundOf roundId).isSome ∧ (placed →
        (BetsService.validateRound params.dto.gameId (BetsService.lockRow m.db roundId m.now)).isOk)
    | .lockAccount => placed → (PointsLedgerService.validateAccount params.userId .debit
        p.totalAmountMinor false (m.db.accountOf params.userId)).isOk
    | _ => true
  | _, _ => true

def replaySafe (params : PlaceBetParams) : Policy sql where
  spawn _ := True
  stmt call m := call = .placeBet params → stillPasses params m = true
  commit _ _ _ := True
  fault call := call ≠ .placeBet params

section Failures

variable {params : PlaceBetParams} {p : Placement} {b : Bet} {d : Db} {m : Mark sql} {roundId : Uuid}

theorem betOf_isSome_of_mem (hb : b ∈ m.db.bets) (hu : b.userId = params.userId)
    (hk : b.idempotencyKey = p.idempotencyKey) :
    (m.db.betOf params.userId p.idempotencyKey).isSome = true := by
  rw [Db.betOf, List.find?_isSome]
  exact ⟨b, hb, by simp [hu, hk]⟩

theorem Stands.mem_of_filter (h : Stands params p b d) (hr : b.roundId = roundId)
    (hf : d.bets.filter (fun b => b.roundId = roundId) =
      m.db.bets.filter fun b => b.roundId = roundId) :
    (m.db.betOf params.userId p.idempotencyKey).isSome = true := by
  have hkey : b.userId = params.userId ∧ b.idempotencyKey = p.idempotencyKey := by
    simpa using List.find?_some h.bet
  have hmem : b ∈ d.bets.filter (fun b => b.roundId = roundId) :=
    List.mem_filter.mpr ⟨List.mem_of_find?_eq_some h.bet, by simpa using hr⟩
  rw [hf] at hmem
  exact betOf_isSome_of_mem (List.mem_of_mem_filter hmem) hkey.1 hkey.2

end Failures

theorem isOk_error {ε α : Type} {e : ε} {x : Except ε α} (h : x = .error e) : x.isOk = false := by
  rw [h]
  rfl

section Twins

variable {params : PlaceBetParams} {p : Placement} {b : Bet} {d : Db} {s : Local sql}

theorem PlacementFailure.impossible {e : Err} (h : PlacementFailure params s d e)
    {t : PointsTransaction} {start : ℕ} {trace : List (Mark sql)} {d₀ : Db}
    (hp : Places params p b t start trace d₀) (hb : Stands params p b d)
    (hfault : s.faulted = false) (hsafe : ∀ m ∈ s.trace, stillPasses params m = true)
    (htext : b.roundId.text = params.dto.roundId) : False := by
  have same {p' : Placement} (h' : BetsService.validate params = .ok p') : p' = p :=
    Except.ok.inj (h'.symm.trans hp.valid)
  cases h with
  | fault h => rw [hfault] at h; cases h
  | invalid h => rw [hp.valid] at h; cases h
  | @reused p' b' h hb' hm =>
    obtain rfl := same h
    obtain rfl : b = b' := Option.some.inj (hb.bet.symm.trans hb')
    rw [hb.items, BetsService.matchesReplay_placed hp htext] at hm
    cases hm
  | absent h hb' =>
    obtain rfl := same h
    rw [hb.bet] at hb'
    cases hb'
  | roundId h => rw [hp.roundId] at h; cases h
  | @round roundId m _ hr hm ht hbets he =>
    obtain rfl : b.roundId = roundId := Option.some.inj (hp.roundId.symm.trans hr)
    have hpass := hsafe m hm
    simp only [stillPasses, hp.valid, hr, ht, decide_eq_true_eq] at hpass
    have hplaced := hb.mem_of_filter rfl (hbets hpass.1)
    have hok := hpass.2 hplaced
    rw [isOk_error he] at hok
    cases hok
  | @account roundId p' m _ hr h hm ht hbets he =>
    obtain rfl := same h
    obtain rfl : b.roundId = roundId := Option.some.inj (hp.roundId.symm.trans hr)
    have hpass := hsafe m hm
    simp only [stillPasses, hp.valid, hr, ht, decide_eq_true_eq] at hpass
    have hok := hpass (hb.mem_of_filter rfl hbets)
    rw [isOk_error he] at hok
    cases hok
  | amount h ht =>
    obtain rfl := same h
    have hpos := hp.entry.checks.2.2
    rw [hp.entry.fields.2.1] at hpos
    change 0 < _ at hpos
    exact absurd ht (by simpa [BetsService.mutation] using hpos)
  | row h hr =>
    obtain rfl := same h
    have hfit := hp.fits
    rw [hp.bet, hr] at hfit
    cases hfit

end Twins

/-- A losing twin answers with the bet of the winner in the runs in which it still passes the checks
in front of the key, and its statements do not fail. -/
theorem twins_agree {params : PlaceBetParams} {base : Db} {s s' : State sql} {l : Label sql}
    (h : Run (replaySafe params) base s) (hl : (replaySafe params).ok s l)
    (hs : step body s l = some s')
    (htext : ∀ id, Uuid.parse params.dto.roundId = some id → id.text = params.dto.roundId) :
    AnswersTwins params s s' := by
  intro i p r hp hcall hr hrun c hc hne hwin b hb
  have h' : Run _ base s' := h.step hl hs
  have hlog := h'.effects
  obtain ⟨older, hsuf, -⟩ := hlog.found hc
  obtain ⟨pl, hwins⟩ := wins_of_mem hlog hsuf hwin hb
  obtain ⟨t, hplaces⟩ := hwins.places
  have hstands : Stands params pl b s'.world.db := h'.obeys.db_eq ▸ hwins.later hlog hsuf
  have hdone := h.returns hl hs hp hr hrun
  have hobeys := h'.obeys.procs i p hp
  rw [hcall] at hdone
  cases hdone with
  | failed hown he =>
    refine (PlacementFailure.impossible he hplaces hstands ?_ (fun m hm => ?_) ?_).elim
    · by_contra hf
      exact hobeys.fault (by simpa using hf) hcall
    · exact (hobeys.marks m hm).stmt hcall
    · exact htext _ hplaces.roundId
  | @placed _ pl' c' b' t' hown hval hw =>
    have hmem : c' ∈ own i s'.world.log := hown ▸ List.mem_singleton_self c'
    obtain ⟨hmem', hproc⟩ := mem_own.mp hmem
    obtain ⟨older', hsuf', -⟩ := hlog.found hmem'
    obtain ⟨pl'', hwins'⟩ := wins_of_mem hlog hsuf' ((h'.own_call hp hmem).trans hcall)
      (b := b') (by rw [hw]; exact List.mem_cons_self)
    have heq := (List.cons.inj (hwins.unique hwins' hlog hsuf hsuf')).1
    exact absurd (heq ▸ hproc) hne
  | @betReplayed _ pl' b' hown hval hbet =>
    obtain rfl : pl' = pl := Except.ok.inj (hval.symm.trans hplaces.valid)
    obtain rfl : b' = b := Option.some.inj (hbet.symm.trans hstands.bet)
    exact ⟨_, rfl, rfl, rfl⟩

def twinRun : List (Label sql) :=
  [.spawn 0 (.placeBet betParams), .spawn 1 (.placeBet betParams), .run 0, .run 1, .run 0, .run 1,
    .run 0] ++ restOfPlacement 0 20 21

def richDb : Db := { bettingDb with accounts := [⟨.ofNat 2, .ofNat 1, 2000, 0⟩] }

instance : DecidablePred (replaySafe betParams).spawn := fun _ => isTrue trivial

instance (c : Call) : DecidablePred ((replaySafe betParams).stmt c) := fun m =>
  inferInstanceAs (Decidable (c = .placeBet betParams → stillPasses betParams m = true))

instance (c : Commit sql) (d : Db) : DecidablePred ((replaySafe betParams).commit c d) :=
  fun _ => isTrue trivial

instance : DecidablePred (replaySafe betParams).fault := fun c =>
  inferInstanceAs (Decidable (c ≠ .placeBet betParams))

def lostRace : List (Label sql) :=
  [.run 1, .run 1, .mint 1 (.ofNat 30), .input 1 8, .run 1, .run 1, .run 1]

theorem twins_agree_after_race :
    ∃ s s', (replaySafe betParams).steps body (initial richDb [roundId]) (twinRun ++ lostRace) = some s ∧
      step body s (.run 1) = some s' ∧
      (s'.procs 1).bind (fun p => p.prog.result) = some (.ok (.bet
        ⟨.ofNat 20, roundId.text, 550, 1450, .accepted, 5, true⟩)) ∧
      AnswersTwins betParams s s' := by
  have hrun : ((replaySafe betParams).steps body (initial richDb [roundId]) (twinRun ++ lostRace)).bind
      (fun s => (step body s (.run 1)).map fun s' =>
        ((s'.procs 1).bind fun p => p.prog.result, decide ((replaySafe betParams).ok s (.run 1)))) =
      some (some (.ok (.bet ⟨.ofNat 20, roundId.text, 550, 1450, .accepted, 5, true⟩)), true) := by
    decide
  obtain ⟨s, hs, hstep⟩ := Option.bind_eq_some_iff.mp hrun
  obtain ⟨s', hs', hfacts⟩ := Option.map_eq_some_iff.mp hstep
  obtain ⟨hres, hok⟩ := Prod.mk.inj hfacts
  have hknown : ∀ x, richDb.Known x → x ∈ [roundId] := by
    intro x hx
    cases hx with
    | round h => simp_all [richDb, bettingDb]
    | _ h => simp [richDb, bettingDb] at h
  have htext : (Uuid.parse betParams.dto.roundId).all fun id => id.text = betParams.dto.roundId := by
    decide
  refine ⟨s, s', hs, hs', hres, twins_agree
    (.steps hknown hs) (of_decide_eq_true hok) hs' ?_⟩
  intro id hid
  simpa [hid] using htext

def twinFails (e : Err) (s s' : State sql) : Bool :=
  (s.procs 1).all (fun q => q.prog.result.isNone) ∧
  (s'.procs 1).any (fun p => p.call = .placeBet betParams ∧ p.prog.result = some (.error e)) ∧
  s'.world.log.any fun c => c.proc = 0 ∧ c.call = .placeBet betParams ∧
    c.writes.any fun x => x matches .insertBet _

theorem not_answersTwins {e : Err} {s s' : State sql} (h : twinFails e s s' = true) :
    ¬ AnswersTwins betParams s s' := by
  simp only [twinFails, decide_eq_true_eq, Option.any_eq_true, List.any_eq_true] at h
  obtain ⟨hrun, ⟨p, hp, hcall, hr⟩, c, hc, hproc, hwin, x, hx, hbet⟩ := h
  cases x with
  | insertBet b =>
    intro hall
    have hother : c.proc ≠ 1 := by
      rw [hproc]
      decide
    obtain ⟨res, hres, -⟩ := hall 1 p _ hp hcall hr (State.unfinished hrun) c hc hother hwin b hx
    cases hres
  | _ => cases hbet

def poorRace : List (Label sql) := [.run 1, .run 1]

theorem twin_gets_insufficient_points :
    ∃ s s', Run (Policy.calls fun _ => True) bettingDb s ∧ step body s (.run 1) = some s' ∧
      twinFails (.insufficientPoints 550 450) s s' = true ∧ ¬ AnswersTwins betParams s s' := by
  have hrun : ((Policy.calls fun _ => True).steps body (initial bettingDb [roundId])
      (twinRun ++ poorRace)).bind (fun s => (step body s (.run 1)).map fun s' =>
        twinFails (.insufficientPoints 550 450) s s') = some true := by decide
  obtain ⟨s, hs, hstep⟩ := Option.bind_eq_some_iff.mp hrun
  obtain ⟨s', hs', hfails⟩ := Option.map_eq_some_iff.mp hstep
  exact ⟨s, s', .steps known_bettingDb hs, hs', hfails,
    not_answersTwins hfails⟩

end JitoGame
