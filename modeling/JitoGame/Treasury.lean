import JitoGame.Audit
import JitoGame.Numerals
import JitoGame.Refinement

namespace JitoGame

open Transactions BetsService Decimals

/-! Where the points of a player come from, and where they have gone. -/

def Player.staked (pl : Player) : ℤ := (pl.slips.map (·.totalAmountMinor)).sum

def TxnDirection.signed : TxnDirection → ℤ → ℤ
  | .credit, amountMinor => amountMinor
  | .debit, amountMinor => -amountMinor

def Deed.paid (u : Uuid) : Deed → ℤ
  | .adjust userId direction amountMinor => if userId = u then direction.signed amountMinor else 0
  | .place .. | .create _ | .openRound _ | .lockRound .. => 0

namespace Player

variable {pl pl' : Player} {rounds : List GameRound} {now : ℕ} {params : PlaceBetParams} {reply : Reply}

theorem bet_ok {p : Placement} (h : pl.bet rounds now params p = .ok (reply, pl')) :
    ∃ roundId balanceMinor, pl.balanceMinor = some balanceMinor ∧
      pl' = pl.accept roundId p balanceMinor := by
  rw [Player.bet] at h
  split at h
  · cases h
  rename_i roundId hid
  cases hround : validateRound params.dto.gameId ((rounds.find? fun r => r.id = roundId).map fun r =>
      ⟨r.id, r.gameId, r.state, r.bettingDeadline ≤ now⟩) with
  | error e => rw [hround] at h; cases h
  | ok round =>
    rw [hround] at h
    change (PointsLedgerService.assertPositiveAmount p.totalAmountMinor >>= fun _ => _) = _ at h
    cases hpos : PointsLedgerService.assertPositiveAmount p.totalAmountMinor with
    | error e => rw [hpos] at h; cases h
    | ok _ =>
      rw [hpos] at h
      cases hb : pl.balanceMinor with
      | none => simp only [hb] at h; cases h
      | some balanceMinor =>
        simp only [hb] at h
        change (if balanceMinor < p.totalAmountMinor then _ else _) = _ at h
        split at h
        · cases h
        split at h
        · cases h
          exact ⟨roundId, balanceMinor, rfl, rfl⟩
        · cases h

theorem place_ok (h : pl.place rounds now params = .ok (reply, pl')) :
    pl' = pl ∨ ∃ roundId p balanceMinor, pl.balanceMinor = some balanceMinor ∧
      pl' = pl.accept roundId p balanceMinor := by
  rw [Player.place] at h
  cases hp : validate params with
  | error e => rw [hp] at h; cases h
  | ok p =>
    simp only [hp, bind, Except.bind] at h
    split at h
    · split at h
      · cases h
        exact .inl rfl
      · cases h
    · obtain ⟨roundId, balanceMinor, hrest⟩ := bet_ok h
      exact .inr ⟨roundId, p, balanceMinor, hrest⟩

theorem staked_accept (roundId : Uuid) (p : Placement) (balanceMinor : ℤ) :
    (pl.accept roundId p balanceMinor).staked = pl.staked + p.totalAmountMinor := by
  simp [Player.staked, Player.accept]

end Player

namespace House

def worth (h : House) (u : Uuid) : Option ℤ :=
  (h.players u).balanceMinor.map fun balanceMinor => balanceMinor + (h.players u).staked

variable {h h' : House} {deed : Deed}

theorem worth_seat (userId : Uuid) (pl : Player) (u : Uuid) : (h.seat userId pl).worth u =
    if userId = u then pl.balanceMinor.map (fun balanceMinor => balanceMinor + pl.staked)
    else h.worth u := by
  by_cases hu : userId = u
  · subst hu
    simp [House.worth, House.seat]
  · simp [House.worth, House.seat, hu, Function.update_of_ne (Ne.symm hu)]

theorem act_worth (hact : h.act deed = some h') (u : Uuid) :
    h'.worth u = (h.worth u).map (· + deed.paid u) := by
  have hsame : h.worth u = (h.worth u).map (· + (0 : ℤ)) := by simp
  cases deed with
  | place params now =>
    cases hplace : (h.players params.userId).place h.rounds now params with
    | error e =>
      rw [House.act, hplace] at hact
      cases hact
    | ok a =>
      obtain ⟨reply, pl⟩ := a
      rw [House.act, hplace] at hact
      cases hact
      rw [worth_seat, Deed.paid]
      split
      · rename_i hu
        subst hu
        rcases Player.place_ok hplace with rfl | ⟨roundId, p, balanceMinor, hb, rfl⟩
        · exact hsame
        · rw [Player.staked_accept, House.worth, hb, Player.accept]
          simp only [Option.map_some, Option.some.injEq]
          omega
      · exact hsame
  | adjust userId direction amountMinor =>
    obtain ⟨pl, hpl, hh⟩ := Option.map_eq_some_iff.mp hact
    cases hh
    obtain ⟨balanceMinor, hb, hpl⟩ := Option.bind_eq_some_iff.mp hpl
    simp only [Option.ite_none_right_eq_some, Option.some.injEq] at hpl
    obtain ⟨-, rfl⟩ := hpl
    rw [worth_seat]
    split
    · rename_i hu
      subst hu
      rw [House.worth, hb]
      cases direction <;>
        simp only [Deed.paid, TxnDirection.signed, PointsLedgerService.balanceAfter, Player.staked,
          Option.map_some, if_true, Option.some.injEq] <;> omega
    · rename_i hu
      rw [Deed.paid, if_neg hu]
      exact hsame
  | create round =>
    simp only [House.act, Option.ite_none_right_eq_some, Option.some.injEq] at hact
    obtain ⟨-, rfl⟩ := hact
    exact hsame
  | openRound roundId =>
    simp only [House.act, Option.ite_none_right_eq_some, Option.some.injEq] at hact
    obtain ⟨-, rfl⟩ := hact
    exact hsame
  | lockRound roundId now =>
    simp only [House.act, Option.ite_none_right_eq_some, Option.some.injEq] at hact
    obtain ⟨-, rfl⟩ := hact
    exact hsame

theorem run_worth {deeds : List Deed} (hrun : h.run deeds = some h') (u : Uuid) :
    h'.worth u = (h.worth u).map (· + (deeds.map (·.paid u)).sum) := by
  induction deeds generalizing h with
  | nil =>
    cases hrun
    simp
  | cons deed deeds ih =>
    obtain ⟨m, hm, hrun⟩ := Traces.run_cons.mp hrun
    rw [ih hrun, act_worth hm, Option.map_map, List.map_cons, List.sum_cons]
    congr 1
    funext x
    exact Int.add_assoc _ _ _

end House

/-! The same in the tables: the log of the administrators and the bets account for every balance. -/

def AdminLog.paid (l : AdminLog) : ℤ :=
  l.afterState.direction.signed (value l.afterState.amountMinor.toList)

def adjustments (d : Db) : List AdminLog := d.adminLogs.filter fun l => l.action = "points_adjust"

def paidTo (d : Db) (u : Uuid) : ℤ := (((adjustments d).filter (·.targetId = u)).map (·.paid)).sum

def stakedBy (d : Db) (u : Uuid) : ℤ := ((d.bets.filter (·.userId = u)).map (·.totalAmountMinor)).sum

def Db.points (d : Db) : ℤ := (d.accounts.map (·.balanceMinor)).sum

def Db.stakes (d : Db) : ℤ := (d.bets.map (·.totalAmountMinor)).sum

def Db.payments (d : Db) : ℤ := ((adjustments d).map (·.paid)).sum

structure Accounted (d : Db) : Prop where
  each : ∀ u a, d.accountOf u = some a → a.balanceMinor = paidTo d u - stakedBy d u
  whole : d.points = d.payments - d.stakes

def audited : Call → Prop
  | .applyMutation _ => False
  | _ => True

theorem worth_houseOf (d : Db) (u : Uuid) :
    (houseOf d).worth u = (d.accountOf u).map fun a => a.balanceMinor + stakedBy d u := by
  have hstaked : (playerOf d u).staked = stakedBy d u := by
    rw [Player.staked, playerOf, List.map_map]
    rfl
  change ((d.accountOf u).map _).map (fun balanceMinor => balanceMinor + (playerOf d u).staked) = _
  rw [hstaked, Option.map_map]
  rfl

section Commit

variable {c : Commit sql} {d : Db}

theorem Adjusts.paid {params : AdjustPointsParams} {key : String} {l : AdminLog} {t : PointsTransaction}
    (h : Adjusts params key l t d) : l.paid = params.dto.direction.signed params.dto.amountMinor := by
  obtain ⟨-, hamount, -⟩ := h.entry.fields
  obtain ⟨-, -, hpos⟩ := h.entry.checks
  rw [hamount] at hpos
  obtain ⟨n, hn⟩ := Int.eq_ofNat_of_zero_le (Int.le_of_lt hpos)
  have hn : params.dto.amountMinor = (n : ℤ) := hn
  have hvalue : (value (toString params.dto.amountMinor).toList : ℤ) = params.dto.amountMinor := by
    rw [hn, toList_toString, value_toDigits]
  rw [h.log]
  change params.dto.direction.signed (value (toString params.dto.amountMinor).toList : ℤ) = _
  rw [hvalue]

theorem sum_set {accounts : List PointsAccount} (hd : (accounts.map (·.id)).Nodup) {a : PointsAccount}
    (ha : a ∈ accounts) {t : PointsTransaction} (hid : a.id = t.accountId)
    (hafter : t.balanceAfterMinor = a.balanceMinor + t.delta) :
    ((accounts.map (posted t)).map (·.balanceMinor)).sum =
      (accounts.map (·.balanceMinor)).sum + t.delta := by
  induction accounts with
  | nil => cases ha
  | cons x rest ih =>
    obtain ⟨hx, hrest⟩ := List.nodup_cons.mp hd
    have hne {y : PointsAccount} (hy : y ∈ rest) : y.id ≠ x.id := fun he =>
      hx (List.mem_map.mpr ⟨y, hy, he⟩)
    rw [List.map_cons, List.map_cons, List.sum_cons, List.map_cons, List.sum_cons]
    rcases List.mem_cons.mp ha with rfl | ha
    · have hsame : rest.map (posted t) = rest := by
        conv_rhs => rw [← List.map_id rest]
        refine List.map_congr_left fun y hy => ?_
        rw [posted, if_neg (hid ▸ hne hy)]
        rfl
      rw [hsame, posted, if_pos hid]
      simp only [PointsAccount.set, hafter]
      omega
    · have hother : x.id ≠ t.accountId := fun he => hne ha (hid.trans he.symm)
      rw [ih hrest ha, posted, if_neg hother]
      omega

theorem Posts.sum (hd : DistinctAccounts d) {params : ApplyLedgerMutationParams} {t : PointsTransaction}
    (hp : Posts params t d) : ((d.accounts.map (posted t)).map (·.balanceMinor)).sum =
      (d.accounts.map (·.balanceMinor)).sum + params.direction.signed params.amountMinor := by
  obtain ⟨a, ha, -, hid, hbefore⟩ := hp.account
  obtain ⟨hafter, -⟩ := hp.checks
  obtain ⟨hdir, hamount, -⟩ := hp.fields
  have hdelta : t.delta = params.direction.signed params.amountMinor := by
    rw [← hdir, ← hamount, PointsTransaction.delta]
    cases t.direction <;> rfl
  rw [← hdelta]
  exact sum_set hd ha hid (hbefore ▸ hafter)

theorem adjustments_append {d' : Db} {l : AdminLog} (h : d'.adminLogs = d.adminLogs ++ [l])
    (hl : l.action = "points_adjust") : adjustments d' = adjustments d ++ [l] := by
  rw [adjustments, h, List.filter_append, List.filter_cons_of_pos (by simpa using hl)]
  rfl

structure Flow (c : Commit sql) (d : Db) : Prop where
  paid : ∀ u, paidTo (applyAll c.writes d) u = paidTo d u + ((deedsOf c).map (·.paid u)).sum
  points : Db.points (applyAll c.writes d) + Db.stakes (applyAll c.writes d) + d.payments =
    d.points + d.stakes + Db.payments (applyAll c.writes d)

theorem Flow.quiet (hdeeds : ∀ u, ((deedsOf c).map (·.paid u)).sum = 0)
    (haccounts : (applyAll c.writes d).accounts = d.accounts)
    (hbets : (applyAll c.writes d).bets = d.bets)
    (hlogs : (applyAll c.writes d).adminLogs = d.adminLogs) : Flow c d := by
  refine ⟨fun u => ?_, ?_⟩
  · rw [hdeeds, paidTo, paidTo, adjustments, adjustments, hlogs, add_zero]
  · rw [Db.points, Db.stakes, Db.payments, Db.points, Db.stakes, Db.payments, adjustments, adjustments,
      haccounts, hbets, hlogs]

theorem Flow.rounds (hdeeds : deedsOf c = c.writes.filterMap Write.deed)
    (hw : c.writes = [] ∨ (∃ row, c.writes = [.insertRound row]) ∨
      (∃ roundId, c.writes = [.openRound roundId]) ∨
        ∃ roundId now, c.writes = [.lockRound roundId now]) : Flow c d := by
  have hsame {ws : List Write} (hw : c.writes = ws)
      (hpaid : ∀ u, ((ws.filterMap Write.deed).map (·.paid u)).sum = 0)
      (haccounts : Db.accounts (applyAll (S := sql) ws d) = d.accounts)
      (hbets : Db.bets (applyAll (S := sql) ws d) = d.bets)
      (hlogs : Db.adminLogs (applyAll (S := sql) ws d) = d.adminLogs) : Flow c d := by
    subst hw
    exact .quiet (fun u => hdeeds ▸ hpaid u) haccounts hbets hlogs
  rcases hw with hw | ⟨row, hw⟩ | ⟨roundId, hw⟩ | ⟨roundId, now, hw⟩
  · exact hsame hw (fun _ => rfl) rfl rfl rfl
  · exact hsame hw (fun _ => rfl) rfl rfl rfl
  · exact hsame hw (fun _ => rfl) rfl rfl rfl
  · exact hsame hw (fun _ => rfl) rfl rfl rfl

theorem Meets.flow (h : Meets audited c d) (hd : DistinctAccounts d) : Flow c d := by
  obtain ⟨hspawn, hmeets⟩ := h
  cases hc : c.call with
  | applyMutation params =>
    rw [hc] at hspawn
    exact hspawn.elim
  | adjust params =>
    rw [hc] at hmeets
    obtain ⟨key, l, t, hw, hadj⟩ := hmeets
    have hlog := hadj.log
    have hnew : adjustments (applyAll c.writes d) = adjustments d ++ [l] :=
      adjustments_append (by rw [hw]; rfl) (by rw [hlog]; rfl)
    have htarget : l.targetId = params.targetUserId := by rw [hlog]; rfl
    have hsum := hadj.entry.sum hd
    refine ⟨fun u => ?_, ?_⟩
    · have hone : ([l].filter (·.targetId = u)).map (·.paid) =
          if params.targetUserId = u then [params.dto.direction.signed params.dto.amountMinor] else [] := by
        by_cases hu : params.targetUserId = u
        · simp [htarget, hu, hadj.paid]
        · simp [htarget, hu]
      rw [paidTo, hnew, List.filter_append, List.map_append, List.sum_append, hone, deedsOf, hc]
      simp only [List.map_singleton, List.sum_singleton, Deed.paid]
      split <;> simp [paidTo]
    · have hpoints : Db.points (applyAll c.writes d) =
          d.points + params.dto.direction.signed params.dto.amountMinor := by
        rw [hw]
        exact hsum
      have hstakes : Db.stakes (applyAll c.writes d) = d.stakes := by rw [hw]; rfl
      have hpayments : Db.payments (applyAll c.writes d) =
          d.payments + params.dto.direction.signed params.dto.amountMinor := by
        rw [Db.payments, hnew, List.map_append, List.sum_append, List.map_singleton, List.sum_singleton,
          hadj.paid]
        rfl
      omega
  | placeBet params =>
    rw [hc] at hmeets
    obtain ⟨p, b, t, hw, hp⟩ := hmeets
    have htotal : b.totalAmountMinor = p.totalAmountMinor := by rw [hp.bet]; rfl
    have hlogs : adjustments (applyAll c.writes d) = adjustments d := by rw [hw]; rfl
    refine ⟨fun u => ?_, ?_⟩
    · rw [paidTo, hlogs, deedsOf, hc]
      simp [Deed.paid, paidTo]
    · have hpoints : Db.points (applyAll c.writes d) = d.points + -p.totalAmountMinor := by
        rw [hw]
        exact hp.entry.sum hd
      have hstakes : Db.stakes (applyAll c.writes d) = d.stakes + p.totalAmountMinor := by
        have hbets : (applyAll c.writes d).bets = d.bets ++ [b] := by rw [hw]; rfl
        rw [Db.stakes, hbets, List.map_append, List.sum_append, List.map_singleton, List.sum_singleton,
          htotal]
        rfl
      have hpayments : Db.payments (applyAll c.writes d) = d.payments := by rw [Db.payments, hlogs]; rfl
      omega
  | reconcile windowMs gameId =>
    rw [hc] at hmeets
    refine .rounds (by rw [deedsOf, hc]) ?_
    rcases hmeets with ⟨row, hw, -⟩ | ⟨roundId, (hw | ⟨hw, -⟩) | (hw | ⟨hw, -⟩)⟩
    · exact .inr (.inl ⟨row, hw⟩)
    · exact .inl hw
    · exact .inr (.inr (.inl ⟨roundId, hw⟩))
    · exact .inl hw
    · exact .inr (.inr (.inr ⟨roundId, c.start, hw⟩))
  | openRound roundId =>
    rw [hc] at hmeets
    refine .rounds (by rw [deedsOf, hc]) ?_
    rcases (hmeets : Opens roundId c d) with hw | ⟨hw, -⟩
    · exact .inl hw
    · exact .inr (.inr (.inl ⟨roundId, hw⟩))
  | lockIfDeadlinePassed roundId =>
    rw [hc] at hmeets
    refine .rounds (by rw [deedsOf, hc]) ?_
    rcases (hmeets : Locks roundId c d) with hw | ⟨hw, -⟩
    · exact .inl hw
    · exact .inr (.inr (.inr ⟨roundId, c.start, hw⟩))

end Commit

theorem paidTo_replay {base : Db} {log : List (Commit sql)} (h : Chronicle (Meets audited) base log)
    (hd : DistinctAccounts base) (u : Uuid) :
    paidTo (replay base log) u = paidTo base u + ((log.reverse.flatMap deedsOf).map (·.paid u)).sum := by
  induction log with
  | nil => simp [replay]
  | cons c log ih =>
    have hgrows : Grows base (replay base log) := grows_replay (List.nil_suffix (l := log))
    have hflow := h.1.flow (hgrows.distinctAccounts hd)
    change paidTo (applyAll c.writes (replay base log)) u = _
    rw [hflow.paid u, ih h.2, List.reverse_cons, List.flatMap_append, List.flatMap_singleton,
      List.map_append, List.sum_append]
    exact Int.add_assoc _ _ _

theorem Meets.noBetReference {c : Commit sql} {d : Db} (h : Meets audited c d) :
    Meets noBetReference c d := by
  refine ⟨?_, h.2⟩
  have hspawn := h.1
  cases hc : c.call with
  | applyMutation params =>
    rw [hc] at hspawn
    exact hspawn.elim
  | _ => trivial

theorem accounted_replay {base : Db} {log : List (Commit sql)} (h : Chronicle (Meets audited) base log)
    (hb : BetsLinked base) (hd : DistinctAccounts base) (h₀ : Accounted base) :
    Accounted (replay base log) where
  each u a ha := by
    have hworth := House.run_worth (house_of_chronicle (h.imp fun _ _ hc => hc.noBetReference) hb hd) u
    rw [worth_houseOf, worth_houseOf, ha, Option.map_map] at hworth
    obtain ⟨a₀, ha₀, hsum⟩ := Option.map_eq_some_iff.mp hworth.symm
    have hopening := h₀.each u a₀ ha₀
    rw [paidTo_replay h hd u]
    simp only [Function.comp_apply] at hsum
    omega
  whole := by
    induction log with
    | nil => exact h₀.whole
    | cons c log ih =>
      have hgrows : Grows base (replay base log) := grows_replay (List.nil_suffix (l := log))
      have hflow := (h.1.flow (hgrows.distinctAccounts hd)).points
      have hwhole := ih h.2
      change Db.points (applyAll c.writes (replay base log)) =
        Db.payments (applyAll c.writes (replay base log)) - Db.stakes (applyAll c.writes (replay base log))
      omega

/-- Every point has been paid by an administrator and is with its player or in his bets. -/
theorem accounted_of_run {base : Db} {s : State sql} (h : Run (Policy.calls audited) base s)
    (hb : BetsLinked base) (hd : DistinctAccounts base) (h₀ : Accounted base) :
    Accounted s.world.db := by
  rw [h.obeys.db_eq]
  exact accounted_replay h.chronicle hb hd h₀

instance : DecidablePred audited
  | .applyMutation _ => isFalse id
  | .adjust _ | .placeBet _ | .reconcile _ _ | .openRound _ | .lockIfDeadlinePassed _ => isTrue trivial

theorem accounted_after_funded_run : ∃ s,
    (Policy.calls audited).steps body (initial consoleDb [roundId]) fundedRun = some s ∧
      s.world.db.accounts = [⟨.ofNat 2, .ofNat 1, 250, 2⟩] ∧ Accounted s.world.db := by
  have hrun : ((Policy.calls audited).steps body (initial consoleDb [roundId]) fundedRun).map
      (fun s => s.world.db.accounts) = some [⟨.ofNat 2, .ofNat 1, 250, 2⟩] := by decide
  obtain ⟨s, hs, haccounts⟩ := Option.map_eq_some_iff.mp hrun
  have h₀ : Accounted consoleDb := by
    refine ⟨fun u a ha => ?_, rfl⟩
    have hzero : a.balanceMinor = 0 := by
      have hmem := List.mem_of_find?_eq_some ha
      rw [List.mem_singleton.mp hmem]
    rw [hzero]
    rfl
  exact ⟨s, hs, haccounts, accounted_of_run (.steps known_consoleDb hs) betsLinked_consoleDb
    distinctAccounts_consoleDb h₀⟩

end JitoGame
