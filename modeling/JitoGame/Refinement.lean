import JitoGame.Players
import JitoGame.Traces

namespace JitoGame

open Transactions BetsService

/-! The house as its players see it: no rows, keys or locks of the ledger, one deed after another. -/

structure House where
  players : Uuid → Player
  rounds : List GameRound

inductive Deed
  | place (params : PlaceBetParams) (now : ℕ)
  | adjust (userId : Uuid) (direction : TxnDirection) (amountMinor : ℤ)
  | create (round : GameRound)
  | openRound (roundId : Uuid)
  | lockRound (roundId : Uuid) (now : ℕ)

def Player.adjust (direction : TxnDirection) (amountMinor : ℤ) (pl : Player) : Option Player :=
  pl.balanceMinor.bind fun balanceMinor =>
    let balanceAfterMinor := PointsLedgerService.balanceAfter direction balanceMinor amountMinor
    if 0 < amountMinor ∧ 0 ≤ balanceAfterMinor then
      some { pl with balanceMinor := some balanceAfterMinor }
    else none

namespace House

def seat (h : House) (userId : Uuid) (pl : Player) : House :=
  { h with players := Function.update h.players userId pl }

def act (h : House) : Deed → Option House
  | .place params now =>
    match (h.players params.userId).place h.rounds now params with
    | .ok (_, pl) => some (h.seat params.userId pl)
    | .error _ => none
  | .adjust userId direction amountMinor =>
    ((h.players userId).adjust direction amountMinor).map (h.seat userId)
  | .create round =>
    if h.rounds.all fun r => r.id ≠ round.id ∧ r.displayCode ≠ round.displayCode ∧
      (r.gameId = round.gameId → r.roundNumber ≠ round.roundNumber ∧ r.state.terminal) then
      some { h with rounds := h.rounds ++ [round] }
    else none
  | .openRound roundId =>
    if (h.rounds.find? fun r => r.id = roundId).any (·.openable) then
      some { h with rounds := h.rounds.map (Write.openRound roundId).touch }
    else none
  | .lockRound roundId now =>
    if (h.rounds.find? fun r => r.id = roundId).any (·.closable now) then
      some { h with rounds := h.rounds.map (Write.lockRound roundId now).touch }
    else none

abbrev run (h : House) (deeds : List Deed) : Option House := Traces.run act h deeds

end House

/-! Each commit of the tables is one deed. -/

def houseOf (d : Db) : House := ⟨playerOf d, d.rounds⟩

def Write.deed : Write → Option Deed
  | .insertRound round => some (.create round)
  | .openRound roundId => some (.openRound roundId)
  | .lockRound roundId now => some (.lockRound roundId now)
  | _ => none

def deedsOf (c : Commit sql) : List Deed :=
  match c.call with
  | .applyMutation params => [.adjust params.userId params.direction params.amountMinor]
  | .adjust params => [.adjust params.targetUserId params.dto.direction params.dto.amountMinor]
  | .placeBet params => [.place params c.start]
  | .reconcile .. | .openRound _ | .lockIfDeadlinePassed _ => c.writes.filterMap Write.deed

section Commit

variable {d d' : Db} {c : Commit sql}

theorem playerOf_congr (haccounts : d'.accounts = d.accounts) (hbets : d'.bets = d.bets)
    (hitems : d'.betItems = d.betItems) (htxn : d'.transactions = d.transactions) (u : Uuid) :
    playerOf d' u = playerOf d u := by
  have hslip : slipOf d' = slipOf d := by
    funext b
    rw [slipOf, slipOf, Db.itemsOf, Db.debitOf, hitems, htxn]
    rfl
  rw [playerOf, playerOf, Db.accountOf, haccounts, hbets, hslip]
  rfl

theorem playerOf_posted {t : PointsTransaction} (haccounts : d'.accounts = d.accounts.map (posted t))
    (hbets : d'.bets = d.bets) (hitems : d'.betItems = d.betItems)
    (htxn : d'.transactions = d.transactions ++ [t]) (htype : t.referenceType ≠ .betPlaced) (u : Uuid) :
    playerOf d' u = { playerOf d u with
      balanceMinor := ((d.accountOf u).map (posted t)).map (·.balanceMinor) } := by
  have hslip : slipOf d' = slipOf d := by
    funext b
    have hdebit : d'.debitOf b.id = d.debitOf b.id := by
      rw [Db.debitOf, Db.debitOf, htxn, List.find?_append, List.find?_singleton,
        if_neg (by simp [htype]), Option.or_none]
    rw [slipOf, slipOf, hdebit, Db.itemsOf, hitems]
    rfl
  rw [playerOf, playerOf, accountOf_posted haccounts, hbets, hslip]

theorem houseOf_posted (h : DistinctAccounts d) {params : ApplyLedgerMutationParams} {t : PointsTransaction}
    (hp : Posts params t d) (hrounds : d'.rounds = d.rounds)
    (haccounts : d'.accounts = d.accounts.map (posted t)) (hbets : d'.bets = d.bets)
    (hitems : d'.betItems = d.betItems) (htxn : d'.transactions = d.transactions ++ [t])
    (htype : params.referenceType ≠ .betPlaced) :
    (houseOf d).act (.adjust params.userId params.direction params.amountMinor) = some (houseOf d') := by
  obtain ⟨a, locked, hacc, hval, hrow⟩ := hp.row
  obtain ⟨hdir, hamount, htype', -⟩ := hp.fields
  obtain ⟨-, hnonneg, hpos⟩ := hp.checks
  have hlocked : t.accountId = a.id ∧ t.balanceAfterMinor =
      PointsLedgerService.balanceAfter params.direction a.balanceMinor params.amountMinor := by
    simp only [PointsLedgerService.validateAccount] at hval
    split at hval
    · cases hval
    · cases hval
      rw [hrow]
      exact ⟨rfl, rfl⟩
  have hadjust : (playerOf d params.userId).adjust params.direction params.amountMinor =
      some { playerOf d params.userId with balanceMinor := some t.balanceAfterMinor } := by
    have hbalance : (playerOf d params.userId).balanceMinor = some a.balanceMinor := by
      rw [playerOf, hacc]
      rfl
    rw [hamount] at hpos
    rw [hlocked.2] at hnonneg ⊢
    rw [Player.adjust, hbalance]
    exact if_pos ⟨hpos, hnonneg⟩
  have hplayers (u : Uuid) := playerOf_posted haccounts hbets hitems htxn (htype' ▸ htype) u
  change ((playerOf d params.userId).adjust _ _).map ((houseOf d).seat params.userId) = _
  rw [hadjust, Option.map_some, House.seat, houseOf, houseOf, hrounds]
  congr 2
  funext u
  by_cases hu : u = params.userId
  · subst hu
    rw [Function.update_self, hplayers, hacc]
    simp [posted, hlocked.1, PointsAccount.set]
  · rw [Function.update_of_ne hu, hplayers, hp.balance_other h hu]
    rfl

theorem houseOf_rounds (rounds : List GameRound) (haccounts : d'.accounts = d.accounts)
    (hbets : d'.bets = d.bets) (hitems : d'.betItems = d.betItems)
    (htxn : d'.transactions = d.transactions) (hrounds : d'.rounds = rounds) :
    houseOf d' = { houseOf d with rounds } := by
  rw [houseOf, hrounds, funext (playerOf_congr haccounts hbets hitems htxn)]
  rfl

theorem Opens.refines {roundId : Uuid} (h : Opens roundId c d) :
    (houseOf d).run (c.writes.filterMap Write.deed) = some (houseOf (applyAll c.writes d)) := by
  rcases h with hw | ⟨hw, r, hr, hopen⟩
  · rw [hw]
    rfl
  · have hany : (d.rounds.find? fun r => r.id = roundId).any (·.openable) = true := by
      change (d.roundOf roundId).any _ = true
      rw [hr]
      exact hopen
    have hhouse : houseOf (applyAll c.writes d) = { houseOf d with
        rounds := d.rounds.map (Write.openRound roundId).touch } := by
      rw [hw]
      exact houseOf_rounds _ rfl rfl rfl rfl rfl
    rw [hhouse, hw]
    exact Traces.run_cons.mpr ⟨_, if_pos hany, rfl⟩

theorem Locks.refines {roundId : Uuid} (h : Locks roundId c d) :
    (houseOf d).run (c.writes.filterMap Write.deed) = some (houseOf (applyAll c.writes d)) := by
  rcases h with hw | ⟨hw, r, hr, hclose⟩
  · rw [hw]
    rfl
  · have hany : (d.rounds.find? fun r => r.id = roundId).any (·.closable c.start) = true := by
      change (d.roundOf roundId).any _ = true
      rw [hr]
      exact hclose
    have hhouse : houseOf (applyAll c.writes d) = { houseOf d with
        rounds := d.rounds.map (Write.lockRound roundId c.start).touch } := by
      rw [hw]
      exact houseOf_rounds _ rfl rfl rfl rfl rfl
    rw [hhouse, hw]
    exact Traces.run_cons.mpr ⟨_, if_pos hany, rfl⟩

theorem Creates.refines {windowMs : ℕ} {gameId : GameId} {row : GameRound}
    (h : Creates windowMs gameId row d) (hw : c.writes = [.insertRound row]) :
    (houseOf d).run (c.writes.filterMap Write.deed) = some (houseOf (applyAll c.writes d)) := by
  have hgame : row.gameId = gameId := by rw [h.eq_row]; rfl
  have hfree : (d.rounds.all fun r => r.id ≠ row.id ∧ r.displayCode ≠ row.displayCode ∧
      (r.gameId = row.gameId → r.roundNumber ≠ row.roundNumber ∧ r.state.terminal)) = true := by
    rw [List.all_eq_true]
    intro r hr
    refine decide_eq_true ⟨fun hid => h.fresh (hid ▸ .round hr), fun hcode => h.code ⟨r, hr, hcode⟩,
      fun hg => ⟨fun hn => h.number ⟨r, hr, hg.trans hgame, hn⟩, ?_⟩⟩
    by_contra hlive
    exact h.live ⟨r, hr, hg.trans hgame, by simpa using hlive⟩
  have hhouse : houseOf (applyAll c.writes d) = { houseOf d with rounds := d.rounds ++ [row] } := by
    rw [hw]
    exact houseOf_rounds _ rfl rfl rfl rfl rfl
  rw [hhouse, hw]
  exact Traces.run_cons.mpr ⟨_, if_pos hfree, rfl⟩

theorem Places.refines {params : PlaceBetParams} {p : Placement} {b : Bet} {t : PointsTransaction}
    (h : Places params p b t c.start c.trace d) (hw : c.writes = placed p b t) (hb : BetsLinked d)
    (hd : DistinctAccounts d) :
    (houseOf d).act (.place params c.start) = some (houseOf (applyAll c.writes d)) := by
  have hplace := h.place (hb.undebited h.fresh)
  change (match (playerOf d params.userId).place d.rounds c.start params with
    | .ok (_, pl) => some ((houseOf d).seat params.userId pl)
    | .error _ => none) = _
  rw [hplace, hw]
  change some ((houseOf d).seat params.userId _) = _
  rw [House.seat, houseOf, houseOf]
  congr 2
  funext u
  by_cases hu : u = params.userId
  · rw [hu, Function.update_self]
  · rw [Function.update_of_ne hu, playerOf_other hd h hu]

theorem Meets.refines (h : Meets noBetReference c d) (hb : BetsLinked d) (hd : DistinctAccounts d) :
    (houseOf d).run (deedsOf c) = some (houseOf (applyAll c.writes d)) := by
  obtain ⟨hspawn, hmeets⟩ := h
  rw [deedsOf]
  cases hc : c.call with
  | applyMutation params =>
    rw [hc] at hspawn hmeets
    obtain ⟨t, hw, hp⟩ := hmeets
    have hact : (houseOf d).act (.adjust params.userId params.direction params.amountMinor) =
        some (houseOf (applyAll c.writes d)) := by
      rw [hw]
      exact houseOf_posted hd hp rfl rfl rfl rfl rfl hspawn
    exact Traces.run_cons.mpr ⟨_, hact, rfl⟩
  | adjust params =>
    rw [hc] at hmeets
    obtain ⟨key, l, t, hw, hadj⟩ := hmeets
    have htype : (AdminPointsService.mutation key l.id params).referenceType ≠ .betPlaced := by
      simp only [AdminPointsService.mutation, AdminPointsService.referenceType]
      split <;> decide
    have hact : (houseOf d).act (.adjust params.targetUserId params.dto.direction
        params.dto.amountMinor) = some (houseOf (applyAll c.writes d)) := by
      rw [hw]
      exact houseOf_posted hd hadj.entry rfl rfl rfl rfl rfl htype
    exact Traces.run_cons.mpr ⟨_, hact, rfl⟩
  | placeBet params =>
    rw [hc] at hmeets
    obtain ⟨p, b, t, hw, hp⟩ := hmeets
    exact Traces.run_cons.mpr ⟨_, hp.refines hw hb hd, rfl⟩
  | reconcile windowMs gameId =>
    rw [hc] at hmeets
    rcases hmeets with ⟨row, hw, hcreate⟩ | ⟨roundId, hopen | hlock⟩
    · exact hcreate.refines hw
    · exact hopen.refines
    · exact hlock.refines
  | openRound roundId =>
    rw [hc] at hmeets
    exact Opens.refines hmeets
  | lockIfDeadlinePassed roundId =>
    rw [hc] at hmeets
    exact Locks.refines hmeets

end Commit

theorem house_of_chronicle {base : Db} {log : List (Commit sql)}
    (h : Chronicle (Meets noBetReference) base log) (hb : BetsLinked base) (hd : DistinctAccounts base) :
    (houseOf base).run (log.reverse.flatMap deedsOf) = some (houseOf (replay base log)) := by
  induction log with
  | nil => rfl
  | cons c log ih =>
    have hgrows : Grows base (replay base log) := grows_replay (List.nil_suffix (l := log))
    have hstep := h.1.refines (betsLinked_replay h.2 hb) (hgrows.distinctAccounts hd)
    rw [List.reverse_cons, List.flatMap_append, List.flatMap_singleton]
    exact Traces.run_append.mpr ⟨_, ih h.2, hstep⟩

/-- The commits of the tables, in their order, are deeds that the house allows one after another. -/
theorem house_of_run {base : Db} {s : State sql} (h : Run (Policy.calls noBetReference) base s)
    (hb : BetsLinked base) (hd : DistinctAccounts base) :
    (houseOf base).run (s.world.log.reverse.flatMap deedsOf) = some (houseOf s.world.db) := by
  rw [h.obeys.db_eq]
  exact house_of_chronicle h.chronicle hb hd


def consoleDb : Db :=
  { bettingDb with accounts := [⟨.ofNat 2, .ofNat 1, 0, 0⟩], adminUsers := [.ofNat 50] }

def fundParams : AdjustPointsParams :=
  ⟨.ofNat 50, .ofNat 1, ⟨.credit, 800, "welcome"⟩, some "a", "10.0.0.1"⟩

def fundedRun : List (Label sql) :=
  [.spawn 0 (.adjust fundParams), .run 0, .run 0, .run 0, .mint 0 (.ofNat 60), .run 0, .run 0,
    .mint 0 (.ofNat 61), .input 0 7, .run 0, .run 0, .run 0] ++ placementRun 1 20 21

theorem known_consoleDb : ∀ x, consoleDb.Known x → x ∈ [roundId] := by
  intro x hx
  cases hx with
  | round h => simp_all [consoleDb, bettingDb]
  | _ h => simp [consoleDb, bettingDb] at h

theorem betsLinked_consoleDb : BetsLinked consoleDb := by
  constructor <;> simp [consoleDb, bettingDb]

theorem distinctAccounts_consoleDb : DistinctAccounts consoleDb := by
  unfold DistinctAccounts
  decide

theorem house_of_funded_run : ∃ s,
    (Policy.calls noBetReference).steps body (initial consoleDb [roundId]) fundedRun = some s ∧
      s.world.log.length = 2 ∧
      (houseOf consoleDb).run (s.world.log.reverse.flatMap deedsOf) = some (houseOf s.world.db) := by
  have hrun : ((Policy.calls noBetReference).steps body (initial consoleDb [roundId]) fundedRun).map
      (fun s => s.world.log.length) = some 2 := by decide
  obtain ⟨s, hs, hlen⟩ := Option.map_eq_some_iff.mp hrun
  exact ⟨s, hs, hlen, house_of_run (.steps known_consoleDb hs) betsLinked_consoleDb
    distinctAccounts_consoleDb⟩

end JitoGame
