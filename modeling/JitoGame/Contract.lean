import JitoGame.Discipline
import JitoGame.System
import JitoGame.Transactions.Soundness

namespace JitoGame

open Transactions

/-! What a commit of each call does to the content it finds. -/

def post (t : PointsTransaction) : List Write :=
  [.insertTransaction t, .updateAccount t.accountId t.balanceAfterMinor]

structure Posts (params : ApplyLedgerMutationParams) (t : PointsTransaction) (d : Db) : Prop where
  row : ∃ a locked, d.accountOf params.userId = some a ∧
    PointsLedgerService.validateAccount params.userId params.direction params.amountMinor
      params.allowOverdraw (some a) = .ok locked ∧
    t = PointsLedgerService.transactionRow locked ⟨params.referenceType, params.referenceId,
      params.idempotencyKey, params.description⟩ t.id t.createdAt
  fits : t.fits = true
  fresh : ¬ d.Known t.id
  unused : d.transactionOf t.idempotencyKey = none

namespace AdminPointsService

def mutation (idempotencyKey : String) (auditLogId : Uuid) (params : AdjustPointsParams) :
    ApplyLedgerMutationParams :=
  ⟨params.targetUserId, params.dto.direction, params.dto.amountMinor,
    referenceType params.dto.direction, some auditLogId, idempotencyKey, some params.dto.reason, false⟩

end AdminPointsService

structure Adjusts (params : AdjustPointsParams) (key : String) (l : AdminLog) (t : PointsTransaction)
    (d : Db) : Prop where
  valid : AdminPointsService.requireKey params.idempotencyKey = .ok key
  log : l = AdminPointsService.logRow l.id params
  fits : l.fits = true
  admin : params.adminId ∈ d.adminUsers
  fresh : ¬ d.Known l.id
  entry : Posts (AdminPointsService.mutation key l.id params) t d

namespace BetsService

def mutation (betId : Uuid) (params : PlaceBetParams) (p : Placement) : ApplyLedgerMutationParams :=
  ⟨params.userId, .debit, p.totalAmountMinor, .betPlaced, some betId, ledgerIdempotencyKey betId,
    some (description params.dto.roundId), false⟩

end BetsService

structure Checked (roundId : Uuid) (start : ℕ) (m : Mark sql) : Prop where
  tag : m.tag = .lockRound
  lock : m.lock = some (.round roundId)
  now : m.now = start
  deadline : ∃ r, m.db.roundOf roundId = some r ∧ start < r.bettingDeadline

structure Places (params : PlaceBetParams) (p : Placement) (b : Bet) (t : PointsTransaction)
    (start : ℕ) (trace : List (Mark sql)) (d : Db) : Prop where
  valid : BetsService.validate params = .ok p
  roundId : Uuid.parse params.dto.roundId = some b.roundId
  bet : b = BetsService.betRow b.id params.userId b.roundId p b.acceptedAt
  fits : b.fits = true
  itemsFit : (BetsService.itemRows b.id p).all BetItem.fits = true
  round : ∃ r, d.roundOf b.roundId = some r ∧ r.gameId = params.dto.gameId ∧
    r.state.lockable = true ∧ start < r.bettingDeadline
  checked : ∃ m ∈ trace, Checked b.roundId start m
  fresh : ¬ d.Known b.id
  unused : d.betOf params.userId p.idempotencyKey = none
  entry : Posts (BetsService.mutation b.id params p) t d

def placed (p : Placement) (b : Bet) (t : PointsTransaction) : List Write :=
  .insertBet b :: .insertBetItems (BetsService.itemRows b.id p) :: post t

def Updates {C R : Type} (roundId : Uuid) (guard : ℕ → GameRound → Bool) (w : ℕ → Write)
    (c : Commit (schema C R)) (d : Db) : Prop :=
  c.writes = [] ∨ c.writes = [w c.start] ∧ ∃ r, d.roundOf roundId = some r ∧ guard c.start r = true

def Opens {C R : Type} (roundId : Uuid) : Commit (schema C R) → Db → Prop :=
  Updates roundId (fun _ r => r.openable) fun _ => .openRound roundId

def Locks {C R : Type} (roundId : Uuid) : Commit (schema C R) → Db → Prop :=
  Updates roundId (fun now r => r.closable now) fun now => .lockRound roundId now

structure Creates (windowMs : ℕ) (gameId : GameId) (row : GameRound) (d : Db) : Prop where
  eq_row : row = RoundsService.roundRow row.id gameId row.roundNumber row.opensAt windowMs
  fits : row.fits = true
  fresh : ¬ d.Known row.id
  code : ¬ d.HasCode row.displayCode
  number : ¬ d.HasNumber gameId row.roundNumber
  live : ¬ d.HasLive gameId

def Meets (allowed : Call → Prop) (c : Commit sql) (d : Db) : Prop :=
  allowed c.call ∧ match c.call with
    | .applyMutation params => ∃ t, c.writes = post t ∧ Posts params t d
    | .adjust params => ∃ key l t, c.writes = .insertAdminLog l :: post t ∧ Adjusts params key l t d
    | .placeBet params => ∃ p b t, c.writes = placed p b t ∧ Places params p b t c.start c.trace d
    | .reconcile windowMs gameId => (∃ row, c.writes = [.insertRound row] ∧
        Creates windowMs gameId row d) ∨ ∃ roundId, Opens roundId c d ∨ Locks roundId c d
    | .openRound roundId => Opens roundId c d
    | .lockIfDeadlinePassed roundId => Locks roundId c d

inductive Effect (c : Commit sql) (d : Db) : Prop
  | mutation {params : ApplyLedgerMutationParams} {t : PointsTransaction}
      (hc : c.call = .applyMutation params) (hw : c.writes = post t) (h : Posts params t d)
  | adjustment {params : AdjustPointsParams} {key : String} {l : AdminLog} {t : PointsTransaction}
      (hc : c.call = .adjust params) (hw : c.writes = .insertAdminLog l :: post t)
      (h : Adjusts params key l t d)
  | placement {params : PlaceBetParams} {p : Placement} {b : Bet} {t : PointsTransaction}
      (hc : c.call = .placeBet params) (hw : c.writes = placed p b t)
      (h : Places params p b t c.start c.trace d)
  | creation {windowMs : ℕ} {gameId : GameId} {row : GameRound}
      (hw : c.writes = [.insertRound row]) (h : Creates windowMs gameId row d)
  | opening {roundId : Uuid} {r : GameRound} (hw : c.writes = [.openRound roundId])
      (hr : d.roundOf roundId = some r) (h : r.openable = true)
  | locking {roundId : Uuid} {r : GameRound} (hw : c.writes = [.lockRound roundId c.start])
      (hr : d.roundOf roundId = some r) (h : r.closable c.start = true)
  | idle (hw : c.writes = [])

theorem Opens.effect {roundId : Uuid} {c : Commit sql} {d : Db} (h : Opens roundId c d) :
    Effect c d := by
  rcases h with hw | ⟨hw, r, hr, h⟩
  · exact .idle hw
  · exact .opening hw hr h

theorem Locks.effect {roundId : Uuid} {c : Commit sql} {d : Db} (h : Locks roundId c d) :
    Effect c d := by
  rcases h with hw | ⟨hw, r, hr, h⟩
  · exact .idle hw
  · exact .locking hw hr h

theorem Meets.effect {allowed : Call → Prop} {c : Commit sql} {d : Db} (h : Meets allowed c d) :
    Effect c d := by
  obtain ⟨-, h⟩ := h
  cases hc : c.call with
  | applyMutation params =>
    rw [hc] at h
    obtain ⟨t, hw, h⟩ := h
    exact .mutation hc hw h
  | adjust params =>
    rw [hc] at h
    obtain ⟨key, l, t, hw, h⟩ := h
    exact .adjustment hc hw h
  | placeBet params =>
    rw [hc] at h
    obtain ⟨p, b, t, hw, h⟩ := h
    exact .placement hc hw h
  | reconcile windowMs gameId =>
    rw [hc] at h
    rcases h with ⟨row, hw, h⟩ | ⟨roundId, h | h⟩
    · exact .creation hw h
    · exact h.effect
    · exact h.effect
  | openRound roundId =>
    rw [hc] at h
    exact Opens.effect h
  | lockIfDeadlinePassed roundId =>
    rw [hc] at h
    exact Locks.effect h

/-! What a call returns. -/

inductive PlacementFailure (params : PlaceBetParams) (s : Local sql) (d : Db) : Err → Prop
  | fault {e : Err} (h : s.faulted = true) : PlacementFailure params s d e
  | invalid {e : Err} (h : BetsService.validate params = .error e) : PlacementFailure params s d e
  | reused {p : Placement} {b : Bet} (h : BetsService.validate params = .ok p)
      (hb : d.betOf params.userId p.idempotencyKey = some b)
      (hm : BetsService.matchesReplay b (d.itemsOf b.id) params.dto.roundId p = false) :
      PlacementFailure params s d .betIdempotencyKeyReused
  | absent {p : Placement} {e : Err} (h : BetsService.validate params = .ok p)
      (hb : d.betOf params.userId p.idempotencyKey = none) : PlacementFailure params s d e
  | roundId {e : Err} (h : Uuid.parse params.dto.roundId = none) : PlacementFailure params s d e
  | round {roundId : Uuid} {m : Mark sql} {e : Err}
      (hr : Uuid.parse params.dto.roundId = some roundId) (hm : m ∈ s.trace)
      (ht : m.tag = .lockRound) (hb : (m.db.roundOf roundId).isSome = true →
        d.bets.filter (fun b => b.roundId = roundId) = m.db.bets.filter fun b => b.roundId = roundId)
      (he : BetsService.validateRound params.dto.gameId (BetsService.lockRow m.db roundId m.now) =
        .error e) : PlacementFailure params s d e
  | account {roundId : Uuid} {p : Placement} {m : Mark sql} {e : Err}
      (hr : Uuid.parse params.dto.roundId = some roundId) (h : BetsService.validate params = .ok p)
      (hm : m ∈ s.trace) (ht : m.tag = .lockAccount)
      (hb : d.bets.filter (fun b => b.roundId = roundId) =
        m.db.bets.filter fun b => b.roundId = roundId)
      (he : PointsLedgerService.validateAccount params.userId .debit p.totalAmountMinor false
        (m.db.accountOf params.userId) = .error e) : PlacementFailure params s d e
  | amount {p : Placement} {e : Err} (h : BetsService.validate params = .ok p)
      (ht : p.totalAmountMinor ≤ 0) : PlacementFailure params s d e
  | row {p : Placement} {e : Err} (h : BetsService.validate params = .ok p)
      (hr : ∀ betId roundId acceptedAt,
        (BetsService.betRow betId params.userId roundId p acceptedAt).fits = false) :
      PlacementFailure params s d e

inductive MutationFailure (params : ApplyLedgerMutationParams) (s : Local sql) (d : Db) : Err → Prop
  | fault {e : Err} (h : s.faulted = true) : MutationFailure params s d e
  | amount {e : Err} (h : params.amountMinor ≤ 0) : MutationFailure params s d e
  | reused {t : PointsTransaction} {u : Uuid} {e : Err}
      (ht : (d.transactionOf params.idempotencyKey).bind (PointsLedgerService.withUser d) = some (t, u))
      (he : PointsLedgerService.assertReplayMatches (t, u) params = .error e) :
      MutationFailure params s d e
  | absent {e : Err}
      (h : (d.transactionOf params.idempotencyKey).bind (PointsLedgerService.withUser d) = none) :
      MutationFailure params s d e
  | account {m : Mark sql} {e : Err} (hm : m ∈ s.trace) (ht : m.tag = .lockAccount)
      (hb : ∀ a, m.db.accountOf params.userId = some a → d.rowsOf a.id = m.db.rowsOf a.id)
      (he : PointsLedgerService.validateAccount params.userId params.direction params.amountMinor
        params.allowOverdraw (m.db.accountOf params.userId) = .error e) : MutationFailure params s d e
  | row {m : Mark sql} {a : PointsAccount} {locked : LockedAccountMutation} {e : Err}
      (hm : m ∈ s.trace) (ht : m.tag = .lockAccount)
      (ha : m.db.accountOf params.userId = some a) (hb : d.rowsOf a.id = m.db.rowsOf a.id)
      (hl : PointsLedgerService.validateAccount params.userId params.direction params.amountMinor
        params.allowOverdraw (some a) = .ok locked)
      (hf : ∀ id createdAt, (PointsLedgerService.transactionRow locked ⟨params.referenceType,
        params.referenceId, params.idempotencyKey, params.description⟩ id createdAt).fits = false) :
      MutationFailure params s d e

def Explains (s : Local sql) (d : Db) : Call → Err → Prop
  | .applyMutation params, e => MutationFailure params s d e
  | .placeBet params, e => PlacementFailure params s d e
  | _, _ => True

inductive Done (base : Db) (i : ℕ) (s : Local sql) (w : World sql) : Call → Except Err Res → Prop
  | failed {call : Call} {e : Err} (h : own i w.log = []) (he : Explains s w.db call e) :
      Done base i s w call (.error e)
  | mutated {params : ApplyLedgerMutationParams} {c : Commit sql} {t : PointsTransaction}
      (h : own i w.log = [c]) (hc : c.writes = post t) :
      Done base i s w (.applyMutation params) (.ok (.mutation (PointsLedgerService.toResult t false)))
  | mutationReplayed {params : ApplyLedgerMutationParams} {t : PointsTransaction} {u : Uuid}
      (h : own i w.log = [])
      (ht : (w.db.transactionOf params.idempotencyKey).bind (PointsLedgerService.withUser w.db) =
        some (t, u))
      (hm : PointsLedgerService.assertReplayMatches (t, u) params = .ok ()) :
      Done base i s w (.applyMutation params) (.ok (.mutation (PointsLedgerService.toResult t true)))
  | adjusted {params : AdjustPointsParams} {c : Commit sql} {l : AdminLog} {t : PointsTransaction}
      (h : own i w.log = [c]) (hc : c.writes = .insertAdminLog l :: post t) :
      Done base i s w (.adjust params) (.ok (.adjustment (AdminPointsService.adjustedResult l.id
        (PointsLedgerService.toResult t false))))
  | adjustmentReplayed {params : AdjustPointsParams} {key : String} {t : PointsTransaction}
      (h : own i w.log = []) (hk : AdminPointsService.requireKey params.idempotencyKey = .ok key)
      (ht : w.db.transactionOf key = some t) :
      Done base i s w (.adjust params) (.ok (.adjustment (AdminPointsService.replayResult t)))
  | placed {params : PlaceBetParams} {p : Placement} {c : Commit sql} {b : Bet}
      {t : PointsTransaction} (h : own i w.log = [c]) (hp : BetsService.validate params = .ok p)
      (hc : c.writes = placed p b t) :
      Done base i s w (.placeBet params) (.ok (.bet (BetsService.placedResult b params.dto.roundId
        (PointsLedgerService.toResult t false))))
  | betReplayed {params : PlaceBetParams} {p : Placement} {b : Bet} (h : own i w.log = [])
      (hp : BetsService.validate params = .ok p)
      (hb : w.db.betOf params.userId p.idempotencyKey = some b) {log : List (Commit sql)}
      (hl : log <:+ w.log) (hb' : (replay base log).betOf params.userId p.idempotencyKey = some b)
      (hm : BetsService.matchesReplay b ((replay base log).itemsOf b.id) params.dto.roundId p = true) :
      Done base i s w (.placeBet params) (.ok (.bet (BetsService.replayResult b (w.db.debitOf b.id))))
  | reconciled {windowMs : ℕ} {gameId : GameId} (h : (own i w.log).length ≤ 1) :
      Done base i s w (.reconcile windowMs gameId) (.ok .reconciled)
  | opened {roundId : Uuid} {c : Commit sql} {hit : Bool} (h : own i w.log = [c])
      (hc : hit = true ↔ c.writes ≠ []) : Done base i s w (.openRound roundId) (.ok (.changed hit))
  | locked {roundId : Uuid} {c : Commit sql} {hit : Bool} (h : own i w.log = [c])
      (hc : hit = true ↔ c.writes ≠ []) :
      Done base i s w (.lockIfDeadlinePassed roundId) (.ok (.changed hit))

theorem Done.own_of_error {base : Db} {i : ℕ} {s : Local sql} {w : World sql} {call : Call} {e : Err}
    (h : Done base i s w call (.error e)) : own i w.log = [] := by
  cases h with
  | failed hown _ => exact hown

def done (base : Db) : Outcome sql := fun i call r s w => Done base i s w call r

def protocol (base : Db) (allowed : Call → Prop) : Protocol sql := discipline base (Meets allowed)

end JitoGame
