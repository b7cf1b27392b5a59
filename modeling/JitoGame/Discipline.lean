import JitoGame.Schema
import JitoGame.Transactions.Protocol

namespace JitoGame

open Transactions

variable {C R : Type}

namespace Db

/-- The ids that occur in the tables. A reference of a ledger row is chosen by the caller of the
ledger and does not count. -/
inductive Known (d : Db) : Uuid → Prop
  | bet {b : Bet} (h : b ∈ d.bets) : Known d b.id
  | item {i : BetItem} (h : i ∈ d.betItems) : Known d i.betId
  | transaction {t : PointsTransaction} (h : t ∈ d.transactions) : Known d t.id
  | adminLog {l : AdminLog} (h : l ∈ d.adminLogs) : Known d l.id
  | round {r : GameRound} (h : r ∈ d.rounds) : Known d r.id

def HasNumber (d : Db) (gameId : GameId) (n : ℤ) : Prop :=
  ∃ r ∈ d.rounds, r.gameId = gameId ∧ r.roundNumber = n

def HasCode (d : Db) (code : String) : Prop := ∃ r ∈ d.rounds, r.displayCode = code

def HasLive (d : Db) (gameId : GameId) : Prop :=
  ∃ r ∈ d.rounds, r.gameId = gameId ∧ r.state.terminal = false

end Db

structure GameRound.Same (r r' : GameRound) : Prop where
  id : r'.id = r.id
  gameId : r'.gameId = r.gameId
  roundNumber : r'.roundNumber = r.roundNumber
  displayCode : r'.displayCode = r.displayCode
  bettingDeadline : r'.bettingDeadline = r.bettingDeadline

structure Grows (d d' : Db) : Prop where
  users : d'.users = d.users
  adminUsers : d'.adminUsers = d.adminUsers
  accounts : d'.accounts.map (fun a => (a.id, a.userId)) = d.accounts.map fun a => (a.id, a.userId)
  transactions : d.transactions <+: d'.transactions
  bets : d.bets <+: d'.bets
  betItems : d.betItems <+: d'.betItems
  adminLogs : d.adminLogs <+: d'.adminLogs
  rounds : ∀ id r, d.roundOf id = some r → ∃ r', d'.roundOf id = some r' ∧ r.Same r'

def footprint : Write → List (Resource (schema C R))
  | .insertTransaction t =>
    [.row (.ledgerKey t.idempotencyKey), .row (.account t.accountId), .id t.id]
  | .updateAccount id _ => [.row (.account id)]
  | .insertBet b => [.row (.betKey b.userId b.idempotencyKey), .row (.round b.roundId), .id b.id]
  | .insertBetItems rows => rows.map fun i => .id i.betId
  | .insertAdminLog l => [.id l.id]
  | .insertRound r => [.row (.displayCode r.displayCode), .row (.roundNumber r.gameId r.roundNumber),
      .row (.liveRound r.gameId), .id r.id]
  | .openRound id => [.row (.round id)]
  | .lockRound id _ => [.row (.round id)]
  | .finishRound id _ => [.row (.round id)]

def Agree (r : Resource (schema C R)) (d d' : Db) : Prop :=
  match r with
  | .row (.account id) => d'.rowsOf id = d.rowsOf id ∧
      ∀ u a, d.accountOf u = some a → a.id = id → d'.accountOf u = some a
  | .row (.round id) => (∀ r, d.roundOf id = some r → d'.roundOf id = some r) ∧
      d'.bets.filter (fun b => b.roundId = id) = d.bets.filter fun b => b.roundId = id
  | .row (.ledgerKey key) => d'.transactionOf key = d.transactionOf key
  | .row (.betKey userId key) => d'.betOf userId key = d.betOf userId key
  | .row (.roundNumber gameId n) => d'.HasNumber gameId n → d.HasNumber gameId n
  | .row (.displayCode code) => d'.HasCode code → d.HasCode code
  | .row (.liveRound gameId) => d'.HasLive gameId → d.HasLive gameId
  | .id x => d'.Known x → d.Known x

/-! One write. -/

section Apply

variable (d : Db)

theorem accountOf_updateAccount (id : Uuid) (bal : ℤ) (u : Uuid) :
    (Write.apply (.updateAccount id bal) d).accountOf u =
      (d.accountOf u).map fun a => if a.id = id then a.set bal else a := by
  simp only [Write.apply, Db.accountOf, List.find?_map]
  congr 2
  funext a
  simp only [Function.comp]
  split <;> rfl

def Write.touch : Write → GameRound → GameRound
  | .openRound i => fun r => if r.id = i ∧ r.openable then r.opened else r
  | .lockRound i now => fun r => if r.id = i ∧ r.closable now then r.locked now else r
  | .finishRound i state => fun r => if r.id = i ∧ r.finishable state then r.finished state else r
  | _ => id

theorem Write.same_touch (x : Write) (r : GameRound) : r.Same (x.touch r) := by
  cases x with
  | openRound i => simp only [Write.touch]; split <;> exact ⟨rfl, rfl, rfl, rfl, rfl⟩
  | lockRound i now => simp only [Write.touch]; split <;> exact ⟨rfl, rfl, rfl, rfl, rfl⟩
  | finishRound i state => simp only [Write.touch]; split <;> exact ⟨rfl, rfl, rfl, rfl, rfl⟩
  | _ => exact ⟨rfl, rfl, rfl, rfl, rfl⟩

theorem GameRound.openable_live {r : GameRound} (h : r.openable = true) :
    r.state.terminal = false := by
  have hs : r.state = .created := by simpa [GameRound.openable] using h
  rw [hs]; rfl

theorem GameRound.closable_live {r : GameRound} {now : ℕ} (h : r.closable now = true) :
    r.state.terminal = false := by
  have hs : (r.state = .bettingOpen ∨ r.state = .bettingActive) ∧ r.bettingDeadline ≤ now := by
    simpa [GameRound.closable, RoundState.lockable] using h
  rcases hs.1 with hs | hs <;> rw [hs] <;> rfl

theorem GameRound.finishable_live {r : GameRound} {state : RoundState}
    (h : r.finishable state = true) : r.state.terminal = false := by
  have hs : r.state = .bettingLocked ∧ state.terminal = true := by simpa [GameRound.finishable] using h
  rw [hs.1]; rfl

theorem Write.live_touch {x : Write} {r : GameRound} (h : (x.touch r).state.terminal = false) :
    r.state.terminal = false := by
  cases x with
  | openRound i =>
    by_cases hr : r.id = i ∧ r.openable
    · exact GameRound.openable_live hr.2
    · simpa [Write.touch, hr] using h
  | lockRound i now =>
    by_cases hr : r.id = i ∧ r.closable now
    · exact GameRound.closable_live hr.2
    · simpa [Write.touch, hr] using h
  | finishRound i state =>
    by_cases hr : r.id = i ∧ r.finishable state
    · exact GameRound.finishable_live hr.2
    · simpa [Write.touch, hr] using h
  | _ => exact h

def Write.newRounds : Write → List GameRound
  | .insertRound r => [r]
  | _ => []

theorem rounds_apply (x : Write) : (x.apply d).rounds = d.rounds.map x.touch ++ x.newRounds := by
  cases x <;> simp [Write.apply, Write.newRounds, Write.touch]

theorem roundOf_apply (x : Write) (id : Uuid) : (x.apply d).roundOf id =
    ((d.roundOf id).map x.touch).or (x.newRounds.find? fun r => r.id = id) := by
  simp only [Db.roundOf, rounds_apply, List.find?_append, List.find?_map]
  congr 2
  congr 1
  funext r
  simp [Function.comp, (x.same_touch r).id]

def Write.newTransactions : Write → List PointsTransaction
  | .insertTransaction t => [t]
  | _ => []

def Write.newBets : Write → List Bet
  | .insertBet b => [b]
  | _ => []

def Write.newItems : Write → List BetItem
  | .insertBetItems rows => rows
  | _ => []

def Write.newLogs : Write → List AdminLog
  | .insertAdminLog l => [l]
  | _ => []

theorem transactions_apply (x : Write) :
    (x.apply d).transactions = d.transactions ++ x.newTransactions := by
  cases x <;> simp [Write.apply, Write.newTransactions]

theorem bets_apply (x : Write) : (x.apply d).bets = d.bets ++ x.newBets := by
  cases x <;> simp [Write.apply, Write.newBets]

theorem betItems_apply (x : Write) : (x.apply d).betItems = d.betItems ++ x.newItems := by
  cases x <;> simp [Write.apply, Write.newItems]

theorem adminLogs_apply (x : Write) : (x.apply d).adminLogs = d.adminLogs ++ x.newLogs := by
  cases x <;> simp [Write.apply, Write.newLogs]

theorem accounts_apply (x : Write) : (x.apply d).accounts.map (fun a => (a.id, a.userId)) =
    d.accounts.map fun a => (a.id, a.userId) := by
  cases x with
  | updateAccount i bal =>
    simp only [Write.apply, List.map_map]
    congr 1
    funext a
    simp only [Function.comp]
    split <;> rfl
  | _ => rfl

theorem mem_rounds_apply {x : Write} {r : GameRound} (h : r ∈ (x.apply d).rounds) :
    (∃ r₀ ∈ d.rounds, x.touch r₀ = r) ∨ r ∈ x.newRounds := by
  rw [rounds_apply, List.mem_append, List.mem_map] at h
  exact h

end Apply

section Laws

variable {r : Resource (schema C R)} {x : Write} {d d₁ d₂ d₃ : Db}

theorem Agree.refl (r : Resource (schema C R)) (d : Db) : Agree r d d := by
  cases r with
  | id y => exact fun h => h
  | row l =>
    cases l with
    | account i => exact ⟨rfl, fun _ _ ha _ => ha⟩
    | _ => simp [Agree]

theorem Agree.trans (h : Agree r d₁ d₂) (h' : Agree r d₂ d₃) : Agree r d₁ d₃ := by
  cases r with
  | id y => exact fun hy => h (h' hy)
  | row l =>
    cases l with
    | account i => exact ⟨h'.1.trans h.1, fun u a ha hi => h'.2 u a (h.2 u a ha hi) hi⟩
    | round i => exact ⟨fun r hr => h'.1 r (h.1 r hr), h'.2.trans h.2⟩
    | ledgerKey key => exact h'.trans h
    | betKey u key => exact h'.trans h
    | roundNumber g n => exact fun hy => h (h' hy)
    | displayCode code => exact fun hy => h (h' hy)
    | liveRound g => exact fun hy => h (h' hy)

theorem frame_account {i : Uuid} (h : .row (.account i) ∉ footprint (C := C) (R := R) x) :
    Agree (.row (.account i) : Resource (schema C R)) d (x.apply d) := by
  constructor
  · have hn : x.newTransactions.filter (fun t => t.accountId = i) = [] := by
      cases x with
      | insertTransaction t =>
        have ht : t.accountId ≠ i := by rintro rfl; simp [footprint] at h
        simp [Write.newTransactions, ht]
      | _ => rfl
    simp only [Db.rowsOf, transactions_apply, List.filter_append, hn, List.append_nil]
  · intro u a ha hi
    cases x with
    | updateAccount j bal =>
      have hj : a.id ≠ j := by rintro rfl; simp [footprint, hi] at h
      rw [accountOf_updateAccount, ha]
      simp [hj]
    | _ => exact ha

theorem frame_round {i : Uuid} (h : .row (.round i) ∉ footprint (C := C) (R := R) x) :
    Agree (.row (.round i) : Resource (schema C R)) d (x.apply d) := by
  constructor
  · intro r hr
    have hi : r.id = i := by simpa using List.find?_some hr
    have ht : x.touch r = r := by
      cases x with
      | openRound j =>
        have hj : r.id ≠ j := by rintro rfl; simp [footprint, hi] at h
        simp [Write.touch, hj]
      | lockRound j now =>
        have hj : r.id ≠ j := by rintro rfl; simp [footprint, hi] at h
        simp [Write.touch, hj]
      | finishRound j state =>
        have hj : r.id ≠ j := by rintro rfl; simp [footprint, hi] at h
        simp [Write.touch, hj]
      | _ => rfl
    simp [roundOf_apply, hr, ht]
  · have hn : x.newBets.filter (fun b => b.roundId = i) = [] := by
      cases x with
      | insertBet b =>
        have hb : b.roundId ≠ i := by rintro rfl; simp [footprint] at h
        simp [Write.newBets, hb]
      | _ => rfl
    simp only [bets_apply, List.filter_append, hn, List.append_nil]

theorem frame_ledgerKey {key : String} (h : .row (.ledgerKey key) ∉ footprint (C := C) (R := R) x) :
    Agree (.row (.ledgerKey key) : Resource (schema C R)) d (x.apply d) := by
  have hn : x.newTransactions.find? (fun t => t.idempotencyKey = key) = none := by
    cases x with
    | insertTransaction t =>
      have ht : t.idempotencyKey ≠ key := by rintro rfl; simp [footprint] at h
      simp [Write.newTransactions, ht]
    | _ => rfl
  simp only [Agree, Db.transactionOf, transactions_apply, List.find?_append, hn, Option.or_none]

theorem frame_betKey {u : Uuid} {key : String}
    (h : .row (.betKey u key) ∉ footprint (C := C) (R := R) x) :
    Agree (.row (.betKey u key) : Resource (schema C R)) d (x.apply d) := by
  have hn : x.newBets.find? (fun b => b.userId = u ∧ b.idempotencyKey = key) = none := by
    cases x with
    | insertBet b =>
      have hb : ¬ (b.userId = u ∧ b.idempotencyKey = key) := by
        rintro ⟨rfl, rfl⟩; simp [footprint] at h
      simpa [Write.newBets] using hb
    | _ => rfl
  simp only [Agree, Db.betOf, bets_apply, List.find?_append, hn, Option.or_none]

theorem frame_index {l : Lock} {p : GameRound → Prop} (hp : ∀ r, p (x.touch r) → p r)
    (hl : ∀ r, p r → .row l ∈ footprint (C := C) (R := R) (.insertRound r))
    (h : .row l ∉ footprint (C := C) (R := R) x) (hx : ∃ r ∈ (x.apply d).rounds, p r) :
    ∃ r ∈ d.rounds, p r := by
  obtain ⟨r, hr, hpr⟩ := hx
  rcases mem_rounds_apply d hr with ⟨r₀, hr₀, rfl⟩ | hr
  · exact ⟨r₀, hr₀, hp r₀ hpr⟩
  · cases x with
    | insertRound r' =>
      obtain rfl : r = r' := by simpa [Write.newRounds] using hr
      exact absurd (hl r hpr) h
    | _ => simp [Write.newRounds] at hr

theorem known_apply {y : Uuid} (h : (x.apply d).Known y) :
    d.Known y ∨ .id y ∈ footprint (C := C) (R := R) x := by
  cases h with
  | bet h =>
    rw [bets_apply, List.mem_append] at h
    rcases h with h | h
    · exact .inl (.bet h)
    · cases x <;> simp_all [Write.newBets, footprint]
  | item h =>
    rw [betItems_apply, List.mem_append] at h
    rcases h with h | h
    · exact .inl (.item h)
    · cases x with
      | insertBetItems rows => exact .inr (List.mem_map.mpr ⟨_, h, rfl⟩)
      | _ => simp [Write.newItems] at h
  | transaction h =>
    rw [transactions_apply, List.mem_append] at h
    rcases h with h | h
    · exact .inl (.transaction h)
    · cases x <;> simp_all [Write.newTransactions, footprint]
  | adminLog h =>
    rw [adminLogs_apply, List.mem_append] at h
    rcases h with h | h
    · exact .inl (.adminLog h)
    · cases x <;> simp_all [Write.newLogs, footprint]
  | round h =>
    rcases mem_rounds_apply d h with ⟨r₀, hr₀, rfl⟩ | h
    · exact .inl ((x.same_touch r₀).id ▸ .round hr₀)
    · cases x <;> simp_all [Write.newRounds, footprint]

theorem frame (d : Db) (h : r ∉ footprint (C := C) (R := R) x) : Agree r d (x.apply d) := by
  cases r with
  | id y => exact fun hy => (known_apply hy).resolve_right h
  | row l =>
    cases l with
    | account i => exact frame_account h
    | round i => exact frame_round h
    | ledgerKey key => exact frame_ledgerKey h
    | betKey u key => exact frame_betKey h
    | roundNumber g n =>
      refine frame_index (fun r => ?_) (fun r => ?_) h
      · rw [(x.same_touch r).gameId, (x.same_touch r).roundNumber]; exact fun hr => hr
      · rintro ⟨rfl, rfl⟩; simp [footprint]
    | displayCode code =>
      refine frame_index (fun r => ?_) (fun r => ?_) h
      · rw [(x.same_touch r).displayCode]; exact fun hr => hr
      · rintro rfl; simp [footprint]
    | liveRound g =>
      refine frame_index (fun r => ?_) (fun r => ?_) h
      · rw [(x.same_touch r).gameId]; exact fun hr => ⟨hr.1, Write.live_touch hr.2⟩
      · rintro ⟨rfl, -⟩; simp [footprint]

theorem GameRound.Same.refl (r : GameRound) : r.Same r := ⟨rfl, rfl, rfl, rfl, rfl⟩

theorem GameRound.Same.trans {r r' r'' : GameRound} (h : r.Same r') (h' : r'.Same r'') : r.Same r'' :=
  ⟨h'.id.trans h.id, h'.gameId.trans h.gameId, h'.roundNumber.trans h.roundNumber,
    h'.displayCode.trans h.displayCode, h'.bettingDeadline.trans h.bettingDeadline⟩

theorem Grows.refl (d : Db) : Grows d d :=
  ⟨rfl, rfl, rfl, List.prefix_rfl, List.prefix_rfl, List.prefix_rfl, List.prefix_rfl,
    fun _ r hr => ⟨r, hr, .refl r⟩⟩

theorem Grows.trans (h : Grows d₁ d₂) (h' : Grows d₂ d₃) : Grows d₁ d₃ where
  users := h'.users.trans h.users
  adminUsers := h'.adminUsers.trans h.adminUsers
  accounts := h'.accounts.trans h.accounts
  transactions := h.transactions.trans h'.transactions
  bets := h.bets.trans h'.bets
  betItems := h.betItems.trans h'.betItems
  adminLogs := h.adminLogs.trans h'.adminLogs
  rounds i r hr := by
    obtain ⟨r', hr', hs⟩ := h.rounds i r hr
    obtain ⟨r'', hr'', hs'⟩ := h'.rounds i r' hr'
    exact ⟨r'', hr'', hs.trans hs'⟩

theorem find_prefix {α : Type} {l l' : List α} (h : l <+: l') {p : α → Bool} {a : α}
    (ha : l.find? p = some a) : l'.find? p = some a := by
  obtain ⟨rest, rfl⟩ := h
  simp [ha]

theorem Grows.betOf (h : Grows d d₁) {u : Uuid} {key : String} {b : Bet}
    (hb : d.betOf u key = some b) : d₁.betOf u key = some b := find_prefix h.bets hb

theorem Grows.transactionOf (h : Grows d d₁) {key : String} {t : PointsTransaction}
    (ht : d.transactionOf key = some t) : d₁.transactionOf key = some t :=
  find_prefix h.transactions ht

theorem grows_apply (x : Write) (d : Db) : Grows d (x.apply d) where
  users := by cases x <;> rfl
  adminUsers := by cases x <;> rfl
  accounts := accounts_apply d x
  transactions := ⟨_, (transactions_apply d x).symm⟩
  bets := ⟨_, (bets_apply d x).symm⟩
  betItems := ⟨_, (betItems_apply d x).symm⟩
  adminLogs := ⟨_, (adminLogs_apply d x).symm⟩
  rounds i r hr := ⟨x.touch r, by simp [roundOf_apply, hr], x.same_touch r⟩

end Laws

def discipline (base : Db) (spec : Commit (schema C R) → Db → Prop) : Protocol (schema C R) where
  base := base
  foot := footprint
  agree := Agree
  le := Grows
  known := Db.Known
  spec := spec
  agree_refl := Agree.refl
  agree_trans := Agree.trans
  frame := frame
  le_refl := Grows.refl
  le_trans := Grows.trans
  le_apply := grows_apply
  known_apply := known_apply

theorem grows_replay {base : Db} {log log' : List (Commit (schema C R))} (hs : log <:+ log') :
    Grows (replay base log) (replay base log') := by
  obtain ⟨front, rfl⟩ := hs
  induction front with
  | nil => exact .refl _
  | cons c front ih => exact ih.trans ((discipline base fun _ _ => True).le_applyAll c.writes _)

end JitoGame
