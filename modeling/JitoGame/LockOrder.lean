import JitoGame.BetLedger
import JitoGame.Transactions.Deadlock

namespace JitoGame

open Transactions

def Lock.rank : Lock → ℕ
  | .round _ => 0
  | .account _ => 1
  | .betKey _ _ => 2
  | .ledgerKey _ => 3
  | .displayCode _ => 4
  | .roundNumber _ _ => 5
  | .liveRound _ => 6

theorem Lock.rank_lt (l : Lock) : l.rank < 7 := by cases l <;> simp [Lock.rank]

variable {C R α : Type}

abbrev Closed (p : Prog (schema C R) α) : Prop :=
  orderly Lock.rank p (fun _ held => held = none) (fun _ held => held = none) none

abbrev Keeps (C R : Type) (n : ℕ) (ls : List Lock) (held : Option (List Lock)) : Prop :=
  Holding (S := schema C R) Lock.rank n ls held

theorem closed_bind {β : Type} {p : Prog (schema C R) β} {f : β → Prog (schema C R) α} (hp : Closed p)
    (hf : ∀ b, Closed (f b)) : Closed (p >>= f) :=
  (orderly_bind p f).mpr (orderly_mono p hp (fun b _ hb => by subst hb; exact hf b) fun _ _ he => he)

theorem closed_check (x : Except Err α) : Closed (check x : Prog (schema C R) α) := by
  rw [Closed, orderly_check]
  exact ⟨fun _ _ => rfl, fun _ _ => rfl⟩

theorem closed_require (p : Prop) [Decidable p] (e : Err) :
    Closed (require p e : Prog (schema C R) Unit) := by
  rw [Closed, orderly_require]
  exact ⟨fun _ => rfl, fun _ => rfl⟩

theorem closed_select (tag : Tag) : Closed (Prog.select tag : Prog (schema C R) _) :=
  orderly_select tag rfl fun _ => rfl

theorem closed_transaction {body : Prog (schema C R) α} (h : orderly Lock.rank body
    (fun _ held => held.isSome = true) (fun _ held => held.isSome = true) (some [])) :
    Closed (Prog.transaction body) :=
  orderly_transaction body (orderly_mono body h (fun _ _ ha => ⟨ha, rfl⟩) fun _ _ he => ⟨he, rfl⟩) rfl

theorem closed_idempotent {find : Prog (schema C R) (Option α)} {run : Prog (schema C R) α}
    (hfind : Closed find) (hrun : Closed run) : Closed (idempotent find run) := by
  apply closed_bind hfind
  intro o
  cases o with
  | some a => exact rfl
  | none =>
    refine (orderly_tryCatch _ _).mpr (orderly_mono _ hrun (fun _ _ ha => ha) fun e held he => ?_)
    subst he
    split
    · apply closed_bind hfind
      intro o
      cases o with
      | some a => exact rfl
      | none => exact rfl
    · exact rfl

variable {n : ℕ} {ls : List Lock} {held : Option (List Lock)}
variable {E : Err → Option (List Lock) → Prop}

namespace PointsLedgerService

theorem orderly_lockAndValidateAccount {userId : Uuid} {direction : TxnDirection} {amountMinor : ℤ}
    {allowOverdraw : Bool} {Q : LockedAccountMutation → Option (List Lock) → Prop}
    (h : Keeps C R n ls held) (hn : n ≤ 1) (hE : ∀ e held, held.isSome = true → E e held)
    (hQ : ∀ locked held, Keeps C R 2 [.account locked.accountId] held → Q locked held) :
    orderly Lock.rank (lockAndValidateAccount userId direction amountMinor allowOverdraw :
      Prog (schema C R) _) Q E held := by
  rw [lockAndValidateAccount, orderly_bind, orderly_check]
  refine ⟨fun _ _ => ?_, fun e _ => hE e held h.opened⟩
  rw [orderly_bind]
  refine h.orderly_exec (m := 2) (by omega) (fun v l hl => ?_) (hE _ held h.opened) fun v held' h' => ?_
  · obtain ⟨a, -, rfl⟩ := Option.map_eq_some_iff.mp hl
    exact .inr ⟨hn, Nat.lt_succ_self 1⟩
  · rw [orderly_check]
    refine ⟨fun locked hlocked => hQ locked held' ⟨h'.opened, h'.below, ?_⟩, fun e _ => hE e _ h'.opened⟩
    cases ha : v.db.accountOf userId with
    | none =>
      rw [ha] at hlocked
      cases hlocked
    | some a =>
      rw [ha] at hlocked h'
      rw [validateAccount_id hlocked]
      intro l hl
      exact h'.holds (List.mem_append_left _ hl)

theorem orderly_commitMutation {locked : LockedAccountMutation} {ref : LedgerReference}
    {Q : LedgerMutationResult → Option (List Lock) → Prop}
    (h : Keeps C R n [.account locked.accountId] held) (hn : n ≤ 3)
    (hE : ∀ e held, held.isSome = true → E e held)
    (hQ : ∀ result held, held.isSome = true → Q result held) :
    orderly Lock.rank (commitMutation locked ref : Prog (schema C R) _) Q E held := by
  rw [commitMutation, orderly_bind]
  intro id
  change orderly (S := schema C R) Lock.rank (Prog.outside >>= _) _ _ _
  rw [orderly_bind]
  intro createdAt
  change orderly (S := schema C R) Lock.rank (require _ _ >>= _) _ _ _
  rw [orderly_bind, orderly_require]
  refine ⟨fun _ => ?_, fun _ => hE _ held h.opened⟩
  rw [orderly_bind]
  refine h.orderly_insert (m := 4) hn (by decide : 3 < 4) hE fun held' h' => ?_
  rw [orderly_bind]
  refine h'.orderly_exec (m := 4) (Nat.le_refl 4) (fun v l hl => ?_) (hE _ held' h'.opened)
    fun v held'' h'' => hQ _ held'' h''.opened
  cases hl
  exact .inl (List.mem_cons_of_mem _ List.mem_cons_self)

theorem orderly_mutateWithinTransaction {params : ApplyLedgerMutationParams}
    {Q : LedgerMutationResult → Option (List Lock) → Prop} (h : Keeps C R n ls held) (hn : n ≤ 1)
    (hE : ∀ e held, held.isSome = true → E e held)
    (hQ : ∀ result held, held.isSome = true → Q result held) :
    orderly Lock.rank (mutateWithinTransaction params : Prog (schema C R) _) Q E held := by
  rw [mutateWithinTransaction, orderly_bind]
  exact orderly_lockAndValidateAccount h hn hE fun locked held' h' =>
    orderly_commitMutation h' (by decide) hE hQ

theorem closed_findReplay (params : ApplyLedgerMutationParams) :
    Closed (findReplay params : Prog (schema C R) _) := by
  refine closed_bind (closed_bind (closed_select _) fun v => rfl) fun o => ?_
  cases o with
  | none => exact rfl
  | some existing => exact closed_bind (closed_check _) fun _ => rfl

theorem closed_applyMutation (params : ApplyLedgerMutationParams) :
    Closed (applyMutation params : Prog (schema C R) _) :=
  closed_bind (closed_check _) fun _ => closed_idempotent (closed_findReplay params)
    (closed_transaction (orderly_mutateWithinTransaction (holding_begun 0) (Nat.zero_le 1)
      (fun _ _ h => h) fun _ _ h => h))

end PointsLedgerService

namespace AdminPointsService

theorem closed_findReplay (key : String) (params : AdjustPointsParams) :
    Closed (findReplay key params : Prog (schema C R) _) := by
  apply closed_bind (closed_select _)
  intro v
  split
  · exact rfl
  · refine closed_bind (closed_select _) fun v' => closed_bind ?_ fun adminLog =>
      closed_bind (closed_require _ _) fun _ => rfl
    unfold findAdminLog
    split
    · exact rfl
    · exact closed_bind (closed_select _) fun _ => rfl

theorem orderly_adjustmentTransaction (key : String) (params : AdjustPointsParams) :
    orderly Lock.rank (adjustmentTransaction key params : Prog (schema C R) _)
      (fun _ held => held.isSome = true) (fun _ held => held.isSome = true) (some []) := by
  rw [adjustmentTransaction, orderly_bind]
  intro auditLogId
  change orderly (S := schema C R) Lock.rank (require _ _ >>= _) _ _ _
  rw [orderly_bind, orderly_require]
  refine ⟨fun _ => ?_, fun _ => rfl⟩
  rw [orderly_bind]
  refine (holding_begun 0).orderly_exec (m := 0) (Nat.le_refl 0) (fun _ _ hl => by cases hl) rfl
    fun v held h => ?_
  rw [orderly_bind, orderly_require]
  refine ⟨fun _ => ?_, fun _ => h.opened⟩
  rw [orderly_bind]
  exact PointsLedgerService.orderly_mutateWithinTransaction h (Nat.zero_le 1) (fun _ _ h => h)
    fun _ _ h => h

theorem closed_adjust (params : AdjustPointsParams) : Closed (adjust params : Prog (schema C R) _) :=
  closed_bind (closed_check _) fun key => closed_bind (closed_select _) fun _ =>
    closed_bind (closed_require _ _) fun _ => closed_idempotent (closed_findReplay key params)
      (closed_transaction (orderly_adjustmentTransaction key params))

end AdminPointsService

namespace BetsService

theorem closed_findReplay (userId : Uuid) (roundId : String) (p : Placement) :
    Closed (findReplay userId roundId p : Prog (schema C R) _) := by
  apply closed_bind (closed_select _)
  intro v
  split
  · exact rfl
  · exact closed_bind (closed_require _ _) fun _ => closed_bind (closed_select _) fun _ => rfl

theorem orderly_lockRound {roundId : String} {Q : Option RoundLockRow → Option (List Lock) → Prop}
    (hE : ∀ e held, held.isSome = true → E e held) (hQ : ∀ row held, Keeps C R 1 [] held → Q row held) :
    orderly Lock.rank (lockRound roundId : Prog (schema C R) _) Q E (some []) := by
  unfold lockRound
  split
  · exact hE _ _ rfl
  · rw [orderly_bind]
    refine (holding_begun 0).orderly_exec (m := 1) (Nat.zero_le 1) (fun v l hl => ?_) (hE _ _ rfl)
      fun v held h => hQ _ held ⟨h.opened, h.below, List.nil_subset _⟩
    obtain ⟨r, -, rfl⟩ := Option.map_eq_some_iff.mp hl
    exact .inr ⟨Nat.zero_le _, Nat.zero_lt_one⟩

theorem orderly_placementTransaction (userId : Uuid) (dto : PlaceBetDto) (p : Placement) :
    orderly Lock.rank (placementTransaction userId dto p : Prog (schema C R) _)
      (fun _ held => held.isSome = true) (fun _ held => held.isSome = true) (some []) := by
  have hopen (e : Err) (held : Option (List Lock)) (h : held.isSome = true) : held.isSome = true := h
  rw [placementTransaction, orderly_bind]
  apply orderly_lockRound hopen
  intro row held h
  rw [orderly_bind, orderly_check]
  refine ⟨fun round _ => ?_, fun _ _ => h.opened⟩
  rw [orderly_bind]
  refine PointsLedgerService.orderly_lockAndValidateAccount h (Nat.le_refl 1) hopen
    fun locked held₁ h₁ => ?_
  rw [orderly_bind]
  intro betId
  change orderly (S := schema C R) Lock.rank (Prog.outside >>= _) _ _ _
  rw [orderly_bind]
  intro acceptedAt
  change orderly (S := schema C R) Lock.rank (require _ _ >>= _) _ _ _
  rw [orderly_bind, orderly_require]
  refine ⟨fun _ => ?_, fun _ => h₁.opened⟩
  rw [orderly_bind]
  refine h₁.orderly_insert (m := 3) (Nat.le_refl 2) (Nat.lt_succ_self 2) hopen fun held₂ h₂ => ?_
  rw [orderly_bind, orderly_require]
  refine ⟨fun _ => ?_, fun _ => h₂.opened⟩
  rw [orderly_bind]
  refine h₂.orderly_exec (m := 3) (Nat.le_refl 3) (fun _ _ hl => by cases hl) h₂.opened
    fun v held₃ h₃ => ?_
  rw [orderly_bind]
  exact PointsLedgerService.orderly_commitMutation
    ⟨h₃.opened, h₃.below, fun l hl => h₃.holds (List.mem_cons_of_mem _ hl)⟩ (Nat.le_refl 3) hopen
    fun _ _ h => h

theorem closed_placeBet (params : PlaceBetParams) : Closed (placeBet params : Prog (schema C R) _) :=
  closed_bind (closed_check _) fun p => closed_idempotent (closed_findReplay _ _ p)
    (closed_transaction (orderly_placementTransaction params.userId params.dto p))

end BetsService

namespace RoundsService

theorem closed_update (tag : Tag) (roundId : Uuid) (guard : ℕ → GameRound → Bool) (w : ℕ → Write) :
    Closed (update tag roundId guard w : Prog (schema C R) _) := by
  refine closed_transaction ((orderly_bind _ _).mpr ?_)
  refine (holding_begun 0).orderly_exec (m := 1) (Nat.zero_le 1) (fun v l hl => ?_) rfl
    fun v held h => h.opened
  split at hl
  · cases hl
    exact .inr ⟨Nat.zero_le _, Nat.zero_lt_one⟩
  · cases hl

theorem orderly_createRound (row : GameRound) :
    orderly Lock.rank (createRound row : Prog (schema C R) _) (fun _ held => held.isSome = true)
      (fun _ held => held.isSome = true) (some []) := by
  have hopen (e : Err) (held : Option (List Lock)) (h : held.isSome = true) : held.isSome = true := h
  rw [createRound, orderly_bind, orderly_require]
  refine ⟨fun _ => ?_, fun _ => rfl⟩
  rw [orderly_bind]
  refine (holding_begun 0).orderly_insert (m := 5) (Nat.zero_le 4) (Nat.lt_succ_self 4) hopen
    fun held₁ h₁ => ?_
  rw [orderly_bind]
  refine h₁.orderly_insert (m := 6) (Nat.le_refl 5) (Nat.lt_succ_self 5) hopen fun held₂ h₂ => ?_
  exact h₂.orderly_insert (m := 7) (Nat.le_refl 6) (Nat.lt_succ_self 6) hopen fun held₃ h₃ => h₃.opened

theorem closed_tryCreateRound (windowMs : ℕ) (gameId : GameId) :
    Closed (tryCreateRound windowMs gameId : Prog (schema C R) _) := by
  refine closed_bind (closed_bind (closed_select _) fun _ => rfl) fun roundNumber =>
    closed_bind (fun _ => rfl) fun opensAt => (orderly_tryCatch _ _).mpr ?_
  refine orderly_mono _ (closed_bind (fun _ => rfl) fun id => closed_bind (closed_transaction
    (orderly_createRound _)) fun _ => rfl) (fun _ _ ha => ha) fun e held he => ?_
  subst he
  split <;> exact rfl

theorem closed_reconcile (windowMs : ℕ) (gameId : GameId) :
    Closed (reconcile windowMs gameId : Prog (schema C R) _) := by
  refine closed_bind (closed_bind (closed_select _) fun _ => rfl) fun live => ?_
  cases live with
  | none => exact closed_bind (closed_tryCreateRound windowMs gameId) fun _ => rfl
  | some round =>
    dsimp only
    split
    · exact closed_bind (closed_update _ _ _ _) fun _ => rfl
    · split
      · exact closed_bind (closed_update _ _ _ _) fun _ => rfl
      · exact rfl

end RoundsService

theorem closed_body (c : Call) : Closed (body c) := by
  cases c with
  | applyMutation params =>
    exact closed_bind (PointsLedgerService.closed_applyMutation params) fun _ => rfl
  | adjust params => exact closed_bind (AdminPointsService.closed_adjust params) fun _ => rfl
  | placeBet params => exact closed_bind (BetsService.closed_placeBet params) fun _ => rfl
  | reconcile windowMs gameId =>
    exact closed_bind (RoundsService.closed_reconcile windowMs gameId) fun _ => rfl
  | openRound roundId => exact closed_bind (RoundsService.closed_update _ _ _ _) fun _ => rfl
  | lockIfDeadlinePassed roundId => exact closed_bind (RoundsService.closed_update _ _ _ _) fun _ => rfl

/-- In no reachable state do transactions wait for one another in a circle, and while a call is
unfinished, one of them can make a step. -/
theorem no_deadlock {ok : State sql → Label sql → Prop} {base : Db} {used : List Uuid} {s : State sql}
    (h : Reachable body ok (initial base used) s) :
    (∀ i, ¬ Relation.TransGen (WaitsFor s) i i) ∧
    ∀ i p, s.procs i = some p → p.prog.result = none → ∃ k q, s.procs k = some q ∧
      q.prog.result = none ∧ Ready body s k ∧ (p.loc.tx.isSome = true → q.loc.tx.isSome = true) := by
  have hordered : Ordered Lock.rank s := .reachable closed_body h
  exact ⟨hordered.no_cycle, fun i p hp hr => hordered.progress Lock.rank_lt hp hr⟩

def contention : List (Label sql) :=
  [.spawn 0 (.placeBet betParams), .spawn 1 (.placeBet betParams), .run 0, .run 1, .run 0, .run 1,
    .run 0]

theorem no_deadlock_in_contention :
    ∃ s, (Policy.calls fun _ => True).steps body (initial bettingDb [roundId]) contention = some s ∧
      (step body s (.run 1)).isNone = true ∧ (∀ i, ¬ Relation.TransGen (WaitsFor s) i i) ∧
      ∀ i p, s.procs i = some p → p.prog.result = none → ∃ k q, s.procs k = some q ∧
        q.prog.result = none ∧ Ready body s k ∧ (p.loc.tx.isSome = true → q.loc.tx.isSome = true) := by
  have hrun : ((Policy.calls fun _ => True).steps body (initial bettingDb [roundId]) contention).map
      (fun s => (step body s (.run 1)).isNone) = some true := by decide
  obtain ⟨s, hs, hwaits⟩ := Option.map_eq_some_iff.mp hrun
  exact ⟨s, hs, hwaits, no_deadlock (Policy.reachable_steps _ .refl hs)⟩

end JitoGame
