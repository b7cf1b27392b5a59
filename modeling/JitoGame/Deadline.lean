import JitoGame.BettingWindow

namespace JitoGame

open Transactions

/-- The statement that took the lock of the round of `b` in the transaction of the commit `c`, and
passed the check against the deadline. -/
structure Grant (c : Commit sql) (b : Bet) (m : Mark sql) (r : GameRound) : Prop where
  mem : m ∈ c.trace
  tag : m.tag = .lockRound
  lock : m.lock = some (.round b.roundId)
  now : m.now = c.start
  round : m.db.roundOf b.roundId = some r
  passed : m.now < r.bettingDeadline

def EveryBet (log : List (Commit sql)) (good : Mark sql → GameRound → Prop) : Prop :=
  ∀ c ∈ log, ∀ b, Write.insertBet b ∈ c.writes → ∃ m r, Grant c b m r ∧ good m r

def CheckedAtGrant (m : Mark sql) (_ : GameRound) : Prop := m.time ≤ m.now

def GrantedInTime (m : Mark sql) (r : GameRound) : Prop := m.time < r.bettingDeadline

def Prompt (m : Mark sql) : Prop := m.time = m.now

def Clear (m : Mark sql) (r : GameRound) : Prop :=
  ¬ (m.now < r.bettingDeadline ∧ r.bettingDeadline ≤ m.time)

theorem EveryBet.imp {log : List (Commit sql)} {good good' : Mark sql → GameRound → Prop}
    (h : EveryBet log good)
    (hg : ∀ c ∈ log, ∀ b m r, Grant c b m r → good m r → good' m r) : EveryBet log good' := by
  intro c hc b hb
  obtain ⟨m, r, hgrant, hgood⟩ := h c hc b hb
  exact ⟨m, r, hgrant, hg c hc b m r hgrant hgood⟩

section Run

variable {K : Policy sql} {base : Db} {s : State sql} (h : Run K base s)
include h

theorem Run.grants : ∀ c ∈ s.world.log, ∀ b, Write.insertBet b ∈ c.writes → ∃ m r, Grant c b m r := by
  intro c hc b hb
  obtain ⟨older, -, heffect⟩ := h.effects.found hc
  obtain ⟨params, p, t, -, -, hp⟩ := heffect.placed_of_mem hb
  obtain ⟨m, hm, hchecked⟩ := hp.checked
  obtain ⟨r, hr, hdead⟩ := hchecked.deadline
  have hpassed : m.now < r.bettingDeadline := hchecked.now ▸ hdead
  exact ⟨m, r, hm, hchecked.tag, hchecked.lock, hchecked.now, hr, hpassed⟩

theorem Run.everyBet {good : Mark sql → GameRound → Prop}
    (hgood : ∀ c ∈ s.world.log, ∀ b m r, Grant c b m r → good m r) : EveryBet s.world.log good := by
  intro c hc b hb
  obtain ⟨m, r, hg⟩ := h.grants c hc b hb
  exact ⟨m, r, hg, hgood c hc b m r hg⟩

theorem Run.grant_stmt {c : Commit sql} (hc : c ∈ s.world.log) {b : Bet} {m : Mark sql}
    {r : GameRound} (hg : Grant c b m r) : K.stmt c.call m ∧ m.now ≤ m.time := by
  obtain ⟨older, hs, -⟩ := h.chronicle.found hc
  have hobeys := (h.obeys.log c older hs).marks m hg.mem
  exact ⟨hobeys.stmt, hobeys.now⟩

theorem Run.checked_iff :
    EveryBet s.world.log CheckedAtGrant ↔ EveryBet s.world.log fun m _ => Prompt m := by
  constructor
  · intro hall
    apply hall.imp
    intro c hc b m r hg hm
    exact Nat.le_antisymm hm (h.grant_stmt hc hg).2
  · intro hall
    exact hall.imp fun c hc b m r hg hm => Nat.le_of_eq hm

omit h in
theorem granted_iff {log : List (Commit sql)} :
    EveryBet log GrantedInTime ↔ EveryBet log Clear := by
  constructor
  · intro hall
    apply hall.imp
    intro c hc b m r hg hm
    unfold GrantedInTime at hm
    unfold Clear
    omega
  · intro hall
    apply hall.imp
    intro c hc b m r hg hm
    have hpassed := hg.passed
    unfold Clear at hm
    unfold GrantedInTime
    omega

/-- Every bet has passed the check under the lock of its round. But `now()` is the start of the
transaction, so a bet is checked in time exactly when its lock is granted without a wait, and its lock
is granted in time exactly when the deadline does not pass during the wait. -/
theorem betsInTime_of_run :
    (∀ c ∈ s.world.log, ∀ b, Write.insertBet b ∈ c.writes → ∃ m r, Grant c b m r) ∧
    (EveryBet s.world.log CheckedAtGrant ↔ EveryBet s.world.log fun m _ => Prompt m) ∧
    (EveryBet s.world.log GrantedInTime ↔ EveryBet s.world.log Clear) ∧
    ((∀ call m, K.stmt call m → m.tag = .lockRound → Prompt m) →
      EveryBet s.world.log CheckedAtGrant ∧ EveryBet s.world.log GrantedInTime) ∧
    ((∀ call m, K.stmt call m → m.tag = .lockRound → ∀ id r, m.lock = some (.round id) →
        m.db.roundOf id = some r → Clear m r) → EveryBet s.world.log GrantedInTime) := by
  refine ⟨h.grants, h.checked_iff, granted_iff, fun hK => ?_, fun hK => granted_iff.mpr ?_⟩
  · have hprompt : EveryBet s.world.log fun m _ => Prompt m :=
      h.everyBet fun c hc b m r hg => hK _ m (h.grant_stmt hc hg).1 hg.tag
    refine ⟨h.checked_iff.mpr hprompt, hprompt.imp fun c hc b m r hg hm => ?_⟩
    have hpassed := hg.passed
    unfold Prompt at hm
    unfold GrantedInTime
    omega
  · exact h.everyBet fun c hc b m r hg =>
      hK _ m (h.grant_stmt hc hg).1 hg.tag _ r hg.lock hg.round

end Run

def promptLocks : Policy sql :=
  ⟨fun _ => True, fun _ m => m.tag = .lockRound → m.time = m.now, fun _ _ _ => True, fun _ => True⟩

instance : DecidablePred promptLocks.spawn := fun _ => isTrue trivial

instance (c : Call) : DecidablePred (promptLocks.stmt c) := fun m =>
  inferInstanceAs (Decidable (m.tag = .lockRound → m.time = m.now))

instance (c : Commit sql) (d : Db) : DecidablePred (promptLocks.commit c d) := fun _ => isTrue trivial

instance : DecidablePred promptLocks.fault := fun _ => isTrue trivial

theorem betsInTime_after_placement :
    ∃ s, promptLocks.steps body (initial bettingDb [roundId]) (placementRun 0 20 21) = some s ∧
      s.world.db.bets.length = 1 ∧
      EveryBet s.world.log CheckedAtGrant ∧ EveryBet s.world.log GrantedInTime := by
  have hrun : (promptLocks.steps body (initial bettingDb [roundId]) (placementRun 0 20 21)).map
      (fun s => s.world.db.bets.length) = some 1 := by decide
  obtain ⟨s, hs, hbets⟩ := Option.map_eq_some_iff.mp hrun
  have hin := betsInTime_of_run (.steps known_bettingDb hs)
  exact ⟨s, hs, hbets, hin.2.2.2.1 fun call m hm htag => hm htag⟩

/-- The transaction begins at 0 and gets the lock at 150, past the deadline of 100. -/
def lateRun : List (Label sql) :=
  [.spawn 0 (.placeBet betParams), .run 0, .run 0, .tick 150, .run 0] ++ restOfPlacement 0 20 21

def Write.insertsBet : Write → Bool
  | .insertBet _ => true
  | _ => false

def lateGrants (c : Commit sql) : Bool :=
  c.trace.all fun m => m.tag = .lockRound →
    m.now < m.time ∧ m.db.rounds.all fun r => r.bettingDeadline ≤ m.time

theorem late_bet_accepted :
    ∃ s, (Policy.calls fun _ => True).steps body (initial bettingDb [roundId]) lateRun = some s ∧
      s.world.db.bets.length = 1 ∧ ¬ EveryBet s.world.log CheckedAtGrant ∧
      ¬ EveryBet s.world.log GrantedInTime := by
  have hrun : ((Policy.calls fun _ => True).steps body (initial bettingDb [roundId]) lateRun).map
      (fun s => (s.world.db.bets.length, s.world.log.length, s.world.log.all lateGrants,
        s.world.log.all fun c => c.writes.any Write.insertsBet)) =
      some (1, 1, true, true) := by decide
  obtain ⟨s, hs, hshape⟩ := Option.map_eq_some_iff.mp hrun
  simp only [Prod.mk.injEq, List.all_eq_true] at hshape
  obtain ⟨hbets, hlen, hlate, hinsert⟩ := hshape
  obtain ⟨c, hc⟩ := List.exists_mem_of_length_pos (hlen ▸ Nat.one_pos)
  obtain ⟨x, hx, hbet⟩ := List.any_eq_true.mp (hinsert c hc)
  have hgrant (b : Bet) (m : Mark sql) (r : GameRound) (hg : Grant c b m r) :
      m.now < m.time ∧ r.bettingDeadline ≤ m.time := by
    have hall := List.all_eq_true.mp (hlate c hc) m hg.mem
    have hm := of_decide_eq_true hall hg.tag
    exact ⟨hm.1, of_decide_eq_true (List.all_eq_true.mp hm.2 r (List.mem_of_find?_eq_some hg.round))⟩
  cases x with
  | insertBet b =>
    refine ⟨s, hs, hbets, fun hall => ?_, fun hall => ?_⟩
    · obtain ⟨m, r, hg, hm⟩ := hall c hc b hx
      have hlt := (hgrant b m r hg).1
      unfold CheckedAtGrant at hm
      omega
    · obtain ⟨m, r, hg, hm⟩ := hall c hc b hx
      have hle := (hgrant b m r hg).2
      unfold GrantedInTime at hm
      omega
  | _ => cases hbet

end JitoGame
