import JitoGame.RoundLife

namespace JitoGame

open Transactions

structure InWindow (base : Db) (log : List (Commit sql)) (c : Commit sql) (older : List (Commit sql))
    (b : Bet) : Prop where
  request : ∃ params r, c.call = .placeBet params ∧
    Uuid.parse params.dto.roundId = some b.roundId ∧
    Db.roundOf (replay base older) b.roundId = some r ∧ r.gameId = params.dto.gameId
  afterOpening : ∃ c' older', (c' :: older') <:+ older ∧
    Transition base b.roundId .created .bettingOpen c' older'
  beforeLocking : ∀ c' older' st, (c' :: older') <:+ log →
    Transition base b.roundId st .bettingLocked c' older' → (c :: older) <:+ older'

theorem Effect.placed_of_mem {c : Commit sql} {d : Db} (h : Effect c d) {b : Bet}
    (hb : Write.insertBet b ∈ c.writes) : ∃ params p t, c.call = .placeBet params ∧
      c.writes = placed p b t ∧ Places params p b t c.start c.trace d := by
  cases h with
  | @placement params p b' t hc hw h =>
    rw [hw] at hb
    obtain rfl : b = b' := by simpa [placed, post] using hb
    exact ⟨params, p, t, hc, hw, h⟩
  | mutation hc hw h => rw [hw] at hb; simp [post] at hb
  | adjustment hc hw h => rw [hw] at hb; simp [post] at hb
  | creation hw h => rw [hw] at hb; simp at hb
  | opening hw hr h => rw [hw] at hb; simp at hb
  | locking hw hr h => rw [hw] at hb; simp at hb
  | idle hw => rw [hw] at hb; cases hb

theorem mem_bets_applyAll {ws : List Write} {d : Db} {b : Bet}
    (h : b ∈ Db.bets (applyAll (S := sql) ws d)) : b ∈ d.bets ∨ Write.insertBet b ∈ ws := by
  induction ws generalizing d with
  | nil => exact .inl h
  | cons x ws ih =>
    rcases ih h with h | h
    · change b ∈ Db.bets (x.apply d) at h
      rw [bets_apply, List.mem_append] at h
      rcases h with h | h
      · exact .inl h
      · cases x with
        | insertBet b' =>
          obtain rfl : b = b' := by simpa [Write.newBets] using h
          exact .inr List.mem_cons_self
        | _ => cases h
    · exact .inr (List.mem_cons_of_mem _ h)

theorem mem_bets_replay {base : Db} {log : List (Commit sql)} {b : Bet}
    (h : b ∈ Db.bets (replay base log)) : b ∈ base.bets ∨
      ∃ c older, (c :: older) <:+ log ∧ Write.insertBet b ∈ c.writes := by
  induction log with
  | nil => exact .inl h
  | cons c older ih =>
    rcases mem_bets_applyAll h with h | h
    · rcases ih h with h | ⟨c', older', hs, h⟩
      · exact .inl h
      · exact .inr ⟨c', older', hs.trans (List.suffix_cons _ _), h⟩
    · exact .inr ⟨c, older, List.suffix_refl _, h⟩

theorem Run.inWindow {K : Policy sql} {base : Db} {s : State sql} (h : Run K base s)
    (h₀ : ∀ r ∈ base.rounds, r.state = .created ∧ r.stateVersion = 0 ∧ r.lockedAt = none)
    {c : Commit sql} {older : List (Commit sql)} (hs : (c :: older) <:+ s.world.log) {b : Bet}
    (hb : Write.insertBet b ∈ c.writes) : InWindow base s.world.log c older b := by
  have hlog := h.effects
  have hchron := hlog.suffix hs
  obtain ⟨params, p, t, hc, hw, hp⟩ := hchron.1.placed_of_mem hb
  obtain ⟨r, hr, hgame, hlockable, -⟩ := hp.round
  obtain ⟨hopen, hcount⟩ := (staged hchron.2 h₀ r hr).lockable hlockable
  refine ⟨⟨params, r, hc, hp.roundId, hr, hgame⟩, ?_, fun c' older' st hs' ht => ?_⟩
  · obtain ⟨st, st', c', older', hs', ht, hn⟩ := exists_transition (hcount ▸ Nat.zero_lt_one)
    refine ⟨c', older', hs', ?_⟩
    obtain ⟨r', hr', hmove⟩ := ht.move hchron.2 h₀ hs'
    cases hmove with
    | opens => exact ht
    | locks hw' hst hd =>
      -- a locked round has made both transitions
      have hbefore := (staged (hchron.2.suffix hs').2 h₀ r' hr').lockable (by rw [hst]; rfl)
      have hafter := ht.count
      omega
  · obtain ⟨r', hr', hmove⟩ := ht.move hlog h₀ hs'
    cases hmove with
    | locks hw' hst hd =>
      have hbefore := ((staged (hlog.suffix hs').2 h₀ r' hr').lockable (by rw [hst]; rfl)).2
      have hafter := ht.count
      have hne : c :: older ≠ c' :: older' := by
        intro heq
        obtain ⟨rfl, rfl⟩ := List.cons.inj heq
        rw [hw'] at hb
        simp at hb
      rcases suffix_apart hs hs' hne with hle | hle
      · exact hle
      · have hmono := transitions_suffix base b.roundId hle
        omega

theorem betsInWindow_of_run {K : Policy sql} {base : Db} {s : State sql} (h : Run K base s)
    (h₀ : ∀ r ∈ base.rounds, r.state = .created ∧ r.stateVersion = 0 ∧ r.lockedAt = none) :
    (∀ c older b, (c :: older) <:+ s.world.log → Write.insertBet b ∈ c.writes →
      InWindow base s.world.log c older b) ∧
    ∀ b ∈ s.world.db.bets, b ∈ base.bets ∨ ∃ c older, (c :: older) <:+ s.world.log ∧
      Write.insertBet b ∈ c.writes ∧ InWindow base s.world.log c older b := by
  refine ⟨fun c older b hs hb => h.inWindow h₀ hs hb, fun b hb => ?_⟩
  rw [h.obeys.db_eq] at hb
  rcases mem_bets_replay hb with hb | ⟨c, older, hs, hb⟩
  · exact .inl hb
  · exact .inr ⟨c, older, hs, hb, h.inWindow h₀ hs hb⟩

def createdDb : Db :=
  { bettingDb with rounds := [⟨roundId, .tripleChanceTimer, 1, "TC1", .created, 0, 0, 100, none⟩] }

def windowRun : List (Label sql) :=
  [.spawn 0 (.openRound roundId), .run 0, .run 0, .run 0] ++ placementRun 1 20 21 ++
    [.tick 100, .spawn 2 (.lockIfDeadlinePassed roundId), .run 2, .run 2, .run 2]

theorem betsInWindow_after_lock :
    ∃ s, (Policy.calls fun _ => True).steps body (initial createdDb [roundId]) windowRun = some s ∧
      (s.world.db.bets.length, s.world.log.length) = (1, 3) ∧
      ∀ b ∈ s.world.db.bets, b ∈ createdDb.bets ∨ ∃ c older, (c :: older) <:+ s.world.log ∧
        Write.insertBet b ∈ c.writes ∧ InWindow createdDb s.world.log c older b := by
  have hrun : ((Policy.calls fun _ => True).steps body (initial createdDb [roundId]) windowRun).map
      (fun s => (s.world.db.bets.length, s.world.log.length)) = some (1, 3) := by decide
  obtain ⟨s, hs, hlengths⟩ := Option.map_eq_some_iff.mp hrun
  have hknown : ∀ x, createdDb.Known x → x ∈ [roundId] := by
    intro x hx
    cases hx with
    | round h => simp_all [createdDb]
    | _ h => simp [createdDb, bettingDb] at h
  have hwindow := betsInWindow_of_run (.steps hknown hs)
    (by simp [createdDb])
  exact ⟨s, hs, hlengths, hwindow.2⟩

end JitoGame
