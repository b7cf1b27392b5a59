import JitoGame.Replays

namespace JitoGame

open Transactions

structure SameBet (dto dto' : PlaceBetDto) : Prop where
  round : Uuid.parse dto'.roundId = Uuid.parse dto.roundId
  game : dto'.gameId = dto.gameId
  amounts : ∀ c n, BetsService.amountOn dto.items c n = BetsService.amountOn dto'.items c n

def Separates (dto dto' : PlaceBetDto) (r : Except Err Res) : Prop :=
  (∃ res, r = .ok (.bet res) ∧ res.replayed = true ∧ SameBet dto dto') ∨
    r = .error .betIdempotencyKeyReused

/-- The request passes the checks of its body, and the game does not tell it from the bet on `dto`
when the round and the amounts do not. -/
structure Distinguishable (dto : PlaceBetDto) (params' : PlaceBetParams) : Prop where
  valid : ∃ p', BetsService.validate params' = .ok p'
  game : (Uuid.parse dto.roundId).map Uuid.text = some params'.dto.roundId →
    (∀ c n, BetsService.amountOn dto.items c n = BetsService.amountOn params'.dto.items c n) →
    params'.dto.gameId = dto.gameId

variable {base : Db} {params params' : PlaceBetParams} {first : PlaceBetResult}
variable {log : List (Commit sql)} {p : Placement} {b : Bet} {t : PointsTransaction}

theorem Accepted.separates_iff (h : Accepted base params first log p b t)
    (ledgerRow : Option PointsTransaction) :
    Separates params.dto params'.dto (BetsService.answerUnder p b params' ledgerRow) ↔
      Distinguishable params.dto params' := by
  obtain ⟨start, trace, d, hp⟩ := h.places
  have htext (x : String) : (Uuid.parse params.dto.roundId).map Uuid.text = some x ↔
      b.roundId.text = x := by
    simp [hp.roundId]
  rw [BetsService.answerUnder]
  cases hp' : BetsService.validate params' with
  | error e =>
    refine ⟨fun hsep => ?_, fun hdist => ?_⟩
    · rcases hsep with ⟨res, hres, -⟩ | hres
      · cases hres
      · cases hres
        cases BetsService.validate_status hp'
    · obtain ⟨p', hp''⟩ := hdist.valid
      rw [hp'] at hp''
      cases hp''
  | ok p' =>
    have hmatch := BetsService.matchesReplay_iff hp hp'
    dsimp only
    by_cases hm : BetsService.matchesReplay b (BetsService.itemRows b.id p) params'.dto.roundId p' = true
    · obtain ⟨hround, hamounts⟩ := hmatch.mp hm
      rw [if_pos hm]
      constructor
      · rintro (⟨res, -, -, hsame⟩ | hres)
        · exact ⟨⟨p', hp'⟩, fun _ _ => hsame.game⟩
        · cases hres
      · intro hdist
        have hparse : Uuid.parse params'.dto.roundId = Uuid.parse params.dto.roundId := by
          rw [← hround, Uuid.parse_text, hp.roundId]
        exact .inl ⟨_, rfl, rfl, hparse, hdist.game ((htext _).mpr hround) hamounts, hamounts⟩
    · rw [if_neg hm]
      refine ⟨fun _ => ⟨⟨p', hp'⟩, fun hround hamounts => ?_⟩, fun _ => .inr rfl⟩
      exact absurd (hmatch.mpr ⟨(htext _).mp hround, hamounts⟩) hm

/-- A second body under the key of a bet is told from the first, unless it differs in the game alone
or is refused by the checks of its own. -/
theorem reuse_separates_iff {s₀ s : State sql} (h : Run (Policy.calls fun _ => True) base s₀)
    {i j : ℕ} {q₀ : Proc sql} (hq₀ : s₀.procs i = some q₀)
    (hcall : q₀.call = .placeBet params) (hfirst : q₀.prog.Ends (.ok (.bet first)))
    (hfresh : first.replayed = false) (hs : Reachable body (Policy.calls fun _ => True).ok s₀ s)
    (hj : s₀.procs j = none) (hu : params'.userId = params.userId)
    (hk : params'.idempotencyKey = params.idempotencyKey) :
    (∀ q r, s.procs j = some q → q.call = .placeBet params' → q.loc.faulted = false →
      q.prog.Ends r → (own j s.world.log = [] ∧ Separates params.dto params'.dto r ↔
        Distinguishable params.dto params')) ∧
    (s.procs j = none → ∃ s' q r, Reachable body (Policy.calls fun _ => True).ok s s' ∧
      s'.world = s.world ∧ s'.procs j = some q ∧ q.call = .placeBet params' ∧ q.prog.Ends r ∧
      (Separates params.dto params'.dto r ↔ Distinguishable params.dto params')) := by
  obtain ⟨p, b, t, hacc⟩ := h.accepted hq₀ hcall hfirst hfresh
  exact hacc.settles h trivial hu hk hs hj fun _ _ _ => hacc.separates_iff _

def otherAmountParams : PlaceBetParams :=
  { betParams with dto := { betParams.dto with items := [⟨.singles, 7, 400⟩] } }

theorem reuse_after_placement :
    ∃ s₀, (Policy.calls fun _ => True).steps body (initial bettingDb [roundId])
        (placementRun 0 20 21) = some s₀ ∧ s₀.procs 1 = none ∧
      (∀ q r, s₀.procs 1 = some q → q.call = .placeBet otherAmountParams → q.loc.faulted = false →
        q.prog.Ends r → (own 1 s₀.world.log = [] ∧ Separates betParams.dto otherAmountParams.dto r ↔
          Distinguishable betParams.dto otherAmountParams)) ∧
      (s₀.procs 1 = none → ∃ s' q r, Reachable body (Policy.calls fun _ => True).ok s₀ s' ∧
        s'.world = s₀.world ∧ s'.procs 1 = some q ∧ q.call = .placeBet otherAmountParams ∧
        q.prog.Ends r ∧ (Separates betParams.dto otherAmountParams.dto r ↔
          Distinguishable betParams.dto otherAmountParams)) := by
  have hrun : ((Policy.calls fun _ => True).steps body (initial bettingDb [roundId])
      (placementRun 0 20 21)).map (fun s =>
        (answered s 0 (.placeBet betParams) (.ok (.bet placedFirst)), (s.procs 1).isNone)) =
      some (true, true) := by decide
  obtain ⟨s₀, q₀, hs, hj, hq₀, hcall, hends⟩ := answered_first hrun
  exact ⟨s₀, hs, hj, reuse_separates_iff (.steps known_bettingDb hs) hq₀ hcall hends rfl .refl
    hj rfl rfl⟩

def otherGameParams : PlaceBetParams :=
  { betParams with dto := { betParams.dto with gameId := .tripleChanceProTimer } }

def otherGameRetry : List (Label sql) := [.spawn 1 (.placeBet otherGameParams), .run 1, .run 1]

theorem other_game_is_replayed :
    ∃ s₀ s q₀ q, Run (Policy.calls fun _ => True) bettingDb s₀ ∧ s₀.procs 0 = some q₀ ∧
      q₀.call = .placeBet betParams ∧ q₀.prog.Ends (.ok (.bet placedFirst)) ∧
      placedFirst.replayed = false ∧
      Reachable body (Policy.calls fun _ => True).ok s₀ s ∧ s₀.procs 1 = none ∧
      s.procs 1 = some q ∧ q.call = .placeBet otherGameParams ∧ q.loc.faulted = false ∧
      q.prog.Ends (.ok (.bet { placedFirst with replayed := true })) ∧
      ¬ Separates betParams.dto otherGameParams.dto
        (.ok (.bet { placedFirst with replayed := true })) := by
  have hrun : ((Policy.calls fun _ => True).steps body (initial bettingDb [roundId])
      (placementRun 0 20 21)).bind (fun s₀ =>
        ((Policy.calls fun _ => True).steps body s₀ otherGameRetry).map fun s =>
          (answered s₀ 0 (.placeBet betParams) (.ok (.bet placedFirst)), (s₀.procs 1).isNone,
            answered s 1 (.placeBet otherGameParams)
              (.ok (.bet { placedFirst with replayed := true })))) = some (true, true, true) := by
    decide
  obtain ⟨s₀, s, q₀, q, hs₀, hs, hj, hq₀, hcall₀, hends₀, hq, hcall, hfault, hends⟩ :=
    answered_second hrun
  refine ⟨s₀, s, q₀, q, .steps known_bettingDb hs₀, hq₀, hcall₀, hends₀, rfl, hs, hj, hq, hcall,
    hfault, hends, ?_⟩
  rintro (⟨res, -, -, hsame⟩ | hres)
  · cases hsame.game
  · cases hres

end JitoGame
