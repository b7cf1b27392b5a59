import JitoGame.Numbering
import JitoGame.Transactions.Later
import JitoGame.Transport

namespace JitoGame

open Transactions

def GameId.text : GameId → String
  | .tripleChanceTimer => "triple-chance-timer"
  | .tripleChanceProTimer => "triple-chance-pro-timer"

structure RoundData where
  roundId : Uuid
  roundNumber : ℤ
  displayCode : String
  state : RoundState
  stateVersion : ℤ
  opensAt : ℕ
  bettingDeadline : ℕ
  deriving DecidableEq

structure CurrentRoundData where
  round : RoundData
  serverTime : ℕ
  drawValue : Option ℤ
  deriving DecidableEq

namespace GamesService

def assertKnownGameId (value : String) : Except Err GameId :=
  match [GameId.tripleChanceTimer, .tripleChanceProTimer].find? fun g => g.text = value with
  | some gameId => pure gameId
  | none => throw .notFound

def roundData (round : GameRound) : RoundData :=
  ⟨round.id, centipointsToNumber round.roundNumber, round.displayCode, round.state,
    centipointsToNumber round.stateVersion, round.opensAt, round.bettingDeadline⟩

-- `findFirst` is the query of `findLiveRound` in the engine
def getCurrentRound (d : Db) (gameIdParam : String) (now : ℕ) : Except Err CurrentRoundData := do
  let gameId ← assertKnownGameId gameIdParam
  match RoundsService.liveRound d gameId with
  | none => throw .notFound
  | some round => pure ⟨roundData round, now, none⟩

end GamesService

structure GameRound.Before (r r' : GameRound) : Prop where
  same : r.Same r'
  opensAt : r'.opensAt = r.opensAt
  version : r' = r ∨ r.stateVersion < r'.stateVersion

theorem GameRound.Before.refl (r : GameRound) : r.Before r := ⟨.refl r, rfl, .inl rfl⟩

theorem GameRound.Before.trans {r r' r'' : GameRound} (h : r.Before r') (h' : r'.Before r'') :
    r.Before r'' := by
  refine ⟨h.same.trans h'.same, h'.opensAt.trans h.opensAt, ?_⟩
  rcases h.version with rfl | hlt
  · exact h'.version
  · rcases h'.version with rfl | hlt'
    · exact .inr hlt
    · exact .inr (Int.lt_trans hlt hlt')

theorem Write.before_touch (x : Write) (r : GameRound) : r.Before (x.touch r) := by
  have hnext (st : RoundState) (at' : Option ℕ) :
      r.Before { r with state := st, stateVersion := r.stateVersion + 1, lockedAt := at' } :=
    ⟨⟨rfl, rfl, rfl, rfl, rfl⟩, rfl, .inr (Int.lt_succ _)⟩
  cases x with
  | openRound i =>
    simp only [Write.touch]
    split
    · exact hnext _ _
    · exact .refl r
  | lockRound i now =>
    simp only [Write.touch]
    split
    · exact hnext _ _
    · exact .refl r
  | finishRound i state =>
    simp only [Write.touch]
    split
    · exact hnext _ _
    · exact .refl r
  | _ => exact .refl r

def Ages (d d' : Db) : Prop := ∀ r ∈ d.rounds, ∃ r' ∈ d'.rounds, r.Before r'

theorem ages_applyAll (ws : List Write) (d : Db) : Ages d (applyAll (S := engine) ws d) := by
  induction ws generalizing d with
  | nil => exact fun r hr => ⟨r, hr, .refl r⟩
  | cons x ws ih =>
    intro r hr
    have htouched : x.touch r ∈ (x.apply d).rounds := by
      rw [rounds_apply]
      exact List.mem_append_left _ (List.mem_map_of_mem hr)
    obtain ⟨r', hr', hbefore⟩ := ih (x.apply d) _ htouched
    exact ⟨r', hr', (x.before_touch r).trans hbefore⟩

theorem ages_replay (base : Db) {log log' : List (Commit engine)} (hs : log <:+ log') :
    Ages (replay base log) (replay base log') := by
  obtain ⟨front, rfl⟩ := hs
  induction front with
  | nil => exact fun r hr => ⟨r, hr, .refl r⟩
  | cons c front ih =>
    intro r hr
    obtain ⟨r', hr', hbefore⟩ := ih r hr
    obtain ⟨r'', hr'', hbefore'⟩ := ages_applyAll c.writes _ r' hr'
    exact ⟨r'', hr'', hbefore.trans hbefore'⟩

def Latest (d : Db) : Prop := ∀ r ∈ d.rounds, r.state.terminal = false →
  ∀ r' ∈ d.rounds, r'.gameId = r.gameId → r'.roundNumber ≤ r.roundNumber

def Versioned (d : Db) : Prop := ∀ r ∈ d.rounds, 0 ≤ r.stateVersion

structure InSequence (d : Db) : Prop extends RoundsInOrder d where
  latest : Latest d
  versioned : Versioned d

theorem Latest.step {d d' : Db} (h : Latest d) (hn : Numbered d) (hs : RoundsStep d d') : Latest d' := by
  cases hs with
  | @touched f hd same live =>
    intro r hr hlive r' hr' hgame
    rw [hd, List.mem_map] at hr hr'
    obtain ⟨r, hr, rfl⟩ := hr
    obtain ⟨r', hr', rfl⟩ := hr'
    rw [(same r).gameId, (same r').gameId] at hgame
    rw [(same r).roundNumber, (same r').roundNumber]
    exact h r hr (live r hlive) r' hr' hgame
  | @created windowMs gameId row hd hc hf =>
    have hgame : row.gameId = gameId := by rw [hc.eq_row]; rfl
    have hlast (r : GameRound) (hr : r ∈ d.rounds) (hg : r.gameId = gameId) :
        r.roundNumber ≤ row.roundNumber := by
      obtain ⟨n, hperm⟩ := hn gameId
      have hnext := Numbered.next hperm hf hc.number
      have hnumber := (Numbered.hasNumber_iff hperm).mp ⟨r, hr, hg, rfl⟩
      omega
    intro r hr hlive r' hr' hg
    rw [hd, List.mem_append, List.mem_singleton] at hr hr'
    rcases hr with hr | rfl
    · rcases hr' with hr' | rfl
      · exact h r hr hlive r' hr' hg
      · exact absurd ⟨r, hr, hg.symm.trans hgame, hlive⟩ hc.live
    · rcases hr' with hr' | rfl
      · exact hlast r' hr' (hg.trans hgame)
      · exact Int.le_refl _

theorem Versioned.write {d : Db} (h : Versioned d) {x : Write} (hx : x.newRounds = []) :
    Versioned (x.apply d) := by
  intro r hr
  rw [rounds_apply, hx, List.append_nil, List.mem_map] at hr
  obtain ⟨r, hr, rfl⟩ := hr
  have hold := h r hr
  rcases (x.before_touch r).version with hsame | hlt
  · rw [hsame]
    exact hold
  · omega

theorem Versioned.commit {c : Commit engine} {d : Db} (h : Versioned d) (hc : EngineMeets c d) :
    Versioned (applyAll c.writes d) := by
  have hupdate {roundId : Uuid} {guard : ℕ → GameRound → Bool} {x : ℕ → Write}
      (hup : Updates roundId guard x c d) (hx : ∀ now, (x now).newRounds = []) :
      Versioned (applyAll c.writes d) := by
    rcases hup with hw | ⟨hw, -⟩
    · rw [hw]
      exact h
    · rw [hw]
      exact h.write (hx _)
  cases hc with
  | @creation windowMs gameId row hw hc hn =>
    rw [hw]
    intro r hr
    have hr : r ∈ ((Write.insertRound row).apply d).rounds := hr
    rcases mem_rounds_apply d hr with ⟨r₀, hr₀, rfl⟩ | hr
    · exact h r₀ hr₀
    · obtain rfl := List.mem_singleton.mp hr
      rw [hc.eq_row]
      exact Int.le_refl 0
  | opening hup => exact hupdate hup fun _ => rfl
  | locking hup => exact hupdate hup fun _ => rfl
  | finishing hup => exact hupdate hup fun _ => rfl

theorem InSequence.commit {c : Commit engine} {d : Db} (h : InSequence d) (hc : EngineMeets c d) :
    InSequence (applyAll c.writes d) where
  live := h.live.step hc.step
  numbered := h.numbered.step hc.step
  latest := h.latest.step h.numbered hc.step
  versioned := h.versioned.commit hc

theorem Numbered.eq_of_number {d : Db} (h : Numbered d) {r r' : GameRound} (hr : r ∈ d.rounds)
    (hr' : r' ∈ d.rounds) (hgame : r.gameId = r'.gameId) (hnumber : r.roundNumber = r'.roundNumber) :
    r = r' := by
  obtain ⟨n, hperm⟩ := h r.gameId
  refine List.inj_on_of_nodup_map (hperm.nodup_iff.mpr (nodup_upTo n)) ?_ ?_ hnumber
  · exact List.mem_filter.mpr ⟨hr, decide_eq_true rfl⟩
  · exact List.mem_filter.mpr ⟨hr', decide_eq_true hgame.symm⟩

namespace GamesService

structure Current (d : Db) (gameIdParam : String) (a : CurrentRoundData) (r : GameRound) : Prop where
  mem : r ∈ d.rounds
  game : r.gameId.text = gameIdParam
  live : r.state.terminal = false
  round : a.round = roundData r
  drawValue : a.drawValue = none
  latest : ∀ r' ∈ d.rounds, r'.gameId = r.gameId → r'.roundNumber ≤ r.roundNumber
  only : ∀ r' ∈ d.rounds, r'.gameId = r.gameId → r'.state.terminal = false → r' = r

inductive Advances (a b : RoundData) : Prop
  | round (h : a.roundNumber < b.roundNumber)
  | state (id : b.roundId = a.roundId) (number : b.roundNumber = a.roundNumber)
      (code : b.displayCode = a.displayCode) (opensAt : b.opensAt = a.opensAt)
      (deadline : b.bettingDeadline = a.bettingDeadline)
      (h : b = a ∨ a.stateVersion < b.stateVersion)

variable {d : Db} {gameIdParam : String} {now : ℕ} {a : CurrentRoundData}

theorem assertKnownGameId_ok {gameId : GameId} (h : assertKnownGameId gameIdParam = .ok gameId) :
    gameId.text = gameIdParam := by
  unfold assertKnownGameId at h
  split at h
  · rename_i g hg
    cases h
    simpa using List.find?_some hg
  · cases h

theorem current (h : InSequence d) (ha : getCurrentRound d gameIdParam now = .ok a) :
    ∃ r, Current d gameIdParam a r := by
  cases hgame : assertKnownGameId gameIdParam with
  | error e =>
    rw [getCurrentRound, hgame] at ha
    cases ha
  | ok gameId =>
    have htext := assertKnownGameId_ok hgame
    cases hround : RoundsService.liveRound d gameId with
    | none =>
      simp only [getCurrentRound, hgame, bind, Except.bind, hround] at ha
      cases ha
    | some r =>
      simp only [getCurrentRound, hgame, bind, Except.bind, hround] at ha
      cases ha
      have hmem := ((RoundsService.foldl_later _ none).1 r hround).resolve_right (by simp)
      obtain ⟨hmem, hr⟩ := List.mem_filter.mp hmem
      obtain ⟨hg, hlive⟩ : r.gameId = gameId ∧ r.state.terminal = false := by simpa using hr
      refine ⟨r, hmem, hg ▸ htext, hlive, rfl, rfl, h.latest r hmem hlive, fun r' hr' hg' hlive' => ?_⟩
      have hle := h.latest r hmem hlive r' hr' hg'
      have hle' := h.latest r' hr' hlive' r hmem hg'.symm
      exact h.numbered.eq_of_number hr' hmem hg' (Int.le_antisymm hle hle')

end GamesService

section Run

open GamesService

variable {K : Policy engine} {base : Db} {s s' : State engine}

theorem EngineRun.inSequence (h : EngineRun K base s) (h₀ : InSequence base) :
    InSequence s.world.db := by
  rw [h.invariant.ok.db_eq]
  exact h.chronicle.keeps h₀ fun _ _ hc hd => hd.commit hc

theorem EngineRun.later (h : EngineRun K base s) (hs : Reachable engineBody K.ok s s') :
    EngineRun K base s' := Transactions.Run.later h hs

theorem EngineRun.ages (h : EngineRun K base s) (hs : Reachable engineBody K.ok s s') :
    Ages s.world.db s'.world.db := by
  rw [h.invariant.ok.db_eq, (h.later hs).invariant.ok.db_eq]
  exact ages_replay base hs.log_suffix

/-- Of two answers of a run, the round number and the state version tell which is the later one, as
long as both are exact as JavaScript numbers. -/
theorem snapshots_of_run (h : EngineRun K base s) (h₀ : InSequence base)
    (hs : Reachable engineBody K.ok s s') (hsafe : ∀ r ∈ Db.rounds s'.world.db,
      r.roundNumber ≤ maxSafeAmount ∧ r.stateVersion ≤ maxSafeAmount)
    {gameIdParam : String} {now now' : ℕ} {a b : CurrentRoundData}
    (ha : getCurrentRound s.world.db gameIdParam now = .ok a)
    (hb : getCurrentRound s'.world.db gameIdParam now' = .ok b) :
    Advances a.round b.round ∧ ∃ r, Current s'.world.db gameIdParam b r := by
  have hseq : InSequence s'.world.db := EngineRun.inSequence (h.later hs) h₀
  obtain ⟨r, hr⟩ := current (h.inSequence h₀) ha
  obtain ⟨r', hr'⟩ := current hseq hb
  obtain ⟨r₁, hr₁, hbefore⟩ := h.ages hs r hr.mem
  refine ⟨?_, r', hr'⟩
  have hgame : r₁.gameId = r'.gameId := by
    have htext : r.gameId.text = r'.gameId.text := hr.game.trans hr'.game.symm
    rw [hbefore.same.gameId]
    revert htext
    cases r.gameId <;> cases r'.gameId <;> decide
  have hexact {x : GameRound} (hx : x ∈ Db.rounds s'.world.db) :
      centipointsToNumber x.roundNumber = x.roundNumber ∧
        centipointsToNumber x.stateVersion = x.stateVersion := by
    obtain ⟨n, hn⟩ := hseq.numbered.eq_natCast hx
    have hversion := hseq.versioned x hx
    exact ⟨centipointsToNumber_exact (by omega) (hsafe x hx).1,
      centipointsToNumber_exact hversion (hsafe x hx).2⟩
  have hversion : centipointsToNumber r.stateVersion = r.stateVersion := by
    have hversion := (h.inSequence h₀).versioned r hr.mem
    refine centipointsToNumber_exact hversion ?_
    rcases hbefore.version with rfl | hlt
    · exact (hsafe _ hr₁).2
    · exact Int.le_trans (Int.le_of_lt hlt) (hsafe _ hr₁).2
  have hnumber : centipointsToNumber r.roundNumber = r₁.roundNumber := by
    rw [← hbefore.same.roundNumber, (hexact hr₁).1]
  rw [hr.round, hr'.round]
  rcases Int.lt_or_eq_of_le (hr'.latest r₁ hr₁ hgame) with hlt | heq
  · refine .round ?_
    simp only [roundData]
    rw [hnumber, (hexact hr'.mem).1]
    exact hlt
  · obtain rfl := hseq.numbered.eq_of_number hr₁ hr'.mem hgame heq
    refine .state hbefore.same.id ?_ hbefore.same.displayCode hbefore.opensAt
      hbefore.same.bettingDeadline ?_
    · simp only [roundData]
      rw [hnumber, (hexact hr₁).1]
    · rcases hbefore.version with rfl | hlt
      · exact .inl rfl
      · refine .inr ?_
        simp only [roundData]
        rw [hversion, (hexact hr₁).2]
        exact hlt

end Run

open GamesService

def creationRun : List (Label engine) :=
  [.spawn 0 (.reconcile 60 .tripleChanceTimer), .run 0, .run 0, .input 0 40, .mint 0 roundId, .run 0,
    .run 0, .run 0, .run 0, .run 0]

def openingRun : List (Label engine) :=
  [.spawn 1 (.reconcile 60 .tripleChanceTimer), .run 1, .run 1, .run 1, .run 1]

def snapshotOf (s : State engine) : Option CurrentRoundData :=
  (getCurrentRound s.world.db "triple-chance-timer" 50).toOption

theorem snapshotOf_eq {s : State engine} {a : CurrentRoundData} (h : snapshotOf s = some a) :
    getCurrentRound s.world.db "triple-chance-timer" 50 = .ok a := by
  unfold snapshotOf at h
  cases hx : getCurrentRound s.world.db "triple-chance-timer" 50 with
  | ok b => rw [hx] at h; cases h; rfl
  | error e => rw [hx] at h; cases h

theorem inSequence_emptyDb : InSequence emptyDb where
  live _ := Nat.zero_le 1
  numbered _ := ⟨0, .nil⟩
  latest _ hr := by cases hr
  versioned _ hr := by cases hr

theorem snapshots_after_opening : ∃ (s s' : State engine) (a b : CurrentRoundData),
    (Policy.calls fun _ => True).steps engineBody (initial emptyDb []) creationRun = some s ∧
      (Policy.calls fun _ => True).steps engineBody s openingRun = some s' ∧
      a.round.state = .created ∧ b.round.state = .bettingOpen ∧ Advances a.round b.round ∧
      ∃ r, Current s'.world.db "triple-chance-timer" b r := by
  have hrun : (((Policy.calls fun _ => True).steps engineBody (initial emptyDb []) creationRun).bind
      fun s => ((Policy.calls fun _ => True).steps engineBody s openingRun).bind fun s' =>
        (snapshotOf s).bind fun a => (snapshotOf s').map fun b =>
          (a.round.state, b.round.state, (Db.rounds s'.world.db).map fun r => (r.roundNumber, r.stateVersion))) =
      some (.created, .bettingOpen, [(1, 1)]) := by decide +kernel
  obtain ⟨s, hs, hrun⟩ := Option.bind_eq_some_iff.mp hrun
  obtain ⟨s', hs', hrun⟩ := Option.bind_eq_some_iff.mp hrun
  obtain ⟨a, ha, hrun⟩ := Option.bind_eq_some_iff.mp hrun
  obtain ⟨b, hb, hrun⟩ := Option.map_eq_some_iff.mp hrun
  simp only [Prod.mk.injEq] at hrun
  obtain ⟨hcreated, hopen, hrounds⟩ := hrun
  have hknown : ∀ x, emptyDb.Known x → x ∈ ([] : List Uuid) := by
    rintro x (h | h | h | h | h) <;> simp [emptyDb] at h
  have hsafe : ∀ r ∈ Db.rounds s'.world.db,
      r.roundNumber ≤ maxSafeAmount ∧ r.stateVersion ≤ maxSafeAmount := by
    intro r hr
    have hmem := List.mem_map_of_mem (f := fun r : GameRound => (r.roundNumber, r.stateVersion)) hr
    rw [hrounds, List.mem_singleton, Prod.mk.injEq] at hmem
    rw [hmem.1, hmem.2]
    decide
  obtain ⟨hadvances, hcurrent⟩ := snapshots_of_run (.steps hknown hs) inSequence_emptyDb
    (Policy.reachable_steps _ .refl hs') hsafe (snapshotOf_eq ha) (snapshotOf_eq hb)
  exact ⟨s, s', a, b, hs, hs', hcreated, hopen, hadvances, hcurrent⟩

end JitoGame
