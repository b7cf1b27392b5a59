import JitoGame.Answers
import JitoGame.BetLedger

namespace JitoGame

open Transactions

structure Creation (log : List (Commit sql)) (c : Commit sql) (windowMs : ℕ) (row : GameRound) :
    Prop where
  mem : c ∈ log
  call : ∃ gameId, c.call = .reconcile windowMs gameId
  writes : .insertRound row ∈ c.writes

def LocksInTime (log : List (Commit sql)) : Prop :=
  ∀ c₀ windowMs row, Creation log c₀ windowMs row → ∀ c ∈ log, ∀ now,
    .lockRound row.id now ∈ c.writes → c₀.start + windowMs ≤ c.start

def RejectsInTime (s : State sql) : Prop :=
  ∀ i p params m rest c₀ windowMs row, s.procs i = some p → p.call = .placeBet params →
    p.prog.Ends (.error .deadlinePassed) → p.loc.trace = m :: rest →
    Creation s.world.log c₀ windowMs row → Uuid.parse params.dto.roundId = some row.id →
    c₀.start + windowMs ≤ m.now

structure OneClock (s : State sql) : Prop where
  locks : LocksInTime s.world.log
  rejects : RejectsInTime s

def Write.hostAhead (now : ℕ) : Write → Bool
  | .insertRound row => now ≤ row.opensAt
  | _ => true

/-- The clock of the engine's host, read before a row was inserted, was not behind the clock of the
database at the insert. -/
def HostAhead (c : Commit sql) : Prop := ∀ x ∈ c.writes, x.hostAhead c.start = true

theorem Meets.created {allowed : Call → Prop} {c : Commit sql} {d : Db} (h : Meets allowed c d)
    {windowMs : ℕ} {gameId : GameId} (hc : c.call = .reconcile windowMs gameId) {row : GameRound}
    (hw : .insertRound row ∈ c.writes) :
    c.writes = [.insertRound row] ∧ Creates windowMs gameId row d := by
  have hupdate {roundId : Uuid} {guard : ℕ → GameRound → Bool} {x : ℕ → Write}
      (h : Updates roundId guard x c d) (hx : ∀ now, x now ≠ .insertRound row) : False := by
    rcases h with h | ⟨h, -⟩
    · rw [h] at hw
      cases hw
    · rw [h, List.mem_singleton] at hw
      exact hx _ hw.symm
  obtain ⟨-, h⟩ := h
  rw [hc] at h
  rcases h with ⟨row', hw', hcreates⟩ | ⟨roundId, h | h⟩
  · rw [hw', List.mem_singleton] at hw
    cases hw
    exact ⟨hw', hcreates⟩
  · exact (hupdate h fun _ => nofun).elim
  · exact (hupdate h fun _ => nofun).elim

section Run

variable {K : Policy sql} {base : Db} {s : State sql}

theorem Run.created_deadline (h : Run K base s) {c : Commit sql} {windowMs : ℕ} {row r : GameRound}
    (hc : Creation s.world.log c windowMs row) {older : List (Commit sql)}
    (hs : older <:+ s.world.log) (hr : Db.roundOf (replay base older) row.id = some r) :
    r.bettingDeadline = row.opensAt + windowMs := by
  obtain ⟨gameId, hcall⟩ := hc.call
  obtain ⟨older₀, hs₀, hmeets⟩ := h.chronicle.found hc.mem
  obtain ⟨hw, hcreates⟩ := hmeets.created hcall hc.writes
  have hafter : Db.roundOf (replay base (c :: older₀)) row.id = some row := by
    have hnone : Db.roundOf (replay base older₀) row.id = none := by
      rw [Db.roundOf, List.find?_eq_none]
      intro r₀ hr₀ hid
      exact hcreates.fresh (of_decide_eq_true hid ▸ .round hr₀)
    rw [replay, hw]
    change (Write.apply (.insertRound row) (replay base older₀)).roundOf row.id = some row
    rw [roundOf_apply, hnone]
    simp [Write.newRounds]
  have hsuffix : (c :: older₀) <:+ older := by
    rcases List.suffix_or_suffix_of_suffix hs₀ hs with hle | hle
    · exact hle
    rcases List.suffix_cons_iff.mp hle with heq | hle
    · exact heq ▸ List.suffix_refl _
    · obtain ⟨r₀, hr₀, -⟩ := (grows_replay hle).rounds _ r hr
      have hid : r₀.id = row.id := by simpa using List.find?_some hr₀
      exact absurd (hid ▸ .round (List.mem_of_find?_eq_some hr₀)) hcreates.fresh
  obtain ⟨r', hr', hsame⟩ := (grows_replay hsuffix).rounds _ row hafter
  cases hr.symm.trans hr'
  rw [hsame.bettingDeadline, hcreates.eq_row]
  rfl

theorem Effect.locked_of_mem {c : Commit sql} {d : Db} (h : Effect c d) {roundId : Uuid} {now : ℕ}
    (hw : .lockRound roundId now ∈ c.writes) :
    ∃ r, d.roundOf roundId = some r ∧ r.bettingDeadline ≤ c.start := by
  cases h with
  | @locking lockedId r hw' hr hclose =>
    rw [hw', List.mem_singleton] at hw
    cases hw
    have hclose' : r.state.lockable = true ∧ r.bettingDeadline ≤ c.start := by
      simpa [GameRound.closable] using hclose
    exact ⟨r, hr, hclose'.2⟩
  | mutation _ hw' _ => rw [hw'] at hw; simp [post] at hw
  | adjustment _ hw' _ => rw [hw'] at hw; simp [post] at hw
  | placement _ hw' _ => rw [hw'] at hw; simp [placed, post] at hw
  | creation hw' _ => rw [hw'] at hw; simp at hw
  | opening hw' _ _ => rw [hw'] at hw; simp at hw
  | idle hw' => rw [hw'] at hw; cases hw

theorem Run.rejected (h : Run K base s) {i : ℕ} {p : Proc sql} {params : PlaceBetParams}
    (hp : s.procs i = some p) (hc : p.call = .placeBet params)
    (hr : p.prog.Ends (.error .deadlinePassed)) : BetsService.Late params p.loc.trace := by
  obtain ⟨w, -, hanswer⟩ := h.answers hp hr
  rw [hc] at hanswer
  obtain ⟨r', hr', hanswer⟩ := hanswer
  have hr' : r' = .error .deadlinePassed := by
    cases r' with
    | ok a => cases hr'
    | error e => cases hr'; rfl
  subst hr'
  cases hanswer with
  | invalid _ he => cases BetsService.validate_status he
  | tried _ _ _ _ hl => exact hl rfl

/-- While the engine's host is not behind the database, no round is locked and no bet refused before
the betting window is over. -/
theorem oneClock_of_run (h : Run K base s) (hK : ∀ c d older, K.commit c d older → HostAhead c) :
    OneClock s := by
  have hahead {c₀ : Commit sql} {windowMs : ℕ} {row : GameRound}
      (hc : Creation s.world.log c₀ windowMs row) : c₀.start ≤ row.opensAt := by
    obtain ⟨older, hs, -⟩ := h.chronicle.found hc.mem
    exact of_decide_eq_true (hK c₀ _ older (h.obeys.log c₀ older hs).commit _ hc.writes)
  constructor
  · intro c₀ windowMs row hc₀ c hc now hw
    obtain ⟨older, hs, heffect⟩ := h.effects.found hc
    obtain ⟨r, hr, hd⟩ := heffect.locked_of_mem hw
    have hdead := h.created_deadline hc₀ ((List.suffix_cons _ _).trans hs) hr
    have hle := hahead hc₀
    omega
  · intro i p params m rest c₀ windowMs row hp hcall hends htrace hc₀ hid
    obtain ⟨m', rest', id, r, htrace', -, hid', hr, hd⟩ := h.rejected hp hcall hends
    obtain ⟨rfl, -⟩ := List.cons.inj (htrace.symm.trans htrace')
    obtain rfl := Option.some.inj (hid.symm.trans hid')
    have hmark := ((h.obeys.procs i p hp).marks m (htrace ▸ List.mem_cons_self)).seen
    obtain ⟨older, hs, -, hdb⟩ := hmark
    have hdead := h.created_deadline hc₀ hs (hdb ▸ hr)
    have hle := hahead hc₀
    omega

end Run

def hostAhead : Policy sql :=
  ⟨fun _ => True, fun _ _ => True, fun c _ _ => HostAhead c, fun _ => True⟩

instance : DecidablePred hostAhead.spawn := fun _ => isTrue trivial

instance (c : Call) : DecidablePred (hostAhead.stmt c) := fun _ => isTrue trivial

instance (c : Commit sql) (d : Db) : DecidablePred (hostAhead.commit c d) := fun _ =>
  inferInstanceAs (Decidable (∀ x ∈ c.writes, x.hostAhead c.start = true))

instance : DecidablePred hostAhead.fault := fun _ => isTrue trivial

def noRoundDb : Db := { bettingDb with rounds := [] }

theorem known_noRoundDb : ∀ x, noRoundDb.Known x → x ∈ ([] : List Uuid) := by
  rintro x (h | h | h | h | h) <;> simp [noRoundDb, bettingDb] at h

/-- At 100 of the database the host's clock shows `opensAt`. The round is created, opened, bet on and
locked at once. -/
def hostRun (opensAt : ℕ) : List (Label sql) :=
  [.tick 100, .spawn 0 (.reconcile 60 .tripleChanceTimer), .run 0, .run 0, .input 0 opensAt,
    .mint 0 roundId, .run 0, .run 0, .run 0, .run 0, .run 0,
    .spawn 1 (.openRound roundId), .run 1, .run 1, .run 1,
    .spawn 2 (.placeBet betParams), .run 2, .run 2, .run 2, .run 2,
    .spawn 3 (.lockIfDeadlinePassed roundId), .run 3, .run 3, .run 3]

theorem oneClock_after_creation :
    ∃ s, hostAhead.steps body (initial noRoundDb []) (hostRun 100) = some s ∧
      s.world.log.length = 3 ∧ OneClock s := by
  have hrun : (hostAhead.steps body (initial noRoundDb []) (hostRun 100)).map
      (fun s => s.world.log.length) = some 3 := by decide
  obtain ⟨s, hs, hlen⟩ := Option.map_eq_some_iff.mp hrun
  exact ⟨s, hs, hlen, oneClock_of_run (.steps known_noRoundDb hs) fun _ _ _ hc => hc⟩

def createdBy (c : Commit sql) (windowMs : ℕ) (gameId : GameId) (row : GameRound) : Bool :=
  c.call = .reconcile windowMs gameId ∧ .insertRound row ∈ c.writes

def lockedEarly (log : List (Commit sql)) (windowMs : ℕ) (row : GameRound) : Bool :=
  log.any fun c₀ => createdBy c₀ windowMs row.gameId row ∧ log.any fun c =>
    .lockRound row.id c.start ∈ c.writes ∧ c.start < c₀.start + windowMs

def rejectedEarly (s : State sql) (i : ℕ) (params : PlaceBetParams) (windowMs : ℕ) (row : GameRound) :
    Bool :=
  Uuid.parse params.dto.roundId = some row.id ∧ s.world.log.any fun c₀ =>
    createdBy c₀ windowMs row.gameId row ∧ (s.procs i).any fun p => p.call = .placeBet params ∧
      p.prog.result = some (.error .deadlinePassed) ∧
      p.loc.trace.head?.any fun m => m.now < c₀.start + windowMs

theorem creation_of_createdBy {log : List (Commit sql)} {c : Commit sql} {windowMs : ℕ}
    {row : GameRound} (hc : c ∈ log) (h : createdBy c windowMs row.gameId row = true) :
    Creation log c windowMs row := by
  simp only [createdBy, Bool.decide_and, Bool.and_eq_true, decide_eq_true_eq] at h
  exact ⟨hc, ⟨_, h.1⟩, h.2⟩

theorem not_locksInTime {log : List (Commit sql)} {windowMs : ℕ} {row : GameRound}
    (h : lockedEarly log windowMs row = true) : ¬ LocksInTime log := by
  simp only [lockedEarly, List.any_eq_true, Bool.decide_and, Bool.and_eq_true, decide_eq_true_eq] at h
  obtain ⟨c₀, hc₀, hcreated, c, hc, hw, hlt⟩ := h
  intro hall
  have hle := hall c₀ windowMs row (creation_of_createdBy hc₀ hcreated) c hc _ hw
  omega

theorem not_rejectsInTime {s : State sql} {i windowMs : ℕ} {params : PlaceBetParams} {row : GameRound}
    (h : rejectedEarly s i params windowMs row = true) : ¬ RejectsInTime s := by
  simp only [rejectedEarly, List.any_eq_true, Option.any_eq_true, Bool.decide_and, Bool.and_eq_true,
    decide_eq_true_eq] at h
  obtain ⟨hid, c₀, hc₀, hcreated, p, hp, hcall, hres, m, hm, hlt⟩ := h
  obtain ⟨rest, htrace⟩ := List.head?_eq_some_iff.mp hm
  intro hall
  have hle := hall i p params m rest c₀ windowMs row hp hcall hres htrace
    (creation_of_createdBy hc₀ hcreated) hid
  omega

theorem skewed_host_locks_early :
    ∃ s, (Policy.calls fun _ => True).steps body (initial noRoundDb []) (hostRun 0) = some s ∧
      ¬ LocksInTime s.world.log ∧ ¬ RejectsInTime s := by
  have hrun : ((Policy.calls fun _ => True).steps body (initial noRoundDb []) (hostRun 0)).map
      (fun s => (lockedEarly s.world.log 60 (RoundsService.roundRow roundId .tripleChanceTimer 1 0 60),
        rejectedEarly s 2 betParams 60 (RoundsService.roundRow roundId .tripleChanceTimer 1 0 60))) =
      some (true, true) := by decide
  obtain ⟨s, hs, hearly⟩ := Option.map_eq_some_iff.mp hrun
  obtain ⟨hlock, hreject⟩ := Prod.mk.inj hearly
  exact ⟨s, hs, not_locksInTime hlock, not_rejectsInTime hreject⟩

end JitoGame
