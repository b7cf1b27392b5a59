import JitoGame.BetLedger

namespace JitoGame

open Transactions

inductive RoundStep (c : Commit sql) (roundId : Uuid) : Option GameRound → Option GameRound → Prop
  | same (o : Option GameRound) : RoundStep c roundId o o
  | created {row : GameRound} (hs : row.state = .created) (hv : row.stateVersion = 0)
      (hl : row.lockedAt = none) : RoundStep c roundId none (some row)
  | opened {r : GameRound} (hw : c.writes = [.openRound roundId]) (h : r.openable = true) :
      RoundStep c roundId (some r) (some r.opened)
  | locked {r : GameRound} (hw : c.writes = [.lockRound roundId c.start])
      (h : r.closable c.start = true) : RoundStep c roundId (some r) (some (r.locked c.start))

theorem Effect.round {c : Commit sql} {d : Db} (h : Effect c d) (roundId : Uuid) :
    RoundStep c roundId (d.roundOf roundId) (Db.roundOf (applyAll c.writes d) roundId) := by
  have hquiet (hw : Db.rounds (applyAll c.writes d) = d.rounds) :
      RoundStep c roundId (d.roundOf roundId) (Db.roundOf (applyAll c.writes d) roundId) := by
    simp only [Db.roundOf, hw]
    exact .same _
  cases h with
  | mutation _ hw _ => exact hquiet (by rw [hw]; rfl)
  | adjustment _ hw _ => exact hquiet (by rw [hw]; rfl)
  | placement _ hw _ => exact hquiet (by rw [hw]; rfl)
  | idle hw => exact hquiet (by rw [hw]; rfl)
  | @creation windowMs gameId row hw h =>
    have hafter : Db.roundOf (applyAll c.writes d) roundId =
        (d.roundOf roundId).or ([row].find? fun r => r.id = roundId) := by
      rw [hw]
      exact (roundOf_apply d (.insertRound row) roundId).trans (by simp [Write.touch, Write.newRounds])
    rw [hafter]
    cases hr : d.roundOf roundId with
    | some r => simpa using .same _
    | none =>
      by_cases hid : row.id = roundId
      · simp only [hid, Option.none_or, List.find?_cons, decide_true]
        exact .created (by rw [h.eq_row]; rfl) (by rw [h.eq_row]; rfl) (by rw [h.eq_row]; rfl)
      · simpa [hid] using .same _
  | @opening openedId r hw hr h =>
    have hafter : Db.roundOf (applyAll c.writes d) roundId =
        (d.roundOf roundId).map (Write.openRound openedId).touch := by
      rw [hw]
      exact (roundOf_apply d (.openRound openedId) roundId).trans (by simp [Write.newRounds])
    rw [hafter]
    cases hr' : d.roundOf roundId with
    | none => exact .same _
    | some r' =>
      have hid : r'.id = roundId := by simpa using List.find?_some hr'
      by_cases ht : r'.id = openedId ∧ r'.openable
      · have htouch : (Write.openRound openedId).touch r' = r'.opened := if_pos ht
        rw [Option.map_some, htouch]
        exact .opened (by rw [hw, ← ht.1, hid]) ht.2
      · have htouch : (Write.openRound openedId).touch r' = r' := if_neg ht
        rw [Option.map_some, htouch]
        exact .same _
  | @locking lockedId r hw hr h =>
    have hafter : Db.roundOf (applyAll c.writes d) roundId =
        (d.roundOf roundId).map (Write.lockRound lockedId c.start).touch := by
      rw [hw]
      exact (roundOf_apply d (.lockRound lockedId c.start) roundId).trans (by simp [Write.newRounds])
    rw [hafter]
    cases hr' : d.roundOf roundId with
    | none => exact .same _
    | some r' =>
      have hid : r'.id = roundId := by simpa using List.find?_some hr'
      by_cases ht : r'.id = lockedId ∧ r'.closable c.start
      · have htouch : (Write.lockRound lockedId c.start).touch r' = r'.locked c.start := if_pos ht
        rw [Option.map_some, htouch]
        exact .locked (by rw [hw, ← ht.1, hid]) ht.2
      · have htouch : (Write.lockRound lockedId c.start).touch r' = r' := if_neg ht
        rw [Option.map_some, htouch]
        exact .same _

def stateIn (base : Db) (roundId : Uuid) (log : List (Commit sql)) : Option RoundState :=
  (Db.roundOf (replay base log) roundId).map (·.state)

def Transition (base : Db) (roundId : Uuid) (st st' : RoundState) (c : Commit sql)
    (older : List (Commit sql)) : Prop :=
  stateIn base roundId older = some st ∧ stateIn base roundId (c :: older) = some st' ∧ st ≠ st'

def transitions (base : Db) (roundId : Uuid) : List (Commit sql) → ℕ
  | [] => 0
  | c :: older =>
    transitions base roundId older +
      if stateIn base roundId older ≠ none ∧
        stateIn base roundId (c :: older) ≠ stateIn base roundId older then 1 else 0

def Stage (r : GameRound) (n : ℕ) : Prop :=
  (r.state = .created ∧ n = 0 ∧ r.stateVersion = 0 ∧ r.lockedAt = none) ∨
  (r.state = .bettingOpen ∧ n = 1 ∧ r.stateVersion = 1 ∧ r.lockedAt = none) ∨
  (r.state = .bettingLocked ∧ n = 2 ∧ r.stateVersion = 2 ∧ r.lockedAt.isSome = true)

theorem Stage.unique {r r' : GameRound} {n n' : ℕ} (h : Stage r n) (h' : Stage r' n')
    (hs : r.state = r'.state) : n = n' := by
  rcases h with ⟨hst, rfl, -⟩ | ⟨hst, rfl, -⟩ | ⟨hst, rfl, -⟩ <;>
    rcases h' with ⟨hst', rfl, -⟩ | ⟨hst', rfl, -⟩ | ⟨hst', rfl, -⟩ <;>
      first | rfl | (rw [hst, hst'] at hs; cases hs)

theorem Stage.version {r : GameRound} {n : ℕ} (h : Stage r n) : r.stateVersion = n := by
  rcases h with ⟨-, rfl, hv, -⟩ | ⟨-, rfl, hv, -⟩ | ⟨-, rfl, hv, -⟩ <;> exact hv

theorem Stage.lockedAt {r : GameRound} {n : ℕ} (h : Stage r n) :
    r.lockedAt.isSome = true ↔ r.state = .bettingLocked := by
  rcases h with ⟨hst, -, -, hl⟩ | ⟨hst, -, -, hl⟩ | ⟨hst, -, -, hl⟩ <;> simp [hst, hl]

theorem Stage.lockable {r : GameRound} {n : ℕ} (h : Stage r n) (hr : r.state.lockable = true) :
    r.state = .bettingOpen ∧ n = 1 := by
  rcases h with ⟨hst, -⟩ | ⟨hst, hn, -⟩ | ⟨hst, -⟩
  · rw [hst] at hr; cases hr
  · exact ⟨hst, hn⟩
  · rw [hst] at hr; cases hr

theorem GameRound.closable_iff {r : GameRound} {now : ℕ} :
    r.closable now = true ↔ r.state.lockable = true ∧ r.bettingDeadline ≤ now := by
  simp [GameRound.closable]

theorem Stage.state {r : GameRound} {n : ℕ} (h : Stage r n) :
    r.state = .created ∧ r.stateVersion = 0 ∨ r.state = .bettingOpen ∧ r.stateVersion = 1 ∨
      r.state = .bettingLocked ∧ r.stateVersion = 2 := by
  rcases h with ⟨hs, -, hv, -⟩ | ⟨hs, -, hv, -⟩ | ⟨hs, -, hv, -⟩
  · exact .inl ⟨hs, hv⟩
  · exact .inr (.inl ⟨hs, hv⟩)
  · exact .inr (.inr ⟨hs, hv⟩)

theorem Stage.opened {r : GameRound} {n : ℕ} (h : Stage r n) (hr : r.openable = true) :
    n = 0 ∧ Stage r.opened 1 := by
  have hc : r.state = .created := by simpa [GameRound.openable] using hr
  rcases h with ⟨-, rfl, hv, hl⟩ | ⟨hst, -⟩ | ⟨hst, -⟩
  · exact ⟨rfl, .inr (.inl ⟨rfl, rfl, by simp [GameRound.opened, hv], hl⟩)⟩
  · rw [hc] at hst; cases hst
  · rw [hc] at hst; cases hst

theorem Stage.locked {r : GameRound} {n : ℕ} (h : Stage r n) {now : ℕ} (hr : r.closable now = true) :
    n = 1 ∧ Stage (r.locked now) 2 := by
  obtain ⟨-, rfl⟩ := h.lockable (GameRound.closable_iff.mp hr).1
  exact ⟨rfl, .inr (.inr ⟨rfl, rfl, by simp [GameRound.locked, h.version], rfl⟩)⟩

def Staged (base : Db) (roundId : Uuid) (log : List (Commit sql)) : Prop :=
  ∀ r, Db.roundOf (replay base log) roundId = some r → Stage r (transitions base roundId log)

section Chronicle

variable {base : Db} {log : List (Commit sql)} {roundId : Uuid}

theorem transitions_absent (h : Chronicle Effect base log)
    (hr : Db.roundOf (replay base log) roundId = none) : transitions base roundId log = 0 := by
  induction log with
  | nil => rfl
  | cons c older ih =>
    have hstep := h.1.round roundId
    change Db.roundOf (applyAll c.writes (replay base older)) roundId = none at hr
    rw [hr] at hstep
    generalize ho : Db.roundOf (replay base older) roundId = o at hstep
    cases hstep with
    | same => simp [transitions, ih h.2 ho, stateIn, ho]

theorem staged (h : Chronicle Effect base log)
    (h₀ : ∀ r ∈ base.rounds, r.state = .created ∧ r.stateVersion = 0 ∧ r.lockedAt = none) :
    Staged base roundId log := by
  induction log with
  | nil =>
    intro r hr
    obtain ⟨hs, hv, hl⟩ := h₀ r (List.mem_of_find?_eq_some hr)
    exact .inl ⟨hs, rfl, hv, hl⟩
  | cons c older ih =>
    intro r' hr'
    have hstep := h.1.round roundId
    change Db.roundOf (applyAll c.writes (replay base older)) roundId = some r' at hr'
    have hs' : stateIn base roundId (c :: older) = some r'.state := congrArg (Option.map _) hr'
    rw [hr'] at hstep
    generalize ho : Db.roundOf (replay base older) roundId = o at hstep
    have hs : stateIn base roundId older = o.map (·.state) := congrArg (Option.map _) ho
    cases hstep with
    | same =>
      have hstage := ih h.2 r' ho
      simpa [transitions, hs, hs'] using hstage
    | created hst hv hl =>
      refine .inl ⟨hst, ?_, hv, hl⟩
      simp [transitions, hs, transitions_absent h.2 ho]
    | @opened r hw hopen =>
      obtain ⟨hn, hstage⟩ := (ih h.2 r ho).opened hopen
      have hc : r.state = .created := by simpa [GameRound.openable] using hopen
      simpa [transitions, hs, hs', hn, hc, GameRound.opened] using hstage
    | @locked r hw hclose =>
      obtain ⟨hn, hstage⟩ := (ih h.2 r ho).locked hclose
      have hc := ((ih h.2 r ho).lockable (GameRound.closable_iff.mp hclose).1).1
      simpa [transitions, hs, hs', hn, hc, GameRound.locked] using hstage

theorem Transition.count {st st' : RoundState} {c : Commit sql} {older : List (Commit sql)}
    (h : Transition base roundId st st' c older) :
    transitions base roundId (c :: older) = transitions base roundId older + 1 := by
  obtain ⟨hst, hst', hne⟩ := h
  simp [transitions, hst, hst', hne.symm]

theorem transitions_suffix (base : Db) (roundId : Uuid) {log' : List (Commit sql)} (h : log' <:+ log) :
    transitions base roundId log' ≤ transitions base roundId log := by
  obtain ⟨front, rfl⟩ := h
  induction front with
  | nil => exact Nat.le_refl _
  | cons c front ih => exact Nat.le_trans ih (Nat.le_add_right _ _)

theorem exists_transition (h : 0 < transitions base roundId log) :
    ∃ st st' c older, (c :: older) <:+ log ∧ Transition base roundId st st' c older ∧
      transitions base roundId (c :: older) = transitions base roundId log := by
  induction log with
  | nil => cases h
  | cons c older ih =>
    by_cases hc : stateIn base roundId older ≠ none ∧
        stateIn base roundId (c :: older) ≠ stateIn base roundId older
    · obtain ⟨st, hst⟩ := Option.ne_none_iff_exists'.mp hc.1
      have hsome : stateIn base roundId (c :: older) ≠ none := by
        obtain ⟨r, hr, -⟩ := Option.map_eq_some_iff.mp hst
        obtain ⟨r', hr', -⟩ :=
          ((protocol base fun _ => True).le_applyAll c.writes (replay base older)).rounds _ r hr
        exact fun hnone => by
          rw [stateIn, replay, hr'] at hnone
          cases hnone
      obtain ⟨st', hst'⟩ := Option.ne_none_iff_exists'.mp hsome
      refine ⟨st, st', c, older, List.suffix_refl _, ⟨hst, hst', ?_⟩, rfl⟩
      rintro rfl
      exact hc.2 (hst'.trans hst.symm)
    · have hsame : transitions base roundId (c :: older) = transitions base roundId older := by
        rw [transitions, if_neg hc, Nat.add_zero]
      obtain ⟨st, st', c', older', hs, ht, hn⟩ := ih (hsame ▸ h)
      exact ⟨st, st', c', older', hs.trans (List.suffix_cons _ _), ht, hn.trans hsame.symm⟩

end Chronicle

inductive Move (c : Commit sql) (roundId : Uuid) (r : GameRound) : RoundState → RoundState → Prop
  | opens (hw : c.writes = [.openRound roundId]) (hs : r.state = .created) :
      Move c roundId r .created .bettingOpen
  | locks (hw : c.writes = [.lockRound roundId c.start]) (hs : r.state = .bettingOpen)
      (hd : r.bettingDeadline ≤ c.start) : Move c roundId r .bettingOpen .bettingLocked

section Log

variable {base : Db} {log : List (Commit sql)} {roundId : Uuid}
variable (hlog : Chronicle Effect base log)
variable (h₀ : ∀ r ∈ base.rounds, r.state = .created ∧ r.stateVersion = 0 ∧ r.lockedAt = none)
include hlog h₀

theorem Transition.move {st st' : RoundState} {c : Commit sql} {older : List (Commit sql)}
    (hs : (c :: older) <:+ log) (h : Transition base roundId st st' c older) :
    ∃ r, Db.roundOf (replay base older) roundId = some r ∧ Move c roundId r st st' := by
  obtain ⟨hst, hst', hne⟩ := h
  obtain ⟨r, hr, rfl⟩ := Option.map_eq_some_iff.mp hst
  obtain ⟨r', hr', rfl⟩ := Option.map_eq_some_iff.mp hst'
  have hchron := hlog.suffix hs
  have hstep := hchron.1.round roundId
  change Db.roundOf (applyAll c.writes (replay base older)) roundId = some r' at hr'
  rw [hr, hr'] at hstep
  refine ⟨r, hr, ?_⟩
  cases hstep with
  | same => exact absurd rfl hne
  | opened hw hopen =>
    have hc : r.state = .created := by simpa [GameRound.openable] using hopen
    rw [hc]
    exact .opens hw hc
  | locked hw hclose =>
    obtain ⟨hlockable, hd⟩ := GameRound.closable_iff.mp hclose
    have hst := ((staged hchron.2 h₀ r hr).lockable hlockable).1
    rw [hst]
    exact .locks hw hst hd

theorem Transition.unique {st st₁ st₂ : RoundState} {c₁ c₂ : Commit sql}
    {older₁ older₂ : List (Commit sql)} (hs₁ : (c₁ :: older₁) <:+ log) (hs₂ : (c₂ :: older₂) <:+ log)
    (h₁ : Transition base roundId st st₁ c₁ older₁) (h₂ : Transition base roundId st st₂ c₂ older₂) :
    c₁ :: older₁ = c₂ :: older₂ := by
  have hcount : transitions base roundId older₁ = transitions base roundId older₂ := by
    obtain ⟨r₁, hr₁, hst₁⟩ := Option.map_eq_some_iff.mp h₁.1
    obtain ⟨r₂, hr₂, hst₂⟩ := Option.map_eq_some_iff.mp h₂.1
    exact (staged (hlog.suffix hs₁).2 h₀ r₁ hr₁).unique (staged (hlog.suffix hs₂).2 h₀ r₂ hr₂)
      (hst₁.trans hst₂.symm)
  have hn₁ := h₁.count
  have hn₂ := h₂.count
  by_contra hne
  rcases suffix_apart hs₁ hs₂ hne with hs | hs
  · have hle := transitions_suffix base roundId hs
    omega
  · have hle := transitions_suffix base roundId hs
    omega

end Log

structure RoundLife (base : Db) (log : List (Commit sql)) (roundId : Uuid) : Prop where
  moves : ∀ c older st st', (c :: older) <:+ log → Transition base roundId st st' c older →
    st = .created ∧ st' = .bettingOpen ∨ st = .bettingOpen ∧ st' = .bettingLocked
  once : ∀ c₁ older₁ c₂ older₂ st st₁ st₂, (c₁ :: older₁) <:+ log → (c₂ :: older₂) <:+ log →
    Transition base roundId st st₁ c₁ older₁ → Transition base roundId st st₂ c₂ older₂ →
    c₁ :: older₁ = c₂ :: older₂
  version : ∀ r, Db.roundOf (replay base log) roundId = some r →
    r.stateVersion = transitions base roundId log ∧
      (r.state = .created ∧ r.stateVersion = 0 ∨ r.state = .bettingOpen ∧ r.stateVersion = 1 ∨
        r.state = .bettingLocked ∧ r.stateVersion = 2)
  lockedAt : ∀ r, Db.roundOf (replay base log) roundId = some r →
    (r.lockedAt.isSome = true ↔ r.state = .bettingLocked)
  deadline : ∀ c older st, (c :: older) <:+ log → Transition base roundId st .bettingLocked c older →
    ∃ r, Db.roundOf (replay base older) roundId = some r ∧ r.bettingDeadline ≤ c.start ∧
      c.start ≤ c.time

theorem roundOf_touched {d : Db} {x : Write} {roundId : Uuid} {r : GameRound}
    (hr : d.roundOf roundId = some r) : (x.apply d).roundOf roundId = some (x.touch r) := by
  simp [roundOf_apply, hr]

def Performs (base : Db) (log : List (Commit sql)) (i : ℕ) (roundId : Uuid) (st st' : RoundState)
    (hit : Bool) : Prop :=
  ∃ c, own i log = [c] ∧
    (hit = true → ∃ older, (c :: older) <:+ log ∧ Transition base roundId st st' c older) ∧
    (hit = false → c.writes = [])

section Run

variable {K : Policy sql} {base : Db} {s : State sql}
variable (h : Run K base s)
variable (h₀ : ∀ r ∈ base.rounds, r.state = .created ∧ r.stateVersion = 0 ∧ r.lockedAt = none)
include h h₀

theorem Run.roundLife (roundId : Uuid) : RoundLife base s.world.log roundId := by
  have hlog := h.effects
  refine ⟨fun c older st st' hs ht => ?_, fun c₁ older₁ c₂ older₂ st st₁ st₂ hs₁ hs₂ ht₁ ht₂ => ?_,
    fun r hr => ?_, fun r hr => (staged hlog h₀ r hr).lockedAt, fun c older st hs ht => ?_⟩
  · obtain ⟨r, -, hm⟩ := ht.move hlog h₀ hs
    cases hm with
    | opens => exact .inl ⟨rfl, rfl⟩
    | locks => exact .inr ⟨rfl, rfl⟩
  · exact ht₁.unique hlog h₀ hs₁ hs₂ ht₂
  · exact ⟨(staged hlog h₀ r hr).version, (staged hlog h₀ r hr).state⟩
  · obtain ⟨r, hr, hm⟩ := ht.move hlog h₀ hs
    cases hm with
    | locks hw hst hd => exact ⟨r, hr, hd, (h.obeys.log c older hs).start⟩

omit h₀ in
theorem Run.performs {i : ℕ} {roundId : Uuid} {hit : Bool} {guard : ℕ → GameRound → Bool}
    {x : ℕ → Write} {st st' : RoundState} {c : Commit sql} (hown : own i s.world.log = [c])
    (hhit : hit = true ↔ c.writes ≠ [])
    (hupd : ∀ d, Meets K.spawn c d → Updates roundId guard x c d) (hne : st ≠ st')
    (hmove : ∀ older r, (c :: older) <:+ s.world.log →
      Db.roundOf (replay base older) roundId = some r → guard c.start r = true →
      r.state = st ∧ ((x c.start).touch r).state = st') :
    Performs base s.world.log i roundId st st' hit := by
  have hmem : c ∈ own i s.world.log := hown ▸ List.mem_singleton_self c
  refine ⟨c, hown, fun ht => ?_, fun hf => ?_⟩
  · obtain ⟨older, hs, hmeets⟩ := h.chronicle.found (mem_own.mp hmem).1
    obtain ⟨hw, r, hr, hguard⟩ := (hupd _ hmeets).resolve_left (hhit.mp ht)
    obtain ⟨hst, hst'⟩ := hmove older r hs hr hguard
    have hafter : Db.roundOf (replay base (c :: older)) roundId = some ((x c.start).touch r) := by
      rw [replay, hw]
      exact roundOf_touched hr
    exact ⟨older, hs, by rw [stateIn, hr, Option.map_some, hst],
      by rw [stateIn, hafter, Option.map_some, hst'], hne⟩
  · by_contra hw
    rw [hhit.mpr hw] at hf
    cases hf

omit h₀ in
theorem Run.performs_open {i : ℕ} {p : Proc sql} {roundId : Uuid} {hit : Bool}
    (hp : s.procs i = some p) (hc : p.call = .openRound roundId)
    (hr : p.prog.Ends (.ok (.changed hit))) :
    Performs base s.world.log i roundId .created .bettingOpen hit := by
  obtain ⟨w, hrely, hdone⟩ := h.outcome hp hr
  rw [hc] at hdone
  cases hdone with
  | @opened _ c _ hown hhit =>
    have hown' : own i s.world.log = [c] := hrely.own.trans hown
    have hcall := (h.own_call hp (hown' ▸ List.mem_singleton_self c)).trans hc
    have hopens (d : Db) (hm : Meets K.spawn c d) : Opens roundId c d := by
      have hm := hm.2
      rw [hcall] at hm
      exact hm
    apply h.performs hown' hhit hopens (by decide)
    intro older r _ hr hopen
    have hid : r.id = roundId := by simpa using List.find?_some hr
    have htouch : (Write.openRound roundId).touch r = r.opened := if_pos ⟨hid, hopen⟩
    exact ⟨by simpa [GameRound.openable] using hopen, by rw [htouch]; rfl⟩

theorem Run.performs_lock {i : ℕ} {p : Proc sql} {roundId : Uuid} {hit : Bool}
    (hp : s.procs i = some p) (hc : p.call = .lockIfDeadlinePassed roundId)
    (hr : p.prog.Ends (.ok (.changed hit))) :
    Performs base s.world.log i roundId .bettingOpen .bettingLocked hit := by
  have hlog := h.effects
  obtain ⟨w, hrely, hdone⟩ := h.outcome hp hr
  rw [hc] at hdone
  cases hdone with
  | @locked _ c _ hown hhit =>
    have hown' : own i s.world.log = [c] := hrely.own.trans hown
    have hcall := (h.own_call hp (hown' ▸ List.mem_singleton_self c)).trans hc
    have hlocks (d : Db) (hm : Meets K.spawn c d) : Locks roundId c d := by
      have hm := hm.2
      rw [hcall] at hm
      exact hm
    apply h.performs hown' hhit hlocks (by decide)
    intro older r hs hr hclose
    have hid : r.id = roundId := by simpa using List.find?_some hr
    have htouch : (Write.lockRound roundId c.start).touch r = r.locked c.start :=
      if_pos ⟨hid, hclose⟩
    have hstage := staged (hlog.suffix hs).2 h₀ r hr
    exact ⟨(hstage.lockable (GameRound.closable_iff.mp hclose).1).1, by rw [htouch]; rfl⟩

/-- Rounds move only forward, each step once and by one call, which alone reports it. -/
theorem roundLife_of_run : s.world.db = replay base s.world.log ∧
    (∀ roundId, RoundLife base s.world.log roundId) ∧
    ∀ i p, s.procs i = some p →
      (∀ roundId hit, p.call = .openRound roundId → p.prog.Ends (.ok (.changed hit)) →
        Performs base s.world.log i roundId .created .bettingOpen hit) ∧
      (∀ roundId hit, p.call = .lockIfDeadlinePassed roundId → p.prog.Ends (.ok (.changed hit)) →
        Performs base s.world.log i roundId .bettingOpen .bettingLocked hit) ∧
      (∀ windowMs gameId, p.call = .reconcile windowMs gameId → p.prog.Ends (.ok .reconciled) →
        (own i s.world.log).length ≤ 1) ∧
      ∀ e, p.prog.Ends (.error e) → own i s.world.log = [] := by
  refine ⟨h.obeys.db_eq, h.roundLife h₀, fun i p hp => ⟨fun roundId hit hc hr => ?_,
    fun roundId hit hc hr => ?_, fun windowMs gameId hc hr => ?_, fun e he => ?_⟩⟩
  · exact h.performs_open hp hc hr
  · exact h.performs_lock h₀ hp hc hr
  · obtain ⟨w, hrely, hdone⟩ := h.outcome hp hr
    rw [hc] at hdone
    cases hdone with
    | reconciled hown => exact hrely.own ▸ hown
  · obtain ⟨w, hrely, hdone⟩ := h.outcome hp he
    exact hrely.own.trans hdone.own_of_error

end Run

def emptyDb : Db := ⟨[], [], [], [], [], [], [], []⟩

def engineRun : List (Label sql) :=
  [.spawn 0 (.reconcile 60 .tripleChanceTimer), .run 0, .run 0, .input 0 40, .mint 0 roundId,
    .run 0, .run 0, .run 0, .run 0, .run 0,
    .spawn 1 (.reconcile 60 .tripleChanceTimer), .spawn 2 (.openRound roundId), .run 1, .run 2,
    .run 1, .run 1, .run 1, .run 2, .run 2, .tick 100,
    .spawn 3 (.lockIfDeadlinePassed roundId), .run 3, .run 3, .run 3]

theorem roundLife_after_lock :
    ∃ s, (Policy.calls fun _ => True).steps body (initial emptyDb []) engineRun = some s ∧
      Db.rounds s.world.db = [⟨roundId, .tripleChanceTimer, 1, "TC1", .bettingLocked, 2, 40, 100,
        some 100⟩] ∧ RoundLife emptyDb s.world.log roundId := by
  have hrun : ((Policy.calls fun _ => True).steps body (initial emptyDb []) engineRun).map
      (fun s => Db.rounds s.world.db) = some [⟨roundId, .tripleChanceTimer, 1, "TC1",
        .bettingLocked, 2, 40, 100, some 100⟩] := by decide
  obtain ⟨s, hs, hrounds⟩ := Option.map_eq_some_iff.mp hrun
  have hknown : ∀ x, emptyDb.Known x → x ∈ ([] : List Uuid) := by
    rintro x (h | h | h | h | h) <;> simp [emptyDb] at h
  have hreach := roundLife_of_run (.steps hknown hs)
    (by simp [emptyDb])
  exact ⟨s, hs, hrounds, hreach.2.1 roundId⟩

end JitoGame
