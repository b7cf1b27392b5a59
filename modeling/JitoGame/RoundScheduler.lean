import JitoGame.Database
import JitoGame.Redis
import JitoGame.Traces

namespace JitoGame.RoundScheduler

open Redis

structure Config where
  nodeEnv : String
  leaderLockTtlMs : ℕ
  -- `@IsPositive()`
  ttl_pos : 0 < leaderLockTtlMs

def Config.leaderLockKey (cfg : Config) : String := "lock:game-engine:" ++ cfg.nodeEnv

def activeGameIds : List GameId := [.tripleChanceTimer, .tripleChanceProTimer]

inductive Command
  | acquireLeaderLock
  | renewLeaderLock
  deriving DecidableEq

inductive Position
  -- awaits the reply to the last command sent
  | ensureLeader
  -- awaits `reconcile` of the first of these games
  | reconcile (gameIds : List GameId)
  | returned
  deriving DecidableEq

/-- A tick, with the last command that it sent and the reply of that command's last execution. Redis
may execute the command again, or only after the tick was told that it failed. -/
structure Tick (H : Type) where
  holderId : H
  position : Position
  sent : Option Command
  reply : Option Bool
  deriving DecidableEq

structure Instance where
  isLeader : Bool
  tickInFlight : Bool
  deriving DecidableEq

structure State (H : Type) where
  store : Store String H
  instances : H → Instance
  ticks : ℕ → Option (Tick H)

inductive Event (H : Type)
  | tick (t : ℕ) (holderId : H)
  | execute (t : ℕ)
  | reply (t : ℕ)
  | fail (t : ℕ)
  -- `reconcile` resolves or throws
  | reconciled (t : ℕ) (threw : Bool)
  | expire
  | delete
  deriving DecidableEq

variable {H : Type} [DecidableEq H] (cfg : Config)

def start : State H := ⟨fun _ => none, fun _ => ⟨false, false⟩, fun _ => none⟩

def Command.execute (holderId : H) (store : Store String H) : Command → Store String H × Bool
  | .acquireLeaderLock => setNx store cfg.leaderLockKey holderId
  | .renewLeaderLock => renew store cfg.leaderLockKey holderId cfg.leaderLockTtlMs

def State.setTick (s : State H) (t : ℕ) (x : Tick H) : State H :=
  { s with ticks := Function.update s.ticks t (some x) }

def State.setInstance (s : State H) (holderId : H) (i : Instance) : State H :=
  { s with instances := Function.update s.instances holderId i }

-- the `finally` of `tick`
def finish (s : State H) (t : ℕ) (x : Tick H) (isLeader : Bool) : State H :=
  (s.setInstance x.holderId ⟨isLeader, false⟩).setTick t { x with position := .returned }

def lead (s : State H) (t : ℕ) (x : Tick H) (isLeader : Bool) : State H :=
  (s.setInstance x.holderId ⟨isLeader, true⟩).setTick t
    { x with position := .reconcile activeGameIds, sent := none }

/-- The rest of `ensureLeader` after a reply, and what `tick` does with its result. -/
def afterReply (s : State H) (t : ℕ) (x : Tick H) : Command → Bool → State H
  | .renewLeaderLock, true => lead s t x (s.instances x.holderId).isLeader
  | .renewLeaderLock, false =>
    (s.setInstance x.holderId ⟨false, true⟩).setTick t
      { x with sent := some .acquireLeaderLock, reply := none }
  | .acquireLeaderLock, true => lead s t x true
  | .acquireLeaderLock, false => finish s t { x with sent := none } false

def step (s : State H) : Event H → Option (State H)
  | .tick t holderId =>
    let i := s.instances holderId
    match s.ticks t with
    | some _ => none
    | none =>
      if i.tickInFlight then some (s.setTick t ⟨holderId, .returned, none, none⟩)
      else
        let c := if i.isLeader then .renewLeaderLock else .acquireLeaderLock
        some ((s.setInstance holderId { i with tickInFlight := true }).setTick t
          ⟨holderId, .ensureLeader, some c, none⟩)
  | .execute t =>
    match s.ticks t with
    | some ⟨holderId, position, some c, _⟩ =>
      let (store, r) := c.execute cfg holderId s.store
      some ({ s with store }.setTick t ⟨holderId, position, some c, some r⟩)
    | _ => none
  | .reply t =>
    match s.ticks t with
    | some ⟨holderId, .ensureLeader, some c, some r⟩ =>
      some (afterReply s t ⟨holderId, .ensureLeader, some c, some r⟩ c r)
    | _ => none
  | .fail t =>
    match s.ticks t with
    -- the `catch` of `ensureLeader` leaves `isLeader` alone
    | some ⟨holderId, .ensureLeader, c, r⟩ =>
      some (finish s t ⟨holderId, .ensureLeader, c, r⟩ (s.instances holderId).isLeader)
    | _ => none
  | .reconciled t _ =>
    match s.ticks t with
    | some ⟨holderId, .reconcile (_ :: gameId :: gameIds), c, r⟩ =>
      some (s.setTick t ⟨holderId, .reconcile (gameId :: gameIds), c, r⟩)
    | some ⟨holderId, .reconcile [gameId], c, r⟩ =>
      some (finish s t ⟨holderId, .reconcile [gameId], c, r⟩ (s.instances holderId).isLeader)
    | _ => none
  | .expire => (elapse s.store cfg.leaderLockKey).map fun store => { s with store }
  | .delete => some { s with store := del s.store cfg.leaderLockKey }

def holderOf (store : Store String H) : Option H := (store cfg.leaderLockKey).map (·.value)

def State.holder (s : State H) : Option H := holderOf cfg s.store

omit [DecidableEq H] in
theorem holderOf_none {store : Store String H} :
    holderOf cfg store = none ↔ store cfg.leaderLockKey = none := Option.map_eq_none_iff

theorem renew_spec (h : H) (store : Store String H) :
    holderOf cfg (Command.renewLeaderLock.execute cfg h store).1 = holderOf cfg store ∧
      ((Command.renewLeaderLock.execute cfg h store).2 = true ↔ holderOf cfg store = some h) :=
  ⟨renew_value store h cfg.ttl_pos, renew_reply store h cfg.leaderLockTtlMs⟩

theorem acquire_free {h : H} {store : Store String H} (hs : holderOf cfg store = none) :
    holderOf cfg (Command.acquireLeaderLock.execute cfg h store).1 = some h ∧
      (Command.acquireLeaderLock.execute cfg h store).2 = true := by
  simp [Command.execute, setNx_none h ((holderOf_none cfg).mp hs), holderOf]

theorem acquire_held {h j : H} {store : Store String H} (hs : holderOf cfg store = some j) :
    Command.acquireLeaderLock.execute cfg h store = (store, false) := by
  obtain ⟨c, hc, -⟩ := Option.map_eq_some_iff.mp hs
  exact setNx_some h hc

def Tick.running (x : Tick H) : Prop := x.position ≠ .returned

inductive Moves (s : State H) : Event H → State H → Prop
  | skip {t : ℕ} {h : H} (ht : s.ticks t = none) (hi : (s.instances h).tickInFlight = true) :
    Moves s (.tick t h) (s.setTick t ⟨h, .returned, none, none⟩)
  | begin {t : ℕ} {h : H} {c : Command} (ht : s.ticks t = none)
      (hi : (s.instances h).tickInFlight = false)
      (hc : c = .acquireLeaderLock → (s.instances h).isLeader = false) :
    Moves s (.tick t h) ((s.setInstance h { s.instances h with tickInFlight := true }).setTick t
      ⟨h, .ensureLeader, some c, none⟩)
  | execute {t : ℕ} {x : Tick H} {c : Command} (ht : s.ticks t = some x) (hc : x.sent = some c) :
    Moves s (.execute t) ({ s with store := (c.execute cfg x.holderId s.store).1 }.setTick t
      { x with reply := some (c.execute cfg x.holderId s.store).2 })
  | reply {t : ℕ} {x : Tick H} {c : Command} {r : Bool} (ht : s.ticks t = some x)
      (hp : x.position = .ensureLeader) (hc : x.sent = some c) (hr : x.reply = some r) :
    Moves s (.reply t) (afterReply s t x c r)
  | fail {t : ℕ} {x : Tick H} (ht : s.ticks t = some x) (hp : x.position = .ensureLeader) :
    Moves s (.fail t) (finish s t x (s.instances x.holderId).isLeader)
  | next {t : ℕ} {x : Tick H} {threw : Bool} {gameIds gameIds' : List GameId}
      (ht : s.ticks t = some x) (hp : x.position = .reconcile gameIds) :
    Moves s (.reconciled t threw) (s.setTick t { x with position := .reconcile gameIds' })
  | last {t : ℕ} {x : Tick H} {threw : Bool} {gameIds : List GameId}
      (ht : s.ticks t = some x) (hp : x.position = .reconcile gameIds) :
    Moves s (.reconciled t threw) (finish s t x (s.instances x.holderId).isLeader)
  | free {e : Event H} {store : Store String H} (he : e = .expire ∨ e = .delete)
      (hk : store cfg.leaderLockKey = none) : Moves s e { s with store }

variable {cfg} {s s' : State H} {e : Event H}

theorem step_cases (h : step cfg s e = some s') : Moves cfg s e s' := by
  cases e with
  | tick t holderId =>
    simp only [step] at h
    split at h
    · cases h
    rename_i ht
    split at h
    · rename_i hi
      cases h
      exact .skip ht hi
    · rename_i hi
      cases h
      refine .begin ht (by simpa using hi) fun hc => ?_
      cases hl : (s.instances holderId).isLeader with
      | false => rfl
      | true => simp [hl] at hc
  | execute t =>
    simp only [step] at h
    split at h
    · rename_i holderId position c r ht
      cases h
      exact .execute ht rfl
    · cases h
  | reply t =>
    simp only [step] at h
    split at h
    · rename_i holderId c r ht
      cases h
      exact .reply ht rfl rfl rfl
    · cases h
  | fail t =>
    simp only [step] at h
    split at h
    · rename_i holderId c r ht
      cases h
      exact .fail ht rfl
    · cases h
  | reconciled t threw =>
    simp only [step] at h
    split at h
    · rename_i holderId g g' gs c r ht
      cases h
      exact .next ht rfl
    · rename_i holderId g c r ht
      cases h
      exact .last ht rfl
    · cases h
  | expire =>
    obtain ⟨store, hel, rfl⟩ := Option.map_eq_some_iff.mp h
    obtain ⟨-, rfl⟩ := elapse_eq hel
    exact .free (.inl rfl) (Function.update_self ..)
  | delete =>
    cases h
    exact .free (.inr rfl) (Function.update_self ..)

end JitoGame.RoundScheduler
