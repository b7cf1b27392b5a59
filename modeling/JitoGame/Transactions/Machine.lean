import JitoGame.Transactions.Program

namespace JitoGame.Transactions

variable {S : Schema}

/-- The record of one executed statement: the lock it was granted, its `now()`, the database clock
and the number of commits at that moment, and the committed rows it saw. -/
structure Mark (S : Schema) where
  tag : S.Tag
  lock : Option S.Lock
  now : ℕ
  time : ℕ
  index : ℕ
  db : S.Db

structure Tx (S : Schema) where
  start : ℕ
  locks : List S.Lock
  writes : List S.Write

structure Local (S : Schema) where
  tx : Option (Tx S)
  minted : List S.Id
  trace : List (Mark S)
  faulted : Bool

structure Commit (S : Schema) where
  proc : ℕ
  call : S.Call
  start : ℕ
  time : ℕ
  writes : List S.Write
  trace : List (Mark S)

/-- The shared part of the state. The log lists the commits, the newest first. -/
structure World (S : Schema) where
  db : S.Db
  clock : ℕ
  log : List (Commit S)
  used : List S.Id

structure Proc (S : Schema) where
  call : S.Call
  prog : Prog S S.Res
  loc : Local S

structure State (S : Schema) where
  world : World S
  owner : S.Lock → Option ℕ
  procs : ℕ → Option (Proc S)

def applyAll (ws : List S.Write) (d : S.Db) : S.Db := ws.foldl (fun d x => S.apply x d) d

@[simp] theorem applyAll_nil (d : S.Db) : applyAll (S := S) [] d = d := rfl

@[simp] theorem applyAll_cons (x : S.Write) (ws : List S.Write) (d : S.Db) :
    applyAll (x :: ws) d = applyAll ws (S.apply x d) := rfl

namespace Local

def idle : Local S := ⟨none, [], [], false⟩

def begun (s : Local S) (w : World S) : Local S := { s with tx := some ⟨w.clock, [], []⟩ }

def ended (s : Local S) : Local S := { s with tx := none }

def fault (s : Local S) : Local S := { s with faulted := true }

def mint (s : Local S) (x : S.Id) : Local S := { s with minted := x :: s.minted }

def view (s : Local S) (w : World S) : View S.Db :=
  match s.tx with
  | none => ⟨w.db, w.clock⟩
  | some t => ⟨applyAll t.writes w.db, t.start⟩

def mark (s : Local S) (tag : S.Tag) (lock : Option S.Lock) (w : World S) : Mark S :=
  ⟨tag, lock, (s.view w).now, w.clock, w.log.length, w.db⟩

def exec (s : Local S) (tag : S.Tag) (lock : Option S.Lock) (ws : List S.Write) (w : World S) :
    Local S :=
  { s with
    tx := s.tx.map fun t => ⟨t.start, lock.toList ++ t.locks, t.writes ++ ws⟩
    trace := s.mark tag lock w :: s.trace }

end Local

def World.push (w : World S) (c : Commit S) : World S :=
  { w with db := applyAll c.writes w.db, log := c :: w.log }

def World.mint (w : World S) (x : S.Id) : World S := { w with used := x :: w.used }

def World.tick (w : World S) (d : ℕ) : World S := { w with clock := w.clock + d }

def commitOf (i : ℕ) (c : S.Call) (s : Local S) (t : Tx S) (w : World S) : Commit S :=
  ⟨i, c, t.start, w.clock, t.writes, s.trace⟩

def State.move (s : State S) (i : ℕ) (p : Proc S) (w : World S) (o : S.Lock → Option ℕ) : State S :=
  ⟨w, o, Function.update s.procs i (some p)⟩

variable [DecidableEq S.Lock] [DecidableEq S.Id]

def free (o : S.Lock → Option ℕ) (i : ℕ) : Option S.Lock → Bool
  | none => true
  | some l => o l = none || o l = some i

def acquire (o : S.Lock → Option ℕ) (i : ℕ) : Option S.Lock → S.Lock → Option ℕ
  | none => o
  | some l => Function.update o l (some i)

def release (o : S.Lock → Option ℕ) (i : ℕ) (l : S.Lock) : Option ℕ :=
  if o l = some i then none else o l

inductive Label (S : Schema)
  | spawn (i : ℕ) (c : S.Call)
  | run (i : ℕ)
  | fault (i : ℕ)
  | mint (i : ℕ) (x : S.Id)
  | input (i : ℕ) (n : ℕ)
  | tick (d : ℕ)

def runProc (i : ℕ) (p : Proc S) (s : State S) : Option (State S) :=
  match p.prog with
  | .begin k =>
    if p.loc.tx.isNone then some (s.move i ⟨p.call, k, p.loc.begun s.world⟩ s.world s.owner) else none
  | .stmt tag want effect k =>
    let v := p.loc.view s.world
    -- a statement outside a transaction only reads
    if free s.owner i (want v) && (p.loc.tx.isSome || ((want v).isNone && (effect v).isEmpty)) then
      some (s.move i ⟨p.call, k (some v), p.loc.exec tag (want v) (effect v) s.world⟩ s.world
        (acquire s.owner i (want v)))
    else none
  | .commit k =>
    p.loc.tx.map fun t => s.move i ⟨p.call, k true, p.loc.ended⟩
      (s.world.push (commitOf i p.call p.loc t s.world)) (release s.owner i)
  | .rollback k => some (s.move i ⟨p.call, k, p.loc.ended⟩ s.world (release s.owner i))
  | _ => none

def faultProc (i : ℕ) (p : Proc S) (s : State S) : Option (State S) :=
  match p.prog with
  | .stmt _ _ _ k => some (s.move i ⟨p.call, k none, p.loc.fault⟩ s.world s.owner)
  | .commit k => some (s.move i ⟨p.call, k false, p.loc.ended.fault⟩ s.world (release s.owner i))
  | _ => none

def step (body : S.Call → Prog S S.Res) (s : State S) : Label S → Option (State S)
  | .spawn i c =>
    match s.procs i with
    | none => some (s.move i ⟨c, body c, .idle⟩ s.world s.owner)
    | some _ => none
  | .run i => (s.procs i).bind fun p => runProc i p s
  | .fault i => (s.procs i).bind fun p => faultProc i p s
  | .mint i x => (s.procs i).bind fun p =>
    match p.prog with
    | .mint k =>
      if x ∈ s.world.used then none
      else some (s.move i ⟨p.call, k x, p.loc.mint x⟩ (s.world.mint x) s.owner)
    | _ => none
  | .input i n => (s.procs i).bind fun p =>
    match p.prog with
    | .input k => some (s.move i ⟨p.call, k n, p.loc⟩ s.world s.owner)
    | _ => none
  | .tick d => some { s with world := s.world.tick d }

inductive Stepped (body : S.Call → Prog S S.Res) (s : State S) : Label S → State S → Prop
  | spawn {i : ℕ} {c : S.Call} (hi : s.procs i = none) :
    Stepped body s (.spawn i c) (s.move i ⟨c, body c, .idle⟩ s.world s.owner)
  | begin {i : ℕ} {c : S.Call} {loc : Local S} {k : Prog S S.Res}
    (hp : s.procs i = some ⟨c, .begin k, loc⟩) (htx : loc.tx.isNone = true) :
    Stepped body s (.run i) (s.move i ⟨c, k, loc.begun s.world⟩ s.world s.owner)
  | stmt {i : ℕ} {c : S.Call} {loc : Local S} {tag : S.Tag} {want : View S.Db → Option S.Lock}
    {effect : View S.Db → List S.Write} {k : Option (View S.Db) → Prog S S.Res}
    (hp : s.procs i = some ⟨c, .stmt tag want effect k, loc⟩)
    (hfree : free s.owner i (want (loc.view s.world)) = true)
    (hread : (loc.tx.isSome || ((want (loc.view s.world)).isNone &&
      (effect (loc.view s.world)).isEmpty)) = true) :
    Stepped body s (.run i) (s.move i ⟨c, k (some (loc.view s.world)),
      loc.exec tag (want (loc.view s.world)) (effect (loc.view s.world)) s.world⟩ s.world
      (acquire s.owner i (want (loc.view s.world))))
  | commit {i : ℕ} {c : S.Call} {loc : Local S} {k : Bool → Prog S S.Res} {t : Tx S}
    (hp : s.procs i = some ⟨c, .commit k, loc⟩) (ht : loc.tx = some t) :
    Stepped body s (.run i) (s.move i ⟨c, k true, loc.ended⟩
      (s.world.push (commitOf i c loc t s.world)) (release s.owner i))
  | rollback {i : ℕ} {c : S.Call} {loc : Local S} {k : Prog S S.Res}
    (hp : s.procs i = some ⟨c, .rollback k, loc⟩) :
    Stepped body s (.run i) (s.move i ⟨c, k, loc.ended⟩ s.world (release s.owner i))
  | failStmt {i : ℕ} {c : S.Call} {loc : Local S} {tag : S.Tag} {want : View S.Db → Option S.Lock}
    {effect : View S.Db → List S.Write} {k : Option (View S.Db) → Prog S S.Res}
    (hp : s.procs i = some ⟨c, .stmt tag want effect k, loc⟩) :
    Stepped body s (.fault i) (s.move i ⟨c, k none, loc.fault⟩ s.world s.owner)
  | failCommit {i : ℕ} {c : S.Call} {loc : Local S} {k : Bool → Prog S S.Res}
    (hp : s.procs i = some ⟨c, .commit k, loc⟩) :
    Stepped body s (.fault i) (s.move i ⟨c, k false, loc.ended.fault⟩ s.world (release s.owner i))
  | mint {i : ℕ} {c : S.Call} {loc : Local S} {k : S.Id → Prog S S.Res} {x : S.Id}
    (hp : s.procs i = some ⟨c, .mint k, loc⟩) (hx : x ∉ s.world.used) :
    Stepped body s (.mint i x) (s.move i ⟨c, k x, loc.mint x⟩ (s.world.mint x) s.owner)
  | input {i n : ℕ} {c : S.Call} {loc : Local S} {k : ℕ → Prog S S.Res}
    (hp : s.procs i = some ⟨c, .input k, loc⟩) :
    Stepped body s (.input i n) (s.move i ⟨c, k n, loc⟩ s.world s.owner)
  | tick (d : ℕ) : Stepped body s (.tick d) { s with world := s.world.tick d }

theorem stepped_of_step {body : S.Call → Prog S S.Res} {s s' : State S} {l : Label S}
    (hs : step body s l = some s') : Stepped body s l s' := by
  cases l with
  | spawn i c =>
    rw [step] at hs
    split at hs
    · rename_i hi
      cases hs
      exact .spawn hi
    · cases hs
  | run i =>
    obtain ⟨⟨c, prog, loc⟩, hp, hs⟩ := Option.bind_eq_some_iff.mp hs
    cases prog with
    | begin k =>
      simp only [runProc, Option.ite_none_right_eq_some, Option.some.injEq] at hs
      obtain ⟨htx, rfl⟩ := hs
      exact .begin hp htx
    | stmt tag want effect k =>
      simp only [runProc, Option.ite_none_right_eq_some, Option.some.injEq, Bool.and_eq_true] at hs
      obtain ⟨⟨hfree, hread⟩, rfl⟩ := hs
      exact .stmt hp hfree (by simpa using hread)
    | commit k =>
      obtain ⟨t, ht, rfl⟩ := Option.map_eq_some_iff.mp hs
      exact .commit hp ht
    | rollback k =>
      cases hs
      exact .rollback hp
    | _ => cases hs
  | fault i =>
    obtain ⟨⟨c, prog, loc⟩, hp, hs⟩ := Option.bind_eq_some_iff.mp hs
    cases prog with
    | stmt tag want effect k =>
      cases hs
      exact .failStmt hp
    | commit k =>
      cases hs
      exact .failCommit hp
    | _ => cases hs
  | mint i x =>
    obtain ⟨⟨c, prog, loc⟩, hp, hs⟩ := Option.bind_eq_some_iff.mp hs
    cases prog with
    | mint k =>
      obtain ⟨hx, hs⟩ := Option.ite_none_left_eq_some.mp hs
      cases hs
      exact .mint hp hx
    | _ => cases hs
  | input i n =>
    obtain ⟨⟨c, prog, loc⟩, hp, hs⟩ := Option.bind_eq_some_iff.mp hs
    cases prog with
    | input k =>
      cases hs
      exact .input hp
    | _ => cases hs
  | tick d =>
    cases hs
    exact .tick d

theorem Stepped.step {body : S.Call → Prog S S.Res} {s s' : State S} {l : Label S}
    (h : Stepped body s l s') : step body s l = some s' := by
  cases h with
  | spawn hi => rw [Transactions.step, hi]
  | begin hp htx =>
    rw [Transactions.step, hp, Option.bind_some]
    exact if_pos htx
  | stmt hp hfree hread =>
    rw [Transactions.step, hp, Option.bind_some]
    exact if_pos ((Bool.and_eq_true _ _).mpr ⟨hfree, hread⟩)
  | commit hp ht =>
    rw [Transactions.step, hp, Option.bind_some, runProc, ht]
    rfl
  | rollback hp => rw [Transactions.step, hp]; rfl
  | failStmt hp => rw [Transactions.step, hp]; rfl
  | failCommit hp => rw [Transactions.step, hp]; rfl
  | mint hp hx =>
    rw [Transactions.step, hp, Option.bind_some]
    exact if_neg hx
  | input hp => rw [Transactions.step, hp]; rfl
  | tick d => rfl

def initial (d : S.Db) (used : List S.Id) : State S := ⟨⟨d, 0, [], used⟩, fun _ => none, fun _ => none⟩

inductive Reachable (body : S.Call → Prog S S.Res) (ok : State S → Label S → Prop) (s₀ : State S) :
    State S → Prop
  | refl : Reachable body ok s₀ s₀
  | step {s s' : State S} {l : Label S} (h : Reachable body ok s₀ s) (hok : ok s l)
      (hs : step body s l = some s') : Reachable body ok s₀ s'

end JitoGame.Transactions
