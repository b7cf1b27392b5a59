import Mathlib.Data.Nat.Notation
import Mathlib.Logic.Function.Basic

namespace JitoGame.ReadThrough

variable {κ α : Type*}

/-- The lifetime of an entry, and how long a request may take from its read of the source until it
has answered. -/
structure Config where
  ttl : ℕ
  latency : ℕ

inductive Phase (κ α : Type*)
  | looking (k : κ)
  | missed (k : κ)
  | fetched (k : κ) (v : α) (t : ℕ)
  | answered (k : κ) (o : Option α) (t : ℕ)
  | gone
  deriving DecidableEq

/-- `past` has the contents of the source with the times at which they stood. -/
structure State (κ α : Type*) where
  clock : ℕ
  source : κ → Option α
  past : List (ℕ × (κ → Option α))
  cache : κ → Option (α × ℕ)
  requests : List (Phase κ α)

def initial (source : κ → Option α) : State κ α := ⟨0, source, [(0, source)], fun _ => none, []⟩

inductive Label (κ α : Type*)
  | tick (d : ℕ)
  | change (k : κ) (o : Option α)
  -- an eviction or an invalidation
  | delete (k : κ)
  | start (k : κ)
  | get (i : ℕ) (fails : Bool)
  | fetch (i : ℕ)
  | put (i : ℕ) (stored : Bool)
  | crash (i : ℕ)

def Phase.inTime (latency now : ℕ) : Phase κ α → Bool
  | .fetched _ _ t => now ≤ t + latency
  | _ => true

def lookup (s : State κ α) (k : κ) : Option α :=
  (s.cache k).bind fun e => if s.clock < e.2 then some e.1 else none

def step [DecidableEq κ] (c : Config) (s : State κ α) : Label κ α → Option (State κ α)
  | .tick d =>
    if s.requests.all (Phase.inTime c.latency (s.clock + d)) then
      some { s with clock := s.clock + d, past := (s.clock + d, s.source) :: s.past }
    else none
  | .change k o =>
    let source := Function.update s.source k o
    some { s with source, past := (s.clock, source) :: s.past }
  | .delete k => some { s with cache := Function.update s.cache k none }
  | .start k => some { s with requests := s.requests ++ [.looking k] }
  | .get i fails =>
    match s.requests[i]? with
    | some (.looking k) =>
      let next := match if fails then none else lookup s k with
        -- a hit is answered at once
        | some v => .answered k (some v) s.clock
        | none => .missed k
      some { s with requests := s.requests.set i next }
    | _ => none
  | .fetch i =>
    match s.requests[i]? with
    | some (.missed k) =>
      let next := match s.source k with
        | some v => .fetched k v s.clock
        | none => .answered k none s.clock
      some { s with requests := s.requests.set i next }
    | _ => none
  | .put i stored =>
    match s.requests[i]? with
    | some (.fetched k v _) =>
      let cache := if stored then Function.update s.cache k (some (v, s.clock + c.ttl)) else s.cache
      some { s with cache, requests := s.requests.set i (.answered k (some v) s.clock) }
    | _ => none
  | .crash i => some { s with requests := s.requests.set i .gone }

def steps [DecidableEq κ] (c : Config) (s : State κ α) : List (Label κ α) → Option (State κ α)
  | [] => some s
  | l :: ls => (step c s l).bind fun s' => steps c s' ls

def Had (s : State κ α) (t : ℕ) (k : κ) (o : Option α) : Prop := ∃ src, (t, src) ∈ s.past ∧ src k = o

def Recent (c : Config) (s : State κ α) (k : κ) (o : Option α) (t : ℕ) : Prop :=
  ∃ t₀, Had s t₀ k o ∧ t₀ ≤ t ∧ t ≤ t₀ + c.latency + c.ttl

structure Inv (c : Config) (s : State κ α) : Prop where
  now : (s.clock, s.source) ∈ s.past
  past : ∀ p ∈ s.past, p.1 ≤ s.clock
  cache : ∀ k v e, s.cache k = some (v, e) → ∃ t, Had s t k (some v) ∧ e ≤ t + c.latency + c.ttl
  fetched : ∀ k v t, .fetched k v t ∈ s.requests → Had s t k (some v) ∧ s.clock ≤ t + c.latency
  answered : ∀ k o t, .answered k o t ∈ s.requests → Recent c s k o t

variable {c : Config} {s s' : State κ α} {k : κ} {o : Option α} {t : ℕ}

theorem Had.mono (h : Had s t k o) (hp : ∀ p ∈ s.past, p ∈ s'.past) : Had s' t k o := by
  obtain ⟨src, hmem, ho⟩ := h
  exact ⟨src, hp _ hmem, ho⟩

theorem Recent.mono (h : Recent c s k o t) (hp : ∀ p ∈ s.past, p ∈ s'.past) : Recent c s' k o t := by
  obtain ⟨t₀, hhad, hle⟩ := h
  exact ⟨t₀, hhad.mono hp, hle⟩

theorem Inv.initial (source : κ → Option α) : Inv c (initial source) where
  now := List.mem_singleton_self _
  past p hp := by
    obtain rfl := List.mem_singleton.mp hp
    exact Nat.le_refl _
  cache _ _ _ h := by cases h
  fetched _ _ _ h := by cases h
  answered _ _ _ h := by cases h

namespace Inv

theorem advance (h : Inv c s) {clock : ℕ} {source : κ → Option α} (hclock : s.clock ≤ clock)
    (htime : ∀ k v t, .fetched k v t ∈ s.requests → clock ≤ t + c.latency) :
    Inv c { s with clock, source, past := (clock, source) :: s.past } where
  now := List.mem_cons_self
  past p hp := by
    rcases List.mem_cons.mp hp with rfl | hp
    · exact Nat.le_refl _
    · exact Nat.le_trans (h.past p hp) hclock
  cache k v e hk := by
    obtain ⟨t, hhad, hle⟩ := h.cache k v e hk
    exact ⟨t, hhad.mono fun _ => List.mem_cons_of_mem _, hle⟩
  fetched k v t hr :=
    ⟨(h.fetched k v t hr).1.mono fun _ => List.mem_cons_of_mem _, htime k v t hr⟩
  answered k o t hr := (h.answered k o t hr).mono fun _ => List.mem_cons_of_mem _

theorem move (h : Inv c s) {i : ℕ} {p : Phase κ α}
    (hf : ∀ k v t, p = .fetched k v t → Had s t k (some v) ∧ s.clock ≤ t + c.latency)
    (ha : ∀ k o t, p = .answered k o t → Recent c s k o t) :
    Inv c { s with requests := s.requests.set i p } where
  now := h.now
  past := h.past
  cache := h.cache
  fetched k v t hr := by
    rcases List.mem_or_eq_of_mem_set hr with hr | heq
    · exact h.fetched k v t hr
    · exact hf k v t heq.symm
  answered k o t hr := by
    rcases List.mem_or_eq_of_mem_set hr with hr | heq
    · exact h.answered k o t hr
    · exact ha k o t heq.symm

theorem le_clock (h : Inv c s) (hhad : Had s t k o) : t ≤ s.clock := by
  obtain ⟨src, hmem, -⟩ := hhad
  exact h.past _ hmem

theorem source_now (h : Inv c s) (k : κ) : Had s s.clock k (s.source k) := ⟨s.source, h.now, rfl⟩

theorem recent_now (h : Inv c s) (k : κ) : Recent c s k (s.source k) s.clock :=
  ⟨s.clock, h.source_now k, Nat.le_refl _, by omega⟩

theorem lookup_recent (h : Inv c s) {v : α} (hv : lookup s k = some v) :
    Recent c s k (some v) s.clock := by
  obtain ⟨⟨v', e⟩, hcache, hlive⟩ := Option.bind_eq_some_iff.mp hv
  obtain ⟨hlt, hv'⟩ := Option.ite_none_right_eq_some.mp hlive
  obtain rfl := Option.some.inj hv'
  obtain ⟨t, hhad, hle⟩ := h.cache k v' e hcache
  exact ⟨t, hhad, h.le_clock hhad, by omega⟩

variable [DecidableEq κ]

theorem store (h : Inv c s) (k : κ) (e : Option (α × ℕ))
    (he : ∀ v n, e = some (v, n) → ∃ t, Had s t k (some v) ∧ n ≤ t + c.latency + c.ttl) :
    Inv c { s with cache := Function.update s.cache k e } where
  now := h.now
  past := h.past
  cache k' v n hk := by
    have hk : Function.update s.cache k e k' = some (v, n) := hk
    by_cases heq : k' = k
    · subst heq
      rw [Function.update_self] at hk
      exact he v n hk
    · rw [Function.update_of_ne heq] at hk
      exact h.cache k' v n hk
  fetched := h.fetched
  answered := h.answered

theorem step (h : Inv c s) {l : Label κ α} (hs : ReadThrough.step c s l = some s') : Inv c s' := by
  cases l with
  | tick d =>
    rw [ReadThrough.step, Option.ite_none_right_eq_some] at hs
    obtain ⟨hall, hs⟩ := hs
    cases hs
    refine h.advance (Nat.le_add_right _ _) fun k v t hr => ?_
    have htime := List.all_eq_true.mp hall _ hr
    simpa [Phase.inTime] using htime
  | change k o =>
    cases hs
    exact h.advance (Nat.le_refl _) fun k v t hr => (h.fetched k v t hr).2
  | delete k =>
    cases hs
    exact h.store k none fun _ _ he => by cases he
  | start k =>
    cases hs
    refine ⟨h.now, h.past, h.cache, fun k' v t hr => ?_, fun k' o t hr => ?_⟩
    · rcases List.mem_append.mp hr with hr | hr
      · exact h.fetched k' v t hr
      · cases List.mem_singleton.mp hr
    · rcases List.mem_append.mp hr with hr | hr
      · exact h.answered k' o t hr
      · cases List.mem_singleton.mp hr
  | get i fails =>
    simp only [ReadThrough.step] at hs
    split at hs
    · rename_i k _
      cases hs
      cases hv : if fails then none else lookup s k with
      | none => exact h.move (fun _ _ _ he => by cases he) fun _ _ _ he => by cases he
      | some v =>
        refine h.move (fun _ _ _ he => by cases he) fun k' o t he => ?_
        cases he
        cases fails with
        | true => cases hv
        | false => exact h.lookup_recent hv
    · cases hs
  | fetch i =>
    simp only [ReadThrough.step] at hs
    split at hs
    · rename_i k _
      cases hs
      have hnow := h.source_now k
      have hrecent := h.recent_now k
      cases hv : s.source k with
      | none =>
        refine h.move (fun _ _ _ he => by cases he) fun k' o t he => ?_
        cases he
        exact hv ▸ hrecent
      | some v =>
        refine h.move (fun k' v' t he => ?_) fun _ _ _ he => by cases he
        cases he
        exact ⟨hv ▸ hnow, Nat.le_add_right _ _⟩
    · cases hs
  | put i stored =>
    simp only [ReadThrough.step] at hs
    split at hs
    · rename_i k v t hi
      cases hs
      obtain ⟨hhad, hle⟩ := h.fetched k v t (List.mem_of_getElem? hi)
      have hrecent : Recent c s k (some v) s.clock := ⟨t, hhad, h.le_clock hhad, by omega⟩
      have hmoved : Inv c { s with requests := s.requests.set i (.answered k (some v) s.clock) } := by
        refine h.move (fun _ _ _ he => by cases he) fun k' o t' he => ?_
        cases he
        exact hrecent
      cases stored with
      | false => exact hmoved
      | true =>
        refine hmoved.store k (some (v, s.clock + c.ttl)) fun v' n he => ?_
        cases he
        exact ⟨t, hhad, by omega⟩
    · cases hs
  | crash i =>
    cases hs
    exact h.move (fun _ _ _ he => by cases he) fun _ _ _ he => by cases he

theorem steps (h : Inv c s) {ls : List (Label κ α)} (hs : ReadThrough.steps c s ls = some s') :
    Inv c s' := by
  induction ls generalizing s with
  | nil => cases hs; exact h
  | cons l ls ih =>
    obtain ⟨s₁, h₁, hs⟩ := Option.bind_eq_some_iff.mp hs
    exact ih (h.step h₁) hs

end Inv

def answer (s : State κ α) (k : κ) (fails : Bool) : Option α :=
  (if fails then none else lookup s k).or (s.source k)

theorem served_alone [DecidableEq κ] (s : State κ α) (k : κ) (fails stored : Bool) :
    ∃ ls s', steps c s (.start k :: .get s.requests.length fails :: ls) = some s' ∧
      s'.requests = s.requests ++ [.answered k (answer s k fails) s.clock] := by
  have hlookup : lookup { s with requests := s.requests ++ [.looking k] } k = lookup s k := rfl
  cases hcached : if fails then none else lookup s k with
  | some v =>
    refine ⟨[], ?_⟩
    simp [steps, step, hlookup, hcached, answer]
  | none =>
    cases hsource : s.source k with
    | none =>
      refine ⟨[.fetch s.requests.length], ?_⟩
      simp [steps, step, hlookup, hcached, answer, hsource]
    | some v =>
      refine ⟨[.fetch s.requests.length, .put s.requests.length stored], ?_⟩
      simp [steps, step, hlookup, hcached, answer, hsource]

end JitoGame.ReadThrough
