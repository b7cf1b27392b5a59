import JitoGame.Auth.Attempts
import JitoGame.Auth.PasswordChange

namespace JitoGame.Auth

open Transactions AuthService

section Log

variable {env : Env} {base d : Db env.Hash} {userId : Uuid} {c : Commit (schema env)}
variable {newer older seen gap log : List (Commit (schema env))}

def failures (userId : Uuid) (log : List (Commit (schema env))) : ℕ := log.countP (fails userId)

def Unbroken (userId : Uuid) (newer : List (Commit (schema env))) : Prop :=
  ∀ c ∈ newer, succeeds userId c = false ∧ locksOut userId c = false

/-- A failure that is the tenth of its stretch, or a later one, locks the account, for the fifteen
minutes that follow it. -/
def LocksOut (base : Db env.Hash) (log : List (Commit (schema env))) : Prop :=
  ∀ userId c newer older, (c :: (newer ++ older)) <:+ log → fails userId c = true →
    Unbroken userId newer → lockoutThreshold ≤ failures userId (c :: newer) →
    ∃ nowMs u, c.writes = [.failLogin userId 0 (some (nowMs + lockoutDurationMs))] ∧
      Db.userById (replay base (c :: (newer ++ older))) userId = some u ∧
      u.lockedUntil = some (nowMs + lockoutDurationMs)

/-- Between the read of a login and the failure that it records, no other failure of that user is
recorded, except one that locks the account. -/
def countsInTurn (env : Env) : Policy (schema env) :=
  ⟨fun _ => True, fun _ _ => True,
    fun c _ older => ∀ userId ∈ c.writes.filterMap Write.failureOf, ∀ m ∈ c.trace, m.tag = .findUser →
      ∀ c' ∈ m.since older, fails userId c' = true → locksOut userId c' = true,
    fun _ => True⟩

inductive Recount (c : Commit (schema env)) (d : Db env.Hash) (u : User env.Hash) : Prop
  | kept {u₀ : User env.Hash} (hu : u₀ ∈ d.users) (hid : u₀.id = u.id)
      (hcount : u.failedLoginCount = u₀.failedLoginCount) (hfails : fails u.id c = false)
  | cleared (hcount : u.failedLoginCount = 0)
      (hbreaks : succeeds u.id c = true ∨ locksOut u.id c = true)
  | raised {m : Mark (schema env)} {v : User env.Hash} (hm : m ∈ c.trace) (htag : m.tag = .findUser)
      (hv : v ∈ m.db.users) (hid : v.id = u.id)
      (hcount : u.failedLoginCount = v.failedLoginCount + 1) (hfails : fails u.id c = true)

theorem Unbroken.suffix {front : List (Commit (schema env))} (h : Unbroken userId newer)
    (hs : front <:+ newer) : Unbroken userId front := fun c hc => h c (hs.subset hc)

theorem mem_failureOf : userId ∈ c.writes.filterMap Write.failureOf ↔ fails userId c = true := by
  simp [fails, List.mem_filterMap]

theorem count_kept {x : Write env.Hash} {u : User env.Hash} (hu : u ∈ (x.apply d).users)
    (hf : x.failureOf ≠ some u.id) (hs : x.successOf ≠ some u.id) :
    ∃ u₀ ∈ d.users, u₀.id = u.id ∧ u.failedLoginCount = u₀.failedLoginCount := by
  obtain ⟨u₀, hu₀, rfl⟩ := List.mem_map.mp hu
  refine ⟨u₀, hu₀, (x.user_id u₀).symm, ?_⟩
  rw [Write.user_id] at hf hs
  cases x with
  | setPasswordHash id hash =>
    simp only [Write.user]
    split
    · rfl
    · rfl
  | resetFailures id t =>
    have hne : u₀.id ≠ id := fun heq => hs (congrArg some heq.symm)
    simp [Write.user, hne]
  | failLogin id n t =>
    have hne : u₀.id ≠ id := fun heq => hf (congrArg some heq.symm)
    simp [Write.user, hne]
  | _ => rfl

theorem counts_kept {ws : List (Write env.Hash)} {u : User env.Hash}
    (hu : u ∈ Db.users (applyAll (S := schema env) ws d))
    (hws : ∀ x ∈ ws, x.failureOf ≠ some u.id ∧ x.successOf ≠ some u.id) :
    ∃ u₀ ∈ d.users, u₀.id = u.id ∧ u.failedLoginCount = u₀.failedLoginCount := by
  induction ws generalizing d with
  | nil => exact ⟨u, hu, rfl, rfl⟩
  | cons x ws ih =>
    obtain ⟨u₁, hu₁, hid, hcount⟩ := ih hu fun y hy => hws y (List.mem_cons_of_mem _ hy)
    have hx := hws x List.mem_cons_self
    rw [← hid] at hx
    obtain ⟨u₀, hu₀, hid', hcount'⟩ := count_kept hu₁ hx.1 hx.2
    exact ⟨u₀, hu₀, hid'.trans hid, hcount.trans hcount'⟩

theorem Write.user_failLogin {u : User env.Hash} (hid : u.id = userId) (n : ℤ) (t : Option ℕ) :
    (Write.failLogin userId n t).user u =
      { u with failedLoginCount := n, lockedUntil := t.or u.lockedUntil } :=
  if_pos hid

theorem count_failedLogin {v u : User env.Hash} {nowMs : ℕ} (hid : v.id = u.id)
    (hu : u ∈ Db.users (applyAll (S := schema env) (failedLogin v nowMs) d)) :
    u.failedLoginCount =
      if lockoutThreshold ≤ v.failedLoginCount + 1 then 0 else v.failedLoginCount + 1 := by
  obtain ⟨u₀, hu₀, heq⟩ := List.mem_map.mp hu
  have hid' : u₀.id = v.id := by rw [hid, ← heq, Write.user_id]
  rw [← heq, Write.user_failLogin hid']

theorem count_success {u : User env.Hash} {t : ℕ} (hid : u.id = userId)
    (hu : u ∈ Db.users (applyAll (S := schema env) [.resetFailures userId t] d)) :
    u.failedLoginCount = 0 := by
  obtain ⟨u₀, hu₀, rfl⟩ := List.mem_map.mp hu
  rw [Write.user_id] at hid
  simp [Write.user, hid]

theorem Tallied.recount (h : Tallied c d) {u : User env.Hash}
    (hu : u ∈ Db.users (applyAll (S := schema env) c.writes d)) : Recount c d u := by
  cases hf : fails u.id c with
  | true =>
    obtain ⟨dto, ip, userAgent, m, v, nowMs, -, hm, hmistakes, hid, hw⟩ := h.failure u.id hf
    have hcount := count_failedLogin hid (hw ▸ hu)
    split at hcount
    · rename_i hlock
      exact .cleared hcount (.inr (by simp [locksOut, hw, failedLogin, hlock, Write.lockoutOf, hid]))
    · have hv : v ∈ m.db.users := List.mem_of_find?_eq_some hmistakes.user
      exact .raised hm hmistakes.tag hv hid hcount hf
  | false =>
    cases hs : succeeds u.id c with
    | true =>
      obtain ⟨dto, ip, userAgent, m, v, t, -, -, -, -, hw⟩ := h.success u.id hs
      exact .cleared (count_success rfl (hw ▸ hu)) (.inl hs)
    | false =>
      have hws : ∀ x ∈ c.writes, x.failureOf ≠ some u.id ∧ x.successOf ≠ some u.id := fun x hx =>
        ⟨by simpa using List.any_eq_false.mp hf x hx, by simpa using List.any_eq_false.mp hs x hx⟩
      obtain ⟨u₀, hu₀, hid, hcount⟩ := counts_kept hu hws
      exact .kept hu₀ hid hcount hf

theorem locked_failLogin (h : (d.userById userId).isSome = true) (n : ℤ) (t : ℕ) :
    ∃ u, ((Write.failLogin userId n (some t)).apply d).userById userId = some u ∧
      u.lockedUntil = some t := by
  obtain ⟨u, hu⟩ := Option.isSome_iff_exists.mp h
  have hid : u.id = userId := by simpa using List.find?_some hu
  refine ⟨_, by rw [userById_apply, hu]; rfl, ?_⟩
  rw [Write.user_failLogin hid]
  rfl

theorem userById_replay_isSome (base : Db env.Hash) (log : List (Commit (schema env)))
    (userId : Uuid) : (Db.userById (replay base log) userId).isSome = (base.userById userId).isSome := by
  induction log with
  | nil => rfl
  | cons c log ih => exact (userById_isSome c.writes _ userId).trans ih

theorem failures_seen (hunbroken : Unbroken userId newer) (hsplit : gap ++ seen = newer ++ older)
    (hgap : ∀ c ∈ gap, fails userId c = true → locksOut userId c = true) :
    ∃ front, front <:+ newer ∧ failures userId newer = failures userId front ∧
      (seen = front ++ older ∨ front = []) := by
  have hnone {l : List (Commit (schema env))} (hl : l ⊆ gap) (hl' : l ⊆ newer) :
      failures userId l = 0 := by
    apply List.countP_eq_zero.mpr
    intro c hc hf
    have hlocks := hgap c (hl hc) hf
    rw [(hunbroken c (hl' hc)).2] at hlocks
    cases hlocks
  rcases List.append_eq_append_iff.mp hsplit with ⟨front, rfl, rfl⟩ | ⟨rest, rfl, rfl⟩
  · refine ⟨front, List.suffix_append _ _, ?_, .inl rfl⟩
    have hzero := hnone (List.Subset.refl gap) (List.subset_append_left gap front)
    rw [failures] at hzero ⊢
    rw [List.countP_append, hzero, Nat.zero_add]
    rfl
  · exact ⟨[], List.nil_suffix, hnone (List.subset_append_left _ _) (List.Subset.refl _), .inr rfl⟩

end Log

section Run

variable {env : Env} {base : Db env.Hash} {s : State (schema env)} {userId : Uuid}
variable {c : Commit (schema env)} {newer older log : List (Commit (schema env))}

theorem Run.count_nonneg {K : Policy (schema env)} (h : Run K base s)
    (h₀ : ∀ u ∈ base.users, 0 ≤ u.failedLoginCount) (hs : log <:+ s.world.log) :
    ∀ u ∈ Db.users (replay base log), 0 ≤ u.failedLoginCount := by
  induction hn : log.length using Nat.strong_induction_on generalizing log with
  | h n ih =>
    subst hn
    cases log with
    | nil => exact h₀
    | cons c older =>
      intro u hu
      have hs' : older <:+ s.world.log := (List.suffix_cons c older).trans hs
      cases (h.tallies.suffix hs).1.recount hu with
      | kept hu₀ _ hcount _ =>
        rw [hcount]
        exact ih older.length (Nat.lt_succ_self _) hs' rfl _ hu₀
      | cleared hcount _ => rw [hcount]
      | @raised m v hm _ hv _ hcount _ =>
        obtain ⟨seen, hseen, -, hdb⟩ := ((h.obeys.log c older hs).marks m hm).seen
        have hread := ih seen.length (Nat.lt_succ_of_le hseen.length_le) (hseen.trans hs') rfl v
          (hdb ▸ hv)
        omega

theorem Run.failures_le_read (h : Run (countsInTurn env) base s)
    (h₀ : ∀ u ∈ base.users, 0 ≤ u.failedLoginCount) (hs : (c :: (newer ++ older)) <:+ s.world.log)
    (hf : fails userId c = true) (hunbroken : Unbroken userId newer)
    (hle : ∀ front, front <:+ newer → ∀ u ∈ Db.users (replay base (front ++ older)),
      u.id = userId → failures userId front ≤ u.failedLoginCount)
    {m : Mark (schema env)} (hm : m ∈ c.trace) (htag : m.tag = .findUser) {v : User env.Hash}
    (hv : v ∈ m.db.users) (hid : v.id = userId) : failures userId newer ≤ v.failedLoginCount := by
  have hobeys := h.obeys.log c _ hs
  obtain ⟨seen, hseen, hlen, hdb⟩ := (hobeys.marks m hm).seen
  obtain ⟨gap, hgap⟩ := hseen
  have hturn : ∀ c' ∈ gap, fails userId c' = true → locksOut userId c' = true := by
    have hcommit := hobeys.commit userId (mem_failureOf.mpr hf) m hm htag
    rwa [← hgap, Mark.since_append hlen] at hcommit
  obtain ⟨front, hfront, heq, hcase⟩ := failures_seen hunbroken hgap hturn
  rw [heq]
  rcases hcase with rfl | rfl
  · exact hle front hfront v (hdb ▸ hv) hid
  · have hlog : seen <:+ s.world.log := ((hgap ▸ List.suffix_append gap seen).trans
      (List.suffix_cons c _)).trans hs
    exact h.count_nonneg h₀ hlog v (hdb ▸ hv)

theorem Run.failures_le (h : Run (countsInTurn env) base s)
    (h₀ : ∀ u ∈ base.users, 0 ≤ u.failedLoginCount) (hs : (newer ++ older) <:+ s.world.log)
    (hunbroken : Unbroken userId newer) {u : User env.Hash}
    (hu : u ∈ Db.users (replay base (newer ++ older))) (hid : u.id = userId) :
    failures userId newer ≤ u.failedLoginCount := by
  -- the login that wrote the counter may have read it at any earlier point of the stretch
  induction hn : newer.length using Nat.strong_induction_on generalizing newer u with
  | h n ih =>
    subst hn
    cases newer with
    | nil => exact h.count_nonneg h₀ hs u hu
    | cons c rest =>
      have hrest : Unbroken userId rest := hunbroken.suffix (List.suffix_cons c rest)
      have hle : ∀ front, front <:+ rest → ∀ u ∈ Db.users (replay base (front ++ older)),
          u.id = userId → failures userId front ≤ u.failedLoginCount := by
        intro front hfront u hu hid
        have hs' : (front ++ older) <:+ s.world.log := by
          obtain ⟨gap, rfl⟩ := hfront
          refine List.IsSuffix.trans ⟨c :: gap, ?_⟩ hs
          simp
        exact ih front.length (Nat.lt_succ_of_le hfront.length_le) hs' (hrest.suffix hfront) hu hid rfl
      cases (h.tallies.suffix hs).1.recount hu with
      | kept hu₀ hid' hcount hfails =>
        rw [hid] at hfails
        rw [hcount, failures, List.countP_cons_of_neg (by simp [hfails])]
        exact hle rest (List.suffix_refl _) _ hu₀ (hid'.trans hid)
      | cleared _ hbreaks =>
        have hnone := hunbroken c List.mem_cons_self
        rw [hid, hnone.1, hnone.2] at hbreaks
        simp at hbreaks
      | raised hm htag hv hid' hcount hfails =>
        rw [hid] at hfails
        have hread := h.failures_le_read h₀ hs hfails hrest hle hm htag hv (hid'.trans hid)
        rw [hcount, failures, List.countP_cons_of_pos hfails]
        push_cast
        exact Int.add_le_add_right hread 1

theorem lockout_of_run (h : Run (countsInTurn env) base s)
    (h₀ : ∀ u ∈ base.users, 0 ≤ u.failedLoginCount) : LocksOut base s.world.log := by
  intro userId c newer older hs hf hunbroken hten
  have hs' : (newer ++ older) <:+ s.world.log := (List.suffix_cons c _).trans hs
  obtain ⟨dto, ip, userAgent, m, v, nowMs, -, hm, hmistakes, hid, hw⟩ :=
    (h.tallies.suffix hs).1.failure userId hf
  have hv : v ∈ m.db.users := List.mem_of_find?_eq_some hmistakes.user
  have hread := h.failures_le_read h₀ hs hf hunbroken (fun front hfront u hu hid => by
    obtain ⟨gap, rfl⟩ := hfront
    rw [List.append_assoc] at hs'
    exact h.failures_le h₀ ((List.suffix_append gap _).trans hs')
      (hunbroken.suffix (List.suffix_append gap front)) hu hid) hm hmistakes.tag hv hid
  have hlock : lockoutThreshold ≤ v.failedLoginCount + 1 := by
    rw [failures, List.countP_cons_of_pos hf] at hten
    rw [failures] at hread
    push_cast at hten
    omega
  have hwrites : c.writes = [.failLogin userId 0 (some (nowMs + lockoutDurationMs))] := by
    rw [hw, failedLogin, hid, if_pos hlock, if_pos hlock]
  have hfound : (Db.userById (replay base (newer ++ older)) userId).isSome = true := by
    obtain ⟨seen, -, -, hdb⟩ := ((h.obeys.log c _ hs).marks m hm).seen
    rw [userById_replay_isSome, ← userById_replay_isSome base seen, ← hdb]
    exact List.find?_isSome.mpr ⟨v, hv, decide_eq_true hid⟩
  obtain ⟨u, hu, hlocked⟩ := locked_failLogin hfound 0 (nowMs + lockoutDurationMs)
  exact ⟨nowMs, u, hwrites, by rw [replay, hwrites]; exact hu, hlocked⟩

end Run

instance : DecidablePred (countsInTurn sampleEnv).spawn := fun _ => isTrue trivial

instance (c : Call) : DecidablePred ((countsInTurn sampleEnv).stmt c) := fun _ => isTrue trivial

instance (c : Commit sampleSchema) (d : Db sampleEnv.Hash) :
    DecidablePred ((countsInTurn sampleEnv).commit c d) := fun older =>
  inferInstanceAs (Decidable (∀ userId ∈ c.writes.filterMap Write.failureOf, ∀ m ∈ c.trace,
    _ → ∀ c' ∈ m.since older, fails userId c' = true → locksOut userId c' = true))

instance : DecidablePred (countsInTurn sampleEnv).fault := fun _ => isTrue trivial

def guess : LoginDto := ⟨"alice", "guess"⟩

-- Redis is not available
def guessRun (i : ℕ) : List (Label sampleSchema) :=
  [.spawn i (.login guess "ip" none), .input i 0, .input i 0, .run i, .input i 0]

def countRun (i : ℕ) : List (Label sampleSchema) := [.input i 7, .run i, .run i, .run i]

theorem lockout_after_ten :
    ∃ s, (countsInTurn sampleEnv).steps (body sampleEnv) (initial (signedOut true) [])
        ((List.range 10).flatMap fun i => guessRun i ++ countRun i) = some s ∧
      failures (.ofNat 1) s.world.log = 10 ∧
      LocksOut (signedOut true) s.world.log := by
  have hrun : ((countsInTurn sampleEnv).steps (body sampleEnv) (initial (signedOut true) [])
      ((List.range 10).flatMap fun i => guessRun i ++ countRun i)).map
        (fun s => failures (.ofNat 1) s.world.log) = some 10 := by decide +kernel
  obtain ⟨s, hs, hten⟩ := Option.map_eq_some_iff.mp hrun
  exact ⟨s, hs, hten, lockout_of_run (.steps (known_signedOut true) hs) (by decide)⟩

/-- All ten read the row before the first of them writes it. -/
def overlappingRun : List (Label sampleSchema) :=
  (List.range 10).flatMap guessRun ++ (List.range 10).flatMap countRun

def uncounted (s : State sampleSchema) : Bool :=
  s.world.log.length = 10 ∧ s.world.log.all fun c =>
    fails (.ofNat 1) c ∧ !succeeds (.ofNat 1) c ∧
      !locksOut (.ofNat 1) c

theorem overlapping_failures_do_not_lock :
    ∃ s, Run (Policy.calls fun _ => True) (signedOut true) s ∧
      ¬ LocksOut (signedOut true) s.world.log := by
  have hrun : ((Policy.calls fun _ => True).steps (body sampleEnv) (initial (signedOut true) [])
      overlappingRun).map uncounted = some true := by decide
  obtain ⟨s, hs, huncounted⟩ := Option.map_eq_some_iff.mp hrun
  refine ⟨s, .steps (known_signedOut true) hs, fun hall => ?_⟩
  obtain ⟨hlen, hlog⟩ := of_decide_eq_true huncounted
  have hcommit (c) (hc : c ∈ s.world.log) := of_decide_eq_true (List.all_eq_true.mp hlog c hc)
  obtain ⟨c, newer, heq⟩ := List.exists_cons_of_length_eq_add_one hlen
  have hc := hcommit c (heq ▸ List.mem_cons_self)
  have hunbroken : Unbroken (.ofNat 1) newer := fun c' hc' => by
    simpa using (hcommit c' (heq ▸ List.mem_cons_of_mem _ hc')).2
  have hten : failures (.ofNat 1) (c :: newer) = 10 := by
    rw [← heq, ← hlen]
    exact List.countP_eq_length.mpr fun c' hc' => (hcommit c' hc').1
  obtain ⟨nowMs, u, hw, -, -⟩ := hall (.ofNat 1) c newer [] (by simp [heq]) hc.1 hunbroken
    (by rw [hten]; decide)
  have hlocks : locksOut (.ofNat 1) c = true := by
    rw [locksOut, hw]
    rfl
  simp [hlocks] at hc

end JitoGame.Auth
