import JitoGame.Auth.Validity
import JitoGame.ReadThrough

namespace JitoGame.Auth.UserStatusGuard

open ReadThrough

variable {env : Env}

def statusCacheTtlSeconds : ℕ := 60

def statusCache (latency : ℕ) : Config := ⟨statusCacheTtlSeconds * 1000, latency⟩

def statuses (d : Db env.Hash) (userId : Uuid) : Option String := (d.userById userId).map fun u => u.status.text

def verdict : Option String → Except Rejection Unit
  | none => throw .unauthorized
  | some status => checkStatus status

theorem verdict_answer (d : Db env.Hash) (s : State Uuid String) (userId : Uuid) (fails : Bool)
    (hs : s.source = statuses d) :
    verdict (answer s userId fails) =
      getCachedStatus d (if fails then none else lookup s userId) userId >>= checkStatus := by
  unfold answer getCachedStatus
  cases if fails then none else lookup s userId with
  | some status => rfl
  | none =>
    rw [hs, Option.none_or, statuses]
    cases d.userById userId <;> rfl

variable {latency : ℕ} {d : Db env.Hash} {s : State Uuid String} {ls : List (Label Uuid String)}

theorem verdicts_of_run (h : steps (statusCache latency) (initial (statuses d)) ls = some s) :
    (∀ userId o t, .answered userId o t ∈ s.requests →
      ∃ t₀, Had s t₀ userId o ∧ t₀ ≤ t ∧ t ≤ t₀ + latency + 60000) ∧
    (∀ userId o since, (∀ p ∈ s.past, since < p.1 → p.2 userId = o) →
      ∀ o' t, .answered userId o' t ∈ s.requests → since + latency + 60000 < t →
        verdict o' = verdict o) ∧
    ∀ (d' : Db env.Hash) userId fails, s.source = statuses d' →
      ∃ ls s', steps (statusCache latency) s (.start userId :: .get s.requests.length fails :: ls) = some s' ∧
        ∃ o t, s'.requests = s.requests ++ [.answered userId o t] ∧
          verdict o = getCachedStatus d' (if fails then none else lookup s userId) userId >>= checkStatus := by
  have hinv := (Inv.initial (statuses d)).steps h
  refine ⟨fun userId o t hr => hinv.answered userId o t hr, fun userId o since hsince o' t hr hlate => ?_,
    fun d' userId fails hsource => ?_⟩
  · obtain ⟨t₀, ⟨src, hmem, rfl⟩, -, hle⟩ := hinv.answered userId o' t hr
    have hlater : since < t₀ := by
      change t ≤ t₀ + latency + 60000 at hle
      omega
    exact congrArg verdict (hsince (t₀, src) hmem hlater)
  · obtain ⟨ls, s', hrun, hrequests⟩ := served_alone (c := statusCache latency) s userId fails true
    exact ⟨ls, s', hrun, _, _, hrequests, verdict_answer d' s userId fails hsource⟩

-- the player is banned, and the key deleted, between the guard's read of the row and its `SET`
def banRun (userId : Uuid) : List (Label Uuid String) :=
  [.start userId, .get 0 false, .fetch 0, .tick 1000, .change userId (some "banned"), .delete userId,
    .put 0 true, .tick 59999, .start userId, .get 1 false, .tick 5000, .start userId, .get 2 true, .fetch 2,
    .put 2 false]

theorem verdicts_after_ban : ∃ s, steps (statusCache 2000) (initial (statuses signedIn)) (banRun (.ofNat 1)) =
      some s ∧
    s.requests = [.answered (.ofNat 1) (some "active") 1000, .answered (.ofNat 1) (some "active") 60999,
      .answered (.ofNat 1) (some "banned") 65999] ∧
    ∀ userId o t, .answered userId o t ∈ s.requests →
      ∃ t₀, Had s t₀ userId o ∧ t₀ ≤ t ∧ t ≤ t₀ + 2000 + 60000 := by
  have hrun : (steps (statusCache 2000) (initial (statuses signedIn)) (banRun (.ofNat 1))).map
      (fun s => s.requests) = some [.answered (.ofNat 1) (some "active") 1000,
        .answered (.ofNat 1) (some "active") 60999, .answered (.ofNat 1) (some "banned") 65999] := by
    decide +kernel
  obtain ⟨s, hs, hrequests⟩ := Option.map_eq_some_iff.mp hrun
  exact ⟨s, hs, hrequests, (verdicts_of_run hs).1⟩

end JitoGame.Auth.UserStatusGuard
