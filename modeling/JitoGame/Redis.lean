import Mathlib.Data.Nat.Notation
import Mathlib.Logic.Function.Basic

namespace JitoGame.Redis

structure Entry (α : Type*) where
  value : α
  expires : Bool
  deriving DecidableEq

abbrev Store (κ α : Type*) := κ → Option (Entry α)

variable {κ α : Type*} [DecidableEq κ] {k k' : κ}

/-- `INCR` and its reply. A key that exists keeps its expiry. -/
def incr (s : Store κ ℕ) (k : κ) : Store κ ℕ × ℕ :=
  match s k with
  | none => (Function.update s k (some ⟨1, false⟩), 1)
  | some c => (Function.update s k (some ⟨c.value + 1, c.expires⟩), c.value + 1)

/-- `EXPIRE` and `PEXPIRE`. A lifetime of 0 deletes the key. -/
def expire (s : Store κ α) (k : κ) (lifetime : ℕ) : Store κ α :=
  match s k with
  | none => s
  | some c => Function.update s k (if lifetime = 0 then none else some ⟨c.value, true⟩)

def setNx (s : Store κ α) (k : κ) (v : α) : Store κ α × Bool :=
  match s k with
  | none => (Function.update s k (some ⟨v, true⟩), true)
  | some _ => (s, false)

def elapse (s : Store κ α) (k : κ) : Option (Store κ α) :=
  match s k with
  | some ⟨_, true⟩ => some (Function.update s k none)
  | _ => none

def del (s : Store κ α) (k : κ) : Store κ α := Function.update s k none

theorem incr_other (s : Store κ ℕ) (h : k' ≠ k) : (incr s k).1 k' = s k' := by
  unfold incr
  split <;> exact Function.update_of_ne h _ _

theorem incr_none {s : Store κ ℕ} (h : s k = none) :
    incr s k = (Function.update s k (some ⟨1, false⟩), 1) := by
  simp [incr, h]

theorem incr_some {s : Store κ ℕ} {c : Entry ℕ} (h : s k = some c) :
    incr s k = (Function.update s k (some ⟨c.value + 1, c.expires⟩), c.value + 1) := by
  simp [incr, h]

theorem expire_none {s : Store κ α} (lifetime : ℕ) (h : s k = none) : expire s k lifetime = s := by
  simp [expire, h]

theorem expire_some {s : Store κ α} {c : Entry α} (lifetime : ℕ) (h : s k = some c) :
    expire s k lifetime =
      Function.update s k (if lifetime = 0 then none else some ⟨c.value, true⟩) := by
  simp [expire, h]

theorem expire_other (s : Store κ α) (lifetime : ℕ) (h : k' ≠ k) : expire s k lifetime k' = s k' := by
  cases hs : s k with
  | none => rw [expire_none lifetime hs]
  | some c => rw [expire_some lifetime hs, Function.update_of_ne h]

theorem expire_self {s : Store κ α} {lifetime : ℕ} {c : Entry α}
    (h : expire s k lifetime k = some c) : c.expires = true := by
  cases hs : s k with
  | none =>
    rw [expire_none lifetime hs, hs] at h
    cases h
  | some c' =>
    rw [expire_some lifetime hs, Function.update_self] at h
    by_cases hz : lifetime = 0
    · rw [if_pos hz] at h
      cases h
    · rw [if_neg hz] at h
      cases h
      rfl

theorem expire_value {s : Store κ α} {lifetime : ℕ} {c : Entry α} {P : α → Prop}
    (h : expire s k lifetime k' = some c) (hs : ∀ c, s k' = some c → P c.value) : P c.value := by
  by_cases hk : k' = k
  · subst hk
    cases hc : s k' with
    | none =>
      rw [expire_none lifetime hc, hc] at h
      cases h
    | some c' =>
      rw [expire_some lifetime hc, Function.update_self, Option.ite_none_left_eq_some] at h
      obtain ⟨-, h⟩ := h
      cases h
      exact hs c' hc
  · exact hs c ((expire_other s lifetime hk).symm.trans h)

theorem elapse_eq {s s' : Store κ α} (h : elapse s k = some s') :
    (∃ v, s k = some ⟨v, true⟩) ∧ s' = Function.update s k none := by
  unfold elapse at h
  split at h
  · rename_i v hv
    cases h
    exact ⟨⟨v, hv⟩, rfl⟩
  · cases h

def count (s : Store κ ℕ) (k : κ) : ℕ := ((s k).map (·.value)).getD 0

theorem incr_reply (s : Store κ ℕ) (k : κ) : (incr s k).2 = count s k + 1 := by
  cases h : s k with
  | none => rw [incr_none h, count, h, Option.map_none, Option.getD_none]
  | some c => rw [incr_some h, count, h, Option.map_some, Option.getD_some]

theorem count_incr (s : Store κ ℕ) (k : κ) : count (incr s k).1 k = count s k + 1 := by
  cases h : s k with
  | none => simp [incr_none h, count, h]
  | some c => simp [incr_some h, count, h]

theorem count_incr_other (s : Store κ ℕ) (h : k' ≠ k) : count (incr s k).1 k' = count s k' := by
  rw [count, count, incr_other s h]

theorem count_expire (s : Store κ ℕ) (k k' : κ) {lifetime : ℕ} (hl : 0 < lifetime) :
    count (expire s k lifetime) k' = count s k' := by
  by_cases hk : k' = k
  · subst hk
    cases h : s k' with
    | none => rw [expire_none lifetime h]
    | some c => simp [expire_some lifetime h, count, h, Nat.ne_of_gt hl]
  · rw [count, count, expire_other s lifetime hk]

theorem count_elapse {s s' : Store κ ℕ} (h : elapse s k = some s') (k' : κ) :
    count s' k' = if k' = k then 0 else count s k' := by
  obtain ⟨-, rfl⟩ := elapse_eq h
  by_cases hk : k' = k
  · simp [hk, count]
  · simp [hk, count]

/-- The script that extends the lifetime of a key for whoever holds it, and whether it did. -/
def renew [DecidableEq α] (s : Store κ α) (k : κ) (v : α) (lifetime : ℕ) : Store κ α × Bool :=
  if (s k).map (·.value) = some v then (expire s k lifetime, true) else (s, false)

theorem setNx_none {s : Store κ α} (v : α) (h : s k = none) :
    setNx s k v = (Function.update s k (some ⟨v, true⟩), true) := by
  simp [setNx, h]

theorem setNx_some {s : Store κ α} {c : Entry α} (v : α) (h : s k = some c) :
    setNx s k v = (s, false) := by
  simp [setNx, h]

theorem renew_reply [DecidableEq α] (s : Store κ α) (v : α) (lifetime : ℕ) :
    (renew s k v lifetime).2 = true ↔ (s k).map (·.value) = some v := by
  unfold renew
  split <;> simp_all

theorem renew_value [DecidableEq α] (s : Store κ α) (v : α) {lifetime : ℕ} (hl : 0 < lifetime) :
    ((renew s k v lifetime).1 k).map (·.value) = (s k).map (·.value) := by
  unfold renew
  split
  · cases hs : s k with
    | none => simp [expire_none lifetime hs, hs]
    | some c => simp [expire_some lifetime hs, Nat.ne_of_gt hl]
  · rfl

end JitoGame.Redis
