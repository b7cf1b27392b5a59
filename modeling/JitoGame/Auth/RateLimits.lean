import JitoGame.Auth.Services
import JitoGame.Redis
import JitoGame.Traces
import Mathlib.Data.List.Induction
import Mathlib.Tactic.IntervalCases

namespace JitoGame.Auth.RateLimits

open Redis Traces

structure Limit where
  key : String
  max : ℕ
  windowSeconds : ℕ
  deriving DecidableEq

inductive Call
  | checkRateLimit (key : String) (max windowSeconds : ℕ)
  | checkAdminRateLimit (ip : String)
  deriving DecidableEq

def loginRateLimitIpKey (ip : String) : String := "ratelimit:login:ip:" ++ ip

def adminLoginRateLimitIpKey (ip : String) : String := "ratelimit:login:admin:ip:" ++ ip

def Call.limit : Call → Limit
  | .checkRateLimit key max windowSeconds => ⟨key, max, windowSeconds⟩
  | .checkAdminRateLimit ip =>
    ⟨adminLoginRateLimitIpKey ip, AdminAuthService.adminLoginRateIpMax,
      AdminAuthService.adminLoginRateIpWindow⟩

inductive Verdict
  | allowed
  | tooManyRequests (retryAfter : ℕ)
  deriving DecidableEq

inductive Progress
  | idle
  | incr
  | expire (current : ℕ)
  | answered (verdict : Verdict)
  -- the process died
  | stopped
  deriving DecidableEq

/-- How a command ends for its caller. An error may be reported before or after the command took
effect, and a client that reconnects sends a command without an answer again. -/
inductive Outcome
  | ok
  | lost
  | failed
  | resent
  deriving DecidableEq

def Outcome.effective : Outcome → Bool
  | .failed => false
  | .ok | .lost | .resent => true

def verdict (l : Limit) (current : ℕ) : Verdict :=
  if l.max < current then .tooManyRequests l.windowSeconds else .allowed

def afterIncr (l : Limit) (current : ℕ) : Outcome → Progress
  | .ok => if current = 1 then .expire current else .answered (verdict l current)
  -- "Redis unavailable — fail open"
  | .lost | .failed => .answered .allowed
  | .resent => .incr

def afterExpire (l : Limit) (current : ℕ) : Outcome → Progress
  | .ok => .answered (verdict l current)
  | .lost | .failed => .answered .allowed
  | .resent => .expire current

structure State where
  store : Store String ℕ
  progress : ℕ → Progress

def start : State := ⟨fun _ => none, fun _ => .idle⟩

inductive Event
  | call (i : ℕ)
  | incr (i : ℕ) (o : Outcome)
  | expire (i : ℕ) (o : Outcome)
  | stop (i : ℕ)
  | elapse (key : String)
  deriving DecidableEq

variable (calls : ℕ → Call)

def step (s : State) : Event → Option State
  | .call i =>
    if s.progress i = .idle then some ⟨s.store, Function.update s.progress i .incr⟩ else none
  | .incr i o =>
    if s.progress i = .incr then
      let l := (calls i).limit
      let (store, current) := incr s.store l.key
      some ⟨if o.effective then store else s.store,
        Function.update s.progress i (afterIncr l current o)⟩
    else none
  | .expire i o =>
    match s.progress i with
    | .expire current =>
      let l := (calls i).limit
      some ⟨if o.effective then expire s.store l.key l.windowSeconds else s.store,
        Function.update s.progress i (afterExpire l current o)⟩
    | _ => none
  | .stop i =>
    match s.progress i with
    | .incr | .expire _ => some ⟨s.store, Function.update s.progress i .stopped⟩
    | _ => none
  | .elapse key => (elapse s.store key).map fun store => ⟨store, s.progress⟩

def Endless (s : State) (key : String) : Prop := ∃ n, s.store key = some ⟨n, false⟩

def Creates (s : State) (key : String) (e : Event) : Prop :=
  ∃ i o, e = .incr i o ∧ o.effective = true ∧ (calls i).limit.key = key ∧ s.store key = none

def Expires (key : String) (e : Event) : Prop :=
  ∃ i o, e = .expire i o ∧ o.effective = true ∧ (calls i).limit.key = key

variable {calls} {s s' : State} {e : Event} {es : List Event} {key : String}

theorem endless_step (h : step calls s e = some s') :
    Endless s' key ↔ (Endless s key ∧ ¬ Expires calls key e) ∨ Creates calls s key e := by
  have hsame (hstore : s'.store = s.store) (hx : ¬ Expires calls key e)
      (hc : ¬ Creates calls s key e) :
      Endless s' key ↔ (Endless s key ∧ ¬ Expires calls key e) ∨ Creates calls s key e := by
    simp [Endless, hstore, hx, hc]
  cases e with
  | call i =>
    simp only [step, Option.ite_none_right_eq_some, Option.some.injEq] at h
    obtain ⟨-, rfl⟩ := h
    exact hsame rfl (by simp [Expires]) (by simp [Creates])
  | stop i =>
    simp only [step] at h
    split at h <;> cases h <;> exact hsame rfl (by simp [Expires]) (by simp [Creates])
  | elapse k =>
    obtain ⟨store, hel, rfl⟩ := Option.map_eq_some_iff.mp h
    obtain ⟨⟨v, hv⟩, rfl⟩ := elapse_eq hel
    by_cases hk : key = k
    · subst hk
      simp [Endless, Expires, Creates, hv]
    · simp [Endless, Expires, Creates, hk]
  | incr i o =>
    simp only [step, Option.ite_none_right_eq_some, Option.some.injEq] at h
    obtain ⟨-, rfl⟩ := h
    by_cases ho : o.effective = true
    · by_cases hk : key = (calls i).limit.key
      · subst hk
        cases hs : s.store (calls i).limit.key with
        | none => simp [Endless, Expires, Creates, ho, hs, incr_none hs]
        | some c => cases c; simp [Endless, Expires, Creates, ho, hs, incr_some hs]
      · simp [Endless, Expires, Creates, ho, Ne.symm hk, incr_other s.store hk]
    · exact hsame (if_neg ho) (by simp [Expires]) (by simp [Creates, ho])
  | expire i o =>
    simp only [step] at h
    split at h <;> cases h
    by_cases ho : o.effective = true
    · by_cases hk : key = (calls i).limit.key
      · subst hk
        have hnot : ¬ ∃ n, expire s.store (calls i).limit.key (calls i).limit.windowSeconds
            (calls i).limit.key = some ⟨n, false⟩ := by
          rintro ⟨n, hn⟩
          exact absurd (expire_self hn) Bool.false_ne_true
        simpa [Endless, Expires, Creates, ho] using hnot
      · simp [Endless, Expires, Creates, ho, Ne.symm hk, expire_other s.store _ hk]
    · exact hsame (if_neg ho) (by simp [Expires, ho]) (by simp [Creates])

variable (calls s) in
inductive Proceeds : Event → ℕ → Progress → Prop
  | call {i : ℕ} (hi : s.progress i = .idle) : Proceeds (.call i) i .incr
  | stop {i : ℕ} (hi : s.progress i = .incr ∨ ∃ current, s.progress i = .expire current) :
    Proceeds (.stop i) i .stopped
  | incr {i : ℕ} (o : Outcome) (hi : s.progress i = .incr) :
    Proceeds (.incr i o) i (afterIncr (calls i).limit (count s.store (calls i).limit.key + 1) o)
  | expire {i current : ℕ} (o : Outcome) (hi : s.progress i = .expire current) :
    Proceeds (.expire i o) i (afterExpire (calls i).limit current o)

theorem progress_step (h : step calls s e = some s') :
    (s'.progress = s.progress ∧ ∃ k, e = .elapse k) ∨
      ∃ i p, Proceeds calls s e i p ∧ s'.progress = Function.update s.progress i p := by
  cases e with
  | call i =>
    simp only [step, Option.ite_none_right_eq_some, Option.some.injEq] at h
    obtain ⟨hi, rfl⟩ := h
    exact .inr ⟨i, _, .call hi, rfl⟩
  | stop i =>
    simp only [step] at h
    split at h <;> cases h
    · rename_i hi
      exact .inr ⟨i, _, .stop (.inl hi), rfl⟩
    · rename_i hi
      exact .inr ⟨i, _, .stop (.inr ⟨_, hi⟩), rfl⟩
  | elapse k =>
    obtain ⟨store, -, rfl⟩ := Option.map_eq_some_iff.mp h
    exact .inl ⟨rfl, k, rfl⟩
  | incr i o =>
    simp only [step, Option.ite_none_right_eq_some, Option.some.injEq] at h
    obtain ⟨hi, rfl⟩ := h
    rw [incr_reply]
    exact .inr ⟨i, _, .incr o hi, rfl⟩
  | expire i o =>
    simp only [step] at h
    split at h <;> cases h
    rename_i current hi
    exact .inr ⟨i, _, .expire o hi, rfl⟩

variable (calls) in
structure Stuck (key : String) (n : ℕ) (s : State) : Prop where
  endless : ∃ m, n < m ∧ s.store key = some ⟨m, false⟩
  abandoned : ∀ i current, (calls i).limit.key = key → s.progress i ≠ .expire current

variable {n : ℕ}

theorem Stuck.of_progress (h : Stuck calls key n s) {i : ℕ} {p : Progress}
    (hp : (calls i).limit.key = key → ∀ current, p ≠ .expire current) {store : Store String ℕ}
    (hstore : ∃ m, n < m ∧ store key = some ⟨m, false⟩) :
    Stuck calls key n ⟨store, Function.update s.progress i p⟩ where
  endless := hstore
  abandoned j current hj := by
    by_cases hji : j = i
    · subst hji
      simpa using hp hj current
    · simpa [hji] using h.abandoned j current hj

theorem stuck_keeps : Preserves (step calls) (Stuck calls key n) := by
  intro s e s' h hs
  obtain ⟨m, hm, hkey⟩ := hs.endless
  cases e with
  | call i =>
    simp only [step, Option.ite_none_right_eq_some, Option.some.injEq] at h
    obtain ⟨-, rfl⟩ := h
    exact hs.of_progress (fun _ _ => by simp) hs.endless
  | stop i =>
    simp only [step] at h
    split at h <;> cases h <;> exact hs.of_progress (fun _ _ => by simp) hs.endless
  | elapse k =>
    obtain ⟨store, hel, rfl⟩ := Option.map_eq_some_iff.mp h
    obtain ⟨⟨v, hv⟩, rfl⟩ := elapse_eq hel
    have hk : key ≠ k := by
      rintro rfl
      rw [hkey] at hv
      cases hv
    exact ⟨⟨m, hm, by simpa [hk] using hkey⟩, hs.abandoned⟩
  | incr i o =>
    simp only [step, Option.ite_none_right_eq_some, Option.some.injEq] at h
    obtain ⟨-, rfl⟩ := h
    by_cases hk : (calls i).limit.key = key
    · have hcount : (incr s.store key) =
          (Function.update s.store key (some ⟨m + 1, false⟩), m + 1) := incr_some hkey
      rw [hk, hcount]
      refine hs.of_progress (fun _ current => ?_) ?_
      · have hm0 : m ≠ 0 := by omega
        cases o <;> simp [afterIncr, hm0]
      · by_cases ho : o.effective = true
        · exact ⟨m + 1, by omega, by simp [ho]⟩
        · exact ⟨m, hm, by simp [ho, hkey]⟩
    · refine hs.of_progress (fun h => absurd h hk) ⟨m, hm, ?_⟩
      by_cases ho : o.effective = true
      · simp [ho, incr_other s.store (Ne.symm hk), hkey]
      · simp [ho, hkey]
  | expire i o =>
    simp only [step] at h
    split at h <;> cases h
    rename_i current hi
    have hk : (calls i).limit.key ≠ key := fun hk => hs.abandoned i current hk hi
    refine hs.of_progress (fun h => absurd h hk) ⟨m, hm, ?_⟩
    by_cases ho : o.effective = true
    · simp [ho, expire_other s.store _ (Ne.symm hk), hkey]
    · simp [ho, hkey]

variable (calls) in
/-- The request has the answer 1 to its `INCR`, and its `EXPIRE` is not through. -/
def Between (s : State) (key : String) (i : ℕ) : Prop :=
  (calls i).limit.key = key ∧ ∃ current, s.progress i = .expire current

variable (calls) in
def Covered (s : State) (key : String) : Prop := Endless s key → ∃ i, Between calls s key i

variable (calls) in
def Leaves (s : State) (key : String) (i : ℕ) : Prop :=
  Between calls s key i ∧ Endless s key ∧ ∀ j, j ≠ i → ¬ Between calls s key j

variable (calls) in
/-- The reply to an `INCR` that creates the counter is lost, or the request that is to send its `EXPIRE`
fails to. -/
def Loses (s : State) (key : String) : Event → Prop
  | .incr i o => (calls i).limit.key = key ∧ s.store key = none ∧ (o = .lost ∨ o = .resent) ∧
    ∀ j, ¬ Between calls s key j
  | .expire i o => o = .failed ∧ Leaves calls s key i
  | .stop i => Leaves calls s key i
  | .call _ | .elapse _ => False

variable (calls) in
def Undisturbed (s : State) (e : Event) : Prop := ∀ key, ¬ Loses calls s key e

section Update

variable {i j : ℕ} {p : Progress}

theorem Between.ne (h : Between calls s key j) (hi : ∀ current, s.progress i ≠ .expire current) : j ≠ i := by
  rintro rfl
  obtain ⟨-, current, hj⟩ := h
  exact hi current hj

theorem Between.of_update (h : Between calls s key j) (hne : j ≠ i)
    (hp : s'.progress = Function.update s.progress i p) : Between calls s' key j := by
  obtain ⟨hkey, current, hj⟩ := h
  refine ⟨hkey, current, ?_⟩
  rw [hp, Function.update_of_ne hne, hj]

theorem between_update (hp : s'.progress = Function.update s.progress i p)
    (hno : ∀ current, p ≠ .expire current) : Between calls s' key j ↔ j ≠ i ∧ Between calls s key j := by
  constructor
  · rintro ⟨hkey, current, hj⟩
    by_cases hji : j = i
    · subst hji
      rw [hp, Function.update_self] at hj
      exact absurd hj (hno current)
    · rw [hp, Function.update_of_ne hji] at hj
      exact ⟨hji, hkey, current, hj⟩
  · rintro ⟨hne, hb⟩
    exact hb.of_update hne hp

theorem covered_of_update (hs : Covered calls s key) (hend : Endless s' key → Endless s key)
    (hp : s'.progress = Function.update s.progress i p) (hi : ¬ Between calls s key i) :
    Covered calls s' key := by
  intro h
  obtain ⟨j, hj⟩ := hs (hend h)
  have hne : j ≠ i := by
    rintro rfl
    exact hi hj
  exact ⟨j, hj.of_update hne hp⟩

theorem covered_leave (hend : Endless s' key ↔ Endless s key)
    (hp : s'.progress = Function.update s.progress i p) (hno : ∀ current, p ≠ .expire current)
    (hi : Between calls s key i) : Covered calls s' key ↔ ¬ Leaves calls s key i := by
  simp only [Covered, Leaves, hend, between_update hp hno, hi, true_and, not_and, not_forall, not_not,
    exists_prop]

end Update

theorem covered_step (h : step calls s e = some s') (hs : Covered calls s key) :
    Covered calls s' key ↔ ¬ Loses calls s key e := by
  have hend : Endless s' key ↔ (Endless s key ∧ ¬ Expires calls key e) ∨ Creates calls s key e :=
    endless_step h
  rcases progress_step h with ⟨hsame, k, rfl⟩ | ⟨i, p, hproceeds, hp⟩
  · simp only [Expires, Creates, reduceCtorEq, false_and, exists_false, not_false_eq_true, and_true,
      or_false] at hend
    refine iff_of_true ?_ id
    simpa only [Covered, hend, Between, hsame] using hs
  cases hproceeds with
  | call hi =>
    simp only [Expires, Creates, reduceCtorEq, false_and, exists_false, not_false_eq_true, and_true,
      or_false] at hend
    refine iff_of_true (covered_of_update hs hend.mp hp ?_) id
    rintro ⟨-, current, hb⟩
    cases hi.symm.trans hb
  | stop hi =>
    simp only [Expires, Creates, reduceCtorEq, false_and, exists_false, not_false_eq_true, and_true,
      or_false] at hend
    by_cases hb : Between calls s key i
    · exact covered_leave hend hp (fun _ heq => by cases heq) hb
    · exact iff_of_true (covered_of_update hs hend.mp hp hb) fun hl => hb hl.1
  | incr o hi =>
    have hb : ¬ Between calls s key i := by
      rintro ⟨-, current, hb⟩
      cases hi.symm.trans hb
    by_cases hnew : (calls i).limit.key = key ∧ s.store key = none
    · obtain ⟨rfl, hnone⟩ := hnew
      have hcount : count s.store (calls i).limit.key = 0 := by rw [count, hnone]; rfl
      have hno : ¬ Endless s (calls i).limit.key := by simp [Endless, hnone]
      cases o with
      | ok =>
        refine iff_of_true (fun _ => ⟨i, rfl, 1, ?_⟩) (by simp [Loses])
        rw [hp, Function.update_self, hcount]
        rfl
      | failed =>
        refine iff_of_true (fun h => ?_) (by simp [Loses])
        rw [hend] at h
        simp [hno, Creates, Outcome.effective] at h
      | lost | resent =>
        have hcreates : Endless s' (calls i).limit.key :=
          hend.mpr (.inr ⟨i, _, rfl, rfl, rfl, hnone⟩)
        have hothers : ∀ j, Between calls s' (calls i).limit.key j ↔ Between calls s (calls i).limit.key j := by
          intro j
          rw [between_update hp fun _ heq => by cases heq]
          exact and_iff_right_of_imp fun hj => hj.ne fun current heq => by cases hi.symm.trans heq
        simp [Covered, hcreates, hothers, Loses, hnone]
    · have hold : Endless s' key → Endless s key := by
        rw [hend]
        rintro (⟨h, -⟩ | ⟨j, o', heq, -, hkey, hnone⟩)
        · exact h
        · cases heq
          exact absurd ⟨hkey, hnone⟩ hnew
      exact iff_of_true (covered_of_update hs hold hp hb) fun hl => hnew ⟨hl.1, hl.2.1⟩
  | @expire _ current o hi =>
    have hold : Endless s' key → Endless s key := by
      rw [hend]
      rintro (⟨h, -⟩ | ⟨j, o', heq, -⟩)
      · exact h
      · cases heq
    by_cases hkey : (calls i).limit.key = key
    · have hb : Between calls s key i := ⟨hkey, current, hi⟩
      by_cases ho : o = .failed
      · subst ho
        have hsame : Endless s' key ↔ Endless s key := by
          simp [hend, Expires, Creates, Outcome.effective]
        rw [covered_leave hsame hp (fun _ heq => by cases heq) hb]
        simp [Loses]
      · have heffective : o.effective = true := by cases o <;> first | rfl | exact absurd rfl ho
        refine iff_of_true (fun h => ?_) fun hl => ho hl.1
        rcases hend.mp h with ⟨-, hno⟩ | ⟨j, o', heq, -⟩
        · exact absurd ⟨i, o, rfl, heffective, hkey⟩ hno
        · cases heq
    · exact iff_of_true (covered_of_update hs hold hp fun hb => hkey hb.1) fun hl => hkey hl.2.1.1

def Counting (s : State) : Prop := ∀ key c, s.store key = some c → 0 < c.value

theorem counting_keeps : Preserves (step calls) Counting := by
  intro s e s' h hs key c hc
  cases e with
  | call i =>
    simp only [step, Option.ite_none_right_eq_some, Option.some.injEq] at h
    obtain ⟨-, rfl⟩ := h
    exact hs key c hc
  | stop i =>
    simp only [step] at h
    split at h <;> cases h <;> exact hs key c hc
  | elapse k =>
    obtain ⟨store, hel, rfl⟩ := Option.map_eq_some_iff.mp h
    obtain ⟨-, rfl⟩ := elapse_eq hel
    by_cases hk : key = k
    · simp [hk] at hc
    · exact hs key c (by simpa [hk] using hc)
  | incr i o =>
    simp only [step, Option.ite_none_right_eq_some, Option.some.injEq] at h
    obtain ⟨-, rfl⟩ := h
    by_cases ho : o.effective = true
    · rw [if_pos ho] at hc
      by_cases hk : key = (calls i).limit.key
      · subst hk
        have hcount := count_incr s.store (calls i).limit.key
        have hnew : (incr s.store (calls i).limit.key).1 (calls i).limit.key = some c := hc
        rw [count, hnew] at hcount
        simp only [Option.map_some, Option.getD_some] at hcount
        omega
      · exact hs key c ((incr_other s.store hk).symm.trans hc)
    · rw [if_neg ho] at hc
      exact hs key c hc
  | expire i o =>
    simp only [step] at h
    split at h <;> cases h
    by_cases ho : o.effective = true
    · rw [if_pos ho] at hc
      exact expire_value hc fun c' hc' => hs key c' hc'
    · rw [if_neg ho] at hc
      exact hs key c hc

theorem stuck_of_not_covered (hs : Counting s) (h : ¬ Covered calls s key) : Stuck calls key 0 s := by
  obtain ⟨⟨m, hm⟩, hno⟩ := Classical.not_imp.mp h
  exact ⟨⟨m, hs key _ hm, hm⟩, fun i current hkey hi => hno ⟨i, hkey, current, hi⟩⟩

theorem Stuck.not_covered (h : Stuck calls key n s) : ¬ Covered calls s key := by
  obtain ⟨m, -, hm⟩ := h.endless
  intro hc
  obtain ⟨i, hkey, current, hi⟩ := hc ⟨m, hm⟩
  exact h.abandoned i current hkey hi

theorem covered_iff (h : run (step calls) start es = some s) :
    (∀ key, Covered calls s key) ↔ Throughout (step calls) (Undisturbed calls) start es := by
  have hcounting : Counting start := fun key c hc => by cases hc
  have hfirst (key : String) : Covered calls start key := by
    rintro ⟨m, hm⟩
    cases hm
  refine finally_iff (P := fun s => ∀ key, Covered calls s key) counting_keeps ?_ ?_ hcounting hfirst h
  · intro s e s' _ hs hstep
    exact forall_congr' fun key => covered_step hstep (hs key)
  · intro s e s' hs hno hstep hall
    obtain ⟨key, hkey⟩ := not_forall.mp hno
    exact (stuck_keeps s e s' hstep (stuck_of_not_covered hs hkey)).not_covered (hall key)

theorem Covered.ends (h : Covered calls s key) :
    ∃ es t, run (step calls) s es = some t ∧ t.store key = none := by
  have hexpires {u : State} {m : ℕ} (hm : u.store key = some ⟨m, true⟩) :
      ∃ t, run (step calls) u [.elapse key] = some t ∧ t.store key = none :=
    ⟨⟨Function.update u.store key none, u.progress⟩, by simp [run, step, elapse, hm], by simp⟩
  cases hc : s.store key with
  | none => exact ⟨[], s, rfl, hc⟩
  | some c =>
    obtain ⟨m, expires⟩ := c
    cases expires with
    | true =>
      obtain ⟨t, ht, hnone⟩ := hexpires hc
      exact ⟨_, t, ht, hnone⟩
    | false =>
      obtain ⟨i, rfl, current, hi⟩ := h ⟨m, hc⟩
      obtain ⟨u, hu, hstore⟩ : ∃ u, step calls s (.expire i .ok) = some u ∧
          u.store = Redis.expire s.store (calls i).limit.key (calls i).limit.windowSeconds := by
        simp only [step, hi]
        exact ⟨_, rfl, rfl⟩
      cases hku : u.store (calls i).limit.key with
      | none => exact ⟨[.expire i .ok], u, by simp [run, hu], hku⟩
      | some c' =>
        have hc' : c'.expires = true := expire_self (hstore ▸ hku)
        obtain ⟨t, ht, hnone⟩ := hexpires (m := c'.value) (by rw [hku, ← hc'])
        exact ⟨[.expire i .ok, .elapse (calls i).limit.key], t, run_cons.mpr ⟨u, hu, ht⟩, hnone⟩

/-- Every counter has an expiry, but for the time in which a request stands between its two commands, and
every counter can still end, exactly when no step of the run has lost the expiry of one. -/
theorem windows_end_iff (h : run (step calls) start es = some s) :
    ((∀ key c, s.store key = some c → c.expires = true ∨ ∃ i, Between calls s key i) ↔
      Throughout (step calls) (Undisturbed calls) start es) ∧
    ((∀ key, ∃ es' t, run (step calls) s es' = some t ∧ t.store key = none) ↔
      Throughout (step calls) (Undisturbed calls) start es) ∧
    (Throughout (step calls) (Undisturbed calls) start es → (∀ key i, ¬ Between calls s key i) →
      ∀ key c, s.store key = some c → c.expires = true) := by
  rw [← covered_iff h]
  have hcounting := counting_keeps.run h fun key c hc => (by cases hc)
  refine ⟨forall_congr' fun key => ⟨?_, ?_⟩, forall_congr' fun key => ⟨?_, Covered.ends⟩, ?_⟩
  · rintro hall ⟨m, hm⟩
    exact (hall _ hm).resolve_left Bool.false_ne_true
  · rintro hcovered ⟨m, expires⟩ hc
    cases expires with
    | true => exact .inl rfl
    | false => exact .inr (hcovered ⟨m, hc⟩)
  · rintro ⟨es', t, ht, hnone⟩
    by_contra hno
    obtain ⟨m, -, hm⟩ := (stuck_keeps.run ht (stuck_of_not_covered hcounting hno)).endless
    cases hnone.symm.trans hm
  · rintro hcovered hidle key ⟨m, expires⟩ hc
    cases expires with
    | true => rfl
    | false =>
      obtain ⟨i, hi⟩ := hcovered key ⟨m, hc⟩
      exact absurd hi (hidle key i)

def loginCalls (_ : ℕ) : Call :=
  .checkRateLimit (loginRateLimitIpKey "203.0.113.7") AuthService.loginRateIpMax
    AuthService.loginRateWindow

def twoLogins : List Event :=
  [.call 0, .incr 0 .ok, .expire 0 .resent, .expire 0 .ok, .call 1, .incr 1 .failed]

theorem windows_end_after_two_logins : ∃ s, run (step loginCalls) start twoLogins = some s ∧
    s.store (loginRateLimitIpKey "203.0.113.7") = some ⟨1, true⟩ ∧
    (∀ key c, s.store key = some c → c.expires = true ∨ ∃ i, Between loginCalls s key i) ∧
    ∀ key, ∃ es' t, run (step loginCalls) s es' = some t ∧ t.store key = none := by
  have hquiet : Throughout (step loginCalls) (Undisturbed loginCalls) start twoLogins := by
    apply Throughout.of_forall
    intro e he s key hl
    simp only [twoLogins, List.mem_cons, List.not_mem_nil, or_false] at he
    rcases he with rfl | rfl | rfl | rfl | rfl | rfl <;> simp [Loses] at hl
  obtain ⟨s, hs, hstore⟩ : ∃ s, run (step loginCalls) start twoLogins = some s ∧
      s.store (loginRateLimitIpKey "203.0.113.7") = some ⟨1, true⟩ := ⟨_, rfl, rfl⟩
  obtain ⟨hcovered, hends, -⟩ := windows_end_iff hs
  exact ⟨s, hs, hstore, hcovered.mpr hquiet, hends.mpr hquiet⟩

theorem Stuck.rejects {i : ℕ} (h : Stuck calls (calls i).limit.key n s)
    (hn : (calls i).limit.max ≤ n) (hs : step calls s (.incr i .ok) = some s') :
    s'.progress i = .answered (.tooManyRequests (calls i).limit.windowSeconds) := by
  obtain ⟨m, hm, hkey⟩ := h.endless
  simp only [step, Option.ite_none_right_eq_some, Option.some.injEq] at hs
  obtain ⟨-, rfl⟩ := hs
  have hm0 : m ≠ 0 := by omega
  have hmax : (calls i).limit.max < m + 1 := by omega
  simp [incr_some hkey, afterIncr, hm0, verdict, hmax]

def sixLogins : List Event :=
  [.call 0, .incr 0 .ok, .expire 0 .failed, .call 1, .incr 1 .ok, .call 2, .incr 2 .ok, .call 3,
    .incr 3 .ok, .call 4, .incr 4 .ok, .call 5, .incr 5 .ok]

theorem stuck_after_six_logins : ∃ s, run (step loginCalls) start sixLogins = some s ∧
    s.progress 0 = .answered .allowed ∧
    s.progress 5 = .answered (.tooManyRequests AuthService.loginRateWindow) ∧
    Stuck loginCalls (loginRateLimitIpKey "203.0.113.7") 5 s := by
  refine ⟨_, rfl, rfl, rfl, ⟨6, by decide, rfl⟩, fun i current _ => ?_⟩
  by_cases hi : i < 6
  · interval_cases i <;> exact fun h => by cases h
  · simp [Function.update, start, show i ≠ 0 ∧ i ≠ 1 ∧ i ≠ 2 ∧ i ≠ 3 ∧ i ≠ 4 ∧ i ≠ 5 by omega]

theorem login_limit_never_ends : ∃ s, run (step loginCalls) start sixLogins = some s ∧
    s.progress 0 = .answered .allowed ∧
    s.progress 5 = .answered (.tooManyRequests AuthService.loginRateWindow) ∧
    ∀ es t, run (step loginCalls) s es = some t →
      (∃ m, t.store (loginRateLimitIpKey "203.0.113.7") = some ⟨m, false⟩) ∧
      ∀ i t', step loginCalls t (.incr i .ok) = some t' →
        t'.progress i = .answered (.tooManyRequests AuthService.loginRateWindow) := by
  obtain ⟨s, hs, hfirst, hsixth, hstuck⟩ := stuck_after_six_logins
  refine ⟨s, hs, hfirst, hsixth, fun es t ht => ?_⟩
  have hlater := stuck_keeps.run ht hstuck
  obtain ⟨m, -, hm⟩ := hlater.endless
  exact ⟨⟨m, hm⟩, fun i t' h => hlater.rejects (i := i) (Nat.le_refl 5) h⟩

variable {env : Env}

def Verdict.enforce : Verdict → Transactions.Prog (schema env) Unit
  | .allowed => pure ()
  | .tooManyRequests retryAfter => .fail (Err.rateLimitExceeded retryAfter)

theorem checkRateLimit_eq (l : Limit) : checkRateLimit env l.max l.windowSeconds =
    (Transactions.Prog.outside >>= fun current => (verdict l current).enforce) := by
  have hverdict (current : ℕ) : Transactions.Prog.require (S := schema env) (current ≤ l.max)
      (Err.rateLimitExceeded l.windowSeconds) = (verdict l current).enforce := by
    by_cases hc : current ≤ l.max
    · simp only [Transactions.Prog.require, verdict, Verdict.enforce, hc, Nat.not_lt.mpr hc,
        ↓reduceIte]
      rfl
    · simp [Transactions.Prog.require, verdict, Verdict.enforce, hc, Nat.not_le.mp hc]
  simp only [checkRateLimit, hverdict]

end JitoGame.Auth.RateLimits
