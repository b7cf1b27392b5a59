import JitoGame.Auth.RateLimits
import Mathlib.Data.Finset.Card
import Mathlib.Data.List.DropRight

namespace JitoGame.Auth.RateLimits

open Redis Traces

variable {calls : ℕ → Call} {s s' : State} {e : Event} {es : List Event} {key : String} {max i : ℕ}
variable {is : Finset ℕ} {g : ℕ → Progress} {p : Progress}

def Event.counts (calls : ℕ → Call) (key : String) : Event → Bool
  | .incr i o => o.effective && decide ((calls i).limit.key = key)
  | _ => false

/-- An error of Redis, after which the check lets its request pass. -/
def Event.failsOpen (calls : ℕ → Call) (key : String) : Event → Bool
  | .incr i o => decide (o = .lost ∨ o = .failed) && decide ((calls i).limit.key = key)
  | .expire i o => decide (o = .lost ∨ o = .failed) && decide ((calls i).limit.key = key)
  | _ => false

def recent (key : String) (es : List Event) : List Event := es.rtakeWhile fun e => decide (e ≠ .elapse key)

/-! What a step does to the counter of a key. -/

theorem count_step (hwindow : ∀ i, 0 < (calls i).limit.windowSeconds) (h : step calls s e = some s')
    (key : String) :
    count s'.store key = if e = .elapse key then 0
      else count s.store key + if e.counts calls key = true then 1 else 0 := by
  cases e with
  | call i =>
    simp only [step, Option.ite_none_right_eq_some, Option.some.injEq] at h
    obtain ⟨-, rfl⟩ := h
    simp [Event.counts]
  | stop i =>
    simp only [step] at h
    split at h <;> cases h <;> simp [Event.counts]
  | elapse k =>
    obtain ⟨store, hel, rfl⟩ := Option.map_eq_some_iff.mp h
    rw [count_elapse hel key]
    by_cases hk : key = k
    · simp [hk]
    · simp [hk, Ne.symm hk, Event.counts]
  | incr i o =>
    simp only [step, Option.ite_none_right_eq_some, Option.some.injEq] at h
    obtain ⟨-, rfl⟩ := h
    by_cases ho : o.effective = true
    · by_cases hk : key = (calls i).limit.key
      · subst hk
        simp [Event.counts, ho, count_incr]
      · simp [Event.counts, ho, Ne.symm hk, count_incr_other s.store hk]
    · simp [Event.counts, ho]
  | expire i o =>
    simp only [step] at h
    split at h <;> cases h
    by_cases ho : o.effective = true
    · simp [Event.counts, ho, count_expire s.store _ key (hwindow i)]
    · simp [Event.counts, ho]

theorem count_of_run (hwindow : ∀ i, 0 < (calls i).limit.windowSeconds)
    (h : run (step calls) start es = some s) :
    count s.store key = (recent key es).countP fun e => e.counts calls key := by
  induction es using List.reverseRecOn generalizing s with
  | nil =>
    cases h
    rfl
  | append_singleton es e ih =>
    obtain ⟨m, hm, hs⟩ := run_snoc.mp h
    rw [count_step hwindow hs key, recent, List.rtakeWhile_concat]
    by_cases he : e = .elapse key
    · simp [he]
    · have hlater : decide (e ≠ .elapse key) = true := decide_eq_true he
      rw [if_neg he, if_pos hlater, List.countP_append, List.countP_singleton, ih hm, recent]

/-! How many requests pass. -/

def Progress.passes (max : ℕ) : Progress → Bool
  | .answered v => decide (v = .allowed)
  | .expire current => decide (current ≤ max)
  | _ => false

def passed (max : ℕ) (is : Finset ℕ) (g : ℕ → Progress) : ℕ :=
  (is.filter fun i => (g i).passes max = true).card

theorem passed_update_le (hp : i ∈ is → p.passes max = true → (g i).passes max = true) :
    passed max is (Function.update g i p) ≤ passed max is g := by
  apply Finset.card_le_card
  intro j hj
  obtain ⟨hmem, hj⟩ := Finset.mem_filter.mp hj
  refine Finset.mem_filter.mpr ⟨hmem, ?_⟩
  by_cases hji : j = i
  · subst hji
    rw [Function.update_self] at hj
    exact hp hmem hj
  · rwa [Function.update_of_ne hji] at hj

theorem passed_update_le_succ : passed max is (Function.update g i p) ≤ passed max is g + 1 := by
  refine (Finset.card_le_card ?_).trans (Finset.card_insert_le i _)
  intro j hj
  obtain ⟨hmem, hj⟩ := Finset.mem_filter.mp hj
  by_cases hji : j = i
  · exact hji ▸ Finset.mem_insert_self _ _
  · rw [Function.update_of_ne hji] at hj
    exact Finset.mem_insert_of_mem (Finset.mem_filter.mpr ⟨hmem, hj⟩)

theorem verdict_eq_allowed {l : Limit} {current : ℕ} :
    verdict l current = .allowed ↔ current ≤ l.max := by
  rw [verdict]
  split
  · rename_i hlt
    exact iff_of_false (by simp) (by omega)
  · rename_i hle
    exact iff_of_true rfl (by omega)

theorem Proceeds.passes (h : Proceeds calls s e i p) (hmax : (calls i).limit.max ≤ max)
    (hp : p.passes max = true) : (s.progress i).passes max = true ∨
      e.failsOpen calls (calls i).limit.key = true ∨
      e.counts calls (calls i).limit.key = true ∧ count s.store (calls i).limit.key < max := by
  cases h with
  | call => cases hp
  | stop => cases hp
  | incr o =>
    cases o with
    | ok =>
      refine .inr (.inr ⟨by simp [Event.counts, Outcome.effective], ?_⟩)
      simp only [afterIncr] at hp
      split at hp
      · exact Nat.lt_of_succ_le (of_decide_eq_true hp)
      · exact (Nat.lt_of_succ_le (verdict_eq_allowed.mp (of_decide_eq_true hp))).trans_le hmax
    | lost | failed => exact .inr (.inl (by simp [Event.failsOpen]))
    | resent => cases hp
  | @expire i current o hi =>
    cases o with
    | ok =>
      have hle : current ≤ max := (verdict_eq_allowed.mp (of_decide_eq_true hp)).trans hmax
      exact .inl (by rw [hi]; exact decide_eq_true hle)
    | lost | failed => exact .inr (.inl (by simp [Event.failsOpen]))
    | resent => exact .inl (by rw [hi]; exact hp)

def load (max : ℕ) (key : String) (is : Finset ℕ) (s : State) : ℕ :=
  passed max is s.progress + (max - count s.store key)

def Event.weight (calls : ℕ → Call) (max : ℕ) (key : String) (e : Event) : ℕ :=
  (if e = .elapse key then max else 0) + if e.failsOpen calls key = true then 1 else 0

theorem load_step (hwindow : ∀ i, 0 < (calls i).limit.windowSeconds)
    (his : ∀ i ∈ is, (calls i).limit.key = key ∧ (calls i).limit.max ≤ max)
    (h : step calls s e = some s') :
    load max key is s' ≤ load max key is s + e.weight calls max key := by
  have hcount := count_step hwindow h key
  have hroom : max - count s'.store key ≤ max - count s.store key + if e = .elapse key then max else 0 := by
    rw [hcount]
    split <;> omega
  rw [load, load, Event.weight]
  rcases progress_step h with ⟨hsame, -⟩ | ⟨i, p, hproceeds, hupdate⟩
  · rw [hsame]
    omega
  rw [hupdate]
  by_cases hnew : i ∈ is ∧ p.passes max = true
  · obtain ⟨hi, hp⟩ := hnew
    obtain ⟨rfl, hmax⟩ := his i hi
    have hsucc : passed max is (Function.update s.progress i p) ≤ passed max is s.progress + 1 :=
      passed_update_le_succ
    rcases hproceeds.passes hmax hp with hold | hfails | ⟨hcounts, hlt⟩
    · have hle : passed max is (Function.update s.progress i p) ≤ passed max is s.progress :=
        passed_update_le fun _ _ => hold
      omega
    · rw [if_pos hfails]
      omega
    · have helapse : e ≠ .elapse (calls i).limit.key := by
        rintro rfl
        cases hcounts
      rw [if_neg helapse, if_pos hcounts] at hcount
      omega
  · have hle : passed max is (Function.update s.progress i p) ≤ passed max is s.progress :=
      passed_update_le fun hi hp => absurd ⟨hi, hp⟩ hnew
    omega

theorem foldl_weight (calls : ℕ → Call) (max : ℕ) (key : String) (es : List Event) (b : ℕ) :
    es.foldl (fun n e => n + e.weight calls max key) b =
      b + max * es.count (.elapse key) + es.countP fun e => e.failsOpen calls key := by
  induction es generalizing b with
  | nil => rfl
  | cons e es ih =>
    rw [List.foldl_cons, ih, List.count_cons, List.countP_cons, Event.weight]
    by_cases he : e = .elapse key
    · simp [he, Event.failsOpen, Nat.mul_succ]
      omega
    · simp [he]
      omega

/-! What a refusal says. -/

def CountedAt (calls : ℕ → Call) (es : List Event) (i current : ℕ) : Prop :=
  ∃ pre, pre ++ [.incr i .ok] <+: es ∧
    current = (recent (calls i).limit.key (pre ++ [.incr i .ok])).countP fun e =>
      e.counts calls (calls i).limit.key

theorem CountedAt.append {current : ℕ} (h : CountedAt calls es i current) (es' : List Event) :
    CountedAt calls (es ++ es') i current := by
  obtain ⟨pre, hpre, hcurrent⟩ := h
  exact ⟨pre, hpre.trans (List.prefix_append es es'), hcurrent⟩

theorem countedAt_incr (hwindow : ∀ i, 0 < (calls i).limit.windowSeconds)
    (h : run (step calls) start (es ++ [.incr i .ok]) = some s) (hm : run (step calls) start es = some s') :
    CountedAt calls (es ++ [.incr i .ok]) i (count s'.store (calls i).limit.key + 1) := by
  refine ⟨es, List.prefix_rfl, ?_⟩
  obtain ⟨m, hm', hs⟩ := run_snoc.mp h
  cases hm.symm.trans hm'
  rw [← count_of_run hwindow h, count_step hwindow hs _]
  simp [Event.counts, Outcome.effective]

variable (calls) in
def Answered (es : List Event) (i : ℕ) : Progress → Prop
  | .expire current => CountedAt calls es i current
  | .answered (.tooManyRequests retryAfter) => retryAfter = (calls i).limit.windowSeconds ∧
    ∃ current, (calls i).limit.max < current ∧ CountedAt calls es i current
  | _ => True

theorem Answered.append (h : Answered calls es i p) (es' : List Event) : Answered calls (es ++ es') i p := by
  cases p with
  | idle | incr | stopped => trivial
  | expire current => exact CountedAt.append h es'
  | answered v =>
    cases v with
    | allowed => trivial
    | tooManyRequests retryAfter =>
      obtain ⟨hretry, current, hlt, hcounted⟩ := h
      exact ⟨hretry, current, hlt, hcounted.append es'⟩

theorem answered_verdict {current : ℕ} (h : CountedAt calls es i current) :
    Answered calls es i (.answered (verdict (calls i).limit current)) := by
  by_cases hlt : (calls i).limit.max < current
  · rw [verdict, if_pos hlt]
    exact ⟨rfl, current, hlt, h⟩
  · rw [verdict, if_neg hlt]
    trivial

theorem answered_of_run (hwindow : ∀ i, 0 < (calls i).limit.windowSeconds)
    (h : run (step calls) start es = some s) (i : ℕ) : Answered calls es i (s.progress i) := by
  induction es using List.reverseRecOn generalizing s with
  | nil =>
    cases h
    trivial
  | append_singleton es e ih =>
    obtain ⟨m, hm, hs⟩ := run_snoc.mp h
    have hbefore := ih hm
    rcases progress_step hs with ⟨hsame, -⟩ | ⟨j, p, hproceeds, hupdate⟩
    · rw [hsame]
      exact hbefore.append [e]
    rw [hupdate]
    by_cases hij : i = j
    · subst hij
      rw [Function.update_self]
      cases hproceeds with
      | call | stop => trivial
      | incr o =>
        cases o with
        | ok =>
          have hcounted := countedAt_incr hwindow h hm
          simp only [afterIncr]
          split
          · exact hcounted
          · exact answered_verdict hcounted
        | lost | failed | resent => trivial
      | expire o hi =>
        rw [hi] at hbefore
        have hcounted := CountedAt.append hbefore [.expire i o]
        cases o with
        | ok => exact answered_verdict hcounted
        | lost | failed => trivial
        | resent => exact hcounted
    · rw [Function.update_of_ne hij]
      exact hbefore.append [e]

theorem admission_of_run (hwindow : ∀ i, 0 < (calls i).limit.windowSeconds)
    (h : run (step calls) start es = some s) :
    (∀ key max, (∀ i, (calls i).limit.key = key → (calls i).limit.max ≤ max) →
      ∀ is : Finset ℕ, (∀ i ∈ is, (calls i).limit.key = key ∧ s.progress i = .answered .allowed) →
        is.card ≤ max * (es.count (.elapse key) + 1) + es.countP fun e => e.failsOpen calls key) ∧
    ∀ i retryAfter, s.progress i = .answered (.tooManyRequests retryAfter) →
      retryAfter = (calls i).limit.windowSeconds ∧
      ∃ current, (calls i).limit.max < current ∧ CountedAt calls es i current := by
  constructor
  · intro key max hmax is his
    have hlimits : ∀ i ∈ is, (calls i).limit.key = key ∧ (calls i).limit.max ≤ max :=
      fun i hi => ⟨(his i hi).1, hmax i (his i hi).1⟩
    have hall : passed max is s.progress = is.card := by
      rw [passed, Finset.filter_true_of_mem]
      intro i hi
      rw [(his i hi).2]
      rfl
    have hnone : passed max is start.progress = 0 := by
      rw [passed, Finset.filter_false_of_mem, Finset.card_empty]
      intro i _
      exact Bool.false_ne_true
    have hfirst : load max key is start = max := by
      rw [load, hnone, Nat.zero_add]
      rfl
    have hload := run_le (fun _ _ _ hs => load_step hwindow hlimits hs) h (Nat.le_of_eq hfirst)
    rw [foldl_weight, load, hall] at hload
    rw [Nat.mul_succ]
    omega
  · intro i retryAfter hrefused
    have hanswered := answered_of_run hwindow h i
    rw [hrefused] at hanswered
    exact hanswered

theorem admission_after_six_logins : ∃ s, run (step loginCalls) start sixLogins = some s ∧
    (Finset.range 5).card ≤ 5 * (0 + 1) + 1 ∧ s.progress 5 = .answered (.tooManyRequests 900) ∧
    ∃ current, 5 < current ∧ CountedAt loginCalls sixLogins 5 current := by
  have hrun : ∃ s, run (step loginCalls) start sixLogins = some s := ⟨_, rfl⟩
  obtain ⟨s, hs⟩ := hrun
  have hpassed : ∀ i < 5, s.progress i = .answered .allowed := by
    cases hs
    decide
  have hrefused : s.progress 5 = .answered (.tooManyRequests 900) := by
    cases hs
    rfl
  have hwindow (i : ℕ) : 0 < (loginCalls i).limit.windowSeconds := by
    rw [loginCalls]
    decide
  obtain ⟨hadmitted, hrefusals⟩ := admission_of_run hwindow hs
  obtain ⟨-, hcounted⟩ := hrefusals 5 900 hrefused
  exact ⟨s, hs, hadmitted _ 5 (fun _ _ => Nat.le_refl 5) (Finset.range 5) fun i hi =>
    ⟨rfl, hpassed i (Finset.mem_range.mp hi)⟩, hrefused, hcounted⟩

end JitoGame.Auth.RateLimits
