import JitoGame.Transactions.Policy
import JitoGame.Transactions.Soundness

namespace JitoGame.Transactions

variable {S : Schema} [DecidableEq S.Lock] [DecidableEq S.Id]

/-! A call that has returned stays as it is. -/

section Ended

variable {body : S.Call → Prog S S.Res} {s s' : State S} {i j : ℕ} {p q : Proc S}
variable {r : Except S.Err S.Res}

theorem step_ended {l : Label S} (hs : step body s l = some s') (hq : s.procs i = some q)
    (hr : q.prog.Ends r) : s'.procs i = some q := by
  -- the process that moves has not ended
  have hother {j : ℕ} {p p' : Proc S} {w : World S} {o : S.Lock → Option ℕ} (hp : s.procs j = some p)
      (hmoves : ¬ p.prog.Ends r) : (s.move j p' w o).procs i = some q := by
    have hij : i ≠ j := by
      rintro rfl
      cases hp.symm.trans hq
      exact hmoves hr
    exact (Function.update_of_ne hij ..).trans hq
  cases stepped_of_step hs with
  | spawn hi =>
    refine (Function.update_of_ne ?_ ..).trans hq
    rintro rfl
    cases hi.symm.trans hq
  | begin hp => exact hother hp fun he => by cases he
  | stmt hp => exact hother hp fun he => by cases he
  | commit hp => exact hother hp fun he => by cases he
  | rollback hp => exact hother hp fun he => by cases he
  | failStmt hp => exact hother hp fun he => by cases he
  | failCommit hp => exact hother hp fun he => by cases he
  | mint hp => exact hother hp fun he => by cases he
  | input hp => exact hother hp fun he => by cases he
  | tick d => exact hq

omit [DecidableEq S.Lock] [DecidableEq S.Id] in
theorem State.unfinished (h : (s.procs i).all (fun p => p.prog.result.isNone) = true) (p : Proc S)
    (hp : s.procs i = some p) (r : Except S.Err S.Res) : ¬ p.prog.Ends r := by
  intro hr
  have hresult : p.prog.result = some r := hr
  simp [hp, hresult] at h

end Ended

/-- A run from the content `base`, in which ids that are `known` there are never drawn again. -/
def Run (body : S.Call → Prog S S.Res) (known : S.Db → S.Id → Prop) (K : Policy S) (base : S.Db)
    (s : State S) : Prop :=
  ∃ used : List S.Id, (∀ x, known base x → x ∈ used) ∧ Reachable body K.ok (initial base used) s

namespace Run

variable {body : S.Call → Prog S S.Res} {known : S.Db → S.Id → Prop} {K : Policy S} {base : S.Db}
variable {s s' : State S} {P : Protocol S} {done : Outcome S}

theorem obeys (h : Run body known K base s) : s.Obeys K base := by
  obtain ⟨used, -, hreach⟩ := h
  exact .reachable hreach

theorem step (h : Run body known K base s) {l : Label S} (hl : K.ok s l)
    (hs : Transactions.step body s l = some s') : Run body known K base s' := by
  obtain ⟨used, hused, hreach⟩ := h
  exact ⟨used, hused, hreach.step hl hs⟩

theorem own_call (h : Run body known K base s) {i : ℕ} {p : Proc S} (hp : s.procs i = some p)
    {c : Commit S} (hc : c ∈ own i s.world.log) : c.call = p.call := by
  obtain ⟨hmem, rfl⟩ := mem_own.mp hc
  obtain ⟨q, hq, hcall⟩ := h.obeys.authors c hmem
  cases hp.symm.trans hq
  exact hcall.symm

theorem steps [DecidablePred K.spawn] [∀ c, DecidablePred (K.stmt c)]
    [∀ c d, DecidablePred (K.commit c d)] [DecidablePred K.fault] {used : List S.Id}
    (hused : ∀ x, known base x → x ∈ used) {ls : List (Label S)}
    (hs : K.steps body (initial base used) ls = some s) : Run body known K base s :=
  ⟨used, hused, Policy.reachable_steps _ .refl hs⟩

theorem invariant (hv : Verified P body K.spawn done) (h : Run body P.known K P.base s) :
    Invariant P done s := by
  obtain ⟨used, hused, hreach⟩ := h
  have hstart : Invariant P done (initial P.base used) := .start rfl hused
  exact hstart.reachable hv (fun _ _ _ hok => hok) hreach

theorem returns (hv : Verified P body K.spawn done) (h : Run body P.known K P.base s) {l : Label S}
    (hl : K.ok s l) (hs : Transactions.step body s l = some s') {i : ℕ} {p : Proc S}
    {r : Except S.Err S.Res} (hp : s'.procs i = some p) (hr : p.prog.Ends r)
    (hrun : ∀ q, s.procs i = some q → ∀ r, ¬ q.prog.Ends r) : done i p.call r p.loc s'.world :=
  (h.invariant hv).returns hv (fun _ _ heq => by subst heq; exact hl) hs hrun hp hr

theorem returned (hv : Verified P body K.spawn done) (h : Run body P.known K P.base s) {i : ℕ}
    {p : Proc S} {r : Except S.Err S.Res} (hp : s.procs i = some p) (hr : p.prog.Ends r) :
    ∃ s₀, Run body P.known K P.base s₀ ∧ Reachable body K.ok s₀ s ∧ done i p.call r p.loc s₀.world := by
  obtain ⟨used, hused, hreach⟩ := h
  induction hreach with
  | refl => cases hp
  | @step s s' l hreach hok hstep ih =>
    have hrun : Run body P.known K P.base s := ⟨used, hused, hreach⟩
    by_cases hended : ∃ q r', s.procs i = some q ∧ q.prog.Ends r'
    · obtain ⟨q, r', hq, hr'⟩ := hended
      cases (step_ended hstep hq hr').symm.trans hp
      obtain ⟨s₀, h₀, hlater, hdone⟩ := ih hq
      exact ⟨s₀, h₀, hlater.step hok hstep, hdone⟩
    · refine ⟨s', hrun.step hok hstep, .refl, hrun.returns hv hok hstep hp hr fun q hq r' hr' => ?_⟩
      exact hended ⟨q, r', hq, hr'⟩

end Run

end JitoGame.Transactions
