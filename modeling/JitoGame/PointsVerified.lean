import JitoGame.Contract
import JitoGame.Rules

namespace JitoGame

open Transactions

variable {C R : Type}

def entry (t : PointsTransaction) : List (Resource (schema C R)) :=
  [.row (.account t.accountId), .row (.ledgerKey t.idempotencyKey), .id t.id]

theorem Posts.stable {params : ApplyLedgerMutationParams} {t : PointsTransaction} {base : Db}
    {spec : Commit (schema C R) → Db → Prop} {i : ℕ} {s : Local (schema C R)}
    {w w' : World (schema C R)} (h : Posts params t w.db) (hs : ∀ r ∈ entry t, s.Holds r)
    (hr : Rely (discipline base spec) i s w w') : Posts params t w'.db := by
  obtain ⟨a, locked, hacc, hval, hrow⟩ := h.row
  have hid : a.id = t.accountId := by
    simp only [PointsLedgerService.validateAccount] at hval
    split at hval
    · cases hval
    · cases hval
      rw [hrow]; rfl
  have hacc' := (hr.agree (.row (.account t.accountId)) (hs _ (by simp [entry]))).2 _ a hacc hid
  have hkey := hr.agree (.row (.ledgerKey t.idempotencyKey)) (hs _ (by simp [entry]))
  have hnew := hr.agree (.id t.id) (hs _ (by simp [entry]))
  exact ⟨⟨a, locked, hacc', hval, hrow⟩, h.fits, fun hk => h.fresh (hnew hk), Eq.trans hkey h.unused⟩

namespace PointsLedgerService

theorem fits_transactionRow (locked : LockedAccountMutation) (ref : LedgerReference)
    (id id' : Uuid) (n n' : ℕ) :
    (transactionRow locked ref id n).fits = (transactionRow locked ref id' n').fits := rfl

theorem validateAccount_id {userId : Uuid} {direction : TxnDirection} {amountMinor : ℤ}
    {allowOverdraw : Bool} {a : PointsAccount} {locked : LockedAccountMutation}
    (h : validateAccount userId direction amountMinor allowOverdraw (some a) = .ok locked) :
    locked.accountId = a.id := by
  simp only [validateAccount] at h
  split at h <;> cases h
  rfl

section

variable {base : Db} {spec : Commit (schema C R) → Db → Prop} {i : ℕ} {c : C}
variable {s : Local (schema C R)} {w : World (schema C R)} {start : ℕ} {ws : List Write}
variable {held : List (Resource (schema C R))} {E : Err → Local (schema C R) → World (schema C R) → Prop}

theorem wp_lockAndValidateAccount {userId : Uuid} {direction : TxnDirection} {amountMinor : ℤ}
    {allowOverdraw : Bool} {Q : LockedAccountMutation → Local (schema C R) → World (schema C R) → Prop}
    (h : s.In start ws held)
    (hws : ∀ d, (applyAll (S := schema C R) ws d).accountOf userId = d.accountOf userId)
    (hamount : amountMinor ≤ 0 → E .amountNotPositive s w)
    (hfault : ∀ s' w', s'.In start ws held → Along (discipline base spec) i s w s' w' →
      s'.faulted = true → E .fault s' w')
    (hrefuse : ∀ e m s' w', Along (discipline base spec) i s w s' w' → m ∈ s'.trace →
      m.tag = .lockAccount → m.db = w'.db →
      (∀ a, w'.db.accountOf userId = some a → s'.Holds (.row (.account a.id))) →
      validateAccount userId direction amountMinor allowOverdraw (w'.db.accountOf userId) = .error e →
      E e s' w')
    (hQ : ∀ a locked m s' w', s'.In start ws (.row (.account a.id) :: held) →
      Along (discipline base spec) i s w s' w' → m ∈ s'.trace → m.tag = .lockAccount →
      m.db = w'.db → w'.db.accountOf userId = some a →
      validateAccount userId direction amountMinor allowOverdraw (some a) = .ok locked →
      Q locked s' w') :
    wp (discipline base spec) i c
      (lockAndValidateAccount userId direction amountMinor allowOverdraw) Q E s w := by
  rw [lockAndValidateAccount, wp_bind, wp_check]
  constructor
  · intro _ hpos
    rw [wp_bind]
    refine h.wp_exec (fun w' hal => hfault _ w' h.fault hal rfl) (fun _ _ _ hx => by cases hx)
      fun s' w' v hv hin hal htr => ?_
    obtain ⟨m, hm, htag, hdb⟩ : ∃ m ∈ s'.trace, m.tag = .lockAccount ∧ m.db = w'.db :=
      ⟨_, htr ▸ List.mem_cons_self, rfl, rfl⟩
    subst hv
    simp only [hws] at hin ⊢
    rw [wp_check]
    cases hacc : w'.db.accountOf userId with
    | none =>
      refine ⟨nofun, fun e he => ?_⟩
      exact hrefuse e m s' w' hal hm htag hdb (fun a ha => by rw [hacc] at ha; cases ha) (hacc ▸ he)
    | some a =>
      rw [hacc] at hin
      refine ⟨fun locked hl => ?_, fun e he => ?_⟩
      · exact hQ a locked m s' w' (by simpa using hin) hal hm htag hdb hacc hl
      · refine hrefuse e m s' w' hal hm htag hdb (fun b hb => ?_) (hacc ▸ he)
        obtain rfl : a = b := Option.some.inj (hacc.symm.trans hb)
        exact hin.held _ (by simp)
  · intro e he
    simp only [assertPositiveAmount] at he
    split at he
    · cases he
      exact hamount ‹_›
    · cases he

theorem wp_commitMutation {locked : LockedAccountMutation} {ref : LedgerReference}
    {Q : LedgerMutationResult → Local (schema C R) → World (schema C R) → Prop}
    (h : s.In start ws held) (hacc : .row (.account locked.accountId) ∈ held)
    (hws : ∀ d, (applyAll (S := schema C R) ws d).transactionOf ref.idempotencyKey =
      d.transactionOf ref.idempotencyKey)
    (hE : ∀ e s' w', Along (discipline base spec) i s w s' w' →
      (s'.faulted = true ∨ (∀ id n, (transactionRow locked ref id n).fits = false) ∨
        e = .uniqueViolation) → (∀ r ∈ held, s'.Holds r) → e.status = none → E e s' w')
    (hQ : ∀ id n s' w', let row := transactionRow locked ref id n
      s'.In start (ws ++ post row) (.row (.ledgerKey ref.idempotencyKey) :: .id id :: held) →
      Along (discipline base spec) i s w s' w' → row.fits = true → ¬ w'.db.Known id →
      w'.db.transactionOf ref.idempotencyKey = none → Q (toResult row false) s' w') :
    wp (discipline base spec) i c (commitMutation locked ref) Q E s w := by
  rw [commitMutation, wp_bind]
  apply wp_fresh_known
  intro id w₁ hnew hal₁
  have hin₁ := h.mint id
  rw [wp_bind]
  apply wp_outside_along
  intro n w₂ hal₂
  have hal := hal₁.trans hal₂
  have holds₂ : ∀ r ∈ held, (s.mint id).Holds r := fun r hr => hin₁.held r (by simp [hr])
  rw [wp_bind, wp_require]
  refine ⟨fun hfits => ?_, fun hfits => ?_⟩
  · rw [wp_bind]
    refine wp_insert hin₁ (fun w' hal' => ?_) ?_ (fun s' w' hin' hal' _ => ?_)
      fun s₃ w₃ hin₃ hal₃ ht => ?_
    · exact hE _ _ w' (hal.trans hal') (.inl rfl) (fun r hr => hal'.holds r (holds₂ r hr)) rfl
    · intro x hx r hr
      obtain rfl : x = .insertTransaction (transactionRow locked ref id n) := by simpa using hx
      have hr' : r = .row (.ledgerKey ref.idempotencyKey) ∨ r = .row (.account locked.accountId) ∨
          r = .id id := by simpa [discipline, footprint, transactionRow] using hr
      rcases hr' with rfl | rfl | rfl
      · simp [transactionRow]
      · simp [hacc]
      · simp
    · have hheld := fun r hr => hal'.holds r (holds₂ r hr)
      exact hE _ _ w' (hal.trans hal') (.inr (.inr rfl)) hheld rfl
    · have hal₃' := hal.trans hal₃
      have hnone : w₃.db.transactionOf ref.idempotencyKey = none := by
        simpa [hws, transactionRow] using ht
      rw [wp_bind]
      refine hin₃.wp_exec (fun w' hal' => ?_) (fun w' _ x hx r hr => ?_) fun s₄ w₄ v hv hin₄ hal₄ _ => ?_
      · have hheld (r) (hr : r ∈ held) := hal'.holds r (hin₃.held r (by simp [hr]))
        exact hE _ _ w' (hal₃'.trans hal') (.inl rfl) hheld rfl
      · obtain rfl : x = .updateAccount locked.accountId locked.balanceAfterMinor := by simpa using hx
        have hr' : r = .row (.account locked.accountId) := by simpa [discipline, footprint] using hr
        simp [hr']
      · have hkey := hal₄.rely.agree (.row (.ledgerKey ref.idempotencyKey))
          (hin₃.held _ (by simp [transactionRow]))
        have hid := (hal₂.trans (hal₃.trans hal₄)).rely.agree (.id id) (hin₁.held _ (by simp))
        refine hQ id n s₄ w₄ ?_ (hal₃'.trans hal₄) hfits (fun hk => hnew (hid hk)) (Eq.trans hkey hnone)
        rw [List.append_assoc] at hin₄
        apply hin₄.weaken
        intro r hr
        simp only [Option.toList_some, List.map_cons, List.map_nil, List.cons_append,
          List.nil_append, List.mem_cons] at hr ⊢
        exact .inr hr
  · refine hE _ _ w₂ hal (.inr (.inl fun id' n' => ?_)) holds₂ rfl
    rw [fits_transactionRow locked ref id' id n' n]
    simpa using hfits

end

section

variable {base : Db} {spec : Commit sql → Db → Prop} {i : ℕ} {c : Call}
variable {s : Local sql} {w : World sql} {E : Err → Local sql → World sql → Prop}

theorem wp_mutateWithinTransaction {params : ApplyLedgerMutationParams} {start : ℕ} {ws : List Write}
    {held : List (Resource sql)} {Q : LedgerMutationResult → Local sql → World sql → Prop}
    (hw : w.Ok (discipline base spec)) (h : s.In start ws held)
    (hacc : ∀ d, (applyAll (S := sql) ws d).accountOf params.userId = d.accountOf params.userId)
    (hkey : ∀ d, (applyAll (S := sql) ws d).transactionOf params.idempotencyKey =
      d.transactionOf params.idempotencyKey)
    (hE : ∀ e s' w', Along (discipline base spec) i s w s' w' →
      (∀ s'' w'', s''.trace = s'.trace → s''.faulted = s'.faulted →
        Rely (discipline base spec) i s' w' w'' → e ≠ .uniqueViolation →
        MutationFailure params s'' w''.db e) → E e s' w')
    (hQ : ∀ t s' w', s'.In start (ws ++ post t) (entry t ++ held) →
      Along (discipline base spec) i s w s' w' → Posts params t w'.db → Q (toResult t false) s' w') :
    wp (discipline base spec) i c (mutateWithinTransaction params) Q E s w := by
  rw [mutateWithinTransaction, wp_bind]
  apply wp_lockAndValidateAccount h hacc
  · intro hpos
    exact hE _ s w (.refl hw) fun _ _ _ _ _ _ => .amount hpos
  · intro s' w' _ hal hf
    exact hE _ s' w' hal fun s'' _ _ hf' _ _ => .fault (hf'.trans hf)
  · intro e m s' w' hal hm htag hdb hhold hval
    apply hE e s' w' hal
    intro s'' w'' htr _ hr _
    refine .account (htr ▸ hm) htag (fun a ha => ?_) (hdb ▸ hval)
    rw [hdb] at ha ⊢
    exact (hr.agree _ (hhold a ha)).1
  · intro a locked m s₁ w₁ hin hal hm htag hdb ha hval
    have hid := validateAccount_id hval
    apply wp_commitMutation hin (by simp [hid]) hkey
    · intro e s' w' hal' hwhy hheld _
      apply hE e s' w' (hal.trans hal')
      intro s'' w'' htr hf hr hne
      rcases hwhy with hf' | hfit | hu
      · exact .fault (hf.trans hf')
      · have hrows : w''.db.rowsOf a.id = w₁.db.rowsOf a.id :=
          ((hal'.rely' hr).rely.agree (.row (.account a.id)) (hin.held _ (by simp))).1
        exact .row (htr ▸ hal'.trace.subset hm) htag (hdb ▸ ha) (hdb ▸ hrows) hval hfit
      · exact absurd hu hne
    · intro id n s' w' row hin' hal' hfits hnew hunused
      have hacc' := (hal'.rely.agree (.row (.account a.id)) (hin.held _ (by simp))).2 _ a ha rfl
      refine hQ row s' w' (hin'.weaken fun r hr => ?_) (hal.trans hal')
        ⟨⟨a, locked, hacc', hval, rfl⟩, hfits, hnew, hunused⟩
      simp only [entry, List.cons_append, List.nil_append, List.mem_cons] at hr ⊢
      rcases hr with rfl | rfl | rfl | hr
      · exact .inr (.inr (.inl (by rw [← hid]; rfl)))
      · exact .inl rfl
      · exact .inr (.inl rfl)
      · exact .inr (.inr (.inr hr))

theorem wp_findReplay {params : ApplyLedgerMutationParams}
    {Q : Option LedgerMutationResult → Local sql → World sql → Prop} (h : s.tx = none)
    (hE : ∀ e s' w', s'.tx = none → Along (discipline base spec) i s w s' w' →
      MutationFailure params s' w'.db e → E e s' w')
    (hnone : ∀ s' w', s'.tx = none → Along (discipline base spec) i s w s' w' →
      (w'.db.transactionOf params.idempotencyKey).bind (withUser w'.db) = none → Q none s' w')
    (hsome : ∀ t u s' w', s'.tx = none → Along (discipline base spec) i s w s' w' →
      (w'.db.transactionOf params.idempotencyKey).bind (withUser w'.db) = some (t, u) →
      assertReplayMatches (t, u) params = .ok () → Q (some (toResult t true)) s' w') :
    wp (discipline base spec) i c (findReplay params) Q E s w := by
  rw [findReplay, wp_bind, findByIdempotencyKey, wp_bind]
  apply wp_select_out h (fun w' hal => hE _ _ w' h hal (.fault rfl))
  intro s' w' htx hal
  rw [wp_pure]
  cases hl : (w'.db.transactionOf params.idempotencyKey).bind (withUser w'.db) with
  | none => exact hnone s' w' htx hal hl
  | some existing =>
    obtain ⟨t, u⟩ := existing
    change wp _ _ _ (check (assertReplayMatches (t, u) params) >>= _) _ _ _ _
    rw [wp_bind, wp_check]
    exact ⟨fun _ hm => hsome t u s' w' htx hal hl hm,
      fun e he => hE e s' w' htx hal (.reused hl he)⟩

end

theorem applyMutation_verified {base : Db} {allowed : Call → Prop} {i : ℕ} {w : World sql}
    {params : ApplyLedgerMutationParams} (hall : allowed (.applyMutation params))
    (hw : w.Ok (protocol base allowed)) (hown : own i w.log = []) :
    Safe (protocol base allowed) (done base) i
      ⟨.applyMutation params, body (.applyMutation params), .idle⟩ w := by
  have hfail {e : Err} {s' : Local sql} {w' : World sql}
      (hal : Along (protocol base allowed) i .idle w s' w')
      (he : MutationFailure params s' w'.db e) : Done base i s' w' (.applyMutation params) (.error e) :=
    .failed (hal.own.trans hown) he
  have hreplay {t : PointsTransaction} {u : Uuid} {s' : Local sql} {w' : World sql}
      (hal : Along (protocol base allowed) i .idle w s' w')
      (hl : (w'.db.transactionOf params.idempotencyKey).bind (withUser w'.db) = some (t, u))
      (hm : assertReplayMatches (t, u) params = .ok ()) :
      Done base i s' w' (.applyMutation params) (.ok (.mutation (toResult t true))) :=
    .mutationReplayed (hal.own.trans hown) hl hm
  change wp _ _ _ (applyMutation params >>= _) _ _ _ _
  rw [wp_bind, applyMutation, wp_bind, wp_check]
  refine ⟨fun _ _ => ?_, fun e he => ?_⟩
  · refine wp_idempotent _ _ (wp_findReplay rfl (fun e s₁ w₁ _ hal he => hfail hal he) ?_ ?_)
    · intro s₁ w₁ htx hal _
      refine wp_transaction_out htx (fun s₂ w₂ hin hal₂ => ?_) fun s' w' _ hf hal' => ?_
      · apply wp_mutateWithinTransaction hal₂.rely.ok hin (fun _ => rfl) (fun _ => rfl)
        · intro e s' w' hal' hwhy w'' hr
          have hal'' := hal.trans (((hal₂.trans hal').rely' hr).ended htx)
          refine ⟨fun hne => hfail hal'' (hwhy _ w'' rfl rfl hr hne), fun _ => ?_⟩
          apply wp_findReplay rfl
          · exact fun e s₃ w₃ _ hal₃ he => hfail (hal''.trans hal₃) he
          · exact fun s₃ w₃ _ hal₃ hl => hfail (hal''.trans hal₃) (.absent hl)
          · exact fun t u s₃ w₃ _ hal₃ hl hm => hreplay (hal''.trans hal₃) hl hm
        · intro t s' w' hin' hal' hpost
          refine ⟨_, _, hin', hal₂.trans hal', fun w'' hr => ⟨⟨hall, t, rfl, ?_⟩, fun hown' => ?_⟩⟩
          · exact hpost.stable (fun r hr => hin'.held r (by simpa using hr)) hr
          · exact .mutated (own_push rfl (hown'.trans (hal.own.trans hown))) rfl
      · exact ⟨fun _ => hfail (hal.trans hal') (.fault hf), nofun⟩
    · intro t u s₁ w₁ _ hal hl hm
      exact hreplay hal hl hm
  · simp only [assertPositiveAmount] at he
    split at he
    · exact hfail (.refl hw) (.amount ‹_›)
    · cases he

end PointsLedgerService

end JitoGame
