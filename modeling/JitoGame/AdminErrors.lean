import JitoGame.AdminRequests
import JitoGame.Audit
import JitoGame.PointsAlone
import JitoGame.Transactions.Inputs

namespace JitoGame.AdminPointsController

open Transactions AdminPointsService

variable {readUuid : String → Option Uuid} {d : Db} {req : AdjustRequest} {key : String} {id : Uuid}

theorem requireKey_error {given : Option String} {e : Err} (h : requireKey given = .error e) :
    e = .idempotencyKeyRequired := by
  cases given with
  | none =>
    cases h
    rfl
  | some value =>
    rw [requireKey] at h
    split at h <;> cases h
    rfl

/-! Which requests the database takes. -/

def overdrawn (d : Db) (id : Uuid) (dto : AdjustPointsDto) : Bool :=
  dto.direction = .debit ∧ (d.accountOf id).any fun a => a.balanceMinor < dto.amountMinor

/-- The texts that a new adjustment writes fit their columns, and the id can be cast. -/
def writable (d : Db) (req : AdjustRequest) (id : Uuid) (key : String) : Bool :=
  fitsVarchar 45 req.ip && fitsText req.dto.reason && (Uuid.parse req.targetUserId).isSome &&
    (overdrawn d id req.dto || fitsVarchar 120 key)

def presentable (readUuid : String → Option Uuid) (d : Db) (req : AdjustRequest) : Bool :=
  match requireKey req.idempotencyKey with
  | .error _ => true
  | .ok key =>
    match readUuid req.targetUserId with
    | none => false
    | some id =>
      id ∉ d.users || fitsText key && ((d.transactionOf key).isSome || writable d req id key)

def Documented {α : Type} (r : Except Err α) : Prop :=
  (∃ a, r = .ok a) ∨ ∃ e n, r = .error e ∧ e.status = some n ∧ 400 ≤ n ∧ n < 500

structure Funded (d : Db) : Prop where
  accounts : ∀ id ∈ d.users, (d.accountOf id).isSome = true
  balances : ∀ a ∈ d.accounts, 0 ≤ a.balanceMinor ∧ a.balanceMinor + 2 ^ 53 ≤ 2 ^ 63

theorem documented_ok {α : Type} (a : α) : Documented (.ok a) := .inl ⟨a, rfl⟩

theorem documented_error_iff {α : Type} {e : Err} :
    Documented (.error e : Except Err α) ↔ ∃ n, e.status = some n ∧ 400 ≤ n ∧ n < 500 := by
  constructor
  · rintro (⟨a, ha⟩ | ⟨e', n, he, hn⟩)
    · cases ha
    · cases he
      exact ⟨n, hn⟩
  · rintro ⟨n, hn⟩
    exact .inr ⟨e, n, rfl, hn⟩

theorem not_documented {α : Type} {e : Err} (he : e.status = none) :
    ¬ Documented (.error e : Except Err α) := by
  intro h
  obtain ⟨n, hn, -⟩ := documented_error_iff.mp h
  cases he.symm.trans hn

theorem Funded.account (hd : Funded d) (hid : id ∈ d.users) : ∃ a, d.accountOf id = some a ∧
    0 ≤ a.balanceMinor ∧ a.balanceMinor + 2 ^ 53 ≤ 2 ^ 63 := by
  obtain ⟨a, ha⟩ := Option.isSome_iff_exists.mp (hd.accounts id hid)
  exact ⟨a, ha, hd.balances a (List.mem_of_find?_eq_some ha)⟩

theorem fits_adjustment {locked : LockedAccountMutation} {ref : LedgerReference} {n : ℕ}
    (hpos : 0 < locked.amountMinor) (hsafe : locked.amountMinor < 2 ^ 53)
    (hbefore : 0 ≤ locked.balanceBeforeMinor) (hafter : 0 ≤ locked.balanceAfterMinor)
    (hroom : locked.balanceBeforeMinor + 2 ^ 53 ≤ 2 ^ 63)
    (hbalance : locked.balanceAfterMinor =
      PointsLedgerService.balanceAfter locked.direction locked.balanceBeforeMinor locked.amountMinor)
    (hdescription : ref.description.all fitsText = true) :
    (PointsLedgerService.transactionRow locked ref id n).fits = fitsVarchar 120 ref.idempotencyKey := by
  have hbelow : locked.balanceAfterMinor < 2 ^ 63 := by
    rw [hbalance]
    cases locked.direction <;> simp only [PointsLedgerService.balanceAfter] <;> omega
  have hamount : fitsBigint locked.amountMinor = true := decide_eq_true (by omega)
  have hbefore' : fitsBigint locked.balanceBeforeMinor = true := decide_eq_true (by omega)
  have hafter' : fitsBigint locked.balanceAfterMinor = true := decide_eq_true (by omega)
  apply Bool.eq_iff_iff.mpr
  rw [PointsTransaction.fits, decide_eq_true_eq]
  constructor
  · rintro ⟨-, -, -, hkey, -⟩
    exact hkey
  · exact fun hkey => ⟨hamount, hbefore', hafter', hkey, hdescription, hpos, hafter, hbalance⟩

theorem overdrawn_iff {a : PointsAccount} {dto : AdjustPointsDto} (ha : d.accountOf id = some a)
    (hbalance : 0 ≤ a.balanceMinor) (hpos : 0 < dto.amountMinor) : overdrawn d id dto = true ↔
      PointsLedgerService.balanceAfter dto.direction a.balanceMinor dto.amountMinor < 0 := by
  rw [overdrawn, ha, Option.any_some, decide_eq_true_eq]
  cases dto.direction <;> simp only [PointsLedgerService.balanceAfter, decide_eq_true_eq] <;> grind

/-! A request that is served alone. -/

section Alone

variable {known : Db → Uuid → Prop} {i start : ℕ} {c : AdjustRequest} {s : Local requests} {w : World requests}
variable {E : Err → Local requests → World requests → Prop} {params : AdjustPointsParams}

theorem wp_findReplay_alone {Q : Option AdjustPointsResult → Local requests → World requests → Prop}
    (hw : Still (S := requests) known d i w) (htx : s.tx = none) (hclean : s.faulted = false)
    (hE : ∀ s' w', s'.faulted = true → Still (S := requests) known d i w' → E .fault s' w')
    (htext : fitsText key = false → E .databaseError s w)
    (hreused : ∀ s' w', fitsText key = true → (d.transactionOf key).isSome = true →
      Still (S := requests) known d i w' → E .adjustmentIdempotencyKeyReused s' w')
    (hnew : ∀ s' w', fitsText key = true → d.transactionOf key = none → s'.tx = none →
      s'.faulted = false → Still (S := requests) known d i w' → Q none s' w')
    (hreplay : ∀ a s' w', fitsText key = true → (d.transactionOf key).isSome = true →
      Still (S := requests) known d i w' → Q (some a) s' w') :
    wp (.sole known d i) i c (findReplay key params) Q E s w := by
  rw [findReplay, wp_bind, wp_require]
  refine ⟨fun hfits => ?_, fun hfits => htext (by simpa using hfits)⟩
  rw [AdminPointsService.findReplay, wp_bind]
  apply hw.wp_read htx hclean hE
  intro now s₁ w₁ htx₁ hclean₁ hw₁
  cases ht : d.transactionOf key with
  | none => exact hnew s₁ w₁ hfits ht htx₁ hclean₁ hw₁
  | some t =>
    have hsome : (d.transactionOf key).isSome = true := by rw [ht]; rfl
    change wp _ _ _ (Prog.select _ >>= _) _ _ _ _
    rw [wp_bind]
    apply hw₁.wp_read htx₁ hclean₁ hE
    intro now₂ s₂ w₂ htx₂ hclean₂ hw₂
    have hlast (log : Option AdminLog) (s' : Local requests) (w' : World requests)
        (hw' : Still (S := requests) known d i w') : wp (.sole known d i) i c
          (require (matchesReplay t (d.accountOf params.targetUserId) log params = true)
            .adjustmentIdempotencyKeyReused >>= fun _ => pure (some (replayResult t))) Q E s' w' := by
      rw [wp_bind, wp_require]
      exact ⟨fun _ => hreplay _ s' w' hfits hsome hw', fun _ => hreused s' w' hfits hsome hw'⟩
    rw [wp_bind]
    cases hlog : t.referenceId with
    | none => exact hlast none s₂ w₂ hw₂
    | some logId =>
      rw [findAdminLog, wp_bind]
      apply hw₂.wp_read htx₂ hclean₂ hE
      exact fun now₃ s₃ w₃ _ _ hw₃ => hlast _ s₃ w₃ hw₃

theorem wp_mutateWithinTransaction_alone {Q : LedgerMutationResult → Local requests → World requests → Prop}
    {ref : TxnRefType} {auditLogId : Option Uuid} {log : AdminLog} (hd : Funded d)
    (hvalid : req.dto.valid = true) (huser : id ∈ d.users)
    (hagree : ∀ v, Uuid.parse req.targetUserId = some v → id = v) (hnew : d.transactionOf key = none)
    (hreason : fitsText req.dto.reason = true) (hw : Still (S := requests) known d i w)
    (h : s.Running start [.insertAdminLog log] [])
    (hE : ∀ s' w', s'.faulted = true → Still (S := requests) known d i w' → E .fault s' w')
    (hrefused : ∀ s' w', ((Uuid.parse req.targetUserId).isSome &&
      (overdrawn d id req.dto || fitsVarchar 120 key)) = false →
      Still (S := requests) known d i w' → E .databaseError s' w')
    (hover : ∀ e s' w', (Uuid.parse req.targetUserId).isSome = true → overdrawn d id req.dto = true →
      e.status = some 422 → Still (S := requests) known d i w' → E e s' w')
    (hQ : ∀ result ws s' w', (Uuid.parse req.targetUserId).isSome = true → fitsVarchar 120 key = true →
      s'.Running start ws [] → Still (S := requests) known d i w' → Q result s' w') :
    wp (.sole known d i) i c (mutateWithinTransaction req.targetUserId
      ⟨id, req.dto.direction, req.dto.amountMinor, ref, auditLogId, key, some req.dto.reason, false⟩)
      Q E s w := by
  obtain ⟨hpos, hmax, -⟩ := of_decide_eq_true hvalid
  have hsafe : req.dto.amountMinor < 2 ^ 53 := by omega
  obtain ⟨a, ha, hbalance, hroom⟩ := hd.account huser
  have hchecked : PointsLedgerService.assertPositiveAmount req.dto.amountMinor = .ok () :=
    if_neg (Int.not_le.mpr hpos)
  rw [mutateWithinTransaction, wp_bind, wp_check]
  refine ⟨fun _ _ => ?_, fun e he => ?_⟩
  swap
  · rw [hchecked] at he
    cases he
  cases hparse : Uuid.parse req.targetUserId with
  | none =>
    rw [hparse] at hrefused
    exact hrefused s w rfl hw
  | some userId =>
    obtain rfl := hagree userId hparse
    rw [hparse] at hrefused hover hQ
    change wp _ _ _ (PointsLedgerService.lockAndValidateAccount _ _ _ _ >>= _) _ _ _ _
    rw [wp_bind]
    apply PointsLedgerService.wp_lockAndValidateAccount_alone hw h
    · exact fun hneg => absurd hpos (Int.not_lt.mpr hneg)
    · exact hE
    · intro e s₁ w₁ _ _ hw₁ hval
      change PointsLedgerService.validateAccount _ _ _ _ (d.accountOf id) = _ at hval
      rw [ha] at hval
      obtain ⟨hneg, hstatus⟩ := PointsLedgerService.validateAccount_error hval
      exact hover e s₁ w₁ rfl ((overdrawn_iff ha hbalance hpos).mpr hneg) hstatus hw₁
    intro locked s₁ w₁ _ hrun₁ hw₁ hval
    change PointsLedgerService.validateAccount _ _ _ _ (d.accountOf id) = _ at hval
    rw [ha] at hval
    obtain ⟨hafter, hlocked⟩ := PointsLedgerService.validateAccount_ok hval
    have hcovered : overdrawn d id req.dto = false := by
      apply Bool.eq_false_iff.mpr
      intro hover
      exact absurd ((overdrawn_iff ha hbalance hpos).mp hover) (Int.not_lt.mpr hafter)
    have hrow (x : Uuid) (n : ℕ) : (PointsLedgerService.transactionRow locked
        ⟨ref, auditLogId, key, some req.dto.reason⟩ x n).fits = fitsVarchar 120 key := by
      rw [hlocked]
      exact fits_adjustment hpos hsafe hbalance hafter hroom rfl hreason
    apply PointsLedgerService.wp_commitMutation_alone hw₁ hrun₁
    · exact hnew
    · exact hE
    · intro x n s₂ w₂ _ hw₂ hfits
      rw [hrow] at hfits
      exact hrefused s₂ w₂ (by rw [hcovered, hfits]; rfl) hw₂
    · rintro result row s₂ w₂ hfits ⟨x, n, rfl⟩ hrun₂ hw₂
      exact hQ result _ s₂ w₂ rfl (hrow x n ▸ hfits) hrun₂ hw₂

theorem wp_adjustmentTransaction_alone {Q : AdjustPointsResult → Local requests → World requests → Prop}
    (hd : Funded d) (hadmin : req.adminId ∈ d.adminUsers) (hvalid : req.dto.valid = true)
    (huser : id ∈ d.users) (hagree : ∀ v, Uuid.parse req.targetUserId = some v → id = v)
    (hnew : d.transactionOf key = none) (hw : Still (S := requests) known d i w) (h : s.Running start [] [])
    (hE : ∀ s' w', s'.faulted = true → Still (S := requests) known d i w' → E .fault s' w')
    (hrefused : ∀ s' w', writable d req id key = false → Still (S := requests) known d i w' →
      E .databaseError s' w')
    (hover : ∀ e s' w', writable d req id key = true → e.status = some 422 →
      Still (S := requests) known d i w' → E e s' w')
    (hQ : ∀ result ws s' w', writable d req id key = true → s'.Running start ws [] →
      Still (S := requests) known d i w' → Q result s' w') :
    wp (.sole known d i) i c (adjustmentTransaction key req.targetUserId (paramsOf req id)) Q E s w := by
  rw [adjustmentTransaction, wp_bind]
  apply hw.wp_fresh
  intro auditLogId w₁ _ hw₁
  have hrun₁ := h.mint auditLogId
  have hlog : (logRow auditLogId (paramsOf req id)).fits =
      (fitsVarchar 45 req.ip && fitsText req.dto.reason) := by
    rw [AdminLog.fits, Bool.decide_and, Bool.decide_eq_true, Bool.decide_eq_true]
    rfl
  rw [wp_bind, wp_require, hlog]
  constructor
  swap
  · intro hlost
    have hlost : writable d req id key = false := by
      rw [writable, Bool.eq_false_iff.mpr hlost, Bool.false_and, Bool.false_and]
    exact hrefused _ w₁ hlost hw₁
  intro hkept
  have hwritable : writable d req id key = ((Uuid.parse req.targetUserId).isSome &&
      (overdrawn d id req.dto || fitsVarchar 120 key)) := by
    rw [writable, hkept, Bool.true_and]
  rw [wp_bind]
  apply hw₁.wp_exec hrun₁ hE
  intro m s₂ w₂ _ _ hrun₂ hw₂
  change s₂.Running start (if req.adminId ∈ d.adminUsers then _ else _) _ at hrun₂
  rw [if_pos hadmin] at hrun₂
  rw [wp_bind, wp_require]
  refine ⟨fun _ => ?_, fun hno => absurd hadmin hno⟩
  rw [wp_bind]
  apply wp_mutateWithinTransaction_alone hd hvalid huser hagree hnew ((Bool.and_eq_true _ _).mp hkept).2 hw₂
    hrun₂.older hE
  · exact fun s' w' hlost => hrefused s' w' (hwritable ▸ hlost)
  · intro e s' w' hparse hover' hstatus hw'
    exact hover e s' w' (by rw [hwritable, hparse, hover']; rfl) hstatus hw'
  · intro result ws s' w' hparse hkey hrun' hw'
    exact hQ _ ws s' w' (by rw [hwritable, hparse, hkey, Bool.or_true]; rfl) hrun' hw'

/-- An answer is documented just for the requests that the database takes, unless a statement failed. -/
def Settled (readUuid : String → Option Uuid) (d : Db) (req : AdjustRequest)
    (r : Except Err AdjustPointsResult) (s : Local requests) : Prop :=
  s.faulted = true ∨ (Documented r ↔ presentable readUuid d req = true)

theorem Settled.answer {r : Except Err AdjustPointsResult} (hr : Documented r)
    (h : presentable readUuid d req = true) : Settled readUuid d req r s := .inr ⟨fun _ => h, fun _ => hr⟩

theorem Settled.error {e : Err} {n : ℕ} (he : e.status = some n) (hn : 400 ≤ n ∧ n < 500)
    (h : presentable readUuid d req = true) : Settled readUuid d req (.error e) s :=
  .answer (documented_error_iff.mpr ⟨n, he, hn⟩) h

theorem Settled.refused (h : presentable readUuid d req = false) :
    Settled readUuid d req (.error .databaseError) s := by
  refine .inr ⟨fun hr => absurd hr (not_documented rfl), fun hyes => ?_⟩
  rw [h] at hyes
  cases hyes

theorem wp_adjust_alone (hd : Funded d) (hadmin : req.adminId ∈ d.adminUsers) (hvalid : req.dto.valid = true)
    (hagree : ∀ u v, readUuid req.targetUserId = some u → Uuid.parse req.targetUserId = some v → u = v)
    (hw : Still (S := requests) known d i w) (htx : s.tx = none) (hclean : s.faulted = false) :
    wp (.sole known d i) i c (adjust readUuid req) (fun a s' _ => Settled readUuid d req (.ok a) s')
      (fun e s' _ => Settled readUuid d req (.error e) s') s w := by
  have hfault (s' : Local requests) (w' : World requests) (hf : s'.faulted = true)
      (_ : Still (S := requests) known d i w') : Settled readUuid d req (.error .fault) s' := .inl hf
  rw [adjust, wp_bind, wp_check]
  cases hreq : requireKey req.idempotencyKey with
  | error e =>
    refine ⟨fun _ hno => (by cases hno), fun e' he' => ?_⟩
    cases he'
    obtain rfl := requireKey_error hreq
    exact .error rfl (by omega) (by rw [presentable, hreq])
  | ok key =>
    refine ⟨fun key' hkey' => ?_, fun _ hno => (by cases hno)⟩
    cases hkey'
    cases hread : readUuid req.targetUserId with
    | none => exact .refused (by rw [presentable, hreq, hread])
    | some id =>
      have hpresent : presentable readUuid d req =
          (id ∉ d.users || fitsText key && ((d.transactionOf key).isSome || writable d req id key)) := by
        rw [presentable, hreq, hread]
      change wp _ _ _ (Prog.select _ >>= _) _ _ _ _
      rw [wp_bind]
      apply hw.wp_read htx hclean hfault
      intro now s₁ w₁ htx₁ hclean₁ hw₁
      rw [wp_bind, wp_require]
      constructor
      swap
      · intro hunknown
        exact .error rfl (by omega) (by rw [hpresent, decide_eq_true hunknown, Bool.true_or])
      intro huser
      have hstored : presentable readUuid d req =
          (fitsText key && ((d.transactionOf key).isSome || writable d req id key)) := by
        rw [hpresent, decide_eq_false (not_not.mpr huser), Bool.false_or]
      apply wp_idempotent
      apply wp_findReplay_alone hw₁ htx₁ hclean₁ hfault
      · intro hnul
        exact .refused (by rw [hstored, hnul, Bool.false_and])
      · intro s₂ w₂ hfits hold _
        exact .error rfl (by omega) (by rw [hstored, hfits, hold]; rfl)
      · intro s₂ w₂ hfits hnew htx₂ hclean₂ hw₂
        have hwritable : presentable readUuid d req = writable d req id key := by
          rw [hstored, hfits, hnew]
          rfl
        -- alone, no key is taken between the look and the insert, so nothing is looked for again
        apply hw₂.wp_transaction htx₂ hclean₂
        · intro start s₃ w₃ hrun₃ hw₃
          apply wp_adjustmentTransaction_alone hd hadmin hvalid huser (hagree id · hread) hnew hw₃ hrun₃
          · intro s' w' hf hw'
            exact ⟨hw', fun _ _ => ⟨fun _ => .inl hf, fun he => (by cases he)⟩⟩
          · intro s' w' hlost hw'
            exact ⟨hw', fun _ _ => ⟨fun _ => .refused (hwritable ▸ hlost), fun he => (by cases he)⟩⟩
          · intro e s' w' hkept he hw'
            refine ⟨hw', fun _ _ => ⟨fun _ => .error he (by omega) (hwritable ▸ hkept), ?_⟩⟩
            rintro rfl
            cases he
          · intro a ws s' w' hkept hrun' hw'
            exact ⟨ws, hrun', hw', fun _ _ => .answer (documented_ok a) (hwritable ▸ hkept)⟩
        · intro s' w' _ hf _
          exact ⟨fun _ => .inl hf, fun he => (by cases he)⟩
      · intro a s₂ w₂ hfits hold _
        exact .answer (documented_ok a) (by rw [hstored, hfits, hold]; rfl)

end Alone

/-- A valid body is answered with a result or an HTTP exception exactly when its texts fit the columns that
they reach and the id is a uuid. -/
theorem adjust_documented_iff {known : Db → Uuid → Prop} {σ : State requests} {p : Proc requests}
    {r : Except Err AdjustPointsResult} (hd : Funded d) (hadmin : req.adminId ∈ d.adminUsers)
    (hvalid : req.dto.valid = true)
    (hagree : ∀ u v, readUuid req.targetUserId = some u → Uuid.parse req.targetUserId = some v → u = v)
    (hσ : Serves (S := requests) (adjust readUuid) known d req σ) (hp : σ.procs 0 = some p)
    (hr : p.prog.Ends r) (hclean : p.loc.faulted = false) :
    Documented r ↔ presentable readUuid d req = true := by
  have hsettled : Settled readUuid d req r p.loc := by
    apply (hσ.outcome (X := fun r s _ => Settled readUuid d req r s) ?_ hp hr).1
    exact fun w hw => wp_adjust_alone hd hadmin hvalid hagree hw rfl rfl
  rcases hsettled with hf | hiff
  · rw [hclean] at hf
    cases hf
  · exact hiff

def welcome (targetUserId idempotencyKey : String) : AdjustRequest :=
  ⟨.ofNat 50, targetUserId, ⟨.credit, 500, "welcome"⟩, some idempotencyKey, "10.0.0.1"⟩

def longKey : String := String.ofList (List.replicate 121 'k')

def welcomeRun : List (Label requests) :=
  [.run 0, .run 0, .run 0, .mint 0 (.ofNat 60), .run 0, .run 0, .mint 0 (.ofNat 61), .input 0 7, .run 0,
    .run 0, .run 0]

theorem funded_adminDb : Funded adminDb := ⟨by decide, by decide⟩

def Answered (req : AdjustRequest) (r : Except Err AdjustPointsResult) : Prop :=
  ∃ σ p, Serves (S := requests) (adjust Uuid.parse) Db.Known adminDb req σ ∧ σ.procs 0 = some p ∧
    p.prog.Ends r ∧ p.loc.faulted = false

def answerOf (req : AdjustRequest) (labels : List (Label requests)) :
    Option (Except Err AdjustPointsResult) :=
  ((Policy.calls fun _ => False).steps (adjust Uuid.parse) (alone (adjust Uuid.parse) adminDb [] req)
    labels).bind State.answer

theorem answered_of_run {labels : List (Label requests)} {r : Except Err AdjustPointsResult}
    (h : answerOf req labels = some r) : Answered req r := (AnswersOn.steps known_adminDb h).serves

theorem adjust_documented_welcome : ∃ r, Answered (welcome (Uuid.ofNat 1).text "a") r ∧
    (Documented r ↔ presentable Uuid.parse adminDb (welcome (Uuid.ofNat 1).text "a") = true) := by
  have hrun : answerOf (welcome (Uuid.ofNat 1).text "a") welcomeRun =
      some (.ok ⟨.ofNat 61, "0", "500", (Uuid.ofNat 60).text, false⟩) := by decide +kernel
  obtain ⟨σ, p, hσ, hp, hr, hclean⟩ := answered_of_run hrun
  refine ⟨_, ⟨σ, p, hσ, hp, hr, hclean⟩,
    adjust_documented_iff funded_adminDb (by decide) (by decide) ?_ hσ hp hr hclean⟩
  exact fun u v hu hv => Option.some.inj (hu.symm.trans hv)

theorem adjust_undocumented :
    ((welcome "x" "a").dto.valid = true ∧ ∃ r, Answered (welcome "x" "a") r ∧ ¬ Documented r) ∧
      (welcome (Uuid.ofNat 1).text longKey).dto.valid = true ∧
        ∃ r, Answered (welcome (Uuid.ofNat 1).text longKey) r ∧ ¬ Documented r := by
  have htarget : answerOf (welcome "x" "a") [] = some (.error .databaseError) := by decide +kernel
  have hkey : answerOf (welcome (Uuid.ofNat 1).text longKey) (welcomeRun.take 8 ++ [.run 0]) =
      some (.error .databaseError) := by decide +kernel
  exact ⟨⟨by decide, _, answered_of_run htarget, not_documented rfl⟩, by decide, _,
    answered_of_run hkey, not_documented rfl⟩

end JitoGame.AdminPointsController
