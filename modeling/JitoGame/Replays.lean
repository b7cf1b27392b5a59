import JitoGame.Answers
import JitoGame.Merging
import JitoGame.Transactions.Alone
import JitoGame.Transactions.Later

namespace JitoGame

open Transactions

/-! A later request under a key that holds a bet. -/

namespace BetsService

theorem peek_invalid {params : PlaceBetParams} {e : Err} (h : validate params = .error e)
    (v : View Db) : (body (.placeBet params)).peek v = some (.error e) := by
  have hplace : (placeBet params : Prog sql _).peek v = some (.error e) := by
    rw [placeBet, Prog.peek_bind, Prog.peek_check, h]
    rfl
  rw [body, Prog.peek_bind, hplace]
  rfl

theorem peek_findReplay {params : PlaceBetParams} {p : Placement} {v : View Db} {b : Bet}
    (hb : v.db.betOf params.userId p.idempotencyKey = some b) :
    (findReplay params.userId params.dto.roundId p : Prog sql _).peek v = some
      (if matchesReplay b (v.db.itemsOf b.id) params.dto.roundId p then
        .ok (some (replayResult b (v.db.debitOf b.id)))
      else .error .betIdempotencyKeyReused) := by
  rw [findReplay, Prog.peek_bind, Prog.peek_select]
  simp only [Option.bind_some, hb]
  rw [Prog.peek_bind, Prog.peek_require]
  split
  · rw [Option.bind_some, Prog.peek_bind, Prog.peek_select]
    rfl
  · rfl

theorem peek_placeBet {params : PlaceBetParams} {p : Placement} (h : validate params = .ok p)
    {v : View Db} {b : Bet} (hb : v.db.betOf params.userId p.idempotencyKey = some b) :
    (body (.placeBet params)).peek v = some
      (if matchesReplay b (v.db.itemsOf b.id) params.dto.roundId p then
        .ok (.bet (replayResult b (v.db.debitOf b.id)))
      else .error .betIdempotencyKeyReused) := by
  have hplace : (placeBet params : Prog sql _).peek v = some
      (if matchesReplay b (v.db.itemsOf b.id) params.dto.roundId p then
        .ok (replayResult b (v.db.debitOf b.id))
      else .error .betIdempotencyKeyReused) := by
    rw [placeBet, Prog.peek_bind, Prog.peek_check, h]
    change Prog.peek v (idempotent _ _) = _
    rw [idempotent, Prog.peek_bind, peek_findReplay hb]
    split <;> rfl
  rw [body, Prog.peek_bind, hplace]
  split <;> rfl

theorem matchesReplay_iff {params params' : PlaceBetParams} {p p' : Placement} {b : Bet}
    {t : PointsTransaction} {start : ℕ} {trace : List (Mark sql)} {d : Db}
    (h : Places params p b t start trace d) (h' : validate params' = .ok p') :
    matchesReplay b (itemRows b.id p) params'.dto.roundId p' = true ↔
      b.roundId.text = params'.dto.roundId ∧
        ∀ c n, amountOn params.dto.items c n = amountOn params'.dto.items c n := by
  have htotal : b.totalAmountMinor = p.totalAmountMinor := by rw [h.bet]; rfl
  have hitems := itemsMatch_iff h.valid h' b.id
  simp only [matchesReplay, decide_eq_true_eq, htotal]
  constructor
  · rintro ⟨hround, -, hmatch⟩
    exact ⟨hround, hitems.mp hmatch⟩
  · rintro ⟨hround, hamount⟩
    have hmatch := hitems.mpr hamount
    refine ⟨hround, ?_, hmatch⟩
    have hkeys := merged_keys_nodup h.valid
    rw [← stored_itemRows b.id p] at hkeys
    have hperm := (itemsMatch_iff_perm hkeys (merged_nodup h')).mp hmatch
    rw [stored_itemRows] at hperm
    rw [(validate_ok h.valid).2.2, (validate_ok h').2.2, totalOf_eq_sum, totalOf_eq_sum]
    exact (hperm.map _).sum_eq

end BetsService

theorem BetsLinked.debitOf {d : Db} (h : BetsLinked d) {b : Bet} {t : PointsTransaction}
    (hb : b ∈ d.bets) (ht : t ∈ d.transactions) (htype : t.referenceType = .betPlaced)
    (href : t.referenceId = some b.id) : d.debitOf b.id = some t := by
  obtain ⟨t', hfilter, -⟩ := h.debit b hb
  have hmem : t ∈ d.transactions.filter fun t =>
      t.referenceType = .betPlaced ∧ t.referenceId = some b.id :=
    List.mem_filter.mpr ⟨ht, by simp [htype, href]⟩
  rw [hfilter] at hmem
  obtain rfl := List.mem_singleton.mp hmem
  rw [Db.debitOf, ← List.head?_filter, hfilter]
  rfl

structure Accepted (base : Db) (params : PlaceBetParams) (first : PlaceBetResult)
    (log : List (Commit sql)) (p : Placement) (b : Bet) (t : PointsTransaction) : Prop where
  places : ∃ start trace d, Places params p b t start trace d
  answer : first = BetsService.placedResult b params.dto.roundId (PointsLedgerService.toResult t false)
  stands : Stands params p b (replay base log)
  debit : t ∈ (replay base log).transactions

section Accepted

variable {base : Db} {params : PlaceBetParams} {first : PlaceBetResult} {log : List (Commit sql)}
variable {p : Placement} {b : Bet} {t : PointsTransaction}

theorem Accepted.later (h : Accepted base params first log p b t) {log' : List (Commit sql)}
    (hlog : Chronicle Effect base log') (hs : log <:+ log') :
    Accepted base params first log' p b t where
  places := h.places
  answer := h.answer
  stands := stands_suffix hlog hs h.stands
  debit := (grows_replay hs).transactions.subset h.debit

theorem Accepted.debitOf (h : Accepted base params first log p b t)
    (hlinked : BetsLinked (replay base log)) : (replay base log).debitOf b.id = some t := by
  obtain ⟨start, trace, d, hp⟩ := h.places
  exact hlinked.debitOf (List.mem_of_find?_eq_some h.stands.bet) h.debit hp.entry.fields.2.2.1
    hp.entry.fields.2.2.2.1

theorem Run.accepted {K : Policy sql} {s : State sql} (h : Run K base s) {i : ℕ} {q : Proc sql}
    (hq : s.procs i = some q) (hcall : q.call = .placeBet params)
    (hfirst : q.prog.Ends (.ok (.bet first))) (hfresh : first.replayed = false) :
    ∃ p b t, Accepted base params first s.world.log p b t := by
  obtain ⟨w, hrely, hdone⟩ := h.outcome hq hfirst
  rw [hcall] at hdone
  cases hdone with
  | betReplayed => cases hfresh
  | @placed _ p c b t hown hval hw =>
    have hmem : c ∈ own i s.world.log := by
      rw [hrely.own, hown]
      exact List.mem_singleton_self c
    obtain ⟨older, hs, -⟩ := h.effects.found (mem_own.mp hmem).1
    have hc : c.call = .placeBet params := (h.own_call hq hmem).trans hcall
    obtain ⟨params', p', t', hc', hw', hp⟩ := (h.effects.suffix hs).1.placed_of_mem
      (b := b) (by rw [hw]; exact List.mem_cons_self)
    obtain rfl : params = params' := by
      rw [hc] at hc'
      cases hc'
      rfl
    obtain rfl : p = p' := Except.ok.inj (hval.symm.trans hp.valid)
    have hpost : t = t' ∧ t.accountId = t'.accountId ∧ t.balanceAfterMinor = t'.balanceAfterMinor := by
      rw [hw] at hw'
      simpa [placed, post] using hw'
    obtain rfl := hpost.1
    have hnow : Accepted base params (BetsService.placedResult b params.dto.roundId
        (PointsLedgerService.toResult t false)) (c :: older) p b t := by
      refine ⟨⟨_, _, _, hp⟩, rfl, ⟨?_, ?_⟩, ?_⟩
      · rw [replay, hw]
        exact hp.betOf
      · rw [replay, hw]
        exact BetsLinked.itemsOf_new hp
      · rw [replay, hw]
        exact List.mem_append_right _ (List.mem_singleton_self t)
    exact ⟨p, b, t, hnow.later h.effects hs⟩

def BetsService.answerUnder (p : Placement) (b : Bet) (params' : PlaceBetParams)
    (ledgerRow : Option PointsTransaction) : Except Err Res :=
  match validate params' with
  | .error e => .error e
  | .ok p' =>
    if matchesReplay b (itemRows b.id p) params'.dto.roundId p' then
      .ok (.bet (replayResult b ledgerRow))
    else .error .betIdempotencyKeyReused

variable {params' : PlaceBetParams} {allowed : Call → Prop} {s₀ s : State sql} {j : ℕ}

theorem Accepted.key (h : Accepted base params first log p b t)
    (hk : params'.idempotencyKey = params.idempotencyKey) {p' : Placement}
    (hp' : BetsService.validate params' = .ok p') : p'.idempotencyKey = p.idempotencyKey := by
  obtain ⟨start, trace, d, hp⟩ := h.places
  have hkey := (BetsService.validate_ok hp').1
  rw [hk, (BetsService.validate_ok hp.valid).1] at hkey
  exact (Except.ok.inj hkey).symm

theorem Accepted.peek (h : Accepted base params first s.world.log p b t)
    (hdb : s.world.db = replay base s.world.log) (hu : params'.userId = params.userId)
    (hk : params'.idempotencyKey = params.idempotencyKey) :
    (body (.placeBet params')).peek ⟨s.world.db, s.world.clock⟩ = some
      (BetsService.answerUnder p b params' (Db.debitOf (replay base s.world.log) b.id)) := by
  rw [BetsService.answerUnder]
  cases hp' : BetsService.validate params' with
  | error e => exact BetsService.peek_invalid hp' _
  | ok p' =>
    have hbet : s.world.db.betOf params'.userId p'.idempotencyKey = some b := by
      rw [hu, h.key hk hp', hdb]
      exact h.stands.bet
    rw [BetsService.peek_placeBet hp' hbet]
    simp only [hdb, h.stands.items]

theorem Accepted.answer_later (h : Accepted base params first s₀.world.log p b t)
    (hrun : Run (Policy.calls allowed) base s₀) (hu : params'.userId = params.userId)
    (hk : params'.idempotencyKey = params.idempotencyKey)
    (hs : Reachable body (Policy.calls allowed).ok s₀ s) (hj : s₀.procs j = none)
    {q : Proc sql} (hq : s.procs j = some q) (hcall : q.call = .placeBet params')
    (hf : q.loc.faulted = false) {r : Except Err Res} (hr : q.prog.Ends r) :
    own j s.world.log = [] ∧ ∃ log, s₀.world.log <:+ log ∧ log <:+ s.world.log ∧
      r = BetsService.answerUnder p b params' (Db.debitOf (replay base log) b.id) := by
  have hrun' : Run _ base s := hrun.later hs
  have hseen {m : Mark sql} (hm : m ∈ q.loc.trace) : ∃ log, s₀.world.log <:+ log ∧
      log <:+ s.world.log ∧ m.db = replay base log ∧ Accepted base params first log p b t := by
    obtain ⟨log, hold, hnew, hdb⟩ := hrun.seen_later hs hj hq hm
    exact ⟨log, hold, hnew, hdb, h.later (hrun'.effects.suffix hnew) hold⟩
  have hfound {p' : Placement} (hp' : BetsService.validate params' = .ok p') {m : Mark sql}
      (hm : m ∈ q.loc.trace) : m.db.betOf params'.userId p'.idempotencyKey = some b := by
    obtain ⟨log, -, -, hdb, hacc⟩ := hseen hm
    rw [hdb, hu, h.key hk hp']
    exact hacc.stands.bet
  obtain ⟨w, hrely, hanswer⟩ := hrun'.answers hq hr
  rw [hcall] at hanswer
  obtain ⟨r', rfl, hanswer⟩ := hanswer
  simp only [BetsService.answerUnder]
  cases hanswer with
  | invalid hown he =>
    rw [he]
    exact ⟨hrely.own.trans hown, _, hs.log_suffix, List.suffix_refl _, rfl⟩
  | faulted _ hf' => cases hf.symm.trans hf'
  | @reused p' m b' hown hp' hm _ hb hmatch =>
    have hm : m ∈ q.loc.trace := hm ▸ List.mem_singleton_self m
    obtain rfl := Option.some.inj (hb.symm.trans (hfound hp' hm))
    obtain ⟨log, hold, hnew, hdb, hacc⟩ := hseen hm
    rw [hdb, hacc.stands.items] at hmatch
    refine ⟨hrely.own.trans hown, log, hold, hnew, ?_⟩
    simp only [hp', hmatch]
    rfl
  | @replayed p' m m' b' hown hp' hm _ _ hb hmatch =>
    have hm₁ : m ∈ q.loc.trace := hm ▸ by simp
    have hm₂ : m' ∈ q.loc.trace := hm ▸ by simp
    obtain rfl := Option.some.inj (hb.symm.trans (hfound hp' hm₁))
    obtain ⟨log, -, -, hdb, hacc⟩ := hseen hm₁
    obtain ⟨log', hold', hnew', hdb', -⟩ := hseen hm₂
    rw [hdb, hacc.stands.items] at hmatch
    refine ⟨hrely.own.trans hown, log', hold', hnew', ?_⟩
    simp only [hp', hmatch, ← hdb']
    rfl
  | tried hp' hm _ hb _ =>
    rw [hfound hp' (hm.subset (List.mem_singleton_self _))] at hb
    cases hb

theorem Accepted.settles (h : Accepted base params first s₀.world.log p b t)
    (hrun : Run (Policy.calls allowed) base s₀) (hallowed : allowed (.placeBet params'))
    (hu : params'.userId = params.userId) (hk : params'.idempotencyKey = params.idempotencyKey)
    (hs : Reachable body (Policy.calls allowed).ok s₀ s) (hj : s₀.procs j = none)
    {P : Except Err Res → Prop} {C : Prop}
    (hP : ∀ log, s₀.world.log <:+ log → log <:+ s.world.log →
      (P (BetsService.answerUnder p b params' (Db.debitOf (replay base log) b.id)) ↔ C)) :
    (∀ q r, s.procs j = some q → q.call = .placeBet params' → q.loc.faulted = false →
      q.prog.Ends r → (own j s.world.log = [] ∧ P r ↔ C)) ∧
    (s.procs j = none → ∃ s' q r, Reachable body (Policy.calls allowed).ok s s' ∧
      s'.world = s.world ∧ s'.procs j = some q ∧ q.call = .placeBet params' ∧ q.prog.Ends r ∧
      (P r ↔ C)) := by
  constructor
  · intro q r hq hqcall hf hr
    obtain ⟨hown, log, hold, hnew, rfl⟩ := h.answer_later hrun hu hk hs hj hq hqcall hf hr
    rw [hP log hold hnew]
    exact and_iff_right hown
  · intro hnone
    have hrun' : Run (Policy.calls allowed) base s := hrun.later hs
    have hlater := h.later hrun'.effects hs.log_suffix
    have hspawn : (Policy.calls allowed).ok s (.spawn j (.placeBet params')) := hallowed
    obtain ⟨s', q, hreach, hworld, hq, hqcall, hr, -⟩ := peek_ends hnone hspawn
      (fun s => Policy.calls_run _ s j) (hlater.peek hrun'.obeys.db_eq hu hk)
    exact ⟨s', q, _, hreach, hworld, hq, hqcall, hr, hP _ hs.log_suffix (List.suffix_refl _)⟩

end Accepted

structure RepeatOf (first res : PlaceBetResult) : Prop where
  replayed : res.replayed = true
  betId : res.betId = first.betId
  totalAmountMinor : res.totalAmountMinor = first.totalAmountMinor
  balanceMinor : res.balanceMinor = first.balanceMinor
  acceptedAt : res.acceptedAt = first.acceptedAt

def Repeats (first : PlaceBetResult) (r : Except Err Res) : Prop :=
  ∃ res, r = .ok (.bet res) ∧ RepeatOf first res

/-- The round id is written as the database prints it. -/
def Canonical (roundId : String) : Prop := (Uuid.parse roundId).map Uuid.text = some roundId

section Retry

variable {base : Db} {params : PlaceBetParams} {first : PlaceBetResult} {log : List (Commit sql)}
variable {p : Placement} {b : Bet} {t : PointsTransaction}

theorem Accepted.repeats_iff (h : Accepted base params first log p b t)
    (hlinked : BetsLinked (replay base log)) :
    Repeats first (BetsService.answerUnder p b params (Db.debitOf (replay base log) b.id)) ↔
      Canonical params.dto.roundId := by
  obtain ⟨start, trace, d, hp⟩ := h.places
  have hmatch := BetsService.matchesReplay_iff hp hp.valid
  have hcanonical : Canonical params.dto.roundId ↔ b.roundId.text = params.dto.roundId := by
    simp [Canonical, hp.roundId]
  rw [BetsService.answerUnder, hcanonical]
  simp only [hp.valid]
  constructor
  · rintro ⟨res, hres, -⟩
    split at hres
    · rename_i hm
      exact (hmatch.mp hm).1
    · cases hres
  · intro htext
    rw [if_pos (hmatch.mpr ⟨htext, fun _ _ => rfl⟩)]
    refine ⟨_, rfl, ?_⟩
    rw [h.answer, h.debitOf hlinked]
    exact ⟨rfl, rfl, rfl, rfl, rfl⟩

/-- A request that is sent again after its bet was placed is answered with that bet exactly when its
round id is in canonical form. -/
theorem retry_repeats_iff {s₀ s : State sql} (h : Run (Policy.calls noBetReference) base s₀)
    (h₀ : BetsLinked base) {i j : ℕ} {q₀ : Proc sql} (hq₀ : s₀.procs i = some q₀)
    (hcall : q₀.call = .placeBet params) (hfirst : q₀.prog.Ends (.ok (.bet first)))
    (hfresh : first.replayed = false) (hs : Reachable body (Policy.calls noBetReference).ok s₀ s)
    (hj : s₀.procs j = none) :
    (∀ q r, s.procs j = some q → q.call = .placeBet params → q.loc.faulted = false → q.prog.Ends r →
      (own j s.world.log = [] ∧ Repeats first r ↔ Canonical params.dto.roundId)) ∧
    (s.procs j = none → ∃ s' q r, Reachable body (Policy.calls noBetReference).ok s s' ∧
      s'.world = s.world ∧ s'.procs j = some q ∧ q.call = .placeBet params ∧ q.prog.Ends r ∧
      (Repeats first r ↔ Canonical params.dto.roundId)) := by
  obtain ⟨p, b, t, hacc⟩ := h.accepted hq₀ hcall hfirst hfresh
  apply hacc.settles h trivial rfl rfl hs hj
  intro log hold hnew
  have hrun : Run (Policy.calls noBetReference) base s := h.later hs
  exact (hacc.later (hrun.effects.suffix hnew) hold).repeats_iff
    (betsLinked_replay (hrun.chronicle.suffix hnew) h₀)

end Retry

def answered (s : State sql) (i : ℕ) (c : Call) (r : Except Err Res) : Bool :=
  (s.procs i).any fun q => q.call = c ∧ q.loc.faulted = false ∧ q.prog.result = some r

theorem proc_of_answered {s : State sql} {i : ℕ} {c : Call} {r : Except Err Res}
    (h : answered s i c r = true) :
    ∃ q, s.procs i = some q ∧ q.call = c ∧ q.loc.faulted = false ∧ q.prog.Ends r := by
  simp only [answered, Option.any_eq_true, decide_eq_true_eq] at h
  exact h

section Answered

variable {K : Policy sql} [DecidablePred K.spawn] [∀ c, DecidablePred (K.stmt c)]
variable [∀ c d, DecidablePred (K.commit c d)] [DecidablePred K.fault]
variable {d : Db} {used : List Uuid} {ls ls' : List (Label sql)} {c₀ c : Call} {r₀ r : Except Err Res}

theorem answered_first (hrun : (K.steps body (initial d used) ls).map
      (fun s => (answered s 0 c₀ r₀, (s.procs 1).isNone)) = some (true, true)) :
    ∃ s₀ q₀, K.steps body (initial d used) ls = some s₀ ∧ s₀.procs 1 = none ∧
      s₀.procs 0 = some q₀ ∧ q₀.call = c₀ ∧ q₀.prog.Ends r₀ := by
  obtain ⟨s₀, hs, hres⟩ := Option.map_eq_some_iff.mp hrun
  obtain ⟨hfirst, hnone⟩ := Prod.mk.inj hres
  obtain ⟨q₀, hq₀, hcall, -, hends⟩ := proc_of_answered hfirst
  exact ⟨s₀, q₀, hs, Option.isNone_iff_eq_none.mp hnone, hq₀, hcall, hends⟩

theorem answered_second (hrun : (K.steps body (initial d used) ls).bind (fun s₀ =>
      (K.steps body s₀ ls').map fun s => (answered s₀ 0 c₀ r₀, (s₀.procs 1).isNone,
        answered s 1 c r)) = some (true, true, true)) :
    ∃ s₀ s q₀ q, K.steps body (initial d used) ls = some s₀ ∧ Reachable body K.ok s₀ s ∧
      s₀.procs 1 = none ∧ s₀.procs 0 = some q₀ ∧ q₀.call = c₀ ∧ q₀.prog.Ends r₀ ∧
      s.procs 1 = some q ∧ q.call = c ∧ q.loc.faulted = false ∧ q.prog.Ends r := by
  obtain ⟨s₀, hs₀, hrest⟩ := Option.bind_eq_some_iff.mp hrun
  obtain ⟨s, hs, hres⟩ := Option.map_eq_some_iff.mp hrest
  obtain ⟨hfirst, hres⟩ := Prod.mk.inj hres
  obtain ⟨hnone, hsecond⟩ := Prod.mk.inj hres
  obtain ⟨q₀, hq₀, hcall₀, -, hends₀⟩ := proc_of_answered hfirst
  obtain ⟨q, hq, hcall, hfault, hends⟩ := proc_of_answered hsecond
  exact ⟨s₀, s, q₀, q, hs₀, Policy.reachable_steps _ .refl hs, Option.isNone_iff_eq_none.mp hnone,
    hq₀, hcall₀, hends₀, hq, hcall, hfault, hends⟩

end Answered

def placedFirst : PlaceBetResult := ⟨.ofNat 20, roundId.text, 550, 450, .accepted, 5, false⟩

theorem retry_after_placement :
    ∃ s₀, (Policy.calls noBetReference).steps body (initial bettingDb [roundId])
        (placementRun 0 20 21) = some s₀ ∧ s₀.procs 1 = none ∧
      (∀ q r, s₀.procs 1 = some q → q.call = .placeBet betParams → q.loc.faulted = false →
        q.prog.Ends r → (own 1 s₀.world.log = [] ∧ Repeats placedFirst r ↔
          Canonical betParams.dto.roundId)) ∧
      (s₀.procs 1 = none → ∃ s' q r, Reachable body (Policy.calls noBetReference).ok s₀ s' ∧
        s'.world = s₀.world ∧ s'.procs 1 = some q ∧ q.call = .placeBet betParams ∧ q.prog.Ends r ∧
        (Repeats placedFirst r ↔ Canonical betParams.dto.roundId)) := by
  have hrun : ((Policy.calls noBetReference).steps body (initial bettingDb [roundId])
      (placementRun 0 20 21)).map (fun s =>
        (answered s 0 (.placeBet betParams) (.ok (.bet placedFirst)), (s.procs 1).isNone)) =
      some (true, true) := by decide
  obtain ⟨s₀, q₀, hs, hj, hq₀, hcall, hends⟩ := answered_first hrun
  exact ⟨s₀, hs, hj, retry_repeats_iff (.steps known_bettingDb hs) betsLinked_bettingDb hq₀ hcall
    hends rfl .refl hj⟩

def hexRoundId : Uuid := .ofNat 0x0000000A000040008000000000000009

def hexDb : Db := { bettingDb with
  rounds := [⟨hexRoundId, .tripleChanceTimer, 1, "TC1", .bettingOpen, 1, 0, 100, none⟩] }

def upperCaseParams : PlaceBetParams :=
  { betParams with
    dto := { betParams.dto with roundId := "0000000A-0000-4000-8000-000000000009" } }

def upperCaseFirst : PlaceBetResult :=
  ⟨.ofNat 20, upperCaseParams.dto.roundId, 550, 450, .accepted, 5, false⟩

def upperCaseRun : List (Label sql) :=
  [.spawn 0 (.placeBet upperCaseParams), .run 0, .run 0, .run 0] ++ restOfPlacement 0 20 21

def upperCaseRetry : List (Label sql) := [.spawn 1 (.placeBet upperCaseParams), .run 1]

theorem known_hexDb : ∀ x, hexDb.Known x → x ∈ [hexRoundId] := by
  intro x hx
  cases hx with
  | round h => simp_all [hexDb]
  | _ h => simp [hexDb, bettingDb] at h

theorem upper_case_retry_is_refused :
    ∃ s₀ s q₀ q, Run (Policy.calls noBetReference) hexDb s₀ ∧ BetsLinked hexDb ∧
      s₀.procs 0 = some q₀ ∧ q₀.call = .placeBet upperCaseParams ∧
      q₀.prog.Ends (.ok (.bet upperCaseFirst)) ∧ upperCaseFirst.replayed = false ∧
      Reachable body (Policy.calls noBetReference).ok s₀ s ∧ s₀.procs 1 = none ∧
      s.procs 1 = some q ∧ q.call = .placeBet upperCaseParams ∧ q.loc.faulted = false ∧
      q.prog.Ends (.error .betIdempotencyKeyReused) ∧
      ¬ Repeats upperCaseFirst (.error .betIdempotencyKeyReused) := by
  have hrun : ((Policy.calls noBetReference).steps body (initial hexDb [hexRoundId])
      upperCaseRun).bind (fun s₀ =>
        ((Policy.calls noBetReference).steps body s₀ upperCaseRetry).map fun s =>
          (answered s₀ 0 (.placeBet upperCaseParams) (.ok (.bet upperCaseFirst)),
            (s₀.procs 1).isNone,
            answered s 1 (.placeBet upperCaseParams) (.error .betIdempotencyKeyReused))) =
      some (true, true, true) := by decide
  obtain ⟨s₀, s, q₀, q, hs₀, hs, hj, hq₀, hcall₀, hends₀, hq, hcall, hfault, hends⟩ :=
    answered_second hrun
  refine ⟨s₀, s, q₀, q, .steps known_hexDb hs₀, ?_, hq₀, hcall₀, hends₀, rfl, hs, hj, hq, hcall,
    hfault, hends, ?_⟩
  · constructor <;> simp [hexDb, bettingDb]
  · rintro ⟨res, hres, -⟩
    cases hres

end JitoGame
