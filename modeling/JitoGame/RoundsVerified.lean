import JitoGame.Contract
import JitoGame.Rules

namespace JitoGame.RoundsService

open Transactions

section Rules

variable {C R : Type} {base : Db} {spec : Commit (schema C R) → Db → Prop} {i : ℕ} {c : C}
variable {s : Local (schema C R)} {w : World (schema C R)} {start : ℕ}
variable {E : Err → Local (schema C R) → World (schema C R) → Prop}

theorem wp_update {tag : Tag} {roundId : Uuid} {guard : ℕ → GameRound → Bool} {x : ℕ → Write}
    {Q : Bool → Local (schema C R) → World (schema C R) → Prop} (h : s.tx = none)
    (hfoot : ∀ now, footprint (x now) = [Resource.row (S := schema C R) (.round roundId)])
    (hspec : ∀ com d, com.call = c → Updates roundId guard x com d → spec com d)
    (hE : ∀ e s' w', Along (discipline base spec) i s w s' w' → E e s' w')
    (hQ : ∀ (hit : Bool) (com : Commit (schema C R)) (s' : Local (schema C R)) (w' : World (schema C R)),
      own i w'.log = own i w.log → com.proc = i → (hit = true ↔ com.writes ≠ []) →
      Q hit s' (w'.push com)) :
    wp (discipline base spec) i c (update tag roundId guard x) Q E s w := by
  rw [update]
  refine wp_transaction_out h (fun s₁ w₁ hin₁ hal₁ => ?_) fun s' w' _ _ hal => hE _ s' w' hal
  rw [wp_bind]
  refine hin₁.wp_exec (fun w' hal => ?_) (fun w' _ y hy r hr => ?_) fun s₂ w₂ v hv hin₂ hal₂ _ => ?_
  · exact fun w₂ hr => hE _ _ w₂ (((hal₁.trans hal).rely' hr).ended h)
  · split at hy
    · rename_i hhit
      obtain rfl : y = x w₁.clock := by simpa using hy
      have hr' : r = .row (.round roundId) := by simpa [discipline, hfoot] using hr
      simp [hr', hhit]
    · cases hy
  rw [wp_pure]
  cases hhit : hits roundId guard v with
  | true =>
    simp only [hhit, if_true] at hin₂
    obtain ⟨r, hr, hg⟩ : ∃ r, w₂.db.roundOf roundId = some r ∧ guard w₁.clock r = true := by
      subst hv
      exact (Option.any_eq_true _ _).mp hhit
    refine ⟨_, _, hin₂, hal₁.trans hal₂, fun w₃ hrel => ⟨hspec _ _ rfl ?_, fun hown => ?_⟩⟩
    · have hround := hrel.agree (.row (.round roundId)) (hin₂.held _ (by simp))
      exact .inr ⟨by subst hv; rfl, r, hround.1 r hr, hg⟩
    · exact hQ true _ _ w₃ hown rfl (by simp)
  | false =>
    simp only [hhit] at hin₂
    refine ⟨_, _, hin₂, hal₁.trans hal₂, fun w₃ hrel => ⟨hspec _ _ rfl (.inl rfl), fun hown => ?_⟩⟩
    exact hQ false _ _ w₃ hown rfl (by simp)

theorem codeTaken_iff {row : GameRound} {d : Db} :
    codeTaken row d = true ↔ d.HasCode row.displayCode := by
  simp [codeTaken, Db.HasCode]

theorem numberTaken_iff {row : GameRound} {d : Db} :
    numberTaken row d = true ↔ d.HasNumber row.gameId row.roundNumber := by
  simp [numberTaken, Db.HasNumber]

theorem liveTaken_iff {row : GameRound} {d : Db} :
    liveTaken row d = true ↔ d.HasLive row.gameId := by
  simp [liveTaken, Db.HasLive]

def Taken (row : GameRound) (d : Db) : Prop :=
  d.HasCode row.displayCode ∨ d.HasNumber row.gameId row.roundNumber ∨ d.HasLive row.gameId

theorem wp_createRound {row : GameRound} {held : List (Resource (schema C R))}
    {Q : Unit → Local (schema C R) → World (schema C R) → Prop} (hw : w.Ok (discipline base spec))
    (h : s.In start [] held) (hid : .id row.id ∈ held)
    (hE : ∀ e s' w', Along (discipline base spec) i s w s' w' →
      (e = .uniqueViolation → Taken row w'.db) → E e s' w')
    (hQ : ∀ held' s' w', s'.In start [.insertRound row] held' →
      Along (discipline base spec) i s w s' w' → row.fits = true →
      (∀ w'', Rely (discipline base spec) i s' w' w'' → ¬ w''.db.HasCode row.displayCode ∧
        ¬ w''.db.HasNumber row.gameId row.roundNumber ∧ ¬ w''.db.HasLive row.gameId) → Q () s' w') :
    wp (discipline base spec) i c (createRound row) Q E s w := by
  rw [createRound, wp_bind, wp_require]
  refine ⟨fun hfit => ?_, fun _ => hE _ s w (.refl hw) (by simp)⟩
  rw [wp_bind]
  refine wp_insert h (fun w' hal => hE _ _ w' hal (by simp)) (fun _ hx => by cases hx)
    (fun s' w' _ hal ht => hE _ s' w' hal fun _ => .inl (codeTaken_iff.mp ht))
    fun s₁ w₁ hin₁ hal₁ hcode => ?_
  rw [wp_bind]
  refine wp_insert hin₁ (fun w' hal => hE _ _ w' (hal₁.trans hal) (by simp)) (fun _ hx => by cases hx)
    (fun s' w' _ hal ht => hE _ s' w' (hal₁.trans hal) fun _ => .inr (.inl (numberTaken_iff.mp ht)))
    fun s₂ w₂ hin₂ hal₂ hnumber => ?_
  have hal₂' := hal₁.trans hal₂
  refine wp_insert hin₂ (fun w' hal => hE _ _ w' (hal₂'.trans hal) (by simp)) ?_
    (fun s' w' _ hal ht => hE _ s' w' (hal₂'.trans hal) fun _ => .inr (.inr (liveTaken_iff.mp ht)))
    fun s₃ w₃ hin₃ hal₃ hlive => ?_
  · intro x hx r hr
    obtain rfl : x = .insertRound row := by simpa using hx
    have hr' : r = .row (.displayCode row.displayCode) ∨
        r = .row (.roundNumber row.gameId row.roundNumber) ∨ r = .row (.liveRound row.gameId) ∨
        r = .id row.id := by simpa [discipline, footprint] using hr
    rcases hr' with rfl | rfl | rfl | rfl <;> simp [hid]
  refine hQ _ s₃ w₃ hin₃ (hal₂'.trans hal₃) hfit
    fun w₄ hr => ⟨fun hc => ?_, fun hn => ?_, fun hl => ?_⟩
  · have hagree := ((hal₂.trans hal₃).rely' hr).rely.agree (.row (.displayCode row.displayCode))
      (hin₁.held _ (by simp))
    exact Bool.eq_false_iff.mp hcode (codeTaken_iff.mpr (hagree hc))
  · have hagree := (hal₃.rely' hr).rely.agree (.row (.roundNumber row.gameId row.roundNumber))
      (hin₂.held _ (by simp))
    exact Bool.eq_false_iff.mp hnumber (numberTaken_iff.mpr (hagree hn))
  · have hagree := hr.agree (.row (.liveRound row.gameId)) (hin₃.held _ (by simp))
    exact Bool.eq_false_iff.mp hlive (liveTaken_iff.mpr (hagree hl))

theorem hasNumber_applyAll {d : Db} {gameId : GameId} {n : ℤ} (h : d.HasNumber gameId n)
    (ws : List Write) : Db.HasNumber (applyAll (S := schema C R) ws d) gameId n := by
  induction ws generalizing d with
  | nil => exact h
  | cons x ws ih =>
    obtain ⟨r, hr, hg, hn⟩ := h
    have hmem : x.touch r ∈ (x.apply d).rounds := by
      rw [rounds_apply]
      exact List.mem_append_left _ (List.mem_map_of_mem hr)
    exact ih ⟨x.touch r, hmem, (x.same_touch r).gameId.trans hg, (x.same_touch r).roundNumber.trans hn⟩

theorem hasNumber_replay {log log' : List (Commit (schema C R))} (hs : log <:+ log')
    {gameId : GameId} {n : ℤ} (h : Db.HasNumber (replay base log) gameId n) :
    Db.HasNumber (replay base log') gameId n := by
  obtain ⟨front, rfl⟩ := hs
  induction front with
  | nil => exact h
  | cons c front ih => exact hasNumber_applyAll ih c.writes

def Follows (gameId : GameId) (n : ℤ) (d : Db) : Prop :=
  ∃ d₁ : Db, (∀ k, d₁.HasNumber gameId k → d.HasNumber gameId k) ∧
    n = (maxRoundNumber d₁ gameId).getD 0 + 1

theorem wp_tryCreateRound {windowMs : ℕ} {gameId : GameId}
    {Q : Option GameRound → Local (schema C R) → World (schema C R) → Prop} (h : s.tx = none)
    (hspec : ∀ com d row, com.call = c → com.writes = [.insertRound row] →
      Creates windowMs gameId row d → Follows gameId row.roundNumber d → spec com d)
    (hE : ∀ e s' w', Along (discipline base spec) i s w s' w' → E e s' w')
    (hnone : ∀ id opensAt log₁ log₂ s' w', w.log <:+ log₁ → log₁ <:+ log₂ → log₂ <:+ w'.log →
      Taken (roundRow id gameId ((maxRoundNumber (replay base log₁) gameId).getD 0 + 1) opensAt
        windowMs) (replay base log₂) →
      Along (discipline base spec) i s w s' w' → Q none s' w')
    (hsome : ∀ row (com : Commit (schema C R)) (s' : Local (schema C R)) (w' : World (schema C R)),
      own i w'.log = own i w.log → com.proc = i → Q (some row) s' (w'.push com)) :
    wp (discipline base spec) i c (tryCreateRound windowMs gameId) Q E s w := by
  rw [tryCreateRound, wp_bind, nextRoundNumber, wp_bind]
  apply wp_select_out h (fun w' hal => hE _ _ w' hal)
  intro s₁ w₁ htx₁ hal₁
  have hdb₁ : w₁.db = replay base w₁.log := hal₁.rely.ok.db_eq
  rw [wp_pure, wp_bind]
  apply wp_outside_along
  intro opensAt w₂ hal₂
  rw [wp_tryCatch, wp_bind]
  apply wp_fresh_known
  intro id w₃ hnew hal₃
  have hal₂₃ := hal₂.trans hal₃
  have hal₃' := hal₁.trans hal₂₃
  rw [wp_bind]
  have htx₃ : (s₁.mint id).tx = none := htx₁
  have hcaught {e : Err} {s' : Local (schema C R)} {w' : World (schema C R)}
      (hal : Along (discipline base spec) i s w s' w')
      (ht : e = .uniqueViolation → ∃ log₂, w₁.log <:+ log₂ ∧ log₂ <:+ w'.log ∧
        Taken (roundRow id gameId ((maxRoundNumber w₁.db gameId).getD 0 + 1) opensAt windowMs)
          (replay base log₂)) :
      wp (discipline base spec) i c (if e = Err.uniqueViolation then pure none else throw e) Q E
        s' w' := by
    split
    · rename_i he
      obtain ⟨log₂, hs₁, hs₂, htaken⟩ := ht he
      exact hnone id opensAt w₁.log log₂ s' w' hal₁.rely.log hs₁ hs₂ (hdb₁ ▸ htaken) hal
    · exact hE e s' w' hal
  refine wp_transaction_out htx₃ (fun s₄ w₄ hin₄ hal₄ => ?_) fun s' w' _ _ hal => ?_
  swap
  · exact hcaught (hal₃'.trans hal) (by simp)
  have hid₄ : s₄.In w₄.clock [] [.id id] := ⟨hin₄.tx, fun r hr => by
    obtain rfl : r = .id id := by simpa using hr
    exact hal₄.holds _ List.mem_cons_self⟩
  apply wp_createRound hal₄.rely.ok hid₄ (by simp [roundRow])
  · intro e s' w' hal ht w'' hr
    have hal' := hal₄.trans hal
    refine hcaught (hal₃'.trans ((hal'.rely' hr).ended htx₁)) fun he => ⟨w'.log, ?_, hr.log, ?_⟩
    · exact (hal₂₃.trans hal').rely.log
    · exact hal.rely.ok.db_eq ▸ ht he
  · intro held s' w' hin' hal hfit hfree
    refine ⟨_, _, hin', hal₄.trans hal, fun w'' hr => ⟨hspec _ _ _ rfl rfl ?_ ?_, fun hown => ?_⟩⟩
    · have hagree := ((hal₄.trans hal).rely' hr).rely.agree (.id id) List.mem_cons_self
      obtain ⟨hcode, hnumber, hlive⟩ := hfree w'' hr
      exact ⟨rfl, hfit, fun hk => hnew (hagree hk), hcode, hnumber, hlive⟩
    · have hlog : w₁.log <:+ w''.log := (hal₂₃.trans ((hal₄.trans hal).rely' hr)).rely.log
      refine ⟨w₁.db, fun k hk => ?_, rfl⟩
      have hdb : w''.db = replay base w''.log := hr.ok.db_eq
      rw [hdb]
      exact hasNumber_replay hlog (hdb₁ ▸ hk)
    · exact hsome _ _ _ w'' (hown.trans hal₃'.own) rfl

end Rules

variable {base : Db} {i : ℕ} {w : World sql}

theorem openRound_verified {allowed : Call → Prop} {roundId : Uuid}
    (hall : allowed (.openRound roundId)) (hown : own i w.log = []) :
    Safe (protocol base allowed) (done base) i
      ⟨.openRound roundId, body (.openRound roundId), .idle⟩ w := by
  change wp _ _ _ (openRound roundId >>= _) _ _ _ _
  rw [wp_bind]
  refine wp_update rfl (fun _ => rfl) (fun com d hcall hup => ?_)
    (fun e s' w' hal => .failed (hal.own.trans hown) trivial) fun hit com s' w' hown' hproc hhit => ?_
  · rw [Meets, hcall]
    exact ⟨hall, hup⟩
  · exact .opened (own_push hproc (hown'.trans hown)) hhit

theorem lockIfDeadlinePassed_verified {allowed : Call → Prop} {roundId : Uuid}
    (hall : allowed (.lockIfDeadlinePassed roundId)) (hown : own i w.log = []) :
    Safe (protocol base allowed) (done base) i
      ⟨.lockIfDeadlinePassed roundId, body (.lockIfDeadlinePassed roundId), .idle⟩ w := by
  change wp _ _ _ (lockIfDeadlinePassed roundId >>= _) _ _ _ _
  rw [wp_bind]
  refine wp_update rfl (fun _ => rfl) (fun com d hcall hup => ?_)
    (fun e s' w' hal => .failed (hal.own.trans hown) trivial) fun hit com s' w' hown' hproc hhit => ?_
  · rw [Meets, hcall]
    exact ⟨hall, hup⟩
  · exact .locked (own_push hproc (hown'.trans hown)) hhit

theorem reconcile_verified {allowed : Call → Prop} {windowMs : ℕ} {gameId : GameId}
    (hall : allowed (.reconcile windowMs gameId)) (hown : own i w.log = []) :
    Safe (protocol base allowed) (done base) i
      ⟨.reconcile windowMs gameId, body (.reconcile windowMs gameId), .idle⟩ w := by
  have hfail {e : Err} {s' : Local sql} {w' : World sql}
      (hal : Along (protocol base allowed) i .idle w s' w') :
      Done base i s' w' (.reconcile windowMs gameId) (.error e) := .failed (hal.own.trans hown) trivial
  have hquiet {s' : Local sql} {w' : World sql} (hal : Along (protocol base allowed) i .idle w s' w') :
      Done base i s' w' (.reconcile windowMs gameId) (.ok .reconciled) :=
    .reconciled (by rw [hal.own, hown]; exact Nat.zero_le _)
  have hcommit {com : Commit sql} {s' : Local sql} {w' : World sql} (h : own i w'.log = [])
      (hproc : com.proc = i) :
      Done base i s' (w'.push com) (.reconcile windowMs gameId) (.ok .reconciled) :=
    .reconciled (by rw [own_push hproc h]; exact Nat.le_refl _)
  change wp _ _ _ (reconcile windowMs gameId >>= _) _ _ _ _
  rw [wp_bind, reconcile, wp_bind, findLiveRound, wp_bind]
  apply wp_select_out rfl (fun w' hal => hfail hal)
  intro s₁ w₁ htx₁ hal₁
  rw [wp_pure]
  cases hround : liveRound w₁.db gameId with
  | none =>
    change wp _ _ _ (tryCreateRound windowMs gameId >>= _) _ _ _ _
    rw [wp_bind]
    refine wp_tryCreateRound htx₁ (fun com d row hcall hwr hc _ => ?_)
      (fun e s' w' hal => hfail (hal₁.trans hal))
      (fun _ _ _ _ s' w' _ _ _ _ hal => hquiet (hal₁.trans hal))
      fun row com s' w' hown' hproc => hcommit (hown'.trans (hal₁.own.trans hown)) hproc
    rw [Meets, hcall]
    exact ⟨hall, .inl ⟨row, hwr, hc⟩⟩
  | some round =>
    dsimp only
    have hupdate {tag : Tag} {guard : ℕ → GameRound → Bool} {x : ℕ → Write}
        (hfoot : ∀ now, footprint (x now) = [Resource.row (S := sql) (.round round.id)])
        (hmove : ∀ (com : Commit sql) d, Updates round.id guard x com d →
          Opens round.id com d ∨ Locks round.id com d) :
        wp (protocol base allowed) i (.reconcile windowMs gameId) (update tag round.id guard x)
          (fun _ s' w' => Done base i s' w' (.reconcile windowMs gameId) (.ok .reconciled))
          (fun e s' w' => Done base i s' w' (.reconcile windowMs gameId) (.error e)) s₁ w₁ := by
      refine wp_update htx₁ hfoot (fun com d hcall hup => ?_) (fun e s' w' hal => hfail (hal₁.trans hal))
        fun hit com s' w' hown' hproc _ => hcommit (hown'.trans (hal₁.own.trans hown)) hproc
      rw [Meets, hcall]
      exact ⟨hall, .inr ⟨_, hmove com d hup⟩⟩
    split
    · rw [wp_bind]
      exact hupdate (fun _ => rfl) fun _ _ hup => .inl hup
    split
    · rw [wp_bind]
      exact hupdate (fun _ => rfl) fun _ _ hup => .inr hup
    · exact hquiet hal₁

end JitoGame.RoundsService
