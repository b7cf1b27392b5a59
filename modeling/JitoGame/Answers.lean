import JitoGame.Verified

namespace JitoGame

open Transactions

/-! What a call answers, by what its look at the key found. -/

inductive BetsService.Answer (params : PlaceBetParams) (i : ℕ) (s : Local sql) (w : World sql) :
    Except Err PlaceBetResult → Prop
  | invalid {e : Err} (h : own i w.log = []) (he : validate params = .error e) :
      Answer params i s w (.error e)
  | faulted (h : own i w.log = []) (hf : s.faulted = true) : Answer params i s w (.error .fault)
  | reused {p : Placement} {m : Mark sql} {b : Bet} (h : own i w.log = [])
      (hp : validate params = .ok p) (hm : s.trace = [m]) (ht : m.tag = .findBet)
      (hb : m.db.betOf params.userId p.idempotencyKey = some b)
      (hr : matchesReplay b (m.db.itemsOf b.id) params.dto.roundId p = false) :
      Answer params i s w (.error .betIdempotencyKeyReused)
  | replayed {p : Placement} {m m' : Mark sql} {b : Bet} (h : own i w.log = [])
      (hp : validate params = .ok p) (hm : s.trace = [m', m]) (ht : m.tag = .findBet)
      (ht' : m'.tag = .findBetDebit) (hb : m.db.betOf params.userId p.idempotencyKey = some b)
      (hr : matchesReplay b (m.db.itemsOf b.id) params.dto.roundId p = true) :
      Answer params i s w (.ok (replayResult b (m'.db.debitOf b.id)))
  | tried {p : Placement} {m : Mark sql} {r : Except Err PlaceBetResult}
      (hp : validate params = .ok p) (hm : [m] <:+ s.trace) (ht : m.tag = .findBet)
      (hb : m.db.betOf params.userId p.idempotencyKey = none)
      (hl : r = .error .deadlinePassed → Late params s.trace) : Answer params i s w r

inductive AdminPointsService.Answer (base : Db) (params : AdjustPointsParams) (i : ℕ) (s : Local sql)
    (w : World sql) : Except Err AdjustPointsResult → Prop
  | refused {e : Err} (h : own i w.log = []) (he : requireKey params.idempotencyKey = .error e) :
      Answer base params i s w (.error e)
  | faulted (h : own i w.log = []) (hf : s.faulted = true) : Answer base params i s w (.error .fault)
  | absent (h : own i w.log = []) (hu : params.targetUserId ∉ w.db.users) :
      Answer base params i s w (.error .notFound)
  | reused {key : String} {t : PointsTransaction} (h : own i w.log = [])
      (hk : requireKey params.idempotencyKey = .ok key) (ht : w.db.transactionOf key = some t)
      (hdb : w.db = replay base w.log) (hm : matchesIn w.db t params = false) :
      Answer base params i s w (.error .adjustmentIdempotencyKeyReused)
  | replayed {key : String} {t : PointsTransaction} (h : own i w.log = [])
      (hk : requireKey params.idempotencyKey = .ok key) (ht : w.db.transactionOf key = some t)
      (hdb : w.db = replay base w.log) (hm : matchesIn w.db t params = true) :
      Answer base params i s w (.ok (replayResult t))
  | tried {key : String} {m : Mark sql} {r : Except Err AdjustPointsResult}
      (hk : requireKey params.idempotencyKey = .ok key) (hm : m ∈ s.trace)
      (ht : m.db.transactionOf key = none) : Answer base params i s w r

def answers (base : Db) : Outcome sql := fun i call r s w =>
  match call with
  | .placeBet params => ∃ r', r = r'.map .bet ∧ BetsService.Answer params i s w r'
  | .adjust params => ∃ r', r = r'.map .adjustment ∧ AdminPointsService.Answer base params i s w r'
  | _ => True

theorem foldlM_error {ε α β : Type} {f : β → α → Except ε β} {l : List α} {b : β} {e : ε}
    (h : l.foldlM f b = .error e) : ∃ b x, f b x = .error e := by
  induction l generalizing b with
  | nil => cases h
  | cons x l ih =>
    rw [List.foldlM_cons] at h
    cases hx : f b x with
    | error e' =>
      rw [hx] at h
      cases h
      exact ⟨b, x, hx⟩
    | ok b' =>
      rw [hx] at h
      exact ih h

theorem forM_error {ε α : Type} {f : α → Except ε PUnit} {l : List α} {e : ε}
    (h : l.forM f = .error e) : ∃ x, f x = .error e := by
  induction l with
  | nil => cases h
  | cons x l ih =>
    change (f x >>= fun _ => l.forM f) = _ at h
    cases hx : f x with
    | error e' =>
      rw [hx] at h
      cases h
      exact ⟨x, hx⟩
    | ok _ =>
      rw [hx] at h
      exact ih h

theorem bind_error {ε α β : Type} {x : Except ε α} {f : α → Except ε β} {e : ε}
    (h : x >>= f = .error e) : x = .error e ∨ ∃ a, x = .ok a ∧ f a = .error e := by
  cases x with
  | error e' => cases h; exact .inl rfl
  | ok a => exact .inr ⟨a, rfl, h⟩

theorem BetsService.validate_status {params : PlaceBetParams} {e : Err}
    (h : validate params = .error e) : e.status = some 400 := by
  rcases bind_error h with h | ⟨key, -, h⟩
  · simp only [validateKey] at h
    split at h
    · cases h; rfl
    · split at h
      · cases h; rfl
      · split at h <;> cases h
        rfl
  rcases bind_error h with h | ⟨merged, -, h⟩
  · obtain ⟨acc, item, h⟩ := foldlM_error h
    simp only [mergeItem] at h
    split at h
    · cases h; rfl
    · split at h <;> cases h
  rcases bind_error h with h | ⟨_, -, h⟩
  · obtain ⟨item, h⟩ := forM_error h
    split at h <;> cases h
    rfl
  rcases bind_error h with h | ⟨_, -, h⟩
  · rcases bind_error h with h | ⟨_, -, h⟩
    · obtain ⟨item, h⟩ := forM_error h
      split at h <;> cases h
      rfl
    · split at h <;> cases h
      rfl
  · cases h

variable {base : Db} {allowed : Call → Prop} {i : ℕ} {w : World sql}

namespace BetsService

variable {spec : Commit sql → Db → Prop} {c : Call}

theorem wp_tried {params : PlaceBetParams} {p : Placement} {s : Local sql} {m : Mark sql}
    (hspec : ∀ (com : Commit sql) b t d, com.call = c → com.writes = placed p b t →
      Places params p b t com.start com.trace d → spec com d)
    (hp : validate params = .ok p) (htx : s.tx = none)
    (hm : [m] <:+ s.trace) (ht : m.tag = .findBet)
    (hb : m.db.betOf params.userId p.idempotencyKey = none) :
    wp (discipline base spec) i c (runPlacementTransaction params.userId params.dto p)
      (fun a s' w' => Answer params i s' w' (.ok a))
      (fun e s' w' => s'.tx = none ∧ [m] <:+ s'.trace ∧ Answer params i s' w' (.error e)) s w := by
  refine wp_transaction_out htx (fun s₂ w₂ hin hal₂ => ?_) fun s' w' htx' _ hal' => ?_
  · apply wp_placementTransaction hp hal₂.rely.ok hin
    · intro e s' w' hal' _ hlate w'' hr
      have hm' : [m] <:+ s'.trace := hm.trans (hal₂.trans hal').trace
      refine ⟨rfl, hm', .tried hp hm' ht hb fun he => ?_⟩
      cases he
      exact hlate rfl
    · intro b t held s' w' hin' hal' hplaces
      refine ⟨_, _, hin', hal₂.trans hal', fun w'' hr => ⟨hspec _ b t _ rfl rfl (hplaces w'' hr), ?_⟩⟩
      exact fun _ => .tried hp (hm.trans (hal₂.trans hal').trace) ht hb nofun
  · have hm' : [m] <:+ s'.trace := hm.trans hal'.trace
    exact ⟨htx', hm', .tried hp hm' ht hb nofun⟩

theorem wp_placeBet {params : PlaceBetParams}
    (hspec : ∀ (com : Commit sql) p b t d, com.call = c → com.writes = placed p b t →
      Places params p b t com.start com.trace d → spec com d)
    (hown : own i w.log = []) :
    wp (discipline base spec) i c (placeBet params) (fun a s w => Answer params i s w (.ok a))
      (fun e s w => Answer params i s w (.error e)) .idle w := by
  rw [placeBet, wp_bind, wp_check]
  refine ⟨fun p hp => ?_, fun e he => .invalid hown he⟩
  refine wp_idempotent _ _ (wp_findReplay rfl ?_ ?_ ?_ ?_)
  · exact fun s₁ w₁ _ hal hf => .faulted (hal.own.trans hown) hf
  · intro s₁ w₁ htx hal htr hb
    have hm : [w₁.read .findBet] <:+ s₁.trace := by
      rw [htr]
      exact List.suffix_refl _
    refine wp_mono _ (wp_tried (fun com b t d => hspec com p b t d) hp htx hm rfl hb)
      (fun _ _ _ ha => ha) fun e s₂ w₂ he => ?_
    obtain ⟨htx₂, hm₂, hanswer⟩ := he
    refine ⟨fun _ => hanswer, fun hu => ?_⟩
    subst hu
    have htried {r : Except Err PlaceBetResult} {s₃ : Local sql} {w₃ : World sql}
        (hal : Along (discipline base spec) i s₂ w₂ s₃ w₃) (hne : r ≠ .error .deadlinePassed) :
        Answer params i s₃ w₃ r :=
      .tried hp (hm₂.trans hal.trace) rfl hb fun he => absurd he hne
    apply wp_findReplay htx₂
    · exact fun s₃ w₃ _ hal₃ _ => htried hal₃ (fun he => by cases he)
    · exact fun s₃ w₃ _ hal₃ _ _ => htried hal₃ (fun he => by cases he)
    · exact fun b s₃ w₃ _ hal₃ _ _ _ => htried hal₃ (fun he => by cases he)
    · exact fun b w' s₃ w₃ _ hal₃ _ _ _ _ _ _ => htried hal₃ (fun he => by cases he)
  · exact fun b s₁ w₁ _ hal htr hb hm => .reused (hal.own.trans hown) hp htr rfl hb hm
  · exact fun b w₁ s₂ w₂ _ hal _ _ _ htr hb hm =>
      .replayed (hal.own.trans hown) hp htr rfl rfl hb hm

end BetsService

namespace AdminPointsService

theorem wp_adjust {params : AdjustPointsParams} {spec : Commit sql → Db → Prop} {c : Call}
    (hspec : ∀ (com : Commit sql) key l t d, com.call = c → com.writes = .insertAdminLog l :: post t →
      Adjusts params key l t d → spec com d)
    (hown : own i w.log = []) :
    wp (discipline base spec) i c (adjust params) (fun a s w => Answer base params i s w (.ok a))
      (fun e s w => Answer base params i s w (.error e)) .idle w := by
  rw [adjust, wp_bind, wp_check]
  refine ⟨fun key hkey => ?_, fun e he => .refused hown he⟩
  rw [wp_bind]
  apply wp_select_out rfl (fun w' hal => .faulted (hal.own.trans hown) rfl)
  intro s₀ w₀ htx₀ hal₀
  have hown₀ := hal₀.own.trans hown
  rw [wp_bind, wp_require]
  refine ⟨fun _ => ?_, fun habsent => .absent hown₀ habsent⟩
  refine wp_idempotent _ _ (wp_findReplay htx₀ ?_ ?_ ?_ ?_)
  · exact fun s₁ w₁ hal hf => .faulted (hal.own.trans hown₀) hf
  · intro s₁ w₁ htx hal₁ hm ht
    have htried {r : Except Err AdjustPointsResult} {s' : Local sql} {w' : World sql}
        (htr : s₁.trace <:+ s'.trace) : Answer base params i s' w' r := .tried hkey (htr.subset hm) ht
    refine wp_transaction_out htx (fun s₂ w₂ hin hal₂ => ?_) fun s' w' _ _ hal' => ?_
    · apply wp_adjustmentTransaction hkey hin
      · intro e s' w' hal' w'' hr
        have htr : s₁.trace <:+ s'.trace := (hal₂.trans hal').trace
        refine ⟨fun _ => htried htr, fun _ => ?_⟩
        apply wp_findReplay rfl
        · exact fun s₃ w₃ hal₃ _ => htried (htr.trans hal₃.trace)
        · exact fun s₃ w₃ _ hal₃ _ _ => htried (htr.trans hal₃.trace)
        · exact fun t s₃ w₃ hal₃ _ _ => htried (htr.trans hal₃.trace)
        · exact fun t s₃ w₃ _ hal₃ _ _ => htried (htr.trans hal₃.trace)
      · intro l t held s' w' hin' hal' hadj
        refine ⟨_, _, hin', hal₂.trans hal', fun w'' hr => ⟨hspec _ key l t _ rfl rfl (hadj w'' hr), ?_⟩⟩
        exact fun _ => htried (hal₂.trans hal').trace
    · exact ⟨fun _ => htried hal'.trace, fun he => by cases he⟩
  · exact fun t s₁ w₁ hal ht hm => .reused (hal.own.trans hown₀) hkey ht hal.rely.ok.db_eq hm
  · exact fun t s₁ w₁ _ hal ht hm => .replayed (hal.own.trans hown₀) hkey ht hal.rely.ok.db_eq hm

end AdminPointsService

theorem answers_verified (base : Db) (allowed : Call → Prop) :
    Verified (protocol base allowed) body allowed (answers base) := by
  intro i call w hall hw hown
  cases call with
  | placeBet params =>
    change wp _ _ _ (BetsService.placeBet params >>= _) _ _ _ _
    rw [wp_bind]
    refine wp_mono _ (BetsService.wp_placeBet ?_ hown) (fun a _ _ ha => ⟨.ok a, rfl, ha⟩)
      fun e _ _ he => ⟨.error e, rfl, he⟩
    intro com p b t d hcall hwr hp
    rw [Meets, hcall]
    exact ⟨hall, p, b, t, hwr, hp⟩
  | adjust params =>
    change wp _ _ _ (AdminPointsService.adjust params >>= _) _ _ _ _
    rw [wp_bind]
    refine wp_mono _ (AdminPointsService.wp_adjust ?_ hown) (fun a _ _ ha => ⟨.ok a, rfl, ha⟩)
      fun e _ _ he => ⟨.error e, rfl, he⟩
    intro com key l t d hcall hwr hadj
    rw [Meets, hcall]
    exact ⟨hall, key, l, t, hwr, hadj⟩
  | _ =>
    exact wp_mono _ (verified base allowed i _ w hall hw hown) (fun _ _ _ _ => trivial)
      fun _ _ _ _ => trivial

theorem Run.answers {K : Policy sql} {s : State sql} (h : Run K base s) {p : Proc sql}
    (hp : s.procs i = some p) {r : Except Err Res} (hr : p.prog.Ends r) :
    ∃ w, Rely (protocol base K.spawn) i p.loc w s.world ∧ JitoGame.answers base i p.call r p.loc w :=
  (Transactions.Run.invariant (answers_verified base K.spawn) h).outcome hp hr

end JitoGame
