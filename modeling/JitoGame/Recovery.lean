import JitoGame.Numbering
import JitoGame.Transactions.Series

namespace JitoGame

open Transactions

namespace RoundsService

def liveRounds (d : Db) (gameId : GameId) : List GameRound :=
  d.rounds.filter fun r => r.gameId = gameId ∧ !r.state.terminal

def rank (d : Db) (gameId : GameId) : ℕ :=
  match liveRound d gameId with
  | none => 3
  | some r => if r.state = .created then 2 else if r.state.lockable then 1 else 0

end RoundsService

structure Recoverable (d : Db) : Prop extends RoundsInOrder d where
  coded : Coded d
  ids : (d.rounds.map (·.id)).Nodup

namespace RoundsService

variable {d : Db} {gameId : GameId} {r : GameRound}

theorem liveRounds_length (h : OneLive d) (gameId : GameId) : (liveRounds d gameId).length ≤ 1 := by
  have hlive := h gameId
  rw [List.countP_eq_length_filter] at hlive
  simpa [liveRounds] using hlive

theorem liveRound_eq_head (h : OneLive d) (gameId : GameId) :
    liveRound d gameId = (liveRounds d gameId).head? := by
  have hlength := liveRounds_length h gameId
  change (liveRounds d gameId).foldl later none = _
  match hlive : liveRounds d gameId with
  | [] => rfl
  | [r] => rfl
  | _ :: _ :: _ => simp [hlive] at hlength

theorem liveRounds_some (h : OneLive d) (hr : liveRound d gameId = some r) :
    liveRounds d gameId = [r] := by
  have hlength := liveRounds_length h gameId
  rw [liveRound_eq_head h] at hr
  match hlive : liveRounds d gameId with
  | [] => simp [hlive] at hr
  | [r'] => simpa [hlive] using hr
  | _ :: _ :: _ => simp [hlive] at hlength

theorem liveRounds_none (h : OneLive d) (hr : liveRound d gameId = none) : liveRounds d gameId = [] := by
  rwa [liveRound_eq_head h, List.head?_eq_none_iff] at hr

theorem mem_of_liveRound (hr : liveRound d gameId = some r) :
    r ∈ d.rounds ∧ r.gameId = gameId ∧ r.state.terminal = false := by
  have hmem := ((foldl_later _ none).1 r hr).resolve_right (by simp)
  simpa using hmem

theorem roundOf_mem (h : (d.rounds.map (·.id)).Nodup) (hr : r ∈ d.rounds) :
    d.roundOf r.id = some r := by
  cases hfind : d.roundOf r.id with
  | none => exact absurd (decide_eq_true rfl) (List.find?_eq_none.mp hfind r hr)
  | some r' =>
    have hid : r'.id = r.id := by simpa using List.find?_some hfind
    rw [List.inj_on_of_nodup_map h (List.mem_of_find?_eq_some hfind) hr hid]

/-! What the writes of the engine do to the rounds. -/

def roundsOf (d : Db) (gameId : GameId) : List GameRound := d.rounds.filter fun r => r.gameId = gameId

structure Moves (x : Write) (id : Uuid) : Prop where
  rounds : x.newRounds = []
  other : ∀ r, r.id ≠ id → x.touch r = r
  live : ∀ r, (x.touch r).state.terminal = r.state.terminal

theorem moves_openRound (id : Uuid) : Moves (.openRound id) id := by
  refine ⟨rfl, fun r hr => ?_, fun r => ?_⟩
  · exact if_neg fun h => hr h.1
  · simp only [Write.touch]
    split
    · rename_i h
      rw [GameRound.openable_live h.2]
      rfl
    · rfl

theorem moves_lockRound (id : Uuid) (now : ℕ) : Moves (.lockRound id now) id := by
  refine ⟨rfl, fun r hr => ?_, fun r => ?_⟩
  · exact if_neg fun h => hr h.1
  · simp only [Write.touch]
    split
    · rename_i h
      have hlockable := (GameRound.closable_iff.mp h.2).1
      cases hs : r.state <;> simp_all [RoundState.lockable, RoundState.terminal, GameRound.locked]
    · rfl

theorem Moves.rounds_apply {x : Write} {id : Uuid} (h : Moves x id) (d : Db) :
    (x.apply d).rounds = d.rounds.map x.touch := by
  rw [JitoGame.rounds_apply, h.rounds, List.append_nil]

theorem Moves.liveRounds_apply {x : Write} {id : Uuid} (h : Moves x id) (d : Db) (gameId : GameId) :
    liveRounds (x.apply d) gameId = (liveRounds d gameId).map x.touch := by
  have hsame : (fun r : GameRound => decide (r.gameId = gameId ∧ !r.state.terminal)) ∘ x.touch =
      fun r => decide (r.gameId = gameId ∧ !r.state.terminal) := by
    funext r
    simp only [Function.comp, (x.same_touch r).gameId, h.live]
  simp only [RoundsService.liveRounds, h.rounds_apply, List.filter_map, hsame]

theorem Moves.roundsOf_apply {x : Write} (h : Moves x r.id) (hids : (d.rounds.map (·.id)).Nodup)
    (hr : r ∈ d.rounds) {gameId : GameId} (hg : gameId ≠ r.gameId) :
    roundsOf (x.apply d) gameId = roundsOf d gameId := by
  have hsame : (fun r : GameRound => decide (r.gameId = gameId)) ∘ x.touch =
      fun r => decide (r.gameId = gameId) := by
    funext r
    simp only [Function.comp, (x.same_touch r).gameId]
  rw [RoundsService.roundsOf, h.rounds_apply, List.filter_map, hsame]
  refine (List.map_congr_left fun r' hr' => ?_).trans (List.map_id _)
  obtain ⟨hmem, hg'⟩ := List.mem_filter.mp hr'
  refine h.other r' fun hid => hg ?_
  rw [← List.inj_on_of_nodup_map hids hmem hr hid]
  exact (of_decide_eq_true hg').symm

theorem Moves.recoverable {x : Write} {id : Uuid} (h : Moves x id) (hd : Recoverable d) :
    Recoverable (x.apply d) := by
  have hstep : RoundsStep d (x.apply d) :=
    .touched (h.rounds_apply d) x.same_touch fun r hr => (h.live r).symm.trans hr
  refine ⟨⟨hd.live.step hstep, hd.numbered.step hstep⟩, hd.coded.step hstep, ?_⟩
  have hids : (x.apply d).rounds.map (·.id) = d.rounds.map (·.id) := by
    rw [h.rounds_apply, List.map_map]
    exact List.map_congr_left fun r _ => (x.same_touch r).id
  rw [hids]
  exact hd.ids

section Created

variable {windowMs : ℕ} {row : GameRound}

theorem liveRounds_created (hc : Creates windowMs gameId row d) (h : liveRounds d gameId = []) :
    liveRounds ((Write.insertRound row).apply d) gameId = [row] := by
  have hgame : row.gameId = gameId := by
    rw [hc.eq_row]
    rfl
  have hstate : row.state = .created := by
    rw [hc.eq_row]
    rfl
  change (d.rounds ++ [row]).filter _ = [row]
  rw [List.filter_append]
  change liveRounds d gameId ++ _ = _
  rw [h]
  simp [hgame, hstate, RoundState.terminal]

theorem roundsOf_created (hc : Creates windowMs gameId row d) {g : GameId} (hg : g ≠ gameId) :
    roundsOf ((Write.insertRound row).apply d) g = roundsOf d g := by
  have hgame : row.gameId = gameId := by
    rw [hc.eq_row]
    rfl
  change (d.rounds ++ [row]).filter _ = _
  simp [roundsOf, List.filter_append, hgame, hg.symm]

theorem recoverable_created (hd : Recoverable d) (hc : Creates windowMs gameId row d)
    (hn : row.roundNumber = (maxRoundNumber d gameId).getD 0 + 1) :
    Recoverable ((Write.insertRound row).apply d) := by
  have hstep : RoundsStep d ((Write.insertRound row).apply d) := .created rfl hc ⟨d, fun _ hk => hk, hn⟩
  refine ⟨⟨hd.live.step hstep, hd.numbered.step hstep⟩, hd.coded.step hstep, ?_⟩
  change ((d.rounds ++ [row]).map (·.id)).Nodup
  rw [List.map_append, List.map_singleton, List.nodup_append]
  refine ⟨hd.ids, List.nodup_singleton _, fun id hid id' hid' heq => ?_⟩
  obtain ⟨r, hr, rfl⟩ := List.mem_map.mp hid
  rw [List.mem_singleton.mp hid'] at heq
  exact hc.fresh (heq ▸ .round hr)

end Created

/-! One call of `reconcile`. -/

def Waits (d : Db) (gameId : GameId) (now : ℕ) : Prop :=
  ∃ r, liveRound d gameId = some r ∧ r.state.lockable = true ∧ now < r.bettingDeadline

inductive Reconciled (windowMs : ℕ) (gameId : GameId) (d : Db) : List (Commit engine) → Prop
  | settled {r : GameRound} (h : liveRound d gameId = some r) (hs : r.state ≠ .created)
    (hl : r.state.lockable = false) : Reconciled windowMs gameId d []
  | created {c : Commit engine} {row : GameRound} (h : liveRound d gameId = none)
    (hw : c.writes = [.insertRound row]) (hc : Creates windowMs gameId row d)
    (hn : row.roundNumber = (maxRoundNumber d gameId).getD 0 + 1) : Reconciled windowMs gameId d [c]
  | opened {c : Commit engine} {r : GameRound} (h : liveRound d gameId = some r)
    (hs : r.state = .created) (hw : c.writes = [.openRound r.id]) : Reconciled windowMs gameId d [c]
  | locked {c : Commit engine} {r : GameRound} (h : liveRound d gameId = some r)
    (hl : r.state.lockable = true) (hd : r.bettingDeadline ≤ c.start)
    (hw : c.writes = [.lockRound r.id c.start]) : Reconciled windowMs gameId d [c]
  | waited {c : Commit engine} {r : GameRound} (h : liveRound d gameId = some r)
    (hl : r.state.lockable = true) (hd : c.start < r.bettingDeadline) (hw : c.writes = []) :
    Reconciled windowMs gameId d [c]

structure Reconciles (gameId : GameId) (now : ℕ) (d d' : Db) : Prop where
  idle : rank d gameId = 0 ∨ Waits d gameId now → d' = d
  step : ¬ (rank d gameId = 0 ∨ Waits d gameId now) → rank d' gameId + 1 = rank d gameId
  others : ∀ g, g ≠ gameId → roundsOf d' g = roundsOf d g
  recoverable : Recoverable d'

theorem rank_none (h : liveRound d gameId = none) : rank d gameId = 3 := by
  rw [rank, h]

theorem rank_created (h : liveRound d gameId = some r) (hs : r.state = .created) :
    rank d gameId = 2 := by
  simp [rank, h, hs]

theorem rank_lockable (h : liveRound d gameId = some r) (hl : r.state.lockable = true) :
    rank d gameId = 1 := by
  have hs : r.state ≠ .created := by
    intro hs
    rw [hs] at hl
    cases hl
  simp [rank, h, hs, hl]

theorem rank_settled (h : liveRound d gameId = some r) (hs : r.state ≠ .created)
    (hl : r.state.lockable = false) : rank d gameId = 0 := by
  simp [rank, h, hs, hl]

theorem waits_iff (h : liveRound d gameId = some r) {now : ℕ} :
    Waits d gameId now ↔ r.state.lockable = true ∧ now < r.bettingDeadline := by
  simp [Waits, h]

theorem liveRound_singleton (h : OneLive d) (hr : liveRounds d gameId = [r]) :
    liveRound d gameId = some r := by
  rw [liveRound_eq_head h, hr, List.head?_cons]

section Moved

variable {x : Write}

theorem Moves.liveRound_apply (hx : Moves x r.id) (hd : Recoverable d) (h : liveRound d gameId = some r) :
    liveRound (x.apply d) gameId = some (x.touch r) := by
  apply liveRound_singleton (hx.recoverable hd).live
  rw [hx.liveRounds_apply, liveRounds_some hd.live h]
  rfl

theorem Moves.reconciles {now : ℕ} (hx : Moves x r.id) (hd : Recoverable d)
    (h : liveRound d gameId = some r) (hrank : ¬ (rank d gameId = 0 ∨ Waits d gameId now))
    (hstep : rank (x.apply d) gameId + 1 = rank d gameId) :
    Reconciles gameId now d (x.apply d) := by
  obtain ⟨hmem, hgame, -⟩ := mem_of_liveRound h
  refine ⟨fun hidle => absurd hidle hrank, fun _ => hstep, fun g hg => ?_, hx.recoverable hd⟩
  exact hx.roundsOf_apply hd.ids hmem (hgame ▸ hg)

end Moved

theorem Reconciled.reconciles {windowMs : ℕ} {log : List (Commit engine)} (hd : Recoverable d)
    (h : Reconciled windowMs gameId d log) (n : ℕ) :
    Reconciles gameId ((log.head?.map (·.start)).getD n) d (replay d log) := by
  cases h with
  | @settled r h hs hl =>
    exact ⟨fun _ => rfl, fun hno => absurd (.inl (rank_settled h hs hl)) hno, fun _ _ => rfl, hd⟩
  | @created c row h hw hc hn =>
    have hdb : replay d [c] = (Write.insertRound row).apply d := by rw [replay, replay, hw]; rfl
    have hrec := recoverable_created hd hc hn
    have hstate : row.state = .created := by
      rw [hc.eq_row]
      rfl
    have hlive := liveRound_singleton hrec.live (liveRounds_created hc (liveRounds_none hd.live h))
    rw [hdb]
    refine ⟨fun hidle => ?_, fun _ => ?_, fun g hg => roundsOf_created hc hg, hrec⟩
    · rcases hidle with hzero | ⟨r, hr, -⟩
      · rw [rank_none h] at hzero
        cases hzero
      · cases h.symm.trans hr
    · rw [rank_created hlive hstate, rank_none h]
  | @opened c r h hs hw =>
    have hdb : replay d [c] = (Write.openRound r.id).apply d := by rw [replay, replay, hw]; rfl
    have htouch : (Write.openRound r.id).touch r = r.opened := if_pos ⟨rfl, by simp [GameRound.openable, hs]⟩
    have hafter := (moves_openRound r.id).liveRound_apply hd h
    rw [htouch] at hafter
    rw [hdb]
    refine (moves_openRound r.id).reconciles hd h ?_ ?_
    · rw [rank_created h hs, waits_iff h, hs]
      simp [RoundState.lockable]
    · rw [rank_lockable hafter rfl, rank_created h hs]
  | @locked c r h hl hdeadline hw =>
    have hdb : replay d [c] = (Write.lockRound r.id c.start).apply d := by rw [replay, replay, hw]; rfl
    have htouch : (Write.lockRound r.id c.start).touch r = r.locked c.start :=
      if_pos ⟨rfl, GameRound.closable_iff.mpr ⟨hl, hdeadline⟩⟩
    have hafter := (moves_lockRound r.id c.start).liveRound_apply hd h
    rw [htouch] at hafter
    rw [hdb]
    refine (moves_lockRound r.id c.start).reconciles hd h ?_ ?_
    · rw [rank_lockable h hl, waits_iff h]
      simp only [Nat.one_ne_zero, false_or, not_and, not_lt]
      exact fun _ => hdeadline
    · rw [rank_settled hafter (by simp [GameRound.locked]) rfl, rank_lockable h hl]
  | @waited c r h hl hdeadline hw =>
    have hdb : replay d [c] = d := by rw [replay, replay, hw]; rfl
    rw [hdb]
    have hwaits : Waits d gameId c.start := (waits_iff h).mpr ⟨hl, hdeadline⟩
    exact ⟨fun _ => rfl, fun hno => absurd (.inr hwaits) hno, fun _ _ => rfl, hd⟩

/-! The program of `reconcile`, when no one else commits. -/

section Alone

variable {i windowMs : ℕ} {c : EngineCall} {s : Local engine} {w : World engine}
variable {E : Err → Local engine → World engine → Prop}

theorem wp_update_alone {tag : Tag} {guard : ℕ → GameRound → Bool} {x : ℕ → Write}
    {Q : Bool → Local engine → World engine → Prop} (hr : d.roundOf r.id = some r)
    (hw : Still (S := engine) Db.Known d i w) (htx : s.tx = none) (hclean : s.faulted = false)
    (hE : ∀ e s' w', w'.log = [] → E e s' w')
    (hQ : ∀ hit (com : Commit engine) s' (w' : World engine), w'.log = [] →
      com.writes = (if guard com.start r then [x com.start] else []) → Q hit s' (w'.push com)) :
    wp (.sole Db.Known d i) i c (update tag r.id guard x) Q E s w := by
  rw [update]
  refine hw.wp_transaction htx hclean (fun start s₁ w₁ hrun hw₁ => ?_)
    fun s' w' _ _ hw' => hE _ s' w' hw'.log
  rw [wp_bind]
  refine hw₁.wp_exec hrun (fun s' w' _ hw' => ⟨hw', fun w'' hw'' => hE _ _ w'' hw''.log⟩)
    fun m s₂ w₂ _ _ hrun₂ hw₂ => ?_
  have hhit : hits r.id guard ⟨d, start⟩ = guard start r := by
    rw [hits, hr, Option.any_some]
  rw [wp_pure]
  refine ⟨_, hrun₂.older, hw₂, fun w'' hw'' => hQ _ _ _ w'' hw''.log ?_⟩
  rw [applyAll_nil, hhit]
  rfl

theorem wp_createRound_alone {start : ℕ} {row : GameRound}
    {Q : Unit → Local engine → World engine → Prop} (hw : Still (S := engine) Db.Known d i w)
    (h : s.Running start [] []) (hcode : ¬ d.HasCode row.displayCode)
    (hnumber : ¬ d.HasNumber row.gameId row.roundNumber) (hlive : ¬ d.HasLive row.gameId)
    (hE : ∀ e s' w', e ≠ .uniqueViolation → Still (S := engine) Db.Known d i w' → E e s' w')
    (hQ : ∀ s' w', row.fits = true → s'.Running start [.insertRound row] [] →
      Still (S := engine) Db.Known d i w' → Q () s' w') :
    wp (.sole Db.Known d i) i c (createRound row) Q E s w := by
  have hfault (s' : Local engine) (w' : World engine) (_ : s'.faulted = true)
      (hw' : Still (S := engine) Db.Known d i w') : E .fault s' w' :=
    hE _ s' w' (fun he => by cases he) hw'
  rw [createRound, wp_bind, wp_require]
  refine ⟨fun hfit => ?_, fun _ => hE _ s w (fun he => by cases he) hw⟩
  rw [wp_bind]
  apply hw.wp_insert h hfault (Bool.eq_false_iff.mpr (mt codeTaken_iff.mp hcode))
  intro s₁ w₁ h₁ hw₁
  rw [wp_bind]
  refine hw₁.wp_insert h₁ hfault (Bool.eq_false_iff.mpr (mt numberTaken_iff.mp hnumber))
    fun s₂ w₂ h₂ hw₂ => ?_
  apply hw₂.wp_insert h₂ hfault (Bool.eq_false_iff.mpr (mt liveTaken_iff.mp hlive))
  intro s₃ w₃ h₃ hw₃
  exact hQ s₃ w₃ hfit h₃ hw₃

theorem wp_tryCreateRound_alone {Q : Option GameRound → Local engine → World engine → Prop}
    (hd : Recoverable d) (hlive : liveRound d gameId = none)
    (hw : Still (S := engine) Db.Known d i w) (htx : s.tx = none) (hclean : s.faulted = false)
    (hE : ∀ e s' w', w'.log = [] → E e s' w')
    (hQ : ∀ row (com : Commit engine) s' (w' : World engine), w'.log = [] →
      com.writes = [.insertRound row] → Creates windowMs gameId row d →
      row.roundNumber = (maxRoundNumber d gameId).getD 0 + 1 → Q (some row) s' (w'.push com)) :
    wp (.sole Db.Known d i) i c (tryCreateRound windowMs gameId) Q E s w := by
  rw [tryCreateRound, wp_bind, nextRoundNumber, wp_bind]
  refine hw.wp_read htx hclean (fun s' w' _ hw' => hE _ s' w' hw'.log)
    fun now s₁ w₁ htx₁ hclean₁ hw₁ => ?_
  rw [wp_pure, wp_bind]
  apply hw₁.wp_outside
  intro opensAt w₂ hw₂
  rw [wp_tryCatch, wp_bind]
  apply hw₂.wp_fresh
  intro id w₃ hnew hw₃
  rw [wp_bind]
  have hcaught (e : Err) (s' : Local engine) (w' : World engine) (he : e ≠ .uniqueViolation)
      (hw' : Still (S := engine) Db.Known d i w') : wp (.sole Db.Known d i) i c
        (if e = Err.uniqueViolation then pure none else throw e : Prog engine (Option GameRound)) Q E s' w' := by
    rw [if_neg he]
    exact hE e s' w' hw'.log
  have hgone : ¬ d.HasLive gameId := not_hasLive hlive
  have hnumber : ¬ d.HasNumber gameId ((maxRoundNumber d gameId).getD 0 + 1) := by
    intro hn
    have hle := le_maxRoundNumber hn
    omega
  have hcode : ¬ d.HasCode (generateDisplayCode gameId ((maxRoundNumber d gameId).getD 0 + 1)) := by
    rintro ⟨r, hr, hcode⟩
    obtain ⟨n, hn⟩ := hd.numbered.eq_natCast hr
    obtain ⟨k, hk⟩ := hd.numbered.next_eq_natCast gameId
    have heq := (hd.coded r hr).symm.trans hcode
    rw [hn, hk] at heq
    obtain ⟨hg, rfl⟩ := generateDisplayCode_inj heq
    exact hnumber ⟨r, hr, hg, hn.trans hk.symm⟩
  have htx₃ : (s₁.mint id).tx = none := htx₁
  have hclean₃ : (s₁.mint id).faulted = false := hclean₁
  refine hw₃.wp_transaction htx₃ hclean₃ (fun start s₄ w₄ hrun hw₄ => ?_)
    fun s' w' _ _ hw' => hcaught .fault s' w' (fun he => by cases he) hw'
  refine wp_createRound_alone hw₄ hrun hcode hnumber hgone
    (fun e s' w' he hw' => ⟨hw', fun w'' hw'' => hcaught e _ w'' he hw''⟩) fun s₅ w₅ hfit hrun₅ hw₅ => ?_
  refine ⟨_, hrun₅, hw₅, fun w'' hw'' => hQ _ _ _ w'' hw''.log rfl ?_ rfl⟩
  exact ⟨rfl, hfit, hnew, hcode, hnumber, hgone⟩

theorem wp_reconcile_alone (hd : Recoverable d) (hw : Still (S := engine) Db.Known d i w)
    (htx : s.tx = none) (hclean : s.faulted = false) :
    wp (.sole Db.Known d i) i c (reconcile windowMs gameId)
      (fun _ _ w' => Reconciled windowMs gameId d w'.log) (fun _ _ w' => w'.log = []) s w := by
  have hpush (com : Commit engine) (w' : World engine) (hlog : w'.log = [])
      (h : Reconciled windowMs gameId d [com]) : Reconciled windowMs gameId d (w'.push com).log := by
    rw [World.push, hlog]
    exact h
  rw [reconcile, wp_bind, findLiveRound, wp_bind]
  apply hw.wp_read htx hclean (fun _ w' _ hw' => hw'.log)
  intro now s₁ w₁ htx₁ hclean₁ hw₁
  rw [wp_pure]
  cases hround : liveRound d gameId with
  | none =>
    change wp _ _ _ (tryCreateRound windowMs gameId >>= _) _ _ _ _
    rw [wp_bind]
    refine wp_tryCreateRound_alone hd hround hw₁ htx₁ hclean₁ (fun _ _ _ hlog => hlog)
      fun row com s' w' hlog hwr hc hn => ?_
    exact hpush com w' hlog (.created hround hwr hc hn)
  | some round =>
    have hfound := roundOf_mem hd.ids (mem_of_liveRound hround).1
    dsimp only
    split
    · rename_i hs
      rw [wp_bind]
      refine wp_update_alone hfound hw₁ htx₁ hclean₁ (fun _ _ _ hlog => hlog)
        fun hit com s' w' hlog hwr => ?_
      have hopen : round.openable = true := by simp [GameRound.openable, hs]
      exact hpush com w' hlog (.opened hround hs (hwr.trans (if_pos hopen)))
    split
    · rename_i hl
      rw [wp_bind]
      refine wp_update_alone hfound hw₁ htx₁ hclean₁ (fun _ _ _ hlog => hlog)
        fun hit com s' w' hlog hwr => ?_
      by_cases hdeadline : round.bettingDeadline ≤ com.start
      · have hclose := GameRound.closable_iff.mpr ⟨hl, hdeadline⟩
        exact hpush com w' hlog (.locked hround hl hdeadline (hwr.trans (if_pos hclose)))
      · have hopen : ¬ round.closable com.start = true :=
          fun hclose => hdeadline (GameRound.closable_iff.mp hclose).2
        exact hpush com w' hlog (.waited hround hl (by omega) (hwr.trans (if_neg hopen)))
    · rename_i hs hl
      change Reconciled windowMs gameId d w₁.log
      rw [hw₁.log]
      exact .settled hround hs (Bool.eq_false_iff.mpr hl)

end Alone

end RoundsService

end JitoGame
