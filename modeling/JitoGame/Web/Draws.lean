import JitoGame.Web.Stakes

namespace JitoGame.Web

open Traces

variable {v v' w : View} {e e' : Event} {es : List Event}

abbrev Reached (code : GameCode) (v : View) : Prop :=
  ∃ es, run step (initialView code) es = some v

structure Polled (v : View) : Prop where
  of_poll : ∀ p, v.poll = some p → v.gameState.phase = .drawing ∧ v.pending = false ∧
    v.gameState.drawResult = some p.result
  to_poll : v.gameState.phase = .drawing → v.pending = false → v.poll ≠ none

theorem polled_initial (code : GameCode) : Polled (initialView code) :=
  ⟨fun _ h => (by cases h), fun h => (by cases h)⟩

theorem Polled.poll_eq_none (h : Polled v) (hp : v.pending = true ∨ v.gameState.phase ≠ .drawing) :
    v.poll = none := by
  by_contra hne
  obtain ⟨p, hpoll⟩ := Option.ne_none_iff_exists'.mp hne
  obtain ⟨hphase, hpending, -⟩ := h.of_poll p hpoll
  rcases hp with hp | hp
  · rw [hpending] at hp
    cases hp
  · exact hp hphase

theorem Polled.set_same (h : Polled v) {g : GameState} (hphase : g.phase = v.gameState.phase)
    (hresult : g.drawResult = v.gameState.drawResult) : Polled (v.set g) := by
  constructor
  · intro p hp
    obtain ⟨hd, hpend, hr⟩ := h.of_poll p hp
    refine ⟨hphase.trans hd, ?_, hresult.trans hr⟩
    simp [View.set, hpend, hphase]
  · intro hd hpend
    simp only [View.set, Bool.or_eq_false_iff] at hpend
    exact h.to_poll (hphase.symm.trans hd) hpend.1

theorem Polled.set_moved {g : GameState} (hpoll : v.poll = none)
    (hphase : g.phase ≠ v.gameState.phase) : Polled (v.set g) := by
  constructor
  · intro p hp
    cases hpoll.symm.trans hp
  · intro _ hpend
    simp [View.set, hphase] at hpend

theorem countdown_drawResult (g : GameState) : g.countdown.drawResult = g.drawResult := by
  rw [GameState.countdown]
  split <;> rfl

theorem settle_drawing {g : GameState} (hp : g.phase = .drawing) (result : DrawResult)
    (drawTime : String) : (g.settle result drawTime).phase = .result ∧
      (g.settle result drawTime).winAmount = settleBets g.bets result ∧
      (g.settle result drawTime).pointsBalance = g.pointsBalance + settleBets g.bets result := by
  simp [GameState.settle, hp]

theorem reopen_phase {g : GameState} (hp : g.phase = .result) : g.reopen.phase = .betting := by
  simp [GameState.reopen, hp]

theorem runPoll_cases (v : View) (p : Poll) (now : ℤ) (drawTime : String) :
    (v.runPoll p now drawTime).gameState = v.gameState ∧
        (v.runPoll p now drawTime).pending = v.pending ∧
        (∃ q, (v.runPoll p now drawTime).poll = some q ∧ q.result = p.result) ∨
      (v.runPoll p now drawTime).gameState = v.gameState.settle p.result drawTime ∧
        (v.runPoll p now drawTime).pending =
          (v.pending || (v.gameState.settle p.result drawTime).phase ≠ v.gameState.phase) ∧
        (v.runPoll p now drawTime).poll = none := by
  simp only [View.runPoll]
  split
  · exact .inl ⟨rfl, rfl, _, rfl, rfl⟩
  · exact .inr ⟨rfl, rfl, rfl⟩

theorem Polled.step (hf : v.gameState.Funded) (h : Polled v) (hstep : step v e = some v') :
    Polled v' := by
  cases step_cases hstep with
  | act ha =>
    have hacted := GameState.act_acted hf ha
    exact h.set_same hacted.phase hacted.drawResult
  | countdown hp hv =>
    by_cases hsame : v.gameState.countdown.phase = v.gameState.phase
    · exact h.set_same hsame (countdown_drawResult _)
    · refine Polled.set_moved (h.poll_eq_none (.inr fun hd => ?_)) hsame
      cases hd.symm.trans hp
  | @effects random now hv =>
    have hnone := h.poll_eq_none (.inl hv)
    cases hp : v.gameState.phase with
    | drawing =>
      simp only [View.runEffects, hp]
      refine ⟨fun p hpoll => ?_, fun _ _ => Option.some_ne_none _⟩
      cases hpoll
      exact ⟨rfl, rfl, rfl⟩
    | betting | result =>
      simp only [View.runEffects, hp]
      refine ⟨fun p hpoll => ?_, fun hd => ?_⟩
      · cases hnone.symm.trans hpoll
      · cases hp.symm.trans hd
  | @poll p now drawTime hp =>
    obtain ⟨hd, hpend, hr⟩ := h.of_poll p hp
    rcases runPoll_cases v p now drawTime with ⟨hgame, hpend', q, hq, hresult⟩ | ⟨hgame, -, hnone⟩
    · refine ⟨fun q' hq' => ?_, fun _ _ => by simp [hq]⟩
      cases hq.symm.trans hq'
      exact ⟨hgame ▸ hd, hpend'.trans hpend, by rw [hgame, hr, hresult]⟩
    · refine ⟨fun q hq => ?_, fun hd' => ?_⟩
      · cases hnone.symm.trans hq
      · rw [hgame, (settle_drawing hd _ _).1] at hd'
        cases hd'
  | reopen hp hv =>
    refine Polled.set_moved (h.poll_eq_none (.inr fun hd => ?_)) fun heq => ?_
    · cases hd.symm.trans hp
    · rw [reopen_phase hp, hp] at heq
      cases heq
  | videoEnd => exact ⟨h.of_poll, h.to_poll⟩

structure Regular (v : View) : Prop where
  funded : v.gameState.Funded
  polled : Polled v

theorem regular_keeps : Preserves step Regular := fun v e v' hstep h =>
  ⟨funded_keeps v e v' hstep h.funded, h.polled.step h.funded hstep⟩

theorem Reached.regular {code : GameCode} (h : Reached code v) : Regular v := by
  obtain ⟨es, hr⟩ := h
  exact regular_keeps.run hr ⟨funded_initial code, polled_initial code⟩

end JitoGame.Web
