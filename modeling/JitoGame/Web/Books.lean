import JitoGame.Web.Conservation
import JitoGame.Web.Settlement

namespace JitoGame.Web

open Tallies Traces GameState Decimals

variable {code : GameCode} {g g' : GameState} {v v' : View} {a : Action} {e : Event} {es : List Event}
variable {rs : List SettledRound}

structure SettledRound where
  triple : ℕ
  bets : Bets
  played : ℤ
  drawTime : String

namespace SettledRound

variable (r : SettledRound)

def digits : Digits := digitsOf r.triple

def won : ℤ := settleBets r.bets (drawResultOf r.triple)

def text (without : ℕ) : String :=
  String.ofList (((List.finRange 3).drop without).map fun ring => (r.digits ring).digitChar)

def row (gameId : String) (sno : ℕ) : HistoryRow :=
  ⟨sno, gameId, r.drawTime, r.text 0, r.text 1, r.text 2, some r.played, some r.won⟩

end SettledRound

def View.settled (v : View) : Event → Option SettledRound
  | .poll now drawTime => v.poll.bind fun p =>
    if now - p.startTs < drawTotalMs then none
    else some ⟨p.result.triple, v.gameState.bets, v.gameState.playStake, drawTime⟩
  | _ => none

def rounds (code : GameCode) (es : List Event) : List SettledRound :=
  outputs step View.settled (initialView code) es

def rows (gameId : String) (rs : List SettledRound) : List HistoryRow :=
  ((rs.zipIdx 2).map fun r => r.1.row gameId r.2).reverse ++ mockHistory

def GameState.worth (g : GameState) : ℤ :=
  g.pointsBalance + if g.phase = .result then 0 else g.playStake

/-! The texts of a row. -/

theorem toList_padStart (n : ℕ) (s : String) :
    (padStart n s).toList = List.replicate (n - s.length) '0' ++ s.toList := by
  have hpush (k : ℕ) : ("".pushn '0' k).toList = List.replicate k '0' := by
    rw [String.pushn_eq_repeat_push]
    induction k with
    | zero => rfl
    | succ k ih => rw [Nat.repeat, String.toList_push, ih, List.replicate_succ']
  rw [padStart, String.toList_append, hpush]

theorem padStart_of_value {k n : ℕ} {l : List Char} (hk : 0 < k) (hl : ∀ c ∈ l, c.isDigit = true)
    (hlength : l.length = k) (hvalue : value l = n) : padStart k (toString n) = String.ofList l := by
  have hdigits : (toString n).toList = Nat.toDigits 10 n := toList_toString n
  have hlt : n < 10 ^ k := hvalue ▸ hlength ▸ value_lt hl
  have hfits : (Nat.toDigits 10 n).length ≤ k := (Nat.length_toDigits_le_iff (by decide) hk).mpr hlt
  have hpadded : (padStart k (toString n)).toList =
      List.replicate (k - (Nat.toDigits 10 n).length) '0' ++ Nat.toDigits 10 n := by
    rw [toList_padStart, hdigits, ← String.length_toList, hdigits]
  apply String.toList_inj.mp
  rw [hpadded, String.toList_ofList]
  apply eq_of_value_eq
  · intro c hc
    rcases List.mem_append.mp hc with hc | hc
    · rw [List.eq_of_mem_replicate hc]
      rfl
    · exact (numeral_toDigits n).digits c hc
  · exact hl
  · rw [List.length_append, List.length_replicate, hlength]
    omega
  · rw [value_append, value_replicate_zero, value_toDigits, hvalue, Nat.mul_zero, Nat.zero_add]

theorem toString_of_lt {d : ℕ} (h : d < 10) : toString d = String.ofList [d.digitChar] := by
  apply String.toList_inj.mp
  rw [String.toList_ofList]
  exact (toList_toString d).trans (Nat.toDigits_of_lt_base h)

theorem isDigit_of_digitChar {ds : List ℕ} (h : ∀ d ∈ ds, d < 10) :
    ∀ c ∈ ds.map Nat.digitChar, c.isDigit = true := by
  intro c hc
  obtain ⟨d, hd, rfl⟩ := List.mem_map.mp hc
  rw [Nat.isDigit_digitChar]
  exact decide_eq_true (h d hd)

theorem value_digitChar {d : ℕ} (h : d < 10) (l : List Char) :
    value (d.digitChar :: l) = 10 ^ l.length * d + value l := by
  have hdigit : ∀ d < 10, d.digitChar.toNat - '0'.toNat = d := by decide
  rw [value_cons, hdigit d h]

theorem historyRow_eq (g : GameState) {t : ℕ} (ht : t ≤ 999) (drawTime : String) :
    historyRow g (drawResultOf t) (settleBets g.bets (drawResultOf t)) drawTime =
      SettledRound.row ⟨t, g.bets, g.playStake, drawTime⟩ g.gameId
        ((g.recentHistory.head?.map (·.sno)).getD 0 + 1) := by
  have hlt (ring : RingIndex) : digitsOf t ring < 10 := digitsOf_lt t ring
  have htriple : padStart 3 (toString t) =
      String.ofList ([digitsOf t 0, digitsOf t 1, digitsOf t 2].map Nat.digitChar) := by
    refine padStart_of_value (by decide) (isDigit_of_digitChar ?_) rfl ?_
    · simp [hlt]
    · have hspell : 10 ^ 2 * (t / 100 % 10) + (10 ^ 1 * (t / 10 % 10) + (10 ^ 0 * (t % 10) + 0)) = t := by omega
      simp only [List.map_cons, List.map_nil, value_digitChar (hlt _)]
      exact hspell
  have hdouble : padStart 2 (toString (t % 100)) =
      String.ofList ([digitsOf t 1, digitsOf t 2].map Nat.digitChar) := by
    refine padStart_of_value (by decide) (isDigit_of_digitChar ?_) rfl ?_
    · simp [hlt]
    · have hspell : 10 ^ 1 * (t / 10 % 10) + (10 ^ 0 * (t % 10) + 0) = t % 100 := by omega
      simp only [List.map_cons, List.map_nil, value_digitChar (hlt _)]
      exact hspell
  have hsingle : toString (t % 10) = String.ofList [(digitsOf t 2).digitChar] := toString_of_lt (hlt 2)
  simp only [historyRow, drawResultOf, htriple, hdouble, hsingle]
  rfl

/-! What becomes of the history. -/

def record (gameId : String) (rows : List HistoryRow) (r : SettledRound) : List HistoryRow :=
  r.row gameId ((rows.head?.map (·.sno)).getD 0 + 1) :: rows.take 5

theorem act_history (ha : g.act a = some g') :
    g'.recentHistory = g.recentHistory ∧ g'.gameId = g.gameId := by
  cases a with
  | place type value => cases ha; simp only [handlePlaceBet]; split_ifs <;> exact ⟨rfl, rfl⟩
  | remove type value => cases ha; simp only [handleRemoveBet]; split_ifs <;> exact ⟨rfl, rfl⟩
  | quickRow s row => cases ha; simp only [handleQuickRow, quick]; split_ifs <;> exact ⟨rfl, rfl⟩
  | quickCol s col => cases ha; simp only [handleQuickCol, quick]; split_ifs <;> exact ⟨rfl, rfl⟩
  | quickRowUndo s row => cases ha; simp only [handleQuickRowUndo, quickUndo]; split_ifs <;> exact ⟨rfl, rfl⟩
  | quickColUndo s col => cases ha; simp only [handleQuickColUndo, quickUndo]; split_ifs <;> exact ⟨rfl, rfl⟩
  | randomPick s count random => cases ha; simp only [handleRandomPick]; split_ifs <;> exact ⟨rfl, rfl⟩
  | double => cases ha; simp only [handleDouble]; split_ifs <;> exact ⟨rfl, rfl⟩
  | repeatLast => cases ha; simp only [handleRepeat]; split_ifs <;> exact ⟨rfl, rfl⟩
  | clear => cases ha; simp only [handleClear]; split_ifs <;> exact ⟨rfl, rfl⟩
  | selectChip val =>
    simp only [GameState.act, Option.ite_none_right_eq_some, Option.some.injEq] at ha
    obtain ⟨-, rfl⟩ := ha
    exact ⟨rfl, rfl⟩
  | selectTab t =>
    simp only [GameState.act, Option.ite_none_right_eq_some, Option.some.injEq] at ha
    obtain ⟨-, rfl⟩ := ha
    exact ⟨rfl, rfl⟩

structure Aimed (v : View) : Prop where
  poll : ∀ p, v.poll = some p → p.targetDigits = digitsOf p.result.triple ∧
    v.drawTarget = some p.targetDigits ∧ v.drawStartTs = some p.startTs
  target : v.poll = none → ∀ d, v.drawTarget = some d → d = v.wheelDigits
  result : v.poll = none → ∀ result, v.gameState.drawResult = some result →
    digitsOf result.triple = v.wheelDigits

theorem Aimed.set (h : Aimed v) (hresult : g.drawResult = v.gameState.drawResult) : Aimed (v.set g) :=
  ⟨h.poll, h.target, fun hp result hr => h.result hp result (hresult.symm.trans hr)⟩

theorem Aimed.step (h : Aimed v) (hreg : Regular v) (hstep : step v e = some v') : Aimed v' := by
  cases step_cases hstep with
  | act ha => exact h.set (GameState.act_acted hreg.funded ha).drawResult
  | countdown => exact h.set (countdown_drawResult _)
  | @effects random now hv =>
    cases hp : v.gameState.phase with
    | drawing =>
      simp only [View.runEffects, hp]
      refine ⟨?_, fun hn => (by cases hn), fun hn => (by cases hn)⟩
      intro p hpoll
      cases hpoll
      exact ⟨rfl, rfl, rfl⟩
    | betting | result =>
      simp only [View.runEffects, hp]
      exact ⟨h.poll, h.target, h.result⟩
  | @poll p now drawTime hp =>
    obtain ⟨hdigits, htarget, hstart⟩ := h.poll p hp
    simp only [View.runPoll]
    split
    · refine ⟨?_, fun hn => (by cases hn), fun hn => (by cases hn)⟩
      intro q hq
      cases hq
      exact ⟨hdigits, htarget, hstart⟩
    · refine ⟨fun q hq => (by cases hq), ?_, ?_⟩
      · intro _ d hd
        exact Option.some.inj (hd.symm.trans htarget)
      · intro _ result hr
        have hsame : (v.gameState.settle p.result drawTime).drawResult = v.gameState.drawResult := by
          rw [GameState.settle]
          split <;> rfl
        rw [View.set, hsame, (hreg.polled.of_poll p hp).2.2] at hr
        cases hr
        exact hdigits.symm
  | reopen =>
    apply h.set
    rw [GameState.reopen]
    split <;> rfl
  | videoEnd => exact ⟨h.poll, h.target, h.result⟩

structure Kept (v v' : View) : Prop where
  recentHistory : v'.gameState.recentHistory = v.gameState.recentHistory
  gameId : v'.gameState.gameId = v.gameState.gameId
  wheelDigits : v'.wheelDigits = v.wheelDigits
  worth : v'.gameState.worth = v.gameState.worth

structure Settlement (v v' : View) (r : SettledRound) : Prop where
  result : v.gameState.drawResult = some (drawResultOf r.triple)
  triple : r.triple ≤ 999
  bets : r.bets = v.gameState.bets
  played : r.played = v.gameState.playStake
  recentHistory : v'.gameState.recentHistory =
    record v.gameState.gameId v.gameState.recentHistory r
  gameId : v'.gameState.gameId = v.gameState.gameId
  wheelDigits : v'.wheelDigits = r.digits
  worth : v'.gameState.worth = v.gameState.worth + (r.won - r.played)

theorem Kept.of_same (hhistory : g.recentHistory = v.gameState.recentHistory)
    (hid : g.gameId = v.gameState.gameId) (hheld : g.held = v.gameState.held)
    (hphase : g.phase ≠ .result) (hphase' : v.gameState.phase ≠ .result) : Kept v (v.set g) := by
  refine ⟨hhistory, hid, rfl, ?_⟩
  change g.worth = v.gameState.worth
  simp only [GameState.worth, hphase, hphase', if_false]
  exact hheld

theorem settled_step (hreg : Regular v) (hdrawn : Drawn v) (haimed : Aimed v)
    (hstep : step v e = some v') :
    (v.settled e = none ∧ Kept v v') ∨ ∃ r, v.settled e = some r ∧ Settlement v v' r := by
  cases step_cases hstep with
  | @act a g ha =>
    refine .inl ⟨rfl, ?_⟩
    have hacted := GameState.act_acted hreg.funded ha
    obtain ⟨hhistory, hid⟩ := act_history ha
    by_cases hp : v.gameState.phase = .result
    · -- the table is locked: only the chip and the tab may have changed
      obtain ⟨heq, -⟩ := act_of_locked (isLocked_of_phase (by rw [hp]; decide)) ha
      refine ⟨hhistory, hid, rfl, ?_⟩
      change g.worth = _
      rw [heq]
      rfl
    · exact .of_same hhistory hid hacted.conserved (hacted.phase ▸ hp) hp
  | countdown hp =>
    refine .inl ⟨rfl, ?_⟩
    have hbetting : v.gameState.phase ≠ .result := by
      rw [hp]
      decide
    rw [GameState.countdown]
    split
    · exact .of_same rfl rfl rfl hbetting hbetting
    · exact .of_same rfl rfl rfl (fun h => (by cases h)) hbetting
  | @effects random now =>
    refine .inl ⟨rfl, ?_⟩
    cases hp : v.gameState.phase with
    | drawing =>
      refine ⟨?_, ?_, ?_, ?_⟩ <;> simp only [View.runEffects, hp, worth]
    | betting | result =>
      refine ⟨?_, ?_, ?_, ?_⟩ <;> simp only [View.runEffects, hp]
  | @poll p now drawTime hp =>
    obtain ⟨hphase, hpending, hresult⟩ := hreg.polled.of_poll p hp
    obtain ⟨t, ht, heq, -⟩ := hdrawn.result _ hresult
    obtain ⟨hdigits, -, -⟩ := haimed.poll p hp
    have htriple : p.result.triple = t := congrArg DrawResult.triple heq
    by_cases hshort : now - p.startTs < drawTotalMs
    · refine .inl ⟨by simp [View.settled, hp, hshort], ?_⟩
      simp only [View.runPoll, if_pos hshort]
      exact ⟨rfl, rfl, rfl, rfl⟩
    · refine .inr ⟨⟨t, v.gameState.bets, v.gameState.playStake, drawTime⟩, ?_, ?_⟩
      · simp [View.settled, hp, hshort, htriple]
      · have hgame : (v.runPoll p now drawTime).gameState = v.gameState.settle p.result drawTime := by
          simp only [View.runPoll, if_neg hshort]
          rfl
        have hwheel : (v.runPoll p now drawTime).wheelDigits = p.targetDigits := by
          simp only [View.runPoll, if_neg hshort]
          rfl
        have hdrawing : ¬ v.gameState.phase ≠ .drawing := not_not_intro hphase
        refine ⟨heq ▸ hresult, ht, rfl, rfl, ?_, ?_, ?_, ?_⟩
        · rw [hgame, heq, GameState.settle, if_neg hdrawing]
          change historyRow _ _ _ _ :: _ = _
          rw [historyRow_eq _ ht]
          rfl
        · rw [hgame, GameState.settle, if_neg hdrawing]
        · rw [hwheel, hdigits, htriple]
          rfl
        · rw [hgame, heq, GameState.settle, if_neg hdrawing, worth, worth, if_pos rfl, hphase]
          simp only [SettledRound.won, reduceCtorEq, if_false]
          omega
  | reopen hp =>
    refine .inl ⟨rfl, ?_⟩
    rw [GameState.reopen, if_neg (not_not_intro hp)]
    refine ⟨rfl, rfl, rfl, ?_⟩
    change v.gameState.pointsBalance + _ = _
    rw [worth, if_pos hp]
    rfl
  | videoEnd => exact .inl ⟨rfl, rfl, rfl, rfl, rfl⟩

/-! The books of a run. -/

structure Kempt (code : GameCode) (v : View) : Prop where
  regular : Regular v
  drawn : Drawn v
  aimed : Aimed v
  cells : v.gameState.OnCells
  gameId : v.gameState.gameId = (getInitialGameState code).gameId

theorem Kempt.settles (h : Kempt code v) (hstep : step v e = some v') {r : SettledRound}
    (hr : r ∈ v.settled e) : Settlement v v' r := by
  rcases settled_step h.regular h.drawn h.aimed hstep with ⟨hnone, -⟩ | ⟨r', hsome, hsettled⟩
  · cases hnone.symm.trans hr
  · cases hsome.symm.trans hr
    exact hsettled

theorem Settlement.staked {r : SettledRound} (hr : Settlement v v' r) (h : Kempt code v) :
    Positive r.bets ∧ tallied r.bets ≤ r.played := by
  have hfunded := h.regular.funded
  rw [hr.bets, hr.played]
  exact ⟨hfunded.bets, sub_nonneg.mp hfunded.gap⟩

theorem Settlement.won {r : SettledRound} (hr : Settlement v v' r) (h : Kempt code v) :
    r.won = 9 * amount r.bets (cellKey .single (r.digits 2)) +
      90 * amount r.bets (cellKey .double (r.digits 1 * 10 + r.digits 2)) +
      900 * amount r.bets (cellKey .triple (r.digits 0 * 100 + r.digits 1 * 10 + r.digits 2)) := by
  have hle := hr.triple
  have hdouble : r.triple / 10 % 10 * 10 + r.triple % 10 = r.triple % 100 := by omega
  have htriple : r.triple / 100 % 10 * 100 + r.triple / 10 % 10 * 10 + r.triple % 10 = r.triple := by omega
  have hcells : Keyed IsCell r.bets := hr.bets ▸ h.cells.bets
  change settleBets r.bets (drawResultOf r.triple) = 9 * amount r.bets (cellKey .single (r.triple % 10)) +
    90 * amount r.bets (cellKey .double (r.triple / 10 % 10 * 10 + r.triple % 10)) +
    900 * amount r.bets
      (cellKey .triple (r.triple / 100 % 10 * 100 + r.triple / 10 % 10 * 10 + r.triple % 10))
  rw [hdouble, htriple]
  exact settleBets_eq hcells _

end JitoGame.Web
