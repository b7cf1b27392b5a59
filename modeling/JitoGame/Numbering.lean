import JitoGame.Decimals
import JitoGame.Engine
import JitoGame.RoundLife
import Mathlib.Data.List.Perm.Basic
import Mathlib.Data.List.Nodup

namespace JitoGame

open Transactions

def numbers (d : Db) (gameId : GameId) : List ℤ :=
  (d.rounds.filter fun r => r.gameId = gameId).map (·.roundNumber)

def upTo (n : ℕ) : List ℤ := (List.range n).map fun k : ℕ => (k : ℤ) + 1

def Numbered (d : Db) : Prop := ∀ gameId, ∃ n, (numbers d gameId).Perm (upTo n)

def OneLive (d : Db) : Prop :=
  ∀ gameId, d.rounds.countP (fun r => r.gameId = gameId ∧ r.state.terminal = false) ≤ 1

def Coded (d : Db) : Prop :=
  ∀ r ∈ d.rounds, r.displayCode = RoundsService.generateDisplayCode r.gameId r.roundNumber

namespace RoundsService

/-! `findLiveRound` and `nextRoundNumber`. -/

theorem foldl_later (rows : List GameRound) (o : Option GameRound) :
    (∀ r, rows.foldl later o = some r → r ∈ rows ∨ o = some r) ∧
    ∀ r, r ∈ rows ∨ o = some r → ∃ b, rows.foldl later o = some b ∧ r.roundNumber ≤ b.roundNumber := by
  induction rows generalizing o with
  | nil =>
    refine ⟨fun r hr => .inr hr, fun r hr => ⟨r, ?_, Int.le_refl _⟩⟩
    simpa using hr
  | cons x rows ih =>
    obtain ⟨hmem, hle⟩ := ih (later o x)
    have hlater : ∃ b, later o x = some b ∧ (b = x ∨ o = some b) ∧ x.roundNumber ≤ b.roundNumber ∧
        ∀ r, o = some r → r.roundNumber ≤ b.roundNumber := by
      cases o with
      | none => exact ⟨x, rfl, .inl rfl, Int.le_refl _, fun r hr => by cases hr⟩
      | some a =>
        by_cases ha : a.roundNumber < x.roundNumber
        · refine ⟨x, if_pos ha, .inl rfl, Int.le_refl _, fun r hr => ?_⟩
          cases hr
          exact Int.le_of_lt ha
        · refine ⟨a, if_neg ha, .inr rfl, Int.not_lt.mp ha, fun r hr => ?_⟩
          cases hr
          exact Int.le_refl _
    obtain ⟨b, hb, hwhich, hx, ho⟩ := hlater
    obtain ⟨b', hb', hbb⟩ := hle b (.inr hb)
    refine ⟨fun r hr => ?_, fun r hr => ⟨b', hb', ?_⟩⟩
    · rcases hmem r hr with h | h
      · exact .inl (List.mem_cons_of_mem _ h)
      · cases hb.symm.trans h
        rcases hwhich with rfl | hwhich
        · exact .inl List.mem_cons_self
        · exact .inr hwhich
    · rcases hr with hr | hr
      · rcases List.mem_cons.mp hr with rfl | hr
        · exact Int.le_trans hx hbb
        · obtain ⟨b'', hb'', hrb⟩ := hle r (.inl hr)
          cases hb'.symm.trans hb''
          exact hrb
      · exact Int.le_trans (ho r hr) hbb

theorem mem_maxRoundNumber {d : Db} {gameId : GameId} {n : ℤ} (h : maxRoundNumber d gameId = some n) :
    d.HasNumber gameId n := by
  obtain ⟨r, hr, rfl⟩ := Option.map_eq_some_iff.mp h
  have hmem := ((foldl_later _ none).1 r hr).resolve_right (by simp)
  obtain ⟨hmem, hg⟩ := List.mem_filter.mp hmem
  exact ⟨r, hmem, of_decide_eq_true hg, rfl⟩

theorem le_maxRoundNumber {d : Db} {gameId : GameId} {n : ℤ} (h : d.HasNumber gameId n) :
    n ≤ (maxRoundNumber d gameId).getD 0 := by
  obtain ⟨r, hr, hg, rfl⟩ := h
  obtain ⟨b, hb, hle⟩ := (foldl_later (d.rounds.filter fun r => r.gameId = gameId) none).2 r
    (.inl (List.mem_filter.mpr ⟨hr, decide_eq_true hg⟩))
  simpa [maxRoundNumber, hb] using hle

theorem not_hasLive {d : Db} {gameId : GameId} (h : liveRound d gameId = none) :
    ¬ d.HasLive gameId := by
  rintro ⟨r, hr, hg, hlive⟩
  obtain ⟨b, hb, -⟩ :=
    (foldl_later (d.rounds.filter fun r => r.gameId = gameId ∧ !r.state.terminal) none).2 r
      (.inl (List.mem_filter.mpr ⟨hr, by simp [hg, hlive]⟩))
  cases h.symm.trans hb

/-! `generateDisplayCode`. -/

theorem generateDisplayCode_toList (gameId : GameId) (n : ℕ) :
    (generateDisplayCode gameId n).toList = (gameDisplayPrefix gameId).toList ++ Nat.toDigits 10 n := by
  rw [generateDisplayCode, String.toList_append, Decimals.toList_toString]

theorem toDigits_ne_p {n : ℕ} {rest : List Char} : Nat.toDigits 10 n ≠ 'P' :: rest :=
  fun h => absurd (Decimals.isDigit_of_toDigits h) (by decide)

/-- The prefixes never alias: a digit follows `TC` in the one game, and `P` in the other. -/
theorem generateDisplayCode_inj {gameId gameId' : GameId} {m n : ℕ}
    (h : generateDisplayCode gameId m = generateDisplayCode gameId' n) : gameId = gameId' ∧ m = n := by
  have hlist := congrArg String.toList h
  rw [generateDisplayCode_toList, generateDisplayCode_toList] at hlist
  cases gameId with
  | tripleChanceTimer =>
    cases gameId' with
    | tripleChanceTimer => exact ⟨rfl, Decimals.toDigits_inj (List.append_cancel_left hlist)⟩
    | tripleChanceProTimer => exact absurd (List.cons.inj (List.cons.inj hlist).2).2 toDigits_ne_p
  | tripleChanceProTimer =>
    cases gameId' with
    | tripleChanceTimer => exact absurd (List.cons.inj (List.cons.inj hlist).2).2.symm toDigits_ne_p
    | tripleChanceProTimer => exact ⟨rfl, Decimals.toDigits_inj (List.append_cancel_left hlist)⟩

end RoundsService

/-! One commit. -/

inductive RoundsStep (d d' : Db) : Prop
  | touched {f : GameRound → GameRound} (h : d'.rounds = d.rounds.map f)
      (same : ∀ r : GameRound, r.Same (f r))
      (live : ∀ r, (f r).state.terminal = false → r.state.terminal = false)
  | created {windowMs : ℕ} {gameId : GameId} {row : GameRound} (h : d'.rounds = d.rounds ++ [row])
      (hc : Creates windowMs gameId row d) (hn : RoundsService.Follows gameId row.roundNumber d)

theorem RoundsStep.update {roundId : Uuid} {guard : ℕ → GameRound → Bool} {x : ℕ → Write}
    {c : Commit engine} {d : Db} (h : Updates roundId guard x c d)
    (hx : ∀ now, (x now).newRounds = []) : RoundsStep d (applyAll c.writes d) := by
  rcases h with hw | ⟨hw, -⟩
  · rw [hw]
    have hsame : d.rounds = d.rounds.map id := by simp
    exact .touched hsame (fun r => .refl r) fun _ hr => hr
  · rw [hw]
    have hafter : ((x c.start).apply d).rounds = d.rounds.map (x c.start).touch := by
      simp [rounds_apply, hx]
    exact .touched hafter (x c.start).same_touch fun _ => Write.live_touch

theorem EngineMeets.step {c : Commit engine} {d : Db} (h : EngineMeets c d) :
    RoundsStep d (applyAll c.writes d) := by
  cases h with
  | creation hw hc hn =>
    rw [hw]
    exact .created rfl hc hn
  | opening h => exact .update h fun _ => rfl
  | locking h => exact .update h fun _ => rfl
  | finishing h => exact .update h fun _ => rfl

theorem hasNumber_iff {d : Db} {gameId : GameId} {n : ℤ} :
    d.HasNumber gameId n ↔ n ∈ numbers d gameId := by
  simp [Db.HasNumber, numbers, and_assoc]

theorem Numbered.hasNumber_iff {d : Db} {gameId : GameId} {n : ℕ}
    (h : (numbers d gameId).Perm (upTo n)) {m : ℤ} :
    d.HasNumber gameId m ↔ 1 ≤ m ∧ m ≤ n := by
  rw [JitoGame.hasNumber_iff, h.mem_iff, upTo, List.mem_map]
  constructor
  · rintro ⟨k, hk, rfl⟩
    have hlt := List.mem_range.mp hk
    omega
  · rintro ⟨h1, hn⟩
    exact ⟨(m - 1).toNat, List.mem_range.mpr (by omega), by omega⟩

theorem Numbered.next {d : Db} {gameId : GameId} {n : ℕ} {m : ℤ}
    (h : (numbers d gameId).Perm (upTo n))
    (hf : RoundsService.Follows gameId m d) (hnew : ¬ d.HasNumber gameId m) : m = n + 1 := by
  obtain ⟨d₁, hgrow, rfl⟩ := hf
  rw [Numbered.hasNumber_iff h] at hnew
  cases hmax : RoundsService.maxRoundNumber d₁ gameId with
  | none =>
    rw [hmax] at hnew
    simp only [Option.getD_none] at hnew ⊢
    omega
  | some k =>
    have hk := (Numbered.hasNumber_iff h).mp (hgrow k (RoundsService.mem_maxRoundNumber hmax))
    rw [hmax] at hnew
    simp only [Option.getD_some] at hnew ⊢
    omega

theorem Numbered.step {d d' : Db} (h : Numbered d) (hs : RoundsStep d d') : Numbered d' := by
  intro g
  obtain ⟨n, hn⟩ := h g
  cases hs with
  | @touched f hd same live =>
    have hsame : numbers d' g = numbers d g := by
      simp only [numbers, hd, List.filter_map, List.map_map]
      have hf : ((fun r : GameRound => decide (r.gameId = g)) ∘ f) = fun r => decide (r.gameId = g) :=
        funext fun r => by simp [(same r).gameId]
      have hnum : (GameRound.roundNumber ∘ f) = GameRound.roundNumber :=
        funext fun r => (same r).roundNumber
      rw [hf, hnum]
    exact ⟨n, hsame ▸ hn⟩
  | @created windowMs gameId row hd hc hf =>
    have hgame : row.gameId = gameId := by rw [hc.eq_row]; rfl
    by_cases hg : row.gameId = g
    · have hnext : row.roundNumber = n + 1 := by
        rw [← hgame, hg] at hf
        have hnumber := hc.number
        rw [← hgame, hg] at hnumber
        exact Numbered.next hn hf hnumber
      refine ⟨n + 1, ?_⟩
      have happ : numbers d' g = numbers d g ++ [(n : ℤ) + 1] := by simp [numbers, hd, hg, hnext]
      rw [happ, upTo, List.range_succ, List.map_append]
      exact hn.append_right _
    · have hsame : numbers d' g = numbers d g := by simp [numbers, hd, hg]
      exact ⟨n, hsame ▸ hn⟩

theorem OneLive.step {d d' : Db} (h : OneLive d) (hs : RoundsStep d d') : OneLive d' := by
  intro g
  cases hs with
  | @touched f hd same live =>
    rw [hd, List.countP_map]
    refine Nat.le_trans (List.countP_mono_left fun r _ hr => ?_) (h g)
    simp only [Function.comp, decide_eq_true_eq, (same r).gameId] at hr ⊢
    exact ⟨hr.1, live r hr.2⟩
  | @created windowMs gameId row hd hc hf =>
    have hgame : row.gameId = gameId := by rw [hc.eq_row]; rfl
    rw [hd, List.countP_append]
    by_cases hg : gameId = g
    · have hzero : d.rounds.countP (fun r => r.gameId = g ∧ r.state.terminal = false) = 0 := by
        rw [List.countP_eq_zero]
        intro r hr hlive
        have hlive := of_decide_eq_true hlive
        exact hc.live ⟨r, hr, hlive.1.trans hg.symm, hlive.2⟩
      rw [hzero, Nat.zero_add]
      exact List.countP_le_length
    · have hzero : [row].countP (fun r => r.gameId = g ∧ r.state.terminal = false) = 0 := by
        simp [hgame, hg]
      rw [hzero, Nat.add_zero]
      exact h g

theorem Coded.step {d d' : Db} (h : Coded d) (hs : RoundsStep d d') : Coded d' := by
  cases hs with
  | @touched f hd same live =>
    intro r hr
    rw [hd, List.mem_map] at hr
    obtain ⟨r₀, hr₀, rfl⟩ := hr
    rw [(same r₀).displayCode, (same r₀).gameId, (same r₀).roundNumber]
    exact h r₀ hr₀
  | @created windowMs gameId row hd hc hf =>
    intro r hr
    rw [hd, List.mem_append, List.mem_singleton] at hr
    rcases hr with hr | rfl
    · exact h r hr
    · rw [hc.eq_row]
      rfl

theorem nodup_of_parts {α β γ : Type} [DecidableEq β] (f : α → β) (g : α → γ) {l : List α}
    (h : ∀ b, ((l.filter fun x => f x = b).map g).Nodup) : (l.map fun x => (f x, g x)).Nodup := by
  induction l with
  | nil => exact List.nodup_nil
  | cons x l ih =>
    rw [List.map_cons, List.nodup_cons]
    constructor
    · intro hx
      obtain ⟨y, hy, heq⟩ := List.mem_map.mp hx
      have hb := h (f x)
      rw [List.filter_cons_of_pos (by simp), List.map_cons, List.nodup_cons] at hb
      refine hb.1 (List.mem_map.mpr ⟨y, List.mem_filter.mpr ⟨hy, ?_⟩, congrArg Prod.snd heq⟩)
      exact decide_eq_true (congrArg Prod.fst heq)
    · refine ih fun b => (h b).sublist (List.Sublist.map _ (List.Sublist.filter _ ?_))
      exact List.sublist_cons_self x l

theorem Numbered.eq_natCast {d : Db} (h : Numbered d) {r : GameRound} (hr : r ∈ d.rounds) :
    ∃ n : ℕ, r.roundNumber = n := by
  obtain ⟨n, hn⟩ := h r.gameId
  have hmem := (Numbered.hasNumber_iff hn).mp ⟨r, hr, rfl, rfl⟩
  exact ⟨r.roundNumber.toNat, by omega⟩

theorem nodup_upTo (n : ℕ) : (upTo n).Nodup :=
  List.nodup_range.map fun a b hab => by simpa using hab

theorem Coded.nodup {d : Db} (hc : Coded d) (hn : Numbered d) :
    (d.rounds.map (·.displayCode)).Nodup := by
  have hpairs : (d.rounds.map fun r => (r.gameId, r.roundNumber)).Nodup := by
    apply nodup_of_parts _ _
    intro g
    obtain ⟨n, hperm⟩ := hn g
    exact hperm.nodup_iff.mpr (nodup_upTo n)
  have hcodes : d.rounds.map (·.displayCode) =
      (d.rounds.map fun r => (r.gameId, r.roundNumber)).map fun x =>
        RoundsService.generateDisplayCode x.1 x.2 := by
    rw [List.map_map]
    exact List.map_congr_left hc
  rw [hcodes]
  apply hpairs.map_on
  intro x hx y hy heq
  obtain ⟨r, hr, rfl⟩ := List.mem_map.mp hx
  obtain ⟨r', hr', rfl⟩ := List.mem_map.mp hy
  obtain ⟨m, hm⟩ := hn.eq_natCast hr
  obtain ⟨m', hm'⟩ := hn.eq_natCast hr'
  simp only [hm, hm'] at heq ⊢
  obtain ⟨hg, rfl⟩ := RoundsService.generateDisplayCode_inj heq
  rw [hg]

/-! The race for the next round. -/

section Race

variable {base : Db}

theorem mem_rounds_applyAll {p : GameRound → Prop} (hp : ∀ (x : Write) r, p (x.touch r) → p r)
    {ws : List Write} {d : Db} (h : ∃ r ∈ Db.rounds (applyAll (S := engine) ws d), p r) :
    (∃ r ∈ d.rounds, p r) ∨ ∃ row, .insertRound row ∈ ws ∧ p row := by
  induction ws generalizing d with
  | nil => exact .inl h
  | cons x ws ih =>
    rcases ih h with ⟨r, hr, hpr⟩ | ⟨row, hrow, hpr⟩
    · rcases mem_rounds_apply d hr with ⟨r₀, hr₀, rfl⟩ | hnew
      · exact .inl ⟨r₀, hr₀, hp x r₀ hpr⟩
      · cases x with
        | insertRound row =>
          obtain rfl : r = row := by simpa [Write.newRounds] using hnew
          exact .inr ⟨r, List.mem_cons_self, hpr⟩
        | _ => simp [Write.newRounds] at hnew
    · exact .inr ⟨row, List.mem_cons_of_mem _ hrow, hpr⟩

theorem exists_creation {p : GameRound → Prop} (hp : ∀ (x : Write) r, p (x.touch r) → p r)
    {log log' : List (Commit engine)} (hs : log <:+ log')
    (h : ∃ r ∈ Db.rounds (replay base log'), p r)
    (h₀ : ¬ ∃ r ∈ Db.rounds (replay base log), p r) :
    ∃ c older row, (c :: older) <:+ log' ∧ log <:+ older ∧ .insertRound row ∈ c.writes ∧ p row := by
  obtain ⟨front, rfl⟩ := hs
  induction front with
  | nil => exact absurd h h₀
  | cons c front ih =>
    rcases mem_rounds_applyAll hp h with h | ⟨row, hrow, hpr⟩
    · obtain ⟨c', older, row, hs, hle, hrow, hpr⟩ := ih h
      exact ⟨c', older, row, hs.trans (List.suffix_cons _ _), hle, hrow, hpr⟩
    · exact ⟨c, front ++ log, row, List.suffix_refl _, List.suffix_append _ _, hrow, hpr⟩

theorem Numbered.next_eq_natCast {d : Db} (h : Numbered d) (gameId : GameId) :
    ∃ n : ℕ, (RoundsService.maxRoundNumber d gameId).getD 0 + 1 = n := by
  cases hmax : RoundsService.maxRoundNumber d gameId with
  | none => exact ⟨1, rfl⟩
  | some k =>
    obtain ⟨r, hr, -, hk⟩ := RoundsService.mem_maxRoundNumber hmax
    obtain ⟨n, hn⟩ := h.eq_natCast hr
    exact ⟨n + 1, by simp [← hk, hn]⟩

def CreatedSince (gameId : GameId) (m : Mark engine) (log : List (Commit engine))
    (c : Commit engine) : Prop :=
  ∃ older row, (c :: older) <:+ log ∧ m.index ≤ older.length ∧ .insertRound row ∈ c.writes ∧
    row.gameId = gameId

theorem Raced.created {windowMs : ℕ} {gameId : GameId} {m : Mark engine} {log : List (Commit engine)}
    (h : Raced base windowMs gameId m log) (hlive : RoundsService.liveRound m.db gameId = none)
    (hn : ∀ log', log' <:+ log → Numbered (replay base log'))
    (hc : ∀ log', log' <:+ log → Coded (replay base log')) :
    ∃ c, CreatedSince gameId m log c := by
  obtain ⟨id, opensAt, log₁, log₂, log₃, h₁₂, h₂₃, h₃, hindex, hdb, htaken⟩ := h.logs
  have hnumber (hr : ∃ r ∈ Db.rounds (replay base log₃), r.gameId = gameId ∧
      r.roundNumber = (RoundsService.maxRoundNumber (replay base log₂) gameId).getD 0 + 1) :
      ∃ c, CreatedSince gameId m log c := by
    obtain ⟨c, older, row, hs, hle, hrow, hg, -⟩ := exists_creation
      (fun x r => by rw [(x.same_touch r).gameId, (x.same_touch r).roundNumber]; exact fun hr => hr)
      h₂₃ hr fun hold => by
        have hle := RoundsService.le_maxRoundNumber hold
        omega
    exact ⟨c, older, row, hs.trans h₃, hindex ▸ (h₁₂.trans hle).length_le, hrow, hg⟩
  rcases htaken with hcode | hr | hr
  · obtain ⟨r, hr, hcode⟩ := hcode
    obtain ⟨n, hn'⟩ := (hn _ h₃).eq_natCast hr
    obtain ⟨k, hk⟩ := (hn _ (h₂₃.trans h₃)).next_eq_natCast gameId
    have heq := (hc _ h₃ r hr).symm.trans hcode
    simp only [RoundsService.roundRow, hn', hk] at heq
    obtain ⟨hg, rfl⟩ := RoundsService.generateDisplayCode_inj heq
    exact hnumber ⟨r, hr, hg, hn'.trans hk.symm⟩
  · exact hnumber hr
  · have hgone : ¬ ∃ r ∈ Db.rounds (replay base log₁), r.gameId = gameId ∧ r.state.terminal = false :=
      RoundsService.not_hasLive (hdb ▸ hlive)
    obtain ⟨c, older, row, hs, hle, hrow, hg, -⟩ := exists_creation
      (fun x r => by rw [(x.same_touch r).gameId]; exact fun hr => ⟨hr.1, Write.live_touch hr.2⟩)
      (h₁₂.trans h₂₃) hr hgone
    exact ⟨c, older, row, hs.trans h₃, hindex ▸ hle.length_le, hrow, hg⟩

end Race

structure LostRace (s : State engine) (i : ℕ) (gameId : GameId) (m : Mark engine) : Prop where
  proc : ∃ p windowMs, s.procs i = some p ∧ p.call = .reconcile windowMs gameId ∧
    p.prog.Ends (.ok ()) ∧ [m] <:+ p.loc.trace
  tag : m.tag = .findLiveRound
  absent : RoundsService.liveRound m.db gameId = none
  quiet : own i s.world.log = []

structure RoundsInOrder (d : Db) : Prop where
  live : OneLive d
  numbered : Numbered d

section Run

variable {K : Policy engine} {base : Db} {s : State engine}

theorem suffix_singleton {α : Type} {a b : α} {l : List α} (ha : [a] <:+ l) (hb : [b] <:+ l) :
    a = b := by
  have hle := List.suffix_of_suffix_length_le ha hb (Nat.le_refl _)
  exact List.cons_eq_cons.mp (hle.eq_of_length rfl) |>.1

theorem EngineRun.lostRace (h : EngineRun K base s) (hn : Numbered base) (hc : Coded base) {i : ℕ}
    {gameId : GameId} {m : Mark engine} (hl : LostRace s i gameId m) :
    ∃ c, CreatedSince gameId m s.world.log c ∧ c.proc ≠ i := by
  obtain ⟨p, windowMs, hp, hcall, hr, hm⟩ := hl.proc
  obtain ⟨w, hrely, hdone⟩ := h.outcome hp hr
  have hquiet : own i w.log = [] := hrely.own.symm.trans hl.quiet
  have hkept {I : Db → Prop} (h₀ : I base) (hI : ∀ d d', I d → RoundsStep d d' → I d')
      (log' : List (Commit engine)) (hs : log' <:+ w.log) : I (replay base log') :=
    (h.chronicle.suffix (hs.trans hrely.log)).keeps h₀ fun c d hcd hd => hI d _ hd hcd.step
  rw [hcall] at hdone
  cases hdone with
  | committed hown => rw [hquiet] at hown; cases hown
  | idle _ hm' hlive =>
    obtain rfl := suffix_singleton hm hm'
    exact absurd hl.absent hlive
  | raced _ hm' hraced =>
    obtain rfl := suffix_singleton hm hm'
    obtain ⟨c, older, row, hs, hle, hrow, hg⟩ := hraced.created hl.absent
      (hkept hn fun _ _ hd hs => hd.step hs) (hkept hc fun _ _ hd hs => hd.step hs)
    have hs' := hs.trans hrely.log
    refine ⟨c, ⟨older, row, hs', hle, hrow, hg⟩, fun hi => ?_⟩
    have hmem : c ∈ own i s.world.log := mem_own.mpr ⟨hs'.subset List.mem_cons_self, hi⟩
    rw [hl.quiet] at hmem
    cases hmem

/-- Engines that run at once never break the numbering of a game, and are blocked only by each other. -/
theorem roundsInOrder_of_run (h : EngineRun K base s) (h₀ : RoundsInOrder base) :
    RoundsInOrder s.world.db ∧
    (Coded base → (Db.rounds s.world.db).Pairwise (fun r r' => r.displayCode ≠ r'.displayCode) ∧
      ∀ i gameId m, LostRace s i gameId m →
        ∃ c, CreatedSince gameId m s.world.log c ∧ c.proc ≠ i) := by
  have hkept {I : Db → Prop} (h₀ : I base) (hI : ∀ d d', I d → RoundsStep d d' → I d') :
      I s.world.db := by
    rw [h.invariant.ok.db_eq]
    exact h.chronicle.keeps h₀ fun c d hcd hd => hI d _ hd hcd.step
  have hnumbered := hkept h₀.numbered fun _ _ hd hs => hd.step hs
  refine ⟨⟨hkept h₀.live fun _ _ hd hs => hd.step hs, hnumbered⟩, fun hc => ⟨?_, ?_⟩⟩
  · have hcoded := hkept hc fun _ _ hd hs => hd.step hs
    exact List.pairwise_map.mp (hcoded.nodup hnumbered)
  · exact fun i gameId m hl => h.lostRace h₀.numbered hc hl

end Run

def raceRun : List (Label engine) :=
  [.spawn 0 (.reconcile 60 .tripleChanceTimer), .spawn 1 (.reconcile 60 .tripleChanceTimer), .run 0,
    .run 1, .run 0, .run 1, .input 0 40, .input 1 41, .mint 0 roundId, .mint 1 (.ofNat 8), .run 0,
    .run 0, .run 0, .run 0, .run 0, .run 1, .run 1, .run 1]

def lostRaceOf (s : State engine) (i windowMs : ℕ) (gameId : GameId) : Bool :=
  (own i s.world.log).isEmpty ∧ (s.procs i).any fun p => p.call = .reconcile windowMs gameId ∧
    p.prog.result = some (.ok ()) ∧ p.loc.trace.getLast?.any fun m =>
      m.tag = .findLiveRound ∧ RoundsService.liveRound m.db gameId = none

theorem exists_lostRace {s : State engine} {i windowMs : ℕ} {gameId : GameId}
    (h : lostRaceOf s i windowMs gameId = true) : ∃ m, LostRace s i gameId m := by
  simp only [lostRaceOf, Bool.decide_and, Bool.and_eq_true, List.isEmpty_iff,
    Option.any_eq_true, decide_eq_true_eq] at h
  obtain ⟨hquiet, p, hp, hcall, hres, m, hm, htag, hlive⟩ := h
  obtain ⟨front, hfront⟩ := List.getLast?_eq_some_iff.mp hm
  exact ⟨m, ⟨p, windowMs, hp, hcall, hres, ⟨front, hfront.symm⟩⟩, htag, hlive, hquiet⟩

theorem roundsInOrder_after_race :
    ∃ s, (Policy.calls fun _ => True).steps engineBody (initial emptyDb []) raceRun = some s ∧
      RoundsInOrder s.world.db ∧ ∃ m c, LostRace s 1 .tripleChanceTimer m ∧
        CreatedSince .tripleChanceTimer m s.world.log c ∧ c.proc ≠ 1 := by
  have hrun : ((Policy.calls fun _ => True).steps engineBody (initial emptyDb []) raceRun).map
      (fun s => lostRaceOf s 1 60 .tripleChanceTimer) = some true := by decide
  obtain ⟨s, hs, hlost⟩ := Option.map_eq_some_iff.mp hrun
  have hknown : ∀ x, emptyDb.Known x → x ∈ ([] : List Uuid) := by
    rintro x (h | h | h | h | h) <;> simp [emptyDb] at h
  have hstart : RoundsInOrder emptyDb := ⟨fun _ => Nat.zero_le 1, fun _ => ⟨0, .nil⟩⟩
  obtain ⟨horder, hrace⟩ := roundsInOrder_of_run (.steps hknown hs) hstart
  obtain ⟨m, hm⟩ := exists_lostRace hlost
  have hcoded : Coded emptyDb := fun r hr => by cases hr
  obtain ⟨c, hc, hne⟩ := (hrace hcoded).2 1 .tripleChanceTimer m hm
  exact ⟨s, hs, horder, m, c, hm, hc, hne⟩

end JitoGame
