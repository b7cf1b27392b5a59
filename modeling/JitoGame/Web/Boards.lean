import JitoGame.Numerals
import JitoGame.Web.Stakes

namespace JitoGame.Web

open Tallies Traces

variable {g g' : GameState} {v : View} {bets : Bets} {keys : List String} {key : String}

/-! What the boards show when the pointer is over an arrow. -/

-- `total += bets[key] || 0`
def play (bets : Bets) (keys : List String) : ℤ :=
  keys.foldl (fun total key => total + amount bets key) 0

namespace DoubleBoard

def cell (r c : ℕ) : String := "double:" ++ toString r ++ toString c

def getColPlay (bets : Bets) (col : ℕ) : ℤ := play bets ((List.range 10).map fun r => cell r col)

def getRowPlay (bets : Bets) (row : ℕ) : ℤ := play bets ((List.range 10).map fun c => cell row c)

end DoubleBoard

namespace TripleBoard

variable (bets : Bets) (activeTab : ℕ)

def baseOffset : ℕ := activeTab * 100

def cell (val : ℕ) : String := "triple:" ++ toString val

def getColPlay (col : ℕ) : ℤ :=
  play bets ((List.range 10).map fun r => cell (baseOffset activeTab + r * 10 + col))

def getRowPlay (row : ℕ) : ℤ :=
  play bets ((List.range 10).map fun c => cell (baseOffset activeTab + row * 10 + c))

end TripleBoard

def GameState.rowPlay (g : GameState) : Section → ℕ → ℤ
  | .double => DoubleBoard.getRowPlay g.bets
  | .triple => TripleBoard.getRowPlay g.bets g.triplesTab

def GameState.colPlay (g : GameState) : Section → ℕ → ℤ
  | .double => DoubleBoard.getColPlay g.bets
  | .triple => TripleBoard.getColPlay g.bets g.triplesTab

theorem play_eq_sum : play bets keys = (keys.map (amount bets)).sum := by
  rw [play, List.sum_eq_foldl, List.foldl_map]

/-! Every stake is under the key of a cell. -/

def IsCell (key : String) : Prop := ∃ type value, key = cellKey type value

theorem isCell_map (type : BetType) (f : ℕ → ℕ) (l : List ℕ) :
    ∀ key ∈ l.map fun i => cellKey type (f i), IsCell key := by
  intro key hk
  obtain ⟨i, -, rfl⟩ := List.mem_map.mp hk
  exact ⟨type, f i, rfl⟩

namespace GameState

theorem lowered_keyed (h : Keyed IsCell bets) (hk : IsCell key) (stake decrement : ℤ) :
    Keyed IsCell (lowered bets key stake decrement) := by
  rw [lowered]
  split
  · exact h.erase
  · exact h.insert hk

theorem undoCells_keyed (h : Keyed IsCell bets) (chip : ℤ) (hk : ∀ key ∈ keys, IsCell key) :
    Keyed IsCell (undoCells chip keys bets).1 := by
  suffices hacc : ∀ acc : Bets × ℤ, Keyed IsCell acc.1 →
      Keyed IsCell (keys.foldl (undoCell chip) acc).1 from hacc (bets, 0) h
  induction keys with
  | nil => exact fun acc hacc => hacc
  | cons key keys ih =>
    intro acc hacc
    apply ih (fun k hk' => hk k (List.mem_cons_of_mem key hk')) _
    rw [undoCell]
    by_cases hs : 0 < amount acc.1 key
    · simp only [hs, ↓reduceIte]
      exact lowered_keyed hacc (hk key List.mem_cons_self) _ _
    · simp only [hs, ↓reduceIte]
      exact hacc

structure OnCells (g : GameState) : Prop where
  bets : Keyed IsCell g.bets
  previousBets : Keyed IsCell g.previousBets

theorem OnCells.of_bets (h : OnCells g) (hbets : Keyed IsCell g'.bets)
    (hprevious : g'.previousBets = g.previousBets) : OnCells g' :=
  ⟨hbets, hprevious ▸ h.previousBets⟩

theorem quick_onCells (h : OnCells g) (hk : ∀ key ∈ keys, IsCell key) : OnCells (g.quick keys) := by
  rw [quick]
  split
  · exact h
  · dsimp only
    split
    · exact h.of_bets h.bets rfl
    · exact h.of_bets (h.bets.foldl hk fun _ hs _ hk => hs.insert hk) rfl

theorem quickUndo_onCells (h : OnCells g) (hk : ∀ key ∈ keys, IsCell key) :
    OnCells (g.quickUndo keys) := by
  rw [quickUndo]
  split
  · exact h
  · dsimp only
    split
    · exact h
    · exact h.of_bets (undoCells_keyed h.bets _ hk) rfl

theorem handleRandomPick_onCells (h : OnCells g) (s : Section) (count : ℤ) (random : ℕ → Random) :
    OnCells (g.handleRandomPick s count random) := by
  rw [handleRandomPick]
  split
  · exact h
  · dsimp only
    split
    · exact h.of_bets h.bets rfl
    · have hcleared : Keyed IsCell ((g.sectionCells s).foldl (fun nextBets key => nextBets.erase key) g.bets) :=
        h.bets.foldl (isCell_map _ _ _) fun _ hs _ _ => hs.erase
      exact h.of_bets (hcleared.foldl (isCell_map _ _ _) fun _ hs _ hk => hs.insert hk) rfl

theorem act_onCells {a : Action} (h : OnCells g) (ha : g.act a = some g') : OnCells g' := by
  cases a with
  | place type value =>
    cases ha
    rw [handlePlaceBet]
    split
    · exact h
    · dsimp only
      split
      · exact h.of_bets h.bets rfl
      · exact h.of_bets (h.bets.insert ⟨type, value, rfl⟩) rfl
  | remove type value =>
    cases ha
    rw [handleRemoveBet]
    split
    · exact h
    · dsimp only
      split
      · exact h
      · exact h.of_bets (lowered_keyed h.bets ⟨type, value, rfl⟩ _ _) rfl
  | quickRow s row => cases ha; exact quick_onCells h (isCell_map _ _ _)
  | quickCol s col => cases ha; exact quick_onCells h (isCell_map _ _ _)
  | quickRowUndo s row => cases ha; exact quickUndo_onCells h (isCell_map _ _ _)
  | quickColUndo s col => cases ha; exact quickUndo_onCells h (isCell_map _ _ _)
  | randomPick s count random => cases ha; exact handleRandomPick_onCells h s count random
  | double =>
    cases ha
    rw [handleDouble]
    split
    · exact h
    · dsimp only
      split
      · exact h.of_bets h.bets rfl
      · exact h.of_bets (h.bets.scale 2) rfl
  | repeatLast =>
    cases ha
    rw [handleRepeat]
    split
    · exact h
    · dsimp only
      split
      · exact h.of_bets h.bets rfl
      · exact h.of_bets (h.previousBets.union h.bets) rfl
  | clear =>
    cases ha
    rw [handleClear]
    split
    · exact h
    · exact h.of_bets keyed_empty rfl
  | selectChip val =>
    simp only [act, Option.ite_none_right_eq_some, Option.some.injEq] at ha
    obtain ⟨-, rfl⟩ := ha
    exact h.of_bets h.bets rfl
  | selectTab t =>
    simp only [act, Option.ite_none_right_eq_some, Option.some.injEq] at ha
    obtain ⟨-, rfl⟩ := ha
    exact h.of_bets h.bets rfl

end GameState

theorem onCells_keeps : Preserves step fun v => v.gameState.OnCells := by
  intro v e v' hstep h
  cases step_cases hstep with
  | act ha => exact GameState.act_onCells h ha
  | countdown =>
    change GameState.OnCells v.gameState.countdown
    rw [GameState.countdown]
    split <;> exact h.of_bets h.bets rfl
  | @effects random now =>
    rcases runEffects_gameState v random now with heq | heq <;> rw [heq]
    · exact h
    · exact h.of_bets h.bets rfl
  | @poll p now drawTime =>
    rcases runPoll_gameState v p now drawTime with heq | heq <;> rw [heq]
    · exact h
    · rw [GameState.settle]
      split
      · exact h
      · exact h.of_bets h.bets rfl
  | reopen =>
    change GameState.OnCells v.gameState.reopen
    rw [GameState.reopen]
    split
    · exact h
    · exact ⟨keyed_empty, h.bets⟩
  | videoEnd => exact h

theorem onCells_initial (code : GameCode) : (initialView code).gameState.OnCells :=
  ⟨keyed_empty, keyed_empty⟩

/-! The keys of the boards and those of the handlers. -/

theorem cell_of_pos {r c : ℕ} (hr : 0 < r) (hc : c < 10) :
    DoubleBoard.cell r c = cellKey .double (r * 10 + c) := by
  apply String.toList_inj.mp
  change ("double:" ++ Nat.repr r ++ Nat.repr c).toList = ("double" ++ ":" ++ Nat.repr (r * 10 + c)).toList
  simp only [String.toList_append, Nat.toList_repr, List.append_assoc]
  rw [Nat.toDigits_append_toDigits (by decide) hr hc, mul_comm]
  rfl

/-- The handlers write `5` where the board of doubles reads `05`. -/
theorem not_isCell_zero (c : ℕ) : ¬ IsCell (DoubleBoard.cell 0 c) := by
  rintro ⟨type, value, heq⟩
  have hlist := congrArg String.toList heq
  change ("double:" ++ Nat.repr 0 ++ Nat.repr c).toList = (type.text ++ ":" ++ Nat.repr value).toList at hlist
  simp only [String.toList_append, Nat.toList_repr] at hlist
  cases type with
  | single => exact absurd (List.cons.inj hlist).1 (by decide)
  | triple => exact absurd (List.cons.inj hlist).1 (by decide)
  | double =>
    rw [List.append_assoc] at hlist
    have hdigits : '0' :: Nat.toDigits 10 c = Nat.toDigits 10 value := List.append_cancel_left hlist
    have hpos := List.length_pos_iff.mpr (Nat.toDigits_ne_nil (n := c) (b := 10))
    refine Decimals.head_toDigits (n := value) ?_ ?_ <;> rw [← hdigits]
    · rw [List.length_cons]
      omega
    · rfl

theorem amount_zero_row {g : GameState} (h : g.OnCells) (c : ℕ) :
    amount g.bets (DoubleBoard.cell 0 c) = 0 :=
  amount_of_notMem fun hmem => not_isCell_zero c (h.bets _ hmem)

theorem map_range_congr {f f' : ℕ → ℤ} (h : ∀ i < 10, f i = f' i) :
    (List.range 10).map f = (List.range 10).map f' :=
  List.map_congr_left fun i hi => h i (List.mem_range.mp hi)

theorem triple_plays (g : GameState) (i : ℕ) :
    g.rowPlay .triple i = ((g.rowCells .triple i).map (amount g.bets)).sum ∧
      g.colPlay .triple i = ((g.colCells .triple i).map (amount g.bets)).sum :=
  ⟨play_eq_sum, play_eq_sum⟩

theorem double_row {g : GameState} (h : g.OnCells) (hp : Positive g.bets) (r : ℕ) :
    g.rowPlay .double r = ((g.rowCells .double r).map (amount g.bets)).sum ↔
      0 < r ∨ ∀ c < 10, amount g.bets (cellKey .double c) = 0 := by
  simp only [GameState.rowPlay, DoubleBoard.getRowPlay, play_eq_sum, GameState.rowCells, GameState.base,
    Section.type, List.map_map, Function.comp_def, zero_add]
  rcases Nat.eq_zero_or_pos r with rfl | hr
  · have hnone : ((List.range 10).map fun _ => (0 : ℤ)).sum = 0 := rfl
    simp only [amount_zero_row h, lt_irrefl, false_or, zero_mul, zero_add, hnone]
    constructor
    · intro hsum c hc
      refine Int.le_antisymm ?_ (hp.nonneg _)
      rw [hsum]
      refine List.single_le_sum (fun x hx => ?_) _ (List.mem_map_of_mem (List.mem_range.mpr hc))
      obtain ⟨c', -, rfl⟩ := List.mem_map.mp hx
      exact hp.nonneg _
    · intro hzero
      rw [map_range_congr hzero]
      rfl
  · refine iff_of_true ?_ (.inl hr)
    rw [map_range_congr fun c hc => congrArg (amount g.bets) (cell_of_pos hr hc)]

theorem double_col {g : GameState} (h : g.OnCells) {c : ℕ} (hc : c < 10) :
    g.colPlay .double c = ((g.colCells .double c).map (amount g.bets)).sum ↔
      amount g.bets (cellKey .double c) = 0 := by
  simp only [GameState.colPlay, DoubleBoard.getColPlay, play_eq_sum, GameState.colCells, GameState.base,
    Section.type, List.map_map, Function.comp_def, zero_add]
  -- row 0 apart, the two read the same keys
  have hrest : (List.range 9).map (fun r => amount g.bets (DoubleBoard.cell (r + 1) c)) =
      (List.range 9).map fun r => amount g.bets (cellKey .double ((r + 1) * 10 + c)) :=
    List.map_congr_left fun r _ => congrArg (amount g.bets) (cell_of_pos r.succ_pos hc)
  rw [List.range_succ_eq_map, List.map_cons, List.map_cons, List.map_map, List.map_map]
  simp only [Function.comp_def, Nat.succ_eq_add_one, List.sum_cons, hrest, amount_zero_row h, zero_mul,
    zero_add]
  omega

/-- What an arrow shows is what its ten cells have, but on the board of doubles for row 0, where it
shows nothing, and for column `c`, where it leaves out the stake of cell `c`. -/
theorem boards_agree_iff {code : GameCode} {es : List Event}
    (hr : run step (initialView code) es = some v) (s : Section) {i : ℕ} (hi : i < 10) :
    (v.gameState.rowPlay s i = ((v.gameState.rowCells s i).map (amount v.gameState.bets)).sum ↔
      s = .triple ∨ 0 < i ∨ ∀ c < 10, amount v.gameState.bets (cellKey .double c) = 0) ∧
    (v.gameState.colPlay s i = ((v.gameState.colCells s i).map (amount v.gameState.bets)).sum ↔
      s = .triple ∨ amount v.gameState.bets (cellKey .double i) = 0) := by
  have honCells := onCells_keeps.run hr (onCells_initial code)
  have hfunded := funded_keeps.run hr (funded_initial code)
  cases s with
  | triple =>
    obtain ⟨hrow, hcol⟩ := triple_plays v.gameState i
    exact ⟨iff_of_true hrow (.inl rfl), iff_of_true hcol (.inl rfl)⟩
  | double =>
    rw [double_row honCells hfunded.bets, double_col honCells hi]
    simp

def stakedFive : List Event := [.effects half 0, .act (.place .double 5)]

theorem boards_staked_five : ∃ v, run step (initialView .tct) stakedFive = some v ∧
    v.gameState.rowPlay .double 3 = ((v.gameState.rowCells .double 3).map (amount v.gameState.bets)).sum ∧
    v.gameState.colPlay .double 6 = ((v.gameState.colCells .double 6).map (amount v.gameState.bets)).sum := by
  have hrun : (run step (initialView .tct) stakedFive).map
      (fun v => amount v.gameState.bets (cellKey .double 6)) = some 0 := by decide +kernel
  obtain ⟨v, hv, hnone⟩ := Option.map_eq_some_iff.mp hrun
  exact ⟨v, hv, (boards_agree_iff hv .double (i := 3) (by decide)).1.mpr (.inr (.inl (by decide))),
    (boards_agree_iff hv .double (i := 6) (by decide)).2.mpr (.inr hnone)⟩

theorem boards_miss_five : ∃ v, run step (initialView .tct) stakedFive = some v ∧
    v.gameState.rowPlay .double 0 = 0 ∧
    ((v.gameState.rowCells .double 0).map (amount v.gameState.bets)).sum = 2 ∧
    v.gameState.colPlay .double 5 = 0 ∧
    ((v.gameState.colCells .double 5).map (amount v.gameState.bets)).sum = 2 := by
  have hrun : (run step (initialView .tct) stakedFive).map (fun v => (v.gameState.rowPlay .double 0,
      ((v.gameState.rowCells .double 0).map (amount v.gameState.bets)).sum,
      v.gameState.colPlay .double 5,
      ((v.gameState.colCells .double 5).map (amount v.gameState.bets)).sum)) = some (0, 2, 0, 2) := by
    decide +kernel
  obtain ⟨v, hv, heq⟩ := Option.map_eq_some_iff.mp hrun
  simp only [Prod.mk.injEq] at heq
  exact ⟨v, hv, heq⟩

end JitoGame.Web
