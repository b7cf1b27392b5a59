import JitoGame.BetLedger
import JitoGame.MutationTwins
import JitoGame.Transactions.Sequential

namespace JitoGame

open Transactions BetsService

/-! What the bets are to one user. -/

structure Reply where
  roundId : String
  totalAmountMinor : ℤ
  balanceMinor : ℤ
  status : BetStatus
  replayed : Bool
  deriving DecidableEq

structure Slip where
  roundId : Uuid
  totalAmountMinor : ℤ
  status : BetStatus
  idempotencyKey : String
  items : List MergedItem
  balanceAfterMinor : Option ℤ
  deriving DecidableEq

structure Player where
  balanceMinor : Option ℤ
  slips : List Slip
  deriving DecidableEq

namespace Slip

def amountOn (slip : Slip) (key : String) : Option ℤ :=
  (slip.items.reverse.find? fun m => itemKey m.category m.selection = key).map (·.amountMinor)

def matchesReplay (slip : Slip) (roundId : String) (p : Placement) : Bool :=
  slip.roundId.text = roundId ∧ slip.totalAmountMinor = p.totalAmountMinor ∧
    slip.items.length = p.merged.length ∧
    p.merged.all fun m => slip.amountOn (itemKey m.category m.selection) = some m.amountMinor

def reply (slip : Slip) : Reply :=
  ⟨slip.roundId.text, centipointsToNumber slip.totalAmountMinor,
    centipointsToNumber (slip.balanceAfterMinor.getD 0), slip.status, true⟩

end Slip

def MergedItem.fits (m : MergedItem) : Bool :=
  fitsBigint m.amountMinor ∧ 0 < m.amountMinor ∧
    m.category.range.1 ≤ m.selection ∧ m.selection ≤ m.category.range.2

def Placement.fits (p : Placement) (roundId : String) (balanceMinor : ℤ) : Bool :=
  fitsBigint p.totalAmountMinor ∧ fitsVarchar 120 p.idempotencyKey ∧ p.merged.all MergedItem.fits ∧
    fitsBigint balanceMinor ∧ fitsBigint (balanceMinor - p.totalAmountMinor) ∧
    fitsText (description roundId)

namespace Player

def accept (pl : Player) (roundId : Uuid) (p : Placement) (balanceMinor : ℤ) : Player :=
  ⟨some (balanceMinor - p.totalAmountMinor), pl.slips ++ [⟨roundId, p.totalAmountMinor, .accepted,
    p.idempotencyKey, p.merged, some (balanceMinor - p.totalAmountMinor)⟩]⟩

def accepted (dto : PlaceBetDto) (p : Placement) (balanceMinor : ℤ) : Reply :=
  ⟨dto.roundId, centipointsToNumber p.totalAmountMinor,
    centipointsToNumber (balanceMinor - p.totalAmountMinor), .accepted, false⟩

def bet (rounds : List GameRound) (now : ℕ) (params : PlaceBetParams) (p : Placement)
    (pl : Player) : Except Err (Reply × Player) :=
  match Uuid.parse params.dto.roundId with
  | none => throw .databaseError
  | some roundId => do
    let _ ← validateRound params.dto.gameId ((rounds.find? fun r => r.id = roundId).map fun r =>
      ⟨r.id, r.gameId, r.state, r.bettingDeadline ≤ now⟩)
    PointsLedgerService.assertPositiveAmount p.totalAmountMinor
    match pl.balanceMinor with
    | none => throw (.noPointsAccount params.userId)
    | some balanceMinor =>
      if balanceMinor < p.totalAmountMinor then
        throw (.insufficientPoints p.totalAmountMinor balanceMinor)
      else if p.fits params.dto.roundId balanceMinor then
        pure (accepted params.dto p balanceMinor, pl.accept roundId p balanceMinor)
      else throw .databaseError

/-- What a request of this user is answered, and what it makes of him. The rounds and the time are
all it finds of the rest of the system. -/
def place (rounds : List GameRound) (now : ℕ) (params : PlaceBetParams) (pl : Player) :
    Except Err (Reply × Player) := do
  let p ← validate params
  match pl.slips.find? fun slip => slip.idempotencyKey = p.idempotencyKey with
  | some slip =>
    if slip.matchesReplay params.dto.roundId p then pure (slip.reply, pl)
    else throw .betIdempotencyKeyReused
  | none => pl.bet rounds now params p

def turn (rounds : List GameRound) (now : ℕ) (params : PlaceBetParams) (pl : Player) :
    Except Err Reply × Player :=
  match pl.place rounds now params with
  | .ok (reply, pl') => (.ok reply, pl')
  | .error e => (.error e, pl)

end Player

/-! A user in the tables. -/

def PlaceBetResult.reply (result : PlaceBetResult) : Reply :=
  ⟨result.roundId, result.totalAmountMinor, result.balanceMinor, result.status, result.replayed⟩

def BetItem.merged (i : BetItem) : MergedItem := ⟨i.category, i.selection, i.amountMinor⟩

def slipOf (d : Db) (b : Bet) : Slip :=
  ⟨b.roundId, b.totalAmountMinor, b.status, b.idempotencyKey, (d.itemsOf b.id).map (·.merged),
    (d.debitOf b.id).map (·.balanceAfterMinor)⟩

def playerOf (d : Db) (userId : Uuid) : Player :=
  ⟨(d.accountOf userId).map (·.balanceMinor), (d.bets.filter (·.userId = userId)).map (slipOf d)⟩

theorem find_slips (d : Db) (userId : Uuid) (key : String) :
    ((playerOf d userId).slips.find? fun slip => slip.idempotencyKey = key) =
      (d.betOf userId key).map (slipOf d) := by
  rw [playerOf, List.find?_map, List.find?_filter, Db.betOf]
  congr 2
  funext b
  simp only [Function.comp_apply, decide_eq_true_eq]
  rfl

theorem matchesReplay_slipOf (d : Db) (b : Bet) (roundId : String) (p : Placement) :
    (slipOf d b).matchesReplay roundId p = matchesReplay b (d.itemsOf b.id) roundId p := by
  have hamount (key : String) : (slipOf d b).amountOn key =
      ((d.itemsOf b.id).reverse.find? fun i => itemKey i.category i.selection = key).map
        (·.amountMinor) := by
    rw [Slip.amountOn, slipOf, ← List.map_reverse, List.find?_map, Option.map_map]
    rfl
  simp only [Slip.matchesReplay, matchesReplay, itemsMatch, hamount]
  simp [slipOf]

theorem reply_slipOf (d : Db) (b : Bet) :
    (slipOf d b).reply = (replayResult b (d.debitOf b.id)).reply := rfl

theorem mem_text {u : Uuid} {c : Char} (h : c ∈ u.text.toList) :
    c = '-' ∨ c ∈ u.digits.map Uuid.hexDigit := by
  simp only [Uuid.text, String.toList_ofList, List.cons_append, List.append_assoc, List.mem_append,
    List.mem_cons] at h
  rcases h with h | h | h | h | h | h | h | h | h
  · exact .inr (List.mem_of_mem_take h)
  · exact .inl h
  · exact .inr (List.mem_of_mem_drop (List.mem_of_mem_take h))
  · exact .inl h
  · exact .inr (List.mem_of_mem_drop (List.mem_of_mem_take h))
  · exact .inl h
  · exact .inr (List.mem_of_mem_drop (List.mem_of_mem_take h))
  · exact .inl h
  · exact .inr (List.mem_of_mem_drop h)

theorem length_text (u : Uuid) : u.text.length = 36 := by
  rw [Uuid.text, String.length_ofList]
  simp [u.length_eq]

theorem fits_ledgerIdempotencyKey (betId : Uuid) :
    fitsVarchar 120 (ledgerIdempotencyKey betId) = true := by
  have hlen : (ledgerIdempotencyKey betId).length = 46 := by
    rw [ledgerIdempotencyKey, String.length_append, length_text]
    decide
  have hdigit (d : Fin 16) : Char.ofNat 0 ≠ Uuid.hexDigit d := by
    revert d
    decide
  have htext : Char.ofNat 0 ∉ (ledgerIdempotencyKey betId).toList := by
    rw [ledgerIdempotencyKey, String.toList_append, List.mem_append]
    rintro (h | h)
    · revert h
      decide
    · rcases mem_text h with h | h
      · revert h
        decide
      · obtain ⟨d, -, hd⟩ := List.mem_map.mp h
        exact hdigit d hd.symm
  simp [fitsVarchar, fitsText, hlen, htext]

theorem ledgerIdempotencyKey_inj {x y : Uuid} (h : ledgerIdempotencyKey x = ledgerIdempotencyKey y) :
    x = y := by
  have hlist := congrArg String.toList h
  rw [ledgerIdempotencyKey, ledgerIdempotencyKey, String.toList_append, String.toList_append] at hlist
  have htext := String.toList_inj.mp (List.append_cancel_left hlist)
  have hparse := x.parse_text
  rw [htext, y.parse_text] at hparse
  exact (Option.some.inj hparse).symm

def Db.Mentions (d : Db) (x : Uuid) : Prop :=
  d.Known x ∨ ∃ t ∈ d.transactions, t.referenceId = some x ∨ t.idempotencyKey = ledgerIdempotencyKey x

def Db.Undebited (d : Db) (x : Uuid) : Prop :=
  ∀ t ∈ d.transactions, t.referenceType = .betPlaced → t.referenceId ≠ some x

theorem Db.undebited_of_mentions {d : Db} {x : Uuid} (h : ¬ d.Mentions x) : d.Undebited x :=
  fun t ht _ href => h (.inr ⟨t, ht, .inl href⟩)

theorem BetsLinked.undebited {d : Db} (h : BetsLinked d) {x : Uuid} (hx : ¬ d.Known x) :
    d.Undebited x := by
  intro t ht htype href
  obtain ⟨b, hb⟩ := h.owner t ht htype
  have hmem : b ∈ d.bets.filter fun b => t.referenceId = some b.id := hb ▸ List.mem_singleton_self b
  obtain ⟨hmem, hid⟩ := List.mem_filter.mp hmem
  have hid : t.referenceId = some b.id := of_decide_eq_true hid
  have hxb : x = b.id := Option.some.inj (href.symm.trans hid)
  exact hx (hxb ▸ .bet hmem)

theorem accountOf_posted {d d' : Db} {t : PointsTransaction} (h : d'.accounts = d.accounts.map (posted t))
    (u : Uuid) : d'.accountOf u = (d.accountOf u).map (posted t) := by
  rw [Db.accountOf, h, List.find?_map]
  have hsame : ((fun a : PointsAccount => decide (a.userId = u)) ∘ posted t) =
      fun a => decide (a.userId = u) := by
    funext a
    unfold posted
    simp only [Function.comp]
    split <;> rfl
  rw [hsame]
  rfl

theorem Posts.balance_other {d : Db} {params : ApplyLedgerMutationParams} {t : PointsTransaction}
    (h : DistinctAccounts d) (hp : Posts params t d) {u : Uuid} (hu : u ≠ params.userId) :
    ((d.accountOf u).map (posted t)).map (·.balanceMinor) = (d.accountOf u).map (·.balanceMinor) := by
  cases ha : d.accountOf u with
  | none => rfl
  | some a =>
    obtain ⟨a', ha', huser', hid, -⟩ := hp.account
    have hne : a.id ≠ t.accountId := by
      intro he
      have heq : a = a' :=
        List.inj_on_of_nodup_map h (List.mem_of_find?_eq_some ha) ha' (he.trans hid.symm)
      have hau : a.userId = u := by simpa using List.find?_some ha
      exact hu (hau.symm.trans (heq ▸ huser'))
    simp [posted, hne]

section Placed

variable {d : Db} {params : PlaceBetParams} {p : Placement} {b : Bet} {t : PointsTransaction}
variable {start : ℕ} {trace : List (Mark sql)}

theorem debitOf_new (hnew : d.Undebited b.id) (hp : Places params p b t start trace d) :
    Db.debitOf (applyAll (S := sql) (placed p b t) d) b.id = some t := by
  obtain ⟨-, -, htype, href, -⟩ := hp.entry.fields
  have hnone : d.debitOf b.id = none := by
    apply List.find?_eq_none.mpr
    intro t' ht' hdebit
    obtain ⟨htype', href'⟩ : t'.referenceType = .betPlaced ∧ t'.referenceId = some b.id := by
      simpa using hdebit
    exact hnew t' ht' htype' href'
  change (d.transactions ++ [t]).find? _ = _
  rw [List.find?_append]
  change (d.debitOf b.id).or _ = _
  have hself : t.referenceType = .betPlaced ∧ t.referenceId = some b.id := ⟨htype, href⟩
  rw [hnone, Option.none_or, List.find?_singleton, if_pos (by simpa using hself)]

theorem debitOf_placed (hp : Places params p b t start trace d) {b' : Bet} (hb' : b' ∈ d.bets) :
    Db.debitOf (applyAll (S := sql) (placed p b t) d) b'.id = d.debitOf b'.id := by
  obtain ⟨-, -, -, href, -⟩ := hp.entry.fields
  have hother : ¬ (t.referenceType = .betPlaced ∧ t.referenceId = some b'.id) := by
    rintro ⟨-, href'⟩
    rw [href] at href'
    have hid : b.id = b'.id := Option.some.inj href'
    exact hp.fresh (hid ▸ .bet hb')
  change (d.transactions ++ [t]).find? _ = _
  rw [List.find?_append]
  change (d.debitOf b'.id).or _ = _
  rw [List.find?_singleton, if_neg (by simpa using hother), Option.or_none]

theorem slipOf_placed (hp : Places params p b t start trace d) {b' : Bet} (hb' : b' ∈ d.bets) :
    slipOf (applyAll (S := sql) (placed p b t) d) b' = slipOf d b' := by
  rw [slipOf, slipOf, BetsLinked.itemsOf_placed hp b' hb', debitOf_placed hp hb']

theorem slipOf_new (hnew : d.Undebited b.id) (hp : Places params p b t start trace d) :
    slipOf (applyAll (S := sql) (placed p b t) d) b = ⟨b.roundId, p.totalAmountMinor, .accepted,
      p.idempotencyKey, p.merged, some t.balanceAfterMinor⟩ := by
  have hitems : (itemRows b.id p).map (·.merged) = p.merged := by
    rw [itemRows, List.map_map]
    exact List.map_id p.merged
  have hbet := hp.bet
  rw [slipOf, BetsLinked.itemsOf_new hp, debitOf_new hnew hp, hitems]
  rw [hbet]
  rfl

theorem accountOf_placed (u : Uuid) : Db.accountOf (applyAll (S := sql) (placed p b t) d) u =
    (d.accountOf u).map (posted t) := accountOf_posted rfl u

theorem playerOf_other (h : DistinctAccounts d) (hp : Places params p b t start trace d) {u : Uuid}
    (hu : u ≠ params.userId) :
    playerOf (applyAll (S := sql) (placed p b t) d) u = playerOf d u := by
  have huser : b.userId = params.userId := by rw [hp.bet]; rfl
  have hslips : (d.bets ++ [b]).filter (·.userId = u) = d.bets.filter (·.userId = u) := by
    rw [List.filter_append]
    simp [huser, hu.symm]
  rw [playerOf, playerOf, accountOf_placed, hp.entry.balance_other h hu]
  change Player.mk _ (((d.bets ++ [b]).filter (·.userId = u)).map _) = _
  rw [hslips]
  congr 1
  exact List.map_congr_left fun b' hb' => slipOf_placed hp (List.mem_of_mem_filter hb')

theorem playerOf_placed (hnew : d.Undebited b.id) (hp : Places params p b t start trace d)
    {a : PointsAccount} (ha : d.accountOf params.userId = some a) (hid : a.id = t.accountId)
    (hafter : t.balanceAfterMinor = a.balanceMinor - p.totalAmountMinor) :
    playerOf (applyAll (S := sql) (placed p b t) d) params.userId =
      (playerOf d params.userId).accept b.roundId p a.balanceMinor := by
  have huser : b.userId = params.userId := by rw [hp.bet]; rfl
  have hslips : (d.bets ++ [b]).filter (·.userId = params.userId) =
      d.bets.filter (·.userId = params.userId) ++ [b] := by
    rw [List.filter_append]
    simp [huser]
  have hold : ((d.bets.filter (·.userId = params.userId)).map
      (slipOf (applyAll (S := sql) (placed p b t) d))) =
        (d.bets.filter (·.userId = params.userId)).map (slipOf d) :=
    List.map_congr_left fun b' hb' => slipOf_placed hp (List.mem_of_mem_filter hb')
  rw [playerOf, accountOf_placed, ha]
  change Player.mk _ (((d.bets ++ [b]).filter (·.userId = params.userId)).map _) = _
  rw [hslips, List.map_append, hold, List.map_singleton, slipOf_new hnew hp, hafter]
  simp [posted, hid, PointsAccount.set, hafter, Player.accept, playerOf]

theorem Posts.account_of (h : Posts (mutation b.id params p) t d) : ∃ a,
    d.accountOf params.userId = some a ∧ a.id = t.accountId ∧ t.balanceBeforeMinor = a.balanceMinor ∧
      t.balanceAfterMinor = a.balanceMinor - p.totalAmountMinor ∧
      ¬ a.balanceMinor < p.totalAmountMinor := by
  obtain ⟨a, locked, hacc, hval, hrow⟩ := h.row
  have hid := PointsLedgerService.validateAccount_id hval
  simp only [PointsLedgerService.validateAccount] at hval
  split at hval
  · cases hval
  rename_i hover
  cases hval
  refine ⟨a, hacc, hid.symm.trans (by rw [hrow]; rfl), by rw [hrow]; rfl, by rw [hrow]; rfl, ?_⟩
  intro hlt
  refine hover ⟨rfl, ?_⟩
  exact Int.sub_neg_of_lt hlt

theorem Places.fits_placement (hp : Places params p b t start trace d) {a : PointsAccount}
    (hbefore : t.balanceBeforeMinor = a.balanceMinor)
    (hafter : t.balanceAfterMinor = a.balanceMinor - p.totalAmountMinor) :
    p.fits params.dto.roundId a.balanceMinor = true := by
  have hbet := hp.fits
  have hitems := hp.itemsFit
  have hrow := hp.entry.fits
  obtain ⟨-, -, -, -, -, hdescription⟩ := hp.entry.fields
  rw [hp.bet] at hbet
  have hbet := of_decide_eq_true hbet
  simp only [PointsTransaction.fits, decide_eq_true_eq, hbefore, hafter, hdescription] at hrow
  have hmerged : p.merged.all MergedItem.fits = true := by
    rw [itemRows, List.all_map] at hitems
    exact hitems
  simp only [Placement.fits, decide_eq_true_eq]
  exact ⟨hbet.1, hbet.2.1, hmerged, hrow.2.1, hrow.2.2.1, hrow.2.2.2.2.1⟩

theorem Places.place (hnew : d.Undebited b.id) (hp : Places params p b t start trace d) :
    (playerOf d params.userId).place d.rounds start params =
      .ok ((placedResult b params.dto.roundId (PointsLedgerService.toResult t false)).reply,
        playerOf (applyAll (S := sql) (placed p b t) d) params.userId) := by
  obtain ⟨a, hacc, hid, hbefore, hafter, hcovered⟩ := hp.entry.account_of
  obtain ⟨r, hr, hgame, hlockable, hdeadline⟩ := hp.round
  have hstate : ¬ (r.state ≠ .bettingOpen ∧ r.state ≠ .bettingActive) := by
    have hopen : r.state = .bettingOpen ∨ r.state = .bettingActive := of_decide_eq_true hlockable
    rcases hopen with h | h <;> simp [h]
  have hround : validateRound params.dto.gameId (some ⟨r.id, r.gameId, r.state,
      decide (r.bettingDeadline ≤ start)⟩) = .ok ⟨r.id, r.gameId, r.state,
        decide (r.bettingDeadline ≤ start)⟩ := by
    rw [validateRound, if_neg (not_not.mpr hgame), if_neg hstate, if_neg (by simpa using hdeadline)]
    rfl
  have hpos : ¬ p.totalAmountMinor ≤ 0 := by
    obtain ⟨-, -, hpos⟩ := hp.entry.checks
    rw [hp.entry.fields.2.1] at hpos
    exact Int.not_le.mpr hpos
  have hfits := hp.fits_placement hbefore hafter
  rw [playerOf_placed hnew hp hacc hid hafter, Player.place, hp.valid]
  change (match (playerOf d params.userId).slips.find? _ with | some slip => _ | none => _) = _
  rw [find_slips, hp.unused]
  change (playerOf d params.userId).bet d.rounds start params p = _
  simp only [Player.bet, hp.roundId]
  change (validateRound params.dto.gameId ((d.roundOf b.roundId).map _) >>= _) = _
  rw [hr, Option.map_some, hround]
  simp only [playerOf, hacc, Option.map_some]
  change (PointsLedgerService.assertPositiveAmount p.totalAmountMinor >>= _) = _
  rw [PointsLedgerService.assertPositiveAmount, if_neg hpos]
  change (if a.balanceMinor < p.totalAmountMinor then _ else _) = _
  rw [if_neg hcovered, if_pos hfits]
  have htotal : b.totalAmountMinor = p.totalAmountMinor := by rw [hp.bet]; rfl
  have hstatus : b.status = .accepted := by rw [hp.bet]; rfl
  have hreply : (placedResult b params.dto.roundId (PointsLedgerService.toResult t false)).reply =
      Player.accepted params.dto p a.balanceMinor := by
    simp [PlaceBetResult.reply, placedResult, PointsLedgerService.toResult, Player.accepted, htotal,
      hstatus, hafter]
  rw [hreply]
  rfl

end Placed

end JitoGame
