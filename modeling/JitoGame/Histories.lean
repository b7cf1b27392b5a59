import JitoGame.Isolation
import JitoGame.Replays

namespace JitoGame

open Transactions BetsService

variable {d : Db}

structure Request where
  params : PlaceBetParams
  rounds : List GameRound
  now : ℕ
  fault : Bool

inductive Served : Db → List (Request × Except Err (Option Reply)) → Db → Prop
  | nil (d : Db) : Served d [] d
  | cons {d d' : Db} {l : List (Request × Except Err (Option Reply))} {req : Request} {σ : State sql}
      {q : Proc sql} {r : Except Err Res}
      (h : Serves body Db.Mentions { d with rounds := req.rounds } (Call.placeBet req.params) σ)
      (hq : σ.procs 0 = some q) (hr : q.prog.Ends r) (hfault : q.loc.faulted = req.fault)
      (hnow : Clocked req.now q.loc) (hl : Served σ.world.db l d') :
      Served d ((req, outcome r) :: l) d'

def Player.answer (req : Request) (pl : Player) : Except Err (Option Reply) × Player :=
  if req.fault then (.error .fault, pl)
  else ((pl.turn req.rounds req.now req.params).1.map some, (pl.turn req.rounds req.now req.params).2)

theorem Turn.answer {req : Request} {r : Except Err Res} {s : Local sql} {d' : Db}
    (h : Turn { d with rounds := req.rounds } req.params r s d') (hfault : s.faulted = req.fault)
    (hnow : Clocked req.now s) : (playerOf d req.params.userId).answer req =
      (outcome r, playerOf d' req.params.userId) := by
  rw [Player.answer]
  cases hf : req.fault with
  | true =>
    obtain ⟨rfl, hpl⟩ := h.fault (hfault.trans hf)
    rw [hpl]
    rfl
  | false =>
    obtain ⟨hout, hpl⟩ := h.turn (hfault.trans hf) req.now hnow _ rfl
    rw [hout, hpl]
    rfl

def requestsOf (userId : Uuid) (l : List (Request × Except Err (Option Reply))) :
    List (Request × Except Err (Option Reply)) := l.filter fun x => x.1.params.userId = userId

def Player.answers (pl : Player) : List Request → List (Except Err (Option Reply))
  | [] => []
  | req :: reqs => (pl.answer req).1 :: (pl.answer req).2.answers reqs

theorem Served.answers_eq {d' : Db} {l : List (Request × Except Err (Option Reply))}
    (h : Served d l d') (hd : DistinctAccounts d) (userId : Uuid) :
    (requestsOf userId l).map Prod.snd =
      (playerOf d userId).answers ((requestsOf userId l).map Prod.fst) := by
  induction h with
  | nil d => rfl
  | @cons d d' l req σ q r h hq hr hfault hnow hl ih =>
    have hturn := turn_of_serves h hd hq hr
    have ih := ih hturn.accounts
    by_cases hu : req.params.userId = userId
    · have hhead : requestsOf userId ((req, outcome r) :: l) =
          (req, outcome r) :: requestsOf userId l := by simp [requestsOf, hu]
      have hanswer := hturn.answer hfault hnow
      rw [hu] at hanswer
      rw [hhead, List.map_cons, List.map_cons, Player.answers, hanswer, ih]
    · have hhead : requestsOf userId ((req, outcome r) :: l) = requestsOf userId l := by
        simp [requestsOf, hu]
      have hpl : playerOf σ.world.db userId = playerOf d userId := hturn.others userId (Ne.symm hu)
      rw [hhead, ih, hpl]

theorem users_do_not_interfere {d₁ d₂ : Db} {l l' : List (Request × Except Err (Option Reply))}
    {userId : Uuid} (h : Served d l d₁) (hd : DistinctAccounts d) (h' : Served d l' d₂)
    (hown : l'.map Prod.fst = (requestsOf userId l).map Prod.fst) : l' = requestsOf userId l := by
  have hall (x : Request × Except Err (Option Reply)) (hx : x ∈ l') : x.1.params.userId = userId := by
    have hfst : x.1 ∈ (requestsOf userId l).map Prod.fst := hown ▸ List.mem_map_of_mem hx
    obtain ⟨y, hy, heq⟩ := List.mem_map.mp hfst
    rw [← heq]
    exact of_decide_eq_true (List.mem_filter.mp hy).2
  have hself : requestsOf userId l' = l' :=
    List.filter_eq_self.mpr fun x hx => decide_eq_true (hall x hx)
  have hanswers : l'.map Prod.snd = (requestsOf userId l).map Prod.snd := by
    have halone := h'.answers_eq hd userId
    rw [hself] at halone
    rw [h.answers_eq hd userId, ← hown, halone]
  have hzip (x : List (Request × Except Err (Option Reply))) :
      x = (x.map Prod.fst).zip (x.map Prod.snd) := by
    have hunzip := x.zip_unzip
    rw [List.unzip_eq_map] at hunzip
    exact hunzip.symm
  rw [hzip l', hown, hanswers, ← hzip]

deriving instance DecidableEq for Db

def tableDb : Db :=
  { bettingDb with
    users := [.ofNat 1, .ofNat 3]
    accounts := [⟨.ofNat 2, .ofNat 1, 1000, 0⟩, ⟨.ofNat 4, .ofNat 3, 1000, 0⟩] }

-- with the key of `betParams`
def neighbourParams : PlaceBetParams :=
  ⟨.ofNat 3, some "k", ⟨roundId.text, .tripleChanceTimer, [⟨.singles, 7, 200⟩]⟩⟩

def seatedDb : Db :=
  { tableDb with
    accounts := [⟨.ofNat 2, .ofNat 1, 450, 1⟩, ⟨.ofNat 4, .ofNat 3, 1000, 0⟩]
    bets := [⟨.ofNat 20, .ofNat 1, roundId, 550, .accepted, "k", 5⟩]
    betItems := [⟨.ofNat 20, .singles, 7, 450⟩, ⟨.ofNat 20, .doubles, 72, 100⟩]
    transactions := [⟨.ofNat 21, .ofNat 2, .debit, 550, 1000, 450, .betPlaced, some (.ofNat 20),
      ledgerIdempotencyKey (.ofNat 20), some (description roundId.text), 6⟩] }

def requestOf (params : PlaceBetParams) : Request := ⟨params, bettingDb.rounds, 0, false⟩

def serving (d : Db) (used : List Uuid) (params : PlaceBetParams) : State sql :=
  (initial d used).move 0 ⟨.placeBet params, body (.placeBet params), .idle⟩
    (initial d used).world (initial d used).owner

def servedRun (betId transactionId : ℕ) : List (Label sql) :=
  [.run 0, .run 0, .run 0] ++ restOfPlacement 0 betId transactionId

def settles (params : PlaceBetParams) (result : PlaceBetResult) (σ : State sql) : Bool :=
  answered σ 0 (.placeBet params) (.ok (.bet result)) ∧
    (σ.procs 0).any fun q => q.loc.trace.all fun m => m.tag = .lockRound → m.now = 0

theorem served_cons {d d' : Db} {l : List (Request × Except Err (Option Reply))} {used : List Uuid}
    {params : PlaceBetParams} {result : PlaceBetResult} {labels : List (Label sql)} {σ : State sql}
    (hd : { d with rounds := bettingDb.rounds } = d) (hused : ∀ x, d.Mentions x → x ∈ used)
    (hs : (Policy.calls fun _ => False).steps body (serving d used params) labels = some σ)
    (hr : settles params result σ = true) (hl : Served σ.world.db l d') :
    Served d ((requestOf params, .ok (some result.reply)) :: l) d' := by
  obtain ⟨hanswered, hclock⟩ := of_decide_eq_true hr
  obtain ⟨q, hq, -, hfault, hends⟩ := proc_of_answered hanswered
  have hserves : Serves body Db.Mentions { d with rounds := bettingDb.rounds }
      (Call.placeBet params) σ := by
    rw [hd]
    exact ⟨used, hused, Policy.reachable_steps _ .refl hs⟩
  refine Served.cons (r := .ok (.bet result)) hserves hq hends hfault (fun m hm => ?_) hl
  rw [hq] at hclock
  exact of_decide_eq_true (List.all_eq_true.mp hclock m hm)

theorem mentions_tableDb : ∀ x, tableDb.Mentions x → x ∈ [roundId] := by
  rintro x (hx | ⟨t, ht, -⟩)
  · cases hx with
    | round h => simp_all [tableDb, bettingDb]
    | _ h => simp [tableDb, bettingDb] at h
  · simp [tableDb, bettingDb] at ht

theorem mentions_seatedDb :
    ∀ x, seatedDb.Mentions x → x ∈ [roundId, .ofNat 20, .ofNat 21] := by
  rintro x (hx | ⟨t, ht, hx⟩)
  · cases hx with
    | round h => simp_all [seatedDb, tableDb, bettingDb]
    | bet h => simp_all [seatedDb]
    | item h =>
      simp only [seatedDb, List.mem_cons, List.not_mem_nil, or_false] at h
      rcases h with rfl | rfl <;> simp
    | transaction h => simp_all [seatedDb]
    | adminLog h => simp [seatedDb, tableDb, bettingDb] at h
  · obtain rfl := List.mem_singleton.mp ht
    rcases hx with hx | hx
    · cases hx
      simp
    · cases ledgerIdempotencyKey_inj hx
      simp

def placedByNeighbour (betId : ℕ) : PlaceBetResult :=
  ⟨.ofNat betId, roundId.text, 200, 800, .accepted, 5, false⟩

theorem users_do_not_interfere_at_a_table : ∃ d₁ d₂,
    Served tableDb [(requestOf betParams, .ok (some placedFirst.reply)),
      (requestOf neighbourParams, .ok (some (placedByNeighbour 22).reply))] d₁ ∧
    Served tableDb [(requestOf neighbourParams, .ok (some (placedByNeighbour 30).reply))] d₂ ∧
    [(requestOf neighbourParams, .ok (some (placedByNeighbour 30).reply))] =
      requestsOf (.ofNat 3) [(requestOf betParams, .ok (some placedFirst.reply)),
        (requestOf neighbourParams, .ok (some (placedByNeighbour 22).reply))] := by
  have hfirst : ((Policy.calls fun _ => False).steps body (serving tableDb [roundId] betParams)
      (servedRun 20 21)).map (fun σ =>
        (settles betParams placedFirst σ, decide (σ.world.db = seatedDb))) = some (true, true) := by
    decide
  have hsecond : ((Policy.calls fun _ => False).steps body
      (serving seatedDb [roundId, .ofNat 20, .ofNat 21] neighbourParams) (servedRun 22 23)).map
        (settles neighbourParams (placedByNeighbour 22)) = some true := by decide
  have halone : ((Policy.calls fun _ => False).steps body (serving tableDb [roundId] neighbourParams)
      (servedRun 30 31)).map (settles neighbourParams (placedByNeighbour 30)) = some true := by decide
  obtain ⟨σ₁, hσ₁, h₁⟩ := Option.map_eq_some_iff.mp hfirst
  obtain ⟨σ₂, hσ₂, h₂⟩ := Option.map_eq_some_iff.mp hsecond
  obtain ⟨σ, hσ, h⟩ := Option.map_eq_some_iff.mp halone
  obtain ⟨hplaced, hseated⟩ := Prod.mk.inj h₁
  have hrest : Served σ₁.world.db
      [(requestOf neighbourParams, .ok (some (placedByNeighbour 22).reply))] σ₂.world.db := by
    rw [of_decide_eq_true hseated]
    exact served_cons rfl mentions_seatedDb hσ₂ h₂ (.nil _)
  have hboth := served_cons rfl mentions_tableDb hσ₁ hplaced hrest
  have hone := served_cons rfl mentions_tableDb hσ h (.nil _)
  exact ⟨_, _, hboth, hone, users_do_not_interfere hboth (by unfold DistinctAccounts; decide) hone rfl⟩

end JitoGame
