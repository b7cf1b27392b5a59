import JitoGame.Transactions.Soundness
import JitoGame.Transactions.Statements
import Mathlib.Logic.Relation

namespace JitoGame.Transactions

variable {S : Schema}

/-! Who waits for whom. -/

def Proc.wants (p : Proc S) (w : World S) : Option S.Lock :=
  match p.prog with
  | .stmt _ want _ _ => want (p.loc.view w)
  | _ => none

structure Waits (s : State S) (i : ℕ) (l : S.Lock) (k : ℕ) : Prop where
  wants : ∃ p, s.procs i = some p ∧ p.wants s.world = some l
  owner : s.owner l = some k
  other : k ≠ i

def WaitsFor (s : State S) (i k : ℕ) : Prop := ∃ l, Waits s i l k

def Ready [DecidableEq S.Lock] [DecidableEq S.Id] (body : S.Call → Prog S S.Res) (s : State S) (i : ℕ) :
    Prop :=
  (∃ s', step body s (.run i) = some s') ∨ (∀ n, ∃ s', step body s (.input i n) = some s') ∨
    ∀ x, x ∉ s.world.used → ∃ s', step body s (.mint i x) = some s'

/-! Programs that take their locks in the order of a rank. -/

variable (rank : S.Lock → ℕ)

def InOrder (held : Option (List S.Lock)) (want : Option S.Lock) : Prop :=
  ∀ l, want = some l → ∃ ls, held = some ls ∧ (l ∈ ls ∨ ∀ x ∈ ls, rank x < rank l)

/-- `held` are the locks of the open transaction, if one is open. -/
def orderly {α : Type} : Prog S α → (α → Option (List S.Lock) → Prop) →
    (S.Err → Option (List S.Lock) → Prop) → Option (List S.Lock) → Prop
  | .ret a, Q, _, held => Q a held
  | .fail e, _, E, held => E e held
  | .begin k, Q, E, held => held = none ∧ orderly k Q E (some [])
  | .stmt _ want effect k, Q, E, held =>
    (∀ v, InOrder rank held (want v) ∧ (held = none → effect v = []) ∧
      orderly (k (some v)) Q E (held.map ((want v).toList ++ ·))) ∧ orderly (k none) Q E held
  | .mint k, Q, E, held => ∀ x, orderly (k x) Q E held
  | .input k, Q, E, held => ∀ n, orderly (k n) Q E held
  | .commit k, Q, E, held => held.isSome = true ∧ orderly (k true) Q E none ∧ orderly (k false) Q E none
  | .rollback k, Q, E, held => held.isSome = true ∧ orderly k Q E none

variable {rank} {α β : Type}

section Rules

variable {Q : α → Option (List S.Lock) → Prop} {E : S.Err → Option (List S.Lock) → Prop}
variable {held : Option (List S.Lock)}

theorem orderly_bind (p : Prog S β) (f : β → Prog S α) :
    orderly rank (p >>= f) Q E held ↔ orderly rank p (fun b => orderly rank (f b) Q E) E held := by
  change orderly rank (p.bind f) Q E held ↔ _
  induction p generalizing held with
  | ret a => exact Iff.rfl
  | fail e => exact Iff.rfl
  | begin k ih => simp only [Prog.bind, orderly, ih]
  | stmt tag want effect k ih => simp only [Prog.bind, orderly, ih]
  | mint k ih => simp only [Prog.bind, orderly, ih]
  | input k ih => simp only [Prog.bind, orderly, ih]
  | commit k ih => simp only [Prog.bind, orderly, ih]
  | rollback k ih => simp only [Prog.bind, orderly, ih]

theorem orderly_tryCatch (p : Prog S α) (f : S.Err → Prog S α) :
    orderly rank (tryCatch p f) Q E held ↔ orderly rank p Q (fun e => orderly rank (f e) Q E) held := by
  change orderly rank (p.handle f) Q E held ↔ _
  induction p generalizing held with
  | ret a => exact Iff.rfl
  | fail e => exact Iff.rfl
  | begin k ih => simp only [Prog.handle, orderly, ih]
  | stmt tag want effect k ih => simp only [Prog.handle, orderly, ih]
  | mint k ih => simp only [Prog.handle, orderly, ih]
  | input k ih => simp only [Prog.handle, orderly, ih]
  | commit k ih => simp only [Prog.handle, orderly, ih]
  | rollback k ih => simp only [Prog.handle, orderly, ih]

theorem orderly_mono {Q' : α → Option (List S.Lock) → Prop} {E' : S.Err → Option (List S.Lock) → Prop}
    (p : Prog S α) (h : orderly rank p Q E held) (hQ : ∀ a held, Q a held → Q' a held)
    (hE : ∀ e held, E e held → E' e held) : orderly rank p Q' E' held := by
  induction p generalizing held with
  | ret a => exact hQ _ _ h
  | fail e => exact hE _ _ h
  | begin k ih => exact ⟨h.1, ih h.2⟩
  | stmt tag want effect k ih =>
    exact ⟨fun v => ⟨(h.1 v).1, (h.1 v).2.1, ih _ (h.1 v).2.2⟩, ih _ h.2⟩
  | mint k ih => exact fun x => ih x (h x)
  | input k ih => exact fun n => ih n (h n)
  | commit k ih => exact ⟨h.1, ih _ h.2.1, ih _ h.2.2⟩
  | rollback k ih => exact ⟨h.1, ih h.2⟩

theorem orderly_check (x : Except S.Err α) : orderly rank (.check x) Q E held ↔
    (∀ a, x = .ok a → Q a held) ∧ ∀ e, x = .error e → E e held := by
  cases x with
  | ok a => simp [Prog.check, orderly]
  | error e => simp [Prog.check, orderly]

theorem orderly_require {Q : Unit → Option (List S.Lock) → Prop} (p : Prop) [Decidable p] (e : S.Err) :
    orderly rank (.require p e) Q E held ↔ (p → Q () held) ∧ (¬ p → E e held) := by
  by_cases hp : p
  · simp [Prog.require, orderly, hp]
  · simp [Prog.require, orderly, hp]

theorem orderly_select (tag : S.Tag) {Q : View S.Db → Option (List S.Lock) → Prop}
    (hE : E S.fault held) (hQ : ∀ v, Q v held) : orderly rank (Prog.select tag) Q E held := by
  refine ⟨fun v => ⟨nofun, fun _ => rfl, ?_⟩, hE⟩
  have hsame : held.map ((none : Option S.Lock).toList ++ ·) = held := by simp
  rw [hsame]
  exact hQ v

theorem orderly_transaction (body : Prog S α) (h : orderly rank body (fun a held => held.isSome = true ∧
      Q a none) (fun e held => held.isSome = true ∧ E e none) (some [])) (hE : E S.fault none) :
    orderly rank (Prog.transaction body) Q E none := by
  refine ⟨rfl, (orderly_bind _ _).mpr ((orderly_tryCatch _ _).mpr (orderly_mono _ h ?_ ?_))⟩
  · exact fun a held hQ => ⟨hQ.1, hQ.2, hE⟩
  · exact fun e held hE => hE

end Rules

structure Holding (rank : S.Lock → ℕ) (n : ℕ) (ls : List S.Lock) (held : Option (List S.Lock)) :
    Prop where
  opened : held.isSome = true
  below : ∀ x ∈ held.getD [], rank x < n
  holds : ls ⊆ held.getD []

section Holding

variable {n m : ℕ} {ls : List S.Lock} {held : Option (List S.Lock)}
variable {E : S.Err → Option (List S.Lock) → Prop}

theorem holding_begun (n : ℕ) : Holding rank n [] (some []) := ⟨rfl, nofun, List.nil_subset _⟩

theorem Holding.orderly_exec (h : Holding rank n ls held) {tag : S.Tag}
    {want : View S.Db → Option S.Lock} {effect : View S.Db → List S.Write} {Q : View S.Db → Option (List S.Lock) → Prop}
    (hle : n ≤ m) (hw : ∀ v l, want v = some l → l ∈ ls ∨ n ≤ rank l ∧ rank l < m)
    (hE : E S.fault held)
    (hQ : ∀ v held', Holding rank m ((want v).toList ++ ls) held' → Q v held') :
    orderly rank (Prog.exec tag want effect) Q E held := by
  obtain ⟨hopen, hbelow, hholds⟩ := h
  obtain ⟨held, rfl⟩ := Option.isSome_iff_exists.mp hopen
  refine ⟨fun v => ⟨fun l hl => ⟨held, rfl, ?_⟩, nofun, hQ v _ ⟨rfl, fun x hx => ?_, ?_⟩⟩, hE⟩
  · rcases hw v l hl with hmem | ⟨hn, -⟩
    · exact .inl (hholds hmem)
    · exact .inr fun x hx => Nat.lt_of_lt_of_le (hbelow x hx) hn
  · rcases List.mem_append.mp hx with hx | hx
    · rcases hw v x (Option.mem_toList.mp hx) with hmem | ⟨-, hm⟩
      · exact Nat.lt_of_lt_of_le (hbelow x (hholds hmem)) hle
      · exact hm
    · exact Nat.lt_of_lt_of_le (hbelow x hx) hle
  · exact List.append_subset.mpr ⟨List.subset_append_left _ _,
      fun x hx => List.mem_append_right _ (hholds hx)⟩

theorem Holding.orderly_insert (h : Holding rank n ls held) {tag : S.Tag} {lock : S.Lock}
    {taken : S.Db → Bool} {ws : List S.Write} {duplicate : S.Err}
    {Q : Unit → Option (List S.Lock) → Prop} (hn : n ≤ rank lock) (hm : rank lock < m)
    (hE : ∀ e held, held.isSome = true → E e held)
    (hQ : ∀ held', Holding rank m (lock :: ls) held' → Q () held') :
    orderly rank (Prog.insert tag lock taken ws duplicate) Q E held := by
  rw [Prog.insert, orderly_bind]
  refine h.orderly_exec (m := m) (by omega) (fun v l hl => ?_) (hE _ _ h.opened) fun v held' h' => ?_
  · cases hl
    exact .inr ⟨hn, hm⟩
  · rw [orderly_require]
    exact ⟨fun _ => hQ held' h', fun _ => hE _ _ h'.opened⟩

end Holding

/-! The machine. -/

def Local.locks (s : Local S) : Option (List S.Lock) := s.tx.map (·.locks)

def Local.holds (s : Local S) : List S.Lock := s.locks.getD []

def State.holds (s : State S) (i : ℕ) : List S.Lock :=
  match s.procs i with
  | some p => p.loc.holds
  | none => []

def Proc.Orderly (rank : S.Lock → ℕ) (p : Proc S) : Prop :=
  orderly rank p.prog (fun _ held => held = none) (fun _ held => held = none) p.loc.locks

structure Ordered (rank : S.Lock → ℕ) (s : State S) : Prop where
  procs : ∀ i p, s.procs i = some p → p.Orderly rank
  owned : ∀ l i, s.owner l = some i ↔ l ∈ s.holds i

section Step

variable {s s' : State S} {i : ℕ} {p q : Proc S}

theorem State.holds_of (hp : s.procs i = some p) : s.holds i = p.loc.holds := by
  rw [State.holds, hp]

theorem Ordered.move (h : Ordered rank s) (hq : q.Orderly rank) {w : World S} {o : S.Lock → Option ℕ}
    (hself : ∀ l, o l = some i ↔ l ∈ q.loc.holds)
    (hother : ∀ l j, j ≠ i → (o l = some j ↔ s.owner l = some j)) : Ordered rank (s.move i q w o) where
  procs j p hp := by
    by_cases hj : j = i
    · subst hj
      obtain rfl : q = p := by simpa [State.move] using hp
      exact hq
    · exact h.procs j p (by simpa [State.move, hj] using hp)
  owned l j := by
    by_cases hj : j = i
    · subst hj
      rw [State.holds_of (p := q) (by simp [State.move])]
      exact hself l
    · have hsame : (s.move i q w o).holds j = s.holds j := by simp [State.holds, State.move, hj]
      rw [hsame, ← h.owned l j]
      exact hother l j hj

theorem Ordered.quiet (h : Ordered rank s) (hp : s.procs i = some p) (hq : q.Orderly rank)
    (hsame : q.loc.holds = p.loc.holds) (w : World S) : Ordered rank (s.move i q w s.owner) := by
  refine h.move hq (fun l => ?_) fun _ _ _ => Iff.rfl
  rw [h.owned, State.holds_of hp, hsame]

theorem Ordered.released (h : Ordered rank s) (hq : q.Orderly rank)
    (htx : q.loc.tx = none) (w : World S) : Ordered rank (s.move i q w (release s.owner i)) := by
  have hnone : q.loc.holds = [] := by simp [Local.holds, Local.locks, htx]
  refine h.move hq (fun l => ?_) (fun l j hj => ?_)
  · rw [hnone]
    unfold release
    split
    · simp
    · rename_i hne
      simpa using hne
  · unfold release
    split
    · rename_i hi
      rw [hi]
      simpa using hj.symm
    · exact Iff.rfl

variable [DecidableEq S.Lock]

theorem Ordered.acquired (h : Ordered rank s) (hp : s.procs i = some p) (hq : q.Orderly rank)
    {want : Option S.Lock} (hfree : free s.owner i want = true)
    (hq' : ∀ l, l ∈ q.loc.holds ↔ want = some l ∨ l ∈ p.loc.holds) (w : World S) :
    Ordered rank (s.move i q w (acquire s.owner i want)) := by
  cases want with
  | none =>
    refine h.move hq (fun l => ?_) fun _ _ _ => Iff.rfl
    rw [hq' l, acquire, h.owned, State.holds_of hp]
    simp
  | some l₀ =>
    have hfree' : s.owner l₀ = none ∨ s.owner l₀ = some i := by simpa [free] using hfree
    refine h.move hq (fun l => ?_) (fun l j hj => ?_)
    · rw [hq' l, acquire, Function.update_apply, ← State.holds_of hp, ← h.owned]
      by_cases hl : l = l₀
      · simp [hl]
      · simp [hl, Ne.symm hl]
    · rw [acquire, Function.update_apply]
      by_cases hl : l = l₀
      · subst hl
        rcases hfree' with hfree' | hfree' <;> simp [hfree', hj.symm]
      · simp [hl]

variable [DecidableEq S.Id] {body : S.Call → Prog S S.Res} {ok : State S → Label S → Prop}

theorem Ordered.step (h : Ordered rank s) (hbody : ∀ c, (⟨c, body c, .idle⟩ : Proc S).Orderly rank)
    {l : Label S} (hs : Transactions.step body s l = some s') : Ordered rank s' := by
  cases stepped_of_step hs with
  | @spawn i c hi =>
    refine h.move (hbody c) (fun l => ?_) fun _ _ _ => Iff.rfl
    rw [h.owned, State.holds, hi]
    simp [Local.holds, Local.locks, Local.idle]
  | @begin i c loc k hp htx =>
    have hnone : loc.tx = none := Option.isNone_iff_eq_none.mp htx
    have hsame : (loc.begun s.world).holds = loc.holds := by
      simp [Local.holds, Local.locks, Local.begun, hnone]
    exact h.quiet (q := ⟨c, k, loc.begun s.world⟩) hp (h.procs i _ hp).2 hsame _
  | @stmt i c loc tag want effect k hp hfree =>
    obtain ⟨hin, -, hk⟩ := (h.procs i _ hp).1 (loc.view s.world)
    refine h.acquired hp ?_ hfree (fun l => ?_) s.world
    · have hlocks : (loc.exec tag (want (loc.view s.world)) (effect (loc.view s.world)) s.world).locks =
          loc.locks.map ((want (loc.view s.world)).toList ++ ·) := by
        simp only [Local.exec, Local.locks, Option.map_map]
        rfl
      rw [Proc.Orderly, hlocks]
      exact hk
    · cases htx : loc.tx with
      | none =>
        have hnone : want (loc.view s.world) ≠ some l := by
          intro hl
          obtain ⟨ls, hls, -⟩ := hin l hl
          simp [Local.locks, htx] at hls
        simp [Local.exec, Local.holds, Local.locks, htx, hnone]
      | some t => simp [Local.exec, Local.holds, Local.locks, htx, Option.mem_toList]
  | @commit i c loc k t hp ht =>
    exact h.released (q := ⟨c, k true, loc.ended⟩) (h.procs i _ hp).2.1 rfl _
  | @rollback i c loc k hp => exact h.released (q := ⟨c, k, loc.ended⟩) (h.procs i _ hp).2 rfl _
  | @failStmt i c loc tag want effect k hp =>
    exact h.quiet (q := ⟨c, k none, loc.fault⟩) hp (h.procs i _ hp).2 rfl _
  | @failCommit i c loc k hp =>
    exact h.released (q := ⟨c, k false, loc.ended.fault⟩) (h.procs i _ hp).2.2 rfl _
  | @mint i c loc k x hp => exact h.quiet (q := ⟨c, k x, loc.mint x⟩) hp (h.procs i _ hp x) rfl _
  | @input i n c loc k hp => exact h.quiet (q := ⟨c, k n, loc⟩) hp (h.procs i _ hp n) rfl _
  | tick d => exact ⟨h.procs, h.owned⟩

theorem Ordered.reachable (hbody : ∀ c, (⟨c, body c, .idle⟩ : Proc S).Orderly rank) {d : S.Db}
    {used : List S.Id} (h : Reachable body ok (initial d used) s) : Ordered rank s := by
  induction h with
  | refl => exact ⟨nofun, fun l i => by simp [initial, State.holds]⟩
  | step _ _ hs ih => exact ih.step hbody hs

end Step

section Cycle

variable {s : State S} {i j k : ℕ} {l l' : S.Lock}

theorem Ordered.waits (h : Ordered rank s) (hw : Waits s i l k) : ∃ q t, s.procs k = some q ∧
    q.loc.tx = some t ∧ l ∈ t.locks := by
  have hmem := (h.owned l k).mp hw.owner
  cases hq : s.procs k with
  | none =>
    simp only [State.holds, hq] at hmem
    cases hmem
  | some q =>
    rw [State.holds_of hq] at hmem
    cases ht : q.loc.tx with
    | none =>
      simp only [Local.holds, Local.locks, ht] at hmem
      cases hmem
    | some t =>
      simp only [Local.holds, Local.locks, ht, Option.map_some, Option.getD_some] at hmem
      exact ⟨q, t, rfl, ht, hmem⟩

theorem Ordered.rank_lt (h : Ordered rank s) (hi : Waits s i l j) (hj : Waits s j l' k) :
    rank l < rank l' := by
  obtain ⟨q, t, hq, ht, hmem⟩ := h.waits hi
  obtain ⟨q', hq', hwants⟩ := hj.wants
  obtain rfl : q = q' := Option.some.inj (hq.symm.trans hq')
  have ho := h.procs j q hq
  obtain ⟨c, prog, loc⟩ := q
  cases prog with
  | stmt tag want effect k =>
    obtain ⟨ls, hls, hin⟩ := (ho.1 (loc.view s.world)).1 l' hwants
    have ht' : loc.tx = some t := ht
    obtain rfl : t.locks = ls := by simpa [Local.locks, ht'] using hls
    rcases hin with hown | hlt
    · have hself : s.owner l' = some j := by
        rw [h.owned, State.holds_of hq]
        simpa [Local.holds, Local.locks, ht'] using hown
      exact absurd (Option.some.inj (hj.owner.symm.trans hself)) hj.other
    · exact hlt l hmem
  | _ => cases hwants

theorem Ordered.rank_lt_of_trans (h : Ordered rank s) (hij : Relation.TransGen (WaitsFor s) i j)
    (hj : Waits s j l' k) : ∃ l k, Waits s i l k ∧ rank l < rank l' := by
  induction hij generalizing l' k with
  | single hw =>
    obtain ⟨l, hw⟩ := hw
    exact ⟨l, _, hw, h.rank_lt hw hj⟩
  | tail _ hw ih =>
    obtain ⟨l₁, hw⟩ := hw
    obtain ⟨l, k', hwaits, hlt⟩ := ih hw
    exact ⟨l, k', hwaits, Nat.lt_trans hlt (h.rank_lt hw hj)⟩

theorem Waits.unique {k' : ℕ} (h : Waits s i l k) (h' : Waits s i l' k') : l = l' := by
  obtain ⟨p, hp, hl⟩ := h.wants
  obtain ⟨p', hp', hl'⟩ := h'.wants
  obtain rfl := Option.some.inj (hp.symm.trans hp')
  exact Option.some.inj (hl.symm.trans hl')

theorem Ordered.no_cycle (h : Ordered rank s) (i : ℕ) : ¬ Relation.TransGen (WaitsFor s) i i := by
  intro hcycle
  obtain ⟨j, ⟨l, hw⟩, -⟩ := Relation.TransGen.head'_iff.mp hcycle
  obtain ⟨l', k, hw', hlt⟩ := h.rank_lt_of_trans hcycle hw
  rw [hw.unique hw'] at hlt
  exact Nat.lt_irrefl _ hlt

variable [DecidableEq S.Lock] [DecidableEq S.Id] {body : S.Call → Prog S S.Res}

theorem Ordered.ready_or_waits (h : Ordered rank s) {p : Proc S} (hp : s.procs i = some p)
    (hr : p.prog.result = none) : Ready body s i ∨ ∃ l k, Waits s i l k := by
  have ho := h.procs i p hp
  obtain ⟨c, prog, loc⟩ := p
  cases prog with
  | ret a => cases hr
  | fail e => cases hr
  | begin k =>
    have htx : loc.tx.isNone = true := by simpa [Local.locks] using ho.1
    exact .inl (.inl ⟨_, (Stepped.begin hp htx).step⟩)
  | stmt tag want effect k =>
    obtain ⟨hin, hquiet, -⟩ := ho.1 (loc.view s.world)
    by_cases hfree : free s.owner i (want (loc.view s.world)) = true
    · have hopen : (loc.tx.isSome || ((want (loc.view s.world)).isNone &&
          (effect (loc.view s.world)).isEmpty)) = true := by
        cases htx : loc.tx with
        | some t => rfl
        | none =>
          have hlocks : loc.locks = none := by rw [Local.locks, htx]; rfl
          have hwant : want (loc.view s.world) = none := by
            cases hw : want (loc.view s.world) with
            | none => rfl
            | some l =>
              obtain ⟨ls, hls, -⟩ := hin l hw
              rw [hlocks] at hls
              cases hls
          simp [hwant, hquiet hlocks]
      exact .inl (.inl ⟨_, (Stepped.stmt hp hfree hopen).step⟩)
    · cases hw : want (loc.view s.world) with
      | none => simp [hw, free] at hfree
      | some l =>
        have hheld : ¬ s.owner l = none ∧ ¬ s.owner l = some i := by simpa [hw, free] using hfree
        obtain ⟨k', hk'⟩ := Option.ne_none_iff_exists'.mp hheld.1
        exact .inr ⟨l, k', ⟨_, hp, hw⟩, hk', fun he => hheld.2 (he ▸ hk')⟩
  | mint k => exact .inl (.inr (.inr fun x hx => ⟨_, (Stepped.mint hp hx).step⟩))
  | input k => exact .inl (.inr (.inl fun n => ⟨_, (Stepped.input hp).step⟩))
  | commit k =>
    obtain ⟨t, ht⟩ : ∃ t, loc.tx = some t := by simpa [Local.locks, Option.isSome_iff_exists] using ho.1
    exact .inl (.inl ⟨_, (Stepped.commit hp ht).step⟩)
  | rollback k => exact .inl (.inl ⟨_, (Stepped.rollback hp).step⟩)

theorem Ordered.progress (h : Ordered rank s) {n : ℕ} (hn : ∀ l, rank l < n) {p : Proc S}
    (hp : s.procs i = some p) (hr : p.prog.result = none) : ∃ k q, s.procs k = some q ∧
      q.prog.result = none ∧ Ready body s k ∧ (p.loc.tx.isSome = true → q.loc.tx.isSome = true) := by
  have hchain (m : ℕ) : ∀ i p, s.procs i = some p → p.prog.result = none →
      (∀ l k, Waits s i l k → n ≤ rank l + m) → ∃ k q, s.procs k = some q ∧ q.prog.result = none ∧
        Ready body s k ∧ (p.loc.tx.isSome = true → q.loc.tx.isSome = true) := by
    induction m with
    | zero =>
      intro i p hp hr hm
      rcases h.ready_or_waits hp hr with hready | ⟨l, k, hw⟩
      · exact ⟨i, p, hp, hr, hready, id⟩
      · exact absurd (hm l k hw) (Nat.not_le.mpr (hn l))
    | succ m ih =>
      intro i p hp hr hm
      rcases h.ready_or_waits hp hr with hready | ⟨l, k, hw⟩
      · exact ⟨i, p, hp, hr, hready, id⟩
      · obtain ⟨q, t, hq, ht, -⟩ := h.waits hw
        have hqr : q.prog.result = none := by
          have ho := h.procs k q hq
          obtain ⟨c, prog, loc⟩ := q
          have hlocks : loc.locks = some t.locks := by
            rw [Local.locks, show loc.tx = some t from ht]
            rfl
          cases prog with
          | ret a => cases hlocks.symm.trans ho
          | fail e => cases hlocks.symm.trans ho
          | _ => rfl
        obtain ⟨k', q', hk', hq', hready, htx⟩ := ih k q hq hqr fun l' k' hw' => by
          have hlt := h.rank_lt hw hw'
          have hle := hm l k hw
          omega
        exact ⟨k', q', hk', hq', hready, fun _ => htx (by rw [ht]; rfl)⟩
  exact hchain n i p hp hr fun l k _ => Nat.le_add_left _ _

end Cycle

end JitoGame.Transactions
