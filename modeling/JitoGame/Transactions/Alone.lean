import JitoGame.Transactions.Soundness
import JitoGame.Transactions.Statements

namespace JitoGame.Transactions

variable {S : Schema} {α β : Type}

def Prog.peek (v : View S.Db) : Prog S α → Option (Except S.Err α)
  | .ret a => some (.ok a)
  | .fail e => some (.error e)
  | .stmt _ want effect k =>
    if (want v).isNone && (effect v).isEmpty then (k (some v)).peek v else none
  | _ => none

theorem Prog.peek_bind (p : Prog S α) (f : α → Prog S β) (v : View S.Db) :
    (p >>= f).peek v = (p.peek v).bind fun r => match r with
      | .ok a => (f a).peek v
      | .error e => some (.error e) := by
  change (p.bind f).peek v = _
  induction p with
  | stmt tag want effect k ih =>
    simp only [Prog.bind, peek]
    split
    · exact ih _
    · rfl
  | _ => rfl

theorem Prog.peek_select (tag : S.Tag) (v : View S.Db) : (select tag).peek v = some (.ok v) := rfl

theorem Prog.peek_check (x : Except S.Err α) (v : View S.Db) : (Prog.check x).peek v = some x := by
  cases x <;> rfl

theorem Prog.peek_require (p : Prop) [Decidable p] (e : S.Err) (v : View S.Db) :
    (Prog.require p e).peek v = some (if p then .ok () else .error e) := by
  by_cases hp : p
  · simp only [require, if_pos hp, peek]
  · simp only [require, if_neg hp, peek]

variable [DecidableEq S.Lock] [DecidableEq S.Id] {body : S.Call → Prog S S.Res}
variable {ok : State S → Label S → Prop} {i : ℕ}

theorem Reachable.trans {s₀ s s' : State S} (h : Reachable body ok s₀ s)
    (h' : Reachable body ok s s') : Reachable body ok s₀ s' := by
  induction h' with
  | refl => exact h
  | step _ hok hs ih => exact ih.step hok hs

theorem Prog.peek_ends {s : State S} {p : Proc S} {r : Except S.Err S.Res}
    (hp : s.procs i = some p) (htx : p.loc.tx = none) (hf : p.loc.faulted = false)
    (hok : ∀ s : State S, ok s (.run i))
    (hr : p.prog.peek ⟨s.world.db, s.world.clock⟩ = some r) :
    ∃ s' q, Reachable body ok s s' ∧ s'.world = s.world ∧ s'.procs i = some q ∧ q.call = p.call ∧
      q.prog.Ends r ∧ q.loc.faulted = false := by
  obtain ⟨c, prog, loc⟩ := p
  induction prog generalizing s loc with
  | ret a => exact ⟨s, _, .refl, rfl, hp, rfl, hr, hf⟩
  | fail e => exact ⟨s, _, .refl, rfl, hp, rfl, hr, hf⟩
  | stmt tag want effect k ih =>
    simp only [Prog.peek, Option.ite_none_right_eq_some, Bool.and_eq_true] at hr
    obtain ⟨⟨hwant, heffect⟩, hr⟩ := hr
    have hview : loc.view s.world = ⟨s.world.db, s.world.clock⟩ := by
      rw [Local.view, htx]
    have hnone : want ⟨s.world.db, s.world.clock⟩ = none := Option.isNone_iff_eq_none.mp hwant
    have hrun : step body s (.run i) = some (s.move i
        ⟨c, k (some ⟨s.world.db, s.world.clock⟩), loc.exec tag none [] s.world⟩ s.world s.owner) := by
      simp only [step, hp, Option.bind_some, runProc, hview, hnone, List.isEmpty_iff.mp heffect]
      simp [free, acquire]
    have htx' : (loc.exec tag none [] s.world).tx = none := Option.map_eq_none_iff.mpr htx
    have hmoved : (s.move i ⟨c, k (some ⟨s.world.db, s.world.clock⟩), loc.exec tag none [] s.world⟩
        s.world s.owner).procs i =
          some ⟨c, k (some ⟨s.world.db, s.world.clock⟩), loc.exec tag none [] s.world⟩ := by
      simp [State.move]
    obtain ⟨s', q, hreach, hworld, hq⟩ := ih _ _ hmoved htx' hf hr
    exact ⟨s', q, (Reachable.refl.step (hok s) hrun).trans hreach, hworld, hq⟩
  | _ => cases hr

theorem peek_ends {s : State S} {c : S.Call} {r : Except S.Err S.Res} (hi : s.procs i = none)
    (hspawn : ok s (.spawn i c)) (hok : ∀ s : State S, ok s (.run i))
    (hr : (body c).peek ⟨s.world.db, s.world.clock⟩ = some r) :
    ∃ s' q, Reachable body ok s s' ∧ s'.world = s.world ∧ s'.procs i = some q ∧ q.call = c ∧
      q.prog.Ends r ∧ q.loc.faulted = false := by
  have hstep : step body s (.spawn i c) = some (s.move i ⟨c, body c, .idle⟩ s.world s.owner) := by
    simp [step, hi]
  have hmoved : (s.move i ⟨c, body c, .idle⟩ s.world s.owner).procs i = some ⟨c, body c, .idle⟩ := by
    simp [State.move]
  obtain ⟨s', q, hreach, hworld, hq⟩ := Prog.peek_ends hmoved rfl rfl hok hr
  exact ⟨s', q, (Reachable.refl.step hspawn hstep).trans hreach, hworld, hq⟩

end JitoGame.Transactions
