import JitoGame.Transactions.Alone
import JitoGame.Transactions.Sequential

namespace JitoGame.Transactions

variable {S : Schema} {α β : Type} {d : S.Db} {p : Prog S α} {r : Except S.Err α}

inductive Reads (d : S.Db) : Prog S α → Except S.Err α → Prop
  | ret (a : α) : Reads d (.ret a) (.ok a)
  | fail (e : S.Err) : Reads d (.fail e) (.error e)
  | stmt {tag : S.Tag} {want : View S.Db → Option S.Lock} {effect : View S.Db → List S.Write}
    {k : Option (View S.Db) → Prog S α} {r : Except S.Err α} (hwant : ∀ v, want v = none)
    (heffect : ∀ v, effect v = []) (hnone : k none = .fail S.fault)
    (hk : ∀ now, Reads d (k (some ⟨d, now⟩)) r) : Reads d (.stmt tag want effect k) r

namespace Reads

theorem select {tag : S.Tag} {f : View S.Db → Prog S α} (h : ∀ now, Reads d (f ⟨d, now⟩) r) :
    Reads d (Prog.select tag >>= f) r :=
  .stmt (fun _ => rfl) (fun _ => rfl) rfl h

theorem check (x : Except S.Err α) : Reads d (.check x) x := by
  cases x with
  | ok a => exact .ret a
  | error e => exact .fail e

theorem bind {a : α} {f : α → Prog S β} {r : Except S.Err β} (hp : Reads d p (.ok a))
    (hf : Reads d (f a) r) : Reads d (p >>= f) r := by
  change Reads d (p.bind f) r
  generalize hx : (Except.ok a : Except S.Err α) = x at hp
  induction hp with
  | ret b =>
    cases hx
    exact hf
  | fail e => cases hx
  | stmt hwant heffect hnone hk ih =>
    refine .stmt hwant heffect ?_ fun now => ih now hx
    rw [hnone]
    rfl

theorem peek (h : Reads d p r) (now : ℕ) : p.peek ⟨d, now⟩ = some r := by
  induction h with
  | ret a => rfl
  | fail e => rfl
  | stmt hwant heffect hnone hk ih =>
    rw [Prog.peek, hwant, heffect]
    exact ih now

end Reads

variable {known : S.Db → S.Id → Prop} {i : ℕ} {c : S.Call} {s : Local S} {w : World S}

theorem Still.wp_reads (h : Reads d p r) (hw : Still known d i w) (htx : s.tx = none) :
    wp (.sole known d i) i c p (fun a s' w' => (s'.faulted = true ∨ .ok a = r) ∧ w'.log = [])
      (fun e s' w' => (s'.faulted = true ∨ .error e = r) ∧ w'.log = []) s w := by
  induction h generalizing s w with
  | ret a => exact ⟨.inr rfl, hw.log⟩
  | fail e => exact ⟨.inr rfl, hw.log⟩
  | stmt hwant heffect hnone hk ih =>
    intro w' hr
    have hw' := hw.rely hr
    have hview : s.view w' = ⟨d, w'.clock⟩ := by rw [Local.view, htx, hw'.db_eq]
    rw [hview, hwant, heffect, hnone]
    refine ⟨⟨.inl rfl, hw'.log⟩, fun x hx => (List.not_mem_nil hx).elim, ?_⟩
    exact ih w'.clock hw' (Option.map_eq_none_iff.mpr htx)

variable [DecidableEq S.Lock] [DecidableEq S.Id] {body : S.Call → Prog S S.Res} {σ : State S}

theorem Serves.reads {r : Except S.Err S.Res} (h : Serves body known d c σ) (hreads : Reads d (body c) r)
    {q : Proc S} (hq : σ.procs 0 = some q) {r' : Except S.Err S.Res} (hr : q.prog.Ends r') :
    σ.world.log = [] ∧ (q.loc.faulted = false → r' = r) := by
  obtain ⟨⟨hanswer, hlog⟩, -⟩ := h.outcome (X := fun r' s log => (s.faulted = true ∨ r' = r) ∧ log = [])
    (fun w hw => hw.wp_reads hreads rfl) hq hr
  refine ⟨hlog, fun hclean => hanswer.resolve_left ?_⟩
  rw [hclean]
  exact Bool.false_ne_true

/-- Alone with the content `d` the call writes nothing, and it answers `r` unless the database fails;
and it does answer. -/
structure AnswersAlone (body : S.Call → Prog S S.Res) (d : S.Db) (c : S.Call) (r : Except S.Err S.Res) :
    Prop where
  only : ∀ known σ q r', Serves body known d c σ → σ.procs 0 = some q → q.prog.Ends r' →
    σ.world.log = [] ∧ (q.loc.faulted = false → r' = r)
  ends : ∃ σ q, Serves body (fun _ _ => False) d c σ ∧ σ.procs 0 = some q ∧ q.loc.faulted = false ∧
    q.prog.Ends r

theorem Reads.answersAlone {r : Except S.Err S.Res} (h : Reads d (body c) r) :
    AnswersAlone body d c r where
  only _ _ _ _ hs hq hr := hs.reads h hq hr
  ends := by
    have hmoved : ((initial d []).move 0 ⟨c, body c, .idle⟩ (initial d []).world
        (initial d []).owner).procs 0 = some ⟨c, body c, .idle⟩ := by simp [State.move]
    have hok (s : State S) : (Policy.calls fun _ => False).ok s (.run 0) := Policy.calls_run _ s 0
    obtain ⟨σ, q, hreach, -, hq, -, hr, hclean⟩ := Prog.peek_ends hmoved rfl rfl hok (h.peek _)
    exact ⟨σ, q, ⟨[], fun _ hno => hno.elim, hreach⟩, hq, hclean, hr⟩

end JitoGame.Transactions
