import JitoGame.Auth.Registration
import JitoGame.Auth.Rotation
import JitoGame.Transactions.Series

namespace JitoGame.Auth.Registration

open Transactions

variable {env : Libraries} {d : Db env.Hash} {dto : RegisterDto} {row : User env.Hash}

def Known (d : Db env.Hash) (id : Uuid) : Prop := ∃ u ∈ d.users, u.id = id

/-! What registering means for the users. -/

def Supplies (value : Option String) (s : String) : Prop := value = some s ∧ s ≠ ""

def Contact (env : Libraries) (dto : RegisterDto) : Prop :=
  (∃ s, Supplies (dto.normalEmail env) s) ∨ ∃ s, Supplies dto.normalPhone s

inductive Registered (d : Db env.Hash) (dto : RegisterDto) : Prop
  | username {u : User env.Hash} (hu : u ∈ d.users) (h : u.username = trim dto.username)
  | email {u : User env.Hash} {s : String} (hs : Supplies (dto.normalEmail env) s) (hu : u ∈ d.users)
      (h : u.email = some s)
  | phone {u : User env.Hash} {s : String} (hs : Supplies dto.normalPhone s) (hu : u ∈ d.users)
      (h : u.phone = some s)

def Searchable (env : Libraries) (dto : RegisterDto) : Prop :=
  searchable (trim dto.username) (dto.normalEmail env) dto.normalPhone = true

def Blank (env : Libraries) (dto : RegisterDto) : Prop :=
  dto.normalEmail env = some "" ∨ dto.normalPhone = some ""

theorem truthy_iff {value : Option String} : truthy value = true ↔ ∃ s, Supplies value s := by
  cases value <;> simp [truthy, Supplies]

theorem contact_iff :
    (truthy (dto.normalEmail env) = true ∨ truthy dto.normalPhone = true) ↔ Contact env dto := by
  rw [truthy_iff, truthy_iff, Contact]

theorem registered_iff : d.users.any (existing env (trim dto.username) (dto.normalEmail env)
    dto.normalPhone) = true ↔ Registered d dto := by
  have hcolumn {value column : Option String} :
      (truthy value = true ∧ column = value) ↔ ∃ s, Supplies value s ∧ column = some s := by
    cases value <;> simp [truthy, Supplies]
  simp only [List.any_eq_true, existing, decide_eq_true_eq, hcolumn]
  constructor
  · rintro ⟨u, hu, h | ⟨s, hs, h⟩ | ⟨s, hs, h⟩⟩
    · exact .username hu h
    · exact .email hs hu h
    · exact .phone hs hu h
  · rintro (⟨hu, h⟩ | ⟨hs, hu, h⟩ | ⟨hs, hu, h⟩)
    · exact ⟨_, hu, .inl h⟩
    · exact ⟨_, hu, .inr (.inl ⟨_, hs, h⟩)⟩
    · exact ⟨_, hu, .inr (.inr ⟨_, hs, h⟩)⟩

theorem blank_of_taken (hnew : ¬ Registered d dto) {id : Uuid} {passwordHash : env.Hash}
    {createdAt : ℕ} (hrow : row = userRow env id dto passwordHash createdAt) :
    keyTaken (fun u => some u.username) row.username d = false ∧
      (∀ s, row.email = some s → keyTaken (·.email) s d = true → Blank env dto) ∧
      ∀ s, row.phone = some s → keyTaken (·.phone) s d = true → Blank env dto := by
  subst hrow
  refine ⟨?_, ?_, ?_⟩
  · apply Bool.eq_false_iff.mpr
    intro htaken
    obtain ⟨u, hu, h⟩ := List.any_eq_true.mp htaken
    exact hnew (.username hu (Option.some.inj (of_decide_eq_true h)))
  · intro s hs htaken
    obtain ⟨u, hu, h⟩ := List.any_eq_true.mp htaken
    by_cases hempty : s = ""
    · exact .inl (hempty ▸ hs)
    · exact absurd (.email ⟨hs, hempty⟩ hu (of_decide_eq_true h)) hnew
  · intro s hs htaken
    obtain ⟨u, hu, h⟩ := List.any_eq_true.mp htaken
    by_cases hempty : s = ""
    · exact .inr (hempty ▸ hs)
    · exact absurd (.phone ⟨hs, hempty⟩ hu (of_decide_eq_true h)) hnew

/-! One call, when no one else commits. -/

inductive Registers (env : Libraries) (d : Db env.Hash) (dto : RegisterDto) :
    Except Err UserProfile → List (Commit (schema env)) → Prop
  | limited (retryAfter : ℕ) : Registers env d dto (.error (.rateLimitExceeded retryAfter)) []
  | invalid (h : ¬ Contact env dto) : Registers env d dto (.error .validationError) []
  | unsearchable (hc : Contact env dto) (h : ¬ Searchable env dto) :
      Registers env d dto (.error .databaseError) []
  | found (hc : Contact env dto) (hs : Searchable env dto) (h : Registered d dto) :
      Registers env d dto (.error .conflict) []
  | unfit (hc : Contact env dto) (hs : Searchable env dto) (h : ¬ Registered d dto) :
      Registers env d dto (.error .databaseError) []
  | blank (hc : Contact env dto) (hs : Searchable env dto) (h : Blank env dto) :
      Registers env d dto (.error .conflict) []
  | created {c : Commit (schema env)} {row : User env.Hash} (hc : Contact env dto)
      (hs : Searchable env dto) (h : ¬ Registered d dto)
      (hw : c.writes = [.insertUser row, .insertPointsAccount row.id 0]) (hnew : ¬ Known d row.id) :
      Registers env d dto (.ok (AuthService.toProfile env.toEnv row)) [c]

structure Accounted (d : Db env.Hash) : Prop where
  ids : (d.users.map (·.id)).Nodup
  owners : ∀ b ∈ d.balances, Known d b.1
  one : ∀ u ∈ d.users, d.balances.countP (fun b => b.1 = u.id) = 1

section Alone

variable {i start : ℕ} {c : Call} {s : Local (schema env)} {w : World (schema env)}
variable {Q : Unit → Local (schema env) → World (schema env) → Prop}
variable {E : Err → Local (schema env) → World (schema env) → Prop}

theorem wp_insertKey {lock : String → Lock} {column : User env.Hash → Option String}
    {key : Option String} (hw : Still (S := schema env) Known d i w) (h : s.Running start [] [])
    (hE : ∀ s' w', s'.faulted = true → Still (S := schema env) Known d i w' → E .fault s' w')
    (hdup : ∀ k s' w', key = some k → keyTaken column k d = true → s'.Running start [] [] →
      Still (S := schema env) Known d i w' → E .uniqueViolation s' w')
    (hQ : ∀ s' w', s'.Running start [] [] → Still (S := schema env) Known d i w' → Q () s' w') :
    wp (.sole Known d i) i c (insertKey env lock column key) Q E s w := by
  cases key with
  | none => exact hQ s w h hw
  | some k =>
    apply hw.wp_insert_cases h hE
    · exact fun s' w' htaken hrun hw' => hdup k s' w' rfl htaken hrun hw'
    · exact fun s' w' _ hrun hw' => hQ s' w' hrun hw'

theorem wp_createUser (hw : Still (S := schema env) Known d i w) (h : s.Running start [] [])
    (husername : keyTaken (fun u => some u.username) row.username d = false)
    (hemail : ∀ k, row.email = some k → keyTaken (·.email) k d = true → Blank env dto)
    (hphone : ∀ k, row.phone = some k → keyTaken (·.phone) k d = true → Blank env dto)
    (hE : ∀ s' w', s'.faulted = true → Still (S := schema env) Known d i w' → E .fault s' w')
    (hunfit : ∀ s' w', Still (S := schema env) Known d i w' → E .databaseError s' w')
    (hblank : Blank env dto → ∀ s' w', Still (S := schema env) Known d i w' → E .uniqueViolation s' w')
    (hQ : ∀ s' w', s'.Running start [.insertUser row] [] → Still (S := schema env) Known d i w' →
      Q () s' w') : wp (.sole Known d i) i c (createUser env row) Q E s w := by
  rw [createUser, wp_bind, wp_require]
  refine ⟨fun _ => ?_, fun _ => hunfit s w hw⟩
  rw [wp_bind]
  apply wp_insertKey hw h hE
  · intro k s' w' hk htaken
    cases hk
    rw [husername] at htaken
    cases htaken
  intro s₁ w₁ h₁ hw₁
  rw [wp_bind]
  apply wp_insertKey hw₁ h₁ hE
  · exact fun k s' w' hk htaken _ hw' => hblank (hemail k hk htaken) s' w' hw'
  intro s₂ w₂ h₂ hw₂
  rw [wp_bind]
  apply wp_insertKey hw₂ h₂ hE
  · exact fun k s' w' hk htaken _ hw' => hblank (hphone k hk htaken) s' w' hw'
  intro s₃ w₃ h₃ hw₃
  rw [wp_bind]
  apply hw₃.wp_exec h₃ hE
  exact fun m s₄ w₄ _ _ h₄ hw₄ => hQ s₄ w₄ h₄.older hw₄

theorem wp_createPointsAccount (hd : Accounted d) (hnew : ¬ Known d row.id)
    (hw : Still (S := schema env) Known d i w) (h : s.Running start [.insertUser row] [])
    (hE : ∀ s' w', s'.faulted = true → Still (S := schema env) Known d i w' → E .fault s' w')
    (hQ : ∀ s' w', s'.Running start [.insertUser row, .insertPointsAccount row.id 0] [] →
      Still (S := schema env) Known d i w' → Q () s' w') :
    wp (.sole Known d i) i c (createPointsAccount env row.id) Q E s w := by
  apply hw.wp_insert h hE
  · apply Bool.eq_false_iff.mpr
    intro htaken
    obtain ⟨b, hb, howner⟩ := List.any_eq_true.mp htaken
    have howner : b.1 = row.id := of_decide_eq_true howner
    exact hnew (howner ▸ hd.owners b hb)
  · exact hQ

def Outcome (d : Db env.Hash) (dto : RegisterDto) (r : Except Err UserProfile) (s : Local (schema env))
    (w : World (schema env)) : Prop :=
  s.faulted = true ∧ w.log = [] ∨ Registers env d dto r w.log

theorem wp_register (hd : Accounted d) {ip : String} (hw : Still (S := schema env) Known d i w)
    (htx : s.tx = none) (hclean : s.faulted = false) :
    wp (.sole Known d i) i c (register env dto ip) (fun a => Outcome d dto (.ok a))
      (fun e => Outcome d dto (.error e)) s w := by
  have hquiet {r : Except Err UserProfile} {s' : Local (schema env)} {w' : World (schema env)}
      (hw' : Still (S := schema env) Known d i w') (h : Registers env d dto r []) :
      Outcome d dto r s' w' := .inr (hw'.log ▸ h)
  rw [register, wp_bind, checkRateLimit, wp_bind]
  apply hw.wp_outside
  intro current w₁ hw₁
  rw [wp_require]
  refine ⟨fun _ => ?_, fun _ => hquiet hw₁ (.limited _)⟩
  rw [wp_bind, wp_require, contact_iff]
  refine ⟨fun hcontact => ?_, fun hno => hquiet hw₁ (.invalid hno)⟩
  rw [wp_bind, advisoryUniquenessCheck, wp_bind, wp_require]
  refine ⟨fun hsearch => ?_, fun hno => hquiet hw₁ (.unsearchable hcontact hno)⟩
  rw [wp_bind]
  apply hw₁.wp_read htx hclean
  · exact fun s' w' hfault hw' => .inl ⟨hfault, hw'.log⟩
  intro now s₂ w₂ htx₂ hclean₂ hw₂
  rw [wp_require]
  constructor
  swap
  · intro hfound
    rw [Bool.not_eq_false, registered_iff] at hfound
    exact hquiet hw₂ (.found hcontact hsearch hfound)
  intro hfree
  have hnew : ¬ Registered d dto := fun h => Bool.eq_false_iff.mp hfree (registered_iff.mpr h)
  rw [wp_bind]
  apply hw₂.wp_outside
  intro salt w₃ hw₃
  rw [wp_bind]
  apply hw₃.wp_outside
  intro createdAt w₄ hw₄
  rw [wp_tryCatch, wp_bind]
  apply hw₄.wp_fresh
  intro id w₅ hid hw₅
  obtain ⟨row, hrow⟩ : ∃ row, row = userRow env id dto (env.hash dto.password salt) createdAt := ⟨_, rfl⟩
  have hrowId : row.id = id := by
    rw [hrow]
    rfl
  obtain ⟨husername, hemail, hphone⟩ := blank_of_taken hnew hrow
  rw [← hrow, wp_bind]
  have hthrown {s' : Local (schema env)} {w' : World (schema env)} {e : Err} (he : e ≠ .uniqueViolation)
      (h : Outcome d dto (.error e) s' w') : wp (.sole Known d i) i c
        (if e = .uniqueViolation then throw .conflict else throw e : Prog (schema env) UserProfile)
        (fun a => Outcome d dto (.ok a)) (fun e => Outcome d dto (.error e)) s' w' := by
    rw [if_neg he]
    exact h
  have hfault (s' : Local (schema env)) (w' : World (schema env)) (hf : s'.faulted = true)
      (hw' : Still (S := schema env) Known d i w') : wp (.sole Known d i) i c
        (if Err.fault = .uniqueViolation then throw .conflict else throw Err.fault :
          Prog (schema env) UserProfile)
        (fun a => Outcome d dto (.ok a)) (fun e => Outcome d dto (.error e)) s' w' :=
    hthrown (fun he => by cases he) (.inl ⟨hf, hw'.log⟩)
  have htx₅ : (s₂.mint id).tx = none := htx₂
  have hclean₅ : (s₂.mint id).faulted = false := hclean₂
  apply hw₅.wp_transaction htx₅ hclean₅
  swap
  · exact fun s' w' _ hf hw' => hfault s' w' hf hw'
  intro start s₆ w₆ hrun₆ hw₆
  have hfaulted (s' : Local (schema env)) (w' : World (schema env)) (hf : s'.faulted = true)
      (hw' : Still (S := schema env) Known d i w') := And.intro hw' fun w'' => hfault s'.ended w'' hf
  rw [wp_bind]
  apply wp_createUser hw₆ hrun₆ husername hemail hphone hfaulted
  · refine fun s' w' hw' => ⟨hw', fun w'' hw'' => ?_⟩
    exact hthrown (fun he => by cases he) (hquiet hw'' (.unfit hcontact hsearch hnew))
  · refine fun hblank s' w' hw' => ⟨hw', fun w'' hw'' => ?_⟩
    exact hquiet hw'' (.blank hcontact hsearch hblank)
  intro s₇ w₇ hrun₇ hw₇
  apply wp_createPointsAccount hd (hrowId ▸ hid) hw₇ hrun₇ hfaulted
  intro s₈ w₈ hrun₈ hw₈
  refine ⟨_, hrun₈, hw₈, fun w'' hw'' => .inr ?_⟩
  rw [World.push, hw''.log]
  exact .created hcontact hsearch hnew rfl (hrowId ▸ hid)

end Alone

theorem quiet_checkRateLimit (max windowSeconds : ℕ) : (checkRateLimit env max windowSeconds).Quiet :=
  Prog.quiet_outside.bind fun _ => Prog.quiet_require _ _

theorem quiet_advisoryUniquenessCheck (username : String) (email phone : Option String) :
    (advisoryUniquenessCheck env username email phone).Quiet := by
  apply (Prog.quiet_require _ _).bind
  intro _
  apply Prog.Quiet.bind (Prog.quiet_exec _ _ _)
  exact fun _ => Prog.quiet_require _ _

theorem quiet_insertKey (lock : String → Lock) (column : User env.Hash → Option String)
    (key : Option String) : (insertKey env lock column key).Quiet := by
  cases key with
  | none => exact Prog.quiet_pure _
  | some k => exact Prog.quiet_insert _ _ _ _ _

theorem quiet_createUser (row : User env.Hash) : (createUser env row).Quiet := by
  apply (Prog.quiet_require _ _).bind
  intro _
  apply (quiet_insertKey _ _ _).bind
  intro _
  apply (quiet_insertKey _ _ _).bind
  intro _
  apply (quiet_insertKey _ _ _).bind
  intro _
  apply Prog.Quiet.bind (Prog.quiet_exec _ _ _)
  exact fun _ => Prog.quiet_pure _

theorem commitsLast_register (ip : String) : (register env dto ip).CommitsLast := by
  rw [register]
  refine (quiet_checkRateLimit _ _).then fun _ => ?_
  refine (Prog.quiet_require _ _).then fun _ => ?_
  refine (quiet_advisoryUniquenessCheck _ _ _).then fun _ => ?_
  apply Prog.quiet_outside.then
  intro salt
  apply Prog.quiet_outside.then
  intro createdAt
  apply Prog.CommitsLast.handle
  · apply Prog.commitsLast_fresh
    intro id
    refine Prog.CommitsLast.bind (Prog.Quiet.transaction ?_) fun _ => Prog.quiet_pure _
    exact (quiet_createUser _).bind fun _ => Prog.quiet_insert _ _ _ _ _
  · intro err
    split
    · exact Prog.quiet_throw _
    · exact Prog.quiet_throw _

/-! Calls one after the other. -/

theorem Accounted.created (hd : Accounted d) (hnew : ¬ Known d row.id) :
    @Accounted env { d with users := d.users ++ [row], balances := d.balances ++ [(row.id, 0)] } := by
  refine ⟨?_, ?_, ?_⟩
  · simp only [List.map_append, List.map_cons, List.map_nil, List.nodup_append]
    refine ⟨hd.ids, by simp, fun id hid id' hid' heq => ?_⟩
    obtain ⟨u, hu, rfl⟩ := List.mem_map.mp hid
    rw [List.mem_singleton.mp hid'] at heq
    exact hnew ⟨u, hu, heq⟩
  · intro b hb
    rcases List.mem_append.mp hb with hb | hb
    · obtain ⟨u, hu, hid⟩ := hd.owners b hb
      exact ⟨u, List.mem_append_left _ hu, hid⟩
    · rw [List.mem_singleton.mp hb]
      exact ⟨row, List.mem_append_right _ (List.mem_singleton_self row), rfl⟩
  · intro u hu
    rw [List.countP_append]
    rcases List.mem_append.mp hu with hu | hu
    · have hne : row.id ≠ u.id := fun heq => hnew ⟨u, hu, heq.symm⟩
      simp [hd.one u hu, hne]
    · have hzero : d.balances.countP (fun b => b.1 = row.id) = 0 := by
        rw [List.countP_eq_zero]
        intro b hb heq
        exact hnew (of_decide_eq_true heq ▸ hd.owners b hb)
      rw [List.mem_singleton.mp hu, hzero]
      simp

variable {w₀ w w' : World (schema env)} {s : State (schema env)} {p : Proc (schema env)}
variable {ps : List (Proc (schema env))} {ip : String}

theorem accounted_serving (hd : Accounted w.db) {c : Call} (h : Serving Known (body env) w c s) :
    Accounted s.world.db := by
  have hwp : wp (.sole Known w.db 0) 0 c (body env c) (fun a => Outcome w.db c.dto (.ok a))
      (fun e => Outcome w.db c.dto (.error e)) .idle w := wp_register hd h.still rfl rfl
  have hdb : s.world.db = replay w.db s.world.log :=
    (h.ok (X := fun r => Outcome w.db c.dto r) hwp).db_eq
  have hsame (hlog : s.world.log = []) : Accounted s.world.db := by
    rw [hdb, hlog]
    exact hd
  rcases h.abandoned (X := fun r => Outcome w.db c.dto r) hwp (commitsLast_register c.ip) with
    hnil | ⟨r, s', w₁, hX, hlog, -⟩
  · exact hsame hnil
  · rcases hX with ⟨-, hnil⟩ | hX
    · exact hsame (hlog ▸ hnil)
    · rw [hlog] at hX
      generalize hl : s.world.log = log at hX
      cases hX with
      | @created com row hc hs hn hw hnew =>
        have hstep : s.world.db = { w.db with
            users := w.db.users ++ [row], balances := w.db.balances ++ [(row.id, 0)] } := by
          rw [hdb, hl, replay, replay, hw]
          rfl
        rw [hstep]
        exact hd.created hnew
      | _ => exact hsame hl

theorem accounted_series (hs : Series Known (body env) w ps w') (hd : Accounted w.db) :
    Accounted w'.db := by
  induction hs with
  | nil w => exact hd
  | cons h hp hs ih => exact ih (accounted_serving hd h)

theorem answer_serving (hd : Accounted w.db) (h : Serving Known (body env) w ⟨dto, ip⟩ s)
    (hp : s.procs 0 = some p) {r : Except Err UserProfile} (hr : p.prog.Ends r)
    (hclean : p.loc.faulted = false) : Registers env w.db dto r s.world.log := by
  have hwp : wp (.sole Known w.db 0) 0 ⟨dto, ip⟩ (body env ⟨dto, ip⟩) (fun a => Outcome w.db dto (.ok a))
      (fun e => Outcome w.db dto (.error e)) .idle w := wp_register hd h.still rfl rfl
  obtain ⟨w₁, hX, hlog, -⟩ := h.outcome (X := fun r => Outcome w.db dto r) hwp hp hr
  rcases hX with ⟨hfault, -⟩ | hX
  · rw [hclean] at hfault
    cases hfault
  · exact hlog ▸ hX

theorem normalEmail_ne (hemail : ∀ s, env.isEmail s = true → env.toLowerCase (trim s) ≠ "")
    (hvalid : dto.valid env = true) : dto.normalEmail env ≠ some "" := by
  intro hblank
  obtain ⟨s, hs, hempty⟩ := Option.map_eq_some_iff.mp hblank
  have hall : dto.email.all env.isEmail = true := by
    simp only [RegisterDto.valid, decide_eq_true_eq] at hvalid
    exact hvalid.2.2.2.2.1
  rw [hs] at hall
  exact hemail s hall hempty

/-- A call without a contact is refused for that alone. Any other is refused when its username or a contact
is registered, and when it sends no blank phone only then. Every user has one account throughout. -/
theorem register_conflict_iff (hemail : ∀ s, env.isEmail s = true → env.toLowerCase (trim s) ≠ "")
    (hd : Accounted w₀.db) (hs : Series Known (body env) w₀ ps w) (hvalid : dto.valid env = true)
    (h : Serving Known (body env) w ⟨dto, ip⟩ s) :
    (∀ u ∈ s.world.db.users, s.world.db.balances.countP (fun b => b.1 = u.id) = 1) ∧
      ∀ p r, s.procs 0 = some p → p.prog.Ends r → p.loc.faulted = false →
        (∀ retryAfter, r ≠ .error (.rateLimitExceeded retryAfter)) →
        (¬ Contact env dto → r = .error .validationError) ∧
          (Contact env dto → Searchable env dto → (Registered w.db dto → r = .error .conflict) ∧
            (dto.normalPhone ≠ some "" → (r = .error .conflict ↔ Registered w.db dto))) := by
  have hw := accounted_series hs hd
  refine ⟨(accounted_serving hw h).one, fun p r hp hr hclean hlimit => ?_⟩
  have hanswer := answer_serving hw h hp hr hclean
  generalize s.world.log = log at hanswer
  cases hanswer with
  | limited retryAfter => exact absurd rfl (hlimit retryAfter)
  | invalid hno => exact ⟨fun _ => rfl, fun hc => absurd hc hno⟩
  | unsearchable hc hno => exact ⟨fun hn => absurd hc hn, fun _ hsearch => absurd hsearch hno⟩
  | found hc hsearch hreg =>
    exact ⟨fun hn => absurd hc hn, fun _ _ => ⟨fun _ => rfl, fun _ => ⟨fun _ => hreg, fun _ => rfl⟩⟩⟩
  | unfit hc hsearch hnew =>
    refine ⟨fun hn => absurd hc hn, fun _ _ => ⟨fun hreg => absurd hreg hnew, fun _ => ?_⟩⟩
    exact ⟨fun he => (by cases he), fun hreg => absurd hreg hnew⟩
  | blank hc hsearch hblank =>
    refine ⟨fun hn => absurd hc hn, fun _ _ => ⟨fun _ => rfl, fun hphone => ?_⟩⟩
    exact absurd hblank (not_or.mpr ⟨normalEmail_ne hemail hvalid, hphone⟩)
  | created hc hsearch hnew hwr hid =>
    refine ⟨fun hn => absurd hc hn, fun _ _ => ⟨fun hreg => absurd hreg hnew, fun _ => ?_⟩⟩
    exact ⟨fun he => (by cases he), fun hreg => absurd hreg hnew⟩

/-! Two calls on an empty database. -/

def alice : RegisterDto := ⟨"alice", "password123", some "Alice@test.com", none, none⟩

def aliceAgain : RegisterDto := ⟨" alice", "password123", none, some "98765 ", none⟩

def aliceAlone : RegisterDto := ⟨"alice", "password123", none, none, none⟩

def bob : RegisterDto := ⟨"bob", "password123", some "bob@test.com", some " ", none⟩

def carol : RegisterDto := ⟨"carol", "password123", some "carol@test.com", some "  ", none⟩

def bobNul : RegisterDto := ⟨"bob\x00", "password123", some "alice@test.com", none, none⟩

def sampleLibraries : Libraries where
  toEnv := sampleEnv
  isEmail s := s.toList.contains '@' && trim s ≠ ""
  toLowerCase s := String.ofList (s.toList.map Char.toLower)

abbrev sampleBody : Call → Prog (schema sampleLibraries) UserProfile := body sampleLibraries

def emptyWorld : World (schema sampleLibraries) := ⟨⟨[], [], [], []⟩, 0, [], []⟩

structure Answered (dto : RegisterDto) (r : Except Err UserProfile) (ps : List (Proc (schema sampleLibraries)))
    (w : World (schema sampleLibraries)) (s : State (schema sampleLibraries))
    (p : Proc (schema sampleLibraries)) : Prop where
  valid : dto.valid sampleLibraries = true
  series : Series Known sampleBody emptyWorld ps w
  serving : Serving Known sampleBody w ⟨dto, "ip"⟩ s
  proc : s.procs 0 = some p
  ends : p.prog.Ends r
  clean : p.loc.faulted = false

def createLabels (id keys : ℕ) : List (Label (schema sampleLibraries)) :=
  [.input 0 1, .run 0, .input 0 7, .input 0 50, .mint 0 (.ofNat id), .run 0] ++
    List.replicate keys (.run 0) ++ [.run 0, .run 0, .run 0]

def answeredBy (first : RegisterDto) (keys : ℕ) (dto : RegisterDto)
    (labels : List (Label (schema sampleLibraries))) (r : Except Err UserProfile) (registered : Bool) : Bool :=
  (((Policy.calls fun _ => False).steps sampleBody (emptyWorld.given sampleBody ⟨first, "ip"⟩)
    (createLabels 3 keys)).bind fun s₁ =>
      ((Policy.calls fun _ => False).steps sampleBody (s₁.world.settled.given sampleBody ⟨dto, "ip"⟩)
        labels).map fun s => dto.valid sampleLibraries && (s₁.procs 0).isSome &&
          s₁.world.db.users.all (fun u => decide (u.id ∈ s₁.world.used)) &&
          (s₁.world.db.users.any (existing sampleLibraries (trim dto.username)
            (dto.normalEmail sampleLibraries) dto.normalPhone) == registered) &&
          (s.procs 0).any fun p => decide (p.prog.result = some r) && !p.loc.faulted) = some true

theorem answered_of_run {first dto : RegisterDto} {keys : ℕ} {registered : Bool}
    {labels : List (Label (schema sampleLibraries))} {r : Except Err UserProfile}
    (h : answeredBy first keys dto labels r registered = true) :
    ∃ ps w s p, Answered dto r ps w s p ∧ (Registered w.db dto ↔ registered = true) := by
  obtain ⟨s₁, h₁, h⟩ := Option.bind_eq_some_iff.mp (of_decide_eq_true h)
  obtain ⟨s, hs, h⟩ := Option.map_eq_some_iff.mp h
  simp only [Bool.and_eq_true, List.all_eq_true, decide_eq_true_eq, beq_iff_eq, Option.any_eq_true,
    Bool.not_eq_true'] at h
  obtain ⟨⟨⟨⟨hvalid, hfirst⟩, hused⟩, hregistered⟩, p, hp, hr, hclean⟩ := h
  obtain ⟨q, hq⟩ := Option.isSome_iff_exists.mp hfirst
  have hempty : ∀ x, @Known sampleLibraries emptyWorld.db x → x ∈ emptyWorld.used := by
    rintro x ⟨u, hu, -⟩
    cases hu
  have hserving : Serving Known sampleBody emptyWorld ⟨first, "ip"⟩ s₁ := .steps rfl hempty h₁
  have hknown : ∀ x, @Known sampleLibraries s₁.world.settled.db x → x ∈ s₁.world.settled.used := by
    rintro x ⟨u, hu, rfl⟩
    exact hused u hu
  refine ⟨[q], s₁.world.settled, s, p, ⟨hvalid, .cons hserving hq (.nil _), .steps rfl hknown hs, hp, hr,
    hclean⟩, ?_⟩
  rw [← registered_iff, ← hregistered]
  rfl

theorem accounted_empty : Accounted emptyWorld.db :=
  ⟨List.nodup_nil, fun _ hb => (by cases hb), fun _ hu => (by cases hu)⟩

theorem register_conflict_taken : ∃ ps w s p, Answered aliceAgain (.error .conflict) ps w s p ∧
    (∀ u ∈ s.world.db.users, s.world.db.balances.countP (fun b => b.1 = u.id) = 1) ∧
      Registered w.db aliceAgain := by
  have hrun : answeredBy alice 2 aliceAgain [.input 0 2, .run 0] (.error .conflict) true = true := by
    decide +kernel
  obtain ⟨ps, w, s, p, h, -⟩ := answered_of_run hrun
  have hemail (s : String) (hs : sampleLibraries.isEmail s = true) :
      sampleLibraries.toLowerCase (trim s) ≠ "" := by
    have hne : trim s ≠ "" := of_decide_eq_true ((Bool.and_eq_true _ _).mp hs).2
    intro hempty
    have hlist := congrArg String.toList hempty
    simp only [sampleLibraries, String.toList_ofList, String.toList_empty, List.map_eq_nil_iff] at hlist
    exact hne (String.toList_eq_nil_iff.mp hlist)
  obtain ⟨hone, hanswer⟩ := register_conflict_iff hemail accounted_empty h.series h.valid h.serving
  obtain ⟨-, hcontact⟩ := hanswer p (.error .conflict) h.proc h.ends h.clean fun _ he => (by cases he)
  have hsupplied : Contact sampleLibraries aliceAgain := contact_iff.mp (by decide)
  have hsearched : Searchable sampleLibraries aliceAgain := by
    unfold Searchable
    decide
  exact ⟨ps, w, s, p, h, hone, ((hcontact hsupplied hsearched).2 (by decide)).mp rfl⟩

/-- Without a contact a registered username is no conflict; a second blank phone is one; and a registered
email is none beside a username with a NUL. -/
theorem register_conflicts_apart :
    (∃ ps w s p, Answered aliceAlone (.error .validationError) ps w s p ∧ Registered w.db aliceAlone) ∧
      (∃ ps w s p, Answered bob (.error .conflict) ps w s p ∧ ¬ Registered w.db bob) ∧
        ∃ ps w s p, Answered bobNul (.error .databaseError) ps w s p ∧ Registered w.db bobNul := by
  have hcontact : answeredBy alice 2 aliceAlone [.input 0 2] (.error .validationError) true = true := by
    decide +kernel
  have hblank : answeredBy carol 3 bob ((createLabels 4 3).take 10) (.error .conflict) false = true := by
    decide +kernel
  have hnul : answeredBy alice 2 bobNul [.input 0 2] (.error .databaseError) true = true := by
    decide +kernel
  refine ⟨?_, ?_, ?_⟩
  · obtain ⟨ps, w, s, p, h, hregistered⟩ := answered_of_run hcontact
    exact ⟨ps, w, s, p, h, hregistered.mpr rfl⟩
  · obtain ⟨ps, w, s, p, h, hregistered⟩ := answered_of_run hblank
    refine ⟨ps, w, s, p, h, fun hno => ?_⟩
    cases hregistered.mp hno
  · obtain ⟨ps, w, s, p, h, hregistered⟩ := answered_of_run hnul
    exact ⟨ps, w, s, p, h, hregistered.mpr rfl⟩

end JitoGame.Auth.Registration
