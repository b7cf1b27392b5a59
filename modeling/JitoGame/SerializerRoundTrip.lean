import JitoGame.Serializer

namespace JitoGame

open Decimals
open Json (Units Value Step units)
open Centipoints (Thrown Finite RoundsTo bigInt)

-- `BigInt(s)`, for texts without blanks and radix prefix
def toBigInt (s : Units) : Except Thrown ℤ :=
  match s.map fun u => Char.ofNat u.toNat with
  | '-' :: digits => (bigInt digits).map fun n => -n
  | digits => bigInt digits

namespace Unknown

mutual

def Keyed : Unknown → Prop
  | .array l => KeyedElems l
  | .object m => (m.map Prod.fst).Nodup ∧ KeyedMembers m
  | _ => True

def KeyedElems : List Unknown → Prop
  | [] => True
  | v :: l => Keyed v ∧ KeyedElems l

def KeyedMembers : List (Units × Unknown) → Prop
  | [] => True
  | (_, v) :: m => Keyed v ∧ KeyedMembers m

end

def Seen (v : Unknown) (o : Option Value) : Prop :=
  match v with
  | .undefined => o = none ∨ o = some .null
  | .null | .number .nan | .number (.infinity _) => o = some .null
  | .bool b => o = some (.bool b)
  | .number (.finite negative x) => ∃ n d, o = some (.num n) ∧
    n.value = (if negative = true ∧ x.m ≠ 0 then -d else d) ∧ RoundsTo d x.toDouble
  | .bigint n => ∃ s, o = some (.str s) ∧ toBigInt s = .ok n
  | .string s => o = some (.str s)
  | .array l => ∃ l', o = some (.arr l') ∧ l'.length = l.length
  | .object _ => ∃ m, o = some (.obj m)

mutual

def written : Unknown → Option Value
  | .undefined => none
  | .null | .number .nan | .number (.infinity _) => some .null
  | .bool b => some (.bool b)
  | .number (.finite negative x) => some (.num (.ofFinite negative x))
  | .bigint n => some (.str (units (toString n)))
  | .string s => some (.str s)
  | .array l => some (.arr (writtenElems l))
  | .object m => some (.obj (writtenMembers m))

def writtenElems : List Unknown → List Value
  | [] => []
  | v :: l => (written v).getD .null :: writtenElems l

def writtenMembers : List (Units × Unknown) → List (Units × Value)
  | [] => []
  | (k, v) :: m =>
    match written v with
    | some j => (k, j) :: writtenMembers m
    | none => writtenMembers m

end

mutual

theorem serialize_replaceAll : ∀ (v : Unknown) (key : Units),
    (v.replaceAll bigIntReplacer key).serialize = .ok v.written
  | .undefined, _ => rfl
  | .null, _ => rfl
  | .bool _, _ => rfl
  | .number .nan, _ => rfl
  | .number (.infinity _), _ => rfl
  | .number (.finite _ _), _ => rfl
  | .bigint _, _ => rfl
  | .string _, _ => rfl
  | .array l, _ => by
    rw [replaceAll, serialize, serializeElems_replaceElems l 0]
    rfl
  | .object m, _ => by
    rw [replaceAll, serialize, serializeMembers_replaceMembers m]
    rfl

theorem serializeElems_replaceElems : ∀ (l : List Unknown) (i : ℕ),
    serializeElems (replaceElems bigIntReplacer i l) = .ok (writtenElems l)
  | [], _ => rfl
  | v :: l, i => by
    rw [replaceElems, serializeElems, serialize_replaceAll v, serializeElems_replaceElems l (i + 1)]
    rfl

theorem serializeMembers_replaceMembers : ∀ m : List (Units × Unknown),
    serializeMembers (replaceMembers bigIntReplacer m) = .ok (writtenMembers m)
  | [] => rfl
  | (k, v) :: m => by
    rw [replaceMembers, serializeMembers, serialize_replaceAll v, serializeMembers_replaceMembers m,
      writtenMembers]
    cases v.written <;> rfl

end

theorem lookup_of_keys {β : Type*} {l : List (Units × β)} {k : Units} (h : k ∉ l.map Prod.fst) :
    l.lookup k = none := by
  rw [List.lookup_eq_none_iff]
  intro p hp
  have hne : k ≠ p.1 := fun heq => h (heq ▸ List.mem_map_of_mem hp)
  simpa using hne

theorem lookup_reverse {l : List (Units × Value)} (hl : (l.map Prod.fst).Nodup) (k : Units) :
    l.reverse.lookup k = l.lookup k := by
  induction l with
  | nil => rfl
  | cons p l ih =>
    obtain ⟨k', v⟩ := p
    obtain ⟨hnot, hl⟩ := List.nodup_cons.mp hl
    rw [List.reverse_cons, List.lookup_append, ih hl, List.lookup_cons]
    by_cases hk : k = k'
    · subst hk
      simp [lookup_of_keys hnot]
    · simp [List.lookup_cons, beq_false_of_ne hk]

theorem writtenMembers_keys (m : List (Units × Unknown)) :
    ((writtenMembers m).map Prod.fst).Sublist (m.map Prod.fst) := by
  induction m with
  | nil => exact List.Sublist.refl _
  | cons p m ih =>
    rw [writtenMembers]
    cases p.2.written with
    | some j => exact ih.cons_cons p.1
    | none => exact ih.cons p.1

theorem lookup_writtenMembers {m : List (Units × Unknown)} (hm : (m.map Prod.fst).Nodup) (k : Units) :
    (writtenMembers m).lookup k = (m.lookup k).bind written := by
  induction m with
  | nil => rfl
  | cons p m ih =>
    obtain ⟨k', v⟩ := p
    obtain ⟨hnot, hkeys⟩ := List.nodup_cons.mp hm
    rw [writtenMembers, List.lookup_cons]
    by_cases hk : k = k'
    · subst hk
      cases hw : v.written with
      | some j => simp [hw]
      | none =>
        have hnone : m.lookup k = none := lookup_of_keys hnot
        simp only [ih hkeys, hnone, BEq.rfl, Option.bind_some, hw, Option.bind_none]
    · have hbeq := beq_false_of_ne hk
      cases hw : v.written with
      | some j => simp [List.lookup_cons, hbeq, ih hkeys]
      | none => simp [hbeq, ih hkeys]

theorem getElem?_writtenElems (l : List Unknown) (i : ℕ) :
    (writtenElems l)[i]? = l[i]?.map fun v => v.written.getD .null := by
  induction l generalizing i with
  | nil => rfl
  | cons v l ih =>
    cases i with
    | zero => rfl
    | succ i => exact ih i

theorem length_writtenElems (l : List Unknown) : (writtenElems l).length = l.length := by
  induction l with
  | nil => rfl
  | cons v l ih => exact congrArg Nat.succ ih

theorem Keyed.mem {m : List (Units × Unknown)} (h : KeyedMembers m) {k : Units} {v : Unknown}
    (hv : m.lookup k = some v) : v.Keyed := by
  induction m with
  | nil => cases hv
  | cons p m ih =>
    obtain ⟨k', v'⟩ := p
    obtain ⟨hv', hm⟩ := h
    rw [List.lookup_cons] at hv
    split at hv
    · obtain rfl := Option.some.inj hv
      exact hv'
    · exact ih hm hv

theorem Keyed.getElem {l : List Unknown} (h : KeyedElems l) {i : ℕ} {v : Unknown} (hv : l[i]? = some v) :
    v.Keyed := by
  induction l generalizing i with
  | nil => cases hv
  | cons v' l ih =>
    cases i with
    | zero =>
      obtain rfl := Option.some.inj hv
      exact h.1
    | succ i => exact ih h.2 hv

theorem Keyed.get {v : Unknown} (h : v.Keyed) (s : Step) : (v.get s).Keyed := by
  unfold Unknown.get
  split
  · rename_i k m
    cases hv : m.lookup k with
    | none => exact trivial
    | some v => exact Keyed.mem h.2 hv
  · rename_i i l
    cases hv : l[i]? with
    | none => exact trivial
    | some v => exact Keyed.getElem h hv
  · exact trivial

theorem written_eq_none {v : Unknown} (h : v.written = none) : v = .undefined := by
  cases v with
  | undefined => rfl
  | number x => cases x <;> cases h
  | _ => cases h

theorem written_get {v : Unknown} (hv : v.Keyed) (s : Step) :
    (v.written.bind fun j => j.get s) = (v.get s).written ∨
      v.get s = .undefined ∧ (v.written.bind fun j => j.get s) = some .null := by
  cases s with
  | key k =>
    left
    cases v with
    | object m =>
      have hkeys := (writtenMembers_keys m).nodup hv.1
      change (writtenMembers m).reverse.lookup k = ((m.lookup k).getD .undefined).written
      rw [lookup_reverse hkeys, lookup_writtenMembers hv.1]
      cases m.lookup k <;> rfl
    | number x => cases x <;> rfl
    | _ => rfl
  | index i =>
    cases v with
    | array l =>
      change (writtenElems l)[i]? = (l[i]?.getD .undefined).written ∨
        l[i]?.getD .undefined = .undefined ∧ (writtenElems l)[i]? = some .null
      rw [getElem?_writtenElems]
      cases hget : l[i]? with
      | none => exact .inl rfl
      | some v =>
        cases hw : v.written with
        | some j => exact .inl (by simp [hw])
        | none => exact .inr ⟨written_eq_none hw, by simp [hw]⟩
    | number x => cases x <;> exact .inl rfl
    | _ => exact .inl rfl

theorem follow_undefined (path : List Step) : Unknown.undefined.follow path = .undefined := by
  induction path with
  | nil => rfl
  | cons s path ih => cases s <;> exact ih

theorem chars_units {l : List Char} (hl : ∀ c ∈ l, c.toNat < 0x10000) :
    ((l.flatMap Json.utf16).map fun u => Char.ofNat u.toNat) = l := by
  induction l with
  | nil => rfl
  | cons c l ih =>
    obtain ⟨hc, hl⟩ := List.forall_mem_cons.mp hl
    rw [List.flatMap_cons, List.map_append, ih hl, Json.utf16, if_pos hc]
    simp [Nat.mod_eq_of_lt hc]

theorem toBigInt_toString (n : ℤ) : toBigInt (units (toString n)) = .ok n := by
  have hsmall {c : Char} (hc : c.isDigit = true) : c.toNat < 0x10000 := by
    have hbounds := digit_bounds hc
    have hnine : '9'.toNat = 57 := rfl
    omega
  cases n with
  | ofNat n =>
    have hdigits := numeral_toDigits n
    have hchars : ((units (toString (Int.ofNat n))).map fun u => Char.ofNat u.toNat) = Nat.toDigits 10 n := by
      rw [units, show (toString (Int.ofNat n)).toList = _ from toList_toString n]
      exact chars_units fun c hc => hsmall (hdigits.digits c hc)
    unfold toBigInt
    rw [hchars]
    split
    · rename_i heq
      exact absurd (hdigits.digits '-' (heq ▸ List.mem_cons_self)) (by decide)
    · rw [Centipoints.bigInt_digits hdigits.digits, value_toDigits]
      rfl
  | negSucc n =>
    have hdigits := numeral_toDigits (n + 1)
    have hchars : ((units (toString (Int.negSucc n))).map fun u => Char.ofNat u.toNat) =
        '-' :: Nat.toDigits 10 (n + 1) := by
      rw [units, toList_toString_negSucc]
      exact chars_units (List.forall_mem_cons.mpr ⟨by decide, fun c hc => hsmall (hdigits.digits c hc)⟩)
    unfold toBigInt
    rw [hchars]
    simp only [Centipoints.bigInt_digits hdigits.digits, value_toDigits]
    rfl

theorem seen_written (v : Unknown) : v.Seen v.written := by
  cases v with
  | undefined => exact .inl rfl
  | number x =>
    cases x with
    | finite negative x => exact ⟨_, _, rfl, Json.Number.value_ofFinite negative x, x.rounds_text⟩
    | _ => rfl
  | bigint n => exact ⟨_, rfl, toBigInt_toString n⟩
  | array l => exact ⟨_, rfl, length_writtenElems l⟩
  | object m => exact ⟨_, rfl⟩
  | _ => rfl

theorem seen_follow {v : Unknown} (hv : v.Keyed) (path : List Step) :
    (v.follow path).Seen (v.written.bind fun j => j.follow path) := by
  induction path generalizing v with
  | nil =>
    have hsome : (v.written.bind fun j => j.follow []) = v.written := by
      cases v.written <;> rfl
    rw [hsome]
    exact v.seen_written
  | cons s path ih =>
    have hassoc : (v.written.bind fun j => j.follow (s :: path)) =
        (v.written.bind fun j => j.get s).bind fun j => j.follow path := by
      rw [Option.bind_assoc]
      rfl
    rw [hassoc]
    rcases written_get hv s with heq | ⟨hundef, hnull⟩
    · rw [heq]
      exact ih (hv.get s)
    · rw [hnull, follow, hundef, follow_undefined]
      cases path with
      | nil => exact .inr rfl
      | cons s path => cases s <;> exact .inl rfl

/-! Without the replacer a bigint anywhere makes the call fail. -/

mutual

theorem serialize_free : ∀ {v : Unknown}, v.Keyed → (∀ path n, v.follow path ≠ .bigint n) →
    v.serialize = .ok v.written
  | .undefined, _, _ => rfl
  | .null, _, _ => rfl
  | .bool _, _, _ => rfl
  | .number .nan, _, _ => rfl
  | .number (.infinity _), _, _ => rfl
  | .number (.finite _ _), _, _ => rfl
  | .bigint n, _, hfree => absurd rfl (hfree [] n)
  | .string _, _, _ => rfl
  | .array l, hv, hfree => by
    rw [serialize, serializeElems_free hv fun i path n => hfree (.index i :: path) n]
    rfl
  | .object m, hv, hfree => by
    rw [serialize, serializeMembers_free hv.1 hv.2 fun k path n => hfree (.key k :: path) n]
    rfl

theorem serializeElems_free : ∀ {l : List Unknown}, KeyedElems l →
    (∀ (i : ℕ) path n, (l[i]?.getD .undefined).follow path ≠ .bigint n) →
    serializeElems l = .ok (writtenElems l)
  | [], _, _ => rfl
  | v :: l, hl, hfree => by
    rw [serializeElems, serialize_free hl.1 (hfree 0), serializeElems_free hl.2 fun i => hfree (i + 1)]
    rfl

theorem serializeMembers_free : ∀ {m : List (Units × Unknown)}, (m.map Prod.fst).Nodup → KeyedMembers m →
    (∀ k path n, ((m.lookup k).getD .undefined).follow path ≠ .bigint n) →
    serializeMembers m = .ok (writtenMembers m)
  | [], _, _, _ => rfl
  | (k, v) :: m, hkeys, hm, hfree => by
    obtain ⟨hnot, hkeys⟩ := List.nodup_cons.mp hkeys
    have hhead : ∀ path n, v.follow path ≠ .bigint n := by
      have hfree := hfree k
      rwa [List.lookup_cons_self] at hfree
    have htail : ∀ k path n, ((m.lookup k).getD .undefined).follow path ≠ .bigint n := by
      intro k' path n
      by_cases hk : k' = k
      · rw [hk, lookup_of_keys hnot, Option.getD_none, follow_undefined]
        exact fun heq => by cases heq
      · have hfree := hfree k' path n
        rwa [List.lookup_cons, beq_false_of_ne hk] at hfree
    rw [serializeMembers, serialize_free hm.1 hhead, serializeMembers_free hkeys hm.2 htail, writtenMembers]
    cases v.written <;> rfl

end

end Unknown

theorem indentation_blank (indent : Option ℤ) : Json.Blank (indentation indent) := by
  intro c hc
  rw [List.eq_of_mem_replicate hc]
  decide

theorem stringify_safe (value : Unknown) (indent : Option ℤ) : safeJsonStringify value indent =
    .ok (value.written.map (Json.print (indentation indent) [])) := by
  unfold safeJsonStringify stringify
  simp only [value.serialize_replaceAll []]
  rfl

theorem read_back {value : Unknown} (hv : value.Keyed) (indent : Option ℤ) {j : Value}
    (hj : value.written = some j) : Json.parse (Json.print (indentation indent) [] j) = some j ∧
      ∀ path, (value.follow path).Seen (j.follow path) := by
  refine ⟨Json.parse_print (indentation_blank indent) j, fun path => ?_⟩
  have hseen := Unknown.seen_follow hv path
  rwa [hj, Option.bind_some] at hseen

theorem publishRoundEvent_read (gameId event : Units) {payload : Unknown} (hp : payload.Keyed) :
    ∃ text j, publishRoundEvent gameId event payload = .ok (units "game:events:" ++ gameId, some text) ∧
      Json.parse text = some j ∧ j.follow [.key (units "event")] = some (.str event) ∧
      ∀ path, (payload.follow path).Seen (j.follow (.key (units "payload") :: path)) := by
  have hkeyed : (Unknown.object [(units "event", .string event), (units "payload", payload)]).Keyed :=
    ⟨(by decide : [units "event", units "payload"].Nodup), trivial, hp, trivial⟩
  obtain ⟨hparse, hseen⟩ := read_back hkeyed none rfl
  refine ⟨_, _, ?_, hparse, hseen [.key (units "event")], fun path => hseen (.key (units "payload") :: path)⟩
  rw [publishRoundEvent, stringify_safe]
  rfl

end JitoGame
