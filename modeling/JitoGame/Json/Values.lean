import JitoGame.Json.Numbers
import JitoGame.Json.Quoting

namespace JitoGame.Json

-- an object has its members in their order, of two with one key the later counts
inductive Value
  | null
  | bool (b : Bool)
  | num (n : Number)
  | str (s : Units)
  | arr (l : List Value)
  | obj (l : List (Units × Value))

inductive Step
  | key (k : Units)
  | index (i : ℕ)

def Value.get (v : Value) (s : Step) : Option Value :=
  match s, v with
  | .key k, .obj l => l.reverse.lookup k
  | .index i, .arr l => l[i]?
  | _, _ => none

def Value.follow (v : Value) : List Step → Option Value
  | [] => some v
  | s :: path => (v.get s).bind fun v => v.follow path

def isSpace (c : Char) : Bool := c = ' ' || c = '\n' || c = '\r' || c = '\t'

def newline (gap indent : List Char) : List Char := if gap.isEmpty then [] else '\n' :: indent

def pad (gap : List Char) : List Char := if gap.isEmpty then [] else [' ']

mutual

def print (gap indent : List Char) : Value → List Char
  | .null => ['n', 'u', 'l', 'l']
  | .bool true => ['t', 'r', 'u', 'e']
  | .bool false => ['f', 'a', 'l', 's', 'e']
  | .num n => n.text
  | .str s => quote s
  | .arr [] => ['[', ']']
  | .arr (x :: xs) =>
    '[' :: (newline gap (indent ++ gap) ++ print gap (indent ++ gap) x ++
      printElems gap (indent ++ gap) xs ++ newline gap indent ++ [']'])
  | .obj [] => ['{', '}']
  | .obj ((k, x) :: xs) =>
    '{' :: (newline gap (indent ++ gap) ++ quote k ++ ':' :: pad gap ++ print gap (indent ++ gap) x ++
      printMembers gap (indent ++ gap) xs ++ newline gap indent ++ ['}'])

def printElems (gap indent : List Char) : List Value → List Char
  | [] => []
  | x :: xs => ',' :: (newline gap indent ++ print gap indent x ++ printElems gap indent xs)

def printMembers (gap indent : List Char) : List (Units × Value) → List Char
  | [] => []
  | (k, x) :: xs =>
    ',' :: (newline gap indent ++ quote k ++ ':' :: pad gap ++ print gap indent x ++
      printMembers gap indent xs)

end

def skip (s : List Char) : List Char := s.dropWhile isSpace

def after (w s : List Char) : Option (List Char) := if w.isPrefixOf s then some (s.drop w.length) else none

def parseNumber (s : List Char) : Option (Number × List Char) :=
  if h : isNumber (s.takeWhile isNumberChar) = true then
    some (⟨s.takeWhile isNumberChar, h⟩, s.dropWhile isNumberChar)
  else none

def parseKey (s : List Char) : Option (Units × List Char) :=
  (after ['"'] (skip s)).bind fun r => (parseUnits r).bind fun (k, r) =>
    (after [':'] (skip r)).map fun r => (k, r)

mutual

def parseValue : ℕ → List Char → Option (Value × List Char)
  | 0, _ => none
  | f + 1, s =>
    match skip s with
    | [] => none
    | c :: r =>
      if c = 'n' then (after ['u', 'l', 'l'] r).map fun r => (.null, r)
      else if c = 't' then (after ['r', 'u', 'e'] r).map fun r => (.bool true, r)
      else if c = 'f' then (after ['a', 'l', 's', 'e'] r).map fun r => (.bool false, r)
      else if c = '"' then (parseUnits r).map fun p => (.str p.1, p.2)
      else if c = '[' then
        match after [']'] (skip r) with
        | some r => some (.arr [], r)
        | none => (parseElems f r).map fun p => (.arr p.1, p.2)
      else if c = '{' then
        match after ['}'] (skip r) with
        | some r => some (.obj [], r)
        | none => (parseMembers f r).map fun p => (.obj p.1, p.2)
      else (parseNumber (c :: r)).map fun p => (.num p.1, p.2)

def parseElems : ℕ → List Char → Option (List Value × List Char)
  | 0, _ => none
  | f + 1, s =>
    (parseValue f s).bind fun (v, r) =>
      match skip r with
      | [] => none
      | c :: r =>
        if c = ',' then (parseElems f r).map fun p => (v :: p.1, p.2)
        else if c = ']' then some ([v], r)
        else none

def parseMembers : ℕ → List Char → Option (List (Units × Value) × List Char)
  | 0, _ => none
  | f + 1, s =>
    (parseKey s).bind fun (k, r) => (parseValue f r).bind fun (v, r) =>
      match skip r with
      | [] => none
      | c :: r =>
        if c = ',' then (parseMembers f r).map fun p => ((k, v) :: p.1, p.2)
        else if c = '}' then some ([(k, v)], r)
        else none

end

-- every character is read at most twice
def parse (s : List Char) : Option Value :=
  (parseValue (2 * s.length) s).bind fun (v, r) => if (skip r).isEmpty then some v else none

/-! What is printed is read back. -/

variable {l r w gap indent : List Char} {c : Char}

def Delimited (r : List Char) : Prop := ∀ c s, r = c :: s → isNumberChar c = false

theorem parseNumber_text (n : Number) (hr : Delimited r) : parseNumber (n.text ++ r) = some (n, r) := by
  have hstop : r.takeWhile isNumberChar = [] ∧ r.dropWhile isNumberChar = r := by
    cases r with
    | nil => exact ⟨rfl, rfl⟩
    | cons c s => simp [hr c s rfl]
  have htake : (n.text ++ r).takeWhile isNumberChar = n.text := by
    rw [List.takeWhile_append_of_pos n.chars, hstop.1, List.append_nil]
  have hdrop : (n.text ++ r).dropWhile isNumberChar = r := by
    rw [List.dropWhile_append_of_pos n.chars, hstop.2]
  unfold parseNumber
  simp only [htake, hdrop, n.valid, ↓reduceDIte]

theorem after_append (w r : List Char) : after w (w ++ r) = some r := by
  simp [after, List.isPrefixOf_iff_prefix]

def Blank (w : List Char) : Prop := ∀ c ∈ w, isSpace c = true

theorem Blank.append (hw : Blank w) (hl : Blank l) : Blank (w ++ l) := by
  intro c hc
  rcases List.mem_append.mp hc with hc | hc
  · exact hw c hc
  · exact hl c hc

theorem Blank.newline (gap : List Char) (hindent : Blank indent) : Blank (newline gap indent) := by
  unfold Json.newline
  split
  · exact fun _ hc => absurd hc List.not_mem_nil
  · exact List.forall_mem_cons.mpr ⟨by decide, hindent⟩

theorem Blank.pad (gap : List Char) : Blank (pad gap) := by
  unfold Json.pad
  split
  · exact fun _ hc => absurd hc List.not_mem_nil
  · exact List.forall_mem_cons.mpr ⟨by decide, fun _ hc => absurd hc List.not_mem_nil⟩

theorem skip_append (hw : Blank w) (s : List Char) : skip (w ++ s) = skip s :=
  List.dropWhile_append_of_pos hw

theorem skip_cons (hc : isSpace c = false) (s : List Char) : skip (c :: s) = c :: s := by
  simp [skip, hc]

def Closes (c : Char) : Prop := isSpace c = true ∨ c = ']'

theorem isSpace_number (hc : c = '-' ∨ c.isDigit = true) : ¬ Closes c ∧ c ≠ 'n' ∧ c ≠ 't' ∧ c ≠ 'f' ∧
    c ≠ '"' ∧ c ≠ '[' ∧ c ≠ '{' := by
  rcases hc with rfl | hc
  · simp [Closes, isSpace]
  · have hne {d : Char} (hd : d.isDigit = false) : c ≠ d := by
      rintro rfl
      rw [hc] at hd
      cases hd
    have hspace : ¬ Closes c := by
      simp only [Closes, isSpace, Bool.or_eq_true, decide_eq_true_eq, not_or]
      exact ⟨⟨⟨⟨hne rfl, hne rfl⟩, hne rfl⟩, hne rfl⟩, hne rfl⟩
    exact ⟨hspace, hne rfl, hne rfl, hne rfl, hne rfl, hne rfl, hne rfl⟩

theorem print_head (gap indent : List Char) (v : Value) : ∃ c s, print gap indent v = c :: s ∧ ¬ Closes c := by
  have hplain {c : Char} (hc : c ∈ ['n', 't', 'f', '"', '[', '{']) : ¬ Closes c := by
    revert c
    simp [Closes, isSpace]
  cases v with
  | null => exact ⟨_, _, rfl, hplain (by simp)⟩
  | bool b => cases b <;> exact ⟨_, _, rfl, hplain (by simp)⟩
  | num n =>
    obtain ⟨c, s, heq, hc⟩ := n.head
    exact ⟨c, s, heq, (isSpace_number hc).1⟩
  | str s => exact ⟨_, _, rfl, hplain (by simp)⟩
  | arr l => cases l <;> exact ⟨_, _, rfl, hplain (by simp)⟩
  | obj l => rcases l with _ | ⟨⟨k, x⟩, xs⟩ <;> exact ⟨_, _, rfl, hplain (by simp)⟩

theorem delimited (hw : Blank w) (hc : isNumberChar c = false) (r : List Char) :
    Delimited (w ++ c :: r) := by
  intro d s heq
  cases w with
  | nil =>
    obtain ⟨rfl, -⟩ := List.cons.inj heq
    exact hc
  | cons e w =>
    obtain ⟨rfl, -⟩ := List.cons.inj heq
    have hspace := hw e List.mem_cons_self
    simp only [isSpace, Bool.or_eq_true, decide_eq_true_eq] at hspace
    rcases hspace with ((rfl | rfl) | rfl) | rfl <;> decide

theorem Delimited.comma (s : List Char) : Delimited (',' :: s) := by
  intro c t heq
  obtain ⟨rfl, -⟩ := List.cons.inj heq
  decide

def Reads (gap indent : List Char) (v : Value) : Prop :=
  ∀ ⦃w r f⦄, Blank w → Delimited r → 2 * (print gap indent v).length ≤ f →
    parseValue f (w ++ (print gap indent v ++ r)) = some (v, r)

section

variable {f : ℕ} {x : Value} {xs : List Value} {k : Units} {ms : List (Units × Value)} {s : List Char}

theorem parseElems_last (hx : Reads gap indent x) (hw : Blank w) (hl : Blank l) (r : List Char)
    (hf : 2 * (print gap indent x).length ≤ f) :
    parseElems (f + 1) (w ++ (print gap indent x ++ (l ++ ']' :: r))) = some ([x], r) := by
  rw [parseElems, hx hw (delimited hl (by decide) r) hf, Option.bind_some]
  simp only [skip_append hl, skip_cons (show isSpace ']' = false by decide), Char.reduceEq, ↓reduceIte]

theorem parseElems_more (hx : Reads gap indent x) (hw : Blank w) (hs : parseElems f s = some (xs, r))
    (hf : 2 * (print gap indent x).length ≤ f) :
    parseElems (f + 1) (w ++ (print gap indent x ++ ',' :: s)) = some (x :: xs, r) := by
  rw [parseElems, hx hw (.comma s) hf, Option.bind_some]
  simp only [skip_cons (show isSpace ',' = false by decide), ↓reduceIte, hs, Option.map_some]

theorem parseKey_quote (hw : Blank w) (k : Units) (s : List Char) :
    parseKey (w ++ (quote k ++ ':' :: s)) = some (k, s) := by
  have hquote : after ['"'] (skip (w ++ (quote k ++ ':' :: s))) = some (quoteBody k ++ '"' :: ':' :: s) := by
    rw [skip_append hw, quote, List.cons_append, skip_cons (by decide), List.append_assoc]
    exact after_append ['"'] _
  rw [parseKey, hquote, Option.bind_some, parseUnits_quoteBody, Option.bind_some]
  simp only [skip_cons (show isSpace ':' = false by decide)]
  exact congrArg _ (after_append [':'] s)

theorem parseMembers_last (hx : Reads gap indent x) (hw : Blank w) (hl : Blank l) (k : Units)
    (r : List Char) (hf : 2 * (print gap indent x).length ≤ f) :
    parseMembers (f + 1) (w ++ (quote k ++ ':' :: (pad gap ++ (print gap indent x ++ (l ++ '}' :: r))))) =
      some ([(k, x)], r) := by
  rw [parseMembers, parseKey_quote hw, Option.bind_some]
  have hvalue := hx (.pad gap) (delimited (c := '}') hl (by decide) r) hf
  simp only [hvalue, Option.bind_some, skip_append hl, skip_cons (show isSpace '}' = false by decide),
    Char.reduceEq, ↓reduceIte]

theorem parseMembers_more (hx : Reads gap indent x) (hw : Blank w) (k : Units)
    (hs : parseMembers f s = some (ms, r)) (hf : 2 * (print gap indent x).length ≤ f) :
    parseMembers (f + 1) (w ++ (quote k ++ ':' :: (pad gap ++ (print gap indent x ++ ',' :: s)))) =
      some ((k, x) :: ms, r) := by
  rw [parseMembers, parseKey_quote hw, Option.bind_some]
  simp only [hx (.pad gap) (.comma s) hf, Option.bind_some, skip_cons (show isSpace ',' = false by decide),
    ↓reduceIte, hs, Option.map_some]

theorem reads_num (n : Number) : Reads gap indent (.num n) := by
  intro w r f hw hr hf
  obtain ⟨c, t, heq, hc⟩ := n.head
  obtain ⟨hclose, h₁, h₂, h₃, h₄, h₅, h₆⟩ := isSpace_number hc
  have hspace : isSpace c = false := by
    simpa [Closes] using (not_or.mp hclose).1
  obtain ⟨f, rfl⟩ : ∃ g, f = g + 1 := ⟨f - 1, by simp [print, heq] at hf; omega⟩
  have hnum := parseNumber_text n hr
  rw [print, parseValue, skip_append hw]
  rw [heq, List.cons_append] at hnum ⊢
  rw [skip_cons hspace]
  simp only [h₁, h₂, h₃, h₄, h₅, h₆, ↓reduceIte, hnum, Option.map_some]

end

theorem after_print (hw : Blank w) (gap indent : List Char) (v : Value) (s : List Char) :
    after [']'] (skip (w ++ (print gap indent v ++ s))) = none := by
  obtain ⟨c, t, heq, hc⟩ := print_head gap indent v
  obtain ⟨hspace, hclose⟩ := not_or.mp hc
  rw [skip_append hw, heq, List.cons_append, skip_cons (by simpa using hspace)]
  simp [after, Ne.symm hclose]

theorem after_quote (hw : Blank w) (k : Units) (s : List Char) :
    after ['}'] (skip (w ++ (quote k ++ s))) = none := by
  rw [skip_append hw, quote, List.cons_append, skip_cons (by decide)]
  simp [after]

theorem reads_open {c : Char} {t : List Char} {v : Value} (hprint : print gap indent v = c :: t)
    (hstep : ∀ f r, 2 * t.length < f → parseValue (f + 1) (c :: (t ++ r)) = some (v, r)) :
    Reads gap indent v := by
  intro w r f hw hr hf
  rw [hprint, List.length_cons] at hf
  obtain ⟨f, rfl⟩ : ∃ g, f = g + 1 := ⟨f - 1, by omega⟩
  have hskip : skip (w ++ (c :: (t ++ r))) = skip (c :: (t ++ r)) := skip_append hw _
  rw [hprint, List.cons_append, ← hstep f r (by omega), parseValue, parseValue, hskip]

mutual

theorem reads (hgap : Blank gap) : ∀ (v : Value) (indent : List Char), Blank indent → Reads gap indent v
  | .null, _, _ => reads_open rfl fun f r _ => by simp [parseValue, skip, isSpace, after]
  | .bool true, _, _ => reads_open rfl fun f r _ => by simp [parseValue, skip, isSpace, after]
  | .bool false, _, _ => reads_open rfl fun f r _ => by
    simp [parseValue, skip, isSpace, after]
  | .num n, _, _ => reads_num n
  | .str s, _, _ => reads_open rfl fun f r _ => by
    simp [parseValue, skip, isSpace, parseUnits_quoteBody]
  | .arr [], _, _ => reads_open rfl fun f r _ => by simp [parseValue, skip, isSpace, after]
  | .arr (x :: xs), indent, hindent => by
    have hx := reads hgap x (indent ++ gap) (hindent.append hgap)
    refine reads_open rfl fun f r hf => ?_
    have helems := readsElems hgap xs (indent ++ gap) (hindent.append hgap) hx
      ((hindent.append hgap).newline gap) (hindent.newline gap) (f := f) r (by simp at hf ⊢; omega)
    have hclose := after_print ((hindent.append hgap).newline gap) gap (indent ++ gap) x
      (printElems gap (indent ++ gap) xs ++ (newline gap indent ++ ']' :: r))
    simp only [List.append_assoc, List.cons_append, List.nil_append, parseValue,
      skip_cons (show isSpace '[' = false by decide), Char.reduceEq, ↓reduceIte, hclose, helems,
      Option.map_some]
  | .obj [], _, _ => reads_open rfl fun f r _ => by simp [parseValue, skip, isSpace, after]
  | .obj ((k, x) :: xs), indent, hindent => by
    have hx := reads hgap x (indent ++ gap) (hindent.append hgap)
    refine reads_open rfl fun f r hf => ?_
    have hmembers := readsMembers hgap xs (indent ++ gap) (hindent.append hgap) hx
      ((hindent.append hgap).newline gap) (hindent.newline gap) (f := f) k r (by simp at hf ⊢; omega)
    have hclose := after_quote ((hindent.append hgap).newline gap) k (':' :: (pad gap ++
      (print gap (indent ++ gap) x ++ (printMembers gap (indent ++ gap) xs ++
        (newline gap indent ++ '}' :: r)))))
    simp only [List.append_assoc, List.cons_append, List.nil_append, parseValue,
      skip_cons (show isSpace '{' = false by decide), Char.reduceEq, ↓reduceIte, hclose, hmembers,
      Option.map_some]

theorem readsElems (hgap : Blank gap) : ∀ (xs : List Value) (indent : List Char), Blank indent →
    ∀ {x w l f}, Reads gap indent x → Blank w → Blank l → ∀ r,
      2 * ((print gap indent x).length + (printElems gap indent xs).length) < f →
      parseElems f (w ++ (print gap indent x ++ (printElems gap indent xs ++ (l ++ ']' :: r)))) =
        some (x :: xs, r)
  | [], indent, _, x, w, l, f, hx, hw, hl, r, hf => by
    obtain ⟨f, rfl⟩ : ∃ g, f = g + 1 := ⟨f - 1, by omega⟩
    exact parseElems_last hx hw hl r (by omega)
  | y :: ys, indent, hindent, x, w, l, f, hx, hw, hl, r, hf => by
    obtain ⟨f, rfl⟩ : ∃ g, f = g + 1 := ⟨f - 1, by omega⟩
    have hy := reads hgap y indent hindent
    have htail := readsElems hgap ys indent hindent hy (hindent.newline gap) hl (f := f) r
      (by simp [printElems] at hf; omega)
    have hmore := parseElems_more hx hw htail (by omega)
    simpa [printElems] using hmore

theorem readsMembers (hgap : Blank gap) : ∀ (xs : List (Units × Value)) (indent : List Char),
    Blank indent → ∀ {x w l f}, Reads gap indent x → Blank w → Blank l → ∀ k r,
      2 * ((print gap indent x).length + (printMembers gap indent xs).length) < f →
      parseMembers f (w ++ (quote k ++ ':' :: (pad gap ++ (print gap indent x ++
        (printMembers gap indent xs ++ (l ++ '}' :: r)))))) = some ((k, x) :: xs, r)
  | [], indent, _, x, w, l, f, hx, hw, hl, k, r, hf => by
    obtain ⟨f, rfl⟩ : ∃ g, f = g + 1 := ⟨f - 1, by omega⟩
    exact parseMembers_last hx hw hl k r (by omega)
  | (k', y) :: ys, indent, hindent, x, w, l, f, hx, hw, hl, k, r, hf => by
    obtain ⟨f, rfl⟩ : ∃ g, f = g + 1 := ⟨f - 1, by omega⟩
    have hy := reads hgap y indent hindent
    have htail := readsMembers hgap ys indent hindent hy (hindent.newline gap) hl (f := f) k' r
      (by simp [printMembers] at hf; omega)
    have hmore := parseMembers_more hx hw k htail (by omega)
    simpa [printMembers] using hmore

end

theorem parse_print (hgap : Blank gap) (v : Value) : parse (print gap [] v) = some v := by
  have hnil : Blank [] := fun _ hc => absurd hc List.not_mem_nil
  have hread := reads hgap v [] hnil hnil (r := []) (fun _ _ heq => by cases heq) (Nat.le_refl _)
  rw [List.nil_append, List.append_nil] at hread
  rw [parse, hread]
  rfl

end JitoGame.Json
