import Orqara.Library.Json

/-!
# The text of a JSON value

`JSON.stringify` without indentation, and the fact that a text determines the
value it was printed from. The proof reads a text from the left: every printed
value knows where it ends, as soon as what follows starts with a delimiter.
-/

namespace Orqara.Json

/-- The letter of a two-character escape. -/
def shortEscape (c : Char) : Option Char :=
  if c = '"' then some '"'
  else if c = '\\' then some '\\'
  else if c = '\x08' then some 'b'
  else if c = '\x0c' then some 'f'
  else if c = '\n' then some 'n'
  else if c = '\r' then some 'r'
  else if c = '\t' then some 't'
  else none

def hexDigit (n : ℕ) : Char :=
  if n < 10 then Char.ofNat (48 + n) else Char.ofNat (87 + n)

def escapeChar (c : Char) : List Char :=
  match shortEscape c with
  | some e => ['\\', e]
  | none =>
    if c.toNat < 32 then
      ['\\', 'u', '0', '0', hexDigit (c.toNat / 16), hexDigit (c.toNat % 16)]
    else [c]

/-- A string up to and including its closing quote. -/
def quoteRest : List Char → List Char
  | [] => ['"']
  | c :: cs => escapeChar c ++ quoteRest cs

def quote (s : String) : List Char := '"' :: quoteRest s.toList

mutual
/-- The text of a value. -/
def print : Json → List Char
  | null => ['n', 'u', 'l', 'l']
  | bool true => ['t', 'r', 'u', 'e']
  | bool false => ['f', 'a', 'l', 's', 'e']
  | num n => n.repr.toList
  | str s => quote s
  | arr xs => '[' :: printItems xs
  | obj fields => '{' :: printFields fields

/-- The items of an array and its closing bracket. -/
def printItems : List Json → List Char
  | [] => [']']
  | x :: xs => print x ++ printMoreItems xs

def printMoreItems : List Json → List Char
  | [] => [']']
  | x :: xs => ',' :: print x ++ printMoreItems xs

/-- The properties of an object and its closing brace. -/
def printFields : List (String × Json) → List Char
  | [] => ['}']
  | (k, v) :: fields => quote k ++ ':' :: print v ++ printMoreFields fields

def printMoreFields : List (String × Json) → List Char
  | [] => ['}']
  | (k, v) :: fields => ',' :: quote k ++ ':' :: print v ++ printMoreFields fields
end

def stringify (v : Json) : String := String.ofList (print v)

/-! ## Reading strings back -/

/-- The character that a two-character escape stands for. -/
def longEscape (e : Char) : Char :=
  if e = 'b' then '\x08'
  else if e = 'f' then '\x0c'
  else if e = 'n' then '\n'
  else if e = 'r' then '\r'
  else if e = 't' then '\t'
  else e

def hexValue (c : Char) : ℕ := if c.toNat < 58 then c.toNat - 48 else c.toNat - 87

/-- A string up to its closing quote, and what follows it. -/
def unquote : List Char → Option (List Char × List Char)
  | [] => none
  | '"' :: rest => some ([], rest)
  | '\\' :: 'u' :: _ :: _ :: h :: l :: rest =>
    (unquote rest).map fun p => (Char.ofNat (16 * hexValue h + hexValue l) :: p.1, p.2)
  | '\\' :: e :: rest => (unquote rest).map fun p => (longEscape e :: p.1, p.2)
  | c :: rest => (unquote rest).map fun p => (c :: p.1, p.2)

theorem hexValue_hexDigit : ∀ n < 16, hexValue (hexDigit n) = n := by decide

variable {c : Char}

theorem longEscape_of_shortEscape {e : Char} (h : shortEscape c = some e) :
    longEscape e = c ∧ e ≠ 'u' := by
  unfold shortEscape at h
  split_ifs at h with h1 h2 h3 h4 h5 h6 h7 <;>
    (obtain rfl := Option.some.inj h; subst_vars; decide)

theorem unquote_escapeChar (c : Char) (rest : List Char) :
    unquote (escapeChar c ++ rest) = (unquote rest).map fun p => (c :: p.1, p.2) := by
  unfold escapeChar
  cases hshort : shortEscape c with
  | some e =>
    obtain ⟨hlong, hu⟩ := longEscape_of_shortEscape hshort
    simp [unquote, hu, hlong]
  | none =>
    by_cases hcontrol : c.toNat < 32
    · have hvalue : 16 * hexValue (hexDigit (c.toNat / 16)) +
          hexValue (hexDigit (c.toNat % 16)) = c.toNat := by
        rw [hexValue_hexDigit _ (by omega), hexValue_hexDigit _ (by omega)]
        omega
      simp [hcontrol, unquote, hvalue]
    · have hquote : c ≠ '"' := by
        rintro rfl
        simp [shortEscape] at hshort
      have hslash : c ≠ '\\' := by
        rintro rfl
        simp [shortEscape] at hshort
      simp [hcontrol, unquote, hslash]

theorem unquote_quoteRest (s rest : List Char) : unquote (quoteRest s ++ rest) = some (s, rest) := by
  induction s with
  | nil => rfl
  | cons c s ih => rw [quoteRest, List.append_assoc, unquote_escapeChar, ih, Option.map_some]

theorem quote_append_inj {s t : String} {x y : List Char} (h : quote s ++ x = quote t ++ y) :
    s = t ∧ x = y := by
  have htail : quoteRest s.toList ++ x = quoteRest t.toList ++ y := (List.cons.inj h).2
  have hread := congrArg unquote htail
  rw [unquote_quoteRest, unquote_quoteRest, Option.some.injEq, Prod.mk.injEq] at hread
  exact ⟨String.toList_injective hread.1, hread.2⟩

/-! ## Numbers -/

/-- The characters of a number. -/
def IsNumeric (c : Char) : Prop := c = '-' ∨ c.isDigit = true

instance (c : Char) : Decidable (IsNumeric c) := inferInstanceAs (Decidable (_ ∨ _))

/-- What may follow a number. -/
def Delimited (rest : List Char) : Prop := ∀ c ∈ rest.head?, ¬ IsNumeric c

theorem isNumeric_of_mem_repr {n : ℤ} (h : c ∈ n.repr.toList) : IsNumeric c := by
  rw [Int.repr_eq_if] at h
  split_ifs at h
  · right
    rw [Nat.toList_repr] at h
    exact Nat.isDigit_of_mem_toDigits (by decide) (by decide) h
  · rw [String.toList_append, List.mem_append] at h
    rcases h with hminus | hdigit
    · left
      simpa using hminus
    · right
      rw [Nat.toList_repr] at hdigit
      exact Nat.isDigit_of_mem_toDigits (by decide) (by decide) hdigit

/-- A run of characters ends where the next one is of another kind. -/
theorem append_inj_of_run {P : Char → Prop} {p : List Char} :
    ∀ {q x y : List Char}, (∀ c ∈ p, P c) → (∀ c ∈ q, P c) → (∀ c ∈ x.head?, ¬ P c) →
      (∀ c ∈ y.head?, ¬ P c) → p ++ x = q ++ y → p = q ∧ x = y := by
  induction p with
  | nil =>
    intro q x y _ hq hx _ h
    cases q with
    | nil => exact ⟨rfl, h⟩
    | cons d q =>
      rw [List.nil_append, List.cons_append] at h
      subst h
      exact absurd (hq d (by simp)) (hx d (by simp))
  | cons c p ih =>
    intro q x y hp hq hx hy h
    cases q with
    | nil =>
      rw [List.nil_append, List.cons_append] at h
      subst h
      exact absurd (hp c (by simp)) (hy c (by simp))
    | cons d q =>
      rw [List.cons_append, List.cons_append] at h
      obtain ⟨rfl, htail⟩ := List.cons.inj h
      obtain ⟨rfl, rest⟩ := ih (fun e he => hp e (by simp [he]))
        (fun e he => hq e (by simp [he])) hx hy htail
      exact ⟨rfl, rest⟩

theorem repr_append_inj {m n : ℤ} {x y : List Char} (hx : Delimited x) (hy : Delimited y)
    (h : m.repr.toList ++ x = n.repr.toList ++ y) : m = n ∧ x = y := by
  obtain ⟨hrepr, hrest⟩ := append_inj_of_run (fun c => isNumeric_of_mem_repr)
    (fun c => isNumeric_of_mem_repr) hx hy h
  exact ⟨Int.repr_injective (String.toList_injective hrepr), hrest⟩

/-! ## Values -/

theorem delimited_cons (h : ¬ IsNumeric c) (rest : List Char) :
    Delimited (c :: rest) := by
  intro d hd
  rw [List.head?_cons, Option.mem_some_iff] at hd
  exact hd ▸ h

theorem delimited_printMoreItems (xs : List Json) (rest : List Char) :
    Delimited (printMoreItems xs ++ rest) := by
  cases xs with
  | nil => exact delimited_cons (by decide) _
  | cons x xs => exact delimited_cons (by decide) _

theorem delimited_printMoreFields (fields : List (String × Json)) (rest : List Char) :
    Delimited (printMoreFields fields ++ rest) := by
  cases fields with
  | nil => exact delimited_cons (by decide) _
  | cons field fields => exact delimited_cons (by decide) _

/-- What a value starts with tells its constructor. -/
def kind : Json → ℕ
  | null => 0
  | bool true => 1
  | bool false => 2
  | num _ => 3
  | str _ => 4
  | arr _ => 5
  | obj _ => 6

def kindOfFirst (c : Char) : ℕ :=
  if c = 'n' then 0
  else if c = 't' then 1
  else if c = 'f' then 2
  else if IsNumeric c then 3
  else if c = '"' then 4
  else if c = '[' then 5
  else if c = '{' then 6
  else 7

theorem kindOfFirst_numeric (h : IsNumeric c) : kindOfFirst c = 3 := by
  have hn : c ≠ 'n' := by
    rintro rfl
    revert h
    decide
  have ht : c ≠ 't' := by
    rintro rfl
    revert h
    decide
  have hf : c ≠ 'f' := by
    rintro rfl
    revert h
    decide
  simp [kindOfFirst, hn, ht, hf, h]

theorem print_eq_cons (a : Json) : ∃ c rest, print a = c :: rest ∧ kindOfFirst c = a.kind := by
  cases a with
  | null => exact ⟨_, _, print.eq_1, by decide⟩
  | bool b => cases b <;> exact ⟨_, _, by rw [print], by decide⟩
  | num n =>
    have hne : n.repr.toList ≠ [] := by
      rw [Int.repr_eq_if]
      split_ifs
      · rw [Nat.toList_repr]
        exact Nat.toDigits_ne_nil
      · simp
    obtain ⟨c, rest, hrepr⟩ := List.exists_cons_of_ne_nil hne
    refine ⟨c, rest, by rw [print, hrepr], ?_⟩
    exact kindOfFirst_numeric (isNumeric_of_mem_repr (n := n) (by simp [hrepr]))
  | str s => exact ⟨_, _, by rw [print, quote], rfl⟩
  | arr xs => exact ⟨_, _, by rw [print], rfl⟩
  | obj fields => exact ⟨_, _, by rw [print], rfl⟩

theorem kind_eq_of_print {a b : Json} {x y : List Char} (h : print a ++ x = print b ++ y) :
    a.kind = b.kind := by
  obtain ⟨c, rest, ha, hc⟩ := print_eq_cons a
  obtain ⟨d, rest', hb, hd⟩ := print_eq_cons b
  rw [ha, hb, List.cons_append, List.cons_append] at h
  rw [← hc, ← hd, (List.cons.inj h).1]

/-- No value starts with a closing bracket or brace. -/
theorem print_append_ne_cons (a : Json) (x : List Char) {y : List Char} (hc : kindOfFirst c = 7) :
    print a ++ x ≠ c :: y := by
  obtain ⟨d, rest, ha, hd⟩ := print_eq_cons a
  intro h
  rw [ha, List.cons_append] at h
  rw [← (List.cons.inj h).1, hd] at hc
  cases a with
  | bool b => cases b <;> simp [kind] at hc
  | _ => simp [kind] at hc

mutual
/-- A printed value ends where what follows is delimited. -/
theorem print_append_inj : ∀ (a b : Json) {x y : List Char}, Delimited x → Delimited y →
    print a ++ x = print b ++ y → a = b ∧ x = y
  | null, b, x, y, _, _, h => by
    have hkind := kind_eq_of_print h
    cases b with
    | null => simpa [print] using h
    | bool b => cases b <;> simp [kind] at hkind
    | _ => simp [kind] at hkind
  | bool v, b, x, y, _, _, h => by
    have hkind := kind_eq_of_print h
    cases b with
    | bool w => cases v <;> cases w <;> simp_all [kind, print]
    | _ => cases v <;> simp [kind] at hkind
  | num n, b, x, y, hx, hy, h => by
    have hkind := kind_eq_of_print h
    cases b with
    | num m =>
      rw [print, print] at h
      obtain ⟨rfl, hrest⟩ := repr_append_inj hx hy h
      exact ⟨rfl, hrest⟩
    | bool b => cases b <;> simp [kind] at hkind
    | _ => simp [kind] at hkind
  | str s, b, x, y, _, _, h => by
    have hkind := kind_eq_of_print h
    cases b with
    | str t =>
      rw [print, print] at h
      obtain ⟨rfl, hrest⟩ := quote_append_inj h
      exact ⟨rfl, hrest⟩
    | bool b => cases b <;> simp [kind] at hkind
    | _ => simp [kind] at hkind
  | arr xs, b, x, y, _, _, h => by
    have hkind := kind_eq_of_print h
    cases b with
    | arr ys =>
      rw [print, print] at h
      obtain ⟨rfl, hrest⟩ := printItems_append_inj xs ys (List.cons.inj h).2
      exact ⟨rfl, hrest⟩
    | bool b => cases b <;> simp [kind] at hkind
    | _ => simp [kind] at hkind
  | obj fields, b, x, y, _, _, h => by
    have hkind := kind_eq_of_print h
    cases b with
    | obj fields' =>
      rw [print, print] at h
      obtain ⟨rfl, hrest⟩ := printFields_append_inj fields fields' (List.cons.inj h).2
      exact ⟨rfl, hrest⟩
    | bool b => cases b <;> simp [kind] at hkind
    | _ => simp [kind] at hkind

theorem printItems_append_inj : ∀ (xs ys : List Json) {x y : List Char},
    printItems xs ++ x = printItems ys ++ y → xs = ys ∧ x = y
  | [], [], x, y, h => by simpa [printItems] using h
  | [], b :: ys, x, y, h => by
    rw [printItems, printItems, List.append_assoc] at h
    exact absurd h.symm (print_append_ne_cons b _ (by decide))
  | a :: xs, [], x, y, h => by
    rw [printItems, printItems, List.append_assoc] at h
    exact absurd h (print_append_ne_cons a _ (by decide))
  | a :: xs, b :: ys, x, y, h => by
    rw [printItems, printItems, List.append_assoc, List.append_assoc] at h
    obtain ⟨rfl, hmore⟩ := print_append_inj a b (delimited_printMoreItems xs x)
      (delimited_printMoreItems ys y) h
    obtain ⟨rfl, hrest⟩ := printMoreItems_append_inj xs ys hmore
    exact ⟨rfl, hrest⟩

theorem printMoreItems_append_inj : ∀ (xs ys : List Json) {x y : List Char},
    printMoreItems xs ++ x = printMoreItems ys ++ y → xs = ys ∧ x = y
  | [], [], x, y, h => by simpa [printMoreItems] using h
  | [], b :: ys, x, y, h => by simp [printMoreItems] at h
  | a :: xs, [], x, y, h => by simp [printMoreItems] at h
  | a :: xs, b :: ys, x, y, h => by
    rw [printMoreItems, printMoreItems, List.cons_append, List.cons_append, List.append_assoc,
      List.append_assoc] at h
    obtain ⟨rfl, hmore⟩ := print_append_inj a b (delimited_printMoreItems xs x)
      (delimited_printMoreItems ys y) (List.cons.inj h).2
    obtain ⟨rfl, hrest⟩ := printMoreItems_append_inj xs ys hmore
    exact ⟨rfl, hrest⟩

theorem printFields_append_inj : ∀ (xs ys : List (String × Json)) {x y : List Char},
    printFields xs ++ x = printFields ys ++ y → xs = ys ∧ x = y
  | [], [], x, y, h => by simpa [printFields] using h
  | [], (l, b) :: ys, x, y, h => by simp [printFields, quote] at h
  | (k, a) :: xs, [], x, y, h => by simp [printFields, quote] at h
  | (k, a) :: xs, (l, b) :: ys, x, y, h => by
    simp only [printFields, List.append_assoc, List.cons_append] at h
    obtain ⟨rfl, hvalue⟩ := quote_append_inj h
    obtain ⟨rfl, hmore⟩ := print_append_inj a b (delimited_printMoreFields xs x)
      (delimited_printMoreFields ys y) (List.cons.inj hvalue).2
    obtain ⟨rfl, hrest⟩ := printMoreFields_append_inj xs ys hmore
    exact ⟨rfl, hrest⟩

theorem printMoreFields_append_inj : ∀ (xs ys : List (String × Json)) {x y : List Char},
    printMoreFields xs ++ x = printMoreFields ys ++ y → xs = ys ∧ x = y
  | [], [], x, y, h => by simpa [printMoreFields] using h
  | [], (l, b) :: ys, x, y, h => by simp [printMoreFields] at h
  | (k, a) :: xs, [], x, y, h => by simp [printMoreFields] at h
  | (k, a) :: xs, (l, b) :: ys, x, y, h => by
    simp only [printMoreFields, List.append_assoc, List.cons_append] at h
    obtain ⟨rfl, hvalue⟩ := quote_append_inj (List.cons.inj h).2
    obtain ⟨rfl, hmore⟩ := print_append_inj a b (delimited_printMoreFields xs x)
      (delimited_printMoreFields ys y) (List.cons.inj hvalue).2
    obtain ⟨rfl, hrest⟩ := printMoreFields_append_inj xs ys hmore
    exact ⟨rfl, hrest⟩
end

/-- Values with the same text are the same value. -/
theorem stringify_injective : Function.Injective stringify := by
  intro a b h
  have hprint : print a = print b := String.ofList_injective h
  have hend : Delimited [] := by
    intro c hc
    cases hc
  exact (print_append_inj a b hend hend (by rw [hprint])).1

end Orqara.Json
