import Sandcube.Value.Text

/-!
# Reading JSON

A reader of JSON texts, and that it reads back what `to_json` writes (`read_render`).  A value is
read from the front of a text, with the rest of the text returned, and an array or an object is read
item by item; each of them takes at least one character, so the length of the text bounds the
recursion.
-/

namespace Sandcube.Json

variable {n fuel : ℕ} {c : Char} {rest text : List Char} {j first : Json}

/-! ### Strings -/

def isBlank (c : Char) : Bool := c = ' ' || c = '\t' || c = '\n' || c = '\r'

def skip (text : List Char) : List Char := text.dropWhile isBlank

def hexDigit? (c : Char) : Option ℕ :=
  if 48 ≤ c.toNat ∧ c.toNat ≤ 57 then some (c.toNat - 48)
  else if 97 ≤ c.toNat ∧ c.toNat ≤ 102 then some (c.toNat - 87)
  else if 65 ≤ c.toNat ∧ c.toNat ≤ 70 then some (c.toNat - 55)
  else none

/-- Four hexadecimal digits. -/
def hex4? (a b c d : Char) : Option ℕ := do
  let a ← hexDigit? a
  let b ← hexDigit? b
  let c ← hexDigit? c
  let d ← hexDigit? d
  return ((a * 16 + b) * 16 + c) * 16 + d

def unescape? (c : Char) : Option Char :=
  if c = '"' ∨ c = '\\' ∨ c = '/' then some c
  else if c = 'b' then some (Char.ofNat 8)
  else if c = 'f' then some (Char.ofNat 12)
  else if c = 'n' then some '\n'
  else if c = 'r' then some '\r'
  else if c = 't' then some '\t'
  else none

/-- A character beyond the first 65536 is escaped as a pair. -/
def pair? (high low : ℕ) : Option Char :=
  if 0xd800 ≤ high ∧ high < 0xdc00 ∧ 0xdc00 ≤ low ∧ low < 0xe000 then
    some (Char.ofNat (0x10000 + (high - 0xd800) * 0x400 + (low - 0xdc00)))
  else none

/-- The rest of a string after its first quote. -/
def string : List Char → Option (List Char × List Char)
  | [] => none
  | '"' :: rest => some ([], rest)
  | '\\' :: 'u' :: a :: b :: c :: d :: rest => do
    let code ← hex4? a b c d
    if code < 0xd800 ∨ 0xe000 ≤ code then
      let (text, rest) ← string rest
      return (Char.ofNat code :: text, rest)
    else
      match rest with
      | '\\' :: 'u' :: a :: b :: c :: d :: rest => do
        let low ← hex4? a b c d
        let char ← pair? code low
        let (text, rest) ← string rest
        return (char :: text, rest)
      | _ => none
  | '\\' :: c :: rest => do
    let char ← unescape? c
    let (text, rest) ← string rest
    return (char :: text, rest)
  | c :: rest =>
    if c.toNat < 32 then none
    else do
      let (text, rest) ← string rest
      return (c :: text, rest)

/-! ### Numbers -/

/-- The fraction of a number, if it has one. -/
def fraction? : List Char → Option (List Char × List Char)
  | '.' :: rest =>
    if rest.takeWhile Char.isDigit = [] then none
    else some ('.' :: rest.takeWhile Char.isDigit, rest.dropWhile Char.isDigit)
  | rest => some ([], rest)

/-- The sign at the front of a text. -/
def sign (signs : List Char) : List Char → List Char × List Char
  | c :: rest => if c ∈ signs then ([c], rest) else ([], c :: rest)
  | [] => ([], [])

/-- The exponent of a number, if it has one. -/
def exponent? : List Char → Option (List Char × List Char)
  | c :: rest =>
    if c = 'e' ∨ c = 'E' then
      let (plus, rest) := sign ['+', '-'] rest
      if rest.takeWhile Char.isDigit = [] then none
      else some (c :: plus ++ rest.takeWhile Char.isDigit, rest.dropWhile Char.isDigit)
    else some ([], c :: rest)
  | [] => some ([], [])

def number (text : List Char) : Option (Json × List Char) := do
  let (minus, rest) := sign ['-'] text
  let whole := rest.takeWhile Char.isDigit
  if whole = [] ∨ whole.head? = some '0' ∧ 1 < whole.length then none
  else
    let (fraction, rest) ← fraction? (rest.dropWhile Char.isDigit)
    let (exponent, rest) ← exponent? rest
    if fraction = [] ∧ exponent = [] then
      let n : ℤ := Nat.ofDigitChars 10 whole 0
      return (.int (if minus = [] then n else -n), rest)
    else return (.float (String.ofList (minus ++ whole ++ fraction ++ exponent)), rest)

/-! ### Values -/

mutual

/-- A value at the front of a text. -/
def value : ℕ → List Char → Option (Json × List Char)
  | 0, _ => none
  | fuel + 1, text =>
    match skip text with
    | '"' :: rest => do
      let (s, rest) ← string rest
      return (.str (String.ofList s), rest)
    | '[' :: rest =>
      match skip rest with
      | ']' :: rest => some (.arr [], rest)
      | rest => do
        let (values, rest) ← items fuel rest
        return (.arr values, rest)
    | '\x7b' :: rest =>
      match skip rest with
      | '\x7d' :: rest => some (.obj [], rest)
      | rest => do
        let (fields, rest) ← members fuel rest
        return (.obj fields, rest)
    | 'n' :: 'u' :: 'l' :: 'l' :: rest => some (.null, rest)
    | 't' :: 'r' :: 'u' :: 'e' :: rest => some (.bool true, rest)
    | 'f' :: 'a' :: 'l' :: 's' :: 'e' :: rest => some (.bool false, rest)
    | rest => number rest

/-- The items of an array, up to its end. -/
def items : ℕ → List Char → Option (List Json × List Char)
  | 0, _ => none
  | fuel + 1, text => do
    let (first, rest) ← value fuel text
    match skip rest with
    | ',' :: rest =>
      let (others, rest) ← items fuel rest
      return (first :: others, rest)
    | ']' :: rest => return ([first], rest)
    | _ => none

/-- The members of an object, up to its end. -/
def members : ℕ → List Char → Option (List (String × Json) × List Char)
  | 0, _ => none
  | fuel + 1, text =>
    match skip text with
    | '"' :: rest => do
      let (name, rest) ← string rest
      match skip rest with
      | ':' :: rest =>
        let (first, rest) ← value fuel rest
        match skip rest with
        | ',' :: rest =>
          let (others, rest) ← members fuel rest
          return ((String.ofList name, first) :: others, rest)
        | '\x7d' :: rest => return ([(String.ofList name, first)], rest)
        | _ => none
      | _ => none
    | _ => none

end

/-- The value that a text starts with. -/
def read (text : List Char) : Option Json := (value (text.length + 1) text).map Prod.fst

/-! ### Reading what was written -/

section Strings

theorem hexDigit?_digitChar : ∀ n < 16, hexDigit? (Nat.digitChar n) = some n := by decide

theorem hex4?_hexByte (h : n < 256) :
    hex4? '0' '0' (Nat.digitChar (n / 16)) (Nat.digitChar (n % 16)) = some n := by
  have hhigh := hexDigit?_digitChar (n / 16) (by omega)
  have hlow := hexDigit?_digitChar (n % 16) (by omega)
  have hzero : hexDigit? '0' = some 0 := rfl
  simp only [hex4?, hzero, hhigh, hlow, Option.bind_eq_bind, Option.bind_some, Option.pure_def,
    Option.some.injEq]
  omega

/-- A string that goes on after a character. -/
def after (c : Char) (read : Option (List Char × List Char)) : Option (List Char × List Char) :=
  read.map fun r => (c :: r.1, r.2)

theorem string_short {char : Char} (hc : c ≠ 'u') (h : unescape? c = some char) (rest : List Char) :
    string ('\\' :: c :: rest) = after char (string rest) := by
  rw [string.eq_4 _ _ (by rintro _ _ _ _ _ rfl; exact absurd rfl hc), h]
  cases string rest <;> rfl

theorem string_plain (hquote : c ≠ '"') (hslash : c ≠ '\\') (h : 32 ≤ c.toNat) (rest : List Char) :
    string (c :: rest) = after c (string rest) := by
  rw [string.eq_5 _ _ hquote (fun _ _ _ _ _ he => absurd he hslash)
    (fun _ _ he => absurd he hslash), if_neg (by omega)]
  cases string rest <;> rfl

theorem string_code (h : n < 256) (rest : List Char) :
    string ('\\' :: 'u' :: '0' :: '0' :: (hexByte n ++ rest)) =
      after (Char.ofNat n) (string rest) := by
  simp only [hexByte, List.cons_append, List.nil_append]
  rw [string, hex4?_hexByte h]
  simp only [Option.bind_eq_bind, Option.bind_some]
  rw [if_pos (by omega)]
  cases string rest <;> rfl

/-- One character is read back. -/
theorem string_escape (c : Char) (rest : List Char) :
    string (escape c ++ rest) = after c (string rest) := by
  have hnat : ∀ {n : ℕ}, c.toNat = n → c = Char.ofNat n := by
    rintro n rfl
    exact (Char.ofNat_toNat c).symm
  unfold escape
  split_ifs with hquote hslash hn hr ht hb hf hcontrol
  · subst hquote
    exact string_short (by decide) rfl rest
  · subst hslash
    exact string_short (by decide) rfl rest
  · subst hn
    exact string_short (by decide) rfl rest
  · subst hr
    exact string_short (by decide) rfl rest
  · subst ht
    exact string_short (by decide) rfl rest
  · rw [hnat hb]
    exact string_short (by decide) rfl rest
  · rw [hnat hf]
    exact string_short (by decide) rfl rest
  · have hcode := string_code (show c.toNat < 256 by omega) rest
    rw [Char.ofNat_toNat] at hcode
    exact hcode
  · exact string_plain hquote hslash (by omega) rest

/-- A string is read back. -/
theorem string_quote (s rest : List Char) :
    string (s.flatMap escape ++ '"' :: rest) = some (s, rest) := by
  induction s with
  | nil => rfl
  | cons c s ih =>
    rw [List.flatMap_cons, List.append_assoc, string_escape, ih]
    rfl

end Strings

section Numbers

/-- What stands behind a value in a text that was written. -/
def Delimited (rest : List Char) : Prop :=
  ∀ c ∈ rest.head?, c = ',' ∨ c = ']' ∨ c = '\x7d'

theorem delimited_cons {c : Char} (h : c = ',' ∨ c = ']' ∨ c = '\x7d') (rest : List Char) :
    Delimited (c :: rest) := by
  intro d hd
  rw [List.head?_cons, Option.mem_some_iff] at hd
  exact hd ▸ h

theorem fraction?_delimited (h : Delimited rest) : fraction? rest = some ([], rest) := by
  cases rest with
  | nil => rfl
  | cons c rest => rcases h c rfl with rfl | rfl | rfl <;> rfl

theorem exponent?_delimited (h : Delimited rest) : exponent? rest = some ([], rest) := by
  cases rest with
  | nil => rfl
  | cons c rest => rcases h c rfl with rfl | rfl | rfl <;> rfl

theorem takeWhile_delimited (h : Delimited rest) :
    rest.takeWhile Char.isDigit = [] ∧ rest.dropWhile Char.isDigit = rest := by
  cases rest with
  | nil => exact ⟨rfl, rfl⟩
  | cons c rest => rcases h c rfl with rfl | rfl | rfl <;> exact ⟨rfl, rfl⟩

theorem isDigit_toDigits : ∀ c ∈ Nat.toDigits 10 n, c.isDigit = true := fun _ hc =>
  Nat.isDigit_of_mem_toDigits (by decide) (by decide) hc

/-- Only zero has a zero in front. -/
theorem eq_zero_of_head?_toDigits (h : (Nat.toDigits 10 n).head? = some '0') : n = 0 := by
  induction n using Nat.strongRecOn with
  | _ n ih =>
    by_cases hn : n < 10
    · have hdigit : ∀ k < 10, Nat.digitChar k = '0' → k = 0 := by decide
      rw [Nat.toDigits_of_lt_base hn, List.head?_cons] at h
      exact hdigit n hn (Option.some.inj h)
    · rw [Nat.toDigits_of_base_le (by decide) (by omega),
        List.head?_append_of_ne_nil _ Nat.toDigits_ne_nil] at h
      have := ih (n / 10) (by omega) h
      omega

/-- A number is read back, after its sign. -/
theorem number_of_sign {minus : List Char}
    (hsign : sign ['-'] text = (minus, Nat.toDigits 10 n ++ rest)) (hrest : Delimited rest) :
    number text = some (.int (if minus = [] then n else -n), rest) := by
  obtain ⟨htake, hdrop⟩ := takeWhile_delimited hrest
  have hwhole : (Nat.toDigits 10 n ++ rest).takeWhile Char.isDigit = Nat.toDigits 10 n := by
    rw [List.takeWhile_append_of_pos isDigit_toDigits, htake, List.append_nil]
  have hbehind : (Nat.toDigits 10 n ++ rest).dropWhile Char.isDigit = rest := by
    rw [List.dropWhile_append_of_pos isDigit_toDigits, hdrop]
  have hform : ¬ (Nat.toDigits 10 n = [] ∨
      (Nat.toDigits 10 n).head? = some '0' ∧ 1 < (Nat.toDigits 10 n).length) := by
    rintro (hnil | ⟨hzero, hlong⟩)
    · exact Nat.toDigits_ne_nil hnil
    · rw [eq_zero_of_head?_toDigits hzero] at hlong
      exact absurd hlong (by decide)
  unfold number
  simp only [hsign, hwhole, hbehind, if_neg hform, fraction?_delimited hrest,
    exponent?_delimited hrest, Option.bind_eq_bind, Option.bind_some, and_self, if_true,
    Nat.ofDigitChars_ten_toDigits, Option.pure_def]

theorem exists_toDigits (n : ℕ) :
    ∃ d ds, Nat.toDigits 10 n = d :: ds ∧ d.isDigit = true := by
  obtain ⟨d, ds, hds⟩ := List.exists_cons_of_ne_nil (Nat.toDigits_ne_nil : Nat.toDigits 10 n ≠ [])
  exact ⟨d, ds, hds, isDigit_toDigits d (hds ▸ List.mem_cons_self)⟩

theorem render_ofNat (n : ℕ) : render (.int (.ofNat n)) = Nat.toDigits 10 n := by
  show (toString n).toList = _
  rw [Nat.toString_eq_ofList_toDigits, String.toList_ofList]

theorem render_negSucc (n : ℕ) :
    render (.int (.negSucc n)) = '-' :: Nat.toDigits 10 (n + 1) := by
  show ("-" ++ toString (n + 1)).toList = _
  simp

/-- An integer is read back. -/
theorem number_render (n : ℤ) (hrest : Delimited rest) :
    number (render (.int n) ++ rest) = some (.int n, rest) := by
  cases n with
  | ofNat n =>
    obtain ⟨d, ds, hds, hdigit⟩ := exists_toDigits n
    have hsign : sign ['-'] (Nat.toDigits 10 n ++ rest) = ([], Nat.toDigits 10 n ++ rest) := by
      rw [hds, List.cons_append, sign, if_neg]
      rw [List.mem_singleton]
      rintro rfl
      exact absurd hdigit (by decide)
    rw [render_ofNat, number_of_sign hsign hrest]
    rfl
  | negSucc n =>
    have hsign : sign ['-'] ('-' :: Nat.toDigits 10 (n + 1) ++ rest) =
        (['-'], Nat.toDigits 10 (n + 1) ++ rest) := rfl
    rw [render_negSucc, number_of_sign hsign hrest]
    rfl

theorem exists_render_int (n : ℤ) :
    ∃ c text, render (.int n) = c :: text ∧ (c.isDigit = true ∨ c = '-') := by
  cases n with
  | ofNat n =>
    obtain ⟨d, ds, hds, hdigit⟩ := exists_toDigits n
    exact ⟨d, ds, (render_ofNat n).trans hds, .inl hdigit⟩
  | negSucc n => exact ⟨'-', _, render_negSucc n, .inr rfl⟩

end Numbers

section Values

/-- A value without fractions and exponents. -/
inductive Whole : Json → Prop
  | null : Whole .null
  | bool (b : Bool) : Whole (.bool b)
  | int (n : ℤ) : Whole (.int n)
  | str (s : String) : Whole (.str s)
  | arr {values : List Json} (h : ∀ v ∈ values, Whole v) : Whole (.arr values)
  | obj {fields : List (String × Json)} (h : ∀ f ∈ fields, Whole f.2) : Whole (.obj fields)

theorem skip_cons (h : isBlank c = false) (rest : List Char) : skip (c :: rest) = c :: rest :=
  List.dropWhile_cons_of_neg (by simp [h])

/-- No other value starts like a number. -/
theorem ne_of_number (h : c.isDigit = true ∨ c = '-') {d : Char} (hdigit : d.isDigit = false)
    (hminus : d ≠ '-') : c ≠ d := by
  rintro rfl
  rcases h with h | h
  · rw [h] at hdigit
    cases hdigit
  · exact hminus h

theorem isBlank_of_number (h : c.isDigit = true ∨ c = '-') : isBlank c = false := by
  have hne := @ne_of_number c h
  simp [isBlank, hne (d := ' ') rfl (by decide), hne (d := '\t') rfl (by decide),
    hne (d := '\n') rfl (by decide), hne (d := '\r') rfl (by decide)]

theorem value_of_number (h : c.isDigit = true ∨ c = '-') (rest : List Char) (fuel : ℕ) :
    value (fuel + 1) (c :: rest) = number (c :: rest) := by
  rw [value, skip_cons (isBlank_of_number h)]
  split
  case h_7 => rfl
  all_goals
    next heq =>
      cases heq
      exact absurd rfl (ne_of_number h rfl (by decide))

/-- How a written value starts: never with a blank or the end of an array or object. -/
theorem exists_render (h : Whole j) :
    ∃ c text, render j = c :: text ∧ isBlank c = false ∧ c ≠ ']' ∧ c ≠ '\x7d' := by
  cases h with
  | null => exact ⟨'n', _, rfl, by decide⟩
  | bool b =>
    cases b with
    | true => exact ⟨'t', _, rfl, by decide⟩
    | false => exact ⟨'f', _, rfl, by decide⟩
  | int n =>
    obtain ⟨c, text, htext, hc⟩ := exists_render_int n
    exact ⟨c, text, htext, isBlank_of_number hc, ne_of_number hc rfl (by decide),
      ne_of_number hc rfl (by decide)⟩
  | str s => exact ⟨'"', _, rfl, by decide⟩
  | arr h => exact ⟨'[', _, rfl, by decide⟩
  | obj h => exact ⟨'\x7b', _, rfl, by decide⟩

theorem renderItems_cons (first next : Json) (others : List Json) :
    renderItems (first :: next :: others) =
      render first ++ ',' :: renderItems (next :: others) := by
  rw [renderItems]
  exact List.cons_ne_nil _ _

theorem renderMembers_cons (name : String) (first : Json) (next : String × Json)
    (others : List (String × Json)) :
    renderMembers ((name, first) :: next :: others) =
      quote name ++ ':' :: (render first ++ ',' :: renderMembers (next :: others)) := by
  rw [renderMembers]
  exact List.cons_ne_nil _ _

theorem exists_renderItems (others : List Json) (h : Whole first) :
    ∃ c text, renderItems (first :: others) = c :: text ∧ isBlank c = false ∧ c ≠ ']' := by
  obtain ⟨c, text, htext, hblank, hend, -⟩ := exists_render h
  cases others with
  | nil => exact ⟨c, text, htext, hblank, hend⟩
  | cons next others =>
    refine ⟨c, text ++ ',' :: renderItems (next :: others), ?_, hblank, hend⟩
    rw [renderItems_cons, htext, List.cons_append]

theorem value_items {c : Char} (hblank : isBlank c = false) (hend : c ≠ ']') (text : List Char)
    (fuel : ℕ) : value (fuel + 1) ('[' :: c :: text) =
      (items fuel (c :: text)).map fun r => (.arr r.1, r.2) := by
  rw [value, skip_cons (by decide)]
  simp only [skip_cons hblank]
  split
  · next heq =>
      cases heq
      exact absurd rfl hend
  · cases items fuel (c :: text) <;> rfl

theorem value_members {c : Char} (hblank : isBlank c = false) (hend : c ≠ '\x7d')
    (text : List Char) (fuel : ℕ) : value (fuel + 1) ('\x7b' :: c :: text) =
      (members fuel (c :: text)).map fun r => (.obj r.1, r.2) := by
  rw [value, skip_cons (by decide)]
  simp only [skip_cons hblank]
  split
  · next heq =>
      cases heq
      exact absurd rfl hend
  · cases members fuel (c :: text) <;> rfl

theorem exists_renderMembers (name : String) (first : Json) (others : List (String × Json)) :
    ∃ text, renderMembers ((name, first) :: others) = '"' :: text := by
  cases others with
  | nil | cons next others => exact ⟨_, rfl⟩

/-- The step of `items`. -/
theorem items_of_value {fuel : ℕ} {text rest : List Char} {first : Json}
    (h : value fuel text = some (first, ']' :: rest)) :
    items (fuel + 1) text = some ([first], rest) := by
  rw [items, h]
  rfl

theorem items_of_value_of_items {rest' : List Char} {others : List Json}
    (h : value fuel text = some (first, ',' :: rest))
    (hothers : items fuel rest = some (others, rest')) :
    items (fuel + 1) text = some (first :: others, rest') := by
  rw [items, h]
  show (items fuel rest >>= fun r => pure (first :: r.1, r.2)) = _
  rw [hothers]
  rfl

/-- The name of a member. -/
theorem members_quote (name : String) (text : List Char) (fuel : ℕ) :
    members (fuel + 1) (quote name ++ ':' :: text) =
      value fuel text >>= fun r =>
        match skip r.2 with
        | ',' :: rest => members fuel rest >>= fun s => pure ((name, r.1) :: s.1, s.2)
        | '\x7d' :: rest => pure ([(name, r.1)], rest)
        | _ => none := by
  have hquote : quote name ++ ':' :: text =
      '"' :: (name.toList.flatMap escape ++ '"' :: ':' :: text) := by
    rw [quote, List.cons_append, List.append_assoc, List.singleton_append]
  rw [hquote, members, skip_cons (by decide)]
  simp only [string_quote, Option.bind_eq_bind, Option.bind_some,
    skip_cons (show isBlank ':' = false by decide),
    String.ofList_toList]

/-- So much fuel is enough for what is written in fewer characters. -/
structure ReadsBack (fuel : ℕ) : Prop where
  value : ∀ {j : Json}, Whole j → (render j).length ≤ fuel → ∀ {rest : List Char},
    Delimited rest → value fuel (render j ++ rest) = some (j, rest)
  items : ∀ {first : Json} {others : List Json}, (∀ v ∈ first :: others, Whole v) →
    (renderItems (first :: others)).length + 1 ≤ fuel → ∀ rest : List Char,
    items fuel (renderItems (first :: others) ++ ']' :: rest) = some (first :: others, rest)
  members : ∀ {name : String} {first : Json} {others : List (String × Json)},
    (∀ f ∈ (name, first) :: others, Whole f.2) →
    (renderMembers ((name, first) :: others)).length + 1 ≤ fuel → ∀ rest : List Char,
    members fuel (renderMembers ((name, first) :: others) ++ '\x7d' :: rest) =
      some ((name, first) :: others, rest)

theorem value_render (ih : ReadsBack fuel) (h : Whole j) (hfuel : (render j).length ≤ fuel + 1)
    (hrest : Delimited rest) : value (fuel + 1) (render j ++ rest) = some (j, rest) := by
  match j, h with
  | .null, _ | .bool true, _ | .bool false, _ => rfl
  | .int n, _ =>
    obtain ⟨c, text, htext, hc⟩ := exists_render_int n
    have hnumber := number_render n hrest
    rw [htext, List.cons_append] at hnumber ⊢
    rw [value_of_number hc, hnumber]
  | .str s, _ =>
    have hquote : render (.str s) ++ rest = '"' :: (s.toList.flatMap escape ++ '"' :: rest) := by
      rw [render, quote, List.cons_append, List.append_assoc, List.singleton_append]
    rw [hquote, value, skip_cons (by decide)]
    simp only [string_quote, Option.bind_eq_bind, Option.bind_some, String.ofList_toList,
      Option.pure_def]
  | .arr [], _ => rfl
  | .arr (first :: others), .arr hwhole =>
    rw [render, List.length_cons, List.length_append, List.length_singleton] at hfuel
    have hitems := ih.items hwhole (by omega) rest
    obtain ⟨c, text, htext, hblank, hend⟩ :=
      exists_renderItems others (hwhole first List.mem_cons_self)
    rw [render, List.cons_append, List.append_assoc, List.singleton_append]
    rw [htext, List.cons_append] at hitems ⊢
    rw [value_items hblank hend, hitems]
    rfl
  | .obj [], _ => rfl
  | .obj ((name, first) :: others), .obj hwhole =>
    rw [render, List.length_cons, List.length_append, List.length_singleton] at hfuel
    have hmembers := ih.members hwhole (by omega) rest
    obtain ⟨text, htext⟩ := exists_renderMembers name first others
    rw [render, List.cons_append, List.append_assoc, List.singleton_append]
    rw [htext, List.cons_append] at hmembers ⊢
    rw [value_members (by decide) (by decide), hmembers]
    rfl

theorem items_render (ih : ReadsBack fuel) {others : List Json} (h : ∀ v ∈ first :: others, Whole v)
    (hfuel : (renderItems (first :: others)).length + 1 ≤ fuel + 1) (rest : List Char) :
    items (fuel + 1) (renderItems (first :: others) ++ ']' :: rest) =
      some (first :: others, rest) := by
  have hfirst := h first List.mem_cons_self
  cases others with
  | nil =>
    rw [renderItems] at hfuel ⊢
    apply items_of_value
    exact ih.value hfirst (by omega) (delimited_cons (.inr (.inl rfl)) rest)
  | cons next others =>
    rw [renderItems_cons, List.length_append, List.length_cons] at hfuel
    rw [renderItems_cons, List.append_assoc, List.cons_append]
    apply items_of_value_of_items
    · exact ih.value hfirst (by omega) (delimited_cons (.inl rfl) _)
    · exact ih.items (fun v hv => h v (List.mem_cons_of_mem _ hv)) (by omega) rest

theorem members_render (ih : ReadsBack fuel) {name : String} {others : List (String × Json)}
    (h : ∀ f ∈ (name, first) :: others, Whole f.2)
    (hfuel : (renderMembers ((name, first) :: others)).length + 1 ≤ fuel + 1) (rest : List Char) :
    members (fuel + 1) (renderMembers ((name, first) :: others) ++ '\x7d' :: rest) =
      some ((name, first) :: others, rest) := by
  have hfirst : Whole first := h _ List.mem_cons_self
  cases others with
  | nil =>
    rw [renderMembers, List.length_append, List.length_cons] at hfuel
    rw [renderMembers, List.append_assoc, List.cons_append, members_quote,
      ih.value hfirst (by omega) (delimited_cons (.inr (.inr rfl)) rest)]
    rfl
  | cons second others =>
    obtain ⟨next, second⟩ := second
    rw [renderMembers_cons, List.length_append, List.length_cons, List.length_append,
      List.length_cons] at hfuel
    have hothers := ih.members (fun f hf => h f (List.mem_cons_of_mem _ hf)) (by omega) rest
    rw [renderMembers_cons, List.append_assoc, List.cons_append, List.append_assoc,
      List.cons_append, members_quote, ih.value hfirst (by omega) (delimited_cons (.inl rfl) _)]
    show (members fuel _ >>= fun s => pure ((name, first) :: s.1, s.2)) = _
    rw [hothers]
    rfl

theorem readsBack (fuel : ℕ) : ReadsBack fuel := by
  induction fuel with
  | zero =>
    refine ⟨fun h hfuel => ?_, fun _ hfuel => ?_, fun _ hfuel => ?_⟩
    · obtain ⟨c, text, htext, -⟩ := exists_render h
      rw [htext] at hfuel
      exact absurd hfuel (by simp)
    · exact absurd hfuel (by omega)
    · exact absurd hfuel (by omega)
  | succ fuel ih =>
    exact ⟨fun h hfuel => value_render ih h hfuel, fun h hfuel => items_render ih h hfuel,
      fun h hfuel => members_render ih h hfuel⟩

/-- A text that was written is read back. -/
theorem read_render (h : Whole j) : read (render j) = some j := by
  have hnil : Delimited [] := fun _ hc => nomatch hc
  have hvalue := (readsBack _).value h (Nat.le_succ _) hnil
  rw [List.append_nil] at hvalue
  rw [read, hvalue]
  rfl

end Values

end Sandcube.Json
