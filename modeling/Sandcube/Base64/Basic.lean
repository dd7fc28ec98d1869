import Mathlib

/-!
# Base64

Three bytes are written as four digits of the alphabet `A-Za-z0-9+/`, six bits each; a last group of
one or two bytes is filled up with `=`.  There are two readers.  The strict one wants the last group
filled up and leaves out carriage returns and line feeds; the lenient one takes the digits `-` and
`_` as well, and does without the filling.  Either gives back what was written (`decode_encode`,
`decodeLenient_encode`).
-/

namespace Base64

/-! ### Digits -/

/-- `=` -/
def pad : UInt8 := 61

/-- The digit of a number below 64. -/
def digit (n : ℕ) : UInt8 :=
  if n < 26 then UInt8.ofNat (65 + n)
  else if n < 52 then UInt8.ofNat (71 + n)
  else if n < 62 then UInt8.ofNat (n - 4)
  else if n = 62 then 43 else 47

/-- The number of a digit. -/
def value (c : UInt8) : Option ℕ :=
  if 65 ≤ c.toNat ∧ c.toNat ≤ 90 then some (c.toNat - 65)
  else if 97 ≤ c.toNat ∧ c.toNat ≤ 122 then some (c.toNat - 71)
  else if 48 ≤ c.toNat ∧ c.toNat ≤ 57 then some (c.toNat + 4)
  else if c = 43 then some 62
  else if c = 47 then some 63
  else none

/-- The number of a digit, with those of the alphabet for URLs. -/
def valueLenient (c : UInt8) : Option ℕ :=
  if c = 45 then some 62 else if c = 95 then some 63 else value c

theorem value_digit {n : ℕ} (h : n < 64) : value (digit n) = some n := by
  revert n
  decide

theorem valueLenient_digit {n : ℕ} (h : n < 64) : valueLenient (digit n) = some n := by
  revert n
  decide

/-- A printable character of ASCII that JSON does not escape. -/
def Plain (c : UInt8) : Prop := 32 ≤ c.toNat ∧ c.toNat < 127 ∧ c ≠ 34 ∧ c ≠ 92

instance (c : UInt8) : Decidable (Plain c) := inferInstanceAs (Decidable (_ ∧ _ ∧ _ ∧ _))

theorem plain_digit (n : ℕ) : Plain (digit n) := by
  by_cases h : n < 64
  · revert n
    decide
  · have hdigit : digit n = 47 := by
      rw [digit, if_neg (by omega), if_neg (by omega), if_neg (by omega), if_neg (by omega)]
    rw [hdigit]
    decide

theorem digit_ne_pad (n : ℕ) : digit n ≠ pad := by
  by_cases h : n < 64
  · revert n
    decide
  · rw [digit, if_neg (by omega), if_neg (by omega), if_neg (by omega), if_neg (by omega)]
    decide

/-! ### Writing -/

/-- The four numbers of a group of three bytes. -/
def sextet0 (a : UInt8) : ℕ := a.toNat / 4
def sextet1 (a b : UInt8) : ℕ := a.toNat % 4 * 16 + b.toNat / 16
def sextet2 (b c : UInt8) : ℕ := b.toNat % 16 * 4 + c.toNat / 64
def sextet3 (c : UInt8) : ℕ := c.toNat % 64

def encode : List UInt8 → List UInt8
  | [] => []
  | [a] => [digit (sextet0 a), digit (sextet1 a 0), pad, pad]
  | [a, b] => [digit (sextet0 a), digit (sextet1 a b), digit (sextet2 b 0), pad]
  | a :: b :: c :: rest =>
    digit (sextet0 a) :: digit (sextet1 a b) :: digit (sextet2 b c) :: digit (sextet3 c) ::
      encode rest

/-- Four digits for every three bytes, the last group filled up. -/
theorem length_encode (s : List UInt8) : (encode s).length = 4 * ((s.length + 2) / 3) := by
  induction s using encode.induct with
  | case1 => rfl
  | case2 a | case3 a b => simp [encode]
  | case4 a b c rest ih =>
    simp only [encode, List.length_cons, ih]
    omega

/-- What is written has no character that JSON escapes. -/
theorem plain_encode (s : List UInt8) : ∀ c ∈ encode s, Plain c := by
  have hpad : Plain pad := by decide
  induction s using encode.induct with
  | case1 => simp [encode]
  | case2 a | case3 a b => simp [encode, plain_digit, hpad]
  | case4 a b c rest ih => simpa [encode, plain_digit] using ih

/-! ### Reading -/

/-- The three bytes of a group of four numbers. -/
def byte0 (v w : ℕ) : UInt8 := UInt8.ofNat (v * 4 + w / 16)
def byte1 (w x : ℕ) : UInt8 := UInt8.ofNat (w % 16 * 16 + x / 4)
def byte2 (x y : ℕ) : UInt8 := UInt8.ofNat (x % 4 * 64 + y)

theorem byte0_sextet (a b : UInt8) : byte0 (sextet0 a) (sextet1 a b) = a := by
  have hb := b.toNat_lt
  have hval : a.toNat / 4 * 4 + (a.toNat % 4 * 16 + b.toNat / 16) / 16 = a.toNat := by omega
  rw [byte0, sextet0, sextet1, hval, UInt8.ofNat_toNat]

theorem byte1_sextet (a b c : UInt8) : byte1 (sextet1 a b) (sextet2 b c) = b := by
  have hb := b.toNat_lt
  have hc := c.toNat_lt
  have hval : (a.toNat % 4 * 16 + b.toNat / 16) % 16 * 16 + (b.toNat % 16 * 4 + c.toNat / 64) / 4 =
      b.toNat := by omega
  rw [byte1, sextet1, sextet2, hval, UInt8.ofNat_toNat]

theorem byte2_sextet (b c : UInt8) : byte2 (sextet2 b c) (sextet3 c) = c := by
  have hc := c.toNat_lt
  have hval : (b.toNat % 16 * 4 + c.toNat / 64) % 4 * 64 + c.toNat % 64 = c.toNat := by omega
  rw [byte2, sextet2, sextet3, hval, UInt8.ofNat_toNat]

theorem sextet0_lt (a : UInt8) : sextet0 a < 64 := by
  have := a.toNat_lt
  rw [sextet0]
  omega

theorem sextet1_lt (a b : UInt8) : sextet1 a b < 64 := by
  have := b.toNat_lt
  rw [sextet1]
  omega

theorem sextet2_lt (b c : UInt8) : sextet2 b c < 64 := by
  have := c.toNat_lt
  rw [sextet2]
  omega

theorem sextet3_lt (c : UInt8) : sextet3 c < 64 := Nat.mod_lt _ (by decide)

/-- The strict reader on a text without line ends.  `=` is no digit, so it stands at the end only. -/
def decodeGroups : List UInt8 → Option (List UInt8)
  | [] => some []
  | [a, b, c, d] => do
    let v ← value a
    let w ← value b
    if c = pad then if d = pad then return [byte0 v w] else none
    else
      let x ← value c
      if d = pad then return [byte0 v w, byte1 w x]
      else
        let y ← value d
        return [byte0 v w, byte1 w x, byte2 x y]
  | a :: b :: c :: d :: rest => do
    let v ← value a
    let w ← value b
    let x ← value c
    let y ← value d
    return byte0 v w :: byte1 w x :: byte2 x y :: (← decodeGroups rest)
  | _ => none

/-- A carriage return or a line feed. -/
def lineEnd (c : UInt8) : Bool := c = 10 ∨ c = 13

/-- The strict reader. -/
def decode (s : List UInt8) : Option (List UInt8) := decodeGroups (s.filter fun c => !lineEnd c)

/-- The groups of the lenient reader, which skips line ends before a group. -/
def decodeLoose : List UInt8 → Option (List UInt8)
  | [] => some []
  | [a] => if lineEnd a then some [] else none
  | [a, b] =>
    if lineEnd a then decodeLoose [b]
    else do
      let v ← valueLenient a
      let w ← valueLenient b
      return [byte0 v w]
  | [a, b, c] =>
    if lineEnd a then decodeLoose [b, c]
    else do
      let v ← valueLenient a
      let w ← valueLenient b
      let x ← valueLenient c
      return [byte0 v w, byte1 w x]
  | a :: b :: c :: d :: rest =>
    if lineEnd a then decodeLoose (b :: c :: d :: rest)
    else do
      let v ← valueLenient a
      let w ← valueLenient b
      let x ← valueLenient c
      let y ← valueLenient d
      return byte0 v w :: byte1 w x :: byte2 x y :: (← decodeLoose rest)

/-- The lenient reader. -/
def decodeLenient (s : List UInt8) : Option (List UInt8) :=
  decodeLoose (s.rdropWhile fun c => lineEnd c || c == pad)

/-! ### What was written is read back -/

theorem decodeGroups_group {v w x y : ℕ} (hv : v < 64) (hw : w < 64) (hx : x < 64) (hy : y < 64)
    (rest : List UInt8) :
    decodeGroups (digit v :: digit w :: digit x :: digit y :: rest) =
      (decodeGroups rest).map fun s => byte0 v w :: byte1 w x :: byte2 x y :: s := by
  cases rest with
  | nil =>
    simp [decodeGroups, value_digit hv, value_digit hw, value_digit hx, value_digit hy, digit_ne_pad]
  | cons c rest =>
    simp only [decodeGroups, value_digit hv, value_digit hw, value_digit hx, value_digit hy,
      Option.bind_eq_bind, Option.bind_some]
    cases decodeGroups (c :: rest) <;> rfl

theorem decodeGroups_encode (s : List UInt8) : decodeGroups (encode s) = some s := by
  induction s using encode.induct with
  | case1 => rfl
  | case2 a =>
    simp [encode, decodeGroups, value_digit (sextet0_lt a), value_digit (sextet1_lt a 0),
      byte0_sextet]
  | case3 a b =>
    simp [encode, decodeGroups, value_digit (sextet0_lt a), value_digit (sextet1_lt a b),
      value_digit (sextet2_lt b 0), digit_ne_pad, byte0_sextet, byte1_sextet]
  | case4 a b c rest ih =>
    rw [encode, decodeGroups_group (sextet0_lt a) (sextet1_lt a b) (sextet2_lt b c) (sextet3_lt c), ih,
      Option.map_some, byte0_sextet, byte1_sextet, byte2_sextet]

/-- Plain characters are no line ends. -/
theorem lineEnd_of_plain {c : UInt8} (h : Plain c) : lineEnd c = false := by
  unfold lineEnd
  rw [decide_eq_false_iff_not]
  rintro (rfl | rfl)
  · exact absurd h (by decide)
  · exact absurd h (by decide)

/-- **The strict reader reads what was written.** -/
theorem decode_encode (s : List UInt8) : decode (encode s) = some s := by
  have hkeep : (encode s).filter (fun c => !lineEnd c) = encode s := by
    rw [List.filter_eq_self]
    intro c hc
    rw [lineEnd_of_plain (plain_encode s c hc)]
    rfl
  rw [decode, hkeep, decodeGroups_encode]

theorem decodeLoose_group {v w x y : ℕ} (hv : v < 64) (hw : w < 64) (hx : x < 64) (hy : y < 64)
    (rest : List UInt8) :
    decodeLoose (digit v :: digit w :: digit x :: digit y :: rest) =
      (decodeLoose rest).map fun s => byte0 v w :: byte1 w x :: byte2 x y :: s := by
  rw [decodeLoose, lineEnd_of_plain (plain_digit v)]
  simp only [Bool.false_eq_true, if_false, valueLenient_digit hv, valueLenient_digit hw,
    valueLenient_digit hx, valueLenient_digit hy, Option.bind_eq_bind, Option.bind_some]
  cases decodeLoose rest <;> rfl

/-- The digits of a text, without what fills up its last group. -/
def unpadded : List UInt8 → List UInt8
  | [] => []
  | [a] => [digit (sextet0 a), digit (sextet1 a 0)]
  | [a, b] => [digit (sextet0 a), digit (sextet1 a b), digit (sextet2 b 0)]
  | a :: b :: c :: rest =>
    digit (sextet0 a) :: digit (sextet1 a b) :: digit (sextet2 b c) :: digit (sextet3 c) ::
      unpadded rest

theorem decodeLoose_unpadded (s : List UInt8) : decodeLoose (unpadded s) = some s := by
  induction s using encode.induct with
  | case1 => rfl
  | case2 a =>
    rw [unpadded, decodeLoose, lineEnd_of_plain (plain_digit _)]
    simp [valueLenient_digit (sextet0_lt a), valueLenient_digit (sextet1_lt a 0), byte0_sextet]
  | case3 a b =>
    rw [unpadded, decodeLoose, lineEnd_of_plain (plain_digit _)]
    simp [valueLenient_digit (sextet0_lt a), valueLenient_digit (sextet1_lt a b),
      valueLenient_digit (sextet2_lt b 0), byte0_sextet, byte1_sextet]
  | case4 a b c rest ih =>
    rw [unpadded, decodeLoose_group (sextet0_lt a) (sextet1_lt a b) (sextet2_lt b c) (sextet3_lt c),
      ih, Option.map_some, byte0_sextet, byte1_sextet, byte2_sextet]

/-- A text is its digits and then what fills up the last group. -/
theorem encode_eq_unpadded (s : List UInt8) :
    ∃ n, encode s = unpadded s ++ List.replicate n pad := by
  induction s using encode.induct with
  | case1 => exact ⟨0, rfl⟩
  | case2 a => exact ⟨2, by simp [encode, unpadded, List.replicate]⟩
  | case3 a b => exact ⟨1, by simp [encode, unpadded, List.replicate]⟩
  | case4 a b c rest ih =>
    obtain ⟨n, hn⟩ := ih
    exact ⟨n, by simp only [encode, unpadded, hn, List.cons_append]⟩

theorem exists_digit_of_mem_unpadded {s : List UInt8} {c : UInt8} (h : c ∈ unpadded s) :
    ∃ n, c = digit n := by
  induction s using encode.induct with
  | case1 => simp [unpadded] at h
  | case2 a =>
    simp only [unpadded, List.mem_cons, List.not_mem_nil, or_false] at h
    rcases h with rfl | rfl <;> exact ⟨_, rfl⟩
  | case3 a b =>
    simp only [unpadded, List.mem_cons, List.not_mem_nil, or_false] at h
    rcases h with rfl | rfl | rfl <;> exact ⟨_, rfl⟩
  | case4 a b c' rest ih =>
    simp only [unpadded, List.mem_cons] at h
    rcases h with rfl | rfl | rfl | rfl | hrest
    · exact ⟨_, rfl⟩
    · exact ⟨_, rfl⟩
    · exact ⟨_, rfl⟩
    · exact ⟨_, rfl⟩
    · exact ih hrest

/-- **The lenient reader reads what was written.** -/
theorem decodeLenient_encode (s : List UInt8) : decodeLenient (encode s) = some s := by
  obtain ⟨n, hn⟩ := encode_eq_unpadded s
  set drops : UInt8 → Bool := fun c => lineEnd c || c == pad with hdrops
  have hpads : ∀ c ∈ List.replicate n pad, drops c = true := by
    intro c hc
    rw [List.eq_of_mem_replicate hc]
    decide
  have hdigits : ∀ c ∈ unpadded s, drops c = false := by
    intro c hc
    obtain ⟨m, rfl⟩ := exists_digit_of_mem_unpadded hc
    rw [hdrops]
    simp [lineEnd_of_plain (plain_digit m), digit_ne_pad m]
  have hstrip : (encode s).rdropWhile drops = unpadded s := by
    rw [hn, List.rdropWhile, List.reverse_append, List.dropWhile_append_of_pos, List.reverse_eq_iff]
    · rw [List.dropWhile_eq_self_iff]
      intro hlen hdrop
      have hkeep := hdigits _ (List.mem_reverse.mp (List.getElem_mem hlen))
      exact absurd hdrop (by rw [hkeep]; decide)
    · intro c hc
      exact hpads c (List.mem_reverse.mp hc)
  rw [decodeLenient, ← hdrops, hstrip, decodeLoose_unpadded]

end Base64
