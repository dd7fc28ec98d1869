import Mathlib

/-!
# JSON strings as bytes

A string as Crystal writes it into JSON, byte by byte, and as Go's `encoding/json` reads it back.
Neither side asks for UTF-8: Crystal passes on bytes that are none, and Go reads each of them as the
replacement character.  So Go gets `valid s` for the string `s` (`unquote_escape`), which is `s`
itself when all characters are of ASCII (`valid_eq_self`).
-/

namespace Quoted

variable {c : UInt8} {s : List UInt8}

/-! ### Writing -/

/-- A hexadecimal digit. -/
def hexDigit (n : ℕ) : UInt8 := if n < 10 then UInt8.ofNat (48 + n) else UInt8.ofNat (87 + n)

/-- One byte of a string: quotation marks, backslashes and control characters are escaped. -/
def escapeByte (c : UInt8) : List UInt8 :=
  if c = 34 then [92, 34]
  else if c = 92 then [92, 92]
  else if c = 8 then [92, 98]
  else if c = 12 then [92, 102]
  else if c = 10 then [92, 110]
  else if c = 13 then [92, 114]
  else if c = 9 then [92, 116]
  else if c.toNat < 32 ∨ c = 127 then
    [92, 117, 48, 48, hexDigit (c.toNat / 16), hexDigit (c.toNat % 16)]
  else [c]

/-- What stands between the quotation marks. -/
def escape (s : List UInt8) : List UInt8 := s.flatMap escapeByte

/-! ### UTF-8 -/

def continuation (c : UInt8) : Bool := 128 ≤ c.toNat ∧ c.toNat < 192

/-- The second bytes that may follow a first one. -/
def second (c d : UInt8) : Bool :=
  if c = 224 then 160 ≤ d.toNat ∧ d.toNat < 192
  else if c = 237 then 128 ≤ d.toNat ∧ d.toNat < 160
  else if c = 240 then 144 ≤ d.toNat ∧ d.toNat < 192
  else if c = 244 then 128 ≤ d.toNat ∧ d.toNat < 144
  else continuation d

/-- How many bytes follow the first byte of a character outside ASCII; 0 when there is none. -/
def tailLength (c : UInt8) (rest : List UInt8) : ℕ :=
  match rest with
  | d :: rest =>
    if 194 ≤ c.toNat ∧ c.toNat < 224 then if second c d then 1 else 0
    else if 224 ≤ c.toNat ∧ c.toNat < 240 then
      match rest with
      | e :: _ => if second c d ∧ continuation e then 2 else 0
      | _ => 0
    else if 240 ≤ c.toNat ∧ c.toNat < 245 then
      match rest with
      | e :: f :: _ => if second c d ∧ continuation e ∧ continuation f then 3 else 0
      | _ => 0
    else 0
  | [] => 0

/-- The replacement character. -/
def replacement : List UInt8 := [239, 191, 189]

/-- `utf8.EncodeRune` -/
def encodeRune (n : ℕ) : List UInt8 :=
  if n < 0x80 then [UInt8.ofNat n]
  else if n < 0x800 then [UInt8.ofNat (192 + n / 64), UInt8.ofNat (128 + n % 64)]
  else if 0xD800 ≤ n ∧ n < 0xE000 then replacement
  else if n < 0x10000 then
    [UInt8.ofNat (224 + n / 4096), UInt8.ofNat (128 + n / 64 % 64), UInt8.ofNat (128 + n % 64)]
  else if n < 0x110000 then
    [UInt8.ofNat (240 + n / 262144), UInt8.ofNat (128 + n / 4096 % 64),
      UInt8.ofNat (128 + n / 64 % 64), UInt8.ofNat (128 + n % 64)]
  else replacement

/-- The string with every byte that belongs to no character replaced. -/
def valid (s : List UInt8) : List UInt8 :=
  match s with
  | [] => []
  | c :: rest =>
    if c.toNat < 128 then c :: valid rest
    else
      match tailLength c rest with
      | 0 => replacement ++ valid rest
      | n + 1 => c :: rest.take (n + 1) ++ valid (rest.drop (n + 1))
termination_by s.length
decreasing_by
  all_goals simp only [List.length_cons, List.length_drop]; omega

/-! ### Reading -/

def hexValue (c : UInt8) : Option ℕ :=
  if 48 ≤ c.toNat ∧ c.toNat ≤ 57 then some (c.toNat - 48)
  else if 97 ≤ c.toNat ∧ c.toNat ≤ 102 then some (c.toNat - 87)
  else if 65 ≤ c.toNat ∧ c.toNat ≤ 70 then some (c.toNat - 55)
  else none

/-- `getu4`, behind the `\u`. -/
def hex4 : List UInt8 → Option ℕ
  | a :: b :: c :: d :: _ => do
    return (((← hexValue a) * 16 + (← hexValue b)) * 16 + (← hexValue c)) * 16 + (← hexValue d)
  | _ => none

/-- The second half of a surrogate pair, if it follows: what the pair stands for. -/
def surrogatePair (high : ℕ) : List UInt8 → Option ℕ
  | 92 :: 117 :: rest =>
    match hex4 rest with
    | some low =>
      if high < 0xDC00 ∧ 0xDC00 ≤ low ∧ low < 0xE000 then
        some (0x10000 + (high - 0xD800) * 0x400 + (low - 0xDC00))
      else none
    | none => none
  | _ => none

/-- What stands for the escape behind a backslash, and how many bytes it has there. -/
def unescape : List UInt8 → Option (List UInt8 × ℕ)
  | 117 :: rest =>
    match hex4 rest with
    | none => none
    | some n =>
      if 0xD800 ≤ n ∧ n < 0xE000 then
        match surrogatePair n (rest.drop 4) with
        | some m => some (encodeRune m, 11)
        | none => some (replacement, 5)
      else some (encodeRune n, 5)
  | c :: _ =>
    if c = 34 ∨ c = 92 ∨ c = 47 then some ([c], 1)
    else if c = 98 then some ([8], 1)
    else if c = 102 then some ([12], 1)
    else if c = 110 then some ([10], 1)
    else if c = 114 then some ([13], 1)
    else if c = 116 then some ([9], 1)
    else none
  | [] => none

/-- `unquote`, between the quotation marks. -/
def unquote (s : List UInt8) : Option (List UInt8) :=
  match s with
  | [] => some []
  | c :: rest =>
    if c = 92 then
      match unescape rest with
      | none => none
      | some (out, used) => (unquote (rest.drop used)).map fun s => out ++ s
    else if c = 34 ∨ c.toNat < 32 then none
    else if c.toNat < 128 then (unquote rest).map fun s => c :: s
    else
      match tailLength c rest with
      | 0 => (unquote rest).map fun s => replacement ++ s
      | n + 1 => (unquote (rest.drop (n + 1))).map fun s => c :: rest.take (n + 1) ++ s
termination_by s.length
decreasing_by
  all_goals simp only [List.length_cons, List.length_drop]; omega

/-! ### Bytes outside ASCII -/

/-- A byte outside ASCII. -/
def high (c : UInt8) : Bool := 128 ≤ c.toNat

theorem continuation_of_not_high (h : ¬ high c = true) : continuation c = false := by
  have hlow : ¬ 128 ≤ c.toNat := by simpa [high] using h
  rw [continuation, decide_eq_false_iff_not]
  exact fun hc => hlow hc.1

theorem second_of_not_high {d : UInt8} (h : ¬ high d = true) : second c d = false := by
  have hcont := continuation_of_not_high h
  have hlow : ¬ 128 ≤ d.toNat := by simpa [high] using h
  unfold second
  split_ifs
  · rw [decide_eq_false_iff_not]; omega
  · rw [decide_eq_false_iff_not]; omega
  · rw [decide_eq_false_iff_not]; omega
  · rw [decide_eq_false_iff_not]; omega
  · exact hcont

/-- Only bytes outside ASCII count. -/
theorem tailLength_takeWhile (c : UInt8) (rest : List UInt8) :
    tailLength c (rest.takeWhile high) = tailLength c rest := by
  cases rest with
  | nil => rfl
  | cons d rest =>
    by_cases hd : high d = true
    · rw [List.takeWhile_cons_of_pos hd]
      cases rest with
      | nil => rfl
      | cons e rest =>
        by_cases he : high e = true
        · rw [List.takeWhile_cons_of_pos he]
          cases rest with
          | nil => rfl
          | cons f rest =>
            by_cases hf : high f = true
            · rw [List.takeWhile_cons_of_pos hf]
              rfl
            · rw [List.takeWhile_cons_of_neg hf]
              simp [tailLength, continuation_of_not_high hf]
        · rw [List.takeWhile_cons_of_neg he]
          cases rest <;> simp [tailLength, continuation_of_not_high he]
    · rw [List.takeWhile_cons_of_neg hd]
      cases rest with
      | nil => simp [tailLength, second_of_not_high hd]
      | cons e rest => cases rest <;> simp [tailLength, second_of_not_high hd]

theorem tailLength_le_length (c : UInt8) (rest : List UInt8) : tailLength c rest ≤ rest.length := by
  unfold tailLength
  split
  · split_ifs
    · simp
    · simp
    · split
      · split_ifs <;> simp
      · simp
    · split
      · split_ifs <;> simp
      · simp
    · simp
  · simp

/-- The bytes of a character are outside ASCII. -/
theorem tailLength_le (c : UInt8) (rest : List UInt8) :
    tailLength c rest ≤ (rest.takeWhile high).length := by
  rw [← tailLength_takeWhile]
  exact tailLength_le_length c _

/-! ### Escapes -/

theorem escape_cons (c : UInt8) (s : List UInt8) : escape (c :: s) = escapeByte c ++ escape s :=
  List.flatMap_cons

/-- What holds of the 256 bytes holds of every byte. -/
theorem byte_forall {P : UInt8 → Prop} (h : ∀ n < 256, P (UInt8.ofNat n)) (c : UInt8) : P c := by
  have hc := h c.toNat c.toNat_lt
  rwa [UInt8.ofNat_toNat] at hc

theorem escapeByte_of_high (h : high c = true) : escapeByte c = [c] :=
  byte_forall (P := fun c => high c = true → escapeByte c = [c]) (by decide +kernel) c h

/-- A byte of ASCII is written as bytes of ASCII. -/
theorem head?_escapeByte (h : ¬ high c = true) :
    ∃ d rest, escapeByte c = d :: rest ∧ ¬ high d = true := by
  have hhead : ∀ c : UInt8, ¬ high c = true →
      ((escapeByte c).head?.any fun d => !high d) = true := byte_forall (by decide +kernel)
  have hc := hhead c h
  cases hbytes : escapeByte c with
  | nil =>
    rw [hbytes] at hc
    cases hc
  | cons d rest =>
    rw [hbytes] at hc
    exact ⟨d, rest, rfl, by simpa using hc⟩

theorem takeWhile_escape (s : List UInt8) : (escape s).takeWhile high = s.takeWhile high := by
  induction s with
  | nil => rfl
  | cons c s ih =>
    rw [escape_cons]
    by_cases hc : high c = true
    · rw [escapeByte_of_high hc, List.singleton_append, List.takeWhile_cons_of_pos hc, ih,
        List.takeWhile_cons_of_pos hc]
    · obtain ⟨d, rest, hbytes, hd⟩ := head?_escapeByte hc
      rw [hbytes, List.cons_append, List.takeWhile_cons_of_neg hd, List.takeWhile_cons_of_neg hc]

theorem tailLength_escape (c : UInt8) (s : List UInt8) :
    tailLength c (escape s) = tailLength c s := by
  rw [← tailLength_takeWhile, takeWhile_escape, tailLength_takeWhile]

/-- Bytes outside ASCII are written as they are. -/
theorem escape_eq_take_append {n : ℕ} (h : n ≤ (s.takeWhile high).length) :
    escape s = s.take n ++ escape (s.drop n) := by
  induction n generalizing s with
  | zero => rfl
  | succ n ih =>
    cases s with
    | nil => rfl
    | cons c s =>
      by_cases hc : high c = true
      · rw [List.takeWhile_cons_of_pos hc, List.length_cons] at h
        rw [escape_cons, escapeByte_of_high hc, List.take_succ_cons, List.drop_succ_cons,
          ih (by omega), List.singleton_append, List.cons_append]
      · rw [List.takeWhile_cons_of_neg hc, List.length_nil] at h
        omega

/-- The four digits of a byte. -/
theorem hex4_byte (c : UInt8) (s : List UInt8) :
    hex4 (48 :: 48 :: hexDigit (c.toNat / 16) :: hexDigit (c.toNat % 16) :: s) = some c.toNat := by
  have hdigits : ∀ c : UInt8, hexValue (hexDigit (c.toNat / 16)) = some (c.toNat / 16) ∧
      hexValue (hexDigit (c.toNat % 16)) = some (c.toNat % 16) := byte_forall (by decide +kernel)
  have hzero : hexValue 48 = some 0 := by decide
  obtain ⟨hhigh, hlow⟩ := hdigits c
  have hsum : ((0 * 16 + 0) * 16 + c.toNat / 16) * 16 + c.toNat % 16 = c.toNat := by omega
  rw [hex4, hzero, hhigh, hlow]
  exact congrArg some hsum

theorem unescape_byte (h : c.toNat < 128) (s : List UInt8) :
    unescape (117 :: 48 :: 48 :: hexDigit (c.toNat / 16) :: hexDigit (c.toNat % 16) :: s) =
      some ([c], 5) := by
  rw [unescape, hex4_byte]
  dsimp only
  rw [if_neg (by omega), encodeRune, if_pos (by omega), UInt8.ofNat_toNat]

/-- A byte of ASCII is written as it is or as an escape that stands for it. -/
theorem unquote_escapeByte (h : c.toNat < 128) (s : List UInt8) :
    unquote (escapeByte c ++ s) = (unquote s).map fun s => c :: s := by
  unfold escapeByte
  split_ifs with h34 h92 h8 h12 h10 h13 h9 hcontrol
  · rw [h34]; rw [List.cons_append, unquote]; simp [unescape]
  · rw [h92]; rw [List.cons_append, unquote]; simp [unescape]
  · rw [h8]; rw [List.cons_append, unquote]; simp [unescape]
  · rw [h12]; rw [List.cons_append, unquote]; simp [unescape]
  · rw [h10]; rw [List.cons_append, unquote]; simp [unescape]
  · rw [h13]; rw [List.cons_append, unquote]; simp [unescape]
  · rw [h9]; rw [List.cons_append, unquote]; simp [unescape]
  · have hbytes : [92, 117, 48, 48, hexDigit (c.toNat / 16), hexDigit (c.toNat % 16)] ++ s =
        92 :: 117 :: 48 :: 48 :: hexDigit (c.toNat / 16) :: hexDigit (c.toNat % 16) :: s := rfl
    rw [hbytes, unquote, if_pos rfl, unescape_byte h]
    rfl
  · have hplain : ¬ (c = 34 ∨ c.toNat < 32) := by
      rintro (hc | hc)
      · exact h34 hc
      · exact hcontrol (.inl hc)
    rw [List.singleton_append, unquote, if_neg h92, if_neg hplain, if_pos h]

/-- Bytes outside ASCII are neither escapes nor forbidden. -/
theorem plain_of_high (h : high c = true) : c ≠ 92 ∧ ¬ (c = 34 ∨ c.toNat < 32) := by
  have hc : 128 ≤ c.toNat := by simpa [high] using h
  refine ⟨?_, ?_⟩
  · rintro rfl
    exact absurd hc (by decide)
  · rintro (rfl | hsmall)
    · exact absurd hc (by decide)
    · omega

/-- **What Go reads.** -/
theorem unquote_escape (s : List UInt8) : unquote (escape s) = some (valid s) := by
  induction s using valid.induct with
  | case1 => rw [escape, List.flatMap_nil, unquote, valid]
  | case2 c rest hc ih =>
    rw [escape_cons, unquote_escapeByte hc, ih, valid, if_pos hc, Option.map_some]
  | case3 c rest hc htail ih =>
    have hhigh : high c = true := by simpa [high] using hc
    obtain ⟨hescape, hplain⟩ := plain_of_high hhigh
    rw [escape_cons, escapeByte_of_high hhigh, List.singleton_append, unquote, if_neg hescape,
      if_neg hplain, if_neg hc, tailLength_escape, htail, valid, if_neg hc, htail]
    dsimp only
    rw [ih, Option.map_some]
  | case4 c rest hc n htail ih =>
    have hhigh : high c = true := by simpa [high] using hc
    obtain ⟨hescape, hplain⟩ := plain_of_high hhigh
    -- the bytes of the character are written as they are
    have hlen : n + 1 ≤ (rest.takeWhile high).length := by
      have := tailLength_le c rest
      omega
    have hsplit := escape_eq_take_append hlen
    have htake : (rest.take (n + 1)).length = n + 1 := by
      rw [List.length_take]
      have := (List.takeWhile_prefix (l := rest) high).length_le
      omega
    rw [escape_cons, escapeByte_of_high hhigh, List.singleton_append, unquote, if_neg hescape,
      if_neg hplain, if_neg hc, tailLength_escape, htail, valid, if_neg hc, htail]
    dsimp only
    rw [hsplit, List.take_left' htake, List.drop_left' htake, ih, Option.map_some]

/-- ASCII is valid. -/
theorem valid_eq_self (h : ∀ c ∈ s, c.toNat < 128) : valid s = s := by
  induction s with
  | nil => rw [valid]
  | cons c s ih =>
    rw [valid, if_pos (h c List.mem_cons_self), ih fun d hd => h d (List.mem_cons_of_mem _ hd)]

/-- The same with a test that evaluates. -/
theorem valid_eq_self_of_all (h : s.all (·.toNat < 128)) : valid s = s :=
  valid_eq_self (by simpa using h)

/-! ### Sizes -/

/-- Characters that need no escape. -/
theorem escape_eq_self (h : ∀ c ∈ s, escapeByte c = [c]) : escape s = s := by
  induction s with
  | nil => rfl
  | cons c s ih =>
    rw [escape_cons, h c List.mem_cons_self, ih fun d hd => h d (List.mem_cons_of_mem _ hd),
      List.singleton_append]

/-- An escape has at most six bytes. -/
theorem length_escape_le (s : List UInt8) : (escape s).length ≤ 6 * s.length := by
  have hbyte : ∀ c, (escapeByte c).length ≤ 6 := byte_forall (by decide +kernel)
  induction s with
  | nil => rfl
  | cons c s ih =>
    have hc := hbyte c
    rw [escape_cons, List.length_append, List.length_cons]
    omega

end Quoted
