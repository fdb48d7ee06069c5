import Baseboard.Proofs.Calendar.Date
import Baseboard.Proofs.Text.Utf8

/-!
# Baseboard.Proofs.Calendar.Text

Dates read off their texts.  Every number in a text has a fixed place, so a text can be read
from the front (`DateTime.ofText?`), and two texts differ first in the first number in which
their dates differ.

```
YYYY-MM-DD HH:MM:SS
```

Main statements: a date in the calendar comes back from its text (`DateTime.ofText?_text`), and
the texts of two dates are in the order of their numbers (`DateTime.text_lt_text`).
-/

namespace Baseboard

/-! ## Decimal digits -/

@[simp] theorem length_decimal (width n : Nat) : (decimal width n).length = width := by
  induction width generalizing n with
  | zero => rfl
  | succ width ih => rw [decimal, List.length_append, ih, List.length_singleton]

theorem toNat_digit (n : Nat) : (Char.ofNat (0x30 + n % 10)).toNat = 0x30 + n % 10 :=
  Utf8.toNat_ofNat_of_valid (.inl (by omega))

theorem isDigit_of_mem_decimal {width n : Nat} {c : Char} (h : c ∈ decimal width n) :
    c.isDigit := by
  induction width generalizing n with
  | zero => contradiction
  | succ width ih =>
      rw [decimal, List.mem_append, List.mem_singleton] at h
      rcases h with h | rfl
      · exact ih h
      · simp only [Char.isDigit_iff_toNat, toNat_digit, Char.reduceToNat]
        omega

theorem div_ten_lt {width n : Nat} (h : n < 10 ^ (width + 1)) : n / 10 < 10 ^ width :=
  Nat.div_lt_of_lt_mul (Nat.pow_succ' ▸ h)

theorem ofDigitChars_decimal {width n : Nat} (h : n < 10 ^ width) :
    Nat.ofDigitChars 10 (decimal width n) 0 = n := by
  induction width generalizing n with
  | zero => exact (Nat.lt_one_iff.mp h).symm
  | succ width ih =>
      simp only [decimal, Nat.ofDigitChars_append, ih (div_ten_lt h), Nat.ofDigitChars_cons,
        toNat_digit, Nat.ofDigitChars_nil, Char.reduceToNat]
      omega

/-- Of two lists that start equally long, the one whose start comes first comes first. -/
theorem append_lt_append_of_lt {xs xs' : List Char} (hlength : xs.length = xs'.length)
    (h : xs < xs') (ys ys' : List Char) : xs ++ ys < xs' ++ ys' := by
  induction xs generalizing xs' with
  | nil =>
      rw [List.length_eq_zero_iff.mp hlength.symm] at h
      contradiction
  | cons x xs ih =>
      cases xs' with
      | nil => contradiction
      | cons x' xs' =>
          rw [List.cons_append, List.cons_append, List.cons_lt_cons_iff]
          exact (List.cons_lt_cons_iff.mp h).imp_right
            (And.imp_right (ih (Nat.succ.inj hlength)))

theorem decimal_lt_decimal {width m n : Nat} (hn : n < 10 ^ width) (h : m < n) :
    decimal width m < decimal width n := by
  induction width generalizing m n with
  | zero =>
      have hzero := Nat.lt_one_iff.mp hn
      omega
  | succ width ih =>
      rw [decimal, decimal]
      by_cases htens : m / 10 = n / 10
      · rw [htens]
        refine List.append_left_lt (List.cons_lt_cons_iff.mpr (.inl ?_))
        rw [Char.lt_def, UInt32.lt_iff_toNat_lt, Char.toNat_val, Char.toNat_val, toNat_digit,
          toNat_digit]
        omega
      · have hlt : m / 10 < n / 10 := by omega
        exact append_lt_append_of_lt (by simp) (ih (div_ten_lt hn) hlt) _ _

/-! ## Reading from the front -/

/-- The number in the first `width` characters, all of them digits, and what follows it. -/
def number? (width : Nat) (cs : List Char) : Option (Nat × List Char) :=
  if (cs.take width).length = width ∧ (cs.take width).all Char.isDigit then
    some (Nat.ofDigitChars 10 (cs.take width) 0, cs.drop width)
  else none

theorem number?_append {width n : Nat} (h : n < 10 ^ width) (rest : List Char) :
    number? width (decimal width n ++ rest) = some (n, rest) := by
  rw [number?, List.take_left' (length_decimal width n), List.drop_left' (length_decimal width n),
    if_pos ⟨length_decimal width n, List.all_eq_true.mpr fun _ => isDigit_of_mem_decimal⟩,
    ofDigitChars_decimal h]

/-- What follows a character. -/
def after? (c : Char) : List Char → Option (List Char)
  | [] => none
  | c' :: cs => if c' = c then some cs else none

theorem after?_cons (c : Char) (rest : List Char) : after? c (c :: rest) = some rest :=
  if_pos rfl

/-! ## Numbers behind separators -/

/-- Numbers of two digits, each behind its separator. -/
def separated (separators : List Char) (numbers : List Nat) : List Char :=
  (List.zipWith (fun c n => c :: decimal 2 n) separators numbers).flatten

@[simp] theorem separated_cons (c : Char) (separators : List Char) (n : Nat)
    (numbers : List Nat) : separated (c :: separators) (n :: numbers) =
      c :: (decimal 2 n ++ separated separators numbers) := rfl

/-- The numbers of two digits behind these separators, with nothing left over. -/
def numbers? : List Char → List Char → Option (List Nat)
  | [], [] => some []
  | [], _ :: _ => none
  | c :: separators, cs => do
    let (n, cs) ← number? 2 (← after? c cs)
    return n :: (← numbers? separators cs)

theorem numbers?_cons {c : Char} {separators cs cs' : List Char} {n : Nat}
    (h : number? 2 cs = some (n, cs')) :
    numbers? (c :: separators) (c :: cs) = (numbers? separators cs').map (n :: ·) := by
  simp only [numbers?, after?_cons, h, Option.bind_eq_bind, Option.bind_some]
  cases numbers? separators cs' <;> rfl

theorem numbers?_separated {separators : List Char} {numbers : List Nat}
    (hlength : separators.length = numbers.length) (h : ∀ n ∈ numbers, n < 10 ^ 2) :
    numbers? separators (separated separators numbers) = some numbers := by
  induction separators generalizing numbers with
  | nil =>
      obtain rfl := List.length_eq_zero_iff.mp hlength.symm
      rfl
  | cons c separators ih =>
      cases numbers with
      | nil => contradiction
      | cons n numbers =>
          obtain ⟨hn, hnumbers⟩ := List.forall_mem_cons.mp h
          rw [separated_cons, numbers?_cons (number?_append hn _),
            ih (Nat.succ.inj hlength) hnumbers, Option.map_some]

/-- The first number that differs decides which text comes first. -/
theorem separated_lt_separated {separators : List Char} {numbers numbers' : List Nat}
    (hlength : separators.length = numbers.length)
    (hlength' : separators.length = numbers'.length) (h' : ∀ n ∈ numbers', n < 10 ^ 2)
    (h : numbers < numbers') :
    separated separators numbers < separated separators numbers' := by
  induction separators generalizing numbers numbers' with
  | nil =>
      rw [List.length_eq_zero_iff.mp hlength'.symm] at h
      exact absurd h (List.not_lt_nil _)
  | cons c separators ih =>
      cases numbers with
      | nil => contradiction
      | cons n numbers =>
          cases numbers' with
          | nil => contradiction
          | cons n' numbers' =>
              obtain ⟨hn', hnumbers'⟩ := List.forall_mem_cons.mp h'
              rw [separated_cons, separated_cons]
              refine List.cons_lt_cons_iff.mpr (.inr ⟨rfl, ?_⟩)
              rcases List.cons_lt_cons_iff.mp h with hlt | ⟨rfl, hlt⟩
              · exact append_lt_append_of_lt (by simp) (decimal_lt_decimal hn' hlt) _ _
              · exact List.append_left_lt
                  (ih (Nat.succ.inj hlength) (Nat.succ.inj hlength') hnumbers' hlt)

/-! ## Dates -/

namespace DateTime

instance (t : DateTime) : Decidable t.Valid :=
  decidable_of_iff
    (1970 ≤ t.year ∧ (1 ≤ t.month ∧ t.month ≤ 12) ∧
      (1 ≤ t.day ∧ t.day ≤ monthLength t.year t.month) ∧
      t.hour < 24 ∧ t.minute < 60 ∧ t.second < 60)
    ⟨fun ⟨year, month, day, hour, minute, second⟩ =>
        ⟨year, month, day, hour, minute, second⟩,
      fun h => ⟨h.year, h.month, h.day, h.hour, h.minute, h.second⟩⟩

/-- What stands between the numbers of a date. -/
def separators : List Char := ['-', '-', ' ', ':', ':']

/-- The date and time that a text names, if it is in the calendar. -/
def ofText? (text : String) : Option DateTime := do
  let (year, cs) ← number? 4 text.toList
  match ← numbers? separators cs with
  | [month, day, hour, minute, second] =>
    let t : DateTime := { year, month, day, hour, minute, second }
    if t.Valid then some t else none
  | _ => none

theorem ofText?_of_numbers? {text : String} {cs : List Char} {t : DateTime}
    (hyear : number? 4 text.toList = some (t.year, cs))
    (hothers : numbers? separators cs = some [t.month, t.day, t.hour, t.minute, t.second])
    (hvalid : t.Valid) : ofText? text = some t := by
  simp only [ofText?, hyear, hothers, Option.bind_eq_bind, Option.bind_some]
  exact if_pos hvalid

theorem chars_eq (t : DateTime) :
    t.chars = decimal 4 t.year ++
      separated separators [t.month, t.day, t.hour, t.minute, t.second] := by
  simp [chars, separated, separators]

/-- The numbers have no more digits than a text has room for. -/
structure Fits (t : DateTime) : Prop where
  year : t.year < 10 ^ 4
  others : ∀ n ∈ [t.month, t.day, t.hour, t.minute, t.second], n < 10 ^ 2

theorem Valid.fits {t : DateTime} (h : t.Valid) (hyear : t.year < 10 ^ 4) : t.Fits := by
  refine ⟨hyear, ?_⟩
  have hmonth := h.month
  have hday := h.day
  have hlength := monthLength_le t.year t.month
  have hhour := h.hour
  have hminute := h.minute
  have hsecond := h.second
  simp only [List.forall_mem_cons]
  refine ⟨?_, ?_, ?_, ?_, ?_, nofun⟩ <;> omega

/-- A date comes back from its text. -/
theorem ofText?_text {t : DateTime} (hvalid : t.Valid) (h : t.Fits) :
    ofText? t.text = some t := by
  have hchars : t.text.toList = t.chars := String.toList_ofList
  refine ofText?_of_numbers? ?_ (numbers?_separated rfl h.others) hvalid
  rw [hchars, chars_eq, number?_append h.year]

/-- Texts are in the order of the numbers of their dates. -/
theorem text_lt_text {t t' : DateTime} (h' : t'.Fits) (h : t.fields < t'.fields) :
    t.text < t'.text := by
  rw [String.lt_iff, text, text, String.toList_ofList, String.toList_ofList, chars_eq, chars_eq]
  rcases List.cons_lt_cons_iff.mp h with hyear | ⟨hyear, hothers⟩
  · exact append_lt_append_of_lt (by simp) (decimal_lt_decimal h'.year hyear) _ _
  · rw [hyear]
    exact List.append_left_lt (separated_lt_separated rfl rfl h'.others hothers)

end DateTime

end Baseboard
