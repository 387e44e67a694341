import Mathlib

namespace ServiceLib.Cron

/-!
# Local schedules — the interval grammar

`ParseLocalInterval` of `datasource/cron/local_interval.hpp` takes `@every Nms` and leaves every
expression that does not start with `@every` to the provider's own parser.

`parseLocalInterval_grammar` says what is accepted, and that only the intended fault can happen.

A `std::string_view` is a sequence of bytes; here a character stands for one byte.
-/

open List Nat

/-- Why a call does not return: the exception of the scanner, or a fault of an operation outside
    its domain (`substr` or `front` past the end, a result that no `int` holds). -/
inductive Fault where
  | invalidArgument (what : String)
  | outOfRange
  | overflow
  deriving DecidableEq, Repr

def invalid {α : Type} : Except Fault α :=
  .error (.invalidArgument "local interval must be @every Nms with N between 10 and 86400000")

/-- `string_view::substr`. -/
def substrView (view : List Char) (pos count : Nat) : Except Fault (List Char) :=
  if view.length < pos then .error .outOfRange else .ok ((view.drop pos).take count)

/-- `string_view::front`. -/
def front : List Char → Except Fault Char
  | [] => .error .outOfRange
  | ch :: _ => .ok ch

/-- The result of an operation on `int`. -/
def int (n : Int) : Except Fault Int :=
  if -2 ^ 31 ≤ n ∧ n < 2 ^ 31 then .ok n else .error .overflow

/-- The body of the loop over the digits. -/
def addDigit (milliseconds : Int) (digit : Char) : Except Fault Int :=
  if digit < '0' ∨ digit > '9' then invalid
  else do int ((← int (milliseconds * 10)) + (digit.toNat - '0'.toNat))

/-- A difference of two `size_t`. -/
def sizeSub (a b : Nat) : Nat := (a + 2 ^ 64 - b) % 2 ^ 64

/-- The checks of the two ends and of the size. -/
abbrev Framed (view : List Char) : Prop :=
  "@every ".toList <+: view ∧ "ms".toList <:+ view ∧ 10 ≤ view.length ∧ view.length ≤ 17

/-- What follows `substr`. -/
def scanDigits (digits : List Char) : Except Fault (Option Int) := do
  if digits.isEmpty then invalid
  if (← front digits) = '0' then invalid
  let milliseconds ← digits.foldlM addDigit 0
  if milliseconds < 10 ∨ milliseconds > 86400000 then invalid
  return some milliseconds

/-- The scanner, with the faults that the C++ operations it uses can have. -/
def parseLocalInterval (expression : String) : Except Fault (Option Int) :=
  let view := expression.toList
  if ¬ "@every".toList <+: view then .ok none
  else if ¬ Framed view then invalid
  else do scanDigits (← substrView view 7 (sizeSub view.length 9))

/-! ### The digits -/

theorem digit_range {digit : Char} (h : digit.isDigit) :
    '0'.toNat = 48 ∧ 48 ≤ digit.toNat ∧ digit.toNat < 58 :=
  ⟨rfl, (Char.isDigit_iff_toNat.mp h).1, lt_succ_of_le (Char.isDigit_iff_toNat.mp h).2⟩

/-- One round of the loop does not overflow an `int`. -/
theorem addDigit_eq {digit : Char} {v : Nat} (hv : (v + 1) * 10 ≤ 2 ^ 31) :
    addDigit v digit =
      if digit.isDigit then .ok ↑(10 * v + (digit.toNat - '0'.toNat)) else invalid := by
  have hd : (digit < '0' ∨ digit > '9') ↔ ¬ digit.isDigit := by
    rw [Char.isDigit_iff_toNat, Char.lt_def, gt_iff_lt, Char.lt_def, UInt32.lt_iff_toNat_lt,
      UInt32.lt_iff_toNat_lt]
    change digit.toNat < '0'.toNat ∨ '9'.toNat < digit.toNat ↔ _
    omega
  by_cases h : digit.isDigit
  · have hr := digit_range h
    simp only [addDigit, hd, h, not_true, if_false, if_true]
    rw [int, if_pos (by omega)]
    change int _ = _
    rw [int, if_pos (by omega)]
    congr 1
    omega
  · simp [addDigit, hd, h]

/-- The loop neither overflows nor returns on a character that is no digit, as long as as many
    nines as there are characters still fit. -/
theorem foldlM_addDigit (digits : List Char) : ∀ v : Nat, (v + 1) * 10 ^ digits.length ≤ 2 ^ 31 →
    digits.foldlM addDigit v =
      if digits.all Char.isDigit then .ok ↑(ofDigitChars 10 digits v) else invalid := by
  induction digits with
  | nil => simp [pure, Except.pure]
  | cons digit digits ih =>
    intro v hv
    rw [length_cons, pow_succ] at hv
    have hpos : 0 < 10 ^ digits.length := by positivity
    rw [foldlM_cons, addDigit_eq (by nlinarith)]
    by_cases h : digit.isDigit
    · have hr := digit_range h
      rw [if_pos h]
      change digits.foldlM addDigit _ = _
      rw [ih _ (by nlinarith [show 10 * v + (digit.toNat - '0'.toNat) + 1 ≤ (v + 1) * 10 by omega])]
      simp [h, ofDigitChars_cons]
    · simp [h, invalid, bind, Except.bind]

/-- A digit is the decimal notation of its value. -/
theorem toDigits_isDigit {digit : Char} (h : digit.isDigit) :
    toDigits 10 (digit.toNat - '0'.toNat) = [digit] := by
  have hr := digit_range h
  rw [toDigits_of_lt_base (by omega), singleton_inj, ← Char.toNat_inj,
    toNat_digitChar_of_lt_ten (by omega)]
  omega

theorem toDigits_ofDigitChars (digits : List Char) (hd : digits.all Char.isDigit) :
    ∀ v : Nat, 0 < v →
      toDigits 10 (ofDigitChars 10 digits v) = toDigits 10 v ++ digits := by
  induction digits with
  | nil => simp
  | cons digit digits ih =>
    intro v hv
    rw [all_cons, Bool.and_eq_true] at hd
    have hr := digit_range hd.1
    rw [ofDigitChars_cons, ih hd.2 _ (by omega),
      ← toDigits_append_toDigits (by decide) hv (by omega), toDigits_isDigit hd.1]
    simp

theorem head?_toDigits {v : Nat} (hv : 0 < v) : (toDigits 10 v).head? ≠ some '0' := by
  induction v using Nat.strongRecOn with
  | ind v ih =>
    rw [toDigits_eq_if (by decide)]
    split
    · simp; omega
    · rw [head?_append_of_ne_nil _ toDigits_ne_nil]
      exact ih _ (by omega) (by omega)

/-- A number's decimal digits are the digits with its value that do not start with a zero. -/
theorem eq_toDigits_iff {digits : List Char} {v : Nat} (hv : 0 < v) :
    digits = toDigits 10 v ↔ digits.head? ≠ some '0' ∧ digits.all Char.isDigit ∧
      ofDigitChars 10 digits 0 = v := by
  constructor
  · rintro rfl
    refine ⟨head?_toDigits hv, ?_, ofDigitChars_ten_toDigits⟩
    exact all_eq_true.mpr fun _ => isDigit_of_mem_toDigits (by decide) (by decide)
  · rintro ⟨h0, hd, rfl⟩
    cases digits with
    | nil => simp at hv
    | cons digit digits =>
      rw [all_cons, Bool.and_eq_true] at hd
      have hr := digit_range hd.1
      have hne : digit.toNat ≠ '0'.toNat := fun h => h0 (by rw [Char.toNat_inj.mp h]; rfl)
      rw [ofDigitChars_cons, toDigits_ofDigitChars _ hd.2 _ (by omega), mul_zero,
        zero_add, toDigits_isDigit hd.1]
      rfl

/-- The loop over the digits, and the range check after it. -/
theorem scanDigits_eq {digits : List Char} (h0 : digits ≠ []) (h8 : digits.length ≤ 8) :
    scanDigits digits =
      if digits.head? ≠ some '0' ∧ digits.all Char.isDigit ∧
          10 ≤ ofDigitChars 10 digits 0 ∧ ofDigitChars 10 digits 0 ≤ 86400000 then
        .ok (some ↑(ofDigitChars 10 digits 0))
      else invalid := by
  have hloop := foldlM_addDigit digits 0 (by
    have := Nat.pow_le_pow_right (show 0 < 10 by decide) h8
    omega)
  cases digits with
  | nil => exact absurd rfl h0
  | cons digit digits =>
    by_cases hz : digit = '0'
    · simp [scanDigits, front, hz, invalid, bind, Except.bind]
    by_cases hd : (digit :: digits).all Char.isDigit
    · rw [if_pos hd] at hloop
      by_cases hv : 10 ≤ ofDigitChars 10 (digit :: digits) 0 ∧
          ofDigitChars 10 (digit :: digits) 0 ≤ 86400000
      · rw [if_pos ⟨by simpa using hz, hd, hv⟩]
        simp_all [scanDigits, front, bind, Except.bind, pure, Except.pure]
      · rw [if_neg fun h => hv h.2.2]
        simp_all [scanDigits, front, invalid, bind, Except.bind]
    · rw [if_neg hd] at hloop
      simp_all [scanDigits, front, invalid, bind, Except.bind]

/-! ### The grammar -/

/-- The checks before the loop leave one to eight characters between `@every ` and `ms`. -/
theorem framed_iff {view : List Char} : Framed view ↔ ∃ digits : List Char,
    digits ≠ [] ∧ digits.length ≤ 8 ∧ view = "@every ".toList ++ digits ++ "ms".toList := by
  constructor
  · rintro ⟨⟨t, rfl⟩, hms, h10, h17⟩
    have hlen : "ms".toList.length ≤ t.length := by simp at h10 ⊢; omega
    obtain ⟨digits, rfl⟩ := suffix_of_suffix_length_le hms ⟨_, rfl⟩ hlen
    refine ⟨digits, ?_, ?_, (append_assoc ..).symm⟩
    · rintro rfl
      simp at h10
    · simp at h17
      omega
  · rintro ⟨digits, h0, h8, rfl⟩
    have := length_pos_iff.mpr h0
    refine ⟨⟨_, (append_assoc ..).symm⟩, ⟨_, rfl⟩, ?_, ?_⟩ <;> simp <;> omega

theorem parseLocalInterval_framed {expression : String} {digits : List Char} (h0 : digits ≠ [])
    (h8 : digits.length ≤ 8)
    (hview : expression.toList = "@every ".toList ++ digits ++ "ms".toList) :
    parseLocalInterval expression = scanDigits digits := by
  have hf := framed_iff.mpr ⟨digits, h0, h8, hview⟩
  have hevery : "@every".toList <+: expression.toList := by simp [hview]
  have hlen : expression.toList.length = digits.length + 9 := by simp [hview]
  have hsize : sizeSub expression.toList.length 9 = digits.length := by
    unfold sizeSub
    omega
  rw [parseLocalInterval, if_neg (not_not.mpr hevery), if_neg (not_not.mpr hf), hsize, substrView,
    if_neg (by omega), hview]
  simp [bind, Except.bind]

theorem toList_interval {n : Int} (h : 0 ≤ n) : ("@every " ++ toString n ++ "ms").toList =
    "@every ".toList ++ toDigits 10 n.toNat ++ "ms".toList := by
  lift n to Nat using h
  simp only [String.toList_append]
  rw [show toString (n : Int) = n.repr from rfl, toList_repr, Int.toNat_natCast]

/-- The interval is written as it is printed. -/
theorem parseLocalInterval_eq_some_iff {expression : String} {n : Int} :
    parseLocalInterval expression = .ok (some n) ↔
      10 ≤ n ∧ n ≤ 86400000 ∧ expression = "@every " ++ toString n ++ "ms" := by
  constructor
  · intro h
    by_cases hf : Framed expression.toList
    · obtain ⟨digits, h0, h8, hview⟩ := framed_iff.mp hf
      rw [parseLocalInterval_framed h0 h8 hview, scanDigits_eq h0 h8] at h
      split at h
      next hc =>
        injection h with h
        injection h with h
        subst h
        refine ⟨by omega, by omega, String.toList_inj.mp ?_⟩
        rw [toList_interval (by omega), hview, Int.toNat_natCast,
          ← (eq_toDigits_iff (by omega)).mpr ⟨hc.1, hc.2.1, rfl⟩]
      · cases h
    · simp only [parseLocalInterval, hf] at h
      split at h <;> simp [invalid] at h
  · rintro ⟨h10, hmax, rfl⟩
    have h8 : (toDigits 10 n.toNat).length ≤ 8 :=
      (length_toDigits_le_iff (by decide) (by decide)).mpr (by omega)
    obtain ⟨hz, hd, hv⟩ := (eq_toDigits_iff (show 0 < n.toNat by omega)).mp rfl
    rw [parseLocalInterval_framed toDigits_ne_nil h8 (toList_interval (by omega)),
      scanDigits_eq toDigits_ne_nil h8, if_pos ⟨hz, hd, by omega, by omega⟩, hv]
    congr
    omega

/-- **The grammar of local intervals.** -/
theorem parseLocalInterval_grammar (expression : String) :
    (parseLocalInterval expression = .ok none ↔ ¬ "@every".toList <+: expression.toList) ∧
    (∀ n : Int, parseLocalInterval expression = .ok (some n) ↔
      10 ≤ n ∧ n ≤ 86400000 ∧ expression = "@every " ++ toString n ++ "ms") ∧
    (parseLocalInterval expression = invalid ↔ "@every".toList <+: expression.toList ∧
      ¬ ∃ n : Int, 10 ≤ n ∧ n ≤ 86400000 ∧ expression = "@every " ++ toString n ++ "ms") ∧
    parseLocalInterval expression ≠ .error .outOfRange ∧
    parseLocalInterval expression ≠ .error .overflow := by
  simp only [← parseLocalInterval_eq_some_iff]
  by_cases hevery : "@every".toList <+: expression.toList
  · by_cases hf : Framed expression.toList
    · obtain ⟨digits, h0, h8, hview⟩ := framed_iff.mp hf
      rw [parseLocalInterval_framed h0 h8 hview, scanDigits_eq h0 h8]
      split <;> simpa [invalid] using hevery
    · rw [parseLocalInterval, if_neg (not_not.mpr hevery), if_pos hf]
      simpa [invalid] using hevery
  · rw [parseLocalInterval, if_pos hevery]
    simpa [invalid] using hevery

end ServiceLib.Cron
