import Mathlib
import ServiceLib.Tracing.Propagation

namespace ServiceLib.Tracing

/-!
# The `traceparent` header

`ParseTraceParent` and `SampledTraceParent` scan the header by position, each with its own copy
of the checks.  They agree with each other and with the form of the header, digits in either case
(`traceParent_admission`), but for the forbidden version, which they know in lower case only.

A `std::string` is a sequence of bytes; here a character stands for one byte.
-/

open List

/-- `isHex` of `ParseTraceParent`. -/
def isHex (ch : Char) : Bool :=
  ('0' ≤ ch && ch ≤ '9') || ('a' ≤ ch && ch ≤ 'f') || ('A' ≤ ch && ch ≤ 'F')

/-- `hex` of `SampledTraceParent`. -/
def hex (ch : Char) : Int :=
  if '0' ≤ ch && ch ≤ '9' then ch.toNat - '0'.toNat
  else if 'a' ≤ ch && ch ≤ 'f' then ch.toNat - 'a'.toNat + 10
  else if 'A' ≤ ch && ch ≤ 'F' then ch.toNat - 'A'.toNat + 10
  else -1

/-- The size and the separators, which both scanners check first. -/
def separated (value : List Char) : Bool :=
  value.length == 55 && value[2]? == some '-' && value[35]? == some '-' && value[52]? == some '-'

/-- The loop over all other characters. -/
def allDigits (digit : Char → Bool) (value : List Char) : Bool :=
  value.zipIdx.all fun (ch, i) => i == 2 || i == 35 || i == 52 || digit ch

def substr (value : List Char) (pos count : Nat) : List Char := (value.drop pos).take count

def nonzero (id : List Char) : Bool := id.any (· != '0')

def parseTraceParent (value : String) : Option SpanContext :=
  let cs := value.toList
  if !separated cs then none
  else if !allDigits isHex cs then none
  else if substr cs 0 2 == ['f', 'f'] || !nonzero (substr cs 3 32) ||
    !nonzero (substr cs 36 16) then
    none
  else
    some { traceId := .ofList (substr cs 3 32), spanId := .ofList (substr cs 36 16), valid := true }

def sampledTraceParent (value : String) : Bool :=
  let cs := value.toList
  if !separated cs then false
  else if !allDigits (fun ch => !decide (hex ch < 0)) cs then false
  else if substr cs 0 2 == ['f', 'f'] then false
  else if !nonzero (substr cs 3 32) || !nonzero (substr cs 36 16) then false
  else (hex (cs.getD 53 '0') * 16 + hex (cs.getD 54 '0')) % 2 != 0

/-! ### The form of a header -/

/-- Four fields of fixed widths, separated by dashes. -/
structure Fields (value version traceId spanId flags : List Char) : Prop where
  form : value = version ++ '-' :: (traceId ++ '-' :: (spanId ++ '-' :: flags))
  version_length : version.length = 2
  traceId_length : traceId.length = 32
  spanId_length : spanId.length = 16
  flags_length : flags.length = 2

/-- A header to be admitted.  Digits, those of the forbidden version too, may be of either
    case. -/
structure IsTraceParent (value version traceId spanId flags : String) : Prop extends
    Fields value.toList version.toList traceId.toList spanId.toList flags.toList where
  digits : ∀ ch ∈ (version ++ traceId ++ spanId ++ flags).toList, isHex ch
  version_ne : version.toList.map Char.toLower ≠ ['f', 'f']
  traceId_ne : ∃ ch ∈ traceId.toList, ch ≠ '0'
  spanId_ne : ∃ ch ∈ spanId.toList, ch ≠ '0'

/-- The version is not `ff` in a spelling that the scanners miss. -/
def versionSpelled (value : String) : Bool :=
  substr value.toList 0 2 == ['f', 'f'] ||
    (substr value.toList 0 2).map Char.toLower != ['f', 'f']

/-- The value of the flags byte. -/
def flagsByte (flags : String) : Int := flags.toList.foldl (fun n ch => n * 16 + hex ch) 0

variable {cs v t s f : List Char}

theorem exists_split {α : Type} {l : List α} {n : Nat} (h : n < l.length) :
    ∃ a c b, l = a ++ c :: b ∧ a.length = n :=
  ⟨l.take n, l[n], l.drop (n + 1), by simp, by simp; omega⟩

/-- Size and separators are right exactly when there are four such fields. -/
theorem separated_iff : separated cs ↔ ∃ v t s f, Fields cs v t s f := by
  constructor
  · intro h
    simp only [separated, Bool.and_eq_true, beq_iff_eq] at h
    obtain ⟨⟨⟨hlen, h2⟩, h35⟩, h52⟩ := h
    obtain ⟨v, c₁, cs, rfl, hv⟩ := exists_split (show 2 < cs.length by omega)
    simp at hlen
    obtain ⟨t, c₂, cs, rfl, ht⟩ := exists_split (show 32 < cs.length by omega)
    simp at hlen
    obtain ⟨s, c₃, f, rfl, hs⟩ := exists_split (show 16 < cs.length by omega)
    simp at hlen
    refine ⟨v, t, s, f, ?_, hv, ht, hs, by omega⟩
    simp_all [getElem?_append_right]
  · rintro ⟨v, t, s, f, rfl, hv, ht, hs, hf⟩
    simp [separated, hv, ht, hs, hf]

/-- Over a stretch without separators the loop tests every character. -/
theorem all_zipIdx (skip : Nat → Bool) (digit : Char → Bool) (cs : List Char) (k : Nat)
    (h : ∀ i, k ≤ i → i < k + cs.length → skip i = false) :
    (cs.zipIdx k).all (fun (ch, i) => skip i || digit ch) = cs.all digit := by
  induction cs generalizing k with
  | nil => rfl
  | cons ch cs ih =>
    have hrest := ih (k + 1) fun i hk hi => h i (by omega) (by simp; omega)
    simp only [zipIdx_cons, all_cons, h k (Nat.le_refl k) (by simp), Bool.false_or,
      hrest]

theorem Fields.allDigits (h : Fields cs v t s f) (digit : Char → Bool) :
    allDigits digit cs = (v ++ t ++ s ++ f).all digit := by
  obtain ⟨rfl, hv, ht, hs, hf⟩ := h
  have hskip := all_zipIdx (fun i => i == 2 || i == 35 || i == 52) digit
  simp only [Tracing.allDigits, zipIdx_append, zipIdx_cons, all_append, all_cons, hv, ht, hs]
  rw [hskip v, hskip t, hskip s, hskip f] <;> simp <;> grind

theorem Fields.substrs (h : Fields cs v t s f) :
    substr cs 0 2 = v ∧ substr cs 3 32 = t ∧ substr cs 36 16 = s := by
  obtain ⟨rfl, hv, ht, hs, hf⟩ := h
  refine ⟨?_, ?_, ?_⟩ <;>
    simp [substr, drop_append, drop_of_length_le, hv, ht, hs]

theorem not_hex_neg (ch : Char) : (!decide (hex ch < 0)) = isHex ch := by
  have hle : ∀ a b : Char, a ≤ b ↔ a.toNat ≤ b.toNat := fun a b => UInt32.le_iff_toNat_le
  unfold hex isHex
  simp only [hle, Bool.and_eq_true, decide_eq_true_eq]
  split_ifs with h₁ h₂ h₃ <;> grind

/-! ### The two scanners -/

section Scanners

variable {value version traceId spanId flags : String}

section

variable (h : Fields value.toList version.toList traceId.toList spanId.toList flags.toList)
  (hspelled : versionSpelled value)
include h hspelled

theorem isTraceParent_iff :
    IsTraceParent value version traceId spanId flags ↔
      (version.toList ++ traceId.toList ++ spanId.toList ++ flags.toList).all isHex ∧
        version.toList ≠ ['f', 'f'] ∧ nonzero traceId.toList ∧
        nonzero spanId.toList := by
  have hff : version.toList.map Char.toLower = ['f', 'f'] ↔ version.toList = ['f', 'f'] := by
    constructor
    · intro hlower
      simpa [versionSpelled, h.substrs.1, hlower] using hspelled
    · intro heq
      rw [heq]
      rfl
  simp only [all_eq_true, ← String.toList_append]
  constructor
  · intro hi
    refine ⟨hi.digits, hff.not.mp hi.version_ne, ?_, ?_⟩
    · simpa [nonzero] using hi.traceId_ne
    · simpa [nonzero] using hi.spanId_ne
  · rintro ⟨hdigits, hne, htrace, hspan⟩
    refine ⟨h, hdigits, hff.not.mpr hne, ?_, ?_⟩
    · simpa [nonzero] using htrace
    · simpa [nonzero] using hspan

theorem parseTraceParent_eq_some_iff {sc : SpanContext} :
    parseTraceParent value = some sc ↔
      IsTraceParent value version traceId spanId flags ∧
        sc = { traceId, spanId, valid := true } := by
  obtain ⟨hversion, htrace, hspan⟩ := h.substrs
  have hsep := separated_iff.mpr ⟨_, _, _, _, h⟩
  rw [isTraceParent_iff h hspelled]
  simp only [parseTraceParent, hsep, h.allDigits, hversion, htrace, hspan, String.ofList_toList]
  grind

theorem sampledTraceParent_iff :
    sampledTraceParent value ↔
      IsTraceParent value version traceId spanId flags ∧ flagsByte flags % 2 = 1 := by
  obtain ⟨hversion, htrace, hspan⟩ := h.substrs
  have hsep := separated_iff.mpr ⟨_, _, _, _, h⟩
  have hbyte : flagsByte flags =
      hex (value.toList.getD 53 '0') * 16 + hex (value.toList.getD 54 '0') := by
    obtain ⟨high, low, hflags⟩ := length_eq_two.mp h.flags_length
    simp [flagsByte, h.form, hflags, h.version_length, h.traceId_length, h.spanId_length]
  rw [isTraceParent_iff h hspelled]
  simp only [sampledTraceParent, not_hex_neg, hsep, h.allDigits, hversion, htrace, hspan, ← hbyte]
  grind

end

theorem IsTraceParent.spelled (h : IsTraceParent value version traceId spanId flags) :
    versionSpelled value := by
  simp [versionSpelled, h.toFields.substrs.1, h.version_ne]

theorem exists_fields (h : separated value.toList) :
    ∃ version traceId spanId flags : String,
      Fields value.toList version.toList traceId.toList spanId.toList flags.toList := by
  obtain ⟨v, t, s, f, hfields⟩ := separated_iff.mp h
  exact ⟨.ofList v, .ofList t, .ofList s, .ofList f, by simpa using hfields⟩

end Scanners

/-- **Both scanners admit the same headers**: the ones of that form, if the forbidden version is
    not spelled otherwise than they expect.  The parser returns the
    identifiers they carry, and the other scanner finds the lowest bit of their flags set. -/
theorem traceParent_admission (value : String) (hspelled : versionSpelled value = true) :
    (∀ sc, parseTraceParent value = some sc ↔
      ∃ version flags, IsTraceParent value version sc.traceId sc.spanId flags ∧
        sc = { traceId := sc.traceId, spanId := sc.spanId, valid := true }) ∧
    (sampledTraceParent value = true ↔
      ∃ sc version flags, parseTraceParent value = some sc ∧
        IsTraceParent value version sc.traceId sc.spanId flags ∧ flagsByte flags % 2 = 1) := by
  refine ⟨fun sc => ⟨fun hparse => ?_, ?_⟩, ⟨fun hsampled => ?_, ?_⟩⟩
  · have hsep : separated value.toList = true := by
      by_contra hno
      simp [parseTraceParent, hno] at hparse
    obtain ⟨version, traceId, spanId, flags, h⟩ := exists_fields hsep
    obtain ⟨hform, rfl⟩ := (parseTraceParent_eq_some_iff h hspelled).mp hparse
    exact ⟨version, flags, hform, rfl⟩
  · rintro ⟨version, flags, hform, hsc⟩
    exact (parseTraceParent_eq_some_iff hform.toFields hspelled).mpr ⟨hform, hsc⟩
  · have hsep : separated value.toList = true := by
      by_contra hno
      simp [sampledTraceParent, hno] at hsampled
    obtain ⟨version, traceId, spanId, flags, h⟩ := exists_fields hsep
    obtain ⟨hform, hbit⟩ := (sampledTraceParent_iff h hspelled).mp hsampled
    have hparse := (parseTraceParent_eq_some_iff h hspelled).mpr ⟨hform, rfl⟩
    exact ⟨_, version, flags, hparse, hform, hbit⟩
  · rintro ⟨sc, version, flags, -, hform, hbit⟩
    exact (sampledTraceParent_iff hform.toFields hspelled).mpr ⟨hform, hbit⟩

/-- A header with upper-case digits. -/
def upperCase : String := "00-0123456789ABCDEF0123456789abcdef-0000000000000001-01"

theorem traceParent_admission_upperCase :
    ∃ sc version flags, parseTraceParent upperCase = some sc ∧
      IsTraceParent upperCase version sc.traceId sc.spanId flags ∧ flagsByte flags % 2 = 1 :=
  (traceParent_admission upperCase (by decide +kernel)).2.mp (by decide +kernel)

/-- Upper-case digits pass. -/
theorem traceParent_upperCase :
    versionSpelled upperCase = true ∧ sampledTraceParent upperCase = true ∧
      parseTraceParent upperCase =
        some { traceId := "0123456789ABCDEF0123456789abcdef", spanId := "0000000000000001",
               valid := true } := by
  decide +kernel

end ServiceLib.Tracing
