/-!
# Numerals

The numbers of a JSON text, kept as they are written: sign, whole part, digits of
the fraction and exponent.  A numeral is a count only if it is written as one,
without sign, point or exponent, and fits a word of 64 bits.  One too large for a
binary floating-point number of 64 bits is no value.
-/

namespace AnalysisJobs

structure Numeral where
  negative : Bool
  whole : Nat
  /-- The digits behind the point; none if there is no point. -/
  fraction : List Nat
  /-- The power of ten that follows, if one is written. -/
  exponent : Option Int
  deriving DecidableEq, Repr

namespace Numeral

def ofNat (n : Nat) : Numeral := ⟨false, n, [], none⟩

/-- The number that a numeral counts, if it is written as a count. -/
def count? (n : Numeral) : Option Nat :=
  if !n.negative && n.fraction.isEmpty && n.exponent.isNone && n.whole < UInt64.size then some n.whole
  else none

/-! ## Range -/

/-- Keep the leading digits that fit a word; the second part says how many
digits were dropped. -/
def leading (n : Nat) : Nat × Int :=
  if _h : n < UInt64.size then (n, 0)
  else
    let (kept, dropped) := leading (n / 10)
    (kept, dropped + 1)
termination_by n
decreasing_by
  have hpos : 0 < UInt64.size := by decide
  omega

/-- Take the digits of a fraction into a significand while they fit a word. -/
def absorb (significand : Nat) (exponent : Int) : List Nat → Nat × Int
  | [] => (significand, exponent)
  | digit :: rest =>
    if significand * 10 + digit < UInt64.size then
      absorb (significand * 10 + digit) (exponent - 1) rest
    else (significand, exponent)

/-- Round to 53 binary digits, a half going to the even neighbour. -/
def rounded (n : Nat) : Nat :=
  let unit := 1 <<< (n.log2 + 1 - 53)
  let quotient := n / unit
  let rest := 2 * (n % unit)
  if unit < rest || (rest = unit && quotient % 2 = 1) then (quotient + 1) * unit
  else quotient * unit

def maxExponent : Int := 308

/-- The first product that rounds beyond every floating-point number. -/
def overflowBound : Nat := 1 <<< 1024 - 1 <<< 970

def isFinite (n : Numeral) : Bool :=
  let (whole, dropped) := leading n.whole
  let (significand, exponent) := absorb whole dropped n.fraction
  let exponent := exponent + n.exponent.getD 0
  significand = 0 || exponent < 0 ||
    (exponent ≤ maxExponent &&
      rounded significand * rounded (Nat.pow 10 exponent.toNat) < overflowBound)

/-! ## Reading -/

def value (digits : List Char) : Nat :=
  digits.foldl (fun n c => n * 10 + (c.toNat - '0'.toNat)) 0

def digits? (cs : List Char) : Option (List Char × List Char) :=
  match cs.takeWhile Char.isDigit with
  | [] => none
  | digits => some (digits, cs.dropWhile Char.isDigit)

/-- Read the digits before the point; only zero itself starts with a zero. -/
def whole? (cs : List Char) : Option (Nat × List Char) :=
  match digits? cs with
  | none => none
  | some (['0'], rest) => some (0, rest)
  | some ('0' :: _, _) => none
  | some (digits, rest) => some (value digits, rest)

def fraction? : List Char → Option (List Nat × List Char)
  | '.' :: cs => (digits? cs).map fun (digits, rest) => (digits.map fun c => value [c], rest)
  | cs => some ([], cs)

def exponent? : List Char → Option (Option Int × List Char)
  | c :: cs =>
    if c = 'e' || c = 'E' then
      match cs with
      | '-' :: cs => (digits? cs).map fun (digits, rest) => (some (-(value digits : Int)), rest)
      | '+' :: cs => (digits? cs).map fun (digits, rest) => (some (value digits), rest)
      | cs => (digits? cs).map fun (digits, rest) => (some (value digits), rest)
    else some (none, c :: cs)
  | [] => some (none, [])

def ofChars? (cs : List Char) : Option Numeral := do
  let (negative, cs) := match cs with
    | '-' :: cs => (true, cs)
    | cs => (false, cs)
  let (whole, cs) ← whole? cs
  let (fraction, cs) ← fraction? cs
  let (exponent, cs) ← exponent? cs
  if cs.isEmpty then some ⟨negative, whole, fraction, exponent⟩ else none

theorem count?_ofNat {n : Nat} (h : n < UInt64.size) : (ofNat n).count? = some n := by
  unfold count? ofNat
  exact if_pos (decide_eq_true h)

theorem count?_lt {n : Numeral} {k : Nat} (h : n.count? = some k) : k < UInt64.size := by
  unfold count? at h
  split at h
  · rename_i hc
    simp only [Bool.and_eq_true, decide_eq_true_eq] at hc
    cases h
    exact hc.2
  · cases h

theorem count?_eq_some_iff {n : Numeral} {k : Nat} :
    n.count? = some k ↔ n = ofNat k ∧ k < UInt64.size := by
  constructor
  · intro h
    refine ⟨?_, count?_lt h⟩
    obtain ⟨negative, whole, fraction, exponent⟩ := n
    simp only [count?, Option.ite_none_right_eq_some, Bool.and_eq_true, Bool.not_eq_true',
      List.isEmpty_iff, Option.isNone_iff_eq_none, Option.some.injEq] at h
    obtain ⟨⟨⟨⟨rfl, rfl⟩, rfl⟩, -⟩, rfl⟩ := h
    rfl
  · rintro ⟨rfl, hlt⟩
    exact count?_ofNat hlt

end Numeral

end AnalysisJobs
