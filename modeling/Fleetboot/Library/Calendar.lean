import Mathlib.Algebra.Group.Nat.Defs
import Mathlib.Data.List.Basic

/-!
# Civil dates

The proleptic Gregorian date of a number of seconds since the epoch, and the two ways the
code prints it: SQLite's `datetime('now')` and Python's `strftime`.
-/

set_option autoImplicit false

namespace Calendar

structure DateTime where
  year : Nat
  month : Nat
  day : Nat
  hour : Nat
  minute : Nat
  second : Nat
  deriving DecidableEq

/-- The date of a second. Years are counted from a 1 March, in cycles of 400 years. -/
def ofSeconds (seconds : Nat) : DateTime :=
  let days := seconds / 86400 + 719468
  let cycle := days / 146097
  let dayOfCycle := days % 146097
  let yearOfCycle :=
    (dayOfCycle - dayOfCycle / 1460 + dayOfCycle / 36524 - dayOfCycle / 146096) / 365
  let dayOfYear := dayOfCycle - (365 * yearOfCycle + yearOfCycle / 4 - yearOfCycle / 100)
  let shifted := (5 * dayOfYear + 2) / 153
  let month := if shifted < 10 then shifted + 3 else shifted - 9
  { year := yearOfCycle + cycle * 400 + (if month ≤ 2 then 1 else 0)
    month
    day := dayOfYear - (153 * shifted + 2) / 5 + 1
    hour := seconds % 86400 / 3600
    minute := seconds % 3600 / 60
    second := seconds % 60 }

/-- `n` in decimal with at least `width` digits. -/
def padded (width n : Nat) : String :=
  let digits := Nat.toDigits 10 n
  String.ofList (List.replicate (width - digits.length) '0' ++ digits)

/-- `YYYY-MM-DD HH:MM:SS`, as SQLite's `datetime('now')` prints it. -/
def datetimeText (seconds : Nat) : String :=
  let t := ofSeconds seconds
  padded 4 t.year ++ "-" ++ padded 2 t.month ++ "-" ++ padded 2 t.day ++ " " ++
    padded 2 t.hour ++ ":" ++ padded 2 t.minute ++ ":" ++ padded 2 t.second

/-- `%Y%m%d-%H%M%S`. -/
def compactText (seconds : Nat) : String :=
  let t := ofSeconds seconds
  padded 4 t.year ++ padded 2 t.month ++ padded 2 t.day ++ "-" ++
    padded 2 t.hour ++ padded 2 t.minute ++ padded 2 t.second

/-- `%Y-%m-%dT%H:%M:%SZ`. -/
def isoText (seconds : Nat) : String :=
  let t := ofSeconds seconds
  padded 4 t.year ++ "-" ++ padded 2 t.month ++ "-" ++ padded 2 t.day ++ "T" ++
    padded 2 t.hour ++ ":" ++ padded 2 t.minute ++ ":" ++ padded 2 t.second ++ "Z"

example : datetimeText 253402300799 = "9999-12-31 23:59:59" := by decide +kernel

/-! ## What is printed -/

theorem isDigit_of_mem_padded {width n : Nat} {c : Char} (hc : c ∈ (padded width n).toList) :
    c.isDigit = true := by
  rw [padded, String.toList_ofList, List.mem_append] at hc
  rcases hc with hc | hc
  · rw [List.eq_of_mem_replicate hc]
    decide
  · exact Nat.isDigit_of_mem_toDigits (by decide) (by decide) hc

theorem length_padded {width n : Nat} (hwidth : 0 < width) (hn : n < 10 ^ width) :
    (padded width n).toList.length = width := by
  have := (Nat.length_toDigits_le_iff (by decide) hwidth).mpr hn
  rw [padded, String.toList_ofList, List.length_append, List.length_replicate]
  omega

/-- Up to the end of the year 9999 the parts of a date have their usual number of digits. -/
theorem ofSeconds_bounds {seconds : Nat} (h : seconds ≤ 253402300799) :
    (ofSeconds seconds).year < 10000 ∧ (ofSeconds seconds).month < 100 ∧
      (ofSeconds seconds).day < 100 := by
  have hdays : seconds / 86400 + 719468 ≤ 3652364 := by omega
  unfold ofSeconds
  generalize seconds / 86400 + 719468 = days at hdays
  dsimp only
  have hcycle : days / 146097 ≤ 24 := by omega
  have hday : days % 146097 < 146097 := Nat.mod_lt _ (by decide)
  have hlast : days / 146097 = 24 → days % 146097 ≤ 146036 := by omega
  generalize days / 146097 = cycle at *
  generalize days % 146097 = d at *
  generalize hy : (d - d / 1460 + d / 36524 - d / 146096) / 365 = y
  have hy399 : y ≤ 399 := by omega
  generalize hdoy : d - (365 * y + y / 4 - y / 100) = doy
  have hdoy366 : doy ≤ 366 := by omega
  have hlastday : cycle = 24 → y = 399 → doy ≤ 305 := by omega
  generalize hs : (5 * doy + 2) / 153 = s
  have hs12 : s ≤ 11 := by omega
  have hlasts : cycle = 24 → y = 399 → s ≤ 9 := by omega
  refine ⟨?_, ?_, ?_⟩
  · split <;> split <;> omega
  · split <;> omega
  · omega

/-- The date and the time that `compactText` prints. -/
theorem compactText_parts {seconds : Nat} (h : seconds ≤ 253402300799) : ∃ date time : List Char,
    (compactText seconds).toList = date ++ '-' :: time ∧ date.length = 8 ∧ time.length = 6 ∧
      (∀ c ∈ date, c.isDigit = true) ∧ ∀ c ∈ time, c.isDigit = true := by
  obtain ⟨hyear, hmonth, hday⟩ := ofSeconds_bounds h
  have hhour : (ofSeconds seconds).hour < 100 := by
    change seconds % 86400 / 3600 < 100
    omega
  have hminute : (ofSeconds seconds).minute < 100 := by
    change seconds % 3600 / 60 < 100
    omega
  have hsecond : (ofSeconds seconds).second < 100 := by
    change seconds % 60 < 100
    omega
  have hfour : (padded 4 (ofSeconds seconds).year).toList.length = 4 :=
    length_padded (by decide) hyear
  have htwo : ∀ n, n < 100 → (padded 2 n).toList.length = 2 := fun n hn =>
    length_padded (by decide) hn
  refine ⟨(padded 4 (ofSeconds seconds).year).toList ++
    ((padded 2 (ofSeconds seconds).month).toList ++ (padded 2 (ofSeconds seconds).day).toList),
    (padded 2 (ofSeconds seconds).hour).toList ++
      ((padded 2 (ofSeconds seconds).minute).toList ++
        (padded 2 (ofSeconds seconds).second).toList), ?_, ?_, ?_, ?_, ?_⟩
  · simp [compactText]
  · rw [List.length_append, List.length_append, hfour, htwo _ hmonth, htwo _ hday]
  · rw [List.length_append, List.length_append, htwo _ hhour, htwo _ hminute, htwo _ hsecond]
  · intro c hc
    simp only [List.mem_append] at hc
    rcases hc with hc | hc | hc <;> exact isDigit_of_mem_padded hc
  · intro c hc
    simp only [List.mem_append] at hc
    rcases hc with hc | hc | hc <;> exact isDigit_of_mem_padded hc

theorem isoText_chars {seconds : Nat} {c : Char} (hc : c ∈ (isoText seconds).toList) :
    c.isDigit = true ∨ c ∈ ['-', 'T', ':', 'Z'] := by
  have hparts : ∀ (front : String) (mark : String) (width n : Nat),
      (∀ c ∈ front.toList, c.isDigit = true ∨ c ∈ ['-', 'T', ':', 'Z']) →
      (∀ c ∈ mark.toList, c ∈ ['-', 'T', ':', 'Z']) →
      ∀ c ∈ (front ++ mark ++ padded width n).toList,
        c.isDigit = true ∨ c ∈ ['-', 'T', ':', 'Z'] := by
    intro front mark width n hfront hmark c hc
    rw [String.toList_append, String.toList_append, List.mem_append, List.mem_append] at hc
    rcases hc with (hc | hc) | hc
    · exact hfront c hc
    · exact .inr (hmark c hc)
    · exact .inl (isDigit_of_mem_padded hc)
  have hyear : ∀ c ∈ (padded 4 (ofSeconds seconds).year).toList,
      c.isDigit = true ∨ c ∈ ['-', 'T', ':', 'Z'] := fun c hc => .inl (isDigit_of_mem_padded hc)
  unfold isoText at hc
  rw [String.toList_append, List.mem_append] at hc
  rcases hc with hc | hc
  · refine hparts _ _ _ _ (hparts _ _ _ _ (hparts _ _ _ _ (hparts _ _ _ _
      (hparts _ _ _ _ hyear ?_) ?_) ?_) ?_) ?_ c hc <;> simp
  · have hzone : "Z".toList = ['Z'] := rfl
    rw [hzone, List.mem_singleton] at hc
    rw [hc]
    exact .inr (by decide)

end Calendar
