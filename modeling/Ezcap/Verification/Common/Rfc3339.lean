import Ezcap.Model.Time
import Ezcap.Verification.Common.Calendar

/-! Reading and writing timestamps. What is written is read back; but what is read need not have
been a timestamp in the one form that is documented, as nothing past the seconds is checked. -/

namespace Ezcap.TimeUtil

open StdString Gregorian Format

/-! ## The form -/

/-- `YYYY-MM-DDTHH:MM:SS`, as the condition on each character. -/
def dateTimeForm : List (UInt8 → Bool) :=
  [isdigit, isdigit, isdigit, isdigit, (· == '-'.toUInt8), isdigit, isdigit, (· == '-'.toUInt8),
   isdigit, isdigit, fun c => c == 'T'.toUInt8 || c == 't'.toUInt8,
   isdigit, isdigit, (· == ':'.toUInt8), isdigit, isdigit, (· == ':'.toUInt8), isdigit, isdigit]

def zulu : List (UInt8 → Bool) := [(· == 'Z'.toUInt8)]

def fraction : List (UInt8 → Bool) := [(· == '.'.toUInt8), isdigit, isdigit, isdigit]

def Matches (form : List (UInt8 → Bool)) (text : Bytes) : Prop :=
  List.Forall₂ (fun p c => p c = true) form text

/-- `YYYY-MM-DDTHH:MM:SS(.mmm)?Z`. -/
def Strict (text : Bytes) : Prop :=
  Matches (dateTimeForm ++ zulu) text ∨ Matches (dateTimeForm ++ fraction ++ zulu) text

theorem isDigit_eq (c : UInt8) : isDigit c = isdigit c := by
  have h := forall_byte (p := fun c => isDigit c == isdigit c) (by decide +kernel) c
  simpa using h

theorem matches_iff_zipIdx {form : List (UInt8 → Bool)} {text : Bytes} {k : ℕ}
    (h : k + form.length ≤ text.length) :
    Matches form ((text.drop k).take form.length) ↔
      ∀ x ∈ form.zipIdx k, x.1 (text.getD x.2 0) = true := by
  induction form generalizing k with
  | nil => simp [Matches]
  | cons p form ih =>
      rw [List.length_cons] at h
      have hk : k < text.length := by omega
      have hcons : text.drop k = text.getD k 0 :: text.drop (k + 1) := by
        rw [List.drop_eq_getElem_cons hk, List.getD_eq_getElem?_getD, List.getElem?_eq_getElem hk,
          Option.getD_some]
      rw [hcons, List.length_cons, List.take_succ_cons, Matches, List.forall₂_cons, ← Matches,
        ih (by omega)]
      simp

theorem dateTimeOk_iff {text : Bytes} (h : 20 ≤ text.length) :
    dateTimeOk (fun i => text.getD i 0) = true ↔ Matches dateTimeForm (text.take 19) := by
  have hlength : 0 + dateTimeForm.length ≤ text.length := by simp [dateTimeForm]; omega
  have hzip := matches_iff_zipIdx hlength
  rw [List.drop_zero] at hzip
  refine Iff.trans ?_ hzip.symm
  simp [dateTimeOk, dateTimeForm, isDigit_eq, and_assoc]

/-! ## What is accepted -/

/-- The nanoseconds have six factors of two more than the milliseconds. -/
theorem timePoint_eq_zero_iff {tt ms : ℤ} : timePoint tt ms = 0 ↔ 2 ^ 58 ∣ tt * 1000 + ms := by
  rw [timePoint, ← Int.dvd_iff_bmod_eq_zero]
  omega

/-- Nothing is asked of what follows the seconds but that there is something. -/
theorem fromRfc3339_ne_zero_iff (timegm : Tm → ℤ) (text : Bytes) :
    fromRfc3339 timegm text ≠ 0 ↔
      20 ≤ text.length ∧ Matches dateTimeForm (text.take 19) ∧
        timegm (dateTime fun i => text.getD i 0) ≠ -1 ∧
        ¬ 2 ^ 58 ∣ timegm (dateTime fun i => text.getD i 0) * 1000 +
          milliseconds (fun i => text.getD i 0) text.length := by
  by_cases hshort : text.length < 20
  · simp [fromRfc3339, hshort]
  · rw [← timePoint_eq_zero_iff]
    have hlength : 20 ≤ text.length := Nat.le_of_not_lt hshort
    rw [← dateTimeOk_iff hlength]
    simp only [fromRfc3339]
    generalize (fun i => text.getD i 0) = p
    cases hform : dateTimeOk p with
    | false => simp
    | true => by_cases htt : timegm (dateTime p) = -1 <;> simp [hshort, htt, hlength]

/-! ## What is written -/

/-- The numbers of a written timestamp, each with no more digits than it has places. -/
structure Written where
  year : ℕ
  month : ℕ
  day : ℕ
  hour : ℕ
  minute : ℕ
  second : ℕ
  ms : ℕ
  year_lt : year < 10 ^ 4
  month_lt : month < 10 ^ 2
  day_lt : day < 10 ^ 2
  hour_lt : hour < 10 ^ 2
  minute_lt : minute < 10 ^ 2
  second_lt : second < 10 ^ 2
  ms_lt : ms < 10 ^ 3

namespace Written

def text (w : Written) : Bytes :=
  fixed 10 4 w.year ++ cstr "-" ++ fixed 10 2 w.month ++ cstr "-" ++ fixed 10 2 w.day ++
    cstr "T" ++ fixed 10 2 w.hour ++ cstr ":" ++ fixed 10 2 w.minute ++ cstr ":" ++
    fixed 10 2 w.second ++ cstr "." ++ fixed 10 3 w.ms ++ cstr "Z"

def tm (w : Written) : Tm where
  tmYear := w.year - 1900
  tmMon := w.month - 1
  tmMday := w.day
  tmHour := w.hour
  tmMin := w.minute
  tmSec := w.second

theorem isDigit_digit : ∀ d < 10, isDigit (digit d) = true := by decide

theorem digitValue_digit : ∀ d < 10, digitValue (digit d) = d := by decide

theorem digitValue_mod (n : ℕ) : digitValue (digit (n % 10)) = (n % 10 : ℕ) :=
  digitValue_digit _ (Nat.mod_lt _ (by decide))

theorem isDigit_mod (n : ℕ) : isDigit (digit (n % 10)) = true :=
  isDigit_digit _ (Nat.mod_lt _ (by decide))

theorem cstr_separators :
    cstr "-" = ['-'.toUInt8] ∧ cstr "T" = ['T'.toUInt8] ∧ cstr ":" = [':'.toUInt8] ∧
      cstr "." = ['.'.toUInt8] ∧ cstr "Z" = ['Z'.toUInt8] :=
  ⟨rfl, rfl, rfl, rfl, rfl⟩

theorem text_eq (w : Written) :
    w.text = [digit (w.year / 10 / 10 / 10 % 10), digit (w.year / 10 / 10 % 10),
      digit (w.year / 10 % 10), digit (w.year % 10), '-'.toUInt8,
      digit (w.month / 10 % 10), digit (w.month % 10), '-'.toUInt8,
      digit (w.day / 10 % 10), digit (w.day % 10), 'T'.toUInt8,
      digit (w.hour / 10 % 10), digit (w.hour % 10), ':'.toUInt8,
      digit (w.minute / 10 % 10), digit (w.minute % 10), ':'.toUInt8,
      digit (w.second / 10 % 10), digit (w.second % 10), '.'.toUInt8,
      digit (w.ms / 10 / 10 % 10), digit (w.ms / 10 % 10), digit (w.ms % 10), 'Z'.toUInt8] := by
  simp only [text, fixed, cstr_separators, List.nil_append, List.cons_append]

theorem fromRfc3339_text (w : Written) (timegm : Tm → ℤ) :
    fromRfc3339 timegm w.text = if timegm w.tm = -1 then 0 else timePoint (timegm w.tm) w.ms := by
  have hok : dateTimeOk (fun i => w.text.getD i 0) = true := by
    simp [text_eq, dateTimeOk, isDigit_mod]
  have htm : (dateTime fun i => w.text.getD i 0) = w.tm := by
    obtain ⟨year, month, day, hour, minute, second, ms, hyear, hmonth, hday, hhour, hminute,
      hsecond, hms⟩ := w
    simp only [text_eq, dateTime, parse2, tm, digitValue_mod, Tm.mk.injEq, List.getD_cons_zero,
      List.getD_cons_succ]
    omega
  have hms : milliseconds (fun i => w.text.getD i 0) w.text.length = w.ms := by
    have hlt := w.ms_lt
    simp only [text_eq, milliseconds, List.length_cons, List.length_nil, List.getD_cons_zero,
      List.getD_cons_succ, digitValue_mod]
    rw [if_pos (by decide)]
    omega
  have hlength : w.text.length = 24 := by simp [text_eq]
  simp only [fromRfc3339, hok, htm, hms]
  simp [hlength]

end Written

/-- One second more than the last of the year 9999. -/
def endOf9999 : ℤ := 253402300800

/-- The members have as many digits as they are printed with. -/
structure Tm.Fits (tm : Tm) : Prop where
  year : 0 ≤ tm.tmYear + 1900 ∧ tm.tmYear + 1900 < 10 ^ 4
  mon : 0 ≤ tm.tmMon + 1 ∧ tm.tmMon + 1 < 10 ^ 2
  mday : 0 ≤ tm.tmMday ∧ tm.tmMday < 10 ^ 2
  hour : 0 ≤ tm.tmHour ∧ tm.tmHour < 10 ^ 2
  min : 0 ≤ tm.tmMin ∧ tm.tmMin < 10 ^ 2
  sec : 0 ≤ tm.tmSec ∧ tm.tmSec < 10 ^ 2

theorem gmtime_eq (secs : ℤ) :
    gmtime secs =
      { tmYear := (Ipc.civilFromDays (secs / 86400)).1 - 1900
        tmMon := (Ipc.civilFromDays (secs / 86400)).2.1 - 1
        tmMday := (Ipc.civilFromDays (secs / 86400)).2.2
        tmHour := secs % 86400 / 3600
        tmMin := secs % 86400 % 3600 / 60
        tmSec := secs % 86400 % 60 } := by
  rw [gmtime, Int.fdiv_eq_ediv_of_nonneg _ (by decide), Int.fmod_eq_emod_of_nonneg _ (by decide)]

theorem fits_gmtime {secs : ℤ} (h : 0 ≤ secs) (h' : secs < endOf9999) : (gmtime secs).Fits := by
  have hdays : 0 ≤ secs / 86400 ∧ secs / 86400 < 2932897 := by
    rw [endOf9999] at h'
    omega
  obtain ⟨hdate, hnumber⟩ := Ipc.civilFromDays_spec (secs / 86400)
  have hyear := hdate.year_bounds (by omega) (by omega)
  have hday := hdate.day_le_31
  obtain ⟨hone_month, hmonth, hone_day, -⟩ := hdate
  rw [gmtime_eq]
  constructor <;> dsimp only <;> omega

theorem toRfc3339_eq {t : ℤ} (h : 0 ≤ t) :
    Ipc.toRfc3339 t =
      decimalPadded 4 ((gmtime (t / 10 ^ 9)).tmYear + 1900) ++ cstr "-" ++
        decimalPadded 2 ((gmtime (t / 10 ^ 9)).tmMon + 1) ++ cstr "-" ++
        decimalPadded 2 (gmtime (t / 10 ^ 9)).tmMday ++ cstr "T" ++
        decimalPadded 2 (gmtime (t / 10 ^ 9)).tmHour ++ cstr ":" ++
        decimalPadded 2 (gmtime (t / 10 ^ 9)).tmMin ++ cstr ":" ++
        decimalPadded 2 (gmtime (t / 10 ^ 9)).tmSec ++ cstr "." ++
        decimalPadded 3 (t % 10 ^ 9 / 10 ^ 6) ++ cstr "Z" := by
  have hms : (t - t / 10 ^ 9 * 10 ^ 9).tdiv (10 ^ 6) = t % 10 ^ 9 / 10 ^ 6 := by
    rw [Int.tdiv_eq_ediv_of_nonneg (by omega)]
    omega
  simp only [Ipc.toRfc3339, Int.tdiv_eq_ediv_of_nonneg h, hms, gmtime, Int.sub_add_cancel]

theorem exists_written {t : ℤ} (h : 0 ≤ t) (h' : t < endOf9999 * 10 ^ 9) :
    ∃ w : Written, Ipc.toRfc3339 t = w.text ∧ gmtime (t / 10 ^ 9) = w.tm ∧
      (w.ms : ℤ) = t % 10 ^ 9 / 10 ^ 6 := by
  have hfits : (gmtime (t / 10 ^ 9)).Fits := fits_gmtime (by omega) (by omega)
  rw [toRfc3339_eq h]
  generalize gmtime (t / 10 ^ 9) = tm at hfits
  obtain ⟨⟨hyear, hyear'⟩, ⟨hmon, hmon'⟩, ⟨hmday, hmday'⟩, ⟨hhour, hhour'⟩, ⟨hmin, hmin'⟩,
    ⟨hsec, hsec'⟩⟩ := hfits
  have hms : 0 ≤ t % 10 ^ 9 / 10 ^ 6 ∧ t % 10 ^ 9 / 10 ^ 6 < 10 ^ 3 := by omega
  obtain ⟨year, hyear⟩ := Int.eq_ofNat_of_zero_le hyear
  obtain ⟨month, hmonth⟩ := Int.eq_ofNat_of_zero_le hmon
  obtain ⟨day, hday⟩ := Int.eq_ofNat_of_zero_le hmday
  obtain ⟨hour, hhour⟩ := Int.eq_ofNat_of_zero_le hhour
  obtain ⟨minute, hminute⟩ := Int.eq_ofNat_of_zero_le hmin
  obtain ⟨second, hsecond⟩ := Int.eq_ofNat_of_zero_le hsec
  obtain ⟨ms, hms'⟩ := Int.eq_ofNat_of_zero_le hms.1
  refine ⟨⟨year, month, day, hour, minute, second, ms, by omega, by omega, by omega, by omega,
    by omega, by omega, by omega⟩, ?_, ?_, hms'.symm⟩
  · rw [hyear, hmonth, hday, hhour, hminute, hsecond, hms', Written.text]
    repeat rw [decimalPadded_of_lt (by decide) (by omega)]
  · obtain ⟨tmYear, tmMon, tmMday, tmHour, tmMin, tmSec⟩ := tm
    simp only [Written.tm, Tm.mk.injEq] at hyear hmonth hday hhour hminute hsecond ⊢
    omega

/-- A signed 64-bit count of nanoseconds; the last is in the year 2262. -/
def IsTimePoint (t : ℤ) : Prop := -2 ^ 63 ≤ t ∧ t < 2 ^ 63

theorem fromRfc3339_toRfc3339 {timegm : Tm → ℤ}
    (hinverse : ∀ secs, 0 ≤ secs → secs < endOf9999 → timegm (gmtime secs) = secs) {t : ℤ}
    (h : 0 ≤ t) (h' : t < endOf9999 * 10 ^ 9) (ht : IsTimePoint t) :
    fromRfc3339 timegm (Ipc.toRfc3339 t) = t - t % 10 ^ 6 := by
  obtain ⟨w, htext, htm, hms⟩ := exists_written h h'
  have hsecs : 0 ≤ t / 10 ^ 9 ∧ t / 10 ^ 9 < endOf9999 := by omega
  have htt : timegm w.tm = t / 10 ^ 9 := by rw [← htm, hinverse _ hsecs.1 hsecs.2]
  obtain ⟨-, hlt⟩ := ht
  have hvalue : (t / 10 ^ 9 * 1000 + t % 10 ^ 9 / 10 ^ 6) * 10 ^ 6 = t - t % 10 ^ 6 := by omega
  rw [htext, w.fromRfc3339_text, htt, hms, if_neg (by omega), timePoint, hvalue,
    Int.bmod_eq_of_le (by omega) (by omega)]

/-! ## The calendar of the C library -/

theorem timegm_gmtime (secs : ℤ) : timegm (gmtime secs) = secs := by
  obtain ⟨hdate, hnumber⟩ := Ipc.civilFromDays_spec (secs / 86400)
  obtain ⟨hone, hmonth, -, -⟩ := hdate
  have hyears : ((Ipc.civilFromDays (secs / 86400)).2.1 - 1) / 12 = 0 := by omega
  have hmonths : ((Ipc.civilFromDays (secs / 86400)).2.1 - 1) % 12 + 1 =
      (Ipc.civilFromDays (secs / 86400)).2.1 := by
    omega
  rw [gmtime_eq, timegm]
  simp only [hyears, hmonths, Int.sub_add_cancel, Int.add_zero, hnumber]
  omega

/-- A text is read only if it has the documented form, except for one whose first 19 characters are
a date and a time and whose twentieth and further ones are not a fraction and a `Z`: it is read as
if they were, unless `timegm` fails or the milliseconds since the epoch are a multiple of 2^58. What
is written is read back to the millisecond. -/
theorem rfc3339_strict_iff (timegm : Tm → ℤ)
    (hinverse : ∀ secs, 0 ≤ secs → secs < endOf9999 → timegm (gmtime secs) = secs) :
    (∀ text, (fromRfc3339 timegm text ≠ 0 → Strict text) ↔
      Strict text ∨ text.length < 20 ∨ ¬ Matches dateTimeForm (text.take 19) ∨
        timegm (dateTime fun i => text.getD i 0) = -1 ∨
        2 ^ 58 ∣ timegm (dateTime fun i => text.getD i 0) * 1000 +
          milliseconds (fun i => text.getD i 0) text.length) ∧
    ∀ t, IsTimePoint t → 0 ≤ t → t < endOf9999 * 10 ^ 9 →
      fromRfc3339 timegm (Ipc.toRfc3339 t) = t - t % 10 ^ 6 := by
  refine ⟨fun text => ?_, fun t ht h h' => fromRfc3339_toRfc3339 hinverse h h' ht⟩
  rw [fromRfc3339_ne_zero_iff, ← Nat.not_le]
  tauto

/-- 12 September 2026, 07:41:03.512999999, comes back without the last 999999 nanoseconds. -/
theorem rfc3339_strict_september :
    (∀ secs, 0 ≤ secs → secs < endOf9999 → timegm (gmtime secs) = secs) ∧
      fromRfc3339 timegm (Ipc.toRfc3339 1789198863512999999) = 1789198863512000000 :=
  ⟨fun secs _ _ => timegm_gmtime secs,
    (rfc3339_strict_iff timegm fun secs _ _ => timegm_gmtime secs).2 1789198863512999999
      (by constructor <;> decide) (by decide) (by decide)⟩

/-- A time two hours east of Greenwich is read as if it were in Greenwich. -/
theorem offset_read_as_utc :
    ¬ Strict (cstr "2026-01-01T00:00:00+02:00") ∧
      fromRfc3339 timegm (cstr "2026-01-01T00:00:00+02:00") = 1767225600000000000 ∧
      fromRfc3339 timegm (cstr "2026-01-01T00:00:00Z") = 1767225600000000000 := by
  refine ⟨?_, by decide +kernel, by decide +kernel⟩
  rintro (h | h)
  · exact absurd h.length_eq (by decide)
  · exact absurd h.length_eq (by decide)

end Ezcap.TimeUtil
