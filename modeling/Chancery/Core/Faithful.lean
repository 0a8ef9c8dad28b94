/-
Texts that determine what they were made from.

(1) `flatMap_injective`: a code with words of one length.
(2) `isoformat_injective`: ISO timestamps, with and without microseconds, of any year.
(3) `compact_injective`: the compact JSON text of an object with given keys determines its scalar values.
Nothing here knows the repository.
-/
import Mathlib.Tactic
import Chancery.Core.Calendar
import Chancery.Core.JsonLoads

namespace Chancery.Core

/-! ## (1) Words of one length -/

theorem flatMap_injective {α β : Type*} {f : α → List β} {n : ℕ} (hpos : 0 < n) (hlen : ∀ a, (f a).length = n)
    (hf : Function.Injective f) : Function.Injective fun l : List α => l.flatMap f := by
  have hne : ∀ a rest, f a ++ rest ≠ [] := fun a rest h => by
    have hlength := congrArg List.length h
    rw [List.length_append, hlen a, List.length_nil] at hlength
    omega
  intro l
  induction l with
  | nil =>
    intro m h
    cases m with
    | nil => rfl
    | cons b m => exact absurd h.symm (hne b _)
  | cons a l ih =>
    intro m h
    cases m with
    | nil => exact absurd h (hne a _)
    | cons b m =>
      simp only [List.flatMap_cons] at h
      obtain ⟨hword, hrest⟩ := List.append_inj h ((hlen a).trans (hlen b).symm)
      rw [hf hword, ih hrest]

/-! ## (2) Timestamps -/

theorem toList_padded (width : ℕ) (n : ℤ) :
    (padded width n).toList = List.replicate (width - (toString n).length) '0' ++ (toString n).toList := by
  simp [padded]

/-- without the zeros in front, the number is left; of zero nothing is -/
theorem dropWhile_padded (width : ℕ) (n : ℤ) :
    (padded width n).toList.dropWhile (· == '0') = if n = 0 then [] else (toString n).toList := by
  have hzeros : ∀ k (t : Text), (List.replicate k '0' ++ t).dropWhile (· == '0') = t.dropWhile (· == '0') := by
    intro k t
    induction k with
    | zero => rfl
    | succ k ih => rw [List.replicate_succ, List.cons_append, List.dropWhile_cons_of_pos (by rfl), ih]
  rw [toList_padded, hzeros]
  by_cases h : n = 0
  · rw [if_pos h, h]
    rfl
  · rw [if_neg h]
    have hhead : (toString n).toList.head? ≠ some '0' := by
      rw [Json.toList_toString]
      split_ifs with hneg
      · simp
      · intro hzero
        have hnat := Json.isNatural_toDigits n.natAbs
        simp only [Json.isNatural, Bool.and_eq_true, Bool.or_eq_true, beq_iff_eq, decide_eq_true_eq] at hnat
        have hlen := hnat.2.resolve_left (not_not.2 hzero)
        have hsmall : n.natAbs < 10 := by
          simpa using (Nat.length_toDigits_le_iff (b := 10) (n := n.natAbs) (k := 1) (by norm_num) (by norm_num)).1 hlen.le
        have hkey : ∀ d < 10, d ≠ 0 → d.digitChar ≠ '0' := by decide
        rw [Nat.toDigits_of_lt_base hsmall, List.head?_cons] at hzero
        exact hkey n.natAbs hsmall (by omega) (Option.some.inj hzero)
    cases ht : (toString n).toList with
    | nil => rfl
    | cons c t =>
      rw [ht] at hhead
      have hc : ¬ (c == '0') = true := by simpa using hhead
      exact List.dropWhile_cons_of_neg (p := fun x => x == '0') hc

theorem toString_ne_nil (n : ℤ) : (toString n).toList ≠ [] := by
  rw [Json.toList_toString]
  split_ifs
  · exact List.cons_ne_nil _ _
  · exact Nat.toDigits_ne_nil

theorem padded_injective (width : ℕ) : Function.Injective (padded width) := by
  intro m n h
  have hdrop := congrArg (fun s : String => s.toList.dropWhile (· == '0')) h
  simp only [dropWhile_padded] at hdrop
  split_ifs at hdrop with hm hn hn
  · rw [hm, hn]
  · exact absurd hdrop.symm (toString_ne_nil n)
  · exact absurd hdrop (toString_ne_nil m)
  · exact Json.toString_int_injective (String.toList_inj.1 hdrop)

/-- a number that fits has exactly the width -/
theorem length_padded {width : ℕ} {n : ℤ} (hwidth : 0 < width) (hn : 0 ≤ n) (hlt : n < 10 ^ width) :
    (padded width n).toList.length = width := by
  have hdigits : (toString n).length ≤ width := by
    rw [← String.length_toList, Json.toList_toString, if_neg (not_lt.2 hn)]
    rw [Nat.length_toDigits_le_iff (by norm_num) hwidth]
    have hcast : ((n.natAbs : ℕ) : ℤ) = n := Int.natAbs_of_nonneg hn
    have hpow : ((n.natAbs : ℕ) : ℤ) < ((10 ^ width : ℕ) : ℤ) := by
      rw [hcast]
      push_cast
      exact hlt
    exact_mod_cast hpow
  rw [toList_padded, List.length_append, List.length_replicate, String.length_toList]
  omega

theorem dot_not_mem_padded (width : ℕ) (n : ℤ) : '.' ∉ (padded width n).toList := by
  rw [toList_padded, List.mem_append]
  rintro (h | h)
  · cases List.eq_of_mem_replicate h
  · have hdigit : '.' ∉ Nat.toDigits 10 n.natAbs := fun hd =>
      absurd (Nat.isDigit_of_mem_toDigits (by norm_num) (by norm_num) hd) (by decide)
    rw [Json.toList_toString] at h
    split_ifs at h
    · rcases List.mem_cons.1 h with heq | h
      · cases heq
      · exact hdigit h
    · exact hdigit h

/-- everything after the year but the microseconds -/
def clockText (c : Civil) : Text :=
  '-' :: ((padded 2 c.month).toList ++ '-' :: ((padded 2 c.dom).toList ++ 'T' :: ((padded 2 c.hour).toList ++
    ':' :: ((padded 2 c.minute).toList ++ ':' :: (padded 2 c.sec).toList))))

def fractionText (c : Civil) : Text := if c.micro = 0 then [] else '.' :: (padded 6 c.micro).toList

theorem toList_isoformat (t : DateTime) :
    (isoformat t).toList = (padded 4 (civil t).year).toList ++ (clockText (civil t) ++ fractionText (civil t)) := by
  by_cases h : (civil t).micro = 0
  · simp [isoformat, clockText, fractionText, h]
  · simp [isoformat, clockText, fractionText, h]

/-- the fields but the year fit their widths -/
structure Civil.Fits (c : Civil) : Prop where
  month : 0 ≤ c.month ∧ c.month < 100
  dom : 0 ≤ c.dom ∧ c.dom < 100
  hour : 0 ≤ c.hour ∧ c.hour < 100
  minute : 0 ≤ c.minute ∧ c.minute < 100
  sec : 0 ≤ c.sec ∧ c.sec < 100
  micro : 0 ≤ c.micro ∧ c.micro < 1000000

/-- the time of day, in hours, minutes, seconds and microseconds -/
theorem clock_fits {r : ℤ} (h : 0 ≤ r ∧ r < 86400000000) : (0 ≤ r / 1000000 / 3600 ∧ r / 1000000 / 3600 < 100) ∧
    (0 ≤ r / 1000000 / 60 % 60 ∧ r / 1000000 / 60 % 60 < 100) ∧ (0 ≤ r / 1000000 % 60 ∧ r / 1000000 % 60 < 100) ∧
    0 ≤ r % 1000000 ∧ r % 1000000 < 1000000 := by
  omega

theorem clock_determines {a b : ℤ} (hhour : a / 1000000 / 3600 = b / 1000000 / 3600)
    (hminute : a / 1000000 / 60 % 60 = b / 1000000 / 60 % 60) (hsec : a / 1000000 % 60 = b / 1000000 % 60)
    (hmicro : a % 1000000 = b % 1000000) : a = b := by
  omega

theorem time_of_day (t : DateTime) : 0 ≤ t % day ∧ t % day < 86400000000 :=
  ⟨Int.emod_nonneg _ (by decide), Int.emod_lt_of_pos _ (by decide)⟩

theorem civil_fits (t : DateTime) : (civil t).Fits := by
  obtain ⟨era, yoe, doy, -, hdoy, -, hcivil⟩ := civilFromDays_spec (t / day)
  obtain ⟨hhour, hminute, hsec, hmicro⟩ := clock_fits (time_of_day t)
  have hmonth : (0 ≤ (civilFromDays (t / day)).2.1 ∧ (civilFromDays (t / day)).2.1 < 100) ∧
      0 ≤ (civilFromDays (t / day)).2.2 ∧ (civilFromDays (t / day)).2.2 < 100 := by
    rw [hcivil]
    split_ifs with h
    · exact ⟨⟨by dsimp only; omega, by dsimp only; omega⟩, by dsimp only; omega, by dsimp only; omega⟩
    · exact ⟨⟨by dsimp only; omega, by dsimp only; omega⟩, by dsimp only; omega, by dsimp only; omega⟩
  exact ⟨hmonth.1, hmonth.2, hhour, hminute, hsec, hmicro⟩

theorem length_clockText {c : Civil} (h : c.Fits) : (clockText c).length = 15 := by
  have hwidth : ∀ n : ℤ, 0 ≤ n ∧ n < 100 → (padded 2 n).toList.length = 2 := fun n hn =>
    length_padded (by norm_num) hn.1 (by norm_num; exact hn.2)
  simp [clockText, hwidth _ h.month, hwidth _ h.dom, hwidth _ h.hour, hwidth _ h.minute, hwidth _ h.sec]

theorem clockText_injective {c d : Civil} (hc : c.Fits) (hd : d.Fits) (h : clockText c = clockText d) :
    c.month = d.month ∧ c.dom = d.dom ∧ c.hour = d.hour ∧ c.minute = d.minute ∧ c.sec = d.sec := by
  -- one field after the other, each of two digits
  have hfield : ∀ {m n : ℤ} {s t : Text}, 0 ≤ m ∧ m < 100 → 0 ≤ n ∧ n < 100 →
      (padded 2 m).toList ++ s = (padded 2 n).toList ++ t → m = n ∧ s = t := by
    intro m n s t hm hn heq
    have hlen : (padded 2 m).toList.length = (padded 2 n).toList.length := by
      rw [length_padded (by norm_num) hm.1 (by norm_num; exact hm.2),
        length_padded (by norm_num) hn.1 (by norm_num; exact hn.2)]
    obtain ⟨hword, hrest⟩ := List.append_inj heq hlen
    exact ⟨padded_injective 2 (String.toList_inj.1 hword), hrest⟩
  unfold clockText at h
  obtain ⟨hmonth, h⟩ := hfield hc.month hd.month (List.cons.inj h).2
  obtain ⟨hdom, h⟩ := hfield hc.dom hd.dom (List.cons.inj h).2
  obtain ⟨hhour, h⟩ := hfield hc.hour hd.hour (List.cons.inj h).2
  obtain ⟨hminute, h⟩ := hfield hc.minute hd.minute (List.cons.inj h).2
  have hsec := String.toList_inj.1 (List.cons.inj h).2
  exact ⟨hmonth, hdom, hhour, hminute, padded_injective 2 hsec⟩

/-- the calendar fields determine the time -/
theorem civil_injective : Function.Injective civil := by
  intro t u h
  have hyear := congrArg Civil.year h
  have hmonth := congrArg Civil.month h
  have hdom := congrArg Civil.dom h
  have hdays : t / day = u / day := civilFromDays_injective (Prod.ext hyear (Prod.ext hmonth hdom))
  have hrest : t % day = u % day := clock_determines (congrArg Civil.hour h)
    (congrArg Civil.minute h) (congrArg Civil.sec h) (congrArg Civil.micro h)
  rw [← Int.mul_ediv_add_emod t day, ← Int.mul_ediv_add_emod u day, hdays, hrest]

theorem isoformat_injective : Function.Injective isoformat := by
  intro t u h
  have htext := congrArg String.toList h
  rw [toList_isoformat, toList_isoformat] at htext
  have hfits := civil_fits t
  have hfits' := civil_fits u
  have hdot : ∀ c : Civil, '.' ∉ (padded 4 c.year).toList ++ clockText c := by
    intro c
    simp only [clockText, List.mem_append, List.mem_cons, not_or]
    exact ⟨dot_not_mem_padded 4 _, by decide, dot_not_mem_padded 2 _, by decide, dot_not_mem_padded 2 _, by decide,
      dot_not_mem_padded 2 _, by decide, dot_not_mem_padded 2 _, by decide, dot_not_mem_padded 2 _⟩
  -- both have microseconds, or neither
  have hkind : (civil t).micro = 0 ↔ (civil u).micro = 0 := by
    have hmem : ∀ c : Civil, '.' ∈ (padded 4 c.year).toList ++ (clockText c ++ fractionText c) ↔ ¬ c.micro = 0 := by
      intro c
      rw [← List.append_assoc, List.mem_append, or_iff_right (hdot c)]
      unfold fractionText
      split_ifs with hzero
      · simp [hzero]
      · simp [hzero]
    have hiff := (hmem (civil t)).symm.trans ((Iff.of_eq (congrArg ('.' ∈ ·) htext)).trans (hmem (civil u)))
    exact not_iff_not.1 hiff
  have hfraction : (fractionText (civil t)).length = (fractionText (civil u)).length := by
    unfold fractionText
    by_cases hzero : (civil t).micro = 0
    · rw [if_pos hzero, if_pos (hkind.1 hzero)]
    · rw [if_neg hzero, if_neg (mt hkind.2 hzero), List.length_cons, List.length_cons,
        length_padded (by norm_num) hfits.micro.1 (by norm_num; exact hfits.micro.2),
        length_padded (by norm_num) hfits'.micro.1 (by norm_num; exact hfits'.micro.2)]
  obtain ⟨hyear, hrest⟩ := List.append_inj' htext (by
    rw [List.length_append, List.length_append, hfraction, length_clockText hfits, length_clockText hfits'])
  obtain ⟨hclock, hmicro⟩ := List.append_inj' hrest hfraction
  obtain ⟨hmonth, hdom, hhour, hminute, hsec⟩ := clockText_injective hfits hfits' hclock
  have hmicros : (civil t).micro = (civil u).micro := by
    unfold fractionText at hmicro
    by_cases hzero : (civil t).micro = 0
    · rw [hzero, hkind.1 hzero]
    · rw [if_neg hzero, if_neg (mt hkind.2 hzero)] at hmicro
      exact padded_injective 6 (String.toList_inj.1 (List.cons.inj hmicro).2)
  apply civil_injective
  have hyears := padded_injective 4 (String.toList_inj.1 hyear)
  calc civil t
      = ⟨(civil t).year, (civil t).month, (civil t).dom, (civil t).hour, (civil t).minute, (civil t).sec,
        (civil t).micro⟩ := rfl
    _ = ⟨(civil u).year, (civil u).month, (civil u).dom, (civil u).hour, (civil u).minute, (civil u).sec,
      (civil u).micro⟩ := by
      rw [hyears, hmonth, hdom, hhour, hminute, hsec, hmicros]
    _ = civil u := rfl

/-! ## (3) Compact objects -/

namespace Json

/-- a value that holds no other -/
def Scalar : Json → Prop
  | null => True
  | bool _ => True
  | num _ => True
  | str _ => True
  | _ => False

/-- the fields of an object, with the compact separators -/
def compact : List (String × Json) → Text
  | [] => [closeBrace]
  | [(k, v)] => encodeStr k ++ ':' :: (dumpsText .default v ++ [closeBrace])
  | (k, v) :: fields => encodeStr k ++ ':' :: (dumpsText .default v ++ ',' :: compact fields)

theorem written_of_scalar {floats : Floats} {v : Json} (hv : Scalar v) : Written floats v := by
  cases v with
  | null => trivial
  | bool b => trivial
  | num n => trivial
  | str s => trivial
  | float q repr => exact hv.elim
  | arr items => exact hv.elim
  | obj items => exact hv.elim

/-- no reader of numbers goes on after a scalar, so its end is known -/
theorem scalar_cancel {v w : Json} (hv : Scalar v) (hw : Scalar w) {rest rest' : Text} (hstops : Stops rest)
    (hstops' : Stops rest') (h : dumpsText .default v ++ rest = dumpsText .default w ++ rest') : v = w ∧ rest = rest' := by
  let floats : Floats := fun _ => (none, "")
  have hread := @scan_dumps floats v (written_of_scalar hv)
    ((dumpsText .default v).length + (dumpsText .default w).length + 1) rest (by omega) hstops
  rw [h, @scan_dumps floats w (written_of_scalar hw)
    ((dumpsText .default v).length + (dumpsText .default w).length + 1) rest' (by omega) hstops'] at hread
  obtain ⟨hvalue, hrest⟩ := Prod.mk.inj (Option.some.inj hread)
  exact ⟨hvalue.symm, hrest.symm⟩

/-- **Compact objects.** With the same keys, the same text has the same values. -/
theorem compact_injective {fields fields' : List (String × Json)} (hkeys : fields.map (·.1) = fields'.map (·.1))
    (hv : ∀ p ∈ fields, Scalar p.2) (hw : ∀ p ∈ fields', Scalar p.2) (h : compact fields = compact fields') :
    fields = fields' := by
  have hcomma : ∀ t : Text, Stops (',' :: t) := fun t => stops_cons (by rfl) t
  have hbrace : Stops [closeBrace] := stops_cons (by rfl) []
  induction fields generalizing fields' with
  | nil =>
    cases fields' with
    | nil => rfl
    | cons q fields' => cases hkeys
  | cons p fields ih =>
    cases fields' with
    | nil => cases hkeys
    | cons q fields' =>
      obtain ⟨k, v⟩ := p
      obtain ⟨k', w⟩ := q
      simp only [List.map_cons, List.cons.injEq] at hkeys
      obtain ⟨rfl, hkeys⟩ := hkeys
      have hvw : Scalar v ∧ Scalar w := ⟨hv _ List.mem_cons_self, hw _ List.mem_cons_self⟩
      cases fields with
      | nil =>
        cases fields' with
        | nil =>
          simp only [compact, List.append_cancel_left_eq, List.cons.injEq, true_and] at h
          rw [(scalar_cancel hvw.1 hvw.2 hbrace hbrace h).1]
        | cons q fields' => cases hkeys
      | cons p fields =>
        cases fields' with
        | nil => cases hkeys
        | cons q fields' =>
          simp only [compact, List.append_cancel_left_eq, List.cons.injEq, true_and] at h
          obtain ⟨hvalue, hrest⟩ := scalar_cancel hvw.1 hvw.2 (hcomma _) (hcomma _) h
          rw [hvalue, ih hkeys (fun x hx => hv x (List.mem_cons_of_mem _ hx)) (fun x hx => hw x (List.mem_cons_of_mem _ hx))
            (List.cons.inj hrest).2]

end Json

end Chancery.Core
