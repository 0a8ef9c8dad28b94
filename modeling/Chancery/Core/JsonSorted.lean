/-
`json.dumps` with `sort_keys=True`.

(1) `dumpsText_sorted`: it writes the value whose objects have been sorted, at every level (`sorted`).
(2) `written_sorted`: the sorted value is one that is written and read without loss.
(3) `newline_not_mem_dumpsText`: the text is one line, and `loads_line`: with its line feed it reads back as that value.
(4) `loads_lines`: an array written with one item on each line reads back.
Nothing here knows the repository.
-/
import Mathlib.Tactic
import Mathlib.Data.List.Sort
import Chancery.Core.JsonLoads

namespace Chancery.Core.Json

/-! ## (1) Sorted objects -/

/-- `sort_keys=True`, with the default separators -/
def Style.sorted : Style := ⟨", ", ": ", true⟩

def sortFields (items : List (String × Json)) : List (String × Json) := items.insertionSort fun a b => a.1 ≤ b.1

mutual

/-- every object with its items in the order of their keys -/
def sorted : Json → Json
  | null => null
  | bool b => bool b
  | num n => num n
  | float q repr => float q repr
  | str s => str s
  | arr items => arr (sortedItems items)
  | obj items => obj (sortFields (sortedFields items))

def sortedItems : List Json → List Json
  | [] => []
  | v :: vs => sorted v :: sortedItems vs

def sortedFields : List (String × Json) → List (String × Json)
  | [] => []
  | (k, v) :: vs => (k, sorted v) :: sortedFields vs

end

theorem keys_sortedFields (items : List (String × Json)) : (sortedFields items).map (·.1) = items.map (·.1) := by
  induction items with
  | nil => rfl
  | cons p items ih => exact congrArg (p.1 :: ·) ih

theorem dumpsFields_eq_map (st : Style) (items : List (String × Json)) :
    dumpsFields st items = items.map fun p => (p.1, dumpsText st p.2) := by
  induction items with
  | nil => rfl
  | cons p items ih => exact congrArg ((p.1, dumpsText st p.2) :: ·) ih

/-- the texts of the items are sorted as the items are -/
theorem sortItems_dumpsFields (st : Style) (items : List (String × Json)) :
    sortItems (dumpsFields st items) = dumpsFields st (sortFields items) := by
  rw [dumpsFields_eq_map, dumpsFields_eq_map]
  exact (List.map_insertionSort (fun a b : String × Json => a.1 ≤ b.1) (fun a b : String × Text => a.1 ≤ b.1)
    (fun p => (p.1, dumpsText st p.2)) items fun _ _ _ _ => Iff.rfl).symm

section

variable (itemSep keySep : String)

mutual

/-- **(1) Sorted keys.** The text is that of the sorted value. -/
theorem dumpsText_sorted : ∀ v : Json, dumpsText ⟨itemSep, keySep, true⟩ v = dumpsText ⟨itemSep, keySep, false⟩ (sorted v)
  | null => rfl
  | bool true => rfl
  | bool false => rfl
  | num _ => rfl
  | float _ _ => rfl
  | str _ => rfl
  | arr items => by
    rw [sorted, dumpsText, dumpsText, dumpsItems_sorted items]
  | obj items => by
    rw [sorted, dumpsText, dumpsText, dumpsFields_sorted items, ← sortItems_dumpsFields]
    rfl

theorem dumpsItems_sorted : ∀ vs : List Json,
    dumpsItems ⟨itemSep, keySep, true⟩ vs = dumpsItems ⟨itemSep, keySep, false⟩ (sortedItems vs)
  | [] => rfl
  | v :: vs => by rw [sortedItems, dumpsItems, dumpsItems, dumpsText_sorted v, dumpsItems_sorted vs]

theorem dumpsFields_sorted : ∀ ps : List (String × Json),
    dumpsFields ⟨itemSep, keySep, true⟩ ps = dumpsFields ⟨itemSep, keySep, false⟩ (sortedFields ps)
  | [] => rfl
  | (k, v) :: ps => by rw [sortedFields, dumpsFields, dumpsFields, dumpsText_sorted v, dumpsFields_sorted ps]

end

end

/-! ## (2) Sorted values -/

theorem writtenFields_iff {floats : Floats} {items : List (String × Json)} :
    WrittenFields floats items ↔ ∀ p ∈ items, Written floats p.2 := by
  induction items with
  | nil => exact ⟨fun _ _ hp => absurd hp List.not_mem_nil, fun _ => trivial⟩
  | cons p items ih =>
    rw [List.forall_mem_cons, ← ih]
    exact Iff.rfl

mutual

theorem written_sorted {floats : Floats} : ∀ v, Written floats v → Written floats (sorted v)
  | null, _ => trivial
  | bool _, _ => trivial
  | num _, _ => trivial
  | float _ _, hv => hv
  | str _, _ => trivial
  | arr items, hv => writtenItems_sorted items hv
  | obj items, hv => by
    have hperm : (sortFields (sortedFields items)).Perm (sortedFields items) := List.perm_insertionSort _ _
    refine ⟨?_, ?_⟩
    · rw [(hperm.map (·.1)).nodup_iff, keys_sortedFields]
      exact hv.1
    · have hfields := writtenFields_iff.1 (writtenFields_sorted items hv.2)
      exact writtenFields_iff.2 fun p hp => hfields p (hperm.mem_iff.1 hp)

theorem writtenItems_sorted {floats : Floats} : ∀ vs, WrittenItems floats vs → WrittenItems floats (sortedItems vs)
  | [], _ => trivial
  | v :: vs, hv => ⟨written_sorted v hv.1, writtenItems_sorted vs hv.2⟩

theorem writtenFields_sorted {floats : Floats} : ∀ ps, WrittenFields floats ps → WrittenFields floats (sortedFields ps)
  | [], _ => trivial
  | (_, v) :: ps, hv => ⟨written_sorted v hv.1, writtenFields_sorted ps hv.2⟩

end

/-! ## (3) One line -/

theorem newline_ne_hexDigit (n : ℕ) (h : n < 16) : '\n' ≠ hexDigit n := by
  revert n
  decide

theorem newline_not_mem_unicodeEscape (n : ℕ) : '\n' ∉ unicodeEscape n := by
  have hdigit : ∀ m, '\n' ≠ hexDigit (m % 16) := fun m => newline_ne_hexDigit _ (Nat.mod_lt _ (by decide))
  simp [unicodeEscape, hdigit]

theorem newline_not_mem_escapeChar (c : Char) : '\n' ∉ escapeChar c := by
  have hcode : ∀ {n : ℕ}, c.toNat = n → n ≠ 10 → '\n' ≠ c := fun h hn heq => hn (h ▸ heq ▸ rfl)
  unfold escapeChar
  dsimp only
  split_ifs with h34 h92 h10 h13 h9 h12 h8 hplain
  · simp [hcode h34]
  · simp [hcode h92]
  · decide
  · decide
  · decide
  · decide
  · decide
  · simp [hcode rfl h10]
  · exact newline_not_mem_unicodeEscape _
  · exact List.not_mem_append (newline_not_mem_unicodeEscape _) (newline_not_mem_unicodeEscape _)

theorem newline_not_mem_encodeStr (s : String) : '\n' ∉ encodeStr s := by
  have hbody : '\n' ∉ s.toList.flatMap escapeChar := by
    rw [List.mem_flatMap]
    rintro ⟨c, -, hc⟩
    exact newline_not_mem_escapeChar c hc
  have hquote : '\n' ≠ quote := by decide
  simp [encodeStr, hbody, hquote]

theorem newline_not_mem_joinWith {sep : Text} (hsep : '\n' ∉ sep) {parts : List Text} (h : ∀ t ∈ parts, '\n' ∉ t) :
    '\n' ∉ joinWith sep parts := by
  induction parts with
  | nil => exact List.not_mem_nil
  | cons t parts ih =>
    have hrest := ih fun t ht => h t (List.mem_cons_of_mem _ ht)
    have ht := h t List.mem_cons_self
    cases parts with
    | nil => simpa [joinWith] using ht
    | cons u parts =>
      have hjoin : joinWith sep (t :: u :: parts) = t ++ (sep ++ joinWith sep (u :: parts)) := by
        simp [joinWith]
      rw [hjoin]
      exact List.not_mem_append ht (List.not_mem_append hsep hrest)

theorem newline_not_mem_numChars {t : Text} (h : ∀ c ∈ t, numChar c = true) : '\n' ∉ t :=
  fun hmem => absurd (h _ hmem) (by decide)

/-- separators without a line feed -/
def Style.OneLine (st : Style) : Prop := '\n' ∉ st.itemSep.toList ∧ '\n' ∉ st.keySep.toList

mutual

/-- **(3) One line.** Separators without a line feed give a text without one. -/
theorem newline_not_mem_dumpsText {floats : Floats} {st : Style} (hst : st.OneLine) :
    ∀ v, Written floats v → '\n' ∉ dumpsText st v
  | null, _ => by
    have hword : '\n' ∉ "null".toList := by decide
    exact hword
  | bool true, _ => by
    have hword : '\n' ∉ "true".toList := by decide
    exact hword
  | bool false, _ => by
    have hword : '\n' ∉ "false".toList := by decide
    exact hword
  | num n, _ => newline_not_mem_numChars (numChar_toString n)
  | float q repr, hv => by
    have hwords : ∀ w ∈ ["NaN", "Infinity", "-Infinity"], '\n' ∉ w.toList := by decide
    rcases hv with ⟨-, ht, -⟩ | ⟨-, hrepr⟩
    · exact newline_not_mem_numChars ht
    · exact hwords repr (by simpa using hrepr)
  | str s, _ => newline_not_mem_encodeStr s
  | arr items, hv => by
    have hbody := newline_not_mem_joinWith hst.1 (newline_not_mem_dumpsItems hst items hv)
    simp [dumpsText, hbody]
  | obj items, hv => by
    have hitems := newline_not_mem_dumpsFields hst items hv.2
    have hordered : ∀ p ∈ (if st.sortKeys then sortItems (dumpsFields st items) else dumpsFields st items), '\n' ∉ p.2 := by
      intro p hp
      split_ifs at hp
      · exact hitems p ((List.perm_insertionSort _ _).mem_iff.1 hp)
      · exact hitems p hp
    have hparts : ∀ t ∈ (if st.sortKeys then sortItems (dumpsFields st items) else dumpsFields st items).map
        (fun p => encodeStr p.1 ++ st.keySep.toList ++ p.2), '\n' ∉ t := by
      rw [List.forall_mem_map]
      intro p hp
      exact List.not_mem_append (List.not_mem_append (newline_not_mem_encodeStr p.1) hst.2) (hordered p hp)
    have hopen : '\n' ≠ Char.ofNat 123 := by decide
    have hclose : '\n' ∉ [Char.ofNat 125] := by decide
    exact List.not_mem_cons_of_ne_of_not_mem hopen (List.not_mem_append (newline_not_mem_joinWith hst.1 hparts) hclose)

theorem newline_not_mem_dumpsItems {floats : Floats} {st : Style} (hst : st.OneLine) :
    ∀ vs, WrittenItems floats vs → ∀ t ∈ dumpsItems st vs, '\n' ∉ t
  | [], _ => fun _ ht => absurd ht List.not_mem_nil
  | v :: vs, hv => by
    rw [dumpsItems, List.forall_mem_cons]
    exact ⟨newline_not_mem_dumpsText hst v hv.1, newline_not_mem_dumpsItems hst vs hv.2⟩

theorem newline_not_mem_dumpsFields {floats : Floats} {st : Style} (hst : st.OneLine) :
    ∀ ps, WrittenFields floats ps → ∀ p ∈ dumpsFields st ps, '\n' ∉ p.2
  | [], _ => fun _ hp => absurd hp List.not_mem_nil
  | (k, v) :: ps, hv => by
    rw [dumpsFields, List.forall_mem_cons]
    exact ⟨newline_not_mem_dumpsText hst v hv.1, newline_not_mem_dumpsFields hst ps hv.2⟩

end

/-- a line reads back with its line feed -/
theorem loads_line {floats : Floats} {v : Json} (hv : Written floats v) :
    loads floats (String.ofList (dumpsText .sorted v ++ ['\n'])) = .ok (sorted v) := by
  have htext : dumpsText .sorted v = dumpsText .default (sorted v) := dumpsText_sorted ", " ": " v
  have hw := written_sorted v hv
  obtain ⟨c, t, hhead, hblank, -⟩ := dumpsText_head hw
  have hscan := scan_dumps (sorted v) hw ((dumpsText .default (sorted v) ++ ['\n']).length + 1) ['\n'] (by
    rw [List.length_append]
    omega) (stops_cons (by decide) [])
  have hskip : skip (dumpsText .default (sorted v) ++ ['\n']) = dumpsText .default (sorted v) ++ ['\n'] := by
    rw [hhead]
    exact skip_cons hblank (t ++ ['\n'])
  have hend : skip ['\n'] = [] := rfl
  unfold loads
  simp only [String.toList_ofList, htext, hskip, hscan, hend, if_true]

/-! ## (4) Arrays over several lines -/

theorem skip_newline {floats : Floats} {v : Json} (hv : Written floats v) (rest : Text) :
    skip ('\n' :: (dumpsText .default v ++ rest)) = dumpsText .default v ++ rest := by
  obtain ⟨c, t, heq, hc, -⟩ := dumpsText_head hv
  rw [heq]
  exact skip_cons hc (t ++ rest)

/-- the items of an array, one on each line -/
theorem scanItems_lines {floats : Floats} (vs : List Json) (hvs : ∀ v ∈ vs, Written floats v) (hne : vs ≠ []) (n : ℕ)
    (rest : Text) (hn : (joinWith [',', '\n'] (vs.map (dumpsText .default))).length + 1 < n) :
    scanItems floats n (joinWith [',', '\n'] (vs.map (dumpsText .default)) ++ ']' :: rest) = some (vs, rest) := by
  induction vs generalizing n with
  | nil => exact absurd rfl hne
  | cons v vs ih =>
    obtain ⟨n, rfl⟩ := Nat.exists_eq_succ_of_ne_zero (Nat.ne_of_gt (Nat.lt_of_le_of_lt (Nat.zero_le _) hn))
    have hv := hvs v List.mem_cons_self
    cases vs with
    | nil =>
      rw [List.map_singleton, joinWith_singleton] at hn ⊢
      have hscan := scan_dumps v hv n (']' :: rest) (by omega) (stops_cons (by decide) rest)
      rw [scanItems, hscan]
      rfl
    | cons w vs =>
      have hw := hvs w (List.mem_cons_of_mem _ List.mem_cons_self)
      rw [List.map_cons, List.map_cons, joinWith_cons_cons, List.length_append, List.length_append] at hn
      change _ + (2 + _) + 1 < _ at hn
      have hscan := scan_dumps v hv n
        (',' :: '\n' :: (joinWith [',', '\n'] ((w :: vs).map (dumpsText .default)) ++ ']' :: rest)) (by omega)
        (stops_cons (by decide) _)
      have hitems := ih (fun u hu => hvs u (List.mem_cons_of_mem _ hu)) (List.cons_ne_nil w vs) n (by
        rw [List.map_cons]
        omega)
      have hskip : skip ('\n' :: (joinWith [',', '\n'] ((w :: vs).map (dumpsText .default)) ++ ']' :: rest)) =
          joinWith [',', '\n'] ((w :: vs).map (dumpsText .default)) ++ ']' :: rest := by
        cases vs with
        | nil =>
          rw [List.map_singleton, joinWith_singleton]
          exact skip_newline hw _
        | cons u vs =>
          rw [List.map_cons, List.map_cons, joinWith_cons_cons, List.append_assoc]
          exact skip_newline hw _
      have hall : joinWith [',', '\n'] ((v :: w :: vs).map (dumpsText .default)) ++ ']' :: rest =
          dumpsText .default v ++ ',' :: '\n' :: (joinWith [',', '\n'] ((w :: vs).map (dumpsText .default)) ++ ']'
            :: rest) := by
        rw [List.map_cons, List.map_cons, joinWith_cons_cons, List.append_assoc]
        rfl
      rw [hall, scanItems, hscan]
      show (scanItems floats n (skip ('\n' :: _))).map _ = _
      rw [hskip, hitems]
      rfl

/-- an array with one item on each line reads back -/
theorem loads_lines {floats : Floats} {vs : List Json} (hvs : ∀ v ∈ vs, Written floats v) :
    loads floats (String.ofList ('[' :: (joinWith [',', '\n'] (vs.map (dumpsText .default)) ++ [']', '\n']))) =
      .ok (arr vs) := by
  have hblank : skip ['\n'] = [] := rfl
  unfold loads
  rw [String.toList_ofList]
  have hopen : ∀ t : Text, skip ('[' :: t) = '[' :: t := fun t => skip_cons (by decide) t
  rw [hopen]
  cases vs with
  | nil => rfl
  | cons v vs =>
    have hitems := scanItems_lines (v :: vs) hvs (List.cons_ne_nil v vs)
      ('[' :: (joinWith [',', '\n'] ((v :: vs).map (dumpsText .default)) ++ [']', '\n'])).length ['\n'] (by
        rw [List.length_cons, List.length_append]
        show _ < _ + 2 + 1
        omega)
    obtain ⟨c, t, hhead, hc, hbracket, -⟩ := dumpsText_head (hvs v List.mem_cons_self)
    have htext : ∃ t, joinWith [',', '\n'] ((v :: vs).map (dumpsText .default)) ++ [']', '\n'] = c :: t := by
      cases vs with
      | nil => exact ⟨t ++ [']', '\n'], by rw [List.map_singleton, joinWith_singleton, hhead]; rfl⟩
      | cons w vs =>
        rw [List.map_cons, List.map_cons, joinWith_cons_cons, hhead]
        exact ⟨_, rfl⟩
    obtain ⟨t, htext⟩ := htext
    have hne : ¬ some c = some ']' := fun h => hbracket (Option.some.inj h)
    rw [scan, if_neg (by decide), if_pos rfl]
    rw [htext] at hitems ⊢
    rw [skip_cons hc, List.head?_cons, if_neg hne, hitems]
    exact if_pos hblank

end Chancery.Core.Json
