/-
CSV text: the writer of Python's `csv` module in its default dialect, and the reader.

A field is quoted when it holds a comma, a quote, or a line break, and its quotes are doubled; rows end with CRLF. The
reader is the state machine of `csv.reader` over the lines of a text stream; it sees the end of each line as one more
character. The limit on the size of a field is left out.

`reader_writeRows`: reading what was written gives the rows back, whatever their fields hold. Nothing here knows the
repository.
-/
import Mathlib.Tactic
import Chancery.Core.Py

namespace Chancery.Core.Csv

/-! ## Writing -/

def quotechar : Char := Char.ofNat 34

/-- the characters that make the writer quote a field -/
def special (c : Char) : Bool := c == ',' || c == quotechar || c == '\r' || c == '\n'

def escape (f : Text) : Text := f.flatMap fun c => if c = quotechar then [quotechar, quotechar] else [c]

def writeField (f : Text) : Text := if f.any special then quotechar :: (escape f ++ [quotechar]) else f

def writeFields : List Text → Text
  | [] => []
  | [f] => writeField f
  | f :: rest => writeField f ++ ',' :: writeFields rest

/-- `writerow`; a row of one empty field is quoted -/
def writeRow (row : List Text) : Text :=
  (if row = [[]] then [quotechar, quotechar] else writeFields row) ++ ['\r', '\n']

def writeRows (rows : List (List Text)) : Text := rows.flatMap writeRow

/-! ## Reading -/

inductive Mode
  | startRecord
  | startField
  | inField
  | inQuotedField
  | quoteInQuotedField
  | eatCrnl
deriving DecidableEq, Repr

/-- the field being read and the fields of the row so far -/
structure State where
  mode : Mode
  field : Text
  row : List Text
deriving DecidableEq, Repr

def State.init : State := ⟨.startRecord, [], []⟩

def State.save (s : State) (mode : Mode) : State := ⟨mode, [], s.row ++ [s.field]⟩

def State.add (s : State) (c : Char) (mode : Mode) : State := ⟨mode, s.field ++ [c], s.row⟩

def isNewline (c : Char) : Bool := c == '\n' || c == '\r'

def startField (s : State) (c : Char) : State :=
  if isNewline c then s.save .eatCrnl
  else if c = quotechar then { s with mode := .inQuotedField }
  else if c = ',' then s.save .startField
  else s.add c .inField

/-- one character, or the end of a line -/
def process (s : State) : Option Char → Except PyError State
  | none =>
    match s.mode with
    | .startRecord => .ok s
    | .startField => .ok (s.save .startRecord)
    | .inField => .ok (s.save .startRecord)
    | .inQuotedField => .ok s
    | .quoteInQuotedField => .ok (s.save .startRecord)
    | .eatCrnl => .ok { s with mode := .startRecord }
  | some c =>
    match s.mode with
    | .startRecord => if isNewline c then .ok { s with mode := .eatCrnl } else .ok (startField s c)
    | .startField => .ok (startField s c)
    | .inField =>
      if isNewline c then .ok (s.save .eatCrnl)
      else if c = ',' then .ok (s.save .startField)
      else .ok (s.add c .inField)
    | .inQuotedField => if c = quotechar then .ok { s with mode := .quoteInQuotedField } else .ok (s.add c .inQuotedField)
    | .quoteInQuotedField =>
      if c = quotechar then .ok (s.add c .inQuotedField)
      else if c = ',' then .ok (s.save .startField)
      else if isNewline c then .ok (s.save .eatCrnl)
      else .ok (s.add c .inField)
    | .eatCrnl => if isNewline c then .ok s else .error (.other "Error")

/-- a whole line, with its end -/
def readLine : State → Text → Except PyError State
  | s, [] => process s none
  | s, c :: line => process s (some c) >>= fun s => readLine s line

/-- the rows of the lines; a row may go on over several lines -/
def reader : List Text → State → Except PyError (List (List Text))
  | [], s => if s.field ≠ [] ∨ s.mode = .inQuotedField then .ok [s.row ++ [s.field]] else .ok []
  | line :: rest, s => do
    let s ← readLine s line
    if s.mode = .startRecord then (reader rest .init).map (s.row :: ·) else reader rest s

/-- the lines of a text stream, each with its line feed -/
def splitLines : Text → List Text
  | [] => []
  | c :: t =>
    if c = '\n' then [c] :: splitLines t
    else
      match splitLines t with
      | [] => [[c]]
      | l :: rest => (c :: l) :: rest

/-! ## One character -/

theorem splitLines_ne_nil {t : Text} (h : t ≠ []) : splitLines t ≠ [] := by
  cases t with
  | nil => exact absurd rfl h
  | cons c t =>
    unfold splitLines
    split_ifs
    · exact List.cons_ne_nil _ _
    · split
      · exact List.cons_ne_nil _ _
      · exact List.cons_ne_nil _ _

/-- a line, with its line feed -/
theorem splitLines_line {l : Text} (hl : '\n' ∉ l) (t : Text) :
    splitLines (l ++ '\n' :: t) = (l ++ ['\n']) :: splitLines t := by
  induction l with
  | nil => exact if_pos rfl
  | cons c l ih =>
    have hc : c ≠ '\n' := fun h => hl (h ▸ List.mem_cons_self)
    rw [List.cons_append, splitLines, if_neg hc, ih fun h => hl (List.mem_cons_of_mem _ h)]
    rfl

theorem splitLines_flatMap {α : Type} {f : α → Text} {l : List α} (h : ∀ a ∈ l, '\n' ∉ f a) :
    splitLines (l.flatMap fun a => f a ++ ['\n']) = l.map fun a => f a ++ ['\n'] := by
  induction l with
  | nil => rfl
  | cons a l ih =>
    rw [List.flatMap_cons, List.append_assoc, List.singleton_append, splitLines_line (h a List.mem_cons_self),
      ih fun b hb => h b (List.mem_cons_of_mem _ hb)]
    rfl

/-- a character inside a line -/
theorem reader_char {s s' : State} {c : Char} {t : Text} (hc : c ≠ '\n') (ht : t ≠ []) (h : process s (some c) = .ok s') :
    reader (splitLines (c :: t)) s = reader (splitLines t) s' := by
  obtain ⟨l, rest, hlines⟩ := List.exists_cons_of_ne_nil (splitLines_ne_nil ht)
  have hsplit : splitLines (c :: t) = (c :: l) :: rest := by
    rw [splitLines, if_neg hc, hlines]
  rw [hsplit, hlines, reader, reader, readLine, h]
  rfl

/-- a line feed ends the line -/
theorem reader_lf {s s' s'' : State} {t : Text} (h : process s (some '\n') = .ok s') (h' : process s' none = .ok s'') :
    reader (splitLines ('\n' :: t)) s =
      if s''.mode = .startRecord then (reader (splitLines t) .init).map (s''.row :: ·) else reader (splitLines t) s'' := by
  have hsplit : splitLines ('\n' :: t) = ['\n'] :: splitLines t := by
    rw [splitLines, if_pos rfl]
  have hline : readLine s ['\n'] = .ok s'' := by
    rw [readLine, h]
    exact h'
  rw [hsplit, reader, hline]
  rfl

/-- CRLF after a field ends the row -/
theorem reader_crlf {s : State} {row : List Text} {t : Text} (h : process s (some '\r') = .ok ⟨.eatCrnl, [], row⟩) :
    reader (splitLines ('\r' :: '\n' :: t)) s = (reader (splitLines t) .init).map (row :: ·) := by
  have hlf : process ⟨.eatCrnl, [], row⟩ (some '\n') = .ok ⟨.eatCrnl, [], row⟩ := rfl
  have hend : process ⟨.eatCrnl, [], row⟩ none = .ok ⟨.startRecord, [], row⟩ := rfl
  rw [reader_char (by decide) (List.cons_ne_nil _ _) h, reader_lf hlf hend]
  exact if_pos rfl

/-! ## One field -/

/-- the escaped text between the quotes -/
theorem reader_escape (f : Text) {rest : Text} (hrest : rest ≠ []) (acc : Text) (row : List Text) :
    reader (splitLines (escape f ++ rest)) ⟨.inQuotedField, acc, row⟩ =
      reader (splitLines rest) ⟨.inQuotedField, acc ++ f, row⟩ := by
  induction f generalizing acc with
  | nil => rw [escape, List.flatMap_nil, List.nil_append, List.append_nil]
  | cons c f ih =>
    have htail : escape f ++ rest ≠ [] := List.append_ne_nil_of_right_ne_nil _ hrest
    have hstep := ih (acc ++ [c])
    rw [List.append_assoc, List.singleton_append] at hstep
    by_cases hq : c = quotechar
    · -- a quote is doubled: the second one is the character
      have hescape : escape (c :: f) ++ rest = quotechar :: quotechar :: (escape f ++ rest) := by
        simp [escape, hq]
      have hfirst : process ⟨.inQuotedField, acc, row⟩ (some quotechar) = .ok ⟨.quoteInQuotedField, acc, row⟩ := rfl
      have hsecond : process ⟨.quoteInQuotedField, acc, row⟩ (some quotechar) =
        .ok ⟨.inQuotedField, acc ++ [quotechar], row⟩ := rfl
      rw [hescape, reader_char (by decide) (List.cons_ne_nil _ _) hfirst, reader_char (by decide) htail hsecond, ← hq]
      exact hstep
    · have hescape : escape (c :: f) ++ rest = c :: (escape f ++ rest) := by
        simp [escape, hq]
      have hread : process ⟨.inQuotedField, acc, row⟩ (some c) = .ok ⟨.inQuotedField, acc ++ [c], row⟩ := by
        simp [process, hq, State.add]
      by_cases hlf : c = '\n'
      · have hend : process ⟨.inQuotedField, acc ++ [c], row⟩ none = .ok ⟨.inQuotedField, acc ++ [c], row⟩ := rfl
        rw [hescape]
        rw [hlf] at hread hend hstep ⊢
        rw [reader_lf hread hend]
        exact hstep
      · rw [hescape, reader_char hlf htail hread]
        exact hstep

theorem special_false {c : Char} (h : special c = false) : c ≠ ',' ∧ c ≠ quotechar ∧ isNewline c = false ∧ c ≠ '\n' := by
  simp only [special, Bool.or_eq_false_iff, beq_eq_false_iff_ne] at h
  refine ⟨h.1.1.1, h.1.1.2, ?_, h.2⟩
  simp [isNewline, h.1.2, h.2]

/-- text without special characters -/
theorem reader_plain (f : Text) (hf : f.any special = false) {rest : Text} (hrest : rest ≠ []) (acc : Text)
    (row : List Text) : reader (splitLines (f ++ rest)) ⟨.inField, acc, row⟩ =
      reader (splitLines rest) ⟨.inField, acc ++ f, row⟩ := by
  induction f generalizing acc with
  | nil => rw [List.nil_append, List.append_nil]
  | cons c f ih =>
    rw [List.any_cons, Bool.or_eq_false_iff] at hf
    obtain ⟨hcomma, -, hnewline, hlf⟩ := special_false hf.1
    have htail : f ++ rest ≠ [] := List.append_ne_nil_of_right_ne_nil _ hrest
    have hread : process ⟨.inField, acc, row⟩ (some c) = .ok ⟨.inField, acc ++ [c], row⟩ := by
      simp [process, hcomma, hnewline, State.add]
    have hstep := ih hf.2 (acc ++ [c])
    rw [List.append_assoc, List.singleton_append] at hstep
    rw [List.cons_append, reader_char hlf htail hread]
    exact hstep

/-- the state after a field, before what follows it: a comma or CRLF saves the field -/
structure Ended (s : State) (f : Text) (row : List Text) : Prop where
  comma : process s (some ',') = .ok ⟨.startField, [], row ++ [f]⟩
  crlf : f ≠ [] ∨ s.mode ≠ .startRecord → process s (some '\r') = .ok ⟨.eatCrnl, [], row ++ [f]⟩

/-- **One field.** What the writer made of it brings the reader to its end. -/
theorem reader_writeField (f : Text) (m : Mode) (hm : m = .startRecord ∨ m = .startField) (row : List Text) :
    ∃ s, Ended s f row ∧ (f = [] → s.mode = m) ∧ ∀ rest, rest ≠ [] →
      reader (splitLines (writeField f ++ rest)) ⟨m, [], row⟩ = reader (splitLines rest) s := by
  by_cases hspecial : f.any special = true
  · refine ⟨⟨.quoteInQuotedField, f, row⟩, ⟨rfl, fun _ => rfl⟩, ?_, fun rest hrest => ?_⟩
    · rintro rfl
      cases hspecial
    · have hopen : process ⟨m, [], row⟩ (some quotechar) = .ok ⟨.inQuotedField, [], row⟩ := by
        rcases hm with rfl | rfl <;> rfl
      have hclose : process ⟨.inQuotedField, [] ++ f, row⟩ (some quotechar) = .ok ⟨.quoteInQuotedField, f, row⟩ := rfl
      have hbody : [quotechar] ++ rest ≠ [] := List.cons_ne_nil _ _
      rw [writeField, if_pos hspecial, List.cons_append, List.append_assoc,
        reader_char (by decide) (List.append_ne_nil_of_right_ne_nil _ hbody) hopen, reader_escape f hbody,
        List.singleton_append, reader_char (by decide) hrest hclose]
  · have hplain : f.any special = false := by simpa using hspecial
    cases f with
    | nil =>
      refine ⟨⟨m, [], row⟩, ⟨?_, ?_⟩, fun _ => rfl, fun rest _ => rfl⟩
      · rcases hm with rfl | rfl <;> rfl
      · rintro (h | h)
        · exact absurd rfl h
        · rw [hm.resolve_left h]
          rfl
    | cons c f =>
      refine ⟨⟨.inField, c :: f, row⟩, ⟨rfl, fun _ => rfl⟩, fun h => absurd h (List.cons_ne_nil _ _), fun rest hrest => ?_⟩
      rw [List.any_cons, Bool.or_eq_false_iff] at hplain
      obtain ⟨hcomma, hquote, hnewline, hlf⟩ := special_false hplain.1
      have hread : process ⟨m, [], row⟩ (some c) = .ok ⟨.inField, [c], row⟩ := by
        rcases hm with rfl | rfl
        · simp [process, startField, hcomma, hquote, hnewline, State.add]
        · simp [process, startField, hcomma, hquote, hnewline, State.add]
      rw [writeField, if_neg hspecial, List.cons_append,
        reader_char hlf (List.append_ne_nil_of_right_ne_nil _ hrest) hread, reader_plain f hplain.2 hrest]
      rfl

/-! ## Rows -/

theorem reader_writeFields (fields : List Text) (m : Mode) (hm : m = .startRecord ∨ m = .startField) (row : List Text)
    (hne : fields ≠ []) (hempty : fields ≠ [[]] ∨ m ≠ .startRecord) (rest : Text) :
    reader (splitLines (writeFields fields ++ '\r' :: '\n' :: rest)) ⟨m, [], row⟩ =
      (reader (splitLines rest) .init).map ((row ++ fields) :: ·) := by
  induction fields generalizing m row with
  | nil => exact absurd rfl hne
  | cons f fields ih =>
    obtain ⟨s, hended, hmode, hread⟩ := reader_writeField f m hm row
    cases fields with
    | nil =>
      rw [writeFields, hread _ (List.cons_ne_nil _ _)]
      refine reader_crlf (hended.crlf ?_)
      by_cases hf : f = []
      · right
        rw [hmode hf]
        exact hempty.resolve_left fun h => h (by rw [hf])
      · exact Or.inl hf
    | cons g fields =>
      have hnext : ',' :: (writeFields (g :: fields) ++ '\r' :: '\n' :: rest) ≠ [] := List.cons_ne_nil _ _
      have htail : writeFields (g :: fields) ++ '\r' :: '\n' :: rest ≠ [] :=
        List.append_ne_nil_of_right_ne_nil _ (List.cons_ne_nil _ _)
      have hrest := ih .startField (Or.inr rfl) (row ++ [f]) (List.cons_ne_nil _ _) (Or.inr (by decide))
      rw [List.append_assoc, List.singleton_append] at hrest
      have hfields : writeFields (f :: g :: fields) = writeField f ++ ',' :: writeFields (g :: fields) := rfl
      rw [hfields, List.append_assoc, List.cons_append, hread _ hnext, reader_char (by decide) htail hended.comma]
      exact hrest

theorem reader_writeRow (row : List Text) (rest : Text) :
    reader (splitLines (writeRow row ++ rest)) .init = (reader (splitLines rest) .init).map (row :: ·) := by
  unfold writeRow
  by_cases hone : row = [[]]
  · have hopen : process .init (some quotechar) = .ok ⟨.inQuotedField, [], []⟩ := rfl
    have hclose : process ⟨.inQuotedField, [], []⟩ (some quotechar) = .ok ⟨.quoteInQuotedField, [], []⟩ := rfl
    have hsave : process ⟨.quoteInQuotedField, [], []⟩ (some '\r') = .ok ⟨.eatCrnl, [], [[]]⟩ := rfl
    rw [if_pos hone, hone]
    show reader (splitLines (quotechar :: quotechar :: '\r' :: '\n' :: rest)) .init = _
    rw [reader_char (by decide) (List.cons_ne_nil _ _) hopen, reader_char (by decide) (List.cons_ne_nil _ _) hclose,
      reader_crlf hsave]
  · rw [if_neg hone, List.append_assoc]
    show reader (splitLines (writeFields row ++ '\r' :: '\n' :: rest)) .init = _
    cases row with
    | nil => exact @reader_crlf .init [] rest rfl
    | cons f fields =>
      exact reader_writeFields (f :: fields) .startRecord (Or.inl rfl) [] (List.cons_ne_nil _ _) (Or.inl hone) rest

/-- **Round trip.** Reading what was written gives the rows back. -/
theorem reader_writeRows (rows : List (List Text)) : reader (splitLines (writeRows rows)) .init = .ok rows := by
  induction rows with
  | nil => rfl
  | cons row rows ih =>
    rw [writeRows, List.flatMap_cons, reader_writeRow]
    show (reader (splitLines (writeRows rows)) .init).map (row :: ·) = _
    rw [ih]
    rfl

end Chancery.Core.Csv
