/-
The patterns of SQL's LIKE.

`pieces` reads a pattern: characters, any one character, any number of characters, and with an escape character the one
after it for itself. `likes` matches a text against the pieces, characters compared by `same`.

(1) `likes_contains_iff`, `likes_startsWith_iff`: a row of characters between two `many` is searched for, and one before a
`many` is what the text starts with.
(2) `pieces_escaped`: a text in which the special characters are escaped is a row of characters.
(3) `likes_fill`, `not_contains_fill`: a text with a special character, taken as a pattern, matches a text it is not in.

Nothing here knows the repository.
-/
import Mathlib.Tactic

namespace Chancery.Core.Like

variable {α : Type*}

/-- a piece of a pattern: a character, any character, any number of any characters -/
inductive Piece (α : Type*)
  | char (c : α)
  | one
  | many
deriving DecidableEq

/-- the special characters of patterns -/
structure Specials (α : Type*) where
  many : α
  one : α
  many_ne_one : many ≠ one

section Pieces

variable [DecidableEq α] (S : Specials α) (escape : Option α)

/-- the pieces of a pattern, read after an escape character or not; one at the end is an error -/
def piecesFrom : Bool → List α → Option (List (Piece α))
  | escaped, [] => if escaped then none else some []
  | escaped, c :: rest =>
    if escaped then (piecesFrom false rest).map (.char c :: ·)
    else if escape = some c then piecesFrom true rest
    else if c = S.many then (piecesFrom false rest).map (.many :: ·)
    else if c = S.one then (piecesFrom false rest).map (.one :: ·)
    else (piecesFrom false rest).map (.char c :: ·)

/-- the pieces of a pattern -/
def pieces (pattern : List α) : Option (List (Piece α)) := piecesFrom S escape false pattern

/-- what a character stands for when nothing is escaped -/
def pieceOf (c : α) : Piece α := if c = S.many then .many else if c = S.one then .one else .char c

/-- no character of the text is special -/
def Literal (text : List α) : Prop := ∀ c ∈ text, c ≠ S.many ∧ c ≠ S.one

instance (text : List α) : Decidable (Literal S text) := inferInstanceAs (Decidable (∀ c ∈ text, c ≠ S.many ∧ c ≠ S.one))

/-- a text that the pattern `text` matches: `other` for any character, nothing for any number -/
def fill (other : α) (text : List α) : List α :=
  text.flatMap fun c => if c = S.many then [] else if c = S.one then [other] else [c]

end Pieces

/-- does the text match the pieces -/
def likes (same : α → α → Bool) : List (Piece α) → List α → Bool
  | [], t => t.isEmpty
  | .char c :: ps, t =>
    match t with
    | [] => false
    | x :: t => same c x && likes same ps t
  | .one :: ps, t =>
    match t with
    | [] => false
    | _ :: t => likes same ps t
  | .many :: ps, t => t.tails.any (likes same ps)

/-- the same row of characters -/
def SameText (same : α → α → Bool) : List α → List α → Prop := List.Forall₂ fun c x => same c x = true

/-- **Contains.** The text is somewhere in the value. -/
def Contains (same : α → α → Bool) (text value : List α) : Prop :=
  ∃ pre mid post, value = pre ++ mid ++ post ∧ SameText same text mid

/-- **Starts with.** The value begins with the text. -/
def StartsWith (same : α → α → Bool) (text value : List α) : Prop :=
  ∃ mid post, value = mid ++ post ∧ SameText same text mid

/-! ## (1) Matching -/

section Matching

variable {same : α → α → Bool} {ps : List (Piece α)} {cs t : List α}

theorem likes_many_iff : likes same (.many :: ps) t = true ↔ ∃ pre post, t = pre ++ post ∧ likes same ps post = true := by
  rw [likes, List.any_eq_true]
  constructor
  · rintro ⟨post, hpost, h⟩
    obtain ⟨pre, rfl⟩ := (List.mem_tails _ _).1 hpost
    exact ⟨pre, post, rfl, h⟩
  · rintro ⟨pre, post, rfl, h⟩
    exact ⟨post, (List.mem_tails _ _).2 ⟨pre, rfl⟩, h⟩

theorem likes_chars_append_iff : likes same (cs.map .char ++ ps) t = true ↔
    ∃ mid post, t = mid ++ post ∧ SameText same cs mid ∧ likes same ps post = true := by
  induction cs generalizing t with
  | nil =>
    constructor
    · intro h
      exact ⟨[], t, rfl, .nil, h⟩
    · rintro ⟨mid, post, rfl, hmid, h⟩
      cases hmid
      exact h
  | cons c cs ih =>
    rw [List.map_cons, List.cons_append]
    cases t with
    | nil =>
      refine iff_of_false (fun h => nomatch h) ?_
      rintro ⟨mid, post, hnil, hmid, _⟩
      cases hmid
      cases hnil
    | cons x t =>
      rw [likes, Bool.and_eq_true, ih]
      constructor
      · rintro ⟨hc, mid, post, rfl, hmid, h⟩
        exact ⟨x :: mid, post, rfl, .cons hc hmid, h⟩
      · rintro ⟨mid, post, heq, hmid, h⟩
        cases hmid with
        | cons hc hmid =>
          cases heq
          exact ⟨hc, _, post, rfl, hmid, h⟩

theorem likes_all : likes same [.many] t = true := by
  rw [likes_many_iff]
  exact ⟨t, [], (List.append_nil t).symm, rfl⟩

theorem likes_startsWith_iff : likes same (cs.map .char ++ [.many]) t = true ↔ StartsWith same cs t := by
  rw [likes_chars_append_iff]
  constructor
  · rintro ⟨mid, post, ht, hmid, _⟩
    exact ⟨mid, post, ht, hmid⟩
  · rintro ⟨mid, post, ht, hmid⟩
    exact ⟨mid, post, ht, hmid, likes_all⟩

theorem likes_contains_iff : likes same (.many :: (cs.map .char ++ [.many])) t = true ↔ Contains same cs t := by
  rw [likes_many_iff]
  constructor
  · rintro ⟨pre, rest, rfl, h⟩
    obtain ⟨mid, post, rfl, hmid⟩ := likes_startsWith_iff.1 h
    exact ⟨pre, mid, post, (List.append_assoc pre mid post).symm, hmid⟩
  · rintro ⟨pre, mid, post, rfl, hmid⟩
    exact ⟨pre, mid ++ post, List.append_assoc pre mid post, likes_startsWith_iff.2 ⟨mid, post, rfl, hmid⟩⟩

theorem StartsWith.contains (h : StartsWith same cs t) : Contains same cs t := by
  obtain ⟨mid, post, ht, hmid⟩ := h
  exact ⟨[], mid, post, ht, hmid⟩

end Matching

/-! ## (2) Pieces -/

section Reading

variable [DecidableEq α] {S : Specials α} {same : α → α → Bool} {text rest : List α} {other : α}

/-- without an escape character, a pattern is read character by character -/
theorem pieces_none : pieces S none text = some (text.map (pieceOf S)) := by
  induction text with
  | nil => rfl
  | cons c text ih =>
    unfold pieces at ih ⊢
    rw [piecesFrom, if_neg Bool.false_ne_true, if_neg (fun h => nomatch h), ih, List.map_cons, pieceOf]
    split_ifs <;> rfl

theorem map_pieceOf (h : Literal S text) : text.map (pieceOf S) = text.map .char :=
  List.map_congr_left fun c hc => by rw [pieceOf, if_neg (h c hc).1, if_neg (h c hc).2]

/-- an escaped text is a row of characters -/
theorem pieces_escaped {e : α} {f : α → List α} (hf : ∀ c, f c = [e, c] ∨ f c = [c] ∧ c ≠ e ∧ c ≠ S.many ∧ c ≠ S.one) :
    pieces S (some e) (text.flatMap f ++ rest) = (pieces S (some e) rest).map (text.map .char ++ ·) := by
  induction text with
  | nil =>
    rw [List.flatMap_nil, List.nil_append, List.map_nil]
    cases pieces S (some e) rest <;> rfl
  | cons c text ih =>
    rw [List.flatMap_cons, List.append_assoc]
    unfold pieces at ih ⊢
    rcases hf c with hc | ⟨hc, he, hmany, hone⟩
    · rw [hc]
      show (if some e = some e then (piecesFrom S (some e) false (text.flatMap f ++ rest)).map (.char c :: ·) else _) = _
      rw [if_pos rfl, ih, Option.map_map]
      rfl
    · rw [hc, List.singleton_append, piecesFrom, if_neg Bool.false_ne_true, if_neg fun h => he (Option.some.inj h).symm,
        if_neg hmany, if_neg hone, ih, Option.map_map]
      rfl

/-! ## (3) Special characters -/

theorem length_fill_le : (fill S other text).length ≤ text.length := by
  induction text with
  | nil => exact le_rfl
  | cons c text ih =>
    rw [fill, List.flatMap_cons, List.length_append, List.length_cons]
    change _ + (fill S other text).length ≤ _
    split_ifs <;> simp <;> omega

/-- the pattern matches what it is filled to -/
theorem likes_fill (hsame : ∀ c, same c c = true) {ps : List (Piece α)} {u : List α} (h : likes same ps u = true) :
    likes same (text.map (pieceOf S) ++ ps) (fill S other text ++ u) = true := by
  induction text with
  | nil => exact h
  | cons c text ih =>
    rw [List.map_cons, List.cons_append, pieceOf, fill, List.flatMap_cons]
    change likes same _ (_ ++ fill S other text ++ u) = true
    split_ifs
    · exact likes_many_iff.2 ⟨[], _, rfl, ih⟩
    · exact ih
    · show (same c c && likes same (text.map (pieceOf S) ++ ps) (fill S other text ++ u)) = true
      rw [hsame, ih]
      rfl

theorem literal_of_sameText_fill (hother : same S.one other = false) (h : SameText same text (fill S other text)) :
    Literal S text := by
  induction text with
  | nil => exact fun c hc => absurd hc List.not_mem_nil
  | cons c text ih =>
    have hfill : fill S other (c :: text) = (if c = S.many then [] else if c = S.one then [other] else [c]) ++
      fill S other text :=
      List.flatMap_cons
    rw [hfill] at h
    by_cases hmany : c = S.many
    · rw [if_pos hmany, List.nil_append] at h
      have hlength := h.length_eq
      have hle := @length_fill_le α _ S text other
      rw [List.length_cons] at hlength
      omega
    · rw [if_neg hmany] at h
      by_cases hone : c = S.one
      · rw [if_pos hone] at h
        cases h with
        | cons hc _ =>
          rw [hone, hother] at hc
          cases hc
      · rw [if_neg hone] at h
        cases h with
        | cons _ h => exact List.forall_mem_cons.2 ⟨⟨hmany, hone⟩, ih h⟩

/-- a text with special characters is not in what it is filled to -/
theorem not_contains_fill (hother : same S.one other = false) (h : Contains same text (fill S other text)) :
    Literal S text := by
  obtain ⟨pre, mid, post, hfill, hmid⟩ := h
  have hlength := congrArg List.length hfill
  have hle := @length_fill_le α _ S text other
  have hmidLength := hmid.length_eq
  simp only [List.length_append] at hlength
  have hpre : pre = [] := List.length_eq_zero_iff.1 (by omega)
  have hpost : post = [] := List.length_eq_zero_iff.1 (by omega)
  rw [hpre, hpost, List.nil_append, List.append_nil] at hfill
  rw [← hfill] at hmid
  exact literal_of_sameText_fill hother hmid

end Reading

end Chancery.Core.Like
