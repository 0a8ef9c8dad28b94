/-
The round trip of the profiles: `export_all`, then `import_profiles`.

An import writes the items of its document one after another, each over the row with its key. Rows that are written are
described by `patch`, which applies what a document has for a key; a document that finds all its keys in the table
patches every row, if it is accepted (`upserts_iff`).
(1) The export of a reachable table, imported over it, patches each row with its own columns (`reimport`); into an empty
table it writes a copy of each row, in the order of the export (`import_empty`).
(2) A document that was imported is imported again without a change, if it is accepted; only names can stand in its way
(`upserts_again`).
`profiles_round_trip` states the three and when they hold: no description was cut after a space, and the names of the
document settle.
-/
import Mathlib.Tactic
import Chancery.Services.ProfileCatalogue
import Chancery.Scenarios.IssuedUsage

namespace Chancery.Profiles

open Chancery.Core

/-- what a document has for a key -/
abbrev Entry := String × Reading

section RoundTrip

variable {lib : ProfileLib} {t t' s u : ProfileTable} {row : Profile} {l pre : List Entry} {k : String}

/-! ## Patches -/

/-- a row after the entries with its key -/
def patch (l : List Entry) (row : Profile) :
    Profile := l.foldl (fun row e => if e.1 = row.key then e.2.write row else row) row

@[simp] theorem patch_nil : patch [] row = row := rfl

theorem patch_cons (e : Entry) : patch (e :: l) row = patch l (if e.1 = row.key then e.2.write row else row) := rfl

theorem patch_append (l m : List Entry) (row : Profile) : patch (l ++ m) row = patch m (patch l row) := List.foldl_append

theorem patch_keeps : (patch l row).id = row.id ∧ (patch l row).key = row.key := by
  induction l generalizing row with
  | nil => exact ⟨rfl, rfl⟩
  | cons e l ih =>
    obtain ⟨hid, hkey⟩ := @ih (if e.1 = row.key then e.2.write row else row)
    rw [patch_cons, hid, hkey]
    split_ifs <;> exact ⟨rfl, rfl⟩

theorem patch_id : (patch l row).id = row.id := patch_keeps.1

theorem patch_key : (patch l row).key = row.key := patch_keeps.2

/-- entries with other keys -/
theorem patch_of_not_mem (h : row.key ∉ l.map (·.1)) : patch l row = row := by
  induction l with
  | nil => rfl
  | cons e l ih =>
    rw [List.map_cons, List.mem_cons, not_or] at h
    rw [patch_cons, if_neg (Ne.symm h.1)]
    exact ih h.2

/-- columns that are written over others -/
def Reading.over (v w : Reading) : Reading := { v with enabled := v.enabled.or w.enabled }

theorem write_write (v w : Reading) (row : Profile) : v.write (w.write row) = (v.over w).write row := by
  have hcustom : (w.write row).isCustom = row.isCustom := rfl
  unfold Reading.write Reading.over at *
  cases hc : row.isCustom <;> cases he : v.enabled <;> simp_all

theorem write_self (v : Reading) (row : Profile) : v.write (v.write row) = v.write row := by
  rw [write_write]
  unfold Reading.over
  rw [Option.or_self]

/-- the entries of a key are one entry -/
theorem patch_eq (l : List Entry) (k : String) :
    (∀ row : Profile, row.key = k → patch l row = row) ∨ ∃ v : Reading, ∀ row : Profile, row.key = k → patch l row =
      v.write row := by
  induction l with
  | nil => exact .inl fun _ _ => rfl
  | cons e l ih =>
    by_cases hk : e.1 = k
    · refine .inr ?_
      rcases ih with hl | ⟨v, hl⟩
      · refine ⟨e.2, fun row hrow => ?_⟩
        rw [patch_cons, if_pos (hk.trans hrow.symm)]
        exact hl _ hrow
      · refine ⟨v.over e.2, fun row hrow => ?_⟩
        have hkey : (e.2.write row).key = k := hrow
        rw [patch_cons, if_pos (hk.trans hrow.symm), hl _ hkey, write_write]
    · have hskip : ∀ row : Profile, row.key = k → patch (e :: l) row = patch l row := by
        rintro row rfl
        rw [patch_cons, if_neg hk]
      rcases ih with hl | ⟨v, hl⟩
      · exact .inl fun row hrow => (hskip row hrow).trans (hl row hrow)
      · exact .inr ⟨v, fun row hrow => (hskip row hrow).trans (hl row hrow)⟩

/-- **A patch is applied once.** -/
theorem patch_patch (l : List Entry) (row : Profile) : patch l (patch l row) = patch l row := by
  rcases patch_eq l row.key with hl | ⟨v, hl⟩
  · rw [hl _ patch_key, hl _ rfl]
  · rw [hl _ patch_key, hl _ rfl, write_self]

/-- the last name that a document has for a key -/
def lastName : List Entry → String → Option String
  | [], _ => none
  | e :: l, k => (lastName l k).or (if e.1 = k then some e.2.name else none)

theorem lastName_isSome : (lastName l k).isSome = true ↔ k ∈ l.map (·.1) := by
  induction l with
  | nil => simp [lastName]
  | cons e l ih =>
    rw [lastName, Option.isSome_or, Bool.or_eq_true, ih, List.map_cons, List.mem_cons, or_comm]
    refine or_congr ?_ Iff.rfl
    by_cases he : e.1 = k
    · simp [he]
    · simp [he, Ne.symm he]

theorem name_patch : (patch l row).name = (lastName l row.key).getD row.name := by
  induction l generalizing row with
  | nil => rfl
  | cons e l ih =>
    rw [patch_cons, ih, lastName]
    by_cases he : e.1 = row.key
    · rw [if_pos he, if_pos he]
      cases h : lastName l row.key with
      | none =>
        have hkey : (e.2.write row).key = row.key := rfl
        rw [hkey, h]
        rfl
      | some n =>
        have hkey : (e.2.write row).key = row.key := rfl
        rw [hkey, h]
        rfl
    · rw [if_neg he, if_neg he, Option.or_none]

/-! ## Documents -/

/-- the entries, written one after another -/
def Upserts : List Entry → ProfileTable → ProfileTable → Prop
  | [], t, t' => t' = t
  | e :: l, t, t' => ∃ u, Upsert t e.1 e.2 u ∧ Upserts l u t'

theorem upserts_append {m : List Entry} : Upserts (l ++ m) t t' ↔ ∃ u, Upserts l t u ∧ Upserts m u t' := by
  induction l generalizing t with
  | nil => simp [Upserts]
  | cons e l ih =>
    simp only [List.cons_append, Upserts, ih]
    constructor
    · rintro ⟨u, hu, w, hw, hm⟩
      exact ⟨w, ⟨u, hu, hw⟩, hm⟩
    · rintro ⟨w, ⟨u, hu, hw⟩, hm⟩
      exact ⟨u, hu, w, hw, hm⟩

theorem Upserts.distinct (h : Upserts l t t') (hd : Distinct t) : Distinct t' := by
  induction l generalizing t with
  | nil =>
    rw [h]
    exact hd
  | cons e l ih =>
    obtain ⟨u, hu, h⟩ := h
    exact ih h (hu.distinct hd)

/-- rows with other keys stay -/
theorem Upserts.mem_iff (h : Upserts l t t') (hd : Distinct t) (hrow : row.key ∉ l.map (·.1)) : row ∈ t' ↔ row ∈ t := by
  induction l generalizing t with
  | nil => rw [h]
  | cons e l ih =>
    obtain ⟨u, hu, h⟩ := h
    rw [List.map_cons, List.mem_cons, not_or] at hrow
    rw [ih h (hu.distinct hd) hrow.2]
    obtain ⟨old, hold, -, hmem⟩ := hu.mem hd
    rw [hmem]
    refine ⟨?_, fun hp => .inr ⟨hp, hrow.1⟩⟩
    rintro (rfl | ⟨hp, -⟩)
    · exact absurd hold hrow.1
    · exact hp

/-- every key that was there or is written is there -/
theorem Upserts.key_mem (h : Upserts l t t') (hd : Distinct t) (hk : k ∈ l.map (·.1) ∨ ∃ r ∈ t, r.key = k) :
    ∃ r ∈ t', r.key = k := by
  induction l generalizing t with
  | nil =>
    rw [h]
    exact hk.resolve_left List.not_mem_nil
  | cons e l ih =>
    obtain ⟨u, hu, h⟩ := h
    refine ih h (hu.distinct hd) ?_
    rw [List.map_cons, List.mem_cons, or_assoc] at hk
    rcases hk with rfl | hk | hk
    · exact .inr (hu.key_mem hd (.inl rfl))
    · exact .inl hk
    · exact .inr (hu.key_mem hd (.inr hk))

/-- every row is patched -/
theorem Upserts.patched (h : Upserts l t t') (hd : Distinct t) (hrow : row ∈ t') :
    ∃ x, (x ∈ t ∨ ∀ r ∈ t, r.key ≠ x.key) ∧ row = patch l x := by
  induction l generalizing t with
  | nil =>
    rw [h] at hrow
    exact ⟨row, .inl hrow, rfl⟩
  | cons e l ih =>
    obtain ⟨u, hu, h⟩ := h
    obtain ⟨x, hx, rfl⟩ := ih h (hu.distinct hd)
    obtain ⟨old, hold, horigin, hmem⟩ := hu.mem hd
    have hskip : x.key ≠ e.1 → patch l x = patch (e :: l) x := by
      intro hkey
      rw [patch_cons, if_neg hkey.symm]
    rcases hx with hx | hx
    · rcases (hmem x).1 hx with rfl | ⟨hx, hkey⟩
      · refine ⟨old, ?_, by rw [patch_cons, if_pos hold.symm]⟩
        rcases horigin with hmem' | ⟨hnone, -⟩
        · exact .inl hmem'
        · exact .inr fun r hr => hold ▸ byKey_eq_none.1 hnone r hr
      · exact ⟨x, .inl hx, hskip hkey⟩
    · have hkey : x.key ≠ e.1 := fun he => hx _ ((hmem _).2 (.inl rfl)) (hold.trans he.symm)
      refine ⟨x, .inr fun r hr hrk => hx r ((hmem r).2 (.inr ⟨hr, ?_⟩)) hrk, hskip hkey⟩
      rw [hrk]
      exact hkey

/-! ## Documents whose keys are there -/

/-- every row of the table, patched -/
def patched (t : ProfileTable) (l : List Entry) : ProfileTable := t.mapRows (patch l) fun _ => patch_id

theorem mem_patched : row ∈ patched t l ↔ ∃ r ∈ t, patch l r = row := by
  have hmem : row ∈ t.mapRows (patch l) (fun _ => patch_id) ↔ ∃ r ∈ t, patch l r = row := Table.mem_mapRows
  exact hmem

theorem patched_nil (t : ProfileTable) : patched t [] = t := Table.ext (List.map_id _)

/-- the names of the entries are free -/
def Accepts (t : ProfileTable) : List Entry → List Entry → Prop
  | _, [] => True
  | pre, e :: l => (e.2.name ≠ "" ∧ e.2.name.length ≤ 100) ∧ (∀ r ∈ t, (patch pre r).name = e.2.name → r.key = e.1) ∧
      Accepts t (pre ++ [e]) l

theorem keys_of_patched (hd : Distinct (patched t pre)) : ∀ p ∈ t, ∀ q ∈ t, p.key = q.key → p = q := by
  intro p hp q hq hkeys
  have heq := hd.keys _ (mem_patched.2 ⟨p, hp, rfl⟩) _ (mem_patched.2 ⟨q, hq, rfl⟩) (by rw [patch_key, patch_key, hkeys])
  refine Table.eq_of_key hp hq ?_
  rw [← @patch_id p pre, ← @patch_id q pre, heq]

theorem upsert_patched {e : Entry} (hd : Distinct (patched t pre)) (hr : row ∈ t) (hkey : row.key = e.1) :
    Upsert (patched t pre) e.1 e.2 u ↔ ((e.2.name ≠ "" ∧ e.2.name.length ≤ 100) ∧
      ∀ r ∈ t, (patch pre r).name = e.2.name → r.key = e.1) ∧ u = patched t (pre ++ [e]) := by
  have hmem : patch pre row ∈ patched t pre := mem_patched.2 ⟨row, hr, rfl⟩
  have hfound : byKey (patched t pre) e.1 = some (patch pre row) := hd.byKey_iff.2 ⟨hmem, patch_key.trans hkey⟩
  have hwritten : (patched t pre).update (patch pre row).id e.2.write = patched t (pre ++ [e]) := by
    refine Table.ext ?_
    show (t.rows.map (patch pre)).map (fun a => if a.id = (patch pre row).id then e.2.write a else a) =
      t.rows.map (patch (pre ++ [e]))
    rw [List.map_map]
    refine List.map_congr_left fun a ha => ?_
    have ha' : a ∈ t := ha
    rw [Function.comp_apply, patch_append, patch_id, patch_id, patch_cons, patch_nil, patch_key]
    refine if_congr ⟨fun hid => ?_, fun hk => ?_⟩ rfl rfl
    · rw [Table.eq_of_key ha' hr hid, hkey]
    · rw [keys_of_patched hd a ha' row hr (hk.symm.trans hkey.symm)]
  constructor
  · intro hu
    refine ⟨⟨hu.name_ok, fun r hr' hname => ?_⟩, ?_⟩
    · rw [← @patch_key r pre]
      exact hu.name_free hd _ (mem_patched.2 ⟨r, hr', rfl⟩) hname
    · unfold Upsert at hu
      rw [hfound] at hu
      rw [hu.2, hwritten]
  · rintro ⟨⟨⟨hne, hlength⟩, hfree⟩, rfl⟩
    unfold Upsert
    rw [hfound]
    refine ⟨checkName_of hne hlength fun q hq hname => ?_, hwritten.symm⟩
    obtain ⟨r, hr', rfl⟩ := mem_patched.1 hq
    rw [keys_of_patched hd r hr' row hr ((hfree r hr' hname).trans hkey.symm)]

/-- **A document whose keys are there** patches the rows, if its names are free. -/
theorem upserts_iff (hd : Distinct (patched t pre)) (hkeys : ∀ e ∈ l, ∃ r ∈ t, r.key = e.1) :
    Upserts l (patched t pre) t' ↔ Accepts t pre l ∧ t' = patched t (pre ++ l) := by
  induction l generalizing pre with
  | nil => simp [Upserts, Accepts]
  | cons e l ih =>
    obtain ⟨row, hr, hkey⟩ := hkeys e List.mem_cons_self
    have hrest : ∀ e ∈ l, ∃ r ∈ t, r.key = e.1 := fun e he => hkeys e (List.mem_cons_of_mem _ he)
    have hstep : ∀ u, Upsert (patched t pre) e.1 e.2 u → u = patched t (pre ++ [e]) :=
      fun u hu => ((upsert_patched hd hr hkey).1 hu).2
    constructor
    · rintro ⟨u, hu, h⟩
      obtain ⟨⟨hok, hfree⟩, rfl⟩ := (upsert_patched hd hr hkey).1 hu
      obtain ⟨haccepts, rfl⟩ := (ih (hu.distinct hd) hrest).1 h
      exact ⟨⟨hok, hfree, haccepts⟩, by rw [List.append_assoc]; rfl⟩
    · rintro ⟨⟨hok, hfree, haccepts⟩, rfl⟩
      have hu := (upsert_patched hd hr hkey).2 ⟨⟨hok, hfree⟩, rfl⟩
      refine ⟨_, hu, (ih (hu.distinct hd) hrest).2 ⟨haccepts, ?_⟩⟩
      rw [List.append_assoc]
      rfl

/-! ## A document once more -/

/-- no entry has the name with which a key ends that comes later for the first time -/
def Settles : List String → List Entry → Prop
  | _, [] => True
  | seen, e :: l => (∀ k ∈ l.map (·.1), k ∉ e.1 :: seen → lastName l k ≠ some e.2.name) ∧ Settles (e.1 :: seen) l

instance Settles.instDecidable : ∀ (seen : List String) (l : List Entry), Decidable (Settles seen l)
  | _, [] => isTrue trivial
  | seen, e :: l =>
    haveI := Settles.instDecidable (e.1 :: seen) l
    inferInstanceAs (Decidable
      ((∀ k ∈ l.map (·.1), k ∉ e.1 :: seen → lastName l k ≠ some e.2.name) ∧ Settles (e.1 :: seen) l))

/-- the name of a row that the rest of the document gave it -/
theorem Upserts.name_eq (h : Upserts l t t') (hd : Distinct t) (hrow : row ∈ t') {n : String}
    (hn : lastName l row.key = some n) : row.name = n := by
  obtain ⟨x, -, rfl⟩ := h.patched hd hrow
  rw [patch_key] at hn
  rw [name_patch, hn]
  rfl

/-- **The second import** accepts an entry whenever no name is taken that is set later. -/
theorem accepts_iff_settles {seen : List String} (hd : Distinct t) (hpre : Upserts pre t s) (hl : Upserts l s t')
    (hseen : ∀ k, k ∈ seen ↔ k ∈ pre.map (·.1)) : Accepts t' pre l ↔ Settles seen l := by
  induction l generalizing pre s seen with
  | nil => exact Iff.rfl
  | cons e l ih =>
    have hs : Distinct s := hpre.distinct hd
    obtain ⟨s', hu, hrest⟩ := id hl
    have hpre' : Upserts (pre ++ [e]) t s' := upserts_append.2 ⟨s, hpre, s', hu, rfl⟩
    have hseen' : ∀ k, k ∈ e.1 :: seen ↔ k ∈ (pre ++ [e]).map (·.1) := by
      intro k
      simp [hseen k, or_comm]
    have hfree : (∀ r ∈ t', (patch pre r).name = e.2.name → r.key = e.1) ↔
        ∀ k ∈ l.map (·.1), k ∉ e.1 :: seen → lastName l k ≠ some e.2.name := by
      constructor
      · intro hnames k hk hnew hlast
        obtain ⟨r, hr, rfl⟩ := hrest.key_mem (hu.distinct hs) (.inl hk)
        rw [List.mem_cons, not_or] at hnew
        refine hnew.1 (hnames r hr ?_)
        rw [patch_of_not_mem fun hmem => hnew.2 ((hseen _).2 hmem)]
        exact hrest.name_eq (hu.distinct hs) hr hlast
      · intro hlast r hr hname
        by_contra hkey
        by_cases hold : r.key ∈ pre.map (·.1)
        · -- the row had this name already when the entry was written the first time
          obtain ⟨r₀, hr₀, hkey₀⟩ := hpre.key_mem hd (.inl hold)
          obtain ⟨n, hn⟩ := Option.isSome_iff_exists.1 (lastName_isSome.2 hold)
          have hname₀ : r₀.name = n := hpre.name_eq hd hr₀ (hkey₀ ▸ hn)
          rw [name_patch, hn] at hname
          exact hkey (hkey₀ ▸ hu.name_free hs r₀ hr₀ (hname₀.trans hname))
        · rw [patch_of_not_mem hold] at hname
          by_cases hlater : r.key ∈ l.map (·.1)
          · obtain ⟨n, hn⟩ := Option.isSome_iff_exists.1 (lastName_isSome.2 hlater)
            refine hlast r.key hlater ?_ ?_
            · rw [List.mem_cons, not_or, hseen]
              exact ⟨hkey, hold⟩
            · rw [hn, ← hname, hrest.name_eq (hu.distinct hs) hr hn]
          · have hr' : r ∈ s := (hl.mem_iff hs (by simp [hkey, hlater])).1 hr
            exact hkey (hu.name_free hs r hr' hname)
    unfold Accepts Settles
    rw [hfree, ih hpre' hrest hseen']
    exact and_iff_right hu.name_ok

/-- **A document imported twice.** -/
theorem upserts_again (hd : Distinct t) (h : Upserts l t t') : Upserts l t' t' ↔ Settles [] l := by
  have hnil := patched_nil t'
  have hsame : patched t' l = t' := by
    refine Table.ext ?_
    show t'.rows.map (patch l) = t'.rows
    rw [List.map_congr_left, List.map_id]
    intro r hr
    obtain ⟨x, -, rfl⟩ := h.patched hd hr
    exact patch_patch l x
  have hkeys : ∀ e ∈ l, ∃ r ∈ t', r.key = e.1 := fun e he => h.key_mem hd (.inl (List.mem_map_of_mem he))
  have hd' : Distinct (patched t' []) := by
    rw [hnil]
    exact h.distinct hd
  calc Upserts l t' t' ↔ Upserts l (patched t' []) t' := by rw [hnil]
    _ ↔ Accepts t' [] l ∧ t' = patched t' ([] ++ l) := upserts_iff hd' hkeys
    _ ↔ Accepts t' [] l := and_iff_left (by rw [List.nil_append, hsame])
    _ ↔ Settles [] l := accepts_iff_settles hd rfl h fun _ => Iff.rfl

/-! ## The import of a document -/

/-- an item as the import reads it -/
def readItem (lib : ProfileLib) : Json → Option Entry
  | .obj fields =>
    match stripped (Json.get fields "key"), readFields lib fields with
    | .ok key, .ok v => some (key, v)
    | _, _ => none
  | _ => none

/-- a document as the import reads it -/
def entries (lib : ProfileLib) (document : List Json) : List Entry := document.filterMap (readItem lib)

theorem readItem_of_readable {item : Json} {v : Reading} (h : Readable lib item k v) : readItem lib item = some (k, v) := by
  obtain ⟨fields, rfl, hkey, -, hread, -⟩ := h
  unfold readItem
  dsimp only
  rw [hkey, hread]

/-- **An import with `--replace`** reads every item and writes it. -/
theorem importProfiles_replace {document : List Json} (hd : Distinct t) : importProfiles lib true document t = .ok t' ↔
    (∀ item ∈ document, ∃ k v, Readable lib item k v) ∧ Upserts (entries lib document) t t' := by
  induction document generalizing t with
  | nil =>
    constructor
    · intro h
      exact ⟨fun _ hitem => absurd hitem List.not_mem_nil, (Except.ok.inj h).symm⟩
    · rintro ⟨-, h⟩
      exact congrArg Except.ok h.symm
  | cons item document ih =>
    constructor
    · intro h
      obtain ⟨u, hu, h⟩ := bind_eq_ok.1 h
      rcases importItem_ok hd hu with ⟨hfalse, -, -⟩ | ⟨k, v, hitem, hupsert⟩
      · cases hfalse
      obtain ⟨hread, hrest⟩ := (ih (hupsert.distinct hd)).1 h
      refine ⟨?_, ?_⟩
      · rintro item' (_ | ⟨_, hitem'⟩)
        · exact ⟨k, v, hitem⟩
        · exact hread item' hitem'
      · rw [entries, List.filterMap_cons_some (readItem_of_readable hitem)]
        exact ⟨u, hupsert, hrest⟩
    · rintro ⟨hread, h⟩
      obtain ⟨k, v, hitem⟩ := hread item List.mem_cons_self
      rw [entries, List.filterMap_cons_some (readItem_of_readable hitem)] at h
      obtain ⟨u, hupsert, h⟩ := h
      have hu := importItem_of_upsert hitem hupsert fun _ => rfl
      refine bind_eq_ok.2 ⟨u, hu, (ih (hupsert.distinct hd)).2 ⟨fun item' hitem' => ?_, h⟩⟩
      exact hread item' (List.mem_cons_of_mem _ hitem')

/-- an import without it leaves every key in the table -/
theorem importProfiles_skips {document : List Json} (hd : Distinct t) (h : importProfiles lib false document t = .ok t') :
    (∀ r ∈ t, ∃ r' ∈ t', r'.key = r.key) ∧ ∀ item ∈ document, Skipped t' item := by
  induction document generalizing t with
  | nil =>
    obtain rfl := Except.ok.inj h
    exact ⟨fun r hr => ⟨r, hr, rfl⟩, fun _ hitem => absurd hitem List.not_mem_nil⟩
  | cons item document ih =>
    obtain ⟨u, hu, hrest⟩ := bind_eq_ok.1 h
    rcases importItem_ok hd hu with ⟨-, rfl, fields, key, rfl, hkey, hne, row, hrow, rfl⟩ | ⟨k, v, hitem, hupsert⟩
    · obtain ⟨hkeys, hskips⟩ := ih hd hrest
      refine ⟨hkeys, ?_⟩
      rintro item' (_ | ⟨_, hitem'⟩)
      · obtain ⟨r, hr, hrk⟩ := hkeys row hrow
        exact ⟨fields, row.key, rfl, hkey, hne, r, hr, hrk⟩
      · exact hskips item' hitem'
    · obtain ⟨hkeys, hskips⟩ := ih (hupsert.distinct hd) hrest
      refine ⟨fun r hr => ?_, ?_⟩
      · obtain ⟨r₁, hr₁, hk₁⟩ := hupsert.key_mem hd (.inr ⟨r, hr, rfl⟩)
        obtain ⟨r₂, hr₂, hk₂⟩ := hkeys r₁ hr₁
        exact ⟨r₂, hr₂, hk₂.trans hk₁⟩
      · rintro item' (_ | ⟨_, hitem'⟩)
        · obtain ⟨fields, rfl, hkey, hne, -⟩ := hitem
          obtain ⟨r₁, hr₁, rfl⟩ := hupsert.key_mem hd (.inl rfl)
          obtain ⟨r₂, hr₂, hk₂⟩ := hkeys r₁ hr₁
          exact ⟨fields, _, rfl, hkey, hne, r₂, hr₂, hk₂⟩
        · exact hskips item' hitem'

/-- and so skips every item of the same document -/
theorem importProfiles_keep {document : List Json} (hd : Distinct t) (h : importProfiles lib false document t = .ok t') :
    importProfiles lib false document t' = .ok t' := by
  have hskips := (importProfiles_skips hd h).2
  clear h
  induction document with
  | nil => rfl
  | cons item document ih =>
    exact bind_eq_ok.2 ⟨t', importItem_of_skipped (hskips item List.mem_cons_self),
      ih fun item' hitem' => hskips item' (List.mem_cons_of_mem _ hitem')⟩

/-! ## The export of a table -/

theorem reading_write (p : Profile) : p.reading.write p = p.trimmed := by
  unfold Reading.write Profile.reading Profile.trimmed
  simp

/-- what the export has of a profile -/
def own (p : Profile) : Entry := (p.key, p.reading)

/-- a row under entries of its own -/
theorem patch_own {rows : List Profile} {p : Profile} (hkeys : ∀ q ∈ rows, q.key = p.key → q = p) :
    patch (rows.map own) p = if p ∈ rows then p.trimmed else p := by
  induction rows using List.reverseRecOn with
  | nil => rfl
  | append_singleton rows q ih =>
    have hq : q.key = p.key → q = p := hkeys q (List.mem_append_right _ List.mem_cons_self)
    rw [List.map_append, patch_append, ih fun q hq => hkeys q (List.mem_append_left _ hq)]
    show (if (own q).1 = _ then _ else _) = _
    by_cases hkey : q.key = p.key
    · obtain rfl := hq hkey
      have hown : (own q).2.write (if q ∈ rows then q.trimmed else q) = q.trimmed := by
        split_ifs
        · rw [← reading_write]
          exact write_self _ _
        · exact reading_write q
      rw [hown, if_pos, if_pos]
      · simp
      · split_ifs <;> rfl
    · have hne : p ≠ q := fun h => hkey (h ▸ rfl)
      have hkey' : ¬ (own q).1 = (if p ∈ rows then p.trimmed else p).key := by
        split_ifs
        · exact hkey
        · exact hkey
      rw [if_neg hkey']
      simp [hne]

theorem readable_export {p : Profile} (h : p.Sound lib) : Readable lib (.obj (exportFields lib p)) p.key p.reading := by
  refine ⟨_, rfl, ?_, h.key_ne, readFields_export h, valid_export h⟩
  simp [Json.get, exportFields_eq, stripped_str, h.key]

theorem mem_listProfiles {p : Profile} : p ∈ listProfiles t ↔ p ∈ t := by
  unfold listProfiles
  rw [List.mem_append, List.mem_filter, List.mem_filter, Table.mem_def]
  cases p.isBuiltin <;> simp

theorem entries_export (h : ∀ p ∈ t, p.Sound lib) : entries lib (exportAll lib t) = (listProfiles t).map own := by
  unfold entries exportAll
  rw [List.filterMap_map, ← List.filterMap_eq_map]
  refine List.filterMap_congr fun p hp => ?_
  exact readItem_of_readable (readable_export (h p (mem_listProfiles.1 hp)))

/-- the names of the export are those of the rows -/
theorem accepts_own (h : Catalogue lib t) {rows prev : List Profile} (hprev : ∀ p ∈ prev, p ∈ t)
    (hrows : ∀ p ∈ rows, p ∈ t) :
    Accepts t (prev.map own) (rows.map own) := by
  induction rows generalizing prev with
  | nil => trivial
  | cons p rows ih =>
    have hp : p ∈ t := hrows p List.mem_cons_self
    have hsound := h.sound p hp
    refine ⟨⟨hsound.name_ne, hsound.name_length⟩, fun r hr hname => ?_, ?_⟩
    · rw [patch_own fun q hq hkey => h.keys q (hprev q hq) r hr hkey] at hname
      have hname' : r.name = p.name := by
        rw [← show (own p).2.name = p.name from rfl, ← hname]
        split_ifs <;> rfl
      rw [h.names r hr p hp hname']
      rfl
    · have hsnoc : prev.map own ++ [own p] = (prev ++ [p]).map own := by simp
      rw [hsnoc]
      refine ih (fun q hq => ?_) fun q hq => hrows q (List.mem_cons_of_mem _ hq)
      rcases List.mem_append.1 hq with hq | hq
      · exact hprev q hq
      · rw [List.mem_singleton.1 hq]
        exact hp

/-- **The export over its table.** -/
theorem reimport (h : Catalogue lib t) :
    importProfiles lib true (exportAll lib t) t = .ok (t.mapRows Profile.trimmed) := by
  refine (importProfiles_replace h.toDistinct).2 ⟨fun item hitem => ?_, ?_⟩
  · obtain ⟨p, hp, rfl⟩ := List.mem_map.1 hitem
    exact ⟨_, _, readable_export (h.sound p (mem_listProfiles.1 hp))⟩
  · have hrows : ∀ p ∈ listProfiles t, p ∈ t := fun p hp => mem_listProfiles.1 hp
    have hkeys : ∀ e ∈ (listProfiles t).map own, ∃ r ∈ t, r.key = e.1 := by
      intro e he
      obtain ⟨p, hp, rfl⟩ := List.mem_map.1 he
      exact ⟨p, hrows p hp, rfl⟩
    have hd : Distinct (patched t []) := by
      rw [patched_nil]
      exact h.toDistinct
    have haccepts : Accepts t [] ((listProfiles t).map own) := accepts_own h (fun _ hp => absurd hp List.not_mem_nil) hrows
    have hpatched : t.mapRows Profile.trimmed = patched t ((listProfiles t).map own) := by
      refine Table.ext (List.map_congr_left fun p hp => ?_)
      have hp' : p ∈ t := hp
      rw [patch_own fun q hq hkey => h.keys q (hrows q hq) p hp' hkey, if_pos (mem_listProfiles.2 hp')]
    have hupserts := (upserts_iff hd hkeys).2 ⟨haccepts, hpatched⟩
    rw [patched_nil] at hupserts
    rwa [entries_export h.sound]

/-! ## The export into an empty table -/

/-- the same profile under another id, as it is read back -/
def Copy (p q : Profile) : Prop := q = { p.trimmed with id := q.id }

theorem exists_of_forall₂ {α β : Type*} {R : α → β → Prop} {as : List α} {bs : List β} (h : List.Forall₂ R as bs) {b : β}
    (hb : b ∈ bs) : ∃ a ∈ as, R a b := by
  induction h with
  | nil => cases hb
  | @cons a b' as bs hab _ ih =>
    rcases List.mem_cons.1 hb with rfl | hb
    · exact ⟨a, List.mem_cons_self, hab⟩
    · obtain ⟨a', ha', hab'⟩ := ih hb
      exact ⟨a', List.mem_cons_of_mem _ ha', hab'⟩

/-- **The export into an empty table** gives a copy of each row, in the order of the export. -/
theorem import_copies (h : Catalogue lib t) (fresh : Bool) {rows prev : List Profile} (hrows : ∀ p ∈ rows, p ∈ t)
    (hprev : ∀ p ∈ prev, p ∈ t) (hnodup : (prev ++ rows).Nodup) (hu : List.Forall₂ Copy prev u.rows) :
    ∃ t', importProfiles lib fresh (rows.map fun p => .obj (exportFields lib p)) u = .ok t' ∧
      List.Forall₂ Copy (prev ++ rows) t'.rows := by
  induction rows generalizing prev u with
  | nil => exact ⟨u, rfl, by rwa [List.append_nil]⟩
  | cons p rows ih =>
    have hp : p ∈ t := hrows p List.mem_cons_self
    have hsound := h.sound p hp
    have hnew : ∀ q ∈ prev, q ≠ p := by
      rintro q hq rfl
      exact (List.nodup_append.1 hnodup).2.2 q hq q List.mem_cons_self rfl
    have hkey : byKey u p.key = none := by
      refine byKey_eq_none.2 fun q hq hkeys => ?_
      obtain ⟨r, hr, hcopy⟩ := exists_of_forall₂ hu hq
      rw [hcopy] at hkeys
      exact hnew r hr (h.keys r (hprev r hr) p hp hkeys)
    have hname : checkName u none p.name = [] := by
      refine checkName_of hsound.name_ne hsound.name_length fun q hq hnames => ?_
      obtain ⟨r, hr, hcopy⟩ := exists_of_forall₂ hu hq
      rw [hcopy] at hnames
      exact absurd (h.names r (hprev r hr) p hp hnames) (hnew r hr)
    have hupsert : Upsert u p.key p.reading
      (u.insert fun id => p.reading.write (Profile.new p.key (isPreset p.key) id)) := by
      unfold Upsert
      rw [hkey]
      exact ⟨hname, rfl⟩
    have hitem := @importItem_of_upsert lib u _ _ _ fresh _ (readable_export hsound) hupsert fun hne => absurd hkey hne
    have hcopy : Copy p (p.reading.write (Profile.new p.key (isPreset p.key) u.nextKey)) := by
      have hwrite := @write_reading lib (Profile.new p.key (isPreset p.key) u.nextKey) p hsound rfl fun _ => ⟨rfl, rfl⟩
      have hbuiltin : (Profile.new p.key (isPreset p.key) u.nextKey).isBuiltin = p.isBuiltin := (h.builtin p hp).symm
      rw [hwrite, hbuiltin]
      rfl
    have hrows' : ∀ q ∈ rows, q ∈ t := fun q hq => hrows q (List.mem_cons_of_mem _ hq)
    have hprev' : ∀ q ∈ prev ++ [p], q ∈ t := by
      intro q hq
      rcases List.mem_append.1 hq with hq | hq
      · exact hprev q hq
      · rw [List.mem_singleton.1 hq]
        exact hp
    have hnodup' : (prev ++ [p] ++ rows).Nodup := by simpa using hnodup
    have hu' : List.Forall₂ Copy (prev ++ [p])
        (u.insert fun id => p.reading.write (Profile.new p.key (isPreset p.key) id)).rows :=
      List.rel_append hu (.cons hcopy .nil)
    obtain ⟨t', ht', hcopies⟩ := ih hrows' hprev' hnodup' hu'
    refine ⟨t', bind_eq_ok.2 ⟨_, hitem, ht'⟩, ?_⟩
    simpa using hcopies

theorem exportFields_of_copy {p q : Profile} (h : Copy p q) : exportFields lib q = exportFields lib p.trimmed := by
  rw [h, exportFields_eq, exportFields_eq]
  rfl

/-- the order of the export is the order of the copies -/
theorem export_copies (h : List.Forall₂ Copy (listProfiles t) u.rows) :
    exportAll lib u = (listProfiles t).map fun p => .obj (exportFields lib p.trimmed) := by
  have hsplit : (listProfiles t).filter (·.isBuiltin) ++ (listProfiles t).filter (!·.isBuiltin) = listProfiles t := by
    simp [listProfiles, List.filter_append, List.filter_filter]
  have hfilter : ∀ (f : Bool → Bool) (as bs : List Profile), List.Forall₂ Copy as bs →
      List.Forall₂ Copy (as.filter fun p => f p.isBuiltin) (bs.filter fun p => f p.isBuiltin) := by
    intro f as bs hcopies
    induction hcopies with
    | nil => exact .nil
    | @cons p q as bs hcopy _ ih =>
      have heq : q.isBuiltin = p.isBuiltin := by rw [hcopy]; rfl
      rw [List.filter_cons, List.filter_cons, heq]
      split_ifs
      · exact .cons hcopy ih
      · exact ih
  have hcopies : List.Forall₂ Copy (listProfiles t) (listProfiles u) := by
    rw [← hsplit]
    exact List.rel_append (hfilter id _ _ h) (hfilter (!·) _ _ h)
  unfold exportAll
  generalize listProfiles u = bs at hcopies
  generalize listProfiles t = as at hcopies
  induction hcopies with
  | nil => rfl
  | cons hcopy _ ih => rw [List.map_cons, List.map_cons, ih, exportFields_of_copy hcopy]

theorem import_empty (h : Catalogue lib t) (fresh : Bool) : ∃ t',
    importProfiles lib fresh (exportAll lib t) Table.empty = .ok t' ∧
      exportAll lib t' = (listProfiles t).map fun p => .obj (exportFields lib p.trimmed) := by
  have hnodup : (listProfiles t).Nodup := by
    unfold listProfiles
    refine List.nodup_append.2 ⟨t.nodup.filter _, t.nodup.filter _, ?_⟩
    rintro p hp q hq rfl
    have h₁ := List.of_mem_filter hp
    have h₂ := List.of_mem_filter hq
    simp [h₁] at h₂
  obtain ⟨t', ht', hcopies⟩ := @import_copies lib t Table.empty h fresh (listProfiles t) []
    (fun p hp => mem_listProfiles.1 hp)
    (fun p hp => absurd hp List.not_mem_nil) hnodup .nil
  exact ⟨t', ht', export_copies hcopies⟩

/-! ## The round trip -/

/-- every profile keeps its exported fields -/
def SameFields (lib : ProfileLib) (t t' : ProfileTable) : Prop :=
  t.Evolves (fun p q => q.id = p.id ∧ exportFields lib q = exportFields lib p) t'

theorem sameFields_iff : SameFields lib t (t.mapRows Profile.trimmed) ↔
    ∀ p ∈ t, strip p.description.toList = p.description.toList := by
  constructor
  · intro h p hp
    have hmap : List.Forall₂ (fun p q => q.id = p.id ∧ exportFields lib q = exportFields lib p) t.rows
      (t.rows.map Profile.trimmed) := h
    have hfields := (List.forall₂_same.1 (List.forall₂_map_right_iff.1 hmap) p hp).2
    have hdescription : Json.get (exportFields lib p.trimmed) "description" =
      Json.get (exportFields lib p) "description" := by
      rw [hfields]
    have htext : String.ofList (strip p.description.toList) = p.description := by
      simpa [Json.get, exportFields_eq, List.lookup_cons, Profile.trimmed] using hdescription
    rw [← String.toList_ofList (l := strip p.description.toList), htext]
  · intro h
    refine List.forall₂_map_right_iff.2 (List.forall₂_same.2 fun p hp => ?_)
    rw [trimmed_eq_self.2 (h p hp)]
    exact ⟨rfl, rfl⟩

/-- the export over its table leaves the exported fields, if no description ends in white space -/
theorem reimport_iff (h : Catalogue lib t) :
    (∃ t', importProfiles lib true (exportAll lib t) t = .ok t' ∧ SameFields lib t t') ↔
      ∀ p ∈ t, strip p.description.toList = p.description.toList := by
  rw [reimport h]
  constructor
  · rintro ⟨t', ht', hsame⟩
    rw [← Except.ok.inj ht'] at hsame
    exact sameFields_iff.1 hsame
  · intro hd
    exact ⟨_, rfl, sameFields_iff.2 hd⟩

/-- **The round trip of the profiles.** In every table that the operations reach, for every document that is imported:
the export is imported over the table and leaves every exported field, it is imported into an empty table with the same
export, and the document is imported again and changes nothing, if and only if no description ends in white space and,
for an import with `--replace`, the names of the document settle. -/
theorem profiles_round_trip (ops : List (Change lib)) (fresh replace : Bool) (document : List Json) {t₁ : ProfileTable}
    (h : importProfiles lib replace document (run (change lib) (ensureBuiltins Table.empty) ops) = .ok t₁) :
    ((∃ t', importProfiles lib true (exportAll lib (run (change lib) (ensureBuiltins Table.empty) ops))
          (run (change lib) (ensureBuiltins Table.empty) ops) = .ok t' ∧
        SameFields lib (run (change lib) (ensureBuiltins Table.empty) ops) t') ∧
      (∃ t', importProfiles lib fresh (exportAll lib (run (change lib) (ensureBuiltins Table.empty) ops)) Table.empty =
        .ok t' ∧
        exportAll lib t' = exportAll lib (run (change lib) (ensureBuiltins Table.empty) ops)) ∧
      importProfiles lib replace document t₁ = .ok t₁) ↔
    (∀ p ∈ run (change lib) (ensureBuiltins Table.empty) ops, strip p.description.toList = p.description.toList) ∧
      (replace = true → Settles [] (entries lib document)) := by
  have hc : Catalogue lib (run (change lib) (ensureBuiltins Table.empty) ops) := catalogue_run ops
  generalize run (change lib) (ensureBuiltins Table.empty) ops = t at h hc ⊢
  have hagain : importProfiles lib replace document t₁ = .ok t₁ ↔ (replace = true → Settles [] (entries lib document)) := by
    cases replace with
    | false => simp [importProfiles_keep hc.toDistinct h]
    | true =>
      obtain ⟨hread, hupserts⟩ := (importProfiles_replace hc.toDistinct).1 h
      rw [importProfiles_replace (hupserts.distinct hc.toDistinct), upserts_again hc.toDistinct hupserts]
      exact ⟨fun hagain _ => hagain.2, fun hs => ⟨hread, hs rfl⟩⟩
  rw [reimport_iff hc, hagain]
  constructor
  · rintro ⟨hd, -, hs⟩
    exact ⟨hd, hs⟩
  · rintro ⟨hd, hs⟩
    refine ⟨hd, ?_, hs⟩
    obtain ⟨t', ht', hexport⟩ := import_empty hc fresh
    refine ⟨t', ht', hexport.trans (List.map_congr_left fun p hp => ?_)⟩
    rw [trimmed_eq_self.2 (hd p (mem_listProfiles.1 hp))]

end RoundTrip

/-! ## Documents that change -/

/-- one profile with a name -/
def namedItem (key name : String) : Json := .obj [("key", .str key), ("name", .str name)]

theorem ok_of_isSome {r : Except PyError ProfileTable} (h : r.toOption.isSome = true) : ∃ t, r = .ok t := by
  cases r with
  | error e => cases h
  | ok t => exact ⟨t, rfl⟩

/-- a new profile with a description -/
def describedFields (text : Text) : Fields := [("name", .str "Long"), ("description", .str (String.ofList text))]

def describe (lib : ProfileLib) (text : Text) : Change lib := .create ⟨describedFields text, trivial, trivial, trivial⟩

theorem create_described (lib : ProfileLib) (text : Text) :
    ∃ p ∈ change lib (ensureBuiltins Table.empty) (describe lib text),
      p.description = String.ofList ((strip text).take 500) := by
  have hname : stripped (Json.get (describedFields text) "name") = .ok "Long" := by
    have hstrip : String.ofList (strip "Long".toList) = "Long" := by decide +kernel
    have hget : Json.get (describedFields text) "name" = .str "Long" := rfl
    rw [hget, stripped_str, hstrip]
  have hdescription : stripped (Json.get (describedFields text) "description") = .ok (String.ofList (strip text)) := by
    have hget : Json.get (describedFields text) "description" = .str (String.ofList text) := rfl
    rw [hget, stripped_str, String.toList_ofList]
  have hvalid : Valid lib (describedFields text) :=
    ⟨rfl, rfl, ⟨none, none, rfl, rfl, rfl⟩, ⟨none, none, rfl, rfl, rfl⟩, rfl, .inl rfl, rfl, rfl, rfl⟩
  have hchecked : checked lib (ensureBuiltins Table.empty) (describedFields text) none "" = .ok () :=
    checked_iff.2 ⟨"Long", hname, by decide +kernel, hvalid⟩
  obtain ⟨v, hread, htext⟩ : ∃ v, readFields lib (describedFields text) = .ok v ∧
      v.description = String.ofList ((strip text).take 500) := by
    unfold readFields
    rw [hname, hdescription]
    refine ⟨_, rfl, ?_⟩
    show String.ofList ((String.ofList (strip text)).toList.take 500) = _
    rw [String.toList_ofList]
  have hcreate : create lib (ensureBuiltins Table.empty) (describedFields text) =
      addProfile lib (ensureBuiltins Table.empty) (uniqueKey lib (ensureBuiltins Table.empty) "Long") false
        (describedFields text) := by
    unfold create
    rw [hchecked, hname]
    rfl
  rw [addProfile_iff.2 ⟨v, hread, rfl⟩] at hcreate
  unfold change describe
  dsimp only
  rw [hcreate]
  have hmem : v.write (Profile.new (uniqueKey lib (ensureBuiltins Table.empty) "Long") false
    (ensureBuiltins Table.empty).nextKey) ∈
      (ensureBuiltins Table.empty).insert fun id =>
        v.write (Profile.new (uniqueKey lib (ensureBuiltins Table.empty) "Long") false id) :=
    Table.mem_insert.2 (.inr rfl)
  exact ⟨_, hmem, htext⟩

/-- a description that is cut and not stripped again changes -/
theorem described_changes {lib : ProfileLib} {text : Text} (hcut : strip ((strip text).take 500) ≠ (strip text).take 500) :
    ¬ ∃ t', importProfiles lib true
        (exportAll lib (run (change lib) (ensureBuiltins Table.empty) [describe lib text]))
        (run (change lib) (ensureBuiltins Table.empty) [describe lib text]) = .ok t' ∧
      SameFields lib (run (change lib) (ensureBuiltins Table.empty) [describe lib text]) t' := by
  rw [reimport_iff (catalogue_run [describe lib text]), run_cons, run_nil]
  intro hstripped
  apply hcut
  obtain ⟨p, hp, hdescription⟩ := create_described lib text
  have hp' := hstripped p hp
  rwa [hdescription, String.toList_ofList] at hp'

/-- a key that takes a name after another has left it -/
def swappedNames : List Json := [namedItem "a" "X", namedItem "a" "Y", namedItem "b" "X"]

/-- some characters, a space and one more -/
def longText (n : ℕ) : Text := List.replicate n 'x' ++ [' ', 'x']

/-- one character less of it ends with the space -/
theorem take_longText (n : ℕ) : (strip (longText (n + 1))).take (n + 2) = List.replicate (n + 1) 'x' ++ [' '] := by
  have hstrip : strip (longText (n + 1)) = longText (n + 1) := by
    refine strip_eq_self (fun c hc => ?_) fun c hc => ?_
    · obtain rfl : 'x' = c := by simpa [longText, List.replicate_succ] using hc
      decide
    · obtain rfl : 'x' = c := by simpa [longText] using hc
      decide
  rw [hstrip]
  simp [longText, List.take_append]

theorem ends_in_space {t : Text} (h : strip (t ++ [' ']) = t ++ [' ']) : isSpace ' ' = false := by
  refine getLast?_strip (t := t ++ [' ']) ?_
  rw [h]
  exact List.getLast?_concat

/-- **A description that is cut** after a space loses the space, and a document that moves a name is refused the second
time. -/
theorem cut_description_changes :
    (¬ ∃ t', importProfiles sampleProfileLib true
        (exportAll sampleProfileLib
          (run (change sampleProfileLib) (ensureBuiltins Table.empty) [describe _ (longText 499)]))
        (run (change sampleProfileLib) (ensureBuiltins Table.empty) [describe _ (longText 499)]) = .ok t' ∧
      SameFields sampleProfileLib
        (run (change sampleProfileLib) (ensureBuiltins Table.empty) [describe _ (longText 499)]) t') ∧
    ∃ t₁, importProfiles sampleProfileLib true swappedNames (ensureBuiltins Table.empty) = .ok t₁ ∧
      importProfiles sampleProfileLib true swappedNames t₁ ≠ .ok t₁ := by
  constructor
  · refine described_changes fun hcut => ?_
    rw [take_longText 498] at hcut
    exact absurd (ends_in_space hcut) (by decide)
  · have hok : (importProfiles sampleProfileLib true swappedNames (ensureBuiltins Table.empty)).toOption.isSome = true := by
      decide +kernel
    obtain ⟨t₁, h⟩ := ok_of_isSome hok
    refine ⟨t₁, h, fun hagain => ?_⟩
    have hd : Distinct (ensureBuiltins Table.empty) := (@catalogue_start sampleProfileLib).toDistinct
    have hupserts := ((importProfiles_replace hd).1 h).2
    have hagain' := ((importProfiles_replace (hupserts.distinct hd)).1 hagain).2
    have hsettles : ¬ Settles [] (entries sampleProfileLib swappedNames) := by decide +kernel
    exact hsettles ((upserts_again hd hupserts).1 hagain')

/-- a document that names each profile once -/
def plainDocument : List Json := [namedItem "a" "X", namedItem "web_server" "Web"]

theorem profiles_round_trip_sample : ∃ t₁,
    importProfiles sampleProfileLib true plainDocument (ensureBuiltins Table.empty) = .ok t₁ ∧
      importProfiles sampleProfileLib true plainDocument t₁ = .ok t₁ := by
  have hok : (importProfiles sampleProfileLib true plainDocument (ensureBuiltins Table.empty)).toOption.isSome = true := by
    decide +kernel
  obtain ⟨t₁, h⟩ := ok_of_isSome hok
  have hstripped : ∀ p ∈ run (change sampleProfileLib) (ensureBuiltins Table.empty) [],
      strip p.description.toList = p.description.toList := by decide +kernel
  have hsettles : Settles [] (entries sampleProfileLib plainDocument) := by decide +kernel
  have hround := @profiles_round_trip sampleProfileLib [] false true plainDocument t₁ h
  exact ⟨t₁, h, (hround.2 ⟨hstripped, fun _ => hsettles⟩).2.2⟩

end Chancery.Profiles
