/-
The table of profiles as its operations keep it: `create`, `update`, the toggle, `delete`, `import_profiles` and a start
of the application.

(1) Each of them that writes fields is one `Upsert`: a row of its own under a key the table does not have, or the row
with that key rewritten (`create_ok`, `update_ok`, `importItem_ok`).
(2) `Catalogue`: the rows are sound, no two have a key or a name in common, the built-in ones are those with the key of a
preset, and all of these are there. Every operation keeps it, whatever its fields (`catalogue_run`).
-/
import Mathlib.Tactic
import Chancery.Core.Run
import Chancery.Services.ProfileExport

namespace Chancery.Profiles

open Chancery.Core

section Upsert

variable {lib : ProfileLib} {t t' : ProfileTable} {fields : Fields} {row : Profile} {key label : String} {v : Reading}

/-! ## Writing a profile -/

/-- is the key one of a preset -/
def isPreset (key : String) : Bool := builtins.any (·.key == key)

theorem Reading.write_id {v : Reading} (row : Profile) : (v.write row).id = row.id := rfl

theorem Reading.writeNew_id {key : String} {v : Reading} (id : ℤ) :
    (v.write (Profile.new key (isPreset key) id)).id = id := rfl

/-- fields written under a key -/
def Upsert (t : ProfileTable) (key : String) (v : Reading) (t' : ProfileTable) : Prop :=
  match byKey t key with
  | none => checkName t none v.name = [] ∧ t' = t.insert (fun id => v.write (Profile.new key (isPreset key) id))
      Reading.writeNew_id
  | some row => checkName t (some row.id) v.name = [] ∧ t' = t.update row.id v.write Reading.write_id

theorem byKey_eq_none : byKey t key = none ↔ ∀ p ∈ t, p.key ≠ key := by
  simp [byKey, List.find?_eq_none, Table.mem_def]

theorem key_of_byKey (h : byKey t key = some row) : row ∈ t ∧ row.key = key :=
  ⟨List.mem_of_find?_eq_some h, by simpa using List.find?_some h⟩

/-- the name that is written is the one that is checked -/
theorem name_of_readFields (h : readFields lib fields = .ok v) : stripped (Json.get fields "name") = .ok v.name := by
  unfold readFields at h
  obtain ⟨name, hname, h⟩ := bind_eq_ok.1 h
  obtain ⟨_, _, h⟩ := bind_eq_ok.1 h
  obtain ⟨_, _, h⟩ := bind_eq_ok.1 h
  obtain ⟨_, _, h⟩ := bind_eq_ok.1 h
  obtain ⟨_, _, h⟩ := bind_eq_ok.1 h
  obtain ⟨_, _, h⟩ := bind_eq_ok.1 h
  obtain ⟨_, _, h⟩ := bind_eq_ok.1 h
  obtain ⟨_, _, h⟩ := bind_eq_ok.1 h
  rw [hname, ← Except.ok.inj h]

theorem addProfile_iff {isBuiltin : Bool} : addProfile lib t key isBuiltin fields = .ok t' ↔
    ∃ v, readFields lib fields = .ok v ∧ t' = t.insert fun id => v.write (Profile.new key isBuiltin id) := by
  unfold addProfile
  constructor
  · intro h
    obtain ⟨p, hp, h⟩ := bind_eq_ok.1 h
    obtain ⟨v, hv, rfl⟩ := apply_iff.1 hp
    exact ⟨v, hv, (Except.ok.inj h).symm⟩
  · rintro ⟨v, hv, rfl⟩
    rw [apply_iff.2 ⟨v, hv, rfl⟩]
    rfl

theorem writeProfile_iff (hrow : row ∈ t) : writeProfile lib t row fields = .ok t' ↔
    ∃ v, readFields lib fields = .ok v ∧ t' = t.update row.id v.write Reading.write_id := by
  have heq : ∀ v : Reading, (t.update row.id fun old => { v.write row with id := old.id }) =
    t.update row.id v.write Reading.write_id := by
    intro v
    refine Table.ext (List.map_congr_left fun old hold => ?_)
    dsimp only
    split_ifs with hid
    · have hold' : old ∈ t := hold
      rw [Table.eq_of_key hold' hrow hid]
      rfl
    · rfl
  unfold writeProfile
  constructor
  · intro h
    obtain ⟨p, hp, h⟩ := bind_eq_ok.1 h
    obtain ⟨v, hv, rfl⟩ := apply_iff.1 hp
    refine ⟨v, hv, ?_⟩
    rw [← heq]
    exact (Except.ok.inj h).symm
  · rintro ⟨v, hv, rfl⟩
    rw [apply_iff.2 ⟨v, hv, rfl⟩, ← heq]
    rfl

/-! ## The key of a new profile -/

theorem mem_intercalate {α : Type*} {x : α} {sep : List α} {l : List (List α)} (h : x ∈ sep.intercalate l) :
    x ∈ sep ∨ ∃ part ∈ l, x ∈ part := by
  rw [List.intercalate, List.mem_flatten] at h
  obtain ⟨part, hpart, hx⟩ := h
  induction l with
  | nil => cases hpart
  | cons first l ih =>
    cases l with
    | nil =>
      rw [List.intersperse_singleton, List.mem_singleton] at hpart
      exact .inr ⟨first, List.mem_cons_self, hpart ▸ hx⟩
    | cons second l =>
      rw [List.intersperse_cons_cons] at hpart
      rcases List.mem_cons.1 hpart with rfl | hpart
      · exact .inr ⟨part, List.mem_cons_self, hx⟩
      rcases List.mem_cons.1 hpart with rfl | hpart
      · exact .inl hx
      · rcases ih hpart with hsep | ⟨part', hpart', hx'⟩
        · exact .inl hsep
        · exact .inr ⟨part', List.mem_cons_of_mem _ hpart', hx'⟩

/-- digits, letters and what stands between them -/
theorem isSpace_of_range {c : Char} (hc : 48 ≤ c.toNat ∧ c.toNat ≤ 122) : isSpace c = false := by
  simp only [isSpace, Bool.or_eq_false_iff, Bool.and_eq_false_iff, decide_eq_false_iff_not, beq_eq_false_iff_ne]
  omega

/-- a slug has no white space -/
theorem isSpace_slug {name : String} {c : Char} (hc : c ∈ (slug lib name).toList) : isSpace c = false := by
  unfold slug at hc
  dsimp only at hc
  split_ifs at hc with hempty
  · have hprofile : ∀ c ∈ "profile".toList, isSpace c = false := by simp [isSpace]
    exact hprofile c hc
  · rw [String.toList_intercalate, List.map_map] at hc
    rcases mem_intercalate hc with hsep | ⟨part, hpart, hc⟩
    · have hunderscore : ∀ c ∈ "_".toList, isSpace c = false := by simp [isSpace]
      exact hunderscore c hsep
    · obtain ⟨word, hword, rfl⟩ := List.mem_map.1 hpart
      rw [Function.comp_apply, String.toList_ofList] at hc
      obtain ⟨d, -, rfl⟩ := List.mem_map.1 (mem_of_mem_splitOn (List.mem_of_mem_filter hword) hc)
      split_ifs with hkept
      · simp only [Bool.or_eq_true, Bool.and_eq_true, decide_eq_true_eq, Char.le_def, UInt32.le_iff_toNat_le] at hkept
        have hrange : 48 ≤ d.toNat ∧ d.toNat ≤ 122 := by
          have h0 : 'a'.val.toNat = 97 ∧ 'z'.val.toNat = 122 ∧ '0'.val.toNat = 48 ∧ '9'.val.toNat = 57 := by decide
          rw [h0.1, h0.2.1, h0.2.2.1, h0.2.2.2] at hkept
          show 48 ≤ d.val.toNat ∧ d.val.toNat ≤ 122
          omega
        exact isSpace_of_range hrange
      · decide

theorem slug_ne {name : String} : slug lib name ≠ "" := by
  unfold slug
  dsimp only
  split_ifs with hempty
  · decide
  · exact hempty

/-- the keys `unique_key` tries -/
def candidates (base : String) (n : ℕ) : List String := base :: (List.range n).map fun n => base ++ "_" ++ toString (n + 2)

theorem nodup_candidates (base : String) (n : ℕ) : (candidates base n).Nodup := by
  have hinj : Function.Injective fun n : ℕ => base ++ "_" ++ toString (n + 2) := by
    intro m n h
    have hdigits : Nat.toDigits 10 (m + 2) = Nat.toDigits 10 (n + 2) := by simpa using congrArg String.toList h
    have hvalue := congrArg (fun t => Nat.ofDigitChars 10 t 0) hdigits
    simp only [Nat.ofDigitChars_ten_toDigits] at hvalue
    omega
  refine List.nodup_cons.2 ⟨fun hmem => ?_, List.Nodup.map hinj List.nodup_range⟩
  obtain ⟨m, -, hm⟩ := List.mem_map.1 hmem
  have hlength := congrArg String.length hm
  have hunderscore : "_".length = 1 := rfl
  simp only [String.length_append, hunderscore] at hlength
  omega

theorem uniqueKey_eq (t : ProfileTable) (name : String) : uniqueKey lib t name =
    ((candidates (slug lib name) t.rows.length).find? fun k => (byKey t k).isNone).getD (slug lib name) := rfl

/-- **A new key.** Of one candidate more than there are rows, one is free. -/
theorem uniqueKey_free (t : ProfileTable) (name : String) : byKey t (uniqueKey lib t name) = none := by
  rw [uniqueKey_eq]
  cases hfind : (candidates (slug lib name) t.rows.length).find? fun k => (byKey t k).isNone with
  | some k => simpa using List.find?_some hfind
  | none =>
    have htaken : candidates (slug lib name) t.rows.length ⊆ t.rows.map Profile.key := by
      intro k hk
      have hsome := List.find?_eq_none.1 hfind k hk
      cases hrow : byKey t k with
      | none => simp [hrow] at hsome
      | some row => exact List.mem_map.2 ⟨row, key_of_byKey hrow⟩
    have hle := ((nodup_candidates _ _).subperm htaken).length_le
    simp [candidates] at hle

theorem uniqueKey_text (t : ProfileTable) (name : String) :
    uniqueKey lib t name ≠ "" ∧ strip (uniqueKey lib t name).toList = (uniqueKey lib t name).toList := by
  have key : ∀ k ∈ candidates (slug lib name) t.rows.length, k ≠ "" ∧ ∀ c ∈ k.toList, isSpace c = false := by
    intro k hk
    rcases List.mem_cons.1 hk with rfl | hk
    · exact ⟨slug_ne, fun c hc => isSpace_slug hc⟩
    · obtain ⟨n, -, rfl⟩ := List.mem_map.1 hk
      refine ⟨fun h => ?_, fun c hc => ?_⟩
      · have hlength := congrArg String.length h
        simp at hlength
      · simp only [String.toList_append, List.mem_append] at hc
        rcases hc with (hc | hc) | hc
        · exact isSpace_slug hc
        · have hunderscore : ∀ c ∈ "_".toList, isSpace c = false := by simp [isSpace]
          exact hunderscore c hc
        · have hdigit : c ∈ Nat.toDigits 10 (n + 2) := by simpa using hc
          have hrange := Nat.isDigit_of_mem_toDigits (by norm_num) (by norm_num) hdigit
          refine isSpace_of_range ?_
          simp only [Char.isDigit, Bool.and_eq_true, decide_eq_true_eq, ge_iff_le, UInt32.le_iff_toNat_le] at hrange
          have h0 : '0'.val.toNat = 48 ∧ '9'.val.toNat = 57 := by decide
          rw [h0.1, h0.2] at hrange
          show 48 ≤ c.val.toNat ∧ c.val.toNat ≤ 122
          omega
  have hmem : uniqueKey lib t name ∈ candidates (slug lib name) t.rows.length := by
    rw [uniqueKey_eq]
    cases hfind : (candidates (slug lib name) t.rows.length).find? fun k => (byKey t k).isNone with
    | some k => exact List.mem_of_find?_eq_some hfind
    | none => exact List.mem_cons_self
  obtain ⟨hne, hspace⟩ := key _ hmem
  refine ⟨hne, strip_eq_self (fun c hc => hspace c (List.mem_of_mem_head? hc)) fun c hc => hspace c ?_⟩
  exact List.mem_of_getLast? hc

/-! ## The catalogue -/

/-- no two rows have a key or a name in common -/
structure Distinct (t : ProfileTable) : Prop where
  keys : ∀ p ∈ t, ∀ q ∈ t, p.key = q.key → p = q
  names : ∀ p ∈ t, ∀ q ∈ t, p.name = q.name → p = q

/-- what every operation keeps of the table -/
structure Catalogue (lib : ProfileLib) (t : ProfileTable) : Prop extends Distinct t where
  sound : ∀ p ∈ t, p.Sound lib
  builtin : ∀ p ∈ t, p.isBuiltin = isPreset p.key
  seeded : ∀ b ∈ builtins, ∃ p ∈ t, p.key = b.key

theorem Distinct.byKey_iff (h : Distinct t) : byKey t key = some row ↔ row ∈ t ∧ row.key = key := by
  refine ⟨key_of_byKey, ?_⟩
  rintro ⟨hrow, rfl⟩
  cases hfound : byKey t row.key with
  | none => exact absurd rfl (byKey_eq_none.1 hfound row hrow)
  | some found =>
    obtain ⟨hmem, hkey⟩ := key_of_byKey hfound
    rw [h.keys found hmem row hrow hkey]

theorem checkName_of {existing : Option ℤ} {name : String} (hne : name ≠ "") (hlength : name.length ≤ 100)
    (h : ∀ q ∈ t, q.name = name → existing = some q.id) : checkName t existing name = [] := by
  unfold checkName
  rw [if_neg hne, if_neg (not_lt.2 hlength), if_neg]
  rw [Option.any_eq_true]
  rintro ⟨clash, hclash, hid⟩
  have hname : clash.name = name := by simpa using List.find?_some hclash
  exact of_decide_eq_true hid (h clash (List.mem_of_find?_eq_some hclash) hname)

/-- a name that passes is the name of the row itself, if of any -/
theorem Distinct.name_of_check (h : Distinct t) {existing : Option ℤ} {name : String}
    (hc : checkName t existing name = []) :
    ∀ q ∈ t, q.name = name → existing = some q.id := by
  intro q hq hname
  have hfind : byName t name = some q := by
    cases hfound : byName t name with
    | none => exact absurd hname (by simpa using List.find?_eq_none.1 hfound q hq)
    | some found =>
      have hname' : found.name = name := by simpa using List.find?_some hfound
      rw [h.names found (List.mem_of_find?_eq_some hfound) q hq (hname'.trans hname.symm)]
  have hnone := (checkName_nil hc).2.2
  rw [hfind] at hnone
  simpa using hnone

/-- **A name is written for one key only.** -/
theorem Upsert.name_free (hu : Upsert t key v t') (h : Distinct t) : ∀ q ∈ t, q.name = v.name → q.key = key := by
  intro q hq hname
  unfold Upsert at hu
  cases hrow : byKey t key with
  | none =>
    rw [hrow] at hu
    cases h.name_of_check hu.1 q hq hname
  | some row =>
    rw [hrow] at hu
    obtain ⟨hmem, rfl⟩ := key_of_byKey hrow
    have hid := Option.some.inj (h.name_of_check hu.1 q hq hname)
    rw [Table.eq_of_key hq hmem hid.symm]

theorem Upsert.name_ok (hu : Upsert t key v t') : v.name ≠ "" ∧ v.name.length ≤ 100 := by
  unfold Upsert at hu
  cases hrow : byKey t key with
  | none =>
    rw [hrow] at hu
    exact ⟨(checkName_nil hu.1).1, (checkName_nil hu.1).2.1⟩
  | some row =>
    rw [hrow] at hu
    exact ⟨(checkName_nil hu.1).1, (checkName_nil hu.1).2.1⟩

/-- **The rows after a write**: the one with the key, and those with another. -/
theorem Upsert.mem (hu : Upsert t key v t') (h : Distinct t) : ∃ old : Profile, old.key = key ∧
    (old ∈ t ∨ byKey t key = none ∧ ∃ id, old = Profile.new key (isPreset key) id) ∧
    ∀ p, p ∈ t' ↔ p = v.write old ∨ p ∈ t ∧ p.key ≠ key := by
  unfold Upsert at hu
  cases hrow : byKey t key with
  | none =>
    rw [hrow] at hu
    obtain ⟨-, rfl⟩ := hu
    have hnone := byKey_eq_none.1 hrow
    refine ⟨Profile.new key (isPreset key) t.nextKey, rfl, .inr ⟨rfl, _, rfl⟩, fun p => ?_⟩
    rw [Table.mem_insert]
    constructor
    · rintro (hp | rfl)
      · exact .inr ⟨hp, hnone p hp⟩
      · exact .inl rfl
    · rintro (rfl | ⟨hp, -⟩)
      · exact .inr rfl
      · exact .inl hp
  | some row =>
    rw [hrow] at hu
    obtain ⟨-, rfl⟩ := hu
    obtain ⟨hmem, rfl⟩ := key_of_byKey hrow
    refine ⟨row, rfl, .inl hmem, fun p => ?_⟩
    constructor
    · intro hp
      obtain ⟨q, hq, rfl⟩ := Table.mem_update.1 hp
      split_ifs with hid
      · rw [Table.eq_of_key hq hmem hid]
        exact .inl rfl
      · exact .inr ⟨hq, fun hkey => hid (by rw [h.keys q hq row hmem hkey])⟩
    · rintro (rfl | ⟨hp, hkey⟩)
      · have hself : v.write row ∈ t.update row.id v.write Reading.write_id := Table.mem_update_self hmem
        exact hself
      · refine Table.mem_update_of_ne hp fun hid => hkey ?_
        rw [Table.eq_of_key hp hmem hid]

/-- keys stay -/
theorem Upsert.key_mem (hu : Upsert t key v t') (h : Distinct t) {k : String} (hk : k = key ∨ ∃ r ∈ t, r.key = k) :
    ∃ r ∈ t', r.key = k := by
  obtain ⟨old, hold, -, hmem⟩ := hu.mem h
  rcases hk with rfl | ⟨r, hr, rfl⟩
  · exact ⟨_, (hmem _).2 (.inl rfl), hold⟩
  · by_cases hkey : r.key = key
    · exact ⟨_, (hmem _).2 (.inl rfl), hold.trans hkey.symm⟩
    · exact ⟨r, (hmem r).2 (.inr ⟨hr, hkey⟩), rfl⟩

theorem Upsert.distinct (hu : Upsert t key v t') (h : Distinct t) : Distinct t' := by
  obtain ⟨old, hold, -, hmem⟩ := hu.mem h
  have hname := hu.name_free h
  have hwritten : ∀ q ∈ t, q.key ≠ key → q.name ≠ (v.write old).name := fun q hq hkey hq' => hkey (hname q hq hq')
  constructor
  · intro p hp q hq hkeys
    rcases (hmem p).1 hp with rfl | ⟨hp, hpk⟩ <;> rcases (hmem q).1 hq with rfl | ⟨hq, hqk⟩
    · rfl
    · exact absurd (hkeys.symm.trans hold) hqk
    · exact absurd (hkeys.trans hold) hpk
    · exact h.keys p hp q hq hkeys
  · intro p hp q hq hnames
    rcases (hmem p).1 hp with rfl | ⟨hp, hpk⟩ <;> rcases (hmem q).1 hq with rfl | ⟨hq, hqk⟩
    · rfl
    · exact absurd hnames.symm (hwritten q hq hqk)
    · exact absurd hnames (hwritten p hp hpk)
    · exact h.names p hp q hq hnames

/-- columns that leave a row sound -/
def Reading.Fits (lib : ProfileLib) (v : Reading) : Prop :=
  ∀ row : Profile, strip row.key.toList = row.key.toList → row.key ≠ "" →
    (row.isCustom = true → row.keyUsageJson = none ∧ row.extendedKeyUsageJson = none) → (v.write row).Sound lib

theorem Upsert.catalogue (hu : Upsert t key v t') (h : Catalogue lib t) (hfits : v.Fits lib)
    (hkey : strip key.toList = key.toList) (hne : key ≠ "") : Catalogue lib t' := by
  obtain ⟨old, hold, horigin, hmem⟩ := hu.mem h.toDistinct
  have hcustom : old.isCustom = true → old.keyUsageJson = none ∧ old.extendedKeyUsageJson = none := by
    rcases horigin with hold | ⟨-, id, rfl⟩
    · exact (h.sound old hold).custom
    · exact fun _ => ⟨rfl, rfl⟩
  have hbuiltin : old.isBuiltin = isPreset old.key := by
    rcases horigin with hold | ⟨-, id, rfl⟩
    · exact h.builtin old hold
    · rfl
  refine ⟨hu.distinct h.toDistinct, fun p hp => ?_, fun p hp => ?_, fun b hb => ?_⟩
  · rcases (hmem p).1 hp with rfl | ⟨hp, -⟩
    · exact hfits old (by rw [hold, hkey]) (by rw [hold]; exact hne) hcustom
    · exact h.sound p hp
  · rcases (hmem p).1 hp with rfl | ⟨hp, -⟩
    · exact hbuiltin
    · exact h.builtin p hp
  · obtain ⟨p, hp, hpb⟩ := h.seeded b hb
    by_cases hkeys : p.key = key
    · exact ⟨v.write old, (hmem _).2 (.inl rfl), (hold.trans hkeys.symm).trans hpb⟩
    · exact ⟨p, (hmem p).2 (.inr ⟨hp, hkeys⟩), hpb⟩

/-! ## The operations -/

theorem fits_of_valid (hw : Json.WrittenFields lib.floats fields) (hread : readFields lib fields = .ok v)
    (hvalid : Valid lib fields) (hname : v.name ≠ "" ∧ v.name.length ≤ 100) : v.Fits lib :=
  fun _ hkey hne hcustom => sound_of_valid hw (name_of_readFields hread) hname.1 hname.2 hvalid hread hkey hne hcustom

/-- checked fields are written as they are read, and soundly -/
theorem fits_of_checked (hw : Json.WrittenFields lib.floats fields) {existing : Option ℤ}
    (hc : checked lib t fields existing label = .ok ()) (hread : readFields lib fields = .ok v) :
    checkName t existing v.name = [] ∧ v.Fits lib := by
  obtain ⟨name, hname, hcheck, hvalid⟩ := checked_iff.1 hc
  have heq : name = v.name := Except.ok.inj (hname.symm.trans (name_of_readFields hread))
  subst heq
  obtain ⟨hne, hlength, -⟩ := checkName_nil hcheck
  exact ⟨hcheck, fits_of_valid hw hread hvalid ⟨hne, hlength⟩⟩

theorem Catalogue.create (h : Catalogue lib t) (hw : Json.WrittenFields lib.floats fields)
    (hcreate : create lib t fields = .ok t') : Catalogue lib t' := by
  unfold Profiles.create at hcreate
  obtain ⟨_, hc, hcreate⟩ := bind_eq_ok.1 hcreate
  obtain ⟨name, hname, hcreate⟩ := bind_eq_ok.1 hcreate
  obtain ⟨v, hread, rfl⟩ := addProfile_iff.1 hcreate
  have hnew := @uniqueKey_free lib t name
  have hpreset : isPreset (uniqueKey lib t name) = false := by
    by_contra hp
    have hany : isPreset (uniqueKey lib t name) = true := by simpa using hp
    unfold isPreset at hany
    obtain ⟨b, hb, hkey⟩ := List.any_eq_true.1 hany
    obtain ⟨p, hp, hpb⟩ := h.seeded b hb
    exact byKey_eq_none.1 hnew p hp (hpb.trans (by simpa using hkey))
  obtain ⟨hcheck, hfits⟩ := fits_of_checked hw hc hread
  obtain ⟨hne, hstrip⟩ := @uniqueKey_text lib t name
  have hu : Upsert t (uniqueKey lib t name) v
      (t.insert fun id => v.write (Profile.new (uniqueKey lib t name) false id)) := by
    unfold Upsert
    rw [hnew, hpreset]
    exact ⟨hcheck, rfl⟩
  exact hu.catalogue h hfits hstrip hne

theorem upsert_write (h : Distinct t) (hrow : row ∈ t) (hcheck : checkName t (some row.id) v.name = []) :
    Upsert t row.key v (t.update row.id v.write Reading.write_id) := by
  have hfound : byKey t row.key = some row := h.byKey_iff.2 ⟨hrow, rfl⟩
  unfold Upsert
  rw [hfound]
  exact ⟨hcheck, rfl⟩

theorem Catalogue.update (h : Catalogue lib t) (hrow : row ∈ t) (hw : Json.WrittenFields lib.floats fields)
    (hupdate : update lib t row fields = .ok t') : Catalogue lib t' := by
  unfold Profiles.update at hupdate
  obtain ⟨_, hc, hupdate⟩ := bind_eq_ok.1 hupdate
  obtain ⟨v, hread, rfl⟩ := (writeProfile_iff hrow).1 hupdate
  obtain ⟨hcheck, hfits⟩ := fits_of_checked hw hc hread
  exact (upsert_write h.toDistinct hrow hcheck).catalogue h hfits (h.sound row hrow).key (h.sound row hrow).key_ne

theorem Profile.Sound.withEnabled {p : Profile} (h : p.Sound lib) (enabled : Bool) :
    ({ p with enabled := enabled } : Profile).Sound lib :=
  ⟨h.key, h.key_ne, h.name, h.name_ne, h.name_length, h.description, h.custom, h.keyUsage, h.extendedKeyUsage,
    h.default_pos,
    h.default_le, h.min_rsa, h.max_rsa, h.rsa_le, h.keyTypes, h.ecSizes, h.sanTypes, h.policies⟩

/-- the toggle writes no column that is checked -/
theorem Catalogue.toggle (h : Catalogue lib t) (profileId : ℤ) : Catalogue lib (toggle t profileId) := by
  have key : ∀ p ∈ Profiles.toggle t profileId, ∃ q ∈ t, ∃ enabled, p = { q with enabled := enabled } := by
    intro p hp
    obtain ⟨q, hq, rfl⟩ := Table.mem_update.1 hp
    refine ⟨q, hq, ?_⟩
    split_ifs
    · exact ⟨_, rfl⟩
    · exact ⟨_, rfl⟩
  have hsame : ∀ p ∈ Profiles.toggle t profileId, ∀ q ∈ Profiles.toggle t profileId, p.id = q.id → p = q :=
    fun p hp q hq hid => Table.eq_of_key hp hq hid
  refine ⟨⟨fun p hp q hq hkeys => ?_, fun p hp q hq hnames => ?_⟩, fun p hp => ?_, fun p hp => ?_, fun b hb => ?_⟩
  · obtain ⟨p₀, hp₀, e, hpe⟩ := key p hp
    obtain ⟨q₀, hq₀, e', hqe⟩ := key q hq
    refine hsame p hp q hq ?_
    rw [hpe, hqe] at hkeys ⊢
    show p₀.id = q₀.id
    rw [h.keys p₀ hp₀ q₀ hq₀ hkeys]
  · obtain ⟨p₀, hp₀, e, hpe⟩ := key p hp
    obtain ⟨q₀, hq₀, e', hqe⟩ := key q hq
    refine hsame p hp q hq ?_
    rw [hpe, hqe] at hnames ⊢
    show p₀.id = q₀.id
    rw [h.names p₀ hp₀ q₀ hq₀ hnames]
  · obtain ⟨q, hq, e, rfl⟩ := key p hp
    exact (h.sound q hq).withEnabled e
  · obtain ⟨q, hq, e, rfl⟩ := key p hp
    exact h.builtin q hq
  · obtain ⟨p, hp, hpb⟩ := h.seeded b hb
    refine ⟨if p.id = profileId then { p with enabled := !p.enabled } else p, Table.mem_update.2 ⟨p, hp, rfl⟩, ?_⟩
    split_ifs
    · exact hpb
    · exact hpb

/-- a built-in row is not deleted -/
theorem Catalogue.delete (h : Catalogue lib t) (hrow : row ∈ t) {used : ℕ × ℕ} (hdelete : delete t row used = .ok t') :
    Catalogue lib t' := by
  unfold Profiles.delete at hdelete
  split_ifs at hdelete with hbuiltin hused
  rw [← Except.ok.inj hdelete]
  have hmem : ∀ p, p ∈ t.filter (·.id ≠ row.id) → p ∈ t := fun p hp => (Table.mem_filter.1 hp).1
  refine ⟨⟨fun p hp q hq => h.keys p (hmem p hp) q (hmem q hq), fun p hp q hq => h.names p (hmem p hp) q (hmem q hq)⟩,
    fun p hp => h.sound p (hmem p hp), fun p hp => h.builtin p (hmem p hp), fun b hb => ?_⟩
  obtain ⟨p, hp, hpb⟩ := h.seeded b hb
  refine ⟨p, Table.mem_filter.2 ⟨hp, ?_⟩, hpb⟩
  refine decide_eq_true fun hid => hbuiltin ?_
  rw [← Table.eq_of_key hp hrow hid, h.builtin p hp, hpb]
  exact List.any_eq_true.2 ⟨b, hb, beq_self_eq_true _⟩

/-- an item of a profile file as the import reads it -/
def Readable (lib : ProfileLib) (item : Json) (key : String) (v : Reading) : Prop :=
  ∃ fields, item = .obj fields ∧ stripped (Json.get fields "key") = .ok key ∧ key ≠ "" ∧ readFields lib fields = .ok v ∧
    Valid lib fields

/-- an item whose key is there -/
def Skipped (t : ProfileTable) (item : Json) : Prop :=
  ∃ fields key, item = .obj fields ∧ stripped (Json.get fields "key") = .ok key ∧ key ≠ "" ∧ ∃ row ∈ t, row.key = key

theorem importItem_of_skipped {item : Json} (h : Skipped t item) : importItem lib false t item = .ok t := by
  obtain ⟨fields, key, rfl, hkey, hne, row, hrow, hrk⟩ := h
  unfold importItem
  dsimp only
  rw [hkey]
  simp only [bind, Except.bind, if_neg hne]
  cases hfound : byKey t key with
  | none => exact absurd hrk (byKey_eq_none.1 hfound row hrow)
  | some found => rfl

/-- **An item of an import** is skipped or written. -/
theorem importItem_ok {replace : Bool} {item : Json} (ht : Distinct t) (h : importItem lib replace t item = .ok t') :
    (replace = false ∧ t' = t ∧ Skipped t item) ∨ ∃ key v, Readable lib item key v ∧ Upsert t key v t' := by
  cases item with
  | obj fields =>
    obtain ⟨key, hkey, h⟩ := bind_eq_ok.1 h
    by_cases hne : key = ""
    · rw [if_pos hne] at h
      cases h
    rw [if_neg hne] at h
    cases hrow : byKey t key with
    | none =>
      rw [hrow] at h
      obtain ⟨u, hc, h⟩ := bind_eq_ok.1 h
      obtain ⟨v, hread, rfl⟩ := addProfile_iff.1 h
      obtain ⟨name, hname, hcheck, hvalid⟩ := checked_iff.1 hc
      have heq : name = v.name := Except.ok.inj (hname.symm.trans (name_of_readFields hread))
      refine .inr ⟨key, v, ⟨fields, rfl, hkey, hne, hread, hvalid⟩, ?_⟩
      unfold Upsert
      rw [hrow]
      exact ⟨heq ▸ hcheck, rfl⟩
    | some row =>
      rw [hrow] at h
      obtain ⟨hmem, rfl⟩ := key_of_byKey hrow
      dsimp only at h
      split_ifs at h with hreplace
      · obtain ⟨u, hc, h⟩ := bind_eq_ok.1 h
        obtain ⟨v, hread, rfl⟩ := (writeProfile_iff hmem).1 h
        obtain ⟨name, hname, hcheck, hvalid⟩ := checked_iff.1 hc
        have heq : name = v.name := Except.ok.inj (hname.symm.trans (name_of_readFields hread))
        exact .inr ⟨row.key, v, ⟨fields, rfl, hkey, hne, hread, hvalid⟩, upsert_write ht hmem (heq ▸ hcheck)⟩
      · exact .inl ⟨by simpa using hreplace, (Except.ok.inj h).symm, fields, row.key, rfl, hkey, hne, row, hmem, rfl⟩
  | _ => cases h

/-- **An item is written**, if it is read and its name is free. -/
theorem importItem_of_upsert {replace : Bool} {item : Json} (hitem : Readable lib item key v)
    (hu : Upsert t key v t') (hreplace : byKey t key ≠ none → replace = true) : importItem lib replace t item = .ok t' := by
  obtain ⟨fields, rfl, hkey, hne, hread, hvalid⟩ := hitem
  have hname := name_of_readFields hread
  unfold importItem
  dsimp only
  rw [hkey]
  simp only [bind, Except.bind, if_neg hne]
  unfold Upsert at hu
  cases hrow : byKey t key with
  | none =>
    rw [hrow] at hu
    obtain ⟨hcheck, rfl⟩ := hu
    have hc : checked lib t fields none (key ++ ": ") = .ok () := checked_iff.2 ⟨_, hname, hcheck, hvalid⟩
    dsimp only
    rw [hc]
    exact addProfile_iff.2 ⟨v, hread, rfl⟩
  | some row =>
    rw [hrow] at hu hreplace
    obtain ⟨hcheck, rfl⟩ := hu
    have hc : checked lib t fields (some row.id) (key ++ ": ") = .ok () := checked_iff.2 ⟨_, hname, hcheck, hvalid⟩
    dsimp only
    rw [if_pos (hreplace (by simp)), hc]
    exact (writeProfile_iff (key_of_byKey hrow).1).2 ⟨v, hread, rfl⟩

theorem Catalogue.importItem {replace : Bool} {item : Json} (h : Catalogue lib t) (hw : item.Written lib.floats)
    (himport : importItem lib replace t item = .ok t') : Catalogue lib t' := by
  rcases importItem_ok h.toDistinct himport with ⟨-, rfl, -⟩ | ⟨key, v, ⟨fields, rfl, hkey, hne, hread, hvalid⟩, hu⟩
  · exact h
  · exact hu.catalogue h (fits_of_valid hw.2 hread hvalid hu.name_ok) (strip_of_stripped hkey) hne

theorem Catalogue.importProfiles {replace : Bool} {items : List Json} (h : Catalogue lib t)
    (hw : ∀ v ∈ items, v.Written lib.floats) (himport : importProfiles lib replace items t = .ok t') : Catalogue lib
      t' := by
  induction items generalizing t with
  | nil =>
    rw [← Except.ok.inj himport]
    exact h
  | cons item items ih =>
    obtain ⟨t₁, h₁, himport⟩ := bind_eq_ok.1 himport
    exact ih (h.importItem (hw item List.mem_cons_self) h₁) (fun v hv => hw v (List.mem_cons_of_mem item hv)) himport

/-! ## Runs -/

/-- a table with every preset is not changed by a start of the application -/
theorem Catalogue.seed (h : Catalogue lib t) : ensureBuiltins t = t := by
  have key : ∀ l : List Builtin, (∀ b ∈ l, b ∈ builtins) → l.foldl ensureBuiltin t = t := by
    intro l hl
    induction l with
    | nil => rfl
    | cons b l ih =>
      obtain ⟨p, hp, hpb⟩ := h.seeded b (hl b List.mem_cons_self)
      have hsame : ensureBuiltin t b = t := by
        unfold ensureBuiltin
        rw [if_pos]
        rw [h.toDistinct.byKey_iff.2 ⟨hp, hpb⟩]
        rfl
      rw [List.foldl_cons, hsame]
      exact ih fun c hc => hl c (List.mem_cons_of_mem _ hc)
  exact key builtins fun _ hb => hb

/-- the rows of the presets are sound -/
theorem sound_preset {b : Builtin} (hb : b ∈ builtins) (id : ℤ) : (b.row id).Sound lib := by
  have htext : ∀ b ∈ builtins, strip b.key.toList = b.key.toList ∧ b.key ≠ "" ∧ strip b.name.toList = b.name.toList ∧
      b.name ≠ "" ∧ b.name.length ≤ 100 ∧ b.description.toList.length ≤ 500 := by decide +kernel
  obtain ⟨hkey, hkey_ne, hname, hname_ne, hlength, hdescription⟩ := htext b hb
  have key : ((b.key == "custom") = true → (b.row id).keyUsageJson = none ∧ (b.row id).extendedKeyUsageJson = none) →
      ((b.key == "custom") = false → UsageColumn lib (fun v => checkKeyUsage v = []) (b.row id).keyUsageJson ∧
        UsageColumn lib (fun v => checkList (oneOf ekuNames) "Extended key usage has unknown values." v = .ok [])
          (b.row id).extendedKeyUsageJson) → (b.row id).Sound lib := fun hcustom husage =>
    ⟨hkey, hkey_ne, hname, hname_ne, hlength, hdescription, hcustom, fun hc => (husage hc).1, fun hc => (husage hc).2,
      (by decide : (1 : ℤ) ≤ 365), (fun _ h => nomatch h), (fun _ h => nomatch h), (fun _ h => nomatch h),
        (fun _ _ h => nomatch h), .inl rfl,
      .inl rfl, .inl rfl, .inl rfl⟩
  have usage : ∀ on l, b.keyUsage = some (ku on) → b.extendedKeyUsage = some l → checkKeyUsage (ku on) = [] →
      checkList (oneOf ekuNames) "Extended key usage has unknown values." (names l) = .ok [] →
      UsageColumn lib (fun v => checkKeyUsage v = []) (b.row id).keyUsageJson ∧
        UsageColumn lib (fun v => checkList (oneOf ekuNames) "Extended key usage has unknown values." v = .ok [])
          (b.row id).extendedKeyUsageJson := by
    intro on l hku heku hok hok'
    refine ⟨⟨ku on, written_flags _, hok, ?_⟩, names l, written_names l, hok', ?_⟩
    · show b.keyUsage.map _ = _
      rw [hku]
      rfl
    · show b.extendedKeyUsage.map _ = _
      rw [heku]
      rfl
  simp only [builtins, List.mem_cons, List.not_mem_nil, or_false] at hb
  rcases hb with rfl | rfl | rfl | rfl | rfl
  · exact key (fun h => absurd h (by decide)) fun _ => usage _ _ rfl rfl (by decide) (by rfl)
  · exact key (fun h => absurd h (by decide)) fun _ => usage _ _ rfl rfl (by decide) (by rfl)
  · exact key (fun h => absurd h (by decide)) fun _ => usage _ _ rfl rfl (by decide) (by rfl)
  · exact key (fun h => absurd h (by decide)) fun _ => usage _ _ rfl rfl (by decide) (by rfl)
  · exact key (fun _ => ⟨rfl, rfl⟩) fun h => absurd h (by decide)

/-- **A new table** is a catalogue. -/
theorem catalogue_start : Catalogue lib (ensureBuiltins Table.empty) := by
  have hrows : ∀ p ∈ ensureBuiltins Table.empty, ∃ b ∈ builtins, ∃ id, p = b.row id := by
    intro p hp
    have hmem : p ∈ (builtins.zipIdx 1).map fun b => b.1.row b.2 := hp
    obtain ⟨⟨b, id⟩, hb, rfl⟩ := List.mem_map.1 hmem
    exact ⟨b, List.fst_mem_of_mem_zipIdx hb, _, rfl⟩
  have hkeys : ∀ p ∈ ensureBuiltins Table.empty, ∀ q ∈ ensureBuiltins Table.empty, p.key = q.key ∨ p.name = q.name →
      p.id = q.id := by decide +kernel
  refine ⟨⟨fun p hp q hq h => ?_, fun p hp q hq h => ?_⟩, fun p hp => ?_, by decide +kernel, by decide +kernel⟩
  · exact Table.eq_of_key hp hq (hkeys p hp q hq (.inl h))
  · exact Table.eq_of_key hp hq (hkeys p hp q hq (.inr h))
  · obtain ⟨b, hb, id, rfl⟩ := hrows p hp
    exact sound_preset hb id

end Upsert

/-- an operation on the profiles -/
inductive Change (lib : ProfileLib)
  /-- a start of the application -/
  | seed
  | create (fields : { f : Fields // Json.WrittenFields lib.floats f })
  | update (profileId : ℤ) (fields : { f : Fields // Json.WrittenFields lib.floats f })
  | toggle (profileId : ℤ)
  /-- `used` counts the certificates and the CSRs of the profile -/
  | delete (profileId : ℤ) (used : ℕ × ℕ)
  | importProfiles (replace : Bool) (items : List { v : Json // v.Written lib.floats })

/-- an operation, which fails as a whole -/
def change (lib : ProfileLib) (t : ProfileTable) : Change lib → ProfileTable
  | .seed => ensureBuiltins t
  | .create fields => ((create lib t fields.1).toOption).getD t
  | .update profileId fields => ((t.get? profileId).bind fun row => (update lib t row fields.1).toOption).getD t
  | .toggle profileId => toggle t profileId
  | .delete profileId used => ((t.get? profileId).bind fun row => (delete t row used).toOption).getD t
  | .importProfiles replace items => ((importProfiles lib replace (items.map (·.1)) t).toOption).getD t

/-- **Step lemma.** Every operation keeps a catalogue. -/
theorem Catalogue.change {lib : ProfileLib} {t : ProfileTable} (h : Catalogue lib t) (o : Change lib) :
    Catalogue lib (change lib t o) := by
  have key : ∀ r : Except PyError ProfileTable, (∀ t', r = .ok t' → Catalogue lib t') →
    Catalogue lib (r.toOption.getD t) := by
    intro r hr
    cases r with
    | error e => exact h
    | ok t' => exact hr t' rfl
  cases o with
  | seed =>
    unfold Profiles.change
    rw [h.seed]
    exact h
  | create fields => exact key _ fun t' ht' => h.create fields.2 ht'
  | update profileId fields =>
    unfold Profiles.change
    dsimp only
    cases hrow : t.get? profileId with
    | none => exact h
    | some row => exact key _ fun t' ht' => h.update (Table.mem_of_get? hrow) fields.2 ht'
  | toggle profileId => exact h.toggle profileId
  | delete profileId used =>
    unfold Profiles.change
    dsimp only
    cases hrow : t.get? profileId with
    | none => exact h
    | some row => exact key _ fun t' ht' => h.delete (Table.mem_of_get? hrow) ht'
  | importProfiles replace items =>
    refine key _ fun t' ht' => h.importProfiles (fun v hv => ?_) ht'
    obtain ⟨item, -, rfl⟩ := List.mem_map.1 hv
    exact item.2

/-- **Run lemma.** Every table that is reached is a catalogue. -/
theorem catalogue_run {lib : ProfileLib} (ops : List (Change lib)) :
    Catalogue lib (run (change lib) (ensureBuiltins Table.empty) ops) :=
  run_invariant (fun _ o h => h.change o) catalogue_start ops

end Chancery.Profiles
