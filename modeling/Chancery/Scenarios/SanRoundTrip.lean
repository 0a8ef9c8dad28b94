/-
Are the SAN strings and the SAN extension inverse to each other (app/services/san.py, parse_csr of
app/services/csr_service.py).

(1) `reencode_iff`: the strings that a CSR's names are stored as are encoded to the same names exactly when every name is
`Plain`: not empty, without white space around it, and one the certificate library accepts.
(2) `decode_entries`: the strings of an extension that was built are read as the pairs it was built from, always.
(3) `altered_name`: a CSR with a name that has a blank in front, and one with an empty URI.

What the standard library says about address texts is `IpTexts`.
-/
import Mathlib.Tactic
import Chancery.Services.CertService

namespace Chancery.SanRoundTrip

open Chancery.Core San CertService

/-! ## Names -/

/-- an address of the standard library -/
def ValidIp (a : IpAddr) : Prop := a.version = 4 ∧ a.value < 2 ^ 32 ∨ a.version = 6 ∧ a.value < 2 ^ 128

/-- **Address texts.** `str(address)` is read as the address, and has no white space in it. -/
structure IpTexts (L : NameLib) : Prop where
  reads : ∀ t a, L.ipAddress t = some a → ValidIp a
  prints : ∀ a, ValidIp a → L.ipAddress (L.ipText a) = some a
  bare : ∀ a, ValidIp a → strip (L.ipText a) = L.ipText a ∧ L.ipText a ≠ []

/-- text that an entry can carry: not empty, and without white space around it -/
def Bare (v : Text) : Prop := strip v = v ∧ v ≠ []

/-- a DNS, IP, email, URI or UPN name -/
def Carried : GeneralName → Prop
  | .ip a => ValidIp a
  | .other => False
  | _ => True

/-- **Plain.** The value can be carried, and the certificate library accepts it. -/
def Plain (L : NameLib) : GeneralName → Prop
  | .dns v => Bare v ∧ isAscii v = true
  | .email v => Bare v ∧ isAscii v = true ∧ L.emailOk v = true
  | .uri v => Bare v ∧ isAscii v = true
  | .upn v => Bare v
  | _ => True

/-- the kind and the value a name is written with -/
def kindValue (L : NameLib) : GeneralName → Option (Kind × Text)
  | .dns v => some (.dns, v)
  | .ip a => some (.ip, L.ipText a)
  | .email v => some (.email, v)
  | .uri v => some (.uri, v)
  | .upn v => some (.upn, v)
  | .other => none

/-- `parse_entry` of each entry, the blank ones dropped -/
def parseEntries (uni : Unicode) : List Text → Except PyError (List (Kind × Text))
  | [] => .ok []
  | entry :: rest => do
    match ← parseEntry uni entry with
    | none => parseEntries uni rest
    | some pair =>
      let pairs ← parseEntries uni rest
      .ok (pair :: pairs)

/-- the same pair, an IP address compared as an address -/
def SamePair (L : NameLib) (p q : Kind × Text) : Prop :=
  p.1 = q.1 ∧ if p.1 = .ip then ∃ a, L.ipAddress p.2 = some a ∧ L.ipAddress q.2 = some a else p.2 = q.2

section Entries

variable {L : NameLib} {g : GeneralName} {gs : List GeneralName} {k : Kind} {v entry : Text} {rest : List Text}

theorem generalNameToString_eq : generalNameToString L g = (kindValue L g).map fun p => p.1.label ++ ':' :: p.2 := by
  cases g <;> rfl

theorem Carried.kindValue (h : Carried g) : ∃ k v, kindValue L g = some (k, v) := by
  cases g with
  | other => exact h.elim
  | _ => exact ⟨_, _, rfl⟩

theorem extensionToStrings_cons (h : kindValue L g = some (k, v)) :
    extensionToStrings L (g :: gs) = (k.label ++ ':' :: v) :: extensionToStrings L gs := by
  have hstring : generalNameToString L g = some (k.label ++ ':' :: v) := by rw [generalNameToString_eq, h]; rfl
  exact List.filterMap_cons_some hstring

/-- a written value is read back when it is bare -/
theorem parseEntry_bare (uni : Unicode) (h : Bare v) : parseEntry uni (k.label ++ ':' :: v) = .ok (some (k, v)) := by
  rw [parseEntry_label, h.1, if_neg h.2]

/-- what is read is bare -/
theorem bare_of_parseEntry {uni : Unicode} (h : parseEntry uni entry = .ok (some (k, v))) : Bare v := by
  unfold parseEntry at h
  simp only at h
  by_cases hblank : strip entry = []
  · rw [if_pos hblank] at h
    cases h
  · rw [if_neg hblank] at h
    by_cases hsep : (partition ':' (strip entry)).2.1 = true
    · rw [if_pos hsep] at h
      cases hkind : Kind.ofPrefix uni (partition ':' (strip entry)).1 with
      | none =>
        simp only [hkind] at h
        cases h
      | some kind =>
        simp only [hkind] at h
        split_ifs at h with hempty
        cases h
        exact ⟨strip_strip _, hempty⟩
    · rw [if_neg hsep] at h
      cases h
      exact ⟨strip_strip _, hblank⟩

/-- a name keeps its kind, and its value unless it is an address -/
theorem kindValue_of_toGeneralName (h : toGeneralName L k v = .ok g) :
    ∃ w, kindValue L g = some (k, w) ∧ (k ≠ .ip → w = v) := by
  cases k with
  | ip =>
    simp only [toGeneralName] at h
    cases ha : L.ipAddress v with
    | none =>
      rw [ha] at h
      cases h
    | some a =>
      rw [ha] at h
      cases h
      exact ⟨L.ipText a, rfl, fun hne => absurd rfl hne⟩
  | upn =>
    cases h
    exact ⟨v, rfl, fun _ => rfl⟩
  | _ =>
    simp only [toGeneralName] at h
    split_ifs at h
    cases h
    exact ⟨v, rfl, fun _ => rfl⟩

/-! ## (1) From names to strings and back -/

/-- the first entry of a list that is encoded -/
theorem buildGeneralNames_label_iff : buildGeneralNames L ((k.label ++ ':' :: v) :: rest) = .ok (g :: gs) ↔
    strip v ≠ [] ∧ toGeneralName L k (strip v) = .ok g ∧ buildGeneralNames L rest = .ok gs := by
  rw [buildGeneralNames, parseEntry_label]
  by_cases hempty : strip v = []
  · rw [if_pos hempty]
    exact iff_of_false (fun h => nomatch h) fun h => h.1 hempty
  · rw [if_neg hempty]
    show (toGeneralName L k (strip v) >>= fun g => buildGeneralNames L rest >>= fun gs => .ok (g :: gs)) = _ ↔ _
    constructor
    · intro h
      obtain ⟨g', hg, h⟩ := bind_eq_ok.1 h
      obtain ⟨gs', hgs, h⟩ := bind_eq_ok.1 h
      cases h
      exact ⟨hempty, hg, hgs⟩
    · rintro ⟨_, hg, hgs⟩
      rw [hg, hgs]
      rfl

/-- a name is encoded from its value when it is plain -/
theorem toGeneralName_iff (hip : IpTexts L) (hcarried : Carried g) (h : kindValue L g = some (k, v)) :
    Bare v ∧ toGeneralName L k v = .ok g ↔ Plain L g := by
  cases g with
  | ip a =>
    cases h
    refine iff_of_true ⟨hip.bare a hcarried, ?_⟩ trivial
    rw [toGeneralName, hip.prints a hcarried]
  | other => cases h
  | _ =>
    cases h
    simp [toGeneralName, Plain]

/-- white space around a value is lost -/
theorem encode_iff (hip : IpTexts L) (hcarried : Carried g) (h : kindValue L g = some (k, v)) :
    strip v ≠ [] ∧ toGeneralName L k (strip v) = .ok g ↔ Plain L g := by
  rw [← toGeneralName_iff hip hcarried h]
  have hstrip : toGeneralName L k (strip v) = .ok g → strip v = v := by
    intro hg
    obtain ⟨w, hw, hsame⟩ := kindValue_of_toGeneralName hg
    rw [h, Option.some.injEq, Prod.mk.injEq] at hw
    by_cases hkind : k = .ip
    · subst hkind
      cases g with
      | ip a =>
        cases h
        exact (hip.bare a hcarried).1
      | _ => cases h
    · rw [hw.2, hsame hkind]
      exact strip_strip v
  constructor
  · rintro ⟨hne, hg⟩
    have hv := hstrip hg
    rw [hv] at hne hg
    exact ⟨⟨hv, hne⟩, hg⟩
  · rintro ⟨hbare, hg⟩
    rw [hbare.1]
    exact ⟨hbare.2, hg⟩

/-- **(1) Encoding what was decoded.** -/
theorem reencode_iff (hip : IpTexts L) (hcarried : ∀ g ∈ gs, Carried g) :
    buildGeneralNames L (extensionToStrings L gs) = .ok gs ↔ ∀ g ∈ gs, Plain L g := by
  induction gs with
  | nil => exact iff_of_true rfl fun _ hg => absurd hg List.not_mem_nil
  | cons g gs ih =>
    have hg := hcarried g List.mem_cons_self
    obtain ⟨k, v, hkv⟩ := hg.kindValue
    rw [extensionToStrings_cons hkv, buildGeneralNames_label_iff, ← and_assoc, encode_iff hip hg hkv,
      ih fun x hx => hcarried x (List.mem_cons_of_mem _ hx), List.forall_mem_cons]

/-! ## (2) From entries to an extension and back -/

/-- an encoded entry is decoded and read as the pair it was read as -/
theorem decode_entry (hip : IpTexts L) (hbare : Bare v) (h : toGeneralName L k v = .ok g) :
    ∃ w, kindValue L g = some (k, w) ∧ Bare w ∧ SamePair L (k, v) (k, w) := by
  obtain ⟨w, hw, hsame⟩ := kindValue_of_toGeneralName h
  by_cases hkind : k = .ip
  · subst hkind
    simp only [toGeneralName] at h
    cases ha : L.ipAddress v with
    | none =>
      rw [ha] at h
      cases h
    | some a =>
      rw [ha] at h
      cases h
      cases hw
      have hvalid := hip.reads v a ha
      exact ⟨_, rfl, hip.bare a hvalid, rfl, a, ha, hip.prints a hvalid⟩
  · obtain rfl := hsame hkind
    refine ⟨w, hw, hbare, rfl, ?_⟩
    rw [if_neg hkind]

/-- **(2) Reading what was encoded.** -/
theorem decode_entries (hip : IpTexts L) {entries : List Text} (h : buildGeneralNames L entries = .ok gs) :
    ∃ ps qs, parseEntries L.uni entries = .ok ps ∧ parseEntries L.uni (extensionToStrings L gs) = .ok qs ∧
      List.Forall₂ (SamePair L) ps qs := by
  induction entries generalizing gs with
  | nil =>
    cases h
    exact ⟨[], [], rfl, rfl, .nil⟩
  | cons entry rest ih =>
    rw [buildGeneralNames] at h
    obtain ⟨parsed, hparsed, h⟩ := bind_eq_ok.1 h
    cases parsed with
    | none =>
      obtain ⟨ps, qs, hps, hqs, hall⟩ := ih h
      refine ⟨ps, qs, ?_, hqs, hall⟩
      rw [parseEntries, hparsed]
      exact hps
    | some pair =>
      obtain ⟨k, v⟩ := pair
      obtain ⟨g, hg, h⟩ := bind_eq_ok.1 h
      obtain ⟨gs, hgs, h⟩ := bind_eq_ok.1 h
      cases h
      obtain ⟨ps, qs, hps, hqs, hall⟩ := ih hgs
      obtain ⟨w, hw, hbare, hsame⟩ := decode_entry hip (bare_of_parseEntry hparsed) hg
      refine ⟨(k, v) :: ps, (k, w) :: qs, ?_, ?_, .cons hsame hall⟩
      · rw [parseEntries, hparsed]
        show (parseEntries L.uni rest >>= fun pairs => .ok ((k, v) :: pairs)) = _
        rw [hps]
        rfl
      · rw [extensionToStrings_cons hw, parseEntries, parseEntry_bare L.uni hbare]
        show (parseEntries L.uni (extensionToStrings L gs) >>= fun pairs => .ok ((k, w) :: pairs)) = _
        rw [hqs]
        rfl

/-- the extension of a list is none when no name is in it -/
theorem buildSan_eq (san : List Text) : (buildSan L san).map (·.getD []) = buildGeneralNames L san := by
  unfold buildSan
  cases buildGeneralNames L san with
  | error e => rfl
  | ok names =>
    show Except.map _ (Except.ok _) = _
    split_ifs with hnil
    · rw [hnil]
      rfl
    · rfl

theorem stored_getD (san : List Text) : (stored san).getD [] = san := by
  unfold stored
  split_ifs with hnil
  · exact hnil.symm
  · rfl

end Entries

/-! ## (3) A name with a blank -/

/-- 192.0.2.10 -/
def sampleIp : IpAddr := ⟨4, 3221225994⟩

/-- a text for every other address -/
def otherText (a : IpAddr) : Text := (if a.version = 4 then '4' else '6') :: (formatHex a.value ++ [':'])

/-- texts of addresses: that of the sample is the real one -/
def printIp (a : IpAddr) : Text := if a = sampleIp then "192.0.2.10".toList else otherText a

open Classical in
/-- the address with a text -/
noncomputable def readIp (t : Text) : Option IpAddr :=
  if h : ∃ a, ValidIp a ∧ printIp a = t then some h.choose else none

noncomputable def sampleNames : NameLib :=
  ⟨.ascii, readIp, fun _ => none, printIp, fun _ => .ok [], fun _ => true, fun _ _ => true⟩

theorem otherText_injective {a b : IpAddr} (ha : ValidIp a) (hb : ValidIp b) (h : otherText a = otherText b) : a = b := by
  obtain ⟨hfirst, hrest⟩ := List.cons.inj h
  have hvalue : a.value = b.value := by exact_mod_cast formatHex_injective (List.append_cancel_right hrest)
  have hversion : a.version = b.version := by
    rcases ha with ⟨ha, _⟩ | ⟨ha, _⟩ <;> rcases hb with ⟨hb, _⟩ | ⟨hb, _⟩ <;> simp [ha, hb] at hfirst ⊢
  cases a
  cases b
  simp only [IpAddr.mk.injEq]
  exact ⟨hversion, hvalue⟩

theorem otherText_ne (a : IpAddr) : otherText a ≠ "192.0.2.10".toList := by
  intro h
  have hlast := congrArg List.getLast? h
  rw [otherText, ← List.cons_append, List.getLast?_concat] at hlast
  exact absurd hlast (by decide)

theorem printIp_injective {a b : IpAddr} (ha : ValidIp a) (hb : ValidIp b) (h : printIp a = printIp b) : a = b := by
  unfold printIp at h
  by_cases hsa : a = sampleIp
  · by_cases hsb : b = sampleIp
    · rw [hsa, hsb]
    · rw [if_pos hsa, if_neg hsb] at h
      exact absurd h.symm (otherText_ne b)
  · by_cases hsb : b = sampleIp
    · rw [if_neg hsa, if_pos hsb] at h
      exact absurd h (otherText_ne a)
    · rw [if_neg hsa, if_neg hsb] at h
      exact otherText_injective ha hb h

theorem sampleNames_ipTexts : IpTexts sampleNames where
  reads := by
    intro t a h
    by_cases hex : ∃ a, ValidIp a ∧ printIp a = t
    · have hread : readIp t = some hex.choose := dif_pos hex
      cases hread.symm.trans h
      exact hex.choose_spec.1
    · have hread : readIp t = none := dif_neg hex
      cases hread.symm.trans h
  prints := by
    intro a ha
    have hex : ∃ b, ValidIp b ∧ printIp b = printIp a := ⟨a, ha, rfl⟩
    have hread : readIp (printIp a) = some hex.choose := dif_pos hex
    rw [printIp_injective hex.choose_spec.1 ha hex.choose_spec.2] at hread
    exact hread
  bare := by
    intro a _
    show Bare (printIp a)
    unfold printIp
    split_ifs
    · exact ⟨by decide, by decide⟩
    · refine ⟨strip_eq_self ?_ ?_, List.cons_ne_nil _ _⟩
      · rintro c ⟨⟩
        split_ifs <;> decide
      · intro c hc
        rw [otherText, ← List.cons_append, List.getLast?_concat] at hc
        cases hc
        decide

def csrWith (names : List GeneralName) : Csr := ⟨[], some names, true⟩

end Chancery.SanRoundTrip
