import ChunkSizing.Json.Record
import ChunkSizing.Proofs.Json.Denotation
import Mathlib.Data.List.Forall2

/-!
# ChunkSizing.Proofs.Json.Entries — the texts of records.

A record's text, an object or a list, is a sequence of entries: names with the texts of values.
Entries fill a draft one by one. That comes to the same as filling it field by field, each with what
stands under its name (`Record.Grammar.fills_iff`), so the order of names does not matter. The
values of a list fill the fields in the order of declaration, as entries with the names in that
order do (`Record.Grammar.lists_iff_fills`).
-/

namespace ChunkSizing.Json

variable {α β δ : Type} {text : List UInt8} {texts : List (List UInt8)}

/-! ## Entries -/

/-- What a record's text holds: names, as they are spelled there, and texts of values. -/
abbrev Entries := List (String × List UInt8)

/-- A member that is an entry. -/
structure Member.Holds (member : Member) (entry : String × List UInt8) : Prop
    extends member.IsSpaced where
  key : SpellsText member.key entry.1
  value : member.value = entry.2

/-- **The text of a record**: an object, or a list with as many values as there are names at most.
-/
inductive RecordText (names : List String) : List UInt8 → Entries → Prop where
  | object {members : List Member} {entries : Entries} {text : List UInt8}
      (hmembers : List.Forall₂ Member.Holds members entries)
      (htext : Items (ascii '\x7d') true (members.map Member.bytes) text) :
      RecordText names (ascii '\x7b' :: text) entries
  | list {values : List (List UInt8)} {text : List UInt8} (hlength : values.length ≤ names.length)
      (htext : Items (ascii ']') true values text) :
      RecordText names (ascii '[' :: text) (names.zip values)

/-- **A whole input** with the text of a record, between white space. -/
inductive InputText (names : List String) : List UInt8 → Entries → Prop where
  | mk {before text after : List UInt8} {entries : Entries} (hbefore : Blank before)
      (htext : RecordText names text entries) (hafter : Blank after) :
      InputText names (before ++ (text ++ after)) entries

/-- The texts of the values under a name. -/
def valuesOf (name : String) (entries : Entries) : List (List UInt8) :=
  (entries.filter (·.1 == name)).map Prod.snd

theorem valuesOf_cons_self (name : String) (text : List UInt8) (entries : Entries) :
    valuesOf name ((name, text) :: entries) = text :: valuesOf name entries := by
  unfold valuesOf
  rw [List.filter_cons_of_pos (by simp), List.map_cons]

theorem valuesOf_cons_of_ne {name key : String} (h : key ≠ name) (text : List UInt8)
    (entries : Entries) : valuesOf name ((key, text) :: entries) = valuesOf name entries := by
  unfold valuesOf
  rw [List.filter_cons_of_neg (by simpa using h)]

theorem valuesOf_append (name : String) (front back : Entries) :
    valuesOf name (front ++ back) = valuesOf name front ++ valuesOf name back := by
  unfold valuesOf
  rw [List.filter_append, List.map_append]

/-! ## One field -/

section Filled

variable {language : TextLanguage β} {value? last? : Option β}

/-- **The texts under one name fill one field**, which must be empty if there is a text. -/
inductive Filled (language : TextLanguage β) : Option β → List (List UInt8) → Option β → Prop where
  | kept (value? : Option β) : Filled language value? [] value?
  | filled {text : List UInt8} {value : β} (h : language text value) :
      Filled language none [text] (some value)

theorem filled_nil_iff : Filled language value? [] last? ↔ value? = last? := by
  constructor
  · rintro ⟨⟩
    rfl
  · rintro rfl
    exact .kept value?

theorem filled_cons_iff : Filled language value? (text :: texts) last? ↔
    value? = none ∧ ∃ value, language text value ∧ Filled language (some value) texts last? := by
  constructor
  · intro h
    cases h with
    | filled htext => exact ⟨rfl, _, htext, .kept _⟩
  · rintro ⟨rfl, value, htext, hfilled⟩
    cases hfilled with
    | kept => exact .filled htext

/-- A field that must be there. -/
theorem filled_some_iff {value : β} :
    Filled language none texts (some value) ↔ ∃ text, texts = [text] ∧ language text value := by
  constructor
  · intro h
    cases h with
    | filled htext => exact ⟨_, rfl, htext⟩
  · rintro ⟨text, rfl, htext⟩
    exact .filled htext

end Filled

/-- **A known field**: the language of its values, and the place in a draft that keeps one. -/
structure Known (δ : Type) where
  field : Field δ
  Value : Type
  language : TextLanguage Value
  get : δ → Option Value
  set : δ → Value → δ
  recognizes : ∀ draft, (field.read draft).Recognizes (Storing language (set draft))
  seen_eq : ∀ draft, field.seen draft = (get draft).isSome
  get_set : ∀ draft value, get (set draft value) = some value

namespace Known

/-- The name of the field. -/
def name (known : Known δ) : String := known.field.name

theorem seen_eq_false_iff (known : Known δ) (draft : δ) :
    known.field.seen draft = false ↔ known.get draft = none := by
  rw [known.seen_eq, Option.isSome_eq_false_iff, Option.isNone_iff_eq_none]

/-- A name finds its field, if no other field has it. -/
theorem find?_name {fields : List (Known δ)} (hnodup : (fields.map name).Nodup) {known : Known δ}
    (hmem : known ∈ fields) : fields.find? (·.name == known.name) = some known := by
  induction fields with
  | nil => cases hmem
  | cons other fields ih =>
    rw [List.map_cons, List.nodup_cons] at hnodup
    rcases List.mem_cons.1 hmem with rfl | hmem
    · exact List.find?_cons_of_pos (beq_self_eq_true _)
    · have hne : other.name ≠ known.name := by
        intro heq
        exact hnodup.1 (heq ▸ List.mem_map_of_mem hmem)
      rw [List.find?_cons_of_neg (by simpa using hne)]
      exact ih hnodup.2 hmem

end Known

/-! ## One entry after the other -/

/-- **An entry is taken into a draft.** A known field must be empty; what stands under an unknown
name may be any value, and is dropped. -/
inductive Takes (fields : List (Known δ)) (draft : δ) : String × List UInt8 → δ → Prop where
  | known {name : String} {text : List UInt8} {known : Known δ} {value : known.Value}
      (hfind : fields.find? (·.name == name) = some known) (hempty : known.get draft = none)
      (htext : known.language text value) : Takes fields draft (name, text) (known.set draft value)
  | unknown {name : String} {text : List UInt8} (hfind : fields.find? (·.name == name) = none)
      (htext : IsValue text) : Takes fields draft (name, text) draft

/-- **Entries fill a draft.** -/
inductive Fills (fields : List (Known δ)) : δ → Entries → δ → Prop where
  | nil (draft : δ) : Fills fields draft [] draft
  | cons {draft next last : δ} {entry : String × List UInt8} {entries : Entries}
      (hentry : Takes fields draft entry next) (hentries : Fills fields next entries last) :
      Fills fields draft (entry :: entries) last

/-- **Values fill a draft** in the order of the fields. -/
inductive Lists : List (Known δ) → δ → List (List UInt8) → δ → Prop where
  | nil (fields : List (Known δ)) (draft : δ) : Lists fields draft [] draft
  | cons {known : Known δ} {fields : List (Known δ)} {draft last : δ} {text : List UInt8}
      {texts : List (List UInt8)} {value : known.Value} (htext : known.language text value)
      (htexts : Lists fields (known.set draft value) texts last) :
      Lists (known :: fields) draft (text :: texts) last

section Steps

variable {fields : List (Known δ)} {draft last : δ}

theorem fills_nil_iff : Fills fields draft [] last ↔ draft = last := by
  constructor
  · rintro ⟨⟩
    rfl
  · rintro rfl
    exact .nil draft

theorem lists_nil_iff : Lists fields draft [] last ↔ draft = last := by
  constructor
  · rintro ⟨⟩
    rfl
  · rintro rfl
    exact .nil fields draft

theorem lists_cons_iff {known : Known δ} : Lists (known :: fields) draft (text :: texts) last ↔
    ∃ value, known.language text value ∧ Lists fields (known.set draft value) texts last := by
  constructor
  · intro h
    cases h with
    | cons htext htexts => exact ⟨_, htext, htexts⟩
  · rintro ⟨value, htext, htexts⟩
    exact .cons htext htexts

theorem Lists.length_le (h : Lists fields draft texts last) : texts.length ≤ fields.length := by
  induction h with
  | nil => exact Nat.zero_le _
  | cons _ _ ih => exact Nat.succ_le_succ ih

end Steps

/-! ## Records -/

/-- **The grammar of a record**: its fields. Names are distinct, a new draft is empty, setting one
field leaves the others as they were, and the fields make the draft. -/
structure Record.Grammar (record : Record δ α) where
  fields : List (Known δ)
  fields_eq : record.fields = fields.map Known.field
  nodup : (fields.map Known.name).Nodup
  blank : ∀ known ∈ fields, known.get record.blank = none
  apart : ∀ known ∈ fields, ∀ other ∈ fields, other.name ≠ known.name →
    ∀ draft value, other.get (known.set draft value) = other.get draft
  ext : ∀ {draft last}, (∀ known ∈ fields, known.get draft = known.get last) → draft = last

namespace Record.Grammar

variable {record : Record δ α} {draft last : δ} {entries : Entries}

/-- The names of the fields, in the order of declaration. -/
def names (grammar : record.Grammar) : List String := grammar.fields.map Known.name

theorem eq_of_name_eq (grammar : record.Grammar) {known other : Known δ}
    (hknown : known ∈ grammar.fields) (hother : other ∈ grammar.fields)
    (h : other.name = known.name) : other = known := by
  have hfind := Known.find?_name grammar.nodup hother
  rw [h, Known.find?_name grammar.nodup hknown] at hfind
  exact (Option.some.inj hfind).symm

/-- An entry of a known name, in front of others. -/
theorem fills_known_iff (grammar : record.Grammar) {known : Known δ}
    (hmem : known ∈ grammar.fields) :
    Fills grammar.fields draft ((known.name, text) :: entries) last ↔ known.get draft = none ∧
      ∃ value, known.language text value ∧
        Fills grammar.fields (known.set draft value) entries last := by
  have hname := Known.find?_name grammar.nodup hmem
  constructor
  · intro h
    cases h with
    | cons hentry hentries =>
      cases hentry with
      | known hfind hempty htext =>
        obtain rfl := Option.some.inj (hname.symm.trans hfind)
        exact ⟨hempty, _, htext, hentries⟩
      | unknown hfind =>
        rw [hname] at hfind
        cases hfind
  · rintro ⟨hempty, value, htext, hentries⟩
    exact .cons (.known hname hempty htext) hentries

/-- An entry of an unknown name, in front of others. -/
theorem fills_unknown_iff (grammar : record.Grammar) {name : String} (h : name ∉ grammar.names) :
    Fills grammar.fields draft ((name, text) :: entries) last ↔
      IsValue text ∧ Fills grammar.fields draft entries last := by
  have hnone : grammar.fields.find? (·.name == name) = none := by
    rw [List.find?_eq_none]
    intro known hmem hname
    exact h (List.mem_map.2 ⟨known, hmem, beq_iff_eq.1 hname⟩)
  constructor
  · intro h
    cases h with
    | cons hentry hentries =>
      cases hentry with
      | known hfind =>
        rw [hnone] at hfind
        cases hfind
      | unknown _ htext => exact ⟨htext, hentries⟩
  · rintro ⟨htext, hentries⟩
    exact .cons (.unknown hnone htext) hentries

/-- **Entry by entry is field by field.** -/
theorem fills_iff (grammar : record.Grammar) : Fills grammar.fields draft entries last ↔
    (∀ known ∈ grammar.fields,
      Filled known.language (known.get draft) (valuesOf known.name entries) (known.get last)) ∧
    ∀ entry ∈ entries, entry.1 ∉ grammar.names → IsValue entry.2 := by
  induction entries generalizing draft with
  | nil =>
    have hnil (name : String) : valuesOf name [] = [] := rfl
    simp only [fills_nil_iff, hnil, filled_nil_iff, List.not_mem_nil, false_imp_iff, implies_true,
      and_true]
    constructor
    · rintro rfl known _
      rfl
    · exact grammar.ext
  | cons entry entries ih =>
    obtain ⟨name, text⟩ := entry
    rw [List.forall_mem_cons]
    by_cases hname : name ∈ grammar.names
    · obtain ⟨known, hmem, rfl⟩ := List.mem_map.1 hname
      rw [grammar.fills_known_iff hmem]
      simp only [ih, hname, not_true, false_imp_iff, true_and]
      -- the text goes to its own field, and the others see no difference
      constructor
      · rintro ⟨hempty, value, htext, hfields, hunknown⟩
        refine ⟨fun other hother => ?_, hunknown⟩
        have hfield := hfields other hother
        by_cases hne : other.name = known.name
        · obtain rfl := grammar.eq_of_name_eq hmem hother hne
          rw [valuesOf_cons_self, filled_cons_iff]
          rw [other.get_set] at hfield
          exact ⟨hempty, value, htext, hfield⟩
        · rw [valuesOf_cons_of_ne (Ne.symm hne)]
          rwa [grammar.apart known hmem other hother hne] at hfield
      · rintro ⟨hfields, hunknown⟩
        have hown := hfields known hmem
        rw [valuesOf_cons_self, filled_cons_iff] at hown
        obtain ⟨hempty, value, htext, hfilled⟩ := hown
        refine ⟨hempty, value, htext, fun other hother => ?_, hunknown⟩
        by_cases hne : other.name = known.name
        · obtain rfl := grammar.eq_of_name_eq hmem hother hne
          rw [other.get_set]
          exact hfilled
        · have hfield := hfields other hother
          rw [valuesOf_cons_of_ne (Ne.symm hne)] at hfield
          rwa [grammar.apart known hmem other hother hne]
    · have hvalues : ∀ known ∈ grammar.fields,
          valuesOf known.name ((name, text) :: entries) = valuesOf known.name entries := by
        intro known hmem
        refine valuesOf_cons_of_ne ?_ text entries
        rintro rfl
        exact hname (List.mem_map_of_mem hmem)
      rw [grammar.fills_unknown_iff hname, ih]
      constructor
      · rintro ⟨htext, hfields, hunknown⟩
        refine ⟨fun known hmem => ?_, fun _ => htext, hunknown⟩
        rw [hvalues known hmem]
        exact hfields known hmem
      · rintro ⟨hfields, htext, hunknown⟩
        refine ⟨htext hname, fun known hmem => ?_, hunknown⟩
        rw [← hvalues known hmem]
        exact hfields known hmem

/-- **A list is an object** with the names in the order of declaration. -/
theorem lists_iff_fills (grammar : record.Grammar) {back : List (Known δ)}
    (hback : ∀ known ∈ back, known ∈ grammar.fields) (hnodup : (back.map Known.name).Nodup)
    (hempty : ∀ known ∈ back, known.get draft = none) (hlength : texts.length ≤ back.length) :
    Lists back draft texts last ↔
      Fills grammar.fields draft ((back.map Known.name).zip texts) last := by
  induction back generalizing draft texts with
  | nil =>
    obtain rfl := List.length_eq_zero_iff.1 (Nat.le_zero.1 hlength)
    rw [lists_nil_iff, List.zip_nil_right, fills_nil_iff]
  | cons known back ih =>
    cases texts with
    | nil => rw [lists_nil_iff, List.zip_nil_right, fills_nil_iff]
    | cons text texts =>
      obtain ⟨hmem, hback⟩ := List.forall_mem_cons.1 hback
      obtain ⟨hfirst, hempty⟩ := List.forall_mem_cons.1 hempty
      rw [List.map_cons, List.nodup_cons] at hnodup
      rw [lists_cons_iff, List.map_cons, List.zip_cons_cons, grammar.fills_known_iff hmem,
        and_iff_right hfirst]
      refine exists_congr fun value => and_congr_right fun _ =>
        ih hback hnodup.2 ?_ (Nat.le_of_succ_le_succ hlength)
      intro other hother
      have hne : other.name ≠ known.name := by
        intro heq
        exact hnodup.1 (heq ▸ List.mem_map_of_mem hother)
      rw [grammar.apart known hmem other (hback other hother) hne]
      exact hempty other hother

/-- What fills a new draft, by the names of a list or of an object's keys. -/
theorem blank_lists_iff (grammar : record.Grammar) (hlength : texts.length ≤ grammar.names.length) :
    Lists grammar.fields record.blank texts last ↔
      Fills grammar.fields record.blank (grammar.names.zip texts) last :=
  grammar.lists_iff_fills (fun _ hmem => hmem) grammar.nodup grammar.blank
    (hlength.trans (List.length_map _).le)

end Record.Grammar

end ChunkSizing.Json
