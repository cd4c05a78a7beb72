import ChunkSizing.Json.Kinds
import ChunkSizing.Json.Skip

/-!
# ChunkSizing.Json.Record — objects with known fields.

A record is a list of fields with names. In JSON it is an object whose keys are those names, in any
order and among keys that nobody knows, or a list of the fields' values in the order of declaration,
from which fields at the end may be absent. Reading fills a draft field by field; at the end the
draft becomes the value, or names the field that it lacks.

Members are read in a loop whose bound is the length of the input: each member takes at least the
byte that opens its key.
-/

namespace ChunkSizing.Json

/-- A field of a record with drafts `δ`. -/
structure Field (δ : Type) where
  name : String
  /-- The draft has this field already. -/
  seen : δ → Bool
  /-- Reads the field's value into a draft. -/
  read : δ → Reader δ
  leaves : ∀ draft, (read draft).Leaves

/-- A record of type `α` and how its drafts begin and end. -/
structure Record (δ α : Type) where
  title : String
  fields : List (Field δ)
  blank : δ
  /-- The value of a draft, or the name of a field that it must have and lacks. -/
  finish : δ → Except String α

variable {δ α : Type}

/-! ## Members and elements -/

/-- What stands at the place of a member or an element. -/
inductive Ahead where
  | close (rest : List UInt8)
  | item (rest : List UInt8)

/-- The bytes behind what was found. -/
def Ahead.rest : Ahead → List UInt8
  | close rest => rest
  | item rest => rest

/-- The next key of an object, from behind its opening quote, or the end of the object. Every key
but the first stands behind a comma. -/
def nextKey (first : Bool) (input : List UInt8) : Except Fault Ahead :=
  match skipBlank input with
  | [] => stopPast (.ended .object) []
  | b :: rest =>
    if b = ascii '\x7d' then .ok (.close rest)
    else if first then
      if b = ascii '"' then .ok (.item rest) else stopPast .keyNotText (b :: rest)
    else if b = ascii ',' then
      match skipBlank rest with
      | [] => stopPast (.ended .value) []
      | c :: rest =>
        if c = ascii '"' then .ok (.item rest)
        else if c = ascii '\x7d' then stopPast .trailingComma (c :: rest)
        else stopPast .keyNotText (c :: rest)
    else stopPast .expectedObjectCommaOrEnd (b :: rest)

/-- The next element of a list, or the end of the list. Every element but the first stands behind a
comma. -/
def nextElement (first : Bool) (input : List UInt8) : Except Fault Ahead :=
  match skipBlank input with
  | [] => stopPast (.ended .list) []
  | b :: rest =>
    if b = ascii ']' then .ok (.close rest)
    else if first then .ok (.item (b :: rest))
    else if b = ascii ',' then
      match skipBlank rest with
      | [] => stopPast (.ended .value) []
      | c :: rest =>
        if c = ascii ']' then stopPast .trailingComma (c :: rest) else .ok (.item (c :: rest))
    else stopPast .expectedListCommaOrEnd (b :: rest)

/-- The end of a list that holds every field. -/
def lastElement (input : List UInt8) : Except Fault (List UInt8) :=
  match skipBlank input with
  | [] => stopPast (.ended .list) []
  | b :: rest =>
    if b = ascii ']' then .ok rest
    else if b = ascii ',' then
      match skipBlank rest with
      | [] => stopPast .trailingCharacters []
      | c :: rest =>
        if c = ascii ']' then stopPast .trailingComma (c :: rest)
        else stopPast .trailingCharacters (c :: rest)
    else stopPast .trailingCharacters (b :: rest)

/-- The colon behind a key. -/
def colon (input : List UInt8) : Except Fault (List UInt8) :=
  match skipBlank input with
  | [] => stopPast (.ended .object) []
  | b :: rest => if b = ascii ':' then .ok rest else stopPast .expectedColon (b :: rest)

/-- Places the faults of a result. -/
def inside (site : Site) (result : Except Fault α) : Except Fault α :=
  match result with
  | .ok value => .ok value
  | .error fault => .error (fault.within site)

/-- The bytes behind a repeated key. The brace of an object that ends there is passed too. -/
def afterRepeated (input : List UInt8) : List UInt8 :=
  match skipBlank input with
  | [] => []
  | b :: rest => if b = ascii '\x7d' then rest else b :: rest

/-- **One member**, from behind the quote of its key. A known key fills its field, and may do so
once; the value of an unknown key is skipped. -/
def readMember (fields : List (Field δ)) (draft : δ) : Reader δ := fun input =>
  match text input with
  | .error fault => .error fault
  | .ok (key, afterKey) =>
    match fields.find? (·.name == key) with
    | some field =>
      if field.seen draft then stopAt (.duplicateField field.name) (afterRepeated afterKey)
      else
        match colon afterKey with
        | .error fault => .error fault
        | .ok rest => inside (.member key) (field.read draft rest)
    | none =>
      match colon afterKey with
      | .error fault => .error fault
      | .ok rest => inside (.member key) ((skipValue rest).map fun rest => (draft, rest))

/-! ## Every member is a step forward -/

theorem nextKey_leaves {first : Bool} {input : List UInt8} {ahead : Ahead}
    (h : nextKey first input = .ok ahead) :
    ahead.rest <:+ input ∧ ahead.rest.length < input.length := by
  simp only [nextKey] at h
  split at h
  · simp [stopPast] at h
  · rename_i b rest hblank
    have hinput : b :: rest <:+ input := hblank ▸ skipBlank_suffix input
    have hlength := hinput.length_le
    have hrest : ahead.rest <:+ rest := by
      split at h
      · cases h; exact List.suffix_refl _
      split at h
      · split at h
        · cases h; exact List.suffix_refl _
        · simp [stopPast] at h
      split at h
      · split at h
        · simp [stopPast] at h
        · rename_i c rest' hblank'
          have hrest' : c :: rest' <:+ rest := hblank' ▸ skipBlank_suffix rest
          split at h
          · cases h; exact (List.suffix_cons c rest').trans hrest'
          split at h
          · simp [stopPast] at h
          · simp [stopPast] at h
      · simp [stopPast] at h
    have := hrest.length_le
    exact ⟨(hrest.trans (List.suffix_cons b rest)).trans hinput, by simp at hlength; omega⟩

theorem colon_suffix {input rest : List UInt8} (h : colon input = .ok rest) : rest <:+ input := by
  simp only [colon] at h
  split at h
  · simp [stopPast] at h
  · rename_i b tail hblank
    have hinput : b :: tail <:+ input := hblank ▸ skipBlank_suffix input
    have htail := (List.suffix_cons b tail).trans hinput
    split at h
    · cases h; exact htail
    · simp [stopPast] at h

theorem eq_ok_of_inside {site : Site} {result : Except Fault α} {value : α}
    (h : inside site result = .ok value) : result = .ok value := by
  cases result with
  | ok found => exact h
  | error fault => simp [inside] at h

theorem readMember_leaves (fields : List (Field δ)) (draft : δ) :
    (readMember fields draft).Leaves := by
  intro input _ _ h
  simp only [readMember] at h
  split at h
  · simp at h
  · rename_i key afterKey hkey
    have hafter := text_leaves hkey
    split at h
    · rename_i field hfield
      split at h
      · simp [stopAt] at h
      · split at h
        · simp at h
        · rename_i rest hcolon
          exact ((field.leaves draft (eq_ok_of_inside h)).trans (colon_suffix hcolon)).trans hafter
    · split at h
      · simp at h
      · rename_i rest hcolon
        obtain ⟨left, hvalue, hleft⟩ := map_eq_ok_iff.1 (eq_ok_of_inside h)
        obtain ⟨-, rfl⟩ := Prod.mk.inj hleft
        exact ((skipValue_suffix hvalue).trans (colon_suffix hcolon)).trans hafter

/-! ## Records -/

/-- **The members of an object**, to its closing brace. -/
def readMembers (fields : List (Field δ)) (first : Bool) (draft : δ) (input : List UInt8) :
    Except Fault (δ × List UInt8) :=
  match hahead : nextKey first input with
  | .error fault => .error fault
  | .ok (.close rest) => .ok (draft, rest)
  | .ok (.item rest) =>
    match hmember : readMember fields draft rest with
    | .error fault => .error fault
    | .ok (draft, left) =>
      have : left.length < input.length :=
        Nat.lt_of_le_of_lt (readMember_leaves fields _ hmember).length_le (nextKey_leaves hahead).2
      readMembers fields false draft left
termination_by input.length

/-- **The elements of a list**, to its closing bracket: the draft and how many elements there were.
-/
def readElements : List (Field δ) → Nat → δ → Reader (δ × Nat)
  | [], index, draft, input =>
    match lastElement input with
    | .error fault => .error fault
    | .ok rest => .ok ((draft, index), rest)
  | field :: fields, index, draft, input =>
    match nextElement (index == 0) input with
    | .error fault => .error fault
    | .ok (.close rest) => .ok ((draft, index), rest)
    | .ok (.item rest) =>
      match inside (.element index) (field.read draft rest) with
      | .error fault => .error fault
      | .ok (draft, rest) => readElements fields (index + 1) draft rest

namespace Record

/-- **A record**, as an object or as a list. -/
def read (record : Record δ α) : Reader α := onValue fun b tail =>
  if b = ascii '\x7b' then
    match readMembers record.fields true record.blank tail with
    | .error fault => .error fault
    | .ok (draft, rest) =>
      match record.finish draft with
      | .ok value => .ok (value, rest)
      | .error name => stopAt (.missingField name) rest
  else if b = ascii '[' then
    match readElements record.fields 0 record.blank tail with
    | .error fault => .error fault
    | .ok ((draft, length), rest) =>
      match record.finish draft with
      | .ok value => .ok (value, rest)
      | .error _ => stopAt (.wrongLength length record.title record.fields.length) rest
  else mismatch (.record record.title) b tail

/-- **A record at the front of an input**; whatever stands behind it is left alone. -/
def parseFront (record : Record δ α) (input : List UInt8) : Except Refusal α :=
  match record.read input with
  | .error fault => .error (fault.locate input)
  | .ok (value, _) => .ok value

/-- **A record that is the whole input**, up to white space. -/
def parse (record : Record δ α) (input : List UInt8) : Except Refusal α :=
  match record.read input with
  | .error fault => .error (fault.locate input)
  | .ok (value, rest) =>
    match skipBlank rest with
    | [] => .ok value
    | _ :: rest => .error (Fault.locate input ⟨.trailingCharacters, rest.length, none⟩)

end Record

end ChunkSizing.Json
