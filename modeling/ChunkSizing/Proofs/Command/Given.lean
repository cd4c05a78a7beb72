import ChunkSizing.Command.Arguments
import ChunkSizing.Proofs.Decimal.Literal
import Mathlib.Data.List.Nodup
import Mathlib.Data.List.Perm.Basic

/-!
# ChunkSizing.Proofs.Command.Given — what words give.

What is given for a transfer is its size in a word of its own and the rest attached to options
(`Given.word`). Such a word is told by its look: an attached value is whatever stands behind the
first equals sign, and a size is bare or looks like a negative number. What is given has one place,
and values at different places do not get in each other's way (`Given.put_comm`).
-/

namespace ChunkSizing.Command

variable {verb : Verb} {draft : Draft}

/-! ## Words -/

/-- A long option and the value attached to it. -/
def attached (name value : String) : String := "--" ++ name ++ "=" ++ value

/-- Two hyphens and more. -/
theorem Word.of_long {text : String} {c : Char} {rest : List Char}
    (h : text.toList = '-' :: '-' :: c :: rest) : Word.of text = .ofLong (c :: rest) := by
  rw [Word.of, h]
  rfl

/-- One hyphen and more. -/
theorem Word.of_short {text : String} {c : Char} {rest : List Char}
    (h : text.toList = '-' :: c :: rest) (hc : c ≠ '-') : Word.of text = .short (c :: rest) := by
  rw [Word.of, h]
  split
  all_goals simp_all

theorem Word.of_bare {text : String} (h : text.toList.head? ≠ some '-') : Word.of text = .bare := by
  rw [Word.of]
  split
  all_goals simp_all

/-- **An attached value is what stands behind the first equals sign**, whatever it looks like. -/
theorem Word.of_attached {name value : String} (hne : name ≠ "")
    (h : ∀ c ∈ name.toList, (c != '=') = true) :
    Word.of (attached name value) = .long name (some value) := by
  obtain ⟨first, more, hname⟩ := List.exists_cons_of_ne_nil (mt String.toList_eq_nil_iff.1 hne)
  have hchars : (attached name value).toList =
      '-' :: '-' :: first :: (more ++ '=' :: value.toList) := by
    simp [attached, hname]
  rw [Word.of_long hchars, Word.ofLong, ← List.cons_append, ← hname,
    List.takeWhile_append_of_pos h, List.dropWhile_append_of_pos h]
  simp

theorem isNumberTail_of_digits {letters : List Char} (h : ∀ c ∈ letters, c.isDigit = true)
    (first point mark : Bool) : isNumberTail first point mark letters = true := by
  induction letters generalizing first with
  | nil => rfl
  | cons c rest ih =>
    rw [isNumberTail, if_pos (h c List.mem_cons_self)]
    exact ih (fun c hc => h c (List.mem_cons_of_mem _ hc)) false

/-- **The text of an integer is bare**, or digits behind a hyphen. -/
theorem Word.of_isSigned {text : String} {i : Int} (h : Decimal.IsSigned text.toList i) :
    Word.of text = .bare ∨
      ∃ letters, Word.of text = .short letters ∧ looksNumeric letters = true ∧
        letters.head? ≠ some 'h' := by
  rcases h with ⟨n, hn, -⟩ | ⟨n, ⟨digits, htext, hne, hdigits, -⟩, -⟩
  · refine .inl (Word.of_bare fun hhead => ?_)
    obtain ⟨rest, heq⟩ := List.head?_eq_some_iff.1 hhead
    exact Decimal.not_isUnsigned_minus (heq ▸ hn)
  · obtain ⟨first, more, rfl⟩ := List.exists_cons_of_ne_nil hne
    have hfirst : first.isDigit = true := hdigits first List.mem_cons_self
    have hne (c : Char) (hc : c.isDigit = false) : first ≠ c := by
      rintro rfl
      rw [hfirst] at hc
      cases hc
    refine .inr ⟨first :: more, Word.of_short htext (hne '-' rfl), ?_, ?_⟩
    · exact isNumberTail_of_digits hdigits true true true
    · exact fun heq => hne 'h' rfl (Option.some.inj heq)

/-! ## What is given -/

/-- A measurement as it is given: a text that is a number. -/
structure Measurement where
  text : String
  value : Binary64
  reads : Binary64.ofText text = .ok value

/-- **One thing that is given for a transfer.** -/
inductive Given where
  | size (n : Int64)
  | mimeType (text : String)
  | bandwidth (measured : Measurement)
  | latency (measured : Measurement)
  | url (text : String)

namespace Given

variable {given other : Given} {givens : List Given} {target : Place} {name : String}

/-- Where it goes. -/
def place : Given → Place
  | size _ => .size
  | mimeType _ => .mimeType
  | bandwidth _ => .bandwidth
  | latency _ => .latency
  | url _ => .url

/-- Its option. The size has none. -/
def option? : Given → Option String
  | size _ => none
  | mimeType _ => some "mime-type"
  | bandwidth _ => some "bandwidth"
  | latency _ => some "latency"
  | url _ => some "url"

/-- Its value in writing: a size in decimal, everything else as it stands. -/
def text : Given → String
  | size n => n.toInt.repr
  | mimeType text => text
  | bandwidth measured => measured.text
  | latency measured => measured.text
  | url text => text

/-- **The word that gives it**: a size by itself, everything else attached to its option. -/
def word (given : Given) : String :=
  match given.option? with
  | none => given.text
  | some name => attached name given.text

/-- Its value in its place. -/
def put (draft : Draft) : Given → Draft
  | size n => { draft with size := some n }
  | mimeType text => { draft with mimeType := some text }
  | bandwidth measured => { draft with bandwidth := some measured.value }
  | latency measured => { draft with latency := some measured.value }
  | url text => { draft with url := some text }

/-- Only a query has a URL. -/
def IsFor (verb : Verb) (given : Given) : Prop := given.place = .url → verb = .query

theorem has_put : (put draft given).has target =
    (decide (target = given.place) || draft.has target) := by
  cases given <;> cases target <;> rfl

/-- **Values at different places** can be put in either order. -/
theorem put_comm (h : given.place ≠ other.place) :
    put (put draft given) other = put (put draft other) given := by
  cases given <;> cases other <;> first | rfl | exact absurd rfl h

theorem has_foldl_put : (givens.foldl put draft).has target = true ↔
    target ∈ givens.map place ∨ draft.has target = true := by
  induction givens generalizing draft with
  | nil => simp
  | cons given givens ih =>
    rw [List.foldl_cons, ih, has_put, List.map_cons, List.mem_cons, Bool.or_eq_true,
      decide_eq_true_iff]
    tauto

/-- **Values at places of their own** can be put in any order. -/
theorem foldl_put_perm {givens' : List Given} (hperm : givens.Perm givens')
    (hplaces : (givens.map place).Nodup) : givens.foldl put draft = givens'.foldl put draft := by
  refine hperm.foldl_eq' (fun given hgiven other hother draft => ?_) draft
  rcases eq_or_ne given.place other.place with heq | hne
  · rw [List.inj_on_of_nodup_map hplaces hgiven hother heq]
  · exact put_comm hne

/-! ## One value -/

theorem measurement_eq (target : Place) (measured : Measurement) :
    measurement target measured.text = .ok measured.value := by
  rw [measurement, measured.reads]

/-- **A value is read into its place**, if that is free. -/
theorem fill_text (hfree : draft.has given.place = false) :
    draft.fill given.place given.text = .ok (put draft given) := by
  unfold Draft.fill
  rw [if_neg (by simp [hfree])]
  cases given with
  | size n =>
    have hread : Decimal.int64 n.toInt.repr = .ok n :=
      Decimal.int64_eq_ok_iff.2 (Decimal.isSigned_repr n.toInt)
    dsimp only [place, text]
    rw [hread]
    rfl
  | mimeType | url => rfl
  | bandwidth measured | latency measured =>
    dsimp only [place, text]
    rw [measurement_eq]
    rfl

theorem fill_of_has {target : Place} {value : String} (h : draft.has target = true) :
    draft.fill target value = .error .repeated := if_pos h

/-- An option leads to its place, in the verbs that it is for. -/
theorem lookup_option (hverb : verb.takesSize = true) (hfor : given.IsFor verb)
    (hoption : given.option? = some name) : verb.options.lookup name = some given.place := by
  cases given <;> cases hoption <;> cases verb <;>
    first | rfl | exact absurd hverb (by decide) | exact absurd (hfor rfl) (by decide)

theorem lookup_option_eq_none (hverb : verb.takesSize = true) (hfor : ¬ given.IsFor verb)
    (hoption : given.option? = some name) : verb.options.lookup name = none := by
  obtain ⟨hplace, hquery⟩ := Classical.not_imp.1 hfor
  cases given <;> cases hplace
  cases hoption
  cases verb <;> first | rfl | exact absurd hverb (by decide) | exact absurd rfl hquery

theorem option_ne (hoption : given.option? = some name) : name ≠ "help" ∧ name ≠ "" ∧
    name.toList.all (· != '=') = true := by
  cases given <;> cases hoption <;> decide

/-- Only the size has no option. -/
theorem eq_size_of_option_eq_none (hoption : given.option? = none) : ∃ n, given = size n := by
  cases given <;> cases hoption
  exact ⟨_, rfl⟩

theorem place_ne_size (hoption : given.option? = some name) : given.place ≠ .size := by
  cases given <;> cases hoption <;> exact nofun

/-- The word of an option is the option with its value. -/
theorem look_option (hoption : given.option? = some name) :
    Word.of given.word = .long name (some given.text) := by
  have hword : given.word = attached name given.text := by
    unfold word
    rw [hoption]
  obtain ⟨-, hne, hequals⟩ := option_ne hoption
  rw [hword, Word.of_attached hne (List.all_eq_true.1 hequals)]

theorem isSigned_size (n : Int64) : Decimal.IsSigned (size n).word.toList n.toInt :=
  Decimal.isSigned_repr n.toInt

theorem look_ne_separator (given : Given) : Word.of given.word ≠ .separator := by
  cases hoption : given.option? with
  | none =>
    obtain ⟨n, rfl⟩ := eq_size_of_option_eq_none hoption
    rcases Word.of_isSigned (isSigned_size n) with hlook | ⟨letters, hlook, -⟩ <;>
      simp [hlook]
  | some name => simp [look_option hoption]

end Given

end ChunkSizing.Command
