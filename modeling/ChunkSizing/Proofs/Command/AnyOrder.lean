import ChunkSizing.Proofs.Command.Given

/-!
# ChunkSizing.Proofs.Command.AnyOrder — the command that words give, in any order.

Taking words one by one keeps one invariant: what is held back can be read, and reading it gives the
draft of what came before (`State.Holds`). A word for a free place is taken and puts its value
there; a word for a place that has its value is refused, also while that value is held back
(`Holds.take_given`, `Holds.take_given_mistake`). So a list of words is taken exactly if its things
fit, and then their order makes no difference.
-/

namespace ChunkSizing.Command

variable {verb : Verb} {state state' : State} {draft : Draft}

/-- **A mistake**: a refusal that answers no call for help or for the version. -/
def IsMistake {α : Type} (outcome : Except Refusal α) : Prop :=
  ∃ refusal, outcome = .error refusal ∧ refusal.isAnswer = false

theorem IsMistake.bind {α β : Type} {outcome : Except Refusal α} (h : IsMistake outcome)
    (next : α → Except Refusal β) : IsMistake (outcome >>= next) := by
  obtain ⟨refusal, rfl, hrefusal⟩ := h
  exact ⟨refusal, rfl, hrefusal⟩

/-! ## One word -/

/-- **The words so far give a draft**: it is what reading the rest of them leads to, and they have
taken a size if it has one. -/
structure State.Holds (state : State) (draft : Draft) : Prop where
  settle : state.settle = .ok draft
  sizeTaken : state.sizeTaken = draft.size.isSome

namespace State

theorem holds_blank : Holds ⟨.blank, .nothing, false⟩ .blank := ⟨rfl, rfl⟩

theorem Holds.isOpen (h : state.Holds draft) (hverb : verb.takesSize = true) :
    state.isOpen verb = !draft.has .size := by
  rw [State.isOpen, hverb, h.sizeTaken, Bool.true_and]
  rfl

/-- No option is waiting for a value. -/
theorem Holds.value_eq (h : state.Holds draft) (word : String) :
    state.value verb word = state.byItself verb word := by
  unfold State.value
  split
  · rename_i place hpending
    have hsettle := h.settle
    rw [State.settle, hpending] at hsettle
    cases hsettle
  · rfl

/-- **A word by itself** is the size, once. -/
theorem Holds.byItself_eq (h : state.Holds draft) (hverb : verb.takesSize = true) (word : String) :
    state.byItself verb word = if draft.has .size then .error .unknownArgument
      else .ok ⟨draft, .holding .size word, true⟩ := by
  rw [State.byItself, h.isOpen hverb, h.settle]
  cases draft.has .size <;> rfl

/-- The text of an integer is taken by itself, also if it is negative. -/
theorem Holds.take_integer (h : state.Holds draft) (hverb : verb.takesSize = true) {word : String}
    {i : Int} (hword : Decimal.IsSigned word.toList i) :
    state.take verb word (.of word) = state.byItself verb word := by
  rcases Word.of_isSigned hword with hlook | ⟨letters, hlook, hnumeric, hhead⟩
  · rw [hlook]
    exact h.value_eq word
  · rw [hlook, State.take, h.isOpen hverb]
    cases hhas : draft.has .size with
    | false =>
      rw [if_pos ⟨rfl, hnumeric⟩]
      exact h.value_eq word
    | true =>
      rw [if_neg (by simp), if_neg hhead, h.byItself_eq hverb, hhas]
      rfl

/-- An option with its value is read at once. -/
theorem Holds.long_eq (h : state.Holds draft) {name value : String} (hname : name ≠ "help") :
    state.long verb name (some value) =
      match verb.options.lookup name with
      | none => .error .unknownArgument
      | some place => (draft.fill place value).map (⟨·, .nothing, state.sizeTaken⟩) := by
  rw [State.long, if_neg hname, h.settle]
  cases verb.options.lookup name with
  | none => rfl
  | some place =>
    cases hfill : draft.fill place value <;>
      simp [bind, Except.bind, hfill, Except.map, pure, Except.pure]

variable {given : Given} {givens : List Given}

/-- **A value for a free place is taken**, and belongs to the draft from then on. -/
theorem Holds.take_given (h : state.Holds draft) (hverb : verb.takesSize = true)
    (hfor : given.IsFor verb) (hfree : draft.has given.place = false) :
    ∃ state', state.take verb given.word (.of given.word) = .ok state' ∧
      state'.Holds (given.put draft) := by
  have hfill := Given.fill_text hfree
  cases hoption : given.option? with
  | none =>
    obtain ⟨n, rfl⟩ := Given.eq_size_of_option_eq_none hoption
    rw [h.take_integer hverb (Given.isSigned_size n), h.byItself_eq hverb,
      show draft.has .size = false from hfree]
    exact ⟨_, rfl, hfill, rfl⟩
  | some name =>
    rw [Given.look_option hoption, State.take, h.long_eq (Given.option_ne hoption).1,
      Given.lookup_option hverb hfor hoption]
    dsimp only
    rw [hfill]
    refine ⟨_, rfl, rfl, ?_⟩
    have hsize : (given.put draft).has .size = draft.has .size := by
      rw [Given.has_put, decide_eq_false (Given.place_ne_size hoption).symm, Bool.false_or]
    exact h.sizeTaken.trans hsize.symm

/-- **A value that is in the way of another one**, or not for the verb, is refused. -/
theorem Holds.take_given_mistake (h : state.Holds draft) (hverb : verb.takesSize = true)
    (hbad : given.IsFor verb → draft.has given.place = true) :
    IsMistake (state.take verb given.word (.of given.word)) := by
  cases hoption : given.option? with
  | none =>
    obtain ⟨n, rfl⟩ := Given.eq_size_of_option_eq_none hoption
    have hhas : draft.has .size = true := hbad nofun
    rw [h.take_integer hverb (Given.isSigned_size n), h.byItself_eq hverb, hhas]
    exact ⟨_, rfl, rfl⟩
  | some name =>
    rw [Given.look_option hoption, State.take, h.long_eq (Given.option_ne hoption).1]
    by_cases hfor : given.IsFor verb
    · rw [Given.lookup_option hverb hfor hoption]
      dsimp only
      rw [Given.fill_of_has (hbad hfor)]
      exact ⟨_, rfl, rfl⟩
    · rw [Given.lookup_option_eq_none hverb hfor hoption]
      exact ⟨_, rfl, rfl⟩

/-! ## All words -/

theorem run_cons (word : String) (words : List String) :
    State.run verb false state (word :: words) = state.take verb word (.of word) >>=
      fun state => state.run verb (Word.of word = .separator) words := by
  rw [State.run, if_neg Bool.false_ne_true]

theorem run_given (words : List String) : State.run verb false state (given.word :: words) =
    state.take verb given.word (.of given.word) >>= fun state => state.run verb false words := by
  simp only [run_cons, decide_eq_false given.look_ne_separator]

end State

/-- **Things that can all be taken**, one after the other: each is for the verb, and each has a
place of its own that is free. -/
structure Given.Fit (verb : Verb) (draft : Draft) (givens : List Given) : Prop where
  isFor : ∀ given ∈ givens, given.IsFor verb
  free : ∀ given ∈ givens, draft.has given.place = false
  nodup : (givens.map Given.place).Nodup

theorem Given.fit_nil : Given.Fit verb draft [] := ⟨nofun, nofun, .nil⟩

theorem Given.fit_cons_iff {given : Given} {givens : List Given} :
    Given.Fit verb draft (given :: givens) ↔
      (given.IsFor verb ∧ draft.has given.place = false) ∧
        Given.Fit verb (given.put draft) givens := by
  have hfree : (∀ other ∈ givens, (given.put draft).has other.place = false) ↔
      given.place ∉ givens.map Given.place ∧ ∀ other ∈ givens, draft.has other.place = false := by
    simp only [Given.has_put, Bool.or_eq_false_iff, decide_eq_false_iff_not, List.mem_map,
      not_exists, not_and, forall_and]
  constructor
  · rintro ⟨hfor, hdraft, hplaces⟩
    rw [List.forall_mem_cons] at hfor hdraft
    rw [List.map_cons, List.nodup_cons] at hplaces
    exact ⟨⟨hfor.1, hdraft.1⟩, hfor.2, hfree.2 ⟨hplaces.1, hdraft.2⟩, hplaces.2⟩
  · rintro ⟨⟨hfor, hdraft⟩, hfors, hdrafts, hplaces⟩
    obtain ⟨hplace, hothers⟩ := hfree.1 hdrafts
    exact ⟨List.forall_mem_cons.2 ⟨hfor, hfors⟩, List.forall_mem_cons.2 ⟨hdraft, hothers⟩,
      List.nodup_cons.2 ⟨hplace, hplaces⟩⟩

namespace State

variable {givens : List Given}

/-- **Things that fit are all taken.** -/
theorem Holds.run_givens (h : state.Holds draft) (hverb : verb.takesSize = true)
    (hfit : Given.Fit verb draft givens) :
    ∃ state', State.run verb false state (givens.map Given.word) = .ok state' ∧
      state'.Holds (givens.foldl Given.put draft) := by
  induction givens generalizing state draft with
  | nil => exact ⟨state, rfl, h⟩
  | cons given givens ih =>
    obtain ⟨⟨hfor, hfree⟩, hfit⟩ := Given.fit_cons_iff.1 hfit
    obtain ⟨next, htake, hnext⟩ := h.take_given hverb hfor hfree
    rw [List.map_cons, State.run_given, htake]
    exact ih hnext hfit

/-- **Things that do not fit are refused**, wherever the first misfit stands. -/
theorem Holds.run_givens_mistake (h : state.Holds draft) (hverb : verb.takesSize = true)
    (hfit : ¬ Given.Fit verb draft givens) :
    IsMistake (State.run verb false state (givens.map Given.word)) := by
  induction givens generalizing state draft with
  | nil => exact absurd Given.fit_nil hfit
  | cons given givens ih =>
    rw [List.map_cons, State.run_given]
    by_cases hgiven : given.IsFor verb ∧ draft.has given.place = false
    · obtain ⟨next, htake, hnext⟩ := h.take_given hverb hgiven.1 hgiven.2
      rw [htake]
      exact ih hnext fun hrest => hfit (Given.fit_cons_iff.2 ⟨hgiven, hrest⟩)
    · have hbad (hfor : given.IsFor verb) : draft.has given.place = true := by
        by_contra hfree
        exact hgiven ⟨hfor, Bool.eq_false_iff.2 hfree⟩
      exact (h.take_given_mistake hverb hbad).bind _

end State

/-! ## Commands -/

/-- **A transfer as it is wanted**, with the advisor to ask. -/
structure Wanted where
  size : Int64
  mimeType : Option String
  bandwidth : Option Measurement
  latency : Option Measurement
  url : Option String

namespace Wanted

/-- All that is to be given for it. -/
def givens (wanted : Wanted) : List Given :=
  .size wanted.size :: ((wanted.mimeType.map .mimeType).toList ++
    (wanted.bandwidth.map .bandwidth).toList ++ (wanted.latency.map .latency).toList ++
    (wanted.url.map .url).toList)

/-- The transfer itself. -/
def transfer (wanted : Wanted) : Transfer where
  size := wanted.size
  mimeType := wanted.mimeType
  bandwidth := wanted.bandwidth.map Measurement.value
  latency := wanted.latency.map Measurement.value

/-- All of its values. -/
def values (wanted : Wanted) : Draft :=
  ⟨some wanted.size, wanted.mimeType, wanted.transfer.bandwidth, wanted.transfer.latency,
    wanted.url, none⟩

variable {wanted : Wanted} {givens : List Given}

theorem foldl_givens (wanted : Wanted) : wanted.givens.foldl Given.put .blank = wanted.values := by
  obtain ⟨size, mimeType, bandwidth, latency, url⟩ := wanted
  cases mimeType <;> cases bandwidth <;> cases latency <;> cases url <;> rfl

theorem nodup_givens (wanted : Wanted) : (wanted.givens.map Given.place).Nodup := by
  obtain ⟨size, mimeType, bandwidth, latency, url⟩ := wanted
  cases mimeType <;> cases bandwidth <;> cases latency <;> cases url <;>
    simp [givens, Given.place]

theorem isFor_of_mem (hurl : wanted.url ≠ none → verb = .query) {given : Given}
    (h : given ∈ wanted.givens) : given.IsFor verb := by
  intro hplace
  cases given <;> cases hplace
  refine hurl fun hnone => ?_
  simp [Wanted.givens, hnone] at h

theorem fit_of_perm (hurl : wanted.url ≠ none → verb = .query)
    (hperm : givens.Perm wanted.givens) : Given.Fit verb .blank givens where
  isFor _ h := isFor_of_mem hurl (hperm.mem_iff.1 h)
  free given _ := by cases given <;> rfl
  nodup := (hperm.map Given.place).nodup_iff.2 wanted.nodup_givens

theorem foldl_put_of_perm (hperm : givens.Perm wanted.givens) :
    givens.foldl Given.put .blank = wanted.values := by
  rw [← wanted.foldl_givens]
  exact (Given.foldl_put_perm hperm.symm wanted.nodup_givens).symm

end Wanted

/-- The command of a verb and of the values that its words gave. -/
def Draft.command (draft : Draft) : Verb → Except Refusal Command
  | .serve => .ok (.serve draft.bind)
  | .predict => draft.transfer.map .predict
  | .query => draft.transfer.map (.query · draft.url)
  | .plan => draft.transfer.map .plan

theorem ofVerb_eq (verb : Verb) (words : List String) : ofVerb verb words =
    (State.run verb false ⟨.blank, .nothing, false⟩ words >>= State.settle) >>=
      fun draft => draft.command verb := by
  unfold ofVerb
  cases State.run verb false ⟨.blank, .nothing, false⟩ words with
  | error refusal => rfl
  | ok state =>
    show (state.settle >>= _) = state.settle >>= _
    congr 1

/-- **What is given for a verb** decides its command, in whatever order. -/
theorem ofVerb_givens {givens : List Given} (hverb : verb.takesSize = true)
    (hfit : Given.Fit verb .blank givens) : ofVerb verb (givens.map Given.word) =
      (givens.foldl Given.put .blank).command verb := by
  obtain ⟨state, hrun, hholds⟩ := State.holds_blank.run_givens hverb hfit
  rw [ofVerb_eq, hrun]
  show (state.settle >>= _) = _
  rw [hholds.settle]
  rfl

/-- **Nothing may be given twice**, and the size must be given. -/
theorem ofVerb_givens_mistake {givens : List Given} (hverb : verb.takesSize = true)
    (hbad : ¬ (givens.map Given.place).Nodup ∨ .size ∉ givens.map Given.place) :
    IsMistake (ofVerb verb (givens.map Given.word)) := by
  by_cases hfit : Given.Fit verb .blank givens
  · have hmissing : .size ∉ givens.map Given.place := hbad.resolve_left fun h => h hfit.nodup
    have hsize : (givens.foldl Given.put .blank).size = none := by
      have hblank : ¬ Draft.blank.has .size = true := Bool.false_ne_true
      have hhas := mt Given.has_foldl_put.1 (not_or.2 ⟨hmissing, hblank⟩)
      rwa [Draft.has, Option.isSome_iff_ne_none, not_not] at hhas
    have htransfer : (givens.foldl Given.put .blank).transfer = .error .sizeMissing := by
      rw [Draft.transfer, hsize]
    rw [ofVerb_givens hverb hfit]
    cases verb with
    | serve => cases hverb
    | predict | query | plan =>
      rw [Draft.command, htransfer]
      exact ⟨_, rfl, rfl⟩
  · rw [ofVerb_eq]
    exact ((State.holds_blank.run_givens_mistake hverb hfit).bind _).bind _

/-! ## One word as a size -/

theorem Draft.size_of_fill {draft' : Draft} {place : Place} {value : String}
    (hplace : place ≠ .size) (h : draft.fill place value = .ok draft') :
    draft'.size = draft.size := by
  unfold Draft.fill at h
  split at h
  · cases h
  · cases place with
    | size => exact absurd rfl hplace
    | mimeType | url | bind =>
      obtain rfl := Except.ok.inj h
      rfl
    | bandwidth | latency =>
      obtain ⟨_, -, rfl⟩ := Json.map_eq_ok_iff.1 h
      rfl

/-- What a size is read from. -/
theorem Draft.fill_size_iff {word : String} : Draft.blank.fill .size word = .ok draft ↔
    ∃ n, Decimal.int64 word = .ok n ∧ draft = { Draft.blank with size := some n } := by
  have hfree : ¬ Draft.blank.has .size = true := Bool.false_ne_true
  unfold Draft.fill
  rw [if_neg hfree]
  dsimp only
  cases Decimal.int64 word <;> simp [eq_comm]

theorem lookup_ne_size (verb : Verb) (name : String) : verb.options.lookup name ≠ some .size := by
  intro h
  obtain ⟨front, back, hoptions, -⟩ := List.lookup_eq_some_iff.1 h
  have hmem : (name, Place.size) ∈ verb.options := by simp [hoptions]
  cases verb <;> simp [Verb.options] at hmem

/-- **An option gives no size**, with a value or without. -/
theorem State.size_of_long {name : String} {attached : Option String} {draft' : Draft}
    (hsettle : state.settle = .ok draft) (htake : state.long verb name attached = .ok state')
    (h : state'.settle = .ok draft') : draft'.size = draft.size := by
  unfold State.long at htake
  split at htake
  · -- a call for help is no state
    cases attached with
    | none =>
      rw [State.answer, hsettle] at htake
      cases htake
    | some value => cases htake
  · cases hplace : verb.options.lookup name with
    | none =>
      rw [hplace] at htake
      cases htake
    | some place =>
      rw [hplace, hsettle] at htake
      cases attached with
      | none =>
        obtain rfl := Except.ok.inj htake
        cases h
      | some value =>
        change (draft.fill place value >>= _) = _ at htake
        obtain ⟨filled, hfill, htake⟩ := Json.bind_eq_ok_iff.1 htake
        obtain rfl := Except.ok.inj htake
        obtain rfl := Except.ok.inj h
        exact Draft.size_of_fill (fun hsize => lookup_ne_size verb name (hsize ▸ hplace)) hfill

/-- **One word gives a size** only if it is one that can be read. -/
theorem State.int64_of_take {word : String} {n : Int64}
    (htake : State.take .predict ⟨.blank, .nothing, false⟩ word (.of word) = .ok state)
    (hsettle : state.settle = .ok draft) (hsize : draft.size = some n) :
    Decimal.int64 word = .ok n ∧ draft = { Draft.blank with size := some n } := by
  -- what stands by itself is read as the size
  have hitself (htake : State.byItself .predict ⟨.blank, .nothing, false⟩ word = .ok state) :
      Decimal.int64 word = .ok n ∧ draft = { Draft.blank with size := some n } := by
    obtain rfl := Except.ok.inj htake
    obtain ⟨read, hread, rfl⟩ := Draft.fill_size_iff.1 hsettle
    obtain rfl := Option.some.inj hsize
    exact ⟨hread, rfl⟩
  cases hlook : Word.of word with
  | separator =>
    rw [hlook] at htake
    obtain rfl := Except.ok.inj htake
    obtain rfl := Except.ok.inj hsettle
    cases hsize
  | long name attached =>
    rw [hlook] at htake
    rw [State.size_of_long State.holds_blank.settle htake hsettle] at hsize
    cases hsize
  | short letters =>
    rw [hlook, State.take] at htake
    split at htake
    · exact hitself htake
    · split at htake <;> cases htake
  | bare =>
    rw [hlook] at htake
    exact hitself htake

/-- **The texts of sizes**: one word is a command to predict if it is the text of a signed word. -/
theorem ofVerb_predict_iff {text : String} {command : Command} :
    ofVerb .predict [text] = .ok command ↔
      ∃ n : Int64, Decimal.IsSigned text.toList n.toInt ∧
        command = .predict ⟨n, none, none, none⟩ := by
  have hrun : State.run .predict false ⟨.blank, .nothing, false⟩ [text] =
      State.take .predict ⟨.blank, .nothing, false⟩ text (.of text) := by
    rw [State.run_cons]
    cases State.take .predict ⟨.blank, .nothing, false⟩ text (.of text) <;> rfl
  rw [ofVerb_eq, hrun]
  constructor
  · intro h
    obtain ⟨draft, h, hcommand⟩ := Json.bind_eq_ok_iff.1 h
    obtain ⟨state, htake, hsettle⟩ := Json.bind_eq_ok_iff.1 h
    obtain ⟨transfer, htransfer, rfl⟩ := Json.map_eq_ok_iff.1 hcommand
    unfold Draft.transfer at htransfer
    split at htransfer
    · cases htransfer
    · rename_i n hsize
      obtain rfl := Except.ok.inj htransfer
      obtain ⟨hread, rfl⟩ := State.int64_of_take htake hsettle hsize
      exact ⟨n, Decimal.int64_eq_ok_iff.1 hread, rfl⟩
  · rintro ⟨n, htext, rfl⟩
    have hfill := Draft.fill_size_iff.2 ⟨n, Decimal.int64_eq_ok_iff.2 htext, rfl⟩
    rw [State.holds_blank.take_integer rfl htext, State.holds_blank.byItself_eq rfl]
    show (Draft.fill .blank .size text >>= _) = _
    rw [hfill]
    rfl

/-! ## All lists of words -/

/-- **The command that words give is recovered from them.** What is wanted may be given in any
order. A thing given twice is refused, and so is a list without a size; by itself, exactly the
texts of signed words of 64 bits are sizes. -/
theorem ofArguments_recovers :
    (∀ (wanted : Wanted) (givens : List Given), givens.Perm wanted.givens →
      let words := givens.map Given.word
      ofArguments ("query" :: words) = .ok (.query wanted.transfer wanted.url) ∧
      (wanted.url = none →
        ofArguments ("predict" :: words) = .ok (.predict wanted.transfer) ∧
        ofArguments ("plan" :: words) = .ok (.plan wanted.transfer))) ∧
    (∀ word ∈ ["predict", "plan", "query"], ∀ givens : List Given,
      ¬ (givens.map Given.place).Nodup ∨ .size ∉ givens.map Given.place →
        IsMistake (ofArguments (word :: givens.map Given.word))) ∧
    ∀ (text : String) (command : Command), ofArguments ["predict", text] = .ok command ↔
      ∃ n : Int64, Decimal.IsSigned text.toList n.toInt ∧
        command = .predict ⟨n, none, none, none⟩ := by
  refine ⟨?_, ?_, fun text command => ofVerb_predict_iff⟩
  · intro wanted givens hperm words
    have hgives {verb : Verb} (hverb : verb.takesSize = true)
        (hurl : wanted.url ≠ none → verb = .query) :
        ofVerb verb words = wanted.values.command verb := by
      rw [ofVerb_givens hverb (Wanted.fit_of_perm hurl hperm), Wanted.foldl_put_of_perm hperm]
    refine ⟨hgives rfl fun _ => rfl, fun hnone => ⟨hgives rfl ?_, hgives rfl ?_⟩⟩
    all_goals exact fun hsome => absurd hnone hsome
  · intro word hword givens hbad
    simp only [List.mem_cons, List.not_mem_nil, or_false] at hword
    rcases hword with rfl | rfl | rfl
    all_goals exact ofVerb_givens_mistake rfl hbad

/-- A negative size is no option wherever it stands, values keep their hyphens and equals signs, and
of two equal options the second is one too many. -/
theorem ofArguments_recovers_negative_last :
    (∃ measured : Measurement, measured.text = "-1e3" ∧
      ofArguments ["query", "--url=--a=b", "--bandwidth=-1e3", "--mime-type=",
        "-9223372036854775808"] =
          .ok (.query ⟨Int64.minValue, some "", some measured.value, none⟩ (some "--a=b"))) ∧
    ofArguments ["plan", "--mime-type=a", "-1"] = .ok (.plan ⟨-1, some "a", none, none⟩) ∧
    IsMistake (ofArguments ["plan", "--mime-type=a", "-1", "--mime-type=a"]) := by
  obtain ⟨hrecovers, hmistake, -⟩ := ofArguments_recovers
  let measured : Measurement := ⟨"-1e3", .ofDecimal true ⟨1, 3⟩, by decide +kernel⟩
  let wanted : Wanted := ⟨Int64.minValue, some "", some measured, none, some "--a=b"⟩
  let smaller : Wanted := ⟨-1, some "a", none, none, none⟩
  refine ⟨⟨measured, rfl, ?_⟩, ?_, ?_⟩
  · exact (hrecovers wanted wanted.givens.reverse (List.reverse_perm _)).1
  · exact ((hrecovers smaller smaller.givens.reverse (List.reverse_perm _)).2 rfl).2
  · exact hmistake "plan" (by decide) [.mimeType "a", .size (-1), .mimeType "a"]
      (.inl (by decide))

end ChunkSizing.Command
