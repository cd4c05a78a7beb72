import ChunkSizing.Remote
import Mathlib.Data.List.Basic
import Mathlib.Data.List.DropRight

/-!
# ChunkSizing.Proofs.Remote.Endpoint — the endpoint under a base URL.

A base URL is a stem with slashes behind it, and the stem is all that its endpoint keeps. The stem
is defined without the function that computes it (`IsStem`): the longest beginning of the base that
does not end in a slash. The stem of a base that has nothing but slashes is empty.
-/

namespace ChunkSizing.Remote

variable {stem base : List Char}

/-! ## Slashes at the end -/

/-- **The stem of a base**: the longest beginning of it that does not end in a slash. -/
structure IsStem (stem base : List Char) : Prop where
  begins : stem <+: base
  unslashed : stem.getLast? ≠ some '/'
  longest : ∀ other, other <+: base → other.getLast? ≠ some '/' → other.length ≤ stem.length

/-- Two bases are the same text but for the number of slashes at the end. -/
def SameUpToSlashes (base base' : List Char) : Prop :=
  ∃ common m n, base = common ++ List.replicate m '/' ∧ base' = common ++ List.replicate n '/'

theorem withoutTrailingSlashes_append_slashes (url : List Char) (n : Nat) :
    withoutTrailingSlashes (url ++ List.replicate n '/') = withoutTrailingSlashes url := by
  induction n with
  | zero => rw [List.replicate_zero, List.append_nil]
  | succ n ih =>
    rw [List.replicate_succ', ← List.append_assoc, ← ih]
    exact List.rdropWhile_concat_pos _ _ _ rfl

/-- What is taken away are slashes, and all those at the end. -/
theorem withoutTrailingSlashes_spec (url : List Char) :
    (withoutTrailingSlashes url).getLast? ≠ some '/' ∧
      ∃ n, url = withoutTrailingSlashes url ++ List.replicate n '/' := by
  induction url using List.reverseRecOn with
  | nil => exact ⟨nofun, 0, rfl⟩
  | append_singleton url last ih =>
    by_cases hlast : last = '/'
    · subst hlast
      have hdrop : withoutTrailingSlashes (url ++ ['/']) = withoutTrailingSlashes url :=
        withoutTrailingSlashes_append_slashes url 1
      obtain ⟨hend, n, hn⟩ := ih
      rw [hdrop]
      refine ⟨hend, n + 1, ?_⟩
      rw [List.replicate_succ', ← List.append_assoc, ← hn]
    · have hkeep : withoutTrailingSlashes (url ++ [last]) = url ++ [last] :=
        List.rdropWhile_concat_neg _ _ _ (by simpa using hlast)
      rw [hkeep]
      refine ⟨?_, 0, (List.append_nil _).symm⟩
      rw [List.getLast?_concat]
      exact fun h => hlast (Option.some.inj h)

/-! ## The stem -/

theorem isStem_append_slashes (hend : stem.getLast? ≠ some '/') (n : Nat) :
    IsStem stem (stem ++ List.replicate n '/') where
  begins := List.prefix_append _ _
  unslashed := hend
  longest other hother hlast := by
    obtain hshort | ⟨slashes, rfl⟩ :=
      List.prefix_or_prefix_of_prefix hother (List.prefix_append stem _)
    · exact hshort.length_le
    · -- A longer beginning has some of the slashes, and ends in one of them unless that is none.
      have hbegins := (List.prefix_append_right_inj stem).1 hother
      have hslashes := (List.prefix_replicate_iff.1 hbegins).2
      by_cases hzero : slashes.length = 0
      · rw [List.length_append, hzero, Nat.add_zero]
      · rw [hslashes, List.getLast?_append, List.getLast?_replicate, if_neg hzero] at hlast
        exact absurd rfl hlast

theorem isStem_withoutTrailingSlashes (url : List Char) :
    IsStem (withoutTrailingSlashes url) url := by
  obtain ⟨hend, n, hn⟩ := withoutTrailingSlashes_spec url
  have hstem := isStem_append_slashes hend n
  rwa [← hn] at hstem

theorem withoutTrailingSlashes_eq_iff {url url' : List Char} :
    withoutTrailingSlashes url = withoutTrailingSlashes url' ↔ SameUpToSlashes url url' := by
  constructor
  · intro hsame
    obtain ⟨-, m, hm⟩ := withoutTrailingSlashes_spec url
    obtain ⟨-, n, hn⟩ := withoutTrailingSlashes_spec url'
    exact ⟨withoutTrailingSlashes url, m, n, hm, by rwa [hsame]⟩
  · rintro ⟨common, m, n, rfl, rfl⟩
    rw [withoutTrailingSlashes_append_slashes, withoutTrailingSlashes_append_slashes]

/-! ## The endpoint -/

theorem toList_endpoint (base : String) : (ofBaseUrl base).endpoint.toList =
    withoutTrailingSlashes base.toList ++ '/' :: "predict-chunk-size".toList :=
  String.toList_ofList

theorem endpoint_eq_iff {base base' : String} :
    (ofBaseUrl base).endpoint = (ofBaseUrl base').endpoint ↔
      withoutTrailingSlashes base.toList = withoutTrailingSlashes base'.toList := by
  rw [← String.toList_inj, toList_endpoint, toList_endpoint, List.append_left_inj]

theorem eq_nil_of_slash_append {between segment segment' : List Char} (h : '/' ∉ segment)
    (hsame : '/' :: segment = between ++ '/' :: segment') : between = [] ∧ segment = segment' := by
  cases between with
  | nil => exact ⟨rfl, (List.cons.inj hsame).2⟩
  | cons slash between =>
    obtain ⟨-, rfl⟩ := List.cons.inj hsame
    exact absurd (List.mem_append_right _ List.mem_cons_self) h

/-- A text is parted at its last slash in one way only. -/
theorem last_slash_unique {front front' segment segment' : List Char} (h : '/' ∉ segment)
    (h' : '/' ∉ segment') (hsame : front ++ '/' :: segment = front' ++ '/' :: segment') :
    front = front' ∧ segment = segment' := by
  obtain ⟨between, rfl, hrest⟩ | ⟨between, rfl, hrest⟩ := List.append_eq_append_iff.1 hsame
  · obtain ⟨rfl, hsegment⟩ := eq_nil_of_slash_append h hrest
    exact ⟨(List.append_nil _).symm, hsegment⟩
  · obtain ⟨rfl, hsegment⟩ := eq_nil_of_slash_append h' hrest
    exact ⟨List.append_nil _, hsegment.symm⟩

/-- **The endpoint under a base URL** is the stem of the base and the path of the service, whatever
the base is. So bases have one endpoint exactly if they are the same but for slashes at the end;
and the last segment of an endpoint is the path, with one slash between it and the stem. -/
theorem endpoint_ofBaseUrl (base : String) :
    (∃ stem : String, IsStem stem.toList base.toList ∧
      (ofBaseUrl base).endpoint = stem ++ "/predict-chunk-size" ∧
      ∀ front segment : List Char, '/' ∉ segment →
        (ofBaseUrl base).endpoint.toList = front ++ '/' :: segment →
          front = stem.toList ∧ front.getLast? ≠ some '/' ∧ segment = "predict-chunk-size".toList) ∧
    ∀ base' : String, (ofBaseUrl base).endpoint = (ofBaseUrl base').endpoint ↔
      SameUpToSlashes base.toList base'.toList := by
  have hstem := isStem_withoutTrailingSlashes base.toList
  refine ⟨⟨String.ofList (withoutTrailingSlashes base.toList), ?_, ?_, ?_⟩, ?_⟩
  · rwa [String.toList_ofList]
  · exact String.ofList_append
  · intro front segment hsegment hendpoint
    rw [toList_endpoint] at hendpoint
    obtain ⟨rfl, rfl⟩ := last_slash_unique (by decide) hsegment hendpoint
    exact ⟨String.toList_ofList.symm, hstem.unslashed, rfl⟩
  · intro base'
    rw [endpoint_eq_iff, withoutTrailingSlashes_eq_iff]

example : (ofBaseUrl "http://host//a///").endpoint = "http://host//a/predict-chunk-size" := by
  decide

end ChunkSizing.Remote
