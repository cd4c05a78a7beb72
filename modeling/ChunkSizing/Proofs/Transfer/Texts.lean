import ChunkSizing.Proofs.Binary64.Order
import ChunkSizing.Proofs.Decimal.Significant
import ChunkSizing.Proofs.Json.Rendering
import ChunkSizing.Transfer.Format

/-!
# ChunkSizing.Proofs.Transfer.Texts — the two texts of a size.

A size is written in the document of advice and in the message about advice that cannot be followed,
under two layouts. Correctly rounded reading takes either text for the size itself, and no shorter
text (`exists_faithfulTexts`). Under both layouts the digits are those of a shortest decimal, and of
the same one unless the size is half way between two of them, both are read as it, and the lower one
is even. Then, and only then, the digits of the two texts differ, as those of `-(2 ^ 49 + 1 / 4)` do
(`texts_differ_at_even_tie`).
-/

namespace ChunkSizing

open Binary64 Decimal Json

/-- **The two texts of a size**, in a document of advice, however it is spaced, and in the message
about it. -/
structure Advice.HasTexts (advice : Advice) (json plain : List Char) : Prop where
  document : ∀ spacing : Spacing, advice.toDocument.chars spacing =
    '\x7b' :: spacing.line 1 ++ "\"chunk_size_mb\"".toList ++ spacing.colon ++ json ++
      spacing.line 0 ++ ['\x7d']
  message : (UnusableAdvice.mk advice.chunkSize).message =
    "invalid chunk_size_mb from service: " ++ String.ofList plain

/-- **An even tie between shortest decimals.** The number is half way between two decimals next to
each other, both are read as it, no text that is read as it has fewer significant digits, and the
lower one is even. -/
structure HasEvenTie (x : Binary64) (n : Nat) (exponent : Int) : Prop where
  even : n % 2 = 0
  half : |x.toRat| = (n + 1 / 2) * 10 ^ exponent
  reads : ∃ negative, ofDecimal negative ⟨n, exponent⟩ = x ∧
    ofDecimal negative ⟨n + 1, exponent⟩ = x
  fewest : ∀ text : String, Binary64.ofText text = .ok x →
    (Nat.toDigits 10 n).length ≤ (significant text.toList).length

/-- **Faithful and shortest texts.** Both are read as the number, one of them never has an exponent,
and neither could have fewer significant digits. These differ exactly at an even tie between
shortest decimals; there one text has the digits of the lower and the other those of the upper
one. -/
structure AreFaithful (x : Binary64) (json plain : List Char) : Prop where
  json_reads : Binary64.ofText (String.ofList json) = .ok x
  plain_reads : Binary64.ofText (String.ofList plain) = .ok x
  positional : 'e' ∉ plain ∧ 'E' ∉ plain
  count : (significant json).length = (significant plain).length
  fewest : ∀ text : String, Binary64.ofText text = .ok x →
    (significant json).length ≤ (significant text.toList).length
  differ_iff : significant json ≠ significant plain ↔ ∃ n exponent, HasEvenTie x n exponent
  differ : ∀ n exponent, HasEvenTie x n exponent →
    significant json = Nat.toDigits 10 n ∧ significant plain = Nat.toDigits 10 (n + 1)

variable {x : Binary64}

theorem Advice.hasTexts (hfinite : x.isFinite = true) :
    (Advice.mk x).HasTexts (numberLayout.text x) (messageLayout.text x) where
  document := by
    intro spacing
    have hchars : (Atom.number x).chars = numberLayout.text x := if_pos hfinite
    rw [toDocument, chars_single, hchars]
    rfl
  message := rfl

/-- The text of a message has no mark. -/
theorem not_mem_text_messageLayout (hfinite : x.isFinite = true) {c : Char}
    (hletter : c.isAlpha = true) : c ∉ messageLayout.text x := by
  obtain ⟨negative, rank, hrank, rfl⟩ := exists_of_isFinite hfinite
  rw [text_ofRank messageLayout negative hrank]
  intro hc
  rcases List.mem_append.1 hc with hsign | hdigits
  · cases negative with
    | true =>
      obtain rfl := List.mem_singleton.1 hsign
      cases hletter
    | false => cases hsign
  · rw [isAlpha_eq_false (isDigit_or_of_mem_plainDigits c hdigits)] at hletter
    cases hletter

section Ties

variable {negative : Bool} {rank n : Nat} {exponent : Int}

/-- The rank that a decimal is read as, whatever the sign. -/
theorem readsBack_of_ofDecimal_eq {sign : Bool} {d : Decimal} (hrank : rank < infinityRank)
    (h : ofDecimal sign d = ofRank negative rank) : sign = negative ∧ d.ReadsBack rank := by
  rw [ofDecimal_eq] at h
  rw [readsBack_iff hrank]
  simp only [ofRank, signed.injEq, Fin.mk.injEq] at h
  exact ⟨h.1, by omega⟩

/-- It is an even tie of the magnitude. -/
theorem HasEvenTie.isTie (hrank : rank < infinityRank)
    (h : HasEvenTie (ofRank negative rank) n exponent) : IsTie rank ⟨n, exponent⟩ := by
  obtain ⟨sign, hbelow, habove⟩ := h.reads
  have hhalf := h.half
  rw [abs_toRat_ofRank negative hrank.le] at hhalf
  exact ⟨h.even, by linarith, (readsBack_of_ofDecimal_eq hrank hbelow).2,
    (readsBack_of_ofDecimal_eq hrank habove).2⟩

/-- The two texts have the digits of the lower and of the upper decimal. -/
theorem HasEvenTie.significant_eq (hfinite : x.isFinite = true)
    (h : HasEvenTie x n exponent) :
    significant (numberLayout.text x) = Nat.toDigits 10 n ∧
      significant (messageLayout.text x) = Nat.toDigits 10 (n + 1) := by
  have hjson := h.fewest _ (ofText_text numberLayout hfinite)
  obtain ⟨negative, rank, hrank, rfl⟩ := exists_of_isFinite hfinite
  have htie := h.isTie hrank
  have hne : rank ≠ 0 := htie.rank_pos.ne'
  rw [String.toList_ofList, significant_text numberLayout negative hrank, if_neg hne] at hjson
  obtain ⟨hbelow, habove⟩ := shortest_of_isTie hrank htie hjson
  rw [significant_text numberLayout negative hrank, significant_text messageLayout negative hrank,
    if_neg hne, if_neg hne]
  exact ⟨congrArg written hbelow, congrArg written habove⟩

/-- An even tie of the magnitude, between decimals of the fewest digits, is one of the number. -/
theorem hasEvenTie_of_isTie (negative : Bool) (hrank : rank < infinityRank)
    (h : IsTie rank (shortest .toEven rank)) : HasEvenTie (ofRank negative rank)
      (shortest .toEven rank).digits (shortest .toEven rank).exponent := by
  have hreads {d : Decimal} (hd : d.ReadsBack rank) :
      ofDecimal negative d = ofRank negative rank := by
    rw [ofDecimal_eq, (readsBack_iff hrank d).1 hd]
  have hhalf := h.half
  refine ⟨h.even, ?_, ⟨negative, hreads h.reads, hreads h.next_reads⟩, fun text htext => ?_⟩
  · rw [abs_toRat_ofRank negative hrank.le]
    linarith
  · have hnumber : (ofRank negative rank).isFinite = true := by
      rw [isFinite_ofRank, decide_eq_true hrank]
    have hle := length_significant_text_le numberLayout hnumber htext
    rwa [significant_text numberLayout negative hrank, if_neg h.rank_pos.ne'] at hle

/-- Without an even tie between shortest decimals the two texts have the same digits. -/
theorem significant_eq_or (hfinite : x.isFinite = true) :
    significant (numberLayout.text x) = significant (messageLayout.text x) ∨
      ∃ n exponent, HasEvenTie x n exponent := by
  obtain ⟨negative, rank, hrank, rfl⟩ := exists_of_isFinite hfinite
  rcases shortest_eq_or_isTie hrank with hsame | htie
  · left
    rw [significant_text numberLayout negative hrank,
      significant_text messageLayout negative hrank]
    exact congrArg (fun d : Decimal => if rank = 0 then [] else d.written) hsame
  · exact .inr ⟨_, _, hasEvenTie_of_isTie negative hrank htie⟩

end Ties

/-- **Texts of sizes are faithful.** Every finite size has two texts; both are read as that size, to
the sign of a zero, with the fewest significant digits that any text of it has. They have the same
digits but at an even tie between shortest decimals, where both neighbours are read as the size. -/
theorem exists_faithfulTexts (hfinite : x.isFinite = true) : ∃ json plain : List Char,
    (Advice.mk x).HasTexts json plain ∧ AreFaithful x json plain := by
  have hjson := ofText_text numberLayout hfinite
  have hplain := ofText_text messageLayout hfinite
  have hboth {n : Nat} {exponent : Int} (h : HasEvenTie x n exponent) :=
    h.significant_eq hfinite
  refine ⟨_, _, Advice.hasTexts hfinite, hjson, hplain, ?_, ?_,
    fun text => length_significant_text_le numberLayout hfinite, ⟨?_, ?_⟩, fun _ _ => hboth⟩
  · exact ⟨not_mem_text_messageLayout hfinite rfl, not_mem_text_messageLayout hfinite rfl⟩
  · -- each is a text that the other is compared with
    have hle := length_significant_text_le numberLayout hfinite hplain
    have hge := length_significant_text_le messageLayout hfinite hjson
    rw [String.toList_ofList] at hle hge
    exact Nat.le_antisymm hle hge
  · exact (significant_eq_or hfinite).resolve_left
  · rintro ⟨n, exponent, h⟩ hsame
    obtain ⟨hlower, hupper⟩ := hboth h
    rw [hlower, hupper] at hsame
    have hdigits := congrArg (fun digits => Nat.ofDigitChars 10 digits 0) hsame
    simp only [Nat.ofDigitChars_ten_toDigits] at hdigits
    omega

/-- The least magnitude, below zero, has two texts of one digit. -/
theorem exists_faithfulTexts_least : (ofRank true 1).isFinite = true ∧
    ∃ json plain : List Char, (Advice.mk (ofRank true 1)).HasTexts json plain ∧
      AreFaithful (ofRank true 1) json plain :=
  ⟨rfl, exists_faithfulTexts rfl⟩

/-- **At an even tie the digits differ.** The size `-(2 ^ 49 + 1 / 4)` is half way between two
decimals of sixteen digits, the lower of which is even, and both are read as it. -/
theorem texts_differ_at_even_tie : ¬ ∀ x : Binary64, x.isFinite = true → ∀ json plain : List Char,
    (Advice.mk x).HasTexts json plain → significant json = significant plain := by
  intro h
  have hsame := h (ofRank true 4827858800541171714) rfl _ _ (Advice.hasTexts rfl)
  revert hsame
  decide +kernel

-- Half way alone is no even tie: 2 ^ -24 is half way above even digits too far away to be read as
-- it, and both texts have the digits above.
example : let x := ofRank false ((1023 - 24) * binade)
    |x.toRat| = (5960464477539062 + 1 / 2) * 10 ^ (-23 : Int) ∧
    significant (numberLayout.text x) = "5960464477539063".toList ∧
    significant (messageLayout.text x) = "5960464477539063".toList := by
  decide +kernel

end ChunkSizing
