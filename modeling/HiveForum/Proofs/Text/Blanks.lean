import HiveForum.Text.Blank
import Mathlib.Data.List.DropRight

/-!
# Blanks around and between words

The words of a text are told from the text alone: they stand in it in order, with blanks around and
between them, and hold none themselves. Trimming is told likewise, by the blanks that it takes away.

## Main definitions

* `Blank.IsWord`: one or more characters that are not blank.
* `Blank.Spaced`: words with blanks around and between them.
* `Blank.Splits`: the words of a text.
* `Blank.Framed`: something with blanks around it.

## Main results

* `Blank.words_eq_iff`: the words of a text.
* `Blank.spaced_intercalate`: words that are joined by blanks.
* `Blank.trim_eq_iff`: what is left by trimming.
-/

namespace HiveForum.Blank

/-- The characters are all blank. -/
def Blanks (cs : List Char) : Prop := ∀ c ∈ cs, isBlank c = true

instance : DecidablePred Blanks := fun cs => List.decidableBAll (fun c => isBlank c = true) cs

/-- One or more characters, none of them blank. -/
def IsWord (cs : List Char) : Prop := cs ≠ [] ∧ ∀ c ∈ cs, isBlank c = false

instance : DecidablePred IsWord := fun cs =>
  @instDecidableAnd _ _ _ (List.decidableBAll (fun c => isBlank c = false) cs)

/-- Nothing, or characters of which the first is blank. -/
def StartsBlank (cs : List Char) : Prop := ∀ c, cs.head? = some c → isBlank c = true

/-- The words stand in the characters in order, with blanks around them and between any two. -/
inductive Spaced : List (List Char) → List Char → Prop
  | nil {blanks : List Char} (h : Blanks blanks) : Spaced [] blanks
  | cons {lead word rest : List Char} {words : List (List Char)} (hlead : Blanks lead)
    (hrest : StartsBlank rest) (h : Spaced words rest) :
    Spaced (word :: words) (lead ++ word ++ rest)

/-- The characters split into the words: these are all that stands between blanks. -/
structure Splits (cs : List Char) (words : List (List Char)) : Prop where
  spaced : Spaced words cs
  /-- They hold no blanks. -/
  areWords : ∀ word ∈ words, IsWord word

/-- The characters have blanks around them in a text. -/
def Framed (core cs : List Char) : Prop :=
  ∃ lead trail, Blanks lead ∧ Blanks trail ∧ cs = lead ++ core ++ trail

/-- The characters neither start nor end with a blank. -/
def Bare (core : List Char) : Prop :=
  (∀ c, core.head? = some c → isBlank c = false) ∧ ∀ c, core.getLast? = some c → isBlank c = false

variable {c : Char} {cs lead word rest core : List Char} {ws : List (List Char)}

theorem isBlank_of_lt_of_lt (h : 32 < c.toNat) (hlast : c.toNat < 127) : isBlank c = false := by
  simp only [isBlank, ranges, List.any_cons, List.any_nil, Bool.or_false, Bool.or_eq_false_iff,
    Bool.and_eq_false_iff, decide_eq_false_iff_not]
  omega

theorem bare_of_forall (h : ∀ c ∈ cs, isBlank c = false) : Bare cs :=
  ⟨fun c hc => h c (List.mem_of_head? hc), fun c hc => h c (List.mem_of_getLast? hc)⟩

/-! ### Words -/

theorem Blanks.startsBlank (h : Blanks cs) : StartsBlank cs :=
  fun c hc => h c (List.mem_of_head? hc)

theorem startsBlank_append (h : Blanks lead) (hne : lead ≠ []) (cs : List Char) :
    StartsBlank (lead ++ cs) := by
  intro c hc
  rw [List.head?_append_of_ne_nil _ hne] at hc
  exact h.startsBlank c hc

theorem Spaced.blank_cons (hc : isBlank c = true) (h : Spaced ws cs) : Spaced ws (c :: cs) := by
  cases h with
  | nil h => exact .nil (List.forall_mem_cons.2 ⟨hc, h⟩)
  | @cons lead _ _ _ hlead hrest h =>
    have hmore : Blanks (c :: lead) := List.forall_mem_cons.2 ⟨hc, hlead⟩
    exact .cons hmore hrest h

theorem Spaced.blanks_append (hlead : Blanks lead) (h : Spaced ws cs) : Spaced ws (lead ++ cs) := by
  induction lead with
  | nil => exact h
  | cons c lead ih =>
    obtain ⟨hc, hlead⟩ := List.forall_mem_cons.1 hlead
    exact (ih hlead).blank_cons hc

theorem wordsFrom_blank_cons (hc : isBlank c = true) (hne : word ≠ []) :
    wordsFrom word (c :: cs) = word :: words cs := by
  rw [wordsFrom, if_pos hc, if_neg (by simpa using hne), words]

theorem words_blank_cons (hc : isBlank c = true) : words (c :: cs) = words cs := by
  rw [words, wordsFrom, if_pos hc]
  rfl

theorem words_blanks_append (h : Blanks lead) (cs : List Char) : words (lead ++ cs) = words cs := by
  induction lead with
  | nil => rfl
  | cons c lead ih =>
    obtain ⟨hc, hlead⟩ := List.forall_mem_cons.1 h
    rw [List.cons_append, words_blank_cons hc, ih hlead]

theorem wordsFrom_append (h : ∀ c ∈ cs, isBlank c = false) (word rest : List Char) :
    wordsFrom word (cs ++ rest) = wordsFrom (word ++ cs) rest := by
  induction cs generalizing word with
  | nil => rw [List.nil_append, List.append_nil]
  | cons c cs ih =>
    obtain ⟨hc, hcs⟩ := List.forall_mem_cons.1 h
    rw [List.cons_append, wordsFrom, if_neg (by simp [hc]), ih hcs, List.append_assoc,
      List.singleton_append]

theorem wordsFrom_of_startsBlank (hne : word ≠ []) (h : StartsBlank rest) :
    wordsFrom word rest = word :: words rest := by
  cases rest with
  | nil =>
    rw [wordsFrom, if_neg (by simpa using hne)]
    rfl
  | cons c rest => rw [wordsFrom_blank_cons (h c rfl) hne, words_blank_cons (h c rfl)]

theorem Splits.words_eq (h : Splits cs ws) : words cs = ws := by
  obtain ⟨h, hws⟩ := h
  induction h with
  | nil h =>
    have hnone := words_blanks_append h []
    rwa [List.append_nil] at hnone
  | cons hlead hrest _ ih =>
    obtain ⟨⟨hne, hword⟩, hws⟩ := List.forall_mem_cons.1 hws
    rw [List.append_assoc, words_blanks_append hlead, words, wordsFrom_append hword,
      List.nil_append, wordsFrom_of_startsBlank hne hrest, ih hws]

/-- The words of a text are what it splits into, whatever word it continues. -/
theorem splits_wordsFrom (hword : ∀ c ∈ word, isBlank c = false) (cs : List Char) :
    Splits (word ++ cs) (wordsFrom word cs) := by
  -- A character that is not blank moves to the word, so that the induction is for every word.
  induction cs generalizing word with
  | nil =>
    rw [wordsFrom]
    split
    · rename_i hempty
      rw [List.isEmpty_iff.1 hempty]
      exact ⟨.nil (by simp [Blanks]), by simp⟩
    · rename_i hne
      have hlast : Spaced [word] ([] ++ word ++ []) :=
        .cons (by simp [Blanks]) (by simp [StartsBlank]) (.nil (by simp [Blanks]))
      exact ⟨hlast, List.forall_mem_singleton.2 ⟨by simpa using hne, hword⟩⟩
  | cons c cs ih =>
    by_cases hc : isBlank c = true
    · obtain ⟨hspaced, hwords⟩ : Splits cs (words cs) := ih (List.forall_mem_nil _)
      by_cases hne : word = []
      · subst hne
        have hskip : wordsFrom [] (c :: cs) = wordsFrom [] cs := words_blank_cons hc
        rw [hskip]
        exact ⟨hspaced.blank_cons hc, hwords⟩
      · have hcons : Spaced (word :: words cs) ([] ++ word ++ c :: cs) := by
          refine .cons (by simp [Blanks]) ?_ (hspaced.blank_cons hc)
          rintro d ⟨⟩
          exact hc
        rw [wordsFrom_blank_cons hc hne]
        exact ⟨hcons, List.forall_mem_cons.2 ⟨⟨hne, hword⟩, hwords⟩⟩
    · have hmore : ∀ d ∈ word ++ [c], isBlank d = false := by
        intro d hd
        rcases List.mem_append.1 hd with hd | hd
        · exact hword d hd
        · rw [List.mem_singleton.1 hd]
          exact Bool.eq_false_iff.2 hc
      have hread := ih hmore
      rw [List.append_assoc, List.singleton_append] at hread
      rwa [wordsFrom, if_neg hc]

/-- The words of a text are what it splits into. -/
theorem words_eq_iff : words cs = ws ↔ Splits cs ws := by
  constructor
  · rintro rfl
    exact splits_wordsFrom (List.forall_mem_nil _) cs
  · exact Splits.words_eq

/-- Words that are joined by blanks, with blanks before and after. -/
theorem spaced_intercalate {gap trail : List Char} (hlead : Blanks lead) (hgap : Blanks gap)
    (hne : gap ≠ []) (htrail : Blanks trail) (ws : List (List Char)) :
    Spaced ws (lead ++ gap.intercalate ws ++ trail) := by
  rw [List.append_assoc]
  refine Spaced.blanks_append hlead ?_
  induction ws with
  | nil => exact .nil htrail
  | cons word ws ih =>
    cases ws with
    | nil =>
      have hlast : Spaced [word] ([] ++ word ++ trail) :=
        .cons (by simp [Blanks]) htrail.startsBlank (.nil htrail)
      simpa [List.intercalate] using hlast
    | cons next ws =>
      have hcons : Spaced (word :: next :: ws)
          ([] ++ word ++ (gap ++ (gap.intercalate (next :: ws) ++ trail))) :=
        .cons (by simp [Blanks]) (startsBlank_append hgap hne _) (ih.blanks_append hgap)
      simpa [List.intercalate] using hcons

/-! ### Trimming -/

theorem dropWhile_blanks_append (hlead : Blanks lead)
    (h : ∀ c, cs.head? = some c → isBlank c = false) : (lead ++ cs).dropWhile isBlank = cs := by
  rw [List.dropWhile_append_of_pos hlead]
  cases cs with
  | nil => rfl
  | cons c cs => exact List.dropWhile_cons_of_neg (by simp [h c rfl])

/-- What is left by trimming neither starts nor ends with a blank, and what is taken away is
blank. -/
theorem framed_trim (cs : List Char) : Framed (trim cs) cs ∧ Bare (trim cs) := by
  have htrim : trim cs = (cs.dropWhile isBlank).rdropWhile isBlank := rfl
  have hcs : cs = cs.takeWhile isBlank ++ trim cs ++ (cs.dropWhile isBlank).rtakeWhile isBlank := by
    rw [htrim, List.append_assoc, List.rdropWhile_append_rtakeWhile,
      List.takeWhile_append_dropWhile]
  refine ⟨⟨_, _, fun c => List.mem_takeWhile_imp, fun c => List.mem_rtakeWhile_imp, hcs⟩, ?_, ?_⟩
  · intro c hc
    have hhead := List.head?_dropWhile_not isBlank cs
    rw [← List.rdropWhile_append_rtakeWhile (p := isBlank) (l := cs.dropWhile isBlank), ← htrim,
      List.head?_append, hc] at hhead
    simpa using hhead
  · intro c hc
    obtain ⟨hne, rfl⟩ := List.mem_getLast?_eq_getLast hc
    have hlast : ¬isBlank ((trim cs).getLast hne) = true :=
      List.rdropWhile_last_not isBlank (cs.dropWhile isBlank) hne
    exact Bool.eq_false_iff.2 hlast

/-- What is left by trimming is what has blanks around it and no blank at its ends. -/
theorem trim_eq_iff : trim cs = core ↔ Framed core cs ∧ Bare core := by
  constructor
  · rintro rfl
    exact framed_trim cs
  · rintro ⟨⟨lead, trail, hlead, htrail, rfl⟩, hfirst, hlast⟩
    cases core with
    | nil =>
      -- Nothing stops the first pass here: it takes both runs of blanks at once.
      refine trim_eq_nil_iff.2 fun c hc => ?_
      rw [List.append_nil] at hc
      exact (List.mem_append.1 hc).elim (hlead c) (htrail c)
    | cons first core =>
      have hreverse : Blanks trail.reverse := fun c hc => htrail c (List.mem_reverse.1 hc)
      have hstart : ∀ c, (first :: core ++ trail).head? = some c → isBlank c = false := hfirst
      have hend : ∀ c, (first :: core).reverse.head? = some c → isBlank c = false := by
        rwa [List.head?_reverse]
      rw [trim, List.append_assoc, dropWhile_blanks_append hlead hstart, List.reverse_append,
        dropWhile_blanks_append hreverse hend, List.reverse_reverse]

end HiveForum.Blank
