import Mathlib
import QuadStore.TextIndex
/-!
# The words of a text

A word is a maximal run of letters and numbers in lower case. The runs of a text are told by where
they stand in it: what comes before a run does not end in a letter or number, and what comes after
it does not begin with one.
-/

namespace QuadStore

/-! ## Parts between separators -/

section Parts

variable {α : Type} {p : α → Bool} {xs ys rest : List α} {sep : α}

/-- A part of a list without separators, between separators or the ends of the list. -/
structure IsPart (p : α → Bool) (xs ys : List α) : Prop where
  unbroken : ∀ c ∈ ys, p c = false
  maximal : ∃ before after, xs = before ++ ys ++ after ∧
    (∀ c ∈ before.getLast?, p c = true) ∧ ∀ c ∈ after.head?, p c = true

theorem takeWhile_append_cons (h : ∀ c ∈ xs, p c = false) (hsep : p sep = true) :
    (xs ++ sep :: rest).takeWhile (!p ·) = xs := by
  rw [List.takeWhile_append_of_pos fun c hc => by simp [h c hc],
    List.takeWhile_cons_of_neg (by simp [hsep]), List.append_nil]

/-- Without a separator the whole list is the only part. -/
theorem isPart_of_forall (h : ∀ c ∈ xs, p c = false) : IsPart p xs ys ↔ ys = xs := by
  constructor
  · rintro ⟨-, before, after, rfl, hbefore, hafter⟩
    have hnone : ∀ c ∈ before ++ ys ++ after, p c ≠ true := fun c hc => by simp [h c hc]
    rcases List.eq_nil_or_concat before with rfl | ⟨b, c, rfl⟩
    · cases after with
      | nil => simp
      | cons c after => exact absurd (hafter c rfl) (hnone c (by simp))
    · exact absurd (hbefore c (by simp)) (hnone c (by simp))
  · rintro rfl
    exact ⟨h, [], [], by simp⟩

/-- A part ends before the first separator or begins after it. -/
theorem isPart_append_cons (h : ∀ c ∈ xs, p c = false) (hsep : p sep = true) :
    IsPart p (xs ++ sep :: rest) ys ↔ ys = xs ∨ IsPart p rest ys := by
  constructor
  · rintro ⟨hys, before, after, heq, hbefore, hafter⟩
    rcases List.eq_nil_or_concat before with rfl | ⟨b, c, rfl⟩
    · refine .inl ?_
      rw [List.nil_append] at heq
      have htake := congrArg (List.takeWhile (!p ·)) heq
      rw [takeWhile_append_cons h hsep] at htake
      cases after with
      | nil =>
        have hmem : sep ∈ ys := by
          rw [← List.append_nil ys, ← heq]
          simp
        rw [hys sep hmem] at hsep
        cases hsep
      | cons c after =>
        rw [takeWhile_append_cons hys (hafter c rfl)] at htake
        exact htake.symm
    · have hc : p c = true := hbefore c (by simp)
      rw [List.append_assoc] at heq
      rcases List.append_eq_append_iff.1 heq with ⟨more, hmore, hrest⟩ | ⟨more, hmore, -⟩
      · cases more with
        | nil =>
          rw [List.append_nil] at hmore
          rw [h c (by rw [← hmore]; simp)] at hc
          cases hc
        | cons d more =>
          obtain ⟨rfl, rfl⟩ := List.cons.inj hrest
          refine .inr ⟨hys, more, after, by simp, fun d hd => hbefore d ?_, hafter⟩
          rw [hmore, List.getLast?_append, List.getLast?_cons, Option.mem_def.1 hd]
          rfl
      · rw [h c (by rw [hmore]; simp)] at hc
        cases hc
  · rintro (rfl | ⟨hys, before, after, rfl, hbefore, hafter⟩)
    · exact ⟨h, [], sep :: rest, by simp, by simp, by simp [hsep]⟩
    · refine ⟨hys, xs ++ sep :: before, after, by simp, fun c hc => ?_, hafter⟩
      rcases List.eq_nil_or_concat before with rfl | ⟨b, d, rfl⟩
      · obtain rfl : sep = c := by simpa using hc
        exact hsep
      · obtain rfl : d = c := by simpa [List.getLast?_append, List.getLast?_cons] using hc
        exact hbefore d (by simp)

/-- Splitting at the separators gives the parts. -/
theorem mem_splitOnP : ys ∈ xs.splitOnP p ↔ IsPart p xs ys := by
  induction hn : xs.length using Nat.strong_induction_on generalizing xs with
  | _ n ih =>
    have htake : ∀ c ∈ xs.takeWhile (!p ·), p c = false := fun c hc => by
      simpa using List.mem_takeWhile_imp hc
    cases hdrop : xs.dropWhile (!p ·) with
    | nil =>
      have hall : ∀ c ∈ xs, p c = false := by
        rw [← List.takeWhile_append_dropWhile (p := (!p ·)) (l := xs), hdrop, List.append_nil]
        exact htake
      rw [List.splitOnP_eq_singleton hall, List.mem_singleton, isPart_of_forall hall]
    | cons sep rest =>
      have hsep : p sep = true := by
        have hhead := List.head_dropWhile_not (!p ·) (l := xs) (by simp [hdrop])
        simpa [hdrop] using hhead
      have hsplit : xs.takeWhile (!p ·) ++ sep :: rest = xs := by
        rw [← hdrop, List.takeWhile_append_dropWhile]
      have hlength : rest.length < n := by
        rw [← hn, ← hsplit, List.length_append, List.length_cons]
        omega
      rw [← hsplit, List.splitOnP_append_cons _ _ hsep, List.splitOnP_eq_singleton htake,
        List.singleton_append, List.mem_cons, isPart_append_cons htake hsep, ih _ hlength rfl]

end Parts

/-! ## Runs and words -/

/-- A run of letters and numbers that cannot be made longer. -/
structure IsRun (s run : List Char) : Prop where
  nonempty : run ≠ []
  alphanumeric : ∀ c ∈ run, Text.isAlphanumeric c = true
  maximal : ∃ before after, s = before ++ run ++ after ∧
    (∀ c ∈ before.getLast?, Text.isAlphanumeric c = false) ∧
    ∀ c ∈ after.head?, Text.isAlphanumeric c = false

/-- A run of the text in lower case. -/
def IsWord (text word : String) : Prop :=
  ∃ run, IsRun text.toList run ∧ word = Text.lowerCase (String.ofList run)

theorem mem_runs {s run : List Char} : run ∈ runs s ↔ IsRun s run := by
  rw [runs, List.mem_filter, mem_splitOnP, Bool.not_eq_true', List.isEmpty_eq_false_iff]
  constructor
  · rintro ⟨⟨hunbroken, before, after, heq, hbefore, hafter⟩, hnonempty⟩
    exact ⟨hnonempty, fun c hc => by simpa using hunbroken c hc, before, after, heq,
      fun c hc => by simpa using hbefore c hc, fun c hc => by simpa using hafter c hc⟩
  · rintro ⟨hnonempty, halphanumeric, before, after, heq, hbefore, hafter⟩
    exact ⟨⟨fun c hc => by simp [halphanumeric c hc], before, after, heq,
      fun c hc => by simp [hbefore c hc], fun c hc => by simp [hafter c hc]⟩, hnonempty⟩

theorem mem_words {text word : String} : word ∈ words text ↔ IsWord text word := by
  simp only [words, List.mem_eraseDups, List.mem_map, mem_runs, IsWord, eq_comm]

end QuadStore
