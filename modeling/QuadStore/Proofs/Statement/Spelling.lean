import Mathlib
import QuadStore.Proofs.Quads.Spelling
/-!
# The spelling of statements

A printed statement is one line, and tells its statement: its positions stand between blanks, and
each term tells where it ends.
-/

namespace QuadStore

open Quads

/-! ## Literals -/

namespace Literal

/-- A character is read back as it was printed. -/
theorem readChar?_escapedChar (c : Char) (s : List Char) :
    readChar? (escapedChar c ++ s) = some (c, s) := by
  unfold escapedChar
  split_ifs with hquote hslash hn hr
  · subst hquote; rfl
  · subst hslash; rfl
  · subst hn; rfl
  · subst hr; rfl
  · simp only [List.singleton_append, readChar?, hslash, if_false]

theorem escapedChar_head (c : Char) : ∃ h s, escapedChar c = h :: s ∧ h ≠ '"' := by
  unfold escapedChar
  split_ifs with hquote hslash hn hr
  all_goals first
    | exact ⟨_, _, rfl, by decide⟩
    | exact ⟨_, _, rfl, hquote⟩

theorem unbroken_escapedChar (c : Char) : Unbroken (escapedChar c) := by
  unfold escapedChar
  split_ifs with hquote hslash hn hr
  iterate 4
    · simp [Unbroken]
  · simp [Unbroken, hn, hr]

theorem render_toList (l : Literal) :
    l.render.toList = '"' :: (l.value.toList.flatMap escapedChar ++ '"' :: suffix l.kind) := by
  obtain ⟨value, kind⟩ := l
  cases kind <;> simp [render, escaped, suffix]

theorem render_append_inj {l m : Literal} {s t : List Char}
    (h : l.render.toList ++ ' ' :: s = m.render.toList ++ ' ' :: t) : l = m ∧ s = t := by
  simp only [render_toList, List.cons_append, List.append_assoc, List.cons.injEq, true_and] at h
  obtain ⟨hvalue, hrest⟩ := spelled_append_inj readChar?_escapedChar escapedChar_head h
  obtain ⟨hkind, rfl⟩ := suffix_append_inj hrest
  cases l; cases m
  exact ⟨by rw [mk.injEq]; exact ⟨String.toList_inj.1 hvalue, hkind⟩, rfl⟩

theorem unbroken_render (l : Literal) : Unbroken l.render.toList := by
  simp only [render_toList, unbroken_cons, unbroken_append]
  refine ⟨by decide, fun c hc => ?_, by decide, unbroken_suffix l.kind⟩
  obtain ⟨d, -, hc⟩ := List.mem_flatMap.1 hc
  exact unbroken_escapedChar d c hc

end Literal

/-! ## Values -/

namespace Value

theorem render_append_inj {v w : Value} {s t : List Char}
    (h : v.render.toList ++ ' ' :: s = w.render.toList ++ ' ' :: t) : v = w ∧ s = t := by
  have hapart (r : Resource) (l : Literal) (s t : List Char) :
      r.render.toList ++ s ≠ l.render.toList ++ t := by
    cases r <;>
      simp [Resource.render, render_uri_toList, BlankNode.render, Literal.render_toList]
  cases v with
  | resource r =>
    cases w with
    | resource q =>
      obtain ⟨rfl, rfl⟩ := resource_append_inj h
      exact ⟨rfl, rfl⟩
    | literal m => exact absurd h (hapart _ _ _ _)
  | literal l =>
    cases w with
    | resource q => exact absurd h.symm (hapart _ _ _ _)
    | literal m =>
      obtain ⟨rfl, rfl⟩ := Literal.render_append_inj h
      exact ⟨rfl, rfl⟩

theorem unbroken_render (v : Value) : Unbroken v.render.toList := by
  cases v with
  | resource r => exact unbroken_resource r
  | literal l => exact l.unbroken_render

end Value

/-! ## Statements -/

namespace Statement

variable {a b : Statement}

/-- The graphs of a statement, each with a blank after it. -/
def graphsPart (graphs : List Uri) : List Char := graphs.flatMap fun u => u.render.toList ++ [' ']

/-- What is printed, and one blank after it, so that each position has its blank. -/
theorem render_toList (s : Statement) :
    s.render.toList ++ [' '] = s.subject.render.toList ++ ' ' ::
      (s.predicate.render.toList ++ ' ' ::
        (s.object.render.toList ++ ' ' :: graphsPart s.contexts.toList)) := by
  have hgraphs (graphs : List Uri) :
      (graphs.map fun u => " " ++ u.render).flatMap String.toList ++ [' '] =
        ' ' :: graphsPart graphs := by
    induction graphs with
    | nil => rfl
    | cons u graphs ih =>
      rw [List.map_cons, List.flatMap_cons, List.append_assoc, ih]
      simp [graphsPart]
  have hcontexts : (String.join (s.contextList.map fun c => " " ++ c.render)).toList ++ [' '] =
      ' ' :: graphsPart s.contexts.toList := by
    rw [String.toList_join, contextList, List.map_map]
    exact hgraphs s.contexts.toList
  simp only [render, String.toList_append, List.append_assoc, hcontexts]
  simp

theorem graphsPart_inj {us vs : List Uri} (h : graphsPart us = graphsPart vs) : us = vs := by
  unfold graphsPart at h
  induction us generalizing vs with
  | nil =>
    cases vs with
    | nil => rfl
    | cons v vs => simp at h
  | cons u us ih =>
    cases vs with
    | nil => simp at h
    | cons v vs =>
      simp only [List.flatMap_cons, List.append_assoc] at h
      obtain ⟨rfl, hrest⟩ := uri_append_inj h
      rw [ih (List.cons.inj hrest).2]

theorem unbroken_graphsPart (us : List Uri) : Unbroken (graphsPart us) := by
  intro c hc
  obtain ⟨u, -, hc⟩ := List.mem_flatMap.1 hc
  have hu : Unbroken (u.render.toList ++ [' ']) :=
    unbroken_append.2 ⟨unbroken_uri u, by simp [Unbroken]⟩
  exact hu c hc

theorem unbroken_render (s : Statement) : Unbroken s.render.toList := by
  have hall : Unbroken (s.render.toList ++ [' ']) := by
    simp only [render_toList, unbroken_append, unbroken_cons]
    exact ⟨unbroken_resource _, by decide, unbroken_uri _, by decide, s.object.unbroken_render,
      by decide, unbroken_graphsPart _⟩
  exact (unbroken_append.1 hall).1

theorem eq_of_render_eq (h : a.render = b.render) : a = b := by
  have hlists : a.render.toList ++ [' '] = b.render.toList ++ [' '] := by rw [h]
  rw [render_toList, render_toList] at hlists
  obtain ⟨hsubject, hlists⟩ := resource_append_inj hlists
  obtain ⟨hpredicate, hlists⟩ := uri_append_inj hlists
  obtain ⟨hobject, hlists⟩ := Value.render_append_inj (List.cons.inj hlists).2
  have hcontexts : a.contexts = b.contexts :=
    Std.ExtTreeSet.toList_inj.1 (graphsPart_inj hlists)
  have htriple : a.triple = b.triple := Triple.ext hsubject hpredicate hobject
  cases a; cases b
  rw [mk.injEq]
  exact ⟨htriple, hcontexts⟩

/-- Two statements are printed alike only if they are the same, whatever their terms are made of,
and each is printed on one line. -/
theorem render_unambiguous (a b : Statement) :
    (a.render = b.render ↔ a = b) ∧ '\n' ∉ a.render.toList ∧ '\r' ∉ a.render.toList :=
  ⟨⟨eq_of_render_eq, congrArg render⟩, fun h => (a.unbroken_render _ h).1 rfl,
    fun h => (a.unbroken_render _ h).2 rfl⟩

end Statement

end QuadStore
