import Mathlib
import QuadStore.Config.Basic
import QuadStore.Proofs.Term.Grammar
import QuadStore.Proofs.Term.Literal
/-!
# Names that never collide

The keys and labels of a valid vocabulary are internal and distinct, the text of a URI is never
internal, and the key of a literal's contexts tells the predicate and the literal.
-/

namespace QuadStore

/-! ## Texts of URIs -/

namespace Uri

theorem not_isInternal (u : Uri) : isInternal u.text = false := by
  have hvalid := u.valid
  unfold isUriText at hvalid
  unfold isInternal
  cases htext : u.text.toList with
  | nil => rfl
  | cons c rest =>
    rw [htext] at hvalid
    simp only [Bool.and_eq_true] at hvalid
    have hc : c ≠ '_' := by
      rintro rfl
      exact absurd hvalid.1 (by decide)
    simpa using hc

end Uri

namespace Literal

theorem encode_head (l : Literal) : ∃ s, l.encode.toList = '\x7b' :: s :=
  ⟨_, by rw [encode, Json.render, String.toList_ofList]; rfl⟩

end Literal

/-! ## Valid vocabularies -/

theorem forM_eq_ok {ε α : Type} {f : α → Except ε Unit} {xs : List α} :
    xs.forM f = .ok () ↔ ∀ x ∈ xs, f x = .ok () := by
  induction xs with
  | nil => simp [pure, Except.pure]
  | cons x xs ih =>
    change (f x >>= fun _ => xs.forM f) = .ok () ↔ _
    cases hx : f x with
    | error cause => simp [bind, Except.bind, hx]
    | ok _ =>
      simp only [bind, Except.bind, List.mem_cons, forall_eq_or_imp, hx, true_and]
      exact ih

theorem ne_of_isInternal {a b : String} (ha : isInternal a = false) (hb : isInternal b) :
    a ≠ b := by
  rintro rfl
  rw [ha] at hb
  cases hb

namespace Vocabulary

variable {v : Vocabulary}

/-- The keys and labels of a vocabulary. -/
def words (v : Vocabulary) : List String := v.names.map (·.2)

/-- What a valid vocabulary promises of its words. -/
structure Valid (v : Vocabulary) : Prop where
  internal : ∀ name ∈ v.words, isInternal name
  distinct : v.words.Nodup
  apart : ∀ name ∈ v.words, name ≠ v.literalContextPrefix →
    startsWith name v.literalContextPrefix = false

theorem Valid.ne (hv : v.Valid) {i j : Nat} {a b : String} (ha : v.words[i]? = some a)
    (hb : v.words[j]? = some b) (hij : i ≠ j) : a ≠ b := by
  rintro rfl
  exact hij ((List.getElem?_inj (List.getElem?_eq_some_iff.1 ha).1 hv.distinct).1
    (ha.trans hb.symm))

theorem contextEdgeLabel_mem (v : Vocabulary) : v.contextEdgeLabel ∈ v.words := by
  simp [words, names]

theorem contextsKey_mem (v : Vocabulary) : v.contextsKey ∈ v.words := by
  simp [words, names]

/-- The text of a URI is no word of the vocabulary. -/
theorem Valid.text_ne (hv : v.Valid) (u : Uri) {name : String} (hname : name ∈ v.words) :
    u.text ≠ name :=
  ne_of_isInternal u.not_isInternal (hv.internal _ hname)

theorem checkDistinct_ok {names : List (String × String)} (h : checkDistinct names = .ok ()) :
    (names.map (·.2)).Nodup := by
  induction names with
  | nil => exact List.nodup_nil
  | cons name rest ih =>
    obtain ⟨field, name⟩ := name
    unfold checkDistinct at h
    split at h
    · cases h
    · rename_i hfind
      rw [List.map_cons, List.nodup_cons]
      refine ⟨fun hmem => ?_, ih h⟩
      obtain ⟨other, hother, heq⟩ := List.mem_map.1 hmem
      have hnone := List.find?_eq_none.1 hfind other hother
      simp [heq] at hnone

theorem valid_of_validate (h : v.validate = .ok ()) : v.Valid := by
  have hchecks : (∀ name ∈ v.names, checkName name = .ok ()) ∧ checkDistinct v.names = .ok () ∧
      ∀ name ∈ v.names, checkApart v.literalContextPrefix name = .ok () := by
    simp only [validate] at h
    cases h₁ : v.names.forM checkName with
    | error cause => rw [h₁] at h; cases h
    | ok _ =>
      cases h₂ : checkDistinct v.names with
      | error cause => rw [h₁, h₂] at h; cases h
      | ok _ =>
        rw [h₁, h₂] at h
        exact ⟨forM_eq_ok.1 h₁, rfl, forM_eq_ok.1 h⟩
  obtain ⟨hnames, hdistinct, hapart⟩ := hchecks
  refine ⟨fun name hname => ?_, checkDistinct_ok hdistinct, fun name hname hne => ?_⟩
  · obtain ⟨⟨field, name⟩, hmem, rfl⟩ := List.mem_map.1 hname
    have hok := hnames _ hmem
    simp only [checkName] at hok
    split at hok
    · rename_i hinternal
      rw [isInternalName, Bool.and_eq_true] at hinternal
      exact hinternal.1
    · cases hok
  · obtain ⟨⟨field, name⟩, hmem, rfl⟩ := List.mem_map.1 hname
    have hok := hapart _ hmem
    have hfield : field ≠ "literal_context_prefix" := by
      rintro rfl
      simp [names] at hmem
      exact hne hmem
    simp only [checkApart] at hok
    split at hok
    · cases hok
    · rename_i hstart
      simp only [Bool.and_eq_true, bne_iff_ne, not_and, Bool.not_eq_true] at hstart
      exact hstart hfield

/-! ## Keys of a literal's contexts -/

theorem contextsKeyOf_toList (v : Vocabulary) (p : Uri) (encoded : String) :
    (v.contextsKeyOf p encoded).toList =
      v.literalContextPrefix.toList ++ (p.text.toList ++ '#' :: encoded.toList) := by
  simp [contextsKeyOf, String.toList_append]

theorem Valid.prefix_mem (v : Vocabulary) : v.literalContextPrefix ∈ v.words := by
  simp [words, names]

theorem Valid.isInternal_contextsKeyOf (hv : v.Valid) (p : Uri) (encoded : String) :
    isInternal (v.contextsKeyOf p encoded) := by
  have hinternal := hv.internal _ (prefix_mem v)
  unfold isInternal at hinternal ⊢
  rw [contextsKeyOf_toList, List.head?_append]
  cases hhead : v.literalContextPrefix.toList.head? <;> simp_all

theorem Valid.contextsKeyOf_ne (hv : v.Valid) (p : Uri) (encoded : String) {name : String}
    (hname : name ∈ v.words) : v.contextsKeyOf p encoded ≠ name := by
  rintro rfl
  by_cases hprefix : v.contextsKeyOf p encoded = v.literalContextPrefix
  · have hlength := congrArg (fun s => s.toList.length) hprefix
    simp only [contextsKeyOf_toList, List.length_append, List.length_cons] at hlength
    omega
  · have hstart := hv.apart _ hname hprefix
    rw [startsWith, contextsKeyOf_toList, ← Bool.not_eq_true, List.isPrefixOf_iff_prefix] at hstart
    exact hstart (List.prefix_append ..)

theorem append_cons_inj {α : Type} {x : α} {a b s t : List α} (ha : x ∉ a) (hb : x ∉ b)
    (h : a ++ x :: s = b ++ x :: t) : a = b ∧ s = t := by
  induction a generalizing b with
  | nil =>
    cases b with
    | nil => exact ⟨rfl, (List.cons.inj h).2⟩
    | cons c b => exact absurd ((List.cons.inj h).1 ▸ List.mem_cons_self ..) hb
  | cons c a ih =>
    cases b with
    | nil => exact absurd ((List.cons.inj h).1 ▸ List.mem_cons_self ..) ha
    | cons d b =>
      simp only [List.mem_cons, not_or, List.cons_append, List.cons.injEq] at ha hb h ⊢
      obtain ⟨rfl, h⟩ := h
      obtain ⟨rfl, rfl⟩ := ih ha.2 hb.2 h
      exact ⟨⟨rfl, rfl⟩, rfl⟩

/-- The key of a literal's contexts tells the predicate and the literal. -/
theorem contextsKeyOf_injective {p q : Uri} {l m : Literal}
    (h : v.contextsKeyOf p l.encode = v.contextsKeyOf q m.encode) : p = q ∧ l = m := by
  obtain ⟨s, hs⟩ := l.encode_head
  obtain ⟨t, ht⟩ := m.encode_head
  have hlist := congrArg String.toList h
  rw [contextsKeyOf_toList, contextsKeyOf_toList, List.append_cancel_left_eq, hs, ht] at hlist
  have hsplit : ∀ (u : Uri) (r : List Char), u.text.toList ++ '#' :: '\x7b' :: r =
      (u.text.toList ++ ['#']) ++ '\x7b' :: r := fun u r => by simp
  rw [hsplit, hsplit] at hlist
  have hbrace : ∀ u : Uri, '\x7b' ∉ u.text.toList ++ ['#'] := fun u => by
    rw [List.mem_append, not_or]
    exact ⟨u.brace_not_mem, by decide⟩
  obtain ⟨hp, hst⟩ := append_cons_inj (hbrace p) (hbrace q) hlist
  refine ⟨Uri.ext (String.toList_inj.1 (List.append_cancel_right hp)), Literal.encode_injective ?_⟩
  exact String.toList_inj.1 (by rw [hs, ht, hst])

end Vocabulary

end QuadStore
