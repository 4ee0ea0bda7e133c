import Mathlib
import QuadStore.Proofs.Encoder.Legible
/-!
# Telling vertices apart

In a graph that can be read a vertex has the values of its identity under the keys of identities,
and no others. So a vertex that a middle or literal node may stand for has that node's shape.
-/

namespace QuadStore

namespace EntrySet

variable {s : EntrySet} {key : String} {o : Option String}

theorem values_eq_toList : s.values key = o.toList ↔ ∀ x, ⟨key, x⟩ ∈ s ↔ o = some x := by
  constructor
  · intro h x
    rw [← mem_values, h, Option.mem_toList]
  · intro h
    exact eq_toList_of_nodup (nodup_values s key) fun x => mem_values.trans (h x)

end EntrySet

namespace Part

theorem identity_of_shape {v : Vocabulary} {p : Part} {kind : String} {l : Option Literal}
    (h : p.shape = some (kind, l)) : v.identity p = .unkeyed (v.identityProperties kind l) := by
  cases p <;> simp only [shape, Option.some.injEq, Prod.mk.injEq, reduceCtorEq] at h <;>
    obtain ⟨rfl, rfl⟩ := h <;> rfl

end Part

namespace Legible

variable {v : Vocabulary} {F : Facts Part} {p q : Part} {g : Graph} {P : Placement Part}
  {key x : String} {kind : String} {l : Option Literal} {o : Option String}

/-- Under the key of an identity a vertex has the values of its own identity only. -/
theorem identityKey_mem (hF : Legible v F) (hv : v.Valid) (hkey : key ∈ v.identityKeys) :
    .property p ⟨key, x⟩ ∈ F ↔ .vertex p ∈ F ∧ (v.identity p).Has ⟨key, x⟩ := by
  have hword := Vocabulary.identityKeys_subset hkey
  constructor
  · intro h
    refine ⟨hF.grounded _ h, ?_⟩
    generalize hentry : (⟨key, x⟩ : Entry) = entry at h
    cases hF.property _ _ h with
    | identity hhas => exact hhas
    | value s p l => exact absurd (Entry.mk.inj hentry).1.symm (hv.text_ne p hword)
    | valueContext s p l c =>
      exact absurd (Entry.mk.inj hentry).1.symm (hv.contextsKeyOf_ne _ _ hword)
    | record hm c => exact absurd ((Entry.mk.inj hentry).1 ▸ hkey) hv.contextsKey_notMem
  · rintro ⟨hp, hhas⟩
    exact hF.settled.facts p hp (Identity.property_mem.2 ⟨rfl, hhas⟩)

/-- A vertex has the kind of its shape. -/
theorem kind_mem (hF : Legible v F) (hv : v.Valid) :
    .property p ⟨v.kindKey, x⟩ ∈ F ↔
      .vertex p ∈ F ∧ ∃ l, p.shape = some (x, l) := by
  have hkey : ∀ l, (v.kindKey, some x) ∈ v.identityProperties x l :=
    fun l => List.mem_cons_self ..
  rw [hF.identityKey_mem hv (Vocabulary.fst_mem_identityKeys (hkey none))]
  refine and_congr_right fun _ => ?_
  cases hshape : p.shape with
  | none =>
    obtain ⟨r, rfl⟩ := Part.shape_eq_none.1 hshape
    simp only [reduceCtorEq, exists_false, iff_false]
    intro hhas
    exact hv.resourceKey_ne r (hkey none) (congrArg Entry.key hhas).symm
  | some y =>
    obtain ⟨kind, l⟩ := y
    rw [Part.identity_of_shape hshape]
    have hself : (v.kindKey, some kind) ∈ v.identityProperties kind l :=
      List.mem_cons_self ..
    constructor
    · intro hhas
      rw [Option.some.inj (hv.identityProperties_unique hself hhas)]
      exact ⟨l, rfl⟩
    · rintro ⟨l', heq⟩
      rw [(Prod.mk.inj (Option.some.inj heq)).1] at hself ⊢
      exact hself

/-- An unkeyed vertex has the values of its shape. -/
theorem values_of_shape (hF : Legible v F) (hv : v.Valid) (h : g.Shows P (F))
    (hp : .vertex p ∈ F) (hshape : p.shape = some (kind, l))
    (hmem : (key, o) ∈ v.identityProperties kind l) :
    (g.propertiesOf (P.vertex p)).values key = o.toList := by
  rw [EntrySet.values_eq_toList]
  intro x
  rw [h.mem_propertiesOf hp, hF.identityKey_mem hv (Vocabulary.fst_mem_identityKeys hmem),
    Part.identity_of_shape hshape]
  constructor
  · rintro ⟨-, hhas⟩
    exact hv.identityProperties_unique hmem hhas
  · rintro rfl
    exact ⟨hp, hmem⟩

/-- The vertex of a resource has no values of a shape. -/
theorem values_of_resource {r : Resource} (hF : Legible v F) (hv : v.Valid)
    (h : g.Shows P (F)) (hp : .vertex (.resource r) ∈ F)
    (hmem : (key, o) ∈ v.identityProperties kind l) :
    (g.propertiesOf (P.vertex (.resource r))).values key = [] := by
  rw [← Option.toList_none, EntrySet.values_eq_toList]
  intro x
  rw [h.mem_propertiesOf hp, hF.identityKey_mem hv (Vocabulary.fst_mem_identityKeys hmem)]
  simp only [reduceCtorEq, iff_false, not_and]
  intro _ hhas
  have hentry : ⟨key, x⟩ = v.resourceEntry r := hhas
  exact hv.resourceKey_ne r hmem (congrArg Entry.key hentry).symm

theorem literal_of_parts {l l' : Option Literal} (hvalue : l.map (·.value) = l'.map (·.value))
    (hdatatype : (l.bind (·.datatype)).map (·.text) = (l'.bind (·.datatype)).map (·.text))
    (hlanguage : (l.bind (·.language)).map (·.text) = (l'.bind (·.language)).map (·.text)) :
    l = l' := by
  cases l <;> cases l' <;> simp only [Option.map_none, Option.map_some, reduceCtorEq] at hvalue
  case none.none => rfl
  case some.some l l' =>
    have hdatatype : l.datatype = l'.datatype :=
      Option.map_injective (fun a b h => Uri.ext h) hdatatype
    have hok := Literal.ofParts_self l
    rw [Option.some.inj hvalue, hdatatype, show l.language.map (·.text) = l'.language.map (·.text)
      from hlanguage, Literal.ofParts_self] at hok
    cases hok
    rfl

/-- A node stands for the vertices of its shape. -/
theorem identityHolds_iff (hF : Legible v F) (hv : v.Valid) (h : g.Shows P (F))
    (hq : .vertex q ∈ F) (hshape : p.shape = some (kind, l)) :
    Fragment.identityHolds g (v.identity p) (P.vertex q) ↔ q.shape = p.shape := by
  rw [Part.identity_of_shape hshape]
  simp only [Fragment.identityHolds, List.all_eq_true, beq_iff_eq, Prod.forall]
  constructor
  · intro hall
    cases hq' : q.shape with
    | none =>
      obtain ⟨r, rfl⟩ := Part.shape_eq_none.1 hq'
      have hkind : (v.kindKey, some kind) ∈ v.identityProperties kind l :=
        List.mem_cons_self ..
      have hvalues := hall _ _ hkind
      rw [hF.values_of_resource hv h hq hkind] at hvalues
      cases hvalues
    | some y =>
      obtain ⟨kind', l'⟩ := y
      have hsame : ∀ key o o', (key, o) ∈ v.identityProperties kind l →
          (key, o') ∈ v.identityProperties kind' l' → o = o' := by
        intro key o o' hmem hmem'
        have hvalues := hall key o hmem
        rw [hF.values_of_shape hv h hq hq' hmem'] at hvalues
        cases o <;> cases o' <;> simp_all
      simp only [Vocabulary.identityProperties] at hsame
      have hkind : some kind = some kind' := hsame _ _ _ (.head _) (.head _)
      have hliteral : l = l' := literal_of_parts
        (hsame _ _ _ (.tail _ (.head _)) (.tail _ (.head _)))
        (hsame _ _ _ (.tail _ (.tail _ (.head _))) (.tail _ (.tail _ (.head _))))
        (hsame _ _ _ (.tail _ (.tail _ (.tail _ (.head _)))) (.tail _ (.tail _ (.tail _ (.head _)))))
      rw [hshape, ← Option.some.inj hkind, hliteral]
  · intro hsame key o hmem
    exact hF.values_of_shape hv h hq (hsame.trans hshape) hmem

end Legible

end QuadStore
