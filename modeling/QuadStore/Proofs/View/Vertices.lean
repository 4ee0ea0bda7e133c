import Mathlib
import QuadStore.Proofs.Encoder.Shapes
import QuadStore.View
/-!
# Reading vertices

In a graph that can be read a vertex reads as what it stands for: whether it is a middle or a
literal vertex, which resource it is and which literal it holds.
-/

namespace QuadStore

namespace Part

/-- The resource that a vertex stands for. -/
def resource? : Part → Option Resource
  | resource r => some r
  | _ => none

/-- The literal that a vertex holds. -/
def literal? (p : Part) : Option Literal := p.shape.bind (·.2)

/-- Whether a vertex is of a kind. -/
def ofKind (p : Part) (kind : String) : Bool := p.shape.any fun x => x.1 == kind

theorem ofKind_of_middleOf {m : Part} {t : Triple} (h : m.middleOf? = some t) :
    m.ofKind middleKind := by
  obtain rfl | rfl := middleOf_eq h <;> rfl

end Part

namespace Vocabulary

/-- The keys of resources are not those of other vertices. -/
theorem Valid.keyedKey_notMem {v : Vocabulary} {key kind : String} {l : Option Literal}
    {o : Option String} (hv : v.Valid) (hkey : key = v.uriKey ∨ key = v.blankKey) :
    (key, o) ∉ v.identityProperties kind l := by
  intro h
  have hnodup := (List.nodup_cons.1 hv.nodup_keys).2
  simp only [identityKeys, List.nodup_cons, List.mem_cons, not_or, List.not_mem_nil] at hnodup
  simp only [identityProperties, List.mem_cons, Prod.mk.injEq, List.not_mem_nil, or_false] at h
  rcases hkey with rfl | rfl
  · tauto
  · tauto

end Vocabulary

namespace Encoder

variable {e : Encoder} {F : Facts Part} {g : Graph} {P : Placement Part} {p : Part}
  {key : String} {v : VertexId}

/-- How a graph is read back. -/
abbrev view (e : Encoder) (g : Graph) : View := ⟨g, e.vocabulary⟩

theorem readUri_text (u : Uri) : View.readUri u.text = .ok u := by
  rw [View.readUri, Uri.ofString_text]
  rfl

theorem mapM_readUri (o : Option Uri) : (o.map Uri.text).mapM View.readUri = .ok o := by
  cases o with
  | none => rfl
  | some u =>
    change (do return some (← View.readUri u.text)) = _
    rw [readUri_text]
    rfl

theorem firstValue_ok (h : v ∈ g.vertices) :
    (e.view g).firstValue v key = .ok ((g.propertiesOf v).values key).head? := by
  simp only [View.firstValue, Graph.property_ok h]
  rfl

section Vertex

variable (hv : e.vocabulary.Valid) (hF : Legible e.vocabulary F) (hg : g.Shows P F)
  (hp : .vertex p ∈ F)

include hv hF hg hp

theorem isOfKind_ok (kind : String) :
    (e.view g).isOfKind (P.vertex p) kind = .ok (p.ofKind kind) := by
  have hvalues : (g.propertiesOf (P.vertex p)).values e.vocabulary.kindKey =
      (p.shape.map (·.1)).toList := by
    cases hshape : p.shape with
    | none =>
      obtain ⟨r, rfl⟩ := Part.shape_eq_none.1 hshape
      have hkind : (e.vocabulary.kindKey, some kind) ∈ e.vocabulary.identityProperties kind none :=
        .head _
      exact hF.values_of_resource hv hg hp hkind
    | some x => exact hF.values_of_shape hv hg hp hshape (.head _)
  simp only [View.isOfKind, Graph.property_ok (hg.vertex_mem hp), hvalues, Part.ofKind]
  cases p.shape with
  | none => rfl
  | some x =>
    obtain ⟨other, l⟩ := x
    simp only [Option.map_some, Option.toList_some, Option.any_some]
    change Except.ok ([other].contains kind) = _
    rw [List.contains_cons, List.contains_nil, Bool.or_false, Bool.beq_comm]

theorem isMiddle_ok : (e.view g).isMiddle (P.vertex p) = .ok (p.ofKind middleKind) :=
  isOfKind_ok hv hF hg hp middleKind

theorem isLiteral_ok : (e.view g).isLiteral (P.vertex p) = .ok (p.ofKind literalKind) :=
  isOfKind_ok hv hF hg hp literalKind

theorem identityValues (o : Option String) (hkey : key ∈ e.vocabulary.identityKeys)
    (h : ∀ x, (e.vocabulary.identity p).Has ⟨key, x⟩ ↔ o = some x) :
    (g.propertiesOf (P.vertex p)).values key = o.toList := by
  rw [EntrySet.values_eq_toList]
  intro x
  rw [hg.mem_propertiesOf hp, hF.identityKey_mem hv hkey, and_iff_right hp, h]

theorem resource_ok : (e.view g).resource (P.vertex p) = .ok p.resource? := by
  have hmem := hg.vertex_mem hp
  have hne : e.vocabulary.uriKey ≠ e.vocabulary.blankKey :=
    hv.ne (i := 0) (j := 1) rfl rfl (by decide)
  have hkeys : e.vocabulary.uriKey ∈ e.vocabulary.identityKeys ∧
      e.vocabulary.blankKey ∈ e.vocabulary.identityKeys := by simp [Vocabulary.identityKeys]
  have huri := fun o => identityValues hv hF hg hp o hkeys.1
  have hblank := fun o => identityValues hv hF hg hp o hkeys.2
  simp only [View.resource, firstValue_ok hmem]
  cases p with
  | resource r =>
    cases r with
    | uri u =>
      rw [huri (some u.text) fun x => by
        simp [Vocabulary.identity, Identity.Has, Vocabulary.resourceEntry, eq_comm]]
      change (do return some (Resource.uri (← View.readUri u.text))) = _
      rw [readUri_text]
      rfl
    | blank b =>
      rw [huri none fun x => by
          simp [Vocabulary.identity, Identity.Has, Vocabulary.resourceEntry, hne],
        hblank (some b.label) fun x => by
          simp [Vocabulary.identity, Identity.Has, Vocabulary.resourceEntry, eq_comm]]
      change (do return some (Resource.blank (← View.corrupt (BlankNode.ofString b.label)))) = _
      simp only [BlankNode.ofString_label]
      rfl
  | middle t | literal t | holder t =>
    rw [huri none fun x => iff_of_false (hv.keyedKey_notMem (.inl rfl)) (by simp),
      hblank none fun x => iff_of_false (hv.keyedKey_notMem (.inr rfl)) (by simp)]
    rfl

theorem literalOf_ok : (e.view g).literalOf (P.vertex p) = .ok p.literal? := by
  have hmem := hg.vertex_mem hp
  simp only [View.literalOf, firstValue_ok hmem, Part.literal?]
  cases hshape : p.shape with
  | none =>
    obtain ⟨r, rfl⟩ := Part.shape_eq_none.1 hshape
    have hvalue : (e.vocabulary.literalValueKey, none) ∈
        e.vocabulary.identityProperties middleKind none := .tail _ (.head _)
    rw [hF.values_of_resource hv hg hp hvalue]
    rfl
  | some x =>
    obtain ⟨kind, l⟩ := x
    rw [hF.values_of_shape hv hg hp hshape (.tail _ (.head _)),
      hF.values_of_shape hv hg hp hshape (.tail _ (.tail _ (.head _))),
      hF.values_of_shape hv hg hp hshape (.tail _ (.tail _ (.tail _ (.head _))))]
    cases l with
    | none => rfl
    | some l =>
      simp only [Option.map_some, Option.bind_some, Option.head?_toList]
      change (do
        let datatype ← (l.datatype.map Uri.text).mapM View.readUri
        return some (← View.corrupt
          (Literal.ofParts l.value datatype (l.language.map LanguageTag.text)))) = _
      rw [mapM_readUri]
      change (do return some (← View.corrupt
        (Literal.ofParts l.value l.datatype (l.language.map LanguageTag.text)))) = _
      rw [Literal.ofParts_self]
      rfl

end Vertex

end Encoder

/-! ## Keys of a literal's contexts -/

namespace View

/-- Where all keys are internal there is no statement to read, whatever their values are. -/
theorem propertyStatements_of_internal {w : View} {x : VertexId} (hx : x ∈ w.graph.vertices)
    (h : ∀ key ∈ (w.graph.propertiesOf x).keys, isInternal key) (predicate : Option Uri) :
    w.propertyStatements x predicate = .ok [] := by
  have hnone : ((w.graph.propertiesOf x).keys.filter fun key =>
      !isInternal key && predicate.all fun p => p.text == key) = [] :=
    List.filter_eq_nil_iff.2 fun key hkey => by simp [h key hkey]
  simp only [propertyStatements, Graph.propertyKeys_ok hx, stored]
  change (if (List.filter _ _).isEmpty then _ else _) = _
  rw [hnone]
  rfl

end View

namespace Vocabulary

/-- The key of a literal's contexts is taken for no predicate, for no word of the vocabulary and for
the key of no other predicate and literal; a reader finds no statement under such keys. -/
theorem contextsKeyOf_unmistakable {v : Vocabulary} (hvalid : v.validate = .ok ()) (p q : Uri)
    (l m : Literal) :
    isInternal (v.contextsKeyOf p l.encode) ∧
      (∀ name ∈ v.words, v.contextsKeyOf p l.encode ≠ name) ∧
      isInternal q.text = false ∧
      v.contextsKeyOf p l.encode ≠ q.text ∧
      (v.contextsKeyOf p l.encode = v.contextsKeyOf q m.encode ↔ p = q ∧ l = m) ∧
      ∀ (g : Graph) (x : VertexId) (predicate : Option Uri), x ∈ g.vertices →
        (∀ key ∈ (g.propertiesOf x).keys, ∃ r k, key = v.contextsKeyOf r (Literal.encode k)) →
        View.propertyStatements ⟨g, v⟩ x predicate = .ok [] := by
  have hv : v.Valid := valid_of_validate hvalid
  have hinternal : ∀ r k, isInternal (v.contextsKeyOf r (Literal.encode k)) :=
    fun r k => hv.isInternal_contextsKeyOf r k.encode
  refine ⟨hinternal p l, fun name hname => hv.contextsKeyOf_ne p l.encode hname, q.not_isInternal,
    (ne_of_isInternal q.not_isInternal (hinternal p l)).symm, ⟨contextsKeyOf_injective, ?_⟩, ?_⟩
  · rintro ⟨rfl, rfl⟩
    rfl
  · intro g x predicate hx hkeys
    refine View.propertyStatements_of_internal hx (fun key hkey => ?_) predicate
    obtain ⟨r, k, rfl⟩ := hkeys key hkey
    exact hinternal r k

/-- A predicate that contains what separates the parts of a key, and looks like a key itself. -/
theorem contextsKeyOf_unmistakable_separator :
    ({} : Vocabulary).validate = .ok () ∧
      ({} : Vocabulary).contextsKeyOf ⟨"a:_contexts:b#", by decide⟩ (Literal.plain "x").encode ≠
        ({} : Vocabulary).contextsKeyOf ⟨"a:_contexts:b", by decide⟩ (Literal.plain "#x").encode :=
  have hvalid : ({} : Vocabulary).validate = .ok () := by rfl
  have hkeys := contextsKeyOf_unmistakable hvalid ⟨"a:_contexts:b#", by decide⟩
    ⟨"a:_contexts:b", by decide⟩ (Literal.plain "x") (Literal.plain "#x")
  ⟨hvalid, fun h => absurd (hkeys.2.2.2.2.1.1 h).1 (by decide)⟩

end Vocabulary

end QuadStore
